import Meshconf.Mesh.Node

/-! # The steps of a running room

One constructor per kind of step, with what the room finds and what it leaves behind.
Everything that is proved about all steps goes through these cases.
-/

namespace Meshconf.Mesh

open Bytes Control

variable {Id : Type*} [LinearOrder Id] {t : Texts Id}

/-- An entry of a received list changes at most the name of a known peer. -/
theorem Room.handleReceivedPeer_cases (r : Room Id) (info : PeerInfo) :
    (r.handleReceivedPeer t info).1 = r ∨
      ∃ p st, t.parsePublicKey info.peerId = some p ∧ p ≠ r.ourId ∧
        r.peers.lookup p = some st ∧
        (r.handleReceivedPeer t info).1 = r.updateName p st info.name := by
  unfold handleReceivedPeer
  split
  · exact .inl rfl
  rename_i p hp
  by_cases hour : p = r.ourId
  · rw [if_pos hour]
    exact .inl rfl
  rw [if_neg hour]
  split
  · rename_i st hst
    exact .inr ⟨p, st, hp, hour, hst, rfl⟩
  · split <;> exact .inl rfl

namespace Node

variable {n n' : Node Id}

theorem send_eq {e : RoomEvent Id} (h : n.send e = some n') :
    n' = { n with events := n.events ++ [e] } := by
  unfold send at h
  split_ifs at h
  exact (Option.some.inj h).symm

/-- The steps of the task at position `i`. -/
inductive Ran (t : Texts Id) (n : Node Id) (i : ℕ) (task : Task Id) :
    TaskAction → Node Id → Prop where
  | message (msg : ControlMessage) : task.kind = .controlReader →
      Ran t n i task (.message msg) { n with events := n.events ++ [.controlMsg task.peer msg] }
  | readError : task.kind = .controlReader →
      Ran t n i task .readError { n.setTasks (Pool.update n.room.tasks i none) with
        events := n.events ++ [.peerDisconnected task.peer task.conn] }
  | closed : task.kind = .closedMonitor → task.conn.serial ∈ n.closed →
      Ran t n i task .closed { n.setTasks (Pool.update n.room.tasks i none) with
        events := n.events ++ [.peerDisconnected task.peer task.conn] }
  | report {sender sender' : FeedbackSender} {curReceived curDropped : ℕ} {msg : ControlMessage} :
      task.kind = .feedbackSender sender → sender.report curReceived curDropped = (msg, sender') →
      Ran t n i task (.report curReceived curDropped)
        { n.setTasks (Pool.update n.room.tasks i
            (some { task with kind := .feedbackSender sender' })) with
          reports := n.reports ++ [(task.conn, msg)] }
  | acceptBi {controlTx : Bool} (s : Stream) : task.kind = .dispatcher controlTx →
      Ran t n i task (.acceptBi s)
        { n with bidi := n.bidi ++ [(s, acceptBi t.json controlTx s)] }
  | samePath (kind : ConnectionKind) : Ran t n i task (.path kind) n
  | path {lastKind : ConnectionKind} (kind : ConnectionKind)
      (commands : List (CompositorCommand Id)) : task.kind = .pathWatcher lastKind →
      Ran t n i task (.path kind) { n with
        room := { n.room with
          tasks := Pool.update n.room.tasks i (some { task with kind := .pathWatcher kind })
          commands } }
  | exit : n.exits task → Ran t n i task .exit (n.setTasks (Pool.update n.room.tasks i none))

theorem ran_of_runTask {i : ℕ} {task : Task Id} {a : TaskAction}
    (h : n.runTask t i task a = some n') : Ran t n i task a n' := by
  unfold runTask at h
  split at h
  · rename_i msg hkind
    obtain rfl := send_eq h
    exact .message msg hkind
  · rename_i hkind
    obtain rfl := send_eq h
    exact .readError hkind
  · rename_i hkind
    split_ifs at h with hclosed
    obtain rfl := send_eq h
    exact .closed hkind hclosed
  · rename_i hkind
    obtain rfl := Option.some.inj h
    exact .report hkind rfl
  · rename_i s hkind
    obtain rfl := Option.some.inj h
    exact .acceptBi s hkind
  · rename_i kind hkind
    split_ifs at h
    · obtain rfl := Option.some.inj h
      exact .samePath kind
    · obtain rfl := Option.some.inj h
      exact .path kind _ hkind
  · split_ifs at h with hexit
    obtain rfl := Option.some.inj h
    exact .exit hexit
  · cases h

theorem Ran.phase {i : ℕ} {task : Task Id} {a : TaskAction} (h : Ran t n i task a n') :
    n'.phase = n.phase := by
  cases h <;> rfl

/-- The steps of the loop, of the accept loop and of the outside world. -/
inductive Stepped (t : Texts Id) (n : Node Id) : Action Id → Node Id → Prop where
  | joinFailed {addr : EndpointAddr Id} : n.phase = .join addr →
      Stepped t n (.connect false) { n with phase := .stopped }
  | joinConnected {addr : EndpointAddr Id} : n.phase = .join addr →
      Stepped t n (.connect true) (n.sayHello t addr fun conn => .joined conn addr)
  | dialFailed {p : Id} {addr : EndpointAddr Id} {rest : List PeerInfo} :
      n.phase = .dial p addr rest →
      Stepped t n (.connect false) { n with phase := .peerList rest }
  | dialConnected {p : Id} {addr : EndpointAddr Id} {rest : List PeerInfo} :
      n.phase = .dial p addr rest →
      Stepped t n (.connect true) (n.sayHello t addr fun conn => .dialed p conn addr rest)
  | joined {msg : Option ControlMessage} {conn : Connection Id} {addr : EndpointAddr Id}
      {peers : List PeerInfo} : n.phase = .joined conn addr → expectPeerList msg = some peers →
      Stepped t n (.reply msg) { n with
        room := (n.room.openControlAndAddPeer conn.remoteId conn addr).attachControl
          conn.remoteId conn
        phase := .peerList peers }
  | joinRefused {msg : Option ControlMessage} {conn : Connection Id} {addr : EndpointAddr Id} :
      n.phase = .joined conn addr → expectPeerList msg = none →
      Stepped t n (.reply msg) { n with phase := .stopped }
  | dialed {msg : Option ControlMessage} {p : Id} {conn : Connection Id} {addr : EndpointAddr Id}
      {rest peers : List PeerInfo} : n.phase = .dialed p conn addr rest →
      expectPeerList msg = some peers →
      Stepped t n (.reply msg) { n with
        room := ((n.room.openControlAndAddPeer p conn addr).attachControl p conn).broadcastPeerList t
        phase := .peerList rest }
  | dialRefused {msg : Option ControlMessage} {p : Id} {conn : Connection Id}
      {addr : EndpointAddr Id} {rest : List PeerInfo} : n.phase = .dialed p conn addr rest →
      expectPeerList msg = none →
      Stepped t n (.reply msg) { n with phase := .peerList rest }
  | greeted {msg : Option ControlMessage} {answered : Bool} {conn : Connection Id}
      {addr : EndpointAddr Id} {name : String} : n.phase = .greet conn →
      introduction t msg answered = some (addr, name) →
      Stepped t n (.greeted msg answered) { n with
        room := (n.room.write conn (n.room.buildPeerList t)).handleHello t conn addr name
        phase := .idle }
  | greetingFailed {msg : Option ControlMessage} {answered : Bool} {conn : Connection Id} :
      n.phase = .greet conn → introduction t msg answered = none →
      Stepped t n (.greeted msg answered) { n with phase := .idle }
  | listDone : n.phase = .peerList [] →
      Stepped t n .nextPeer { n with phase := .idle, accepting := true }
  | listNext {info : PeerInfo} {rest : List PeerInfo} : n.phase = .peerList (info :: rest) →
      Stepped t n .nextPeer
        { n with room := (n.room.handleReceivedPeer t info).1, phase := .peerList rest }
  | listDial {info : PeerInfo} {rest : List PeerInfo} {p : Id} {addr : EndpointAddr Id} :
      n.phase = .peerList (info :: rest) →
      (n.room.handleReceivedPeer t info).2 = some (p, addr) →
      p ∉ (n.room.handleReceivedPeer t info).1.peers →
      Stepped t n .nextPeer
        { n with room := (n.room.handleReceivedPeer t info).1, phase := .dial p addr rest }
  | disconnected {p : Id} {c : Connection Id} {events : List (RoomEvent Id)} : n.phase = .idle →
      n.events = .peerDisconnected p c :: events →
      Stepped t n .receive
        { n with events, room := (n.room.handlePeerDisconnected p).broadcastPeerList t }
  | duplicate {conn : Connection Id} {events : List (RoomEvent Id)} : n.phase = .idle →
      n.events = .incomingConnection conn :: events → conn.remoteId ∈ n.room.peers →
      Stepped t n .receive { n with events }
  | incoming {conn : Connection Id} {events : List (RoomEvent Id)} : n.phase = .idle →
      n.events = .incomingConnection conn :: events → conn.remoteId ∉ n.room.peers →
      Stepped t n .receive { n with events, phase := .greet conn }
  | peerList {sender : Id} {peers : List PeerInfo} {events : List (RoomEvent Id)} :
      n.phase = .idle → n.events = .controlMsg sender (.peerList peers) :: events →
      Stepped t n .receive { n with events, phase := .peerList peers }
  | feedback {sender : Id} {received dropped : ℕ} {fractionLost : ℚ} {jitterUs : ℕ}
      {events : List (RoomEvent Id)} : n.phase = .idle →
      n.events = .controlMsg sender
        (.congestionFeedback received dropped fractionLost jitterUs) :: events →
      Stepped t n .receive { n with events, room := n.room.offerFeedback fractionLost jitterUs }
  | unexpected {sender : Id} {addr name : String} {events : List (RoomEvent Id)} :
      n.phase = .idle → n.events = .controlMsg sender (.hello addr name) :: events →
      Stepped t n .receive { n with events }
  | tick : n.phase = .idle → Stepped t n .tick { n with room := n.room.broadcastPeerList t }
  | stop : n.phase = .idle → n.cancelled →
      Stepped t n .stop { n with room := n.room.cleanupAllPeers, phase := .stopped }
  | accept (p : Id) : n.accepting → Stepped t n (.accept p) { n with
      connections := n.connections + 1
      events := n.events ++ [.incomingConnection ⟨n.connections, p⟩] }
  | task {i : ℕ} {task : Task Id} {a : TaskAction} {m : Node Id} :
      n.room.tasks[i]? = some task → Ran t n i task a m → Stepped t n (.task i a) m
  | close (serial : ℕ) : Stepped t n (.close serial) { n with closed := serial :: n.closed }
  | cancel : Stepped t n .cancel { n with cancelled := true }
  | readdress (addrs : List String) : Stepped t n (.readdress addrs)
      { n with room := { n.room with ourAddrs := addrs } }
  | compose : Stepped t n .compose
      { n with room := { n.room with commands := n.room.commands.tail } }

theorem stepped_of_connect {ok : Bool} (h : n.connect t ok = some n') :
    Stepped t n (.connect ok) n' := by
  unfold connect at h
  split at h
  · rename_i addr hphase
    split_ifs at h with hok <;> obtain rfl := Option.some.inj h
    · exact hok ▸ .joinConnected hphase
    · exact Bool.eq_false_of_not_eq_true hok ▸ .joinFailed hphase
  · rename_i p addr rest hphase
    split_ifs at h with hok <;> obtain rfl := Option.some.inj h
    · exact hok ▸ .dialConnected hphase
    · exact Bool.eq_false_of_not_eq_true hok ▸ .dialFailed hphase
  · cases h

theorem stepped_of_reply {msg : Option ControlMessage} (h : n.reply t msg = some n') :
    Stepped t n (.reply msg) n' := by
  unfold reply at h
  split at h
  · rename_i conn addr hphase
    split at h <;> obtain rfl := Option.some.inj h
    · exact .joined hphase (by assumption)
    · exact .joinRefused hphase (by assumption)
  · rename_i p conn addr rest hphase
    split at h <;> obtain rfl := Option.some.inj h
    · exact .dialed hphase (by assumption)
    · exact .dialRefused hphase (by assumption)
  · cases h

theorem stepped_of_greeted {msg : Option ControlMessage} {answered : Bool}
    (h : n.greeted t msg answered = some n') : Stepped t n (.greeted msg answered) n' := by
  unfold Node.greeted at h
  split at h
  · rename_i conn hphase
    split at h <;> obtain rfl := Option.some.inj h
    · exact .greeted hphase (by assumption)
    · exact .greetingFailed hphase (by assumption)
  · cases h

theorem stepped_of_nextPeer (h : n.nextPeer t = some n') : Stepped t n .nextPeer n' := by
  unfold nextPeer at h
  split at h
  · obtain rfl := Option.some.inj h
    exact .listDone (by assumption)
  · rename_i info rest hphase
    have hnext := Stepped.listNext (t := t) hphase
    split at h
    · rename_i room hroom
      obtain rfl := Option.some.inj h
      rwa [hroom] at hnext
    · rename_i room p addr hroom
      split_ifs at h with hp <;> obtain rfl := Option.some.inj h
      · rwa [hroom] at hnext
      · have hdial := Stepped.listDial (t := t) hphase (congrArg Prod.snd hroom)
        rw [hroom] at hdial
        exact hdial hp
  · cases h

theorem stepped_of_receive (h : n.receive t = some n') : Stepped t n .receive n' := by
  unfold receive at h
  split at h
  · obtain rfl := Option.some.inj h
    exact .disconnected (by assumption) (by assumption)
  · split_ifs at h <;> obtain rfl := Option.some.inj h
    · exact .duplicate (by assumption) (by assumption) (by assumption)
    · exact .incoming (by assumption) (by assumption) (by assumption)
  · obtain rfl := Option.some.inj h
    exact .peerList (by assumption) (by assumption)
  · obtain rfl := Option.some.inj h
    exact .feedback (by assumption) (by assumption)
  · obtain rfl := Option.some.inj h
    exact .unexpected (by assumption) (by assumption)
  · cases h

theorem stepped_of_step {a : Action Id} (h : n.step t a = some n') : Stepped t n a n' := by
  cases a with
  | connect ok => exact stepped_of_connect h
  | reply msg => exact stepped_of_reply h
  | greeted msg answered => exact stepped_of_greeted h
  | nextPeer => exact stepped_of_nextPeer h
  | receive => exact stepped_of_receive h
  | tick =>
    simp only [step] at h
    split at h
    · obtain rfl := Option.some.inj h
      exact .tick (by assumption)
    · cases h
  | stop =>
    simp only [step] at h
    split at h
    · obtain rfl := Option.some.inj h
      exact .stop (by assumption) (by assumption)
    · cases h
  | accept p =>
    simp only [step] at h
    split_ifs at h with haccepting
    obtain rfl := send_eq h
    exact .accept p haccepting
  | task i a =>
    obtain ⟨task, htask, h⟩ := Option.bind_eq_some_iff.mp h
    exact .task htask (ran_of_runTask h)
  | close serial =>
    obtain rfl := Option.some.inj h
    exact .close serial
  | cancel =>
    obtain rfl := Option.some.inj h
    exact .cancel
  | readdress addrs =>
    obtain rfl := Option.some.inj h
    exact .readdress addrs
  | compose =>
    obtain rfl := Option.some.inj h
    exact .compose

end Node

end Meshconf.Mesh
