import Meshconf.Mesh.Network
import Meshconf.Mesh.Sessions

/-! # Rooms as parties

Of a room, only its handshakes matter here: whom it dials, which connections it has
accepted, and on which of them its sessions run.
-/

namespace Meshconf.Mesh

open Control Transition

variable {Id : Type*}

/-- The incoming connections in a queue. -/
def incomings (events : List (RoomEvent Id)) : List (ℕ × Id) :=
  events.filterMap fun
    | .incomingConnection conn => some (conn.serial, conn.remoteId)
    | _ => none

theorem incomings_append (events events' : List (RoomEvent Id)) :
    incomings (events ++ events') = incomings events ++ incomings events' :=
  List.filterMap_append

variable [LinearOrder Id] {t : Texts Id}

theorem Room.connOf_entered (r : Room Id) (p : Id) (conn : Connection Id) (addr : EndpointAddr Id) :
    ((r.openControlAndAddPeer p conn addr).attachControl p conn).connOf =
      Function.update r.connOf p (some ((r.connOf p).getD conn)) := by
  rw [connOf_attachControl, connOf_openControlAndAddPeer]

namespace Node

/-- The ticket is redeemed, or there was none. -/
def joined (n : Node Id) : Bool :=
  match n.phase with
  | .join _ => false
  | .joined _ _ => false
  | .stopped => n.accepting
  | _ => true

def party (n : Node Id) : Contacts.Party Id where
  joined := n.joined
  accepting := n.accepting
  dialing := n.dialing.map EndpointAddr.id
  awaiting := n.awaiting.map Connection.serial
  queue := n.greeting.toList.map (fun conn => (conn.serial, conn.remoteId)) ++ incomings n.events
  entry p := (n.room.connOf p).map Connection.serial
  next := n.connections

/-- The accept loop starts once the first peer list is handled. -/
structure Lively (n : Node Id) : Prop where
  joining : n.joined = false → n.accepting = false
  idle : n.phase = .idle → n.accepting = true
  greet : ∀ conn, n.phase = .greet conn → n.accepting = true ∧ n.room.connOf conn.remoteId = none

variable {n n' : Node Id} {conn : Connection Id}

/-- Of two rooms in the same phase, only the rest is compared. -/
theorem party_eq (hphase : n'.phase = n.phase) (hacc : n'.accepting = n.accepting)
    (hevents : incomings n'.events = incomings n.events) (hentry : n'.room.connOf = n.room.connOf)
    (hnext : n'.connections = n.connections) : n'.party = n.party := by
  simp only [party, joined, dialing, awaiting, greeting, hphase, hacc, hevents, hentry, hnext]

theorem Ran.party {i : ℕ} {task : Task Id} {a : TaskAction} (h : Ran t n i task a n') :
    n'.party = n.party := by
  cases h with
  | message msg => exact party_eq rfl rfl (by simp [incomings]) rfl rfl
  | readError => exact party_eq rfl rfl (by simp [incomings]) rfl rfl
  | closed => exact party_eq rfl rfl (by simp [incomings]) rfl rfl
  | _ => exact party_eq rfl rfl rfl rfl rfl

theorem Lively.run (endpoint : EndpointAddr Id) (media : MediaResources)
    (initial : Option (EndpointAddr Id)) : (run (Room.new endpoint media) initial).Lively := by
  cases initial <;> constructor <;> simp [Node.run, joined]

/-- Steps that do not end a phase. -/
theorem Lively.of_phase (hn : n.Lively) (hphase : n'.phase = n.phase)
    (hacc : n'.accepting = n.accepting)
    (hentry : ∀ conn, n.phase = .greet conn → n'.room.connOf = n.room.connOf) : n'.Lively where
  joining hj := by
    rw [hacc]
    apply hn.joining
    simpa only [joined, hphase, hacc] using hj
  idle h := hacc.trans (hn.idle (hphase.symm.trans h))
  greet conn h := by
    have hgreet := hphase.symm.trans h
    rw [hacc, hentry conn hgreet]
    exact hn.greet conn hgreet

/-- Steps into a phase that asks for nothing. -/
theorem Lively.of_joined (hj : n'.joined = true) (hidle : n'.phase ≠ .idle)
    (hgreet : n'.greeting = none) : n'.Lively where
  joining h := (Bool.false_ne_true (h.symm.trans hj)).elim
  idle h := absurd h hidle
  greet conn h := by simp only [greeting, h, reduceCtorEq] at hgreet

theorem Lively.of_stopped (hphase : n'.phase = .stopped) : n'.Lively where
  joining h := by simpa only [joined, hphase] using h
  idle h := by cases hphase.symm.trans h
  greet conn h := by cases hphase.symm.trans h

theorem Lively.of_idle (hphase : n'.phase = .idle) (hacc : n'.accepting = true) : n'.Lively where
  joining h := by simp only [joined, hphase, Bool.true_eq_false] at h
  idle _ := hacc
  greet conn h := by cases hphase.symm.trans h

theorem Lively.step {a : Action Id} (hn : n.Lively) (h : n.step t a = some n') : n'.Lively := by
  cases stepped_of_step h with
  | joinFailed => exact .of_stopped rfl
  | joinConnected hphase =>
    constructor
    · exact fun _ => hn.joining (by simp only [joined, hphase])
    · exact fun h => by cases h
    · exact fun conn h => by cases h
  | dialFailed => exact .of_joined rfl (by simp) rfl
  | dialConnected => exact .of_joined rfl (by simp [sayHello]) rfl
  | joined => exact .of_joined rfl (by simp) rfl
  | joinRefused => exact .of_stopped rfl
  | dialed => exact .of_joined rfl (by simp) rfl
  | dialRefused => exact .of_joined rfl (by simp) rfl
  | greeted hphase => exact .of_idle rfl (hn.greet _ hphase).1
  | greetingFailed hphase => exact .of_idle rfl (hn.greet _ hphase).1
  | listDone => exact .of_idle rfl rfl
  | listNext => exact .of_joined rfl (by simp) rfl
  | listDial => exact .of_joined rfl (by simp) rfl
  | disconnected hphase => exact .of_idle hphase (hn.idle hphase)
  | incoming hphase _ hp =>
    constructor
    · exact fun h => by cases h
    · exact fun h => by cases h
    · rintro conn h
      cases h
      exact ⟨hn.idle hphase, Room.connOf_eq_none.mpr hp⟩
  | peerList => exact .of_joined rfl (by simp) rfl
  | stop => exact .of_stopped rfl
  | task _ hran =>
    exact hn.of_phase hran.phase (by cases hran <;> rfl) fun _ _ => by cases hran <;> rfl
  | _ => exact hn.of_phase rfl rfl fun _ _ => rfl

/-! ## The operations on the network -/

theorem party_connect (h : n.step t (.connect true) = some n') :
    n'.party = { n.party with
      dialing := none, awaiting := some n.connections, next := n.connections + 1 } := by
  cases stepped_of_step h with
  | joinConnected hphase =>
    simp only [party, joined, dialing, awaiting, greeting, hphase, sayHello]
    rfl
  | dialConnected hphase =>
    simp only [party, joined, dialing, awaiting, greeting, hphase, sayHello]
    rfl

theorem party_hangUp (hn : n.Lively) (h : n.step t (.connect false) = some n') :
    n'.party = { n.party with dialing := none } := by
  cases stepped_of_step h with
  | joinFailed hphase =>
    have hacc := hn.joining (by simp only [joined, hphase])
    simp only [party, joined, dialing, awaiting, greeting, hphase, hacc]
    rfl
  | dialFailed hphase =>
    simp only [party, joined, dialing, awaiting, greeting, hphase]
    rfl

theorem party_accept {p : Id} (h : n.step t (.accept p) = some n') :
    n.accepting = true ∧ n'.party = { n.party with
      queue := n.party.queue ++ [(n.connections, p)], next := n.connections + 1 } := by
  cases stepped_of_step h with
  | accept p hacc =>
    refine ⟨hacc, ?_⟩
    simp only [party, incomings_append, ← List.append_assoc]
    rfl

theorem entry_enroll {room : Room Id} {p : Id} (hnone : n.room.connOf p = none)
    (h : room.connOf = Function.update n.room.connOf p (some ((n.room.connOf p).getD conn))) :
    (fun q => (room.connOf q).map Connection.serial) =
      Function.update (fun q => (n.room.connOf q).map Connection.serial) p (some conn.serial) := by
  funext q
  rw [h, hnone]
  by_cases hq : q = p
  · subst hq
    simp
  · simp [hq]

theorem party_reply {msg : Option ControlMessage} {peers : List PeerInfo}
    (hmsg : expectPeerList msg = some peers) (hconn : n.awaiting = some conn)
    (hlisted : ∀ p conn addr rest, n.phase = .dialed p conn addr rest → conn.remoteId = p)
    (hnone : n.room.connOf conn.remoteId = none) (h : n.step t (.reply msg) = some n') :
    n'.party = { n.party with
      joined := true, awaiting := none,
      entry := Function.update n.party.entry conn.remoteId (some conn.serial) } := by
  cases stepped_of_step h with
  | @joined _ conn' addr _ hphase hpeers =>
    obtain rfl : conn' = conn := by simpa only [awaiting, hphase, Option.some_inj] using hconn
    have hentry := entry_enroll hnone (n.room.connOf_entered conn'.remoteId conn' addr)
    simp only [party, Node.joined, dialing, awaiting, greeting, hphase, hentry]
    rfl
  | @dialed _ p conn' addr rest _ hphase hpeers =>
    obtain rfl : conn' = conn := by simpa only [awaiting, hphase, Option.some_inj] using hconn
    obtain rfl := hlisted p conn' addr rest hphase
    have hentry := entry_enroll hnone (n.room.connOf_entered conn'.remoteId conn' addr)
    simp only [party, Node.joined, dialing, awaiting, greeting, hphase,
      Room.connOf_broadcastPeerList, hentry]
    rfl
  | joinRefused hphase hnone => cases hmsg.symm.trans hnone
  | dialRefused hphase hnone => cases hmsg.symm.trans hnone

theorem party_giveUp {msg : Option ControlMessage} (hn : n.Lively)
    (hmsg : expectPeerList msg = none) (h : n.step t (.reply msg) = some n') :
    n'.party = { n.party with awaiting := none } := by
  cases stepped_of_step h with
  | joined hphase hpeers => cases hmsg.symm.trans hpeers
  | dialed hphase hpeers => cases hmsg.symm.trans hpeers
  | joinRefused hphase =>
    have hacc := hn.joining (by simp only [joined, hphase])
    simp only [party, joined, dialing, awaiting, greeting, hphase, hacc]
    rfl
  | dialRefused hphase =>
    simp only [party, joined, dialing, awaiting, greeting, hphase]
    rfl

theorem party_greeted {msg : Option ControlMessage} {answered : Bool}
    {intro : EndpointAddr Id × String} (hmsg : introduction t msg answered = some intro)
    (hn : n.Lively) (hconn : n.greeting = some conn)
    (h : n.step t (.greeted msg answered) = some n') :
    n'.party = { n.party with
      queue := n.party.queue.tail,
      entry := Function.update n.party.entry conn.remoteId (some conn.serial) } := by
  cases stepped_of_step h with
  | @greeted _ _ conn' addr name hphase =>
    obtain rfl : conn' = conn := by simpa only [greeting, hphase, Option.some_inj] using hconn
    have hentry := entry_enroll (hn.greet conn' hphase).2
      ((n.room.write conn' (n.room.buildPeerList t)).connOf_handleHello (t := t) conn' addr name)
    simp only [party, joined, dialing, awaiting, greeting, hphase, hentry]
    rfl
  | greetingFailed hphase hnone => cases hmsg.symm.trans hnone

theorem party_refuse {msg : Option ControlMessage} {answered : Bool}
    (hmsg : introduction t msg answered = none) (h : n.step t (.greeted msg answered) = some n') :
    n'.party = { n.party with queue := n.party.queue.tail } := by
  cases stepped_of_step h with
  | greeted hphase hsome => cases hmsg.symm.trans hsome
  | greetingFailed hphase =>
    simp only [party, joined, dialing, awaiting, greeting, hphase]
    rfl

/-! ## The other steps -/

/-- A session ends. -/
def Forgets (n : Node Id) : Action Id → Prop
  | .receive => disconnects (n.events.take 1) ≠ []
  | .stop => True
  | _ => False

/-- What a step without the network does to the handshakes of a room. -/
inductive Moved (n : Node Id) (a : Action Id) (n' : Node Id) : Prop where
  | keep : n'.party = n.party → Moved n a n'
  | settle : n.joined → n'.party = { n.party with accepting := true } → Moved n a n'
  | call {p : Id} {addr : EndpointAddr Id} {rest : List PeerInfo} : n'.phase = .dial p addr rest →
      n.joined → n.awaiting = none → n.room.connOf p = none →
      n'.party = { n.party with dialing := some addr.id } → Moved n a n'
  | ignore (conn : Connection Id) : (conn.serial, conn.remoteId) ∈ n.party.queue.head? →
      n.room.connOf conn.remoteId ≠ none →
      n'.party = { n.party with queue := n.party.queue.tail } → Moved n a n'
  | forget (entry : Id → Option ℕ) : n.Forgets a →
      (∀ p, entry p = none ∨ entry p = n.party.entry p) →
      n'.party = { n.party with entry } → Moved n a n'

theorem party_tail {e : RoomEvent Id} {events : List (RoomEvent Id)} {room : Room Id}
    {phase : Phase Id} (hphase : n.phase = .idle) (hevents : n.events = e :: events)
    (he : incomings [e] = []) (hroom : room.connOf = n.room.connOf)
    (hnext : phase = .idle ∨ ∃ peers, phase = .peerList peers) :
    ({ n with events, room, phase } : Node Id).party = n.party := by
  have htail : incomings n.events = incomings events := by
    rw [hevents, ← List.singleton_append, incomings_append, he, List.nil_append]
  rcases hnext with rfl | ⟨peers, rfl⟩ <;>
    simp only [party, joined, dialing, awaiting, greeting, hphase, htail, hroom]

theorem moved_of_step {a : Action Id} (ha : Network.isLocal a) (hn : n.Lively)
    (h : n.step t a = some n') : Moved n a n' := by
  cases stepped_of_step h with
  | listDone hphase =>
    refine .settle (by simp only [joined, hphase]) ?_
    simp only [party, joined, dialing, awaiting, greeting, hphase]
  | listNext hphase =>
    refine .keep ?_
    simp only [party, joined, dialing, awaiting, greeting, hphase, Room.connOf_handleReceivedPeer]
  | listDial hphase hdial hp =>
    have hnone := Room.connOf_eq_none.mpr hp
    rw [Room.connOf_handleReceivedPeer] at hnone
    refine .call rfl (by simp only [joined, hphase]) (by simp only [awaiting, hphase]) hnone ?_
    simp only [party, joined, dialing, awaiting, greeting, hphase, Room.connOf_handleReceivedPeer]
    rfl
  | @disconnected p c events hphase hevents =>
    have htail : incomings n.events = incomings events := by rw [hevents]; rfl
    refine .forget (fun q => ((Function.update n.room.connOf p none) q).map Connection.serial)
      (by simp [Forgets, hevents, disconnects]) (fun q => ?_) ?_
    · by_cases hq : q = p
      · exact .inl (by simp [hq])
      · exact .inr (by simp [party, hq])
    · simp only [party, joined, dialing, awaiting, greeting, hphase, htail,
        Room.connOf_broadcastPeerList, Room.connOf_handlePeerDisconnected]
  | @duplicate conn events hphase hevents hp =>
    have hqueue : n.party.queue = (conn.serial, conn.remoteId) :: incomings events := by
      simp only [party, greeting, hphase, hevents]
      rfl
    refine .ignore conn (by rw [hqueue]; rfl) (mt Room.connOf_eq_none.mp (not_not.mpr hp)) ?_
    rw [hqueue]
    simp only [party, joined, dialing, awaiting, greeting, hphase]
    rfl
  | incoming hphase hevents =>
    refine .keep ?_
    simp only [party, joined, dialing, awaiting, greeting, hphase, hevents]
    rfl
  | peerList hphase hevents => exact .keep (party_tail hphase hevents rfl rfl (.inr ⟨_, rfl⟩))
  | feedback hphase hevents =>
    exact .keep (party_tail hphase hevents rfl rfl (.inl hphase))
  | unexpected hphase hevents => exact .keep (party_tail hphase hevents rfl rfl (.inl hphase))
  | tick => exact .keep (party_eq rfl rfl rfl rfl rfl)
  | stop hphase =>
    refine .forget (fun _ => none) trivial (fun _ => .inl rfl) ?_
    simp only [party, joined, dialing, awaiting, greeting, hphase, hn.idle hphase]
    rfl
  | task _ hran => exact .keep hran.party
  | close => exact .keep (party_eq rfl rfl rfl rfl rfl)
  | cancel => exact .keep (party_eq rfl rfl rfl rfl rfl)
  | readdress => exact .keep (party_eq rfl rfl rfl rfl rfl)
  | compose => exact .keep (party_eq rfl rfl rfl rfl rfl)
  | _ => cases ha

end Node

namespace Network

/-- The handshakes of all rooms. -/
def contacts (net : Network Id) : Contacts.State Id ControlMessage where
  started := net.started
  joined i := (net.node i).elim false Node.joined
  accepting i := (net.node i).elim false Node.accepting
  dialing i := (net.node i).bind fun n => n.party.dialing
  awaiting i := (net.node i).bind fun n => n.party.awaiting
  queue i := (net.node i).elim [] fun n => n.party.queue
  entry i p := (net.node i).bind fun n => n.party.entry p
  next i := (net.node i).elim 0 Node.connections
  links := net.links

variable {net : Network Id} {i : Id} {n n' : Node Id}

theorem contacts_party (hn : net.node i = some n) : net.contacts.party i = n.party := by
  simp only [Contacts.State.party, contacts, hn]
  rfl

theorem contacts_joined (hn : net.node i = some n) : net.contacts.joined i = n.joined :=
  congrArg (·.joined) (contacts_party hn)

theorem contacts_accepting (hn : net.node i = some n) : net.contacts.accepting i = n.accepting :=
  congrArg (·.accepting) (contacts_party hn)

theorem contacts_dialing (hn : net.node i = some n) :
    net.contacts.dialing i = n.dialing.map EndpointAddr.id :=
  congrArg (·.dialing) (contacts_party hn)

theorem contacts_awaiting (hn : net.node i = some n) :
    net.contacts.awaiting i = n.awaiting.map Connection.serial :=
  congrArg (·.awaiting) (contacts_party hn)

theorem contacts_queue (hn : net.node i = some n) : net.contacts.queue i = n.party.queue :=
  congrArg (·.queue) (contacts_party hn)

theorem contacts_entry (hn : net.node i = some n) (p : Id) :
    net.contacts.entry i p = (n.room.connOf p).map Connection.serial :=
  congrFun (congrArg (·.entry) (contacts_party hn)) p

theorem contacts_next (hn : net.node i = some n) : net.contacts.next i = n.connections :=
  congrArg (·.next) (contacts_party hn)

theorem contacts_set : (net.set i n').contacts = net.contacts.put i n'.party := by
  simp only [contacts, set, Contacts.State.put]
  congr 1
  · exact Function.comp_update (fun o : Option (Node Id) => o.elim false Node.joined)
      net.node i (some n')
  · exact Function.comp_update (fun o : Option (Node Id) => o.elim false Node.accepting)
      net.node i (some n')
  · exact Function.comp_update (fun o : Option (Node Id) => o.bind fun n => n.party.dialing)
      net.node i (some n')
  · exact Function.comp_update (fun o : Option (Node Id) => o.bind fun n => n.party.awaiting)
      net.node i (some n')
  · exact Function.comp_update (fun o : Option (Node Id) => o.elim [] fun n => n.party.queue)
      net.node i (some n')
  · exact Function.comp_update (fun (o : Option (Node Id)) p => o.bind fun n => n.party.entry p)
      net.node i (some n')
  · exact Function.comp_update (fun o : Option (Node Id) => o.elim 0 Node.connections)
      net.node i (some n')

/-- A step that leaves the handshakes of a room as they are. -/
theorem contacts_set_same (hn : net.node i = some n) (h : n'.party = n.party) :
    (net.set i n').contacts = net.contacts := by
  rw [contacts_set, h, ← contacts_party hn, Contacts.State.put_party]

end Network

end Meshconf.Mesh
