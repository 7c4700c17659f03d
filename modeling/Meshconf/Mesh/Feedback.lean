import Meshconf.Mesh.Sessions

/-! # Congestion feedback between two rooms

Each session reports its losses to the other side on streams of their own. A room
starts its dispatchers without a control channel, so every report that reaches it is
discarded, and its bandwidth estimator never hears of it.
-/

namespace Meshconf.Mesh

open Bandwidth Bytes Control Transition

variable {Id : Type*} [LinearOrder Id] {t : Texts Id}

/-! ## What a room writes, starts and offers -/

def IsReport : ControlMessage → Prop
  | .congestionFeedback _ _ _ _ => True
  | _ => False

namespace Room

/-- No estimator has been offered a report, none was written, and no dispatcher can hand one on. -/
structure Quiet (r : Room Id) : Prop where
  bwTx : ∀ events, r.bwTx = some events → events = []
  written : ∀ conn msg, (conn, msg) ∈ r.written → ¬ IsReport msg
  tasks : ∀ task ∈ r.tasks, ∀ controlTx, task.kind = .dispatcher controlTx → controlTx = false

variable {r : Room Id}

/-- Only these three fields matter. -/
theorem Quiet.of_eq {r' : Room Id} (h : r.Quiet) (hbwTx : r'.bwTx = r.bwTx)
    (hwritten : r'.written = r.written) (htasks : r'.tasks = r.tasks) : r'.Quiet where
  bwTx := hbwTx ▸ h.bwTx
  written := hwritten ▸ h.written
  tasks := htasks ▸ h.tasks

theorem Quiet.new (endpoint : EndpointAddr Id) (media : MediaResources) :
    (new endpoint media).Quiet where
  bwTx events h := by
    have h : (if media.encoderConfig then some [] else none) = some events := h
    split_ifs at h
    exact (Option.some.inj h).symm
  written conn msg h := by cases h
  tasks task h := by cases h

theorem Quiet.write (h : r.Quiet) (conn : Connection Id) {msg : ControlMessage}
    (hmsg : ¬ IsReport msg) : (r.write conn msg).Quiet where
  bwTx := h.bwTx
  written conn' msg' hmem := by
    rcases List.mem_append.mp hmem with hmem | hmem
    · exact h.written conn' msg' hmem
    · obtain ⟨-, rfl⟩ := Prod.mk.inj (List.mem_singleton.mp hmem)
      exact hmsg
  tasks := h.tasks

theorem Quiet.broadcastPeerList (h : r.Quiet) : (r.broadcastPeerList t).Quiet where
  bwTx := h.bwTx
  written conn msg hmem := by
    rcases List.mem_append.mp hmem with hmem | hmem
    · exact h.written conn msg hmem
    · obtain ⟨conn', -, heq⟩ := List.mem_map.mp hmem
      obtain ⟨-, rfl⟩ := Prod.mk.inj heq
      exact id
  tasks := h.tasks

theorem Quiet.spawn (h : r.Quiet) {kinds : List TaskKind} (hkinds : .dispatcher true ∉ kinds)
    (p : Id) (conn : Connection Id) (session : ℕ) : (r.spawn kinds p conn session).Quiet where
  bwTx := h.bwTx
  written := h.written
  tasks task hmem controlTx hkind := by
    rcases List.mem_append.mp hmem with hmem | hmem
    · exact h.tasks task hmem controlTx hkind
    · obtain ⟨kind, hmem', rfl⟩ := List.mem_map.mp hmem
      cases controlTx with
      | true => exact absurd (hkind ▸ hmem') hkinds
      | false => rfl

theorem Quiet.spawnControlReader (h : r.Quiet) (p : Id) (conn : Connection Id) (session : ℕ) :
    (r.spawnControlReader p conn session).Quiet :=
  h.spawn (by simp) p conn session

theorem Quiet.addPeerWithMedia (h : r.Quiet) (p : Id) (conn : Connection Id)
    (addr : EndpointAddr Id) (session : ℕ) (controlSend : Option (Connection Id)) (name : String) :
    (r.addPeerWithMedia p conn addr session controlSend name).Quiet := by
  unfold Room.addPeerWithMedia
  split
  · exact h
  · have hmedia : (r.spawn [.dispatcher false, .jitterBuffer, .audioDecoder, .videoDecoder,
        .feedbackSender {}, .closedMonitor] p conn session).Quiet := h.spawn (by simp) _ _ _
    have hwatch : (Room.spawn _ [.pathWatcher .unknown] p conn session).Quiet :=
      hmedia.spawn (by simp) _ _ _
    exact hwatch.of_eq rfl rfl rfl

theorem Quiet.openControlAndAddPeer (h : r.Quiet) (p : Id) (conn : Connection Id)
    (addr : EndpointAddr Id) : (r.openControlAndAddPeer p conn addr).Quiet := by
  have hnew : r.newSession.Quiet := h.of_eq rfl rfl rfl
  exact hnew.addPeerWithMedia p conn addr r.sessions none ""

theorem Quiet.attachControl (h : r.Quiet) (p : Id) (conn : Connection Id) :
    (r.attachControl p conn).Quiet := by
  unfold Room.attachControl
  split
  · rename_i st hst
    exact (h.spawnControlReader p conn st.sessionCancel).of_eq rfl rfl rfl
  · exact (h.spawnControlReader p conn r.sessions).of_eq rfl rfl rfl

theorem Quiet.handleHello (h : r.Quiet) (conn : Connection Id) (addr : EndpointAddr Id)
    (name : String) : (r.handleHello t conn addr name).Quiet := by
  apply Quiet.broadcastPeerList
  apply Quiet.addPeerWithMedia
  exact (h.spawnControlReader conn.remoteId conn r.sessions).of_eq rfl rfl rfl

theorem Quiet.updateName (h : r.Quiet) (p : Id) (st : PeerState Id) (name : String) :
    (r.updateName p st name).Quiet := by
  unfold Room.updateName
  split
  · exact h.of_eq rfl rfl rfl
  · exact h

theorem Quiet.handleReceivedPeer (h : r.Quiet) (info : PeerInfo) :
    (r.handleReceivedPeer t info).1.Quiet := by
  rcases r.handleReceivedPeer_cases info with hr | ⟨p, st, -, -, -, hr⟩
  · rwa [hr]
  · rw [hr]
    exact h.updateName p st info.name

theorem Quiet.handlePeerDisconnected (h : r.Quiet) (p : Id) :
    (r.handlePeerDisconnected p).Quiet := by
  unfold Room.handlePeerDisconnected
  split
  · exact h
  · exact h.of_eq rfl rfl rfl

end Room

namespace Node

/-- A room of which nothing but peer lists is asked. -/
structure Quiet (n : Node Id) : Prop where
  room : n.room.Quiet
  events : ∀ p msg, .controlMsg p msg ∈ n.events → ¬ IsReport msg

variable {n n' : Node Id} {a : Action Id}

theorem Quiet.run (endpoint : EndpointAddr Id) (media : MediaResources)
    (initial : Option (EndpointAddr Id)) : (run (Room.new endpoint media) initial).Quiet := by
  cases initial with
  | none => exact ⟨.new endpoint media, by simp [Node.run]⟩
  | some addr => exact ⟨.new endpoint media, by simp [Node.run]⟩

theorem Quiet.enqueue (hn : n.Quiet) {e : RoomEvent Id}
    (he : ∀ p msg, e = .controlMsg p msg → ¬ IsReport msg) :
    ({ n with events := n.events ++ [e] } : Node Id).Quiet where
  room := hn.room
  events p msg hmem := by
    rcases List.mem_append.mp hmem with hmem | hmem
    · exact hn.events p msg hmem
    · exact he p msg (List.mem_singleton.mp hmem).symm

/-- Tasks that are not dispatchers may change or end. -/
theorem Quiet.setTasks (hn : n.Quiet) {i : ℕ} {task : Task Id} (htask : n.room.tasks[i]? = some task)
    {o : Option (Task Id)} (ho : ∀ task' ∈ o, ∀ controlTx, task'.kind ≠ .dispatcher controlTx) :
    (n.setTasks (Pool.update n.room.tasks i o)).Quiet where
  room :=
    { bwTx := hn.room.bwTx
      written := hn.room.written
      tasks := by
        intro task' hmem controlTx hkind
        rcases Pool.mem_update htask hmem with hmem | rfl
        · exact hn.room.tasks task' hmem controlTx hkind
        · exact absurd hkind (ho task' rfl controlTx) }
  events := hn.events

theorem Quiet.runTask (hn : n.Quiet) {i : ℕ} {task : Task Id} {a : TaskAction}
    (htask : n.room.tasks[i]? = some task) (ha : ∀ msg, a = .message msg → ¬ IsReport msg)
    (h : Ran t n i task a n') : n'.Quiet := by
  have hgone : (n.setTasks (Pool.update n.room.tasks i none)).Quiet := hn.setTasks htask (by simp)
  cases h with
  | message msg =>
    apply hn.enqueue
    rintro p msg' ⟨⟩
    exact ha msg rfl
  | readError => exact hgone.enqueue (by simp)
  | closed => exact hgone.enqueue (by simp)
  | @report _ sender _ _ _ _ _ =>
    have hreported : (n.setTasks (Pool.update n.room.tasks i
        (some { task with kind := .feedbackSender sender }))).Quiet := hn.setTasks htask (by simp)
    exact ⟨hreported.room, hn.events⟩
  | acceptBi s => exact ⟨hn.room, hn.events⟩
  | samePath kind => exact hn
  | path kind commands =>
    have hwatched : (n.setTasks (Pool.update n.room.tasks i
        (some { task with kind := .pathWatcher kind }))).Quiet := hn.setTasks htask (by simp)
    exact ⟨hwatched.room.of_eq rfl rfl rfl, hn.events⟩
  | exit => exact hgone

theorem Quiet.sayHello (hn : n.Quiet) (addr : EndpointAddr Id) (next : Connection Id → Phase Id) :
    (n.sayHello t addr next).Quiet :=
  ⟨hn.room.write _ id, hn.events⟩

/-- The events behind the first one. -/
theorem Quiet.tail (hn : n.Quiet) {e : RoomEvent Id} {events : List (RoomEvent Id)}
    (he : n.events = e :: events) {room : Room Id} (hroom : room.Quiet) (phase : Phase Id) :
    ({ n with events, room, phase } : Node Id).Quiet where
  room := hroom
  events p msg hmem := hn.events p msg (he ▸ List.mem_cons_of_mem _ hmem)

theorem Quiet.step (hn : n.Quiet) (ha : ∀ i msg, a = .task i (.message msg) → ¬ IsReport msg)
    (h : n.step t a = some n') : n'.Quiet := by
  cases stepped_of_step h with
  | joinConnected => exact hn.sayHello _ _
  | dialConnected => exact hn.sayHello _ _
  | joined => exact ⟨(hn.room.openControlAndAddPeer _ _ _).attachControl _ _, hn.events⟩
  | dialed =>
    exact ⟨((hn.room.openControlAndAddPeer _ _ _).attachControl _ _).broadcastPeerList, hn.events⟩
  | greeted => exact ⟨(hn.room.write _ id).handleHello _ _ _, hn.events⟩
  | listNext => exact ⟨hn.room.handleReceivedPeer _, hn.events⟩
  | listDial => exact ⟨hn.room.handleReceivedPeer _, hn.events⟩
  | disconnected hphase hevents =>
    exact hn.tail hevents (hn.room.handlePeerDisconnected _).broadcastPeerList _
  | duplicate hphase hevents => exact hn.tail hevents hn.room _
  | incoming hphase hevents => exact hn.tail hevents hn.room _
  | peerList hphase hevents => exact hn.tail hevents hn.room _
  | @feedback sender received dropped fractionLost jitterUs _ _ hevents =>
    -- No report is ever queued.
    have hreport : IsReport (.congestionFeedback received dropped fractionLost jitterUs) := trivial
    exact absurd hreport (hn.events sender _ (hevents ▸ List.mem_cons_self))
  | unexpected hphase hevents => exact hn.tail hevents hn.room _
  | tick => exact ⟨hn.room.broadcastPeerList, hn.events⟩
  | stop => exact ⟨hn.room.of_eq rfl rfl rfl, hn.events⟩
  | accept p =>
    have hcounted : ({ n with connections := n.connections + 1 } : Node Id).Quiet :=
      ⟨hn.room, hn.events⟩
    exact hcounted.enqueue (by simp)
  | task htask hran => exact hn.runTask htask (fun msg hmsg => ha _ msg (by rw [hmsg])) hran
  | readdress addrs => exact ⟨hn.room.of_eq rfl rfl rfl, hn.events⟩
  | compose => exact ⟨hn.room.of_eq rfl rfl rfl, hn.events⟩
  | _ => exact ⟨hn.room, hn.events⟩

end Node

/-! ## Two rooms -/

inductive Side | left | right
  deriving DecidableEq, Repr

def Side.other : Side → Side
  | .left => .right
  | .right => .left

/-- Two rooms, and the reports that are on their way between them. -/
structure Pair (Id : Type*) [LinearOrder Id] where
  node : Side → Node Id
  /-- Reports, with the side that they go to. -/
  flight : List (Side × ControlMessage) := []
  /-- The reports that have been delivered completely, and what their dispatcher did. -/
  delivered : List (Side × ControlMessage × Accepted) := []

namespace Pair

inductive Action (Id : Type*)
  /-- A step of a room in which no stream comes or goes. -/
  | run (s : Side) (a : Mesh.Action Id)
  /-- A control reader reads a message that the other room has written. -/
  | read (s : Side) (i k : ℕ)
  | report (s : Side) (i curReceived curDropped : ℕ)
  /-- A dispatcher accepts the stream of a report, all of it or its first `cut` bytes. -/
  | deliver (k i : ℕ) (cut : Option ℕ) (ending : Ending)

def start (endpoint : Side → EndpointAddr Id) (media : Side → MediaResources)
    (initial : Side → Option (EndpointAddr Id)) : Pair Id where
  node s := .run (Room.new (endpoint s) (media s)) (initial s)

def isLocal : Mesh.Action Id → Bool
  | .task _ (.message _) => false
  | .task _ (.report _ _) => false
  | .task _ (.acceptBi _) => false
  | _ => true

def set (p : Pair Id) (s : Side) (n : Node Id) : Pair Id :=
  { p with node := Function.update p.node s n }

def step (t : Texts Id) (p : Pair Id) : Action Id → Option (Pair Id)
  | .run s a => if isLocal a then ((p.node s).step t a).map (p.set s) else none
  | .read s i k =>
    (p.node s.other).room.written[k]?.bind fun m =>
      ((p.node s).step t (.task i (.message m.2))).map (p.set s)
  | .report s i curReceived curDropped =>
    ((p.node s).step t (.task i (.report curReceived curDropped))).bind fun n =>
      n.reports.getLast?.map fun m => { p.set s n with flight := p.flight ++ [(s.other, m.2)] }
  | .deliver k i cut ending =>
    p.flight[k]?.bind fun m =>
      let bytes := feedbackStream t.json m.2
      let stream : Stream := { input := cut.elim bytes bytes.take, ending }
      ((p.node m.1).step t (.task i (.acceptBi stream))).bind fun n =>
        n.bidi.getLast?.map fun b =>
          { p.set m.1 n with
            flight := Pool.update p.flight k none
            delivered :=
              if stream.input = bytes then p.delivered ++ [(m.1, m.2, b.2)] else p.delivered }

/-- No complete report has been discarded. -/
def NoneDiscarded (p : Pair Id) : Prop :=
  ∀ s msg fate, (s, msg, fate) ∈ p.delivered → fate ≠ .unhandled

/-- The estimator of the room has been offered the report. -/
def Offered (n : Node Id) (msg : ControlMessage) : Prop :=
  ∃ events received dropped fractionLost jitterUs, n.room.bwTx = some events ∧
    msg = .congestionFeedback received dropped fractionLost jitterUs ∧
    .receiverFeedback fractionLost jitterUs ∈ events

/-- Every complete report can still reach the estimator of its side, if that has one. -/
def CanBeOffered (t : Texts Id) (p : Pair Id) : Prop :=
  ∀ s msg fate, (s, msg, fate) ∈ p.delivered → (p.node s).room.bwTx.isSome →
    ∃ as q, Run (step t) Free p as q ∧ Offered (q.node s) msg

/-- The invariant of all runs. -/
structure Quiet (p : Pair Id) : Prop where
  node : ∀ s, (p.node s).Quiet
  delivered : ∀ s msg fate, (s, msg, fate) ∈ p.delivered → fate = .unhandled

variable {p q : Pair Id}

theorem Quiet.start (endpoint : Side → EndpointAddr Id) (media : Side → MediaResources)
    (initial : Side → Option (EndpointAddr Id)) : (start endpoint media initial).Quiet where
  node s := .run (endpoint s) (media s) (initial s)
  delivered s msg fate h := by cases h

theorem Quiet.set (hp : p.Quiet) (s : Side) {n : Node Id} (hn : n.Quiet) : (p.set s n).Quiet where
  node s' := by
    by_cases hs : s' = s
    · subst hs
      simpa [Pair.set] using hn
    · simpa [Pair.set, hs] using hp.node s'
  delivered := hp.delivered

/-- The dispatchers of a room discard every complete report. -/
theorem unhandled_of_acceptBi {n n' : Node Id} (hn : n.Quiet) {i : ℕ} {s : Stream}
    (h : n.step t (.task i (.acceptBi s)) = some n') {msg : ControlMessage}
    (hs : s.input = feedbackStream t.json msg) {b : Stream × Accepted}
    (hb : n'.bidi.getLast? = some b) : b.2 = .unhandled := by
  obtain ⟨task, htask, h⟩ := Option.bind_eq_some_iff.mp h
  cases Node.ran_of_runTask h with
  | acceptBi _ hkind =>
    obtain rfl := hn.room.tasks task (Pool.mem_of_getElem? htask) _ hkind
    obtain rfl : (s, acceptBi t.json false s) = b := by simpa using hb
    exact acceptBi_unhandled hs

theorem Quiet.step (hp : p.Quiet) {a : Action Id} (h : p.step t a = some q) : q.Quiet := by
  cases a with
  | run s a =>
    simp only [Pair.step] at h
    split_ifs at h with hlocal
    obtain ⟨n, hn, rfl⟩ := Option.map_eq_some_iff.mp h
    apply hp.set s
    refine (hp.node s).step ?_ hn
    rintro i msg rfl
    cases hlocal
  | read s i k =>
    obtain ⟨⟨conn, msg⟩, hmsg, h⟩ := Option.bind_eq_some_iff.mp h
    obtain ⟨n, hn, rfl⟩ := Option.map_eq_some_iff.mp h
    apply hp.set s
    refine (hp.node s).step ?_ hn
    rintro i' msg' ⟨⟩
    exact (hp.node s.other).room.written conn msg (Pool.mem_of_getElem? hmsg)
  | report s i curReceived curDropped =>
    obtain ⟨n, hn, h⟩ := Option.bind_eq_some_iff.mp h
    obtain ⟨m, -, rfl⟩ := Option.map_eq_some_iff.mp h
    have hset := hp.set s ((hp.node s).step (by simp) hn)
    exact ⟨hset.node, hset.delivered⟩
  | deliver k i cut ending =>
    obtain ⟨⟨s, msg⟩, hmsg, h⟩ := Option.bind_eq_some_iff.mp h
    obtain ⟨n, hn, h⟩ := Option.bind_eq_some_iff.mp h
    obtain ⟨b, hb, rfl⟩ := Option.map_eq_some_iff.mp h
    have hset := hp.set s ((hp.node s).step (by simp) hn)
    refine ⟨hset.node, ?_⟩
    intro s' msg' fate hmem
    dsimp only at hmem
    split_ifs at hmem with hwhole
    · rcases List.mem_append.mp hmem with hmem | hmem
      · exact hp.delivered s' msg' fate hmem
      · obtain ⟨rfl, rfl, rfl⟩ : s' = s ∧ msg' = msg ∧ fate = b.2 := by simpa using hmem
        exact unhandled_of_acceptBi (hp.node s') hn hwhole hb
    · exact hp.delivered s' msg' fate hmem

theorem Quiet.run {C : Pair Id → Action Id → Prop} {as : List (Action Id)} (hp : p.Quiet)
    (h : Run (Pair.step t) C p as q) : q.Quiet :=
  h.invariant (P := Quiet) (fun _ _ _ hp _ hs => hp.step hs) hp

theorem Quiet.not_offered (hp : p.Quiet) (s : Side) (msg : ControlMessage) :
    ¬ Offered (p.node s) msg := by
  rintro ⟨events, received, dropped, fractionLost, jitterUs, hevents, -, hmem⟩
  rw [(hp.node s).room.bwTx events hevents] at hmem
  cases hmem

/-- A complete report can be offered exactly if there is no estimator to offer it to. -/
theorem Quiet.canBeOffered_iff (hp : p.Quiet) : p.CanBeOffered t ↔
    ∀ s msg fate, (s, msg, fate) ∈ p.delivered → (p.node s).room.bwTx = none := by
  constructor
  · intro h s msg fate hmem
    by_contra hbw
    obtain ⟨as, q, hq, hoffered⟩ := h s msg fate hmem (Option.isSome_iff_ne_none.mpr hbw)
    exact (hp.run hq).not_offered s msg hoffered
  · intro h s msg fate hmem hbw
    rw [h s msg fate hmem] at hbw
    cases hbw

/--
In every reachable state of two rooms the complete reports are kept, each still on its way to the
estimator of its side, exactly if there have been none.
-/
theorem feedback_kept_iff {endpoint : Side → EndpointAddr Id} {media : Side → MediaResources}
    {initial : Side → Option (EndpointAddr Id)}
    (h : Reachable (Pair.step t) (Pair.start endpoint media initial) p) :
    p.NoneDiscarded ∧ p.CanBeOffered t ↔ p.delivered = [] := by
  obtain ⟨as, h⟩ := h
  have hp := (Quiet.start endpoint media initial).run h
  constructor
  · rintro ⟨hnone, -⟩
    apply List.eq_nil_iff_forall_not_mem.mpr
    rintro ⟨s, msg, fate⟩ hmem
    exact hnone s msg fate hmem (hp.delivered s msg fate hmem)
  · intro hnil
    rw [hp.canBeOffered_iff, NoneDiscarded, hnil]
    simp

/-! ## One report -/

/-- Peers 1 and 2, both with an estimator. The left one joins through the ticket of the right one. -/
def samplePair : Pair ℕ :=
  .start (fun | .left => ⟨1, []⟩ | .right => ⟨2, []⟩)
    (fun | .left => ⟨true, true, true, "a"⟩ | .right => ⟨true, true, true, "b"⟩)
    (fun | .left => some ⟨2, []⟩ | .right => none)

/-- The handshake, and the first report of the left side. -/
def joinAndReport : List (Action ℕ) :=
  [.run .right (.accept 1), .run .left (.connect true), .run .right .receive,
    .run .right (.greeted (some (.hello "addr 1" "a")) true),
    .run .left (.reply (some (.peerList [{ peerId := "2", addr := "addr 2", name := "b" }]))),
    .run .left .nextPeer, .run .left .nextPeer, .report .left 4 0 0]

/-- A report on its way is still kept. -/
theorem feedback_kept_joinAndReport : ∃ p : Pair ℕ, p.flight = [(.right, sampleReport)] ∧
    p.NoneDiscarded ∧ p.CanBeOffered sampleTexts := by
  obtain ⟨p, hp, hend⟩ := Option.map_eq_some_iff.mp
    (by decide : (exec (Pair.step sampleTexts) samplePair joinAndReport).map
      (fun p => (p.flight, p.delivered.length)) = some ([(.right, sampleReport)], 0))
  obtain ⟨hflight, hlength⟩ := Prod.mk.inj hend
  exact ⟨p, hflight,
    (feedback_kept_iff ⟨_, run_of_exec hp⟩).mpr (List.eq_nil_of_length_eq_zero hlength)⟩

/-- The report arrives completely, and is discarded. -/
theorem not_feedback_kept : ¬ ∀ (t : Texts ℕ) (endpoint : Side → EndpointAddr ℕ)
    (media : Side → MediaResources) (initial : Side → Option (EndpointAddr ℕ)) (p : Pair ℕ),
    Reachable (Pair.step t) (Pair.start endpoint media initial) p →
      p.NoneDiscarded ∧ p.CanBeOffered t := by
  intro h
  obtain ⟨p, hp, hdelivered⟩ := Option.map_eq_some_iff.mp
    (by decide +kernel : (exec (Pair.step sampleTexts) samplePair
      (joinAndReport ++ [.deliver 0 1 none .finished])).map (fun p => p.delivered) =
        some [(.right, sampleReport, .unhandled)])
  have hkept := h _ _ _ _ p ⟨_, run_of_exec hp⟩
  exact hkept.1 .right sampleReport .unhandled (by simp [hdelivered]) rfl

end Pair

end Meshconf.Mesh
