import Meshconf.Mesh.Steps
import Meshconf.Transition.Run
import Meshconf.Transition.Tokens
import Meshconf.Transition.Totals

/-! # The bookkeeping of a room

The peers of a room and its two broadcasters form a table of sessions, with the tasks as
watchers of their tokens. Peers are entered only behind a completed handshake, into all
tables and with all their tasks at once, so a handshake that fails leaves no trace.
-/

namespace Meshconf.Mesh

open Control Transition

variable {Id : Type*} [LinearOrder Id] {t : Texts Id}

/-- The broadcasters that repeat the table of peers. -/
inductive Medium | audio | video

namespace Room

/-- The session with a peer, and the token of its tasks. -/
def entryOf (r : Room Id) (p : Id) : Option (Connection Id × ℕ) :=
  (r.peers.lookup p).map fun st => (st.conn, st.sessionCancel)

def table (r : Room Id) : Table Medium Id (Connection Id) where
  entry := r.entryOf
  mirror
    | .audio => fun p => r.audioBroadcaster.peers.lookup p
    | .video => fun p => r.videoBroadcaster.peers.lookup p
  cancelled := {token | token ∈ r.cancelled}
  made := r.sessions
  watchers := {w | ∃ task ∈ r.tasks, (task.peer, task.session) = w}

/-- The task belongs to the current session with its peer, or has been told to stop. -/
def Watches (r : Room Id) (task : Task Id) : Prop :=
  task.session ∈ r.cancelled ∨
    ∃ st, r.peers.lookup task.peer = some st ∧ st.sessionCancel = task.session

/-- The tables agree, and no session that they hold has been cancelled. -/
structure Bookkept (r : Room Id) : Prop where
  audio : ∀ p, r.audioBroadcaster.peers.lookup p = (r.peers.lookup p).map PeerState.conn
  video : ∀ p, r.videoBroadcaster.peers.lookup p = (r.peers.lookup p).map PeerState.conn
  live : ∀ p st, r.peers.lookup p = some st → st.sessionCancel ∉ r.cancelled

/-- The tables are as before, and no task is new. -/
structure Unchanged (r r' : Room Id) : Prop where
  peers : r'.peers = r.peers
  audioBroadcaster : r'.audioBroadcaster = r.audioBroadcaster
  videoBroadcaster : r'.videoBroadcaster = r.videoBroadcaster
  tasks : ∀ task ∈ r'.tasks, ∃ task' ∈ r.tasks,
    task'.peer = task.peer ∧ task'.conn = task.conn ∧ task'.session = task.session

variable {r r' : Room Id} {p : Id} {conn : Connection Id} {addr : EndpointAddr Id} {session : ℕ}

theorem entryOf_eq_some {token : ℕ} :
    r.entryOf p = some (conn, token) ↔
      ∃ st, r.peers.lookup p = some st ∧ st.conn = conn ∧ st.sessionCancel = token := by
  simp [entryOf]

theorem entryOf_eq_none : r.entryOf p = none ↔ p ∉ r.peers := by
  rw [entryOf, Option.map_eq_none_iff, AList.lookup_eq_none]

theorem watches_iff {task : Task Id} :
    r.Watches task ↔ r.table.Watches task.peer task.session := by
  refine or_congr Iff.rfl ?_
  constructor
  · rintro ⟨st, hst, hsession⟩
    exact ⟨st.conn, entryOf_eq_some.mpr ⟨st, hst, rfl, hsession⟩⟩
  · rintro ⟨conn, hentry⟩
    obtain ⟨st, hst, -, hsession⟩ := entryOf_eq_some.mp hentry
    exact ⟨st, hst, hsession⟩

theorem bookkept_of_sound (h : r.table.Sound) : r.Bookkept where
  audio p := by
    have := h.mirror .audio p
    rwa [show r.table.entry p = r.entryOf p from rfl, entryOf, Option.map_map] at this
  video p := by
    have := h.mirror .video p
    rwa [show r.table.entry p = r.entryOf p from rfl, entryOf, Option.map_map] at this
  live p st hst := h.live p st.conn st.sessionCancel (entryOf_eq_some.mpr ⟨st, hst, rfl, rfl⟩)

theorem Unchanged.refl (r : Room Id) : r.Unchanged r :=
  ⟨rfl, rfl, rfl, fun task htask => ⟨task, htask, rfl, rfl, rfl⟩⟩

theorem Unchanged.trans {r₁ r₂ r₃ : Room Id} (h : r₁.Unchanged r₂) (h' : r₂.Unchanged r₃) :
    r₁.Unchanged r₃ where
  peers := h'.peers.trans h.peers
  audioBroadcaster := h'.audioBroadcaster.trans h.audioBroadcaster
  videoBroadcaster := h'.videoBroadcaster.trans h.videoBroadcaster
  tasks task htask := by
    obtain ⟨task₂, htask₂, hpeer, hconn, hsession⟩ := h'.tasks task htask
    obtain ⟨task₁, htask₁, hpeer₁, hconn₁, hsession₁⟩ := h.tasks task₂ htask₂
    exact ⟨task₁, htask₁, hpeer₁.trans hpeer, hconn₁.trans hconn, hsession₁.trans hsession⟩

/-! ## What the operations do to the table -/

theorem entryOf_insert (r : Room Id) (p : Id) (st : PeerState Id) :
    ({ r with peers := r.peers.insert p st } : Room Id).entryOf =
      Function.update r.entryOf p (some (st.conn, st.sessionCancel)) :=
  AList.map_lookup_insert (fun st : PeerState Id => (st.conn, st.sessionCancel)) r.peers p st

theorem entryOf_erase (r : Room Id) (p : Id) :
    ({ r with peers := r.peers.erase p } : Room Id).entryOf =
      Function.update r.entryOf p none :=
  AList.map_lookup_erase (fun st : PeerState Id => (st.conn, st.sessionCancel)) r.peers p

/-- Changing an entry without its session. -/
theorem entryOf_insert_self {st st' : PeerState Id} (h : r.peers.lookup p = some st)
    (hconn : st'.conn = st.conn) (hsession : st'.sessionCancel = st.sessionCancel) :
    ({ r with peers := r.peers.insert p st' } : Room Id).entryOf = r.entryOf :=
  AList.map_lookup_insert_self h (congrArg₂ Prod.mk hconn hsession)

theorem table_eq (hentry : r'.entryOf = r.entryOf)
    (haudio : r'.audioBroadcaster = r.audioBroadcaster)
    (hvideo : r'.videoBroadcaster = r.videoBroadcaster) (hcancelled : r'.cancelled = r.cancelled)
    (hsessions : r'.sessions = r.sessions) (htasks : r'.tasks = r.tasks) : r'.table = r.table := by
  simp only [table, hentry, haudio, hvideo, hcancelled, hsessions, htasks]

theorem moved_of_table_eq (h : r'.table = r.table) : r.table.Moved r'.table := by
  rw [h]
  exact .keep rfl rfl rfl le_rfl fun _ _ hw => .inl hw

theorem mem_watchers_spawn {kinds : List TaskKind} {w : Id × ℕ}
    (h : w ∈ (r.spawn kinds p conn session).table.watchers) :
    w ∈ r.table.watchers ∨ w = (p, session) := by
  obtain ⟨task, htask, rfl⟩ := h
  rcases List.mem_append.mp htask with htask | htask
  · exact .inl ⟨task, htask, rfl⟩
  · obtain ⟨kind, -, rfl⟩ := List.mem_map.mp htask
    exact .inr rfl

theorem table_spawnControlReader (r : Room Id) (p : Id) (conn : Connection Id) (session : ℕ) :
    (r.spawnControlReader p conn session).table =
      { r.table with watchers := insert (p, session) r.table.watchers } := by
  have hwatchers : (r.spawnControlReader p conn session).table.watchers =
      insert (p, session) r.table.watchers := by
    ext w
    constructor
    · intro hw
      exact (mem_watchers_spawn hw).symm
    · rintro (rfl | ⟨task, htask, rfl⟩)
      · exact ⟨⟨.controlReader, p, conn, session⟩, by simp [spawnControlReader, spawn], rfl⟩
      · exact ⟨task, List.mem_append_left _ htask, rfl⟩
  rw [← hwatchers]
  rfl

theorem sessions_addPeerWithMedia (r : Room Id) (p : Id) (conn : Connection Id)
    (addr : EndpointAddr Id) (session : ℕ) (controlSend : Option (Connection Id)) (name : String) :
    (r.addPeerWithMedia p conn addr session controlSend name).sessions = r.sessions := by
  unfold addPeerWithMedia
  split <;> rfl

/-- All tables and all tasks at once. -/
theorem enrolled_addPeerWithMedia (hp : p ∉ r.peers) (controlSend : Option (Connection Id))
    (name : String) :
    r.table.Enrolled (r.addPeerWithMedia p conn addr session controlSend name).table p conn
      session := by
  rw [addPeerWithMedia, if_neg hp]
  constructor
  · exact entryOf_insert _ p _
  · rintro ⟨⟩
    · exact AList.lookup_insert_eq_update r.audioBroadcaster.peers p conn
    · exact AList.lookup_insert_eq_update r.videoBroadcaster.peers p conn
  · rfl
  · intro w hw
    rcases mem_watchers_spawn hw with hw | hw
    · exact mem_watchers_spawn hw
    · exact .inr hw

/-- The reader of a control stream watches the token of the entry. -/
theorem table_attachControl {st : PeerState Id} (hp : r.peers.lookup p = some st) :
    (r.attachControl p conn).table =
      { r.table with watchers := insert (p, st.sessionCancel) r.table.watchers } := by
  have hentry : ({ r with
      peers := r.peers.insert p { st with controlSend := some conn } } : Room Id).entryOf =
        r.entryOf := entryOf_insert_self hp rfl rfl
  rw [attachControl, hp]
  refine (table_spawnControlReader _ p conn _).trans ?_
  rw [table_eq hentry rfl rfl rfl rfl rfl]

/-- Behind a handshake that we began: the peer is entered, unless it is known, and read from. -/
theorem moved_openControlAndAddPeer (r : Room Id) (p : Id) (conn : Connection Id)
    (addr : EndpointAddr Id) :
    r.table.Moved ((r.openControlAndAddPeer p conn addr).attachControl p conn).table := by
  by_cases hp : p ∈ r.peers
  · obtain ⟨st, hst⟩ := Option.ne_none_iff_exists'.mp (mt AList.lookup_eq_none.mp (not_not.mpr hp))
    have hopen : r.openControlAndAddPeer p conn addr = r.newSession := if_pos hp
    rw [hopen, table_attachControl (r := r.newSession) hst]
    refine .keep rfl rfl rfl (Nat.le_succ _) fun q token hw => ?_
    rcases Set.mem_insert_iff.mp hw with hw | hw
    · obtain ⟨rfl, rfl⟩ := Prod.mk.inj hw
      exact .inr ⟨st.conn, entryOf_eq_some.mpr ⟨st, hst, rfl, rfl⟩⟩
    · exact .inl hw
  · have hunknown : p ∉ r.newSession.peers := hp
    have hnew : r.newSession.table.Enrolled (r.openControlAndAddPeer p conn addr).table p conn
        r.sessions := enrolled_addPeerWithMedia hunknown none ""
    have hself : (r.openControlAndAddPeer p conn addr).entryOf p = some (conn, r.sessions) :=
      (congrFun hnew.entry p).trans (Function.update_self _ _ _)
    obtain ⟨st, hst, -, hsession⟩ := entryOf_eq_some.mp hself
    rw [table_attachControl hst, hsession]
    refine .enroll p conn r.sessions (entryOf_eq_none.mpr hp) le_rfl ?_
      ⟨hnew.entry, hnew.mirror, hnew.cancelled, fun w hw => ?_⟩
    · have hmade : (r.openControlAndAddPeer p conn addr).sessions = r.sessions + 1 :=
        sessions_addPeerWithMedia _ _ _ _ _ _ _
      exact (Nat.lt_succ_self _).trans_eq hmade.symm
    · rcases Set.mem_insert_iff.mp hw with hw | hw
      · exact .inr hw
      · exact hnew.watchers w hw

/-- Behind the handshake of an incoming connection. -/
theorem moved_handleHello (hp : conn.remoteId ∉ r.peers) (name : String) :
    r.table.Moved (r.handleHello t conn addr name).table := by
  have hunknown : conn.remoteId ∉
      (r.newSession.spawnControlReader conn.remoteId conn r.sessions).peers := hp
  have hnew : (r.newSession.spawnControlReader conn.remoteId conn r.sessions).table.Enrolled
      (r.handleHello t conn addr name).table conn.remoteId conn r.sessions :=
    enrolled_addPeerWithMedia hunknown (some conn) name
  rw [table_spawnControlReader] at hnew
  refine .enroll conn.remoteId conn r.sessions (entryOf_eq_none.mpr hp) le_rfl ?_
    ⟨hnew.entry, hnew.mirror, hnew.cancelled, fun w hw => ?_⟩
  · have hmade : (r.handleHello t conn addr name).sessions = r.sessions + 1 :=
      sessions_addPeerWithMedia _ _ _ _ _ _ _
    exact (Nat.lt_succ_self _).trans_eq hmade.symm
  · rcases hnew.watchers w hw with hw | hw
    · exact (Set.mem_insert_iff.mp hw).symm
    · exact .inr hw

theorem table_updateName {st : PeerState Id} (h : r.peers.lookup p = some st) (name : String) :
    (r.updateName p st name).table = r.table := by
  unfold updateName
  split
  · exact table_eq (entryOf_insert_self h rfl rfl) rfl rfl rfl rfl rfl
  · rfl

theorem table_handleReceivedPeer (r : Room Id) (info : PeerInfo) :
    (r.handleReceivedPeer t info).1.table = r.table := by
  rcases r.handleReceivedPeer_cases info with h | ⟨p, st, -, -, hst, h⟩
  · rw [h]
  · rw [h, table_updateName hst]

theorem moved_handlePeerDisconnected (r : Room Id) (p : Id) :
    r.table.Moved (r.handlePeerDisconnected p).table := by
  unfold handlePeerDisconnected
  split
  · exact moved_of_table_eq rfl
  · rename_i st hst
    refine .retire p st.conn st.sessionCancel (entryOf_eq_some.mpr ⟨st, hst, rfl, rfl⟩)
      (entryOf_erase r p) ?_ ?_ rfl fun _ hw => hw
    · rintro ⟨⟩
      · exact AList.lookup_erase_eq_update r.audioBroadcaster.peers p
      · exact AList.lookup_erase_eq_update r.videoBroadcaster.peers p
    · ext token
      exact List.mem_cons

theorem lookup_foldl_removePeer (b : Broadcaster Id) (ps : List Id) (p : Id) :
    (ps.foldl Broadcaster.removePeer b).peers.lookup p =
      if p ∈ ps then none else b.peers.lookup p := by
  induction ps generalizing b with
  | nil => simp
  | cons q ps ih =>
    rw [List.foldl_cons, ih]
    by_cases hp : p = q
    · subst hp
      simp [Broadcaster.removePeer]
    · simp [Broadcaster.removePeer, AList.lookup_erase_ne hp, hp]

theorem mem_entries_iff {token : ℕ} :
    token ∈ r.peers.entries.map (·.2.sessionCancel) ↔
      ∃ p c, r.entryOf p = some (c, token) := by
  simp only [List.mem_map, entryOf_eq_some]
  constructor
  · rintro ⟨⟨p, st⟩, hmem, rfl⟩
    exact ⟨p, st.conn, st, AList.mem_lookup_iff.mpr hmem, rfl, rfl⟩
  · rintro ⟨p, c, st, hst, -, rfl⟩
    exact ⟨⟨p, st⟩, AList.mem_lookup_iff.mp hst, rfl⟩

theorem moved_cleanupAllPeers (r : Room Id) : r.table.Moved r.cleanupAllPeers.table := by
  have hmem : ∀ p, p ∈ r.peers.keys ↔ r.entryOf p ≠ none := fun p => by
    rw [Ne, entryOf_eq_none, not_not]
    exact AList.mem_keys.symm
  refine .clear rfl ?_ (fun token => ?_) rfl fun _ hw => hw
  · rintro (_ | _) p
    · refine (lookup_foldl_removePeer r.audioBroadcaster r.peers.keys p).trans ?_
      by_cases hp : r.entryOf p = none <;> simp [table, hmem, hp]
    · refine (lookup_foldl_removePeer r.videoBroadcaster r.peers.keys p).trans ?_
      by_cases hp : r.entryOf p = none <;> simp [table, hmem, hp]
  · exact List.mem_append.trans (or_comm.trans (or_congr Iff.rfl mem_entries_iff))

theorem moved_tasks {tasks : List (Task Id)}
    (h : ∀ task ∈ tasks, ∃ task' ∈ r.tasks, task'.peer = task.peer ∧ task'.session = task.session) :
    r.table.Moved ({ r with tasks } : Room Id).table := by
  refine .keep rfl rfl rfl le_rfl fun p token hw => .inl ?_
  obtain ⟨task, htask, hw⟩ := hw
  obtain ⟨task', htask', hpeer, hsession⟩ := h task htask
  exact ⟨task', htask', by rw [hpeer, hsession, hw]⟩

end Room

/-! ## Steps of a running room -/

namespace Node

variable {n n' : Node Id}

/-- A handshake is under way, begun by either side. -/
def Handshaking : Phase Id → Prop
  | .join _ | .joined _ _ | .dial _ _ _ | .dialed _ _ _ _ | .greet _ => True
  | _ => False

/-- The remote side has answered as it should. -/
def Completes (t : Texts Id) : Action Id → Prop
  | .reply msg => (expectPeerList msg).isSome
  | .greeted msg answered => (introduction t msg answered).isSome
  | _ => False

/-- A step within a handshake, or the failure of one. -/
def Failing (t : Texts Id) (n : Node Id) (a : Action Id) : Prop :=
  Handshaking n.phase ∧ ¬ Completes t a

/-- The peer that is being greeted is not entered. -/
def GreetsStranger (n : Node Id) : Prop :=
  ∀ conn, n.phase = .greet conn → conn.remoteId ∉ n.room.peers

theorem Ran.peers {i : ℕ} {task : Task Id} {a : TaskAction} (h : Ran t n i task a n') :
    n'.room.peers = n.room.peers := by
  cases h <;> rfl

/-- A task at most changes its kind. -/
theorem Ran.tasks {i : ℕ} {task : Task Id} {a : TaskAction} (h : Ran t n i task a n')
    (htask : n.room.tasks[i]? = some task) :
    ∀ x ∈ n'.room.tasks, ∃ y ∈ n.room.tasks,
      y.peer = x.peer ∧ y.conn = x.conn ∧ y.session = x.session := by
  have hupdate : ∀ o : Option (Task Id), (∀ x ∈ o, task.peer = x.peer ∧ task.conn = x.conn ∧
      task.session = x.session) → ∀ x ∈ Pool.update n.room.tasks i o, ∃ y ∈ n.room.tasks,
        y.peer = x.peer ∧ y.conn = x.conn ∧ y.session = x.session := by
    intro o ho x hx
    rcases Pool.mem_update htask hx with hx | hx
    · exact ⟨x, hx, rfl, rfl, rfl⟩
    · exact ⟨task, Pool.mem_of_getElem? htask, ho x hx⟩
  cases h with
  | readError => exact hupdate none (by simp)
  | closed => exact hupdate none (by simp)
  | exit => exact hupdate none (by simp)
  | report => exact hupdate (some _) (by rintro _ ⟨⟩; exact ⟨rfl, rfl, rfl⟩)
  | path => exact hupdate (some _) (by rintro _ ⟨⟩; exact ⟨rfl, rfl, rfl⟩)
  | _ => exact fun x hx => ⟨x, hx, rfl, rfl, rfl⟩

theorem Ran.unchanged {i : ℕ} {task : Task Id} {a : TaskAction} (h : Ran t n i task a n')
    (htask : n.room.tasks[i]? = some task) : n.room.Unchanged n'.room where
  peers := h.peers
  audioBroadcaster := by cases h <;> rfl
  videoBroadcaster := by cases h <;> rfl
  tasks := h.tasks htask

theorem Ran.moved {i : ℕ} {task : Task Id} {a : TaskAction} (h : Ran t n i task a n')
    (htask : n.room.tasks[i]? = some task) : n.room.table.Moved n'.room.table := by
  have htasks := Room.moved_tasks fun x hx =>
    let ⟨y, hy, hpeer, _, hsession⟩ := h.tasks htask x hx
    ⟨y, hy, hpeer, hsession⟩
  cases h <;> exact htasks

theorem moved_step {a : Action Id} (hgreet : n.GreetsStranger) (h : n.step t a = some n') :
    n.room.table.Moved n'.room.table := by
  cases stepped_of_step h with
  | joined => exact Room.moved_openControlAndAddPeer _ _ _ _
  | dialed => exact Room.moved_openControlAndAddPeer _ _ _ _
  | @greeted msg answered conn addr name hphase =>
    have hunknown : conn.remoteId ∉ (n.room.write conn (n.room.buildPeerList t)).peers :=
      hgreet conn hphase
    exact Room.moved_handleHello hunknown name
  | listNext => exact Room.moved_of_table_eq (Room.table_handleReceivedPeer _ _)
  | listDial => exact Room.moved_of_table_eq (Room.table_handleReceivedPeer _ _)
  | disconnected => exact Room.moved_handlePeerDisconnected _ _
  | stop => exact Room.moved_cleanupAllPeers _
  | task htask hran => exact hran.moved htask
  | _ => exact Room.moved_of_table_eq rfl

theorem greetsStranger_step {a : Action Id} (hgreet : n.GreetsStranger)
    (h : n.step t a = some n') : n'.GreetsStranger := by
  intro conn hconn
  cases stepped_of_step h with
  | incoming _ _ hunknown =>
    obtain rfl := Phase.greet.inj hconn
    exact hunknown
  | task _ hran =>
    rw [hran.peers]
    exact hgreet conn (hran.phase ▸ hconn)
  | disconnected hphase => exact absurd (hphase.symm.trans hconn) (by simp)
  | duplicate hphase => exact absurd (hphase.symm.trans hconn) (by simp)
  | feedback hphase => exact absurd (hphase.symm.trans hconn) (by simp)
  | unexpected hphase => exact absurd (hphase.symm.trans hconn) (by simp)
  | tick hphase => exact absurd (hphase.symm.trans hconn) (by simp)
  | accept => exact hgreet conn hconn
  | close => exact hgreet conn hconn
  | cancel => exact hgreet conn hconn
  | readdress => exact hgreet conn hconn
  | compose => exact hgreet conn hconn
  | _ => cases hconn

theorem unchanged_step {a : Action Id} (hf : n.Failing t a) (h : n.step t a = some n') :
    n.room.Unchanged n'.room := by
  obtain ⟨hphase, hfail⟩ := hf
  cases stepped_of_step h with
  | joined _ hmsg => exact absurd (by simp [Completes, hmsg]) hfail
  | dialed _ hmsg => exact absurd (by simp [Completes, hmsg]) hfail
  | greeted _ hmsg => exact absurd (by simp [Completes, hmsg]) hfail
  | task htask hran => exact hran.unchanged htask
  -- The loop takes no other turn while a handshake is under way.
  | listNext hlist => exact absurd hphase (by simp [hlist, Handshaking])
  | listDial hlist => exact absurd hphase (by simp [hlist, Handshaking])
  | disconnected hidle => exact absurd hphase (by simp [hidle, Handshaking])
  | stop hidle => exact absurd hphase (by simp [hidle, Handshaking])
  | _ => exact ⟨rfl, rfl, rfl, fun x hx => ⟨x, hx, rfl, rfl, rfl⟩⟩

/-! ## Runs -/

structure Inv (n : Node Id) : Prop where
  sound : n.room.table.Sound
  greetsStranger : n.GreetsStranger

theorem inv_run (endpoint : EndpointAddr Id) (media : MediaResources)
    (initial : Option (EndpointAddr Id)) : (run (Room.new endpoint media) initial).Inv := by
  have hsound : (Room.new endpoint media).table.Sound := by
    constructor
    · rintro (_ | _) p <;> rfl
    · intro p conn token hp
      cases hp
    · intro p conn token hp
      cases hp
    · intro token htoken
      cases htoken
    · intro p q conn conn' token hp
      cases hp
    · rintro p token ⟨task, htask, -⟩
      cases htask
  cases initial with
  | none => exact ⟨hsound, fun conn hconn => by cases hconn⟩
  | some addr => exact ⟨hsound, fun conn hconn => by cases hconn⟩

theorem Inv.step {a : Action Id} (h : n.Inv) (hs : n.step t a = some n') : n'.Inv where
  sound := h.sound.moved (moved_step h.greetsStranger hs)
  greetsStranger := greetsStranger_step h.greetsStranger hs

theorem Inv.of_reachable (h : n.Inv) (hn : Reachable (Node.step t) n n') : n'.Inv :=
  hn.invariant (fun _ _ _ hn hs => hn.step hs) h

/-- A task is looked after as long as the room runs, also when it has ended. -/
theorem watches_of_reachable (h : n.Inv) {task : Task Id} (htask : n.room.Watches task)
    (hn : Reachable (Node.step t) n n') : n'.room.Watches task := by
  have hstep : ∀ (k : Node Id) a k', (k.Inv ∧ k.room.Watches task) → k.step t a = some k' →
      k'.Inv ∧ k'.room.Watches task := by
    rintro k a k' ⟨hk, hwatched⟩ hs
    refine ⟨hk.step hs, Room.watches_iff.mpr ?_⟩
    exact (moved_step hk.greetsStranger hs).watches (Room.watches_iff.mp hwatched)
  exact (hn.invariant hstep ⟨h, htask⟩).2

theorem unchanged_of_run {as : List (Action Id)} (h : Run (Node.step t) (Failing t) n as n') :
    n.room.Unchanged n'.room := by
  induction h with
  | nil => exact .refl n.room
  | snoc _ hf hs ih => exact ih.trans (unchanged_step hf hs)

/--
In every state, the three tables agree and hold live sessions only; every task that there has ever
been belongs to a session in the tables or has been told to stop; and a handshake changes nothing
unless it is completed.
-/
theorem bookkept {endpoint : EndpointAddr Id} {media : MediaResources}
    {initial : Option (EndpointAddr Id)} {m : Node Id}
    (hm : Reachable (Node.step t) (run (Room.new endpoint media) initial) m)
    (hn : Reachable (Node.step t) m n) :
    n.room.Bookkept ∧ (∀ task ∈ m.room.tasks, n.room.Watches task) ∧
      ∀ as n', Run (Node.step t) (Failing t) n as n' → n.room.Unchanged n'.room := by
  have hinv : m.Inv := (inv_run endpoint media initial).of_reachable hm
  have hnow : n.Inv := hinv.of_reachable hn
  refine ⟨Room.bookkept_of_sound hnow.sound, fun task htask => ?_, fun as n' h => ?_⟩
  · have hwatched : m.room.Watches task :=
      Room.watches_iff.mpr (hinv.sound.watched _ _ ⟨task, htask, rfl⟩)
    exact watches_of_reachable hinv hwatched hn
  · exact unchanged_of_run h

/-- Peer 2 joins through peer 1. -/
def joining : Node ℕ := run (Room.new ⟨2, []⟩ ⟨true, true, true, "b"⟩) (some ⟨1, []⟩)

def join : List (Action ℕ) := [.connect true, .reply (some (.peerList [])), .nextPeer]

/-- Peer 1 leaves, and peer 3 begins a handshake. -/
def leaveAndGreet : List (Action ℕ) := [.task 7 .readError, .receive, .accept 3, .receive]

/-- The tasks of a session that has ended, and a handshake that fails. -/
theorem bookkept_joining :
    ∃ m n n' : Node ℕ, m.room.tasks.length = 8 ∧ n.room.cancelled = [0] ∧
      n.step sampleTexts (.greeted none false) = some n' ∧ n.room.Bookkept ∧
      (∀ task ∈ m.room.tasks, n.room.Watches task) ∧ n.room.Unchanged n'.room := by
  obtain ⟨m, hm, hrest⟩ := Option.bind_eq_some_iff.mp
    (by decide : ((exec (Node.step sampleTexts) joining join).bind fun m =>
      (exec (Node.step sampleTexts) m leaveAndGreet).bind fun n =>
        (n.step sampleTexts (.greeted none false)).map fun _ =>
          (m.room.tasks.length, n.room.cancelled, n.phase)) = some (8, [0], .greet ⟨1, 3⟩))
  obtain ⟨n, hn, hrest⟩ := Option.bind_eq_some_iff.mp hrest
  obtain ⟨n', hn', hend⟩ := Option.map_eq_some_iff.mp hrest
  obtain ⟨htasks, hend⟩ := Prod.mk.inj hend
  obtain ⟨hcancelled, hphase⟩ := Prod.mk.inj hend
  obtain ⟨hkept, hwatched, hfailed⟩ := bookkept ⟨_, run_of_exec hm⟩ ⟨_, run_of_exec hn⟩
  have hfailing : n.Failing sampleTexts (.greeted none false) := by
    rw [Failing, hphase]
    exact ⟨trivial, Bool.false_ne_true⟩
  exact ⟨m, n, n', htasks, hcancelled, hn', hkept, hwatched, hfailed _ _ (.single hfailing hn')⟩

end Node

end Meshconf.Mesh
