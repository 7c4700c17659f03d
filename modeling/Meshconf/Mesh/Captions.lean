import Meshconf.Mesh.Bookkeeping
import Meshconf.Mesh.Gallery

/-! # The captions of the tiles

The name, the kind of the connection and the drop counter of a peer come to the compositor in
commands of the room and of a task that watches the paths of the connection. If no command
is lost, a tile shows what the room has recorded of the peer's present session.
-/

namespace Meshconf.Mesh

open Control Transition Video

variable {Id : Type*} [LinearOrder Id] {t : Texts Id}

/-- What the compositor has been told of a peer. -/
structure Caption where
  name : Option String := none
  kind : Option ConnectionKind := none
  counter : Option ℕ := none
  deriving DecidableEq, Repr

namespace Caption

/-- The caption of `p` behind a command. -/
def apply (p : Id) (k : Caption) : CompositorCommand Id → Caption
  | .removePeer q => if q = p then {} else k
  | .setPeerName q name => if q = p then { k with name := some name } else k
  | .setConnectionKind q kind => if q = p then { k with kind := some kind } else k
  | .setVideoDropCounter q session => if q = p then { k with counter := some session } else k

def of (c : Compositor Id) (p : Id) : Caption where
  name := c.peerNames.lookup p
  kind := c.peerConnKinds.lookup p
  counter := c.peerDropCounters.lookup p

theorem of_apply (c : Compositor Id) (cmd : CompositorCommand Id) (p : Id) :
    of (c.apply cmd) p = (of c p).apply p cmd := by
  cases cmd with
  | removePeer q =>
    by_cases hq : q = p
    · subst hq
      simp [of, Compositor.apply, apply]
    · simp [of, Compositor.apply, apply, hq, AList.lookup_erase_ne (Ne.symm hq)]
  | setPeerName q name | setConnectionKind q kind | setVideoDropCounter q session =>
    by_cases hq : q = p
    · subst hq
      simp [of, Compositor.apply, apply]
    · simp [of, Compositor.apply, apply, hq, AList.lookup_insert_ne (Ne.symm hq)]

theorem of_tile {c : Compositor Id} {drops : ℕ → ℕ} {g : GalleryFrame Id} {tile : TileFrame Id}
    (h : c.buildGallery drops = some g) (htile : tile ∈ g.tiles) :
    tile.name = (of c tile.peerId).name.getD "" ∧
      tile.connKind = (of c tile.peerId).kind.getD .unknown ∧
      tile.videoDrops = ((of c tile.peerId).counter.map drops).getD 0 := by
  simp only [Compositor.buildGallery] at h
  split_ifs at h
  obtain rfl := Option.some.inj h
  obtain ⟨e, -, rfl⟩ := List.mem_map.mp htile
  exact ⟨rfl, rfl, rfl⟩

end Caption

/-! ## What the room has recorded -/

/-- The peer, the session and the kind that a path watcher has seen last. -/
def Task.watcher (task : Task Id) : Option (Id × ℕ × ConnectionKind) :=
  match task.kind with
  | .pathWatcher kind => some (task.peer, task.session, kind)
  | _ => none

namespace Room

def watchers (r : Room Id) : List (Id × ℕ × ConnectionKind) := r.tasks.filterMap Task.watcher

/-- The name of a peer, which is empty until it is known. -/
def nameOf (r : Room Id) (p : Id) : Option String := (r.peers.lookup p).map PeerState.name

def sessionOf (r : Room Id) (p : Id) : Option ℕ := (r.peers.lookup p).map PeerState.sessionCancel

/-- The caption of `p` once the compositor has taken all commands. -/
def captioned (r : Room Id) (p : Id) (k : Caption) : Caption := r.commands.foldl (Caption.apply p) k

/-- The caption is that of the present session with `p`. -/
structure Described (r : Room Id) (p : Id) (k : Caption) : Prop where
  name : k.name = (r.nameOf p).filter (· ≠ "")
  counter : k.counter = r.sessionOf p
  absent : r.sessionOf p = none → k.kind = none
  watched : ∀ session kind, (p, session, kind) ∈ r.watchers → r.sessionOf p = some session →
    k.kind.getD .unknown = kind

/-- Every session has one path watcher at most. -/
structure Watched (r : Room Id) : Prop where
  nodup : (r.watchers.map (·.2.1)).Nodup
  made : ∀ session ∈ r.watchers.map (·.2.1), session < r.sessions

variable {r r' : Room Id} {p q : Id} {k : Caption} {conn : Connection Id} {addr : EndpointAddr Id}
  {session : ℕ} {controlSend : Option (Connection Id)} {name : String}
  {cmd : CompositorCommand Id}

theorem Described.of_same (h : r.Described p k) (hname : r'.nameOf p = r.nameOf p)
    (hsession : r'.sessionOf p = r.sessionOf p)
    (hwatchers : ∀ session kind, (p, session, kind) ∈ r'.watchers →
      (p, session, kind) ∈ r.watchers) : r'.Described p k where
  name := by rw [h.name, hname]
  counter := h.counter.trans hsession.symm
  absent hnone := h.absent (hsession ▸ hnone)
  watched session kind hmem hp :=
    h.watched session kind (hwatchers session kind hmem) (hsession ▸ hp)

/-- Of a peer that is not in the room, nothing is known. -/
theorem Described.eq_empty (h : r.Described p k) (hp : p ∉ r.peers) : k = {} := by
  have hnone := AList.lookup_eq_none.mpr hp
  have hsession : r.sessionOf p = none := by rw [sessionOf, hnone, Option.map_none]
  have hname : k.name = none := by rw [h.name, nameOf, hnone, Option.map_none, Option.filter_none]
  have hcounter : k.counter = none := h.counter.trans hsession
  have hkind : k.kind = none := h.absent hsession
  cases k
  simp_all

theorem commands_trySendCommand (hopen : r.compositorOpen)
    (hroom : r.commands.length < commandCapacity) :
    (r.trySendCommand cmd).commands = r.commands ++ [cmd] :=
  if_pos ⟨hopen, hroom⟩

theorem captioned_append {cmds : List (CompositorCommand Id)}
    (h : r'.commands = r.commands ++ cmds) :
    r'.captioned p k = cmds.foldl (Caption.apply p) (r.captioned p k) := by
  rw [captioned, h, List.foldl_append, captioned]

theorem nameOf_insert (r : Room Id) (p : Id) (st : PeerState Id) :
    ({ r with peers := r.peers.insert p st } : Room Id).nameOf =
      Function.update r.nameOf p (some st.name) :=
  AList.map_lookup_insert PeerState.name r.peers p st

theorem sessionOf_insert (r : Room Id) (p : Id) (st : PeerState Id) :
    ({ r with peers := r.peers.insert p st } : Room Id).sessionOf =
      Function.update r.sessionOf p (some st.sessionCancel) :=
  AList.map_lookup_insert PeerState.sessionCancel r.peers p st

theorem nameOf_erase (r : Room Id) (p : Id) :
    ({ r with peers := r.peers.erase p } : Room Id).nameOf = Function.update r.nameOf p none :=
  AList.map_lookup_erase PeerState.name r.peers p

theorem sessionOf_erase (r : Room Id) (p : Id) :
    ({ r with peers := r.peers.erase p } : Room Id).sessionOf =
      Function.update r.sessionOf p none :=
  AList.map_lookup_erase PeerState.sessionCancel r.peers p

/-! ## What the operations do to a caption -/

/-- A new room tells of nobody but ourselves. -/
theorem Described.new {endpoint : EndpointAddr Id} {media : MediaResources} (hp : p ≠ endpoint.id) :
    (Room.new endpoint media).Described p ((Room.new endpoint media).captioned p {}) := by
  have hempty : (Room.new endpoint media).captioned p {} = {} := by
    cases hopen : media.displayTx <;>
      simp [captioned, Room.new, trySendCommand, commandCapacity, Caption.apply, hopen, hp.symm]
  rw [hempty]
  exact ⟨rfl, rfl, fun _ => rfl, fun _ _ hmem => by cases hmem⟩

/-- Operations that send no command, enter nobody and start no path watcher. -/
theorem Described.of_quiet (h : r.Described p (r.captioned p k)) (hname : r'.nameOf = r.nameOf)
    (hsession : r'.sessionOf = r.sessionOf) (hcommands : r'.commands = r.commands)
    (hwatchers : r'.watchers = r.watchers) : r'.Described p (r'.captioned p k) := by
  rw [captioned, hcommands]
  refine h.of_same (congrFun hname p) (congrFun hsession p) fun session kind hmem => ?_
  rwa [hwatchers] at hmem

theorem watchers_spawn (kinds : List TaskKind) :
    (r.spawn kinds q conn session).watchers = r.watchers ++
      (kinds.map fun kind => (⟨kind, q, conn, session⟩ : Task Id)).filterMap Task.watcher :=
  List.filterMap_append

theorem watchers_spawnControlReader :
    (r.spawnControlReader q conn session).watchers = r.watchers :=
  (watchers_spawn _).trans (List.append_nil _)

theorem watchers_addPeerWithMedia (hq : q ∉ r.peers) :
    (r.addPeerWithMedia q conn addr session controlSend name).watchers =
      r.watchers ++ [(q, session, .unknown)] := by
  simp only [addPeerWithMedia, if_neg hq, watchers, spawn, sendName, trySendCommand,
    List.append_assoc, List.filterMap_append]
  rfl

theorem commands_addPeerWithMedia (hq : q ∉ r.peers) (hopen : r.compositorOpen)
    (hroom : r.commands.length + (if name = "" then 1 else 2) ≤ commandCapacity) :
    (r.addPeerWithMedia q conn addr session controlSend name).commands =
      r.commands ++ .setVideoDropCounter q session ::
        if name = "" then [] else [.setPeerName q name] := by
  have hfirst : r.commands.length < commandCapacity := by split_ifs at hroom <;> omega
  by_cases hname : name = ""
  · simp [addPeerWithMedia, hq, spawn, sendName, trySendCommand, hname, hopen, hfirst]
  · rw [if_neg hname] at hroom
    have hsecond : r.commands.length + 1 < commandCapacity := by omega
    simp [addPeerWithMedia, hq, spawn, sendName, trySendCommand, hname, hopen, hfirst, hsecond]

/-- A session begins: all that was known of the peer is replaced. -/
theorem Described.addPeerWithMedia (h : r.Described p (r.captioned p k))
    (hopen : r.compositorOpen) (hfresh : session ∉ r.watchers.map (·.2.1))
    (hroom : r.commands.length + (if name = "" then 1 else 2) ≤ commandCapacity) :
    (r.addPeerWithMedia q conn addr session controlSend name).Described p
      ((r.addPeerWithMedia q conn addr session controlSend name).captioned p k) := by
  by_cases hq : q ∈ r.peers
  · rwa [Room.addPeerWithMedia, if_pos hq]
  have hnames : (r.addPeerWithMedia q conn addr session controlSend name).nameOf =
      Function.update r.nameOf q (some name) := by
    rw [Room.addPeerWithMedia, if_neg hq]
    exact nameOf_insert _ q _
  have hsessions : (r.addPeerWithMedia q conn addr session controlSend name).sessionOf =
      Function.update r.sessionOf q (some session) := by
    rw [Room.addPeerWithMedia, if_neg hq]
    exact sessionOf_insert _ q _
  rw [captioned_append (commands_addPeerWithMedia hq hopen hroom)]
  rcases eq_or_ne p q with rfl | hne
  · rw [h.eq_empty hq]
    constructor
    · rw [hnames, Function.update_self]
      by_cases hname : name = "" <;> simp [Caption.apply, Option.filter, hname]
    · rw [hsessions, Function.update_self]
      by_cases hname : name = "" <;> simp [Caption.apply, hname]
    · rw [hsessions, Function.update_self]
      intro hnone
      cases hnone
    · intro session' kind hmem hp
      rw [hsessions, Function.update_self] at hp
      obtain rfl := Option.some.inj hp
      rw [watchers_addPeerWithMedia hq] at hmem
      rcases List.mem_append.mp hmem with hmem | hmem
      · exact absurd (List.mem_map_of_mem hmem) hfresh
      · obtain rfl : kind = .unknown := by simpa using hmem
        by_cases hname : name = "" <;> simp [Caption.apply, hname]
  · have hsame : (CompositorCommand.setVideoDropCounter q session ::
        if name = "" then [] else [.setPeerName q name]).foldl (Caption.apply p)
          (r.captioned p k) = r.captioned p k := by
      split_ifs <;> simp [Caption.apply, hne.symm]
    rw [hsame]
    refine h.of_same ?_ ?_ fun session' kind hmem => ?_
    · rw [hnames, Function.update_of_ne hne]
    · rw [hsessions, Function.update_of_ne hne]
    · rw [watchers_addPeerWithMedia hq] at hmem
      rcases List.mem_append.mp hmem with hmem | hmem
      · exact hmem
      · exact absurd (congrArg Prod.fst (List.mem_singleton.mp hmem)) hne

theorem Described.attachControl (h : r.Described p (r.captioned p k)) :
    (r.attachControl q conn).Described p ((r.attachControl q conn).captioned p k) := by
  unfold Room.attachControl
  split
  · rename_i st hst
    refine h.of_quiet ?_ ?_ rfl watchers_spawnControlReader
    · exact AList.map_lookup_insert_self hst rfl
    · exact AList.map_lookup_insert_self hst rfl
  · exact h.of_quiet rfl rfl rfl watchers_spawnControlReader

theorem Described.updateName {st : PeerState Id} (h : r.Described p (r.captioned p k))
    (hst : r.peers.lookup q = some st) (hopen : r.compositorOpen)
    (hroom : r.commands.length < commandCapacity) :
    (r.updateName q st name).Described p ((r.updateName q st name).captioned p k) := by
  unfold Room.updateName
  split_ifs with hnew
  · have hcommands : (trySendCommand { r with peers := r.peers.insert q { st with name } }
        (.setPeerName q name)).commands = r.commands ++ [.setPeerName q name] :=
      commands_trySendCommand hopen hroom
    have hsessions : ({ r with peers := r.peers.insert q { st with name } } : Room Id).sessionOf =
        r.sessionOf := AList.map_lookup_insert_self hst rfl
    rw [captioned_append hcommands]
    have hnames := nameOf_insert r q { st with name }
    rcases eq_or_ne p q with rfl | hne
    · constructor
      · show _ = Option.filter _ (nameOf { r with peers := r.peers.insert p { st with name } } p)
        rw [hnames, Function.update_self]
        simp [Caption.apply, Option.filter, hnew.1]
      · show _ = sessionOf { r with peers := r.peers.insert p { st with name } } p
        rw [hsessions, ← h.counter]
        simp [Caption.apply]
      · show sessionOf { r with peers := r.peers.insert p { st with name } } p = none → _
        rw [hsessions]
        intro hnone
        simpa [Caption.apply] using h.absent hnone
      · intro session kind hmem
        show sessionOf { r with peers := r.peers.insert p { st with name } } p = _ → _
        rw [hsessions]
        intro hp
        simpa [Caption.apply] using h.watched session kind hmem hp
    · have hsame : [CompositorCommand.setPeerName q name].foldl (Caption.apply p)
          (r.captioned p k) = r.captioned p k := by simp [Caption.apply, hne.symm]
      rw [hsame]
      refine h.of_same ?_ (congrFun hsessions p) fun _ _ hmem => hmem
      exact (congrFun hnames p).trans (Function.update_of_ne hne _ _)
  · exact h

theorem Described.handleReceivedPeer {info : PeerInfo} (h : r.Described p (r.captioned p k))
    (hopen : r.compositorOpen) (hroom : r.commands.length < commandCapacity) :
    (r.handleReceivedPeer t info).1.Described p
      ((r.handleReceivedPeer t info).1.captioned p k) := by
  rcases r.handleReceivedPeer_cases info with heq | ⟨q, st, -, -, hst, heq⟩
  · rwa [heq]
  · rw [heq]
    exact h.updateName hst hopen hroom

/-- A session ends: nothing is known of the peer any more. -/
theorem Described.handlePeerDisconnected (h : r.Described p (r.captioned p k))
    (hopen : r.compositorOpen) (hroom : r.commands.length < commandCapacity) :
    (r.handlePeerDisconnected q).Described p ((r.handlePeerDisconnected q).captioned p k) := by
  unfold Room.handlePeerDisconnected
  split
  · exact h
  · rename_i st hst
    set gone : Room Id :=
      { r with
        peers := r.peers.erase q
        cancelled := st.sessionCancel :: r.cancelled
        audioBroadcaster := r.audioBroadcaster.removePeer q
        videoBroadcaster := r.videoBroadcaster.removePeer q } with hgone
    have hcommands : (gone.trySendCommand (.removePeer q)).commands =
        r.commands ++ [.removePeer q] := commands_trySendCommand hopen hroom
    have hnames : (gone.trySendCommand (.removePeer q)).nameOf = Function.update r.nameOf q none :=
      nameOf_erase r q
    have hsessions : (gone.trySendCommand (.removePeer q)).sessionOf =
        Function.update r.sessionOf q none := sessionOf_erase r q
    rw [captioned_append hcommands]
    rcases eq_or_ne p q with rfl | hne
    · have hempty : [CompositorCommand.removePeer p].foldl (Caption.apply p)
          (r.captioned p k) = {} := by simp [Caption.apply]
      rw [hempty]
      constructor
      · rw [hnames, Function.update_self]
        rfl
      · rw [hsessions, Function.update_self]
      · exact fun _ => rfl
      · intro session kind _ hp
        rw [hsessions, Function.update_self] at hp
        cases hp
    · have hsame : [CompositorCommand.removePeer q].foldl (Caption.apply p)
          (r.captioned p k) = r.captioned p k := by simp [Caption.apply, hne.symm]
      rw [hsame]
      refine h.of_same ?_ ?_ fun _ _ hmem => hmem
      · rw [hnames, Function.update_of_ne hne]
      · rw [hsessions, Function.update_of_ne hne]

/-- A path watcher of the present session has seen another kind. -/
theorem Described.path (h : r.Described p (r.captioned p k)) (hopen : r.compositorOpen)
    (hroom : r.commands.length < commandCapacity) {tasks : List (Task Id)} {kind : ConnectionKind}
    (hpresent : r.sessionOf q = some session)
    (hwatchers : ∀ w ∈ ({ r with tasks } : Room Id).watchers,
      w ∈ r.watchers ∨ w = (q, session, kind))
    (honly : ∀ kind', (q, session, kind') ∈ ({ r with tasks } : Room Id).watchers → kind' = kind) :
    (trySendCommand { r with tasks } (.setConnectionKind q kind)).Described p
      ((trySendCommand { r with tasks } (.setConnectionKind q kind)).captioned p k) := by
  have hcommands : (trySendCommand { r with tasks } (.setConnectionKind q kind)).commands =
      r.commands ++ [.setConnectionKind q kind] := commands_trySendCommand hopen hroom
  rw [captioned_append hcommands]
  rcases eq_or_ne p q with rfl | hne
  · have hkind : [CompositorCommand.setConnectionKind p kind].foldl (Caption.apply p)
        (r.captioned p k) = { r.captioned p k with kind := some kind } := if_pos rfl
    rw [hkind]
    constructor
    · exact h.name
    · exact h.counter
    · exact fun hnone => absurd (hnone.symm.trans hpresent) (by simp)
    · intro session' kind' hmem hp
      obtain rfl : session = session' := Option.some.inj (hpresent.symm.trans hp)
      exact (honly kind' hmem).symm
  · have hsame : [CompositorCommand.setConnectionKind q kind].foldl (Caption.apply p)
        (r.captioned p k) = r.captioned p k := by simp [Caption.apply, hne.symm]
    rw [hsame]
    refine h.of_same rfl rfl fun session' kind' hmem => ?_
    rcases hwatchers _ hmem with hmem | heq
    · exact hmem
    · exact absurd (congrArg Prod.fst heq) hne

theorem Described.openControlAndAddPeer (h : r.Described p (r.captioned p k)) (hw : r.Watched)
    (hopen : r.compositorOpen) (hroom : r.commands.length < commandCapacity) :
    (r.openControlAndAddPeer q conn addr).Described p
      ((r.openControlAndAddPeer q conn addr).captioned p k) := by
  have hnew : r.newSession.Described p (r.newSession.captioned p k) := h.of_quiet rfl rfl rfl rfl
  exact hnew.addPeerWithMedia hopen (fun hmem => (hw.made _ hmem).ne rfl) hroom

theorem Described.handleHello (h : r.Described p (r.captioned p k)) (hw : r.Watched)
    (hopen : r.compositorOpen) (hroom : r.commands.length + 2 ≤ commandCapacity) :
    (r.handleHello t conn addr name).Described p
      ((r.handleHello t conn addr name).captioned p k) := by
  set read := r.newSession.spawnControlReader conn.remoteId conn r.sessions with hread
  have hwatchers : read.watchers = r.watchers := watchers_spawnControlReader
  have hreader : read.Described p (read.captioned p k) := h.of_quiet rfl rfl rfl hwatchers
  have hfresh : r.sessions ∉ read.watchers.map (·.2.1) := by
    rw [hwatchers]
    exact fun hmem => (hw.made _ hmem).ne rfl
  have hsends : (if name = "" then 1 else 2) ≤ 2 := by split_ifs <;> simp
  set added := read.addPeerWithMedia conn.remoteId conn addr r.sessions (some conn) name
  have hadded : added.Described p (added.captioned p k) :=
    hreader.addPeerWithMedia hopen hfresh ((Nat.add_le_add_left hsends _).trans hroom)
  exact hadded.of_quiet rfl rfl rfl rfl

/-! ## Sessions and their path watchers -/

theorem watching_eq : r.watchers.map (·.2.1) =
    r.tasks.filterMap fun task => task.watcher.map (·.2.1) :=
  List.map_filterMap

theorem Watched.of_sublist (h : r.Watched)
    (hsub : (r'.watchers.map (·.2.1)).Sublist (r.watchers.map (·.2.1)))
    (hsessions : r.sessions ≤ r'.sessions) : r'.Watched where
  nodup := h.nodup.sublist hsub
  made token htoken := (h.made token (hsub.subset htoken)).trans_le hsessions

theorem Watched.of_eq (h : r.Watched) (hwatchers : r'.watchers = r.watchers)
    (hsessions : r.sessions ≤ r'.sessions) : r'.Watched :=
  h.of_sublist (by rw [hwatchers]) hsessions

theorem Watched.addPeerWithMedia (h : r.Watched) (hfresh : session ∉ r.watchers.map (·.2.1))
    (hmade : session < r.sessions) :
    (r.addPeerWithMedia q conn addr session controlSend name).Watched := by
  by_cases hq : q ∈ r.peers
  · rwa [Room.addPeerWithMedia, if_pos hq]
  · have hsessions := sessions_addPeerWithMedia r q conn addr session controlSend name
    constructor
    · rw [watchers_addPeerWithMedia hq, List.map_append]
      refine h.nodup.append (List.nodup_singleton _) ?_
      simpa using hfresh
    · rw [watchers_addPeerWithMedia hq, hsessions, List.map_append]
      intro token htoken
      rcases List.mem_append.mp htoken with hold | hnew
      · exact h.made token hold
      · rwa [List.mem_singleton.mp hnew]

theorem Watched.openControlAndAddPeer (h : r.Watched) :
    (r.openControlAndAddPeer q conn addr).Watched := by
  have hnew : r.newSession.Watched := h.of_eq rfl (Nat.le_succ _)
  exact hnew.addPeerWithMedia (fun hmem => (h.made _ hmem).ne rfl) (Nat.lt_succ_self _)

theorem Watched.attachControl (h : r.Watched) : (r.attachControl q conn).Watched := by
  unfold Room.attachControl
  split
  · exact h.of_eq watchers_spawnControlReader le_rfl
  · exact h.of_eq watchers_spawnControlReader (Nat.le_succ _)

theorem Watched.handleHello (h : r.Watched) : (r.handleHello t conn addr name).Watched := by
  have hwatchers : (r.newSession.spawnControlReader conn.remoteId conn r.sessions).watchers =
      r.watchers := watchers_spawnControlReader
  have hreader := h.of_eq hwatchers (Nat.le_succ _)
  have hfresh : r.sessions ∉
      (r.newSession.spawnControlReader conn.remoteId conn r.sessions).watchers.map (·.2.1) := by
    rw [hwatchers]
    exact fun hmem => (h.made _ hmem).ne rfl
  exact (hreader.addPeerWithMedia hfresh (Nat.lt_succ_self _)).of_eq rfl le_rfl

theorem Watched.handleReceivedPeer {info : PeerInfo} (h : r.Watched) :
    (r.handleReceivedPeer t info).1.Watched := by
  rcases r.handleReceivedPeer_cases info with heq | ⟨q, st, -, -, -, heq⟩
  · rwa [heq]
  · rw [heq]
    unfold updateName
    split_ifs
    · exact h.of_eq rfl le_rfl
    · exact h

theorem Watched.handlePeerDisconnected (h : r.Watched) : (r.handlePeerDisconnected q).Watched := by
  unfold Room.handlePeerDisconnected
  split
  · exact h
  · exact h.of_eq rfl le_rfl

/-- What a task becomes watches for the same session, or for none. -/
theorem Watched.update (h : r.Watched) {i : ℕ} {task : Task Id} (htask : r.tasks[i]? = some task)
    {o : Option (Task Id)}
    (ho : ∀ task' ∈ o, ∀ w ∈ task'.watcher, ∃ w' ∈ task.watcher, w'.2.1 = w.2.1) :
    ({ r with tasks := Pool.update r.tasks i o } : Room Id).Watched := by
  refine h.of_sublist ?_ le_rfl
  rw [watching_eq, watching_eq]
  refine Pool.filterMap_update_sublist htask ?_
  cases o with
  | none => exact List.nil_sublist _
  | some task' =>
    cases hw : task'.watcher with
    | none => simp [hw]
    | some w =>
      obtain ⟨w', hw', heq⟩ := ho task' rfl w hw
      simp [hw, Option.mem_def.mp hw', heq]

theorem mem_watchers_update {i : ℕ} {task : Task Id} (htask : r.tasks[i]? = some task)
    {o : Option (Task Id)} {w : Id × ℕ × ConnectionKind}
    (h : w ∈ ({ r with tasks := Pool.update r.tasks i o } : Room Id).watchers) :
    w ∈ r.watchers ∨ w ∈ o.bind Task.watcher := by
  obtain ⟨task', hmem, hw⟩ := List.mem_filterMap.mp h
  rcases Pool.mem_update htask hmem with hold | rfl
  · exact .inl (List.mem_filterMap.mpr ⟨task', hold, hw⟩)
  · exact .inr hw

end Room

/-! ## Steps -/

namespace Node

variable {n n' : Node Id} {p : Id} {k : Caption} {a : Mesh.Action Id}

/-- The most commands that a step may send. -/
def sends : Mesh.Action Id → ℕ
  | .greeted _ _ => 2
  | .reply _ | .nextPeer | .receive | .task _ (.path _) => 1
  | _ => 0

/-- Steps that end the loop. -/
def stops : Mesh.Action Id → Bool
  | .stop => true
  | _ => false

/-- The task that looks at the paths of its connection. -/
def pathTask (n : Node Id) : Mesh.Action Id → Option (Task Id)
  | .task i (.path _) => n.room.tasks[i]?
  | _ => none

/-- The step loses no command, does not end the loop and brings no news of a past session. -/
def Delivers (n : Node Id) (a : Mesh.Action Id) : Prop :=
  n.room.commands.length + sends a ≤ commandCapacity ∧ stops a = false ∧
    ∀ task ∈ n.pathTask a, task.session ∉ n.room.cancelled

theorem fixed_step (h : n.step t a = some n') :
    n'.room.ourId = n.room.ourId ∧ n'.room.compositorOpen = n.room.compositorOpen := by
  rcases grows_step h with hgrows | rfl | ⟨q, c, events, rfl, -, hroom⟩ | ⟨rfl, hroom⟩
  · exact ⟨hgrows.ourId, hgrows.compositorOpen⟩
  · obtain rfl := Option.some.inj h
    exact ⟨rfl, rfl⟩
  · obtain ⟨hid, hopen, -⟩ := Room.handlePeerDisconnected_spec (r := n.room) (p := q)
    rw [hroom]
    exact ⟨hid, hopen⟩
  · rw [hroom]
    exact ⟨rfl, rfl⟩

theorem watched_step (hw : n.room.Watched) (h : n.step t a = some n') : n'.room.Watched := by
  cases stepped_of_step h with
  | joined => exact hw.openControlAndAddPeer.attachControl
  | dialed => exact hw.openControlAndAddPeer.attachControl.of_eq rfl le_rfl
  | greeted => exact Room.Watched.handleHello (hw.of_eq rfl le_rfl)
  | listNext => exact hw.handleReceivedPeer
  | listDial => exact hw.handleReceivedPeer
  | disconnected => exact hw.handlePeerDisconnected.of_eq rfl le_rfl
  | @task _ task _ _ htask hran =>
    cases hran with
    | readError => exact hw.update htask (by simp)
    | closed => exact hw.update htask (by simp)
    | exit => exact hw.update htask (by simp)
    | report => exact hw.update htask (by simp [Task.watcher])
    | @path lastKind kind commands hkind =>
      refine Room.Watched.of_eq (hw.update htask (o := some _) ?_) rfl le_rfl
      rintro _ ⟨⟩ w hw'
      obtain rfl := Option.some.inj hw'
      exact ⟨(task.peer, task.session, lastKind), by simp [Task.watcher, hkind], rfl⟩
    | _ => exact hw
  | _ => exact hw.of_eq rfl le_rfl

/-- A task that sends nothing at most leaves. -/
theorem described_setTasks {i : ℕ} {task : Task Id} (htask : n.room.tasks[i]? = some task)
    {o : Option (Task Id)} (ho : o.bind Task.watcher = none)
    (h : n.room.Described p (n.room.captioned p k)) :
    (n.setTasks (Pool.update n.room.tasks i o)).room.Described p
      ((n.setTasks (Pool.update n.room.tasks i o)).room.captioned p k) := by
  refine h.of_same rfl rfl fun session kind hmem => ?_
  rcases Room.mem_watchers_update htask hmem with hold | hnew
  · exact hold
  · rw [ho] at hnew
    cases hnew

/-- The session of a path watcher that has not been told to stop is the present one. -/
theorem sessionOf_watcher (hinv : n.Inv) {task : Task Id} (htask : task ∈ n.room.tasks)
    (hlive : task.session ∉ n.room.cancelled) :
    n.room.sessionOf task.peer = some task.session := by
  rcases hinv.sound.watched task.peer task.session ⟨task, htask, rfl⟩ with hcancelled | ⟨c, hentry⟩
  · exact absurd hcancelled hlive
  · obtain ⟨st, hst, -, hsession⟩ := Room.entryOf_eq_some.mp hentry
    rw [Room.sessionOf, hst, Option.map_some, hsession]

theorem described_runTask {i : ℕ} {task : Task Id} {b : TaskAction} (hinv : n.Inv)
    (hw : n.room.Watched) (hopen : n.room.compositorOpen) (hd : n.Delivers (.task i b))
    (htask : n.room.tasks[i]? = some task) (hs : n.runTask t i task b = some n')
    (h : n.room.Described p (n.room.captioned p k)) :
    n'.room.Described p (n'.room.captioned p k) := by
  have hmem : task ∈ n.room.tasks := Pool.mem_of_getElem? htask
  have hwatched : n'.room.Watched :=
    watched_step hw (t := t) (a := .task i b) (by simp [Node.step, htask, hs])
  unfold runTask at hs
  split at hs
  · obtain rfl := send_eq hs
    exact h
  · obtain rfl := send_eq hs
    exact described_setTasks htask rfl h
  · split_ifs at hs
    obtain rfl := send_eq hs
    exact described_setTasks htask rfl h
  · obtain rfl := Option.some.inj hs
    exact described_setTasks htask rfl h
  · obtain rfl := Option.some.inj hs
    exact h
  · rename_i lastKind kind hkind
    split_ifs at hs
    · obtain rfl := Option.some.inj hs
      exact h
    · obtain rfl := Option.some.inj hs
      have hpresent := sessionOf_watcher hinv hmem (hd.2.2 task htask)
      refine h.path hopen hd.1 hpresent (fun w hmem => ?_) fun kind' hmem => ?_
      · rcases Room.mem_watchers_update htask hmem with hold | hnew
        · exact .inl hold
        · exact .inr (Option.some.inj hnew).symm
      · have hself : (task.peer, task.session, kind) ∈ (n.setTasks (Pool.update n.room.tasks i
            (some { task with kind := .pathWatcher kind }))).room.watchers :=
          List.mem_filterMap.mpr ⟨_, Pool.mem_update_self htask, rfl⟩
        have heq := List.inj_on_of_nodup_map hwatched.nodup hmem hself rfl
        exact congrArg (·.2.2) heq
  · split_ifs at hs
    obtain rfl := Option.some.inj hs
    exact described_setTasks htask rfl h
  · cases hs

/-- Whatever the room does, the compositor is told of it. -/
theorem described_step (hinv : n.Inv) (hw : n.room.Watched) (hopen : n.room.compositorOpen)
    (hd : n.Delivers a) (htake : Stage.takesCommand a = false) (hs : n.step t a = some n')
    (h : n.room.Described p (n.room.captioned p k)) :
    n'.room.Described p (n'.room.captioned p k) := by
  by_cases htask : ∃ i b, a = .task i b
  · obtain ⟨i, b, rfl⟩ := htask
    obtain ⟨task, htask, hs⟩ := Option.bind_eq_some_iff.mp hs
    exact described_runTask hinv hw hopen hd htask hs h
  have hroom := hd.1
  cases stepped_of_step hs with
  | joined => exact (h.openControlAndAddPeer hw hopen hroom).attachControl
  | dialed =>
    exact (h.openControlAndAddPeer hw hopen hroom).attachControl.of_quiet rfl rfl rfl rfl
  | @greeted _ _ conn =>
    set wrote := n.room.write conn (n.room.buildPeerList t)
    have hwrote : wrote.Described p (wrote.captioned p k) := h.of_quiet rfl rfl rfl rfl
    exact hwrote.handleHello (hw.of_eq rfl le_rfl) hopen hroom
  | listNext => exact h.handleReceivedPeer hopen hroom
  | listDial => exact h.handleReceivedPeer hopen hroom
  | disconnected => exact (h.handlePeerDisconnected hopen hroom).of_quiet rfl rfl rfl rfl
  | stop => cases hd.2.1
  | task => exact absurd ⟨_, _, rfl⟩ htask
  | compose => cases htake
  | _ => exact h.of_quiet rfl rfl rfl rfl

instance (n : Node Id) (a : Mesh.Action Id) : Decidable (n.Delivers a) :=
  inferInstanceAs (Decidable (_ ∧ _ ∧ _))

end Node

namespace Stage

variable {s s' : Stage Id}

/-- Every command of the room reaches the compositor's channel. -/
def Attended (s : Stage Id) : Action Id → Prop
  | .node a => s.node.Delivers a
  | _ => True

/-- A compositor that has caught up shows names, connections and drops of the present sessions. -/
def CaptionsCurrent (s : Stage Id) : Prop :=
  s.node.room.compositorOpen → s.node.room.commands = [] → ∀ drops g,
    s.compositor.buildGallery drops = some g → ∀ tile ∈ g.tiles, tile.peerId ≠ s.node.room.ourId →
      match s.node.room.peers.lookup tile.peerId with
      | some st => tile.name = st.name ∧ tile.videoDrops = drops st.sessionCancel ∧
          ∀ task ∈ s.node.room.tasks, task.peer = tile.peerId → task.session = st.sessionCancel →
            ∀ kind, task.kind = .pathWatcher kind → tile.connKind = kind
      | none => tile.name = "" ∧ tile.videoDrops = 0 ∧ tile.connKind = .unknown

/-- What the compositor knows, or will know, of the remote peers is what the room has recorded. -/
structure Current (s : Stage Id) : Prop where
  inv : s.node.Inv
  watched : s.node.room.Watched
  described : s.node.room.compositorOpen → ∀ p ≠ s.node.room.ourId,
    s.node.room.Described p (s.node.room.captioned p (.of s.compositor p))

theorem Current.start (endpoint : EndpointAddr Id) (media : MediaResources)
    (initial : Option (EndpointAddr Id)) : (start endpoint media initial).Current where
  inv := Node.inv_run endpoint media initial
  watched := by
    cases initial <;> exact ⟨List.nodup_nil, fun _ hmem => by cases hmem⟩
  described _ p hp := by
    cases initial <;> exact .new hp

theorem Current.step (h : s.Current) {a : Action Id} (ha : s.Attended a)
    (hs : s.step t a = some s') : s'.Current := by
  cases a with
  | node a =>
    simp only [Stage.step] at hs
    split_ifs at hs with htake
    obtain ⟨n', hn, rfl⟩ := Option.map_eq_some_iff.mp hs
    obtain ⟨hid, hopen'⟩ := Node.fixed_step hn
    refine ⟨h.inv.step hn, Node.watched_step h.watched hn, fun hopen p hp => ?_⟩
    have hwas : s.node.room.compositorOpen := hopen' ▸ hopen
    exact Node.described_step h.inv h.watched hwas ha (Bool.eq_false_of_not_eq_true htake) hn
      (h.described hwas p (hid ▸ hp))
  | decoded i frame =>
    obtain ⟨task, -, hs⟩ := Option.bind_eq_some_iff.mp hs
    split_ifs at hs
    obtain rfl := Option.some.inj hs
    exact ⟨h.inv, h.watched, h.described⟩
  | preview frame =>
    obtain rfl := Option.some.inj hs
    exact ⟨h.inv, h.watched, h.described⟩
  | frame drops =>
    simp only [Stage.step] at hs
    split at hs
    · cases hs
    obtain rfl := Option.some.inj hs
    exact ⟨h.inv, h.watched, h.described⟩
  | command drops =>
    simp only [Stage.step] at hs
    split at hs
    · cases hs
    rename_i cmd commands hcommands
    obtain rfl := Option.some.inj hs
    refine ⟨⟨h.inv.sound, h.inv.greetsStranger⟩, h.watched.of_eq rfl le_rfl, fun hopen p hp => ?_⟩
    have hcaption : s.node.room.captioned p (.of s.compositor p) =
        commands.foldl (Caption.apply p)
          (.of (s.compositor.receiveCommand drops cmd).1 p) := by
      rw [Compositor.receiveCommand_fst, Caption.of_apply, Room.captioned, hcommands,
        List.foldl_cons]
    have hdescribed := h.described hopen p hp
    rw [hcaption] at hdescribed
    exact hdescribed.of_same rfl rfl fun _ _ hmem => hmem
  | exit =>
    simp only [Stage.step] at hs
    split_ifs at hs
    obtain rfl := Option.some.inj hs
    refine ⟨⟨h.inv.sound, h.inv.greetsStranger⟩, h.watched.of_eq rfl le_rfl, fun hopen => ?_⟩
    cases hopen

/-- While all commands are delivered, the captions of a caught-up gallery are those of the room. -/
theorem captionsCurrent_of_attended {endpoint : EndpointAddr Id} {media : MediaResources}
    {initial : Option (EndpointAddr Id)} {as : List (Action Id)}
    (h : Run (step t) Attended (start endpoint media initial) as s) : s.CaptionsCurrent := by
  have hcurrent : s.Current :=
    h.invariant (fun _ _ _ hn ha hs => hn.step ha hs) (.start endpoint media initial)
  intro hopen hcommands drops g hg tile htile hremote
  have hcaption := hcurrent.described hopen tile.peerId hremote
  rw [Room.captioned, hcommands, List.foldl_nil] at hcaption
  obtain ⟨hname, hkind, hdrops⟩ := Caption.of_tile hg htile
  split
  · rename_i st hst
    have hsession : s.node.room.sessionOf tile.peerId = some st.sessionCancel := by
      rw [Room.sessionOf, hst, Option.map_some]
    refine ⟨?_, ?_, fun task htask hpeer hpresent kind hwatcher => ?_⟩
    · rw [hname, hcaption.name, Room.nameOf, hst]
      by_cases hempty : st.name = "" <;> simp [Option.filter, hempty]
    · rw [hdrops, hcaption.counter, hsession, Option.map_some, Option.getD_some]
    · rw [hkind]
      have hmem : (tile.peerId, st.sessionCancel, kind) ∈ s.node.room.watchers :=
        List.mem_filterMap.mpr ⟨task, htask, by simp [Task.watcher, hwatcher, hpeer, hpresent]⟩
      exact hcaption.watched st.sessionCancel kind hmem hsession
  · rename_i hnone
    have hempty := hcaption.eq_empty (AList.lookup_eq_none.mp hnone)
    rw [hname, hkind, hdrops, hempty]
    exact ⟨rfl, rfl, rfl⟩

instance (s : Stage Id) (a : Action Id) : Decidable (s.Attended a) :=
  match a with
  | .node a => inferInstanceAs (Decidable (s.node.Delivers a))
  | .decoded _ _ => .isTrue trivial
  | .preview _ => .isTrue trivial
  | .frame _ => .isTrue trivial
  | .command _ => .isTrue trivial
  | .exit => .isTrue trivial

/-- Peer 2 connects again, under another name and through a relay. -/
def comeAgain : List (Action ℕ) :=
  comeAndGo ++ [.node (.accept 2), .node .receive,
    .node (.greeted (some (.hello "addr 2" "c")) true), .node (.task 13 (.path .relay)),
    .decoded 10 sampleFrame]

/-- The compositor takes a frame, the commands and the other frame. -/
def catchUp : List (Action ℕ) :=
  .frame (fun _ => 0) :: List.replicate 8 (.command fun _ => 0) ++ [.frame fun _ => 0]

theorem captionsCurrent_of_attended_comeAgain : ∃ s : Stage ℕ,
    s.node.room.commands = [] ∧ s.compositor.latestFrames.keys = [2] ∧
      Caption.of s.compositor 2 = ⟨some "c", some .relay, some 1⟩ ∧ s.CaptionsCurrent := by
  obtain ⟨s, hs, hsummary⟩ := Option.map_eq_some_iff.mp
    (by decide +kernel : (exec (guarded (step sampleTexts) Attended)
      (start ⟨1, []⟩ ⟨false, true, false, "a"⟩ none) (comeAgain ++ catchUp)).map
        (fun s => (s.node.room.commands, s.compositor.latestFrames.keys,
          Caption.of s.compositor 2)) = some ([], [2], ⟨some "c", some .relay, some 1⟩))
  obtain ⟨hcommands, hsummary⟩ := Prod.mk.inj hsummary
  obtain ⟨hkeys, hcaption⟩ := Prod.mk.inj hsummary
  exact ⟨s, hcommands, hkeys, hcaption, captionsCurrent_of_attended (run_of_guarded hs)⟩

end Stage

end Meshconf.Mesh
