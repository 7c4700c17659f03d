import Meshconf.Mesh.Steps
import Meshconf.Transition.Run
import Meshconf.Video.Compositor

/-! # The gallery of a room

Frames reach the compositor through one channel and the removal of peers through
another, and both drop what they have no room for. A tile outlives its peer unless
the removal is delivered, behind the last frame of that peer.
-/

namespace Meshconf.Mesh

open Control Transition Video

variable {Id : Type*} [LinearOrder Id]

/-- Capacity of the channel for decoded frames. -/
def frameCapacity : ℕ := 10

/-- A running room with its compositor. The compositor runs while the room's channel is open. -/
structure Stage (Id : Type*) [LinearOrder Id] where
  node : Node Id
  compositor : Compositor Id := {}
  frames : List (Id × RgbFrame) := []
  /-- The galleries offered to the display, oldest first. -/
  offered : List (GalleryFrame Id) := []

namespace Stage

inductive Action (Id : Type*)
  /-- A step of the room, of its tasks or of the network. -/
  | node (a : Mesh.Action Id)
  /-- The video decoder at position `i` has decoded a frame. -/
  | decoded (i : ℕ) (frame : RgbFrame)
  /-- The camera preview sends a frame of our own. -/
  | preview (frame : RgbFrame)
  /-- The compositor takes a frame, or a command. -/
  | frame (drops : ℕ → ℕ)
  | command (drops : ℕ → ℕ)
  /-- The compositor ends. -/
  | exit

/-- Steps of a room that stand for the compositor. -/
def takesCommand : Mesh.Action Id → Bool
  | .compose => true
  | _ => false

def takesEvent : Mesh.Action Id → Bool
  | .receive => true
  | _ => false

def trySendFrame (s : Stage Id) (p : Id) (frame : RgbFrame) : Stage Id :=
  { s with
    frames :=
      if s.node.room.compositorOpen ∧ s.frames.length < frameCapacity then s.frames ++ [(p, frame)]
      else s.frames }

def offer (s : Stage Id) (r : Compositor Id × Option (GalleryFrame Id)) : Stage Id :=
  { s with compositor := r.1, offered := s.offered ++ r.2.toList }

def setRoom (s : Stage Id) (room : Room Id) : Stage Id := { s with node := { s.node with room } }

def step (t : Texts Id) (s : Stage Id) : Action Id → Option (Stage Id)
  | .node a =>
    if takesCommand a then none else (s.node.step t a).map fun node => { s with node }
  | .decoded i frame =>
    s.node.room.tasks[i]?.bind fun task =>
      if task.kind = .videoDecoder then some (s.trySendFrame task.peer frame) else none
  | .preview frame => some (s.trySendFrame s.node.room.ourId frame)
  | .frame drops =>
    match s.frames with
    | [] => none
    | (p, frame) :: frames =>
      some ({ s with frames }.offer (s.compositor.receiveFrame drops p frame))
  | .command drops =>
    match s.node.room.commands with
    | [] => none
    | cmd :: commands =>
      some ((s.setRoom { s.node.room with commands }).offer (s.compositor.receiveCommand drops cmd))
  | .exit =>
    if s.node.cancelled then
      some { s.setRoom { s.node.room with compositorOpen := false, commands := [] } with frames := [] }
    else none

/-- The room at the start of its run. -/
def start (endpoint : EndpointAddr Id) (media : MediaResources)
    (initial : Option (EndpointAddr Id)) : Stage Id where
  node := .run (.new endpoint media) initial

/-- Every tile that the compositor would show once it has caught up belongs to a participant. -/
def NoGhosts (s : Stage Id) : Prop :=
  s.node.room.compositorOpen → s.frames = [] → s.node.room.commands = [] →
    (∀ task ∈ s.node.room.tasks, task.kind = .videoDecoder → task.peer ∈ s.node.room.peers) →
    ∀ drops g, s.compositor.buildGallery drops = some g → ∀ tile ∈ g.tiles,
      tile.peerId = s.node.room.ourId ∨ tile.peerId ∈ s.node.room.peers

/-- A remote peer that is not in the room, or no longer. -/
def Absent (s : Stage Id) (p : Id) : Prop := p ≠ s.node.room.ourId ∧ p ∉ s.node.room.peers

/-- The compositor has a frame of `p`, or will have one. -/
def Shown (s : Stage Id) (p : Id) : Prop :=
  p ∈ s.compositor.latestFrames ∨ p ∈ s.frames.map Prod.fst

/-- The compositor will be told that `p` is gone. -/
def Announced (s : Stage Id) (p : Id) : Prop := .removePeer p ∈ s.node.room.commands

/-- The peers that leave the room in a step. -/
def leaving (n : Node Id) : Mesh.Action Id → List Id
  | .receive => (disconnects (n.events.take 1)).map Prod.fst
  | .stop => n.room.peers.keys
  | _ => []

/-- The peer that a command removes. -/
def removed : CompositorCommand Id → Option Id
  | .removePeer p => some p
  | _ => none

/-- The removal of a peer is delivered, and behind its last frame. -/
def InTime (s : Stage Id) : Action Id → Prop
  | .node a => ∀ p ∈ leaving s.node a, p ∈ s.node.room.peers → p ≠ s.node.room.ourId → s.Shown p →
      takesEvent a ∧ s.node.room.commands.length < commandCapacity
  | .decoded i _ => ∀ task ∈ s.node.room.tasks[i]?, s.Absent task.peer → s.Announced task.peer
  | .command _ => ∀ p ∈ s.node.room.commands.head?.bind removed, s.Absent p →
      p ∈ s.frames.map Prod.fst → .removePeer p ∈ s.node.room.commands.tail
  | _ => True

end Stage

/-! ## What the room does to its peers and commands -/

/-- No peer leaves, and every command stays. -/
structure Room.Grows (r r' : Room Id) : Prop where
  ourId : r'.ourId = r.ourId
  compositorOpen : r'.compositorOpen = r.compositorOpen
  commands : ∀ cmd ∈ r.commands, cmd ∈ r'.commands
  peers : ∀ p ∈ r.peers, p ∈ r'.peers

namespace Room

variable {t : Texts Id} {r r' r'' : Room Id} {p : Id} {conn : Connection Id}
  {addr : EndpointAddr Id} {name : String}

theorem Grows.refl (r : Room Id) : r.Grows r := ⟨rfl, rfl, fun _ h => h, fun _ h => h⟩

theorem Grows.trans (h : r.Grows r') (h' : r'.Grows r'') : r.Grows r'' where
  ourId := h'.ourId.trans h.ourId
  compositorOpen := h'.compositorOpen.trans h.compositorOpen
  commands cmd hcmd := h'.commands cmd (h.commands cmd hcmd)
  peers p hp := h'.peers p (h.peers p hp)

theorem Grows.trySendCommand (cmd : CompositorCommand Id) : r.Grows (r.trySendCommand cmd) where
  ourId := rfl
  compositorOpen := rfl
  commands a ha := by
    unfold Room.trySendCommand
    split_ifs
    · exact List.mem_append_left _ ha
    · exact ha
  peers _ h := h

theorem Grows.sendName : r.Grows (r.sendName p name) where
  ourId := rfl
  compositorOpen := rfl
  commands a ha := by
    unfold Room.sendName
    split_ifs
    · exact (Grows.trySendCommand _).commands a ha
    · exact ha
  peers _ h := h

theorem Grows.spawn (kinds : List TaskKind) (session : ℕ) : r.Grows (r.spawn kinds p conn session) :=
  ⟨rfl, rfl, fun _ h => h, fun _ h => h⟩

theorem Grows.newSession : r.Grows r.newSession := ⟨rfl, rfl, fun _ h => h, fun _ h => h⟩

theorem Grows.write {msg : ControlMessage} : r.Grows (r.write conn msg) :=
  ⟨rfl, rfl, fun _ h => h, fun _ h => h⟩

theorem Grows.broadcastPeerList : r.Grows (r.broadcastPeerList t) :=
  ⟨rfl, rfl, fun _ h => h, fun _ h => h⟩

/-- Entering a value under a key removes no peer. -/
theorem Grows.insert (p : Id) (st : PeerState Id) :
    r.Grows { r with peers := r.peers.insert p st } where
  ourId := rfl
  compositorOpen := rfl
  commands _ h := h
  peers _ h := (AList.mem_insert _).mpr (.inr h)

theorem Grows.addPeerWithMedia {session : ℕ} {controlSend : Option (Connection Id)} :
    r.Grows (r.addPeerWithMedia p conn addr session controlSend name) := by
  unfold Room.addPeerWithMedia
  split_ifs
  · exact .refl r
  · let added : Room Id :=
      { r with
        audioBroadcaster := r.audioBroadcaster.addPeer p conn
        videoBroadcaster := r.videoBroadcaster.addPeer p conn }
    have hadded : r.Grows added := ⟨rfl, rfl, fun _ h => h, fun _ h => h⟩
    have hcounter := hadded.trans (.trySendCommand (.setVideoDropCounter p session))
    exact (((hcounter.trans (.spawn _ _)).trans .sendName).trans (.spawn _ _)).trans (.insert p _)

theorem Grows.openControlAndAddPeer : r.Grows (r.openControlAndAddPeer p conn addr) :=
  Grows.newSession.trans .addPeerWithMedia

theorem Grows.attachControl : r.Grows (r.attachControl p conn) := by
  unfold Room.attachControl
  split
  · exact (Grows.insert p _).trans (.spawn _ _)
  · exact Grows.newSession.trans (.spawn _ _)

theorem Grows.handleHello : r.Grows (r.handleHello t conn addr name) := by
  have hreader : r.Grows (r.newSession.spawnControlReader conn.remoteId conn r.sessions) :=
    Grows.newSession.trans (.spawn _ _)
  exact (hreader.trans .addPeerWithMedia).trans .broadcastPeerList

theorem Grows.updateName {st : PeerState Id} : r.Grows (r.updateName p st name) := by
  unfold Room.updateName
  split_ifs
  · exact (Grows.insert p _).trans (.trySendCommand _)
  · exact .refl r

theorem Grows.handleReceivedPeer {info : PeerInfo} : r.Grows (r.handleReceivedPeer t info).1 := by
  rcases r.handleReceivedPeer_cases info with h | ⟨p, st, -, -, -, h⟩
  · rw [h]
    exact .refl r
  · rw [h]
    exact .updateName

end Room

namespace Node

variable {t : Texts Id} {n n' : Node Id} {a : Mesh.Action Id}

theorem grows_runTask {i : ℕ} {task : Task Id} {b : TaskAction}
    (h : n.runTask t i task b = some n') : n.room.Grows n'.room := by
  have hsame : ∀ {m : Node Id} {e : RoomEvent Id}, n.room.Grows m.room → m.send e = some n' →
      n.room.Grows n'.room := by
    rintro m e hm hsend
    obtain rfl := send_eq hsend
    exact hm
  have htasks : ∀ tasks, n.room.Grows (n.setTasks tasks).room :=
    fun _ => ⟨rfl, rfl, fun _ h => h, fun _ h => h⟩
  unfold runTask at h
  split at h
  · exact hsame (.refl _) h
  · exact hsame (htasks _) h
  · split_ifs at h
    exact hsame (htasks _) h
  · obtain rfl := Option.some.inj h
    exact htasks _
  · obtain rfl := Option.some.inj h
    exact .refl _
  · split_ifs at h <;> obtain rfl := Option.some.inj h
    · exact .refl _
    · exact (htasks _).trans (.trySendCommand _)
  · split_ifs at h
    obtain rfl := Option.some.inj h
    exact htasks _
  · cases h

/-- In a step of the room peers leave only through a disconnect, or at its end. -/
theorem grows_step (h : n.step t a = some n') : n.room.Grows n'.room ∨ a = .compose ∨
    (∃ p c events, a = .receive ∧ n.events = .peerDisconnected p c :: events ∧
      n'.room = (n.room.handlePeerDisconnected p).broadcastPeerList t) ∨
    a = .stop ∧ n'.room = n.room.cleanupAllPeers := by
  by_cases htask : ∃ i b, a = .task i b
  · obtain ⟨i, b, rfl⟩ := htask
    obtain ⟨task, -, h⟩ := Option.bind_eq_some_iff.mp h
    exact .inl (grows_runTask h)
  cases stepped_of_step h with
  | joined => exact .inl (Room.Grows.openControlAndAddPeer.trans .attachControl)
  | dialed =>
    exact .inl ((Room.Grows.openControlAndAddPeer.trans .attachControl).trans .broadcastPeerList)
  | greeted => exact .inl (Room.Grows.write.trans .handleHello)
  | listNext => exact .inl .handleReceivedPeer
  | listDial => exact .inl .handleReceivedPeer
  | disconnected _ hevents => exact .inr (.inr (.inl ⟨_, _, _, rfl, hevents, rfl⟩))
  | stop => exact .inr (.inr (.inr ⟨rfl, rfl⟩))
  | task => exact absurd ⟨_, _, rfl⟩ htask
  | compose => exact .inr (.inl rfl)
  | _ => exact .inl ⟨rfl, rfl, fun _ h => h, fun _ h => h⟩

end Node

namespace Room

variable {r : Room Id} {p q : Id}

/-- A peer that is disconnected leaves, and the command says so if there is room for it. -/
theorem handlePeerDisconnected_spec : (r.handlePeerDisconnected p).ourId = r.ourId ∧
    (r.handlePeerDisconnected p).compositorOpen = r.compositorOpen ∧
    (∀ cmd ∈ r.commands, cmd ∈ (r.handlePeerDisconnected p).commands) ∧
    (∀ q ∈ r.peers, q ≠ p → q ∈ (r.handlePeerDisconnected p).peers) ∧
    (p ∈ r.peers → r.compositorOpen → r.commands.length < commandCapacity →
      .removePeer p ∈ (r.handlePeerDisconnected p).commands) := by
  unfold Room.handlePeerDisconnected
  split
  · rename_i hnone
    exact ⟨rfl, rfl, fun _ h => h, fun _ h _ => h, fun h => absurd h (AList.lookup_eq_none.mp hnone)⟩
  · rename_i st hst
    refine ⟨rfl, rfl, (Grows.trySendCommand _).commands, ?_, ?_⟩
    · rintro q hq hne
      exact AList.mem_erase.mpr ⟨hne, hq⟩
    · rintro - hopen hroom
      simp only [Room.trySendCommand]
      rw [if_pos ⟨hopen, hroom⟩]
      exact List.mem_append_right _ (List.mem_singleton_self _)

end Room

namespace Stage

variable {t : Texts Id} {s s' : Stage Id} {p : Id}

/-- The invariant: whoever is still shown is in the room, or announced to be gone. -/
def Tidy (s : Stage Id) : Prop :=
  s.node.room.compositorOpen → ∀ p, s.Absent p → s.Shown p → s.Announced p

theorem Tidy.start (endpoint : EndpointAddr Id) (media : MediaResources)
    (initial : Option (EndpointAddr Id)) : (start endpoint media initial).Tidy := by
  rintro - p - hshown
  rcases hshown with h | h
  · exact absurd h (AList.notMem_empty p)
  · cases h

/-- While nothing is shown that was not, and nobody leaves, the invariant is kept. -/
theorem Tidy.of_grows (h : s.Tidy) (hgrows : s.node.room.Grows s'.node.room)
    (hshown : ∀ p, s'.Absent p → s'.Shown p → s.Shown p ∨ s'.Announced p) : s'.Tidy := by
  rintro hopen p habsent hp
  rcases hshown p habsent hp with hold | hnew
  · have habsent' : s.Absent p :=
      ⟨hgrows.ourId ▸ habsent.1, fun hmem => habsent.2 (hgrows.peers p hmem)⟩
    exact hgrows.commands _ (h (hgrows.compositorOpen ▸ hopen) p habsent' hold)
  · exact hnew

theorem Tidy.node (h : s.Tidy) {a : Mesh.Action Id} (ha : s.InTime (.node a)) {n' : Node Id}
    (htake : takesCommand a = false) (hn : s.node.step t a = some n') :
    Tidy { s with node := n' } := by
  rcases Node.grows_step hn with hgrows | rfl | ⟨q, c, events, rfl, hevents, hroom⟩ | ⟨rfl, hroom⟩
  · exact h.of_grows hgrows fun p _ hp => .inl hp
  · cases htake
  · obtain ⟨hid, hopen', hcommands, hpeers, hremoved⟩ :=
      Room.handlePeerDisconnected_spec (r := s.node.room) (p := q)
    rintro hopen p ⟨hours, hgone⟩ hp
    simp only [hroom] at hopen hours hgone
    change .removePeer p ∈ n'.room.commands
    rw [hroom]
    by_cases hmem : p ∈ s.node.room.peers
    · obtain rfl : p = q := by
        by_contra hne
        exact hgone (hpeers p hmem hne)
      have hleaves : p ∈ leaving s.node .receive := by simp [leaving, hevents, disconnects]
      obtain ⟨-, hcapacity⟩ := ha p hleaves hmem (fun heq => hours (heq.trans hid.symm)) hp
      exact hremoved hmem (hopen' ▸ hopen) hcapacity
    · have habsent : s.Absent p := ⟨fun heq => hours (heq.trans hid.symm), hmem⟩
      exact hcommands _ (h (hopen' ▸ hopen) p habsent hp)
  · rintro hopen p ⟨hours, hgone⟩ hp
    simp only [hroom] at hopen hours hgone
    change .removePeer p ∈ n'.room.commands
    rw [hroom]
    by_cases hmem : p ∈ s.node.room.peers
    · obtain ⟨hreceive, -⟩ := ha p (AList.mem_keys.mp hmem) hmem hours hp
      cases hreceive
    · exact h hopen p ⟨hours, hmem⟩ hp

theorem Tidy.trySendFrame (h : s.Tidy) (frame : RgbFrame) (hp : s.Absent p → s.Announced p) :
    (s.trySendFrame p frame).Tidy := by
  refine h.of_grows (.refl _) ?_
  rintro q habsent (hq | hq)
  · exact .inl (.inl hq)
  · simp only [Stage.trySendFrame] at hq
    split_ifs at hq
    · rw [List.map_append, List.map_singleton] at hq
      rcases List.mem_append.mp hq with hq | hq
      · exact .inl (.inr hq)
      · cases List.mem_singleton.mp hq
        exact .inr (hp habsent)
    · exact .inl (.inr hq)

theorem Tidy.step (h : s.Tidy) {a : Action Id} (ha : s.InTime a) (hs : s.step t a = some s') :
    s'.Tidy := by
  cases a with
  | node a =>
    simp only [Stage.step] at hs
    split_ifs at hs with htake
    obtain ⟨n', hn, rfl⟩ := Option.map_eq_some_iff.mp hs
    exact h.node ha (Bool.eq_false_of_not_eq_true htake) hn
  | decoded i frame =>
    obtain ⟨task, htask, hs⟩ := Option.bind_eq_some_iff.mp hs
    split_ifs at hs
    obtain rfl := Option.some.inj hs
    exact h.trySendFrame frame (ha task htask)
  | preview frame =>
    obtain rfl := Option.some.inj hs
    exact h.trySendFrame frame fun habsent => absurd rfl habsent.1
  | frame drops =>
    simp only [Stage.step] at hs
    split at hs
    · cases hs
    rename_i p frame frames hframes
    obtain rfl := Option.some.inj hs
    refine h.of_grows (.refl _) ?_
    rintro q - (hq | hq)
    · rcases (AList.mem_insert _).mp hq with rfl | hq
      · exact .inl (.inr (by simp [hframes]))
      · exact .inl (.inl hq)
    · refine .inl (.inr ?_)
      rw [hframes]
      exact List.mem_cons_of_mem _ hq
  | command drops =>
    simp only [Stage.step] at hs
    split at hs
    · cases hs
    rename_i cmd commands hcommands
    obtain rfl := Option.some.inj hs
    rintro hopen p habsent hp
    have hlatest (h : p ∈ (s.compositor.receiveCommand drops cmd).1.latestFrames) :
        p ∈ (s.compositor.apply cmd).latestFrames := by
      rwa [Compositor.receiveCommand_fst] at h
    have hshown : s.Shown p := hp.imp_left fun h => Compositor.mem_of_apply (hlatest h)
    have hannounced := h hopen p habsent hshown
    rw [Announced, hcommands] at hannounced
    rcases List.mem_cons.mp hannounced with hfirst | hrest
    · subst hfirst
      have hqueued : p ∈ s.frames.map Prod.fst := hp.resolve_left fun h =>
        (AList.mem_erase.mp (hlatest h)).1 rfl
      have htail := ha p (by rw [hcommands]; exact rfl) habsent hqueued
      rwa [hcommands] at htail
    · exact hrest
  | exit =>
    simp only [Stage.step] at hs
    split_ifs at hs
    obtain rfl := Option.some.inj hs
    rintro hopen
    cases hopen

theorem Tidy.noGhosts (h : s.Tidy) : s.NoGhosts := by
  rintro hopen - hcommands - drops g hg tile htile
  by_contra hghost
  have hannounced := h hopen tile.peerId (not_or.mp hghost)
    (.inl (Compositor.mem_of_buildGallery hg htile))
  rw [Announced, hcommands] at hannounced
  cases hannounced

/-- No tile outlives its peer while removals are delivered in time. -/
theorem noGhosts_of_inTime {endpoint : EndpointAddr Id} {media : MediaResources}
    {initial : Option (EndpointAddr Id)} {as : List (Action Id)}
    (h : Run (step t) InTime (start endpoint media initial) as s) : s.NoGhosts :=
  (h.invariant (P := Tidy) (fun _ _ _ hn ha hs => hn.step ha hs)
    (.start endpoint media initial)).noGhosts

instance (s : Stage Id) (p : Id) : Decidable (s.Absent p) :=
  inferInstanceAs (Decidable (_ ∧ _))

instance (s : Stage Id) (p : Id) : Decidable (s.Shown p) :=
  inferInstanceAs (Decidable (_ ∨ _))

instance (s : Stage Id) (p : Id) : Decidable (s.Announced p) :=
  inferInstanceAs (Decidable (_ ∈ _))

instance (s : Stage Id) (a : Action Id) : Decidable (s.InTime a) :=
  match a with
  | .node a => inferInstanceAs (Decidable (∀ p ∈ leaving s.node a, p ∈ s.node.room.peers →
      p ≠ s.node.room.ourId → s.Shown p →
        takesEvent a ∧ s.node.room.commands.length < commandCapacity))
  | .decoded i _ => inferInstanceAs (Decidable (∀ task ∈ s.node.room.tasks[i]?,
      s.Absent task.peer → s.Announced task.peer))
  | .command _ => inferInstanceAs (Decidable (∀ p ∈ s.node.room.commands.head?.bind removed,
      s.Absent p → p ∈ s.frames.map Prod.fst → .removePeer p ∈ s.node.room.commands.tail))
  | .preview _ => .isTrue trivial
  | .frame _ => .isTrue trivial
  | .exit => .isTrue trivial

def sampleFrame : RgbFrame :=
  { groupId := 0, captureTimestampUs := 0, width := 1, height := 1, data := [0] }

/-- Peer 2 connects, its decoder sends a frame, and its control stream ends. -/
def comeAndGo : List (Action ℕ) :=
  [.node (.accept 2), .node .receive, .node (.greeted (some (.hello "addr 2" "b")) true),
    .decoded 4 sampleFrame, .node (.task 0 .readError), .node .receive, .node (.task 3 .exit)]

/-- The compositor takes five commands. -/
def fiveCommands : List (Action ℕ) := List.replicate 5 (.command fun _ => 0)

theorem noGhosts_frameFirst : ∃ s : Stage ℕ,
    s.node.room.commands = [] ∧ s.compositor.latestFrames.keys = [] ∧ s.NoGhosts := by
  obtain ⟨s, hs, hsummary⟩ := Option.map_eq_some_iff.mp
    (by decide +kernel : (exec (guarded (step sampleTexts) InTime)
      (start ⟨1, []⟩ ⟨false, true, false, "a"⟩ none)
        (comeAndGo ++ .frame (fun _ => 0) :: fiveCommands)).map
          (fun s => (s.node.room.commands, s.compositor.latestFrames.keys)) = some ([], []))
  obtain ⟨hcommands, hkeys⟩ := Prod.mk.inj hsummary
  exact ⟨s, hcommands, hkeys, noGhosts_of_inTime (run_of_guarded hs)⟩

/-- The removal overtakes the frame: the tile of peer 2 stays. -/
theorem not_noGhosts : ¬ ∀ (t : Texts ℕ) (endpoint : EndpointAddr ℕ) (media : MediaResources)
    (initial : Option (EndpointAddr ℕ)) (s : Stage ℕ),
    Reachable (step t) (start endpoint media initial) s → s.NoGhosts := by
  intro h
  obtain ⟨s, hs, hsummary⟩ := Option.map_eq_some_iff.mp
    (by decide +kernel : (exec (step sampleTexts) (start ⟨1, []⟩ ⟨false, true, false, "a"⟩ none)
      (comeAndGo ++ fiveCommands ++ [.frame fun _ => 0])).map
        (fun s => (decide (s.node.room.compositorOpen ∧ s.frames.isEmpty ∧ s.node.room.commands = [] ∧
          s.node.room.ourId = 1 ∧ s.node.room.peers.keys = [] ∧
          ∀ task ∈ s.node.room.tasks, task.kind ≠ .videoDecoder),
          s.compositor.latestFrames.keys)) = some (true, [2]))
  obtain ⟨hstate, hkeys⟩ := Prod.mk.inj hsummary
  obtain ⟨hopen, hframes, hcommands, hours, hpeers, htasks⟩ := of_decide_eq_true hstate
  have hmem : 2 ∈ s.compositor.latestFrames := AList.mem_keys.mpr (by simp [hkeys])
  obtain ⟨g, hg, tile, htile, hid⟩ : ∃ g, s.compositor.buildGallery (fun _ => 0) = some g ∧
      ∃ tile ∈ g.tiles, tile.peerId = 2 := Compositor.exists_tile hmem
  have htile' := h _ _ _ _ s ⟨_, run_of_exec hs⟩ hopen (List.isEmpty_iff.mp hframes) hcommands
    (fun task hmem hkind => absurd hkind (htasks task hmem)) _ g hg tile htile
  rw [hid, hours, AList.mem_keys, hpeers] at htile'
  simp at htile'

end Stage

end Meshconf.Mesh
