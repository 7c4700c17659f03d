import Meshconf.Terminal.Slots

/-! # Turns of the display

Whatever a turn meets, it moves the slots by their own steps. So in every run of the display
the images are confined and alternate, and the labels last written are those of the tiles.
-/

namespace Meshconf.Terminal

open History Mesh Transition Video

namespace DisplayLoop

variable {Id : Type*} {d d' d'' : DisplayLoop Id} {l : Cells} {e : Scene} {g : GalleryFrame Id}
  {tile : TileFrame Id} {i : ℕ}

/-- What of the display belongs to its slots. -/
def slots (d : DisplayLoop Id) : Slots := 
  ⟨d.lastTileCount, d.backToggle, d.drawnLabels, d.written⟩

/-- Only the slots have moved, and what is remembered of the text. -/
structure Draws (d d' : DisplayLoop Id) : Prop where
  moves : Reachable Slots.step d.slots d'.slots
  lastTileCount : d'.lastTileCount = d.lastTileCount
  lastGallery : d'.lastGallery = d.lastGallery
  running : d'.running = d.running

theorem Draws.refl (d : DisplayLoop Id) : Draws d d := ⟨.refl _, rfl, rfl, rfl⟩

theorem Draws.trans (h : Draws d d') (h' : Draws d' d'') : Draws d d'' where
  moves := h.moves.trans h'.moves
  lastTileCount := h'.lastTileCount.trans h.lastTileCount
  lastGallery := h'.lastGallery.trans h.lastGallery
  running := h'.running.trans h.running

/-! ## Text -/

theorem moves_text {b : Slots} {ws : List Write} (hws : ∀ w ∈ ws, w.isText ∧ !w.isLabel) :
    Reachable Slots.step b (b.write ws) := by
  induction ws using List.reverseRecOn with
  | nil =>
    have heq : b.write [] = b := by simp [Slots.write]
    rw [heq]
    exact .refl b
  | append_singleton ws w ih =>
    have hstep : (b.write ws).step (.text w) = some (b.write (ws ++ [w])) := by
      simp [Slots.step, Slots.write, hws w (by simp)]
    exact (ih fun x hx => hws x (List.mem_append_left _ hx)).trans (.single hstep)

theorem draws_drawLabel (d : DisplayLoop Id) (l : Cells) (tile : TileFrame Id) (i : ℕ) :
    Draws d (d.drawLabel l tile i) := by
  unfold drawLabel
  split_ifs
  · exact .refl d
  · exact ⟨.single (a := .label i _ _ tile.name tile.connKind _) rfl, rfl, rfl, rfl⟩

theorem draws_drawDot (d : DisplayLoop Id) (l : Cells) (e : Scene) (tile : TileFrame Id) (i : ℕ) :
    Draws d (d.drawDot l e tile i) := by
  unfold drawDot
  dsimp only
  split_ifs
  · exact ⟨moves_text (by simp [Write.isText, Write.isLabel]), rfl, rfl, rfl⟩
  · exact ⟨.refl _, rfl, rfl, rfl⟩

theorem isStatus_statusText {new old : Option StatusInfo} {termCols anchorRow : ℕ} {w : Write}
    (hw : w ∈ statusText new old termCols anchorRow) : w.isStatus := by
  unfold statusText at hw
  rcases List.mem_append.mp hw with hw | hw
  · obtain ⟨i, -, rfl⟩ := List.mem_map.mp hw
    rfl
  · cases new with
    | none => cases hw
    | some info =>
      rcases List.mem_cons.mp hw with rfl | hw
      · rfl
      · cases hc : info.copyable with
        | none => simp [hc] at hw
        | some ticket =>
          rw [hc] at hw
          obtain rfl := List.mem_singleton.mp hw
          rfl

theorem isText_of_isStatus {w : Write} (h : w.isStatus) : w.isText ∧ !w.isLabel := by
  cases w <;> first | exact ⟨rfl, rfl⟩ | cases h

theorem draws_drawStatus (d : DisplayLoop Id) (status : Option StatusInfo) (ws : WinSize) :
    Draws d (d.drawStatus status ws) := by
  unfold drawStatus
  split_ifs
  · exact ⟨moves_text fun w hw => isText_of_isStatus (isStatus_statusText hw), rfl, rfl, rfl⟩
  · exact .refl d

theorem draws_drawError (d : DisplayLoop Id) (cameraError : Option String) :
    Draws d (d.drawError cameraError) := by
  unfold drawError
  split_ifs
  · exact .refl d
  · cases cameraError with
    | none => exact .refl d
    | some err => exact ⟨moves_text (by simp [Write.isText, Write.isLabel]), rfl, rfl, rfl⟩

/-! ## Images -/

theorem draws_renderTile {t : TileFrame Id × ℕ} (ht : t.2 < min d.lastTileCount maxTiles) :
    Draws d (d.renderTile l e t) := by
  have hused : d.slots.Used t.2 := ht
  unfold renderTile
  dsimp only
  split_ifs with hsent hplaced
  · refine Draws.trans ?_ ((draws_drawLabel _ _ _ _).trans (draws_drawDot _ _ _ _ _))
    have hstep : d.slots.step (.transmit t.2 t.1.frame
        (some (u16 (l.col t.1), u16 (l.row t.1), l.tileCols, l.tileRows))) = some _ := if_pos hused
    exact ⟨.single hstep, rfl, rfl, rfl⟩
  · refine Draws.trans ?_ ((draws_drawLabel _ _ _ _).trans (draws_drawDot _ _ _ _ _))
    have hstep : d.slots.step (.transmit t.2 t.1.frame none) = some _ := if_pos hused
    exact ⟨.single hstep, rfl, rfl, rfl⟩
  · have hstep : d.slots.step (.miss t.2) = some _ := if_pos hused
    exact ⟨.single hstep, rfl, rfl, rfl⟩

theorem draws_foldl {ts : List (TileFrame Id × ℕ)}
    (hts : ∀ t ∈ ts, t.2 < min d.lastTileCount maxTiles) :
    Draws d (ts.foldl (fun d t => d.renderTile l e t) d) := by
  induction ts generalizing d with
  | nil => exact .refl d
  | cons t ts ih =>
    have hhead : Draws d (d.renderTile l e t) := draws_renderTile (hts t List.mem_cons_self)
    refine hhead.trans (ih fun t' ht' => ?_)
    rw [hhead.lastTileCount]
    exact hts t' (List.mem_cons_of_mem t ht')

theorem slot_lt {t : TileFrame Id × ℕ} (ht : t ∈ slotted g) :
    t.2 < min g.tiles.length maxTiles := by
  obtain ⟨n, hn, hget⟩ := List.mem_iff_getElem.mp ht
  unfold slotted at hn hget
  rw [List.length_take, List.length_zipIdx] at hn
  rw [List.getElem_take, List.getElem_zipIdx] at hget
  rw [← hget]
  simpa [Nat.min_comm] using hn

theorem draws_renderGallery (hg : g.tiles.length = d.lastTileCount) :
    Draws d (d.renderGallery e g) := by
  unfold renderGallery
  cases e.windowSize with
  | none => exact .refl d
  | some ws =>
    dsimp only
    cases cellsFor g ws with
    | none => exact .refl d
    | some l =>
      refine (draws_foldl fun t ht => ?_).trans (draws_drawStatus _ _ _)
      rw [← hg]
      exact slot_lt ht

theorem draws_clearAll (d : DisplayLoop Id) : Draws d d.clearAll := by
  have hstep : d.slots.step (.clear d.lastTileCount) = some d.clearAll.slots := rfl
  exact ⟨.single hstep, rfl, rfl, rfl⟩

/-! ## Turns -/

/-- The invariant of the display. -/
structure Steady (d : DisplayLoop Id) : Prop where
  sound : d.slots.Sound
  labelled : d.slots.Labelled
  counted : ∀ g, d.lastGallery = some g → g.tiles.length = d.lastTileCount
  stopped : d.running = false → Screen.after d.written = {}

theorem steady_init : Steady ({} : DisplayLoop Id) where
  sound := Slots.sound_init
  labelled := Slots.labelled_init
  counted g hg := by cases hg
  stopped h := by cases h

/-- Drawing keeps what a running display needs. -/
theorem Steady.draws (h : d.Steady) (hd : Draws d d') (hrun : d.running = true) : d'.Steady where
  sound := h.sound.of_reachable hd.moves
  labelled := h.labelled.of_reachable hd.moves
  counted g hg := by
    rw [hd.lastTileCount]
    exact h.counted g (hd.lastGallery ▸ hg)
  stopped hstop := by
    rw [hd.running, hrun] at hstop
    cases hstop

theorem draws_handleResize (h : d.Steady) (t : Turn Id) : Draws d (d.handleResize t) := by
  unfold handleResize
  split_ifs
  · cases hg : d.lastGallery with
    | none => exact draws_clearAll d
    | some g => exact (draws_clearAll d).trans (draws_renderGallery (h.counted g hg))
  · exact .refl d

theorem Steady.stop (h : d.Steady) : d.stop.Steady where
  sound := h.sound.delete
  labelled := h.labelled.append fun _ _ => Slots.labels_deleteImages
  counted := h.counted
  stopped _ := h.sound.after_delete

theorem setTileCount_lastTileCount : (d.setTileCount g).lastTileCount = g.tiles.length := by
  unfold setTileCount
  split_ifs with hne
  · rfl
  · exact (not_not.mp hne).symm

theorem setTileCount_running : (d.setTileCount g).running = d.running := by
  unfold setTileCount
  split_ifs <;> rfl

theorem moves_setTileCount : Reachable Slots.step d.slots (d.setTileCount g).slots := by
  unfold setTileCount
  split_ifs
  · exact .single (a := .clear g.tiles.length) rfl
  · exact .refl _

theorem draws_showEmpty (d : DisplayLoop Id) (e : Scene) :
    Draws { d with lastGallery := none } (d.showEmpty e) := by
  unfold showEmpty
  cases e.windowSize with
  | none => exact ⟨.refl _, rfl, rfl, rfl⟩
  | some ws => exact draws_drawStatus _ _ _

theorem Steady.showGallery (h : d.Steady) (hrun : d.running = true) (e : Scene)
    (g : GalleryFrame Id) : (d.showGallery e g).Steady := by
  have hmoves : Reachable Slots.step d.slots (d.setTileCount g).slots := moves_setTileCount
  have hrun' : (d.setTileCount g).running = true := by rw [setTileCount_running, hrun]
  unfold DisplayLoop.showGallery
  split_ifs
  · refine Steady.draws (d := { d.setTileCount g with lastGallery := none }) ?_
      (draws_showEmpty _ e) hrun'
    refine ⟨h.sound.of_reachable hmoves, h.labelled.of_reachable hmoves, ?_, ?_⟩
    · intro g' hg'
      cases hg'
    · intro hstop
      rw [hrun'] at hstop
      cases hstop
  · have hdraws : Draws (d.setTileCount g) ((d.setTileCount g).renderGallery e g) :=
      draws_renderGallery setTileCount_lastTileCount.symm
    have hmoves' := hmoves.trans hdraws.moves
    refine ⟨h.sound.of_reachable hmoves', h.labelled.of_reachable hmoves', ?_, ?_⟩
    · intro g' hg'
      cases hg'
      exact setTileCount_lastTileCount.symm.trans hdraws.lastTileCount.symm
    · intro hstop
      rw [show _ = true from hdraws.running.trans hrun'] at hstop
      cases hstop

theorem Steady.turn (h : d.Steady) (hrun : d.running = true) (t : Turn Id) :
    (d.turn t).Steady := by
  have hdraws := (draws_handleResize h t).trans (draws_drawError _ t.cameraError)
  have hsteady := h.draws hdraws hrun
  unfold DisplayLoop.turn
  cases t.next with
  | none => exact hsteady.stop
  | some g => exact hsteady.showGallery (hdraws.running.trans hrun) t.scene g

theorem Steady.step (h : d.Steady) {a : Action Id} (hs : d.step a = some d') : d'.Steady := by
  cases a with
  | cancel =>
    simp only [DisplayLoop.step] at hs
    split_ifs at hs
    obtain rfl := Option.some.inj hs
    exact h.stop
  | turn t =>
    simp only [DisplayLoop.step] at hs
    split_ifs at hs with hrun
    obtain rfl := Option.some.inj hs
    exact h.turn hrun t

theorem Steady.of_reachable (h : Reachable DisplayLoop.step {} d) : d.Steady :=
  h.invariant (fun _ _ _ h hs => h.step hs) steady_init

/--
Whatever the display has written up to some time, the terminal stores at most two images for each
slot and shows each at most once; after a turn only slots of the last gallery have images, and none
are left once the display has stopped.
-/
theorem images_confined (h : Reachable DisplayLoop.step {} d) :
    (∀ written, written <+: d.written → (Screen.after written).Tidy ∧
      (Screen.after written).images.length ≤ 2 * maxTiles) ∧
    (∀ e ∈ (Screen.after d.written).images, slotOf e.1 < min d.lastTileCount maxTiles) ∧
    (d.running = false → Screen.after d.written = {}) := by
  have hsteady := Steady.of_reachable h
  refine ⟨fun written hpre => ?_, hsteady.sound.stored, hsteady.stopped⟩
  have htidy := tidy_of_each hsteady.sound.each hpre
  exact ⟨htidy, htidy.length_images⟩

/--
An image on display is overwritten by the next transmission for its slot if and only if the slot
has failed an odd number of times since, to transmit an image or to place it. While it does not
fail, an image stays until it is deleted or the screen is cleared.
-/
theorem overwritten_iff (h : Reachable DisplayLoop.step {} d) :
    (∀ before id frame rest f, d.written = before ++ .transmitImage id frame :: rest →
      front (slotOf id) before = some f → (f = id ↔ Odd (failures (slotOf id) before))) ∧
    (∀ written slot f, written <+: d.written → Write.warn slot ∉ written →
      front slot written = some f →
        f ∈ (Screen.after written).placements.map Placement.id) := by
  have hsound := (Steady.of_reachable h).sound
  constructor
  · intro before id frame rest f hwritten
    exact (hsound.each before _ rest hwritten).2.2 f
  · intro written slot f hpre
    exact front_on_display (hsound.each.initial hpre)

/-! ## The labels after a turn -/

theorem drawnLabels_drawLabel : (d.drawLabel l tile i).drawnLabels[i]? = some (tileLabel tile) := by
  unfold drawLabel
  split_ifs with hsame
  · exact hsame
  · exact getElem?_putAt_self

theorem drawnLabels_drawLabel_of_ne {j : ℕ} {label : DrawnLabel} (hne : j ≠ i)
    (h : d.drawnLabels[j]? = some label) : (d.drawLabel l tile i).drawnLabels[j]? = some label := by
  unfold drawLabel
  split_ifs
  · exact h
  · change (putAt d.drawnLabels i (tileLabel tile))[j]? = some label
    rcases getElem?_putAt_of_ne d.drawnLabels (tileLabel tile) hne with heq | ⟨hnone, -⟩
    · rw [heq, h]
    · rw [hnone] at h
      cases h

theorem drawnLabels_drawDot : (d.drawDot l e tile i).drawnLabels = d.drawnLabels := by
  unfold drawDot
  dsimp only
  split_ifs <;> rfl

theorem drawnLabels_renderTile {t : TileFrame Id × ℕ} (hsent : e.transmitted t.2) :
    (d.renderTile l e t).drawnLabels[t.2]? = some (tileLabel t.1) := by
  simp only [renderTile, if_pos hsent]
  rw [drawnLabels_drawDot, drawnLabels_drawLabel]

theorem drawnLabels_renderTile_of_ne {t : TileFrame Id × ℕ} {j : ℕ} {label : DrawnLabel}
    (hne : j ≠ t.2) (h : d.drawnLabels[j]? = some label) :
    (d.renderTile l e t).drawnLabels[j]? = some label := by
  unfold renderTile
  dsimp only
  split_ifs
  · rw [drawnLabels_drawDot]
    exact drawnLabels_drawLabel_of_ne hne h
  · rw [drawnLabels_drawDot]
    exact drawnLabels_drawLabel_of_ne hne h
  · exact h

/-- The labels of all tiles that were drawn are remembered. -/
theorem drawnLabels_foldl {ts : List (TileFrame Id × ℕ)} (hts : (ts.map Prod.snd).Nodup)
    {t : TileFrame Id × ℕ} (ht : t ∈ ts) (hsent : e.transmitted t.2) :
    (ts.foldl (fun d t => d.renderTile l e t) d).drawnLabels[t.2]? = some (tileLabel t.1) := by
  induction ts using List.reverseRecOn generalizing d with
  | nil => cases ht
  | append_singleton ts t' ih =>
    rw [List.foldl_append, List.foldl_cons, List.foldl_nil]
    rw [List.map_append, List.nodup_append] at hts
    obtain ⟨hnodup, -, hdisjoint⟩ := hts
    rcases List.mem_append.mp ht with ht | ht
    · exact drawnLabels_renderTile_of_ne
        (hdisjoint _ (List.mem_map_of_mem ht) _ (by simp)) (ih hnodup ht)
    · obtain rfl := List.mem_singleton.mp ht
      exact drawnLabels_renderTile hsent

theorem nodup_slotted (g : GalleryFrame Id) : ((slotted g).map Prod.snd).Nodup := by
  have hsub : ((slotted g).map Prod.snd).Sublist (g.tiles.zipIdx.map Prod.snd) :=
    (List.take_sublist _ _).map _
  refine List.Nodup.sublist hsub ?_
  rw [List.zipIdx_map_snd]
  exact List.nodup_range'

theorem connKindTag_injective : Function.Injective connKindTag := by
  intro k k' h
  cases k <;> cases k' <;> first | rfl | cases h

/-- What a remembered label says of the one last written. -/
theorem lastLabel_of_labelOk {last : Option (String × ConnectionKind)}
    (h : LabelOk (some (tileLabel tile)) last) :
    last = some (displayName tile.name, tile.connKind) ∨
      last = none ∧ tile.name = "" ∧ tile.connKind = .unknown := by
  cases last with
  | none =>
    obtain ⟨hname, htag⟩ := DrawnLabel.mk.inj (show tileLabel tile = ⟨"", 0⟩ from h)
    exact Or.inr ⟨rfl, hname, connKindTag_injective htag⟩
  | some last =>
    obtain ⟨name, kind⟩ := last
    obtain ⟨hname, htag⟩ := h
    rw [hname, connKindTag_injective htag]
    exact Or.inl rfl

/--
When a gallery has been drawn, the label last written for every tile whose image was transmitted
says its name and the kind of its connection. Only a tile without either may have no label.
-/
theorem labels_current (h : Reachable DisplayLoop.step {} d) (hrun : d.running = true) {t : Turn Id}
    {ws : WinSize} (hnext : t.next = some g) (hws : t.scene.windowSize = some ws)
    (hcells : cellsFor g ws = some l) {s : TileFrame Id × ℕ} (hs : s ∈ slotted g)
    (hsent : t.scene.transmitted s.2) :
    lastLabel s.2 (d.turn t).written = some (displayName s.1.name, s.1.connKind) ∨
      lastLabel s.2 (d.turn t).written = none ∧ s.1.name = "" ∧ s.1.connKind = .unknown := by
  have hlabelled := ((Steady.of_reachable h).turn hrun t).labelled s.2
  have hdrawn : (d.turn t).drawnLabels[s.2]? = some (tileLabel s.1) := by
    have hne : g.tiles ≠ [] := by
      rintro hnil
      simp [slotted, hnil] at hs
    simp only [turn, hnext, showGallery, if_neg hne, renderGallery, hws, hcells]
    rw [show ∀ (d : DisplayLoop Id) status ws, (d.drawStatus status ws).drawnLabels = d.drawnLabels
      from fun d status ws => by unfold drawStatus; split_ifs <;> rfl]
    exact drawnLabels_foldl (nodup_slotted g) hs hsent
  exact lastLabel_of_labelOk (by rw [← hdrawn]; exact hlabelled)

/-! ### A failed transmission -/

def soloGallery : GalleryFrame ℕ :=
  { tiles := [⟨7, ⟨0, 0, 1, 1, [0]⟩, 0, 0, "a", .direct, 0⟩], cols := 1, rows := 1 }

def soloScene : Scene := { windowSize := some ⟨80, 24, 800, 480⟩ }

/-- The second image of the gallery is not transmitted. -/
def failedSecond : List (Action ℕ) :=
  [.turn { next := some soloGallery, scene := soloScene },
    .turn { next := some soloGallery, scene := { soloScene with transmitted := fun _ => false } },
    .turn { next := some soloGallery, scene := soloScene }]

theorem images_confined_failedSecond : ∃ d : DisplayLoop ℕ, Reachable DisplayLoop.step {} d ∧
    d.running = false ∧ d.written.length = 47 ∧ Screen.after d.written = {} := by
  obtain ⟨d, hd⟩ : ∃ d, exec DisplayLoop.step {} (failedSecond ++ [.cancel]) = some d := ⟨_, rfl⟩
  have hreach : Reachable DisplayLoop.step {} d := ⟨_, run_of_exec hd⟩
  obtain ⟨hrun, hlength⟩ : d.running = false ∧ d.written.length = 47 := by
    obtain rfl := Option.some.inj hd
    exact ⟨rfl, by decide⟩
  exact ⟨d, hreach, hrun, hlength, (images_confined hreach).2.2 hrun⟩

theorem overwritten_iff_failedSecond : ∃ (d : DisplayLoop ℕ) (before : List Write)
    (frame : RgbFrame), Reachable DisplayLoop.step {} d ∧
      before ++ [.transmitImage 1 frame] <+: d.written ∧ front 0 before = some 1 ∧
      Odd (failures 0 before) := by
  obtain ⟨d, hd⟩ : ∃ d, exec DisplayLoop.step {} failedSecond = some d := ⟨_, rfl⟩
  have hreach : Reachable DisplayLoop.step {} d := ⟨_, run_of_exec hd⟩
  obtain ⟨frame, hwritten, hfront⟩ : ∃ frame, d.written = d.written.take 25 ++
      .transmitImage 1 frame :: d.written.drop 26 ∧ front 0 (d.written.take 25) = some 1 := by
    obtain rfl := Option.some.inj hd
    exact ⟨_, rfl, by decide⟩
  refine ⟨d, d.written.take 25, frame, hreach, ?_, hfront, ?_⟩
  · refine ⟨d.written.drop 26, ?_⟩
    rw [List.append_assoc]
    exact hwritten.symm
  · exact ((overwritten_iff hreach).1 _ 1 frame _ 1 hwritten hfront).mp rfl

theorem labels_current_failedSecond : ∃ d : DisplayLoop ℕ, Reachable DisplayLoop.step {} d ∧
    lastLabel 0 (d.turn { next := some soloGallery, scene := soloScene }).written =
      some ("a", .direct) := by
  obtain ⟨d, hd⟩ : ∃ d, exec DisplayLoop.step {} failedSecond = some d := ⟨_, rfl⟩
  have hreach : Reachable DisplayLoop.step {} d := ⟨_, run_of_exec hd⟩
  have hrun : d.running = true := by
    obtain rfl := Option.some.inj hd
    rfl
  obtain ⟨l, hcells⟩ : ∃ l, cellsFor soloGallery ⟨80, 24, 800, 480⟩ = some l := ⟨_, rfl⟩
  obtain ⟨s, hs⟩ : ∃ s, slotted soloGallery = [s] := ⟨_, rfl⟩
  have hlabel := labels_current hreach hrun (t := { next := some soloGallery, scene := soloScene })
    rfl rfl hcells (s := s) (by rw [hs]; exact List.mem_singleton_self s) rfl
  obtain rfl := List.cons.inj hs |>.1
  refine ⟨d, hreach, hlabel.resolve_right ?_⟩
  simp [soloGallery]

end DisplayLoop

end Meshconf.Terminal
