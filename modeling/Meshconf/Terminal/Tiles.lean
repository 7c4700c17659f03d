import Meshconf.Raster.Buffer
import Meshconf.Terminal.Cursor
import Meshconf.Terminal.Turns
import Meshconf.Video.Composition

/-! # The cells of the tiles

If positions are not cut off, the images of a gallery have no cell in common. A gallery that is
not too large is all in the window. A label may be wrapped into the next row; as long as it is
not wrapped twice, no row of a label or of a dot is covered by an image.
-/

namespace Meshconf.Terminal

open DisplayLoop Mesh Raster Video

variable {Id : Type*} {g : GalleryFrame Id} {ws : WinSize} {l : Cells}

/-! ## Positions -/

/-- Columns of the whole gallery. -/
def galleryWidth (g : GalleryFrame Id) (l : Cells) : ℕ :=
  g.cols * l.tileCols + (g.cols - 1) * cellGapCols

/-- Rows of the whole gallery. -/
def galleryHeight (g : GalleryFrame Id) (l : Cells) : ℕ :=
  g.rows * (l.tileRows + labelRows) + (g.rows - 1) * cellGapRows

theorem cellsFor_eq (h : cellsFor g ws = some l) :
    0 < ws.xPixel / ws.cols ∧ 0 < ws.yPixel / ws.rows ∧
      l.tileCols = divCeil g.tileW (ws.xPixel / ws.cols) ∧
      l.tileRows = divCeil g.tileH (ws.yPixel / ws.rows) ∧
      l.originCol = (ws.cols - totalCols g l.tileCols) / 2 ∧
      l.originRow = (ws.rows - totalRows g l.tileRows) / 2 := by
  unfold cellsFor at h
  split_ifs at h
  dsimp only at h
  split_ifs at h with hcell
  obtain rfl := Option.some.inj h
  rw [not_or] at hcell
  exact ⟨Nat.pos_of_ne_zero hcell.1, Nat.pos_of_ne_zero hcell.2, rfl, rfl, rfl, rfl⟩

/-- A gallery with its cells; all positions are numbers of 16 bits. -/
structure Laid [LinearOrder Id] (g : GalleryFrame Id) (ws : WinSize) (l : Cells) : Prop where
  built : ∃ (c : Compositor Id) (drops : ℕ → ℕ), c.buildGallery drops = some g
  cells : cellsFor g ws = some l
  cols : ws.cols < 2 ^ 16
  rows : ws.rows < 2 ^ 16
  width : galleryWidth g l < 2 ^ 16
  height : galleryHeight g l < 2 ^ 16

/-- The cells of an image. -/
def imageRect (l : Cells) (tile : TileFrame Id) : Rect :=
  ⟨l.col tile, l.row tile, l.tileCols, l.tileRows⟩

namespace Laid

variable [LinearOrder Id] {tile tile' : TileFrame Id}

theorem lt_u32 {n : ℕ} (hn : n < 2 ^ 16) : n < 2 ^ 32 := hn.trans (by decide)

/-- The gallery begins where it is centred, and ends in the window or at its own size. -/
theorem origin (h : Laid g ws l) :
    l.originCol + galleryWidth g l ≤ max ws.cols (galleryWidth g l) ∧
      l.originRow + galleryHeight g l ≤ max ws.rows (galleryHeight g l) := by
  obtain ⟨-, -, -, -, hcol, hrow⟩ := cellsFor_eq h.cells
  have htotalCols : totalCols g l.tileCols = galleryWidth g l := u32_eq (lt_u32 h.width)
  have htotalRows : totalRows g l.tileRows = galleryHeight g l := u32_eq (lt_u32 h.height)
  rw [htotalCols] at hcol
  rw [htotalRows] at hrow
  omega

theorem inside_grid (h : Laid g ws l) (ht : tile ∈ g.tiles) :
    tile.gridCol < g.cols ∧ tile.gridRow < g.rows := by
  obtain ⟨c, drops, hbuilt⟩ := h.built
  exact (Compositor.isGallery hbuilt).inside ht

theorem col_span (h : Laid g ws l) (ht : tile ∈ g.tiles) :
    tile.gridCol * (l.tileCols + cellGapCols) + l.tileCols ≤ galleryWidth g l :=
  span_le (h.inside_grid ht).1 le_rfl

theorem row_span (h : Laid g ws l) (ht : tile ∈ g.tiles) :
    tile.gridRow * (l.tileRows + labelRows + cellGapRows) + (l.tileRows + labelRows) ≤
      galleryHeight g l :=
  span_le (h.inside_grid ht).2 le_rfl

theorem col_eq (h : Laid g ws l) (ht : tile ∈ g.tiles) :
    l.col tile = l.originCol + tile.gridCol * (l.tileCols + cellGapCols) := by
  have hspan := h.col_span ht
  have horigin := h.origin.1
  have hcols := h.cols
  have hwidth := h.width
  exact u32_eq (lt_u32 (by omega))

theorem row_eq (h : Laid g ws l) (ht : tile ∈ g.tiles) :
    l.row tile = l.originRow + tile.gridRow * (l.tileRows + labelRows + cellGapRows) := by
  have hspan := h.row_span ht
  have horigin := h.origin.2
  have hrows := h.rows
  have hheight := h.height
  exact u32_eq (lt_u32 (by omega))

/-- Nothing of a tile or its label is cut off. -/
theorem ends (h : Laid g ws l) (ht : tile ∈ g.tiles) :
    l.col tile + l.tileCols ≤ max ws.cols (galleryWidth g l) ∧
      l.row tile + l.tileRows + labelRows ≤ max ws.rows (galleryHeight g l) := by
  have hcol := h.col_span ht
  have hrow := h.row_span ht
  obtain ⟨horiginCol, horiginRow⟩ := h.origin
  rw [h.col_eq ht, h.row_eq ht]
  omega

theorem ends_lt (h : Laid g ws l) (ht : tile ∈ g.tiles) :
    l.col tile + l.tileCols < 2 ^ 16 ∧ l.row tile + l.tileRows + labelRows < 2 ^ 16 := by
  have hends := h.ends ht
  have hcols := h.cols
  have hrows := h.rows
  have hwidth := h.width
  have hheight := h.height
  omega

/-! ## Images and text -/

/-- Images of different cells have no cell of the terminal in common. -/
theorem disjoint (h : Laid g ws l) :
    g.tiles.Pairwise fun t t' => Disjoint (imageRect l t).pixels (imageRect l t').pixels := by
  obtain ⟨c, drops, hbuilt⟩ := h.built
  refine (Compositor.isGallery hbuilt).distinct.imp_of_mem fun {t t'} ht ht' hne => ?_
  rw [Set.disjoint_left]
  rintro ⟨x, y⟩ ⟨⟨hx, hx'⟩, hy, hy'⟩ ⟨⟨hx₂, hx₂'⟩, hy₂, hy₂'⟩
  simp only [imageRect, h.col_eq ht, h.row_eq ht] at hx hx' hy hy'
  simp only [imageRect, h.col_eq ht', h.row_eq ht'] at hx₂ hx₂' hy₂ hy₂'
  by_cases hcol : t.gridCol = t'.gridCol
  · have hrow : t.gridRow ≠ t'.gridRow := fun heq => hne (Prod.ext hcol heq)
    exact span_disjoint hrow (by omega) (by omega) hy hy' ⟨hy₂, hy₂'⟩
  · exact span_disjoint hcol (by omega) (by omega) hx hx' ⟨hx₂, hx₂'⟩

/-- The rows of a tile, its label and its dot come before those of the next one. -/
theorem row_step (h : Laid g ws l) (ht : tile ∈ g.tiles) (ht' : tile' ∈ g.tiles)
    (hlt : tile.gridRow < tile'.gridRow) :
    l.row tile + l.tileRows + labelRows + cellGapRows ≤ l.row tile' := by
  have hstep : (tile.gridRow + 1) * (l.tileRows + labelRows + cellGapRows) ≤
      tile'.gridRow * (l.tileRows + labelRows + cellGapRows) := Nat.mul_le_mul_right _ hlt
  rw [Nat.succ_mul] at hstep
  rw [h.row_eq ht, h.row_eq ht']
  omega

/-- A row for text of a tile: the two below it, for its label, and that of its dot. -/
def TextRow (l : Cells) (tile : TileFrame Id) (row : ℕ) : Prop :=
  (row = l.row tile + l.tileRows ∨ row = l.row tile + l.tileRows + 1) ∨ row + 1 = l.row tile

/-- No image covers any cell of a row with text of a tile. -/
theorem textRow_free (h : Laid g ws l) (ht : tile ∈ g.tiles) (ht' : tile' ∈ g.tiles) {row : ℕ}
    (hrow : TextRow l tile row) : ¬ (l.row tile' ≤ row ∧ row < l.row tile' + l.tileRows) := by
  unfold TextRow at hrow
  rcases Nat.lt_trichotomy tile.gridRow tile'.gridRow with hlt | heq | hgt
  · have hstep := h.row_step ht ht' hlt
    unfold labelRows cellGapRows at hstep
    omega
  · have hsame : l.row tile = l.row tile' := by rw [h.row_eq ht, h.row_eq ht', heq]
    omega
  · have hstep := h.row_step ht' ht hgt
    unfold labelRows cellGapRows at hstep
    omega

/-- No image has more pixels than its cells. -/
theorem covers (h : Laid g ws l) (ht : tile ∈ g.tiles) :
    tile.frame.width ≤ l.tileCols * (ws.xPixel / ws.cols) ∧
      tile.frame.height ≤ l.tileRows * (ws.yPixel / ws.rows) := by
  obtain ⟨hw, hh, hcols, hrows, -, -⟩ := cellsFor_eq h.cells
  have hdiv : ∀ n k, 0 < k → n ≤ divCeil n k * k := by
    intro n k hk
    have hmod := Nat.mod_lt (n + k - 1) hk
    have hsum := Nat.div_add_mod (n + k - 1) k
    unfold divCeil
    rw [Nat.mul_comm]
    omega
  rw [hcols, hrows]
  exact ⟨(GalleryFrame.width_le_tileW ht).trans (hdiv _ _ hw),
    (GalleryFrame.height_le_tileH ht).trans (hdiv _ _ hh)⟩

end Laid

/-! ## What a rendering writes -/

namespace Write

/-- The cells that a placement takes. -/
def rect : Write → Option Rect
  | .displayImageAt _ col row cols rows => some ⟨col, row, cols, rows⟩
  | _ => none

/-- The characters of a label. -/
def labelText (name : String) (kind : ConnectionKind) (pad : ℕ) : List Char :=
  name.toList ++ ' ' :: (kindStr kind).toList ++ ' ' :: List.replicate pad ' '

/-- The text of a label or of a dot, with the position that the cursor is moved to. -/
def text : Write → Option (ℕ × ℕ × List Char)
  | .label _ col row name kind pad => some (col, row, labelText name kind pad)
  | .dot _ col row shown => some (col, row, [if shown then '●' else ' '])
  | _ => none

/-- The rows in which a terminal shows a label or a dot. -/
def textRows (t : Tty) (ws : WinSize) (w : Write) : List ℕ :=
  match w.text with
  | some (col, row, text) => t.rows ws.cols (.moveTo ws.cols ws.rows col row) text
  | none => []

end Write

/-- The text of a tile, and where it is written. -/
inductive OwnText (l : Cells) (tile : TileFrame Id) : ℕ → ℕ → List Char → Prop
  | label : OwnText l tile (u16 (u32 (l.col tile + (l.tileCols - u32 (visibleLen tile)) / 2)))
      (u16 (u32 (l.row tile + l.tileRows)))
      (Write.labelText (displayName tile.name) tile.connKind (l.tileCols - visibleLen tile))
  | dot (shown : Bool) (hrow : 0 < l.row tile) :
      OwnText l tile (u16 (l.col tile)) (u16 (l.row tile - 1)) [if shown then '●' else ' ']

/-- A write puts an image into the cells of the tile, or writes its text. -/
structure OfTile (l : Cells) (tile : TileFrame Id) (w : Write) : Prop where
  rect : ∀ r, w.rect = some r → r = imageRect l tile
  text : ∀ col row text, w.text = some (col, row, text) → OwnText l tile col row text

/-- All that was written from `d` to `d'` is of the tile, with at most `n` images. -/
def Adds (l : Cells) (tile : TileFrame Id) (n : ℕ) (d d' : DisplayLoop Id) : Prop :=
  ∃ new, d'.written = d.written ++ new ∧ (∀ w ∈ new, OfTile l tile w) ∧
    (new.filterMap Write.rect).length ≤ n

section Adds

variable {tile : TileFrame Id} {n m : ℕ} {d d' d'' : DisplayLoop Id}

theorem adds_of_written_eq (h : d'.written = d.written) : Adds l tile 0 d d' := by
  refine ⟨[], by rw [h, List.append_nil], ?_, Nat.le_refl 0⟩
  intro w hw
  cases hw

theorem adds_write {w : Write} (hw : OfTile l tile w) (hn : w.rect = none) :
    Adds l tile 0 d (d.write [w]) := by
  refine ⟨[w], rfl, ?_, by simp [hn]⟩
  intro x hx
  obtain rfl := List.mem_singleton.mp hx
  exact hw

theorem Adds.trans (h : Adds l tile n d d') (h' : Adds l tile m d' d'') :
    Adds l tile (n + m) d d'' := by
  obtain ⟨new, hnew, hof, hlength⟩ := h
  obtain ⟨new', hnew', hof', hlength'⟩ := h'
  refine ⟨new ++ new', by rw [hnew', hnew, List.append_assoc], ?_, ?_⟩
  · intro w hw
    exact (List.mem_append.mp hw).elim (hof w) (hof' w)
  · rw [List.filterMap_append, List.length_append]
    omega

end Adds

namespace Laid

open DisplayLoop

variable [LinearOrder Id] {tile : TileFrame Id} {d : DisplayLoop Id} {e : Scene}

theorem u16_eq {n : ℕ} (hn : n < 2 ^ 16) : u16 n = n := Nat.mod_eq_of_lt hn

omit [LinearOrder Id] in
theorem adds_drawLabel (i : ℕ) : Adds l tile 0 d (d.drawLabel l tile i) := by
  unfold drawLabel
  split_ifs
  · exact adds_of_written_eq rfl
  · refine adds_write ⟨fun r hr => (by cases hr), fun col row text htext => ?_⟩ rfl
    cases htext
    exact .label

omit [LinearOrder Id] in
theorem adds_drawDot (i : ℕ) : Adds l tile 0 d (d.drawDot l e tile i) := by
  unfold drawDot
  dsimp only
  split_ifs with hshow
  · refine adds_write ⟨fun r hr => (by cases hr), fun col row text htext => ?_⟩ rfl
    cases htext
    exact .dot _ hshow.2
  · exact adds_of_written_eq rfl

theorem ofTile_display (h : Laid g ws l) (ht : tile ∈ g.tiles) (id : ℕ) :
    OfTile l tile (.displayImageAt id (u16 (l.col tile)) (u16 (l.row tile)) l.tileCols
      l.tileRows) := by
  obtain ⟨hcol, hrow⟩ := h.ends_lt ht
  refine ⟨fun r hr => ?_, fun col row text htext => by cases htext⟩
  obtain rfl := Option.some.inj hr
  rw [u16_eq (by omega), u16_eq (by omega)]
  rfl

/-- A tile is given one image at the most. -/
theorem adds_renderTile (h : Laid g ws l) {t : TileFrame Id × ℕ} (ht : t.1 ∈ g.tiles) :
    Adds l t.1 1 d (d.renderTile l e t) := by
  have htext : ∀ d' : DisplayLoop Id,
      Adds l t.1 0 d' ((d'.drawLabel l t.1 t.2).drawDot l e t.1 t.2) :=
    fun d' => (adds_drawLabel t.2).trans (adds_drawDot t.2)
  have hquiet : ∀ w : Write, w.rect = none → w.text = none → OfTile l t.1 w :=
    fun w hr hrow => ⟨by simp [hr], by simp [hrow]⟩
  unfold renderTile
  dsimp only
  split_ifs
  · refine Adds.trans (m := 0) ⟨_, rfl, ?_, ?_⟩ (htext _)
    · exact List.forall_mem_cons.mpr ⟨hquiet _ rfl rfl, by simpa using h.ofTile_display ht _⟩
    · exact Nat.le_refl 1
  · refine Adds.trans (m := 0) ⟨_, rfl, ?_, ?_⟩ (htext _)
    · simpa using ⟨hquiet _ rfl rfl, hquiet _ rfl rfl⟩
    · exact Nat.zero_le 1
  · exact ⟨_, rfl, by simpa using hquiet _ rfl rfl, Nat.zero_le 1⟩

/-- What the drawing of some tiles has written. -/
structure Drawn (l : Cells) (ts : List (TileFrame Id × ℕ)) (new : List Write) : Prop where
  rects : ∀ r ∈ new.filterMap Write.rect, ∃ t ∈ ts, r = imageRect l t.1
  disjoint : (new.filterMap Write.rect).Pairwise fun r r' => Disjoint r.pixels r'.pixels
  texts : ∀ w ∈ new, ∀ col row text, w.text = some (col, row, text) →
    ∃ t ∈ ts, OwnText l t.1 col row text

/-- Tile by tile, everything goes to cells that are apart. -/
theorem drawn_foldl (h : Laid g ws l) {ts : List (TileFrame Id × ℕ)} (hts : ∀ t ∈ ts, t.1 ∈ g.tiles)
    (hapart : ts.Pairwise fun t t' =>
      Disjoint (imageRect l t.1).pixels (imageRect l t'.1).pixels) :
    ∃ new, (ts.foldl (fun d t => d.renderTile l e t) d).written = d.written ++ new ∧
      Drawn l ts new := by
  induction ts using List.reverseRecOn with
  | nil =>
    refine ⟨[], (List.append_nil _).symm, ?_, List.Pairwise.nil, ?_⟩
    · intro r hr
      cases hr
    · intro w hw
      cases hw
  | append_singleton ts t ih =>
    obtain ⟨holdApart, -, hnewApart⟩ := List.pairwise_append.mp hapart
    obtain ⟨new, hnew, hdrawn⟩ := ih (fun t' ht' => hts t' (List.mem_append_left _ ht')) holdApart
    obtain ⟨added, hadded, hof, hlength⟩ :=
      h.adds_renderTile (d := ts.foldl (fun d t => d.renderTile l e t) d) (e := e)
        (hts t (by simp))
    have hrect : ∀ r ∈ added.filterMap Write.rect, r = imageRect l t.1 := by
      intro r hr
      obtain ⟨w, hw, hwr⟩ := List.mem_filterMap.mp hr
      exact (hof w hw).rect r hwr
    refine ⟨new ++ added, ?_, ?_, ?_, ?_⟩
    · rw [List.foldl_append, List.foldl_cons, List.foldl_nil, hadded, hnew, List.append_assoc]
    · intro r hr
      rw [List.filterMap_append] at hr
      rcases List.mem_append.mp hr with hr | hr
      · obtain ⟨t', ht', heq⟩ := hdrawn.rects r hr
        exact ⟨t', List.mem_append_left _ ht', heq⟩
      · exact ⟨t, by simp, hrect r hr⟩
    · rw [List.filterMap_append, List.pairwise_append]
      refine ⟨hdrawn.disjoint, ?_, ?_⟩
      · -- There is one image at the most.
        match hlist : added.filterMap Write.rect with
        | [] => exact List.Pairwise.nil
        | [r] => exact List.pairwise_singleton _ _
        | _ :: _ :: _ => simp [hlist] at hlength
      · intro r hr r' hr'
        obtain ⟨t', ht', heq⟩ := hdrawn.rects r hr
        rw [heq, hrect r' hr']
        exact hnewApart t' ht' t (List.mem_singleton_self t)
    · intro w hw col row text hwrites
      rcases List.mem_append.mp hw with hw | hw
      · obtain ⟨t', ht', htext⟩ := hdrawn.texts w hw col row text hwrites
        exact ⟨t', List.mem_append_left _ ht', htext⟩
      · exact ⟨t, by simp, (hof w hw).text col row text hwrites⟩

omit [LinearOrder Id] in
theorem mem_slotted {t : TileFrame Id × ℕ} (ht : t ∈ slotted g) : t.1 ∈ g.tiles :=
  List.fst_mem_of_mem_zipIdx (List.mem_of_mem_take ht)

theorem slotted_apart (h : Laid g ws l) : (slotted g).Pairwise fun t t' =>
    Disjoint (imageRect l t.1).pixels (imageRect l t'.1).pixels := by
  have hmap : (g.tiles.zipIdx.map Prod.fst).Pairwise fun t t' =>
      Disjoint (imageRect l t).pixels (imageRect l t').pixels := by
    rw [List.zipIdx_map_fst]
    exact h.disjoint
  exact (List.pairwise_map.mp hmap).sublist (List.take_sublist _ _)

omit [LinearOrder Id] in
/-- The status is neither an image nor text of a tile. -/
theorem writes_drawStatus (d : DisplayLoop Id) (status : Option StatusInfo) (ws : WinSize) :
    ∃ new, (d.drawStatus status ws).written = d.written ++ new ∧
      ∀ w ∈ new, w.rect = none ∧ w.text = none := by
  unfold drawStatus
  split_ifs
  · refine ⟨_, rfl, fun w hw => ?_⟩
    have hstatus := isStatus_statusText hw
    cases w <;> first | exact ⟨rfl, rfl⟩ | cases hstatus
  · refine ⟨[], (List.append_nil _).symm, fun w hw => ?_⟩
    cases hw

/-! ## Where text is shown -/

/-- A label of printable characters that is counted with two columns less than the window has. -/
def ShortLabel (ws : WinSize) (tile : TileFrame Id) : Prop :=
  PrintableText tile.name.toList ∧ visibleLen tile + 1 < ws.cols

instance : Decidable (ShortLabel ws tile) := inferInstanceAs (Decidable (_ ∧ _))

theorem printable_displayName {name : String} (h : PrintableText name.toList) :
    PrintableText (displayName name).toList := by
  unfold displayName
  split_ifs
  · decide
  · exact h

theorem printable_labelText {name : String} {kind : ConnectionKind} {pad : ℕ}
    (h : PrintableText name.toList) :
    PrintableText (Write.labelText (displayName name) kind pad) := by
  have hkind : PrintableText (kindStr kind).toList := by
    cases kind <;> decide
  unfold Write.labelText PrintableText
  simp only [List.forall_mem_append, List.forall_mem_cons]
  refine ⟨⟨printable_displayName h, by decide, hkind⟩, by decide, fun c hc => ?_⟩
  rw [List.eq_of_mem_replicate hc]
  decide

theorem textWidth_kindStr {t : Tty} (ht : t.Documented) (kind : ConnectionKind) :
    t.textWidth (kindStr kind).toList ≤ (kindStr kind).length := by
  have hwidth : (kindStr kind).toList.all fun c => c = '…' ∨ Printable c ∧ c.utf8Size = 1 := by
    cases kind <;> decide
  refine (Tty.textWidth_le_length fun c hc => ?_).trans_eq String.length_toList
  rcases of_decide_eq_true (List.all_eq_true.mp hwidth c hc) with rfl | ⟨hprint, hsize⟩
  · exact ht.narrow.1
  · exact hsize ▸ (ht.width_le c hprint).2

omit [LinearOrder Id] in
/-- With the blank and the padding behind it, a label has one column more than is counted. -/
theorem textWidth_labelText {t : Tty} (ht : t.Documented) (h : PrintableText tile.name.toList)
    (pad : ℕ) : t.textWidth (Write.labelText (displayName tile.name) tile.connKind pad) ≤
      visibleLen tile + 1 + pad := by
  have hname : t.textWidth (displayName tile.name).toList ≤
      (displayName tile.name).utf8ByteSize := by
    have hle : _ ≤ (String.ofList (displayName tile.name).toList).utf8ByteSize :=
      ht.textWidth_le (printable_displayName h)
    rwa [String.ofList_toList] at hle
  have hpad : t.textWidth (List.replicate pad ' ') ≤ pad := by
    refine (Tty.textWidth_le_length fun c hc => ?_).trans_eq List.length_replicate
    rw [List.eq_of_mem_replicate hc]
    exact ht.width_space
  have hkind := textWidth_kindStr ht tile.connKind
  have hspace := ht.width_space
  unfold Write.labelText visibleLen
  simp only [Tty.textWidth_append, Tty.textWidth_cons]
  omega

/-- A gallery with a row to spare ends above the last row of the window. -/
theorem ends_above (h : Laid g ws l) (ht : tile ∈ g.tiles) (hheight : galleryHeight g l < ws.rows) :
    l.row tile + l.tileRows + 1 < ws.rows := by
  obtain ⟨-, -, -, -, -, hrow⟩ := cellsFor_eq h.cells
  have htotal : totalRows g l.tileRows = galleryHeight g l := u32_eq (lt_u32 h.height)
  have hspan := h.row_span ht
  rw [htotal] at hrow
  rw [h.row_eq ht]
  unfold labelRows at hspan ⊢
  omega

/-- Text stays in the rows for the text of its tile, and in the window. -/
theorem textRow_of_ownText (h : Laid g ws l) (ht : tile ∈ g.tiles) {t : Tty} (hdoc : t.Documented)
    (hwidth : galleryWidth g l ≤ ws.cols) (hheight : galleryHeight g l < ws.rows)
    (hshort : ShortLabel ws tile) {col row : ℕ} {text : List Char}
    (hown : OwnText l tile col row text) :
    ∀ r ∈ t.rows ws.cols (.moveTo ws.cols ws.rows col row) text,
      TextRow l tile r ∧ r < ws.rows := by
  obtain ⟨hprint, hlength⟩ := hshort
  have habove := h.ends_above ht hheight
  have hends := (h.ends ht).1
  rw [max_eq_left hwidth] at hends
  have hcols := h.cols
  have hrows := h.rows
  cases hown with
  | label =>
    have hcol : u16 (u32 (l.col tile + (l.tileCols - u32 (visibleLen tile)) / 2)) =
        l.col tile + (l.tileCols - visibleLen tile) / 2 := by
      rw [u32_eq (n := visibleLen tile) (lt_u32 (by omega)), u32_eq (lt_u32 (by omega)),
        u16_eq (by omega)]
    have hrow : u16 (u32 (l.row tile + l.tileRows)) = l.row tile + l.tileRows := by
      rw [u32_eq (lt_u32 (by omega)), u16_eq (by omega)]
    have htext := textWidth_labelText hdoc hprint (l.tileCols - visibleLen tile)
    have hpos : 0 < visibleLen tile := Nat.add_pos_left (Nat.succ_pos _) _
    rw [hcol, hrow]
    intro r hr
    have hwrap := hdoc.rows_of_lt (printable_labelText hprint)
      (by unfold Cursor.moveTo; dsimp only; omega) r hr
    unfold Cursor.moveTo at hwrap
    dsimp only at hwrap
    rw [Nat.min_eq_left (by omega)] at hwrap
    exact ⟨Or.inl hwrap, by omega⟩
  | dot shown hpos =>
    have hrow : u16 (l.row tile - 1) = l.row tile - 1 := u16_eq (by omega)
    have hdot : t.width (if shown then '●' else ' ') ≤ 1 := by
      cases shown with
      | true => exact hdoc.narrow.2
      | false => exact hdoc.width_space
    have hprintable : PrintableText [if shown then '●' else ' '] := by
      cases shown <;> decide
    rw [hrow]
    intro r hr
    have hsame := hdoc.rows_of_fits hprintable
      (by unfold Cursor.moveTo; rw [Tty.textWidth_cons, Tty.textWidth_nil]; dsimp only; omega) r hr
    unfold Cursor.moveTo at hsame
    dsimp only at hsame
    rw [Nat.min_eq_left (by omega)] at hsame
    exact ⟨Or.inr (by omega), by omega⟩

/--
The images of a rendering have no cell of the terminal in common, and each has at least as many
pixels as its frame. If the gallery is not too large for the window, all images are in it. If there
is a row to spare and all labels are short, labels and dots are shown in the window, in rows that
no image covers.
-/
theorem rendered_apart (h : Laid g ws l) (hws : e.windowSize = some ws) :
    ∃ new, (d.renderGallery e g).written = d.written ++ new ∧
      ((new.filterMap Write.rect).Pairwise fun r r' => Disjoint r.pixels r'.pixels) ∧
      (∀ r ∈ new.filterMap Write.rect, ∀ t ∈ g.tiles,
        t.frame.width ≤ r.w * (ws.xPixel / ws.cols) ∧
          t.frame.height ≤ r.h * (ws.yPixel / ws.rows)) ∧
      (galleryWidth g l ≤ ws.cols → galleryHeight g l ≤ ws.rows →
        ∀ r ∈ new.filterMap Write.rect, r.Inside ws.cols ws.rows) ∧
      ∀ t : Tty, t.Documented → galleryWidth g l ≤ ws.cols → galleryHeight g l < ws.rows →
        (∀ tile ∈ g.tiles, ShortLabel ws tile) →
        ∀ w ∈ new, ∀ row ∈ w.textRows t ws, row < ws.rows ∧
          ∀ r ∈ new.filterMap Write.rect, ¬ (r.y ≤ row ∧ row < r.y + r.h) := by
  obtain ⟨new, hnew, hdrawn⟩ := h.drawn_foldl (d := d) (e := e) (fun t => mem_slotted)
    h.slotted_apart
  obtain ⟨status, hstatus, hquiet⟩ := writes_drawStatus
    ((slotted g).foldl (fun d t => d.renderTile l e t) d) e.status ws
  have hrects : (new ++ status).filterMap Write.rect = new.filterMap Write.rect := by
    have hnone : status.filterMap Write.rect = [] :=
      List.filterMap_eq_nil_iff.mpr fun w hw => (hquiet w hw).1
    rw [List.filterMap_append, hnone, List.append_nil]
  have htile : ∀ r ∈ new.filterMap Write.rect, ∃ t ∈ g.tiles, r = imageRect l t := by
    intro r hr
    obtain ⟨t, ht, heq⟩ := hdrawn.rects r hr
    exact ⟨t.1, mem_slotted ht, heq⟩
  refine ⟨new ++ status, ?_, ?_, ?_, ?_, ?_⟩
  · simp only [renderGallery, hws, h.cells]
    rw [hstatus, hnew, List.append_assoc]
  · rw [hrects]
    exact hdrawn.disjoint
  · rw [hrects]
    intro r hr t ht
    obtain ⟨t', -, rfl⟩ := htile r hr
    exact h.covers ht
  · rw [hrects]
    intro hwidth hheight r hr
    obtain ⟨t, ht, rfl⟩ := htile r hr
    have hends := h.ends ht
    rw [max_eq_left hwidth, max_eq_left hheight] at hends
    exact ⟨hends.1, by have := hends.2; unfold imageRect; dsimp only; omega⟩
  · rw [hrects]
    intro t hdoc hwidth hheight hshort w hw row hrow
    unfold Write.textRows at hrow
    split at hrow
    next col r text hwrites =>
      rcases List.mem_append.mp hw with hw | hw
      · obtain ⟨t', ht', hown⟩ := hdrawn.texts w hw col r text hwrites
        obtain ⟨htextRow, hlt⟩ := h.textRow_of_ownText (mem_slotted ht') hdoc hwidth hheight
          (hshort t'.1 (mem_slotted ht')) hown row hrow
        refine ⟨hlt, fun r hr => ?_⟩
        obtain ⟨t'', ht'', rfl⟩ := htile r hr
        exact h.textRow_free (mem_slotted ht') ht'' htextRow
      · rw [(hquiet w hw).2] at hwrites
        cases hwrites
    next => cases hrow

end Laid

/-! ### Two tiles -/

/-- Two peers with frames of different sizes. -/
def pairGallery : GalleryFrame ℕ :=
  { tiles := [⟨1, ⟨0, 0, 2, 1, [7, 8]⟩, 0, 0, "a", .unknown, 0⟩,
      ⟨2, ⟨0, 0, 1, 1, [9]⟩, 1, 0, "", .unknown, 3⟩], cols := 2, rows := 1 }

def pairCells : Cells := { tileCols := 1, tileRows := 1, originCol := 38, originRow := 11 }

theorem pairGallery_laid : Laid pairGallery ⟨80, 24, 800, 480⟩ pairCells where
  built := by
    refine ⟨.after [.frame 1 ⟨0, 0, 2, 1, [7, 8]⟩, .command (.setPeerName 1 "a"),
      .frame 2 ⟨0, 0, 1, 1, [9]⟩, .command (.setVideoDropCounter 2 0)], fun _ => 3, ?_⟩
    simp [Compositor.buildGallery, Compositor.sortedFrames, Compositor.after, Compositor.update,
      Compositor.apply, Compositor.tile, galleryCols, galleryRows, pairGallery,
      AList.insert_of_notMem, AList.lookup, AList.empty_entries, List.mergeSort, List.MergeSort.Internal.splitInTwo]
  cells := by decide
  cols := by decide
  rows := by decide
  width := by decide
  height := by decide

/-- A terminal on which all but the characters of two bytes or less are wide. -/
def wideTty : Tty where
  width := fun c => if c.utf8Size ≤ 2 ∨ c = '…' ∨ c = '●' then 1 else 2
  put := fun cols cur c =>
    let width := if c.utf8Size ≤ 2 ∨ c = '…' ∨ c = '●' then 1 else 2
    if cur.col + width ≤ cols then ⟨cur.col + width, cur.row⟩ else ⟨width, cur.row + 1⟩

theorem wideTty_documented : wideTty.Documented where
  fits cols cur c _ hle := if_pos hle
  wraps cols cur c _ hlt := if_neg (Nat.not_le.mpr hlt)
  width_le c _ := by
    have hpos := c.utf8Size_pos
    unfold wideTty
    dsimp only
    split_ifs
    · omega
    · omega
  narrow := by decide

theorem rendered_apart_pair : ∃ new : List Write,
    (({} : DisplayLoop ℕ).renderGallery { windowSize := some ⟨80, 24, 800, 480⟩ }
      pairGallery).written = new ∧ new.filterMap Write.rect = [⟨38, 11, 1, 1⟩, ⟨40, 11, 1, 1⟩] ∧
      ∀ w ∈ new, ∀ row ∈ w.textRows wideTty ⟨80, 24, 800, 480⟩, row < 24 ∧
        ∀ r ∈ new.filterMap Write.rect, ¬ (r.y ≤ row ∧ row < r.y + r.h) := by
  obtain ⟨new, hnew, -, -, -, htext⟩ := pairGallery_laid.rendered_apart (d := {})
    (e := { windowSize := some ⟨80, 24, 800, 480⟩ }) rfl
  refine ⟨new, hnew, ?_, htext wideTty wideTty_documented (by decide) (by decide) ?_⟩
  · obtain rfl : _ = new := hnew
    decide
  · decide

end Meshconf.Terminal
