import Mathlib.Data.List.TakeWhile
import Meshconf.Video.Window

/-! # The pixels that are drawn

Circles and texts end with the window, so that every pixel they write is one of the
buffer's; all other pixels keep their colours. A label is drawn to the right of its
beginning and below it.
-/

namespace Meshconf.Video

open Raster

/-! ## Inside of the buffer -/

/-- A fold whose steps succeed and keep a property succeeds and keeps it. -/
theorem foldlM_kept {σ α : Type*} {f : σ → α → Option σ} {P : σ → Prop} {l : List α}
    (hstep : ∀ a ∈ l, ∀ s, P s → ∃ t, f s a = some t ∧ P t) {s : σ} (hs : P s) :
    ∃ t, l.foldlM f s = some t ∧ P t := by
  induction l generalizing s with
  | nil => exact ⟨s, rfl, hs⟩
  | cons a l ih =>
    obtain ⟨t, ht, hPt⟩ := hstep a List.mem_cons_self s hs
    obtain ⟨u, hu, hPu⟩ := ih (fun b hb => hstep b (List.mem_cons_of_mem a hb)) hPt
    refine ⟨u, ?_, hPu⟩
    rw [List.foldlM_cons, ht]
    exact hu

section Draw

variable {Id : Type*} {font : Font} {bufW bufH : ℕ} {buf : List UInt32}

theorem blitTile_eq (x₀ y₀ : ℕ) (frame : RgbFrame) :
    blitTile bufW x₀ y₀ frame buf =
      copyRect bufW x₀ y₀ frame.width frame.data frame.height buf := rfl

theorem u32_lt (n : ℕ) : u32 n < 2 ^ 32 := Nat.mod_lt n (by decide)

theorem u32_eq {n : ℕ} (hn : n < 2 ^ 32) : u32 n = n := Nat.mod_eq_of_lt hn

/-- In a window with few enough pixels, the index of a pixel is its place. -/
theorem pixelIndex_eq (harea : bufW * bufH < 2 ^ 32) {px py : ℕ} (hx : px < bufW) (hy : py < bufH) :
    pixelIndex bufW px py = index bufW px py :=
  u32_eq ((index_lt hx hy).trans harea)

theorem pixelIndex_lt (harea : bufW * bufH < 2 ^ 32) {px py : ℕ} (hx : px < bufW) (hy : py < bufH) :
    pixelIndex bufW px py < bufW * bufH := by
  rw [pixelIndex_eq harea hx hy]
  exact index_lt hx hy

theorem pixelIndex_ne (harea : bufW * bufH < 2 ^ 32) {p q : ℕ × ℕ} (hp : p.1 < bufW ∧ p.2 < bufH)
    (hq : q.1 < bufW) (hne : p ≠ q) : pixelIndex bufW p.1 p.2 ≠ index bufW q.1 q.2 := by
  rw [pixelIndex_eq harea hp.1 hp.2]
  intro heq
  obtain ⟨hx, hy⟩ := (index_inj hp.1 hq).mp heq
  exact hne (Prod.ext hx hy)

theorem windowPixel_mem {px py : ℤ} {p : ℕ × ℕ} (hp : windowPixel bufW bufH px py = some p) :
    p.1 < bufW ∧ p.2 < bufH := by
  unfold windowPixel at hp
  split_ifs at hp with hin
  obtain rfl := Option.some.inj hp
  exact hin.2.2

theorem circlePixels_mem {cx cy radius : ℕ} {p : ℕ × ℕ}
    (hp : p ∈ circlePixels bufW bufH cx cy radius) : p.1 < bufW ∧ p.2 < bufH := by
  unfold circlePixels at hp
  obtain ⟨dy, -, hp⟩ := List.mem_flatMap.mp hp
  obtain ⟨dx, -, hp⟩ := List.mem_filterMap.mp hp
  split_ifs at hp
  exact windowPixel_mem hp

theorem glyphDots_mem {cx y : ℕ} {raster : List (List UInt8)} {dot : Dot}
    (hdot : dot ∈ glyphDots bufW bufH cx y raster) : dot.1 < bufW ∧ dot.2.1 < bufH := by
  unfold glyphDots at hdot
  obtain ⟨row, hrow, hdot⟩ := List.mem_flatMap.mp hdot
  obtain ⟨col, hcol, rfl⟩ := List.mem_map.mp hdot
  have hy := List.mem_takeWhile_imp hrow
  have hx := List.mem_takeWhile_imp (List.mem_of_mem_filter hcol)
  exact ⟨of_decide_eq_true hx, of_decide_eq_true hy⟩

theorem textDots_mem {weight : FontWeight} {y cx : ℕ} {text : List Char} {dot : Dot}
    (hdot : dot ∈ textDots font bufW bufH weight y cx text) :
    dot.1 < bufW ∧ dot.2.1 < bufH := by
  induction text generalizing cx with
  | nil => cases hdot
  | cons ch text ih =>
    rw [textDots] at hdot
    rcases List.mem_append.mp hdot with hglyph | hrest
    · cases hraster : font.getRaster ch weight with
      | some raster =>
        rw [hraster] at hglyph
        exact glyphDots_mem hglyph
      | none =>
        rw [hraster] at hglyph
        cases hglyph
    · exact ih hrest

@[simp] theorem blendDot_length {color : UInt32} {dot : Dot} :
    (blendDot bufW color buf dot).length = buf.length := by
  unfold blendDot
  dsimp only
  split
  · exact List.length_set
  · rfl

@[simp] theorem drawText_length {x y : ℕ} {text : List Char} {color : UInt32}
    {weight : FontWeight} :
    (drawText font bufW bufH x y text color weight buf).1.length = buf.length := by
  unfold drawText
  generalize textDots font bufW bufH weight y x text = dots
  induction dots generalizing buf with
  | nil => rfl
  | cons dot dots ih =>
    rw [List.foldl_cons, ih, blendDot_length]

@[simp] theorem drawTileLabel_length {x₀ y₀ tileW : ℕ} {tile : TileFrame Id} :
    (drawTileLabel font bufW bufH x₀ y₀ tileW tile buf).length = buf.length := by
  simp [drawTileLabel]

theorem drawFilledCircle_spec (harea : bufW * bufH < 2 ^ 32) (hbuf : buf.length = bufW * bufH)
    (cx cy radius : ℕ) (color : UInt32) :
    ∃ out, drawFilledCircle bufW bufH cx cy radius color buf = some out ∧
      out.length = bufW * bufH := by
  refine foldlM_kept (fun p hp out hout => ?_) hbuf
  obtain ⟨hx, hy⟩ := circlePixels_mem hp
  have hlt : pixelIndex bufW p.1 p.2 < out.length := by
    rw [hout]
    exact pixelIndex_lt harea hx hy
  exact ⟨_, if_pos hlt, List.length_set.trans hout⟩

end Draw

/-! ## Other pixels -/

section Other

variable {Id : Type*} {font : Font} {bufW bufH k : ℕ} {buf : List UInt32}

theorem blendDot_getElem? {color : UInt32} {dot : Dot} (hk : pixelIndex bufW dot.1 dot.2.1 ≠ k) :
    (blendDot bufW color buf dot)[k]? = buf[k]? := by
  unfold blendDot
  dsimp only
  split
  · exact List.getElem?_set_ne hk
  · rfl

theorem drawText_getElem? {x y : ℕ} {text : List Char} {color : UInt32} {weight : FontWeight}
    (hk : ∀ dot ∈ textDots font bufW bufH weight y x text, pixelIndex bufW dot.1 dot.2.1 ≠ k) :
    (drawText font bufW bufH x y text color weight buf).1[k]? = buf[k]? :=
  getElem?_foldl (fun _ _ _ => blendDot_getElem?) hk buf

theorem setPixel_getElem? {color : UInt32} {p : ℕ × ℕ} {out : List UInt32}
    (hset : setPixel bufW color buf p = some out) (hk : pixelIndex bufW p.1 p.2 ≠ k) :
    out[k]? = buf[k]? := by
  simp only [setPixel] at hset
  split_ifs at hset
  obtain rfl := Option.some.inj hset
  exact List.getElem?_set_ne hk

theorem setPixels_getElem? {color : UInt32} {pixels : List (ℕ × ℕ)} {out : List UInt32}
    (hout : pixels.foldlM (setPixel bufW color) buf = some out)
    (hk : ∀ p ∈ pixels, pixelIndex bufW p.1 p.2 ≠ k) : out[k]? = buf[k]? := by
  refine getElem?_foldlM ?_ hk hout
  intro buf p k out hset
  exact setPixel_getElem? hset

/-- The name on a label. -/
def labelName (tile : TileFrame Id) : List Char :=
  (if tile.name = "" then "?" else tile.name).toList

def labelKind (tile : TileFrame Id) : List Char := (kindStr tile.connKind).toList

/-- The column at which a label begins. -/
def labelStart (font : Font) (x₀ tileW : ℕ) (tile : TileFrame Id) : ℕ :=
  u32 (x₀ + (tileW - u32 (measureText font (labelName tile) + measureText font [' '] +
    measureText font (labelKind tile))) / 2)

/-- What is drawn of a label at `(x₀, y₀)`. -/
def labelDots (font : Font) (bufW bufH x₀ y₀ tileW : ℕ) (tile : TileFrame Id) : List Dot :=
  let startX := labelStart font x₀ tileW tile
  let nameEnd := textEnd font .bold startX (labelName tile)
  let kindX := textEnd font .regular nameEnd [' ']
  textDots font bufW bufH .bold y₀ startX (labelName tile) ++
    textDots font bufW bufH .regular y₀ nameEnd [' '] ++
    textDots font bufW bufH .regular y₀ kindX (labelKind tile)

theorem labelDots_mem {x₀ y₀ tileW : ℕ} {tile : TileFrame Id} {dot : Dot}
    (hdot : dot ∈ labelDots font bufW bufH x₀ y₀ tileW tile) : dot.1 < bufW ∧ dot.2.1 < bufH := by
  unfold labelDots at hdot
  simp only [List.mem_append] at hdot
  rcases hdot with (hdot | hdot) | hdot
  all_goals exact textDots_mem hdot

theorem drawTileLabel_getElem? {x₀ y₀ tileW : ℕ} {tile : TileFrame Id}
    (hk : ∀ dot ∈ labelDots font bufW bufH x₀ y₀ tileW tile, pixelIndex bufW dot.1 dot.2.1 ≠ k) :
    (drawTileLabel font bufW bufH x₀ y₀ tileW tile buf)[k]? = buf[k]? := by
  unfold labelDots at hk
  simp only [List.forall_mem_append] at hk
  obtain ⟨⟨hname, hspace⟩, hkind⟩ := hk
  calc (drawTileLabel font bufW bufH x₀ y₀ tileW tile buf)[k]?
      = (drawText font bufW bufH _ y₀ [' '] _ .regular _).1[k]? := drawText_getElem? hkind
    _ = (drawText font bufW bufH _ y₀ (labelName tile) _ .bold buf).1[k]? :=
      drawText_getElem? hspace
    _ = buf[k]? := drawText_getElem? hname

end Other

/-! ## Where labels and circles are -/

section Place

variable {Id : Type*} {font : Font} {bufW bufH : ℕ}

/-- What is taken while a condition on the numbers holds has it for all numbers before. -/
theorem takeWhile_zipIdx_imp {α : Type*} {l : List α} {p : ℕ → Bool} {e : α × ℕ}
    (he : e ∈ l.zipIdx.takeWhile fun e => p e.2) {i : ℕ} (hi : i ≤ e.2) : p i := by
  obtain ⟨n, hn⟩ := List.mem_iff_getElem?.mp he
  obtain ⟨hlt, -⟩ := List.getElem?_eq_some_iff.mp hn
  have hnumber : ∀ m (e' : α × ℕ), (l.zipIdx.takeWhile fun e => p e.2)[m]? = some e' →
      e'.2 = m := by
    intro m e' hm
    obtain ⟨rest, hrest⟩ := List.takeWhile_prefix (l := l.zipIdx) fun e : α × ℕ => p e.2
    have hzip : l.zipIdx[m]? = some e' := by
      rw [← hrest, List.getElem?_append_left (List.getElem?_eq_some_iff.mp hm).1]
      exact hm
    rw [List.getElem?_zipIdx] at hzip
    obtain ⟨_, -, rfl⟩ := Option.map_eq_some_iff.mp hzip
    exact Nat.zero_add m
  have hle : i < (l.zipIdx.takeWhile fun e => p e.2).length := by
    rw [hnumber n e hn] at hi
    omega
  have hmem := List.mem_takeWhile_imp (List.getElem_mem hle)
  rwa [hnumber i _ (List.getElem?_eq_getElem hle)] at hmem

/-- Columns and rows are taken up to the end of the window, so that they do not wrap around. -/
theorem u32_add_of_takeWhile {α : Type*} {l : List α} {start size : ℕ} {e : α × ℕ}
    (hstart : start < 2 ^ 32) (hsize : size < 2 ^ 32)
    (he : e ∈ l.zipIdx.takeWhile fun e => u32 (start + e.2) < size) :
    u32 (start + e.2) = start + e.2 := by
  have hlt : start + e.2 < size := by
    by_contra hge
    have hwrap : u32 (start + (size - start)) < size := of_decide_eq_true
      (takeWhile_zipIdx_imp (p := fun n => u32 (start + n) < size) he (by omega))
    rw [u32_eq (by omega)] at hwrap
    omega
  exact u32_eq (by omega)

theorem glyphDots_range (hW : bufW < 2 ^ 32) (hH : bufH < 2 ^ 32) {cx y : ℕ} (hx : cx < 2 ^ 32)
    (hy : y < 2 ^ 32) {raster : List (List UInt8)} {dot : Dot}
    (hdot : dot ∈ glyphDots bufW bufH cx y raster) : cx ≤ dot.1 ∧ y ≤ dot.2.1 := by
  unfold glyphDots at hdot
  obtain ⟨row, hrow, hdot⟩ := List.mem_flatMap.mp hdot
  obtain ⟨col, hcol, rfl⟩ := List.mem_map.mp hdot
  rw [u32_add_of_takeWhile hy hH hrow, u32_add_of_takeWhile hx hW (List.mem_of_mem_filter hcol)]
  exact ⟨Nat.le_add_right _ _, Nat.le_add_right _ _⟩

theorem textEnd_eq {weight : FontWeight} {cx : ℕ} {text : List Char}
    (hfit : cx + text.length * font.getRasterWidth weight < 2 ^ 32) :
    textEnd font weight cx text = cx + text.length * font.getRasterWidth weight := by
  induction text generalizing cx with
  | nil => simp [textEnd]
  | cons ch text ih =>
    rw [List.length_cons, Nat.succ_mul] at hfit ⊢
    have hnext : u32 (cx + font.getRasterWidth weight) = cx + font.getRasterWidth weight :=
      u32_eq (by omega)
    unfold textEnd at ih ⊢
    rw [List.foldl_cons, hnext, ih (by omega)]
    omega

/-- A text is drawn to the right of its beginning. -/
theorem textDots_range (hW : bufW < 2 ^ 32) (hH : bufH < 2 ^ 32) {weight : FontWeight} {cx y : ℕ}
    {text : List Char} (hfit : cx + text.length * font.getRasterWidth weight < 2 ^ 32)
    (hy : y < 2 ^ 32) {dot : Dot} (hdot : dot ∈ textDots font bufW bufH weight y cx text) :
    cx ≤ dot.1 ∧ y ≤ dot.2.1 := by
  induction text generalizing cx with
  | nil => cases hdot
  | cons ch text ih =>
    rw [List.length_cons, Nat.succ_mul] at hfit
    rw [textDots] at hdot
    rcases List.mem_append.mp hdot with hglyph | hrest
    · cases hraster : font.getRaster ch weight with
      | some raster =>
        rw [hraster] at hglyph
        exact glyphDots_range hW hH (by omega) hy hglyph
      | none =>
        rw [hraster] at hglyph
        cases hglyph
    · rw [u32_eq (by omega)] at hrest
      obtain ⟨hx, hy⟩ := ih (by omega) hrest
      exact ⟨by omega, hy⟩

/-- The columns of a label, if none of them are wrapped around. -/
def labelWidth (font : Font) (tile : TileFrame Id) : ℕ :=
  (labelName tile).length * font.getRasterWidth .bold +
    (1 + (labelKind tile).length) * font.getRasterWidth .regular

theorem labelDots_range (hW : bufW < 2 ^ 32) (hH : bufH < 2 ^ 32) {x₀ y₀ tileW : ℕ}
    {tile : TileFrame Id} (hfit : x₀ + tileW + labelWidth font tile < 2 ^ 32) (hy : y₀ < 2 ^ 32)
    {dot : Dot} (hdot : dot ∈ labelDots font bufW bufH x₀ y₀ tileW tile) :
    x₀ ≤ dot.1 ∧ y₀ ≤ dot.2.1 := by
  unfold labelWidth at hfit
  rw [Nat.add_mul, Nat.one_mul] at hfit
  have hstart : x₀ ≤ labelStart font x₀ tileW tile ∧
      labelStart font x₀ tileW tile ≤ x₀ + tileW := by
    unfold labelStart
    rw [u32_eq (by omega)]
    omega
  have hname : textEnd font .bold (labelStart font x₀ tileW tile) (labelName tile) = _ :=
    textEnd_eq (by omega)
  have hspace : textEnd font .regular (textEnd font .bold (labelStart font x₀ tileW tile)
      (labelName tile)) [' '] = _ := textEnd_eq (by rw [hname]; simp; omega)
  unfold labelDots at hdot
  simp only [List.mem_append, hspace] at hdot
  rw [hname] at hdot
  simp only [List.length_singleton, Nat.one_mul] at hdot
  rcases hdot with (hdot | hdot) | hdot
  all_goals
    obtain ⟨hx, hy⟩ := textDots_range hW hH (by simp; omega) hy hdot
    exact ⟨by omega, hy⟩

/-- Coordinates that are not negative have not wrapped around. -/
theorem i32_add_eq {n : ℕ} {d : ℤ} (hpos : 0 ≤ i32 (i32 n + d)) (hle : 0 ≤ n + d)
    (hlt : n + d < 2 ^ 32) : i32 (i32 n + d) = n + d := by
  unfold i32 at hpos ⊢
  rw [Int.bmod_add_bmod] at hpos ⊢
  rw [Int.bmod_def, Int.emod_eq_of_lt hle (by omega)] at hpos ⊢
  split_ifs at hpos ⊢
  · rfl
  · omega

/-- A circle is drawn around its centre. -/
theorem circlePixels_range {cx cy radius : ℕ} (hr : radius < 2 ^ 31) (hx : radius ≤ cx)
    (hx' : cx + radius < 2 ^ 32) (hy : radius ≤ cy) (hy' : cy + radius < 2 ^ 32) {p : ℕ × ℕ}
    (hp : p ∈ circlePixels bufW bufH cx cy radius) :
    (cx ≤ p.1 + radius ∧ p.1 ≤ cx + radius) ∧ cy ≤ p.2 + radius ∧ p.2 ≤ cy + radius := by
  have hradius : i32 radius = radius := by
    unfold i32
    rw [Int.bmod_def, Int.emod_eq_of_lt (by omega) (by omega), if_pos (by omega)]
  unfold circlePixels at hp
  simp only [hradius] at hp
  obtain ⟨dy, hdy, hp⟩ := List.mem_flatMap.mp hp
  obtain ⟨dx, hdx, hp⟩ := List.mem_filterMap.mp hp
  obtain ⟨j, hj, rfl⟩ := List.mem_map.mp hdy
  obtain ⟨i, hi, rfl⟩ := List.mem_map.mp hdx
  rw [List.mem_range] at hi hj
  split_ifs at hp
  unfold windowPixel at hp
  split_ifs at hp with hin
  obtain rfl := Option.some.inj hp
  obtain ⟨hpx, hpy, -⟩ := hin
  rw [i32_add_eq hpx (by omega) (by omega), i32_add_eq hpy (by omega) (by omega)]
  omega

end Place

end Meshconf.Video
