import Meshconf.Video.Drawing
import Meshconf.Video.Layout

/-! # Composition of the window

The window is sized for the largest tile of a gallery in every cell of its grid. Every
tile then has a rectangle of its own inside of the window, so that no slice and no index
leaves the buffer. Neither the dots nor the labels of later tiles get into it.
-/

namespace Meshconf.Video

open Raster

/-! ## The size of the window -/

variable {Id : Type*}

namespace GalleryFrame

/-- The width of the window. -/
def width (g : GalleryFrame Id) : ℕ :=
  2 * outerPad + g.cols * g.tileW + (g.cols - 1) * tileGap

/-- The height of the window. -/
def height (g : GalleryFrame Id) : ℕ :=
  2 * outerPad + g.rows * (g.tileH + labelHeight) + (g.rows - 1) * tileGap

/-- The pixels of a tile and of the strip for its label. -/
def tileRect (g : GalleryFrame Id) (tile : TileFrame Id) : Rect :=
  ⟨g.tileX tile, g.tileY tile, tile.frame.width, tile.frame.height + labelHeight⟩

/-- The pixels of a tile. -/
def frameRect (g : GalleryFrame Id) (tile : TileFrame Id) : Rect :=
  ⟨g.tileX tile, g.tileY tile, tile.frame.width, tile.frame.height⟩

/-- The pixels of the dot of a tile, if it is shown. -/
def dotPixels (g : GalleryFrame Id) (tile : TileFrame Id) (ds : TileDropState) (checked : ℕ) :
    List (ℕ × ℕ) :=
  if ds.showDot checked then
    circlePixels g.outW g.outH (u32 (g.tileX tile + dropDotRadius + 4))
      (u32 (g.tileY tile + dropDotRadius + 4)) dropDotRadius
  else []

/-- The pixels of the label of a tile. -/
def labelPixels (font : Font) (g : GalleryFrame Id) (tile : TileFrame Id) : List (ℕ × ℕ) :=
  (labelDots font g.outW g.outH (g.tileX tile)
    (u32 (g.tileY tile + tile.frame.height + labelYOffset)) g.tileW tile).map
      fun dot => (dot.1, dot.2.1)

/-- No column of the label is wrapped around. -/
def LabelFits (font : Font) (g : GalleryFrame Id) (tile : TileFrame Id) : Prop :=
  g.tileX tile + g.tileW + labelWidth font tile < 2 ^ 32

variable {g : GalleryFrame Id} {tile : TileFrame Id}

theorem dotPixels_inside {ds : TileDropState} {checked : ℕ} {p : ℕ × ℕ}
    (hp : p ∈ g.dotPixels tile ds checked) : p.1 < g.outW ∧ p.2 < g.outH := by
  unfold dotPixels at hp
  split_ifs at hp
  · exact circlePixels_mem hp
  · cases hp

theorem le_max?_getD {l : List ℕ} {n d : ℕ} (hn : n ∈ l) : n ≤ l.max?.getD d := by
  cases hmax : l.max? with
  | none =>
    rw [List.max?_eq_none_iff] at hmax
    subst hmax
    cases hn
  | some m => exact (List.max?_le_iff hmax).mp le_rfl n hn

theorem width_le_tileW (htile : tile ∈ g.tiles) : tile.frame.width ≤ g.tileW :=
  le_max?_getD (List.mem_map_of_mem htile)

theorem height_le_tileH (htile : tile ∈ g.tiles) : tile.frame.height ≤ g.tileH :=
  le_max?_getD (List.mem_map_of_mem htile)

end GalleryFrame

/-- A gallery of the compositor, with whole frames, and a window that has few enough pixels. -/
structure Showable [LinearOrder Id] (g : GalleryFrame Id) : Prop where
  built : ∃ (c : Compositor Id) (drops : ℕ → ℕ), c.buildGallery drops = some g
  data : ∀ tile ∈ g.tiles, tile.frame.data.length = tile.frame.width * tile.frame.height
  area : g.width * g.height < 2 ^ 32

namespace Showable

variable [LinearOrder Id] {g : GalleryFrame Id} {tile : TileFrame Id}

theorem outW_eq (hg : Showable g) : g.outW = g.width := by
  have hpos : 0 < g.height := by unfold GalleryFrame.height outerPad; omega
  exact u32_eq ((Nat.le_mul_of_pos_right g.width hpos).trans_lt hg.area)

theorem outH_eq (hg : Showable g) : g.outH = g.height := by
  have hpos : 0 < g.width := by unfold GalleryFrame.width outerPad; omega
  exact u32_eq ((Nat.le_mul_of_pos_left g.height hpos).trans_lt hg.area)

theorem outArea_lt (hg : Showable g) : g.outW * g.outH < 2 ^ 32 := by
  rw [hg.outW_eq, hg.outH_eq]
  exact hg.area

theorem col_lt (hg : Showable g) (htile : tile ∈ g.tiles) : tile.gridCol < g.cols := by
  obtain ⟨c, drops, hbuilt⟩ := hg.built
  exact ((Compositor.isGallery hbuilt).inside htile).1

theorem row_lt (hg : Showable g) (htile : tile ∈ g.tiles) : tile.gridRow < g.rows := by
  obtain ⟨c, drops, hbuilt⟩ := hg.built
  exact ((Compositor.isGallery hbuilt).inside htile).2

/-- The cell of a tile ends before the padding. -/
theorem col_span (hg : Showable g) (htile : tile ∈ g.tiles) :
    outerPad + tile.gridCol * (g.tileW + tileGap) + g.tileW + outerPad ≤ g.width := by
  have hspan : tile.gridCol * (g.tileW + tileGap) + g.tileW ≤
      g.cols * g.tileW + (g.cols - 1) * tileGap := span_le (hg.col_lt htile) le_rfl
  unfold GalleryFrame.width
  omega

theorem row_span (hg : Showable g) (htile : tile ∈ g.tiles) :
    outerPad + tile.gridRow * (g.tileH + labelHeight + tileGap) + (g.tileH + labelHeight) +
      outerPad ≤ g.height := by
  have hspan : tile.gridRow * (g.tileH + labelHeight + tileGap) + (g.tileH + labelHeight) ≤
      g.rows * (g.tileH + labelHeight) + (g.rows - 1) * tileGap := span_le (hg.row_lt htile) le_rfl
  unfold GalleryFrame.height
  omega

theorem tileX_eq (hg : Showable g) (htile : tile ∈ g.tiles) :
    g.tileX tile = outerPad + tile.gridCol * (g.tileW + tileGap) := by
  have hspan := hg.col_span htile
  have hlt : g.width < 2 ^ 32 := by
    rw [← hg.outW_eq]
    exact u32_lt _
  exact u32_eq (by omega)

theorem tileY_eq (hg : Showable g) (htile : tile ∈ g.tiles) :
    g.tileY tile = outerPad + tile.gridRow * (g.tileH + labelHeight + tileGap) := by
  have hspan := hg.row_span htile
  have hlt : g.height < 2 ^ 32 := by
    rw [← hg.outH_eq]
    exact u32_lt _
  exact u32_eq (by omega)

theorem tileRect_eq (hg : Showable g) (htile : tile ∈ g.tiles) :
    g.tileRect tile = cellRect outerPad (g.tileW + tileGap) (g.tileH + labelHeight + tileGap)
      (tile.gridCol, tile.gridRow) tile.frame.width (tile.frame.height + labelHeight) := by
  unfold GalleryFrame.tileRect cellRect
  rw [hg.tileX_eq htile, hg.tileY_eq htile]

/-- Every tile and its label have room in the window. -/
theorem inside (hg : Showable g) (htile : tile ∈ g.tiles) :
    (g.tileRect tile).Inside g.outW g.outH := by
  have hcol := hg.col_span htile
  have hrow := hg.row_span htile
  have hw := GalleryFrame.width_le_tileW htile
  have hh := GalleryFrame.height_le_tileH htile
  unfold Rect.Inside
  rw [hg.outW_eq, hg.outH_eq, hg.tileRect_eq htile]
  unfold cellRect
  dsimp only
  omega

/-- Different tiles have no pixel in common, nor do their labels. -/
theorem disjoint (hg : Showable g) :
    g.tiles.Pairwise fun t t' => Disjoint (g.tileRect t).pixels (g.tileRect t').pixels := by
  obtain ⟨c, drops, hbuilt⟩ := hg.built
  refine (Compositor.isGallery hbuilt).distinct.imp_of_mem fun {t t'} ht ht' hne => ?_
  have hw := GalleryFrame.width_le_tileW ht
  have hw' := GalleryFrame.width_le_tileW ht'
  have hh := GalleryFrame.height_le_tileH ht
  have hh' := GalleryFrame.height_le_tileH ht'
  rw [hg.tileRect_eq ht, hg.tileRect_eq ht']
  exact cellRect_disjoint hne (by omega) (by omega) (by omega) (by omega)

theorem rowMajor (hg : Showable g) {i j : ℕ} {tile' : TileFrame Id} (hi : g.tiles[i]? = some tile)
    (hj : g.tiles[j]? = some tile') (hij : i < j) :
    tile.gridRow < tile'.gridRow ∨ tile.gridRow = tile'.gridRow ∧ tile.gridCol < tile'.gridCol := by
  obtain ⟨c, drops, hbuilt⟩ := hg.built
  obtain ⟨hlt, rfl⟩ := List.getElem?_eq_some_iff.mp hi
  obtain ⟨hlt', rfl⟩ := List.getElem?_eq_some_iff.mp hj
  exact List.pairwise_iff_getElem.mp (Compositor.isGallery hbuilt).rowMajor i j hlt hlt' hij

theorem cell_ne (hg : Showable g) {i j : ℕ} {tile' : TileFrame Id} (hi : g.tiles[i]? = some tile)
    (hj : g.tiles[j]? = some tile') (hne : i ≠ j) :
    (tile.gridCol, tile.gridRow) ≠ (tile'.gridCol, tile'.gridRow) := by
  intro heq
  obtain ⟨hcol, hrow⟩ := Prod.mk.inj heq
  rcases Nat.lt_or_gt_of_ne hne with hlt | hgt
  · have hbefore := hg.rowMajor hi hj hlt
    omega
  · have hbefore := hg.rowMajor hj hi hgt
    omega

/-- Nothing that begins at a tile and is not wider or higher than a cell meets another frame. -/
theorem apart (hg : Showable g) {i j : ℕ} {tile' : TileFrame Id} (hi : g.tiles[i]? = some tile)
    (hj : g.tiles[j]? = some tile') (hne : i ≠ j) {w h : ℕ} (hw : w ≤ g.tileW + tileGap)
    (hh : h ≤ g.tileH + labelHeight + tileGap) :
    Disjoint (g.frameRect tile).pixels (Rect.pixels ⟨g.tileX tile', g.tileY tile', w, h⟩) := by
  have htile := List.mem_of_getElem? hi
  have htile' := List.mem_of_getElem? hj
  have hwidth := GalleryFrame.width_le_tileW htile
  have hheight := GalleryFrame.height_le_tileH htile
  unfold GalleryFrame.frameRect
  rw [hg.tileX_eq htile, hg.tileY_eq htile, hg.tileX_eq htile', hg.tileY_eq htile']
  exact cellRect_disjoint (hg.cell_ne hi hj hne) (by omega) hw (by omega) hh

/-- The dot of a tile stays in its cell. -/
theorem dotPixels_mem (hg : Showable g) (htile : tile ∈ g.tiles) {ds : TileDropState}
    {checked : ℕ} {p : ℕ × ℕ} (hp : p ∈ g.dotPixels tile ds checked) :
    p ∈ Rect.pixels ⟨g.tileX tile, g.tileY tile, 15, 15⟩ := by
  unfold GalleryFrame.dotPixels dropDotRadius at hp
  split_ifs at hp
  · have hcol := hg.col_span htile
    have hrow := hg.row_span htile
    rw [← hg.tileX_eq htile, ← hg.outW_eq] at hcol
    rw [← hg.tileY_eq htile, ← hg.outH_eq] at hrow
    have hW : g.outW < 2 ^ 32 := u32_lt _
    have hH : g.outH < 2 ^ 32 := u32_lt _
    unfold outerPad at hcol hrow
    rw [u32_eq (by omega), u32_eq (by omega)] at hp
    obtain ⟨⟨hx, hx'⟩, hy, hy'⟩ := circlePixels_range (by decide) (by omega) (by omega) (by omega)
      (by omega) hp
    rw [Rect.mem_pixels]
    dsimp only
    omega
  · cases hp

/-- A label is below its tile and not to the left of it. -/
theorem labelPixels_mem (hg : Showable g) (htile : tile ∈ g.tiles) {font : Font}
    (hfit : g.LabelFits font tile) {p : ℕ × ℕ} (hp : p ∈ g.labelPixels font tile) :
    g.tileX tile ≤ p.1 ∧ g.tileY tile + tile.frame.height + labelYOffset ≤ p.2 := by
  obtain ⟨-, hrow⟩ : _ ∧ g.tileY tile + (tile.frame.height + labelHeight) ≤ g.outH :=
    hg.inside htile
  have hH : g.outH < 2 ^ 32 := u32_lt _
  unfold labelHeight at hrow
  have hy : u32 (g.tileY tile + tile.frame.height + labelYOffset) =
      g.tileY tile + tile.frame.height + labelYOffset := u32_eq (by unfold labelYOffset; omega)
  obtain ⟨dot, hdot, rfl⟩ := List.mem_map.mp hp
  have hrange := labelDots_range (u32_lt _) hH hfit (u32_lt _) hdot
  rwa [hy] at hrange

/-- It therefore never covers the tile, nor one that has been drawn before. -/
theorem labelPixels_apart (hg : Showable g) {i j : ℕ} {tile' : TileFrame Id} {font : Font}
    (hi : g.tiles[i]? = some tile) (hj : g.tiles[j]? = some tile') (hij : i ≤ j)
    (hfit : g.LabelFits font tile') {p : ℕ × ℕ} (hp : p ∈ (g.frameRect tile).pixels) :
    p ∉ g.labelPixels font tile' := by
  intro hlabel
  obtain ⟨⟨-, hx⟩, -, hy⟩ := hp
  have htile := List.mem_of_getElem? hi
  have htile' := List.mem_of_getElem? hj
  obtain ⟨hx', hy'⟩ := hg.labelPixels_mem htile' hfit hlabel
  have hw := GalleryFrame.width_le_tileW htile
  have hh := GalleryFrame.height_le_tileH htile
  simp only [GalleryFrame.frameRect] at hx hy
  rcases hij.lt_or_eq with hlt | rfl
  · rw [hg.tileX_eq htile] at hx
    rw [hg.tileY_eq htile] at hy
    rw [hg.tileX_eq htile'] at hx'
    rw [hg.tileY_eq htile'] at hy'
    rcases hg.rowMajor hi hj hlt with hrow | ⟨-, hcol⟩
    · have hstep := Nat.mul_le_mul_right (g.tileH + labelHeight + tileGap) hrow
      rw [Nat.succ_mul] at hstep
      omega
    · have hstep := Nat.mul_le_mul_right (g.tileW + tileGap) hcol
      rw [Nat.succ_mul] at hstep
      omega
  · cases hi.symm.trans hj
    omega

/-- Blitting a tile copies its pixels to its place and leaves the other pixels. -/
theorem blitTile_spec (hg : Showable g) (htile : tile ∈ g.tiles) {buf : List UInt32}
    (hbuf : buf.length = g.outW * g.outH) :
    ∃ out, blitTile g.outW (g.tileX tile) (g.tileY tile) tile.frame buf = some out ∧
      out.length = g.outW * g.outH ∧
      ∀ x y, x < g.outW → out[index g.outW x y]? =
        if (g.tileX tile ≤ x ∧ x < g.tileX tile + tile.frame.width) ∧
            g.tileY tile ≤ y ∧ y < g.tileY tile + tile.frame.height then
          tile.frame.data[index tile.frame.width (x - g.tileX tile) (y - g.tileY tile)]?
        else buf[index g.outW x y]? := by
  obtain ⟨hx, hy⟩ : g.tileX tile + tile.frame.width ≤ g.outW ∧
    g.tileY tile + (tile.frame.height + labelHeight) ≤ g.outH := hg.inside htile
  rw [blitTile_eq]
  refine copyRect_spec hx (by omega) hbuf ?_
  rw [hg.data tile htile, Nat.mul_comm]

theorem slices_inside (hg : Showable g) (htile : tile ∈ g.tiles) {dy : ℕ} (hdy : dy < tile.frame.height) :
    (g.tileY tile + dy) * g.outW + g.tileX tile + tile.frame.width ≤ g.outW * g.outH ∧
      dy * tile.frame.width + tile.frame.width ≤ tile.frame.data.length := by
  obtain ⟨hx, hy⟩ : g.tileX tile + tile.frame.width ≤ g.outW ∧
    g.tileY tile + (tile.frame.height + labelHeight) ≤ g.outH := hg.inside htile
  constructor
  · have hrows : (g.tileY tile + dy + 1) * g.outW ≤ g.outH * g.outW :=
      Nat.mul_le_mul_right _ (by omega)
    rw [Nat.succ_mul] at hrows
    rw [Nat.mul_comm g.outW]
    omega
  · have hrows : (dy + 1) * tile.frame.width ≤ tile.frame.height * tile.frame.width :=
      Nat.mul_le_mul_right _ hdy
    rw [Nat.succ_mul] at hrows
    rw [hg.data tile htile, Nat.mul_comm tile.frame.width tile.frame.height]
    exact hrows

theorem blit_exact (hg : Showable g) (htile : tile ∈ g.tiles) {before : List UInt32}
    (hbuf : before.length = g.outW * g.outH) :
    ∃ buf, blitTile g.outW (g.tileX tile) (g.tileY tile) tile.frame before = some buf ∧
      (∀ dx < tile.frame.width, ∀ dy < tile.frame.height, ∃ pixel,
        tile.frame.data[index tile.frame.width dx dy]? = some pixel ∧
        buf[index g.outW (g.tileX tile + dx) (g.tileY tile + dy)]? = some pixel) ∧
      ∀ x y, x < g.outW → (x, y) ∉ (g.tileRect tile).pixels →
        buf[index g.outW x y]? = before[index g.outW x y]? := by
  obtain ⟨hx, -⟩ : g.tileX tile + tile.frame.width ≤ g.outW ∧ _ := hg.inside htile
  obtain ⟨buf, hblit, -, hget⟩ := hg.blitTile_spec htile hbuf
  refine ⟨buf, hblit, fun dx hdx dy hdy => ?_, fun x y hxw hout => ?_⟩
  · have hlt : index tile.frame.width dx dy < tile.frame.data.length := by
      rw [hg.data tile htile]
      exact index_lt hdx hdy
    refine ⟨_, List.getElem?_eq_getElem hlt, ?_⟩
    rw [hget _ _ (by omega), if_pos (by omega), Nat.add_sub_cancel_left, Nat.add_sub_cancel_left]
    exact List.getElem?_eq_getElem hlt
  · rw [hget x y hxw, if_neg]
    rintro ⟨hcol, hle, hlt⟩
    exact hout ⟨hcol, hle, Nat.lt_add_right labelHeight hlt⟩

end Showable

end Meshconf.Video
