import Meshconf.Video.Composition

/-! # Painting of a gallery

The tiles of a gallery are drawn in turn. A turn copies the frame of its tile and goes on
with its dot and its label; later turns leave the frame as it is, so that it is whole in
the window that is shown.
-/

namespace Meshconf.Video

open Raster

variable {Id : Type*}

/-! ## The turns of the tiles -/

/-- The display is ready to draw a gallery, or in the middle of it. -/
structure Ready (g : GalleryFrame Id) (d : Display) : Prop where
  window : d.window = true
  curW : d.curW = g.outW
  curH : d.curH = g.outH
  buffer : d.pixelBuf.length = g.outW * g.outH
  dropStates : g.tiles.length ≤ d.dropStates.length

namespace Display

/-- The buffer of an open window has as many pixels as the window. -/
def Fits (d : Display) : Prop := d.window = true → d.pixelBuf.length = d.curW * d.curH

variable {font : Font} {a : Arrival Id} {d d' s t : Display} {tile : TileFrame Id} {n m : ℕ}
  {p : ℕ × ℕ}

theorem Fits.of_ready {g : GalleryFrame Id} (hd : Ready g d) : d.Fits := by
  intro _
  rw [hd.buffer, hd.curW, hd.curH]

theorem clear_ready {g : GalleryFrame Id} (hwindow : d.window = true) (hw : d.curW = g.outW)
    (hh : d.curH = g.outH) (hbuf : d.pixelBuf.length = g.outW * g.outH) :
    Ready g (d.clear g) where
  window := hwindow
  curW := hw
  curH := hh
  buffer := by rw [clear, List.length_map, hbuf]
  dropStates := by
    simp only [clear, List.length_append, List.length_replicate]
    omega

/-- The drop state of a tile once the tile has been looked at. -/
def tileDrops (a : Arrival Id) (d : Display) (tile : TileFrame Id) (i : ℕ) : TileDropState :=
  ((d.dropStates[i]?).getD {}).update tile.videoDrops (a.now i)

/-- The pixels of the dot of a tile when the tile is drawn. -/
def tileDot (a : Arrival Id) (d : Display) (tile : TileFrame Id) (i : ℕ) : List (ℕ × ℕ) :=
  a.gallery.dotPixels tile (tileDrops a d tile i) (a.checked i)

/-- What is left to be done for a tile once its dot has been drawn. -/
def labelTile (font : Font) (a : Arrival Id) (d : Display) (tile : TileFrame Id) (i : ℕ)
    (buf : List UInt32) : Display :=
  { d with
    pixelBuf := drawTileLabel font a.gallery.outW a.gallery.outH (a.gallery.tileX tile)
      (u32 (a.gallery.tileY tile + tile.frame.height + labelYOffset)) a.gallery.tileW tile buf
    dropStates := d.dropStates.set i (tileDrops a d tile i) }

theorem drawDot_eq (g : GalleryFrame Id) (tile : TileFrame Id) (ds : TileDropState) (checked : ℕ)
    (buf : List UInt32) : drawDot g tile ds checked buf =
      (g.dotPixels tile ds checked).foldlM (setPixel g.outW 0x00FF3333) buf := by
  unfold drawDot GalleryFrame.dotPixels
  split_ifs
  · rfl
  · rfl

/-- The display when the first `n` tiles of a gallery have been drawn. -/
structure Turn (font : Font) (a : Arrival Id) (d : Display) (n : ℕ) (s : Display) : Prop where
  drawn : drawTiles font a (a.gallery.tiles.zipIdx.take n) d = some s
  ready : Ready a.gallery s
  /-- The drop state of a tile is not changed before its turn. -/
  dropStates : ∀ i, n ≤ i → s.dropStates[i]? = d.dropStates[i]?

theorem Turn.zero (hd : Ready a.gallery d) : Turn font a d 0 d where
  drawn := rfl
  ready := hd
  dropStates _ _ := rfl

theorem Turn.unique (hs : Turn font a d n s) (ht : Turn font a d n t) : s = t :=
  Option.some.inj (hs.drawn.symm.trans ht.drawn)

theorem Turn.tileDrops_eq (hs : Turn font a d n s) (tile : TileFrame Id) :
    tileDrops a s tile n = tileDrops a d tile n := by
  unfold tileDrops
  rw [hs.dropStates n le_rfl]

theorem Turn.all_drawn (hs : Turn font a d a.gallery.tiles.length s) :
    drawTiles font a a.gallery.tiles.zipIdx d = some s := by
  rw [← hs.drawn, List.take_of_length_le (by rw [List.length_zipIdx])]

theorem drawTiles_succ (hn : a.gallery.tiles[n]? = some tile) :
    drawTiles font a (a.gallery.tiles.zipIdx.take (n + 1)) d =
      (drawTiles font a (a.gallery.tiles.zipIdx.take n) d).bind fun s =>
        drawTile font a s (tile, n) := by
  have hzip : a.gallery.tiles.zipIdx[n]? = some (tile, n) := by simp [List.getElem?_zipIdx, hn]
  have htake : a.gallery.tiles.zipIdx.take (n + 1) =
      a.gallery.tiles.zipIdx.take n ++ [(tile, n)] := by
    rw [List.take_add_one, hzip]
    rfl
  unfold drawTiles
  rw [htake, List.foldlM_append]
  simp

theorem Turn.next (hs : Turn font a d n s) (hn : a.gallery.tiles[n]? = some tile)
    {dotted : List UInt32}
    (hdraw : drawTile font a s (tile, n) = some (labelTile font a s tile n dotted))
    (hready : Ready a.gallery (labelTile font a s tile n dotted)) :
    Turn font a d (n + 1) (labelTile font a s tile n dotted) where
  drawn := by
    rw [drawTiles_succ hn, hs.drawn]
    exact hdraw
  ready := hready
  dropStates i hi := by
    rw [← hs.dropStates i (by omega)]
    exact List.getElem?_set_ne (by omega)

variable [LinearOrder Id]

theorem drawDot_spec {g : GalleryFrame Id} (hg : Showable g) {buf : List UInt32}
    (hbuf : buf.length = g.outW * g.outH) (tile : TileFrame Id) (ds : TileDropState)
    (checked : ℕ) :
    ∃ out, drawDot g tile ds checked buf = some out ∧ out.length = g.outW * g.outH := by
  unfold drawDot
  split_ifs
  · exact drawFilledCircle_spec hg.outArea_lt hbuf _ _ _ _
  · exact ⟨buf, rfl, hbuf⟩

/-- No index is outside of its slice when a tile is drawn. -/
theorem drawTile_spec (font : Font) (hg : Showable a.gallery) (hn : a.gallery.tiles[n]? = some tile)
    (hd : Ready a.gallery d) :
    ∃ buf dotted,
      blitTile a.gallery.outW (a.gallery.tileX tile) (a.gallery.tileY tile) tile.frame
        d.pixelBuf = some buf ∧
      drawDot a.gallery tile (tileDrops a d tile n) (a.checked n) buf = some dotted ∧
      drawTile font a d (tile, n) = some (labelTile font a d tile n dotted) ∧
      Ready a.gallery (labelTile font a d tile n dotted) := by
  obtain ⟨buf, hblit, hbuf, -⟩ := hg.blitTile_spec (List.mem_of_getElem? hn) hd.buffer
  have hlt : n < d.dropStates.length :=
    lt_of_lt_of_le (List.getElem?_eq_some_iff.mp hn).1 hd.dropStates
  obtain ⟨dotted, hdot, hdotted⟩ := drawDot_spec hg hbuf tile (tileDrops a d tile n) (a.checked n)
  refine ⟨buf, dotted, hblit, hdot, ?_, hd.window, hd.curW, hd.curH, ?_, ?_⟩
  · unfold tileDrops at hdot
    rw [List.getElem?_eq_getElem hlt, Option.getD_some] at hdot
    unfold drawTile labelTile tileDrops
    simp only [hblit, List.getElem?_eq_getElem hlt, Option.bind_eq_bind, Option.bind_some, hdot,
      Option.getD_some]
    rfl
  · exact drawTileLabel_length.trans hdotted
  · exact hd.dropStates.trans_eq List.length_set.symm

theorem exists_turn (hg : Showable a.gallery) (hd : Ready a.gallery d)
    (hn : n ≤ a.gallery.tiles.length) : ∃ s, Turn font a d n s := by
  induction n with
  | zero => exact ⟨d, .zero hd⟩
  | succ n ih =>
    obtain ⟨s, hs⟩ := ih (by omega)
    have hget := List.getElem?_eq_getElem (l := a.gallery.tiles) (i := n) hn
    obtain ⟨buf, dotted, -, -, hdraw, hready⟩ := drawTile_spec font hg hget hs.ready
    exact ⟨_, hs.next hget hdraw hready⟩

/-- In the turn of a tile its frame is copied; of the other pixels, its dot and label change. -/
theorem Turn.pixel (hg : Showable a.gallery) (hs : Turn font a d n s)
    (ht : Turn font a d (n + 1) t) (hn : a.gallery.tiles[n]? = some tile)
    (hx : p.1 < a.gallery.outW) (hdot : p ∉ tileDot a d tile n)
    (hlabel : p ∉ a.gallery.labelPixels font tile) :
    (p ∈ (a.gallery.frameRect tile).pixels → t.pixelBuf[index a.gallery.outW p.1 p.2]? =
      tile.frame.data[index tile.frame.width (p.1 - a.gallery.tileX tile)
        (p.2 - a.gallery.tileY tile)]?) ∧
    (p ∉ (a.gallery.frameRect tile).pixels → t.pixelBuf[index a.gallery.outW p.1 p.2]? =
      s.pixelBuf[index a.gallery.outW p.1 p.2]?) := by
  obtain ⟨buf, dotted, hblit, hcircle, hdraw, hready⟩ := drawTile_spec font hg hn hs.ready
  obtain rfl : labelTile font a s tile n dotted = t := (hs.next hn hdraw hready).unique ht
  obtain ⟨out, hout, -, hget⟩ := hg.blitTile_spec (List.mem_of_getElem? hn) hs.ready.buffer
  obtain rfl : out = buf := Option.some.inj (hout.symm.trans hblit)
  rw [hs.tileDrops_eq tile, drawDot_eq] at hcircle
  have hsame : (labelTile font a s tile n dotted).pixelBuf[index a.gallery.outW p.1 p.2]? =
      out[index a.gallery.outW p.1 p.2]? :=
    calc (labelTile font a s tile n dotted).pixelBuf[index a.gallery.outW p.1 p.2]?
        = dotted[index a.gallery.outW p.1 p.2]? := by
          refine drawTileLabel_getElem? fun dot hmem => ?_
          refine pixelIndex_ne (p := (dot.1, dot.2.1)) hg.outArea_lt (labelDots_mem hmem) hx ?_
          rintro rfl
          exact hlabel (List.mem_map_of_mem hmem)
      _ = out[index a.gallery.outW p.1 p.2]? := by
          refine setPixels_getElem? hcircle fun q hq => ?_
          refine pixelIndex_ne hg.outArea_lt (GalleryFrame.dotPixels_inside hq) hx ?_
          rintro rfl
          exact hdot hq
  rw [hsame, hget p.1 p.2 hx]
  exact ⟨fun hin => if_pos hin, fun hout => if_neg hout⟩

/-- A pixel outside of the frame, the dot and the label of a tile. -/
structure Misses (font : Font) (a : Arrival Id) (d : Display) (tile : TileFrame Id) (i : ℕ)
    (p : ℕ × ℕ) : Prop where
  frame : p ∉ (a.gallery.frameRect tile).pixels
  dot : p ∉ tileDot a d tile i
  label : p ∉ a.gallery.labelPixels font tile

/-- Pixels that all tiles of some turns miss keep their colours. -/
theorem Turn.kept (hg : Showable a.gallery) (hd : Ready a.gallery d) (hs : Turn font a d m s)
    (ht : Turn font a d n t) (hmn : m ≤ n) (hn : n ≤ a.gallery.tiles.length)
    (hx : p.1 < a.gallery.outW)
    (hp : ∀ i tile, m ≤ i → a.gallery.tiles[i]? = some tile → Misses font a d tile i p) :
    t.pixelBuf[index a.gallery.outW p.1 p.2]? = s.pixelBuf[index a.gallery.outW p.1 p.2]? := by
  induction n, hmn using Nat.le_induction generalizing t with
  | base => rw [hs.unique ht]
  | succ n hmn ih =>
    obtain ⟨u, hu⟩ : ∃ u, Turn font a d n u := exists_turn hg hd (Nat.le_of_succ_le hn)
    have hget := List.getElem?_eq_getElem (l := a.gallery.tiles) (i := n) hn
    obtain ⟨hframe, hdot, hlabel⟩ := hp n _ hmn hget
    rw [(hu.pixel hg ht hget hx hdot hlabel).2 hframe]
    exact ih hu (Nat.le_of_succ_le hn)

/-! ## Runs of the display -/

theorem resize_cases (hg : Showable a.gallery) (hd : d.Fits) :
    d.resize a = .error .stopped ∨
      ∃ d', d.resize a = .ok d' ∧ Ready a.gallery (d'.clear a.gallery) := by
  unfold resize
  split_ifs with hchange hcreated
  · refine .inr ⟨_, rfl, clear_ready rfl rfl rfl ?_⟩
    rw [List.length_replicate, u32_eq hg.outArea_lt]
  · exact .inl rfl
  · simp only [ne_eq, Bool.or_eq_true, Bool.not_eq_true', decide_eq_true_eq, not_or,
      Bool.not_eq_false, not_not] at hchange
    obtain ⟨⟨hwindow, hw⟩, hh⟩ := hchange
    refine .inr ⟨_, rfl, clear_ready hwindow hw.symm hh.symm ?_⟩
    rw [hw, hh]
    exact hd hwindow

/-- A gallery that fits the window is painted by the turns of all its tiles. -/
theorem displayGallery_eq (font : Font) (hg : Showable a.gallery) (hne : a.gallery.tiles ≠ [])
    (hresize : d.resize a = .ok d') (hready : Ready a.gallery (d'.clear a.gallery)) :
    ∃ s, displayGallery font d a = (if a.updated then .ok s else .error .stopped) ∧
      Turn font a (d'.clear a.gallery) a.gallery.tiles.length s := by
  obtain ⟨s, hs⟩ : ∃ s, Turn font a (d'.clear a.gallery) a.gallery.tiles.length s :=
    exists_turn hg hready le_rfl
  refine ⟨s, ?_, hs⟩
  unfold displayGallery
  rw [if_neg hne, hresize]
  simp only [Except.bind, bind, hs.all_drawn]

/-- Taking a gallery stops the display or leaves it with a buffer that fits its window. -/
theorem displayGallery_cases (hg : Showable a.gallery ∨ a.gallery.tiles = []) (hd : d.Fits) :
    displayGallery font d a = .error .stopped ∨
      ∃ d', displayGallery font d a = .ok d' ∧ d'.Fits := by
  by_cases hempty : a.gallery.tiles = []
  · exact .inr ⟨d, if_pos hempty, hd⟩
  · replace hg : Showable a.gallery := hg.resolve_right hempty
    rcases resize_cases hg hd with hstop | ⟨d₁, hresize, hready⟩
    · unfold displayGallery
      rw [if_neg hempty, hstop]
      exact .inl rfl
    · obtain ⟨s, heq, hs⟩ := displayGallery_eq font hg hempty hresize hready
      rw [heq]
      split_ifs
      · exact .inr ⟨s, rfl, .of_ready hs.ready⟩
      · exact .inl rfl

/-- So does taking any number of them. -/
theorem displayLoop_cases {arrivals : List (Arrival Id)}
    (hshow : ∀ a ∈ arrivals, Showable a.gallery ∨ a.gallery.tiles = []) (hd : d.Fits) :
    displayLoop font d arrivals = .error .stopped ∨
      ∃ d', displayLoop font d arrivals = .ok d' ∧ d'.Fits := by
  induction arrivals generalizing d with
  | nil => exact .inr ⟨d, rfl, hd⟩
  | cons a arrivals ih =>
    unfold displayLoop
    rw [List.foldlM_cons]
    rcases displayGallery_cases (hshow a List.mem_cons_self) hd with hstop | ⟨d₁, hstep, hd₁⟩
    · rw [hstop]
      exact .inl rfl
    · rw [hstep]
      exact ih (fun b hb => hshow b (List.mem_cons_of_mem a hb)) hd₁

end Display

/-! ## The composition of a gallery -/

/-- What holds of the buffer and of all that is written to it while a gallery is drawn. -/
structure Composed (font : Font) (a : Arrival Id) (d : Display) : Prop where
  /-- The window is as large as the gallery. -/
  size : a.gallery.outW = a.gallery.width ∧ a.gallery.outH = a.gallery.height
  /-- The slices of the rows are inside of the buffer and of the frame. -/
  slices : ∀ tile ∈ a.gallery.tiles, ∀ dy < tile.frame.height,
    (a.gallery.tileY tile + dy) * a.gallery.outW + a.gallery.tileX tile + tile.frame.width ≤
        a.gallery.outW * a.gallery.outH ∧
      dy * tile.frame.width + tile.frame.width ≤ tile.frame.data.length
  /--
  When its turn comes, a tile is copied pixel by pixel to its place, and no other pixel is. Its dot
  and its label are then drawn into the same buffer, from which the next turn goes on.
  -/
  blit : ∀ i tile, a.gallery.tiles[i]? = some tile → ∃ before,
    Display.drawTiles font a (a.gallery.tiles.zipIdx.take i) d = some before ∧
    before.pixelBuf.length = a.gallery.outW * a.gallery.outH ∧ ∃ buf,
      blitTile a.gallery.outW (a.gallery.tileX tile) (a.gallery.tileY tile) tile.frame
        before.pixelBuf = some buf ∧
      (∀ dx < tile.frame.width, ∀ dy < tile.frame.height, ∃ pixel,
        tile.frame.data[index tile.frame.width dx dy]? = some pixel ∧
        buf[index a.gallery.outW (a.gallery.tileX tile + dx) (a.gallery.tileY tile + dy)]? =
          some pixel) ∧
      (∀ x y, x < a.gallery.outW → (x, y) ∉ (a.gallery.tileRect tile).pixels →
        buf[index a.gallery.outW x y]? = before.pixelBuf[index a.gallery.outW x y]?) ∧
      ∃ dotted,
        Display.drawDot a.gallery tile (Display.tileDrops a d tile i) (a.checked i) buf =
          some dotted ∧
        Display.drawTiles font a (a.gallery.tiles.zipIdx.take (i + 1)) d =
          some (Display.labelTile font a before tile i dotted)
  /-- Circles and texts are drawn at pixels of the buffer. -/
  circle : ∀ cx cy radius, ∀ p ∈ circlePixels a.gallery.outW a.gallery.outH cx cy radius,
    (p.1 < a.gallery.outW ∧ p.2 < a.gallery.outH) ∧
      pixelIndex a.gallery.outW p.1 p.2 = index a.gallery.outW p.1 p.2 ∧
      pixelIndex a.gallery.outW p.1 p.2 < a.gallery.outW * a.gallery.outH
  text : ∀ weight x y text, ∀ dot ∈ textDots font a.gallery.outW a.gallery.outH weight y x text,
    (dot.1 < a.gallery.outW ∧ dot.2.1 < a.gallery.outH) ∧
      pixelIndex a.gallery.outW dot.1 dot.2.1 = index a.gallery.outW dot.1 dot.2.1 ∧
      pixelIndex a.gallery.outW dot.1 dot.2.1 < a.gallery.outW * a.gallery.outH
  /-- All of it ends with a buffer of the same size. -/
  finished : ∃ d', Display.drawTiles font a a.gallery.tiles.zipIdx d = some d' ∧
    d'.pixelBuf.length = a.gallery.outW * a.gallery.outH
  inside : ∀ tile ∈ a.gallery.tiles,
    (a.gallery.tileRect tile).Inside a.gallery.outW a.gallery.outH
  disjoint : a.gallery.tiles.Pairwise fun t t' =>
    Disjoint (a.gallery.tileRect t).pixels (a.gallery.tileRect t').pixels

/-- What the window shows once a gallery has been drawn; `d` is the display before. -/
structure Drawn (font : Font) (a : Arrival Id) (d final : Display) : Prop where
  length : final.pixelBuf.length = a.gallery.outW * a.gallery.outH
  /-- A frame is in its place, apart from its dot and from what of the labels gets there. -/
  frames : ∀ i tile, a.gallery.tiles[i]? = some tile →
    ∀ dx < tile.frame.width, ∀ dy < tile.frame.height,
      (a.gallery.tileX tile + dx, a.gallery.tileY tile + dy) ∉ Display.tileDot a d tile i →
      (∀ j tile', i ≤ j → a.gallery.tiles[j]? = some tile' →
        (a.gallery.tileX tile + dx, a.gallery.tileY tile + dy) ∉
          a.gallery.labelPixels font tile') →
      ∃ pixel, tile.frame.data[index tile.frame.width dx dy]? = some pixel ∧
        final.pixelBuf[index a.gallery.outW (a.gallery.tileX tile + dx)
          (a.gallery.tileY tile + dy)]? = some pixel
  /-- Labels whose columns do not wrap around never get there. -/
  whole : (∀ tile ∈ a.gallery.tiles, a.gallery.LabelFits font tile) →
    ∀ i tile, a.gallery.tiles[i]? = some tile →
    ∀ dx < tile.frame.width, ∀ dy < tile.frame.height,
      (a.gallery.tileX tile + dx, a.gallery.tileY tile + dy) ∉ Display.tileDot a d tile i →
      ∃ pixel, tile.frame.data[index tile.frame.width dx dy]? = some pixel ∧
        final.pixelBuf[index a.gallery.outW (a.gallery.tileX tile + dx)
          (a.gallery.tileY tile + dy)]? = some pixel
  /-- Between the frames, the dots and the labels the background is seen. -/
  background : ∀ p : ℕ × ℕ, p.1 < a.gallery.outW → p.2 < a.gallery.outH →
    (∀ i tile, a.gallery.tiles[i]? = some tile → Display.Misses font a d tile i p) →
    final.pixelBuf[index a.gallery.outW p.1 p.2]? = some bgColor

namespace Display

variable [LinearOrder Id] {font : Font} {a : Arrival Id} {d s : Display} {tile : TileFrame Id}
  {i : ℕ}

/-- A pixel of a frame is missed by the frames and the dots of the other tiles. -/
theorem misses_of_frame (hg : Showable a.gallery) (hi : a.gallery.tiles[i]? = some tile)
    {p : ℕ × ℕ} (hp : p ∈ (a.gallery.frameRect tile).pixels) {j : ℕ} {tile' : TileFrame Id}
    (hj : a.gallery.tiles[j]? = some tile') (hne : i ≠ j)
    (hlabel : p ∉ a.gallery.labelPixels font tile') : Misses font a d tile' j p where
  frame hmem := by
    have hw := GalleryFrame.width_le_tileW (List.mem_of_getElem? hj)
    have hh := GalleryFrame.height_le_tileH (List.mem_of_getElem? hj)
    exact Set.disjoint_left.mp (hg.apart hi hj hne (by omega) (by omega)) hp hmem
  dot hmem := by
    have hdot := hg.dotPixels_mem (List.mem_of_getElem? hj) hmem
    have hgap : 15 ≤ tileGap := by decide
    exact Set.disjoint_left.mp (hg.apart hi hj hne (by omega) (by omega)) hp hdot
  label := hlabel

theorem frame_drawn (hg : Showable a.gallery) (hd : Ready a.gallery d)
    (hs : Turn font a d a.gallery.tiles.length s) (hi : a.gallery.tiles[i]? = some tile)
    {dx dy : ℕ} (hdx : dx < tile.frame.width) (hdy : dy < tile.frame.height)
    (hdot : (a.gallery.tileX tile + dx, a.gallery.tileY tile + dy) ∉ tileDot a d tile i)
    (hlabels : ∀ j tile', i ≤ j → a.gallery.tiles[j]? = some tile' →
      (a.gallery.tileX tile + dx, a.gallery.tileY tile + dy) ∉
        a.gallery.labelPixels font tile') :
    ∃ pixel, tile.frame.data[index tile.frame.width dx dy]? = some pixel ∧
      s.pixelBuf[index a.gallery.outW (a.gallery.tileX tile + dx) (a.gallery.tileY tile + dy)]? =
        some pixel := by
  have htile := List.mem_of_getElem? hi
  have hlt := (List.getElem?_eq_some_iff.mp hi).1
  obtain ⟨hin, -⟩ : a.gallery.tileX tile + tile.frame.width ≤ a.gallery.outW ∧ _ := hg.inside htile
  have hx : a.gallery.tileX tile + dx < a.gallery.outW := by omega
  have hmem : (a.gallery.tileX tile + dx, a.gallery.tileY tile + dy) ∈
      (a.gallery.frameRect tile).pixels := by
    simp only [GalleryFrame.frameRect, Rect.mem_pixels]
    omega
  have hdata : index tile.frame.width dx dy < tile.frame.data.length := by
    rw [hg.data tile htile]
    exact index_lt hdx hdy
  obtain ⟨u, hu⟩ : ∃ u, Turn font a d i u := exists_turn hg hd hlt.le
  obtain ⟨v, hv⟩ : ∃ v, Turn font a d (i + 1) v := exists_turn hg hd hlt
  refine ⟨_, List.getElem?_eq_getElem hdata, ?_⟩
  rw [hv.kept hg hd hs hlt le_rfl hx fun j tile' hij hj =>
    misses_of_frame hg hi hmem hj (by omega) (hlabels j tile' (by omega) hj)]
  rw [(hu.pixel hg hv hi hx hdot (hlabels i tile le_rfl hi)).1 hmem]
  simp only [Nat.add_sub_cancel_left]
  exact List.getElem?_eq_getElem hdata

theorem drawn (hg : Showable a.gallery) (hd : Ready a.gallery d)
    (hs : Turn font a d a.gallery.tiles.length s) (hclear : ∀ c ∈ d.pixelBuf, c = bgColor) :
    Drawn font a d s where
  length := hs.ready.buffer
  frames i tile hi dx hdx dy hdy hdot hlabels := frame_drawn hg hd hs hi hdx hdy hdot hlabels
  whole hfit i tile hi dx hdx dy hdy hdot := by
    refine frame_drawn hg hd hs hi hdx hdy hdot fun j tile' hij hj => ?_
    refine hg.labelPixels_apart hi hj hij (hfit tile' (List.mem_of_getElem? hj)) ?_
    simp only [GalleryFrame.frameRect, Rect.mem_pixels]
    omega
  background p hx hy hp := by
    rw [(Turn.zero hd).kept hg hd hs (Nat.zero_le _) le_rfl hx fun i tile _ hi => hp i tile hi]
    have hlt : index a.gallery.outW p.1 p.2 < d.pixelBuf.length := by
      rw [hd.buffer]
      exact index_lt hx hy
    rw [List.getElem?_eq_getElem hlt, hclear _ (List.getElem_mem hlt)]

theorem composed (hg : Showable a.gallery) (hd : Ready a.gallery d) : Composed font a d where
  size := ⟨hg.outW_eq, hg.outH_eq⟩
  slices tile htile dy hdy := hg.slices_inside htile hdy
  blit i tile hi := by
    have hlt := (List.getElem?_eq_some_iff.mp hi).1
    obtain ⟨before, hbefore⟩ : ∃ s, Turn font a d i s := exists_turn hg hd hlt.le
    obtain ⟨buf, dotted, hblit, hdot, hdraw, hready⟩ := drawTile_spec font hg hi hbefore.ready
    obtain ⟨out, hout, hframe, hother⟩ := hg.blit_exact (List.mem_of_getElem? hi)
      hbefore.ready.buffer
    obtain rfl : out = buf := Option.some.inj (hout.symm.trans hblit)
    rw [hbefore.tileDrops_eq tile] at hdot
    exact ⟨before, hbefore.drawn, hbefore.ready.buffer, out, hblit, hframe, hother, dotted, hdot,
      (hbefore.next hi hdraw hready).drawn⟩
  circle cx cy radius p hp := by
    obtain ⟨hx, hy⟩ := circlePixels_mem hp
    exact ⟨⟨hx, hy⟩, pixelIndex_eq hg.outArea_lt hx hy, pixelIndex_lt hg.outArea_lt hx hy⟩
  text weight x y text dot hdot := by
    obtain ⟨hx, hy⟩ := textDots_mem hdot
    exact ⟨⟨hx, hy⟩, pixelIndex_eq hg.outArea_lt hx hy, pixelIndex_lt hg.outArea_lt hx hy⟩
  finished := by
    obtain ⟨s, hs⟩ : ∃ s, Turn font a d a.gallery.tiles.length s := exists_turn hg hd le_rfl
    exact ⟨s, hs.all_drawn, hs.ready.buffer⟩
  inside tile htile := hg.inside htile
  disjoint := hg.disjoint

/--
Whatever galleries come, the display never indexes outside of a slice; each gallery that it draws
is composed inside of a buffer as large as its window, which then shows every frame in its place.
-/
theorem displayLoop_composes {arrivals : List (Arrival Id)}
    (hshow : ∀ a ∈ arrivals, Showable a.gallery ∨ a.gallery.tiles = []) :
    displayLoop font {} arrivals ≠ .error .panicked ∧
      ∀ before a after, arrivals = before ++ a :: after → a.gallery.tiles ≠ [] →
        ∀ d d', displayLoop font {} before = .ok d → d.resize a = .ok d' →
          (d'.clear a.gallery).pixelBuf.length = a.gallery.outW * a.gallery.outH ∧
          Composed font a (d'.clear a.gallery) ∧
          ∃ final, displayGallery font d a = (if a.updated then .ok final else .error .stopped) ∧
            Drawn font a (d'.clear a.gallery) final := by
  have hcases : ∀ l : List (Arrival Id),
      (∀ a ∈ l, Showable a.gallery ∨ a.gallery.tiles = []) →
      displayLoop font {} l = .error .stopped ∨
        ∃ d, displayLoop font {} l = .ok d ∧ d.Fits :=
    fun l hl => displayLoop_cases hl fun hopen => by cases hopen
  constructor
  · rcases hcases arrivals hshow with hstop | ⟨d, hok, -⟩
    · rw [hstop]
      decide
    · rw [hok]
      intro h
      cases h
  · rintro before a after rfl hne d d' hbefore hresize
    have hg : Showable a.gallery := (hshow a (by simp)).resolve_right hne
    have hfits : d.Fits := by
      rcases hcases before (fun b hb => hshow b (List.mem_append_left _ hb)) with
        hstop | ⟨d₁, hok, hd₁⟩
      · rw [hstop] at hbefore
        cases hbefore
      · rw [hok] at hbefore
        cases hbefore
        exact hd₁
    have hready : Ready a.gallery (d'.clear a.gallery) := by
      rcases resize_cases hg hfits with hstop | ⟨d₁, hok, hready⟩
      · rw [hstop] at hresize
        cases hresize
      · rw [hok] at hresize
        cases hresize
        exact hready
    obtain ⟨final, heq, hturn⟩ := displayGallery_eq font hg hne hresize hready
    refine ⟨hready.buffer, composed hg hready, final, heq, drawn hg hready hturn ?_⟩
    intro c hc
    obtain ⟨_, -, rfl⟩ := List.mem_map.mp hc
    rfl

/-- One peer with a frame of two pixels. -/
def onePeer : Arrival ℕ where
  gallery :=
    { tiles := [⟨1, ⟨0, 0, 2, 1, [7, 8]⟩, 0, 0, "a", .direct, 0⟩], cols := 1, rows := 1 }
  created := true
  updated := true
  now := fun _ => 0
  checked := fun _ => 0

/-- A font whose printable characters are one dark dot wide and high. -/
def dotFont : Font where
  getRaster := fun c _ => if 32 ≤ c.toNat ∧ c.toNat < 127 then some [[255]] else none
  getRasterWidth := fun _ => 1

theorem onePeer_showable : Showable onePeer.gallery where
  built := by
    refine ⟨.after [.frame 1 ⟨0, 0, 2, 1, [7, 8]⟩, .command (.setPeerName 1 "a"),
      .command (.setConnectionKind 1 .direct)], fun _ => 0, ?_⟩
    simp [Compositor.buildGallery, Compositor.sortedFrames, Compositor.after, Compositor.update,
      Compositor.apply, Compositor.tile, galleryCols, galleryRows, onePeer, AList.insert_of_notMem,
      AList.lookup, AList.empty_entries]
  data := by decide
  area := by decide

theorem displayLoop_composes_onePeer :
    displayLoop dotFont {} [onePeer] ≠ .error .panicked ∧
      ∃ d final, resize {} onePeer = .ok d ∧ Composed dotFont onePeer (d.clear onePeer.gallery) ∧
        displayGallery dotFont {} onePeer = .ok final ∧
        final.pixelBuf[index onePeer.gallery.outW 17 16]? = some 8 := by
  have hshow : ∀ a ∈ [onePeer], Showable a.gallery ∨ a.gallery.tiles = [] := by
    intro a ha
    rw [List.mem_singleton.mp ha]
    exact .inl onePeer_showable
  obtain ⟨hpanic, hcomposed⟩ := @displayLoop_composes ℕ _ dotFont [onePeer] hshow
  obtain ⟨d, hd⟩ : ∃ d, resize {} onePeer = .ok d := ⟨_, rfl⟩
  obtain ⟨-, hcomposed, final, hfinal, hdrawn⟩ :=
    hcomposed [] onePeer [] rfl (List.cons_ne_nil _ _) {} d rfl hd
  refine ⟨hpanic, d, final, hd, hcomposed, hfinal, ?_⟩
  obtain ⟨pixel, hpixel, hget⟩ := hdrawn.whole (by
    intro tile htile
    rw [List.mem_singleton.mp htile]
    unfold GalleryFrame.LabelFits
    decide) 0 _ rfl 1 (by decide) 0 (by decide) (by
    cases hd
    decide)
  cases hpixel
  exact hget

end Display

end Meshconf.Video
