import Mathlib.Data.Int.Init
import Meshconf.Raster.Buffer
import Meshconf.Video.Compositor

/-! # The window of the display

The display takes galleries and composes each into one buffer of pixels. Coordinates are
machine words: `u32` and `i32` are what an operation leaves of its result. Slices and
indices outside of the buffer stop the program.
-/

namespace Meshconf.Video

open Mesh Raster

def tileGap : ℕ := 20

def outerPad : ℕ := 16

def labelHeight : ℕ := 32

def labelYOffset : ℕ := 4

def bgColor : UInt32 := 0x00181818

/-- One second, in nanoseconds. -/
def dropDotDuration : ℕ := 1000000000

def dropDotRadius : ℕ := 5

def u32 (n : ℕ) : ℕ := n % 2 ^ 32

def i32 (z : ℤ) : ℤ := z.bmod (2 ^ 32)

inductive FontWeight
  | regular
  | bold
  deriving DecidableEq, Repr

/-- The bitmaps of a font: rows of intensities, and the width of a character. -/
structure Font where
  getRaster : Char → FontWeight → Option (List (List UInt8))
  getRasterWidth : FontWeight → ℕ

/-! ## Drawing -/

section Draw

variable {Id : Type*} (font : Font) (bufW bufH : ℕ)

/-- Copy a frame into the buffer, row by row. -/
def blitTile (x₀ y₀ : ℕ) (frame : RgbFrame) (buf : List UInt32) : Option (List UInt32) :=
  (List.range frame.height).foldlM
    (fun buf dy => copySlice buf ((y₀ + dy) * bufW + x₀) frame.data (dy * frame.width) frame.width)
    buf

/-- One of the colours of a pixel, blended. -/
def blendChannel (bg fg shift : UInt32) (alpha : UInt8) : UInt32 :=
  let mask : UInt32 := 0xFF
  let a := alpha.toUInt32
  let invA := 255 - a
  (((fg >>> shift) &&& mask) * a + ((bg >>> shift) &&& mask) * invA) / 255

def blendPixel (bg fg : UInt32) (alpha : UInt8) : UInt32 :=
  let r := blendChannel bg fg 16 alpha
  let g := blendChannel bg fg 8 alpha
  let b := blendChannel bg fg 0 alpha
  (r <<< (16 : UInt32)) ||| (g <<< (8 : UInt32)) ||| b

/-- A pixel to be written: its column, its row and its intensity. -/
abbrev Dot := ℕ × ℕ × UInt8

/-- What of a character at `(cx, y)` is drawn; rows and columns end with the window. -/
def glyphDots (cx y : ℕ) (raster : List (List UInt8)) : List Dot :=
  (raster.zipIdx.takeWhile fun row => u32 (y + row.2) < bufH).flatMap fun row =>
    ((row.1.zipIdx.takeWhile fun col => u32 (cx + col.2) < bufW).filter fun col => 0 < col.1).map
      fun col => (u32 (cx + col.2), u32 (y + row.2), col.1)

/-- What is drawn of a text at `(x, y)`. -/
def textDots (weight : FontWeight) (y : ℕ) : ℕ → List Char → List Dot
  | _, [] => []
  | cx, ch :: text =>
    (match font.getRaster ch weight with
      | some raster => glyphDots bufW bufH cx y raster
      | none => []) ++ textDots weight y (u32 (cx + font.getRasterWidth weight)) text

/-- The position after the last character. -/
def textEnd (weight : FontWeight) (x : ℕ) (text : List Char) : ℕ :=
  text.foldl (fun cx _ => u32 (cx + font.getRasterWidth weight)) x

/-- The index of the pixel `(px, py)`, as it is computed. -/
def pixelIndex (px py : ℕ) : ℕ := u32 (py * bufW + px)

def blendDot (color : UInt32) (buf : List UInt32) (dot : Dot) : List UInt32 :=
  let idx := pixelIndex bufW dot.1 dot.2.1
  match buf[idx]? with
  | some bg => buf.set idx (blendPixel bg color dot.2.2)
  | none => buf

/-- Draw a text; the position after it is returned. -/
def drawText (x y : ℕ) (text : List Char) (color : UInt32) (weight : FontWeight)
    (buf : List UInt32) : List UInt32 × ℕ :=
  ((textDots font bufW bufH weight y x text).foldl (blendDot bufW color) buf,
    textEnd font weight x text)

/-- A pixel of the window, if it is one. -/
def windowPixel (px py : ℤ) : Option (ℕ × ℕ) :=
  if 0 ≤ px ∧ 0 ≤ py ∧ px.toNat < bufW ∧ py.toNat < bufH then some (px.toNat, py.toNat) else none

/-- The pixels of a filled circle that the window has. -/
def circlePixels (cx cy radius : ℕ) : List (ℕ × ℕ) :=
  let r := i32 radius
  let span := (List.range (2 * r + 1).toNat).map fun k : ℕ => (k : ℤ) - r
  span.flatMap fun dy => span.filterMap fun dx =>
    if dx * dx + dy * dy ≤ r * r then windowPixel bufW bufH (i32 (i32 cx + dx)) (i32 (i32 cy + dy))
    else none

/-- `buf[idx] = color`. -/
def setPixel (color : UInt32) (buf : List UInt32) (p : ℕ × ℕ) : Option (List UInt32) :=
  let idx := pixelIndex bufW p.1 p.2
  if idx < buf.length then some (buf.set idx color) else none

def drawFilledCircle (cx cy radius : ℕ) (color : UInt32) (buf : List UInt32) :
    Option (List UInt32) :=
  (circlePixels bufW bufH cx cy radius).foldlM (setPixel bufW color) buf

def measureText (text : List Char) : ℕ := u32 (u32 text.length * font.getRasterWidth .regular)

def kindStr : ConnectionKind → String
  | .isLocal => "(you)"
  | .direct => "(direct)"
  | .relay => "(relay)"
  | .unknown => "(…)"

def kindColor : ConnectionKind → UInt32
  | .isLocal => 0x00888888
  | .direct => 0x0044CC44
  | .relay => 0x00CCCC44
  | .unknown => 0x00888888

/-- The name and the connection kind, centred below the tile. -/
def drawTileLabel (x₀ y₀ tileW : ℕ) (tile : TileFrame Id) (buf : List UInt32) : List UInt32 :=
  let name := (if tile.name = "" then "?" else tile.name).toList
  let kind := (kindStr tile.connKind).toList
  let textW := u32 (measureText font name + measureText font [' '] + measureText font kind)
  let startX := u32 (x₀ + (tileW - textW) / 2)
  let (buf, cx) := drawText font bufW bufH startX y₀ name 0x00FFFFFF .bold buf
  let (buf, cx) := drawText font bufW bufH cx y₀ [' '] 0x00FFFFFF .regular buf
  (drawText font bufW bufH cx y₀ kind (kindColor tile.connKind) .regular buf).1

end Draw

/-! ## The display loop -/

structure TileDropState where
  lastDropCount : ℕ := 0
  lastDropTime : Option ℕ := none
  deriving DecidableEq, Repr

namespace TileDropState

/-- New drops are noted with the time. -/
def update (ds : TileDropState) (drops now : ℕ) : TileDropState :=
  if ds.lastDropCount < drops then { lastDropCount := drops, lastDropTime := some now } else ds

def showDot (ds : TileDropState) (checked : ℕ) : Bool :=
  match ds.lastDropTime with
  | some t => checked - t < dropDotDuration
  | none => false

end TileDropState

structure Display where
  window : Bool := false
  pixelBuf : List UInt32 := []
  curW : ℕ := 0
  curH : ℕ := 0
  dropStates : List TileDropState := []
  deriving DecidableEq, Repr

namespace GalleryFrame

variable {Id : Type*} (g : GalleryFrame Id)

def tileW : ℕ := (g.tiles.map (·.frame.width)).max?.getD 640

def tileH : ℕ := (g.tiles.map (·.frame.height)).max?.getD 480

def outW : ℕ := u32 (2 * outerPad + g.cols * g.tileW + (g.cols - 1) * tileGap)

def outH : ℕ := u32 (2 * outerPad + g.rows * (g.tileH + labelHeight) + (g.rows - 1) * tileGap)

/-- The column of the buffer at which a tile begins. -/
def tileX (tile : TileFrame Id) : ℕ := u32 (outerPad + tile.gridCol * (g.tileW + tileGap))

/-- The row of the buffer at which a tile begins. -/
def tileY (tile : TileFrame Id) : ℕ :=
  u32 (outerPad + tile.gridRow * (g.tileH + labelHeight + tileGap))

end GalleryFrame

/--
A gallery, with what the display meets when it draws it: whether windows can be created and
updated, and the clock as each tile reads it.
-/
structure Arrival (Id : Type*) where
  gallery : GalleryFrame Id
  created : Bool
  updated : Bool
  now : ℕ → ℕ
  checked : ℕ → ℕ

inductive Exit
  | stopped
  | panicked
  deriving DecidableEq, Repr

namespace Display

variable {Id : Type*}

/-- Create or resize the window, if needed. -/
def resize (d : Display) (a : Arrival Id) : Except Exit Display :=
  if !d.window || a.gallery.outW ≠ d.curW || a.gallery.outH ≠ d.curH then
    if a.created then
      .ok { d with
        window := true
        curW := a.gallery.outW
        curH := a.gallery.outH
        pixelBuf := List.replicate (u32 (a.gallery.outW * a.gallery.outH)) bgColor }
    else .error .stopped
  else .ok d

/-- Fill the buffer with the background and make the drop states enough. -/
def clear (d : Display) (g : GalleryFrame Id) : Display :=
  { d with
    pixelBuf := d.pixelBuf.map fun _ => bgColor
    dropStates := d.dropStates ++ List.replicate (g.tiles.length - d.dropStates.length) {} }

/-- Draw the dot of a tile whose frames have been dropped lately. -/
def drawDot (g : GalleryFrame Id) (tile : TileFrame Id) (ds : TileDropState) (checked : ℕ)
    (buf : List UInt32) : Option (List UInt32) :=
  if ds.showDot checked then
    drawFilledCircle g.outW g.outH (u32 (g.tileX tile + dropDotRadius + 4))
      (u32 (g.tileY tile + dropDotRadius + 4)) dropDotRadius 0x00FF3333 buf
  else some buf

/-- Draw a tile, given with its number; `none` if an index is outside of its slice. -/
def drawTile (font : Font) (a : Arrival Id) (d : Display) (tile : TileFrame Id × ℕ) :
    Option Display := do
  let g := a.gallery
  let x₀ := g.tileX tile.1
  let y₀ := g.tileY tile.1
  let buf ← blitTile g.outW x₀ y₀ tile.1.frame d.pixelBuf
  let ds ← d.dropStates[tile.2]?
  let ds := ds.update tile.1.videoDrops (a.now tile.2)
  let buf ← drawDot g tile.1 ds (a.checked tile.2) buf
  let labelY := u32 (y₀ + tile.1.frame.height + labelYOffset)
  return { d with
    pixelBuf := drawTileLabel font g.outW g.outH x₀ labelY g.tileW tile.1 buf
    dropStates := d.dropStates.set tile.2 ds }

def drawTiles (font : Font) (a : Arrival Id) (tiles : List (TileFrame Id × ℕ)) (d : Display) :
    Option Display :=
  tiles.foldlM (drawTile font a) d

/-- Take a gallery and draw it. -/
def displayGallery (font : Font) (d : Display) (a : Arrival Id) : Except Exit Display :=
  if a.gallery.tiles = [] then .ok d
  else do
    let d ← d.resize a
    match drawTiles font a a.gallery.tiles.zipIdx (d.clear a.gallery) with
    | none => .error .panicked
    | some d => if a.updated then .ok d else .error .stopped

/-- The display loop; it ends with the galleries if it does not end before. -/
def displayLoop (font : Font) (d : Display) (arrivals : List (Arrival Id)) : Except Exit Display :=
  arrivals.foldlM (displayGallery font) d

end Display

end Meshconf.Video
