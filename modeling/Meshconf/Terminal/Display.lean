import Meshconf.Video.Window

/-! # The display in the terminal

The display takes galleries and shows each tile as an image of the Kitty protocol. A slot has
two image numbers; an image is transmitted under one of them while the other is on display.
Text is written only where it has changed. The screen is not a part of the program: it says
what the protocol makes a terminal do with these writes.
-/

namespace Meshconf.Terminal

open Mesh Video

def maxTiles : ℕ := 9

def cellGapCols : ℕ := 1

def cellGapRows : ℕ := 1

/-- `as u16`. -/
def u16 (n : ℕ) : ℕ := n % 2 ^ 16

structure WinSize where
  cols : ℕ
  rows : ℕ
  xPixel : ℕ
  yPixel : ℕ
  deriving DecidableEq, Repr

structure StatusInfo where
  message : String
  copyable : Option String
  deriving DecidableEq, Repr

/-- The label last drawn for a tile. -/
structure DrawnLabel where
  name : String := ""
  connKindTag : ℕ := 0
  deriving DecidableEq, Repr, Inhabited

def connKindTag : ConnectionKind → ℕ
  | .unknown => 0
  | .direct => 1
  | .relay => 2
  | .isLocal => 3

/-- The drops last seen of a tile, and whether its dot is drawn. -/
structure TileDrops where
  lastDropCount : ℕ := 0
  lastDropTime : Option ℕ := none
  dotDrawn : Bool := false
  deriving DecidableEq, Repr, Inhabited

namespace TileDrops

/-- New drops are noted with the time. -/
def update (ds : TileDrops) (drops now : ℕ) : TileDrops :=
  if ds.lastDropCount < drops then { ds with lastDropCount := drops, lastDropTime := some now }
  else ds

/-- Drops were noted less than a second ago. -/
def shouldShowDot (ds : TileDrops) (checked : ℕ) : Bool :=
  match ds.lastDropTime with
  | some t => checked - t < dropDotDuration
  | none => false

end TileDrops

/-- Make the list long enough and set an entry. -/
def putAt {α : Type*} [Inhabited α] (xs : List α) (i : ℕ) (x : α) : List α :=
  (xs ++ List.replicate (i + 1 - xs.length) default).set i x

/-- What the display writes to the terminal, or logs. -/
inductive Write
  | clearScreen
  | deleteImage (id : ℕ)
  | transmitImage (id : ℕ) (frame : RgbFrame)
  | displayImageAt (id col row cols rows : ℕ)
  /-- The image of a slot has not been transmitted, or not been placed. -/
  | warn (slot : ℕ)
  | label (slot col row : ℕ) (name : String) (kind : ConnectionKind) (pad : ℕ)
  | dot (slot col row : ℕ) (shown : Bool)
  | clearLine (row : ℕ)
  | message (col row : ℕ) (text : String)
  | copyable (row : ℕ) (text : String)
  | errorBanner (text : String)
  deriving DecidableEq, Repr

/-- The image number of a slot: the first of its pair, or the second. -/
def imageId (slot : ℕ) (second : Bool) : ℕ := if second then slot * 2 + 2 else slot * 2 + 1

/-! ## Where the tiles go -/

/-- Cells of the terminal: the size of a tile and the corner of the gallery. -/
structure Cells where
  tileCols : ℕ
  tileRows : ℕ
  originCol : ℕ
  originRow : ℕ
  deriving DecidableEq, Repr

def labelRows : ℕ := 1

def divCeil (n k : ℕ) : ℕ := (n + k - 1) / k

section Cells

variable {Id : Type*} (g : GalleryFrame Id) (l : Cells)

def totalCols (tileCols : ℕ) : ℕ := u32 (g.cols * tileCols + (g.cols - 1) * cellGapCols)

def totalRows (tileRows : ℕ) : ℕ :=
  u32 (g.rows * (tileRows + labelRows) + (g.rows - 1) * cellGapRows)

/-- The cells for a gallery, unless the size of the window is unknown or a cell has no pixels. -/
def cellsFor (ws : WinSize) : Option Cells :=
  if ws.xPixel = 0 ∨ ws.yPixel = 0 ∨ ws.cols = 0 ∨ ws.rows = 0 then none
  else
    let termCellW := ws.xPixel / ws.cols
    let termCellH := ws.yPixel / ws.rows
    if termCellW = 0 ∨ termCellH = 0 then none
    else
      let tileCols := divCeil g.tileW termCellW
      let tileRows := divCeil g.tileH termCellH
      some {
        tileCols
        tileRows
        originCol := (ws.cols - totalCols g tileCols) / 2
        originRow := (ws.rows - totalRows g tileRows) / 2 }

/-- The column of a tile. -/
def Cells.col (tile : TileFrame Id) : ℕ :=
  u32 (l.originCol + tile.gridCol * (l.tileCols + cellGapCols))

/-- The row of a tile. -/
def Cells.row (tile : TileFrame Id) : ℕ :=
  u32 (l.originRow + tile.gridRow * (l.tileRows + labelRows + cellGapRows))

end Cells

/-! ## The status -/

/-- How many rows a text needs. -/
def wrappedLineCount (text : String) (width : ℕ) : ℕ :=
  if width = 0 ∨ text = "" then 1 else (text.length + width - 1) / width

def copyableLines (info : StatusInfo) (termCols : ℕ) : ℕ :=
  (info.copyable.map (wrappedLineCount · termCols)).getD 0

def statusRowCount (status : Option StatusInfo) (termCols : ℕ) : ℕ :=
  match status with
  | none => 0
  | some info =>
    let lines := copyableLines info termCols
    if 0 < lines then 1 + 1 + lines else 1

/-- The first of `count` rows that end at the anchor. -/
def topRow (anchorRow count : ℕ) : ℕ := anchorRow - u16 (count - 1)

/-- Clear the rows of the old status and write the new one. -/
def statusText (new old : Option StatusInfo) (termCols anchorRow : ℕ) : List Write :=
  let oldRowCount := statusRowCount old termCols
  let oldTop := topRow anchorRow oldRowCount
  ((List.range oldRowCount).map fun i => .clearLine (u16 (oldTop + u16 i))) ++
    match new with
    | none => []
    | some info =>
      let top := topRow anchorRow (statusRowCount new termCols)
      .message (u16 ((termCols - info.message.length) / 2)) top info.message ::
        match info.copyable with
        | some ticket => [.copyable (u16 (top + 2)) ticket]
        | none => []

/-! ## The display loop -/

/--
What a rendering meets: the status, the size of the window if it can be read, whether the image
of a slot is transmitted and then placed, and the clock as each slot reads it.
-/
structure Scene where
  status : Option StatusInfo := none
  windowSize : Option WinSize := none
  transmitted : ℕ → Bool := fun _ => true
  placed : ℕ → Bool := fun _ => true
  now : ℕ → ℕ := fun _ => 0
  checked : ℕ → ℕ := fun _ => 0

/-- A turn of the loop, with what it meets. The galleries may have come to their end. -/
structure Turn (Id : Type*) where
  resized : Bool := false
  redraw : Scene := {}
  cameraError : Option String := none
  next : Option (GalleryFrame Id) := none
  scene : Scene := {}

structure DisplayLoop (Id : Type*) where
  running : Bool := true
  backToggle : ℕ → Bool := fun _ => false
  lastTileCount : ℕ := 0
  lastStatusDrawn : Option StatusInfo := none
  errorDrawn : Bool := false
  lastGallery : Option (GalleryFrame Id) := none
  drawnLabels : List DrawnLabel := []
  tileDropStates : List TileDrops := []
  /-- Everything that has been written, oldest first. -/
  written : List Write := []

namespace DisplayLoop

variable {Id : Type*} (d : DisplayLoop Id)

def write (ws : List Write) : DisplayLoop Id := { d with written := d.written ++ ws }

def deleteImages : List Write := (List.range (maxTiles * 2 + 2)).map fun i => .deleteImage (i + 1)

/-- Clear text and images, and forget what was drawn. -/
def clearAll : DisplayLoop Id :=
  { d with
    lastStatusDrawn := none
    errorDrawn := false
    drawnLabels := []
    tileDropStates := []
    written := d.written ++ .clearScreen :: deleteImages }

/-! ### A tile -/

def tileLabel (tile : TileFrame Id) : DrawnLabel :=
  { name := tile.name, connKindTag := connKindTag tile.connKind }

/-- The name, or what stands for it. -/
def displayName (name : String) : String := if name = "" then "?" else name

/-- The number of columns that a label is counted with. -/
def visibleLen (tile : TileFrame Id) : ℕ :=
  (displayName tile.name).utf8ByteSize + 1 + (kindStr tile.connKind).length

/-- Draw the label below the tile, if it has changed. -/
def drawLabel (l : Cells) (tile : TileFrame Id) (i : ℕ) : DisplayLoop Id :=
  if d.drawnLabels[i]? = some (tileLabel tile) then d
  else
    let labelCol := u32 (l.col tile + (l.tileCols - u32 (visibleLen tile)) / 2)
    let labelRow := u32 (l.row tile + l.tileRows)
    { d with drawnLabels := putAt d.drawnLabels i (tileLabel tile) }.write
      [.label i (u16 labelCol) (u16 labelRow) (displayName tile.name) tile.connKind
        (l.tileCols - visibleLen tile)]

/-- Draw or clear the dot above the tile, if it has changed. -/
def drawDot (l : Cells) (e : Scene) (tile : TileFrame Id) (i : ℕ) : DisplayLoop Id :=
  let ds := (d.tileDropStates[i]?.getD default).update tile.videoDrops (e.now i)
  let show? := ds.shouldShowDot (e.checked i)
  let d' := { d with tileDropStates := putAt d.tileDropStates i { ds with dotDrawn := show? } }
  if show? ≠ ds.dotDrawn ∧ 0 < l.row tile then
    d'.write [.dot i (u16 (l.col tile)) (u16 (l.row tile - 1)) show?]
  else d'

/-- Transmit the image of a tile into the back buffer of its slot and place it. -/
def renderTile (l : Cells) (e : Scene) (t : TileFrame Id × ℕ) : DisplayLoop Id :=
  let slot := t.2
  let backId := imageId slot (d.backToggle slot)
  let d' := { d with backToggle := Function.update d.backToggle slot (!d.backToggle slot) }
  if e.transmitted slot then
    let image : List Write :=
      [.transmitImage backId t.1.frame,
        if e.placed slot then
          .displayImageAt backId (u16 (l.col t.1)) (u16 (l.row t.1)) l.tileCols l.tileRows
        else .warn slot]
    ((d'.write image).drawLabel l t.1 slot).drawDot l e t.1 slot
  else d'.write [.warn slot]

/-! ### A gallery -/

/-- The row at which the status ends. -/
def anchorRow (ws : WinSize) : ℕ := ws.rows - 3

/-- Write the status, if it has changed. -/
def drawStatus (status : Option StatusInfo) (ws : WinSize) : DisplayLoop Id :=
  if status ≠ d.lastStatusDrawn then
    { d with lastStatusDrawn := status }.write
      (statusText status d.lastStatusDrawn ws.cols (anchorRow ws))
  else d

/-- The tiles that have a slot, with their slots. -/
def slotted (g : GalleryFrame Id) : List (TileFrame Id × ℕ) := g.tiles.zipIdx.take maxTiles

def renderGallery (e : Scene) (g : GalleryFrame Id) : DisplayLoop Id :=
  match e.windowSize with
  | none => d
  | some ws =>
    match cellsFor g ws with
    | none => d
    | some l => ((slotted g).foldl (fun d t => d.renderTile l e t) d).drawStatus e.status ws

/-! ### A turn -/

/-- After a resize everything is cleared and the last gallery rendered again. -/
def handleResize (t : Turn Id) : DisplayLoop Id :=
  if t.resized then
    match d.lastGallery with
    | some g => d.clearAll.renderGallery t.redraw g
    | none => d.clearAll
  else d

def drawError (cameraError : Option String) : DisplayLoop Id :=
  if d.errorDrawn then d
  else
    match cameraError with
    | some err => { d with errorDrawn := true }.write [.errorBanner err]
    | none => d

/-- Another number of tiles: everything is cleared. -/
def setTileCount (g : GalleryFrame Id) : DisplayLoop Id :=
  if g.tiles.length ≠ d.lastTileCount then { d.clearAll with lastTileCount := g.tiles.length }
  else d

/-- There is no tile, but the status may have changed. -/
def showEmpty (e : Scene) : DisplayLoop Id :=
  let d' := { d with lastGallery := none }
  match e.windowSize with
  | some ws => d'.drawStatus e.status ws
  | none => { d' with lastStatusDrawn := e.status }

def showGallery (e : Scene) (g : GalleryFrame Id) : DisplayLoop Id :=
  if g.tiles = [] then (d.setTileCount g).showEmpty e
  else { (d.setTileCount g).renderGallery e g with lastGallery := some g }

/-- Clean up all image numbers. -/
def stop : DisplayLoop Id := { d with running := false }.write deleteImages

def turn (t : Turn Id) : DisplayLoop Id :=
  let d' := (d.handleResize t).drawError t.cameraError
  match t.next with
  | none => d'.stop
  | some g => d'.showGallery t.scene g

inductive Action (Id : Type*)
  | cancel
  | turn (t : Turn Id)

def step (d : DisplayLoop Id) : Action Id → Option (DisplayLoop Id)
  | .cancel => if d.running then some d.stop else none
  | .turn t => if d.running then some (d.turn t) else none

end DisplayLoop

/-! ## The terminal -/

/-- An image on display: its number and its cells. -/
structure Placement where
  id : ℕ
  col : ℕ
  row : ℕ
  cols : ℕ
  rows : ℕ
  deriving DecidableEq, Repr

/--
The images that a terminal stores, by their numbers, and those on display, as the protocol has
them.
-/
structure Screen where
  images : List (ℕ × RgbFrame) := []
  placements : List Placement := []
  deriving DecidableEq, Repr

namespace Screen

variable (s : Screen)

/-- An image goes with all its placements. -/
def delete (id : ℕ) : Screen :=
  { images := s.images.filter (·.1 ≠ id), placements := s.placements.filter (·.id ≠ id) }

/--
Transmission under a number in use deletes the old image; clearing the screen takes all images
from display.
-/
def receive : Write → Screen
  | .clearScreen => { s with placements := [] }
  | .deleteImage id => s.delete id
  | .transmitImage id frame => { s.delete id with images := (s.delete id).images ++ [(id, frame)] }
  | .displayImageAt id col row cols rows =>
    if s.images.any (·.1 = id) then
      { s with placements := s.placements ++ [⟨id, col, row, cols, rows⟩] }
    else s
  | _ => s

/-- The screen after all that was written. -/
def after (written : List Write) : Screen := written.foldl receive {}

end Screen

end Meshconf.Terminal
