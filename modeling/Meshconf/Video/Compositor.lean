import Mathlib.Data.List.Sort
import Mathlib.Data.Nat.Sqrt
import Meshconf.Mesh.Room
import Meshconf.Video.Decoder

/-! # The compositor

The compositor keeps the latest frame of every participant, with the names, connection
kinds and drop counters that the room has told it, and arranges the frames in a grid.
-/

namespace Meshconf.Video

open Mesh

structure TileFrame (Id : Type*) where
  peerId : Id
  frame : RgbFrame
  gridCol : ℕ
  gridRow : ℕ
  name : String
  connKind : ConnectionKind
  videoDrops : ℕ
  deriving DecidableEq, Repr

structure GalleryFrame (Id : Type*) where
  tiles : List (TileFrame Id)
  cols : ℕ
  rows : ℕ
  deriving DecidableEq, Repr

/-- The smallest number whose square is at least `n`. -/
def galleryCols (n : ℕ) : ℕ := if n.sqrt * n.sqrt = n then n.sqrt else n.sqrt + 1

/-- The number of rows that `n` tiles fill. -/
def galleryRows (n cols : ℕ) : ℕ := (n + cols - 1) / cols

variable {Id : Type*} [LinearOrder Id]

structure Compositor (Id : Type*) [LinearOrder Id] where
  latestFrames : AList fun _ : Id => RgbFrame := ∅
  peerNames : AList fun _ : Id => String := ∅
  peerConnKinds : AList fun _ : Id => ConnectionKind := ∅
  peerDropCounters : AList fun _ : Id => ℕ := ∅

namespace Compositor

/-- The frames in the order of their peers' keys. -/
def sortedFrames (c : Compositor Id) : List ((_ : Id) × RgbFrame) :=
  c.latestFrames.entries.mergeSort fun e e' => e.1 ≤ e'.1

/-- The tile at position `i`. The drop counter of a session reads `drops`. -/
def tile (c : Compositor Id) (drops : ℕ → ℕ) (cols : ℕ) (e : (_ : Id) × RgbFrame) (i : ℕ) :
    TileFrame Id where
  peerId := e.1
  frame := e.2
  gridCol := i % cols
  gridRow := i / cols
  name := (c.peerNames.lookup e.1).getD ""
  connKind := (c.peerConnKinds.lookup e.1).getD .unknown
  videoDrops := ((c.peerDropCounters.lookup e.1).map drops).getD 0

def buildGallery (c : Compositor Id) (drops : ℕ → ℕ) : Option (GalleryFrame Id) :=
  let n := c.latestFrames.entries.length
  let cols := galleryCols n
  if n = 0 then none
  else some
    { tiles := c.sortedFrames.zipIdx.map fun e => c.tile drops cols e.1 e.2
      cols
      rows := galleryRows n cols }

/-- A frame of `p` has come; the gallery goes to the display. -/
def receiveFrame (c : Compositor Id) (drops : ℕ → ℕ) (p : Id) (frame : RgbFrame) :
    Compositor Id × Option (GalleryFrame Id) :=
  let c := { c with latestFrames := c.latestFrames.insert p frame }
  (c, c.buildGallery drops)

/-- What a command changes. -/
def apply (c : Compositor Id) : CompositorCommand Id → Compositor Id
  | .removePeer p => {
      latestFrames := c.latestFrames.erase p
      peerNames := c.peerNames.erase p
      peerConnKinds := c.peerConnKinds.erase p
      peerDropCounters := c.peerDropCounters.erase p }
  | .setPeerName p name => { c with peerNames := c.peerNames.insert p name }
  | .setConnectionKind p kind => { c with peerConnKinds := c.peerConnKinds.insert p kind }
  | .setVideoDropCounter p session =>
    { c with peerDropCounters := c.peerDropCounters.insert p session }

/-- Carry out a command; the gallery goes to the display. -/
def receiveCommand (c : Compositor Id) (drops : ℕ → ℕ) (cmd : CompositorCommand Id) :
    Compositor Id × Option (GalleryFrame Id) :=
  let c := c.apply cmd
  match cmd with
  | .removePeer _ => (c, some ((c.buildGallery drops).getD { tiles := [], cols := 0, rows := 0 }))
  | .setPeerName .. => (c, c.buildGallery drops)
  | .setConnectionKind .. => (c, c.buildGallery drops)
  | .setVideoDropCounter .. => (c, none)

variable {c : Compositor Id} {drops : ℕ → ℕ}

theorem receiveCommand_fst {cmd : CompositorCommand Id} :
    (c.receiveCommand drops cmd).1 = c.apply cmd := by
  cases cmd <;> rfl

/-- Commands bring no frames. -/
theorem mem_of_apply {cmd : CompositorCommand Id} {p : Id} (h : p ∈ (c.apply cmd).latestFrames) :
    p ∈ c.latestFrames := by
  cases cmd with
  | removePeer q => exact (AList.mem_erase.mp h).2
  | _ => exact h

theorem map_fst_zipIdx : c.sortedFrames.zipIdx.map Prod.fst = c.sortedFrames :=
  List.zipIdx_map_fst 0 _

/-- Every tile shows the latest frame of a peer. -/
theorem mem_of_buildGallery {g : GalleryFrame Id} (h : c.buildGallery drops = some g)
    {tile : TileFrame Id} (htile : tile ∈ g.tiles) : tile.peerId ∈ c.latestFrames := by
  simp only [buildGallery] at h
  split_ifs at h
  obtain rfl := Option.some.inj h
  obtain ⟨e, he, rfl⟩ := List.mem_map.mp htile
  have hsorted : e.1 ∈ c.sortedFrames := by
    rw [← map_fst_zipIdx]
    exact List.mem_map_of_mem he
  have hentry : e.1 ∈ c.latestFrames.entries := List.mem_mergeSort.mp hsorted
  exact AList.mem_keys.mpr (List.mem_map_of_mem hentry)

/-- Every peer with a frame has a tile. -/
theorem exists_tile {p : Id} (hp : p ∈ c.latestFrames) :
    ∃ g, c.buildGallery drops = some g ∧ ∃ tile ∈ g.tiles, tile.peerId = p := by
  obtain ⟨e, he, rfl⟩ := List.mem_map.mp (AList.mem_keys.mp hp)
  have hsorted : e ∈ c.sortedFrames.zipIdx.map Prod.fst := by
    rw [map_fst_zipIdx]
    exact List.mem_mergeSort.mpr he
  obtain ⟨x, hx, rfl⟩ := List.mem_map.mp hsorted
  have hne : c.latestFrames.entries.length ≠ 0 := (List.length_pos_of_mem he).ne'
  simp only [buildGallery, if_neg hne]
  exact ⟨_, rfl, _, List.mem_map_of_mem hx, rfl⟩

end Compositor

end Meshconf.Video
