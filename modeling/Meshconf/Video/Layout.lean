import Meshconf.Raster.Grid
import Meshconf.Transition.Run
import Meshconf.Video.Compositor

/-! # The layout of a gallery

The compositor's four maps hold what its inputs have last said of each peer. A gallery
shows every peer with a frame in a cell of its own, in the order of the keys, and is
the same whatever order the maps are iterated in.
-/

namespace Meshconf.Video

open History Mesh Raster

variable {Id : Type*} [LinearOrder Id]

/-- What the compositor takes from its two channels. -/
inductive Input (Id : Type*)
  | frame (p : Id) (frame : RgbFrame)
  | command (cmd : CompositorCommand Id)

namespace Compositor

/-- Take an input; a gallery may go to the display. -/
def receive (c : Compositor Id) (drops : ℕ → ℕ) :
    Input Id → Compositor Id × Option (GalleryFrame Id)
  | .frame p frame => c.receiveFrame drops p frame
  | .command cmd => c.receiveCommand drops cmd

/-- What an input changes. -/
def update (c : Compositor Id) : Input Id → Compositor Id
  | .frame p frame => { c with latestFrames := c.latestFrames.insert p frame }
  | .command cmd => c.apply cmd

/-- The compositor after a history of inputs. -/
def after (history : List (Input Id)) : Compositor Id := history.foldl update {}

variable {c : Compositor Id} {drops : ℕ → ℕ}

theorem receive_fst (i : Input Id) : (c.receive drops i).1 = c.update i := by
  cases i with
  | frame p frame => rfl
  | command cmd => exact receiveCommand_fst

end Compositor

/-! ## What a history says of a peer -/

namespace Input

def removes (p : Id) : Input Id → Bool
  | .command (.removePeer q) => q = p
  | _ => false

/-- The value that an input gives to `p`, if it removes `p` none. -/
def sets {V : Type*} (value : Id → Input Id → Option V) (p : Id) (i : Input Id) :
    Option (Option V) :=
  if i.removes p then some none else (value p i).map some

def frameFor (p : Id) : Input Id → Option RgbFrame
  | .frame q f => if q = p then some f else none
  | _ => none

def nameFor (p : Id) : Input Id → Option String
  | .command (.setPeerName q name) => if q = p then some name else none
  | _ => none

def kindFor (p : Id) : Input Id → Option ConnectionKind
  | .command (.setConnectionKind q kind) => if q = p then some kind else none
  | _ => none

def counterFor (p : Id) : Input Id → Option ℕ
  | .command (.setVideoDropCounter q session) => if q = p then some session else none
  | _ => none

end Input

open Input

/-- The last value for `p` since its last removal. -/
def lastFor {V : Type*} (value : Id → Input Id → Option V) (history : List (Input Id)) (p : Id) :
    Option V := held (sets value p) history

section Lookup

variable {V : Type*} {value : Id → Input Id → Option V} {m : AList fun _ : Id => V} {i : Input Id}
  {p q : Id} {v : V}

theorem lookup_insert_eq (hrem : i.removes p = false)
    (hval : value p i = if q = p then some v else none) :
    (m.insert q v).lookup p = (sets value p i).getD (m.lookup p) := by
  unfold sets
  rw [hrem, hval, if_neg Bool.false_ne_true]
  by_cases hq : q = p
  · subst hq
    simp
  · simp [hq, AList.lookup_insert_ne (Ne.symm hq)]

theorem lookup_erase_eq (hrem : i.removes p = decide (q = p)) (hval : value p i = none) :
    (m.erase q).lookup p = (sets value p i).getD (m.lookup p) := by
  unfold sets
  rw [hrem, hval]
  by_cases hq : q = p
  · subst hq
    simp
  · simp [hq, AList.lookup_erase_ne (Ne.symm hq)]

theorem lookup_same_eq (hrem : i.removes p = false) (hval : value p i = none) :
    m.lookup p = (sets value p i).getD (m.lookup p) := by
  simp [sets, hrem, hval]

end Lookup

namespace Compositor

variable {c c' : Compositor Id} {drops drops' : ℕ → ℕ} {p : Id}
  {history history' : List (Input Id)}

theorem latestFrames_update (c : Compositor Id) (i : Input Id) :
    (c.update i).latestFrames.lookup p = (sets frameFor p i).getD (c.latestFrames.lookup p) := by
  cases i with
  | frame q f => exact lookup_insert_eq rfl rfl
  | command cmd =>
    cases cmd with
    | removePeer q => exact lookup_erase_eq rfl rfl
    | _ => exact lookup_same_eq rfl rfl

theorem peerNames_update (c : Compositor Id) (i : Input Id) :
    (c.update i).peerNames.lookup p = (sets nameFor p i).getD (c.peerNames.lookup p) := by
  cases i with
  | frame q f => exact lookup_same_eq rfl rfl
  | command cmd =>
    cases cmd with
    | removePeer q => exact lookup_erase_eq rfl rfl
    | setPeerName q name => exact lookup_insert_eq rfl rfl
    | _ => exact lookup_same_eq rfl rfl

theorem peerConnKinds_update (c : Compositor Id) (i : Input Id) :
    (c.update i).peerConnKinds.lookup p = (sets kindFor p i).getD (c.peerConnKinds.lookup p) := by
  cases i with
  | frame q f => exact lookup_same_eq rfl rfl
  | command cmd =>
    cases cmd with
    | removePeer q => exact lookup_erase_eq rfl rfl
    | setConnectionKind q kind => exact lookup_insert_eq rfl rfl
    | _ => exact lookup_same_eq rfl rfl

theorem peerDropCounters_update (c : Compositor Id) (i : Input Id) :
    (c.update i).peerDropCounters.lookup p =
      (sets counterFor p i).getD (c.peerDropCounters.lookup p) := by
  cases i with
  | frame q f => exact lookup_same_eq rfl rfl
  | command cmd =>
    cases cmd with
    | removePeer q => exact lookup_erase_eq rfl rfl
    | setVideoDropCounter q session => exact lookup_insert_eq rfl rfl
    | _ => exact lookup_same_eq rfl rfl

/-! ## The maps hold the last values -/

@[simp] theorem latestFrames_after :
    (after history).latestFrames.lookup p = lastFor frameFor history p :=
  held_foldl (fun c : Compositor Id => c.latestFrames.lookup p) latestFrames_update rfl history

@[simp] theorem peerNames_after :
    (after history).peerNames.lookup p = lastFor nameFor history p :=
  held_foldl (fun c : Compositor Id => c.peerNames.lookup p) peerNames_update rfl history

@[simp] theorem peerConnKinds_after :
    (after history).peerConnKinds.lookup p = lastFor kindFor history p :=
  held_foldl (fun c : Compositor Id => c.peerConnKinds.lookup p) peerConnKinds_update rfl history

@[simp] theorem peerDropCounters_after :
    (after history).peerDropCounters.lookup p = lastFor counterFor history p :=
  held_foldl (fun c : Compositor Id => c.peerDropCounters.lookup p) peerDropCounters_update rfl
    history

/-! ## The order of the keys -/

theorem sortedFrames_perm : c.sortedFrames.Perm c.latestFrames.entries :=
  List.mergeSort_perm _ _

theorem pairwise_sortedFrames : c.sortedFrames.Pairwise fun e e' => e.1 < e'.1 := by
  have hle : c.sortedFrames.Pairwise fun e e' => decide (e.1 ≤ e'.1) := by
    refine List.pairwise_mergeSort ?_ ?_ _
    · intro a b d hab hbd
      exact decide_eq_true (le_trans (of_decide_eq_true hab) (of_decide_eq_true hbd))
    · intro a b
      simpa using le_total a.1 b.1
  have hne : c.sortedFrames.Pairwise fun e e' => e.1 ≠ e'.1 := by
    have hnodup := (sortedFrames_perm.map Sigma.fst).nodup_iff.mpr c.latestFrames.nodupKeys
    exact List.pairwise_map.mp hnodup
  exact (hle.and hne).imp fun h => lt_of_le_of_ne (of_decide_eq_true h.1) h.2

/-- Sorting forgets the order in which a map is iterated. -/
theorem sortedFrames_congr (h : ∀ p, c.latestFrames.lookup p = c'.latestFrames.lookup p) :
    c.sortedFrames = c'.sortedFrames := by
  have hperm : c.latestFrames.entries.Perm c'.latestFrames.entries := by
    refine List.lookup_ext c.latestFrames.nodupKeys c'.latestFrames.nodupKeys fun p f => ?_
    have hp : c.latestFrames.entries.dlookup p = c'.latestFrames.entries.dlookup p := h p
    rw [hp]
  refine List.Perm.eq_of_pairwise ?_ pairwise_sortedFrames pairwise_sortedFrames
    (sortedFrames_perm.trans (hperm.trans sortedFrames_perm.symm))
  intro e e' _ _ hlt hgt
  exact (lt_asymm hlt hgt).elim

/-- A gallery depends on what the maps hold for each peer with a frame. -/
theorem buildGallery_congr (hframes : ∀ p, c.latestFrames.lookup p = c'.latestFrames.lookup p)
    (hnames : ∀ p, c.peerNames.lookup p = c'.peerNames.lookup p)
    (hkinds : ∀ p, c.peerConnKinds.lookup p = c'.peerConnKinds.lookup p)
    (hdrops : ∀ p ∈ c.latestFrames, ((c.peerDropCounters.lookup p).map drops).getD 0 =
      ((c'.peerDropCounters.lookup p).map drops').getD 0) :
    c.buildGallery drops = c'.buildGallery drops' := by
  have hsorted := sortedFrames_congr hframes
  have hlen : c.latestFrames.entries.length = c'.latestFrames.entries.length := by
    rw [← sortedFrames_perm.length_eq, hsorted, sortedFrames_perm.length_eq]
  have htile : ∀ cols, ∀ e ∈ c.sortedFrames.zipIdx,
      c.tile drops cols e.1 e.2 = c'.tile drops' cols e.1 e.2 := by
    intro cols e he
    have hmem : e.1.1 ∈ c.latestFrames :=
      AList.mem_keys.mpr (List.mem_map_of_mem (sortedFrames_perm.mem_iff.mp
        (List.fst_mem_of_mem_zipIdx he)))
    simp only [tile, hnames, hkinds, hdrops _ hmem]
  rw [hsorted] at htile
  simp only [buildGallery, hlen, hsorted, List.map_congr_left (htile _)]

/-- The same maps, iterated in another order. -/
structure Reordered (c c' : Compositor Id) : Prop where
  frames : c'.latestFrames.entries.Perm c.latestFrames.entries
  names : c'.peerNames.entries.Perm c.peerNames.entries
  kinds : c'.peerConnKinds.entries.Perm c.peerConnKinds.entries
  counters : c'.peerDropCounters.entries.Perm c.peerDropCounters.entries

theorem Reordered.refl (c : Compositor Id) : Reordered c c where
  frames := .refl _
  names := .refl _
  kinds := .refl _
  counters := .refl _

/-- Two histories that say the same of every peer show the same gallery. -/
theorem buildGallery_eq (hc : Reordered (after history) c) (hc' : Reordered (after history') c')
    (hframes : lastFor frameFor history = lastFor frameFor history')
    (hnames : lastFor nameFor history = lastFor nameFor history')
    (hkinds : lastFor kindFor history = lastFor kindFor history')
    (hdrops : ∀ p, (lastFor counterFor history p).map drops =
      (lastFor counterFor history' p).map drops') :
    c.buildGallery drops = c'.buildGallery drops' := by
  refine buildGallery_congr ?_ ?_ ?_ ?_
  · intro p
    rw [AList.perm_lookup hc.frames, AList.perm_lookup hc'.frames, latestFrames_after,
      latestFrames_after, hframes]
  · intro p
    rw [AList.perm_lookup hc.names, AList.perm_lookup hc'.names, peerNames_after, peerNames_after,
      hnames]
  · intro p
    rw [AList.perm_lookup hc.kinds, AList.perm_lookup hc'.kinds, peerConnKinds_after,
      peerConnKinds_after, hkinds]
  · intro p _
    rw [AList.perm_lookup hc.counters, AList.perm_lookup hc'.counters, peerDropCounters_after,
      peerDropCounters_after, hdrops]

/-! ## The cells of the tiles -/

theorem galleryCols_eq (n : ℕ) : galleryCols n = sqrtUp n := rfl

theorem galleryRows_eq (n cols : ℕ) : galleryRows n cols = rowsFor n cols := rfl

/-- The tiles stand in the order of the keys. -/
structure IsGallery (c : Compositor Id) (drops : ℕ → ℕ) (g : GalleryFrame Id) : Prop where
  length_pos : 0 < g.tiles.length
  tiles : ∀ i, g.tiles[i]? = c.sortedFrames[i]?.map fun e => c.tile drops g.cols e i
  cols : g.cols = sqrtUp g.tiles.length
  rows : g.rows = rowsFor g.tiles.length g.cols

theorem isGallery {g : GalleryFrame Id} (h : c.buildGallery drops = some g) :
    c.IsGallery drops g := by
  simp only [buildGallery] at h
  split_ifs at h with hn
  obtain rfl := Option.some.inj h
  have hlen : (c.sortedFrames.zipIdx.map fun e =>
      c.tile drops (galleryCols c.latestFrames.entries.length) e.1 e.2).length =
      c.latestFrames.entries.length := by
    rw [List.length_map, List.length_zipIdx, sortedFrames_perm.length_eq]
  refine ⟨?_, ?_, ?_, ?_⟩
  · rw [hlen]
    exact Nat.pos_of_ne_zero hn
  · intro i
    simp [List.getElem?_zipIdx, Option.map_map, Function.comp_def]
  · rw [hlen]
    exact galleryCols_eq _
  · rw [hlen]
    exact galleryRows_eq _ _

theorem IsGallery.cols_pos {g : GalleryFrame Id} (hg : c.IsGallery drops g) : 0 < g.cols := by
  rw [hg.cols]
  exact sqrtUp_pos hg.length_pos

/-- A tile and its number. -/
theorem IsGallery.exists_entry {g : GalleryFrame Id} (hg : c.IsGallery drops g)
    {tile : TileFrame Id} (htile : tile ∈ g.tiles) :
    ∃ i < g.tiles.length, ∃ e, e ∈ c.latestFrames.entries ∧ c.sortedFrames[i]? = some e ∧
      tile = c.tile drops g.cols e i := by
  obtain ⟨i, hi⟩ := List.mem_iff_getElem?.mp htile
  have hget := hg.tiles i
  rw [hi] at hget
  obtain ⟨e, he, htile⟩ := Option.map_eq_some_iff.mp hget.symm
  refine ⟨i, (List.getElem?_eq_some_iff.mp hi).1, e, ?_, he, htile.symm⟩
  exact sortedFrames_perm.mem_iff.mp (List.mem_of_getElem? he)

/-- Tiles of different numbers stand in the order of their peers' keys. -/
theorem IsGallery.pairwise {g : GalleryFrame Id} (hg : c.IsGallery drops g)
    {P : TileFrame Id → TileFrame Id → Prop}
    (hP : ∀ i j e e', i < j → e.1 < e'.1 → P (c.tile drops g.cols e i) (c.tile drops g.cols e' j)) :
    g.tiles.Pairwise P := by
  rw [List.pairwise_iff_getElem]
  intro i j hi hj hij
  have hgi := hg.tiles i
  have hgj := hg.tiles j
  rw [List.getElem?_eq_getElem hi] at hgi
  rw [List.getElem?_eq_getElem hj] at hgj
  obtain ⟨e, he, htile⟩ := Option.map_eq_some_iff.mp hgi.symm
  obtain ⟨e', he', htile'⟩ := Option.map_eq_some_iff.mp hgj.symm
  rw [← htile, ← htile']
  obtain ⟨hli, rfl⟩ := List.getElem?_eq_some_iff.mp he
  obtain ⟨hlj, rfl⟩ := List.getElem?_eq_some_iff.mp he'
  exact hP i j _ _ hij (List.pairwise_iff_getElem.mp pairwise_sortedFrames i j hli hlj hij)

end Compositor

/-! ## The layout law -/

/-- A gallery that shows what a history has last said of each peer, in the cells of a grid. -/
structure Arranged (history : List (Input Id)) (drops : ℕ → ℕ) (g : GalleryFrame Id) : Prop where
  frame : ∀ tile ∈ g.tiles, lastFor frameFor history tile.peerId = some tile.frame
  name : ∀ tile ∈ g.tiles, tile.name = (lastFor nameFor history tile.peerId).getD ""
  connKind : ∀ tile ∈ g.tiles, tile.connKind = (lastFor kindFor history tile.peerId).getD .unknown
  videoDrops : ∀ tile ∈ g.tiles,
    tile.videoDrops = ((lastFor counterFor history tile.peerId).map drops).getD 0
  existsUnique_tile : ∀ p, (lastFor frameFor history p).isSome →
    ∃! tile, tile ∈ g.tiles ∧ tile.peerId = p
  sorted : g.tiles.Pairwise fun t t' => t.peerId < t'.peerId
  distinct : g.tiles.Pairwise fun t t' => (t.gridCol, t.gridRow) ≠ (t'.gridCol, t'.gridRow)
  inside : ∀ tile ∈ g.tiles, tile.gridCol < g.cols ∧ tile.gridRow < g.rows
  cols : (g.cols - 1) * (g.cols - 1) < g.tiles.length ∧ g.tiles.length ≤ g.cols * g.cols
  rows : ∀ r < g.rows, ∃ tile ∈ g.tiles, tile.gridRow = r

namespace Compositor

variable {c c' : Compositor Id} {drops drops' : ℕ → ℕ} {history history' : List (Input Id)}
  {g : GalleryFrame Id}

theorem IsGallery.inside (hg : c.IsGallery drops g) {tile : TileFrame Id} (htile : tile ∈ g.tiles) :
    tile.gridCol < g.cols ∧ tile.gridRow < g.rows := by
  obtain ⟨i, hi, e, -, -, rfl⟩ := hg.exists_entry htile
  refine ⟨cell_col_lt hg.cols_pos i, ?_⟩
  rw [hg.rows]
  exact cell_row_lt hg.cols_pos hi

theorem IsGallery.exists_row (hg : c.IsGallery drops g) {r : ℕ} (hr : r < g.rows) :
    ∃ tile ∈ g.tiles, tile.gridRow = r := by
  rw [hg.rows] at hr
  obtain ⟨i, hi, hrow⟩ := exists_cell_row hg.cols_pos hr
  have hget := hg.tiles i
  rw [List.getElem?_eq_getElem hi] at hget
  obtain ⟨e, -, htile⟩ := Option.map_eq_some_iff.mp hget.symm
  refine ⟨g.tiles[i], List.getElem_mem hi, ?_⟩
  rw [← htile]
  exact hrow

theorem IsGallery.distinct (hg : c.IsGallery drops g) :
    g.tiles.Pairwise fun t t' => (t.gridCol, t.gridRow) ≠ (t'.gridCol, t'.gridRow) := by
  refine hg.pairwise fun i j e e' hij _ heq => ?_
  exact hij.ne (cell_injective g.cols heq)

theorem IsGallery.rowMajor (hg : c.IsGallery drops g) : g.tiles.Pairwise fun t t' =>
    t.gridRow < t'.gridRow ∨ t.gridRow = t'.gridRow ∧ t.gridCol < t'.gridCol :=
  hg.pairwise fun _ _ _ _ hij _ => cell_lt hij

theorem IsGallery.sorted (hg : c.IsGallery drops g) :
    g.tiles.Pairwise fun t t' => t.peerId < t'.peerId :=
  hg.pairwise fun _ _ _ _ _ hlt => hlt

/-- Two tiles of one peer are the same tile. -/
theorem IsGallery.eq_of_peerId (hg : c.IsGallery drops g) {t t' : TileFrame Id} (ht : t ∈ g.tiles)
    (ht' : t' ∈ g.tiles) (hp : t.peerId = t'.peerId) : t = t' := by
  have hnodup : (g.tiles.map TileFrame.peerId).Nodup :=
    List.pairwise_map.mpr (hg.sorted.imp fun h => h.ne)
  exact List.inj_on_of_nodup_map hnodup ht ht' hp

theorem IsGallery.frame (hg : c.IsGallery drops g) {tile : TileFrame Id} (htile : tile ∈ g.tiles) :
    c.latestFrames.lookup tile.peerId = some tile.frame := by
  obtain ⟨i, -, e, he, -, rfl⟩ := hg.exists_entry htile
  exact AList.mem_lookup_iff.mpr he

theorem IsGallery.fields (hg : c.IsGallery drops g) {tile : TileFrame Id} (htile : tile ∈ g.tiles) :
    tile.name = (c.peerNames.lookup tile.peerId).getD "" ∧
      tile.connKind = (c.peerConnKinds.lookup tile.peerId).getD .unknown ∧
      tile.videoDrops = ((c.peerDropCounters.lookup tile.peerId).map drops).getD 0 := by
  obtain ⟨i, -, e, -, -, rfl⟩ := hg.exists_entry htile
  exact ⟨rfl, rfl, rfl⟩

theorem IsGallery.arranged (hg : (after history).IsGallery drops g) : Arranged history drops g where
  frame tile htile := by rw [← latestFrames_after, hg.frame htile]
  name tile htile := by rw [← peerNames_after, (hg.fields htile).1]
  connKind tile htile := by rw [← peerConnKinds_after, (hg.fields htile).2.1]
  videoDrops tile htile := by rw [← peerDropCounters_after, (hg.fields htile).2.2]
  existsUnique_tile p hp := by
    rw [← latestFrames_after] at hp
    obtain ⟨e, he, rfl⟩ := List.mem_map.mp (AList.mem_keys.mp (AList.lookup_isSome.mp hp))
    obtain ⟨i, hi⟩ := List.mem_iff_getElem?.mp (sortedFrames_perm.mem_iff.mpr he)
    have hget := hg.tiles i
    rw [hi] at hget
    refine ⟨_, ⟨List.mem_of_getElem? hget, rfl⟩, ?_⟩
    rintro t ⟨ht, htp⟩
    exact hg.eq_of_peerId ht (List.mem_of_getElem? hget) htp
  sorted := hg.sorted
  distinct := hg.distinct
  inside tile htile := hg.inside htile
  cols := by
    rw [hg.cols]
    exact ⟨pred_sqrtUp_sq_lt hg.length_pos, le_sqrtUp_sq _⟩
  rows r hr := hg.exists_row hr

/--
Once some peer has a frame, a gallery is built that shows the last values of all such peers, each
in a cell of its own. Neither the order in which the maps are iterated nor anything else of the
history matters to it.
-/
theorem buildGallery_arranged (hframe : ∃ p, (lastFor frameFor history p).isSome)
    (hc : Reordered (after history) c) :
    ∃ g, c.buildGallery drops = some g ∧ Arranged history drops g ∧
      ∀ history' drops' c', Reordered (after history') c' →
        lastFor frameFor history = lastFor frameFor history' →
        lastFor nameFor history = lastFor nameFor history' →
        lastFor kindFor history = lastFor kindFor history' →
        (∀ p, (lastFor counterFor history p).map drops =
          (lastFor counterFor history' p).map drops') →
        c'.buildGallery drops' = some g := by
  obtain ⟨p, hp⟩ := hframe
  rw [← latestFrames_after] at hp
  obtain ⟨g, hg, -⟩ : ∃ g, (after history).buildGallery drops = some g ∧
      ∃ tile ∈ g.tiles, tile.peerId = p := exists_tile (AList.lookup_isSome.mp hp)
  have hcg : c.buildGallery drops = some g := by
    rw [← hg]
    exact buildGallery_eq hc (.refl _) rfl rfl rfl fun _ => rfl
  refine ⟨g, hcg, (isGallery hg).arranged, ?_⟩
  intro history' drops' c' hc' hframes hnames hkinds hdrops
  rw [← hcg]
  exact (buildGallery_eq hc hc' hframes hnames hkinds hdrops).symm

/-- Peer 1 is removed and comes again; the maps are built in the order of the messages. -/
def rejoin : List (Input ℕ) :=
  [.frame 2 ⟨0, 0, 1, 1, [0]⟩, .command (.setPeerName 1 "old"), .frame 1 ⟨0, 0, 1, 1, [1]⟩,
    .command (.removePeer 1), .frame 1 ⟨1, 0, 1, 1, [2]⟩]

theorem buildGallery_arranged_rejoin : ∃ g, (after rejoin).buildGallery (fun _ => 0) = some g ∧
    Arranged rejoin (fun _ => 0) g := by
  have hframe : ∃ p, (lastFor frameFor rejoin p).isSome := ⟨1, by decide⟩
  obtain ⟨g, hg, harr, -⟩ := buildGallery_arranged hframe (.refl (after rejoin))
  exact ⟨g, hg, harr⟩

end Compositor

end Meshconf.Video
