import Mathlib.Data.Set.Lattice
import Mathlib.Order.CompletePartialOrder
import Mathlib.Tactic.Common
import Mathlib.Tactic.Ring

/-! # Row-major buffers

A picture `w` pixels wide is a list of its rows, one after the other. Slices are copied
only where both sides have them; copying a rectangle row by row changes the pixels of
the rectangle and no others.
-/

namespace Raster

variable {α : Type*} {w h x y x' y' x₀ y₀ n : ℕ}

/-- A rectangle of pixels, by its upper left corner and its size. -/
structure Rect where
  x : ℕ
  y : ℕ
  w : ℕ
  h : ℕ
  deriving DecidableEq, Repr

namespace Rect

def pixels (r : Rect) : Set (ℕ × ℕ) :=
  {p | (r.x ≤ p.1 ∧ p.1 < r.x + r.w) ∧ r.y ≤ p.2 ∧ p.2 < r.y + r.h}

@[simp] theorem mem_pixels {r : Rect} {p : ℕ × ℕ} :
    p ∈ r.pixels ↔ (r.x ≤ p.1 ∧ p.1 < r.x + r.w) ∧ r.y ≤ p.2 ∧ p.2 < r.y + r.h := Iff.rfl

/-- The rectangle lies in a picture of width `w` and height `h`. -/
def Inside (r : Rect) (w h : ℕ) : Prop := r.x + r.w ≤ w ∧ r.y + r.h ≤ h

end Rect

/-! ## Positions in the buffer -/

def index (w x y : ℕ) : ℕ := y * w + x

theorem index_lt (hx : x < w) (hy : y < h) : index w x y < w * h := by
  have hrows : (y + 1) * w ≤ h * w := Nat.mul_le_mul_right w hy
  rw [Nat.succ_mul] at hrows
  unfold index
  rw [Nat.mul_comm w h]
  omega

/-- A part of one row is a range of the buffer. -/
theorem index_mem_row (hx : x < w) (hn : x₀ + n ≤ w) :
    (index w x₀ y₀ ≤ index w x y ∧ index w x y < index w x₀ y₀ + n) ↔
      y = y₀ ∧ x₀ ≤ x ∧ x < x₀ + n := by
  unfold index
  rcases Nat.lt_trichotomy y y₀ with hlt | rfl | hgt
  · have hrows : (y + 1) * w ≤ y₀ * w := Nat.mul_le_mul_right w hlt
    rw [Nat.succ_mul] at hrows
    omega
  · omega
  · have hrows : (y₀ + 1) * w ≤ y * w := Nat.mul_le_mul_right w hgt
    rw [Nat.succ_mul] at hrows
    omega

/-- Different pixels have different positions. -/
theorem index_inj (hx : x < w) (hx' : x' < w) :
    index w x y = index w x' y' ↔ x = x' ∧ y = y' := by
  constructor
  · intro heq
    obtain ⟨hy, hle, hlt⟩ := (index_mem_row (n := 1) hx hx').mp ⟨heq.ge, by omega⟩
    exact ⟨by omega, hy⟩
  · rintro ⟨rfl, rfl⟩
    rfl

/-! ## Single pixels -/

section Single

variable {β : Type*} {pos : β → ℕ} {k : ℕ}

/-- Steps that write at other positions leave an item. -/
theorem getElem?_foldl {f : List α → β → List α}
    (hf : ∀ buf b k, pos b ≠ k → (f buf b)[k]? = buf[k]?) {l : List β}
    (hl : ∀ b ∈ l, pos b ≠ k) (buf : List α) : (l.foldl f buf)[k]? = buf[k]? := by
  induction l generalizing buf with
  | nil => rfl
  | cons b l ih =>
    rw [List.foldl_cons, ih fun c hc => hl c (List.mem_cons_of_mem b hc)]
    exact hf buf b k (hl b List.mem_cons_self)

theorem getElem?_foldlM {f : List α → β → Option (List α)}
    (hf : ∀ buf b k out, f buf b = some out → pos b ≠ k → out[k]? = buf[k]?) {l : List β}
    (hl : ∀ b ∈ l, pos b ≠ k) {buf out : List α} (hout : l.foldlM f buf = some out) :
    out[k]? = buf[k]? := by
  induction l generalizing buf with
  | nil =>
    obtain rfl := Option.some.inj hout
    rfl
  | cons b l ih =>
    rw [List.foldlM_cons] at hout
    obtain ⟨mid, hmid, hout⟩ := Option.bind_eq_some_iff.mp hout
    rw [ih (fun c hc => hl c (List.mem_cons_of_mem b hc)) hout]
    exact hf buf b k mid hmid (hl b List.mem_cons_self)

end Single

/-! ## Copying -/

/-- Copy `n` items of `data` from `src` to `dst`, if both lists have them. -/
def copySlice (buf : List α) (dst : ℕ) (data : List α) (src n : ℕ) : Option (List α) :=
  if dst + n ≤ buf.length ∧ src + n ≤ data.length then
    some (buf.take dst ++ (data.drop src).take n ++ buf.drop (dst + n))
  else none

theorem copySlice_spec {buf data : List α} {dst src : ℕ} (hdst : dst + n ≤ buf.length)
    (hsrc : src + n ≤ data.length) :
    ∃ out, copySlice buf dst data src n = some out ∧ out.length = buf.length ∧
      ∀ k, out[k]? = if dst ≤ k ∧ k < dst + n then data[src + (k - dst)]? else buf[k]? := by
  have htake : (buf.take dst).length = dst := List.length_take_of_le (by omega)
  have hmid : ((data.drop src).take n).length = n := by
    rw [List.length_take, List.length_drop]
    omega
  refine ⟨_, if_pos ⟨hdst, hsrc⟩, ?_, ?_⟩
  · rw [List.length_append, List.length_append, htake, hmid, List.length_drop]
    omega
  · intro k
    rw [List.append_assoc, List.getElem?_append, htake, List.getElem?_append, hmid]
    split_ifs with hlt hin hin hrange hrange
    · omega
    · exact List.getElem?_take_of_lt hlt
    · rw [List.getElem?_take_of_lt hin, List.getElem?_drop]
    · omega
    · omega
    · rw [List.getElem?_drop]
      congr 1
      omega

/-- Copy `rows` rows of `n` pixels to `(x₀, y₀)`. -/
def copyRect (w x₀ y₀ n : ℕ) (data : List α) (rows : ℕ) (buf : List α) : Option (List α) :=
  (List.range rows).foldlM
    (fun buf dy => copySlice buf (index w x₀ (y₀ + dy)) data (dy * n) n) buf

theorem copyRect_succ {data : List α} {rows : ℕ} {buf : List α} :
    copyRect w x₀ y₀ n data (rows + 1) buf = (copyRect w x₀ y₀ n data rows buf).bind
      fun buf => copySlice buf (index w x₀ (y₀ + rows)) data (rows * n) n := by
  simp [copyRect, List.range_succ, List.foldlM_append]

/-- The rectangle holds the copied rows, and nothing else has changed. -/
theorem copyRect_spec {data buf : List α} {rows : ℕ} (hx : x₀ + n ≤ w) (hy : y₀ + rows ≤ h)
    (hbuf : buf.length = w * h) (hdata : rows * n ≤ data.length) :
    ∃ out, copyRect w x₀ y₀ n data rows buf = some out ∧ out.length = w * h ∧
      ∀ x y, x < w → out[index w x y]? =
        if (x₀ ≤ x ∧ x < x₀ + n) ∧ y₀ ≤ y ∧ y < y₀ + rows then
          data[index n (x - x₀) (y - y₀)]?
        else buf[index w x y]? := by
  induction rows with
  | zero =>
    refine ⟨buf, rfl, hbuf, fun x y _ => ?_⟩
    rw [if_neg (by omega)]
  | succ rows ih =>
    rw [Nat.succ_mul] at hdata
    obtain ⟨mid, hmid, hlen, hget⟩ := ih (by omega) (by omega)
    have hfit : index w x₀ (y₀ + rows) + n ≤ mid.length := by
      have hrows : (y₀ + rows + 1) * w ≤ h * w := Nat.mul_le_mul_right w (by omega)
      rw [Nat.succ_mul] at hrows
      unfold index
      rw [hlen, Nat.mul_comm w h]
      omega
    obtain ⟨out, hout, hlen', hget'⟩ := copySlice_spec hfit hdata
    refine ⟨out, ?_, hlen'.trans hlen, fun x y hxw => ?_⟩
    · rw [copyRect_succ, hmid, Option.bind_some, hout]
    · rw [hget']
      have hrow : (index w x₀ (y₀ + rows) ≤ index w x y ∧
          index w x y < index w x₀ (y₀ + rows) + n) ↔ y = y₀ + rows ∧ x₀ ≤ x ∧ x < x₀ + n :=
        index_mem_row hxw hx
      by_cases hnew : y = y₀ + rows ∧ x₀ ≤ x ∧ x < x₀ + n
      · rw [if_pos (hrow.mpr hnew), if_pos (by omega)]
        obtain ⟨rfl, hle, -⟩ := hnew
        unfold index
        congr 1
        have hsub : y₀ + rows - y₀ = rows := by omega
        rw [hsub]
        omega
      · rw [if_neg (mt hrow.mp hnew), hget x y hxw]
        refine if_congr ?_ rfl rfl
        constructor <;> intro hin <;> omega

/-! ## Rectangles in the cells of a grid -/

section Cells

variable {a c c' p gap size n' : ℕ}

/-- Spans of different cells have no common position. -/
theorem span_disjoint (hne : c ≠ c') (hn : n ≤ p) (hn' : n' ≤ p) (hx : a + c * p ≤ x)
    (hxn : x < a + c * p + n) : ¬ (a + c' * p ≤ x ∧ x < a + c' * p + n') := by
  rintro ⟨hx', hxn'⟩
  rcases Nat.lt_or_gt_of_ne hne with hlt | hgt
  · have hstep : (c + 1) * p ≤ c' * p := Nat.mul_le_mul_right p hlt
    rw [Nat.succ_mul] at hstep
    omega
  · have hstep : (c' + 1) * p ≤ c * p := Nat.mul_le_mul_right p hgt
    rw [Nat.succ_mul] at hstep
    omega

/-- The cells and the gaps between them are as long as the row. -/
theorem span_le (hc : c < c') (hn : n ≤ size) :
    c * (size + gap) + n ≤ c' * size + (c' - 1) * gap := by
  obtain ⟨k, rfl⟩ : ∃ k, c' = k + 1 := ⟨c' - 1, by omega⟩
  have hstep : c * (size + gap) ≤ k * (size + gap) := Nat.mul_le_mul_right _ (by omega)
  have hsum : (k + 1) * size + (k + 1 - 1) * gap = k * (size + gap) + size := by
    rw [Nat.add_sub_cancel]
    ring
  omega

/-- The rectangle of size `w` by `h` in the cell `(c, r)`; cells begin every `p` by `q` pixels. -/
def cellRect (a p q : ℕ) (cell : ℕ × ℕ) (w h : ℕ) : Rect := ⟨a + cell.1 * p, a + cell.2 * q, w, h⟩

theorem cellRect_disjoint {q w' h' : ℕ} {cell cell' : ℕ × ℕ} (hne : cell ≠ cell') (hw : w ≤ p)
    (hw' : w' ≤ p) (hh : h ≤ q) (hh' : h' ≤ q) :
    Disjoint (cellRect a p q cell w h).pixels (cellRect a p q cell' w' h').pixels := by
  rw [Set.disjoint_left]
  rintro ⟨i, j⟩ ⟨⟨hi, hi'⟩, hj, hj'⟩ ⟨hx, hy⟩
  by_cases hcol : cell.1 = cell'.1
  · have hrow : cell.2 ≠ cell'.2 := fun heq => hne (Prod.ext hcol heq)
    exact span_disjoint hrow hh hh' hj hj' hy
  · exact span_disjoint hcol hw hw' hi hi' hx

end Cells

end Raster
