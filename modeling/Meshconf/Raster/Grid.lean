import Mathlib.Data.Nat.Sqrt
import Mathlib.Tactic.Common

/-! # Cells of a grid

Items are placed row by row into a grid of `c` columns. Different items have different
cells, and the rows needed for `n` items are all used.
-/

namespace Raster

variable {c i n r : ℕ}

/-- Column and row of the item with number `i`. -/
def cell (c i : ℕ) : ℕ × ℕ := (i % c, i / c)

theorem cell_injective (c : ℕ) : Function.Injective (cell c) := by
  intro i j h
  obtain ⟨hcol, hrow⟩ := Prod.mk.inj h
  rw [← Nat.div_add_mod i c, ← Nat.div_add_mod j c, hcol, hrow]

theorem cell_col_lt (hc : 0 < c) (i : ℕ) : (cell c i).1 < c := Nat.mod_lt i hc

/-- Later items are in later rows, or further to the right. -/
theorem cell_lt {j : ℕ} (hij : i < j) :
    (cell c i).2 < (cell c j).2 ∨ (cell c i).2 = (cell c j).2 ∧ (cell c i).1 < (cell c j).1 := by
  have hle : (cell c i).2 ≤ (cell c j).2 := Nat.div_le_div_right (Nat.le_of_lt hij)
  refine (Nat.lt_or_eq_of_le hle).imp_right fun heq => ⟨heq, ?_⟩
  have hi := Nat.div_add_mod i c
  have hj := Nat.div_add_mod j c
  unfold cell at heq ⊢
  dsimp only at heq ⊢
  rw [heq] at hi
  omega

/-- The rows that `n` items fill: `n / c`, rounded up. -/
def rowsFor (n c : ℕ) : ℕ := (n + c - 1) / c

theorem cell_row_lt (hc : 0 < c) (hi : i < n) : (cell c i).2 < rowsFor n c := by
  have hdiv : (i + c) / c = i / c + 1 := Nat.add_div_right i hc
  have hle : (i + c) / c ≤ rowsFor n c := Nat.div_le_div_right (by omega)
  exact Nat.lt_of_lt_of_le (by rw [hdiv]; exact Nat.lt_succ_self _) hle

/-- No row is empty: it begins with the item of number `c * r`. -/
theorem exists_cell_row (hc : 0 < c) (hr : r < rowsFor n c) : ∃ i < n, (cell c i).2 = r := by
  have hle : (r + 1) * c ≤ n + c - 1 := (Nat.le_div_iff_mul_le hc).mp hr
  refine ⟨c * r, ?_, Nat.mul_div_cancel_left r hc⟩
  rw [Nat.mul_comm c r]
  rw [Nat.succ_mul] at hle
  omega

/-- The square root, rounded up. -/
def sqrtUp (n : ℕ) : ℕ := if n.sqrt * n.sqrt = n then n.sqrt else n.sqrt + 1

theorem le_sqrtUp_sq (n : ℕ) : n ≤ sqrtUp n * sqrtUp n := by
  unfold sqrtUp
  split_ifs with h
  · exact Nat.le_of_eq h.symm
  · exact Nat.le_of_lt (Nat.lt_succ_sqrt n)

theorem sqrtUp_pos (hn : 0 < n) : 0 < sqrtUp n := by
  by_contra hzero
  have hle := le_sqrtUp_sq n
  rw [Nat.eq_zero_of_not_pos hzero] at hle
  omega

/-- It is the smallest number whose square is large enough. -/
theorem pred_sqrtUp_sq_lt (hn : 0 < n) : (sqrtUp n - 1) * (sqrtUp n - 1) < n := by
  have hsqrt := Nat.sqrt_le n
  unfold sqrtUp
  split_ifs with h
  · have hpos : 0 < n.sqrt := Nat.sqrt_pos.mpr hn
    calc (n.sqrt - 1) * (n.sqrt - 1) ≤ (n.sqrt - 1) * n.sqrt :=
          Nat.mul_le_mul_left _ (Nat.sub_le _ _)
      _ < n.sqrt * n.sqrt := Nat.mul_lt_mul_of_pos_right (by omega) hpos
      _ = n := h
  · rw [Nat.add_sub_cancel]
    exact lt_of_le_of_ne hsqrt h

end Raster
