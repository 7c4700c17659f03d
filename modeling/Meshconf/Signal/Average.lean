import Mathlib.Algebra.BigOperators.Ring.Finset
import Mathlib.Algebra.Order.Field.Basic
import Mathlib.Algebra.Order.Ring.Nat
import Mathlib.Tactic.Linarith
import Mathlib.Tactic.Ring

/-! # Exponentially weighted averages

The average with weight `a` starts at the first sample and moves by the fraction `a`
towards each later one. The definition gives the weight of every sample; the filter
that is usually computed is its recursion.
-/

namespace Signal

open Finset

variable {K : Type*} [Field K] {a : K} {x y : ℕ → K} {n : ℕ}

/-- The average of the samples `0, …, n` with weight `a`. -/
def average (a : K) (x : ℕ → K) (n : ℕ) : K :=
  (1 - a) ^ n * x 0 + ∑ i ∈ range n, a * (1 - a) ^ (n - 1 - i) * x (i + 1)

@[simp] theorem average_zero : average a x 0 = x 0 := by
  simp [average]

theorem average_succ : average a x (n + 1) = average a x n * (1 - a) + x (n + 1) * a := by
  have hsum : ∑ i ∈ range n, a * (1 - a) ^ (n - i) * x (i + 1) =
      (∑ i ∈ range n, a * (1 - a) ^ (n - 1 - i) * x (i + 1)) * (1 - a) := by
    rw [sum_mul]
    apply sum_congr rfl
    intro i hi
    have hlt := mem_range.mp hi
    have hexp : n - i = n - 1 - i + 1 := by omega
    rw [hexp]
    ring
  simp only [average, sum_range_succ, Nat.add_sub_cancel, Nat.sub_self, pow_zero, pow_succ]
  rw [hsum]
  ring

theorem average_congr (h : ∀ i ≤ n, x i = y i) : average a x n = average a y n := by
  induction n with
  | zero => simpa using h 0 le_rfl
  | succ n ih =>
    rw [average_succ, average_succ, ih fun i hi => h i (by omega), h (n + 1) le_rfl]

section Bounds

variable [LinearOrder K] [IsStrictOrderedRing K] {m : K}

theorem average_le (h₀ : 0 ≤ a) (h₁ : a ≤ 1) (h : ∀ i ≤ n, x i ≤ m) : average a x n ≤ m := by
  induction n with
  | zero => simpa using h 0 le_rfl
  | succ n ih =>
    have hold := mul_le_mul_of_nonneg_right (ih fun i hi => h i (by omega)) (sub_nonneg.mpr h₁)
    have hnew := mul_le_mul_of_nonneg_right (h (n + 1) le_rfl) h₀
    rw [average_succ]
    linarith

theorem le_average (h₀ : 0 ≤ a) (h₁ : a ≤ 1) (h : ∀ i ≤ n, m ≤ x i) : m ≤ average a x n := by
  induction n with
  | zero => simpa using h 0 le_rfl
  | succ n ih =>
    have hold := mul_le_mul_of_nonneg_right (ih fun i hi => h i (by omega)) (sub_nonneg.mpr h₁)
    have hnew := mul_le_mul_of_nonneg_right (h (n + 1) le_rfl) h₀
    rw [average_succ]
    linarith

end Bounds

end Signal
