import Mathlib.Data.List.Basic
import Mathlib.Tactic.Common

/-! # Progress of a timer

A device does something whenever its timer has run out, and the timer then runs anew. If
it is looked at often enough, a stretch of time bounds from below how often it has acted.
-/

namespace Signal

section Progress

variable {σ α : Type*} (step : σ → α → σ) (clock : ℕ → α → ℕ) (due : σ → ℕ) (d g : ℕ)

/--
One look at the device: its timer still runs or no time has passed, or it acts within `g` and its
timer then runs for `d`.
-/
inductive Look (P : ℕ → σ → Prop) (now : ℕ) (s : σ) (a : α) : Prop where
  | waits : clock now a < due s ∨ clock now a = now → due (step s a) ≤ due s →
      (∀ n, P n s → P n (step s a)) → Look P now s a
  | acts (finish : ℕ) : finish ≤ now + g → clock now a ≤ finish → due (step s a) ≤ finish + d →
      (∀ n, P n s → P (n + 1) (step s a)) → Look P now s a

variable {step clock due d g} {P : ℕ → σ → Prop} {Good : ℕ → σ → List α → Prop}

/-- What has been reached is not lost. -/
theorem reached_foldl (hmono : ∀ n s, P (n + 1) s → P n s)
    (hlook : ∀ now s a as, Good now s (a :: as) →
      Look step clock due d g P now s a ∧ Good (clock now a) (step s a) as)
    {now : ℕ} {s : σ} {as : List α} (hgood : Good now s as) {n : ℕ} (hn : P n s) :
    P n (as.foldl step s) := by
  induction as generalizing now s with
  | nil => exact hn
  | cons a as ih =>
    obtain ⟨hstep, hrest⟩ := hlook now s a as hgood
    apply ih hrest
    cases hstep with
    | waits _ _ hkeep => exact hkeep n hn
    | acts _ _ _ _ hnext => exact hmono n _ (hnext n hn)

/-- By induction on the looks: each leaves the deadline alone or moves it by one period at most. -/
theorem progress (hmono : ∀ n s, P (n + 1) s → P n s)
    (hlook : ∀ now s a as, Good now s (a :: as) →
      Look step clock due d g P now s a ∧ Good (clock now a) (step s a) as)
    {now : ℕ} {s : σ} {as : List α} (hgood : Good now s as) {n k : ℕ} (hn : P n s) (hg : 0 < g)
    (hend : max now (due s) + g + k * (d + g) ≤ as.foldl clock now) :
    P (n + k + 1) (as.foldl step s) := by
  induction as generalizing now s n k with
  | nil =>
    rw [List.foldl_nil] at hend
    omega
  | cons a as ih =>
    obtain ⟨hstep, hrest⟩ := hlook now s a as hgood
    rw [List.foldl_cons] at hend
    cases hstep with
    | waits hwait hdue hkeep =>
      refine ih hrest (hkeep n hn) (Nat.le_trans ?_ hend)
      omega
    | acts finish hfinish hclock hdue hnext =>
      cases k with
      | zero => exact reached_foldl hmono hlook hrest (hnext n hn)
      | succ k =>
        have hnow := ih hrest (hnext n hn) (k := k) (Nat.le_trans ?_ hend)
        · rwa [Nat.add_right_comm n 1 k] at hnow
        · rw [Nat.succ_mul]
          omega

end Progress

end Signal
