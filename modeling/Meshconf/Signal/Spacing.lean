import Mathlib.Algebra.Order.Field.Basic
import Mathlib.Algebra.Order.Field.Rat
import Mathlib.Tactic.Linarith

/-! # Paced growth

Times that keep a distance are few in a stretch. Where a value is raised only at such
times, and each time by a bounded factor, a stretch bounds how much it grows.
-/

namespace Signal

/-- Times in order, each at least `d` behind the one before it. -/
def Spaced (d : ℕ) (times : List ℕ) : Prop := times.Pairwise fun a b => a + d ≤ b

section Times

variable {d s t : ℕ} {times : List ℕ}

theorem Spaced.cons {a : ℕ} (h : Spaced d times) (hfirst : ∀ b ∈ times, a + d ≤ b) :
    Spaced d (a :: times) := List.pairwise_cons.mpr ⟨hfirst, h⟩

/-- By induction on the times: the next stretch begins `d` behind the first of them. -/
theorem Spaced.add_mul_le (h : Spaced d times) (hne : times ≠ [])
    (hmem : ∀ a ∈ times, s ≤ a ∧ a ≤ t) : s + d * (times.length - 1) ≤ t := by
  induction times generalizing s with
  | nil => exact absurd rfl hne
  | cons a times ih =>
    obtain ⟨hfirst, hrest⟩ := List.pairwise_cons.mp h
    obtain ⟨hs, ha⟩ := hmem a List.mem_cons_self
    cases times with
    | nil =>
      simp only [List.length_singleton, Nat.sub_self, Nat.mul_zero, Nat.add_zero]
      exact hs.trans ha
    | cons b times =>
      have hnext := ih (s := a + d) hrest (List.cons_ne_nil _ _) fun c hc =>
        ⟨hfirst c hc, (hmem c (List.mem_cons_of_mem _ hc)).2⟩
      simp only [List.length_cons, Nat.add_sub_cancel] at hnext ⊢
      rw [Nat.mul_succ]
      omega

theorem Spaced.length_le (h : Spaced d times) (hd : 0 < d)
    (hmem : ∀ a ∈ times, s ≤ a ∧ a ≤ s + t) : times.length ≤ t / d + 1 := by
  by_cases hne : times = []
  · rw [hne]
    exact Nat.zero_le _
  · have hspan := h.add_mul_le hne hmem
    have hle : times.length - 1 ≤ t / d := by
      rw [Nat.le_div_iff_mul_le hd, Nat.mul_comm]
      omega
    omega

end Times

section Growth

variable {σ α : Type*} (step : σ → α → σ) (value : σ → ℚ) (time : α → ℕ)

/-- The times of the actions that raise the value. -/
def raises : σ → List α → List ℕ
  | _, [] => []
  | s, a :: as =>
    if value s < value (step s a) then time a :: raises (step s a) as else raises (step s a) as

variable {step value time} {P : σ → Prop} {rate : ℚ}

theorem mem_raises {s : σ} {as : List α} {x : ℕ} (h : x ∈ raises step value time s as) :
    ∃ a ∈ as, x = time a ∧ ∃ t, value t < value (step t a) := by
  induction as generalizing s with
  | nil => cases h
  | cons a as ih =>
    rw [raises] at h
    split_ifs at h with hraise
    · rcases List.mem_cons.mp h with rfl | h
      · exact ⟨a, List.mem_cons_self, rfl, s, hraise⟩
      · obtain ⟨b, hb, hx⟩ := ih h
        exact ⟨b, List.mem_cons_of_mem _ hb, hx⟩
    · obtain ⟨b, hb, hx⟩ := ih h
      exact ⟨b, List.mem_cons_of_mem _ hb, hx⟩

/-- A value that is multiplied by at most `rate` whenever it is raised. -/
theorem value_foldl_le (hrate : 0 ≤ rate) (hP : ∀ s a, P s → P (step s a))
    (hstep : ∀ s a, P s → value s < value (step s a) → value (step s a) ≤ value s * rate)
    (as : List α) {s : σ} (hs : P s) :
    value (as.foldl step s) ≤ value s * rate ^ (raises step value time s as).length := by
  induction as generalizing s with
  | nil => simp [raises]
  | cons a as ih =>
    have hrest := ih (hP s a hs)
    rw [List.foldl_cons, raises]
    split_ifs with hraise
    · rw [List.length_cons, pow_succ', ← mul_assoc]
      exact hrest.trans (mul_le_mul_of_nonneg_right (hstep s a hs hraise) (pow_nonneg hrate _))
    · exact hrest.trans (mul_le_mul_of_nonneg_right (not_lt.mp hraise) (pow_nonneg hrate _))

/-- Raised only at spaced times, the value stays below an exponential over every stretch. -/
theorem value_foldl_le_of_spaced (hrate : 1 ≤ rate) (hP : ∀ s a, P s → P (step s a))
    (hstep : ∀ s a, P s → value s < value (step s a) → value (step s a) ≤ value s * rate)
    {as : List α} {s : σ} (hs : P s) (hpos : 0 ≤ value s) {d start stretch : ℕ} (hd : 0 < d)
    (hspaced : Spaced d (raises step value time s as))
    (htimes : ∀ x ∈ raises step value time s as, start ≤ x ∧ x ≤ start + stretch) :
    value (as.foldl step s) ≤ value s * rate ^ (stretch / d + 1) := by
  have hvalue : value (as.foldl step s) ≤ value s * rate ^ (raises step value time s as).length :=
    value_foldl_le (zero_le_one.trans hrate) hP hstep as hs
  exact hvalue.trans
    (mul_le_mul_of_nonneg_left (pow_le_pow_right₀ hrate (hspaced.length_le hd htimes)) hpos)

end Growth

end Signal
