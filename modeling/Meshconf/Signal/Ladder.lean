import Mathlib.Order.Fin.Basic
import Mathlib.Tactic.Common

/-! # Ladders

A ladder divides a linear order by increasing rungs. A level follows a value when the
value lies strictly between the rungs next to the level. If a value moves without
crossing more than two rungs, moving the level by one rung restores this.
-/

namespace Signal

variable {α : Type*} [LinearOrder α] {n : ℕ} {rungs : Fin n → α} {i j : Fin n} {v v' : α}

/-- The value `v` lies strictly between the rungs below and above level `i`. -/
structure Between (rungs : Fin n → α) (i : Fin n) (v : α) : Prop where
  above : ∀ j : Fin n, j.val + 1 = i.val → rungs j < v
  below : ∀ j : Fin n, i.val + 1 = j.val → v < rungs j

def stepDown (rungs : Fin n → α) (i : Fin n) (v : α) : Fin n :=
  if i.val = 0 then i
  else
    let lower : Fin n := ⟨i.val - 1, by omega⟩
    if v ≤ rungs lower then lower else i

def stepUp (rungs : Fin n → α) (i : Fin n) (v : α) : Fin n :=
  if h : i.val + 1 < n then
    let higher : Fin n := ⟨i.val + 1, h⟩
    if rungs higher ≤ v then higher else i
  else i

variable (rungs) in
theorem stepDown_of_eq_succ (h : j.val + 1 = i.val) :
    stepDown rungs i v = if v ≤ rungs j then j else i := by
  have hlower : (⟨i.val - 1, by omega⟩ : Fin n) = j := Fin.ext (by simp only; omega)
  simp only [stepDown]
  rw [if_neg (by omega), hlower]

variable (rungs) in
theorem stepUp_of_succ_eq (h : i.val + 1 = j.val) :
    stepUp rungs i v = if rungs j ≤ v then j else i := by
  have hhigher : (⟨i.val + 1, by omega⟩ : Fin n) = j := Fin.ext h
  simp only [stepUp]
  rw [dif_pos (by omega), hhigher]

/-- A value that falls past at most one rung is followed by one step down. -/
theorem Between.stepDown (h : Between rungs i v) (hrungs : StrictMono rungs) (hle : v' ≤ v)
    (hgap : ∀ j : Fin n, j.val + 2 = i.val → rungs j < v') :
    Between rungs (stepDown rungs i v') v' := by
  by_cases hi : i.val = 0
  · rw [Signal.stepDown, if_pos hi]
    constructor
    · intro j hj
      omega
    · intro j hj
      exact lt_of_le_of_lt hle (h.below j hj)
  · obtain ⟨lower, hlower⟩ : ∃ lower : Fin n, lower.val + 1 = i.val :=
      ⟨⟨i.val - 1, by omega⟩, by simp only; omega⟩
    rw [stepDown_of_eq_succ rungs hlower]
    split_ifs with hv
    · constructor
      · intro j hj
        exact hgap j (by omega)
      · intro j hj
        have hlt : lower < j := Fin.lt_def.mpr (by omega)
        exact lt_of_le_of_lt hv (hrungs hlt)
    · constructor
      · intro j hj
        obtain rfl : j = lower := Fin.ext (by omega)
        exact not_le.mp hv
      · intro j hj
        exact lt_of_le_of_lt hle (h.below j hj)

/-- A value that rises past at most one rung is followed by one step up. -/
theorem Between.stepUp (h : Between rungs i v) (hrungs : StrictMono rungs) (hle : v ≤ v')
    (hgap : ∀ j : Fin n, i.val + 2 = j.val → v' < rungs j) :
    Between rungs (stepUp rungs i v') v' := by
  by_cases hi : i.val + 1 < n
  · obtain ⟨higher, hhigher⟩ : ∃ higher : Fin n, i.val + 1 = higher.val := ⟨⟨i.val + 1, hi⟩, rfl⟩
    rw [stepUp_of_succ_eq rungs hhigher]
    split_ifs with hv
    · constructor
      · intro j hj
        have hlt : j < higher := Fin.lt_def.mpr (by omega)
        exact lt_of_lt_of_le (hrungs hlt) hv
      · intro j hj
        exact hgap j (by omega)
    · constructor
      · intro j hj
        exact lt_of_lt_of_le (h.above j hj) hle
      · intro j hj
        obtain rfl : j = higher := Fin.ext (by omega)
        exact not_le.mp hv
  · rw [Signal.stepUp, dif_neg hi]
    constructor
    · intro j hj
      exact lt_of_lt_of_le (h.above j hj) hle
    · intro j hj
      omega

end Signal
