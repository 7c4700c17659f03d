import Mathlib.Logic.Function.Basic
import Meshconf.Transition.Run

/-! # Registries and notices

A registry has at most one value per key. The users of a value leave notices of its
end in a queue, and handling a notice retires whatever value its key has by then. If
values are admitted and notices left in time, a notice never meets a value other than
its own.
-/

namespace Transition

variable {K C : Type*}

/-- The current values, and the notices with the values that they are about. -/
structure Registry (K C : Type*) where
  entry : K → Option C := fun _ => none
  notices : List (K × C) := []

namespace Registry

inductive Move (K C : Type*)
  | keep
  | enroll (k : K) (c : C)
  | notify (k : K) (c : C)
  | retire
  | clear

/-- The key of `x` has no value, or that of `x`, or is retired before `x`. -/
def Due (r : Registry K C) (before : List (K × C)) (x : K × C) : Prop :=
  r.entry x.1 = none ∨ r.entry x.1 = some x.2 ∨ x.1 ∈ before.map Prod.fst

/-- No value is admitted behind a notice, and no notice is left behind a newer value. -/
def Timely (r : Registry K C) : Move K C → Prop
  | .enroll k _ => r.entry k = none → k ∉ r.notices.map Prod.fst
  | .notify k c => r.Due r.notices (k, c)
  | _ => True

instance [DecidableEq K] [DecidableEq C] (r : Registry K C) (before : List (K × C)) (x : K × C) :
    Decidable (r.Due before x) :=
  inferInstanceAs
    (Decidable (r.entry x.1 = none ∨ r.entry x.1 = some x.2 ∨ x.1 ∈ before.map Prod.fst))

instance [DecidableEq K] [DecidableEq C] (r : Registry K C) :
    (m : Move K C) → Decidable (r.Timely m)
  | .keep => .isTrue trivial
  | .enroll k _ => inferInstanceAs (Decidable (r.entry k = none → k ∉ r.notices.map Prod.fst))
  | .notify k c => inferInstanceAs (Decidable (r.Due r.notices (k, c)))
  | .retire => .isTrue trivial
  | .clear => .isTrue trivial

/-- Every notice will meet its own value, or none. -/
def Current (r : Registry K C) : Prop := History.Each r.Due r.notices

variable {r : Registry K C} {k : K} {c : C} {m : Move K C}

theorem Current.init : ({} : Registry K C).Current := History.each_nil

/-- The notice handled next meets its own value, or none. -/
theorem Current.head (h : r.Current) {rest : List (K × C)} (hr : r.notices = (k, c) :: rest) :
    r.entry k = none ∨ r.entry k = some c := by
  rcases h [] (k, c) rest hr with hnone | hsome | hmem
  · exact .inl hnone
  · exact .inr hsome
  · simp at hmem

variable [DecidableEq K]

/-- A key that has a value keeps it until it is retired. -/
def move (r : Registry K C) : Move K C → Registry K C
  | .keep => r
  | .enroll k c => { r with entry := Function.update r.entry k (some ((r.entry k).getD c)) }
  | .notify k c => { r with notices := r.notices ++ [(k, c)] }
  | .retire =>
    match r.notices with
    | [] => r
    | (k, _) :: notices => { entry := Function.update r.entry k none, notices }
  | .clear => { r with entry := fun _ => none }

theorem Current.enroll (h : r.Current) (hm : r.Timely (.enroll k c)) :
    (r.move (.enroll k c)).Current := by
  intro before x after hx
  have hmem : x.1 ∈ r.notices.map Prod.fst := by
    rw [show r.notices = before ++ x :: after from hx]
    simp
  have hdue := h before x after hx
  cases hk : r.entry k with
  | none =>
    have hne : x.1 ≠ k := fun hxk => hm hk (hxk ▸ hmem)
    simpa only [Due, move, Function.update_of_ne hne] using hdue
  | some c' =>
    have hsame : Function.update r.entry k (some ((r.entry k).getD c)) = r.entry := by
      rw [hk, Option.getD_some, ← hk, Function.update_eq_self]
    simpa only [Due, move, hsame] using hdue

theorem Current.retire (h : r.Current) : (r.move .retire).Current := by
  rcases hr : r.notices with _ | ⟨⟨k, c⟩, rest⟩
  · simpa only [move, hr] using h
  · simp only [move, hr]
    intro before x after hx
    have hx : r.notices = ((k, c) :: before) ++ x :: after := by
      rw [hr, show rest = before ++ x :: after from hx, List.cons_append]
    by_cases hk : x.1 = k
    · exact .inl (by simp [hk])
    · have hdue := h _ x after hx
      simpa only [Due, Function.update_of_ne hk, List.map_cons, List.mem_cons, hk, false_or]
        using hdue

theorem Current.move (h : r.Current) (hm : r.Timely m) : (r.move m).Current := by
  cases m with
  | keep => exact h
  | enroll k c => exact h.enroll hm
  | notify k c => exact History.each_snoc.mpr ⟨h, hm⟩
  | retire => exact h.retire
  | clear => exact fun _ _ _ _ => .inl rfl

theorem entry_enroll (h : r.entry k = none) : (r.move (.enroll k c)).entry k = some c := by
  simp [Registry.move, h]

/-- A value is in the registry because it was there before or has just been admitted. -/
theorem entry_move (h : (r.move m).entry k = some c) : r.entry k = some c ∨ m = .enroll k c := by
  cases m with
  | keep => exact .inl h
  | enroll k' c' =>
    by_cases hk : k = k'
    · subst hk
      cases hentry : r.entry k with
      | none =>
        obtain rfl : c' = c := by simpa [Registry.move, hentry] using h
        exact .inr rfl
      | some c₀ => exact .inl (by simpa [Registry.move, hentry] using h)
    · exact .inl (by simpa [Registry.move, hk] using h)
  | notify k' c' => exact .inl h
  | retire =>
    rcases hr : r.notices with _ | ⟨⟨k', c'⟩, rest⟩
    · exact .inl (by simpa [Registry.move, hr] using h)
    · by_cases hk : k = k'
      · simp [Registry.move, hr, hk] at h
      · exact .inl (by simpa [Registry.move, hr, hk] using h)
  | clear => cases h

end Registry

end Transition
