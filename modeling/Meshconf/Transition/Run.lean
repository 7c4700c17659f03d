import Mathlib.Data.List.Induction
import Mathlib.Tactic.Common

/-! # Runs of a partial step function

A component is a step function on states that is undefined where an action is
not enabled. A run records the actions taken and may carry a side condition that
every one of its steps met. Invariants and history properties are proved once
for a step and hold of every run.
-/

namespace Transition

variable {σ α : Type*} {step : σ → α → Option σ} {C D : σ → α → Prop} {s t u : σ}

/-- Execute a list of actions, failing at the first one that is not enabled. -/
def exec (step : σ → α → Option σ) (s : σ) : List α → Option σ
  | [] => some s
  | a :: as => (step s a).bind (exec step · as)

/-- The runs from `s` in which every step meets `C` in the state before it. -/
inductive Run (step : σ → α → Option σ) (C : σ → α → Prop) (s : σ) : List α → σ → Prop where
  | nil : Run step C s [] s
  | snoc {as : List α} {t u : σ} {a : α} : Run step C s as t → C t a → step t a = some u →
      Run step C s (as ++ [a]) u

/-- The side condition that asks nothing. -/
def Free : σ → α → Prop := fun _ _ => True

/-- The states that some run reaches. -/
def Reachable (step : σ → α → Option σ) (s t : σ) : Prop := ∃ as, Run step Free s as t

theorem Run.single {a : α} (hc : C s a) (hs : step s a = some t) : Run step C s [a] t := by
  have h : Run step C s ([] ++ [a]) t := .snoc .nil hc hs
  exact h

theorem Run.trans {as bs : List α} (h : Run step C s as t) (h' : Run step C t bs u) :
    Run step C s (as ++ bs) u := by
  induction h' with
  | nil => simpa using h
  | snoc _ hc hs ih =>
    rw [← List.append_assoc]
    exact .snoc ih hc hs

theorem Run.of_actions {as : List α} (h : Run step D s as t) (hC : ∀ a ∈ as, ∀ u, C u a) :
    Run step C s as t := by
  induction h with
  | nil => exact .nil
  | snoc _ _ hs ih =>
    have hbefore := ih fun a ha => hC a (List.mem_append_left _ ha)
    exact .snoc hbefore (hC _ (List.mem_append_right _ (List.mem_singleton_self _)) _) hs

theorem run_of_exec {as : List α} (h : exec step s as = some t) : Run step Free s as t := by
  induction as generalizing s with
  | nil =>
    obtain rfl : s = t := by simpa [exec] using h
    exact .nil
  | cons a as ih =>
    obtain ⟨w, hw, ht⟩ := Option.bind_eq_some_iff.mp h
    exact (Run.single trivial hw).trans (ih ht)

/-- The step function with the side condition as a further guard. -/
def guarded (step : σ → α → Option σ) (C : σ → α → Prop) [∀ s a, Decidable (C s a)] (s : σ)
    (a : α) : Option σ :=
  if C s a then step s a else none

theorem run_of_guarded [∀ s a, Decidable (C s a)] {as : List α}
    (h : exec (guarded step C) s as = some t) : Run step C s as t := by
  have hrun := run_of_exec h
  clear h
  induction hrun with
  | nil => exact .nil
  | snoc _ _ hs ih =>
    unfold guarded at hs
    split_ifs at hs with hc
    exact .snoc ih hc hs

/-- A property kept by every step that meets the condition holds along the run. -/
theorem Run.invariant {P : σ → Prop} (hstep : ∀ t a u, P t → C t a → step t a = some u → P u)
    {as : List α} (h : Run step C s as t) (h₀ : P s) : P t := by
  induction h with
  | nil => exact h₀
  | snoc _ hc hs ih => exact hstep _ _ _ ih hc hs

theorem Reachable.refl (s : σ) : Reachable step s s := ⟨[], .nil⟩

theorem Reachable.single {a : α} (hs : step s a = some t) : Reachable step s t :=
  ⟨[a], .single trivial hs⟩

theorem Reachable.trans (h : Reachable step s t) (h' : Reachable step t u) :
    Reachable step s u := by
  obtain ⟨as, h⟩ := h
  obtain ⟨bs, h'⟩ := h'
  exact ⟨as ++ bs, h.trans h'⟩

theorem Reachable.invariant {P : σ → Prop} (hstep : ∀ t a u, P t → step t a = some u → P u)
    (h : Reachable step s t) (h₀ : P s) : P t := by
  obtain ⟨as, h⟩ := h
  exact h.invariant (fun t a u ht _ hs => hstep t a u ht hs) h₀

end Transition

/-! ## Properties of a history

A history lists events in the order they happened. `Each P l` says that every
event stands in the relation `P` to the events before it.
-/

namespace History

variable {ε : Type*} {P Q : List ε → ε → Prop} {l : List ε} {e : ε}

/-- Every event of the history is related by `P` to the events before it. -/
def Each (P : List ε → ε → Prop) (l : List ε) : Prop :=
  ∀ before e after, l = before ++ e :: after → P before e

@[simp] theorem each_nil : Each P [] := by
  intro before e after h
  simp at h

@[simp] theorem each_snoc : Each P (l ++ [e]) ↔ Each P l ∧ P l e := by
  constructor
  · intro h
    refine ⟨fun before x after hl => h before x (after ++ [e]) (by simp [hl]), h l e [] rfl⟩
  · rintro ⟨hold, hnew⟩ before x after h
    rcases List.eq_nil_or_concat after with rfl | ⟨after', y, rfl⟩
    · obtain ⟨rfl, hx⟩ := List.append_inj' h rfl
      obtain rfl : e = x := by simpa using hx
      exact hnew
    · have h' : l ++ [e] = (before ++ x :: after') ++ [y] := by simpa using h
      exact hold before x after' (List.append_inj' h' rfl).1

theorem Each.mono (hPQ : ∀ before e, P before e → Q before e) (h : Each P l) : Each Q l :=
  fun before e after hl => hPQ before e (h before e after hl)

/-- Events that may always happen keep the law. -/
theorem Each.append {l' : List ε} (h : Each P l) (h' : ∀ before, ∀ e ∈ l', P before e) :
    Each P (l ++ l') := by
  induction l' using List.reverseRecOn with
  | nil => rwa [List.append_nil]
  | append_singleton l' e ih =>
    rw [← List.append_assoc, each_snoc]
    have hrest := ih fun before x hx => h' before x (List.mem_append_left _ hx)
    exact ⟨hrest, h' _ e (by simp)⟩

/-- The law holds of all that happened up to some time. -/
theorem Each.initial {l' : List ε} (h : Each P l) (hpre : l' <+: l) : Each P l' := by
  obtain ⟨rest, rfl⟩ := hpre
  intro before e after heq
  exact h before e (after ++ rest) (by simp [heq])

/-! ## What a history leaves in a register

An event may set a register, clear it, or leave it alone.
-/

section Register

variable {σ V : Type*} {puts : ε → Option (Option V)}

/-- What the history has last put into the register. -/
def held (puts : ε → Option (Option V)) (l : List ε) : Option V := (l.filterMap puts).getLast?.join

@[simp] theorem held_nil : held puts [] = none := rfl

@[simp] theorem held_snoc : held puts (l ++ [e]) = (puts e).getD (held puts l) := by
  unfold held
  rw [List.filterMap_append]
  cases hputs : puts e with
  | none => simp [hputs]
  | some v => simp [hputs]

/-- A field that follows the register holds what the history has last put there. -/
theorem held_foldl {update : σ → ε → σ} {s : σ} (field : σ → Option V)
    (hstep : ∀ t e, field (update t e) = (puts e).getD (field t)) (h₀ : field s = none)
    (l : List ε) : field (l.foldl update s) = held puts l := by
  induction l using List.reverseRecOn with
  | nil => exact h₀
  | append_singleton l e ih =>
    rw [List.foldl_append, List.foldl_cons, List.foldl_nil, hstep, ih, held_snoc]

end Register

end History
