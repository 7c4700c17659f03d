import Mathlib.Data.List.Basic
import Mathlib.Tactic.Common

/-! # Pools of tasks

A pool is a list of tasks that take turns. A step replaces the task at one position
or removes it. Whatever is counted over a pool changes by that one task.
-/

namespace Pool

variable {τ γ : Type*}

/-- The pool after its task at `i` has become `o`, or ended. -/
def update (l : List τ) (i : ℕ) : Option τ → List τ
  | some x => l.set i x
  | none => l.eraseIdx i

theorem update_append (a b : List τ) (x : τ) (o : Option τ) :
    update (a ++ x :: b) a.length o = a ++ (o.toList ++ b) := by
  cases o <;> simp [update, List.eraseIdx_append_of_length_le]

theorem exists_split {l : List τ} {i : ℕ} {x : τ} (h : l[i]? = some x) :
    ∃ a b, l = a ++ x :: b ∧ ∀ o, update l i o = a ++ (o.toList ++ b) := by
  obtain ⟨a, b, rfl, rfl⟩ : ∃ a b, l = a ++ x :: b ∧ a.length = i := by
    obtain ⟨hi, rfl⟩ := List.getElem?_eq_some_iff.mp h
    exact ⟨l.take i, l.drop (i + 1), by simp, by simp [Nat.le_of_lt hi]⟩
  exact ⟨a, b, rfl, update_append a b x⟩

theorem mem_of_getElem? {l : List τ} {i : ℕ} {x : τ} (h : l[i]? = some x) : x ∈ l := by
  obtain ⟨a, b, rfl, -⟩ := exists_split h
  simp

theorem mem_update {l : List τ} {i : ℕ} {x y : τ} {o : Option τ} (h : l[i]? = some x)
    (hy : y ∈ update l i o) : y ∈ l ∨ o = some y := by
  obtain ⟨a, b, rfl, hu⟩ := exists_split h
  rw [hu] at hy
  simp only [List.mem_append, List.mem_cons, Option.mem_toList] at hy ⊢
  rcases hy with hy | hy | hy
  · exact .inl (.inl hy)
  · exact .inr hy
  · exact .inl (.inr (.inr hy))

theorem mem_update_self {l : List τ} {i : ℕ} {x y : τ} (h : l[i]? = some x) :
    y ∈ update l i (some y) := by
  obtain ⟨a, b, rfl, hu⟩ := exists_split h
  simp [hu]

/-- What tasks hold is at most lost if a task holds no more than before. -/
theorem filterMap_update_sublist {l : List τ} {i : ℕ} {x : τ} (h : l[i]? = some x)
    {f : τ → Option γ} {o : Option τ} (ho : (o.toList.filterMap f).Sublist ([x].filterMap f)) :
    ((update l i o).filterMap f).Sublist (l.filterMap f) := by
  obtain ⟨a, b, rfl, hu⟩ := exists_split h
  rw [hu, ← List.singleton_append (l := b), List.filterMap_append, List.filterMap_append,
    List.filterMap_append, List.filterMap_append]
  exact (List.Sublist.refl _).append (ho.append (.refl _))

variable [DecidableEq γ]

/-- One task leaves the count, and the one it became enters it. -/
theorem count_update {l : List τ} {i : ℕ} {x : τ} (h : l[i]? = some x) (f : τ → γ)
    (o : Option τ) (c : γ) :
    ((update l i o).map f).count c + (if f x = c then 1 else 0) =
      (l.map f).count c + (o.toList.map f).count c := by
  obtain ⟨a, b, rfl, hu⟩ := exists_split h
  rw [hu]
  simp only [List.map_append, List.map_cons, List.count_append, List.count_cons, beq_iff_eq]
  omega

end Pool
