import Mathlib.Algebra.BigOperators.Group.List.Basic
import Mathlib.Algebra.Order.Ring.Nat
import Mathlib.Data.List.AList
import Mathlib.Logic.Function.Basic

/-! # Maps as functions, and totals over their entries

A map is changed at one key at a time. Every entry has a weight, and entering a value
adds its weight to the total of the others.
-/

namespace AList

variable {K V : Type*} {w : K → V → ℕ} {s : AList fun _ : K => V} {k : K} {v : V}

/-- The sum of the weights of all entries. -/
def total (w : K → V → ℕ) (s : AList fun _ : K => V) : ℕ :=
  (s.entries.map fun e => w e.1 e.2).sum

@[simp] theorem total_empty : total w ∅ = 0 := rfl

variable [DecidableEq K]

theorem lookup_insert_eq_update (s : AList fun _ : K => V) (k : K) (v : V) :
    (fun x => (s.insert k v).lookup x) = Function.update (fun x => s.lookup x) k (some v) := by
  funext x
  by_cases hx : x = k
  · subst hx
    simp
  · simp [AList.lookup_insert_ne hx, hx]

theorem lookup_erase_eq_update (s : AList fun _ : K => V) (k : K) :
    (fun x => (s.erase k).lookup x) = Function.update (fun x => s.lookup x) k none := by
  funext x
  by_cases hx : x = k
  · subst hx
    simp
  · simp [AList.lookup_erase_ne hx, hx]

/-- A projection of the values, after one of them was entered. -/
theorem map_lookup_insert {α : Type*} (f : V → α) (s : AList fun _ : K => V) (k : K) (v : V) :
    (fun x => ((s.insert k v).lookup x).map f) =
      Function.update (fun x => (s.lookup x).map f) k (some (f v)) := by
  funext x
  rw [congrFun (lookup_insert_eq_update s k v) x]
  exact Function.apply_update (fun _ => Option.map f) _ _ _ _

theorem map_lookup_erase {α : Type*} (f : V → α) (s : AList fun _ : K => V) (k : K) :
    (fun x => ((s.erase k).lookup x).map f) =
      Function.update (fun x => (s.lookup x).map f) k none := by
  funext x
  rw [congrFun (lookup_erase_eq_update s k) x]
  exact Function.apply_update (fun _ => Option.map f) _ _ _ _

/-- Replacing a value does not show in a projection that is the same for both. -/
theorem map_lookup_insert_self {α : Type*} {f : V → α} {v' : V} (h : s.lookup k = some v)
    (hf : f v' = f v) :
    (fun x => ((s.insert k v').lookup x).map f) = fun x => (s.lookup x).map f := by
  have hk : (s.lookup k).map f = some (f v') := by rw [h, Option.map_some, hf]
  rw [map_lookup_insert, ← hk]
  exact Function.update_eq_self k fun x => (s.lookup x).map f

@[simp] theorem total_insert : total w (s.insert k v) = w k v + total w (s.erase k) := by
  rw [total, entries_insert, List.map_cons, List.sum_cons]
  rfl

/-- An entry and the others. -/
theorem total_of_lookup (h : s.lookup k = some v) : total w s = w k v + total w (s.erase k) := by
  have hperm : s.entries.Perm (s.insert k v).entries := by
    refine List.lookup_ext s.nodupKeys (s.insert k v).nodupKeys fun x y => ?_
    change y ∈ s.lookup x ↔ y ∈ (s.insert k v).lookup x
    by_cases hx : x = k
    · rw [hx, AList.lookup_insert, h]
    · rw [AList.lookup_insert_ne hx]
  rw [← total_insert]
  exact (hperm.map _).sum_eq

theorem total_erase_le : total w (s.erase k) ≤ total w s := by
  cases h : s.lookup k with
  | none =>
    have hk : s.erase k = s := by
      apply AList.ext
      exact List.kerase_of_notMem_keys (AList.lookup_eq_none.mp h)
    rw [hk]
  | some v =>
    rw [total_of_lookup h]
    exact Nat.le_add_left _ _

/-- Replacing a value by one of the same weight keeps the total. -/
theorem total_insert_of_lookup {v' : V} (h : s.lookup k = some v) (hw : w k v' = w k v) :
    total w (s.insert k v') = total w s := by
  rw [total_insert, total_of_lookup h, hw]

end AList
