import Mathlib.Data.Set.Insert
import Mathlib.Logic.Function.Basic
import Mathlib.Tactic.Common

/-! # Tables of sessions and their tokens

A table has at most one session per key, and every session a token of its own that is
cancelled when the session ends. Mirrors repeat the connections of the sessions, and
watchers wait for tokens. If tables and mirrors change together, every watcher either
belongs to the session that its key has now or is told to stop.
-/

namespace Transition

variable {ι K C : Type*}

structure Table (ι K C : Type*) where
  /-- The connection of the session of a key, and its token. -/
  entry : K → Option (C × ℕ)
  mirror : ι → K → Option C
  cancelled : Set ℕ
  /-- The tokens made so far are those below this one. -/
  made : ℕ
  watchers : Set (K × ℕ)

namespace Table

variable {T T' : Table ι K C} {k : K} {token : ℕ}

/-- The token is that of the session of the key, or has been cancelled. -/
def Watches (T : Table ι K C) (k : K) (token : ℕ) : Prop :=
  token ∈ T.cancelled ∨ ∃ c, T.entry k = some (c, token)

structure Sound (T : Table ι K C) : Prop where
  mirror : ∀ i k, T.mirror i k = (T.entry k).map Prod.fst
  live : ∀ k c token, T.entry k = some (c, token) → token ∉ T.cancelled
  made : ∀ k c token, T.entry k = some (c, token) → token < T.made
  cancelled_made : ∀ token ∈ T.cancelled, token < T.made
  distinct : ∀ k k' c c' token, T.entry k = some (c, token) → T.entry k' = some (c', token) → k = k'
  watched : ∀ k token, (k, token) ∈ T.watchers → T.Watches k token

variable [DecidableEq K]

/-- A session has begun, and all its watchers with it. -/
structure Enrolled (T T' : Table ι K C) (k : K) (c : C) (token : ℕ) : Prop where
  entry : T'.entry = Function.update T.entry k (some (c, token))
  mirror : ∀ i, T'.mirror i = Function.update (T.mirror i) k (some c)
  cancelled : T'.cancelled = T.cancelled
  watchers : ∀ w ∈ T'.watchers, w ∈ T.watchers ∨ w = (k, token)

/-- What a step may do to a table. -/
inductive Moved (T : Table ι K C) : Table ι K C → Prop where
  /-- Watchers of the current sessions may be added, and watchers may end. -/
  | keep {T' : Table ι K C} : T'.entry = T.entry → T'.mirror = T.mirror →
      T'.cancelled = T.cancelled → T.made ≤ T'.made →
      (∀ k token, (k, token) ∈ T'.watchers → (k, token) ∈ T.watchers ∨
        ∃ c, T.entry k = some (c, token)) → Moved T T'
  /-- A session begins, with a new token. -/
  | enroll {T' : Table ι K C} (k : K) (c : C) (token : ℕ) : T.entry k = none → T.made ≤ token →
      token < T'.made → T.Enrolled T' k c token → Moved T T'
  /-- A session ends. -/
  | retire {T' : Table ι K C} (k : K) (c : C) (token : ℕ) : T.entry k = some (c, token) →
      T'.entry = Function.update T.entry k none →
      (∀ i, T'.mirror i = Function.update (T.mirror i) k none) →
      T'.cancelled = insert token T.cancelled → T'.made = T.made →
      T'.watchers ⊆ T.watchers → Moved T T'
  /-- All sessions end. -/
  | clear {T' : Table ι K C} : T'.entry = (fun _ => none) →
      (∀ i k, T'.mirror i k = if T.entry k = none then T.mirror i k else none) →
      (∀ token, token ∈ T'.cancelled ↔
        token ∈ T.cancelled ∨ ∃ k c, T.entry k = some (c, token)) →
      T'.made = T.made → T'.watchers ⊆ T.watchers → Moved T T'

theorem update_eq_some_iff {α : Type*} {f : K → Option α} {q : K} {x y : α} :
    Function.update f k (some x) q = some y ↔ q = k ∧ x = y ∨ q ≠ k ∧ f q = some y := by
  by_cases hq : q = k <;> simp [hq]

theorem update_none_eq_some_iff {α : Type*} {f : K → Option α} {q : K} {y : α} :
    Function.update f k none q = some y ↔ q ≠ k ∧ f q = some y := by
  by_cases hq : q = k <;> simp [hq]

/-- A watcher is told to stop when the session of its key ends. -/
theorem Moved.watches (h : T.Moved T') (hw : T.Watches k token) : T'.Watches k token := by
  rcases hw with hw | ⟨c, hw⟩
  · cases h with
    | keep _ _ hcancelled => exact .inl (hcancelled ▸ hw)
    | enroll _ _ _ _ _ _ hnew => exact .inl (hnew.cancelled ▸ hw)
    | retire _ _ _ _ _ _ hcancelled => exact .inl (hcancelled ▸ Set.mem_insert_of_mem _ hw)
    | clear _ _ hcancelled => exact .inl ((hcancelled _).mpr (.inl hw))
  · cases h with
    | keep hentry => exact .inr ⟨c, by rw [hentry, hw]⟩
    | enroll q d new hnone _ _ hnew =>
      have hk : k ≠ q := by
        rintro rfl
        simp [hnone] at hw
      exact .inr ⟨c, by rw [hnew.entry, Function.update_of_ne hk, hw]⟩
    | retire q d old hq hentry _ hcancelled =>
      by_cases hk : k = q
      · subst hk
        obtain ⟨-, rfl⟩ : d = c ∧ old = token := by simpa [hq] using hw
        exact .inl (hcancelled ▸ Set.mem_insert _ _)
      · exact .inr ⟨c, by rw [hentry, Function.update_of_ne hk, hw]⟩
    | clear _ _ hcancelled => exact .inl ((hcancelled _).mpr (.inr ⟨k, c, hw⟩))

theorem Sound.enroll (h : T.Sound) {c : C} (hnone : T.entry k = none) (hfresh : T.made ≤ token)
    (hmade : token < T'.made) (hnew : T.Enrolled T' k c token)
    (hwatched : ∀ k token, (k, token) ∈ T'.watchers → T'.Watches k token) : T'.Sound where
  mirror i q := by
    rw [hnew.mirror, hnew.entry]
    by_cases hq : q = k
    · subst hq
      simp
    · simpa [hq] using h.mirror i q
  live q d other hq := by
    rw [hnew.cancelled]
    rcases update_eq_some_iff.mp (hnew.entry ▸ hq) with ⟨-, hd⟩ | ⟨-, hold⟩
    · obtain ⟨-, rfl⟩ := Prod.mk.inj hd
      exact fun hmem => absurd (h.cancelled_made _ hmem) (Nat.not_lt.mpr hfresh)
    · exact h.live q d other hold
  made q d other hq := by
    rcases update_eq_some_iff.mp (hnew.entry ▸ hq) with ⟨-, hd⟩ | ⟨-, hold⟩
    · obtain ⟨-, rfl⟩ := Prod.mk.inj hd
      exact hmade
    · exact (h.made q d other hold).trans_le (hfresh.trans hmade.le)
  cancelled_made other hother :=
    (h.cancelled_made other (hnew.cancelled ▸ hother)).trans_le (hfresh.trans hmade.le)
  distinct q q' d d' other hq hq' := by
    rcases update_eq_some_iff.mp (hnew.entry ▸ hq) with ⟨rfl, hd⟩ | ⟨-, hold⟩
    · rcases update_eq_some_iff.mp (hnew.entry ▸ hq') with ⟨rfl, -⟩ | ⟨-, hold'⟩
      · rfl
      · obtain ⟨-, rfl⟩ := Prod.mk.inj hd
        exact absurd (h.made _ _ _ hold') (Nat.not_lt.mpr hfresh)
    · rcases update_eq_some_iff.mp (hnew.entry ▸ hq') with ⟨rfl, hd'⟩ | ⟨-, hold'⟩
      · obtain ⟨-, rfl⟩ := Prod.mk.inj hd'
        exact absurd (h.made _ _ _ hold) (Nat.not_lt.mpr hfresh)
      · exact h.distinct _ _ _ _ _ hold hold'
  watched := hwatched

theorem Sound.retire (h : T.Sound) {c : C} (hk : T.entry k = some (c, token))
    (hentry : T'.entry = Function.update T.entry k none)
    (hmirror : ∀ i, T'.mirror i = Function.update (T.mirror i) k none)
    (hcancelled : T'.cancelled = insert token T.cancelled) (hmade : T'.made = T.made)
    (hwatched : ∀ k token, (k, token) ∈ T'.watchers → T'.Watches k token) : T'.Sound where
  mirror i q := by
    rw [hmirror, hentry]
    by_cases hq : q = k
    · subst hq
      simp
    · simpa [hq] using h.mirror i q
  live q d other hq := by
    obtain ⟨hne, hold⟩ := update_none_eq_some_iff.mp (hentry ▸ hq)
    rw [hcancelled, Set.mem_insert_iff, not_or]
    refine ⟨?_, h.live q d other hold⟩
    rintro rfl
    exact hne (h.distinct _ _ _ _ _ hold hk)
  made q d other hq := by
    rw [hmade]
    exact h.made q d other (update_none_eq_some_iff.mp (hentry ▸ hq)).2
  cancelled_made other hother := by
    rw [hmade]
    rcases Set.mem_insert_iff.mp (hcancelled ▸ hother) with rfl | hother
    · exact h.made k c _ hk
    · exact h.cancelled_made other hother
  distinct q q' d d' other hq hq' :=
    h.distinct _ _ _ _ _ (update_none_eq_some_iff.mp (hentry ▸ hq)).2
      (update_none_eq_some_iff.mp (hentry ▸ hq')).2
  watched := hwatched

omit [DecidableEq K] in
theorem Sound.clear (h : T.Sound) (hentry : T'.entry = fun _ => none)
    (hmirror : ∀ i k, T'.mirror i k = if T.entry k = none then T.mirror i k else none)
    (hcancelled : ∀ token, token ∈ T'.cancelled ↔
      token ∈ T.cancelled ∨ ∃ k c, T.entry k = some (c, token)) (hmade : T'.made = T.made)
    (hwatched : ∀ k token, (k, token) ∈ T'.watchers → T'.Watches k token) : T'.Sound where
  mirror i q := by
    rw [hmirror, hentry]
    split_ifs with hq
    · rw [h.mirror, hq]
    · rfl
  live q d other hq := by simp [hentry] at hq
  made q d other hq := by simp [hentry] at hq
  cancelled_made other hother := by
    rw [hmade]
    rcases (hcancelled other).mp hother with hother | ⟨q, d, hq⟩
    · exact h.cancelled_made other hother
    · exact h.made q d other hq
  distinct q q' d d' other hq := by simp [hentry] at hq
  watched := hwatched

omit [DecidableEq K] in
theorem Sound.keep (h : T.Sound) (hentry : T'.entry = T.entry) (hmirror : T'.mirror = T.mirror)
    (hcancelled : T'.cancelled = T.cancelled) (hmade : T.made ≤ T'.made)
    (hwatched : ∀ k token, (k, token) ∈ T'.watchers → T'.Watches k token) : T'.Sound where
  mirror i k := by
    rw [hmirror, hentry]
    exact h.mirror i k
  live k c token hk := by
    rw [hentry] at hk
    rw [hcancelled]
    exact h.live k c token hk
  made k c token hk := by
    rw [hentry] at hk
    exact (h.made k c token hk).trans_le hmade
  cancelled_made token htoken := by
    rw [hcancelled] at htoken
    exact (h.cancelled_made token htoken).trans_le hmade
  distinct k k' c c' token hk hk' := by
    rw [hentry] at hk hk'
    exact h.distinct k k' c c' token hk hk'
  watched := hwatched

/-- Old watchers watch what they did, and new ones a session that there is. -/
theorem Sound.moved (h : T.Sound) (hm : T.Moved T') : T'.Sound := by
  have hold : ∀ k token, (k, token) ∈ T.watchers → T'.Watches k token :=
    fun k token hw => hm.watches (h.watched k token hw)
  cases hm with
  | keep hentry hmirror hcancelled hmade hwatchers =>
    refine h.keep hentry hmirror hcancelled hmade fun k token hw => ?_
    rcases hwatchers k token hw with hw | ⟨c, hc⟩
    · exact hold k token hw
    · exact .inr ⟨c, by rw [hentry, hc]⟩
  | enroll q c token hnone hfresh hmade hnew =>
    refine h.enroll hnone hfresh hmade hnew fun k token hw => ?_
    rcases hnew.watchers _ hw with hw | hw
    · exact hold k token hw
    · obtain ⟨rfl, rfl⟩ := Prod.mk.inj hw
      exact .inr ⟨c, by rw [hnew.entry, Function.update_self]⟩
  | retire q c old hq hentry hmirror hcancelled hmade hwatchers =>
    exact h.retire hq hentry hmirror hcancelled hmade fun k token hw => hold k token (hwatchers hw)
  | clear hentry hmirror hcancelled hmade hwatchers =>
    exact h.clear hentry hmirror hcancelled hmade fun k token hw => hold k token (hwatchers hw)

end Table

end Transition
