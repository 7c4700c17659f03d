import Mathlib.Data.List.Induction
import Mathlib.Order.Lattice.Nat
import Mathlib.Tactic.Common

/-! # Timelines with concealed slots

A player emits samples at increasing positions. Where one is missing it conceals a
slot, at a fixed distance behind the last position. A timeline records both, together
with the position reached.
-/

namespace Signal

inductive Slot
  | play (t : ℕ)
  | conceal
  deriving DecidableEq, Repr

/-- The histories of a player that conceals slots of length `d`, and the positions they reach. -/
inductive Timeline (d : ℕ) : List Slot → Option ℕ → Prop where
  | nil : Timeline d [] none
  | play {l : List Slot} {last : Option ℕ} {t : ℕ} : Timeline d l last → (∀ m ∈ last, m < t) →
      Timeline d (l ++ [.play t]) (some t)
  | conceal {l : List Slot} {m : ℕ} : Timeline d l (some m) →
      Timeline d (l ++ [.conceal]) (some (m + d))

namespace Timeline

variable {d : ℕ} {l l' : List Slot} {last : Option ℕ} {a b k t : ℕ}

theorem append_play_iff : Timeline d (l ++ [.play t]) last ↔
    last = some t ∧ ∃ last', Timeline d l last' ∧ ∀ m ∈ last', m < t := by
  constructor
  · intro h
    generalize hl : l ++ [Slot.play t] = l₀ at h
    cases h with
    | nil => simp at hl
    | play h hlt =>
      obtain ⟨rfl, heq⟩ := List.append_inj' hl rfl
      cases heq
      exact ⟨rfl, _, h, hlt⟩
    | conceal h =>
      obtain ⟨-, heq⟩ := List.append_inj' hl rfl
      cases heq
  · rintro ⟨rfl, last', h, hlt⟩
    exact .play h hlt

theorem append_conceal_iff : Timeline d (l ++ [.conceal]) last ↔
    ∃ m, Timeline d l (some m) ∧ last = some (m + d) := by
  constructor
  · intro h
    generalize hl : l ++ [Slot.conceal] = l₀ at h
    cases h with
    | nil => simp at hl
    | play h hlt =>
      obtain ⟨-, heq⟩ := List.append_inj' hl rfl
      cases heq
    | conceal h =>
      obtain ⟨rfl, -⟩ := List.append_inj' hl rfl
      exact ⟨_, h, rfl⟩
  · rintro ⟨m, h, rfl⟩
    exact .conceal h

theorem unique (h : Timeline d l last) {last' : Option ℕ} (h' : Timeline d l last') :
    last = last' := by
  induction h generalizing last' with
  | nil =>
    generalize hl : ([] : List Slot) = l₀ at h'
    cases h' with
    | nil => rfl
    | play h => simp at hl
    | conceal h => simp at hl
  | play _ _ _ => exact (append_play_iff.mp h').1.symm
  | conceal _ ih =>
    obtain ⟨m, hm, rfl⟩ := append_conceal_iff.mp h'
    cases ih hm
    rfl

theorem of_append (h : Timeline d (l ++ l') last) : ∃ last', Timeline d l last' := by
  induction l' using List.reverseRecOn generalizing last with
  | nil => exact ⟨last, by simpa using h⟩
  | append_singleton l' x ih =>
    rw [← List.append_assoc] at h
    cases x with
    | play t =>
      obtain ⟨-, last', h', -⟩ := append_play_iff.mp h
      exact ih h'
    | conceal =>
      obtain ⟨m, h', -⟩ := append_conceal_iff.mp h
      exact ih h'

theorem last_of_concealed (h : Timeline d (l ++ .play a :: List.replicate k .conceal) last) :
    last = some (a + d * k) := by
  induction k generalizing last with
  | zero =>
    obtain ⟨rfl, -⟩ := append_play_iff.mp h
    simp
  | succ k ih =>
    rw [List.replicate_succ', ← List.cons_append, ← List.append_assoc] at h
    obtain ⟨m, h', rfl⟩ := append_conceal_iff.mp h
    cases ih h'
    rw [Nat.mul_succ, Nat.add_assoc]

/-- Between two samples that are played there is room for the slots concealed. -/
theorem gap (h : Timeline d (l ++ .play a :: (List.replicate k .conceal ++ .play b :: l')) last) :
    a + d * k < b := by
  have hsplit : l ++ .play a :: (List.replicate k .conceal ++ .play b :: l') =
      ((l ++ .play a :: List.replicate k .conceal) ++ [.play b]) ++ l' := by simp
  rw [hsplit] at h
  obtain ⟨last', h'⟩ := h.of_append
  obtain ⟨-, m, hm, hlt⟩ := append_play_iff.mp h'
  exact hlt _ (last_of_concealed hm)

theorem le_last (h : Timeline d l last) (ht : .play t ∈ l) : ∃ m, last = some m ∧ t ≤ m := by
  induction h with
  | nil => cases ht
  | play _ hlt ih =>
    rcases List.mem_append.mp ht with ht | ht
    · obtain ⟨m, hm, hle⟩ := ih ht
      exact ⟨_, rfl, hle.trans (hlt m hm).le⟩
    · cases List.mem_singleton.mp ht
      exact ⟨_, rfl, le_rfl⟩
  | conceal _ ih =>
    rcases List.mem_append.mp ht with ht | ht
    · obtain ⟨m, hm, hle⟩ := ih ht
      cases hm
      exact ⟨_, rfl, hle.trans (Nat.le_add_right _ _)⟩
    · cases List.mem_singleton.mp ht

/-- The position runs ahead of the samples by the slots concealed at most. -/
theorem last_lt (h : Timeline d l last) (hplay : ∀ t, .play t ∈ l → t < b) :
    ∀ m ∈ last, m < b + d * l.length := by
  induction h with
  | nil => nofun
  | @play l _ t _ _ _ =>
    rintro m hm
    cases hm
    have := hplay t (List.mem_append_right _ (List.mem_singleton_self _))
    exact this.trans_le (Nat.le_add_right _ _)
  | conceal _ ih =>
    rintro m hm
    cases hm
    have := ih (fun t ht => hplay t (List.mem_append_left _ ht)) _ rfl
    rw [List.length_append, List.length_singleton, Nat.mul_succ]
    omega

/-- Play further samples, in order. -/
theorem play_all (h : Timeline d l last) (ts : List ℕ) (hsorted : ts.Pairwise (· < ·))
    (hlt : ∀ t ∈ ts, ∀ m ∈ last, m < t) :
    Timeline d (l ++ ts.map .play) (ts.getLast?.or last) := by
  induction ts generalizing l last with
  | nil => simpa using h
  | cons t ts ih =>
    obtain ⟨hfirst, hrest⟩ := List.pairwise_cons.mp hsorted
    have hplay : Timeline d (l ++ [.play t]) (some t) := .play h (hlt t List.mem_cons_self)
    have hall := ih hplay hrest fun u hu m hm => by
      cases hm
      exact hfirst u hu
    rw [List.map_cons, List.getLast?_cons]
    cases hts : ts.getLast? <;> simpa [hts] using hall

/-- Samples are played in order, and none twice. -/
theorem sorted (h : Timeline d l last) :
    l.Pairwise fun x y => ∀ a b, x = .play a → y = .play b → a < b := by
  induction h with
  | nil => exact .nil
  | play h hlt ih =>
    refine List.pairwise_append.mpr ⟨ih, List.pairwise_singleton _ _, ?_⟩
    rintro x hx y hy a b rfl rfl
    cases List.mem_singleton.mp hy
    obtain ⟨m, hm, hle⟩ := h.le_last hx
    exact lt_of_le_of_lt hle (hlt m hm)
  | conceal h ih =>
    refine List.pairwise_append.mpr ⟨ih, List.pairwise_singleton _ _, ?_⟩
    rintro x hx y hy a b rfl rfl
    cases List.mem_singleton.mp hy

/-- Nothing is concealed before the first sample. -/
theorem play_mem_of_conceal (h : Timeline d (l ++ .conceal :: l') last) : ∃ t, .play t ∈ l := by
  have hsplit : l ++ .conceal :: l' = (l ++ [.conceal]) ++ l' := by simp
  rw [hsplit] at h
  obtain ⟨last', h'⟩ := h.of_append
  obtain ⟨m, hm, -⟩ := append_conceal_iff.mp h'
  clear h h' hsplit
  generalize hlast : some m = last at hm
  induction hm generalizing m with
  | nil => cases hlast
  | play _ _ _ => exact ⟨_, List.mem_append_right _ (List.mem_singleton_self _)⟩
  | conceal _ ih =>
    obtain ⟨t, ht⟩ := ih _ rfl
    exact ⟨t, List.mem_append_left _ ht⟩

end Timeline

end Signal
