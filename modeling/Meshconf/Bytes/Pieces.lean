import Mathlib.Data.List.Basic
import Mathlib.Tactic.Common

/-! # Pieces of a list

A list is cut into chunks of one length, at separators, into words, or into the items that
a parser finds in it one after the other. What has been cut is put together again.
-/

namespace Pieces

variable {α β : Type*}

/-! ## Chunks -/

/-- How many chunks of length `n` a list of length `len` has; the last one may be shorter. -/
def chunkCount (len n : ℕ) : ℕ := (len + n - 1) / n

/-- The list in chunks of length `n`. -/
def chunks (n : ℕ) (l : List α) : List (List α) :=
  (List.range (chunkCount l.length n)).map fun i => (l.drop (i * n)).take n

@[simp] theorem length_chunks (n : ℕ) (l : List α) :
    (chunks n l).length = chunkCount l.length n := by
  simp [chunks]

theorem getElem?_chunks {n i : ℕ} {l c : List α} (h : (chunks n l)[i]? = some c) :
    i < chunkCount l.length n ∧ c = (l.drop (i * n)).take n := by
  obtain ⟨hlt, hget⟩ := List.getElem?_eq_some_iff.mp h
  rw [length_chunks] at hlt
  refine ⟨hlt, ?_⟩
  rw [← hget]
  simp [chunks]

/-- The first pieces together are a prefix. -/
theorem flatten_pieces (n k : ℕ) (l : List α) :
    ((List.range k).map fun i => (l.drop (i * n)).take n).flatten = l.take (k * n) := by
  induction k with
  | zero => simp
  | succ k ih =>
    rw [List.range_succ, List.map_append, List.flatten_append, ih, Nat.succ_mul, List.take_add]
    simp

theorem le_chunkCount_mul {n : ℕ} (hn : 0 < n) (len : ℕ) : len ≤ chunkCount len n * n := by
  have hdiv := Nat.div_add_mod (len + n - 1) n
  have hmod := Nat.mod_lt (len + n - 1) hn
  rw [Nat.mul_comm] at hdiv
  unfold chunkCount
  omega

theorem mul_lt_of_lt_chunkCount {n i len : ℕ} (hi : i < chunkCount len n) : i * n < len := by
  have hn : 0 < n := by
    rcases Nat.eq_zero_or_pos n with rfl | hn
    · simp [chunkCount] at hi
    · exact hn
  have hle : (i + 1) * n ≤ len + n - 1 := (Nat.le_div_iff_mul_le hn).mp hi
  rw [Nat.succ_mul] at hle
  omega

/-- The chunks together are the list. -/
theorem flatten_chunks {n : ℕ} (hn : 0 < n) (l : List α) : (chunks n l).flatten = l := by
  rw [chunks, flatten_pieces]
  exact List.take_of_length_le (le_chunkCount_mul hn l.length)

theorem length_le_of_mem_chunks {n : ℕ} {l c : List α} (hc : c ∈ chunks n l) : c.length ≤ n := by
  obtain ⟨i, hi⟩ := List.mem_iff_getElem?.mp hc
  rw [(getElem?_chunks hi).2]
  exact List.length_take_le _ _

/-- Every chunk but the last is full. -/
theorem length_of_not_last {n i : ℕ} {l c : List α} (hc : (chunks n l)[i]? = some c)
    (hi : i + 1 < chunkCount l.length n) : c.length = n := by
  have hlt := mul_lt_of_lt_chunkCount hi
  rw [Nat.succ_mul] at hlt
  rw [(getElem?_chunks hc).2, List.length_take, List.length_drop]
  omega

theorem mem_of_mem_chunks {n : ℕ} {l c : List α} (hc : c ∈ chunks n l) {a : α} (ha : a ∈ c) :
    a ∈ l := by
  obtain ⟨i, hi⟩ := List.mem_iff_getElem?.mp hc
  rw [(getElem?_chunks hi).2] at ha
  exact List.mem_of_mem_drop (List.mem_of_mem_take ha)

/-! ## Full chunks -/

/-- The chunks of length `n` that are full. -/
def fullChunks (n : ℕ) (l : List α) : List (List α) :=
  (List.range (l.length / n)).map fun i => (l.drop (i * n)).take n

/-- What stands behind the full chunks. -/
def leftOver (n : ℕ) (l : List α) : List α := l.drop (l.length / n * n)

theorem length_append_div {n : ℕ} (hn : 0 < n) {c : List α} (hc : c.length = n) (l : List α) :
    (c ++ l).length / n = l.length / n + 1 := by
  rw [List.length_append, hc, Nat.add_comm, Nat.add_div_right _ hn]

theorem drop_succ_mul {n i : ℕ} {c : List α} (hc : c.length = n) (l : List α) :
    (c ++ l).drop ((i + 1) * n) = l.drop (i * n) := by
  rw [Nat.succ_mul, Nat.add_comm, ← hc, List.drop_length_add_append]

theorem fullChunks_append {n : ℕ} (hn : 0 < n) {c : List α} (hc : c.length = n) (l : List α) :
    fullChunks n (c ++ l) = c :: fullChunks n l := by
  unfold fullChunks
  rw [length_append_div hn hc, List.range_succ_eq_map, List.map_cons, List.map_map]
  congr 1
  · rw [Nat.zero_mul, List.drop_zero, ← hc, List.take_left]
  · exact List.map_congr_left fun i _ => congrArg (List.take n) (drop_succ_mul hc l)

theorem leftOver_append {n : ℕ} (hn : 0 < n) {c : List α} (hc : c.length = n) (l : List α) :
    leftOver n (c ++ l) = leftOver n l := by
  rw [leftOver, length_append_div hn hc, drop_succ_mul hc, leftOver]

/-- Chunks of one length are what the list is cut into, however long the rest is. -/
theorem fullChunks_flatten_append {n : ℕ} (hn : 0 < n) {cs : List (List α)}
    (hcs : ∀ c ∈ cs, c.length = n) (rest : List α) :
    fullChunks n (cs.flatten ++ rest) = cs ++ fullChunks n rest ∧
      leftOver n (cs.flatten ++ rest) = leftOver n rest := by
  induction cs with
  | nil => exact ⟨rfl, rfl⟩
  | cons c cs ih =>
    have hc := hcs c List.mem_cons_self
    obtain ⟨hchunks, hleft⟩ := ih fun d hd => hcs d (List.mem_cons_of_mem c hd)
    rw [List.flatten_cons, List.append_assoc, fullChunks_append hn hc, leftOver_append hn hc,
      hchunks, hleft]
    exact ⟨rfl, rfl⟩

theorem fullChunks_of_lt {n : ℕ} {l : List α} (h : l.length < n) :
    fullChunks n l = [] ∧ leftOver n l = l := by
  have hdiv : l.length / n = 0 := Nat.div_eq_of_lt h
  simp [fullChunks, leftOver, hdiv]

/-! ## Separators -/

section Separators

variable {sep : α} {w rest : List α}

/-- Words with a separator between any two. -/
def join (sep : α) : List (List α) → List α
  | [] => []
  | [w] => w
  | w :: ws => w ++ sep :: join sep ws

theorem notMem_join {ws : List (List α)} {a : α} (hsep : a ≠ sep) (hws : ∀ w ∈ ws, a ∉ w) :
    a ∉ join sep ws := by
  induction ws with
  | nil => exact List.not_mem_nil
  | cons w ws ih =>
    have hw := hws w List.mem_cons_self
    have hrest := ih fun v hv => hws v (List.mem_cons_of_mem w hv)
    cases ws with
    | nil => exact hw
    | cons w' ws =>
      rw [join]
      · simp [hw, hsep, hrest]
      · exact List.cons_ne_nil _ _

theorem length_le_join (sep : α) (ws : List (List α)) : ws.length ≤ (join sep ws).length + 1 := by
  induction ws with
  | nil => exact Nat.zero_le _
  | cons w ws ih =>
    cases ws with
    | nil => exact Nat.le_add_left 1 _
    | cons w' ws =>
      rw [join, List.length_append, List.length_cons (a := sep), List.length_cons (a := w)]
      · omega
      · exact List.cons_ne_nil _ _

variable [DecidableEq α]

/-- What stands before and behind the first separator. -/
def cut (sep : α) : List α → Option (List α × List α)
  | [] => none
  | a :: l => if a = sep then some ([], l) else (cut sep l).map fun p => (a :: p.1, p.2)

theorem cut_append (h : sep ∉ w) : cut sep (w ++ sep :: rest) = some (w, rest) := by
  induction w with
  | nil => exact if_pos rfl
  | cons a w ih =>
    obtain ⟨hne, hw⟩ := not_or.mp (mt List.mem_cons.mpr h)
    rw [List.cons_append, cut, if_neg (Ne.symm hne), ih hw, Option.map_some]

theorem cut_of_notMem (h : sep ∉ w) : cut sep w = none := by
  induction w with
  | nil => rfl
  | cons a w ih =>
    obtain ⟨hne, hw⟩ := not_or.mp (mt List.mem_cons.mpr h)
    rw [cut, if_neg (Ne.symm hne), ih hw, Option.map_none]

/-- What comes later is left with the rest. -/
theorem cut_append_right {l r w : List α} (h : cut sep l = some (w, r)) (more : List α) :
    cut sep (l ++ more) = some (w, r ++ more) := by
  induction l generalizing w with
  | nil => cases h
  | cons a l ih =>
    rw [cut] at h
    rw [List.cons_append, cut]
    split_ifs at h ⊢
    · cases h
      rfl
    · obtain ⟨⟨w', r'⟩, hcut, heq⟩ := Option.map_eq_some_iff.mp h
      cases heq
      rw [ih hcut, Option.map_some]

/-- The words between the separators, as far as the fuel goes. -/
def splitAt (sep : α) : ℕ → List α → List (List α)
  | 0, l => [l]
  | fuel + 1, l =>
    match cut sep l with
    | some (w, rest) => w :: splitAt sep fuel rest
    | none => [l]

theorem splitAt_join {ws : List (List α)} (hne : ws ≠ []) (hws : ∀ w ∈ ws, sep ∉ w) {fuel : ℕ}
    (hfuel : ws.length ≤ fuel) : splitAt sep fuel (join sep ws) = ws := by
  induction ws generalizing fuel with
  | nil => exact absurd rfl hne
  | cons w ws ih =>
    obtain ⟨fuel, rfl⟩ : ∃ k, fuel = k + 1 := Nat.exists_eq_succ_of_ne_zero (by
      rw [List.length_cons] at hfuel
      omega)
    have hw := hws w List.mem_cons_self
    cases ws with
    | nil => rw [join, splitAt, cut_of_notMem hw]
    | cons w' ws =>
      rw [join, splitAt, cut_append hw]
      · dsimp only
        rw [ih (List.cons_ne_nil _ _) (fun v hv => hws v (List.mem_cons_of_mem w hv))
          (Nat.le_of_succ_le_succ hfuel)]
      · exact List.cons_ne_nil _ _

end Separators

/-! ## Words -/

section Words

variable {p : α → Bool} {l w : List α}

/-- What stands between the separators, as far as it is not empty. -/
def words (p : α → Bool) (l : List α) : List (List α) := (l.splitOnP p).filter (!·.isEmpty)

/-- The words together are the list without the separators. -/
theorem flatten_words (p : α → Bool) (l : List α) : (words p l).flatten = l.filter (!p ·) := by
  unfold words
  rw [List.flatten_filter_not_isEmpty]
  induction l with
  | nil => rfl
  | cons a l ih =>
    rw [List.splitOnP_cons_eq_if_modifyHead]
    cases ha : p a with
    | true => simp [ha, ih]
    | false =>
      obtain ⟨u, us, hu⟩ := List.exists_cons_of_ne_nil (List.splitOnP_ne_nil p l)
      rw [hu] at ih ⊢
      simp only [List.flatten_cons] at ih
      simp [ha, ih]

theorem ne_nil_of_mem_words (hw : w ∈ words p l) : w ≠ [] := by
  simpa using (List.mem_filter.mp hw).2

end Words

/-! ## Items one after the other -/

/-- Parse items until nothing is left. -/
def parseMany (p : List α → Option (β × List α)) : ℕ → List α → Option (List β)
  | _, [] => some []
  | 0, _ :: _ => none
  | fuel + 1, a :: l =>
    match p (a :: l) with
    | some (item, rest) => (parseMany p fuel rest).map (item :: ·)
    | none => none

/-- A parser that finds each item in front of anything finds them all. -/
theorem parseMany_flatMap {γ : Type*} {p : List α → Option (β × List α)} {enc : γ → List α}
    {item : γ → β} {xs : List γ} (hp : ∀ x ∈ xs, ∀ rest, p (enc x ++ rest) = some (item x, rest))
    (hne : ∀ x ∈ xs, enc x ≠ []) {fuel : ℕ} (hfuel : xs.length ≤ fuel) :
    parseMany p fuel (xs.flatMap enc) = some (xs.map item) := by
  induction xs generalizing fuel with
  | nil => cases fuel <;> simp [parseMany]
  | cons x xs ih =>
    obtain ⟨fuel, rfl⟩ : ∃ k, fuel = k + 1 := Nat.exists_eq_succ_of_ne_zero (by
      rw [List.length_cons] at hfuel
      omega)
    obtain ⟨a, l, hal⟩ := List.exists_cons_of_ne_nil (hne x List.mem_cons_self)
    have hx := hp x List.mem_cons_self (xs.flatMap enc)
    have hrest : parseMany p fuel (xs.flatMap enc) = some (xs.map item) :=
      ih (fun y hy => hp y (List.mem_cons_of_mem x hy))
        (fun y hy => hne y (List.mem_cons_of_mem x hy)) (Nat.le_of_succ_le_succ hfuel)
    rw [hal, List.cons_append] at hx
    rw [List.flatMap_cons, hal, List.cons_append, parseMany, hx]
    simp [hrest]

theorem length_le_length_flatMap {γ : Type*} {enc : γ → List α} {xs : List γ}
    (hne : ∀ x ∈ xs, enc x ≠ []) : xs.length ≤ (xs.flatMap enc).length := by
  induction xs with
  | nil => exact Nat.zero_le _
  | cons x xs ih =>
    have hpos := List.length_pos_iff.mpr (hne x List.mem_cons_self)
    have hle := ih fun y hy => hne y (List.mem_cons_of_mem x hy)
    rw [List.flatMap_cons, List.length_append, List.length_cons]
    omega

end Pieces
