import Meshconf.Bytes.Pieces

/-! # The error banner

The words of a message are filled into lines. A word that is too long for a line is broken
only in front of the first word that fits; behind that one it gets a line of its own,
whatever its length.
-/

namespace Meshconf.Terminal

open Pieces

/-! ## Text -/

/-- The white space of Unicode. -/
def isWhitespace (c : Char) : Bool :=
  let n := c.toNat
  (9 ≤ n && n ≤ 13) || n == 0x20 || n == 0x85 || n == 0xA0 || n == 0x1680 ||
    (0x2000 ≤ n && n ≤ 0x200A) || n == 0x2028 || n == 0x2029 || n == 0x202F || n == 0x205F ||
    n == 0x3000

def splitWhitespace (s : List Char) : List (List Char) := words isWhitespace s

/-- What is left of a text without its white space. -/
def ink (s : List Char) : List Char := s.filter (!isWhitespace ·)

/-- The length in bytes. -/
def len : List Char → ℕ
  | [] => 0
  | c :: s => c.utf8Size + len s

/-- The text behind the first `n` bytes, if a character ends there. -/
def sliceFrom : List Char → ℕ → Option (List Char)
  | s, 0 => some s
  | [], _ + 1 => none
  | c :: s, n + 1 => if c.utf8Size ≤ n + 1 then sliceFrom s (n + 1 - c.utf8Size) else none

@[simp] theorem len_nil : len [] = 0 := rfl

@[simp] theorem len_cons (c : Char) (s : List Char) : len (c :: s) = c.utf8Size + len s := rfl

@[simp] theorem ink_append (s t : List Char) : ink (s ++ t) = ink s ++ ink t :=
  List.filter_append ..

theorem length_le_len (s : List Char) : s.length ≤ len s := by
  induction s with
  | nil => exact Nat.zero_le _
  | cons c s ih =>
    have hc := c.utf8Size_pos
    rw [List.length_cons, len_cons]
    omega

/-- A text is cut between characters. -/
theorem sliceFrom_len (s t : List Char) : sliceFrom (s ++ t) (len s) = some t := by
  induction s with
  | nil => cases t <;> rfl
  | cons c s ih =>
    obtain ⟨n, hn⟩ : ∃ n, c.utf8Size + len s = n + 1 :=
      Nat.exists_eq_succ_of_ne_zero (by have hc := c.utf8Size_pos; omega)
    have hle : c.utf8Size ≤ n + 1 := by omega
    rw [List.cons_append, len_cons, hn, sliceFrom, if_pos hle, ← hn, Nat.add_sub_cancel_left, ih]

theorem sliceFrom_len_take (s : List Char) (n : ℕ) :
    sliceFrom s (len (s.take n)) = some (s.drop n) := by
  have h := sliceFrom_len (s.take n) (s.drop n)
  rwa [List.take_append_drop] at h

/-! ## Filling lines -/

/-- `⚠ ` is taken to be four columns wide. -/
def prefixLen : ℕ := 4

def maxW (termW : ℕ) : ℕ := termW - 4

def firstLineMax (termW : ℕ) : ℕ := maxW termW - prefixLen

structure Wrapping where
  lines : List (List Char) := []
  currentLine : List Char := []
  deriving DecidableEq, Repr

/-- Break a long word; `none` if the fuel does not last until nothing remains. -/
def hardBreak (termW : ℕ) : ℕ → Wrapping → List Char → Option Wrapping
  | _, s, [] => some s
  | 0, _, _ :: _ => none
  | fuel + 1, s, c :: rest =>
    let remaining := c :: rest
    let lmax :=
      if s.lines.isEmpty && s.currentLine.isEmpty then firstLineMax termW else maxW termW
    let take := remaining.take lmax
    let taken := len take
    (sliceFrom remaining taken).bind
      (hardBreak termW fuel { s with lines := s.lines ++ [take] })

def wrapWord (termW fuel : ℕ) (s : Wrapping) (word : List Char) : Option Wrapping :=
  let lineMax := if s.lines.isEmpty then firstLineMax termW else maxW termW
  if s.currentLine.isEmpty then
    if len word > lineMax then hardBreak termW fuel s word
    else some { s with currentLine := s.currentLine ++ word }
  else if len s.currentLine + 1 + len word ≤ lineMax then
    some { s with currentLine := s.currentLine ++ [' '] ++ word }
  else some { lines := s.lines ++ [s.currentLine], currentLine := word }

/-- The lines at the end, of which there is at least one. -/
def Wrapping.finish (s : Wrapping) : List (List Char) :=
  let lines := if s.currentLine.isEmpty then s.lines else s.lines ++ [s.currentLine]
  if lines.isEmpty then [[]] else lines

def wrapMessage (termW fuel : ℕ) (message : List Char) : Option (List (List Char)) :=
  ((splitWhitespace message).foldlM (wrapWord termW fuel) {}).map Wrapping.finish

/-- The lines of the banner with the column and the row at which each is written. -/
def drawErrorBanner (termW fuel : ℕ) (message : List Char) :
    Option (List (ℕ × ℕ × List Char)) :=
  (wrapMessage termW fuel message).map fun lines =>
    lines.mapIdx fun i line =>
      let fullLine := if i = 0 then ['⚠', ' '] ++ line else List.replicate prefixLen ' ' ++ line
      let col := (termW - len fullLine) / 2
      (col % 65536, (1 + i) % 65536, fullLine)

/-! ## Widths -/

/-- The columns that the line with number `i` may take. -/
def lineMax (termW i : ℕ) : ℕ := if i = 0 then firstLineMax termW else maxW termW

/-- Every line that may take any column takes no more than it may. -/
def Fits (termW : ℕ) (lines : List (List Char)) : Prop :=
  ∀ i (hi : i < lines.length), 0 < lineMax termW i → lines[i].length ≤ lineMax termW i

/-- No word that is too long for every line comes behind one that fits its line. The first word
is to fit the first line. -/
def ShortBehind (termW i : ℕ) (ws : List (List Char)) : Prop :=
  (ws.zipIdx i).Pairwise fun v w => len v.1 ≤ lineMax termW v.2 → w.1.length ≤ maxW termW

instance (termW i : ℕ) (ws : List (List Char)) : Decidable (ShortBehind termW i ws) :=
  inferInstanceAs (Decidable (List.Pairwise _ _))

variable {termW fuel i : ℕ} {s t : Wrapping} {word v : List Char} {ws : List (List Char)}

theorem lineMax_le (termW i : ℕ) : lineMax termW i ≤ maxW termW := by
  unfold lineMax firstLineMax
  split_ifs <;> omega

theorem lineMax_length (termW : ℕ) (lines : List (List Char)) :
    lineMax termW lines.length = if lines.isEmpty then firstLineMax termW else maxW termW := by
  cases lines <;> rfl

theorem fits_snoc {lines : List (List Char)} {l : List Char} :
    Fits termW (lines ++ [l]) ↔ Fits termW lines ∧
      (0 < lineMax termW lines.length → l.length ≤ lineMax termW lines.length) := by
  constructor
  · intro h
    refine ⟨fun i hi hpos => ?_, fun hpos => ?_⟩
    · have hline := h i (by simp; omega) hpos
      rwa [List.getElem_append_left hi] at hline
    · simpa using h lines.length (by simp) hpos
  · rintro ⟨hlines, hl⟩ i hi hpos
    rw [List.length_append, List.length_singleton] at hi
    rcases Nat.lt_succ_iff_lt_or_eq.mp hi with hlt | rfl
    · rw [List.getElem_append_left hlt]
      exact hlines i hlt hpos
    · simpa using hl hpos

theorem shortBehind_cons : ShortBehind termW i (v :: ws) ↔
    (len v ≤ lineMax termW i → ∀ w ∈ ws, w.length ≤ maxW termW) ∧
      ShortBehind termW (i + 1) ws := by
  unfold ShortBehind
  rw [List.zipIdx_cons, List.pairwise_cons]
  refine and_congr_left fun _ => ⟨fun h hv w hw => ?_, fun h w hw hv => ?_⟩
  · obtain ⟨k, hk, rfl⟩ := List.mem_iff_getElem.mp hw
    exact h (ws[k], i + 1 + k) (by simp [List.mk_mem_zipIdx_iff_le_and_getElem?_sub, hk]) hv
  · exact h hv w.1 (List.fst_mem_of_mem_zipIdx hw)

theorem shortBehind_of_short (h : ∀ w ∈ ws, w.length ≤ maxW termW) : ShortBehind termW i ws := by
  induction ws generalizing i with
  | nil => exact List.Pairwise.nil
  | cons v ws ih =>
    have hws : ∀ w ∈ ws, w.length ≤ maxW termW := fun w hw => h w (List.mem_cons_of_mem v hw)
    exact shortBehind_cons.mpr ⟨fun _ => hws, ih hws⟩

/-! ## One word -/

section Words

variable {lines : List (List Char)} {c : Char} {rest : List Char}

theorem hardBreak_cons : hardBreak termW (fuel + 1) ⟨lines, []⟩ (c :: rest) =
    hardBreak termW fuel
      ⟨lines ++ [(c :: rest).take (lineMax termW lines.length)], []⟩
      ((c :: rest).drop (lineMax termW lines.length)) := by
  rw [hardBreak, lineMax_length]
  simp only [List.isEmpty_nil, Bool.and_true, sliceFrom_len_take, Option.bind_some]

/-- A broken word is written in pieces that fit. -/
theorem hardBreak_pieces (h : hardBreak termW fuel ⟨lines, []⟩ word = some t) :
    ∃ pieces, t = ⟨lines ++ pieces, []⟩ ∧ pieces.flatten = word ∧
      (Fits termW lines → Fits termW (lines ++ pieces)) := by
  induction fuel generalizing lines word with
  | zero =>
    cases word with
    | nil => exact ⟨[], by simpa [hardBreak] using h.symm, rfl, by simp⟩
    | cons c rest => cases h
  | succ fuel ih =>
    cases word with
    | nil => exact ⟨[], by simpa [hardBreak] using h.symm, rfl, by simp⟩
    | cons c rest =>
      rw [hardBreak_cons] at h
      obtain ⟨pieces, rfl, hflat, hfits⟩ := ih h
      refine ⟨(c :: rest).take (lineMax termW lines.length) :: pieces, ?_, ?_, fun hlines => ?_⟩
      · rw [List.append_assoc, List.singleton_append]
      · rw [List.flatten_cons, hflat, List.take_append_drop]
      · have hfirst := fits_snoc.mpr ⟨hlines, fun _ =>
          List.length_take_le (lineMax termW lines.length) (c :: rest)⟩
        simpa using hfits hfirst

/-- Each round but the first takes a character, if a line has room for one. -/
theorem hardBreak_terminates (hw : 0 < maxW termW)
    (hfuel : word.length + (1 - lines.length) ≤ fuel) :
    ∃ t, hardBreak termW fuel ⟨lines, []⟩ word = some t := by
  induction fuel generalizing lines word with
  | zero =>
    obtain rfl : word = [] := List.length_eq_zero_iff.mp (by omega)
    exact ⟨_, rfl⟩
  | succ fuel ih =>
    cases word with
    | nil => exact ⟨_, rfl⟩
    | cons c rest =>
      rw [hardBreak_cons]
      refine ih ?_
      have hmax : lines.length = 0 ∨ lineMax termW lines.length = maxW termW := by
        unfold lineMax
        split_ifs with hz
        · exact .inl hz
        · exact .inr rfl
      rw [List.length_drop, List.length_append, List.length_singleton]
      rw [List.length_cons] at hfuel ⊢
      rcases hmax with hz | hmax <;> omega

/-- Without room for a character, nothing is ever taken. -/
theorem hardBreak_stuck (hw : maxW termW = 0) :
    hardBreak termW fuel ⟨lines, []⟩ (c :: rest) = none := by
  induction fuel generalizing lines with
  | zero => rfl
  | succ fuel ih =>
    have hmax : lineMax termW lines.length = 0 := by
      have hle := lineMax_le termW lines.length
      omega
    rw [hardBreak_cons, hmax]
    exact ih

end Words

/-- What becomes of a word. -/
theorem wrapWord_cases (h : wrapWord termW fuel s word = some t) :
    (s.currentLine = [] ∧ lineMax termW s.lines.length < len word ∧
      hardBreak termW fuel s word = some t) ∨
    (s.currentLine = [] ∧ len word ≤ lineMax termW s.lines.length ∧ t = ⟨s.lines, word⟩) ∨
    (s.currentLine ≠ [] ∧ len s.currentLine + 1 + len word ≤ lineMax termW s.lines.length ∧
      t = ⟨s.lines, s.currentLine ++ [' '] ++ word⟩) ∨
    (s.currentLine ≠ [] ∧ lineMax termW s.lines.length < len s.currentLine + 1 + len word ∧
      t = ⟨s.lines ++ [s.currentLine], word⟩) := by
  obtain ⟨lines, current⟩ := s
  unfold wrapWord at h
  rw [← lineMax_length] at h
  cases current with
  | nil =>
    simp only [List.isEmpty_nil, if_true] at h
    split_ifs at h with hlong
    · exact .inl ⟨rfl, hlong, h⟩
    · exact .inr (.inl ⟨rfl, Nat.le_of_not_lt hlong, by simpa using h.symm⟩)
  | cons c rest =>
    have hne : (c :: rest : List Char) ≠ [] := List.cons_ne_nil c rest
    simp only [List.isEmpty_cons, Bool.false_eq_true, if_false] at h
    split_ifs at h with hroom
    · exact .inr (.inr (.inl ⟨hne, hroom, by simpa using h.symm⟩))
    · exact .inr (.inr (.inr ⟨hne, Nat.lt_of_not_le hroom, by simpa using h.symm⟩))

/-- The lines with the one that is being filled. -/
def Wrapping.all (s : Wrapping) : List (List Char) := s.lines ++ [s.currentLine]

theorem flatten_finish (s : Wrapping) : s.finish.flatten = s.all.flatten := by
  obtain ⟨lines, current⟩ := s
  cases current <;> cases lines <;> simp [Wrapping.finish, Wrapping.all]

theorem finish_eq_all (hs : s.currentLine ≠ []) : s.finish = s.all := by
  simp [Wrapping.finish, Wrapping.all, hs]

/-- A word adds its text. -/
theorem wrapWord_ink (h : wrapWord termW fuel s word = some t) :
    ink t.all.flatten = ink s.all.flatten ++ ink word := by
  obtain ⟨lines, current⟩ := s
  have hspace : ink [' '] = [] := by decide
  rcases wrapWord_cases h with ⟨rfl, -, hbreak⟩ | ⟨rfl, -, rfl⟩ | ⟨-, -, rfl⟩ | ⟨-, -, rfl⟩
  · obtain ⟨pieces, rfl, hflat, -⟩ := hardBreak_pieces hbreak
    simp [Wrapping.all, hflat]
  · simp [Wrapping.all]
  · simp only [Wrapping.all, List.flatten_append, List.flatten_singleton, ink_append, hspace,
      List.nil_append, List.append_assoc]
  · simp [Wrapping.all]

/-- Behind a word that was not broken, a word fits if it is not too long for every line. -/
theorem wrapWord_behind (hw : 0 < maxW termW) (hs : s.currentLine ≠ []) (hword : word ≠ [])
    (h : wrapWord termW fuel s word = some t) :
    t.currentLine ≠ [] ∧
      (Fits termW t.all ↔ Fits termW s.all ∧ word.length ≤ maxW termW) := by
  obtain ⟨lines, current⟩ := s
  rcases wrapWord_cases h with ⟨hnil, -⟩ | ⟨hnil, -⟩ | ⟨-, hroom, rfl⟩ | ⟨-, -, rfl⟩
  · exact absurd hnil hs
  · exact absurd hnil hs
  · have hcurrent := length_le_len current
    have hlen := length_le_len word
    have hmax := lineMax_le termW lines.length
    dsimp only at hroom
    refine ⟨by simp, ?_⟩
    unfold Wrapping.all
    rw [fits_snoc, fits_snoc, List.length_append, List.length_append, List.length_singleton]
    dsimp only
    constructor
    · rintro ⟨hlines, -⟩
      exact ⟨⟨hlines, fun _ => by omega⟩, by omega⟩
    · rintro ⟨⟨hlines, -⟩, -⟩
      exact ⟨hlines, fun _ => by omega⟩
  · have hmax : lineMax termW (lines ++ [current]).length = maxW termW := by
      rw [List.length_append, List.length_singleton]
      rfl
    refine ⟨hword, ?_⟩
    unfold Wrapping.all
    rw [fits_snoc, hmax]
    exact and_congr_right fun _ => ⟨fun hle => hle hw, fun hle _ => hle⟩

theorem wrapWord_terminates (hw : 0 < maxW termW) (hfuel : word.length + 1 ≤ fuel) :
    ∃ t, wrapWord termW fuel s word = some t := by
  obtain ⟨lines, current⟩ := s
  unfold wrapWord
  cases current with
  | nil =>
    dsimp only [List.isEmpty_nil]
    rw [if_pos rfl]
    by_cases hlong : len word > if lines.isEmpty then firstLineMax termW else maxW termW
    · rw [if_pos hlong]
      exact hardBreak_terminates hw (by omega)
    · exact ⟨_, if_neg hlong⟩
  | cons c rest =>
    dsimp only [List.isEmpty_cons]
    rw [if_neg Bool.false_ne_true]
    split_ifs <;> exact ⟨_, rfl⟩

/-! ## All words -/

theorem foldlM_ink (h : ws.foldlM (wrapWord termW fuel) s = some t) :
    ink t.all.flatten = ink s.all.flatten ++ ink ws.flatten := by
  induction ws generalizing s with
  | nil =>
    obtain rfl : s = t := by simpa using h
    simp [ink]
  | cons word ws ih =>
    rw [List.foldlM_cons] at h
    obtain ⟨u, hu, hrest⟩ := Option.bind_eq_some_iff.mp h
    rw [ih hrest, wrapWord_ink hu, List.flatten_cons, ink_append, List.append_assoc]

theorem foldlM_behind (hw : 0 < maxW termW) (hs : s.currentLine ≠ []) (hws : ∀ w ∈ ws, w ≠ [])
    (h : ws.foldlM (wrapWord termW fuel) s = some t) :
    t.currentLine ≠ [] ∧
      (Fits termW t.all ↔ Fits termW s.all ∧ ∀ w ∈ ws, w.length ≤ maxW termW) := by
  induction ws generalizing s with
  | nil =>
    obtain rfl : s = t := by simpa using h
    exact ⟨hs, by simp⟩
  | cons word ws ih =>
    rw [List.foldlM_cons] at h
    obtain ⟨u, hu, hrest⟩ := Option.bind_eq_some_iff.mp h
    obtain ⟨hcurrent, hone⟩ := wrapWord_behind hw hs (hws word List.mem_cons_self) hu
    obtain ⟨ht, hall⟩ := ih hcurrent (fun w hw => hws w (List.mem_cons_of_mem word hw)) hrest
    exact ⟨ht, by rw [hall, hone, List.forall_mem_cons, and_assoc]⟩

/-- While the words in front are broken, every line fits. -/
theorem foldlM_front {lines : List (List Char)} (hw : 0 < maxW termW)
    (hi : lineMax termW lines.length = lineMax termW i) (hlines : Fits termW lines)
    (hws : ∀ w ∈ ws, w ≠ []) (h : ws.foldlM (wrapWord termW fuel) ⟨lines, []⟩ = some t) :
    Fits termW t.finish ↔ ShortBehind termW i ws := by
  induction ws generalizing lines i with
  | nil =>
    obtain rfl : ⟨lines, []⟩ = t := by simpa using h
    refine iff_of_true ?_ List.Pairwise.nil
    cases lines with
    | nil =>
      intro i hi _
      obtain rfl : i = 0 := Nat.lt_one_iff.mp hi
      exact Nat.zero_le _
    | cons l lines => exact hlines
  | cons word ws ih =>
    rw [List.foldlM_cons] at h
    obtain ⟨u, hu, hrest⟩ := Option.bind_eq_some_iff.mp h
    have hword := hws word List.mem_cons_self
    have htail : ∀ w ∈ ws, w ≠ [] := fun w hw => hws w (List.mem_cons_of_mem word hw)
    rw [shortBehind_cons]
    rcases wrapWord_cases hu with ⟨-, hlong, hbreak⟩ | ⟨-, hfits, rfl⟩ | ⟨hne, -⟩ | ⟨hne, -⟩
    · obtain ⟨pieces, rfl, hflat, hpieces⟩ := hardBreak_pieces hbreak
      have hmore : lineMax termW (lines ++ pieces).length = lineMax termW (i + 1) := by
        have hpos : (lines ++ pieces).length ≠ 0 := by
          rintro hzero
          have hnil := List.append_eq_nil_iff.mp (List.length_eq_zero_iff.mp hzero)
          exact hword (by rw [← hflat, hnil.2]; rfl)
        simp only [lineMax, hpos, if_false, Nat.succ_ne_zero]
      rw [ih hmore (hpieces hlines) htail hrest]
      refine ⟨fun h => ⟨fun hle => ?_, h⟩, And.right⟩
      dsimp only at hlong
      omega
    · dsimp only at hfits
      obtain ⟨ht, hall⟩ := foldlM_behind hw hword htail hrest
      have hfirst : Fits termW (lines ++ [word]) :=
        fits_snoc.mpr ⟨hlines, fun _ => Nat.le_trans (length_le_len word) hfits⟩
      rw [finish_eq_all ht, hall]
      constructor
      · rintro ⟨-, hshort⟩
        exact ⟨fun _ => hshort, shortBehind_of_short hshort⟩
      · rintro ⟨hshort, -⟩
        exact ⟨hfirst, hshort (hi ▸ hfits)⟩
    · exact absurd rfl hne
    · exact absurd rfl hne

theorem foldlM_terminates (hw : 0 < maxW termW) (hfuel : ∀ w ∈ ws, w.length + 1 ≤ fuel) :
    ∃ t, ws.foldlM (wrapWord termW fuel) s = some t := by
  induction ws generalizing s with
  | nil => exact ⟨s, rfl⟩
  | cons word ws ih =>
    obtain ⟨u, hu⟩ := wrapWord_terminates (s := s) hw (hfuel word List.mem_cons_self)
    obtain ⟨t, ht⟩ := ih (s := u) fun w hw => hfuel w (List.mem_cons_of_mem word hw)
    exact ⟨t, by rw [List.foldlM_cons, hu]; exact ht⟩

/-! ## The banner -/

variable {message : List Char}

/-- Nothing but white space gets lost or is added. -/
theorem wrapMessage_ink {lines : List (List Char)}
    (h : wrapMessage termW fuel message = some lines) : ink lines.flatten = ink message := by
  obtain ⟨t, ht, rfl⟩ := Option.map_eq_some_iff.mp h
  rw [flatten_finish, foldlM_ink ht]
  have hflat : (splitWhitespace message).flatten = ink message := flatten_words _ _
  rw [hflat]
  simp [Wrapping.all, ink]

/-- The loops end unless there is a word and no column for it. -/
theorem wrapMessage_terminates_iff :
    (∃ fuel lines, wrapMessage termW fuel message = some lines) ↔
      splitWhitespace message = [] ∨ 4 < termW := by
  constructor
  · rintro ⟨fuel, lines, h⟩
    by_contra hcon
    obtain ⟨hne, hnarrow⟩ := not_or.mp hcon
    have hw : maxW termW = 0 := Nat.sub_eq_zero_of_le (Nat.le_of_not_lt hnarrow)
    obtain ⟨word, ws, hws⟩ := List.exists_cons_of_ne_nil hne
    obtain ⟨t, ht, -⟩ := Option.map_eq_some_iff.mp h
    rw [hws, List.foldlM_cons] at ht
    obtain ⟨u, hu, -⟩ := Option.bind_eq_some_iff.mp ht
    have hword : word ≠ [] := ne_nil_of_mem_words (p := isWhitespace) (l := message) (by
      unfold splitWhitespace at hws
      rw [hws]
      exact List.mem_cons_self)
    have hpos := length_le_len word
    have hlen := List.length_pos_iff.mpr hword
    have hmax := lineMax_le termW ({} : Wrapping).lines.length
    rcases wrapWord_cases hu with ⟨-, -, hbreak⟩ | ⟨-, hle, -⟩ | ⟨hcur, -⟩ | ⟨hcur, -⟩
    · obtain ⟨c, rest, rfl⟩ := List.exists_cons_of_ne_nil hword
      rw [hardBreak_stuck hw] at hbreak
      cases hbreak
    · omega
    · exact hcur rfl
    · exact hcur rfl
  · rintro (hnil | hwide)
    · exact ⟨0, [[]], by rw [wrapMessage, hnil]; rfl⟩
    · have hw : 0 < maxW termW := Nat.sub_pos_of_lt hwide
      refine ⟨(splitWhitespace message).flatten.length + 1, ?_⟩
      obtain ⟨t, ht⟩ := foldlM_terminates (s := {}) hw fun w hmem =>
        Nat.succ_le_succ (List.sublist_flatten_of_mem hmem).length_le
      exact ⟨t.finish, by rw [wrapMessage, ht]; rfl⟩

/-- The lines fit if no word behind one that was not broken is too long. -/
theorem fits_wrapMessage_iff {lines : List (List Char)} (hwide : 4 < termW)
    (h : wrapMessage termW fuel message = some lines) :
    Fits termW lines ↔ ShortBehind termW 0 (splitWhitespace message) := by
  obtain ⟨t, ht, rfl⟩ := Option.map_eq_some_iff.mp h
  have hnone : Fits termW [] := fun i hi _ => absurd hi (Nat.not_lt_zero i)
  exact foldlM_front (Nat.sub_pos_of_lt hwide) rfl hnone (fun _ hmem => ne_nil_of_mem_words hmem) ht

/-- Lines that fit are drawn within the terminal, a character in a column. -/
theorem drawErrorBanner_within {drawn : List (ℕ × ℕ × List Char)} (hwide : 8 < termW)
    (hshort : ShortBehind termW 0 (splitWhitespace message))
    (h : drawErrorBanner termW fuel message = some drawn) :
    ∀ d ∈ drawn, d.1 + d.2.2.length ≤ termW := by
  obtain ⟨lines, hlines, rfl⟩ := Option.map_eq_some_iff.mp h
  have hfits := (fits_wrapMessage_iff (by omega) hlines).mpr hshort
  intro d hd
  obtain ⟨i, hi, rfl⟩ := List.mem_mapIdx.mp hd
  dsimp only
  generalize hfull : (if i = 0 then ['⚠', ' '] ++ lines[i]
    else List.replicate prefixLen ' ' ++ lines[i]) = fullLine
  have hline : fullLine.length ≤ termW := by
    have hle := hfits i hi
    unfold lineMax firstLineMax maxW prefixLen at hle
    subst hfull
    split_ifs at hle ⊢ with hfirst
    · rw [List.length_append, List.length_cons, List.length_singleton]
      omega
    · rw [List.length_append, List.length_replicate, prefixLen]
      omega
  have hcol := Nat.mod_le ((termW - len fullLine) / 2) 65536
  have hlen := length_le_len fullLine
  omega

/-- The loops end with lines that fit and that hold the text of the message. -/
def Wraps (termW : ℕ) (message : List Char) : Prop :=
  ∃ fuel lines, wrapMessage termW fuel message = some lines ∧ Fits termW lines ∧
    ink lines.flatten = ink message

/-- A message is wrapped if it has no word, or if there is a column for a word and no word that
is too long for every line comes behind one that was not broken. -/
theorem wraps_iff (termW : ℕ) (message : List Char) :
    Wraps termW message ↔ splitWhitespace message = [] ∨
      4 < termW ∧ ShortBehind termW 0 (splitWhitespace message) := by
  constructor
  · rintro ⟨fuel, lines, hlines, hfits, -⟩
    rcases wrapMessage_terminates_iff.mp ⟨fuel, lines, hlines⟩ with hnil | hwide
    · exact .inl hnil
    · exact .inr ⟨hwide, (fits_wrapMessage_iff hwide hlines).mp hfits⟩
  · rintro (hnil | ⟨hwide, hshort⟩)
    · have hlines : wrapMessage termW 0 message = some [[]] := by
        rw [wrapMessage, hnil]
        rfl
      refine ⟨0, [[]], hlines, fun i hi _ => ?_, wrapMessage_ink hlines⟩
      obtain rfl : i = 0 := Nat.lt_one_iff.mp hi
      exact Nat.zero_le _
    · obtain ⟨fuel, lines, hlines⟩ :=
        wrapMessage_terminates_iff.mpr (.inr hwide : splitWhitespace message = [] ∨ _)
      exact ⟨fuel, lines, hlines, (fits_wrapMessage_iff hwide hlines).mpr hshort,
        wrapMessage_ink hlines⟩

/-- A second word of six columns is not broken on a terminal that leaves five, and four columns
leave none for any word. -/
theorem not_wraps : ¬ Wraps 9 "a bbbbbb".toList ∧ ¬ Wraps 4 "a".toList := by
  refine ⟨?_, ?_⟩
  · rintro ⟨fuel, lines, hlines, hfits, -⟩
    have hshort := (fits_wrapMessage_iff (by decide) hlines).mp hfits
    exact absurd hshort (by decide)
  · rintro ⟨fuel, lines, hlines, -⟩
    have hends := wrapMessage_terminates_iff.mp ⟨fuel, lines, hlines⟩
    exact absurd hends (by decide)

end Meshconf.Terminal
