import Mathlib.Data.List.MinMax
import Mathlib.Tactic.IntervalCases
import Meshconf.Terminal.Banner

/-! # The centered box

Lines that are too long for the terminal are cut every so many bytes, and all widths but that
of the padding are counted in bytes. A cut within a character panics, and so does a title
that is longer than the box.
-/

namespace Meshconf.Terminal

/-! ## Cutting a text -/

/-- The first `n` bytes, if a character ends there. -/
def sliceTo : List Char → ℕ → Option (List Char)
  | _, 0 => some []
  | [], _ + 1 => none
  | c :: s, n + 1 =>
    if c.utf8Size ≤ n + 1 then (sliceTo s (n + 1 - c.utf8Size)).map (c :: ·) else none

/-- The loop of `wrapLine`; `none` if a cut is within a character. -/
def cutLine (width : ℕ) : ℕ → List (List Char) → List Char → Option (List (List Char))
  | 0, _, _ => none
  | fuel + 1, lines, remaining =>
    if width < len remaining then
      (sliceTo remaining width).bind fun line =>
        (sliceFrom remaining width).bind (cutLine width fuel (lines ++ [line]))
    else some (lines ++ [remaining])

def wrapLine (s : List Char) (width : ℕ) : Option (List (List Char)) :=
  if width = 0 then some [s] else cutLine width (len s + 1) [] s

/-- A character of the text ends at byte `n`. -/
def Boundary (s : List Char) (n : ℕ) : Prop := ∃ a b, s = a ++ b ∧ len a = n

/-- The text can be cut every `width` bytes. -/
def Cuttable (width : ℕ) (s : List Char) : Prop :=
  ∀ k, 0 < k → k * width < len s → Boundary s (k * width)

variable {s a b : List Char} {width n : ℕ}

@[simp] theorem len_append (s t : List Char) : len (s ++ t) = len s + len t := by
  induction s with
  | nil => exact (Nat.zero_add _).symm
  | cons c s ih => rw [List.cons_append, len_cons, len_cons, ih, Nat.add_assoc]

theorem boundary_zero (s : List Char) : Boundary s 0 := ⟨[], s, rfl, rfl⟩

theorem sliceTo_eq_some : sliceTo s n = some a ↔ ∃ b, s = a ++ b ∧ len a = n := by
  constructor
  · intro h
    induction s generalizing n a with
    | nil =>
      cases n with
      | zero =>
        obtain rfl := Option.some.inj h
        exact ⟨[], rfl, rfl⟩
      | succ n => cases h
    | cons c s ih =>
      cases n with
      | zero =>
        obtain rfl := Option.some.inj h
        exact ⟨c :: s, rfl, rfl⟩
      | succ n =>
        rw [sliceTo] at h
        split_ifs at h with hle
        obtain ⟨a, ha, rfl⟩ := Option.map_eq_some_iff.mp h
        obtain ⟨b, rfl, hlen⟩ := ih ha
        exact ⟨b, rfl, by rw [len_cons, hlen]; omega⟩
  · rintro ⟨b, rfl, rfl⟩
    induction a with
    | nil => cases b <;> rfl
    | cons c a ih =>
      obtain ⟨m, hm⟩ : ∃ m, c.utf8Size + len a = m + 1 :=
        Nat.exists_eq_succ_of_ne_zero (by have hc := c.utf8Size_pos; omega)
      have hle : c.utf8Size ≤ m + 1 := by omega
      rw [List.cons_append, len_cons, hm, sliceTo, if_pos hle, ← hm, Nat.add_sub_cancel_left, ih]
      rfl

theorem boundary_append (a b : List Char) (n : ℕ) :
    Boundary (a ++ b) (len a + n) ↔ Boundary b n := by
  constructor
  · rintro ⟨c, d, hcd, hlen⟩
    rcases List.append_eq_append_iff.mp hcd with ⟨c', rfl, rfl⟩ | ⟨a', rfl, rfl⟩
    · rw [len_append] at hlen
      exact ⟨c', d, rfl, Nat.add_left_cancel hlen⟩
    · rw [len_append] at hlen
      obtain rfl : n = 0 := by omega
      exact boundary_zero _
  · rintro ⟨c, d, rfl, rfl⟩
    exact ⟨a ++ c, d, (List.append_assoc ..).symm, len_append a c⟩

/-- The first cut, and the cuts of what remains. -/
theorem cuttable_iff (hlong : width < len s) :
    Cuttable width s ↔ ∃ a b, s = a ++ b ∧ len a = width ∧ Cuttable width b := by
  constructor
  · intro h
    have hone := h 1 Nat.one_pos
    rw [Nat.one_mul] at hone
    obtain ⟨a, b, rfl, ha⟩ := hone hlong
    refine ⟨a, b, rfl, ha, fun k hk hlt => ?_⟩
    have hnext := h (k + 1) (Nat.succ_pos k)
    rw [Nat.succ_mul, Nat.add_comm, len_append, ha] at hnext
    exact (boundary_append a b _).mp (by rw [ha]; exact hnext (by omega))
  · rintro ⟨a, b, rfl, ha, hb⟩ k hk hlt
    obtain ⟨k, rfl⟩ := Nat.exists_eq_succ_of_ne_zero (Nat.pos_iff_ne_zero.mp hk)
    rw [Nat.succ_mul, Nat.add_comm] at hlt ⊢
    rw [len_append, ha] at hlt
    nth_rewrite 1 [← ha]
    refine (boundary_append a b _).mpr ?_
    rcases Nat.eq_zero_or_pos k with rfl | hpos
    · rw [Nat.zero_mul]
      exact boundary_zero b
    · exact hb k hpos (by omega)

theorem cuttable_of_short (h : len s ≤ width) : Cuttable width s := by
  intro k hk hlt
  have hle : width ≤ k * width := Nat.le_mul_of_pos_left width hk
  omega

/-- The loop gets to its end if no cut is within a character. -/
theorem cutLine_spec {fuel : ℕ} (lines : List (List Char)) (hw : 0 < width)
    (hfuel : len s < fuel) :
    ((cutLine width fuel lines s).isSome ↔ Cuttable width s) ∧
      ∀ out, cutLine width fuel lines s = some out →
        ∃ pieces, out = lines ++ pieces ∧ pieces.flatten = s ∧ ∀ p ∈ pieces, len p ≤ width := by
  induction fuel generalizing lines s with
  | zero => exact absurd hfuel (Nat.not_lt_zero _)
  | succ fuel ih =>
    rw [cutLine]
    split_ifs with hlong
    · rw [cuttable_iff hlong]
      cases hline : sliceTo s width with
      | none =>
        refine ⟨iff_of_false (by simp) ?_, fun out hout => by simp at hout⟩
        rintro ⟨a, b, rfl, ha, -⟩
        rw [sliceTo_eq_some.mpr ⟨b, rfl, ha⟩] at hline
        cases hline
      | some a =>
        obtain ⟨b, rfl, rfl⟩ := sliceTo_eq_some.mp hline
        rw [len_append] at hfuel
        obtain ⟨hsome, hout⟩ := ih (s := b) (lines ++ [a]) (by omega)
        rw [Option.bind_some, sliceFrom_len, Option.bind_some, hsome]
        constructor
        · constructor
          · exact fun hb => ⟨a, b, rfl, rfl, hb⟩
          · rintro ⟨a', b', heq, hlen, hb'⟩
            have hfrom : sliceFrom (a ++ b) (len a) = sliceFrom (a' ++ b') (len a) := by rw [heq]
            rw [sliceFrom_len, ← hlen, sliceFrom_len] at hfrom
            rwa [Option.some.inj hfrom]
        · intro out h
          obtain ⟨pieces, rfl, hflat, hle⟩ := hout out h
          refine ⟨a :: pieces, by simp, by rw [List.flatten_cons, hflat], ?_⟩
          exact List.forall_mem_cons.mpr ⟨Nat.le_refl _, hle⟩
    · have hshort : len s ≤ width := Nat.le_of_not_lt hlong
      refine ⟨iff_of_true rfl (cuttable_of_short hshort), fun out hout => ?_⟩
      obtain rfl := Option.some.inj hout
      exact ⟨[s], rfl, by simp, by simpa using hshort⟩

/-- What `wrapLine` makes of a text. -/
theorem wrapLine_spec (hw : 0 < width) :
    ((wrapLine s width).isSome ↔ Cuttable width s) ∧
      ∀ pieces, wrapLine s width = some pieces →
        pieces.flatten = s ∧ ∀ p ∈ pieces, len p ≤ width := by
  obtain ⟨hsome, hout⟩ := cutLine_spec (s := s) [] hw (Nat.lt_succ_self (len s))
  rw [wrapLine, if_neg (Nat.pos_iff_ne_zero.mp hw)]
  refine ⟨hsome, fun pieces h => ?_⟩
  obtain ⟨pieces', rfl, hpieces⟩ := hout pieces h
  exact hpieces

/-! ## The box -/

/-- The lines, those that are too long cut. -/
def wrapLines (maxContentW : ℕ) : List (List Char) → Option (List (List Char))
  | [] => some []
  | line :: lines =>
    (if maxContentW < len line then wrapLine line maxContentW else some [line]).bind fun wrapped =>
      (wrapLines maxContentW lines).map (wrapped ++ ·)

def maxLineLen (lines : List (List Char)) : ℕ := (lines.map len).foldr max 0

def horizontal (left right : Char) (boxW : ℕ) : List Char :=
  left :: (List.replicate (boxW - 2) '─' ++ [right])

/-- The padding counts characters. -/
def contentRow (contentW : ℕ) (line : List Char) : List Char :=
  ['│', ' '] ++ (line ++ List.replicate (contentW - line.length) ' ') ++ [' ', '│']

def titleRow (boxW : ℕ) (title : List Char) : List Char :=
  let titlePad := (boxW - 2 - len title) / 2
  '│' :: (List.replicate titlePad ' ' ++ title ++
    List.replicate (boxW - 2 - titlePad - len title) ' ' ++ ['│'])

/-- The rows of the box. -/
def boxRows (contentW : ℕ) (title : List Char) (wrapped : List (List Char)) : List (List Char) :=
  let boxW := contentW + 4
  [horizontal '╭' '╮' boxW, titleRow boxW title, horizontal '├' '┤' boxW] ++
    wrapped.map (contentRow contentW) ++ [horizontal '╰' '╯' boxW]

/-- Each row with the column and the row of the terminal at which it is written. -/
def drawCenteredBox (termW termH : ℕ) (title : List Char) (lines : List (List Char)) :
    Option (List (ℕ × ℕ × List Char)) :=
  let maxContentW := termW - 8
  (wrapLines maxContentW lines).bind fun wrapped =>
    let contentW := min (max (max (maxLineLen wrapped) (len title)) 20) maxContentW
    let boxW := contentW + 4
    let boxH := wrapped.length + 4
    let startCol := (termW - boxW) / 2
    let startRow := (termH - boxH) / 2
    -- The width of the title is subtracted without a check.
    if len title ≤ boxW - 2 then
      some ((boxRows contentW title wrapped).mapIdx fun i row =>
        (startCol % 65536, (startRow + i) % 65536, row))
    else none

variable {termW termH maxContentW boxW contentW : ℕ} {title line : List Char}
  {lines wrapped : List (List Char)} {rows : List (ℕ × ℕ × List Char)}

theorem cuttable_zero (s : List Char) : Cuttable 0 s := by
  intro k _ _
  rw [Nat.mul_zero]
  exact boundary_zero s

theorem wrapLines_spec :
    ((wrapLines maxContentW lines).isSome ↔ ∀ line ∈ lines, Cuttable maxContentW line) ∧
      ∀ wrapped, wrapLines maxContentW lines = some wrapped →
        wrapped.flatten = lines.flatten ∧
          (0 < maxContentW → ∀ p ∈ wrapped, len p ≤ maxContentW) := by
  induction lines with
  | nil =>
    refine ⟨by simp [wrapLines], fun wrapped h => ?_⟩
    obtain rfl := Option.some.inj h
    exact ⟨rfl, by simp⟩
  | cons line lines ih =>
    obtain ⟨hrestSome, hrest⟩ := ih
    have hfirst : ((if maxContentW < len line then wrapLine line maxContentW
          else some [line]).isSome ↔ Cuttable maxContentW line) ∧
        ∀ out, (if maxContentW < len line then wrapLine line maxContentW else some [line]) =
          some out → out.flatten = line ∧ (0 < maxContentW → ∀ p ∈ out, len p ≤ maxContentW) := by
      split_ifs with hlong
      · rcases Nat.eq_zero_or_pos maxContentW with rfl | hw
        · refine ⟨iff_of_true rfl (cuttable_zero line), fun out h => ?_⟩
          obtain rfl := Option.some.inj h
          exact ⟨by simp, nofun⟩
        · obtain ⟨hsome, hout⟩ := wrapLine_spec (s := line) hw
          exact ⟨hsome, fun out h => ⟨(hout out h).1, fun _ => (hout out h).2⟩⟩
      · have hshort : len line ≤ maxContentW := Nat.le_of_not_lt hlong
        refine ⟨iff_of_true rfl (cuttable_of_short hshort), fun out h => ?_⟩
        obtain rfl := Option.some.inj h
        exact ⟨by simp, fun _ => by simpa using hshort⟩
    rw [wrapLines, List.forall_mem_cons, ← hfirst.1, ← hrestSome]
    generalize (if maxContentW < len line then wrapLine line maxContentW else some [line]) = r
      at hfirst
    cases r with
    | none => simp
    | some out =>
      obtain ⟨hflat, hle⟩ := hfirst.2 out rfl
      rw [Option.bind_some, Option.isSome_map]
      refine ⟨by simp, fun wrapped h => ?_⟩
      obtain ⟨rest, hr, rfl⟩ := Option.map_eq_some_iff.mp h
      obtain ⟨hflat', hle'⟩ := hrest rest hr
      refine ⟨by rw [List.flatten_append, hflat, hflat', List.flatten_cons], fun hw p hp => ?_⟩
      rcases List.mem_append.mp hp with hp | hp
      · exact hle hw p hp
      · exact hle' hw p hp

/-- A box is drawn unless its title is too long for the terminal, or a line is cut within a
character. -/
theorem isSome_drawCenteredBox_iff (termW termH : ℕ) (title : List Char)
    (lines : List (List Char)) :
    (drawCenteredBox termW termH title lines).isSome ↔
      len title ≤ termW - 8 + 2 ∧ ∀ line ∈ lines, Cuttable (termW - 8) line := by
  rw [← wrapLines_spec.1]
  unfold drawCenteredBox
  dsimp only
  cases wrapLines (termW - 8) lines with
  | none => exact iff_of_false Bool.false_ne_true fun h => Bool.false_ne_true h.2
  | some wrapped =>
    rw [Option.bind_some]
    split_ifs with htitle
    · simp only [Option.isSome_some, and_true, true_iff]
      omega
    · simp only [Option.isSome_none, Option.isSome_some, and_true, Bool.false_eq_true, false_iff]
      omega

def audioOnlyTitle : List Char := "meshconf".toList

/-- What a caller who joins is told on a terminal without graphics. -/
def audioOnlyLines : List (List Char) :=
  ["Terminal does not support Kitty graphics.".toList,
    "Audio only — video will not be displayed.".toList]

/-- A line that is longer than the terminal is cut, and the dash takes bytes 11 to 13. -/
theorem cuttable_audioOnly (h : 6 ≤ width) :
    (∀ line ∈ audioOnlyLines, Cuttable width line) ↔ width ≠ 6 ∧ width ≠ 12 ∧ width ≠ 13 := by
  rw [← wrapLines_spec.1]
  rcases Nat.lt_or_ge width 43 with hlt | hge
  · have hall : ∀ width < 43, 6 ≤ width → ((wrapLines width audioOnlyLines).isSome ↔
        width ≠ 6 ∧ width ≠ 12 ∧ width ≠ 13) := by decide +kernel
    exact hall width hlt h
  · refine iff_of_true (wrapLines_spec.1.mpr fun line hline => cuttable_of_short ?_) (by omega)
    have hlen : ∀ line ∈ audioOnlyLines, len line ≤ 43 := by decide +kernel
    exact (hlen line hline).trans hge

/-- The application draws its box on every terminal of fifteen columns and more but for those of
twenty and twenty-one. -/
theorem audioOnly_isSome_iff (termW termH : ℕ) :
    (drawCenteredBox termW termH audioOnlyTitle audioOnlyLines).isSome ↔
      14 < termW ∧ termW ≠ 20 ∧ termW ≠ 21 := by
  have htitle : len audioOnlyTitle = 8 := by decide +kernel
  rw [isSome_drawCenteredBox_iff, htitle]
  constructor
  · rintro ⟨hle, hlines⟩
    have hcut := (cuttable_audioOnly (by omega)).mp hlines
    omega
  · intro h
    exact ⟨by omega, (cuttable_audioOnly (by omega)).mpr (by omega)⟩

end Meshconf.Terminal
