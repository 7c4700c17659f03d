import Meshconf.AnnexB.Scanner

/-! # The scanner on arbitrary bytes

A start code is the pattern `00 00 01` with a zero byte directly before it, if there is
one. The ranges of the scanner are what stands between one start code and the next one,
or the end, where that is not empty. The loops are compared with one recursion over
positions, without fuel.
-/

namespace Meshconf.AnnexB

/-- The pattern `00 00 01` begins at `q`. -/
def Occurs (data : List UInt8) (q : ℕ) : Prop := [0, 0, 1] <+: data.drop q

instance : DecidableRel Occurs := fun data q =>
  inferInstanceAs (Decidable ([0, 0, 1] <+: data.drop q))

/--
Where the start code with the pattern at `q` begins: at a zero byte directly before it, unless that
belongs to an earlier start code. An earlier one begins at or before its own pattern.
-/
def codeStart (data : List UInt8) (q : ℕ) : ℕ :=
  if 0 < q ∧ data[q - 1]? = some 0 ∧ ∀ r < q, Occurs data r → r + 3 ≤ q - 1 then q - 1 else q

/-- Where the bytes behind the pattern at `q` end: at the next start code, or with the data. -/
inductive UnitEnd (data : List UInt8) (q : ℕ) : ℕ → Prop where
  | next {r : ℕ} : q < r → Occurs data r → (∀ p, q < p → p < r → ¬ Occurs data p) →
      UnitEnd data q (codeStart data r)
  | last : (∀ r, q < r → ¬ Occurs data r) → UnitEnd data q data.length

/-- The ranges are exactly the non-empty parts between start codes. -/
structure Exact (data : List UInt8) (ranges : List (ℕ × ℕ)) : Prop where
  nonempty : ∀ r ∈ ranges, r.1 < r.2
  inBounds : ∀ r ∈ ranges, r.2 ≤ data.length
  increasing : ranges.Pairwise fun r s => r.2 < s.1
  clean : ∀ r ∈ ranges, ∀ q, r.1 ≤ q → q < r.2 → ¬ Occurs data q
  preceded : ∀ r ∈ ranges, 3 ≤ r.1 ∧ Occurs data (r.1 - 3)
  complete : ∀ q e, Occurs data q → UnitEnd data q e → q + 3 < e → (q + 3, e) ∈ ranges

/-- The test for a start code with checked reads, `none` for a read out of bounds. -/
def readStartCode (data : List UInt8) (i : ℕ) : Option (Option ℕ) :=
  if i + 3 ≤ data.length then
    data[i]?.bind fun a =>
    if a ≠ 0 then some none
    else
      data[i + 1]?.bind fun b =>
      if b ≠ 0 then some none
      else
        (if i + 4 ≤ data.length then
          data[i + 2]?.bind fun c =>
          if c ≠ 0 then some false else data[i + 3]?.map (· == 1)
        else some false).bind fun long =>
        if long then some (some 4)
        else data[i + 2]?.map fun c => if c = 1 then some 3 else none
  else some none

variable {data : List UInt8} {i p q r e fuel : ℕ}

/-! ## Start codes and patterns -/

theorem occurs_iff :
    Occurs data q ↔ data[q]? = some 0 ∧ data[q + 1]? = some 0 ∧ data[q + 2]? = some 1 := by
  have hget : ∀ k, data[q + k]? = (data.drop q)[k]? := fun k => by rw [List.getElem?_drop]
  have hget₀ : data[q]? = (data.drop q)[0]? := hget 0
  rw [Occurs, hget₀, hget 1, hget 2]
  rcases data.drop q with _ | ⟨a, _ | ⟨b, _ | ⟨c, rest⟩⟩⟩
  · simp
  · simp
  · simp
  · simp only [List.cons_prefix_cons, List.nil_prefix, and_true, List.getElem?_cons_zero,
      List.getElem?_cons_succ, Option.some.injEq]
    rw [eq_comm, @eq_comm _ 0 b, @eq_comm _ 1 c]

theorem lt_of_getElem?_eq {a : UInt8} (h : data[i]? = some a) : i < data.length :=
  (List.getElem?_eq_some_iff.mp h).1

/-- A start code of three bytes is a pattern, one of four bytes a zero byte and a pattern. -/
theorem startCodeAt_eq_some_iff {scLen : ℕ} :
    startCodeAt data i = some scLen ↔
      scLen = 3 ∧ Occurs data i ∨ scLen = 4 ∧ data[i]? = some 0 ∧ Occurs data (i + 1) := by
  simp only [startCodeAt, occurs_iff]
  constructor
  · intro h
    split_ifs at h with hpair hlong hshort
    · exact .inr ⟨(Option.some.inj h).symm, hpair.2.1, hpair.2.2, hlong.2⟩
    · exact .inl ⟨(Option.some.inj h).symm, hpair.2.1, hpair.2.2, hshort⟩
  · rintro (⟨rfl, ha, hb, hc⟩ | ⟨rfl, ha, hb, hc, hd⟩)
    · have hlen := lt_of_getElem?_eq hc
      rw [if_pos ⟨by omega, ha, hb⟩, if_neg (by simp [hc]), if_pos hc]
    · have hlen := lt_of_getElem?_eq hd
      rw [if_pos ⟨by omega, ha, hb⟩, if_pos ⟨by omega, hc, hd⟩]

theorem startCodeAt_of_occurs (h : Occurs data q) : startCodeAt data q = some 3 :=
  startCodeAt_eq_some_iff.mpr (.inl ⟨rfl, h⟩)

/-- Patterns do not overlap. -/
theorem Occurs.add_three_le (hq : Occurs data q) (hr : Occurs data r) (hlt : q < r) :
    q + 3 ≤ r := by
  obtain ⟨-, hq₁, hq₂⟩ := occurs_iff.mp hq
  obtain ⟨hr₀, hr₁, -⟩ := occurs_iff.mp hr
  by_contra hle
  obtain rfl | rfl : r = q + 1 ∨ r = q + 2 := by omega
  · rw [hq₂] at hr₁
    cases hr₁
  · rw [hq₂] at hr₀
    cases hr₀

theorem codeStart_le : codeStart data q ≤ q := by
  unfold codeStart
  split_ifs <;> omega

/-- The byte before a pattern is never part of an earlier start code if it is zero. -/
theorem codeStart_of_zero (hq : Occurs data q) (hpos : 0 < q) (hz : data[q - 1]? = some 0) :
    codeStart data q = q - 1 := by
  refine if_pos ⟨hpos, hz, fun r hr hocc => ?_⟩
  have hfar := hocc.add_three_le hq hr
  by_contra hle
  obtain ⟨-, -, hone⟩ := occurs_iff.mp hocc
  obtain rfl : q = r + 3 := by omega
  rw [show r + 3 - 1 = r + 2 from rfl, hone] at hz
  cases hz

theorem codeStart_of_ne (hnot : ¬ (0 < q ∧ data[q - 1]? = some 0)) : codeStart data q = q :=
  if_neg fun h => hnot ⟨h.1, h.2.1⟩

/-- A start code is seen where it begins. -/
theorem startCodeAt_codeStart (hq : Occurs data q) :
    startCodeAt data (codeStart data q) = some (q + 3 - codeStart data q) := by
  rw [startCodeAt_eq_some_iff]
  by_cases h : 0 < q ∧ data[q - 1]? = some 0
  · obtain ⟨n, rfl⟩ : ∃ n, q = n + 1 := ⟨q - 1, by omega⟩
    rw [codeStart_of_zero hq h.1 h.2]
    exact .inr ⟨by omega, h.2, hq⟩
  · rw [codeStart_of_ne h]
    exact .inl ⟨by omega, hq⟩

/-- A later start code begins behind the whole pattern of an earlier one. -/
theorem Occurs.add_three_le_codeStart (hq : Occurs data q) (hr : Occurs data r) (hlt : q < r) :
    q + 3 ≤ codeStart data r := by
  have hfar := hq.add_three_le hr hlt
  by_cases h : 0 < r ∧ data[r - 1]? = some 0
  · rw [codeStart_of_zero hr h.1 h.2]
    by_contra hle
    obtain rfl : r = q + 3 := by omega
    rw [show q + 3 - 1 = q + 2 from rfl, (occurs_iff.mp hq).2.2] at h
    cases h.2
  · rw [codeStart_of_ne h]
    exact hfar

theorem three_le_of_startCodeAt {scLen : ℕ} (h : startCodeAt data i = some scLen) :
    3 ≤ scLen := by
  rcases startCodeAt_eq_some_iff.mp h with ⟨rfl, -⟩ | ⟨rfl, -⟩ <;> decide

/-- The pattern that ends with a start code. -/
theorem occurs_of_startCodeAt {scLen : ℕ} (h : startCodeAt data i = some scLen) :
    Occurs data (i + scLen - 3) := by
  rcases startCodeAt_eq_some_iff.mp h with ⟨rfl, hocc⟩ | ⟨rfl, -, hocc⟩
  · exact hocc
  · exact hocc

theorem Occurs.add_three_le_length (h : Occurs data q) : q + 3 ≤ data.length := by
  have := lt_of_getElem?_eq (occurs_iff.mp h).2.2
  omega

/-! ## The inner loop -/

theorem le_naluEnd (fuel p : ℕ) : p ≤ naluEnd data fuel p := by
  induction fuel generalizing p with
  | zero => exact le_rfl
  | succ fuel ih =>
    rw [naluEnd]
    split_ifs
    · exact le_rfl
    · exact (Nat.le_succ p).trans (ih (p + 1))
    · exact le_rfl

theorem naluEnd_le (h : p ≤ data.length) : naluEnd data fuel p ≤ data.length := by
  induction fuel generalizing p with
  | zero => exact h
  | succ fuel ih =>
    rw [naluEnd]
    split_ifs with hlt
    · exact h
    · exact ih hlt
    · exact h

/-- No start code begins inside a unit. -/
theorem startCodeAt_of_lt_naluEnd (hle : p ≤ i) (hlt : i < naluEnd data fuel p) :
    startCodeAt data i = none := by
  induction fuel generalizing p with
  | zero => exact absurd hlt (not_lt.mpr hle)
  | succ fuel ih =>
    rw [naluEnd] at hlt
    split_ifs at hlt with hp hcode
    · omega
    · rcases hle.eq_or_lt with rfl | hle
      · simpa using hcode
      · exact ih hle hlt
    · omega

/-- The inner loop stops at a start code, or at the end of the data. -/
theorem isSome_startCodeAt_naluEnd (hfuel : data.length ≤ p + fuel)
    (hlt : naluEnd data fuel p < data.length) :
    (startCodeAt data (naluEnd data fuel p)).isSome := by
  induction fuel generalizing p with
  | zero => exact absurd hlt (not_lt.mpr hfuel)
  | succ fuel ih =>
    rw [naluEnd] at hlt ⊢
    split_ifs at hlt ⊢ with hp hcode
    · exact hcode
    · exact ih (by omega) hlt
    · omega

theorem naluEnd_add (hfuel : data.length ≤ p + fuel) (n : ℕ) :
    naluEnd data (fuel + n) p = naluEnd data fuel p := by
  induction fuel generalizing p with
  | zero =>
    cases n with
    | zero => rfl
    | succ n => exact if_neg (not_lt.mpr hfuel)
  | succ fuel ih =>
    rw [Nat.add_right_comm, naluEnd, naluEnd, ih (by omega)]

/-- A unit goes up to the next start code, or to the end. -/
theorem unitEnd_naluEnd (hq : Occurs data q) :
    UnitEnd data q (naluEnd data data.length (q + 3)) := by
  have hbefore : ∀ r, Occurs data r → q < r →
      naluEnd data data.length (q + 3) ≤ codeStart data r := by
    intro r hr hlt
    by_contra hcode
    have hnone := startCodeAt_of_lt_naluEnd (hq.add_three_le_codeStart hr hlt) (not_le.mp hcode)
    rw [startCodeAt_codeStart hr] at hnone
    cases hnone
  have hlast : naluEnd data data.length (q + 3) ≤ data.length := naluEnd_le hq.add_three_le_length
  rcases hlast.eq_or_lt with hend | hend
  · rw [hend]
    refine .last fun r hlt hr => ?_
    have hle := hbefore r hr hlt
    have hcode : codeStart data r ≤ r := codeStart_le
    have hlen := hr.add_three_le_length
    omega
  · obtain ⟨scLen, hscLen⟩ :=
      Option.isSome_iff_exists.mp (isSome_startCodeAt_naluEnd (Nat.le_add_left _ _) hend)
    have hstart : q + 3 ≤ naluEnd data data.length (q + 3) := le_naluEnd _ _
    generalize naluEnd data data.length (q + 3) = j at hbefore hscLen hstart ⊢
    have hthree := three_le_of_startCodeAt hscLen
    have hex : ∃ r, q < r ∧ Occurs data r := ⟨_, by omega, occurs_of_startCodeAt hscLen⟩
    obtain ⟨hlt, hr⟩ := Nat.find_spec hex
    have hfirst : ∀ p, q < p → p < Nat.find hex → ¬ Occurs data p := fun p hp hmin hocc =>
      Nat.find_min hex hmin ⟨hp, hocc⟩
    -- The first pattern is the one seen at `j`, or `j` itself is one.
    have hj : j = codeStart data (Nat.find hex) := by
      refine le_antisymm (hbefore _ hr hlt) ?_
      rcases startCodeAt_eq_some_iff.mp hscLen with ⟨-, hocc⟩ | ⟨-, hz, hocc⟩
      · exact codeStart_le.trans (Nat.find_min' hex ⟨by omega, hocc⟩)
      · have hmin : Nat.find hex ≤ j + 1 := Nat.find_min' hex ⟨by omega, hocc⟩
        rcases hmin.eq_or_lt with heq | hlt'
        · rw [heq, codeStart_of_zero hocc (Nat.succ_pos j) hz]
          exact le_rfl
        · exact codeStart_le.trans (Nat.lt_succ_iff.mp hlt')
    rw [hj]
    exact .next hlt hr hfirst

theorem UnitEnd.unique (h : UnitEnd data q e) {e' : ℕ} (h' : UnitEnd data q e') : e = e' := by
  cases h with
  | @next r hlt hr hfirst =>
    cases h' with
    | @next r' hlt' hr' hfirst' =>
      rcases lt_trichotomy r r' with hrr | rfl | hrr
      · exact absurd hr (hfirst' r hlt hrr)
      · rfl
      · exact absurd hr' (hfirst r' hlt' hrr)
    | last hnone => exact absurd hr (hnone r hlt)
  | last hnone =>
    cases h' with
    | @next r' hlt' hr' _ => exact absurd hr' (hnone r' hlt')
    | last _ => rfl

/-! ## The scan without fuel -/

/-- The ranges from position `pos` on. -/
def scan (data : List UInt8) (pos : ℕ) : List (ℕ × ℕ) :=
  if _hpos : pos < data.length then
    match _hcode : startCodeAt data pos with
    | some scLen =>
      let j := naluEnd data data.length (pos + scLen)
      if pos + scLen < j then (pos + scLen, j) :: scan data j else scan data j
    | none => scan data (pos + 1)
  else []
termination_by data.length - pos
decreasing_by
  all_goals
    first
    | have := three_le_of_startCodeAt _hcode
      have : pos + scLen ≤ j := le_naluEnd _ _
      omega
    | omega

variable {range : ℕ × ℕ} {pos : ℕ}

/-- A range is a non-empty unit behind a pattern. -/
theorem mem_scan (h : range ∈ scan data pos) :
    pos + 3 ≤ range.1 ∧ Occurs data (range.1 - 3) ∧ range.1 < range.2 ∧
      range.2 = naluEnd data data.length range.1 := by
  fun_induction scan data pos with
  | case1 pos _ scLen hcode j hlt ih =>
    have hthree := three_le_of_startCodeAt hcode
    rcases List.mem_cons.mp h with rfl | h
    · exact ⟨Nat.add_le_add_left hthree pos, occurs_of_startCodeAt hcode, hlt, rfl⟩
    · obtain ⟨hle, hrest⟩ := ih h
      exact ⟨by omega, hrest⟩
  | case2 pos _ scLen hcode j hlt ih =>
    have hthree := three_le_of_startCodeAt hcode
    have hj : pos + scLen ≤ j := le_naluEnd _ _
    obtain ⟨hle, hrest⟩ := ih h
    exact ⟨by omega, hrest⟩
  | case3 pos _ hcode ih =>
    obtain ⟨hle, hrest⟩ := ih h
    exact ⟨by omega, hrest⟩
  | case4 pos _ => cases h

theorem pairwise_scan (data : List UInt8) (pos : ℕ) :
    (scan data pos).Pairwise fun r s => r.2 < s.1 := by
  fun_induction scan data pos with
  | case1 pos _ scLen hcode j hlt ih =>
    refine List.pairwise_cons.mpr ⟨fun s hs => ?_, ih⟩
    have hle := (mem_scan hs).1
    exact Nat.lt_of_lt_of_le (by omega : j < j + 3) hle
  | case2 pos _ scLen hcode j hlt ih => exact ih
  | case3 pos _ hcode ih => exact ih
  | case4 pos _ => exact .nil

/-- The scan does not miss a unit whose start code is still to come. -/
theorem mem_scan_of_occurs (hq : Occurs data q) (hpos : pos ≤ codeStart data q)
    (hlt : q + 3 < naluEnd data data.length (q + 3)) :
    (q + 3, naluEnd data data.length (q + 3)) ∈ scan data pos := by
  have hseen := startCodeAt_codeStart hq
  have hcodeq : codeStart data q ≤ q := codeStart_le
  -- A start code before that of `q` ends before it, and so does the unit behind it.
  have hskip : ∀ {pos scLen : ℕ}, startCodeAt data pos = some scLen → pos < codeStart data q →
      naluEnd data data.length (pos + scLen) ≤ codeStart data q := by
    intro pos scLen hcode hbefore
    have hthree := three_le_of_startCodeAt hcode
    have hlt : pos + scLen - 3 < q := by
      rcases startCodeAt_eq_some_iff.mp hcode with ⟨rfl, -⟩ | ⟨rfl, hz, -⟩
      · omega
      · by_contra hge
        obtain rfl : q = pos + 1 := by omega
        rw [codeStart_of_zero hq (Nat.succ_pos pos) hz] at hbefore
        exact absurd hbefore (lt_irrefl pos)
    have hfar := (occurs_of_startCodeAt hcode).add_three_le_codeStart hq hlt
    by_contra hend
    rw [startCodeAt_of_lt_naluEnd (by omega) (not_le.mp hend)] at hseen
    cases hseen
  -- At the start code of `q` its unit is the next one.
  have hunit : ∀ {pos scLen : ℕ}, startCodeAt data pos = some scLen → pos = codeStart data q →
      pos + scLen = q + 3 := by
    rintro pos scLen hcode rfl
    rw [hseen] at hcode
    obtain rfl := Option.some.inj hcode
    omega
  fun_induction scan data pos with
  | case1 pos _ scLen hcode j hjlt ih =>
    rcases hpos.eq_or_lt with hpos | hpos
    · rw [← hunit hcode hpos]
      exact List.mem_cons_self
    · exact List.mem_cons_of_mem _ (ih (hskip hcode hpos))
  | case2 pos _ scLen hcode j hjlt ih =>
    rcases hpos.eq_or_lt with hpos | hpos
    · rw [← hunit hcode hpos] at hlt
      exact absurd hlt hjlt
    · exact ih (hskip hcode hpos)
  | case3 pos _ hcode ih =>
    apply ih
    rcases hpos.eq_or_lt with rfl | hpos
    · rw [hseen] at hcode
      cases hcode
    · exact hpos
  | case4 pos hge =>
    have hlen := hq.add_three_le_length
    omega

theorem exact_scan (data : List UInt8) : Exact data (scan data 0) where
  nonempty r hr := (mem_scan hr).2.2.1
  inBounds r hr := by
    obtain ⟨hle, hocc, -, hend⟩ := mem_scan hr
    rw [hend]
    apply naluEnd_le
    have := hocc.add_three_le_length
    omega
  increasing := pairwise_scan data 0
  clean r hr q hle hlt hocc := by
    obtain ⟨-, -, -, hend⟩ := mem_scan hr
    rw [hend] at hlt
    have hnone := startCodeAt_of_lt_naluEnd hle hlt
    rw [startCodeAt_of_occurs hocc] at hnone
    cases hnone
  preceded r hr := by
    obtain ⟨hle, hocc, -⟩ := mem_scan hr
    exact ⟨by omega, hocc⟩
  complete q e hocc hend hlt := by
    obtain rfl := hend.unique (unitEnd_naluEnd hocc)
    exact mem_scan_of_occurs hocc (Nat.zero_le _) hlt

/-! ## The loops of the scanner -/

theorem scan_of_le (h : data.length ≤ pos) : scan data pos = [] := by
  rw [scan, dif_neg (not_lt.mpr h)]

theorem scan_of_none (hpos : pos < data.length) (hcode : startCodeAt data pos = none) :
    scan data pos = scan data (pos + 1) := by
  rw [scan, dif_pos hpos]
  split
  · next heq => rw [hcode] at heq; cases heq
  · rfl

theorem scan_of_some (hpos : pos < data.length) {scLen j : ℕ}
    (hcode : startCodeAt data pos = some scLen)
    (hj : j = naluEnd data data.length (pos + scLen)) :
    scan data pos =
      if pos + scLen < j then (pos + scLen, j) :: scan data j else scan data j := by
  subst hj
  rw [scan, dif_pos hpos]
  split
  · next heq =>
    rw [hcode] at heq
    obtain rfl := Option.some.inj heq
    rfl
  · next heq => rw [hcode] at heq; cases heq

/-- The next unit is the first one of the scan, and the scan goes on behind it. -/
theorem scan_eq_nextNalu (hfuel : data.length ≤ pos + fuel) :
    scan data pos =
      match nextNalu data fuel pos with
      | some (range, j) => range :: scan data j
      | none => [] := by
  induction fuel generalizing pos with
  | zero => exact scan_of_le hfuel
  | succ fuel ih =>
    rw [nextNalu]
    by_cases hpos : pos < data.length
    · rw [if_pos hpos]
      cases hcode : startCodeAt data pos with
      | some scLen =>
        have hthree := three_le_of_startCodeAt hcode
        have hj : pos + scLen ≤ naluEnd data data.length (pos + scLen) := le_naluEnd _ _
        rw [scan_of_some hpos hcode rfl]
        simp only
        split_ifs with hlt
        · rfl
        · exact ih (by omega)
      | none =>
        rw [scan_of_none hpos hcode]
        exact ih (by omega)
    · rw [if_neg hpos]
      exact scan_of_le (not_lt.mp hpos)

theorem lt_of_nextNalu {j : ℕ} (h : nextNalu data fuel pos = some (range, j)) : pos < j := by
  induction fuel generalizing pos with
  | zero => cases h
  | succ fuel ih =>
    rw [nextNalu] at h
    split_ifs at h with hpos
    cases hcode : startCodeAt data pos with
    | some scLen =>
      have hthree := three_le_of_startCodeAt hcode
      have hend : pos + scLen ≤ naluEnd data data.length (pos + scLen) := le_naluEnd _ _
      simp only [hcode] at h
      split_ifs at h with hlt
      · obtain ⟨-, rfl⟩ := Prod.mk.inj (Option.some.inj h)
        omega
      · have := ih h
        omega
    | none =>
      simp only [hcode] at h
      exact Nat.lt_of_succ_lt (ih h)

/-- More fuel finds no other unit. -/
theorem nextNalu_add (hfuel : data.length ≤ pos + fuel) (n : ℕ) :
    nextNalu data (fuel + n) pos = nextNalu data fuel pos := by
  induction fuel generalizing pos with
  | zero =>
    cases n with
    | zero => rfl
    | succ n => exact if_neg (not_lt.mpr hfuel)
  | succ fuel ih =>
    rw [Nat.add_right_comm, nextNalu, nextNalu]
    cases hcode : startCodeAt data pos with
    | some scLen =>
      have hthree := three_le_of_startCodeAt hcode
      have hend : pos + scLen ≤ naluEnd data data.length (pos + scLen) := le_naluEnd _ _
      simp only
      rw [ih (by omega)]
    | none =>
      simp only
      rw [ih (by omega)]

/-- The scanner returns what the scan returns, with as much fuel as there are bytes, or more. -/
theorem collectNalus_eq_scan (hfuel : data.length ≤ pos + fuel) :
    collectNalus data fuel pos = scan data pos := by
  induction fuel generalizing pos with
  | zero => exact (scan_of_le hfuel).symm
  | succ fuel ih =>
    rw [collectNalus, scan_eq_nextNalu (Nat.le_add_left _ _)]
    cases hnext : nextNalu data data.length pos with
    | some found =>
      obtain ⟨range, j⟩ := found
      have hlt := lt_of_nextNalu hnext
      simp only
      rw [ih (by omega)]
    | none => rfl

theorem readStartCode_eq (data : List UInt8) (i : ℕ) :
    readStartCode data i = some (startCodeAt data i) := by
  unfold readStartCode startCodeAt
  by_cases hlen : i + 3 ≤ data.length
  · obtain ⟨a, ha⟩ : ∃ a, data[i]? = some a := ⟨_, List.getElem?_eq_getElem (by omega)⟩
    obtain ⟨b, hb⟩ : ∃ b, data[i + 1]? = some b := ⟨_, List.getElem?_eq_getElem (by omega)⟩
    obtain ⟨c, hc⟩ : ∃ c, data[i + 2]? = some c := ⟨_, List.getElem?_eq_getElem (by omega)⟩
    rw [if_pos hlen, ha, hb, hc]
    by_cases hlong : i + 4 ≤ data.length
    · obtain ⟨d, hd⟩ : ∃ d, data[i + 3]? = some d := ⟨_, List.getElem?_eq_getElem (by omega)⟩
      rw [if_pos hlong, hd]
      by_cases h₀ : a = 0 <;> by_cases h₁ : b = 0 <;> by_cases h₂ : c = 0 <;>
        by_cases h₃ : d = 1 <;> simp [h₀, h₁, h₂, h₃, hlen, hlong]
    · by_cases h₀ : a = 0 <;> by_cases h₁ : b = 0 <;> simp [h₀, h₁, hlen, hlong]
  · simp [hlen]

/--
On every byte string the scanner terminates, reads within the data, and returns exactly the
non-empty parts between start codes.
-/
theorem parseAnnexBNalus_exact (data : List UInt8) :
    Exact data (parseAnnexBNalus data) ∧
      (∀ i, readStartCode data i = some (startCodeAt data i)) ∧
      (∀ n j, naluEnd data (data.length + n) j = naluEnd data data.length j) ∧
      (∀ n pos, nextNalu data (data.length + n) pos = nextNalu data data.length pos) ∧
      ∀ n, collectNalus data (data.length + n) 0 = parseAnnexBNalus data := by
  have hparse : parseAnnexBNalus data = scan data 0 := collectNalus_eq_scan (Nat.le_add_left _ _)
  refine ⟨?_, readStartCode_eq data, fun n j => naluEnd_add (Nat.le_add_left _ _) n,
    fun n pos => nextNalu_add (Nat.le_add_left _ _) n, fun n => ?_⟩
  · rw [hparse]
    exact exact_scan data
  · rw [hparse, collectNalus_eq_scan (by omega)]

end Meshconf.AnnexB
