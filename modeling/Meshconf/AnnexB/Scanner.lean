import Mathlib.Data.List.Infix
import Mathlib.Tactic.Common
import Meshconf.Bytes.BigEndian

/-! # The Annex B scanner

NAL units follow each other in a byte stream, each after a start code of three or
four bytes. The scanner walks over positions; what it sees at a position depends
only on the bytes from there on, and a unit free of `00 00 01` shows no start code
before its own end.
-/

namespace Meshconf.AnnexB

/-- The length of the start code at position `i`, if there is one. -/
def startCodeAt (data : List UInt8) (i : ℕ) : Option ℕ :=
  if i + 3 ≤ data.length ∧ data[i]? = some 0 ∧ data[i + 1]? = some 0 then
    if i + 4 ≤ data.length ∧ data[i + 2]? = some 0 ∧ data[i + 3]? = some 1 then some 4
    else if data[i + 2]? = some 1 then some 3
    else none
  else none

/-- The inner loop: the first position from `j` on with a start code, or the end. -/
def naluEnd (data : List UInt8) : ℕ → ℕ → ℕ
  | 0, j => j
  | fuel + 1, j =>
    if j < data.length then
      if (startCodeAt data j).isSome then j else naluEnd data fuel (j + 1)
    else j

/-- The next NAL unit from `pos` on, and the position after it. -/
def nextNalu (data : List UInt8) : ℕ → ℕ → Option ((ℕ × ℕ) × ℕ)
  | 0, _ => none
  | fuel + 1, pos =>
    if pos < data.length then
      match startCodeAt data pos with
      | some scLen =>
        let naluStart := pos + scLen
        let j := naluEnd data data.length naluStart
        if naluStart < j then some ((naluStart, j), j) else nextNalu data fuel j
      | none => nextNalu data fuel (pos + 1)
    else none

def collectNalus (data : List UInt8) : ℕ → ℕ → List (ℕ × ℕ)
  | 0, _ => []
  | fuel + 1, pos =>
    match nextNalu data data.length pos with
    | some (range, pos) => range :: collectNalus data fuel pos
    | none => []

/--
The ranges of the NAL units. Each loop advances by a byte in every round, so the length of the
data is fuel enough.
-/
def parseAnnexBNalus (data : List UInt8) : List (ℕ × ℕ) := collectNalus data data.length 0

/-- The bytes `data[start..end]`. -/
def slice (data : List UInt8) (range : ℕ × ℕ) : List UInt8 :=
  (data.drop range.1).take (range.2 - range.1)

def nalus (data : List UInt8) : List (List UInt8) := (parseAnnexBNalus data).map (slice data)

/-- The unit type in the first header byte. -/
def naluType (nalu : List UInt8) : UInt8 := (nalu.headD 0 >>> 1) &&& 0x3F

/-- Video, sequence and picture parameter sets. -/
def isParameterSet (nalu : List UInt8) : Bool :=
  naluType nalu == 32 || naluType nalu == 33 || naluType nalu == 34

/-- Length-prefixed units without the parameter sets; the old contents of `output` are cleared. -/
def annexBToHvccInto (annexB : List UInt8) (_output : List UInt8) : List UInt8 :=
  (nalus annexB).foldl (fun output nalu =>
    if nalu.length < 2 then output
    else if isParameterSet nalu then output
    else output ++ Bytes.toBe 4 (nalu.length % 2 ^ 32) ++ nalu) []

/-! ## Start codes seen from a suffix -/

/-- The start code at the front of a byte string. -/
def startCode : List UInt8 → Option ℕ
  | a :: b :: c :: rest =>
    if a = 0 ∧ b = 0 then
      if c = 0 ∧ rest.head? = some 1 then some 4 else if c = 1 then some 3 else none
    else none
  | _ => none

theorem startCodeAt_eq (data : List UInt8) (i : ℕ) :
    startCodeAt data i = startCode (data.drop i) := by
  have hget : ∀ k, data[i + k]? = (data.drop i)[k]? := fun k => by rw [List.getElem?_drop]
  have hlen : ∀ k, 0 < k → (i + k ≤ data.length ↔ k ≤ (data.drop i).length) := fun k hk => by
    rw [List.length_drop]; omega
  have hget₀ : data[i]? = (data.drop i)[0]? := hget 0
  simp only [startCodeAt, hget₀, hget 1, hget 2, hget 3, hlen 3 (by omega), hlen 4 (by omega)]
  rcases data.drop i with _ | ⟨a, _ | ⟨b, _ | ⟨c, rest⟩⟩⟩
  · simp [startCode]
  · simp [startCode]
  · simp [startCode]
  · rcases rest with _ | ⟨d, rest⟩ <;> simp [startCode]

/-- A byte string without the pattern `00 00 01`. -/
def NoStartCode (u : List UInt8) : Prop := ¬ [0, 0, 1] <:+: u

theorem NoStartCode.tail {a : UInt8} {u : List UInt8} (h : NoStartCode (a :: u)) :
    NoStartCode u := fun hu => h (hu.trans (List.suffix_cons a u).isInfix)

/-- What follows a unit: the end of the data or a four-byte start code. -/
def Closes (rest : List UInt8) : Prop := rest = [] ∨ ∃ r, rest = 0 :: 0 :: 0 :: 1 :: r

/-- The trailing zeros of a unit and the start code after it never form an earlier one. -/
theorem startCode_inside {u rest : List UInt8} (hne : u ≠ []) (hu : NoStartCode u)
    (hrest : Closes rest) : startCode (u ++ rest) = none := by
  have hno : ∀ v, u ≠ 0 :: 0 :: 1 :: v := by
    rintro v rfl
    exact hu ⟨[], v, rfl⟩
  have hno' : ∀ v, u ≠ 0 :: 0 :: 0 :: 1 :: v := by
    rintro v rfl
    exact hu ⟨[0], v, rfl⟩
  rcases u with _ | ⟨a, _ | ⟨b, _ | ⟨c, _ | ⟨d, v⟩⟩⟩⟩
  · exact absurd rfl hne
  · rcases hrest with rfl | ⟨r, rfl⟩ <;> simp [startCode]
  · rcases hrest with rfl | ⟨r, rfl⟩ <;> simp [startCode]
  · have := hno []
    rcases hrest with rfl | ⟨r, rfl⟩ <;> simp_all [startCode]
  · have h₁ := hno (d :: v)
    have h₂ := hno' v
    simp only [List.cons_append, startCode, List.head?_cons, Option.some.injEq]
    split_ifs with h h' h'
    · exact absurd (by rw [h.1, h.2, h'.1, h'.2]) h₂
    · exact absurd (by rw [h.1, h.2, h']) h₁
    · rfl
    · rfl

/-! ## Units between start codes -/

theorem drop_eq_of_append {data u rest : List UInt8} {p : ℕ} (h : data.drop p = u ++ rest) :
    data.drop (p + u.length) = rest := by
  rw [← List.drop_drop, h, List.drop_left]

/-- The inner loop runs exactly to the end of a unit. -/
theorem naluEnd_eq {data u rest : List UInt8} (hu : NoStartCode u) (hrest : Closes rest) :
    ∀ {fuel p : ℕ}, data.drop p = u ++ rest → u.length < fuel →
      naluEnd data fuel p = p + u.length := by
  induction u with
  | nil =>
    intro fuel p h hf
    obtain ⟨fuel, rfl⟩ : ∃ n, fuel = n + 1 := ⟨fuel - 1, by omega⟩
    rcases hrest with rfl | ⟨r, rfl⟩
    · have hp : data.length ≤ p := List.drop_eq_nil_iff.mp h
      simp [naluEnd, Nat.not_lt.mpr hp]
    · simp [naluEnd, startCodeAt_eq, h, startCode]
  | cons a u ih =>
    intro fuel p h hf
    obtain ⟨fuel, rfl⟩ : ∃ n, fuel = n + 1 := ⟨fuel - 1, by omega⟩
    have hp : p < data.length := by
      by_contra hle
      rw [List.drop_eq_nil_of_le (by omega)] at h
      simp at h
    have hnone : startCodeAt data p = none := by
      rw [startCodeAt_eq, h]
      exact startCode_inside (by simp) hu hrest
    have hnext : data.drop (p + 1) = u ++ rest := drop_eq_of_append (u := [a]) h
    rw [naluEnd, if_pos hp, hnone, Option.isSome_none, if_neg (by simp),
      ih hu.tail hnext (by simpa using hf), List.length_cons]
    omega

/-- A unit behind a four-byte start code is found at once, and the scanner stops after it. -/
theorem nextNalu_eq {data u rest : List UInt8} {p : ℕ} (fuel : ℕ) (hne : u ≠ [])
    (hu : NoStartCode u) (hrest : Closes rest)
    (h : data.drop p = [0, 0, 0, 1] ++ (u ++ rest)) :
    nextNalu data (fuel + 1) p = some ((p + 4, p + 4 + u.length), p + 4 + u.length) := by
  have hlen : p + 4 + u.length ≤ data.length := by
    have := congrArg List.length h
    simp only [List.length_drop, List.length_append, List.length_cons, List.length_nil] at this
    omega
  have hpos := List.length_pos_of_ne_nil hne
  have hsc : startCodeAt data p = some 4 := by simp [startCodeAt_eq, h, startCode]
  have hend : naluEnd data data.length (p + 4) = p + 4 + u.length :=
    naluEnd_eq hu hrest (drop_eq_of_append h) (by omega)
  rw [nextNalu, if_pos (by omega), hsc]
  simp only [hend]
  rw [if_pos (by omega)]

theorem slice_eq {data u rest : List UInt8} {p : ℕ}
    (h : data.drop p = [0, 0, 0, 1] ++ (u ++ rest)) :
    slice data (p + 4, p + 4 + u.length) = u := by
  have hd : data.drop (p + 4) = u ++ rest := drop_eq_of_append h
  simp [slice, hd]

/-- The stream of units, each behind a four-byte start code. -/
def annexB (us : List (List UInt8)) : List UInt8 := us.flatMap ([0, 0, 0, 1] ++ ·)

@[simp] theorem annexB_nil : annexB [] = [] := rfl

theorem annexB_cons (u : List UInt8) (us : List (List UInt8)) :
    annexB (u :: us) = [0, 0, 0, 1] ++ (u ++ annexB us) := by
  simp [annexB]

@[simp] theorem annexB_append (us vs : List (List UInt8)) :
    annexB (us ++ vs) = annexB us ++ annexB vs := List.flatMap_append

theorem closes_annexB (us : List (List UInt8)) : Closes (annexB us) := by
  cases us with
  | nil => exact .inl rfl
  | cons u us => exact .inr ⟨u ++ annexB us, annexB_cons u us⟩

/-- A unit that the scanner can delimit. -/
structure IsNalu (u : List UInt8) : Prop where
  two_le : 2 ≤ u.length
  lt : u.length < 2 ^ 32
  noStartCode : NoStartCode u

theorem IsNalu.ne_nil {u : List UInt8} (h : IsNalu u) : u ≠ [] :=
  List.ne_nil_of_length_pos (by have := h.two_le; omega)

theorem isNalu_iff (u : List UInt8) :
    IsNalu u ↔ 2 ≤ u.length ∧ u.length < 2 ^ 32 ∧ ∀ v ∈ u.tails, ¬ [0, 0, 1] <+: v := by
  constructor
  · rintro ⟨h, h', hno⟩
    refine ⟨h, h', fun v hv hp => hno ?_⟩
    exact hp.isInfix.trans (List.mem_tails v u |>.mp hv).isInfix
  · rintro ⟨h, h', hno⟩
    refine ⟨h, h', fun ⟨s, t, hu⟩ => ?_⟩
    exact hno ([0, 0, 1] ++ t) (List.mem_tails _ _ |>.mpr ⟨s, by simpa using hu⟩)
      (List.prefix_append _ _)

instance : DecidablePred IsNalu := fun u => decidable_of_iff _ (isNalu_iff u).symm

/-- The scanner returns the units of a stream, by induction on the units from a boundary on. -/
theorem collectNalus_annexB {data : List UInt8} {us : List (List UInt8)}
    (hus : ∀ u ∈ us, IsNalu u) : ∀ {fuel p : ℕ}, data.drop p = annexB us → us.length ≤ fuel →
      (collectNalus data fuel p).map (slice data) = us := by
  induction us with
  | nil =>
    intro fuel p h _
    have hp : data.length ≤ p := List.drop_eq_nil_iff.mp h
    have hnone : nextNalu data data.length p = none := by
      cases hl : data.length with
      | zero => rfl
      | succ n => rw [nextNalu, if_neg (by omega)]
    cases fuel with
    | zero => rfl
    | succ fuel => simp [collectNalus, hnone]
  | cons u us ih =>
    intro fuel p h hf
    obtain ⟨fuel, rfl⟩ : ∃ n, fuel = n + 1 := ⟨fuel - 1, by simp at hf; omega⟩
    have hu := hus u (by simp)
    rw [annexB_cons] at h
    obtain ⟨n, hn⟩ : ∃ n, data.length = n + 1 := by
      have := congrArg List.length h
      simp only [List.length_drop, List.length_append, List.length_cons] at this
      exact ⟨data.length - 1, by omega⟩
    have hnext := nextNalu_eq n hu.ne_nil hu.noStartCode (closes_annexB us) h
    have hrest : data.drop (p + 4 + u.length) = annexB us :=
      drop_eq_of_append (drop_eq_of_append (u := [0, 0, 0, 1]) h)
    rw [collectNalus, hn, hnext]
    simp only [List.map_cons, slice_eq h]
    rw [ih (fun v hv => hus v (by simp [hv])) hrest (by simpa using hf)]

theorem length_le_annexB (us : List (List UInt8)) : us.length ≤ (annexB us).length := by
  induction us with
  | nil => simp
  | cons u us ih =>
    simp only [annexB_cons, List.length_cons, List.length_append, List.length_nil]
    omega

theorem nalus_annexB {us : List (List UInt8)} (hus : ∀ u ∈ us, IsNalu u) :
    nalus (annexB us) = us :=
  collectNalus_annexB hus List.drop_zero (length_le_annexB us)

/-- The units of `us` that carry pictures, length-prefixed. -/
def hvcc (us : List (List UInt8)) : List UInt8 :=
  (us.filter fun u => !isParameterSet u).flatMap fun u => Bytes.toBe 4 u.length ++ u

theorem annexBToHvccInto_annexB {us : List (List UInt8)} (hus : ∀ u ∈ us, IsNalu u)
    (output : List UInt8) : annexBToHvccInto (annexB us) output = hvcc us := by
  have key : ∀ (vs : List (List UInt8)) (out : List UInt8), (∀ u ∈ vs, IsNalu u) →
      vs.foldl (fun output nalu =>
        if nalu.length < 2 then output
        else if isParameterSet nalu then output
        else output ++ Bytes.toBe 4 (nalu.length % 2 ^ 32) ++ nalu) out = out ++ hvcc vs := by
    intro vs
    induction vs with
    | nil => simp [hvcc]
    | cons v vs ih =>
      intro out h
      have hv := h v (by simp)
      rw [List.foldl_cons, ih _ fun u hu => h u (by simp [hu]), if_neg (by have := hv.two_le; omega),
        Nat.mod_eq_of_lt hv.lt]
      cases hp : isParameterSet v <;> simp [hvcc, hp]
  rw [annexBToHvccInto, nalus_annexB hus, key us [] hus, List.nil_append]

end Meshconf.AnnexB
