import Meshconf.AnnexB.Scanner
import Meshconf.Bytes.Reader

/-! # Annex B extraction

The encoder delivers a sample as NAL units behind length fields, and its parameter
sets in a format description. Extraction writes them into one Annex B buffer of an
estimated size; the decoder's scanner takes that buffer apart again.
-/

namespace Meshconf.AnnexB

open Bytes

/-- A format description, with the statuses that the calls reading it return. -/
structure FormatDescription where
  parameterSets : List (List UInt8)
  countStatus : ℤ := 0
  setStatus : ℕ → ℤ := fun _ => 0
  /-- The header length that the description reports, `none` when the call leaves the default. -/
  nalUnitHeaderLength : Option ℕ

/-- A contiguous data buffer, with the status of the call that gives its pointer. -/
structure BlockBuffer where
  bytes : List UInt8
  pointerStatus : ℤ := 0
  nullPointer : Bool := false

structure SampleBuffer where
  dataBuffer : Option BlockBuffer
  formatDescription : Option FormatDescription

/-- Append to the part of the buffer written so far, if the estimate leaves room. -/
def pushBytes (estimate : ℕ) (buf s : List UInt8) : Except String (List UInt8) :=
  if buf.length + s.length > estimate then .error "Annex B output exceeded estimate"
  else .ok (buf ++ s)

/-- The loop over the parameter sets, from index `i` on. -/
def pushParameterSets (fmt : FormatDescription) (estimate : ℕ) :
    ℕ → List (List UInt8) → List UInt8 → Except String (List UInt8)
  | _, [], buf => .ok buf
  | i, ps :: rest, buf => do
    let status := fmt.setStatus i
    if status ≠ 0 then throw s!"Failed to get HEVC parameter set {i}: {status}"
    let buf ← pushBytes estimate buf [0, 0, 0, 1]
    let buf ← pushBytes estimate buf ps
    pushParameterSets fmt estimate (i + 1) rest buf

/-- The length field of `nalHeaderLen` bytes at `offset`. -/
def readNaluLen (data : List UInt8) (nalHeaderLen offset : ℕ) : Except String ℕ :=
  match nalHeaderLen with
  | 4 => .ok (ofBe (slice data (offset, offset + 4)))
  | 2 => .ok (ofBe (slice data (offset, offset + 2)))
  | 1 => .ok (ofBe (slice data (offset, offset + 1)))
  | n => .error s!"Unsupported NAL header length: {n}"

/-- The loop over the NAL units; a round advances by a header at least. -/
def copyNalus (data : List UInt8) (nalHeaderLen estimate : ℕ) :
    ℕ → ℕ → List UInt8 → Except String (List UInt8)
  | 0, _, buf => .ok buf
  | fuel + 1, offset, buf =>
    if offset + nalHeaderLen ≤ data.length then do
      let naluLen ← readNaluLen data nalHeaderLen offset
      let offset := offset + nalHeaderLen
      if offset + naluLen > data.length then throw "NALU extends beyond buffer"
      let buf ← pushBytes estimate buf [0, 0, 0, 1]
      let buf ← pushBytes estimate buf (slice data (offset, offset + naluLen))
      copyNalus data nalHeaderLen estimate fuel (offset + naluLen) buf
    else .ok buf

def extractAnnexB (sb : SampleBuffer) (isKeyframe : Bool) : Except String (List UInt8) := do
  let some blockBuffer := sb.dataBuffer | throw "No data buffer in sample buffer"
  let data := blockBuffer.bytes
  let estimate := data.length + 256
  let mut buf : List UInt8 := []
  if isKeyframe then
    let some fmt := sb.formatDescription | throw "No format description on keyframe"
    let status := fmt.countStatus
    if fmt.parameterSets.length = 0 ∧ status ≠ 0 then
      throw s!"Failed to get HEVC parameter set count: {status}"
    buf ← pushParameterSets fmt estimate 0 fmt.parameterSets buf
  let status := blockBuffer.pointerStatus
  if status ≠ 0 ∨ blockBuffer.nullPointer then
    throw s!"CMBlockBufferGetDataPointer failed: {status}"
  -- Without a format description the program stops here.
  let some fmt := sb.formatDescription | throw "unwrap on None"
  copyNalus data (fmt.nalUnitHeaderLength.getD 4) estimate (data.length + 1) 0 buf

/-! ## What a successful extraction wrote -/

theorem pushBytes_ok {estimate : ℕ} {buf s out : List UInt8}
    (h : pushBytes estimate buf s = .ok out) : out = buf ++ s := by
  unfold pushBytes at h
  split_ifs at h
  exact (Except.ok.inj h).symm

theorem pushParameterSets_ok {fmt : FormatDescription} {estimate : ℕ} :
    ∀ {sets : List (List UInt8)} {i : ℕ} {buf out : List UInt8},
      pushParameterSets fmt estimate i sets buf = .ok out → out = buf ++ annexB sets
  | [], i, buf, out, h => by
    obtain rfl : buf = out := by simpa [pushParameterSets] using h
    simp
  | ps :: rest, i, buf, out, h => by
    obtain ⟨-, h⟩ := guard_eq_ok.mp h
    obtain ⟨buf₁, h₁, h⟩ := bind_eq_ok.mp h
    obtain ⟨buf₂, h₂, h⟩ := bind_eq_ok.mp h
    rw [pushParameterSets_ok h, pushBytes_ok h₂, pushBytes_ok h₁, annexB_cons]
    simp

/-- Units as the encoder stores them, each behind a length field of `k` bytes. -/
def sampleBytes (k : ℕ) (units : List (List UInt8)) : List UInt8 :=
  units.flatMap fun u => toBe k u.length ++ u

theorem sampleBytes_cons (k : ℕ) (u : List UInt8) (us : List (List UInt8)) :
    sampleBytes k (u :: us) = toBe k u.length ++ (u ++ sampleBytes k us) := by
  simp [sampleBytes]

theorem readNaluLen_eq {data rest : List UInt8} {k n p len : ℕ} (hn : n < 256 ^ k)
    (h : data.drop p = toBe k n ++ rest) (hlen : readNaluLen data k p = .ok len) : len = n := by
  have hs : ofBe (slice data (p, p + k)) = n := by
    have ht : slice data (p, p + k) = toBe k n := by
      simp only [slice, Nat.add_sub_cancel_left, h]
      rw [List.take_left' (length_toBe k n)]
    rw [ht, ofBe_toBe_of_lt hn]
  unfold readNaluLen at hlen
  split at hlen
  · exact (Except.ok.inj hlen).symm.trans hs
  · exact (Except.ok.inj hlen).symm.trans hs
  · exact (Except.ok.inj hlen).symm.trans hs
  · cases hlen

/-- A successful copy went through all units, by induction on the units from a boundary on. -/
theorem copyNalus_ok {data : List UInt8} {k estimate : ℕ} {us : List (List UInt8)}
    (hus : ∀ u ∈ us, u.length < 256 ^ k) (hk : 0 < k) :
    ∀ {fuel p : ℕ} {buf out : List UInt8}, data.drop p = sampleBytes k us → us.length < fuel →
      copyNalus data k estimate fuel p buf = .ok out → out = buf ++ annexB us := by
  induction us with
  | nil =>
    intro fuel p buf out h hf hout
    obtain ⟨fuel, rfl⟩ : ∃ n, fuel = n + 1 := ⟨fuel - 1, by omega⟩
    have hp : data.length ≤ p := List.drop_eq_nil_iff.mp h
    rw [copyNalus, if_neg (by omega)] at hout
    simpa using (Except.ok.inj hout).symm
  | cons u us ih =>
    intro fuel p buf out h hf hout
    obtain ⟨fuel, rfl⟩ : ∃ n, fuel = n + 1 := ⟨fuel - 1, by omega⟩
    rw [sampleBytes_cons] at h
    have hle : p + k + u.length ≤ data.length := by
      have := congrArg List.length h
      simp only [List.length_drop, List.length_append, length_toBe] at this
      omega
    have hu : data.drop (p + k) = u ++ sampleBytes k us := by
      simpa using drop_eq_of_append h
    rw [copyNalus, if_pos (by omega)] at hout
    obtain ⟨len, hlen, hout⟩ := bind_eq_ok.mp hout
    obtain rfl := readNaluLen_eq (hus u (by simp)) h hlen
    obtain ⟨-, hout⟩ := guard_eq_ok.mp hout
    obtain ⟨buf₁, h₁, hout⟩ := bind_eq_ok.mp hout
    obtain ⟨buf₂, h₂, hout⟩ := bind_eq_ok.mp hout
    have hs : slice data (p + k, p + k + u.length) = u := by simp [slice, hu]
    rw [ih (fun v hv => hus v (by simp [hv])) (drop_eq_of_append hu) (by simpa using hf) hout,
      pushBytes_ok h₂, hs, pushBytes_ok h₁, annexB_cons]
    simp

theorem length_le_sampleBytes {k : ℕ} (hk : 0 < k) (us : List (List UInt8)) :
    us.length ≤ (sampleBytes k us).length := by
  induction us with
  | nil => simp
  | cons u us ih =>
    simp only [sampleBytes_cons, List.length_append, length_toBe, List.length_cons]
    omega

/-- A sample of the given units with length fields of `k` bytes. -/
structure Holds (sb : SampleBuffer) (sets units : List (List UInt8)) (k : ℕ) : Prop where
  width : k = 1 ∨ k = 2 ∨ k = 4
  fits : ∀ u ∈ units, u.length < 256 ^ k
  data : ∀ b, sb.dataBuffer = some b → b.bytes = sampleBytes k units
  sets : ∀ fmt, sb.formatDescription = some fmt → fmt.parameterSets = sets
  headerLength : ∀ fmt, sb.formatDescription = some fmt → fmt.nalUnitHeaderLength.getD 4 = k

section

variable {sb : SampleBuffer} {sets units : List (List UInt8)} {k : ℕ} {isKeyframe : Bool}
  {out : List UInt8}

theorem Holds.copy (hsb : Holds sb sets units k) {b : BlockBuffer} {fmt : FormatDescription}
    (hb : sb.dataBuffer = some b) (hf : sb.formatDescription = some fmt) {estimate : ℕ}
    {buf : List UInt8}
    (h : copyNalus b.bytes (fmt.nalUnitHeaderLength.getD 4) estimate (b.bytes.length + 1) 0 buf =
      .ok out) : out = buf ++ annexB units := by
  have hk : 0 < k := by have := hsb.width; omega
  rw [hsb.headerLength fmt hf, hsb.data b hb] at h
  exact copyNalus_ok hsb.fits hk List.drop_zero
    (Nat.lt_succ_of_le (length_le_sampleBytes hk units)) h

theorem extractAnnexB_ok (hsb : Holds sb sets units k)
    (h : extractAnnexB sb isKeyframe = .ok out) :
    out = annexB ((if isKeyframe then sets else []) ++ units) := by
  unfold extractAnnexB at h
  cases hb : sb.dataBuffer with
  | none => simp [hb] at h
  | some b =>
    cases hf : sb.formatDescription with
    | none =>
      cases isKeyframe with
      | false => simp [hb, hf, guard_eq_ok] at h
      | true =>
        simp only [hb, hf, if_true] at h
        cases h
    | some fmt =>
      simp only [hb, hf] at h
      cases isKeyframe with
      | false =>
        simp only [Bool.false_eq_true, if_false, guard_eq_ok] at h
        simpa using hsb.copy hb hf h.2
      | true =>
        simp only [if_true, guard_eq_ok, bind_eq_ok] at h
        obtain ⟨-, buf, hbuf, -, hcopy⟩ := h
        have hsets : buf = annexB sets := by
          simpa [hsb.sets fmt hf] using pushParameterSets_ok hbuf
        simpa [hsets] using hsb.copy hb hf hcopy

/-- The decoder's scanner and converter take apart what the encoder's extraction put together. -/
theorem extractAnnexB_inverse (hsb : Holds sb sets units k) (hsets : ∀ u ∈ sets, IsNalu u)
    (hunits : ∀ u ∈ units, IsNalu u) (hout : extractAnnexB sb isKeyframe = .ok out)
    (output : List UInt8) :
    nalus out = (if isKeyframe then sets else []) ++ units ∧
      annexBToHvccInto out output = hvcc ((if isKeyframe then sets else []) ++ units) := by
  have hall : ∀ u ∈ (if isKeyframe then sets else []) ++ units, IsNalu u := by
    intro u hu
    rcases List.mem_append.mp hu with hu | hu
    · cases isKeyframe with
      | false => simp at hu
      | true => exact hsets u hu
    · exact hunits u hu
  obtain rfl := extractAnnexB_ok hsb hout
  exact ⟨nalus_annexB hall, annexBToHvccInto_annexB hall output⟩

end

/-- A key frame of one set and one picture that ends in zero bytes. -/
def keyframeSample : SampleBuffer where
  dataBuffer := some { bytes := [0, 0, 0, 5, 38, 1, 7, 0, 0] }
  formatDescription := some { parameterSets := [[64, 1]], nalUnitHeaderLength := some 4 }

theorem keyframeSample_holds : Holds keyframeSample [[64, 1]] [[38, 1, 7, 0, 0]] 4 where
  width := by decide
  fits := by decide
  data := by simp [keyframeSample, sampleBytes, toBe]
  sets := by simp [keyframeSample]
  headerLength := by simp [keyframeSample]

theorem extractAnnexB_inverse_keyframe :
    nalus [0, 0, 0, 1, 64, 1, 0, 0, 0, 1, 38, 1, 7, 0, 0] = [[64, 1], [38, 1, 7, 0, 0]] ∧
      annexBToHvccInto [0, 0, 0, 1, 64, 1, 0, 0, 0, 1, 38, 1, 7, 0, 0] [9] =
        [0, 0, 0, 5, 38, 1, 7, 0, 0] :=
  have hout : extractAnnexB keyframeSample true =
      .ok [0, 0, 0, 1, 64, 1, 0, 0, 0, 1, 38, 1, 7, 0, 0] := by decide
  extractAnnexB_inverse keyframeSample_holds (by decide) (by decide) hout [9]

end Meshconf.AnnexB
