import Mathlib.Algebra.BigOperators.Group.List.Basic
import Meshconf.AnnexB.Extract

/-! # The size of an extracted sample

Extraction writes into a buffer that holds the sample and 256 bytes more. Start codes
take four bytes where the sample has its length fields, and the parameter sets of a
keyframe come on top. All that is written piece by piece is accepted or refused as if
it were written at once.
-/

namespace Meshconf.AnnexB

open Bytes

/-- The bytes that extraction writes beyond those of the sample. -/
def overhead (sets units : List (List UInt8)) (k : ℕ) : ℕ :=
  (sets.map fun ps => 4 + ps.length).sum + (4 - k) * units.length

/-- The platform delivers a buffer and a description, and every call succeeds. -/
structure Succeeds (sb : SampleBuffer) (b : BlockBuffer) (fmt : FormatDescription) : Prop where
  dataBuffer : sb.dataBuffer = some b
  formatDescription : sb.formatDescription = some fmt
  countStatus : fmt.countStatus = 0
  setStatus : ∀ i < fmt.parameterSets.length, fmt.setStatus i = 0
  pointerStatus : b.pointerStatus = 0
  pointer : b.nullPointer = false

/-- A pass of the loop over the units: the ranges of the data it reads, and where it stops. -/
structure CopyRun where
  reads : List (ℕ × ℕ)
  offset : ℕ
  result : Except String (List UInt8)

/-- The loop `copyNalus`, with the ranges it reads. -/
def copyRun (data : List UInt8) (nalHeaderLen estimate : ℕ) : ℕ → ℕ → List UInt8 → CopyRun
  | 0, offset, buf => ⟨[], offset, .ok buf⟩
  | fuel + 1, offset, buf =>
    if offset + nalHeaderLen ≤ data.length then
      match readNaluLen data nalHeaderLen offset with
      | .error e => ⟨[], offset, .error e⟩
      | .ok naluLen =>
        let header := (offset, offset + nalHeaderLen)
        let nalu := (header.2, header.2 + naluLen)
        if nalu.2 > data.length then ⟨[header], nalu.1, .error "NALU extends beyond buffer"⟩
        else
          match pushBytes estimate buf [0, 0, 0, 1] with
          | .error e => ⟨[header], nalu.1, .error e⟩
          | .ok buf =>
            match pushBytes estimate buf (slice data nalu) with
            | .error e => ⟨[header, nalu], nalu.1, .error e⟩
            | .ok buf =>
              let run := copyRun data nalHeaderLen estimate fuel nalu.2 buf
              { run with reads := header :: nalu :: run.reads }
    else ⟨[], offset, .ok buf⟩

section

variable {ε α β : Type} {c : Prop} [Decidable c] {e : ε} {x : Except ε α}

theorem ok_bind (a : α) (f : α → Except ε β) : (Except.ok a >>= f) = f a := rfl

theorem error_bind (e : ε) (f : α → Except ε β) : (Except.error e >>= f) = .error e := rfl

theorem guard_of_not (hc : ¬ c) : (do if c then throw e
                                      x) = x := if_neg hc

end

section

variable {data : List UInt8} {k estimate offset naluLen : ℕ}

/-- A round of the loop whose length field is read and whose unit is inside the data. -/
theorem copyNalus_succ (fuel : ℕ) (buf : List UInt8) (hheader : offset + k ≤ data.length)
    (hlen : readNaluLen data k offset = .ok naluLen) (hin : offset + k + naluLen ≤ data.length) :
    copyNalus data k estimate (fuel + 1) offset buf =
      (do
        let buf ← pushBytes estimate buf [0, 0, 0, 1]
        let buf ← pushBytes estimate buf (slice data (offset + k, offset + k + naluLen))
        copyNalus data k estimate fuel (offset + k + naluLen) buf) := by
  rw [copyNalus, if_pos hheader, hlen, ok_bind]
  exact guard_of_not (by omega)

theorem copyRun_result (fuel : ℕ) : ∀ (offset : ℕ) (buf : List UInt8),
    (copyRun data k estimate fuel offset buf).result =
      copyNalus data k estimate fuel offset buf := by
  induction fuel with
  | zero => exact fun _ _ => rfl
  | succ fuel ih =>
    intro offset buf
    by_cases hheader : offset + k ≤ data.length
    · cases hlen : readNaluLen data k offset with
      | error e => rw [copyRun, copyNalus, if_pos hheader, if_pos hheader, hlen, error_bind]
      | ok naluLen =>
        by_cases hover : offset + k + naluLen > data.length
        · rw [copyRun, copyNalus, if_pos hheader, if_pos hheader, hlen, ok_bind]
          simp only [if_pos hover]
          rfl
        · rw [copyNalus_succ fuel buf hheader hlen (by omega), copyRun, if_pos hheader, hlen]
          simp only [if_neg hover]
          cases hcode : pushBytes estimate buf [0, 0, 0, 1] with
          | error e => rfl
          | ok buf₁ =>
            simp only [ok_bind]
            cases pushBytes estimate buf₁ (slice data (offset + k, offset + k + naluLen)) with
            | error e => rfl
            | ok buf₂ => exact ih _ _
    · rw [copyRun, copyNalus, if_neg hheader, if_neg hheader]

/-- Whatever the bytes are, the loop reads within them. -/
theorem copyRun_reads (fuel : ℕ) : ∀ (offset : ℕ) (buf : List UInt8),
    ∀ r ∈ (copyRun data k estimate fuel offset buf).reads, r.1 ≤ r.2 ∧ r.2 ≤ data.length := by
  induction fuel with
  | zero => simp [copyRun]
  | succ fuel ih =>
    intro offset buf r hr
    rw [copyRun] at hr
    split_ifs at hr with hheader
    · cases hlen : readNaluLen data k offset with
      | error e => simp [hlen] at hr
      | ok naluLen =>
        simp only [hlen] at hr
        split_ifs at hr with hover
        · obtain rfl := List.mem_singleton.mp hr
          exact ⟨Nat.le_add_right _ _, hheader⟩
        · have hin : offset + k + naluLen ≤ data.length := by omega
          have hboth : ∀ q ∈ [(offset, offset + k), (offset + k, offset + k + naluLen)],
              q.1 ≤ q.2 ∧ q.2 ≤ data.length := by
            simp only [List.mem_cons, List.not_mem_nil, or_false, forall_eq_or_imp, forall_eq]
            exact ⟨⟨Nat.le_add_right _ _, hheader⟩, Nat.le_add_right _ _, hin⟩
          cases hcode : pushBytes estimate buf [0, 0, 0, 1] with
          | error e =>
            rw [hcode] at hr
            obtain rfl := List.mem_singleton.mp hr
            exact ⟨Nat.le_add_right _ _, hheader⟩
          | ok buf₁ =>
            rw [hcode] at hr
            simp only at hr
            cases hunit : pushBytes estimate buf₁
                (slice data (offset + k, offset + k + naluLen)) with
            | error e =>
              rw [hunit] at hr
              exact hboth r hr
            | ok buf₂ =>
              rw [hunit] at hr
              rcases List.mem_cons.mp hr with rfl | hr
              · exact hboth _ (by simp)
              rcases List.mem_cons.mp hr with rfl | hr
              · exact hboth _ (by simp)
              · exact ih _ _ r hr
    · simp at hr

end

/-! ## Writing piece by piece -/

section

variable {estimate k : ℕ} {buf s t out : List UInt8}

theorem pushBytes_of_le (h : buf.length + s.length ≤ estimate) :
    pushBytes estimate buf s = .ok (buf ++ s) := if_neg (by omega)

theorem pushBytes_of_lt (h : estimate < buf.length + s.length) :
    pushBytes estimate buf s = .error "Annex B output exceeded estimate" := if_pos h

theorem pushBytes_nil (h : buf.length ≤ estimate) : pushBytes estimate buf [] = .ok buf := by
  rw [pushBytes_of_le (by simpa using h), List.append_nil]

/-- Two writes are one write. -/
theorem pushBytes_bind (s t : List UInt8) :
    (pushBytes estimate buf s >>= fun buf => pushBytes estimate buf t) =
      pushBytes estimate buf (s ++ t) := by
  rcases Nat.lt_or_ge estimate (buf.length + s.length) with h | h
  · rw [pushBytes_of_lt h, pushBytes_of_lt (by rw [List.length_append]; omega)]
    rfl
  · rw [pushBytes_of_le h]
    change pushBytes estimate (buf ++ s) t = _
    unfold pushBytes
    rw [List.length_append, List.length_append, Nat.add_assoc, List.append_assoc]

theorem pushBytes_length_le (h : pushBytes estimate buf s = .ok out) : out.length ≤ estimate := by
  unfold pushBytes at h
  split_ifs at h with hle
  obtain rfl := Except.ok.inj h
  rw [List.length_append]
  omega

/-- A start code and a unit are written, and then what follows them. -/
theorem pushBytes_unit {u rest : List UInt8} {f : List UInt8 → Except String (List UInt8)}
    (hf : ∀ buf : List UInt8, buf.length ≤ estimate → f buf = pushBytes estimate buf rest) :
    (do
      let buf ← pushBytes estimate buf [0, 0, 0, 1]
      let buf ← pushBytes estimate buf u
      f buf) = pushBytes estimate buf ([0, 0, 0, 1] ++ (u ++ rest)) := by
  rw [← pushBytes_bind]
  congr 1
  funext buf₁
  rw [← pushBytes_bind]
  cases hu : pushBytes estimate buf₁ u with
  | error e => rfl
  | ok buf₂ => exact hf buf₂ (pushBytes_length_le hu)

theorem pushParameterSets_eq {fmt : FormatDescription} :
    ∀ {sets : List (List UInt8)} {i : ℕ} {buf : List UInt8}, buf.length ≤ estimate →
      (∀ j < sets.length, fmt.setStatus (i + j) = 0) →
      pushParameterSets fmt estimate i sets buf = pushBytes estimate buf (annexB sets)
  | [], i, buf, hbuf, _ => (pushBytes_nil hbuf).symm
  | ps :: rest, i, buf, _, hstatus => by
    have hfirst : fmt.setStatus i = 0 := hstatus 0 (by simp)
    have hrest : ∀ buf₂ : List UInt8, buf₂.length ≤ estimate →
        pushParameterSets fmt estimate (i + 1) rest buf₂ =
          pushBytes estimate buf₂ (annexB rest) := fun buf₂ hbuf₂ =>
      pushParameterSets_eq hbuf₂ fun j hj => by
        rw [Nat.add_assoc, Nat.add_comm 1 j]
        exact hstatus (j + 1) (by simpa using hj)
    rw [annexB_cons, ← pushBytes_unit hrest, pushParameterSets]
    exact guard_of_not (not_not_intro hfirst)

/-- The length field of a unit is read as it was written. -/
theorem readNaluLen_toBe {data rest : List UInt8} {n p : ℕ} (hk : k = 1 ∨ k = 2 ∨ k = 4)
    (hn : n < 256 ^ k) (h : data.drop p = toBe k n ++ rest) : readNaluLen data k p = .ok n := by
  have hok : ∃ len, readNaluLen data k p = .ok len := by
    rcases hk with rfl | rfl | rfl <;> exact ⟨_, rfl⟩
  obtain ⟨len, hlen⟩ := hok
  rw [hlen, readNaluLen_eq hn h hlen]

/-- At a boundary stand the length of the next unit and the unit, and a boundary follows. -/
theorem unit_at {data u : List UInt8} {us : List (List UInt8)} {p : ℕ}
    (hk : k = 1 ∨ k = 2 ∨ k = 4) (hu : u.length < 256 ^ k)
    (h : data.drop p = sampleBytes k (u :: us)) :
    readNaluLen data k p = .ok u.length ∧ p + k + u.length ≤ data.length ∧
      slice data (p + k, p + k + u.length) = u ∧
      data.drop (p + k + u.length) = sampleBytes k us := by
  rw [sampleBytes_cons] at h
  have hunit : data.drop (p + k) = u ++ sampleBytes k us := by
    simpa using drop_eq_of_append h
  refine ⟨readNaluLen_toBe hk hu h, ?_, by simp [slice, hunit], drop_eq_of_append hunit⟩
  have hlen := congrArg List.length h
  simp only [List.length_drop, List.length_append, length_toBe] at hlen
  omega

/-- The loop writes all units, by induction on the units from a boundary on. -/
theorem copyNalus_eq {data : List UInt8} (hk : k = 1 ∨ k = 2 ∨ k = 4) :
    ∀ {us : List (List UInt8)} {fuel p : ℕ} {buf : List UInt8}, (∀ u ∈ us, u.length < 256 ^ k) →
      data.drop p = sampleBytes k us → us.length < fuel → buf.length ≤ estimate →
      copyNalus data k estimate fuel p buf = pushBytes estimate buf (annexB us)
  | [], fuel + 1, p, buf, _, h, _, hbuf => by
    have hp : data.length ≤ p := List.drop_eq_nil_iff.mp h
    rw [copyNalus, if_neg (by omega), annexB_nil, pushBytes_nil hbuf]
  | u :: us, fuel + 1, p, buf, hus, h, hf, _ => by
    obtain ⟨hlen, hle, hslice, hnext⟩ := unit_at hk (hus u List.mem_cons_self) h
    have hrest : ∀ buf₂ : List UInt8, buf₂.length ≤ estimate →
        copyNalus data k estimate fuel (p + k + u.length) buf₂ =
          pushBytes estimate buf₂ (annexB us) := fun buf₂ hbuf₂ =>
      copyNalus_eq hk (fun v hv => hus v (List.mem_cons_of_mem _ hv)) hnext
        (by simpa using hf) hbuf₂
    rw [copyNalus_succ fuel buf (by omega) hlen hle, hslice, annexB_cons, pushBytes_unit hrest]

/-- A pass that succeeds has gone through the whole sample. -/
theorem copyRun_offset {data : List UInt8} (hk : k = 1 ∨ k = 2 ∨ k = 4) :
    ∀ {us : List (List UInt8)} {fuel p : ℕ} {buf : List UInt8}, (∀ u ∈ us, u.length < 256 ^ k) →
      data.drop p = sampleBytes k us → us.length < fuel → p ≤ data.length →
      (copyRun data k estimate fuel p buf).result = .ok out →
      (copyRun data k estimate fuel p buf).offset = data.length
  | [], fuel + 1, p, buf, _, h, _, hp, _ => by
    have hp' : data.length ≤ p := List.drop_eq_nil_iff.mp h
    rw [copyRun, if_neg (by omega)]
    exact le_antisymm hp hp'
  | u :: us, fuel + 1, p, buf, hus, h, hf, _, hout => by
    obtain ⟨hlen, hle, -, hnext⟩ := unit_at hk (hus u List.mem_cons_self) h
    have hin : ¬ p + k + u.length > data.length := by omega
    rw [copyRun, if_pos (by omega), hlen] at hout ⊢
    simp only [if_neg hin] at hout ⊢
    cases hcode : pushBytes estimate buf [0, 0, 0, 1] with
    | error e => simp [hcode] at hout
    | ok buf₁ =>
      simp only [hcode] at hout ⊢
      cases hunit : pushBytes estimate buf₁ (slice data (p + k, p + k + u.length)) with
      | error e => simp [hunit] at hout
      | ok buf₂ =>
        simp only [hunit] at hout ⊢
        exact copyRun_offset hk (fun v hv => hus v (List.mem_cons_of_mem _ hv)) hnext
          (by simpa using hf) hle hout

end

/-! ## The whole sample -/

section

variable {sb : SampleBuffer} {b : BlockBuffer} {fmt : FormatDescription}
  {sets units : List (List UInt8)} {k : ℕ} {isKeyframe : Bool}

theorem Holds.bytes (hsb : Holds sb sets units k) (hok : Succeeds sb b fmt) :
    b.bytes = sampleBytes k units := hsb.data b hok.dataBuffer

theorem Holds.units_lt (hsb : Holds sb sets units k) (hok : Succeeds sb b fmt) :
    units.length < b.bytes.length + 1 := by
  have hpos : 0 < k := by have := hsb.width; omega
  rw [hsb.bytes hok]
  exact Nat.lt_succ_of_le (length_le_sampleBytes hpos units)

/-- Extraction writes its units as if at once. -/
theorem extractAnnexB_eq (hsb : Holds sb sets units k) (hok : Succeeds sb b fmt) :
    extractAnnexB sb isKeyframe =
      pushBytes (b.bytes.length + 256) []
        (annexB ((if isKeyframe then sets else []) ++ units)) := by
  have hcopy : ∀ buf : List UInt8, buf.length ≤ b.bytes.length + 256 →
      copyNalus b.bytes (fmt.nalUnitHeaderLength.getD 4) (b.bytes.length + 256)
        (b.bytes.length + 1) 0 buf =
      pushBytes (b.bytes.length + 256) buf (annexB units) := by
    intro buf hbuf
    rw [hsb.headerLength fmt hok.formatDescription]
    exact copyNalus_eq hsb.width hsb.fits (List.drop_zero.trans (hsb.bytes hok))
      (hsb.units_lt hok) hbuf
  have hsets : pushParameterSets fmt (b.bytes.length + 256) 0 fmt.parameterSets [] =
      pushBytes (b.bytes.length + 256) [] (annexB sets) := by
    rw [pushParameterSets_eq (Nat.zero_le _) fun j hj => by
      rw [Nat.zero_add]
      exact hok.setStatus j hj, hsb.sets fmt hok.formatDescription]
  have hpointer : ¬ (b.pointerStatus ≠ 0 ∨ b.nullPointer = true) := by
    simp [hok.pointerStatus, hok.pointer]
  have hcount : ¬ (fmt.parameterSets.length = 0 ∧ fmt.countStatus ≠ 0) := by
    simp [hok.countStatus]
  unfold extractAnnexB
  simp only [hok.dataBuffer, hok.formatDescription]
  cases isKeyframe with
  | false =>
    simp only [Bool.false_eq_true, if_false, List.nil_append]
    rw [guard_of_not hpointer]
    exact hcopy [] (Nat.zero_le _)
  | true =>
    simp only [if_true, annexB_append]
    rw [guard_of_not hcount, hsets, ← pushBytes_bind]
    cases hwritten : pushBytes (b.bytes.length + 256) [] (annexB sets) with
    | error e => rfl
    | ok buf =>
      rw [ok_bind, guard_of_not hpointer]
      exact hcopy buf (pushBytes_length_le hwritten)

theorem length_annexB (us : List (List UInt8)) :
    (annexB us).length = (us.map fun u => 4 + u.length).sum := by
  induction us with
  | nil => rfl
  | cons u us ih =>
    rw [annexB_cons, List.length_append, List.length_append, ih, List.map_cons, List.sum_cons,
      Nat.add_assoc]
    rfl

/-- Each unit takes `4 - k` bytes more in the output than in the sample. -/
theorem length_annexB_units (hk : k ≤ 4) (us : List (List UInt8)) :
    (annexB us).length = (sampleBytes k us).length + (4 - k) * us.length := by
  induction us with
  | nil => rfl
  | cons u us ih =>
    simp only [annexB_cons, sampleBytes_cons, List.length_append, ih, length_toBe,
      List.length_cons, List.length_nil, Nat.mul_succ]
    omega

theorem length_written (hsb : Holds sb sets units k) (hok : Succeeds sb b fmt)
    (all : List (List UInt8)) :
    (annexB (all ++ units)).length = b.bytes.length + overhead all units k := by
  have hk : k ≤ 4 := by have := hsb.width; omega
  rw [annexB_append, List.length_append, length_annexB, length_annexB_units hk, hsb.bytes hok,
    overhead]
  omega

theorem extractAnnexB_of_le (hsb : Holds sb sets units k) (hok : Succeeds sb b fmt)
    (hle : overhead (if isKeyframe then sets else []) units k ≤ 256) :
    extractAnnexB sb isKeyframe = .ok (annexB ((if isKeyframe then sets else []) ++ units)) := by
  rw [extractAnnexB_eq hsb hok, pushBytes_of_le, List.nil_append]
  rw [length_written hsb hok, List.length_nil]
  omega

theorem extractAnnexB_of_lt (hsb : Holds sb sets units k) (hok : Succeeds sb b fmt)
    (hlt : 256 < overhead (if isKeyframe then sets else []) units k) :
    extractAnnexB sb isKeyframe = .error "Annex B output exceeded estimate" := by
  rw [extractAnnexB_eq hsb hok, pushBytes_of_lt]
  rw [length_written hsb hok, List.length_nil]
  omega

/--
Extraction succeeds exactly when start codes and parameter sets take at most 256 bytes more than
the sample has; otherwise it gives up for that reason. The loop never reads outside of the sample,
and reads all of it if it succeeds.
-/
theorem extractAnnexB_ok_iff (hsb : Holds sb sets units k) (hok : Succeeds sb b fmt) :
    ((∃ out, extractAnnexB sb isKeyframe = .ok out) ↔
        overhead (if isKeyframe then sets else []) units k ≤ 256) ∧
      (256 < overhead (if isKeyframe then sets else []) units k →
        extractAnnexB sb isKeyframe = .error "Annex B output exceeded estimate") ∧
      (∀ out, extractAnnexB sb isKeyframe = .ok out → out.length ≤ b.bytes.length + 256) ∧
      ∀ buf, ∀ run, run = copyRun b.bytes k (b.bytes.length + 256) (b.bytes.length + 1) 0 buf →
        run.result = copyNalus b.bytes k (b.bytes.length + 256) (b.bytes.length + 1) 0 buf ∧
        (∀ r ∈ run.reads, r.1 ≤ r.2 ∧ r.2 ≤ b.bytes.length) ∧
        ∀ out, run.result = .ok out → run.offset = b.bytes.length := by
  refine ⟨⟨?_, ?_⟩, extractAnnexB_of_lt hsb hok, ?_, ?_⟩
  · rintro ⟨out, hout⟩
    by_contra hlt
    rw [extractAnnexB_of_lt hsb hok (not_le.mp hlt)] at hout
    cases hout
  · intro hle
    exact ⟨_, extractAnnexB_of_le hsb hok hle⟩
  · intro out hout
    rw [extractAnnexB_eq hsb hok] at hout
    exact pushBytes_length_le hout
  · rintro buf run rfl
    refine ⟨copyRun_result _ _ _, copyRun_reads _ _ _, fun out hout => ?_⟩
    exact copyRun_offset hsb.width hsb.fits (List.drop_zero.trans (hsb.bytes hok))
      (hsb.units_lt hok) (Nat.zero_le _) hout

end

/-- A keyframe of one picture with one parameter set of `n` bytes. -/
def oneSet (n : ℕ) : FormatDescription where
  parameterSets := [List.replicate n 64]
  nalUnitHeaderLength := some 4

def onePicture : BlockBuffer where
  bytes := [0, 0, 0, 5, 38, 1, 7, 0, 0]

theorem holds_oneSet (n : ℕ) :
    Holds ⟨some onePicture, some (oneSet n)⟩ [List.replicate n 64] [[38, 1, 7, 0, 0]] 4 where
  width := by decide
  fits := by decide
  data := by
    rintro b hb
    obtain rfl := Option.some.inj hb
    decide
  sets := by
    rintro fmt hfmt
    obtain rfl := Option.some.inj hfmt
    rfl
  headerLength := by
    rintro fmt hfmt
    obtain rfl := Option.some.inj hfmt
    rfl

theorem succeeds_oneSet (n : ℕ) :
    Succeeds ⟨some onePicture, some (oneSet n)⟩ onePicture (oneSet n) :=
  ⟨rfl, rfl, rfl, fun _ _ => rfl, rfl, rfl⟩

theorem overhead_oneSet (n : ℕ) :
    overhead [List.replicate n 64] [[38, 1, 7, 0, 0]] 4 = 4 + n := by
  simp [overhead]

/-- A set of 252 bytes fits. -/
theorem extractAnnexB_ok_iff_oneSet :
    ∃ out, extractAnnexB ⟨some onePicture, some (oneSet 252)⟩ true = .ok out :=
  (extractAnnexB_ok_iff (holds_oneSet 252) (succeeds_oneSet 252)).1.mpr (overhead_oneSet 252).le

/-- One byte more, and the sample is refused. -/
theorem not_extractAnnexB_ok :
    ¬ ∀ (sb : SampleBuffer) (b : BlockBuffer) (fmt : FormatDescription)
        (sets units : List (List UInt8)) (k : ℕ), Holds sb sets units k → Succeeds sb b fmt →
        sets ≠ [] → ∃ out, extractAnnexB sb true = .ok out := by
  intro h
  obtain ⟨out, hout⟩ := h _ _ _ _ _ _ (holds_oneSet 253) (succeeds_oneSet 253)
    (List.cons_ne_nil _ _)
  have hlt : 256 < overhead (if true then [List.replicate 253 64] else [])
      [[38, 1, 7, 0, 0]] 4 := by
    rw [if_pos rfl, overhead_oneSet]
    decide
  rw [extractAnnexB_of_lt (holds_oneSet 253) (succeeds_oneSet 253) hlt] at hout
  cases hout

end Meshconf.AnnexB
