import Meshconf.Bytes.Reader
import Meshconf.Video.Decoder

/-! # Reuse of a decoder session

A session is kept for a keyframe whose parameter sets, one behind the other, are the
bytes that it was made with. Where one unit ends and the next one begins is not part
of that comparison.
-/

namespace Meshconf.Video

open AnnexB Bytes

/-- The same bytes in the same order, cut into units at different places. -/
def Recut {α : Type*} (L M : List (List α)) : Prop :=
  L.flatten = M.flatten ∧ L.map List.length ≠ M.map List.length

instance {α : Type*} [DecidableEq α] : DecidableRel (Recut (α := α)) := fun L M =>
  inferInstanceAs (Decidable (L.flatten = M.flatten ∧ L.map List.length ≠ M.map List.length))

theorem flatten_eq_iff {α : Type*} {L M : List (List α)} :
    L.flatten = M.flatten ↔ L = M ∨ Recut L M := by
  rw [List.eq_iff_flatten_eq, Recut, ← and_or_left]
  exact (and_iff_left (em _)).symm

theorem Recut.ne {α : Type*} {L M : List (List α)} (h : Recut L M) : L ≠ M := by
  rintro rfl
  exact h.2 rfl

/-! ## The two loops -/

/-- The loop of `collectParamSetBytes`; the old contents of `out` are cleared. -/
def collectParamSetBytesInto (annexB _out : List UInt8) : List UInt8 :=
  (nalus annexB).foldl (fun out nalu =>
    if nalu.length < 2 then out
    else if isParameterSet nalu then out ++ nalu
    else out) []

/-- The loop of `newFromAnnexB`: the parameter sets, and their bytes one behind the other. -/
def extractParamSets (annexB : List UInt8) : List (List UInt8) × List UInt8 :=
  (nalus annexB).foldl (fun r nalu =>
    if nalu.length < 2 then r
    else if isParameterSet nalu then (r.1 ++ [nalu], r.2 ++ nalu)
    else r) ([], [])

/-- A loop that skips all but the parameter sets runs over the parameter sets. -/
theorem foldl_paramSets {β : Type} (f : β → List UInt8 → β) (init : β) (annexB : List UInt8) :
    (nalus annexB).foldl (fun r nalu =>
      if nalu.length < 2 then r
      else if isParameterSet nalu then f r nalu
      else r) init = (paramSets annexB).foldl f init := by
  rw [paramSets, List.foldl_filter]
  congr 1
  funext r nalu
  by_cases hshort : nalu.length < 2
  · simp [hshort, not_le.mpr hshort]
  · simp [hshort, not_lt.mp hshort]

theorem collectParamSetBytesInto_eq (annexB out : List UInt8) :
    collectParamSetBytesInto annexB out = collectParamSetBytes annexB := by
  rw [collectParamSetBytesInto, foldl_paramSets (· ++ ·), collectParamSetBytes]
  simpa using @List.foldl_append_eq_append _ _ (paramSets annexB) id []

theorem extractParamSets_eq (annexB : List UInt8) :
    extractParamSets annexB = (paramSets annexB, collectParamSetBytes annexB) := by
  have key : ∀ (sets init : List (List UInt8)) (bytes : List UInt8),
      sets.foldl (fun r nalu => (r.1 ++ [nalu], r.2 ++ nalu)) (init, bytes) =
        (init ++ sets, bytes ++ sets.flatten) := by
    intro sets
    induction sets with
    | nil => simp
    | cons nalu sets ih =>
      intro init bytes
      rw [List.foldl_cons, ih, List.append_assoc, List.append_assoc, List.flatten_cons]
      rfl
  rw [extractParamSets, foldl_paramSets (fun r nalu => (r.1 ++ [nalu], r.2 ++ nalu)), key]
  rfl

/-! ## The comparison -/

namespace HevcDecoder

variable {d : HevcDecoder} {A B : List UInt8}

/-- The packets that a decoder is given, with the answers of its session. -/
def decodeAll (d : HevcDecoder)
    (packets : List (List UInt8 × Except String (Option DecodedRgbFrame))) : HevcDecoder :=
  packets.foldl (fun d packet => (d.decodeAnnexB packet.1 packet.2).2) d

theorem paramSetBytes_decodeAnnexB (annexB : List UInt8)
    (decode : Except String (Option DecodedRgbFrame)) :
    (d.decodeAnnexB annexB decode).2.paramSetBytes = d.paramSetBytes := by
  unfold decodeAnnexB
  dsimp only
  split <;> rfl

theorem paramSetBytes_decodeAll
    (packets : List (List UInt8 × Except String (Option DecodedRgbFrame))) :
    (d.decodeAll packets).paramSetBytes = d.paramSetBytes := by
  induction packets generalizing d with
  | nil => rfl
  | cons packet packets ih => exact ih.trans (paramSetBytes_decodeAnnexB _ _)

theorem paramSetBytes_newFromAnnexB {create : Except String Unit} {session : ℕ}
    (h : newFromAnnexB A create session = .ok d) :
    d.paramSetBytes = (paramSets A).flatten := by
  obtain ⟨-, h⟩ := guard_eq_ok.mp h
  obtain ⟨-, -, h⟩ := bind_eq_ok.mp h
  obtain rfl := Except.ok.inj h
  rfl

/-- A session is kept for keyframes with the same parameter sets, and for those that recut them. -/
theorem paramsMatch_iff {create : Except String Unit} {session : ℕ}
    (h : newFromAnnexB A create session = .ok d)
    (packets : List (List UInt8 × Except String (Option DecodedRgbFrame))) :
    (d.decodeAll packets).paramsMatch B ↔
      paramSets B = paramSets A ∨ Recut (paramSets B) (paramSets A) := by
  rw [paramsMatch, beq_iff_eq, paramSetBytes_decodeAll, paramSetBytes_newFromAnnexB h,
    collectParamSetBytes, flatten_eq_iff]

/--
A session is reused for exactly the keyframes with its parameter sets as long as these are not
its own recut. Where they are, it is kept for other parameter sets.
-/
theorem paramsMatch_exact_iff {create : Except String Unit} {session : ℕ}
    (h : newFromAnnexB A create session = .ok d)
    (packets : List (List UInt8 × Except String (Option DecodedRgbFrame))) :
    ((d.decodeAll packets).paramsMatch B = true ↔ paramSets B = paramSets A) ↔
      ¬ Recut (paramSets B) (paramSets A) := by
  rw [paramsMatch_iff h]
  constructor
  · intro hexact hrecut
    exact hrecut.ne (hexact.mp (.inr hrecut))
  · intro hnot
    exact or_iff_left hnot

end HevcDecoder

/-- A keyframe with a video, a sequence and a picture parameter set. -/
def threeSets : List UInt8 :=
  annexB [[64, 1, 12], [66, 1, 1], [68, 1, 193]]

/-- The same with the first start code inside the sets missing. -/
def twoSets : List UInt8 :=
  annexB [[64, 1, 12, 66, 1, 1], [68, 1, 193]]

theorem paramSets_threeSets : paramSets threeSets = [[64, 1, 12], [66, 1, 1], [68, 1, 193]] := by
  rw [paramSets, threeSets, nalus_annexB (by decide)]
  decide

theorem paramSets_twoSets : paramSets twoSets = [[64, 1, 12, 66, 1, 1], [68, 1, 193]] := by
  rw [paramSets, twoSets, nalus_annexB (by decide)]
  decide

theorem newFromAnnexB_threeSets :
    HevcDecoder.newFromAnnexB threeSets (.ok ()) 0 =
      .ok { session := 0, paramSetBytes := (paramSets threeSets).flatten } := by
  simp [HevcDecoder.newFromAnnexB, collectParamSetBytes, paramSets_threeSets]

/-- The session is kept when the same keyframe comes again. -/
theorem paramsMatch_exact_iff_again :
    ((HevcDecoder.decodeAll { session := 0, paramSetBytes := (paramSets threeSets).flatten }
      [(threeSets, .ok none)]).paramsMatch threeSets = true ↔
        paramSets threeSets = paramSets threeSets) :=
  (HevcDecoder.paramsMatch_exact_iff newFromAnnexB_threeSets _).mpr fun h => h.ne rfl

/-- It is also kept when a start code between two sets is gone. -/
theorem not_paramsMatch_exact :
    ¬ ∀ (A B : List UInt8) (create : Except String Unit) (session : ℕ) (d : HevcDecoder),
        HevcDecoder.newFromAnnexB A create session = .ok d →
        (d.paramsMatch B = true ↔ paramSets B = paramSets A) := by
  intro h
  have hmatch := h _ twoSets _ _ _ newFromAnnexB_threeSets
  rw [HevcDecoder.paramsMatch, collectParamSetBytes, paramSets_twoSets,
    paramSets_threeSets] at hmatch
  exact absurd hmatch (by decide)

end Meshconf.Video
