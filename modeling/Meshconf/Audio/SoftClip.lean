import Mathlib.Analysis.Complex.Exponential
import Meshconf.Audio.Mixing
import Meshconf.Signal.Limiter

/-! # The soft clipper

Over the reals the clipper is a limiter whose curve begins below full scale. A mix stays
within full scale and has the sign of the sum, but when a peer gets louder it can get
quieter: exactly when the sum comes from close below full scale and goes beyond.
-/

namespace Meshconf.Audio

open Buffers Signal

/-! ## The clipper -/

/-- The sign of a number, 1 for zero. -/
noncomputable def signum (x : ℝ) : ℝ := if 0 ≤ x then 1 else -1

noncomputable def softClip (x : ℝ) : ℝ :=
  if |x| ≤ 1 then x else signum x * (1 - Real.exp (-|x|))

/-- The curve beyond full scale. -/
noncomputable def saturation (x : ℝ) : ℝ := 1 - Real.exp (-x)

theorem softClip_eq (x : ℝ) : softClip x = limit 1 saturation x := by
  unfold softClip limit signum saturation
  split_ifs
  · rfl
  · rw [one_mul]
  · rw [neg_one_mul]

theorem saturating : Saturating 1 saturation where
  nonneg := zero_le_one
  pos _ hx := sub_pos.mpr (Real.exp_lt_one_iff.mpr (neg_neg_of_pos (zero_lt_one.trans hx)))
  le x _ := sub_le_self 1 (Real.exp_pos (-x)).le
  mono _ _ _ hxy := sub_le_sub_left (Real.exp_le_exp.mpr (neg_le_neg hxy)) 1

/-- A value below the curve is far enough from full scale. -/
theorem le_saturation_iff {x y : ℝ} : x ≤ saturation y ↔ 1 ≤ (1 - x) * Real.exp y := by
  unfold saturation
  rw [le_sub_comm, Real.exp_neg, inv_le_iff_one_le_mul₀ (Real.exp_pos y)]

theorem softClip_mem (x : ℝ) : -1 ≤ softClip x ∧ softClip x ≤ 1 := by
  rw [softClip_eq]
  exact abs_le.mp (saturating.abs_limit_le x)

theorem sign_softClip (x : ℝ) : SignType.sign (softClip x) = SignType.sign x := by
  rw [softClip_eq]
  exact saturating.sign_limit x

/-- A sum that goes beyond full scale was not too close to it. -/
def Clear (s s' : ℝ) : Prop :=
  (s ≤ 1 → 1 < s' → 1 ≤ (1 - s) * Real.exp s') ∧
    (s < -1 → -1 ≤ s' → 1 ≤ (1 + s') * Real.exp (-s))

theorem softClip_le_iff {s s' : ℝ} (h : s ≤ s') : softClip s ≤ softClip s' ↔ Clear s s' := by
  rw [softClip_eq, softClip_eq, saturating.limit_le_limit_iff h, le_saturation_iff,
    le_saturation_iff, sub_neg_eq_add]
  rfl

/-! ## The inputs of a mix -/

section Inputs

variable {P S : Type}

/-- One peer's sample at a position is raised, the others stay as they are. -/
inductive Raised [LE S] (i : ℕ) : List (PeerBuffer P S) → List (PeerBuffer P S) → Prop
  | mk (before after : List (PeerBuffer P S)) (b : PeerBuffer P S) (y : S)
      (hi : i < b.samples.length) (hle : b.samples[i] ≤ y) :
      Raised i (before ++ b :: after)
        (before ++ { b with samples := b.samples.set i y } :: after)

theorem getElem?_mix [AddCommMonoid S] {clip : S → S} {bs : List (PeerBuffer P S)} {i : ℕ} {x : S}
    (h : (mix clip bs)[i]? = some x) : x = clip (inputSum bs i) := by
  rw [mix_eq, List.getElem?_map] at h
  obtain ⟨j, hj, rfl⟩ := Option.map_eq_some_iff.mp h
  obtain ⟨hlt, hget⟩ := List.getElem?_eq_some_iff.mp hj
  rw [List.getElem_range] at hget
  rw [hget]

theorem getElem?_mix_of_lt [AddCommMonoid S] (clip : S → S) (bs : List (PeerBuffer P S)) {i : ℕ}
    (hi : i < mixSize) : (mix clip bs)[i]? = some (clip (inputSum bs i)) := by
  rw [mix_eq, List.getElem?_map, List.getElem?_range hi, Option.map_some]

theorem PeerBuffer.input_of_lt [Zero S] {b : PeerBuffer P S} {i : ℕ} (hi : i < mixSize)
    (hlen : i < b.samples.length) : b.input i = b.samples[i] := by
  rw [input, List.getD_eq_getElem?_getD, List.getElem?_take_of_lt hi,
    List.getElem?_eq_getElem hlen, Option.getD_some]

theorem PeerBuffer.input_of_getElem? [Zero S] {b : PeerBuffer P S} {i : ℕ} {x : S}
    (hi : i < mixSize) (h : b.samples[i]? = some x) : b.input i = x := by
  obtain ⟨hlen, hget⟩ := List.getElem?_eq_some_iff.mp h
  rw [input_of_lt hi hlen, hget]

/-- A raised sample raises the sum. -/
theorem Raised.inputSum_le [AddCommMonoid S] [PartialOrder S] [IsOrderedAddMonoid S] {i : ℕ}
    {bs bs' : List (PeerBuffer P S)} (h : Raised i bs bs') (hsize : i < mixSize) :
    inputSum bs i ≤ inputSum bs' i := by
  obtain ⟨before, after, b, y, hi, hle⟩ := h
  have hset : i < (b.samples.set i y).length := by rwa [List.length_set]
  have hinput : b.input i ≤ ({ b with samples := b.samples.set i y } : PeerBuffer P S).input i := by
    rw [PeerBuffer.input_of_lt hsize hi, PeerBuffer.input_of_lt hsize hset, List.getElem_set_self]
    exact hle
  simp only [inputSum, List.map_append, List.map_cons, List.sum_append, List.sum_cons]
  gcongr

theorem Raised.anyReady_eq [LE S] {i : ℕ} {bs bs' : List (PeerBuffer P S)} (h : Raised i bs bs') :
    anyReady bs' = anyReady bs := by
  obtain ⟨before, after, b, y, hi, hle⟩ := h
  simp [anyReady]

end Inputs

/-! ## The outputs of a mix -/

namespace MixTask

variable {P : Type} {t t' : MixTask P ℝ} {chunk : List ℝ} {i : ℕ}

/-- A chunk that the task may mix from what it has buffered, in some order of the peers. -/
def Outputs (t : MixTask P ℝ) (chunk : List ℝ) : Prop :=
  ∃ order accepts u m, t.tryMix softClip order accepts = some u ∧ u.mixes = t.mixes ++ [m] ∧
    m.chunk = chunk

/-- A mix happens if a peer is ready, and its chunk is the clipped sum of the inputs. -/
theorem outputs_iff (hclean : t.mixPool.Clean) :
    t.Outputs chunk ↔ anyReady t.peerBuffers ∧ chunk = mix softClip t.peerBuffers := by
  constructor
  · rintro ⟨order, accepts, u, m, hu, hmixes, rfl⟩
    by_cases hready : anyReady t.peerBuffers
    · obtain ⟨m', shared, hexact, hdrained, -, hmix⟩ :=
        @tryMix_ready P ℝ _ softClip t hclean hready order accepts
      obtain rfl := Option.some.inj (hmix.symm.trans hu)
      rw [mixes_trySend] at hmixes
      obtain rfl := List.singleton_inj.mp (List.append_cancel_left hmixes)
      exact ⟨hready, hexact.chunk_eq_mix hdrained⟩
    · obtain rfl := Option.some.inj ((if_neg hready).symm.trans hu)
      simp at hmixes
  · rintro ⟨hready, rfl⟩
    obtain ⟨m, shared, hexact, hdrained, -, hmix⟩ :=
      @tryMix_ready P ℝ _ softClip t hclean hready ⟨id, fun _ => .rfl⟩ true
    exact ⟨_, _, _, m, hmix, mixes_trySend _ _ _, hexact.chunk_eq_mix hdrained⟩

/-- The output at position `i` is not lower in any mix of `t'` than in one of `t`. -/
def NotLower (i : ℕ) (t t' : MixTask P ℝ) : Prop :=
  ∀ chunk chunk', t.Outputs chunk → t'.Outputs chunk' → ∀ x x', chunk[i]? = some x →
    chunk'[i]? = some x' → x ≤ x'

/-- What may be mixed from `t` and, with a raised input at position `i`, from `t'`. -/
structure Limited (i : ℕ) (t t' : MixTask P ℝ) : Prop where
  bounded : ∀ chunk, t.Outputs chunk → ∀ x ∈ chunk, -1 ≤ x ∧ x ≤ 1
  sign : ∀ chunk, t.Outputs chunk → ∀ j x, chunk[j]? = some x →
    SignType.sign x = SignType.sign (inputSum t.peerBuffers j)
  monotone : NotLower i t t'

theorem Outputs.bounded (hclean : t.mixPool.Clean) (h : t.Outputs chunk) :
    ∀ x ∈ chunk, -1 ≤ x ∧ x ≤ 1 := by
  obtain ⟨-, rfl⟩ := (outputs_iff hclean).mp h
  rw [mix_eq]
  intro x hx
  obtain ⟨j, -, rfl⟩ := List.mem_map.mp hx
  exact softClip_mem _

theorem Outputs.sign (hclean : t.mixPool.Clean) (h : t.Outputs chunk) {j : ℕ} {x : ℝ}
    (hx : chunk[j]? = some x) :
    SignType.sign x = SignType.sign (inputSum t.peerBuffers j) := by
  obtain ⟨-, rfl⟩ := (outputs_iff hclean).mp h
  rw [getElem?_mix hx]
  exact sign_softClip _

/-- The outputs at one position are compared as the clipped sums are. -/
theorem notLower_iff (hclean : t.mixPool.Clean) (hclean' : t'.mixPool.Clean)
    (hready : anyReady t.peerBuffers) (hready' : anyReady t'.peerBuffers) (hi : i < mixSize) :
    NotLower i t t' ↔
      softClip (inputSum t.peerBuffers i) ≤ softClip (inputSum t'.peerBuffers i) := by
  constructor
  · intro h
    exact h _ _ ((outputs_iff hclean).mpr ⟨hready, rfl⟩) ((outputs_iff hclean').mpr ⟨hready', rfl⟩)
      _ _ (getElem?_mix_of_lt softClip _ hi) (getElem?_mix_of_lt softClip _ hi)
  · intro hle chunk chunk' hchunk hchunk' x x' hx hx'
    obtain ⟨-, rfl⟩ := (outputs_iff hclean).mp hchunk
    obtain ⟨-, rfl⟩ := (outputs_iff hclean').mp hchunk'
    rw [getElem?_mix hx, getElem?_mix hx']
    exact hle

theorem notLower_iff_clear (hclean : t.mixPool.Clean) (hclean' : t'.mixPool.Clean)
    (hready : anyReady t.peerBuffers) (hi : i < mixSize)
    (hraised : Raised i t.peerBuffers t'.peerBuffers) :
    NotLower i t t' ↔ Clear (inputSum t.peerBuffers i) (inputSum t'.peerBuffers i) := by
  rw [notLower_iff hclean hclean' hready (hraised.anyReady_eq ▸ hready) hi]
  exact softClip_le_iff (hraised.inputSum_le hi)

/--
Mixes stay within full scale and have the sign of the sum. A raised input does not lower the output
exactly if the sum does not go from too close below full scale to beyond it.
-/
theorem limited_iff (hclean : t.mixPool.Clean) (hclean' : t'.mixPool.Clean)
    (hready : anyReady t.peerBuffers) (hi : i < mixSize)
    (hraised : Raised i t.peerBuffers t'.peerBuffers) :
    Limited i t t' ↔ Clear (inputSum t.peerBuffers i) (inputSum t'.peerBuffers i) := by
  have hmonotone := notLower_iff_clear hclean hclean' hready hi hraised
  constructor
  · intro h
    exact hmonotone.mp h.monotone
  · intro h
    exact
      { bounded := fun _ hchunk => hchunk.bounded hclean
        sign := fun _ hchunk _ _ hx => hchunk.sign hclean hx
        monotone := hmonotone.mpr h }

/-! ## Two speakers -/

/-- The second peer delivers samples while those of the first are buffered. -/
def overlap (first second : List ℝ) : MixTask ℕ ℝ where
  peerBuffers := extend 2 second (extend 1 first [])

section Speakers

variable {first second : List ℝ} {x y z : ℝ}

theorem buffers_overlap : (overlap first second).peerBuffers =
    [{ peer := 1, samples := first }, { peer := 2, samples := second }] := by
  simp [overlap, extend]

theorem clean_overlap : (overlap first second).mixPool.Clean := by
  simp [BufPool.Clean, overlap]

theorem anyReady_overlap (h : second.length = mixSize) :
    anyReady (overlap first second).peerBuffers := by
  simp [anyReady, buffers_overlap, h]

theorem inputSum_overlap (hx : first[0]? = some x) (hy : second[0]? = some y) :
    inputSum (overlap first second).peerBuffers 0 = x + y := by
  have hfirst := (PeerBuffer.mk 1 first 0).input_of_getElem? (by decide) hx
  have hsecond := (PeerBuffer.mk 2 second 0).input_of_getElem? (by decide) hy
  simp [inputSum, buffers_overlap, hfirst, hsecond]

theorem raised_overlap (first : List ℝ) (h : y ≤ z) :
    Raised 0 (overlap first (List.replicate mixSize y)).peerBuffers
      (overlap first ((List.replicate mixSize y).set 0 z)).peerBuffers := by
  rw [buffers_overlap, buffers_overlap]
  refine .mk [_] [] { peer := 2, samples := List.replicate mixSize y } z ?_ ?_
  · rw [List.length_replicate]
    decide
  · exact (List.getElem_replicate _).trans_le h

end Speakers

/-- Out of silence a peer may go beyond full scale at once. -/
theorem limited_iff_silence :
    Limited 0 (overlap (List.replicate 480 0) (List.replicate mixSize 0))
      (overlap (List.replicate 480 0) ((List.replicate mixSize 0).set 0 2)) := by
  refine (limited_iff clean_overlap clean_overlap (anyReady_overlap List.length_replicate)
    (by decide) (raised_overlap _ zero_le_two)).mpr ?_
  rw [inputSum_overlap rfl rfl, inputSum_overlap rfl rfl]
  refine ⟨fun _ _ => ?_, fun h => ?_⟩
  · have hexp := Real.one_le_exp (x := 0 + 2) (by norm_num)
    linarith
  · norm_num at h

/-- Two peers at half scale each: when one of them gets louder, the mix gets quieter. -/
theorem not_limited :
    Raised 0 (overlap (List.replicate 480 (1 / 2)) (List.replicate mixSize (1 / 2))).peerBuffers
        (overlap (List.replicate 480 (1 / 2))
          ((List.replicate mixSize (1 / 2)).set 0 1)).peerBuffers ∧
      ¬ Limited 0 (overlap (List.replicate 480 (1 / 2)) (List.replicate mixSize (1 / 2)))
        (overlap (List.replicate 480 (1 / 2)) ((List.replicate mixSize (1 / 2)).set 0 1)) := by
  have hraised := raised_overlap (List.replicate 480 (1 / 2)) (by norm_num : (1 / 2 : ℝ) ≤ 1)
  refine ⟨hraised, fun hlimited => ?_⟩
  have hclear := (notLower_iff_clear clean_overlap clean_overlap
    (anyReady_overlap List.length_replicate) (by decide) hraised).mp hlimited.monotone
  rw [inputSum_overlap rfl rfl, inputSum_overlap rfl rfl] at hclear
  have hfar := hclear.1 (by norm_num) (by norm_num)
  norm_num at hfar

end MixTask

end Meshconf.Audio
