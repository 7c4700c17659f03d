import Mathlib.Tactic.Positivity
import Meshconf.Bandwidth.Estimator

/-! # The quality level fits the bitrate

An event moves the bitrate by a bounded factor and the quality level by at most one
rung. The rungs are far enough apart for the level to follow over every history.
-/

namespace Meshconf.Bandwidth

open Signal

def rung (i : QualityIdx) : ℕ := (preset i).bitrateBps

theorem rung_strictMono : StrictMono rung := by
  intro i j hij
  revert hij
  revert i j
  decide

/-- Below the highest rung, halving does not cross two rungs. -/
theorem two_mul_rung_lt :
    ∀ j k i : QualityIdx, j.val + 1 = k.val → k.val + 1 = i.val → 2 * rung j + 1 < rung k := by
  decide

/-- Raising by five percent never crosses two rungs. -/
theorem mul_rung_le : ∀ k j : QualityIdx, k.val + 1 = j.val → 21 * rung k ≤ 20 * rung j := by
  decide

section Truncation

variable {x : ℚ}

theorem toU32_le (h : 0 ≤ x) : (toU32 x : ℚ) ≤ x := by
  have hmin : (toU32 x : ℚ) ≤ ⌊x⌋₊ := by exact_mod_cast min_le_left _ _
  exact hmin.trans (Nat.floor_le h)

theorem lt_toU32_add_one (h : x ≤ maxBitrateBps * 2) : x < toU32 x + 1 := by
  have hfloor : ⌊x⌋₊ ≤ maxBitrateBps * 2 := by
    refine Nat.floor_le_of_le (h.trans ?_)
    norm_num [maxBitrateBps]
  have heq : toU32 x = ⌊x⌋₊ := min_eq_left (hfloor.trans (by decide))
  rw [heq]
  exact Nat.lt_floor_add_one x

end Truncation

namespace BandwidthEstimator

variable {e : BandwidthEstimator}

/-- The configuration shows the bitrate and the preset of the quality level. -/
structure Published (e : BandwidthEstimator) : Prop where
  bitrate : e.config.targetBitrate = e.currentBitrate
  width : e.config.targetWidth = (preset e.qualityIdx).width
  height : e.config.targetHeight = (preset e.qualityIdx).height
  fps : e.config.targetFps = (preset e.qualityIdx).fps
  frameInterval : e.frameIntervalMs = 1000 / (preset e.qualityIdx).fps

/-- The published values are current, and the level is the one between whose rungs the bitrate is. -/
structure Fits (e : BandwidthEstimator) : Prop extends Published e where
  min_le : minBitrateBps ≤ e.currentBitrate
  le_max : e.currentBitrate ≤ maxBitrateBps
  between : Between rung e.qualityIdx e.currentBitrate

theorem fits_new (lastProbe lastDecrease : ℕ) : (new .new lastProbe lastDecrease).Fits where
  bitrate := rfl
  width := rfl
  height := rfl
  fps := rfl
  frameInterval := rfl
  min_le := by simp only [new]; decide
  le_max := by simp only [new]; decide
  between := by
    simp only [new]
    constructor <;> decide

theorem Published.setBitrate (h : e.Published) (bps : ℕ) : (e.setBitrate bps).Published :=
  ⟨rfl, h.width, h.height, h.fps, h.frameInterval⟩

theorem Published.applyPreset (h : e.Published) (i : QualityIdx) :
    (({ e with qualityIdx := i } : BandwidthEstimator).applyPreset (preset i)).Published :=
  ⟨h.bitrate, rfl, rfl, rfl, rfl⟩

/-- The step down of the ladder, with the preset applied if the level has changed. -/
theorem maybeStepDownQuality_cases :
    (stepDown rung e.qualityIdx e.currentBitrate = e.qualityIdx ∧ e.maybeStepDownQuality = e) ∨
    ∃ i, stepDown rung e.qualityIdx e.currentBitrate = i ∧
      e.maybeStepDownQuality =
        ({ e with qualityIdx := i } : BandwidthEstimator).applyPreset (preset i) := by
  by_cases hzero : e.qualityIdx.val = 0
  · left
    simp only [stepDown, maybeStepDownQuality, if_pos hzero, and_self]
  · have hlower : e.qualityIdx.val - 1 + 1 = e.qualityIdx.val := by omega
    have hstep := stepDown_of_eq_succ rung (j := ⟨e.qualityIdx.val - 1, by omega⟩)
      (v := e.currentBitrate) hlower
    simp only [maybeStepDownQuality, if_neg hzero]
    split_ifs with hle
    · exact .inr ⟨_, hstep.trans (if_pos hle), rfl⟩
    · exact .inl ⟨hstep.trans (if_neg hle), rfl⟩

theorem maybeStepUpQuality_cases :
    (stepUp rung e.qualityIdx e.currentBitrate = e.qualityIdx ∧ e.maybeStepUpQuality = e) ∨
    ∃ i, stepUp rung e.qualityIdx e.currentBitrate = i ∧
      e.maybeStepUpQuality =
        ({ e with qualityIdx := i } : BandwidthEstimator).applyPreset (preset i) := by
  by_cases htop : e.qualityIdx.val + 1 < qualityLadder.length
  · have hstep := stepUp_of_succ_eq rung (j := ⟨e.qualityIdx.val + 1, htop⟩)
      (v := e.currentBitrate) rfl
    simp only [maybeStepUpQuality, dif_pos htop]
    split_ifs with hle
    · exact .inr ⟨_, hstep.trans (if_pos hle), rfl⟩
    · exact .inl ⟨hstep.trans (if_neg hle), rfl⟩
  · left
    simp only [stepUp, maybeStepUpQuality, dif_neg htop, and_self]

section Bitrate

variable {bps : ℕ}

theorem setBitrate_currentBitrate (hmin : minBitrateBps ≤ bps) (hmax : bps ≤ maxBitrateBps) :
    (e.setBitrate bps).currentBitrate = bps := by
  simp only [setBitrate]
  rw [min_eq_left hmax, max_eq_right hmin]

/-- A level that is right for the new bitrate, reached by the ladder's step, fits. -/
theorem Published.fits_maybeStepDownQuality (h : e.Published) (hmin : minBitrateBps ≤ e.currentBitrate)
    (hmax : e.currentBitrate ≤ maxBitrateBps)
    (hbetween : Between rung (stepDown rung e.qualityIdx e.currentBitrate) e.currentBitrate) :
    e.maybeStepDownQuality.Fits := by
  rcases maybeStepDownQuality_cases (e := e) with ⟨hidx, heq⟩ | ⟨i, rfl, heq⟩
  · rw [heq]
    rw [hidx] at hbetween
    exact ⟨h, hmin, hmax, hbetween⟩
  · rw [heq]
    exact ⟨h.applyPreset _, hmin, hmax, hbetween⟩

theorem Published.fits_maybeStepUpQuality (h : e.Published) (hmin : minBitrateBps ≤ e.currentBitrate)
    (hmax : e.currentBitrate ≤ maxBitrateBps)
    (hbetween : Between rung (stepUp rung e.qualityIdx e.currentBitrate) e.currentBitrate) :
    e.maybeStepUpQuality.Fits := by
  rcases maybeStepUpQuality_cases (e := e) with ⟨hidx, heq⟩ | ⟨i, rfl, heq⟩
  · rw [heq]
    rw [hidx] at hbetween
    exact ⟨h, hmin, hmax, hbetween⟩
  · rw [heq]
    exact ⟨h.applyPreset _, hmin, hmax, hbetween⟩

/-- A bitrate of at least half the old one is followed by one step down. -/
theorem Fits.lower (h : e.Fits) (hle : bps ≤ e.currentBitrate)
    (hhalf : e.currentBitrate ≤ 2 * bps + 1) (hmin : minBitrateBps ≤ bps) :
    (e.setBitrate bps).maybeStepDownQuality.Fits := by
  have hmax := hle.trans h.le_max
  have hbps := setBitrate_currentBitrate (e := e) hmin hmax
  apply (h.toPublished.setBitrate bps).fits_maybeStepDownQuality
  · rwa [hbps]
  · rwa [hbps]
  · rw [hbps]
    refine h.between.stepDown rung_strictMono hle fun j hj => ?_
    have hgap := two_mul_rung_lt j ⟨j.val + 1, by omega⟩ e.qualityIdx rfl hj
    have habove := h.between.above ⟨j.val + 1, by omega⟩ hj
    omega

/-- A bitrate of at most five percent more than the old one is followed by one step up. -/
theorem Fits.raise (h : e.Fits) (hle : e.currentBitrate ≤ bps)
    (hrate : 20 * bps ≤ 21 * e.currentBitrate) (hmax : bps ≤ maxBitrateBps) :
    (e.setBitrate bps).maybeStepUpQuality.Fits := by
  have hmin := h.min_le.trans hle
  have hbps := setBitrate_currentBitrate (e := e) hmin hmax
  apply (h.toPublished.setBitrate bps).fits_maybeStepUpQuality
  · rwa [hbps]
  · rwa [hbps]
  · rw [hbps]
    refine h.between.stepUp rung_strictMono hle fun j hj => ?_
    have hgap := mul_rung_le ⟨e.qualityIdx.val + 1, by omega⟩ j hj
    have hbelow := h.between.below ⟨e.qualityIdx.val + 1, by omega⟩ rfl
    omega

end Bitrate

section Events

variable {t : Readings} {factor : ℚ}

theorem raised_bounds {b : ℕ} (hmax : b ≤ maxBitrateBps) :
    b ≤ toU32 (b * (1 + increaseRate)) ∧ 20 * toU32 (b * (1 + increaseRate)) ≤ 21 * b := by
  have hb : (b : ℚ) ≤ maxBitrateBps := by exact_mod_cast hmax
  have hpos : (0 : ℚ) ≤ b := Nat.cast_nonneg b
  have hle := toU32_le (x := b * (1 + increaseRate)) (by unfold increaseRate; positivity)
  have hlt := lt_toU32_add_one (x := b * (1 + increaseRate)) (by unfold increaseRate; linarith)
  unfold increaseRate at hle hlt ⊢
  generalize toU32 (b * (1 + 1 / 20)) = n at hle hlt ⊢
  constructor
  · have h : (b : ℚ) < (n + 1 : ℕ) := by
      push_cast
      linarith
    exact Nat.lt_succ_iff.mp (by exact_mod_cast h)
  · have h : ((20 * n : ℕ) : ℚ) ≤ (21 * b : ℕ) := by
      push_cast
      linarith
    exact_mod_cast h

theorem lowered_bounds {b : ℕ} (hmax : b ≤ maxBitrateBps) (hhalf : 1 / 2 ≤ factor)
    (hone : factor ≤ 1) : toU32 (b * factor) ≤ b ∧ b ≤ 2 * toU32 (b * factor) + 1 := by
  have hb : (b : ℚ) ≤ maxBitrateBps := by exact_mod_cast hmax
  have hpos : (0 : ℚ) ≤ b := Nat.cast_nonneg b
  have hprod : (b : ℚ) * factor ≤ b := mul_le_of_le_one_right hpos hone
  have hprod' : (b : ℚ) * (1 / 2) ≤ b * factor := mul_le_mul_of_nonneg_left hhalf hpos
  have hle := toU32_le (x := b * factor) (by linarith)
  have hlt := lt_toU32_add_one (x := b * factor) (by linarith)
  generalize toU32 (b * factor) = n at hle hlt ⊢
  constructor
  · exact_mod_cast hle.trans hprod
  · have h : (b : ℚ) < (2 * n + 1 + 1 : ℕ) := by
      push_cast
      linarith
    exact Nat.lt_succ_iff.mp (by exact_mod_cast h)

theorem Fits.tryProbe (h : e.Fits) : (e.tryProbe t).Fits := by
  unfold BandwidthEstimator.tryProbe
  split_ifs
  · obtain ⟨hle, hrate⟩ := raised_bounds h.le_max
    have h' : ({ e with lastProbe := t.stamp } : BandwidthEstimator).Fits :=
      ⟨⟨h.bitrate, h.width, h.height, h.fps, h.frameInterval⟩, h.min_le, h.le_max, h.between⟩
    apply h'.raise
    · exact le_min hle h.le_max
    · have hmin := min_le_left (toU32 (e.currentBitrate * (1 + increaseRate))) maxBitrateBps
      simp only
      omega
    · exact min_le_right _ _
  · exact h

theorem Fits.decrease (h : e.Fits) (hhalf : 1 / 2 ≤ factor) (hone : factor ≤ 1) :
    (e.decrease t factor).Fits := by
  obtain ⟨hle, htwice⟩ := lowered_bounds h.le_max hhalf hone
  have h' : ({ e with lastDecrease := t.stamp } : BandwidthEstimator).Fits :=
    ⟨⟨h.bitrate, h.width, h.height, h.fps, h.frameInterval⟩, h.min_le, h.le_max, h.between⟩
  apply h'.lower
  · exact max_le hle h.min_le
  · have hmax := le_max_left (toU32 (e.currentBitrate * factor)) minBitrateBps
    simp only
    omega
  · exact le_max_right _ _

/-- Classifying an event changes the round-trip times only. -/
theorem classify_fst (event : BandwidthEvent) :
    ∃ smoothed baseline, (e.classify event).1 =
      { e with smoothedRttUs := smoothed, baselineRttUs := baseline } := by
  cases event with
  | sendComplete | streamStopped | receiverFeedback => exact ⟨_, _, rfl⟩
  | rttSample rttUs =>
    simp only [classify, sampleRtt]
    split
    · exact ⟨_, _, rfl⟩
    · split
      · exact ⟨_, e.baselineRttUs, rfl⟩
      · split_ifs
        · exact ⟨_, e.baselineRttUs, rfl⟩
        · exact ⟨_, _, rfl⟩

theorem Fits.classify (h : e.Fits) (event : BandwidthEvent) : (e.classify event).1.Fits := by
  obtain ⟨smoothed, baseline, heq⟩ := classify_fst (e := e) event
  rw [heq]
  exact ⟨⟨h.bitrate, h.width, h.height, h.fps, h.frameInterval⟩, h.min_le, h.le_max, h.between⟩

theorem Fits.handleEvent (h : e.Fits) (event : BandwidthEvent) : (e.handleEvent event t).Fits := by
  have hfits := h.classify event
  unfold BandwidthEstimator.handleEvent
  split <;> rename_i heq <;> rw [heq] at hfits
  · exact hfits.tryProbe
  · exact hfits.decrease (by norm_num) (by norm_num)
  · exact hfits.decrease (by norm_num) (by norm_num)
  · exact hfits.decrease (by norm_num) (by norm_num)

theorem Fits.act (h : e.Fits) (a : Action) : (e.act a).Fits := by
  cases a with
  | event event t => exact h.handleEvent event
  | takeQualityChanged =>
    exact ⟨⟨h.bitrate, h.width, h.height, h.fps, h.frameInterval⟩, h.min_le, h.le_max, h.between⟩

end Events

theorem Fits.foldl (h : e.Fits) (actions : List Action) : (actions.foldl BandwidthEstimator.act e).Fits := by
  induction actions generalizing e with
  | nil => exact h
  | cons a actions ih => exact ih (h.act a)

/-- Over every history the quality level fits the bitrate. -/
theorem fits_after (lastProbe lastDecrease : ℕ) (actions : List Action) :
    (after lastProbe lastDecrease actions).Fits :=
  (fits_new lastProbe lastDecrease).foldl actions

end BandwidthEstimator

end Meshconf.Bandwidth
