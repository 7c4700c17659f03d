import Mathlib.Algebra.Order.Floor.Semifield
import Mathlib.Order.Iterate
import Meshconf.Bandwidth.Pacing
import Meshconf.Bandwidth.RoundTrip
import Meshconf.Signal.Progress

/-! # Recovery and collapse

While no event tells of congestion, the estimator probes about every two seconds and
reaches the highest bitrate and the best preset from wherever it is. While every event
tells of congestion, it goes down to the lowest.
-/

namespace Meshconf.Bandwidth

open Signal

/-- Every event has been handled within `gap` of the reading before it. -/
def Frequent (gap : ℕ) : ℕ → List Action → Prop
  | _, [] => True
  | now, .event _ t :: actions => t.stamp ≤ now + gap ∧ Frequent gap t.probe actions
  | now, .takeQualityChanged :: actions => Frequent gap now actions

/-- The first reading of an event, or the reading before. -/
def Action.clock (now : ℕ) : Action → ℕ
  | .event _ t => t.probe
  | .takeQualityChanged => now

/-- The bitrate behind a probe, and behind a mild decrease. -/
def probed (bps : ℕ) : ℕ := min (21 * bps / 20) maxBitrateBps
def eased (bps : ℕ) : ℕ := max (17 * bps / 20) minBitrateBps

theorem probed_mono : Monotone probed := fun _ _ h =>
  min_le_min_right _ (Nat.div_le_div_right (Nat.mul_le_mul_left 21 h))

theorem eased_mono : Monotone eased := fun _ _ h =>
  max_le_max_right _ (Nat.div_le_div_right (Nat.mul_le_mul_left 17 h))

/-- From the lowest bitrate it is 76 probes to the highest. -/
theorem iterate_probed : probed^[76] minBitrateBps = maxBitrateBps := by decide +kernel

theorem iterate_eased : eased^[23] maxBitrateBps = minBitrateBps := by decide +kernel

theorem toU32_raised {b : ℕ} (hmax : b ≤ maxBitrateBps) :
    toU32 (b * (1 + increaseRate)) = 21 * b / 20 := by
  have hb : (b * (1 + increaseRate) : ℚ) = ((21 * b : ℕ) : ℚ) / ((20 : ℕ) : ℚ) := by
    unfold increaseRate
    push_cast
    ring
  rw [toU32, hb, Nat.floor_div_eq_div]
  unfold maxBitrateBps at hmax
  omega

namespace BandwidthEstimator

/-- No event of the history tells of congestion. -/
def Uncongested : BandwidthEstimator → List Action → Prop
  | _, [] => True
  | e, .event event t :: actions => ¬ e.Congested event ∧ (e.handleEvent event t).Uncongested actions
  | e, .takeQualityChanged :: actions => (e.act .takeQualityChanged).Uncongested actions

/-- Every event of the history tells of congestion. -/
def AllCongested : BandwidthEstimator → List Action → Prop
  | _, [] => True
  | e, .event event t :: actions => e.Congested event ∧ (e.handleEvent event t).AllCongested actions
  | e, .takeQualityChanged :: actions => (e.act .takeQualityChanged).AllCongested actions

/-- When the next probe may take place. -/
def due (e : BandwidthEstimator) : ℕ :=
  max (e.lastProbe + probeInterval) (e.lastDecrease + holdAfterDecrease)

variable {e : BandwidthEstimator} {event : BandwidthEvent} {t : Readings}

/-! ## Probes -/

theorem tryProbe_eq_self (h : ¬ (probeInterval ≤ t.probe - e.lastProbe ∧
    holdAfterDecrease ≤ t.hold - e.lastDecrease)) : e.tryProbe t = e := if_neg h

theorem tryProbe_of_due (h : e.Fits) (hdue : probeInterval ≤ t.probe - e.lastProbe ∧
    holdAfterDecrease ≤ t.hold - e.lastDecrease) :
    (e.tryProbe t).currentBitrate = probed e.currentBitrate ∧
      (e.tryProbe t).lastProbe = t.stamp ∧ (e.tryProbe t).lastDecrease = e.lastDecrease := by
  have hraise := (raised_bounds h.le_max).1
  rw [toU32_raised h.le_max] at hraise
  have hle := le_min hraise h.le_max
  unfold tryProbe
  rw [if_pos hdue]
  obtain ⟨hbitrate, hprobe, hdecrease⟩ := timers_maybeStepUpQuality
    (e := ({ e with lastProbe := t.stamp } : BandwidthEstimator).setBitrate
      (min (toU32 (e.currentBitrate * (1 + increaseRate))) maxBitrateBps))
  rw [toU32_raised h.le_max, setBitrate_currentBitrate (h.min_le.trans hle) (min_le_right _ _)]
    at hbitrate
  refine ⟨?_, hprobe, hdecrease⟩
  simp only [toU32_raised h.le_max]
  exact hbitrate

/-- An event without congestion is a look at the timer of the probes. -/
theorem handleEvent_of_uncongested (h : e.Fits) (hcalm : ¬ e.Congested event) :
    ∃ e' : BandwidthEstimator, e'.Fits ∧ e'.currentBitrate = e.currentBitrate ∧
      e'.lastProbe = e.lastProbe ∧ e'.lastDecrease = e.lastDecrease ∧
      e.handleEvent event t = e'.tryProbe t := by
  obtain ⟨smoothed, baseline, heq⟩ := classify_fst (e := e) event
  exact ⟨(e.classify event).1, h.classify event, by rw [heq], by rw [heq], by rw [heq],
    handleEvent_of_none event (not_not.mp hcalm)⟩

/-- The estimator and its clock while nothing tells of congestion. -/
structure Rising (gap now : ℕ) (e : BandwidthEstimator) (actions : List Action) : Prop where
  fits : e.Fits
  ticking : ∃ before, e.Timely before ∧ Ticking before actions
  frequent : Frequent gap now actions
  uncongested : e.Uncongested actions

def Reached (n : ℕ) (e : BandwidthEstimator) : Prop := probed^[n] minBitrateBps ≤ e.currentBitrate

theorem reached_of_succ (n : ℕ) (e : BandwidthEstimator) (h : Reached (n + 1) e) : Reached n e :=
  (probed_mono.monotone_iterate_of_le_map (by decide) (Nat.le_succ n)).trans h

theorem Rising.look {gap now : ℕ} {a : Action} {actions : List Action}
    (h : Rising gap now e (a :: actions)) :
    Look act Action.clock due probeInterval gap Reached now e a ∧
      Rising gap (a.clock now) (e.act a) actions := by
  obtain ⟨hfits, ⟨before, htimely, hticking⟩, hfrequent, huncongested⟩ := h
  cases a with
  | takeQualityChanged =>
    refine ⟨.waits (.inr rfl) le_rfl fun n hn => hn, hfits.act _, ⟨before, htimely, hticking⟩,
      hfrequent, huncongested⟩
  | event event t =>
    obtain ⟨hprobe, hhold, hstamp, hrest⟩ := hticking
    obtain ⟨hgap, hnext⟩ := hfrequent
    obtain ⟨hcalm, hafter⟩ := huncongested
    obtain ⟨-, -, htimely'⟩ := hfits.timers_handleEvent event htimely hprobe hhold hstamp
    refine ⟨?_, hfits.handleEvent event, ⟨t.stamp, htimely', hrest⟩, hnext, hafter⟩
    obtain ⟨e', hfits', hbitrate, hlastProbe, hlastDecrease, heq⟩ :=
      handleEvent_of_uncongested hfits hcalm (t := t)
    have hact : e.act (.event event t) = e'.tryProbe t := heq
    by_cases hdue : probeInterval ≤ t.probe - e'.lastProbe ∧
        holdAfterDecrease ≤ t.hold - e'.lastDecrease
    · obtain ⟨hb, hp, hd⟩ := tryProbe_of_due hfits' hdue
      refine .acts t.stamp hgap (hhold.trans hstamp) ?_ fun n hn => ?_
      · rw [hact, due, hp, hd, hlastDecrease]
        have hpast : e.lastDecrease ≤ t.stamp :=
          htimely.2.trans (hprobe.trans (hhold.trans hstamp))
        exact max_le le_rfl (Nat.add_le_add_right hpast _)
      · unfold Reached at hn ⊢
        rw [hact, hb, hbitrate, Function.iterate_succ_apply']
        exact probed_mono hn
    · have hsame := tryProbe_eq_self hdue
      refine .waits (.inl ?_) ?_ fun n hn => ?_
      · show t.probe < e.due
        rw [hlastProbe, hlastDecrease] at hdue
        unfold due
        generalize probeInterval = interval at hdue ⊢
        generalize holdAfterDecrease = hold at hdue ⊢
        omega
      · rw [hact, hsame, due, due, hlastProbe, hlastDecrease]
      · unfold Reached
        rw [hact, hsame, hbitrate]
        exact hn

/-- At the highest bitrate the level is the highest. -/
theorem Fits.level_of_max (h : e.Fits) (hmax : e.currentBitrate = maxBitrateBps) :
    e.qualityIdx = defaultQualityIdx := by
  by_contra hne
  have hlt : e.qualityIdx.val + 1 < qualityLadder.length := by
    have hlevel := e.qualityIdx.isLt
    have hval : e.qualityIdx.val ≠ 2 := fun hval => hne (Fin.ext hval)
    simp only [qualityLadder, List.length_cons, List.length_nil] at hlevel ⊢
    omega
  have hbelow := h.between.below ⟨e.qualityIdx.val + 1, hlt⟩ rfl
  have hrung : ∀ j : QualityIdx, rung j ≤ maxBitrateBps := by decide
  rw [hmax] at hbelow
  exact absurd hbelow (not_lt.mpr (hrung _))

/--
From every state that a history leads to: while events come at most `gap` apart and none of them
tells of congestion, the bitrate and the preset are the highest after 76 times two seconds and a gap.
-/
theorem recovers {lastProbe lastDecrease : ℕ} {history actions : List Action} {before now gap : ℕ}
    (htimely : (after lastProbe lastDecrease history).Timely before)
    (hticking : Ticking before actions) (hfrequent : Frequent gap now actions) (hgap : 0 < gap)
    (huncongested : (after lastProbe lastDecrease history).Uncongested actions)
    (hnow : before ≤ now)
    (hend : now + 76 * (probeInterval + gap) ≤ actions.foldl Action.clock now) :
    (actions.foldl act (after lastProbe lastDecrease history)).currentBitrate = maxBitrateBps ∧
      (actions.foldl act (after lastProbe lastDecrease history)).qualityIdx =
        defaultQualityIdx := by
  have hfits := fits_after lastProbe lastDecrease history
  generalize after lastProbe lastDecrease history = e at *
  have hlook : ∀ now e a actions, Rising gap now e (a :: actions) →
      Look act Action.clock due probeInterval gap Reached now e a ∧
        Rising gap (a.clock now) (e.act a) actions := fun _ _ _ _ h => h.look
  have hstart : max now e.due + gap + 75 * (probeInterval + gap) ≤
      actions.foldl Action.clock now := by
    refine le_trans ?_ hend
    obtain ⟨hp, hd⟩ := htimely
    have hdue : e.due ≤ now + probeInterval :=
      max_le (Nat.add_le_add_right (hp.trans hnow) _) (Nat.add_le_add_right (hd.trans hnow) _)
    generalize probeInterval = interval at hdue ⊢
    omega
  have hnone : Reached 0 e := hfits.min_le
  have hreached := progress reached_of_succ hlook
    ⟨hfits, ⟨before, htimely, hticking⟩, hfrequent, huncongested⟩ hnone hgap hstart
  rw [Reached, Nat.zero_add, iterate_probed] at hreached
  have hfinal := hfits.foldl actions
  have hmax : (actions.foldl act e).currentBitrate = maxBitrateBps :=
    le_antisymm hfinal.le_max hreached
  exact ⟨hmax, hfinal.level_of_max hmax⟩

/-- Events at a distance of `gap`, of sends that took no time. -/
def beats (gap : ℕ) : ℕ → ℕ → List Action
  | 0, _ => []
  | n + 1, now =>
    .event (.sendComplete 0 0) ⟨now + gap, now + gap, now + gap⟩ :: beats gap n (now + gap)

theorem beats_spec (gap n now : ℕ) : Ticking now (beats gap n now) ∧
    Frequent gap now (beats gap n now) ∧
    (beats gap n now).foldl Action.clock now = now + n * gap := by
  induction n generalizing now with
  | zero => simp [beats, Ticking, Frequent]
  | succ n ih =>
    obtain ⟨hticking, hfrequent, hclock⟩ := ih (now + gap)
    refine ⟨⟨Nat.le_add_right _ _, le_rfl, le_rfl, hticking⟩, ⟨le_rfl, hfrequent⟩, ?_⟩
    rw [beats, List.foldl_cons, Action.clock, hclock]
    ring

theorem Fits.uncongested_beats (h : e.Fits) (gap n now : ℕ) : e.Uncongested (beats gap n now) := by
  induction n generalizing e now with
  | zero => trivial
  | succ n ih =>
    refine ⟨?_, ih (h.handleEvent _) (now + gap)⟩
    have hinterval : (0 : ℚ) ≤ e.frameIntervalMs := by
      rw [h.frameInterval]
      positivity
    simp [Congested, BandwidthEstimator.classify, not_lt.mpr hinterval]

theorem recovers_beats : ((beats (2 * 10 ^ 9) 152 0).foldl act
    (after 0 0 [.event .streamStopped ⟨0, 0, 0⟩])).currentBitrate = maxBitrateBps := by
  obtain ⟨hticking, hfrequent, hclock⟩ := beats_spec (2 * 10 ^ 9) 152 0
  have hfits := fits_after 0 0 [.event .streamStopped ⟨0, 0, 0⟩]
  have htimely : (after 0 0 [.event .streamStopped ⟨0, 0, 0⟩]).Timely 0 :=
    ((fits_after 0 0 []).timers_handleEvent .streamStopped ⟨le_rfl, le_rfl⟩ le_rfl le_rfl le_rfl).2.2
  refine (recovers htimely hticking hfrequent (by norm_num) (hfits.uncongested_beats _ _ _)
    le_rfl ?_).1
  rw [hclock]
  norm_num [probeInterval]

/-! ## Decreases -/

theorem Fits.le_eased (h : e.Fits) (hcongested : e.Congested event) (t : Readings) :
    (e.handleEvent event t).currentBitrate ≤ eased e.currentBitrate := by
  cases handled_handleEvent h event t with
  | kept hcalm => exact absurd hcongested hcalm
  | probed hcalm => exact absurd hcongested hcalm
  | lowered _ _ hfall =>
    rcases hfall with hfall | hmin
    · refine le_max_of_le_left ?_
      rw [Nat.le_div_iff_mul_le (by norm_num)]
      have hscaled : (((e.handleEvent event t).currentBitrate * 20 : ℕ) : ℚ) ≤
          ((17 * e.currentBitrate : ℕ) : ℚ) := by
        push_cast
        linarith
      exact_mod_cast hscaled
    · exact hmin ▸ le_max_right _ _

theorem Fits.le_iterate_eased (h : e.Fits) {actions : List Action}
    (hcongested : e.AllCongested actions) {n : ℕ}
    (hn : e.currentBitrate ≤ eased^[n] maxBitrateBps) :
    (actions.foldl BandwidthEstimator.act e).currentBitrate ≤
      eased^[n + actions.countP Action.isEvent] maxBitrateBps := by
  induction actions generalizing e n with
  | nil => exact hn
  | cons a actions ih =>
    cases a with
    | takeQualityChanged =>
      rw [List.countP_cons_of_neg (by simp [Action.isEvent])]
      exact ih (h.act .takeQualityChanged) hcongested hn
    | event event t =>
      obtain ⟨hevent, hrest⟩ := hcongested
      rw [List.countP_cons_of_pos (by rfl), Nat.add_comm _ 1, ← Nat.add_assoc]
      refine ih (h.handleEvent event) hrest ?_
      rw [Function.iterate_succ_apply']
      exact (h.le_eased hevent t).trans (eased_mono hn)

/-- At the lowest bitrate the level is the lowest. -/
theorem Fits.level_of_min (h : e.Fits) (hmin : e.currentBitrate = minBitrateBps) :
    e.qualityIdx.val = 0 := by
  by_contra hne
  have hlt : e.qualityIdx.val - 1 < qualityLadder.length :=
    Nat.lt_of_le_of_lt (Nat.sub_le _ _) e.qualityIdx.isLt
  have habove := h.between.above ⟨e.qualityIdx.val - 1, hlt⟩ (by simp only; omega)
  have hrung : ∀ j : QualityIdx, minBitrateBps ≤ rung j := by decide
  rw [hmin] at habove
  exact absurd habove (not_lt.mpr (hrung _))

/-- From every state, 23 events that tell of congestion bring down the bitrate and the preset. -/
theorem collapses {lastProbe lastDecrease : ℕ} {history actions : List Action}
    (hcongested : (after lastProbe lastDecrease history).AllCongested actions)
    (hcount : 23 ≤ actions.countP Action.isEvent) :
    (actions.foldl act (after lastProbe lastDecrease history)).currentBitrate = minBitrateBps ∧
      (actions.foldl act (after lastProbe lastDecrease history)).qualityIdx.val = 0 := by
  have hfits := fits_after lastProbe lastDecrease history
  generalize after lastProbe lastDecrease history = e at *
  have hstart : e.currentBitrate ≤ eased^[0] maxBitrateBps := hfits.le_max
  have hle := hfits.le_iterate_eased hcongested hstart
  have hfall := eased_mono.antitone_iterate_of_map_le (by decide : eased maxBitrateBps ≤ _) hcount
  rw [Nat.zero_add] at hle
  have hlow := hle.trans hfall
  dsimp only at hlow
  rw [iterate_eased] at hlow
  have hfinal := hfits.foldl actions
  have hmin : (actions.foldl act e).currentBitrate = minBitrateBps :=
    le_antisymm hlow hfinal.min_le
  exact ⟨hmin, hfinal.level_of_min hmin⟩

theorem Fits.allCongested_stopped (h : e.Fits) (n : ℕ) (t : Readings) :
    e.AllCongested (List.replicate n (.event .streamStopped t)) := by
  induction n generalizing e with
  | zero => trivial
  | succ n ih => exact ⟨by simp [Congested, BandwidthEstimator.classify], ih (h.handleEvent _)⟩

theorem collapses_stopped :
    ((List.replicate 23 (.event .streamStopped ⟨0, 0, 0⟩)).foldl act
      (after 0 0 [])).currentBitrate = minBitrateBps :=
  (collapses ((fits_after 0 0 []).allCongested_stopped 23 ⟨0, 0, 0⟩) (by decide)).1

end BandwidthEstimator

end Meshconf.Bandwidth
