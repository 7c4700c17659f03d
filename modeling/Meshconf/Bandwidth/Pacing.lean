import Mathlib.Tactic.Positivity
import Meshconf.Bandwidth.Quality
import Meshconf.Signal.Spacing

/-! # The pace of the estimator

Every event reads a clock that does not go back. The bitrate goes up only two seconds
behind the last probe and the last decrease, and then by five percent at most.
-/

namespace Meshconf.Bandwidth

open Signal

/-- The clock of the estimator goes on from `now` through the readings of the events. -/
def Ticking : ℕ → List Action → Prop
  | _, [] => True
  | now, .event _ t :: actions =>
    now ≤ t.probe ∧ t.probe ≤ t.hold ∧ t.hold ≤ t.stamp ∧ Ticking t.stamp actions
  | now, .takeQualityChanged :: actions => Ticking now actions

/-- The time of an action: for an event the last reading. -/
def Action.time : Action → ℕ
  | .event _ t => t.stamp
  | .takeQualityChanged => 0

def Action.isEvent : Action → Bool
  | .event .. => true
  | .takeQualityChanged => false

namespace BandwidthEstimator

def Raises (e : BandwidthEstimator) (event : BandwidthEvent) (t : Readings) : Prop :=
  e.currentBitrate < (e.handleEvent event t).currentBitrate

/-- The event is classified as congestion. -/
def Congested (e : BandwidthEstimator) (event : BandwidthEvent) : Prop :=
  (e.classify event).2 ≠ .none

/-- What the estimator promises over the given actions. -/
structure Paced (e : BandwidthEstimator) (actions : List Action) : Prop where
  /-- Two increases are two seconds apart. -/
  spaced : ∀ before mid after event t event' t',
    actions = before ++ .event event t :: (mid ++ .event event' t' :: after) →
    (before.foldl act e).Raises event t →
    ((before ++ .event event t :: mid).foldl act e).Raises event' t' →
    t.stamp + probeInterval ≤ t'.stamp
  /-- An increase is two seconds behind every decrease before it. -/
  held : ∀ before mid after event t event' t',
    actions = before ++ .event event t :: (mid ++ .event event' t' :: after) →
    (before.foldl act e).Congested event →
    ((before ++ .event event t :: mid).foldl act e).Raises event' t' →
    t.stamp + holdAfterDecrease ≤ t'.stamp
  rate : ∀ before after event t, actions = before ++ .event event t :: after →
    ((before.foldl act e).handleEvent event t).currentBitrate ≤
      (1 + increaseRate) * (before.foldl act e).currentBitrate
  lowered : ∀ before after event t, actions = before ++ .event event t :: after →
    (before.foldl act e).Congested event →
    ((before.foldl act e).handleEvent event t).currentBitrate ≤
        (85 / 100 : ℚ) * (before.foldl act e).currentBitrate ∨
      ((before.foldl act e).handleEvent event t).currentBitrate = minBitrateBps
  /-- Over every stretch of time the bitrate grows by a bounded factor. -/
  bounded : ∀ before mid after start stretch, actions = before ++ (mid ++ after) →
    (∀ a ∈ mid, a.isEvent → start ≤ a.time ∧ a.time ≤ start + stretch) →
    ((before ++ mid).foldl act e).currentBitrate ≤
      (before.foldl act e).currentBitrate * (1 + increaseRate) ^ (stretch / probeInterval + 1)

/-- What an event can do. -/
inductive Handled (e : BandwidthEstimator) (event : BandwidthEvent) (t : Readings)
    (e' : BandwidthEstimator) : Prop
  | kept : ¬ e.Congested event → e'.currentBitrate = e.currentBitrate →
      e'.lastProbe = e.lastProbe → e'.lastDecrease = e.lastDecrease → Handled e event t e'
  | probed : ¬ e.Congested event → e.lastProbe + probeInterval ≤ t.probe →
      e.lastDecrease + holdAfterDecrease ≤ t.hold → e.currentBitrate ≤ e'.currentBitrate →
      20 * e'.currentBitrate ≤ 21 * e.currentBitrate →
      e'.lastProbe = t.stamp → e'.lastDecrease = e.lastDecrease → Handled e event t e'
  | lowered : e.Congested event → e'.currentBitrate ≤ e.currentBitrate →
      (e'.currentBitrate ≤ (85 / 100 : ℚ) * e.currentBitrate ∨
        e'.currentBitrate = minBitrateBps) →
      e'.lastProbe = e.lastProbe → e'.lastDecrease = t.stamp → Handled e event t e'

variable {e e' : BandwidthEstimator} {event : BandwidthEvent} {t : Readings}

theorem timers_maybeStepUpQuality : e.maybeStepUpQuality.currentBitrate = e.currentBitrate ∧
    e.maybeStepUpQuality.lastProbe = e.lastProbe ∧
      e.maybeStepUpQuality.lastDecrease = e.lastDecrease := by
  rcases maybeStepUpQuality_cases (e := e) with ⟨-, heq⟩ | ⟨i, -, heq⟩ <;> rw [heq] <;>
    exact ⟨rfl, rfl, rfl⟩

theorem timers_maybeStepDownQuality : e.maybeStepDownQuality.currentBitrate = e.currentBitrate ∧
    e.maybeStepDownQuality.lastProbe = e.lastProbe ∧
      e.maybeStepDownQuality.lastDecrease = e.lastDecrease := by
  rcases maybeStepDownQuality_cases (e := e) with ⟨-, heq⟩ | ⟨i, -, heq⟩ <;> rw [heq] <;>
    exact ⟨rfl, rfl, rfl⟩

/-- A probe takes place behind both waiting times, and raises by five percent at most. -/
theorem tryProbe_cases (h : e.Fits) :
    e.tryProbe t = e ∨
      e.lastProbe + probeInterval ≤ t.probe ∧ e.lastDecrease + holdAfterDecrease ≤ t.hold ∧
        e.currentBitrate ≤ (e.tryProbe t).currentBitrate ∧
        20 * (e.tryProbe t).currentBitrate ≤ 21 * e.currentBitrate ∧
        (e.tryProbe t).lastProbe = t.stamp ∧ (e.tryProbe t).lastDecrease = e.lastDecrease := by
  unfold tryProbe
  split_ifs with hdue
  · right
    obtain ⟨hle, hrate⟩ := raised_bounds h.le_max
    have hraise := le_min hle h.le_max
    have hmin := min_le_left (toU32 (e.currentBitrate * (1 + increaseRate))) maxBitrateBps
    obtain ⟨hbitrate, hprobe, hdecrease⟩ := timers_maybeStepUpQuality
      (e := ({ e with lastProbe := t.stamp } : BandwidthEstimator).setBitrate
        (min (toU32 (e.currentBitrate * (1 + increaseRate))) maxBitrateBps))
    rw [setBitrate_currentBitrate (h.min_le.trans hraise) (min_le_right _ _)] at hbitrate
    refine ⟨?_, ?_, ?_, ?_, hprobe, hdecrease⟩
    · have := hdue.1
      unfold probeInterval at this ⊢
      omega
    · have := hdue.2
      unfold holdAfterDecrease at this ⊢
      omega
    · rw [hbitrate]
      exact hraise
    · rw [hbitrate]
      omega
  · exact .inl rfl

/-- A decrease restarts the waiting time and takes the factor, or stops at the minimum. -/
theorem decrease_cases (h : e.Fits) {factor : ℚ} (hhalf : 1 / 2 ≤ factor)
    (hfactor : factor ≤ 85 / 100) :
    (e.decrease t factor).currentBitrate ≤ e.currentBitrate ∧
      ((e.decrease t factor).currentBitrate ≤ (85 / 100 : ℚ) * e.currentBitrate ∨
        (e.decrease t factor).currentBitrate = minBitrateBps) ∧
      (e.decrease t factor).lastProbe = e.lastProbe ∧
      (e.decrease t factor).lastDecrease = t.stamp := by
  have hlower := (lowered_bounds h.le_max hhalf (hfactor.trans (by norm_num))).1
  obtain ⟨hbitrate, hprobe, hdecrease⟩ := timers_maybeStepDownQuality
    (e := ({ e with lastDecrease := t.stamp } : BandwidthEstimator).setBitrate
      (max (toU32 (e.currentBitrate * factor)) minBitrateBps))
  have hle := max_le hlower h.min_le
  rw [setBitrate_currentBitrate (le_max_right _ _) (hle.trans h.le_max)] at hbitrate
  unfold decrease
  refine ⟨?_, ?_, hprobe, hdecrease⟩
  · rw [hbitrate]
    exact hle
  · rw [hbitrate]
    have hpos : (0 : ℚ) ≤ e.currentBitrate := Nat.cast_nonneg _
    rcases le_total (toU32 (e.currentBitrate * factor)) minBitrateBps with hmin | hmin
    · exact .inr (max_eq_right hmin)
    · left
      rw [max_eq_left hmin]
      have hround := toU32_le (x := e.currentBitrate * factor) (mul_nonneg hpos (by linarith))
      have hprod := mul_le_mul_of_nonneg_left hfactor hpos
      linarith

theorem handled_handleEvent (h : e.Fits) (event : BandwidthEvent) (t : Readings) :
    Handled e event t (e.handleEvent event t) := by
  obtain ⟨smoothed, baseline, heq⟩ := classify_fst (e := e) event
  have hfits := h.classify event
  have hbitrate : (e.classify event).1.currentBitrate = e.currentBitrate := by rw [heq]
  have hprobe : (e.classify event).1.lastProbe = e.lastProbe := by rw [heq]
  have hdecrease : (e.classify event).1.lastDecrease = e.lastDecrease := by rw [heq]
  have hlowered : ∀ factor : ℚ, 1 / 2 ≤ factor → factor ≤ 85 / 100 → e.Congested event →
      Handled e event t ((e.classify event).1.decrease t factor) := by
    intro factor hhalf hfactor hlevel
    obtain ⟨hle, hfall, hp, hd⟩ := decrease_cases hfits hhalf hfactor (t := t)
    rw [hbitrate] at hle hfall
    exact .lowered hlevel hle hfall (hp.trans hprobe) hd
  have hraised : ¬ e.Congested event → Handled e event t ((e.classify event).1.tryProbe t) := by
    intro hnone
    rcases tryProbe_cases hfits (t := t) with hsame | ⟨hp, hd, hle, hrate, hp', hd'⟩
    · rw [hsame]
      exact .kept hnone hbitrate hprobe hdecrease
    · rw [hprobe] at hp
      rw [hdecrease] at hd hd'
      rw [hbitrate] at hle hrate
      exact .probed hnone hp hd hle hrate hp' hd'
  unfold handleEvent
  split
  · next hclass =>
    rw [hclass] at hraised
    exact hraised (by simp [Congested, hclass])
  · next hclass =>
    rw [hclass] at hlowered
    exact hlowered _ (by norm_num) (by norm_num) (by simp [Congested, hclass])
  · next hclass =>
    rw [hclass] at hlowered
    exact hlowered _ (by norm_num) (by norm_num) (by simp [Congested, hclass])
  · next hclass =>
    rw [hclass] at hlowered
    exact hlowered _ (by norm_num) (by norm_num) (by simp [Congested, hclass])

/-- An increase is a probe, five percent at most. -/
theorem Fits.raises_cases (h : e.Fits) (hraise : e.Raises event t) :
    e.lastProbe + probeInterval ≤ t.probe ∧ e.lastDecrease + holdAfterDecrease ≤ t.hold ∧
      (e.handleEvent event t).lastProbe = t.stamp := by
  unfold Raises at hraise
  cases handled_handleEvent h event t with
  | kept _ hb _ _ => omega
  | probed _ hp hd _ _ hp' _ => exact ⟨hp, hd, hp'⟩
  | lowered _ hle _ _ _ => omega

/-! ## The timers over a history -/

/-- Neither timer is ahead of the clock. -/
def Timely (e : BandwidthEstimator) (now : ℕ) : Prop := e.lastProbe ≤ now ∧ e.lastDecrease ≤ now

/-- The timers only go on, and not past the event. -/
theorem Fits.timers_handleEvent (h : e.Fits) (event : BandwidthEvent) {now : ℕ}
    (htimely : e.Timely now) (hprobe : now ≤ t.probe) (hhold : t.probe ≤ t.hold)
    (hstamp : t.hold ≤ t.stamp) :
    e.lastProbe ≤ (e.handleEvent event t).lastProbe ∧
      e.lastDecrease ≤ (e.handleEvent event t).lastDecrease ∧
      (e.handleEvent event t).Timely t.stamp := by
  obtain ⟨hp, hd⟩ := htimely
  unfold Timely
  cases handled_handleEvent h event t with
  | kept _ _ hp' hd' => omega
  | probed _ _ _ _ _ hp' hd' => omega
  | lowered _ _ _ hp' hd' => omega

theorem Fits.timers_foldl (h : e.Fits) {now : ℕ} (htimely : e.Timely now) {mid rest : List Action}
    (hticks : Ticking now (mid ++ rest)) :
    (mid.foldl BandwidthEstimator.act e).Fits ∧
      e.lastProbe ≤ (mid.foldl BandwidthEstimator.act e).lastProbe ∧
      e.lastDecrease ≤ (mid.foldl BandwidthEstimator.act e).lastDecrease ∧
      ∃ now', (mid.foldl BandwidthEstimator.act e).Timely now' ∧ Ticking now' rest := by
  induction mid generalizing e now with
  | nil => exact ⟨h, le_rfl, le_rfl, now, htimely, hticks⟩
  | cons a mid ih =>
    cases a with
    | event event t =>
      obtain ⟨hprobe, hhold, hstamp, hticks⟩ := hticks
      obtain ⟨hp, hd, htimely'⟩ := h.timers_handleEvent event htimely hprobe hhold hstamp
      obtain ⟨hfits, hp', hd', hrest⟩ := ih (h.handleEvent event) htimely' hticks
      exact ⟨hfits, hp.trans hp', hd.trans hd', hrest⟩
    | takeQualityChanged => exact ih (h.act .takeQualityChanged) htimely hticks

theorem ticking_of_append {now : ℕ} {before after : List Action}
    (h : Ticking now (before ++ after)) : Ticking now before := by
  induction before generalizing now with
  | nil => trivial
  | cons a before ih =>
    cases a with
    | event event t => exact ⟨h.1, h.2.1, h.2.2.1, ih h.2.2.2⟩
    | takeQualityChanged => exact ih h

def bitrate (e : BandwidthEstimator) : ℚ := e.currentBitrate

/-- Each increase is two seconds behind the probe before it. -/
theorem Fits.spaced_raises (h : e.Fits) {now : ℕ} (htimely : e.Timely now) {actions : List Action}
    (hticks : Ticking now actions) :
    (∀ x ∈ Signal.raises BandwidthEstimator.act bitrate Action.time e actions,
        e.lastProbe + probeInterval ≤ x) ∧
      Spaced probeInterval
        (Signal.raises BandwidthEstimator.act bitrate Action.time e actions) := by
  induction actions generalizing e now with
  | nil => exact ⟨fun x hx => absurd hx List.not_mem_nil, List.Pairwise.nil⟩
  | cons a actions ih =>
    cases a with
    | event event t =>
      obtain ⟨hprobe, hhold, hstamp, hticks⟩ := hticks
      obtain ⟨hp, -, htimely'⟩ := h.timers_handleEvent event htimely hprobe hhold hstamp
      obtain ⟨hafter, hspaced⟩ := ih (h.handleEvent event) htimely' hticks
      have hlater : ∀ x ∈ Signal.raises BandwidthEstimator.act bitrate Action.time
          (e.handleEvent event t) actions, e.lastProbe + probeInterval ≤ x := fun x hx =>
        (Nat.add_le_add_right hp _).trans (hafter x hx)
      rw [Signal.raises]
      split_ifs with hraise
      · have hraises : e.Raises event t := by
          unfold bitrate at hraise
          exact_mod_cast hraise
        obtain ⟨hdue, -, hp'⟩ := h.raises_cases hraises
        rw [hp'] at hafter
        refine ⟨fun x hx => ?_, hspaced.cons hafter⟩
        rcases List.mem_cons.mp hx with rfl | hx
        · exact hdue.trans (hhold.trans hstamp)
        · exact hlater x hx
      · exact ⟨hlater, hspaced⟩
    | takeQualityChanged =>
      have hsame : (e.act .takeQualityChanged).bitrate = e.bitrate := rfl
      rw [Signal.raises, hsame, if_neg (lt_irrefl _)]
      exact ih (h.act .takeQualityChanged) htimely hticks

theorem bitrate_act_le (h : e.Fits) (a : Action) :
    (e.act a).bitrate ≤ e.bitrate * (1 + increaseRate) := by
  have hpos : (0 : ℚ) ≤ e.currentBitrate := Nat.cast_nonneg _
  have hrate : e.bitrate ≤ e.bitrate * (1 + increaseRate) := by
    unfold bitrate increaseRate
    linarith
  have hle : ∀ {n : ℕ}, n ≤ e.currentBitrate → (n : ℚ) ≤ e.bitrate * (1 + increaseRate) :=
    fun hn => le_trans (by unfold bitrate; exact_mod_cast hn) hrate
  cases a with
  | event event t =>
    cases handled_handleEvent h event t with
    | kept _ hb _ _ => exact hle hb.le
    | probed _ _ _ _ hb _ _ =>
      have hcast : (20 * (e.handleEvent event t).currentBitrate : ℚ) ≤ 21 * e.currentBitrate := by
        exact_mod_cast hb
      change ((e.handleEvent event t).currentBitrate : ℚ) ≤ _
      unfold bitrate increaseRate
      linarith
    | lowered _ hb _ _ _ => exact hle hb
  | takeQualityChanged => exact hle le_rfl

/-- An increase is due behind both timers as an earlier event has left them. -/
theorem Fits.due_of_raises (h : e.Fits) {now : ℕ} (htimely : e.Timely now)
    {before mid after : List Action} {event event' : BandwidthEvent} {t t' : Readings}
    (hticks : Ticking now (before ++ .event event t :: (mid ++ .event event' t' :: after)))
    (hraise : ((before ++ .event event t :: mid).foldl BandwidthEstimator.act e).Raises event' t') :
    (before.foldl BandwidthEstimator.act e).Fits ∧
      ((before.foldl BandwidthEstimator.act e).handleEvent event t).lastProbe + probeInterval ≤
        t'.stamp ∧
      ((before.foldl BandwidthEstimator.act e).handleEvent event t).lastDecrease +
        holdAfterDecrease ≤ t'.stamp := by
  obtain ⟨hfits, -, -, now₁, htimely₁, hprobe₁, hhold₁, hstamp₁, hticks₁⟩ :=
    h.timers_foldl htimely hticks
  obtain ⟨-, -, hnext⟩ := hfits.timers_handleEvent event htimely₁ hprobe₁ hhold₁ hstamp₁
  obtain ⟨hfits₂, hp, hd, now₂, -, -, hhold₂, hstamp₂, -⟩ :=
    (hfits.handleEvent event).timers_foldl hnext hticks₁
  rw [List.foldl_append, List.foldl_cons] at hraise
  obtain ⟨hdue, hdue', -⟩ := hfits₂.raises_cases hraise
  refine ⟨hfits, ?_, ?_⟩
  · exact (Nat.add_le_add_right hp _).trans (hdue.trans (hhold₂.trans hstamp₂))
  · exact (Nat.add_le_add_right hd _).trans (hdue'.trans hstamp₂)

/-- The estimator keeps its pace over every history of events. -/
theorem paced {lastProbe lastDecrease now : ℕ} (hprobe : lastProbe ≤ now)
    (hdecrease : lastDecrease ≤ now) {actions : List Action} (hticks : Ticking now actions) :
    Paced (new .new lastProbe lastDecrease) actions := by
  have hnew := fits_new lastProbe lastDecrease
  have htimely : (new .new lastProbe lastDecrease).Timely now := ⟨hprobe, hdecrease⟩
  generalize new .new lastProbe lastDecrease = e at hnew htimely
  constructor
  case spaced =>
    rintro before mid after event t event' t' rfl hraise hraise'
    obtain ⟨hfits, hdue, -⟩ := hnew.due_of_raises htimely hticks hraise'
    rwa [(hfits.raises_cases hraise).2.2] at hdue
  case held =>
    rintro before mid after event t event' t' rfl hcongested hraise'
    obtain ⟨hfits, -, hdue⟩ := hnew.due_of_raises htimely hticks hraise'
    cases handled_handleEvent hfits event t with
    | kept hnone _ _ _ => exact absurd hcongested hnone
    | probed hnone _ _ _ _ _ _ => exact absurd hcongested hnone
    | lowered _ _ _ _ hd => rwa [hd] at hdue
  case rate =>
    rintro before after event t rfl
    have hfits := (hnew.timers_foldl htimely hticks).1
    rw [mul_comm]
    exact bitrate_act_le hfits (.event event t)
  case lowered =>
    rintro before after event t rfl hcongested
    have hfits := (hnew.timers_foldl htimely hticks).1
    cases handled_handleEvent hfits event t with
    | kept hnone _ _ _ => exact absurd hcongested hnone
    | probed hnone _ _ _ _ _ _ => exact absurd hcongested hnone
    | lowered _ _ hfall _ _ => exact hfall
  case bounded =>
    rintro before mid after start stretch rfl hmid
    obtain ⟨hfits, -, -, now', htimely', hticks'⟩ := hnew.timers_foldl htimely hticks
    have hspaced := (hfits.spaced_raises htimely' (ticking_of_append hticks')).2
    have htimes : ∀ x ∈ Signal.raises BandwidthEstimator.act bitrate Action.time
        (before.foldl BandwidthEstimator.act e) mid, start ≤ x ∧ x ≤ start + stretch := by
      intro x hx
      obtain ⟨a, ha, rfl, s, hraise⟩ := mem_raises hx
      cases a with
      | event event t => exact hmid _ ha rfl
      | takeQualityChanged => exact absurd hraise (lt_irrefl s.bitrate)
    have hone : 1 ≤ 1 + increaseRate := by
      unfold increaseRate
      norm_num
    rw [List.foldl_append]
    exact value_foldl_le_of_spaced hone (fun s a hs => hs.act a)
      (fun s a hs _ => bitrate_act_le hs a) hfits (Nat.cast_nonneg _) (by decide) hspaced htimes

/-- Two probes, two seconds apart, and a stopped stream one second later. -/
theorem paced_twoProbes :
    Paced (new .new 0 0)
      [.event (.sendComplete 0 0) ⟨2000000000, 2000000000, 2000000001⟩,
        .event (.sendComplete 0 0) ⟨4000000002, 4000000002, 4000000003⟩,
        .event .streamStopped ⟨5000000000, 5000000000, 5000000000⟩] :=
  paced (le_refl 0) (le_refl 0) (by simp [Ticking])

end BandwidthEstimator

end Meshconf.Bandwidth
