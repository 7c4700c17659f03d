import Mathlib.Data.List.GetD
import Meshconf.Bandwidth.Quality
import Meshconf.Signal.Average
import Meshconf.Transition.Run

/-! # Congestion inferred from round-trip times

The samples of all peers feed one smoothed value and one baseline. Both are weighted
averages of the samples, and congestion is inferred when the first exceeds the second
by more than the threshold. Peers at different distances can bring this about.
-/

namespace Meshconf.Bandwidth

open Signal History

def Action.rtt? : Action → Option ℕ
  | .event (.rttSample rttUs) _ => some rttUs
  | _ => none

def rttSamples (actions : List Action) : List ℕ := actions.filterMap Action.rtt?

theorem rttSamples_append (actions actions' : List Action) :
    rttSamples (actions ++ actions') = rttSamples actions ++ rttSamples actions' :=
  List.filterMap_append

/-- Samples polled from peers with the given round-trip times, in rounds of any order. -/
def PolledInRounds (rtts samples : List ℕ) : Prop :=
  ∃ rounds : List (List ℕ), (∀ round ∈ rounds, round.Perm rtts) ∧ samples <+: rounds.flatten

/-- The samples, as rationals. -/
def series (samples : List ℕ) (i : ℕ) : ℚ := samples.getD i 0

/-- What the estimator smooths the samples to. -/
def smoothed (samples : List ℕ) : ℕ → ℚ := average (1 / 10) (series samples)

/-- Every smoothed value is within the threshold above the average of those before it. -/
def Steady (samples : List ℕ) : Prop :=
  ∀ n, n + 1 < samples.length →
    smoothed samples (n + 1) ≤ average (1 / 1000) (smoothed samples) n * (1 + rttIncreaseThreshold)

/-- Round-trip times within the threshold of each other are steady in every order. -/
theorem steady_of_close {samples : List ℕ}
    (h : ∀ x ∈ samples, ∀ y ∈ samples, (x : ℚ) ≤ y * (1 + rttIncreaseThreshold)) :
    Steady samples := by
  intro n hn
  have hmem : ∀ i ≤ n + 1, ∃ x ∈ samples, series samples i = x := fun i hi =>
    ⟨samples[i], List.getElem_mem _, by rw [series, List.getD_eq_getElem _ _ (by omega)]⟩
  have hthreshold : 0 < 1 + rttIncreaseThreshold := by norm_num [rttIncreaseThreshold]
  have hle : ∀ j ≤ n + 1,
      smoothed samples (n + 1) / (1 + rttIncreaseThreshold) ≤ series samples j := by
    intro j hj
    obtain ⟨y, hy, hseries⟩ := hmem j hj
    rw [div_le_iff₀ hthreshold, hseries]
    apply average_le (by norm_num) (by norm_num)
    intro i hi
    obtain ⟨x, hx, hseries'⟩ := hmem i hi
    rw [hseries']
    exact h x hx y hy
  rw [← div_le_iff₀ hthreshold]
  apply le_average (by norm_num) (by norm_num)
  intro k hk
  apply le_average (by norm_num) (by norm_num)
  intro j hj
  exact hle j (by omega)

section Snoc

variable {samples : List ℕ} {n r : ℕ}

theorem series_append (hn : n < samples.length) : series (samples ++ [r]) n = series samples n := by
  rw [series, series, List.getD_append _ _ _ _ hn]

theorem smoothed_append (hn : n < samples.length) :
    smoothed (samples ++ [r]) n = smoothed samples n :=
  average_congr fun _ hi => series_append (by omega)

theorem baseline_append (hn : n < samples.length) :
    average (1 / 1000) (smoothed (samples ++ [r])) n = average (1 / 1000) (smoothed samples) n :=
  average_congr fun _ hi => smoothed_append (by omega)

/-- The value that a further sample is smoothed to. -/
theorem smoothed_snoc (hn : samples.length = n + 1) :
    smoothed (samples ++ [r]) (n + 1) = smoothed samples n * (9 / 10) + r * (1 / 10) := by
  have hlast : series (samples ++ [r]) (n + 1) = r := by
    rw [series, ← hn, List.getD_append_right _ _ _ _ le_rfl]
    simp
  rw [smoothed, average_succ, hlast, ← smoothed, smoothed_append (by omega)]
  norm_num

theorem baseline_snoc (hn : samples.length = n + 1) :
    average (1 / 1000) (smoothed (samples ++ [r])) (n + 1) =
      average (1 / 1000) (smoothed samples) n * (999 / 1000) +
        smoothed (samples ++ [r]) (n + 1) * (1 / 1000) := by
  rw [average_succ, baseline_append (by omega)]
  norm_num

theorem steady_singleton : Steady [r] := by
  intro n hn
  simp at hn

theorem Steady.of_append (h : Steady (samples ++ [r])) : Steady samples := by
  intro n hn
  have hsteady := h n (by rw [List.length_append]; omega)
  rwa [smoothed_append hn, baseline_append (by omega)] at hsteady

theorem steady_snoc (hn : samples.length = n + 1) :
    Steady (samples ++ [r]) ↔ Steady samples ∧
      smoothed (samples ++ [r]) (n + 1) ≤
        average (1 / 1000) (smoothed samples) n * (1 + rttIncreaseThreshold) := by
  constructor
  · intro h
    have hsteady := h n (by simp [hn])
    rw [baseline_append (by omega)] at hsteady
    exact ⟨h.of_append, hsteady⟩
  · rintro ⟨hold, hnew⟩ k hk
    rw [List.length_append, List.length_singleton] at hk
    rw [baseline_append (by omega)]
    rcases Nat.lt_or_ge (k + 1) samples.length with hlt | hge
    · rw [smoothed_append hlt]
      exact hold k hlt
    · obtain rfl : k = n := by omega
      exact hnew

end Snoc

namespace BandwidthEstimator

variable {e : BandwidthEstimator}

/-- No congestion but what is seen in round-trip times. -/
def Quiet (e : BandwidthEstimator) : Action → Prop
  | .event (.sendComplete durationNs _) _ => (durationNs : ℚ) / 10 ^ 6 ≤ e.frameIntervalMs
  | .event (.rttSample _) _ => True
  | .event .streamStopped _ => False
  | .event (.receiverFeedback fractionLost _) _ => fractionLost = 0
  | .takeQualityChanged => True

/-- An action that infers no congestion from a sample and does not lower the target. -/
structure Calm (e : BandwidthEstimator) (a : Action) : Prop where
  noCongestion : ∀ rttUs t, a = .event (.rttSample rttUs) t → (e.sampleRtt rttUs).2 = .none
  target_le : e.config.targetBitrate ≤ (e.act a).config.targetBitrate

/-- The round-trip times that the estimator keeps after `samples`. -/
def Tracks (e : BandwidthEstimator) (samples : List ℕ) : Prop :=
  (samples = [] ∧ e.smoothedRttUs = none) ∨
  ∃ n, samples.length = n + 1 ∧ e.smoothedRttUs = some (smoothed samples n) ∧
    e.baselineRttUs = some (average (1 / 1000) (smoothed samples) n)

theorem tracks_iff_of_eq {e' : BandwidthEstimator} {samples : List ℕ}
    (hsmoothed : e'.smoothedRttUs = e.smoothedRttUs)
    (hbaseline : e'.baselineRttUs = e.baselineRttUs) :
    e'.Tracks samples ↔ e.Tracks samples := by
  rw [Tracks, Tracks, hsmoothed, hbaseline]

/-- A sample is no congestion if and only if it leaves the samples steady. -/
theorem Tracks.sampleRtt {samples : List ℕ} {r : ℕ} (h : e.Tracks samples)
    (hsteady : Steady samples) :
    ((e.sampleRtt r).2 = .none ↔ Steady (samples ++ [r])) ∧
      ((e.sampleRtt r).2 = .none → (e.sampleRtt r).1.Tracks (samples ++ [r])) := by
  rcases h with ⟨rfl, hnone⟩ | ⟨n, hn, hsmoothed, hbaseline⟩
  · simp only [BandwidthEstimator.sampleRtt, hnone, true_iff, true_imp_iff]
    exact ⟨steady_singleton, .inr ⟨0, rfl, by simp [smoothed, series], by simp [smoothed, series]⟩⟩
  · simp only [BandwidthEstimator.sampleRtt, hsmoothed, hbaseline]
    rw [steady_snoc hn, ← smoothed_snoc hn]
    split_ifs with hcongested
    · simp only [false_iff, not_and, not_le, false_imp_iff, and_true]
      exact fun _ => hcongested
    · refine ⟨iff_of_true rfl ⟨hsteady, not_lt.mp hcongested⟩, fun _ => .inr ⟨n + 1, ?_, rfl, ?_⟩⟩
      · simp [hn]
      · rw [baseline_snoc hn]

section Actions

variable {t : Readings} {lastProbe lastDecrease : ℕ}

theorem maybeStepUpQuality_frame :
    e.maybeStepUpQuality.currentBitrate = e.currentBitrate ∧
      e.maybeStepUpQuality.smoothedRttUs = e.smoothedRttUs ∧
      e.maybeStepUpQuality.baselineRttUs = e.baselineRttUs := by
  rcases maybeStepUpQuality_cases (e := e) with ⟨-, heq⟩ | ⟨i, -, heq⟩ <;> rw [heq] <;>
    exact ⟨rfl, rfl, rfl⟩

theorem tryProbe_tracks {samples : List ℕ} : (e.tryProbe t).Tracks samples ↔ e.Tracks samples := by
  unfold tryProbe
  split_ifs
  · exact tracks_iff_of_eq maybeStepUpQuality_frame.2.1 maybeStepUpQuality_frame.2.2
  · rfl

theorem Fits.targetBitrate_le_tryProbe (h : e.Fits) :
    e.config.targetBitrate ≤ (e.tryProbe t).config.targetBitrate := by
  rw [h.tryProbe.bitrate, h.bitrate]
  unfold BandwidthEstimator.tryProbe
  split_ifs
  · have hle := le_min (raised_bounds h.le_max).1 h.le_max
    rw [maybeStepUpQuality_frame.1,
      setBitrate_currentBitrate (h.min_le.trans hle) (min_le_right _ _)]
    exact hle
  · exact le_rfl

theorem handleEvent_of_none (event : BandwidthEvent) (h : (e.classify event).2 = .none) :
    e.handleEvent event t = (e.classify event).1.tryProbe t := by
  unfold handleEvent
  split <;> rename_i heq <;> rw [heq] at h ⊢ <;> cases h

theorem Fits.targetBitrate_le_handleEvent (h : e.Fits) (event : BandwidthEvent)
    (hnone : (e.classify event).2 = .none) :
    e.config.targetBitrate ≤ (e.handleEvent event t).config.targetBitrate := by
  rw [handleEvent_of_none event hnone]
  obtain ⟨_, _, heq⟩ := classify_fst (e := e) event
  have hle := (h.classify event).targetBitrate_le_tryProbe (t := t)
  rwa [heq] at hle ⊢

/-- A quiet action other than a sample is calm, and keeps the round-trip times. -/
theorem Quiet.calm {a : Action} (samples : List ℕ) (h : e.Quiet a) (hfits : e.Fits)
    (hsample : ∀ rttUs t, a ≠ .event (.rttSample rttUs) t) :
    e.Calm a ∧ ((e.act a).Tracks samples ↔ e.Tracks samples) := by
  cases a with
  | takeQualityChanged => exact ⟨⟨by simp, le_rfl⟩, tracks_iff_of_eq rfl rfl⟩
  | event event t =>
    obtain ⟨hfst, hnone⟩ : (e.classify event).1 = e ∧ (e.classify event).2 = .none := by
      cases event with
      | rttSample rttUs => exact absurd rfl (hsample rttUs t)
      | streamStopped => exact h.elim
      | sendComplete durationNs _ => exact ⟨rfl, if_neg (not_lt.mpr h)⟩
      | receiverFeedback fractionLost _ =>
        obtain rfl : fractionLost = 0 := h
        exact ⟨rfl, by norm_num [BandwidthEstimator.classify]⟩
    constructor
    · exact ⟨fun r t h => absurd h (hsample r t), hfits.targetBitrate_le_handleEvent event hnone⟩
    · rw [act, handleEvent_of_none event hnone, hfst]
      exact tryProbe_tracks

/-- A sample is calm if and only if it is not classified as congestion. -/
theorem Fits.calm_rttSample {r : ℕ} (h : e.Fits) :
    e.Calm (.event (.rttSample r) t) ↔ (e.sampleRtt r).2 = .none := by
  constructor
  · exact fun hcalm => hcalm.noCongestion r t rfl
  · intro hnone
    constructor
    · rintro r' t' heq
      cases heq
      exact hnone
    · exact h.targetBitrate_le_handleEvent (.rttSample r) hnone

theorem after_snoc (actions : List Action) (a : Action) :
    after lastProbe lastDecrease (actions ++ [a]) = (after lastProbe lastDecrease actions).act a :=
  List.foldl_append

theorem tracks_after_and_calm_iff (actions : List Action)
    (hquiet : Each (fun before a => (after lastProbe lastDecrease before).Quiet a) actions) :
    (Each (fun before a => (after lastProbe lastDecrease before).Calm a) actions ↔
        Steady (rttSamples actions)) ∧
      (Steady (rttSamples actions) →
        (after lastProbe lastDecrease actions).Tracks (rttSamples actions)) := by
  induction actions using List.reverseRecOn with
  | nil =>
    have hnone : Steady (rttSamples []) := fun n hn => by simp [rttSamples] at hn
    exact ⟨iff_of_true each_nil hnone, fun _ => .inl ⟨rfl, rfl⟩⟩
  | append_singleton actions a ih =>
    obtain ⟨hold, hnew⟩ := each_snoc.mp hquiet
    obtain ⟨hiff, htracks⟩ := ih hold
    have hfits : (after lastProbe lastDecrease actions).Fits :=
      (fits_new lastProbe lastDecrease).foldl actions
    rw [each_snoc, hiff, after_snoc, rttSamples_append]
    by_cases hsample : ∃ r t, a = .event (.rttSample r) t
    · obtain ⟨r, t, rfl⟩ := hsample
      have hlast : rttSamples [.event (.rttSample r) t] = [r] := rfl
      rw [hlast, hfits.calm_rttSample]
      constructor
      · constructor
        · rintro ⟨hsteady, hnone⟩
          exact ((htracks hsteady).sampleRtt hsteady).1.mp hnone
        · intro hsteady'
          have hsteady := hsteady'.of_append
          exact ⟨hsteady, ((htracks hsteady).sampleRtt hsteady).1.mpr hsteady'⟩
      · intro hsteady'
        have hsteady := hsteady'.of_append
        obtain ⟨hclassify, hnext⟩ := (htracks hsteady).sampleRtt (r := r) hsteady
        have hnone := hclassify.mpr hsteady'
        rw [act, handleEvent_of_none (.rttSample r) hnone]
        exact tryProbe_tracks.mpr (hnext hnone)
    · obtain ⟨hcalm, hkeeps⟩ := hnew.calm (rttSamples actions) hfits
        fun r t h => hsample ⟨r, t, h⟩
      have hlast : rttSamples [a] = [] := by
        cases a with
        | takeQualityChanged => rfl
        | event event t =>
          cases event with
          | rttSample r => exact absurd ⟨r, t, rfl⟩ hsample
          | sendComplete | streamStopped | receiverFeedback => rfl
      rw [hlast, List.append_nil]
      exact ⟨and_iff_left hcalm, fun hsteady => hkeeps.mpr (htracks hsteady)⟩

/--
In a quiet history no sample counts as congestion, and the target never falls, exactly when the
samples are steady.
-/
theorem calm_iff_steady {actions : List Action}
    (hquiet : Each (fun before a => (after lastProbe lastDecrease before).Quiet a) actions) :
    Each (fun before a => (after lastProbe lastDecrease before).Calm a) actions ↔
      Steady (rttSamples actions) :=
  (tracks_after_and_calm_iff actions hquiet).1

/-- Two peers, polled twice, with a frame sent in time and a report without losses in between. -/
def closePeers : List Action :=
  [.event (.rttSample 20000) ⟨0, 0, 0⟩, .event (.rttSample 23000) ⟨0, 0, 0⟩,
    .event (.sendComplete 66000000 1000) ⟨0, 0, 0⟩, .event (.receiverFeedback 0 0) ⟨0, 0, 0⟩,
    .event (.rttSample 20000) ⟨0, 0, 0⟩, .event (.rttSample 23000) ⟨0, 0, 0⟩]

theorem calm_closePeers : Each (fun before a => (after 0 0 before).Calm a) closePeers := by
  refine (calm_iff_steady ?_).mpr (steady_of_close ?_)
  · show Each _ ([] ++ [_] ++ [_] ++ [_] ++ [_] ++ [_] ++ [_])
    refine each_snoc.mpr ⟨each_snoc.mpr ⟨each_snoc.mpr ⟨each_snoc.mpr ⟨each_snoc.mpr
      ⟨each_snoc.mpr ⟨each_nil, ?_⟩, ?_⟩, ?_⟩, ?_⟩, ?_⟩, ?_⟩
    · trivial
    · trivial
    · show (66000000 : ℚ) / 10 ^ 6 ≤ (after 0 0 _).frameIntervalMs
      decide +kernel
    · rfl
    · trivial
    · trivial
  · have hsamples : rttSamples closePeers = [20000, 23000, 20000, 23000] := rfl
    have hclose : ∀ x ∈ [20000, 23000, 20000, 23000], 20000 ≤ x ∧ x ≤ 23000 := by decide
    rw [hsamples]
    intro x hx y hy
    have hle : (x : ℚ) ≤ 23000 := by exact_mod_cast (hclose x hx).2
    have hge : (20000 : ℚ) ≤ y := by exact_mod_cast (hclose y hy).1
    norm_num [rttIncreaseThreshold]
    linarith

/-- Two peers at different distances, polled once. -/
def nearAndFar : List Action :=
  [.event (.rttSample 10000) ⟨0, 0, 0⟩, .event (.rttSample 100000) ⟨0, 0, 0⟩]

theorem not_calm : ¬ ∀ (rtts : List ℕ) (lastProbe lastDecrease : ℕ) (actions : List Action),
    (∀ r ∈ rtts, 0 < r) →
    Each (fun before a => (after lastProbe lastDecrease before).Quiet a) actions →
    PolledInRounds rtts (rttSamples actions) →
    Each (fun before a => (after lastProbe lastDecrease before).Calm a) actions := by
  intro h
  have hquiet : Each (fun before a => (after 0 0 before).Quiet a) nearAndFar := by
    show Each _ ([] ++ [_] ++ [_])
    exact each_snoc.mpr ⟨each_snoc.mpr ⟨each_nil, trivial⟩, trivial⟩
  have hpolled : PolledInRounds [10000, 100000] (rttSamples nearAndFar) :=
    ⟨[[10000, 100000]], by simp, List.prefix_refl _⟩
  have hcalm := h [10000, 100000] 0 0 nearAndFar (by simp) hquiet hpolled
    [.event (.rttSample 10000) ⟨0, 0, 0⟩] _ [] rfl
  have hmild : ((after 0 0 [.event (.rttSample 10000) ⟨0, 0, 0⟩]).sampleRtt 100000).2 = .mild := by
    decide +kernel
  exact absurd (hmild.symm.trans (hcalm.noCongestion _ _ rfl)) (by decide)

end Actions

end BandwidthEstimator

end Meshconf.Bandwidth
