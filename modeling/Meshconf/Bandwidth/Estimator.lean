import Mathlib.Algebra.Order.Floor.Semiring
import Mathlib.Algebra.Order.Ring.Int
import Mathlib.Data.Rat.Floor
import Mathlib.Order.Lattice.Nat
import Mathlib.Tactic.Linarith
import Mathlib.Tactic.NormNum
import Meshconf.Bandwidth.Basic
import Meshconf.Signal.Ladder

/-! # The bandwidth estimator

Events move the target bitrate up and down, and the quality level follows it by at
most one rung of the ladder per event. Factors and round-trip times are exact
rationals; times are nanoseconds of a clock that the estimator reads.
-/

namespace Meshconf.Bandwidth

open Signal

/-- A quality preset: encode resolution, frame rate and target bitrate. -/
structure QualityPreset where
  width : ℕ
  height : ℕ
  fps : ℕ
  bitrateBps : ℕ
  deriving DecidableEq, Repr

/-- Available quality levels, ordered from low to high. -/
def qualityLadder : List QualityPreset :=
  [⟨320, 240, 10, 100000⟩, ⟨480, 360, 15, 250000⟩, ⟨640, 480, 15, 500000⟩]

abbrev QualityIdx := Fin qualityLadder.length

def preset (i : QualityIdx) : QualityPreset := qualityLadder.get i

def defaultQualityIdx : QualityIdx := ⟨2, by decide⟩

def minBitrateBps : ℕ := 50000
def maxBitrateBps : ℕ := 2000000

def increaseRate : ℚ := 1 / 20
def probeInterval : ℕ := 2 * 10 ^ 9
def holdAfterDecrease : ℕ := 2 * 10 ^ 9
def rttIncreaseThreshold : ℚ := 1 / 5

/-- What the estimator publishes to the encode loop. -/
structure EncoderConfig where
  targetBitrate : ℕ
  targetWidth : ℕ
  targetHeight : ℕ
  targetFps : ℕ
  qualityChanged : Bool
  deriving DecidableEq, Repr

/-- A configuration at the highest preset. -/
def EncoderConfig.new : EncoderConfig :=
  let preset := qualityLadder.getLast (by decide)
  { targetBitrate := preset.bitrateBps
    targetWidth := preset.width
    targetHeight := preset.height
    targetFps := preset.fps
    qualityChanged := false }

inductive CongestionLevel | none | mild | moderate | severe
  deriving DecidableEq, Repr

/-- The clock readings of one event: two for the elapsed times, and one that is kept. -/
structure Readings where
  probe : ℕ
  hold : ℕ
  stamp : ℕ
  deriving DecidableEq, Repr

structure BandwidthEstimator where
  config : EncoderConfig
  currentBitrate : ℕ
  qualityIdx : QualityIdx
  baselineRttUs : Option ℚ
  smoothedRttUs : Option ℚ
  lastProbe : ℕ
  lastDecrease : ℕ
  frameIntervalMs : ℚ
  deriving DecidableEq

/-- Conversion of a non-negative float to `u32`: truncated, and saturating. -/
def toU32 (x : ℚ) : ℕ := min ⌊x⌋₊ (2 ^ 32 - 1)

namespace BandwidthEstimator

/-- An estimator bound to `config`, made at the given times. -/
def new (config : EncoderConfig) (lastProbe lastDecrease : ℕ) : BandwidthEstimator :=
  let initial := preset defaultQualityIdx
  { config
    currentBitrate := initial.bitrateBps
    qualityIdx := defaultQualityIdx
    baselineRttUs := none
    smoothedRttUs := none
    lastProbe
    lastDecrease
    frameIntervalMs := 1000 / initial.fps }

def setBitrate (e : BandwidthEstimator) (bps : ℕ) : BandwidthEstimator :=
  let bitrate := max minBitrateBps (min bps maxBitrateBps)
  { e with
    currentBitrate := bitrate
    config := { e.config with targetBitrate := bitrate } }

def applyPreset (e : BandwidthEstimator) (p : QualityPreset) : BandwidthEstimator :=
  { e with
    frameIntervalMs := 1000 / p.fps
    config := { e.config with
      targetWidth := p.width
      targetHeight := p.height
      targetFps := p.fps
      qualityChanged := true } }

def maybeStepDownQuality (e : BandwidthEstimator) : BandwidthEstimator :=
  if e.qualityIdx.val = 0 then e
  else
    let lower : QualityIdx := ⟨e.qualityIdx.val - 1, by omega⟩
    if e.currentBitrate ≤ (preset lower).bitrateBps then
      applyPreset { e with qualityIdx := lower } (preset lower)
    else e

def maybeStepUpQuality (e : BandwidthEstimator) : BandwidthEstimator :=
  if h : e.qualityIdx.val + 1 < qualityLadder.length then
    let higher : QualityIdx := ⟨e.qualityIdx.val + 1, h⟩
    if (preset higher).bitrateBps ≤ e.currentBitrate then
      applyPreset { e with qualityIdx := higher } (preset higher)
    else e
  else e

/-- Additive increase, if neither a probe nor a decrease is too recent. -/
def tryProbe (e : BandwidthEstimator) (t : Readings) : BandwidthEstimator :=
  if probeInterval ≤ t.probe - e.lastProbe ∧ holdAfterDecrease ≤ t.hold - e.lastDecrease then
    let e : BandwidthEstimator := { e with lastProbe := t.stamp }
    let new := toU32 (e.currentBitrate * (1 + increaseRate))
    (e.setBitrate (min new maxBitrateBps)).maybeStepUpQuality
  else e

/-- Multiplicative decrease. -/
def decrease (e : BandwidthEstimator) (t : Readings) (factor : ℚ) : BandwidthEstimator :=
  let e : BandwidthEstimator := { e with lastDecrease := t.stamp }
  let new := toU32 (e.currentBitrate * factor)
  (e.setBitrate (max new minBitrateBps)).maybeStepDownQuality

/-- Smooth a round-trip time, and compare it with the baseline. -/
def sampleRtt (e : BandwidthEstimator) (rtt : ℚ) : BandwidthEstimator × CongestionLevel :=
  match e.smoothedRttUs with
  | none => ({ e with smoothedRttUs := some rtt, baselineRttUs := some rtt }, .none)
  | some smoothed =>
    let smoothed := smoothed * (9 / 10) + rtt * (1 / 10)
    let e : BandwidthEstimator := { e with smoothedRttUs := some smoothed }
    match e.baselineRttUs with
    | none => (e, .none)
    | some baseline =>
      if baseline * (1 + rttIncreaseThreshold) < smoothed then (e, .mild)
      else
        let baseline := baseline * (999 / 1000) + smoothed * (1 / 1000)
        ({ e with baselineRttUs := some baseline }, .none)

/-- The congestion that an event tells of. -/
def classify (e : BandwidthEstimator) : BandwidthEvent → BandwidthEstimator × CongestionLevel
  | .sendComplete durationNs _ =>
    let sendMs : ℚ := durationNs / 10 ^ 6
    (e, if e.frameIntervalMs < sendMs then .moderate else .none)
  | .rttSample rttUs => e.sampleRtt rttUs
  | .streamStopped => (e, .severe)
  | .receiverFeedback fractionLost _ =>
    (e,
      if 1 / 10 < fractionLost then .severe
      else if 1 / 20 < fractionLost then .moderate
      else if 1 / 50 < fractionLost then .mild
      else .none)

def handleEvent (e : BandwidthEstimator) (event : BandwidthEvent) (t : Readings) :
    BandwidthEstimator :=
  match e.classify event with
  | (e, .none) => e.tryProbe t
  | (e, .mild) => e.decrease t (85 / 100)
  | (e, .moderate) => e.decrease t (80 / 100)
  | (e, .severe) => e.decrease t (50 / 100)

end BandwidthEstimator

/-- Between events the encode loop may take notice of a changed preset. -/
inductive Action
  | event (event : BandwidthEvent) (t : Readings)
  | takeQualityChanged

namespace BandwidthEstimator

def act (e : BandwidthEstimator) : Action → BandwidthEstimator
  | .event event t => e.handleEvent event t
  | .takeQualityChanged => { e with config := { e.config with qualityChanged := false } }

/-- The estimator after a history of actions on a fresh configuration. -/
def after (lastProbe lastDecrease : ℕ) (actions : List Action) : BandwidthEstimator :=
  actions.foldl act (new .new lastProbe lastDecrease)

end BandwidthEstimator

end Meshconf.Bandwidth
