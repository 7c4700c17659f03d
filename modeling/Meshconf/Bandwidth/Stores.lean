import Meshconf.Bandwidth.Estimator
import Meshconf.Transition.Publication

/-! # The stores of the estimator

The estimator publishes with one atomic store after the other. The stores of an event are
listed in the order of the code; carried out together they change the configuration as the
event does, and each store of a preset is announced by the flag behind it.
-/

namespace Meshconf.Bandwidth

open Publication

/-- What a preset sets in the configuration. -/
inductive Target | width | height | fps
  deriving DecidableEq, Repr

inductive ConfigStore
  | targetBitrate (bps : ℕ)
  | target (field : Target) (n : ℕ)
  | qualityChanged
  deriving DecidableEq, Repr

namespace EncoderConfig

def target (cfg : EncoderConfig) : Target → ℕ
  | .width => cfg.targetWidth
  | .height => cfg.targetHeight
  | .fps => cfg.targetFps

/-- Carry out a store. -/
def store (cfg : EncoderConfig) : ConfigStore → EncoderConfig
  | .targetBitrate bps => { cfg with targetBitrate := bps }
  | .target .width n => { cfg with targetWidth := n }
  | .target .height n => { cfg with targetHeight := n }
  | .target .fps n => { cfg with targetFps := n }
  | .qualityChanged => { cfg with qualityChanged := true }

theorem target_store (cfg : EncoderConfig) (field : Target) (n : ℕ) :
    (cfg.store (.target field n)).target = Function.update cfg.target field n := by
  funext other
  cases field <;> cases other <;> rfl

end EncoderConfig

/-- A store as the reader of the flag sees it; the bitrate is not announced. -/
def ConfigStore.announced : ConfigStore → Option (Store Target ℕ)
  | .targetBitrate _ => none
  | .target field n => some (.put field n)
  | .qualityChanged => some .raise

namespace BandwidthEstimator

variable {e : BandwidthEstimator} {event : BandwidthEvent} {t : Readings}

/-- The stores of `apply_preset`. -/
def presetStores (p : QualityPreset) : List ConfigStore :=
  [.target .width p.width, .target .height p.height, .target .fps p.fps, .qualityChanged]

theorem below_lt (i : QualityIdx) : i.val - 1 < qualityLadder.length :=
  Nat.lt_of_le_of_lt (Nat.sub_le _ _) i.isLt

/-- The rung below; the lowest stays where it is. -/
def below (i : QualityIdx) : QualityIdx := ⟨i.val - 1, below_lt i⟩

def stepDownStores (e : BandwidthEstimator) : List ConfigStore :=
  if e.qualityIdx.val = 0 then []
  else
    let lower : QualityIdx := below e.qualityIdx
    if e.currentBitrate ≤ (preset lower).bitrateBps then presetStores (preset lower) else []

def stepUpStores (e : BandwidthEstimator) : List ConfigStore :=
  if h : e.qualityIdx.val + 1 < qualityLadder.length then
    let higher : QualityIdx := ⟨e.qualityIdx.val + 1, h⟩
    if (preset higher).bitrateBps ≤ e.currentBitrate then presetStores (preset higher) else []
  else []

def probeStores (e : BandwidthEstimator) (t : Readings) : List ConfigStore :=
  if probeInterval ≤ t.probe - e.lastProbe ∧ holdAfterDecrease ≤ t.hold - e.lastDecrease then
    let e : BandwidthEstimator := { e with lastProbe := t.stamp }
    let new := toU32 (e.currentBitrate * (1 + increaseRate))
    let e := e.setBitrate (min new maxBitrateBps)
    .targetBitrate e.currentBitrate :: e.stepUpStores
  else []

def decreaseStores (e : BandwidthEstimator) (t : Readings) (factor : ℚ) : List ConfigStore :=
  let e : BandwidthEstimator := { e with lastDecrease := t.stamp }
  let new := toU32 (e.currentBitrate * factor)
  let e := e.setBitrate (max new minBitrateBps)
  .targetBitrate e.currentBitrate :: e.stepDownStores

/-- The stores of an event, in their order. -/
def eventStores (e : BandwidthEstimator) (event : BandwidthEvent) (t : Readings) :
    List ConfigStore :=
  match e.classify event with
  | (e, .none) => e.probeStores t
  | (e, .mild) => e.decreaseStores t (85 / 100)
  | (e, .moderate) => e.decreaseStores t (80 / 100)
  | (e, .severe) => e.decreaseStores t (50 / 100)

/-! ## All stores together -/

theorem foldl_stepDownStores (e : BandwidthEstimator) :
    e.stepDownStores.foldl EncoderConfig.store e.config = e.maybeStepDownQuality.config := by
  unfold stepDownStores maybeStepDownQuality below
  dsimp only
  split_ifs <;> rfl

theorem foldl_stepUpStores (e : BandwidthEstimator) :
    e.stepUpStores.foldl EncoderConfig.store e.config = e.maybeStepUpQuality.config := by
  unfold stepUpStores maybeStepUpQuality
  dsimp only
  split_ifs <;> rfl

theorem foldl_probeStores (e : BandwidthEstimator) (t : Readings) :
    (e.probeStores t).foldl EncoderConfig.store e.config = (e.tryProbe t).config := by
  unfold probeStores tryProbe
  split_ifs
  · let e' : BandwidthEstimator := { e with lastProbe := t.stamp }
    exact foldl_stepUpStores
      (e'.setBitrate (min (toU32 (e.currentBitrate * (1 + increaseRate))) maxBitrateBps))
  · rfl

theorem foldl_decreaseStores (e : BandwidthEstimator) (t : Readings) (factor : ℚ) :
    (e.decreaseStores t factor).foldl EncoderConfig.store e.config =
      (e.decrease t factor).config := by
  let e' : BandwidthEstimator := { e with lastDecrease := t.stamp }
  exact foldl_stepDownStores
    (e'.setBitrate (max (toU32 (e.currentBitrate * factor)) minBitrateBps))

theorem sampleRtt_config (rtt : ℚ) : (e.sampleRtt rtt).1.config = e.config := by
  unfold sampleRtt
  split
  · rfl
  · dsimp only
    split
    · rfl
    · split_ifs <;> rfl

theorem classify_config (e : BandwidthEstimator) (event : BandwidthEvent) :
    (e.classify event).1.config = e.config := by
  cases event with
  | rttSample rttUs => exact sampleRtt_config _
  | _ => rfl

/-- The stores of an event change the configuration as the event does. -/
theorem foldl_eventStores (e : BandwidthEstimator) (event : BandwidthEvent) (t : Readings) :
    (e.eventStores event t).foldl EncoderConfig.store e.config =
      (e.handleEvent event t).config := by
  unfold eventStores handleEvent
  rw [← classify_config e event]
  rcases e.classify event with ⟨e, _ | _ | _ | _⟩
  · exact foldl_probeStores e t
  · exact foldl_decreaseStores e t _
  · exact foldl_decreaseStores e t _
  · exact foldl_decreaseStores e t _

/-! ## The flag behind them -/

theorem announced_presetStores (p : QualityPreset) :
    Announced ((presetStores p).filterMap ConfigStore.announced) := by
  simp [presetStores, ConfigStore.announced, Announced]

theorem announced_stepDownStores :
    Announced (e.stepDownStores.filterMap ConfigStore.announced) := by
  unfold stepDownStores
  dsimp only
  split_ifs
  · trivial
  · exact announced_presetStores _
  · trivial

theorem announced_stepUpStores : Announced (e.stepUpStores.filterMap ConfigStore.announced) := by
  unfold stepUpStores
  dsimp only
  split_ifs
  · exact announced_presetStores _
  · trivial
  · trivial

theorem announced_probeStores : Announced ((e.probeStores t).filterMap ConfigStore.announced) := by
  unfold probeStores
  split_ifs
  · exact announced_stepUpStores
  · trivial

theorem announced_eventStores :
    Announced ((e.eventStores event t).filterMap ConfigStore.announced) := by
  unfold eventStores
  rcases e.classify event with ⟨e, _ | _ | _ | _⟩
  · exact announced_probeStores
  · exact announced_stepDownStores
  · exact announced_stepDownStores
  · exact announced_stepDownStores

end BandwidthEstimator

end Meshconf.Bandwidth
