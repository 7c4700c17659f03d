import Mathlib.Data.Rat.Defs

/-! # Bandwidth events

What the send and receive paths report to the bandwidth estimator.
-/

namespace Meshconf.Bandwidth

inductive BandwidthEvent
  | sendComplete (durationNs payloadBytes : ℕ)
  | rttSample (rttUs : ℕ)
  | streamStopped
  | receiverFeedback (fractionLost : ℚ) (jitterUs : ℕ)
  deriving DecidableEq, Repr

end Meshconf.Bandwidth
