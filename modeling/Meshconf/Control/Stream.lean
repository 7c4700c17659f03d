import Meshconf.Control.Message

/-! # Control streams of a session

Congestion feedback travels on bidirectional streams of its own, one message each.
The dispatcher of the other side accepts them, reads the tag, and hands the stream
to a handler if it was given a control channel.
-/

namespace Meshconf.Control

open Bytes

/-! ## The sender of congestion feedback -/

/-- The totals at the last report. -/
structure FeedbackSender where
  prevReceived : ℕ := 0
  prevDropped : ℕ := 0
  deriving DecidableEq, Repr

/-- The next report, for the given totals. -/
def FeedbackSender.report (f : FeedbackSender) (curReceived curDropped : ℕ) :
    ControlMessage × FeedbackSender :=
  let deltaReceived := curReceived - f.prevReceived
  let deltaDropped := curDropped - f.prevDropped
  let total := deltaReceived + deltaDropped
  let fractionLost : ℚ := if 0 < total then deltaDropped / total else 0
  let sender : FeedbackSender := { prevReceived := curReceived, prevDropped := curDropped }
  (.congestionFeedback deltaReceived deltaDropped fractionLost 0, sender)

/-- All that is written on the stream of a report. -/
def feedbackStream (json : Json) (msg : ControlMessage) : List UInt8 :=
  streamTypeControl :: writeControlMsg json msg

/-! ## The dispatcher -/

/-- The messages that the handler of a control stream forwards; each takes at least four bytes. -/
def handleControlStream (json : Json) : ℕ → Stream → List ControlMessage
  | 0, _ => []
  | fuel + 1, s =>
    match (readControlMsg json).exec s with
    | (.ok msg, s) => msg :: handleControlStream json fuel s
    | (.error _, _) => []

/-- What becomes of a bidirectional stream. -/
inductive Accepted
  | untagged
  | unknown (tag : UInt8)
  /-- Received control stream but no handler configured. -/
  | unhandled
  | handled (msgs : List ControlMessage)
  deriving DecidableEq, Repr

def acceptBi (json : Json) (controlTx : Bool) (s : Stream) : Accepted :=
  match readByte.exec s with
  | (.error _, _) => .untagged
  | (.ok tag, s) =>
    if tag = streamTypeControl then
      if controlTx then .handled (handleControlStream json s.input.length s) else .unhandled
    else .unknown tag

variable {json : Json} {msg : ControlMessage} {s : Stream}

theorem handleControlStream_nil (fuel : ℕ) (h : s.input = []) :
    handleControlStream json fuel s = [] := by
  cases fuel with
  | zero => rfl
  | succ fuel =>
    have hfail : ∃ e t, (readControlMsg json).exec s = (.error e, t) :=
      ⟨_, _, ReadM.exec_bind_error (ReadM.exec_readExact_of_lt (by simp [h]))⟩
    obtain ⟨e, t, ht⟩ := hfail
    simp only [handleControlStream, ht]

/-- Whether a report is handed on depends only on the control channel. -/
theorem acceptBi_feedbackStream (hlen : (json.toVec msg).length ≤ maxControlMsg)
    (hjson : json.fromSlice (json.toVec msg) = .ok msg) (controlTx : Bool)
    (hs : s.input = feedbackStream json msg) :
    acceptBi json controlTx s = if controlTx then .handled [msg] else .unhandled := by
  have hbody := (frames_readControlMsg hlen hjson).whole
    { s with input := writeControlMsg json msg } [] (by simp)
  obtain ⟨n, hn⟩ : ∃ n, (writeControlMsg json msg).length = n + 1 :=
    ⟨_, by simp [writeControlMsg, Nat.add_comm 4]; rfl⟩
  simp only [acceptBi, ReadM.exec_readByte_cons hs, if_true, hn, handleControlStream, hbody]
  rw [handleControlStream_nil n (by simp)]

/-- Without a control channel the tag alone decides. -/
theorem acceptBi_unhandled {rest : List UInt8} (hs : s.input = streamTypeControl :: rest) :
    acceptBi json false s = .unhandled := by
  simp [acceptBi, ReadM.exec_readByte_cons hs]

end Meshconf.Control
