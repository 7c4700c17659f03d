import Mathlib.Data.Rat.Defs
import Meshconf.Bytes.BigEndian
import Meshconf.Bytes.Reader

/-! # Control messages

A control message is JSON behind its length in four big-endian bytes. The JSON
format itself is a parameter, and so are the text forms of keys and addresses
that messages carry.
-/

namespace Meshconf.Control

open Bytes

/-- Stream type tag of a control stream. -/
def streamTypeControl : UInt8 := 0x01

structure PeerInfo where
  peerId : String
  addr : String
  name : String
  deriving DecidableEq, Repr

inductive ControlMessage
  | hello (addr name : String)
  | peerList (peers : List PeerInfo)
  | congestionFeedback (received dropped : ℕ) (fractionLost : ℚ) (jitterUs : ℕ)
  deriving DecidableEq, Repr

/-- The JSON form of control messages. -/
structure Json where
  toVec : ControlMessage → List UInt8
  fromSlice : List UInt8 → Except String ControlMessage

/-- The longest JSON text that is read. -/
def maxControlMsg : ℕ := 1000000

def writeControlMsg (json : Json) (msg : ControlMessage) : List UInt8 :=
  toBe 4 (json.toVec msg).length ++ json.toVec msg

def Json.parse (json : Json) (buf : List UInt8) : ReadM ControlMessage :=
  match json.fromSlice buf with
  | .ok msg => return msg
  | .error e => throw (.invalid e)

def readControlMsg (json : Json) : ReadM ControlMessage := do
  let lenBuf ← readExact 4
  let len := ofBe lenBuf
  if ¬ len ≤ maxControlMsg then
    throw (.invalid s!"Control message too large: {len} bytes")
  request len
  let buf ← readExact len
  json.parse buf

variable {json : Json} {msg : ControlMessage}

/-- A message whose JSON text is not too long is read back as it was written. -/
theorem frames_readControlMsg (hlen : (json.toVec msg).length ≤ maxControlMsg)
    (hjson : json.fromSlice (json.toVec msg) = .ok msg) :
    Frames (readControlMsg json) (writeControlMsg json msg) [(json.toVec msg).length] msg := by
  have hof : ofBe (toBe 4 (json.toVec msg).length) = (json.toVec msg).length := by
    apply ofBe_toBe_of_lt
    unfold maxControlMsg at hlen
    omega
  have hhead : Frames (readExact 4) (toBe 4 (json.toVec msg).length) []
      (toBe 4 (json.toVec msg).length) := by
    simpa using Frames.readExact (toBe 4 (json.toVec msg).length)
  have hparse : Frames (json.parse (json.toVec msg)) [] [] msg := by
    unfold Json.parse
    rw [hjson]
    exact Frames.pure msg
  apply hhead.silent_bind
  simp only [hof, hlen, not_true_eq_false, if_false]
  exact (Frames.readExact_bind hparse).request_bind

/-- A message whose JSON text is too long is refused. -/
theorem exec_readControlMsg_of_lt (hlong : maxControlMsg < (json.toVec msg).length)
    (hlen : (json.toVec msg).length < 256 ^ 4) {s : Stream} (hs : s.input = writeControlMsg json msg) :
    ∃ e s', (readControlMsg json).exec s = (.error e, s') := by
  have hhead := (Frames.readExact (toBe 4 (json.toVec msg).length)).whole s (json.toVec msg) hs
  rw [length_toBe] at hhead
  refine ⟨.invalid s!"Control message too large: {(json.toVec msg).length} bytes",
    s.advance (json.toVec msg) [], ?_⟩
  unfold readControlMsg
  rw [ReadM.exec_bind_ok hhead]
  simp only [ofBe_toBe_of_lt hlen, Nat.not_le.mpr hlong, not_false_eq_true, if_true,
    ReadM.throw_bind, ReadM.exec_throw]

end Meshconf.Control
