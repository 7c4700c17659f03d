import Meshconf.Video.Delivery

/-! # From the encoder to a receiver

The encode loop offers every frame to a channel of four packets and drops what does
not fit. The send loop numbers what it takes from the channel while some peer is
registered, and sends it to all of them; one of these peers is followed to its decoder.
-/

namespace Meshconf.Video

open Bytes Protocol

structure EncodedPacket where
  data : List UInt8
  captureTimestampUs : ℕ
  isKeyframe : Bool
  data_lt : data.length < 2 ^ 62
  captureTimestampUs_lt : captureTimestampUs < 2 ^ 62

/-- The frame that the send loop writes for a packet under number `g`. -/
def sendVideoFrame (g : ℕ) (hg : g < 2 ^ 62) (pkt : EncodedPacket) : SentFrame where
  header := ⟨trackVideo, g, if pkt.isKeyframe then 0 else 1, priorityVideo⟩
  object := ⟨0, pkt.captureTimestampUs, some .hevc, pkt.data⟩
  header_fits := ⟨by simp [trackVideo], hg, by dsimp only; split <;> decide⟩
  object_bounded := ⟨by simp, pkt.captureTimestampUs_lt, pkt.data_lt⟩

/-- Capacity of the channel from the encode loop to the send loop. -/
def packetChannelCapacity : ℕ := 4

/-- A connection is registered with the broadcaster once and removed once. -/
inductive Membership
  | absent
  | registered
  | removed
  deriving DecidableEq

structure Pipeline where
  /-- The frames that the encode loop has produced, in order. -/
  produced : List EncodedPacket := []
  /-- Whether the channel took the last of them. -/
  previousAccepted : Bool := true
  /-- Packets on their way to the send loop, with their positions among the frames produced. -/
  channel : List (ℕ × EncodedPacket) := []
  lastTaken : Option (ℕ × EncodedPacket) := none
  frameSeq : ℕ := 0
  /-- The position of the packet that got number `g` is the entry at `g - 1`. -/
  numbered : List ℕ := []
  others : ℕ := 0
  membership : Membership := .absent
  link : Link := {}

namespace Pipeline

inductive Action
  | encode (pkt : EncodedPacket)
  | take
  | setOthers (n : ℕ)
  | register
  | remove
  | accept (i n : ℕ) (ending : Ending)
  | receive (a : Receiver.Action)

def hasRoom (p : Pipeline) : Bool := p.channel.length < packetChannelCapacity

/-- The encode loop drops a packet when the channel is full. -/
def encode (p : Pipeline) (pkt : EncodedPacket) : Pipeline :=
  { p with
    produced := p.produced ++ [pkt]
    previousAccepted := p.hasRoom
    channel := if p.hasRoom then p.channel ++ [(p.produced.length, pkt)] else p.channel }

def peerCount (p : Pipeline) : ℕ :=
  p.others + if p.membership = .registered then 1 else 0

/-- Send a frame to the followed peer if it is registered. -/
def broadcast (p : Pipeline) (f : SentFrame) : Link :=
  if p.membership = .registered then
    { p.link with sent := p.link.sent ++ [f], flight := p.link.flight ++ [f] }
  else p.link

/--
One round of the send loop. Aborting the streams that are under way needs no step: every stream may
end early. The numbers stay within the varint format, the model goes no further.
-/
def take (p : Pipeline) : Option Pipeline :=
  match p.channel with
  | [] => none
  | (k, pkt) :: channel =>
    if p.peerCount = 0 then some { p with channel, lastTaken := some (k, pkt) }
    else if hg : p.frameSeq + 1 < 2 ^ 62 then
      some { p with
        channel
        lastTaken := some (k, pkt)
        frameSeq := p.frameSeq + 1
        numbered := p.numbered ++ [k]
        link := p.broadcast (sendVideoFrame (p.frameSeq + 1) hg pkt) }
    else none

def step (p : Pipeline) : Action → Option Pipeline
  | .encode pkt => some (p.encode pkt)
  | .take => p.take
  | .setOthers n => some { p with others := n }
  | .register =>
    if p.membership = .absent then some { p with membership := .registered } else none
  | .remove =>
    if p.membership = .registered then some { p with membership := .removed } else none
  | .accept i n ending => do
    let link ← p.link.step (.accept i n ending)
    return { p with link }
  | .receive a => do
    let link ← p.link.step (.receive a)
    return { p with link }

/-- The position among the frames produced of the packet with number `g`. -/
def frameIndex (p : Pipeline) : ℕ → Option ℕ
  | 0 => none
  | g + 1 => p.numbered[g]?

end Pipeline

end Meshconf.Video
