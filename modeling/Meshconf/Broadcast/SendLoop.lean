import Meshconf.Bandwidth.Basic
import Meshconf.Mesh.Room
import Meshconf.Video.Sender

/-! # Sending to all peers

The send loop numbers the packets of the encoder and spawns a task per peer and
packet, which opens a stream and writes the frame. Tasks of an older GOP are aborted.
The room adds and removes peers while all this goes on, and every connection has its
own network and its own receiver.
-/

namespace Meshconf.Broadcast

open Bytes Protocol Video Bandwidth
open Meshconf.Mesh (Connection)

variable {Id : Type}

/-- The connections that media is sent through, and the flag of the encoder, if it has one. -/
structure Broadcaster (Id : Type) where
  peers : List (Id × Connection Id)
  forceKeyframe : Option Bool
  keys_nodup : (peers.map Prod.fst).Nodup

namespace Broadcaster

def new : Broadcaster Id := ⟨[], none, List.nodup_nil⟩

def newWithKeyframe (forceKeyframe : Bool) : Broadcaster Id :=
  ⟨[], some forceKeyframe, List.nodup_nil⟩

variable [DecidableEq Id]

theorem keys_nodup_filter (b : Broadcaster Id) (id : Id) :
    ((b.peers.filter (·.1 ≠ id)).map Prod.fst).Nodup :=
  b.keys_nodup.sublist (List.filter_sublist.map _)

def addPeer (b : Broadcaster Id) (id : Id) (conn : Connection Id) : Broadcaster Id where
  peers := (id, conn) :: b.peers.filter (·.1 ≠ id)
  forceKeyframe := b.forceKeyframe.map fun _ => true
  keys_nodup := by
    rw [List.map_cons, List.nodup_cons]
    exact ⟨by simp, b.keys_nodup_filter id⟩

def removePeer (b : Broadcaster Id) (id : Id) : Broadcaster Id where
  peers := b.peers.filter (·.1 ≠ id)
  forceKeyframe := b.forceKeyframe
  keys_nodup := b.keys_nodup_filter id

def peerCount (b : Broadcaster Id) : ℕ := b.peers.length

end Broadcaster

/-- Streams of later frames go first, as far as the type of priorities reaches. -/
def quicPriority (frameSeq : ℕ) : ℕ := min frameSeq 2147483647

/-- The task that sends a frame to a peer. -/
structure SendTask (Id : Type) where
  conn : Connection Id
  frame : SentFrame
  quicPriority : ℕ
  opened : Bool := false
  /-- Whether a worker is at it; it stops only where the task waits. -/
  polled : Bool := false
  aborted : Bool := false
  ended : Bool := false

namespace SendTask

def abort (t : SendTask Id) : SendTask Id :=
  { t with aborted := true, ended := t.ended || !t.polled }

end SendTask

/-- Where the loop is with a frame. -/
inductive LoopPhase (Id : Type)
  | idle
  | numbered (frame : SentFrame)
  | spawning (frame : SentFrame) (rest peers : List (Id × Connection Id))
  | stopped

/-- Capacity of the channel to the estimator. -/
def bandwidthChannelCapacity : ℕ := 64

structure SendLoop (Id : Type) where
  broadcaster : Broadcaster Id
  channel : List EncodedPacket := []
  channelClosed : Bool := false
  cancelled : Bool := false
  frameSeq : ℕ := 0
  rttPollCounter : ℕ := 0
  /-- The number and the task of every send under way, by peer. -/
  inFlight : List (Id × List (ℕ × ℕ)) := []
  /-- All tasks ever spawned. -/
  tasks : List (SendTask Id) := []
  bandwidth : Option (List BandwidthEvent)
  phase : LoopPhase Id := .idle
  links : Connection Id → Link := fun _ => {}
  /-- The packet with number `g` is the entry at `g - 1`, and so are its recipients. -/
  numbered : List EncodedPacket := []
  recipients : List (List (Connection Id)) := []

namespace SendLoop

/-- The loop has asked for a keyframe. -/
def start (withEstimator : Bool) : SendLoop Id where
  broadcaster := .newWithKeyframe true
  bandwidth := if withEstimator then some [] else none

inductive Action (Id : Type)
  -- The room, the encoder, the estimator and the token.
  | addPeer (conn : Connection Id)
  | removePeer (id : Id)
  | swapKeyframe
  | encode (pkt : EncodedPacket)
  | closeChannel
  | takeEvent
  | cancel
  -- The loop.
  | take
  | snapshot (peers : List (Id × Connection Id))
  | spawn
  | pollRtt (rtt : Connection Id → Option ℕ)
  | stop
  -- A task.
  | schedule (i : ℕ)
  | openStream (i : ℕ)
  | finish (i durationNs : ℕ)
  | fail (i : ℕ)
  | yield (i : ℕ)
  -- The network and the receivers.
  | accept (conn : Connection Id) (i n : ℕ) (ending : Ending)
  | receive (conn : Connection Id) (a : Receiver.Action)

def handles (s : SendLoop Id) : List ℕ := s.inFlight.flatMap fun e => e.2.map Prod.snd

def abortAll (s : SendLoop Id) : SendLoop Id :=
  { s with
    tasks := s.tasks.mapIdx fun i t => if i ∈ s.handles then t.abort else t
    inFlight := [] }

def isFinished (s : SendLoop Id) (i : ℕ) : Bool := (s.tasks[i]?.map (·.ended)).getD true

/-- Forget the tasks that have ended. -/
def retain (s : SendLoop Id) : SendLoop Id :=
  { s with inFlight := s.inFlight.map fun e => (e.1, e.2.filter fun h => !s.isFinished h.2) }

def trySend (s : SendLoop Id) (e : BandwidthEvent) : SendLoop Id :=
  { s with bandwidth := s.bandwidth.map fun q =>
      if q.length < bandwidthChannelCapacity then q ++ [e] else q }

/-- Give the next number to a packet. -/
def number (s : SendLoop Id) (pkt : EncodedPacket) (hg : s.frameSeq + 1 < 2 ^ 62) : SendLoop Id :=
  { s with
    frameSeq := s.frameSeq + 1
    numbered := s.numbered ++ [pkt]
    phase := .numbered (sendVideoFrame (s.frameSeq + 1) hg pkt) }

/-- Take a packet. Without peers it is dropped, a keyframe ends the sends of the GOP before it. -/
def take (s : SendLoop Id) : Option (SendLoop Id) :=
  match s.channel with
  | [] => none
  | pkt :: channel =>
    let s := { s with channel }
    if s.broadcaster.peerCount = 0 then some s.abortAll
    else if hg : s.frameSeq + 1 < 2 ^ 62 then
      some (if pkt.isKeyframe then (s.number pkt hg).abortAll else s.number pkt hg)
    else none

/-- Add a handle under the key of a peer. -/
def pushHandle [DecidableEq Id] (id : Id) (h : ℕ × ℕ) :
    List (Id × List (ℕ × ℕ)) → List (Id × List (ℕ × ℕ))
  | [] => [(id, [h])]
  | (k, hs) :: rest => if k = id then (k, hs ++ [h]) :: rest else (k, hs) :: pushHandle id h rest

/-- Spawn the task for the next peer of the snapshot. -/
def spawn [DecidableEq Id] (s : SendLoop Id) (frame : SentFrame) (id : Id) (conn : Connection Id)
    (rest peers : List (Id × Connection Id)) : SendLoop Id :=
  { s with
    tasks := s.tasks ++ [{ conn, frame, quicPriority := quicPriority frame.groupId }]
    inFlight := pushHandle id (frame.groupId, s.tasks.length) s.inFlight
    links := Function.update s.links conn
      { s.links conn with
        sent := (s.links conn).sent ++ [frame]
        flight := (s.links conn).flight ++ [frame] }
    phase := .spawning frame rest peers }

/-- Every thirtieth frame the round trip times of the selected paths are reported. -/
def pollRtt (s : SendLoop Id) (peers : List (Id × Connection Id))
    (rtt : Connection Id → Option ℕ) : SendLoop Id :=
  let s := { s with rttPollCounter := s.rttPollCounter + 1, phase := .idle }
  if s.rttPollCounter % 30 = 0 then
    (peers.filterMap fun e => rtt e.2).foldl (fun s us => s.trySend (.rttSample us)) s
  else s

/-- Replace task `i` by what `f` makes of it, if it is at work. -/
def work (s : SendLoop Id) (i : ℕ) (f : SendTask Id → Option (SendTask Id)) :
    Option (SendLoop Id) :=
  s.tasks[i]?.bind fun t =>
    if t.polled && !t.ended then (f t).map fun t' => { s with tasks := s.tasks.set i t' } else none

/-- Whether the task of a frame has opened its stream. -/
def hasOpened [DecidableEq Id] (s : SendLoop Id) (conn : Connection Id) (g : ℕ) : Bool :=
  s.tasks.any fun t => t.opened && decide (t.conn = conn) && decide (t.frame.groupId = g)

variable [DecidableEq Id]

def step (s : SendLoop Id) : Action Id → Option (SendLoop Id)
  | .addPeer conn =>
    some { s with broadcaster := s.broadcaster.addPeer conn.remoteId conn }
  | .removePeer id => some { s with broadcaster := s.broadcaster.removePeer id }
  | .swapKeyframe =>
    some { s with broadcaster :=
      { s.broadcaster with forceKeyframe := s.broadcaster.forceKeyframe.map fun _ => false } }
  | .encode pkt =>
    if s.channelClosed then none
    else if s.channel.length < packetChannelCapacity then
      some { s with channel := s.channel ++ [pkt] }
    else some s
  | .closeChannel => some { s with channelClosed := true }
  | .takeEvent => some { s with bandwidth := s.bandwidth.map List.tail }
  | .cancel => some { s with cancelled := true }
  | .take =>
    match s.phase with
    | .idle => s.take
    | _ => none
  | .snapshot peers =>
    match s.phase with
    | .numbered frame =>
      -- The map gives its entries in any order.
      if peers.Perm s.broadcaster.peers then
        some { s.retain with
          recipients := s.recipients ++ [peers.map Prod.snd]
          phase := .spawning frame peers peers }
      else none
    | _ => none
  | .spawn =>
    match s.phase with
    | .spawning frame ((id, conn) :: rest) peers => some (s.spawn frame id conn rest peers)
    | _ => none
  | .pollRtt rtt =>
    match s.phase with
    | .spawning _ [] peers => some (s.pollRtt peers rtt)
    | _ => none
  | .stop =>
    match s.phase with
    | .idle =>
      if s.cancelled || (s.channelClosed && s.channel.isEmpty) then
        some { s.abortAll with phase := .stopped }
      else none
    | _ => none
  | .schedule i => do
    let t ← s.tasks[i]?
    if t.ended then none else some { s with tasks := s.tasks.set i { t with polled := true } }
  | .openStream i => s.work i fun t => some { t with opened := true }
  | .finish i durationNs =>
    s.tasks[i]?.bind fun t =>
      let sent := s.work i fun t =>
        if t.opened then some { t with polled := false, ended := true } else none
      sent.map (·.trySend (.sendComplete durationNs t.frame.object.payload.length))
  | .fail i => s.work i fun t => some { t with polled := false, ended := true }
  | .yield i => s.work i fun t => some { t with polled := false, ended := t.aborted }
  | .accept conn i n ending => do
    let f ← (s.links conn).flight[i]?
    let link ← (s.links conn).step (.accept i n ending)
    if s.hasOpened conn f.groupId then
      some { s with links := Function.update s.links conn link }
    else none
  | .receive conn a => do
    let link ← (s.links conn).step (.receive a)
    return { s with links := Function.update s.links conn link }

end SendLoop

end Meshconf.Broadcast
