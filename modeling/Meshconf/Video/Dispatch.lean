import Meshconf.Protocol.RoundTrip
import Meshconf.Transition.Pool
import Meshconf.Video.ReferenceChain

/-! # The video receive path of a connection

Every frame has a stream of its own, and every accepted stream a task that reads it:
header, check against the newest keyframe, object, marker, queue. The tasks and the
decoder loop take turns in any order.
-/

namespace Meshconf.Video

open Bytes Protocol

/-- A frame as its sender writes it. -/
structure SentFrame where
  header : SubgroupHeader
  object : ObjectData
  header_fits : header.Fits
  object_bounded : object.Bounded

namespace SentFrame

def groupId (f : SentFrame) : ℕ := f.header.groupId

def bytes (f : SentFrame) : List UInt8 := writeSubgroupHeader f.header ++ writeObject f.object

end SentFrame

def mediaObject (h : SubgroupHeader) (o : ObjectData) : MediaObject where
  groupId := h.groupId
  subgroupId := h.subgroupId
  objectId := o.objectId
  captureTimestampUs := o.captureTimestampUs
  codec := o.codec
  payload := o.payload

def SentFrame.mediaObject (f : SentFrame) : MediaObject := Video.mediaObject f.header f.object

/-- How far the task of a stream has come. -/
inductive Progress
  | spawned (stream : Stream)
  | accepted (stream : Stream)
  | header (h : SubgroupHeader) (stream : Stream)
  | checked (h : SubgroupHeader) (stream : Stream)
  | read (obj : MediaObject)
  | marked (obj : MediaObject)

/-- A task, with the frame whose stream it reads. -/
structure Task where
  frame : SentFrame
  progress : Progress

/-- Capacity of the channel from the dispatcher to the decoder. -/
def videoChannelCapacity : ℕ := 8

structure Receiver where
  tasks : List Task := []
  latestKeyframe : ℕ := 0
  received : ℕ := 0
  /-- The share of the dispatcher in the drop counter; the decoder counts its own. -/
  drops : ℕ := 0
  queue : List MediaObject := []
  /-- All that has ever entered the queue. -/
  enqueued : List MediaObject := []
  decoder : DecoderRun := {}
  cancelled : Bool := false
  decoderDone : Bool := false

namespace Receiver

def hasRoom (r : Receiver) : Bool := !r.decoderDone && decide (r.queue.length < videoChannelCapacity)

def trySend (r : Receiver) (obj : MediaObject) : Receiver :=
  if r.hasRoom then { r with queue := r.queue ++ [obj], enqueued := r.enqueued ++ [obj] }
  else { r with drops := r.drops + 1 }

/-- The next operation of a task, and what is left of the task. -/
def handleVideoStream (r : Receiver) : Progress → Receiver × Option Progress
  | .spawned stream => (r, if r.cancelled then none else some (.accepted stream))
  | .accepted stream =>
    match readSubgroupHeader.exec stream with
    | (.ok h, stream) => (r, some (.header h stream))
    | (.error _, _) => (r, none)
  | .header h stream =>
    -- A frame of an older GOP: the stream is stopped.
    if h.groupId < r.latestKeyframe then ({ r with drops := r.drops + 1 }, none)
    else (r, some (.checked h stream))
  | .checked h stream =>
    match readObject.exec stream with
    | (.ok (some o), _) => (r, some (.read (mediaObject h o)))
    | (.ok none, _) => (r, none)
    | (.error _, _) => (r, none)
  | .read obj =>
    if obj.isKeyframe then
      ({ r with latestKeyframe := max r.latestKeyframe obj.groupId }, some (.marked obj))
    else (r, some (.marked obj))
  | .marked obj => ({ r with received := r.received + 1 }.trySend obj, none)

inductive Action
  | task (i : ℕ)
  | decode (o : Outcomes)
  | cancel
  | stopDecoder

/-- Let task `t` at position `i` do its next operation. -/
def runTask (r : Receiver) (i : ℕ) (t : Task) : Receiver :=
  match r.handleVideoStream t.progress with
  | (u, progress) =>
    { u with tasks := Pool.update r.tasks i (progress.map fun p => ⟨t.frame, p⟩) }

def step (r : Receiver) : Action → Option Receiver
  | .task i => r.tasks[i]?.map (r.runTask i)
  | .decode o =>
    match r.decoderDone, r.queue with
    | false, obj :: queue => some { r with queue, decoder := r.decoder.receive obj o }
    | _, _ => none
  | .cancel => some { r with cancelled := true }
  | .stopDecoder => if r.cancelled then some { r with decoderDone := true } else none

end Receiver

/-- A sender, the streams that are under way, and the receiver. -/
structure Link where
  sent : List SentFrame := []
  flight : List SentFrame := []
  receiver : Receiver := {}

namespace Link

inductive Action
  | send (f : SentFrame)
  | accept (i n : ℕ) (ending : Ending)
  | receive (a : Receiver.Action)

/--
Groups increase from frame to frame. A stream is accepted at any time or never, and gives its first
`n` bytes before it ends.
-/
def step (l : Link) : Action → Option Link
  | .send f =>
    if ∀ f' ∈ l.sent, f'.groupId < f.groupId then
      some { l with sent := l.sent ++ [f], flight := l.flight ++ [f] }
    else none
  | .accept i n ending => do
    let f ← l.flight[i]?
    let task : Task := ⟨f, .spawned { input := f.bytes.take n, ending }⟩
    return { l with
      flight := Pool.update l.flight i none
      receiver := { l.receiver with tasks := l.receiver.tasks ++ [task] } }
  | .receive a => do
    let receiver ← l.receiver.step a
    return { l with receiver }

end Link

/-! ## One operation of a task -/

/-- What a task has read is what its frame holds. -/
def Task.Faithful (t : Task) : Prop :=
  match t.progress with
  | .spawned s => s.input <+: t.frame.bytes
  | .accepted s => s.input <+: t.frame.bytes
  | .header h s => h = t.frame.header ∧ s.input <+: writeObject t.frame.object
  | .checked h s => h = t.frame.header ∧ s.input <+: writeObject t.frame.object
  | .read obj => obj = t.frame.mediaObject
  | .marked obj => obj = t.frame.mediaObject

/-- The operations of task `t` on receiver `r`. -/
inductive Handled (r : Receiver) (t : Task) : Receiver × Option Progress → Prop where
  | quiet {latest received drops : ℕ} {p : Option Progress} :
      (∀ q ∈ p, Task.Faithful ⟨t.frame, q⟩) →
      Handled r t ({ r with latestKeyframe := latest, received := received, drops := drops }, p)
  | enqueue {received : ℕ} : t.progress = .marked t.frame.mediaObject → r.hasRoom →
      Handled r t ({ r with
        received := received
        queue := r.queue ++ [t.frame.mediaObject]
        enqueued := r.enqueued ++ [t.frame.mediaObject] }, none)

theorem Handled.same {r : Receiver} {t : Task} {p : Option Progress}
    (h : ∀ q ∈ p, Task.Faithful ⟨t.frame, q⟩) : Handled r t (r, p) := .quiet h

theorem Handled.gone {r : Receiver} {t : Task} : Handled r t (r, none) := .same (by simp)

theorem handled_handleVideoStream {r : Receiver} {t : Task} (ht : t.Faithful) :
    Handled r t (r.handleVideoStream t.progress) := by
  rcases t with ⟨f, progress⟩
  cases progress with
  | spawned s =>
    apply Handled.same
    intro q hq
    cases hc : r.cancelled with
    | true => simp [hc] at hq
    | false =>
      obtain rfl : .accepted s = q := by simpa [hc] using hq
      exact ht
  | accepted s =>
    rcases hr : readSubgroupHeader.exec s with ⟨e | h, s'⟩
    · simp only [Receiver.handleVideoStream, hr]
      exact .gone
    · simp only [Receiver.handleVideoStream, hr]
      apply Handled.same
      rintro q ⟨⟩
      exact readSubgroupHeader_eq f.header_fits ht hr
  | header h s =>
    unfold Receiver.handleVideoStream
    dsimp only
    split
    · exact .quiet (by simp)
    · apply Handled.same
      rintro q ⟨⟩
      exact ht
  | checked h s =>
    have ht : h = f.header ∧ s.input <+: writeObject f.object := ht
    obtain ⟨rfl, hs⟩ := ht
    rcases hr : readObject.exec s with ⟨e | _ | o, s'⟩
    · simp only [Receiver.handleVideoStream, hr]
      exact .gone
    · simp only [Receiver.handleVideoStream, hr]
      exact .gone
    · simp only [Receiver.handleVideoStream, hr]
      apply Handled.same
      rintro q ⟨⟩
      exact congrArg (mediaObject f.header) (readObject_eq f.object_bounded hs hr)
  | read obj =>
    unfold Receiver.handleVideoStream
    dsimp only
    split
    · apply Handled.quiet
      rintro q ⟨⟩
      exact ht
    · apply Handled.same
      rintro q ⟨⟩
      exact ht
  | marked obj =>
    obtain rfl : obj = f.mediaObject := ht
    unfold Receiver.handleVideoStream Receiver.trySend
    dsimp only
    split
    · exact .enqueue rfl (by assumption)
    · exact .quiet (by simp)

end Meshconf.Video
