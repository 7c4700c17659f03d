import Meshconf.AnnexB.Extract
import Meshconf.Bandwidth.Estimator
import Meshconf.Transition.Run

/-! # The encode loop

One iteration of the loop follows the configuration, takes a frame, resizes it if
need be, hands it to the compression session and passes on what the session's
callback delivers. Other tasks ask for keyframes through a flag at any time.
-/

namespace Meshconf.Video

open AnnexB Bandwidth

/-- A captured frame. -/
structure Frame where
  width : ℕ
  height : ℕ
  captureTimestampUs : ℕ
  deriving DecidableEq, Repr

structure EncodedOutput where
  data : List UInt8
  isKeyframe : Bool
  deriving DecidableEq, Repr

/-- The attachment dictionaries of a sample, null or with the value of their `NotSync` key. -/
abbrev Attachments := Option (List (Option (Option Bool)))

/-- A sample is a keyframe unless its first dictionary says otherwise. -/
def isSampleKeyframe : Attachments → Bool
  | some (some (some notSync) :: _) => !notSync
  | _ => true

/-- What the callback makes of a compressed sample. -/
def compressionOutputCallback (status : ℤ) (sample : Option (SampleBuffer × Attachments)) :
    Option EncodedOutput :=
  match sample with
  | some (sb, attachments) =>
    if status ≠ 0 then none
    else
      let isKeyframe := isSampleKeyframe attachments
      match extractAnnexB sb isKeyframe with
      | .ok data => some { data, isKeyframe }
      | .error _ => none
  | none => none

namespace EncodeLoop

/-- A packet on its way to the send loop. -/
structure Packet where
  data : List UInt8
  captureTimestampUs : ℕ
  isKeyframe : Bool
  deriving DecidableEq, Repr

def packetCapacity : ℕ := 4

/-- Where the loop is; `forced` says that it has found a request for a keyframe and cleared it. -/
inductive Phase
  | top
  | receiving
  | captured (frame : Frame)
  | prepared (frame : Frame)
  | swapped (frame : Frame) (forced : Bool)
  | encoded (frame : Frame) (forced : Bool)
  | collecting (frame : Frame) (forced : Bool)
  | stopped
  deriving DecidableEq, Repr

inductive Resize | done | failed | noPool
  deriving DecidableEq, Repr

end EncodeLoop

open EncodeLoop

structure EncodeLoop where
  config : Option EncoderConfig
  cancelled : Bool := false
  forceKeyframe : Bool := false
  encWidth : ℕ
  encHeight : ℕ
  encFps : ℕ
  encBitrate : ℕ
  appliedBitrate : ℕ
  frameCount : ℕ := 0
  /-- Frames handed to the session whose callback is still to come. -/
  inFlight : ℕ := 0
  /-- The callback's channel, which holds one output. -/
  output : Option EncodedOutput := none
  channel : List Packet := []
  receiverOpen : Bool := true
  phase : Phase := .top
  /-- Whether this iteration has cleared a request, and whether the channel took a keyframe in it. -/
  taken : Bool := false
  accepted : Bool := false
  /-- Whether a keyframe has been asked for since the channel last took one. -/
  requested : Bool := false
  deriving DecidableEq, Repr

namespace EncodeLoop

inductive Action
  -- Other tasks.
  | addPeer
  | startSending
  | publish (config : EncoderConfig)
  | cancel
  | take
  | closeReceiver
  -- The compression session.
  | callback (status : ℤ) (sample : Option (SampleBuffer × Attachments))
  -- The loop, with the outcomes of what it calls.
  | configure (created : Bool)
  | receive (frame : Option Frame)
  | prepare (outcome : Resize)
  | swap
  | encode (status : ℤ)
  | complete (status : ℤ)
  | collect

/-- The loop when its first session has been created. -/
def start (config : Option EncoderConfig) : EncodeLoop :=
  let cfg := config.getD .new
  { config
    encWidth := cfg.targetWidth
    encHeight := cfg.targetHeight
    encFps := cfg.targetFps
    encBitrate := cfg.targetBitrate
    appliedBitrate := cfg.targetBitrate }

def requestKeyframe (s : EncodeLoop) : EncodeLoop :=
  { s with forceKeyframe := true, requested := true }

/-- Whether a changed preset asks for a new session. -/
def needsSession (s : EncodeLoop) (cfg : EncoderConfig) : Bool :=
  cfg.qualityChanged &&
    decide (cfg.targetWidth ≠ s.encWidth ∨ cfg.targetHeight ≠ s.encHeight ∨ cfg.targetFps ≠ s.encFps)

def recreateSession (s : EncodeLoop) (cfg : EncoderConfig) : EncodeLoop :=
  { s.requestKeyframe with
    encWidth := cfg.targetWidth
    encHeight := cfg.targetHeight
    encFps := cfg.targetFps
    encBitrate := cfg.targetBitrate
    appliedBitrate := cfg.targetBitrate
    frameCount := 0 }

/-- The top of an iteration, up to the wait for a frame. -/
def configure (s : EncodeLoop) (created : Bool) : EncodeLoop :=
  let s : EncodeLoop := { s with taken := false, accepted := false }
  if s.cancelled then { s with phase := .stopped }
  else
    match s.config with
    | none => { s with phase := .receiving }
    | some cfg =>
      let recreated := s.needsSession cfg
      if recreated && !created then { s with phase := .stopped }
      else
        let s := if recreated then s.recreateSession cfg else s
        { s with
          config := some { cfg with qualityChanged := false }
          appliedBitrate := cfg.targetBitrate
          phase := .receiving }

/-- Get the pixel buffer: the camera's own, or a scaled one. -/
def prepare (s : EncodeLoop) (frame : Frame) (outcome : Resize) : EncodeLoop :=
  if frame.width = s.encWidth ∧ frame.height = s.encHeight then { s with phase := .prepared frame }
  else
    match outcome with
    | .done => { s with phase := .prepared frame }
    | .failed => { s with phase := .top }
    | .noPool => { s with phase := .stopped }

/-- Take the callback's output, and offer it to the channel. -/
def collect (s : EncodeLoop) (frame : Frame) : EncodeLoop :=
  match s.output with
  | none => { s with phase := .top }
  | some output =>
    let s : EncodeLoop := { s with output := none }
    if !s.receiverOpen then { s with phase := .stopped }
    else if s.channel.length < packetCapacity then
      let packet : Packet := ⟨output.data, frame.captureTimestampUs, output.isKeyframe⟩
      { s with
        channel := s.channel ++ [packet]
        accepted := output.isKeyframe
        requested := s.requested && !output.isKeyframe
        phase := .top }
    else { s with phase := .top }

def step (s : EncodeLoop) : Action → Option EncodeLoop
  | .addPeer => some s.requestKeyframe
  | .startSending => some s.requestKeyframe
  | .publish config => some { s with config := s.config.map fun _ => config }
  | .cancel => some { s with cancelled := true }
  | .take => some { s with channel := s.channel.tail }
  | .closeReceiver => some { s with receiverOpen := false }
  | .callback status sample =>
    match s.inFlight, s.output with
    | 0, _ => none
    | n + 1, none => some { s with inFlight := n, output := compressionOutputCallback status sample }
    | n + 1, some _ => some { s with inFlight := n }
  | .configure created =>
    match s.phase with
    | .top => some (s.configure created)
    | _ => none
  | .receive frame =>
    match s.phase, frame with
    | .receiving, some frame =>
      some { s with frameCount := s.frameCount + 1, phase := .captured frame }
    | .receiving, none => some { s with phase := .stopped }
    | _, _ => none
  | .prepare outcome =>
    match s.phase with
    | .captured frame => some (s.prepare frame outcome)
    | _ => none
  | .swap =>
    match s.phase with
    | .prepared frame =>
      some { s with
        forceKeyframe := false
        taken := s.forceKeyframe
        phase := .swapped frame s.forceKeyframe }
    | _ => none
  | .encode status =>
    match s.phase with
    | .swapped frame forced =>
      if status ≠ 0 then some { s with phase := .top }
      else some { s with inFlight := s.inFlight + 1, phase := .encoded frame forced }
    | _ => none
  | .complete status =>
    match s.phase with
    | .encoded frame forced =>
      -- A successful call returns behind the callbacks of all frames.
      if status = 0 ∧ s.inFlight ≠ 0 then none else some { s with phase := .collecting frame forced }
    | _ => none
  | .collect =>
    match s.phase with
    | .collecting frame _ => some (s.collect frame)
    | _ => none

end EncodeLoop

end Meshconf.Video
