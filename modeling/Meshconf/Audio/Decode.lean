import Meshconf.Jitter.Buffer

/-! # The audio decoder task

The task decodes what the jitter buffer sends it and offers the samples to the mixer.
A sentinel is decoded as a lost packet. The first packet that the codec rejects ends
the task, and nothing behind it is played.
-/

namespace Meshconf.Audio

open Jitter Protocol

variable {σ S : Type*}

/-- A call of the codec: its samples, or none if it rejects the packet, and its next state. -/
abbrev DecodeFloat (σ S : Type*) := σ → List UInt8 → Option (List S) × σ

/-- Why the task ended, unless it failed. -/
inductive Stop | cancelled | closed
  deriving DecidableEq, Repr

/-- The bytes that the codec is called with; for a sentinel there are none. -/
def codecInput (obj : MediaObject) : List UInt8 :=
  if obj.captureTimestampUs = plcSentinelTimestamp then [] else obj.payload

/--
The chunks offered to the mixer for the objects that reach the task before it is told to stop, and
how it ends; `none` if it fails. The task has its decoder: where none can be created it ends before
it takes an object, which is left out.
-/
def runAudioDecoder (decodeFloat : DecodeFloat σ S) (stop : Stop) :
    σ → List MediaObject → List (List S) × Option Stop
  | _, [] => ([], some stop)
  | decoder, obj :: rest =>
    match decodeFloat decoder (codecInput obj) with
    | (some samples, next) =>
      (samples :: (runAudioDecoder decodeFloat stop next rest).1,
        (runAudioDecoder decodeFloat stop next rest).2)
    | (none, _) => ([], none)

/-- The chunks of the objects that the codec accepts. -/
def acceptedChunks (decodeFloat : DecodeFloat σ S) : σ → List MediaObject → List (List S)
  | _, [] => []
  | decoder, obj :: rest =>
    (decodeFloat decoder (codecInput obj)).1.toList ++
      acceptedChunks decodeFloat (decodeFloat decoder (codecInput obj)).2 rest

/-- No object is rejected. -/
def AllAccepted (decodeFloat : DecodeFloat σ S) : σ → List MediaObject → Prop
  | _, [] => True
  | decoder, obj :: rest => (decodeFloat decoder (codecInput obj)).1 ≠ none ∧
      AllAccepted decodeFloat (decodeFloat decoder (codecInput obj)).2 rest

/-- All that the codec accepts is offered, in order, and the task goes on until it is stopped. -/
def KeepsPlaying (decodeFloat : DecodeFloat σ S) (stop : Stop) (decoder : σ)
    (objs : List MediaObject) : Prop :=
  runAudioDecoder decodeFloat stop decoder objs =
    (acceptedChunks decodeFloat decoder objs, some stop)

variable {decodeFloat : DecodeFloat σ S} {stop : Stop} {objs : List MediaObject}

/-- The task fails as soon as an object is rejected. -/
theorem runAudioDecoder_snd (decoder : σ) :
    (runAudioDecoder decodeFloat stop decoder objs).2 = some stop ↔
      AllAccepted decodeFloat decoder objs := by
  induction objs generalizing decoder with
  | nil => exact iff_of_true rfl trivial
  | cons obj rest ih =>
    unfold runAudioDecoder AllAccepted
    rcases h : decodeFloat decoder (codecInput obj) with ⟨_ | samples, next⟩
    · simp
    · simpa using ih next

theorem runAudioDecoder_fst {decoder : σ} (h : AllAccepted decodeFloat decoder objs) :
    (runAudioDecoder decodeFloat stop decoder objs).1 =
      acceptedChunks decodeFloat decoder objs := by
  induction objs generalizing decoder with
  | nil => rfl
  | cons obj rest ih =>
    obtain ⟨hobj, hrest⟩ := h
    unfold runAudioDecoder acceptedChunks
    rcases hd : decodeFloat decoder (codecInput obj) with ⟨_ | samples, next⟩
    · rw [hd] at hobj
      exact absurd rfl hobj
    · rw [hd] at hrest
      exact congrArg (samples :: ·) (ih hrest)

/-- The task survives exactly the sequences in which nothing is rejected. -/
theorem keepsPlaying_iff (decodeFloat : DecodeFloat σ S) (stop : Stop) (decoder : σ)
    (objs : List MediaObject) :
    KeepsPlaying decodeFloat stop decoder objs ↔ AllAccepted decodeFloat decoder objs := by
  constructor
  · intro h
    exact (runAudioDecoder_snd decoder).mp (congrArg Prod.snd h)
  · intro h
    exact Prod.ext (runAudioDecoder_fst h) ((runAudioDecoder_snd decoder).mpr h)

/-- A codec without a state that rejects the packets `reject` says. -/
def rejecting (reject : List UInt8 → Bool) : DecodeFloat Unit UInt8 := fun decoder packet =>
  (if reject packet then none else some packet, decoder)

def audioPacket (ts : ℕ) (payload : List UInt8) : MediaObject :=
  { plcSentinel with captureTimestampUs := ts, payload }

/-- Between two good packets one that the codec rejects. -/
theorem not_keepsPlaying :
    ¬ ∀ (reject : List UInt8 → Bool) (objs : List MediaObject), reject [] = false →
      KeepsPlaying (rejecting reject) .closed () objs := by
  intro h
  have hrun := h (· == [0])
    [audioPacket 20000 [1], audioPacket 40000 [0], audioPacket 60000 [2]] rfl
  exact absurd hrun (by unfold KeepsPlaying; decide)

end Meshconf.Audio
