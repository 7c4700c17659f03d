import Meshconf.Audio.Capture
import Meshconf.Broadcast.AudioPath

/-! # From the microphone to the encoder

The audio path is given chunks; here they come from the microphone. What a receiver's
codec is called for are then packets that the sender's codec made of whole chunks of the
samples of the microphone, in their order.
-/

namespace Meshconf.Broadcast

open Audio Pieces Transition
open Meshconf.Mesh (Connection)

variable {Id S : Type} {σ τ : Type*}

/-- The packets of a codec for chunks one after the other, and the state it is left in. -/
def packets (c : Codecs σ τ S) (chunks : List (List S)) : List (List UInt8) × τ :=
  chunks.foldl (fun r chunk =>
    (r.1 ++ (c.encodeFloat r.2 chunk).1.toList, (c.encodeFloat r.2 chunk).2)) ([], c.newEncoder)

theorem packets_snoc (c : Codecs σ τ S) (chunks : List (List S)) (chunk : List S) :
    packets c (chunks ++ [chunk]) =
      ((packets c chunks).1 ++ (c.encodeFloat (packets c chunks).2 chunk).1.toList,
        (c.encodeFloat (packets c chunks).2 chunk).2) := by
  simp [packets]

section Encoder

variable [DecidableEq Id] {c : Codecs σ τ S}

/-- A chunk is encoded; the packet is sent or dropped. -/
theorem encoded_of_capture {s s' : AudioPath Id σ τ} {samples : List S} {captured sending : ℕ}
    {accepts : Connection Id → Bool} (hs : s.step c (.capture samples captured sending accepts) =
      some s') : s'.encoder = (c.encodeFloat s.encoder samples).2 ∧
    ∃ sent, s'.encoded = s.encoded ++ sent ∧
      (sent.map Prod.snd).Sublist (c.encodeFloat s.encoder samples).1.toList := by
  simp only [AudioPath.step, AudioPath.runAudioEncoder] at hs
  split at hs
  · rename_i encoder hencode
    obtain rfl := Option.some.inj hs
    exact ⟨by rw [hencode], [], (List.append_nil _).symm, List.nil_sublist _⟩
  · rename_i packet encoder hencode
    rw [hencode]
    unfold AudioPath.sendAudioDatagramToAll at hs
    split_ifs at hs
    · obtain rfl := Option.some.inj hs
      exact ⟨rfl, [], (List.append_nil _).symm, List.nil_sublist _⟩
    · obtain rfl := Option.some.inj hs
      exact ⟨rfl, [], (List.append_nil _).symm, List.nil_sublist _⟩
    · obtain ⟨r, -, rfl⟩ := Option.map_eq_some_iff.mp hs
      exact ⟨rfl, [(captured, packet)], rfl, List.Sublist.refl _⟩

/-- Nothing else reaches the encoder. -/
theorem encoded_of_other {s s' : AudioPath Id σ τ} {a : AudioPath.Action Id S}
    (ha : ∀ samples captured sending accepts, a ≠ .capture samples captured sending accepts)
    (hs : s.step c a = some s') : s'.encoder = s.encoder ∧ s'.encoded = s.encoded := by
  cases a with
  | addPeer conn | removePeer id | recycle v =>
    obtain rfl := Option.some.inj hs
    exact ⟨rfl, rfl⟩
  | capture samples captured sending accepts => exact absurd rfl (ha _ _ _ _)
  | arrive conn i =>
    obtain ⟨data, -, hs⟩ := Option.bind_eq_some_iff.mp hs
    obtain ⟨e, -, rfl⟩ := Option.map_eq_some_iff.mp hs
    exact ⟨rfl, rfl⟩
  | ear conn a =>
    obtain ⟨e, -, rfl⟩ := Option.map_eq_some_iff.mp hs
    exact ⟨rfl, rfl⟩

end Encoder

structure Voice (Id S : Type) (σ τ : Type*) where
  capture : Capture S := {}
  path : AudioPath Id σ τ

namespace Voice

inductive Action (Id S : Type)
  /-- A step of the engine. -/
  | capture (a : Capture.Action S)
  /-- The encoder receives a chunk, with the readings of the clock before and after. -/
  | encode (captured sending : ℕ) (accepts : Connection Id → Bool)
  | path (a : AudioPath.Action Id S)

def start (c : Codecs σ τ S) : Voice Id S σ τ where
  path := .start c

variable [DecidableEq Id] [Inhabited S]

/-- Only the encoder receives chunks, and it is given no others. -/
def step (c : Codecs σ τ S) (v : Voice Id S σ τ) : Action Id S → Option (Voice Id S σ τ)
  | .capture .receive => none
  | .capture a => (v.capture.step a).map fun capture => { v with capture }
  | .encode captured sending accepts =>
    v.capture.receive.bind fun r =>
      (v.path.step c (.capture r.1 captured sending accepts)).map fun path => ⟨r.2, path⟩
  | .path (.capture ..) => none
  | .path a => (v.path.step c a).map fun path => { v with path }

/-- The clocks of the audio path. -/
def Clocked (v : Voice Id S σ τ) : Action Id S → Prop
  | .capture _ => True
  | .encode captured sending accepts =>
    v.path.Clocked (S := S) (.capture [] captured sending accepts)
  | .path a => v.path.Clocked a

instance (v : Voice Id S σ τ) : (a : Action Id S) → Decidable (v.Clocked a)
  | .capture _ => .isTrue trivial
  | .encode captured sending accepts =>
    inferInstanceAs (Decidable (v.path.Clocked (S := S) (.capture [] captured sending accepts)))
  | .path a => inferInstanceAs (Decidable (v.path.Clocked a))

/-- The part of the engine in a run. -/
def captureActions (as : List (Action Id S)) : List (Capture.Action S) :=
  as.filterMap fun
    | .capture a => some a
    | .encode .. => some .receive
    | .path _ => none

/-! ## The parts -/

variable {c : Codecs σ τ S} {v v' : Voice Id S σ τ}

/-- What a step is in the parts. -/
theorem step_cases {a : Action Id S} (hs : v.step c a = some v') :
    (∃ e, a = .capture e ∧ e ≠ .receive ∧ v.capture.step e = some v'.capture ∧
      v'.path = v.path) ∨
    (∃ samples captured sending accepts, a = .encode captured sending accepts ∧
      v.capture.receive = some (samples, v'.capture) ∧
      v.path.step c (.capture samples captured sending accepts) = some v'.path) ∨
    ∃ e, a = .path e ∧
      (∀ samples captured sending accepts, e ≠ .capture samples captured sending accepts) ∧
      v.path.step c e = some v'.path ∧ v'.capture = v.capture := by
  cases a with
  | capture e =>
    cases e with
    | receive => cases hs
    | tap _ _ | sendChunk _ | recycle _ _ | close =>
      dsimp only [step] at hs
      obtain ⟨capture, hcapture, rfl⟩ := Option.map_eq_some_iff.mp hs
      exact .inl ⟨_, rfl, nofun, hcapture, rfl⟩
  | encode captured sending accepts =>
    obtain ⟨⟨samples, capture⟩, hreceive, hs⟩ := Option.bind_eq_some_iff.mp hs
    obtain ⟨path, hpath, rfl⟩ := Option.map_eq_some_iff.mp hs
    exact .inr (.inl ⟨samples, captured, sending, accepts, rfl, hreceive, hpath⟩)
  | path e =>
    cases e with
    | capture _ _ _ _ => cases hs
    | addPeer _ | removePeer _ | recycle _ | arrive _ _ | ear _ _ =>
      dsimp only [step] at hs
      obtain ⟨path, hpath, rfl⟩ := Option.map_eq_some_iff.mp hs
      exact .inr (.inr ⟨_, rfl, nofun, hpath, rfl⟩)

/-- The encoder has encoded what it received, and has sent some of the packets. -/
structure Encodes (c : Codecs σ τ S) (v : Voice Id S σ τ) : Prop where
  encoder : v.path.encoder = (packets c v.capture.received).2
  encoded : (v.path.encoded.map Prod.snd).Sublist (packets c v.capture.received).1

/-- A run is a run of the engine, and the path keeps its invariant. -/
theorem parts_of_run {as : List (Action Id S)} (h : Run (step c) Clocked (start c) as v) :
    Run Capture.step Free {} (captureActions as) v.capture ∧ v.path.Carries ∧ Encodes c v := by
  induction h with
  | nil => exact ⟨.nil, .init c, rfl, List.nil_sublist _⟩
  | @snoc as t u a _ hclock hs ih =>
    obtain ⟨hcapture, hcarries, hencoder, hencoded⟩ := ih
    have hactions : captureActions (as ++ [a]) = captureActions as ++ captureActions [a] :=
      List.filterMap_append
    rw [hactions]
    rcases step_cases hs with ⟨e, rfl, he, hstep, hpath⟩ |
      ⟨samples, captured, sending, accepts, rfl, hreceive, hstep⟩ | ⟨e, rfl, he, hstep, hsame⟩
    · have hreceived := Capture.received_of_step he hstep
      refine ⟨.snoc hcapture trivial hstep, by rwa [hpath], ?_, ?_⟩
      · rw [hpath, hreceived, hencoder]
      · rwa [hpath, hreceived]
    · have hreceived := Capture.receive_eq hreceive
      obtain ⟨hnext, sent, hsent, hsub⟩ := encoded_of_capture hstep
      have hstep' : t.capture.step .receive = some u.capture := by
        rw [Capture.step, hreceive, Option.map_some]
      have hclock' : t.path.Clocked (.capture samples captured sending accepts) := hclock
      refine ⟨.snoc hcapture trivial hstep', hcarries.step hclock' hstep, ?_, ?_⟩
      · rw [hreceived, packets_snoc, hnext, hencoder]
      · rw [hreceived, packets_snoc, hsent, List.map_append, ← hencoder]
        exact hencoded.append hsub
    · obtain ⟨hnext, hsent⟩ := encoded_of_other he hstep
      have hnone : captureActions [Action.path e] = [] := rfl
      refine ⟨by rwa [hsame, hnone, List.append_nil], hcarries.step hclock hstep, ?_, ?_⟩
      · rw [hsame, hnext, hencoder]
      · rwa [hsame, hsent]

/--
What a receiver's codec is called for are packets that the sender's codec made, one after the
other, of chunks of 960 samples; all chunks of a thread are together what it has heard, those
apart that a call has yet to offer.
-/
theorem heard_of_microphone {as : List (Action Id S)} (h : Run (step c) Clocked (start c) as v)
    (conn : Connection Id) (thread : ℕ) :
    ((v.path.ears conn).heard.map Prod.snd).Sublist (packets c v.capture.received).1 ∧
      v.capture.received.Sublist (v.capture.offered.map Prod.snd) ∧
      v.capture.chunksOf thread ++ fullChunks chunkSize (v.capture.taps thread).accum =
        fullChunks chunkSize (Capture.heardBy thread (captureActions as)) := by
  obtain ⟨hcapture, hcarries, hencodes⟩ := parts_of_run h
  have hchunked := Capture.chunked_of_run hcapture
  have hheard := (hcarries.ears conn).heard_sublist hcarries.stamped
  refine ⟨(hheard.map Prod.snd).trans hencodes.encoded, ?_, (hchunked.cut thread).1⟩
  exact (List.sublist_append_left _ _).trans hchunked.delivered

/-- Codecs that keep two samples of a chunk. -/
def truncating : Codecs Unit Unit UInt8 :=
  ⟨fun encoder samples => (some (samples.take 2), encoder),
    fun decoder packet => (some packet, decoder), (), ()⟩

/-- A chunk that two calls complete goes to one peer; the second call has another one. -/
def spoken : List (Action ℕ UInt8) :=
  [.path (.addPeer ⟨0, 5⟩), .capture (.tap 0 (List.replicate 500 1)),
    .capture (.tap 0 (List.replicate 1500 2)), .capture (.sendChunk 0), .encode 100000 100010 fun _ => true,
    .path (.arrive ⟨0, 5⟩ 0), .path (.ear ⟨0, 5⟩ (.buffer 200000 0)),
    .path (.ear ⟨0, 5⟩ (.wake 270000)), .path (.ear ⟨0, 5⟩ .decode)]

theorem heard_of_microphone_spoken : ∃ v : Voice ℕ UInt8 Unit Unit,
    Run (step truncating) Clocked (start truncating) spoken v ∧
    (v.path.ears ⟨0, 5⟩).heard = [(100000, [1, 1])] ∧
    v.capture.chunksOf 0 ++ fullChunks chunkSize (v.capture.taps 0).accum =
      fullChunks chunkSize (Capture.heardBy 0 (captureActions spoken)) := by
  obtain ⟨v, hv, hheard⟩ := Option.map_eq_some_iff.mp
    (by decide +kernel : (exec (guarded (step truncating) Clocked) (start truncating) spoken).map
      (fun v => (v.path.ears ⟨0, 5⟩).heard) = some [(100000, [1, 1])])
  have hrun := run_of_guarded hv
  exact ⟨v, hrun, hheard, (heard_of_microphone hrun ⟨0, 5⟩ 0).2.2⟩

end Voice

end Meshconf.Broadcast
