import Mathlib.Data.List.Sort
import Meshconf.Audio.Decode
import Meshconf.Broadcast.SendLoop
import Meshconf.Jitter.Accounting
import Meshconf.Jitter.Order
import Meshconf.Protocol.Datagram

/-! # Audio from the microphone to the ear

The encoder sends every packet in a datagram to all peers. A network loses, repeats and
reorders datagrams; behind it stand the dispatcher, the jitter buffer and the codec of
the receiver, with a channel between each two. Apart from concealment, a receiver's codec
is given a subsequence of what the sender's codec has made.
-/

namespace Meshconf.Broadcast

open Audio Buffers Bytes Jitter Protocol Transition
open Meshconf.Mesh (Connection)

variable {Id : Type} {σ τ S : Type*}

/-- Frames that are older than this are not sent. -/
def maxSendAgeAudioUs : ℕ := 60000

/-- Capacity of the channels before and behind the jitter buffer. -/
def audioChannelCapacity : ℕ := 20

/-- Offer objects to a channel, which drops what does not fit. -/
def trySendAll (channel : List MediaObject) : List MediaObject → List MediaObject
  | [] => channel
  | obj :: objs =>
    trySendAll (if channel.length < audioChannelCapacity then channel ++ [obj] else channel) objs

/-- The receiver of a connection. -/
structure Ear (σ : Type*) where
  audioPool : BufPool UInt8 := {}
  toJitter : List MediaObject := []
  jitter : JitterBuffer := .new audioConfig true true none
  toDecoder : List MediaObject := []
  decoder : σ
  /-- What the codec has been called for. -/
  decoded : List MediaObject := []
  failed : Bool := false

namespace Ear

inductive Action
  /-- The jitter buffer receives, or its sleep ends. -/
  | buffer (now : ℕ) (smoothed : ℤ)
  | wake (now : ℕ)
  | decode
  /-- The last handle to a payload is dropped. -/
  | recycle (v : Buf UInt8)

/-- The dispatcher reads a datagram. -/
def readDatagram (e : Ear σ) (data : List UInt8) : Option (Ear σ) :=
  (decodeAudioDatagram data e.audioPool).map fun
    | .ok (obj, _, pool) => { e with audioPool := pool, toJitter := trySendAll e.toJitter [obj] }
    | .error _ => e

/-- What the jitter buffer offers in a step goes into the channel behind it. -/
def advance (e : Ear σ) (jitter : JitterBuffer) : Ear σ :=
  { e with jitter, toDecoder := trySendAll e.toDecoder (jitter.out.drop e.jitter.out.length) }

/-- One call of the codec; the task ends when the packet is rejected. -/
def decode (decodeFloat : DecodeFloat σ S) (e : Ear σ) : Option (Ear σ) :=
  match e.failed, e.toDecoder with
  | false, obj :: toDecoder =>
    some { e with
      toDecoder
      decoder := (decodeFloat e.decoder (codecInput obj)).2
      decoded := e.decoded ++ [obj]
      failed := (decodeFloat e.decoder (codecInput obj)).1.isNone }
  | _, _ => none

def step (decodeFloat : DecodeFloat σ S) (e : Ear σ) : Action → Option (Ear σ)
  | .buffer now smoothed =>
    match e.toJitter with
    | [] => none
    | obj :: toJitter =>
      (e.jitter.step (.arrive obj now smoothed)).map fun jitter =>
        { e with toJitter }.advance jitter
  | .wake now => (e.jitter.step (.wake now)).map e.advance
  | .decode => e.decode decodeFloat
  | .recycle v => some { e with audioPool := e.audioPool.push v.clear }

end Ear

/-- A call of the sender's codec: the packet, or none if it fails, and its next state. -/
abbrev EncodeFloat (τ S : Type*) := τ → List S → Option (List UInt8) × τ

/-- The codecs of both ends. -/
structure Codecs (σ τ S : Type*) where
  encodeFloat : EncodeFloat τ S
  decodeFloat : DecodeFloat σ S
  newEncoder : τ
  newDecoder : σ

structure AudioPath (Id : Type) (σ τ : Type*) where
  broadcaster : Broadcaster Id := .new
  encoder : τ
  datagramPool : BufPool UInt8 := {}
  /-- The packets sent so far, with their timestamps. -/
  encoded : List (ℕ × List UInt8) := []
  /-- The datagrams that the connections have taken. -/
  wire : Connection Id → List (List UInt8) := fun _ => []
  ears : Connection Id → Ear σ

namespace AudioPath

def start (c : Codecs σ τ S) : AudioPath Id σ τ where
  encoder := c.newEncoder
  ears _ := { decoder := c.newDecoder }

inductive Action (Id : Type) (S : Type*)
  | addPeer (conn : Connection Id)
  | removePeer (id : Id)
  /-- A chunk is encoded and sent, with the readings of the clock before and after. -/
  | capture (samples : List S) (captured sending : ℕ) (accepts : Connection Id → Bool)
  | recycle (v : Buf UInt8)
  | arrive (conn : Connection Id) (i : ℕ)
  | ear (conn : Connection Id) (a : Ear.Action)

/-- Send to all peers what is not too old. -/
def sendAudioDatagramToAll (s : AudioPath Id σ τ) (captureTimestampUs now : ℕ)
    (payload : List UInt8) (accepts : Connection Id → Bool) [DecidableEq Id] :
    Option (AudioPath Id σ τ) :=
  if 0 < captureTimestampUs ∧ maxSendAgeAudioUs < now - captureTimestampUs then some s
  else
    (encodeAudioDatagram captureTimestampUs payload s.datagramPool).map fun r =>
      { s with
        datagramPool := r.2
        encoded := s.encoded ++ [(captureTimestampUs, payload)]
        wire := fun conn =>
          if (conn.remoteId, conn) ∈ s.broadcaster.peers ∧ accepts conn then
            s.wire conn ++ [r.1.data.elems]
          else s.wire conn }

variable [DecidableEq Id]

/-- One round of the audio encoder. -/
def runAudioEncoder (c : Codecs σ τ S) (s : AudioPath Id σ τ) (samples : List S)
    (captured sending : ℕ) (accepts : Connection Id → Bool) : Option (AudioPath Id σ τ) :=
  match c.encodeFloat s.encoder samples with
  | (none, encoder) => some { s with encoder }
  | (some packet, encoder) =>
    let s := { s with encoder }
    if s.broadcaster.peerCount = 0 then some s
    else s.sendAudioDatagramToAll captured sending packet accepts

def step (c : Codecs σ τ S) (s : AudioPath Id σ τ) : Action Id S → Option (AudioPath Id σ τ)
  | .addPeer conn =>
    some { s with broadcaster := s.broadcaster.addPeer conn.remoteId conn }
  | .removePeer id => some { s with broadcaster := s.broadcaster.removePeer id }
  | .capture samples captured sending accepts =>
    s.runAudioEncoder c samples captured sending accepts
  | .recycle v => some { s with datagramPool := s.datagramPool.push v.clear }
  | .arrive conn i =>
    (s.wire conn)[i]?.bind fun data =>
      ((s.ears conn).readDatagram data).map fun e =>
        { s with ears := Function.update s.ears conn e }
  | .ear conn a =>
    ((s.ears conn).step c.decodeFloat a).map fun e =>
      { s with ears := Function.update s.ears conn e }

/--
Readings of the clocks: the sender's increases from frame to frame, and the receivers' reach back
over the delays of the buffer.
-/
def Clocked (s : AudioPath Id σ τ) : Action Id S → Prop
  | .capture _ captured _ _ =>
    0 < captured ∧ captured < 2 ^ 62 ∧ ∀ e ∈ s.encoded, e.1 < captured
  | .ear _ (.buffer now _) => frameUs + audioConfig.maxLateUs ≤ now
  | .ear _ (.wake now) => frameUs + audioConfig.maxLateUs ≤ now
  | _ => True

instance (s : AudioPath Id σ τ) : (a : Action Id S) → Decidable (s.Clocked a)
  | .capture _ captured _ _ => inferInstanceAs
      (Decidable (0 < captured ∧ captured < 2 ^ 62 ∧ ∀ e ∈ s.encoded, e.1 < captured))
  | .ear _ (.buffer now _) => inferInstanceAs (Decidable (frameUs + audioConfig.maxLateUs ≤ now))
  | .ear _ (.wake now) => inferInstanceAs (Decidable (frameUs + audioConfig.maxLateUs ≤ now))
  | .addPeer _ | .removePeer _ | .recycle _ | .arrive _ _ => .isTrue trivial
  | .ear _ .decode | .ear _ (.recycle _) => .isTrue trivial

end AudioPath

/-! ## The receiver -/

/-- What a receiver makes of a packet. -/
def audioObject (p : ℕ × List UInt8) : MediaObject := ⟨0, 0, 0, p.1, none, p.2⟩

/-- A channel takes some of what it is offered, in order. -/
theorem trySendAll_eq (objs channel : List MediaObject) :
    ∃ taken, taken.Sublist objs ∧ trySendAll channel objs = channel ++ taken := by
  induction objs generalizing channel with
  | nil => exact ⟨[], List.Sublist.refl [], by simp [trySendAll]⟩
  | cons obj objs ih =>
    unfold trySendAll
    split_ifs
    · obtain ⟨taken, hsub, heq⟩ := ih (channel ++ [obj])
      exact ⟨obj :: taken, hsub.cons_cons obj, by rw [heq, List.append_assoc]; rfl⟩
    · obtain ⟨taken, hsub, heq⟩ := ih channel
      exact ⟨taken, hsub.cons obj, heq⟩

/-- A step of the buffer only adds to what was offered, and records what arrived. -/
theorem grows_of_step {b b' : JitterBuffer} {a : JitterBuffer.Action} (h : b.step a = some b') :
    b'.config = b.config ∧ b.out <+: b'.out ∧
      ∀ obj ∈ b'.arrived, obj ∈ b.arrived ∨ ∃ now smoothed, a = .arrive obj now smoothed := by
  rw [← Arithmetic.checked_step] at h
  exact (Arithmetic.stepped_of_step h).grows

/-- The timestamps of the packets sent are proper and increase. -/
structure Stamped (encoded : List (ℕ × List UInt8)) : Prop where
  increasing : encoded.Pairwise (·.1 < ·.1)
  proper : ∀ p ∈ encoded, 0 < p.1 ∧ p.1 < 2 ^ 62

theorem Stamped.snoc {encoded : List (ℕ × List UInt8)} (h : Stamped encoded) {ts : ℕ}
    (hpos : 0 < ts) (hlt : ts < 2 ^ 62) (hlast : ∀ p ∈ encoded, p.1 < ts) (payload : List UInt8) :
    Stamped (encoded ++ [(ts, payload)]) := by
  constructor
  · rw [List.pairwise_append]
    refine ⟨h.increasing, List.pairwise_singleton _ _, fun p hp q hq => ?_⟩
    obtain rfl := List.mem_singleton.mp hq
    exact hlast p hp
  · intro p hp
    rcases List.mem_append.mp hp with hp | hp
    · exact h.proper p hp
    · obtain rfl := List.mem_singleton.mp hp
      exact ⟨hpos, hlt⟩

namespace Ear

/-- The invariant of a receiver. -/
structure Hears (encoded : List (ℕ × List UInt8)) (e : Ear σ) : Prop where
  clean : e.audioPool.Clean
  queued : ∀ obj ∈ e.toJitter, ∃ p ∈ encoded, obj = audioObject p
  arrived : ∀ obj ∈ e.jitter.arrived, ∃ p ∈ encoded, obj = audioObject p
  config : e.jitter.config = audioConfig
  order : e.jitter.Inv
  given : (e.decoded ++ e.toDecoder).Sublist e.jitter.out

variable {encoded encoded' : List (ℕ × List UInt8)} {e e' : Ear σ}

theorem Hears.init (decoder : σ) : Hears [] ({ decoder } : Ear σ) where
  clean := by simp [BufPool.Clean]
  queued := by simp
  arrived := by simp [JitterBuffer.new]
  config := rfl
  order := .init audioConfig true true none
  given := List.Sublist.refl []

theorem Hears.mono (h : Hears encoded e) (hsub : ∀ p ∈ encoded, p ∈ encoded') :
    Hears encoded' e where
  clean := h.clean
  queued obj hobj := (h.queued obj hobj).imp fun p hp => ⟨hsub p hp.1, hp.2⟩
  arrived obj hobj := (h.arrived obj hobj).imp fun p hp => ⟨hsub p hp.1, hp.2⟩
  config := h.config
  order := h.order
  given := h.given

/-- The datagram of a packet is read as that packet. -/
theorem Hears.readDatagram (h : Hears encoded e) {p : ℕ × List UInt8} (hp : p ∈ encoded)
    (hlt : p.1 < 2 ^ 62) (hs : e.readDatagram (encodeVarint p.1 ++ p.2) = some e') :
    Hears encoded e' := by
  obtain ⟨f, -, hdecode⟩ := decodeAudioDatagram_ok h.clean
    (decodeVarintFromSlice_append (isVarint_encodeVarint hlt) p.2)
  rw [Ear.readDatagram, hdecode] at hs
  obtain rfl := Option.some.inj hs
  refine ⟨h.clean.pop.2, ?_, h.arrived, h.config, h.order, h.given⟩
  obtain ⟨taken, hsub, heq⟩ := trySendAll_eq [audioObject p] e.toJitter
  intro obj (hobj : obj ∈ trySendAll e.toJitter [audioObject p])
  rw [heq] at hobj
  rcases List.mem_append.mp hobj with hold | hnew
  · exact h.queued obj hold
  · exact ⟨p, hp, List.mem_singleton.mp (hsub.subset hnew)⟩

/-- The channel behind the buffer takes some of what the buffer offers. -/
theorem Hears.given_advance (h : Hears encoded e) {jitter : JitterBuffer}
    (hgrows : e.jitter.out <+: jitter.out) :
    ((e.advance jitter).decoded ++ (e.advance jitter).toDecoder).Sublist jitter.out := by
  obtain ⟨new, hnew⟩ := hgrows
  obtain ⟨taken, hsub, heq⟩ := trySendAll_eq new e.toDecoder
  have hdrop : jitter.out.drop e.jitter.out.length = new := by rw [← hnew, List.drop_left]
  show (e.decoded ++ trySendAll e.toDecoder (jitter.out.drop e.jitter.out.length)).Sublist
    jitter.out
  rw [hdrop, heq, ← List.append_assoc, ← hnew]
  exact h.given.append hsub

theorem Hears.buffer (h : Hears encoded e) (hstamped : Stamped encoded) {obj : MediaObject}
    {toJitter : List MediaObject} (hobj : e.toJitter = obj :: toJitter) {now : ℕ} {smoothed : ℤ}
    (hclock : frameUs + audioConfig.maxLateUs ≤ now) {jitter : JitterBuffer}
    (hs : e.jitter.step (.arrive obj now smoothed) = some jitter) :
    Hears encoded ({ e with toJitter }.advance jitter) := by
  obtain ⟨hconfig, hgrows, harrived⟩ := grows_of_step hs
  obtain ⟨p, hp, rfl⟩ := h.queued obj (hobj ▸ List.mem_cons_self)
  have hproper := hstamped.proper p hp
  refine ⟨h.clean, fun o ho => ?_, fun o ho => ?_, hconfig.trans h.config, ?_, ?_⟩
  · exact h.queued o (hobj ▸ List.mem_cons_of_mem _ ho)
  · rcases harrived o ho with hold | ⟨now', smoothed', heq⟩
    · exact h.arrived o hold
    · cases heq
      exact ⟨p, hp, rfl⟩
  · have hregular : e.jitter.Regular (.arrive (audioObject p) now smoothed) :=
      ⟨hproper.1, hproper.2, by rwa [h.config]⟩
    exact h.order.step hregular hs
  · exact h.given_advance hgrows

theorem Hears.wake (h : Hears encoded e) {now : ℕ}
    (hclock : frameUs + audioConfig.maxLateUs ≤ now) {jitter : JitterBuffer}
    (hs : e.jitter.step (.wake now) = some jitter) : Hears encoded (e.advance jitter) := by
  obtain ⟨hconfig, hgrows, harrived⟩ := grows_of_step hs
  refine ⟨h.clean, h.queued, fun o ho => ?_, hconfig.trans h.config, ?_, h.given_advance hgrows⟩
  · rcases harrived o ho with hold | ⟨now', smoothed', heq⟩
    · exact h.arrived o hold
    · cases heq
  · have hregular : e.jitter.Regular (.wake now) := by
      show frameUs + e.jitter.config.maxLateUs ≤ now
      rwa [h.config]
    exact h.order.step hregular hs

theorem Hears.decode {decodeFloat : DecodeFloat σ S} (h : Hears encoded e)
    (hs : e.decode decodeFloat = some e') : Hears encoded e' := by
  unfold Ear.decode at hs
  split at hs
  · rename_i obj toDecoder _ hobj
    obtain rfl := Option.some.inj hs
    refine ⟨h.clean, h.queued, h.arrived, h.config, h.order, ?_⟩
    have hgiven := h.given
    rw [hobj] at hgiven
    simpa using hgiven
  · cases hs

/-- The packets for which the codec was called, concealment apart. -/
def heard (e : Ear σ) : List (ℕ × List UInt8) :=
  (e.decoded.filter fun obj => ¬ IsPlc obj).map fun obj => (obj.captureTimestampUs, obj.payload)

instance : Std.Antisymm fun p q : ℕ × List UInt8 => p.1 < q.1 where
  antisymm _ _ h h' := absurd h (Nat.lt_asymm h')

/-- Increasing packets that were all sent are a subsequence of the packets sent. -/
theorem Hears.heard_sublist (h : Hears encoded e) (hstamped : Stamped encoded) :
    e.heard.Sublist encoded := by
  have hordered := h.order.ordered
  have hdecoded : e.decoded.Sublist e.jitter.out := (List.sublist_append_left _ _).trans h.given
  have hincreasing : e.heard.Pairwise (·.1 < ·.1) :=
    List.pairwise_map.mpr (hordered.increasing.sublist (hdecoded.filter _))
  refine List.sublist_of_subperm_of_pairwise (List.subperm_of_subset ?_ ?_) hincreasing
    hstamped.increasing
  · refine hincreasing.imp ?_
    rintro p q hlt rfl
    exact lt_irrefl _ hlt
  · intro q hq
    obtain ⟨obj, hobj, rfl⟩ := List.mem_map.mp hq
    obtain ⟨hmem, hplc⟩ := List.mem_filter.mp hobj
    obtain ⟨p, hp, rfl⟩ := h.arrived obj
      (hordered.arrived obj (hdecoded.subset hmem) (by simpa using hplc))
    exact hp

end Ear

/-! ## The system -/

namespace AudioPath

/-- The invariant of the sender and all its receivers. -/
structure Carries (s : AudioPath Id σ τ) : Prop where
  stamped : Stamped s.encoded
  wire : ∀ conn, ∀ data ∈ s.wire conn, ∃ p ∈ s.encoded, data = encodeVarint p.1 ++ p.2
  ears : ∀ conn, (s.ears conn).Hears s.encoded

variable {c : Codecs σ τ S} {s s' : AudioPath Id σ τ}

theorem Carries.init (c : Codecs σ τ S) : (start c : AudioPath Id σ τ).Carries where
  stamped := ⟨.nil, by simp [start]⟩
  wire _ data hdata := by simp [start] at hdata
  ears _ := .init c.newDecoder

variable [DecidableEq Id]

theorem Carries.send (h : s.Carries) {ts now : ℕ} {payload : List UInt8}
    {accepts : Connection Id → Bool} (hpos : 0 < ts) (hlt : ts < 2 ^ 62)
    (hlast : ∀ p ∈ s.encoded, p.1 < ts)
    (hs : s.sendAudioDatagramToAll ts now payload accepts = some s') : s'.Carries := by
  unfold sendAudioDatagramToAll at hs
  split_ifs at hs
  · obtain rfl := Option.some.inj hs
    exact h
  · obtain ⟨f, hencode, hf⟩ := encodeAudioDatagram_eq ts payload s.datagramPool
    rw [hencode] at hs
    obtain rfl := Option.some.inj hs
    refine ⟨h.stamped.snoc hpos hlt hlast payload, fun conn data hdata => ?_, fun conn => ?_⟩
    · have hold : ∀ d ∈ s.wire conn, ∃ p ∈ s.encoded ++ [(ts, payload)],
          d = encodeVarint p.1 ++ p.2 := fun d hd =>
        (h.wire conn d hd).imp fun p hp => ⟨List.mem_append_left _ hp.1, hp.2⟩
      dsimp only at hdata
      split_ifs at hdata
      · rcases List.mem_append.mp hdata with hdata | hdata
        · exact hold data hdata
        · obtain rfl := List.mem_singleton.mp hdata
          exact ⟨(ts, payload), by simp, hf⟩
      · exact hold data hdata
    · exact (h.ears conn).mono fun p hp => List.mem_append_left _ hp

theorem Carries.setEar (h : s.Carries) {conn : Connection Id} {e : Ear σ}
    (he : e.Hears s.encoded) :
    Carries { s with ears := Function.update s.ears conn e } := by
  refine ⟨h.stamped, h.wire, fun other => ?_⟩
  show (Function.update s.ears conn e other).Hears s.encoded
  rcases eq_or_ne other conn with rfl | hne
  · rwa [Function.update_self]
  · rw [Function.update_of_ne hne]
    exact h.ears other

theorem Carries.step (h : s.Carries) {a : Action Id S} (hclock : s.Clocked a)
    (hs : s.step c a = some s') : s'.Carries := by
  cases a with
  | addPeer conn | removePeer id =>
    obtain rfl := Option.some.inj hs
    exact ⟨h.stamped, h.wire, h.ears⟩
  | capture samples captured sending accepts =>
    obtain ⟨hpos, hlt, hlast⟩ := hclock
    simp only [AudioPath.step, runAudioEncoder] at hs
    split at hs
    · obtain rfl := Option.some.inj hs
      exact ⟨h.stamped, h.wire, h.ears⟩
    · rename_i packet encoder _
      have hnext : Carries { s with encoder := encoder } := ⟨h.stamped, h.wire, h.ears⟩
      split_ifs at hs
      · obtain rfl := Option.some.inj hs
        exact hnext
      · exact hnext.send hpos hlt hlast hs
  | recycle v =>
    obtain rfl := Option.some.inj hs
    exact ⟨h.stamped, h.wire, h.ears⟩
  | arrive conn i =>
    obtain ⟨data, hdata, hs⟩ := Option.bind_eq_some_iff.mp hs
    obtain ⟨e, he, rfl⟩ := Option.map_eq_some_iff.mp hs
    obtain ⟨p, hp, rfl⟩ := h.wire conn data (List.mem_of_getElem? hdata)
    exact h.setEar ((h.ears conn).readDatagram hp (h.stamped.proper p hp).2 he)
  | ear conn a =>
    obtain ⟨e, he, rfl⟩ := Option.map_eq_some_iff.mp hs
    apply h.setEar
    cases a with
    | buffer now smoothed =>
      simp only [Ear.step] at he
      split at he
      · cases he
      · rename_i obj toJitter hobj
        obtain ⟨jitter, hjitter, rfl⟩ := Option.map_eq_some_iff.mp he
        exact (h.ears conn).buffer h.stamped hobj hclock hjitter
    | wake now =>
      obtain ⟨jitter, hjitter, rfl⟩ := Option.map_eq_some_iff.mp he
      exact (h.ears conn).wake hclock hjitter
    | decode => exact (h.ears conn).decode he
    | recycle v =>
      obtain rfl := Option.some.inj he
      have hears := h.ears conn
      exact ⟨hears.clean.push v, hears.queued, hears.arrived, hears.config, hears.order,
        hears.given⟩

/--
However datagrams are lost, repeated and reordered, a receiver's codec is called for a subsequence
of the packets that were sent, each once at most and with its own bytes.
-/
theorem heard_sublist_encoded {as : List (Action Id S)}
    (h : Run (step c) Clocked (start c) as s) (conn : Connection Id) :
    (s.ears conn).heard.Sublist s.encoded := by
  have hcarries := h.invariant (P := Carries) (fun _ _ _ hn hc hs => hn.step hc hs) (.init c)
  exact (hcarries.ears conn).heard_sublist hcarries.stamped

/-- Codecs that pass everything through. -/
def transparent : Codecs Unit Unit UInt8 :=
  ⟨fun encoder samples => (some samples, encoder), fun decoder packet => (some packet, decoder),
    (), ()⟩

/-- Two packets arrive in the wrong order, one of them twice. -/
def reordered : List (Action ℕ UInt8) :=
  [.addPeer ⟨0, 5⟩, .capture [1] 100000 100010 fun _ => true,
    .capture [2] 120000 120010 fun _ => true, .arrive ⟨0, 5⟩ 1, .arrive ⟨0, 5⟩ 0, .arrive ⟨0, 5⟩ 0,
    .ear ⟨0, 5⟩ (.buffer 200000 0), .ear ⟨0, 5⟩ (.buffer 201000 140000),
    .ear ⟨0, 5⟩ (.buffer 202000 140000), .ear ⟨0, 5⟩ (.wake 240000), .ear ⟨0, 5⟩ (.wake 260000),
    .ear ⟨0, 5⟩ .decode, .ear ⟨0, 5⟩ .decode]

theorem heard_sublist_encoded_reordered : ∃ s : AudioPath ℕ Unit Unit,
    Run (step transparent) Clocked (start transparent) reordered s ∧
    (s.ears ⟨0, 5⟩).heard = [(100000, [1]), (120000, [2])] ∧
    (s.ears ⟨0, 5⟩).heard.Sublist s.encoded := by
  obtain ⟨s, hs, hheard⟩ := Option.map_eq_some_iff.mp
    (by decide +kernel : (exec (guarded (step transparent) Clocked) (start transparent)
      reordered).map (fun s => (s.ears ⟨0, 5⟩).heard) = some [(100000, [1]), (120000, [2])])
  have hrun := run_of_guarded hs
  exact ⟨s, hrun, hheard, heard_sublist_encoded hrun ⟨0, 5⟩⟩

end AudioPath

end Meshconf.Broadcast
