import Meshconf.Audio.Decode
import Meshconf.Jitter.Accounting
import Meshconf.Protocol.Datagram

/-! # From the datagram to the codec

The timestamps that a remote can send are varints, and the sentinel's is larger than
any of them. What the decoder takes for a sentinel has therefore not arrived: the
jitter buffer has made it.
-/

namespace Meshconf.Audio

open Buffers Jitter Jitter.JitterBuffer Protocol Transition

/-- What arrives at the buffer has been decoded from a datagram, with any bytes. -/
def FromDatagrams (_ : JitterBuffer) : JitterBuffer.Action → Prop
  | .arrive obj _ _ => ∃ data pool f p, decodeAudioDatagram data pool = some (.ok (obj, f, p))
  | _ => True

/-- The output of the buffer consists of objects that arrived and of sentinels. -/
structure Genuine (b : JitterBuffer) : Prop where
  timestamp : ∀ obj ∈ b.arrived, obj.captureTimestampUs < 2 ^ 62
  queued : ∀ obj ∈ b.queue.packets, obj ∈ b.arrived
  emitted : ∀ obj ∈ b.out, obj ∈ b.arrived ∨ obj = plcSentinel

variable {ar : Arithmetic} {b b' : JitterBuffer} {obj : MediaObject} {offset : ℤ} {now : ℕ}

theorem Genuine.new (config : JitterBufferConfig) (isClockMaster emitPlc : Bool)
    (peerClock : Option ℤ) : Genuine (.new config isClockMaster emitPlc peerClock) :=
  ⟨by simp [JitterBuffer.new], by simp [JitterBuffer.new, Queue.empty], by simp [JitterBuffer.new]⟩

theorem Genuine.receive (h : Genuine b) (hlt : obj.captureTimestampUs < 2 ^ 62) :
    Genuine (b.receive obj) := by
  constructor
  · intro a ha
    rcases List.mem_append.mp ha with ha | ha
    · exact h.timestamp a ha
    · cases List.mem_singleton.mp ha
      exact hlt
  · exact fun a ha => List.mem_append_left _ (h.queued a ha)
  · exact fun a ha => (h.emitted a ha).imp_left (List.mem_append_left _)

theorem Genuine.enqueue (h : Genuine b) (hobj : obj ∈ b.arrived) : Genuine (b.enqueue obj) := by
  unfold JitterBuffer.enqueue
  split_ifs
  · exact ⟨h.timestamp, h.queued, h.emitted⟩
  · exact ⟨h.timestamp, h.queued, h.emitted⟩
  · refine ⟨h.timestamp, ?_, h.emitted⟩
    intro a ha
    rcases Queue.mem_insert ha with rfl | ha
    · exact hobj
    · exact h.queued a ha

theorem Genuine.emit (h : Genuine b) (hobj : obj ∈ b.arrived ∨ obj = plcSentinel) :
    ∀ a ∈ b.out ++ [obj], a ∈ b.arrived ∨ a = plcSentinel := by
  intro a ha
  rcases List.mem_append.mp ha with ha | ha
  · exact h.emitted a ha
  · cases List.mem_singleton.mp ha
    exact hobj

theorem Genuine.take {maxLateUs : ℕ} {r : Released} (h : Genuine b)
    (hr : ar.release maxLateUs offset now b.queue.packets = some r) : Genuine (b.take r) := by
  obtain ⟨dropped, hplaces, -⟩ := release_places hr
  refine ⟨h.timestamp, fun a ha => h.queued a (List.mem_of_mem_drop ha), ?_⟩
  intro a ha
  rcases List.mem_append.mp ha with ha | ha
  · exact h.emitted a ha
  · have hqueue : a ∈ (b.queue.packets : Multiset MediaObject) := by
      rw [hplaces, Multiset.mem_add, Multiset.mem_add]
      exact .inl (.inl (Multiset.mem_coe.mpr ha))
    exact .inl (h.queued a (Multiset.mem_coe.mp hqueue))

theorem Genuine.step (h : Genuine b) {a : JitterBuffer.Action} (ha : FromDatagrams b a)
    (hs : ar.step b a = some b') : Genuine b' := by
  have hnew : ∀ obj now smoothed, a = .arrive obj now smoothed →
      Genuine (b.receive obj) ∧ obj ∈ (b.receive obj).arrived := by
    rintro obj now smoothed rfl
    obtain ⟨data, pool, f, p, hdata⟩ := ha
    exact ⟨h.receive (decodeAudioDatagram_lt hdata),
      List.mem_append_right _ (List.mem_singleton_self _)⟩
  cases Arithmetic.stepped_of_step hs with
  | @pass obj now smoothed =>
    obtain ⟨hreceived, hmem⟩ := hnew obj now smoothed rfl
    exact ⟨hreceived.timestamp, hreceived.queued, hreceived.emit (.inl hmem)⟩
  | @late obj now smoothed =>
    obtain ⟨hreceived, -⟩ := hnew obj now smoothed rfl
    exact ⟨hreceived.timestamp, hreceived.queued, hreceived.emitted⟩
  | @enqueue obj now smoothed instantaneous offset =>
    obtain ⟨hreceived, hmem⟩ := hnew obj now smoothed rfl
    have hset : Genuine ((b.receive obj).setOffset instantaneous offset) :=
      ⟨hreceived.timestamp, hreceived.queued, hreceived.emitted⟩
    exact hset.enqueue hmem
  | idle => exact h
  | take hr => exact h.take hr
  | conceal next hr =>
    have htaken := h.take hr
    exact ⟨htaken.timestamp, htaken.queued, htaken.emit (.inr rfl)⟩
  | syncClock => exact ⟨h.timestamp, h.queued, h.emitted⟩

/-- An object that the decoder takes for a sentinel is one, and has not arrived. -/
theorem Genuine.sentinel (h : Genuine b) (hobj : obj ∈ b.out)
    (hts : obj.captureTimestampUs = plcSentinelTimestamp) :
    obj = plcSentinel ∧ obj ∉ b.arrived := by
  have hnot : obj ∉ b.arrived := by
    intro harrived
    have hlt := h.timestamp obj harrived
    rw [hts, plcSentinelTimestamp] at hlt
    omega
  exact ⟨(h.emitted obj hobj).resolve_left hnot, hnot⟩

/--
The encoders agree and the decoder inverts them. However the buffer is fed with datagrams that the
decoder accepts, what comes out of it with the timestamp of a sentinel is the buffer's own.
-/
theorem datagrams_roundTrip_and_genuine :
    (∀ ts < 2 ^ 62, ∀ (payload : List UInt8) (buf : Buf UInt8) (pool : BufPool UInt8)
      (as : List (Buffers.Action UInt8)) (s : Handles UInt8),
      exec Handles.step {} as = some s →
        ∃ f p obj g q, encodeAudioDatagram ts payload pool = some (f, p) ∧
          f.data.elems = (encodeAudioDatagramInto ts payload buf).elems ∧
          decodeAudioDatagram f.data.elems s.pool = some (.ok (obj, g, q)) ∧
          obj.captureTimestampUs = ts ∧ obj.payload = payload) ∧
    (∀ data pool obj f p, decodeAudioDatagram data pool = some (.ok (obj, f, p)) →
      obj.captureTimestampUs < 2 ^ 62) ∧
    ∀ (ar : Arithmetic) (config : JitterBufferConfig) (isClockMaster emitPlc : Bool)
      (peerClock : Option ℤ) (as : List JitterBuffer.Action) (b : JitterBuffer),
      Run ar.step FromDatagrams (.new config isClockMaster emitPlc peerClock) as b →
        ∀ obj ∈ b.out, obj.captureTimestampUs = plcSentinelTimestamp →
          obj = plcSentinel ∧ obj ∉ b.arrived := by
  refine ⟨?_, ?_, ?_⟩
  · intro ts hts payload buf pool as s hs
    exact audioDatagram_roundTrip hts payload buf pool hs
  · intro data pool obj f p h
    exact decodeAudioDatagram_lt h
  · intro ar config isClockMaster emitPlc peerClock as b h obj hobj hts
    have hb : Genuine b := h.invariant (fun _ _ _ hn ha hs => hn.step ha hs)
      (.new config isClockMaster emitPlc peerClock)
    exact hb.sentinel hobj hts

/-- A packet as it is decoded from its datagram. -/
def receivedPacket : MediaObject := ⟨0, 0, 0, 100000, none, [7, 8]⟩

/-- The packet is played, and the slot behind it is concealed. -/
def playedThenConcealed : List JitterBuffer.Action :=
  [.arrive receivedPacket 200000 0, .wake 260000, .wake 280000]

/-- The packet is sent and received with buffers that have been used before. -/
theorem datagrams_roundTrip_and_genuine_reused :
    (∃ f p obj g q, encodeAudioDatagram 100000 [7, 8] ⟨[⟨0, [1, 2, 3]⟩], 1⟩ = some (f, p) ∧
      f.data.elems = (encodeAudioDatagramInto 100000 [7, 8] ⟨5, [9]⟩).elems ∧
      decodeAudioDatagram f.data.elems ⟨[⟨0, []⟩], 1⟩ = some (.ok (obj, g, q)) ∧
      obj.captureTimestampUs = 100000 ∧ obj.payload = [7, 8]) ∧
    receivedPacket.captureTimestampUs < 2 ^ 62 ∧
    ∃ b, Run Arithmetic.wrapping.step FromDatagrams (.new audioConfig true true none)
        playedThenConcealed b ∧
      b.out = [receivedPacket, plcSentinel] ∧ plcSentinel ∉ b.arrived := by
  obtain ⟨hroundTrip, hlt, hgenuine⟩ := datagrams_roundTrip_and_genuine
  obtain ⟨g, -, hdecode⟩ := decodeAudioDatagram_ok Handles.Inv.new.clean
    (decodeVarintFromSlice_append (isVarint_encodeVarint (by decide : 100000 < 2 ^ 62)) [7, 8])
  obtain ⟨b, hb, hout⟩ := Option.map_eq_some_iff.mp
    (by decide +kernel : (exec Arithmetic.wrapping.step (.new audioConfig true true none)
      playedThenConcealed).map (·.out) = some [receivedPacket, plcSentinel])
  have hrun : Run Arithmetic.wrapping.step FromDatagrams (.new audioConfig true true none)
      playedThenConcealed b := by
    refine (run_of_exec hb).of_actions fun a ha u => ?_
    simp only [playedThenConcealed, List.mem_cons, List.not_mem_nil, or_false] at ha
    rcases ha with rfl | rfl | rfl
    · exact ⟨_, _, g, _, hdecode⟩
    · trivial
    · trivial
  refine ⟨?_, hlt _ _ _ _ _ hdecode, b, hrun, hout, ?_⟩
  · exact hroundTrip 100000 (by decide) [7, 8] ⟨5, [9]⟩ ⟨[⟨0, [1, 2, 3]⟩], 1⟩
      [.checkout 3, .dropOwned 0] ⟨⟨[⟨0, []⟩], 1⟩, [], []⟩ rfl
  · exact (hgenuine _ _ _ _ _ _ _ hrun plcSentinel (by simp [hout]) rfl).2

end Meshconf.Audio
