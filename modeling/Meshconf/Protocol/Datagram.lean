import Meshconf.Buffers.Handles
import Meshconf.Protocol.Framing

/-! # Audio datagrams

An audio frame travels in one datagram: the capture timestamp as a varint, then the
packet. There are two encoders, one for a buffer that the caller reuses and one that
takes its buffer from a pool, and one decoder, which copies the packet into a buffer
of a pool of its own.
-/

namespace Meshconf.Protocol

open Bytes Buffers Transition

/-- Encode into a buffer that the caller reuses; what it held is cleared first. -/
def encodeAudioDatagramInto (captureTimestampUs : ℕ) (payload : List UInt8) (buf : Buf UInt8) :
    Buf UInt8 :=
  let buf := buf.clear
  let buf := { buf with elems := buf.elems ++ encodeVarint captureTimestampUs }
  { buf with elems := buf.elems ++ payload }

/-- Encode into a buffer of the pool. The handle goes to the transport. -/
def encodeAudioDatagram (captureTimestampUs : ℕ) (payload : List UInt8) (pool : BufPool UInt8) :
    Option (SharedBuf UInt8 × BufPool UInt8) :=
  (pool.checkoutEmpty.1.pushSlice (encodeVarint captureTimestampUs)).bind fun buf =>
  (buf.pushSlice payload).bind fun buf =>
  buf.share.map fun r => (r.1, r.2.drop pool.checkoutEmpty.2)

/-- Decode a datagram; `none` if the copy of the packet does not fit its buffer. -/
def decodeAudioDatagram (data : List UInt8) (audioPool : BufPool UInt8) :
    Option (Except ReadError (MediaObject × SharedBuf UInt8 × BufPool UInt8)) :=
  match decodeVarintFromSlice data with
  | .error e => some (.error e)
  | .ok (captureTimestampUs, rest) =>
    ((audioPool.checkout rest.length).1.write rest).bind fun buf =>
    buf.share.map fun r =>
      .ok ({ groupId := 0, subgroupId := 0, objectId := 0, captureTimestampUs, codec := none,
             payload := r.1.data.elems }, r.1, r.2.drop (audioPool.checkout rest.length).2)

variable {ts : ℕ} {payload data : List UInt8} {pool : BufPool UInt8}

theorem elems_encodeAudioDatagramInto (ts : ℕ) (payload : List UInt8) (buf : Buf UInt8) :
    (encodeAudioDatagramInto ts payload buf).elems = encodeVarint ts ++ payload := by
  simp [encodeAudioDatagramInto]

/-- The encoder leaves the pool as the checkout left it, whatever was at rest there. -/
theorem encodeAudioDatagram_eq (ts : ℕ) (payload : List UInt8) (pool : BufPool UInt8) :
    ∃ f, encodeAudioDatagram ts payload pool = some (f, pool.pop.2) ∧
      f.data.elems = encodeVarint ts ++ payload :=
  ⟨_, rfl, by simp [SharedBuf.new]⟩

/-- A datagram with a whole varint in front is decoded if the pool is clean. -/
theorem decodeAudioDatagram_ok (hpool : pool.Clean) {rest : List UInt8}
    (h : decodeVarintFromSlice data = .ok (ts, rest)) :
    ∃ f, f.data.elems = rest ∧ decodeAudioDatagram data pool =
      some (.ok (⟨0, 0, 0, ts, none, rest⟩, f, pool.pop.2)) := by
  have hlen : rest.length = (pool.pop.1.resizeWith rest.length).elems.length := by
    rw [Buf.elems_resizeWith hpool.pop.1, List.length_replicate]
  refine ⟨.new { pool.pop.1.resizeWith rest.length with elems := rest }, rfl, ?_⟩
  simp only [decodeAudioDatagram, h, BufPool.checkout, PoolBuf.write, Option.bind_some,
    if_pos hlen]
  rfl

/--
Both encoders write the same bytes, whatever the reused buffers held, and the decoder gives back
what was encoded, in every state that its pool can be in.
-/
theorem audioDatagram_roundTrip (hts : ts < 2 ^ 62) (payload : List UInt8) (buf : Buf UInt8)
    (pool : BufPool UInt8) {as : List (Action UInt8)} {s : Handles UInt8}
    (hs : exec Handles.step {} as = some s) :
    ∃ f p obj g q, encodeAudioDatagram ts payload pool = some (f, p) ∧
      f.data.elems = (encodeAudioDatagramInto ts payload buf).elems ∧
      decodeAudioDatagram f.data.elems s.pool = some (.ok (obj, g, q)) ∧
      obj.captureTimestampUs = ts ∧ obj.payload = payload := by
  obtain ⟨f, hf, helems⟩ := encodeAudioDatagram_eq ts payload pool
  obtain ⟨g, -, hg⟩ := decodeAudioDatagram_ok (Handles.Inv.of_exec hs).clean
    (decodeVarintFromSlice_append (isVarint_encodeVarint hts) payload)
  refine ⟨f, _, _, g, _, hf, ?_, by rw [helems, hg], rfl, rfl⟩
  rw [helems, elems_encodeAudioDatagramInto]

/-- The timestamp of a datagram that is accepted fits in a varint. -/
theorem decodeAudioDatagram_lt {obj : MediaObject} {f : SharedBuf UInt8} {p : BufPool UInt8}
    (h : decodeAudioDatagram data pool = some (.ok (obj, f, p))) :
    obj.captureTimestampUs < 2 ^ 62 := by
  unfold decodeAudioDatagram at h
  rcases hd : decodeVarintFromSlice data with e | ⟨ts, rest⟩
  · simp [hd] at h
  · rw [hd] at h
    obtain ⟨buf, -, h⟩ := Option.bind_eq_some_iff.mp h
    obtain ⟨r, -, h⟩ := Option.map_eq_some_iff.mp h
    obtain ⟨w, -, hw⟩ := decodeVarintFromSlice_ok_iff.mp hd
    cases h
    exact hw.lt

end Meshconf.Protocol
