import Meshconf.Protocol.RoundTrip

/-! # Buffers requested while reading a video stream

The reader of a video stream allocates a buffer for the extension block and one
for the payload, both before their bytes have arrived. The first is fixed; the
second has the length that the remote peer announced.
-/

namespace Meshconf.Protocol

open Bytes

/-- The reads of one video stream: its header and its single object. -/
def readVideoStream : ReadM (SubgroupHeader × Option ObjectData) := do
  let header ← readSubgroupHeader
  let object ← readObject
  return (header, object)

/-- The buffer lengths requested while reading a video stream, in order. -/
def bufferRequests (input : List UInt8) (ending : Ending) : List ℕ :=
  (readVideoStream.exec { input, ending }).2.requested

/-- `w` is an object up to its payload, announcing a payload of `n` bytes. -/
def IsObjectHead (w : List UInt8) (n : ℕ) : Prop :=
  ∃ id extLen ext len, w = id ++ (extLen ++ (ext ++ len)) ∧ (∃ v, IsVarint id v) ∧
    IsVarint extLen ext.length ∧ ext.length ≤ 64 ∧
    (∃ vals, parseExtensionHeaders ext = .ok vals) ∧ IsVarint len n

/-- The bytes of a stream begin with a header and an object that announces `n` payload bytes. -/
def Announces (input : List UInt8) (n : ℕ) : Prop :=
  ∃ h header head rest, input = header ++ (head ++ rest) ∧ IsHeader header h ∧ IsObjectHead head n

/-! ## Requested lengths are fixed or announced -/

theorem accepts_readExtensions (extLen : ℕ) :
    Accepts (readExtensions extLen)
      (fun w vals => w.length = extLen ∧ extLen ≤ 64 ∧ parseExtensionHeaders w = .ok vals)
      (fun _ n => n = 64) := by
  unfold readExtensions
  by_cases hpos : 0 < extLen
  · rw [if_pos hpos]
    refine ((Accepts.request 64).bind (V := fun _ w vals => w.length = extLen ∧ extLen ≤ 64 ∧
      parseExtensionHeaders w = .ok vals) (M := fun _ => Silent) fun _ => ?_).mono ?_ ?_
    · by_cases hle : extLen > 64
      · simp only [hle, if_true, ReadM.throw_bind]
        exact (Accepts.throw _).mono (fun _ _ h => h.elim) fun _ _ h => h
      · simp only [hle, if_false]
        refine ((Accepts.readExact extLen).bind_silent (V := fun extBuf w vals => w = [] ∧
          parseExtensionHeaders extBuf = .ok vals) fun extBuf => ?_).mono ?_ fun _ _ h => h
        · cases hp : parseExtensionHeaders extBuf with
          | ok exts => exact (Accepts.pure exts).mono (by rintro _ _ ⟨rfl, rfl⟩; simp) fun _ _ h => h
          | error e => exact (Accepts.throw e).mono (fun _ _ h => h.elim) fun _ _ h => h
        · rintro w vals ⟨_, extBuf, _, rfl, ⟨rfl, hlen⟩, rfl, hp⟩
          exact ⟨by simpa using hlen, by omega, by simpa using hp⟩
    · rintro w vals ⟨_, _, w₂, rfl, rfl, h⟩
      exact h
    · rintro w n (h | ⟨_, _, _, _, _, h⟩)
      · exact h
      · exact h.elim
  · rw [if_neg hpos]
    refine (Accepts.pure _).mono ?_ fun _ _ h => h.elim
    rintro w vals ⟨rfl, rfl⟩
    exact ⟨by simp; omega, by omega, rfl⟩

theorem accepts_readObjectTail (first : UInt8) :
    Accepts (readObjectTail first) (fun _ _ => True) (fun w k => k = 0 ∨ k = 64 ∨
      ∃ head rest, first :: w = head ++ rest ∧ IsObjectHead head k) := by
  unfold readObjectTail
  refine ((accepts_decodeVarintFirstByte first).bind fun objectId =>
    accepts_readVarint.bind fun extLen => (accepts_readExtensions extLen).bind fun exts =>
    accepts_readVarint.bind (V := fun _ _ _ => True)
      (M := fun payloadLen _ k => k = 0 ∨ k = payloadLen) fun payloadLen => ?_).mono
    (fun _ _ _ => trivial) ?_
  · by_cases hz : payloadLen = 0
    · simp only [hz, if_true]
      refine (accepts_readVarint.bind fun _ => (Accepts.request 0).bind fun _ =>
        Accepts.pure _).mono (fun _ _ _ => trivial) ?_
      rintro w k (h | ⟨_, _, _, _, _, h | ⟨_, _, _, _, _, h⟩⟩)
      · exact h.elim
      · exact .inl h
      · exact h.elim
    · simp only [hz, if_false]
      refine ((Accepts.request payloadLen).bind fun _ => (Accepts.readExact payloadLen).bind
        fun buf => Accepts.pure _).mono (fun _ _ _ => trivial) ?_
      rintro w k (h | ⟨_, _, _, _, _, h | ⟨_, _, _, _, _, h⟩⟩)
      · exact .inr h
      · exact h.elim
      · exact h.elim
  · rintro w k (h | ⟨id, v, _, rfl, hid, h | ⟨el, extLen, _, rfl, hel, h |
      ⟨ext, exts, _, rfl, ⟨rfl, hle, hexts⟩, h | ⟨len, n, rest, rfl, hlen, h⟩⟩⟩⟩)
    · exact h.elim
    · exact h.elim
    · exact .inr (.inl h)
    · exact h.elim
    · rcases h with rfl | rfl
      · exact .inl rfl
      · refine .inr (.inr ⟨(first :: id) ++ (el ++ (ext ++ len)), rest, by simp, ?_⟩)
        exact ⟨first :: id, el, ext, len, rfl, ⟨v, hid⟩, hel, hle, ⟨exts, hexts⟩, hlen⟩

theorem exec_readObject_nil {s : Stream} (hs : s.input = []) :
    (readObject.exec s).2 = s := by
  rw [readObject, ReadM.exec_bind, ReadM.exec_attempt, ReadM.exec_readByte_nil hs]
  rcases s with ⟨_, _ | _, _⟩ <;> rfl

theorem accepts_readObject :
    Accepts readObject (fun _ _ => True) (fun w k => k = 0 ∨ k = 64 ∨
      ∃ head rest, w = head ++ rest ∧ IsObjectHead head k) where
  ok s a t h := by
    rcases hs : s.input with _ | ⟨first, rest⟩
    · obtain rfl : s = t := by simpa [h] using (exec_readObject_nil hs).symm
      exact ⟨[], [], trivial, by simp [hs], by simp [Stream.advance], by simp⟩
    · rw [readObject_cons hs] at h
      obtain ⟨w, ns, -, hin, ht, hns⟩ := (accepts_readObjectTail first).ok _ a t h
      exact ⟨first :: w, ns, trivial, by simpa using hin, ht, hns⟩
  error s e t h := by
    rcases hs : s.input with _ | ⟨first, rest⟩
    · obtain rfl : s = t := by simpa [h] using (exec_readObject_nil hs).symm
      exact ⟨[], by simp, by simp⟩
    · rw [readObject_cons hs] at h
      exact (accepts_readObjectTail first).error _ e t h

theorem mem_bufferRequests {input : List UInt8} {ending : Ending} {k : ℕ}
    (hk : k ∈ bufferRequests input ending) : k = 0 ∨ k = 64 ∨ Announces input k := by
  have hstream := accepts_readSubgroupHeader.bind fun header =>
    accepts_readObject.bind fun object => Accepts.pure (header, object)
  obtain ⟨ns, hns, hall⟩ := hstream.requests { input, ending }
  obtain rfl : bufferRequests input ending = ns := hns
  rcases hall k hk with h | ⟨header, h, w, hin, hh, (h' | h' | ⟨head, rest, rfl, hhead⟩) |
    ⟨_, _, _, _, _, h'⟩⟩
  · exact h.elim
  · exact .inl h'
  · exact .inr (.inl h')
  · exact .inr (.inr ⟨h, header, head, rest, hin, hh, hhead⟩)
  · exact h'.elim

/-! ## Every announced length is requested -/

theorem mem_requests_readObjectTail {first : UInt8} {rest w : List UInt8} {n : ℕ} (hn : n ≠ 0)
    (hw : IsObjectHead (first :: w) n) (s : Stream) (hs : s.input = w ++ rest) :
    n ∈ ((readObjectTail first).exec s).2.requested := by
  obtain ⟨id, extLen, ext, len, hw, ⟨v, hid⟩, hel, hle, ⟨vals, hvals⟩, hlen⟩ := hw
  obtain ⟨b, idTail, rfl, hfirst⟩ := hid.cons
  obtain ⟨rfl, rfl⟩ : first = b ∧ w = idTail ++ (extLen ++ (ext ++ len)) := by simpa using hw
  have hext : ∃ ns, Frames (readExtensions ext.length) ext ns vals := by
    by_cases hne : ext = []
    · subst hne
      obtain rfl : ({} : ExtensionValues) = vals := by
        simpa [parseExtensionHeaders, parseExtensionLoop_nil] using hvals
      exact ⟨[], Frames.pure _⟩
    · exact ⟨[64], frames_readExtensions hne hle hvals⟩
  obtain ⟨ns, hext⟩ := hext
  unfold readObjectTail
  rw [ReadM.exec_bind_ok (hfirst.whole s (extLen ++ (ext ++ (len ++ rest))) (by simp [hs])),
    ReadM.exec_bind_ok ((frames_readVarint hel).whole _ (ext ++ (len ++ rest)) (by simp)),
    ReadM.exec_bind_ok (hext.whole _ (len ++ rest) (by simp)),
    ReadM.exec_bind_ok ((frames_readVarint hlen).whole _ rest (by simp))]
  simp only [hn, if_false]
  exact ((Accepts.readExact n).bind_silent fun buf => Accepts.pure _).mem_request_bind _

theorem mem_bufferRequests_of_announces {input : List UInt8} {n : ℕ} (hn : n ≠ 0)
    (h : Announces input n) (ending : Ending) : n ∈ bufferRequests input ending := by
  obtain ⟨h, header, head, rest, rfl, hh, hhead⟩ := h
  obtain ⟨first, w, rfl⟩ : ∃ first w, head = first :: w := by
    obtain ⟨id, _, _, _, rfl, ⟨_, hid⟩, -⟩ := hhead
    obtain ⟨first, tail, rfl, -⟩ := hid.cons
    exact ⟨_, _, List.cons_append⟩
  let s : Stream := { input := header ++ (first :: w ++ rest), ending }
  let t : Stream := s.advance (first :: w ++ rest) []
  have hheader : readSubgroupHeader.exec s = (.ok h, t) :=
    (frames_readSubgroupHeader hh).whole s (first :: w ++ rest) rfl
  have hobject : readObject.exec t = (readObjectTail first).exec { t with input := w ++ rest } :=
    readObject_cons rfl
  have hlast : (readVideoStream.exec s).2 = (readObject.exec t).2 := by
    rw [readVideoStream, ReadM.exec_bind_ok hheader, ReadM.exec_bind]
    rcases readObject.exec t with ⟨_ | _, _⟩ <;> rfl
  rw [bufferRequests, hlast, hobject]
  exact mem_requests_readObjectTail hn hhead _ rfl

/-! ## The bound that the peer chooses -/

/-- `B` bounds every buffer requested while reading a video stream, whatever the remote sends. -/
def Bounded (B : ℕ) : Prop :=
  ∀ (input : List UInt8) (ending : Ending), ∀ n ∈ bufferRequests input ending, n ≤ B

/-- The largest value of a varint, the limit that the format itself sets to a length. -/
def maxVarint : ℕ := 2 ^ 62 - 1

/-- A stream is read within `B` exactly when it announces a payload of at most `B` bytes. -/
theorem bufferRequests_le_iff (B : ℕ) (hB : 64 ≤ B) (input : List UInt8) (ending : Ending) :
    (∀ n ∈ bufferRequests input ending, n ≤ B) ↔ ∀ n, Announces input n → n ≤ B := by
  constructor
  · intro h n hn
    by_cases hz : n = 0
    · omega
    · exact h n (mem_bufferRequests_of_announces hz hn ending)
  · intro h n hn
    rcases mem_bufferRequests hn with rfl | rfl | hn
    · omega
    · exact hB
    · exact h n hn

/-- A stream of fifteen bytes that makes the reader ask for the largest announceable buffer. -/
def hugeStream : List UInt8 := [4, 1, 1, 0, 1, 0, 0, 255, 255, 255, 255, 255, 255, 255, 255]

theorem bufferRequests_le_iff_huge :
    (∀ n ∈ bufferRequests hugeStream .finished, n ≤ 64) ↔ ∀ n, Announces hugeStream n → n ≤ 64 :=
  bufferRequests_le_iff 64 le_rfl hugeStream .finished

/-- No bound below the limit of the format holds: a peer can announce every length up to it. -/
theorem not_bounded : ¬ ∃ B < maxVarint, Bounded B := by
  rintro ⟨B, hB, h⟩
  have hmem : maxVarint ∈ bufferRequests hugeStream .finished := by decide
  exact absurd (h _ _ _ hmem) (by omega)

end Meshconf.Protocol
