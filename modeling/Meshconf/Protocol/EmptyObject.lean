import Meshconf.Protocol.RoundTrip

/-! # Objects without a payload

Behind a payload length of zero the reader takes an object status, as the layout
of an object says. The writer does not write one. The reader therefore takes the
first varint of whatever follows, and fails when there is none.
-/

namespace Meshconf.Protocol

open Bytes

/-- The object is read back as it was written, and reading resumes at `rest`. -/
def ReadsBack (o : ObjectData) (rest : List UInt8) (ending : Ending) : Prop :=
  (readObject.exec { input := writeObject o ++ rest, ending }).1 = .ok (some o) ∧
    (readObject.exec { input := writeObject o ++ rest, ending }).2.input = rest

variable {o : ObjectData} {s : Stream}

/-- What the reader does behind a payload length of zero. -/
def readStatus (o : ObjectData) : ReadM (Option ObjectData) := do
  let _status ← readVarint
  request 0
  return some o

/-- The reader comes to the object status with the whole object behind it. -/
theorem exec_readObject_empty (ho : o.Bounded) (hp : o.payload = []) {rest : List UInt8}
    (hs : s.input = writeObject o ++ rest) :
    readObject.exec s = (readStatus o).exec (s.advance rest [64]) := by
  obtain ⟨first, tail, hid, hfirst⟩ := (isVarint_encodeVarint ho.objectId_lt).cons
  obtain ⟨hpos, hle⟩ := length_buildExtensionHeaders ho.captureTimestampUs_lt o.codec
  have hext := frames_readExtensions (List.ne_nil_of_length_pos hpos) (by omega)
    (parseExtensionHeaders_build ho.captureTimestampUs_lt o.codec)
  have hlen : Frames readVarint (encodeVarint 0) [] 0 :=
    frames_readVarint (isVarint_encodeVarint (by decide))
  have ho' : o = ⟨o.objectId, o.captureTimestampUs, o.codec, []⟩ := by rw [← hp]
  simp only [writeObject, hid, hp, List.length_nil, List.append_nil, List.cons_append,
    List.append_assoc] at hs
  rw [readObject_cons hs]
  unfold readObjectTail
  rw [ReadM.exec_bind_ok (hfirst.whole _ _ rfl),
    ReadM.exec_bind_ok ((frames_readVarint (isVarint_encodeVarint (by omega))).whole _ _ rfl),
    ReadM.exec_bind_ok (hext.whole _ _ rfl), ReadM.exec_bind_ok (hlen.whole _ rest rfl)]
  simp only [if_true, Stream.advance_advance, List.nil_append, List.append_nil]
  rw [← ho']
  rfl

/-- With a status behind it, the object is read back and the reader stops where it should. -/
theorem readObject_status (ho : o.Bounded) (hp : o.payload = []) {w rest : List UInt8} {v : ℕ}
    (hw : IsVarint w v) (hs : s.input = writeObject o ++ (w ++ rest)) :
    readObject.exec s = (.ok (some o), s.advance rest [64, 0]) := by
  rw [exec_readObject_empty ho hp hs, readStatus,
    ReadM.exec_bind_ok ((frames_readVarint hw).whole _ rest rfl),
    ReadM.exec_bind_ok (ReadM.exec_request 0 _)]
  simp [Stream.advance]

/-- Without one it is the next object that loses its identifier. -/
theorem readObject_empty_next (ho : o.Bounded) (hp : o.payload = []) {o' : ObjectData}
    (ho' : o'.Bounded) {rest : List UInt8}
    (hs : s.input = writeObject o ++ (writeObject o' ++ rest)) :
    ∃ tail, writeObject o' = encodeVarint o'.objectId ++ tail ∧
      readObject.exec s = (.ok (some o), s.advance (tail ++ rest) [64, 0]) := by
  obtain ⟨tail, htail⟩ : ∃ tail, writeObject o' = encodeVarint o'.objectId ++ tail :=
    ⟨_, by rw [writeObject, List.append_assoc]⟩
  refine ⟨tail, htail, readObject_status ho hp (isVarint_encodeVarint ho'.objectId_lt) ?_⟩
  rw [hs, htail, List.append_assoc]

/-- And at the end of the stream there is nothing left to read. -/
theorem readObject_empty_last (ho : o.Bounded) (hp : o.payload = [])
    (hs : s.input = writeObject o) :
    (readObject.exec s).1 = .error s.ending.error := by
  have hs' : s.input = writeObject o ++ [] := by rw [hs, List.append_nil]
  rw [exec_readObject_empty ho hp hs', readStatus, readVarint_eq, bind_assoc,
    ReadM.exec_bind_error (ReadM.exec_readByte_nil (s := s.advance [] [64]) rfl)]
  rfl

/-- No object without a payload is read back, whatever follows it on the stream. -/
theorem not_readsBack_of_empty (ho : o.Bounded) (hp : o.payload = []) (rest : List UInt8)
    (ending : Ending) : ¬ ReadsBack o rest ending := by
  rintro ⟨hok, hrest⟩
  rw [exec_readObject_empty ho hp rfl] at hok hrest
  rcases hr : readVarint.exec (Stream.advance ⟨writeObject o ++ rest, ending, []⟩ rest [64])
    with ⟨e | v, t⟩
  · rw [readStatus, ReadM.exec_bind_error hr] at hok
    simp at hok
  · -- The reader has taken a varint of the continuation.
    obtain ⟨w, -, hw, hin, -⟩ := accepts_readVarint.ok _ v t hr
    rw [readStatus, ReadM.exec_bind_ok hr, ReadM.exec_bind_ok (ReadM.exec_request 0 t)] at hrest
    have ht : t.input = rest := hrest
    rw [ht] at hin
    exact hw.ne_nil (List.self_eq_append_left.mp hin)

/-- An empty object at the start of a stream that ends behind it. -/
theorem not_readsBack_of_empty_alone : ¬ ReadsBack ⟨0, 0, none, []⟩ [] .finished :=
  not_readsBack_of_empty ⟨by decide, by decide, by decide⟩ rfl [] .finished

/-- Neither the empty object nor the one behind it is read. -/
theorem not_readsBack :
    ¬ ∀ (objectId ts : ℕ) (codec : Option Codec) (os : List ObjectData), objectId < 2 ^ 62 →
      ts < 2 ^ 62 → (∀ o ∈ os, o.Bounded) →
        ReadsBack ⟨objectId, ts, codec, []⟩ (os.flatMap writeObject) .finished := by
  intro h
  exact absurd (h 0 0 none [] (by decide) (by decide) (by simp)).1 (by decide)

end Meshconf.Protocol
