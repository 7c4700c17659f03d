import Meshconf.Protocol.Varint

/-! # The varint codecs

The first byte of a varint announces its length. The three decoders fail together, on
fewer bytes than announced, and otherwise read the same value from the same bytes. A value
has one word of each length that has room for it, and the encoder writes the shortest.
-/

namespace Meshconf.Protocol

open Bytes

/-- The length that the first byte announces; at least that byte is needed. -/
def announced : List UInt8 → ℕ
  | [] => 1
  | first :: _ => 2 ^ (first >>> 6).toNat

inductive Decoder
  | readVarint
  /-- A byte is read first, as it is in front of an object. -/
  | firstByte
  | fromSlice
  deriving DecidableEq, Repr

/-- The value that a reader returned, and the bytes it left. -/
def outcome (r : Except ReadError ℕ × Stream) : Option (ℕ × List UInt8) :=
  r.1.toOption.map fun v => (v, r.2.input)

/-- Decode a varint from the front of the bytes of a stream. -/
def Decoder.decode (d : Decoder) (s : Stream) : Option (ℕ × List UInt8) :=
  match d with
  | .readVarint => outcome (Protocol.readVarint.exec s)
  | .firstByte => outcome ((readByte >>= decodeVarintFirstByte).exec s)
  | .fromSlice => (decodeVarintFromSlice s.input).toOption

/-! ## The decoders agree -/

section

variable {s : Stream} {first : UInt8} {rest : List UInt8}

theorem outcome_decodeVarintFirstByte (first : UInt8) (s : Stream) :
    outcome ((decodeVarintFirstByte first).exec s) =
      (decodeVarintFromSlice (first :: s.input)).toOption := by
  rw [decodeVarintFirstByte_eq, decodeVarintFromSlice_cons]
  split_ifs with hlt
  · rw [ReadM.exec_bind_error (ReadM.exec_readExact_of_lt hlt)]
    rfl
  · rw [ReadM.exec_bind_ok (ReadM.exec_readExact_of_le (Nat.le_of_not_lt hlt))]
    rfl

/-- Reading a byte and then the rest is decoding a slice. -/
theorem outcome_firstByte (s : Stream) :
    outcome ((readByte >>= decodeVarintFirstByte).exec s) =
      (decodeVarintFromSlice s.input).toOption := by
  cases hinput : s.input with
  | nil =>
    rw [ReadM.exec_bind_error (ReadM.exec_readByte_nil hinput)]
    rfl
  | cons first rest =>
    rw [ReadM.exec_bind_ok (ReadM.exec_readByte_cons hinput)]
    exact outcome_decodeVarintFirstByte first { s with input := rest }

theorem Decoder.decode_eq (d : Decoder) (s : Stream) :
    d.decode s = (decodeVarintFromSlice s.input).toOption := by
  cases d with
  | readVarint =>
    unfold decode
    rw [readVarint_eq]
    exact outcome_firstByte s
  | firstByte => exact outcome_firstByte s
  | fromSlice => rfl

/-- A slice is decoded exactly when it has the length that is announced. -/
theorem decodeVarintFromSlice_announced (data : List UInt8) :
    (data.length < announced data ∧ (decodeVarintFromSlice data).toOption = none) ∨
      (announced data ≤ data.length ∧
        ∃ v, (decodeVarintFromSlice data).toOption = some (v, data.drop (announced data))) := by
  cases data with
  | nil => exact .inl ⟨Nat.one_pos, rfl⟩
  | cons first rest =>
    have hlen : announced (first :: rest) = tailLength (first >>> 6).toNat + 1 :=
      (Nat.sub_add_cancel Nat.one_le_two_pow).symm
    rw [decodeVarintFromSlice_cons, hlen, List.length_cons, List.drop_succ_cons]
    split_ifs with hlt
    · exact .inl ⟨Nat.succ_lt_succ hlt, rfl⟩
    · exact .inr ⟨Nat.succ_le_succ (Nat.le_of_not_lt hlt), _, rfl⟩

end

/-! ## The shortest word -/

section

variable {w : List UInt8} {v p : ℕ}

/-- A varint is the tagged word of its value that has its length. -/
theorem IsVarint.eq_taggedWord (h : IsVarint w v) :
    ∃ p ≤ 3, v < 64 * 256 ^ tailLength p ∧ w = taggedWord p v := by
  obtain ⟨first, rest, rfl, hlen, rfl⟩ := h
  have hlt := untagged_lt first rest
  have hdiv := ofBe_cons_div (first &&& 0x3F) rest
  obtain ⟨-, hrest⟩ := List.cons.inj (toBe_ofBe ((first &&& 0x3F) :: rest))
  have hfirst : (first >>> 6).toNat * 64 + (first &&& 0x3F).toNat = first.toNat := by
    rw [shiftRight_six, and_mask]
    omega
  refine ⟨(first >>> 6).toNat, Nat.le_of_lt_succ (prefix_lt first), hlen ▸ hlt, ?_⟩
  rw [taggedWord, ← hlen, hdiv, hrest, hfirst, UInt8.ofNat_toNat]

/-- The encoder chooses the shortest word with room for the value. -/
theorem prefixOf_le_of_lt (hp : p ≤ 3) (h : v < 64 * 256 ^ tailLength p) : prefixOf v ≤ p := by
  unfold prefixOf
  obtain rfl | rfl | rfl | rfl : p = 0 ∨ p = 1 ∨ p = 2 ∨ p = 3 := by omega
  all_goals
    norm_num [tailLength] at h
    split_ifs <;> omega

theorem IsVarint.shortest (h : IsVarint w v) :
    (encodeVarint v).length ≤ w.length ∧
      (w.length = (encodeVarint v).length → w = encodeVarint v) := by
  obtain ⟨p, hp, hlt, rfl⟩ := h.eq_taggedWord
  rw [encodeVarint_eq h.lt, length_taggedWord, length_taggedWord]
  refine ⟨Nat.pow_le_pow_right (by decide) (prefixOf_le_of_lt hp hlt), fun heq => ?_⟩
  rw [Nat.pow_right_injective le_rfl heq]

end

/--
On every stream the decoders fail together, exactly if it is shorter than announced, or return one
value and leave the same bytes. Each of them decodes what the encoder writes, in front of anything,
and none of them decodes any other word to the value that is not longer.
-/
theorem decoders_agree :
    (∀ s : Stream,
      (s.input.length < announced s.input ∧ ∀ d : Decoder, d.decode s = none) ∨
      (announced s.input ≤ s.input.length ∧
        ∃ v, ∀ d : Decoder, d.decode s = some (v, s.input.drop (announced s.input)))) ∧
    (∀ v < 2 ^ 62, ∀ (s : Stream) (rest : List UInt8), s.input = encodeVarint v ++ rest →
      ∀ d : Decoder, d.decode s = some (v, rest)) ∧
    ∀ (v : ℕ) (d : Decoder) (s : Stream) (rest : List UInt8), d.decode s = some (v, rest) →
      ∃ w, s.input = w ++ rest ∧ (encodeVarint v).length ≤ w.length ∧
        (w.length = (encodeVarint v).length → w = encodeVarint v) := by
  refine ⟨fun s => ?_, fun v hv s rest hs d => ?_, fun v d s rest hd => ?_⟩
  · simp only [Decoder.decode_eq]
    rcases decodeVarintFromSlice_announced s.input with ⟨hlt, hnone⟩ | ⟨hle, v, hsome⟩
    · exact .inl ⟨hlt, fun _ => hnone⟩
    · exact .inr ⟨hle, v, fun _ => hsome⟩
  · rw [d.decode_eq, hs, decodeVarintFromSlice_append (isVarint_encodeVarint hv)]
    rfl
  · rw [d.decode_eq] at hd
    have hok : decodeVarintFromSlice s.input = .ok (v, rest) := by
      cases hslice : decodeVarintFromSlice s.input with
      | error e =>
        rw [hslice] at hd
        cases hd
      | ok r =>
        rw [hslice] at hd
        obtain rfl := Option.some.inj hd
        rfl
    obtain ⟨w, hw, hvarint⟩ := decodeVarintFromSlice_ok_iff.mp hok
    exact ⟨w, hw, hvarint.shortest⟩

/-- The largest value in front of another byte. -/
theorem decoders_agree_largest :
    Decoder.firstByte.decode ⟨encodeVarint (2 ^ 62 - 1) ++ [7], .reset, []⟩ =
      some (2 ^ 62 - 1, [7]) :=
  decoders_agree.2.1 (2 ^ 62 - 1) (by decide) _ [7] rfl .firstByte

end Meshconf.Protocol
