import Meshconf.Bytes.BigEndian
import Meshconf.Bytes.Reader

/-! # Variable-length integers

The top two bits of the first byte give the length, 1, 2, 4 or 8 bytes; the
remaining bits are the value, big-endian. Three readers share this format: one
on a stream, one on a stream whose first byte was already taken, and one on a
slice.
-/

namespace Meshconf.Protocol

open Bytes

/-- The encoded varint, the part `bytes[..len]` of the returned buffer. -/
def encodeVarint (val : ℕ) : List UInt8 :=
  if val ≤ 0x3F then [UInt8.ofNat val]
  else if val ≤ 0x3FFF then toBe 2 (val % 2 ^ 16 ||| 0x4000)
  else if val ≤ 0x3FFF_FFFF then toBe 4 (val % 2 ^ 32 ||| 0x8000_0000)
  else toBe 8 (val ||| 0xC000_0000_0000_0000)

/-- Finish decoding a varint given the first byte already read. -/
def decodeVarintFirstByte (first : UInt8) : ReadM ℕ :=
  match (first >>> 6).toNat with
  | 0 => return (first &&& 0x3F).toNat
  | 1 => do
    let second ← readExact 1
    return ofBe ((first &&& 0x3F) :: second)
  | 2 => do
    let rest ← readExact 3
    return ofBe ((first &&& 0x3F) :: rest)
  -- A byte shifted right by six is at most 3.
  | _ => do
    let rest ← readExact 7
    return ofBe ((first &&& 0x3F) :: rest)

def readVarint : ReadM ℕ := do
  let first ← readByte
  match (first >>> 6).toNat with
  | 0 => return (first &&& 0x3F).toNat
  | 1 => do
    let second ← readExact 1
    return ofBe ((first &&& 0x3F) :: second)
  | 2 => do
    let rest ← readExact 3
    return ofBe ((first &&& 0x3F) :: rest)
  | _ => do
    let rest ← readExact 7
    return ofBe ((first &&& 0x3F) :: rest)

/-- Decode a varint from the front of a byte slice, returning the value and the remaining bytes. -/
def decodeVarintFromSlice (data : List UInt8) : Except ReadError (ℕ × List UInt8) :=
  match data with
  | [] => .error (.invalid "Unexpected end of varint")
  | first :: rest =>
    match (first >>> 6).toNat with
    | 0 => .ok ((first &&& 0x3F).toNat, rest)
    | 1 =>
      if data.length < 2 then .error (.invalid "Varint truncated")
      else .ok (ofBe ((first &&& 0x3F) :: rest.take 1), rest.drop 1)
    | 2 =>
      if data.length < 4 then .error (.invalid "Varint truncated")
      else .ok (ofBe ((first &&& 0x3F) :: rest.take 3), rest.drop 3)
    | _ =>
      if data.length < 8 then .error (.invalid "Varint truncated")
      else .ok (ofBe ((first &&& 0x3F) :: rest.take 7), rest.drop 7)

theorem readVarint_eq : readVarint = readByte >>= decodeVarintFirstByte := rfl

/-! ## Tagged words -/

/-- The number of bytes after the first one, for each length prefix. -/
def tailLength (pre : ℕ) : ℕ := 2 ^ pre - 1

theorem shiftRight_six (b : UInt8) : (b >>> 6).toNat = b.toNat / 64 := by
  simp [Nat.shiftRight_eq_div_pow]

theorem and_mask (b : UInt8) : (b &&& 0x3F).toNat = b.toNat % 64 := by
  rw [UInt8.toNat_and]
  exact Nat.and_two_pow_sub_one_eq_mod b.toNat 6

theorem or_tag {val tag w : ℕ} (h : val < 64 * 256 ^ w) :
    val ||| tag * (64 * 256 ^ w) = tag * (64 * 256 ^ w) + val := by
  have hp : 64 * 256 ^ w = 2 ^ (8 * w + 6) := by
    rw [pow_add, pow_mul]; ring
  rw [hp] at h ⊢
  rw [Nat.or_comm, mul_comm]
  exact (Nat.two_pow_add_eq_or_of_lt h tag).symm

/-- The word of a value behind a length prefix: a tagged first byte and the low bytes. -/
def taggedWord (pre val : ℕ) : List UInt8 :=
  UInt8.ofNat (pre * 64 + val / 256 ^ tailLength pre) :: toBe (tailLength pre) val

theorem toBe_tag (val tag w : ℕ) :
    toBe (w + 1) (tag * (64 * 256 ^ w) + val) =
      UInt8.ofNat (tag * 64 + val / 256 ^ w) :: toBe w val := by
  have hw : 0 < 256 ^ w := by positivity
  have hdiv : (tag * (64 * 256 ^ w) + val) / 256 ^ w = tag * 64 + val / 256 ^ w := by
    rw [← mul_assoc, add_comm, Nat.add_mul_div_right _ _ hw, add_comm]
  have hmod : toBe w (tag * (64 * 256 ^ w) + val) = toBe w val := by
    rw [← toBe_mod, ← toBe_mod w val, ← mul_assoc, Nat.mul_add_mod_self_right]
  rw [toBe_succ, hdiv, hmod]

/-- The length prefix that `encodeVarint` chooses. -/
def prefixOf (val : ℕ) : ℕ :=
  if val ≤ 0x3F then 0 else if val ≤ 0x3FFF then 1 else if val ≤ 0x3FFF_FFFF then 2 else 3

theorem prefixOf_le (val : ℕ) : prefixOf val ≤ 3 := by
  unfold prefixOf; split_ifs <;> omega

theorem lt_of_prefixOf {val : ℕ} (h : val < 2 ^ 62) :
    val < 64 * 256 ^ tailLength (prefixOf val) := by
  unfold prefixOf; split_ifs <;> norm_num [tailLength] at h ⊢ <;> omega

theorem encodeVarint_eq {val : ℕ} (h : val < 2 ^ 62) :
    encodeVarint val = taggedWord (prefixOf val) val := by
  unfold encodeVarint taggedWord prefixOf
  split_ifs with h₁ h₂ h₃
  · simp [tailLength]
  · have hv : val < 64 * 256 ^ 1 := by omega
    rw [Nat.mod_eq_of_lt (by omega : val < 2 ^ 16)]
    change toBe (1 + 1) (val ||| 1 * (64 * 256 ^ 1)) = _
    rw [or_tag hv, toBe_tag]
    rfl
  · have hv : val < 64 * 256 ^ 3 := by omega
    rw [Nat.mod_eq_of_lt (by omega : val < 2 ^ 32)]
    change toBe (3 + 1) (val ||| 2 * (64 * 256 ^ 3)) = _
    rw [or_tag hv, toBe_tag]
    rfl
  · have hv : val < 64 * 256 ^ 7 := by omega
    change toBe (7 + 1) (val ||| 3 * (64 * 256 ^ 7)) = _
    rw [or_tag hv, toBe_tag]
    rfl

theorem length_taggedWord (pre val : ℕ) : (taggedWord pre val).length = 2 ^ pre := by
  have : 0 < 2 ^ pre := by positivity
  simp [taggedWord, tailLength]; omega

/-! ## Words of the format -/

/-- `w` is a varint with value `v`, not necessarily of the shortest length. -/
def IsVarint (w : List UInt8) (v : ℕ) : Prop :=
  ∃ first rest, w = first :: rest ∧ rest.length = tailLength (first >>> 6).toNat ∧
    v = ofBe ((first &&& 0x3F) :: rest)

theorem untag {tag q : ℕ} (ht : tag ≤ 3) (hq : q < 64) :
    (UInt8.ofNat (tag * 64 + q) >>> 6).toNat = tag ∧
      (UInt8.ofNat (tag * 64 + q) &&& 0x3F).toNat = q := by
  rw [shiftRight_six, and_mask, UInt8.toNat_ofNat', Nat.mod_eq_of_lt (by omega)]
  omega

theorem isVarint_taggedWord {tag val : ℕ} (ht : tag ≤ 3) (h : val < 64 * 256 ^ tailLength tag) :
    IsVarint (taggedWord tag val) val := by
  have hq : val / 256 ^ tailLength tag < 64 := Nat.div_lt_of_lt_mul (by rwa [mul_comm] at h)
  obtain ⟨htag, hmask⟩ := untag ht hq
  refine ⟨_, _, rfl, by rw [htag, length_toBe], ?_⟩
  rw [ofBe, hmask, length_toBe, ofBe_toBe]
  exact (Nat.div_add_mod' val _).symm

theorem isVarint_encodeVarint {val : ℕ} (h : val < 2 ^ 62) : IsVarint (encodeVarint val) val := by
  rw [encodeVarint_eq h]
  exact isVarint_taggedWord (prefixOf_le val) (lt_of_prefixOf h)

theorem prefix_lt (first : UInt8) : (first >>> 6).toNat < 4 := by
  rw [shiftRight_six]
  have := first.toNat_lt
  omega

theorem IsVarint.ne_nil {w : List UInt8} {v : ℕ} (h : IsVarint w v) : w ≠ [] := by
  obtain ⟨first, rest, rfl, -, -⟩ := h
  simp

/-- Without its tag the first byte leaves six bits in front of the others. -/
theorem untagged_lt (first : UInt8) (rest : List UInt8) :
    ofBe ((first &&& 0x3F) :: rest) < 64 * 256 ^ rest.length := by
  have hrest := ofBe_lt rest
  have hmask : (first &&& 0x3F).toNat < 64 := by
    rw [and_mask]
    omega
  calc ofBe ((first &&& 0x3F) :: rest)
      < (first &&& 0x3F).toNat * 256 ^ rest.length + 256 ^ rest.length := by
        simp only [ofBe]; omega
    _ = ((first &&& 0x3F).toNat + 1) * 256 ^ rest.length := by ring
    _ ≤ 64 * 256 ^ rest.length := Nat.mul_le_mul_right _ hmask

theorem IsVarint.lt {w : List UInt8} {v : ℕ} (h : IsVarint w v) : v < 2 ^ 62 := by
  obtain ⟨first, rest, -, hlen, rfl⟩ := h
  have hp := prefix_lt first
  have htail : rest.length ≤ 7 := by
    rw [hlen, tailLength]
    have : 2 ^ (first >>> 6).toNat ≤ 2 ^ 3 := Nat.pow_le_pow_right (by omega) (by omega)
    omega
  calc ofBe ((first &&& 0x3F) :: rest)
      < 64 * 256 ^ rest.length := untagged_lt first rest
    _ ≤ 64 * 256 ^ 7 := Nat.mul_le_mul_left 64 (Nat.pow_le_pow_right (by omega) htail)
    _ = 2 ^ 62 := by norm_num

/-! ## The three readers -/

/-- What the readers have in common: the top two bits of the first byte give the length. -/
theorem decodeVarintFirstByte_eq (first : UInt8) :
    decodeVarintFirstByte first = (do
      let rest ← readExact (tailLength (first >>> 6).toNat)
      return ofBe ((first &&& 0x3F) :: rest)) := by
  have h4 := prefix_lt first
  unfold decodeVarintFirstByte
  obtain h | h | h | h : (first >>> 6).toNat = 0 ∨ (first >>> 6).toNat = 1 ∨
      (first >>> 6).toNat = 2 ∨ (first >>> 6).toNat = 3 := by omega
  · rw [h, tailLength, pow_zero, Nat.sub_self, ReadM.readExact_zero, pure_bind]
    simp [ofBe]
  · rw [h]; rfl
  · rw [h]; rfl
  · rw [h]; rfl

theorem decodeVarintFromSlice_cons (first : UInt8) (rest : List UInt8) :
    decodeVarintFromSlice (first :: rest) =
      if rest.length < tailLength (first >>> 6).toNat then .error (.invalid "Varint truncated")
      else .ok (ofBe ((first &&& 0x3F) :: rest.take (tailLength (first >>> 6).toNat)),
        rest.drop (tailLength (first >>> 6).toNat)) := by
  have h4 := prefix_lt first
  obtain h | h | h | h : (first >>> 6).toNat = 0 ∨ (first >>> 6).toNat = 1 ∨
      (first >>> 6).toNat = 2 ∨ (first >>> 6).toNat = 3 := by omega
  all_goals simp only [decodeVarintFromSlice, h, tailLength, List.length_cons]
  · simp [ofBe]
  all_goals
    simp only [Nat.reducePow, Nat.reduceSub]
    split_ifs <;> first | rfl | omega

/-- The first byte of a varint, and a reader for the bytes after it. -/
theorem IsVarint.cons {w : List UInt8} {v : ℕ} (h : IsVarint w v) :
    ∃ first rest, w = first :: rest ∧ Frames (decodeVarintFirstByte first) rest [] v := by
  obtain ⟨first, rest, rfl, hlen, rfl⟩ := h
  refine ⟨first, rest, rfl, ?_⟩
  rw [decodeVarintFirstByte_eq, ← hlen]
  exact (Frames.readExact rest).map

theorem frames_readVarint {w : List UInt8} {v : ℕ} (h : IsVarint w v) :
    Frames readVarint w [] v := by
  obtain ⟨first, rest, rfl, hf⟩ := h.cons
  rw [readVarint_eq]
  exact (Frames.readByte first).bind hf

theorem accepts_decodeVarintFirstByte (first : UInt8) :
    Accepts (decodeVarintFirstByte first) (fun w v => IsVarint (first :: w) v) Silent := by
  rw [decodeVarintFirstByte_eq]
  refine ((Accepts.readExact _).bind_silent fun rest => Accepts.pure _).mono ?_ fun _ _ h => h
  rintro w v ⟨w₁, rest, w₂, rfl, ⟨rfl, hlen⟩, rfl, rfl⟩
  exact ⟨first, w₁ ++ [], rfl, by simpa using hlen, by simp⟩

theorem accepts_readVarint : Accepts readVarint IsVarint Silent := by
  rw [readVarint_eq]
  refine (Accepts.readByte.bind_silent accepts_decodeVarintFirstByte).mono ?_ fun _ _ h => h
  rintro w v ⟨w₁, first, w₂, rfl, rfl, hv⟩
  exact hv

theorem decodeVarintFromSlice_append {w : List UInt8} {v : ℕ} (h : IsVarint w v)
    (rest : List UInt8) : decodeVarintFromSlice (w ++ rest) = .ok (v, rest) := by
  obtain ⟨first, tail, rfl, hlen, rfl⟩ := h
  rw [List.cons_append, decodeVarintFromSlice_cons, ← hlen, if_neg (by simp),
    List.take_left, List.drop_left]

/-- The slice decoder takes exactly one word of the format from the front. -/
theorem decodeVarintFromSlice_ok_iff {data rest : List UInt8} {v : ℕ} :
    decodeVarintFromSlice data = .ok (v, rest) ↔ ∃ w, data = w ++ rest ∧ IsVarint w v := by
  constructor
  · intro h
    cases data with
    | nil => simp [decodeVarintFromSlice] at h
    | cons first bytes =>
      rw [decodeVarintFromSlice_cons] at h
      split_ifs at h with hlt
      obtain ⟨rfl, rfl⟩ : _ = v ∧ _ = rest := by simpa using h
      refine ⟨first :: bytes.take (tailLength (first >>> 6).toNat), by simp, first, _, rfl, ?_, rfl⟩
      rw [List.length_take]
      omega
  · rintro ⟨w, rfl, hw⟩
    exact decodeVarintFromSlice_append hw rest

theorem length_encodeVarint {val : ℕ} (h : val < 2 ^ 62) :
    0 < (encodeVarint val).length ∧ (encodeVarint val).length ≤ 8 := by
  rw [encodeVarint_eq h, length_taggedWord]
  exact ⟨by positivity, Nat.pow_le_pow_right (by omega) (prefixOf_le val)⟩

end Meshconf.Protocol
