import Mathlib.Data.List.Induction
import Meshconf.Protocol.RoundTrip

/-! # The grammar of extension headers

A block of extension headers is a sequence of entries. An even type carries one
varint, an odd one a counted string of bytes. The parser accepts exactly these
blocks, and its result depends only on the last entry of each type it knows.
-/

namespace Meshconf.Protocol

open Bytes

inductive ExtensionEntry where
  | even (headerType value : ℕ)
  | odd (headerType : ℕ) (value : List UInt8)
  deriving DecidableEq, Repr

namespace ExtensionEntry

def headerType : ExtensionEntry → ℕ
  | even t _ => t
  | odd t _ => t

/-- The parser has no use for an entry of this type. -/
def Unknown (e : ExtensionEntry) : Prop :=
  e.headerType ≠ locExtCaptureTimestamp ∧ e.headerType ≠ locExtCodec

/-- `w` spells the entry, with varints of any length. -/
def Spells : ExtensionEntry → List UInt8 → Prop
  | even t v, w => t % 2 = 0 ∧ ∃ tag val, w = tag ++ val ∧ IsVarint tag t ∧ IsVarint val v
  | odd t v, w => t % 2 = 1 ∧ ∃ tag len, w = tag ++ (len ++ v) ∧ IsVarint tag t ∧
      IsVarint len v.length

/-- The value of an entry of type `t` that holds a number. -/
def valueAt (t : ℕ) : ExtensionEntry → Option ℕ
  | even t' v => if t' = t then some v else none
  | odd _ _ => none

end ExtensionEntry

open ExtensionEntry

/-- `data` is a concatenation of the entries. -/
inductive IsBlock : List UInt8 → List ExtensionEntry → Prop
  | nil : IsBlock [] []
  | cons {w data : List UInt8} {e : ExtensionEntry} {es : List ExtensionEntry} :
      e.Spells w → IsBlock data es → IsBlock (w ++ data) (e :: es)

/-- The last value of type `t`. -/
def lastValue (t : ℕ) (es : List ExtensionEntry) : Option ℕ := (es.filterMap (valueAt t)).getLast?

/-- What a block says about the two known types. -/
def blockValues (es : List ExtensionEntry) : ExtensionValues where
  captureTimestampUs := (lastValue locExtCaptureTimestamp es).getD 0
  codec := (lastValue locExtCodec es).bind Codec.fromU64

/-! ## One round of the loop -/

/-- The body of the loop of `parseExtensionHeaders`, on data that is not empty. -/
def extensionRound (vals : ExtensionValues) (data : List UInt8) :
    Except ReadError (ExtensionValues × List UInt8) := do
  let (headerType, data) ← decodeVarintFromSlice data
  if headerType % 2 = 0 then
    let (value, data) ← decodeVarintFromSlice data
    if headerType = locExtCaptureTimestamp then
      return ({ vals with captureTimestampUs := value }, data)
    else if headerType = locExtCodec then return ({ vals with codec := Codec.fromU64 value }, data)
    else return (vals, data)
  else
    let (length, rest) ← decodeVarintFromSlice data
    if rest.length < length then throw (.invalid "Extension header truncated")
    return (vals, rest.drop length)

/-- A run of the loop that ends, with its result. -/
inductive Evaluates : ExtensionValues → List UInt8 → Except ReadError ExtensionValues → Prop
  | done (vals) : Evaluates vals [] (.ok vals)
  | error {vals data e} : data ≠ [] → extensionRound vals data = .error e →
      Evaluates vals data (.error e)
  | round {vals data vals' data' r} : data ≠ [] →
      extensionRound vals data = .ok (vals', data') → Evaluates vals' data' r →
      Evaluates vals data r

/-- What an entry does to the values collected so far. -/
def ExtensionValues.update (vals : ExtensionValues) : ExtensionEntry → ExtensionValues
  | even t v =>
    if t = locExtCaptureTimestamp then { vals with captureTimestampUs := v }
    else if t = locExtCodec then { vals with codec := Codec.fromU64 v }
    else vals
  | odd _ _ => vals

theorem parseExtensionLoop_succ (fuel : ℕ) (vals : ExtensionValues) {data : List UInt8}
    (hne : data ≠ []) : parseExtensionLoop (fuel + 1) vals data =
      extensionRound vals data >>= fun p => parseExtensionLoop fuel p.1 p.2 := by
  have hempty : data.isEmpty = false := by simpa using hne
  rw [parseExtensionLoop, extensionRound, hempty]
  simp only [Bool.false_eq_true, if_false]
  rcases decodeVarintFromSlice data with _ | ⟨t, data⟩
  · rfl
  · rcases h : decodeVarintFromSlice data with _ | ⟨v, rest⟩
    · by_cases ht : t % 2 = 0 <;> simp [ht, h, bind, Except.bind]
    · by_cases ht : t % 2 = 0
      · simp only [ht, h, if_true, bind, Except.bind]
        split_ifs <;> rfl
      · simp only [ht, h, if_false, bind, Except.bind]
        split_ifs <;> rfl

/-- A round that succeeds takes one entry from the front. -/
theorem extensionRound_ok_iff {vals vals' : ExtensionValues} {data data' : List UInt8} :
    extensionRound vals data = .ok (vals', data') ↔
      ∃ w e, data = w ++ data' ∧ Spells e w ∧ vals' = vals.update e := by
  constructor
  · intro h
    obtain ⟨⟨t, rest⟩, ht, h₁⟩ := bind_eq_ok.mp h
    clear h
    obtain ⟨tag, rfl, htag⟩ := decodeVarintFromSlice_ok_iff.mp ht
    by_cases he : t % 2 = 0
    · simp only [he, if_true] at h₁
      obtain ⟨⟨v, rest'⟩, hv, h₂⟩ := bind_eq_ok.mp h₁
      clear h₁
      obtain ⟨val, rfl, hval⟩ := decodeVarintFromSlice_ok_iff.mp hv
      obtain ⟨hvals, rfl⟩ : vals' = vals.update (even t v) ∧ data' = rest' := by
        rw [ExtensionValues.update]
        split_ifs at h₂ ⊢ <;> cases h₂ <;> exact ⟨rfl, rfl⟩
      exact ⟨tag ++ val, even t v, by simp, ⟨he, tag, val, rfl, htag, hval⟩, hvals⟩
    · simp only [he, if_false] at h₁
      obtain ⟨⟨n, rest'⟩, hn, h₂⟩ := bind_eq_ok.mp h₁
      clear h₁
      obtain ⟨len, rfl, hlen⟩ := decodeVarintFromSlice_ok_iff.mp hn
      obtain ⟨hle, h₃⟩ := guard_eq_ok.mp h₂
      cases h₃
      have hlength : (rest'.take n).length = n := List.length_take_of_le (Nat.le_of_not_lt hle)
      refine ⟨tag ++ (len ++ rest'.take n), odd t (rest'.take n), by simp, ?_, rfl⟩
      exact ⟨by omega, tag, len, rfl, htag, by rwa [hlength]⟩
  · rintro ⟨w, e, rfl, hw, rfl⟩
    cases e with
    | even t v =>
      obtain ⟨ht, tag, val, rfl, htag, hval⟩ := hw
      simp only [extensionRound, List.append_assoc, decodeVarintFromSlice_append htag,
        decodeVarintFromSlice_append hval, ht, if_true, bind, Except.bind, ExtensionValues.update]
      split_ifs <;> rfl
    | odd t v =>
      obtain ⟨ht, tag, len, rfl, htag, hlen⟩ := hw
      simp only [extensionRound, List.append_assoc, decodeVarintFromSlice_append htag,
        decodeVarintFromSlice_append hlen, ht, one_ne_zero, if_false, bind, Except.bind]
      rw [if_neg (by simp), List.drop_left]
      rfl

theorem ExtensionEntry.Spells.ne_nil {e : ExtensionEntry} {w : List UInt8} (h : e.Spells w) :
    w ≠ [] := by
  cases e with
  | even t v =>
    obtain ⟨-, tag, val, rfl, htag, -⟩ := h
    simp [htag.ne_nil]
  | odd t v =>
    obtain ⟨-, tag, len, rfl, htag, -⟩ := h
    simp [htag.ne_nil]

/-! ## The loop -/

/-- The loop ends within the fuel that the parser gives it, or any more. -/
theorem evaluates_parseExtensionLoop :
    ∀ (fuel : ℕ) (vals : ExtensionValues) (data : List UInt8), data.length ≤ fuel →
      Evaluates vals data (parseExtensionLoop fuel vals data) := by
  intro fuel
  induction fuel with
  | zero =>
    intro vals data h
    obtain rfl : data = [] := List.length_eq_zero_iff.mp (by omega)
    exact .done vals
  | succ fuel ih =>
    intro vals data h
    by_cases hne : data = []
    · subst hne
      exact .done vals
    · rw [parseExtensionLoop_succ fuel vals hne]
      rcases hr : extensionRound vals data with e | ⟨vals', data'⟩
      · exact .error hne hr
      · -- An entry is a byte at least, so what is left is shorter.
        obtain ⟨w, e, rfl, hw, -⟩ := extensionRound_ok_iff.mp hr
        have hpos := List.length_pos_of_ne_nil hw.ne_nil
        rw [List.length_append] at h
        exact .round hne hr (ih vals' data' (by omega))

theorem evaluates_round_iff {vals vals' : ExtensionValues} {data data' : List UInt8}
    {r : Except ReadError ExtensionValues} (hne : data ≠ [])
    (hr : extensionRound vals data = .ok (vals', data')) :
    Evaluates vals data r ↔ Evaluates vals' data' r := by
  constructor
  · intro h
    cases h with
    | done => exact absurd rfl hne
    | error _ hr' => simp [hr] at hr'
    | round _ hr' hrest =>
      obtain ⟨rfl, rfl⟩ := Prod.mk.inj (Except.ok.inj (hr.symm.trans hr'))
      exact hrest
  · exact .round hne hr

theorem Evaluates.unique {vals : ExtensionValues} {data : List UInt8}
    {r r' : Except ReadError ExtensionValues} (h : Evaluates vals data r)
    (h' : Evaluates vals data r') : r = r' := by
  induction h with
  | done vals =>
    cases h' with
    | done => rfl
    | error hne => exact absurd rfl hne
    | round hne => exact absurd rfl hne
  | error hne hr =>
    cases h' with
    | done => exact absurd rfl hne
    | error _ hr' => rw [Except.error.inj (hr.symm.trans hr')]
    | round _ hr' => simp [hr] at hr'
  | round hne hr _ ih => exact ih ((evaluates_round_iff hne hr).mp h')

/-- In front of a block the loop takes its entries one by one. -/
theorem evaluates_append_iff {block rest : List UInt8} {es : List ExtensionEntry}
    {vals : ExtensionValues} {r : Except ReadError ExtensionValues} (h : IsBlock block es) :
    Evaluates vals (block ++ rest) r ↔ Evaluates (es.foldl ExtensionValues.update vals) rest r := by
  induction h generalizing vals with
  | nil => rfl
  | @cons w data e es hw _ ih =>
    have hne : w ++ data ++ rest ≠ [] := by simp [hw.ne_nil]
    have hr : extensionRound vals (w ++ data ++ rest) = .ok (vals.update e, data ++ rest) :=
      extensionRound_ok_iff.mpr ⟨w, e, List.append_assoc _ _ _, hw, rfl⟩
    rw [List.foldl_cons, ← ih]
    exact evaluates_round_iff hne hr

/-- What the loop accepts is a block. -/
theorem Evaluates.isBlock {vals vals' : ExtensionValues} {data : List UInt8}
    {r : Except ReadError ExtensionValues} (h : Evaluates vals data r) (hr : r = .ok vals') :
    ∃ es, IsBlock data es ∧ vals' = es.foldl ExtensionValues.update vals := by
  induction h with
  | done vals => exact ⟨[], .nil, (Except.ok.inj hr).symm⟩
  | error _ _ => cases hr
  | round _ hround _ ih =>
    obtain ⟨es, hes, rfl⟩ := ih hr
    obtain ⟨w, e, rfl, hw, rfl⟩ := extensionRound_ok_iff.mp hround
    exact ⟨e :: es, .cons hw hes, rfl⟩

/-! ## What a block says -/

theorem lastValue_concat (t : ℕ) (es : List ExtensionEntry) (e : ExtensionEntry) :
    lastValue t (es ++ [e]) = (valueAt t e).or (lastValue t es) := by
  rw [lastValue, List.filterMap_append]
  cases h : valueAt t e with
  | none => simp [h, lastValue]
  | some v => simp [h]

theorem foldl_update (es : List ExtensionEntry) :
    es.foldl ExtensionValues.update {} = blockValues es := by
  induction es using List.reverseRecOn with
  | nil => rfl
  | append_singleton es e ih =>
    rw [List.foldl_append, List.foldl_cons, List.foldl_nil, ih, blockValues, blockValues,
      lastValue_concat, lastValue_concat]
    cases e with
    | odd t v => rfl
    | even t v =>
      simp only [ExtensionValues.update, valueAt]
      by_cases h₂ : t = locExtCaptureTimestamp
      · simp [h₂, locExtCaptureTimestamp, locExtCodec]
      · by_cases h₄ : t = locExtCodec
        · simp [h₄, locExtCaptureTimestamp, locExtCodec]
        · simp [h₂, h₄]

theorem foldl_update_unknown {es : List ExtensionEntry} (h : ∀ e ∈ es, e.Unknown)
    (vals : ExtensionValues) : es.foldl ExtensionValues.update vals = vals := by
  induction es with
  | nil => rfl
  | cons e es ih =>
    have he : vals.update e = vals := by
      cases e with
      | odd t v => rfl
      | even t v =>
        obtain ⟨h₂, h₄⟩ := h _ (List.mem_cons_self ..)
        exact (if_neg h₂).trans (if_neg h₄)
    rw [List.foldl_cons, he, ih fun x hx => h x (List.mem_cons_of_mem _ hx)]

/-! ## The parser -/

theorem evaluates_iff {data : List UInt8} {r : Except ReadError ExtensionValues} :
    Evaluates {} data r ↔ parseExtensionHeaders data = r := by
  have h := evaluates_parseExtensionLoop data.length {} data le_rfl
  constructor
  · intro hr
    exact h.unique hr
  · rintro rfl
    exact h

theorem parseExtensionHeaders_ok_iff {data : List UInt8} {vals : ExtensionValues} :
    parseExtensionHeaders data = .ok vals ↔ ∃ es, IsBlock data es ∧ vals = blockValues es := by
  rw [← evaluates_iff]
  constructor
  · intro h
    obtain ⟨es, hes, rfl⟩ := h.isBlock rfl
    exact ⟨es, hes, foldl_update es⟩
  · rintro ⟨es, hes, rfl⟩
    have h : Evaluates {} (data ++ []) (.ok (blockValues es)) := by
      rw [evaluates_append_iff hes, foldl_update]
      exact .done _
    rwa [List.append_nil] at h

/-- Entries that the parser does not know make no difference, wherever they stand. -/
theorem parseExtensionHeaders_insert {before extra after : List UInt8}
    {es xs : List ExtensionEntry} (hb : IsBlock before es) (hx : IsBlock extra xs)
    (hxs : ∀ e ∈ xs, e.Unknown) :
    parseExtensionHeaders (before ++ (extra ++ after)) =
      parseExtensionHeaders (before ++ after) := by
  rw [← evaluates_iff, evaluates_append_iff hb, evaluates_append_iff hx,
    foldl_update_unknown hxs, ← evaluates_append_iff hb, evaluates_iff]

/--
The parser accepts exactly the blocks, with the last values of the known types. Unknown entries
make no difference, and the loop ends on every input.
-/
theorem parseExtensionHeaders_grammar :
    (∀ data vals, parseExtensionHeaders data = .ok vals ↔
      ∃ es, IsBlock data es ∧ vals = blockValues es) ∧
    (∀ before extra after es xs, IsBlock before es → IsBlock extra xs → (∀ e ∈ xs, e.Unknown) →
      parseExtensionHeaders (before ++ (extra ++ after)) =
        parseExtensionHeaders (before ++ after)) ∧
    ∀ data, Evaluates {} data (parseExtensionHeaders data) :=
  ⟨fun _ _ => parseExtensionHeaders_ok_iff,
    fun _ _ _ _ _ hb hx hxs => parseExtensionHeaders_insert hb hx hxs,
    fun _ => evaluates_iff.mpr rfl⟩

/-- A timestamp, an unknown entry of five bytes and a codec. -/
theorem parseExtensionHeaders_grammar_padded :
    parseExtensionHeaders ([2, 9] ++ ([7, 3, 1, 1, 1] ++ [4, 1])) =
      parseExtensionHeaders ([2, 9] ++ [4, 1]) := by
  have h2 : IsBlock [2, 9] [even 2 9] :=
    .cons (w := [2, 9]) ⟨rfl, [2], [9], rfl, isVarint_encodeVarint (by decide : 2 < 2 ^ 62),
      isVarint_encodeVarint (by decide : 9 < 2 ^ 62)⟩ .nil
  have h7 : IsBlock [7, 3, 1, 1, 1] [odd 7 [1, 1, 1]] :=
    .cons (w := [7, 3, 1, 1, 1]) ⟨rfl, [7], [3], rfl,
      isVarint_encodeVarint (by decide : 7 < 2 ^ 62),
      isVarint_encodeVarint (by decide : 3 < 2 ^ 62)⟩ .nil
  refine parseExtensionHeaders_grammar.2.1 _ _ _ _ _ h2 h7 ?_
  intro e he
  obtain rfl := List.mem_singleton.mp he
  exact ⟨by decide, by decide⟩

end Meshconf.Protocol
