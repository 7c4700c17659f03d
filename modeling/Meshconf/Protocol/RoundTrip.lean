import Meshconf.Protocol.Framing

/-! # Reading back what was written

Header and object readers frame the words of their writers. A stream cut at any
byte therefore gives back the objects that arrived whole, in order, and then
either a clean end or an error.
-/

namespace Meshconf.Protocol

open Bytes

/-- `w` holds the fields of `h` after the stream type. -/
def IsHeaderTail (w : List UInt8) (h : SubgroupHeader) : Prop :=
  ∃ track group subgroup, w = track ++ (group ++ (subgroup ++ [h.publisherPriority])) ∧
    IsVarint track h.trackAlias ∧ IsVarint group h.groupId ∧ IsVarint subgroup h.subgroupId

/-- `w` is a subgroup header with the fields of `h`. -/
def IsHeader (w : List UInt8) (h : SubgroupHeader) : Prop :=
  ∃ tag rest, w = tag ++ rest ∧ IsVarint tag streamTypeSubgroup ∧ IsHeaderTail rest h

theorem isHeader_writeSubgroupHeader {h : SubgroupHeader} (hh : h.Fits) :
    IsHeader (writeSubgroupHeader h) h :=
  ⟨_, _, by simp only [writeSubgroupHeader, List.append_assoc], isVarint_encodeVarint (by decide),
    _, _, _, rfl, isVarint_encodeVarint hh.trackAlias_lt, isVarint_encodeVarint hh.groupId_lt,
    isVarint_encodeVarint hh.subgroupId_lt⟩

theorem frames_readSubgroupHeader {w : List UInt8} {h : SubgroupHeader} (hw : IsHeader w h) :
    Frames readSubgroupHeader w [] h := by
  obtain ⟨tag, _, rfl, htag, track, group, subgroup, rfl, htrack, hgroup, hsubgroup⟩ := hw
  unfold readSubgroupHeader
  refine (frames_readVarint htag).bind ?_
  simp only [ne_eq, not_true_eq_false, if_false]
  refine (frames_readVarint htrack).bind ?_
  refine (frames_readVarint hgroup).bind ?_
  refine (frames_readVarint hsubgroup).bind ?_
  exact (Frames.readByte h.publisherPriority).map

theorem accepts_readSubgroupHeader : Accepts readSubgroupHeader IsHeader Silent := by
  have htail := accepts_readVarint.bind_silent fun trackAlias =>
    accepts_readVarint.bind_silent fun groupId =>
    accepts_readVarint.bind_silent fun subgroupId => Accepts.readByte.bind_silent fun prio =>
    Accepts.pure ({ trackAlias, groupId, subgroupId, publisherPriority := prio } : SubgroupHeader)
  refine (accepts_readVarint.bind_silent (V := fun streamType w h =>
    streamType = streamTypeSubgroup ∧ IsHeaderTail w h) fun streamType => ?_).mono ?_
    fun _ _ h => h
  · by_cases ht : streamType = streamTypeSubgroup
    · simp only [ne_eq, ht, not_true_eq_false, if_false, true_and]
      refine htail.mono ?_ fun _ _ h => h
      rintro w h ⟨track, _, _, rfl, htrack, group, _, _, rfl, hgroup, subgroup, _, _, rfl,
        hsubgroup, _, prio, _, rfl, rfl, rfl, rfl⟩
      exact ⟨track, group, subgroup, by simp, htrack, hgroup, hsubgroup⟩
    · simp only [ne_eq, ht, not_false_eq_true, if_true, ReadM.throw_bind, false_and]
      exact Accepts.throw _
  · rintro w h ⟨tag, streamType, rest, rfl, htag, rfl, hrest⟩
    exact ⟨tag, rest, rfl, htag, hrest⟩

/-- Whatever part of a written header arrives, a reader that accepts it returns this header. -/
theorem readSubgroupHeader_eq {h h' : SubgroupHeader} (hh : h.Fits) {s t : Stream}
    {rest : List UInt8} (hs : s.input <+: writeSubgroupHeader h ++ rest)
    (hr : readSubgroupHeader.exec s = (.ok h', t)) : h' = h ∧ t.input <+: rest := by
  have hf := frames_readSubgroupHeader (isHeader_writeSubgroupHeader hh)
  by_cases hle : (writeSubgroupHeader h).length ≤ s.input.length
  · obtain ⟨q, hq⟩ := List.prefix_of_prefix_length_le (List.prefix_append _ _) hs hle
    rw [hf.whole s q hq.symm] at hr
    obtain ⟨rfl, rfl⟩ : h = h' ∧ s.advance q [] = t := by simpa using hr
    exact ⟨rfl, by rwa [← hq, List.prefix_append_right_inj] at hs⟩
  · have hp := List.prefix_of_prefix_length_le hs (List.prefix_append _ _) (Nat.le_of_not_le hle)
    obtain ⟨e, u, he⟩ := hf.cut s hp fun heq => hle (heq ▸ le_rfl)
    simp [he] at hr

/-! ## The extension block -/

theorem parseExtensionLoop_nil (fuel : ℕ) (vals : ExtensionValues) :
    parseExtensionLoop fuel vals [] = .ok vals := by
  cases fuel <;> rfl

/-- One round of the loop on an even entry. -/
theorem parseExtensionLoop_even {w w' : List UInt8} {headerType value : ℕ}
    (hw : IsVarint w headerType) (hw' : IsVarint w' value) (he : headerType % 2 = 0) (fuel : ℕ)
    (vals : ExtensionValues) (rest : List UInt8) :
    parseExtensionLoop (fuel + 1) vals (w ++ (w' ++ rest)) =
      parseExtensionLoop fuel
        (if headerType = locExtCaptureTimestamp then { vals with captureTimestampUs := value }
          else if headerType = locExtCodec then { vals with codec := Codec.fromU64 value }
          else vals) rest := by
  have hne : (w ++ (w' ++ rest)).isEmpty = false := by
    obtain ⟨first, tail, rfl, -⟩ := hw.cons
    simp
  simp only [parseExtensionLoop, hne, decodeVarintFromSlice_append hw,
    decodeVarintFromSlice_append hw', he, if_true, Bool.false_eq_true, if_false, bind,
    Except.bind]

theorem parseExtensionLoop_build {ts : ℕ} (h : ts < 2 ^ 62) (codec : Option Codec) {fuel : ℕ}
    (hf : 2 ≤ fuel) :
    parseExtensionLoop fuel {} (buildExtensionHeaders ts codec) =
      .ok { captureTimestampUs := ts, codec := codec } := by
  obtain ⟨fuel, rfl⟩ : ∃ n, fuel = n + 2 := ⟨fuel - 2, by omega⟩
  have htype := isVarint_encodeVarint (by decide : locExtCaptureTimestamp < 2 ^ 62)
  have hcodec := isVarint_encodeVarint (by decide : locExtCodec < 2 ^ 62)
  unfold buildExtensionHeaders
  rw [List.append_assoc, parseExtensionLoop_even htype (isVarint_encodeVarint h) rfl]
  cases codec with
  | none => exact parseExtensionLoop_nil _ _
  | some c =>
    have hround := parseExtensionLoop_even hcodec (isVarint_encodeVarint c.toU64_lt) rfl fuel
      { captureTimestampUs := ts } []
    rw [List.append_nil, parseExtensionLoop_nil, Codec.fromU64_toU64] at hround
    exact hround

theorem parseExtensionHeaders_build {ts : ℕ} (h : ts < 2 ^ 62) (codec : Option Codec) :
    parseExtensionHeaders (buildExtensionHeaders ts codec) =
      .ok { captureTimestampUs := ts, codec := codec } := by
  refine parseExtensionLoop_build h codec ?_
  have h₁ := length_encodeVarint (by decide : locExtCaptureTimestamp < 2 ^ 62)
  have h₂ := length_encodeVarint h
  simp only [buildExtensionHeaders, List.length_append]
  omega

theorem frames_readExtensions {ext : List UInt8} {vals : ExtensionValues} (hne : ext ≠ [])
    (hle : ext.length ≤ 64) (hp : parseExtensionHeaders ext = .ok vals) :
    Frames (readExtensions ext.length) ext [64] vals := by
  rw [readExtensions, if_pos (List.length_pos_of_ne_nil hne)]
  refine Frames.request_bind ?_
  simp only [Nat.not_lt.mpr hle, if_false]
  apply Frames.readExact_bind
  rw [hp]
  exact Frames.pure vals

/-! ## Objects -/

/-- The status that the reader expects after an empty payload and the writer leaves out. -/
def ObjectData.status (o : ObjectData) : List UInt8 := if o.payload = [] then [0] else []

/-- The first byte of an object, and a reader for the bytes after it. -/
theorem writeObject_status_cons {o : ObjectData} (ho : o.Bounded) :
    ∃ first rest, writeObject o ++ o.status = first :: rest ∧
      Frames (readObjectTail first) rest [64, o.payload.length] (some o) := by
  obtain ⟨first, rest, hid, hfirst⟩ := (isVarint_encodeVarint ho.objectId_lt).cons
  refine ⟨first, rest ++ (encodeVarint (buildExtensionHeaders o.captureTimestampUs o.codec).length
    ++ buildExtensionHeaders o.captureTimestampUs o.codec) ++
      (encodeVarint o.payload.length ++ (o.payload ++ o.status)), by simp [writeObject, hid], ?_⟩
  obtain ⟨hpos, hle⟩ := length_buildExtensionHeaders ho.captureTimestampUs_lt o.codec
  unfold readObjectTail
  simp only [List.append_assoc]
  refine hfirst.silent_bind ?_
  refine (frames_readVarint (isVarint_encodeVarint (by omega))).silent_bind ?_
  refine (frames_readExtensions (List.ne_nil_of_length_pos hpos) (by omega)
    (parseExtensionHeaders_build ho.captureTimestampUs_lt o.codec)).bind ?_
  refine (frames_readVarint (isVarint_encodeVarint ho.payload_lt)).silent_bind ?_
  by_cases hp : o.payload = []
  · have hstatus : IsVarint [0] 0 := isVarint_encodeVarint (by decide : 0 < 2 ^ 62)
    have ho' : o = ⟨o.objectId, o.captureTimestampUs, o.codec, []⟩ := by rw [← hp]
    simp only [ObjectData.status, hp, List.length_nil, if_true, List.nil_append]
    have hrest : Frames (do
        request 0
        return some ⟨o.objectId, o.captureTimestampUs, o.codec, []⟩) [] [0] (some o) := by
      rw [← ho']
      exact Frames.request_bind (Frames.pure _)
    exact (frames_readVarint hstatus).silent_bind hrest
  · have hne : o.payload.length ≠ 0 := by simpa using hp
    simp only [hne, ObjectData.status, hp, if_false, List.append_nil]
    refine Frames.request_bind ?_
    exact (Frames.readExact o.payload).map

theorem ObjectData.Fits.status {o : ObjectData} (ho : o.Fits) : o.status = [] :=
  if_neg ho.payload_ne

theorem writeObject_cons {o : ObjectData} (ho : o.Fits) :
    ∃ first rest, writeObject o = first :: rest ∧
      Frames (readObjectTail first) rest [64, o.payload.length] (some o) := by
  simpa [ho.status] using writeObject_status_cons ho.bounded

theorem readObject_nil {s : Stream} (hs : s.input = []) (he : s.ending = .finished) :
    readObject.exec s = (.ok none, s) := by
  rw [readObject, ReadM.exec_bind, ReadM.exec_attempt, ReadM.exec_readByte_nil hs, he]
  rfl

theorem readObject_cons {s : Stream} {first : UInt8} {rest : List UInt8}
    (hs : s.input = first :: rest) :
    readObject.exec s = (readObjectTail first).exec { s with input := rest } := by
  rw [readObject, ReadM.exec_bind, ReadM.exec_attempt, ReadM.exec_readByte_cons hs]

theorem readObject_whole {o : ObjectData} (ho : o.Fits) {s : Stream} {rest : List UInt8}
    (hs : s.input = writeObject o ++ rest) :
    readObject.exec s = (.ok (some o), s.advance rest [64, o.payload.length]) := by
  obtain ⟨first, tail, hw, hf⟩ := writeObject_cons ho
  rw [hw, List.cons_append] at hs
  rw [readObject_cons hs]
  exact hf.whole { s with input := tail ++ rest } rest rfl

theorem readObject_cut {o : ObjectData} (ho : o.Bounded) {s : Stream}
    (hs : s.input <+: writeObject o ++ o.status) (hne : s.input ≠ writeObject o ++ o.status)
    (hnil : s.input ≠ []) : ∃ e t, readObject.exec s = (.error e, t) := by
  obtain ⟨first, tail, hw, hf⟩ := writeObject_status_cons ho
  obtain ⟨b, bs, hb⟩ := List.exists_cons_of_ne_nil hnil
  rw [hb, hw, List.cons_prefix_cons] at hs
  obtain ⟨rfl, hs⟩ := hs
  rw [readObject_cons hb]
  refine hf.cut { s with input := bs } hs fun he => hne ?_
  rw [hb, hw, ← he]

/-- Whatever part of an object arrives, a reader that returns an object returns this one. -/
theorem readObject_eq {o o' : ObjectData} (ho : o.Bounded) {s t : Stream}
    (hs : s.input <+: writeObject o) (h : readObject.exec s = (.ok (some o'), t)) : o' = o := by
  have hs' : s.input <+: writeObject o ++ o.status := hs.trans (List.prefix_append _ _)
  by_cases hnil : s.input = []
  · rw [readObject, ReadM.exec_bind, ReadM.exec_attempt, ReadM.exec_readByte_nil hnil] at h
    cases he : s.ending with
    | finished => simp [he, Ending.error] at h
    | reset => simp [he, Ending.error] at h
  · by_cases heq : s.input = writeObject o ++ o.status
    · obtain ⟨first, tail, hw, hf⟩ := writeObject_status_cons ho
      rw [readObject_cons (heq.trans hw), hf.whole { s with input := tail } [] (by simp)] at h
      simpa using (congrArg Prod.fst h).symm
    · obtain ⟨e, u, he⟩ := readObject_cut ho hs' heq hnil
      simp [he] at h

theorem writeObject_ne_nil {o : ObjectData} (ho : o.Fits) : writeObject o ≠ [] := by
  obtain ⟨first, rest, hw, -⟩ := writeObject_cons ho
  simp [hw]

/-! ## Streams cut anywhere -/

/-- Read objects until the stream ends or fails, at most `fuel` of them. -/
def readObjects : ℕ → Stream → List ObjectData × Except ReadError Unit
  | 0, _ => ([], .error (.invalid "too many objects"))
  | fuel + 1, s =>
    match readObject.exec s with
    | (.ok (some o), t) => (o :: (readObjects fuel t).1, (readObjects fuel t).2)
    | (.ok none, _) => ([], .ok ())
    | (.error e, _) => ([], .error e)

/-- Read every object of a stream. An object takes a byte at least, so the fuel does not run out. -/
def readAllObjects (s : Stream) : List ObjectData × Except ReadError Unit :=
  readObjects (s.input.length + 1) s

/-- The bytes of the first `n` objects. -/
def wire (os : List ObjectData) (n : ℕ) : List UInt8 := (os.take n).flatMap writeObject

@[simp] theorem wire_zero (os : List ObjectData) : wire os 0 = [] := rfl

@[simp] theorem wire_cons_succ (o : ObjectData) (os : List ObjectData) (n : ℕ) :
    wire (o :: os) (n + 1) = writeObject o ++ wire os n := rfl

/--
The outcome of reading a cut stream: `n` objects lie wholly in `p`, they are returned, and the end
is clean exactly at an object boundary.
-/
def Recovers (os : List ObjectData) (p : List UInt8)
    (r : List ObjectData × Except ReadError Unit) : Prop :=
  ∃ n ≤ os.length, (∀ m ≤ os.length, (wire os m).length ≤ p.length ↔ m ≤ n) ∧
    r.1 = os.take n ∧ (p = wire os n → r.2 = .ok ()) ∧ (p ≠ wire os n → ∃ e, r.2 = .error e)

theorem recovers_none {o : ObjectData} {os : List ObjectData} {p : List UInt8}
    {r : Except ReadError Unit} (hlt : p.length < (writeObject o).length)
    (hok : p = [] → r = .ok ()) (herr : p ≠ [] → ∃ e, r = .error e) :
    Recovers (o :: os) p ([], r) := by
  refine ⟨0, Nat.zero_le _, ?_, rfl, hok, herr⟩
  intro m _
  cases m with
  | zero => simp
  | succ m =>
    rw [wire_cons_succ, List.length_append]
    omega

theorem recovers_cons {o : ObjectData} {os : List ObjectData} {q : List UInt8}
    {r : List ObjectData × Except ReadError Unit} (h : Recovers os q r) :
    Recovers (o :: os) (writeObject o ++ q) (o :: r.1, r.2) := by
  obtain ⟨n, hn, hmax, hos, hok, herr⟩ := h
  refine ⟨n + 1, by simpa using hn, ?_, by simp [hos], ?_, ?_⟩
  · intro m hm
    cases m with
    | zero => simp
    | succ m =>
      have := hmax m (by simpa using hm)
      simp only [wire_cons_succ, List.length_append]
      omega
  · intro h
    exact hok (by simpa using h)
  · intro h
    exact herr (by simpa using h)

/-- The run of the reader, by induction on the objects that were written. -/
theorem readObjects_recovers {os : List ObjectData} (hos : ∀ o ∈ os, o.Fits) :
    ∀ (fuel : ℕ) (s : Stream), s.ending = .finished → s.input.length < fuel →
      s.input <+: wire os os.length → Recovers os s.input (readObjects fuel s) := by
  induction os with
  | nil =>
    intro fuel s he hf hp
    have hnil : s.input = [] := List.prefix_nil.mp (by simpa [wire] using hp)
    obtain ⟨fuel, rfl⟩ : ∃ n, fuel = n + 1 := ⟨fuel - 1, by omega⟩
    rw [readObjects, readObject_nil hnil he]
    exact ⟨0, le_rfl, fun m hm => by simpa [wire] using hm, rfl, fun _ => rfl,
      fun h => absurd hnil h⟩
  | cons o os ih =>
    intro fuel s he hf hp
    have ho := hos o (by simp)
    obtain ⟨fuel, rfl⟩ : ∃ n, fuel = n + 1 := ⟨fuel - 1, by omega⟩
    rw [List.length_cons, wire_cons_succ] at hp
    by_cases hw : writeObject o <+: s.input
    · obtain ⟨q, hq⟩ := hw
      have hr := readObject_whole ho hq.symm
      have hlen : q.length < fuel := by
        have := List.length_pos_of_ne_nil (writeObject_ne_nil ho)
        rw [← hq, List.length_append] at hf
        omega
      have hrest := ih (fun x hx => hos x (by simp [hx])) fuel
        (s.advance q [64, o.payload.length]) he hlen
        (by rwa [← hq, List.prefix_append_right_inj] at hp)
      rw [readObjects, hr, ← hq]
      exact recovers_cons hrest
    · -- The cut falls inside the first object.
      have hin : s.input <+: writeObject o :=
        (List.prefix_or_prefix_of_prefix hp (List.prefix_append _ _)).resolve_right hw
      have hne : s.input ≠ writeObject o := fun h => hw (h ▸ List.prefix_rfl)
      have hlt : s.input.length < (writeObject o).length :=
        lt_of_le_of_ne hin.length_le fun h => hne (hin.eq_of_length h)
      by_cases hnil : s.input = []
      · rw [readObjects, readObject_nil hnil he]
        exact recovers_none hlt (fun _ => rfl) fun h => absurd hnil h
      · obtain ⟨e, t, hr⟩ := readObject_cut ho.bounded (by simpa [ho.status] using hin)
          (by simpa [ho.status] using hne) hnil
        rw [readObjects, hr]
        exact recovers_none hlt (fun h => absurd h hnil) fun _ => ⟨e, rfl⟩

/--
Every prefix of a written stream either fails at a cut header, or gives the header, then exactly
the objects that lie wholly in the prefix, then a clean end at an object boundary and an error
elsewhere.
-/
theorem readStream_recovers (h : SubgroupHeader) (hh : h.Fits) (os : List ObjectData)
    (hos : ∀ o ∈ os, o.Fits) (p : List UInt8)
    (hp : p <+: writeSubgroupHeader h ++ os.flatMap writeObject) :
    (p.length < (writeSubgroupHeader h).length → ∃ e t,
      readSubgroupHeader.exec { input := p, ending := .finished } = (.error e, t)) ∧
    ((writeSubgroupHeader h).length ≤ p.length → ∃ q t, p = writeSubgroupHeader h ++ q ∧
      readSubgroupHeader.exec { input := p, ending := .finished } = (.ok h, t) ∧
      Recovers os q (readAllObjects t)) := by
  have hf := frames_readSubgroupHeader (isHeader_writeSubgroupHeader hh)
  constructor
  · intro hlt
    refine hf.cut _ ?_ fun he => absurd (congrArg List.length he) (by dsimp only; omega)
    exact List.prefix_of_prefix_length_le hp (List.prefix_append _ _) hlt.le
  · intro hle
    obtain ⟨q, rfl⟩ := List.prefix_of_prefix_length_le (List.prefix_append _ _) hp hle
    have hr := hf.whole { input := writeSubgroupHeader h ++ q, ending := .finished } q rfl
    refine ⟨q, _, rfl, hr, ?_⟩
    refine readObjects_recovers hos (q.length + 1) ⟨q, .finished, []⟩ rfl
      (Nat.lt_succ_self _) ?_
    simpa only [wire, List.take_length] using (List.prefix_append_right_inj _).mp hp

/-- A keyframe stream cut three bytes into its object. -/
theorem readStream_recovers_cut :
    ∃ q t, [4, 1, 7, 0, 1, 0, 4, 2] = writeSubgroupHeader ⟨1, 7, 0, 1⟩ ++ q ∧
      readSubgroupHeader.exec { input := [4, 1, 7, 0, 1, 0, 4, 2], ending := .finished } =
        (.ok ⟨1, 7, 0, 1⟩, t) ∧
      Recovers [⟨0, 9, some .hevc, [1, 2]⟩] q (readAllObjects t) :=
  (readStream_recovers ⟨1, 7, 0, 1⟩ ⟨by decide, by decide, by decide⟩
    [⟨0, 9, some .hevc, [1, 2]⟩] (by
      intro o ho
      obtain rfl := List.mem_singleton.mp ho
      exact ⟨by decide, by decide, by decide, by decide⟩)
    [4, 1, 7, 0, 1, 0, 4, 2] (by decide)).2 (by decide)

end Meshconf.Protocol
