import Meshconf.AnnexB.Scanner
import Meshconf.Protocol.Framing

/-! # The receive loop of the video decoder

A packet passes gap detection and the keyframe gate, may renew the decoder session,
and is decoded. What the platform answers in one round is an input of that round;
`Received` lists what a round can do.
-/

namespace Meshconf.Video

open AnnexB Protocol

structure DecodedRgbFrame where
  width : ℕ
  height : ℕ
  data : List UInt32
  deriving DecidableEq, Repr

structure RgbFrame where
  groupId : ℕ
  captureTimestampUs : ℕ
  width : ℕ
  height : ℕ
  data : List UInt32
  deriving DecidableEq, Repr

/-- A decoder; sessions of the platform are numbered in the order of their creation. -/
structure HevcDecoder where
  session : ℕ
  hvccBuf : List UInt8 := []
  paramSetBytes : List UInt8
  deriving DecidableEq, Repr

/-- The answers of the platform and of the compositor channel in one round of the loop. -/
structure Outcomes where
  create : Except String Unit := .ok ()
  decode : Except String (Option DecodedRgbFrame) := .ok none
  compositorAccepts : Bool := true

/-- Video, sequence and picture parameter sets of a packet, in order. -/
def paramSets (annexB : List UInt8) : List (List UInt8) :=
  (nalus annexB).filter fun nalu => 2 ≤ nalu.length && isParameterSet nalu

def collectParamSetBytes (annexB : List UInt8) : List UInt8 := (paramSets annexB).flatten

def HevcDecoder.paramsMatch (d : HevcDecoder) (annexB : List UInt8) : Bool :=
  collectParamSetBytes annexB == d.paramSetBytes

def HevcDecoder.newFromAnnexB (annexB : List UInt8) (create : Except String Unit)
    (session : ℕ) : Except String HevcDecoder := do
  if (paramSets annexB).isEmpty then throw "No HEVC parameter sets found in keyframe"
  create
  return { session, paramSetBytes := collectParamSetBytes annexB }

/-- The conversion of a packet without pictures is empty and is not given to the session. -/
def HevcDecoder.decodeAnnexB (d : HevcDecoder) (annexB : List UInt8)
    (decode : Except String (Option DecodedRgbFrame)) :
    Except String (Option DecodedRgbFrame) × HevcDecoder :=
  let d := { d with hvccBuf := annexBToHvccInto annexB d.hvccBuf }
  if d.hvccBuf.isEmpty then (.ok none, d) else (decode, d)

structure DecoderState where
  decoder : Option HevcDecoder := none
  gotKeyframe : Bool := false
  keyframeGroup : ℕ := 0
  lastDecodedGroup : ℕ := 0
  videoDrops : ℕ := 0
  /-- The number of sessions created so far, which names the next one. -/
  sessions : ℕ := 0
  deriving DecidableEq, Repr

/-- One call of the decoder, with the frame it offered to the compositor. -/
structure DecodeCall where
  object : MediaObject
  session : ℕ
  failed : Bool := false
  offered : Option RgbFrame := none
  deriving DecidableEq, Repr

/-- What one round of the loop did with its packet. -/
inductive Iteration
  | gated (obj : MediaObject)
  | sessionFailed (obj : MediaObject)
  | noDecoder (obj : MediaObject)
  | decoded (call : DecodeCall)
  deriving DecidableEq, Repr

namespace DecoderState

def drop (s : DecoderState) : DecoderState := { s with videoDrops := s.videoDrops + 1 }

def detectGap (s : DecoderState) (obj : MediaObject) : DecoderState :=
  if s.gotKeyframe && !obj.isKeyframe then
    if obj.groupId ≠ s.lastDecodedGroup + 1 then
      { s.drop with gotKeyframe := false, decoder := none }
    else s
  else s

/-- The keyframe gate, `none` where it drops the packet. -/
def passGate (s : DecoderState) (obj : MediaObject) : Option DecoderState :=
  if s.gotKeyframe then some s
  else if obj.isKeyframe then some { s with gotKeyframe := true, keyframeGroup := obj.groupId }
  else none

def raiseKeyframeGroup (s : DecoderState) (obj : MediaObject) : DecoderState :=
  if obj.isKeyframe && decide (s.keyframeGroup < obj.groupId) then
    { s with keyframeGroup := obj.groupId }
  else s

def needsNewSession (s : DecoderState) (obj : MediaObject) : Bool :=
  match s.decoder with
  | some dec => !dec.paramsMatch obj.payload
  | none => true

/-- On a keyframe, a new decoder if there is none or the parameter sets changed. -/
def refreshDecoder (s : DecoderState) (obj : MediaObject) (create : Except String Unit) :
    Except String DecoderState := do
  if obj.isKeyframe && s.needsNewSession obj then
    let d ← HevcDecoder.newFromAnnexB obj.payload create s.sessions
    return { s with decoder := some d, sessions := s.sessions + 1 }
  else return s

def decodePacket (s : DecoderState) (dec : HevcDecoder) (obj : MediaObject) (o : Outcomes) :
    DecoderState × Iteration :=
  let call : DecodeCall := { object := obj, session := dec.session }
  match dec.decodeAnnexB obj.payload o.decode with
  | (.ok (some frame), dec) =>
    let rgb : RgbFrame :=
      ⟨obj.groupId, obj.captureTimestampUs, frame.width, frame.height, frame.data⟩
    let s := { s with decoder := some dec, lastDecodedGroup := obj.groupId }
    (if o.compositorAccepts then s else s.drop, .decoded { call with offered := some rgb })
  | (.ok none, dec) =>
    ({ s with decoder := some dec, lastDecodedGroup := obj.groupId }, .decoded call)
  | (.error _, _) =>
    ({ s.drop with gotKeyframe := false, decoder := none }, .decoded { call with failed := true })

/-- One round of the receive loop. -/
def receive (s : DecoderState) (obj : MediaObject) (o : Outcomes) : DecoderState × Iteration :=
  match (s.detectGap obj).passGate obj with
  | none => ((s.detectGap obj).drop, .gated obj)
  | some s =>
    match (s.raiseKeyframeGroup obj).refreshDecoder obj o.create with
    | .error _ =>
      ({ (s.raiseKeyframeGroup obj).drop with gotKeyframe := false }, .sessionFailed obj)
    | .ok s =>
      match s.decoder with
      | none => (s.drop, .noDecoder obj)
      | some dec => s.decodePacket dec obj o

end DecoderState

/-! ## What a round can do -/

/-- The session that a decode call for `obj` may use. -/
def Admits (s : DecoderState) (obj : MediaObject) (session : ℕ) : Prop :=
  obj.isKeyframe ∨
    s.gotKeyframe ∧ obj.groupId = s.lastDecodedGroup + 1 ∧
      s.decoder.map HevcDecoder.session = some session

/-- The rounds for `obj` from state `s`. -/
inductive Received (s : DecoderState) (obj : MediaObject) : DecoderState × Iteration → Prop where
  | gated {t : DecoderState} : obj.isKeyframe = false → t.gotKeyframe = false →
      Received s obj (t, .gated obj)
  | sessionFailed {t : DecoderState} : obj.isKeyframe → t.gotKeyframe = false →
      Received s obj (t, .sessionFailed obj)
  | noDecoder {t : DecoderState} : obj.isKeyframe = false → s.gotKeyframe → s.decoder = none →
      Received s obj (t, .noDecoder obj)
  | failed {t : DecoderState} {session : ℕ} : Admits s obj session → t.gotKeyframe = false →
      Received s obj (t, .decoded ⟨obj, session, true, none⟩)
  | decoded {t : DecoderState} {session : ℕ} {offered : Option RgbFrame} :
      Admits s obj session → (∀ frame ∈ offered, frame.groupId = obj.groupId) →
      t.gotKeyframe → t.lastDecodedGroup = obj.groupId →
      t.decoder.map HevcDecoder.session = some session →
      Received s obj (t, .decoded ⟨obj, session, false, offered⟩)

namespace DecoderState

variable {s t : DecoderState} {obj : MediaObject}

@[simp] theorem drop_decoder (s : DecoderState) : s.drop.decoder = s.decoder := rfl

@[simp] theorem raiseKeyframeGroup_decoder :
    (s.raiseKeyframeGroup obj).decoder = s.decoder := by
  unfold raiseKeyframeGroup
  split <;> rfl

@[simp] theorem raiseKeyframeGroup_gotKeyframe :
    (s.raiseKeyframeGroup obj).gotKeyframe = s.gotKeyframe := by
  unfold raiseKeyframeGroup
  split <;> rfl

theorem detectGap_of_isKeyframe (hkey : obj.isKeyframe) : s.detectGap obj = s := by
  simp [detectGap, hkey]

/-- Only a keyframe or the successor of the last decoded packet passes both checks. -/
theorem passGate_some (h : (s.detectGap obj).passGate obj = some t) :
    t.gotKeyframe ∧ (obj.isKeyframe ∨ t = s ∧ obj.groupId = s.lastDecodedGroup + 1) := by
  cases hkey : obj.isKeyframe with
  | true =>
    rw [detectGap_of_isKeyframe hkey] at h
    unfold passGate at h
    split_ifs at h with hgot
    · obtain rfl := Option.some.inj h
      exact ⟨hgot, .inl rfl⟩
    · obtain rfl := Option.some.inj h
      exact ⟨rfl, .inl rfl⟩
  | false =>
    unfold passGate detectGap at h
    split_ifs at h with h₁ h₂ h₃ <;> simp_all

theorem passGate_none (h : (s.detectGap obj).passGate obj = none) :
    obj.isKeyframe = false ∧ (s.detectGap obj).gotKeyframe = false := by
  unfold passGate at h
  split_ifs at h with hgot hkey
  exact ⟨by simpa using hkey, by simpa using hgot⟩

theorem isSome_of_not_needsNewSession (h : s.needsNewSession obj = false) : s.decoder.isSome := by
  cases hd : s.decoder with
  | none => simp [needsNewSession, hd] at h
  | some dec => rfl

/-- A keyframe leaves a decoder behind unless its session could not be created. -/
theorem refreshDecoder_ok {create : Except String Unit}
    (h : s.refreshDecoder obj create = .ok t) :
    t.gotKeyframe = s.gotKeyframe ∧ (obj.isKeyframe → t.decoder.isSome) ∧
      (obj.isKeyframe = false → t = s) := by
  unfold refreshDecoder at h
  split_ifs at h with hc
  · simp only [Bool.and_eq_true] at hc
    cases hd : HevcDecoder.newFromAnnexB obj.payload create s.sessions with
    | error e =>
      rw [hd] at h
      cases h
    | ok d =>
      rw [hd] at h
      obtain rfl := Except.ok.inj h
      exact ⟨rfl, fun _ => rfl, fun hkey => absurd hc.1 (by simp [hkey])⟩
  · obtain rfl := Except.ok.inj h
    refine ⟨rfl, fun hkey => ?_, fun _ => rfl⟩
    have hsession : s.needsNewSession obj = false := by simpa [hkey] using hc
    exact isSome_of_not_needsNewSession hsession

theorem refreshDecoder_error {create : Except String Unit} {e : String}
    (h : s.refreshDecoder obj create = .error e) : obj.isKeyframe := by
  unfold refreshDecoder at h
  split_ifs at h with hc
  · exact (Bool.and_eq_true _ _ ▸ hc).1
  · cases h

end DecoderState

theorem received_decodePacket {s s' : DecoderState} {dec : HevcDecoder} {obj : MediaObject}
    (o : Outcomes) (hadm : Admits s obj dec.session) (hgot : s'.gotKeyframe) :
    Received s obj (s'.decodePacket dec obj o) := by
  unfold DecoderState.decodePacket
  have hsession : (dec.decodeAnnexB obj.payload o.decode).2.session = dec.session := by
    unfold HevcDecoder.decodeAnnexB
    dsimp only
    split <;> rfl
  rcases hd : dec.decodeAnnexB obj.payload o.decode with ⟨_ | _ | frame, dec'⟩
  · exact .failed hadm rfl
  · exact .decoded hadm (by simp) hgot rfl (by simpa [hd] using hsession)
  · cases o.compositorAccepts
    · exact .decoded hadm (by simp) hgot rfl (by simpa [hd] using hsession)
    · exact .decoded hadm (by simp) hgot rfl (by simpa [hd] using hsession)

theorem received_receive (s : DecoderState) (obj : MediaObject) (o : Outcomes) :
    Received s obj (s.receive obj o) := by
  unfold DecoderState.receive
  cases hgate : (s.detectGap obj).passGate obj with
  | none =>
    obtain ⟨hkey, hgot⟩ := DecoderState.passGate_none hgate
    exact .gated hkey hgot
  | some t =>
    obtain ⟨hgot, hadm⟩ := DecoderState.passGate_some hgate
    have hadm' : obj.isKeyframe = false → (t = s ∧ obj.groupId = s.lastDecodedGroup + 1) :=
      fun hkey => hadm.resolve_left (by simp [hkey])
    cases href : (t.raiseKeyframeGroup obj).refreshDecoder obj o.create with
    | error e =>
      simp only [href]
      exact .sessionFailed (DecoderState.refreshDecoder_error href) rfl
    | ok u =>
      obtain ⟨hu, hsome, hsame⟩ := DecoderState.refreshDecoder_ok href
      have hugot : u.gotKeyframe := by simpa [hgot] using hu
      cases hkey : obj.isKeyframe with
      | true =>
        obtain ⟨dec, hdec⟩ := Option.isSome_iff_exists.mp (hsome hkey)
        simp only [href, hdec]
        exact received_decodePacket o (.inl hkey) hugot
      | false =>
        obtain ⟨rfl, hsucc⟩ := hadm' hkey
        have hudec : u.decoder = t.decoder := by simp [hsame hkey]
        cases hd : u.decoder with
        | none =>
          simp only [href, hd]
          exact .noDecoder hkey hgot (hudec.symm.trans hd)
        | some dec =>
          simp only [href, hd]
          apply received_decodePacket o (.inr ⟨hgot, hsucc, ?_⟩) hugot
          rw [← hudec, hd, Option.map_some]

end Meshconf.Video
