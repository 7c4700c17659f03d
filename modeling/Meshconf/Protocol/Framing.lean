import Meshconf.Protocol.Varint

/-! # Subgroup headers and objects

A video frame travels on a stream of its own: a subgroup header, then one object
with its extension block and payload. The writers produce byte strings; the
readers consume a stream that may end anywhere.
-/

namespace Meshconf.Protocol

open Bytes

/-- The stream type tag of a subgroup header. -/
def streamTypeSubgroup : ℕ := 0x4

def trackVideo : ℕ := 1

/-- Publisher priority of video; lower is more important. -/
def priorityVideo : UInt8 := 1

/-- Extension header type of the capture timestamp. -/
def locExtCaptureTimestamp : ℕ := 2

/-- Extension header type of the codec identifier. -/
def locExtCodec : ℕ := 4

inductive Codec | av1 | hevc
  deriving DecidableEq, Repr

def Codec.toU64 : Codec → ℕ
  | .av1 => 0
  | .hevc => 1

def Codec.fromU64 : ℕ → Option Codec
  | 0 => some .av1
  | 1 => some .hevc
  | _ => none

structure SubgroupHeader where
  trackAlias : ℕ
  groupId : ℕ
  subgroupId : ℕ
  publisherPriority : UInt8
  deriving DecidableEq, Repr

/-- The fields of one object. -/
structure ObjectData where
  objectId : ℕ
  captureTimestampUs : ℕ
  codec : Option Codec
  payload : List UInt8
  deriving DecidableEq, Repr

/--
An object with the ids of its stream, as the dispatcher hands it on. The ids come from varints,
so they are below `2 ^ 62` and a successor is never out of range.
-/
structure MediaObject where
  groupId : ℕ
  subgroupId : ℕ
  objectId : ℕ
  captureTimestampUs : ℕ
  codec : Option Codec
  payload : List UInt8
  deriving DecidableEq, Repr

/-- Subgroup zero is independently decodable. -/
def MediaObject.isKeyframe (obj : MediaObject) : Bool := obj.subgroupId = 0

/-- The values of the extension headers that the reader knows. -/
structure ExtensionValues where
  captureTimestampUs : ℕ := 0
  codec : Option Codec := none
  deriving DecidableEq, Repr

/-! ## Writers -/

def writeSubgroupHeader (h : SubgroupHeader) : List UInt8 :=
  encodeVarint streamTypeSubgroup ++ encodeVarint h.trackAlias ++ encodeVarint h.groupId ++
    encodeVarint h.subgroupId ++ [h.publisherPriority]

/-- The extension block: capture timestamp, then the codec if there is one. -/
def buildExtensionHeaders (captureTimestampUs : ℕ) (codec : Option Codec) : List UInt8 :=
  encodeVarint locExtCaptureTimestamp ++ encodeVarint captureTimestampUs ++
    match codec with
    | some c => encodeVarint locExtCodec ++ encodeVarint c.toU64
    | none => []

def writeObject (o : ObjectData) : List UInt8 :=
  let ext := buildExtensionHeaders o.captureTimestampUs o.codec
  encodeVarint o.objectId ++ (encodeVarint ext.length ++ ext) ++
    (encodeVarint o.payload.length ++ o.payload)

/-! ## Readers -/

def readSubgroupHeader : ReadM SubgroupHeader := do
  let streamType ← readVarint
  if streamType ≠ streamTypeSubgroup then
    let hex := String.ofList (Nat.toDigits 16 streamType)
    throw (.invalid s!"Expected SUBGROUP_HEADER (0x4), got 0x{hex}")
  let trackAlias ← readVarint
  let groupId ← readVarint
  let subgroupId ← readVarint
  let prio ← readByte
  return { trackAlias, groupId, subgroupId, publisherPriority := prio }

/-- The loop of `parseExtensionHeaders`; every round consumes a byte, so the length is fuel enough. -/
def parseExtensionLoop : ℕ → ExtensionValues → List UInt8 → Except ReadError ExtensionValues
  | 0, vals, _ => .ok vals
  | fuel + 1, vals, data =>
    if data.isEmpty then .ok vals
    else do
      let (headerType, data) ← decodeVarintFromSlice data
      if headerType % 2 = 0 then
        let (value, data) ← decodeVarintFromSlice data
        let vals :=
          if headerType = locExtCaptureTimestamp then { vals with captureTimestampUs := value }
          else if headerType = locExtCodec then { vals with codec := Codec.fromU64 value }
          else vals
        parseExtensionLoop fuel vals data
      else
        let (length, rest) ← decodeVarintFromSlice data
        if rest.length < length then throw (.invalid "Extension header truncated")
        parseExtensionLoop fuel vals (rest.drop length)

def parseExtensionHeaders (data : List UInt8) : Except ReadError ExtensionValues :=
  parseExtensionLoop data.length {} data

/-- The extension headers of an object, read into a buffer of 64 bytes. -/
def readExtensions (extLen : ℕ) : ReadM ExtensionValues :=
  if 0 < extLen then do
    request 64
    if extLen > 64 then throw (.invalid s!"Extension headers too large: {extLen}")
    let extBuf ← readExact extLen
    match parseExtensionHeaders extBuf with
    | .ok exts => return exts
    | .error e => throw e
  else return {}

/-- The rest of an object after the first byte of its identifier. -/
def readObjectTail (first : UInt8) : ReadM (Option ObjectData) := do
  let objectId ← decodeVarintFirstByte first
  let extLen ← readVarint
  let exts ← readExtensions extLen
  let payloadLen ← readVarint
  if payloadLen = 0 then
    -- An object status follows a zero length; it is read and discarded.
    let _status ← readVarint
    request 0
    return some { objectId, captureTimestampUs := exts.captureTimestampUs, codec := exts.codec,
                  payload := [] }
  request payloadLen
  let buf ← readExact payloadLen
  return some { objectId, captureTimestampUs := exts.captureTimestampUs, codec := exts.codec,
                payload := buf }

/-- Read one object; `none` when the stream ended cleanly before its first byte. -/
def readObject : ReadM (Option ObjectData) := do
  match ← attempt readByte with
  | .ok first => readObjectTail first
  | .error .unexpectedEof => return none
  | .error e => throw e

/-! ## What the writers promise -/

/-- A header whose fields fit in varints. -/
structure SubgroupHeader.Fits (h : SubgroupHeader) : Prop where
  trackAlias_lt : h.trackAlias < 2 ^ 62
  groupId_lt : h.groupId < 2 ^ 62
  subgroupId_lt : h.subgroupId < 2 ^ 62

/--
An object that the writer can frame. No slice in memory reaches the last bound, which is that of
the length field.
-/
structure ObjectData.Fits (o : ObjectData) : Prop where
  objectId_lt : o.objectId < 2 ^ 62
  captureTimestampUs_lt : o.captureTimestampUs < 2 ^ 62
  payload_ne : o.payload ≠ []
  payload_lt : o.payload.length < 2 ^ 62

/-- The bounds of the fields of an object; its payload may be empty. -/
structure ObjectData.Bounded (o : ObjectData) : Prop where
  objectId_lt : o.objectId < 2 ^ 62
  captureTimestampUs_lt : o.captureTimestampUs < 2 ^ 62
  payload_lt : o.payload.length < 2 ^ 62

theorem ObjectData.Fits.bounded {o : ObjectData} (h : o.Fits) : o.Bounded :=
  ⟨h.objectId_lt, h.captureTimestampUs_lt, h.payload_lt⟩

theorem Codec.fromU64_toU64 (c : Codec) : Codec.fromU64 c.toU64 = some c := by cases c <;> rfl

theorem Codec.toU64_lt (c : Codec) : c.toU64 < 2 ^ 62 := by cases c <;> decide

theorem length_buildExtensionHeaders {ts : ℕ} (h : ts < 2 ^ 62) (codec : Option Codec) :
    0 < (buildExtensionHeaders ts codec).length ∧
      (buildExtensionHeaders ts codec).length ≤ 32 := by
  have h₁ := length_encodeVarint (by decide : locExtCaptureTimestamp < 2 ^ 62)
  have h₂ := length_encodeVarint h
  have h₃ := length_encodeVarint (by decide : locExtCodec < 2 ^ 62)
  cases codec with
  | none => simp only [buildExtensionHeaders, List.length_append, List.length_nil]; omega
  | some c =>
    have h₄ := length_encodeVarint c.toU64_lt
    simp only [buildExtensionHeaders, List.length_append]
    omega

end Meshconf.Protocol
