import Mathlib.Algebra.BigOperators.Group.List.Basic
import Mathlib.Algebra.Order.Ring.Nat
import Meshconf.Control.Message

/-! # The JSON text of control messages

Compact JSON without blanks, as the serializer prints it. The tag of a message comes
first, then its fields in their order. The length of a peer list is the sum of those
of its entries, with their separators.
-/

namespace Meshconf.Control

def hexDigit (n : ℕ) : UInt8 := if n < 10 then .ofNat (48 + n) else .ofNat (87 + n)

/-- The UTF-8 form of a character in a string; quotes, backslashes and controls are escaped. -/
def escapeChar (c : Char) : List UInt8 :=
  match c.toNat with
  | 0x08 => [0x5c, 0x62]
  | 0x09 => [0x5c, 0x74]
  | 0x0a => [0x5c, 0x6e]
  | 0x0c => [0x5c, 0x66]
  | 0x0d => [0x5c, 0x72]
  | 0x22 => [0x5c, 0x22]
  | 0x5c => [0x5c, 0x5c]
  | n =>
    if n < 0x20 then [0x5c, 0x75, 0x30, 0x30, hexDigit (n / 16), hexDigit (n % 16)]
    else String.utf8EncodeChar c

def jsonString (s : String) : List UInt8 := 0x22 :: (s.toList.flatMap escapeChar ++ [0x22])

/-- Text without characters to escape. -/
def text (s : String) : List UInt8 := s.toList.flatMap String.utf8EncodeChar

def helloText (addr name : String) : List UInt8 :=
  text "\x7b\"msg_type\":\"hello\",\"addr\":" ++ jsonString addr ++
    text ",\"name\":" ++ jsonString name ++ text "\x7d"

def peerInfoText (info : PeerInfo) : List UInt8 :=
  text "\x7b\"peer_id\":" ++ jsonString info.peerId ++ text ",\"addr\":" ++ jsonString info.addr ++
    text ",\"name\":" ++ jsonString info.name ++ text "\x7d"

def peerListText (peers : List PeerInfo) : List UInt8 :=
  text "\x7b\"msg_type\":\"peer_list\",\"peers\":[" ++
    List.intercalate (text ",") (peers.map peerInfoText) ++ text "]\x7d"

/-- The serializer prints the two messages of the membership protocol in this form. -/
structure Json.Compact (json : Json) : Prop where
  hello : ∀ addr name, json.toVec (.hello addr name) = helloText addr name
  peerList : ∀ peers, json.toVec (.peerList peers) = peerListText peers

/-- The bytes around the entries of a peer list. -/
def listOverhead : ℕ := 34

/-- The bytes of an entry with its separator. -/
def entrySize (info : PeerInfo) : ℕ := (peerInfoText info).length + 1

theorem length_intercalate {α : Type*} (sep x : List α) (xs : List (List α)) :
    (List.intercalate sep (x :: xs)).length =
      x.length + (xs.map fun y => sep.length + y.length).sum := by
  induction xs generalizing x with
  | nil => simp [List.intercalate]
  | cons y xs ih =>
    simp only [List.intercalate, List.intersperse_cons_cons, List.flatten_cons,
      List.length_append, List.map_cons, List.sum_cons] at ih ⊢
    rw [ih]
    omega

theorem length_peerListText (info : PeerInfo) (peers : List PeerInfo) :
    (peerListText (info :: peers)).length =
      listOverhead + entrySize info + (peers.map entrySize).sum := by
  have hsizes : (peers.map peerInfoText).map (fun y => (text ",").length + y.length) =
      peers.map entrySize := by
    rw [List.map_map]
    exact List.map_congr_left fun a _ => Nat.add_comm _ _
  have hopen : (text "\x7b\"msg_type\":\"peer_list\",\"peers\":[").length = 33 := by decide
  have hclose : (text "]\x7d").length = 2 := by decide
  rw [peerListText, List.map_cons, List.length_append, List.length_append, length_intercalate,
    hsizes, hopen, hclose, listOverhead, entrySize]
  omega

theorem length_helloText (addr name : String) : (helloText addr name).length =
    36 + (jsonString addr).length + (jsonString name).length := by
  have hopen : (text "\x7b\"msg_type\":\"hello\",\"addr\":").length = 27 := by decide
  have hname : (text ",\"name\":").length = 8 := by decide
  have hclose : (text "\x7d").length = 1 := by decide
  simp only [helloText, List.length_append, hopen, hname, hclose]
  omega

theorem length_peerInfoText (info : PeerInfo) : (peerInfoText info).length =
    28 + (jsonString info.peerId).length + (jsonString info.addr).length +
      (jsonString info.name).length := by
  have hopen : (text "\x7b\"peer_id\":").length = 11 := by decide
  have haddr : (text ",\"addr\":").length = 8 := by decide
  have hname : (text ",\"name\":").length = 8 := by decide
  have hclose : (text "\x7d").length = 1 := by decide
  simp only [peerInfoText, List.length_append, hopen, haddr, hname, hclose]
  omega

theorem length_jsonString_replicate {c : Char} {b : UInt8} (h : escapeChar c = [b]) (n : ℕ) :
    (jsonString (String.ofList (List.replicate n c))).length = n + 2 := by
  simp [jsonString, h]

end Meshconf.Control
