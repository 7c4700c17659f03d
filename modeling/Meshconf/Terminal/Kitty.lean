import Mathlib.Data.Nat.Digits.Defs
import Meshconf.Bytes.Pieces

/-! # The Kitty graphics protocol

An image is compressed, encoded in base64 and written to the terminal in escape sequences
of a bounded size. A terminal reads the keys and the payload of one sequence after the
other.
-/

namespace Meshconf.Terminal

open Pieces

def ascii (s : String) : List UInt8 := s.toList.map fun c => UInt8.ofNat c.toNat

/-- A number in decimal. -/
def decimal (n : ℕ) : List UInt8 :=
  if n = 0 then [48] else (Nat.digits 10 n).reverse.map fun d => UInt8.ofNat (48 + d)

def esc : UInt8 := 0x1b

/-! ## Transmission -/

/-- The libraries for compression and for base64. -/
structure Engine where
  compress : List UInt8 → List UInt8
  encode : List UInt8 → List UInt8

structure TransmitScratch where
  rgbData : List UInt8 := []
  cmdBuf : List UInt8 := []
  zlibBuf : List UInt8 := []
  deriving DecidableEq, Repr

inductive TransmitError
  | sliceOutOfRange
  | base64EncodeFailed
  deriving DecidableEq, Repr

/-- The bytes of a packed pixel, red first. -/
def rgb (px : UInt32) : List UInt8 :=
  [((px >>> (16 : UInt32)) &&& (0xFF : UInt32)).toUInt8,
    ((px >>> (8 : UInt32)) &&& (0xFF : UInt32)).toUInt8, (px &&& (0xFF : UInt32)).toUInt8]

def convertToRgb24 (pixelData : List UInt32) (pixelCount : ℕ) (scratch : TransmitScratch) :
    Except TransmitError TransmitScratch :=
  if pixelCount ≤ pixelData.length then
    .ok { scratch with rgbData := (pixelData.take pixelCount).flatMap rgb }
  else .error .sliceOutOfRange

/-- Write the encoding of `input` to the front of `output`, if it has room. -/
def encodeSlice (e : Engine) (input output : List UInt8) :
    Except TransmitError (List UInt8 × ℕ) :=
  let encoded := e.encode input
  if encoded.length ≤ output.length then
    .ok (encoded ++ output.drop encoded.length, encoded.length)
  else .error .base64EncodeFailed

def chunkSize : ℕ := 4096

/-- The escape sequence of the chunk with number `i`. -/
def escapeSequence (id width height totalChunks : ℕ) (chunk : List UInt8) (i : ℕ) : List UInt8 :=
  let more := if i = totalChunks - 1 then ascii "0" else ascii "1"
  [esc] ++ ascii "_G" ++
    (if i = 0 then
      ascii "i=" ++ decimal id ++ ascii ",s=" ++ decimal width ++ ascii ",v=" ++ decimal height ++
        ascii ",a=t,f=24,o=z,t=d,q=2,m="
    else ascii "m=") ++
    more ++ ascii ";" ++ chunk ++ [esc] ++ ascii "\\"

/-- Transmit an image; the result is what the terminal is given. -/
def transmitImagePty (e : Engine) (id width height : ℕ) (pixelData : List UInt32)
    (scratch : TransmitScratch) : Except TransmitError (TransmitScratch × List UInt8) := do
  let pixelCount := width * height % 2 ^ 32
  let scratch ← convertToRgb24 pixelData pixelCount scratch
  let scratch := { scratch with zlibBuf := e.compress scratch.rgbData }
  let scratch := { scratch with cmdBuf := List.replicate (scratch.zlibBuf.length * 4 / 3 + 4) 0 }
  let (cmdBuf, b64Len) ← encodeSlice e scratch.zlibBuf scratch.cmdBuf
  -- The base64 text moves to `rgbData`, so that `cmdBuf` is free for the output.
  let scratch := { scratch with cmdBuf, rgbData := cmdBuf.take b64Len }
  let b64 := scratch.rgbData.take b64Len
  let totalChunks := (b64Len + chunkSize - 1) / chunkSize
  let out := (chunks chunkSize b64).zipIdx.foldl
    (fun buf c => buf ++ escapeSequence id width height totalChunks c.1 c.2) []
  return ({ scratch with cmdBuf := out }, out)

/-! ## What the terminal reads -/

/-- A graphics command: its keys with their values, and its payload. -/
structure Command where
  keys : List (List UInt8 × List UInt8)
  payload : List UInt8
  deriving DecidableEq, Repr

/-- `key=value`. -/
def parseKey (word : List UInt8) : Option (List UInt8 × List UInt8) := cut 61 word

/-- Words of a key and a value, with commas between them. -/
def parseKeys (control : List UInt8) : Option (List (List UInt8 × List UInt8)) :=
  (splitAt 44 (control.length + 1) control).mapM parseKey

/-- `ESC _G keys ; payload ESC \`. -/
def parseCommand : List UInt8 → Option (Command × List UInt8)
  | 0x1b :: 95 :: 71 :: bytes => do
    let (control, bytes) ← cut 59 bytes
    let keys ← parseKeys control
    let (payload, bytes) ← cut esc bytes
    match bytes with
    | 92 :: bytes => return (⟨keys, payload⟩, bytes)
    | _ => none
  | _ => none

/-- All commands in the bytes, and nothing else. -/
def parse (bytes : List UInt8) : Option (List Command) := parseMany parseCommand bytes.length bytes

/-- The value of a decimal number. -/
def number (digits : List UInt8) : ℕ := digits.foldl (fun n b => 10 * n + (b.toNat - 48)) 0

end Meshconf.Terminal
