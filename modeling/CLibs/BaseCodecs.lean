import CLibs.FaultingPrograms
import Mathlib.Data.BitVec
import Mathlib.Data.List.DropRight
import Mathlib.Tactic.IntervalCases

/-!
# The codecs of `base64.c`

Base 64 with two alphabets, base 32 and base 16, each with its table of characters and its table of
256 entries to read them back.  A group of bytes is spread over characters of six, five or four
bits; a last group that is not full is filled up with `=`, which the decoders do not need.
-/

namespace CLibs.BaseCodecs

def pad : UInt8 := 0x3D

/-- The bytes of a literal of the source. -/
def characters (text : List Char) : List UInt8 := text.map fun c => UInt8.ofNat c.toNat

/-- `S(i)`: behind the end of the source stands a `=`. -/
def sourceAt (source : List UInt8) (i : Nat) : UInt8 := source.getD i pad

/-! ## Base 64 -/

def base64Enc : List UInt8 :=
  characters [
    'A', 'B', 'C', 'D', 'E', 'F', 'G', 'H', 'I', 'J', 'K', 'L', 'M',
    'N', 'O', 'P', 'Q', 'R', 'S', 'T', 'U', 'V', 'W', 'X', 'Y', 'Z',
    'a', 'b', 'c', 'd', 'e', 'f', 'g', 'h', 'i', 'j', 'k', 'l', 'm',
    'n', 'o', 'p', 'q', 'r', 's', 't', 'u', 'v', 'w', 'x', 'y', 'z',
    '0', '1', '2', '3', '4', '5', '6', '7', '8', '9', '+', '/']

def base64Url : List UInt8 :=
  characters [
    'A', 'B', 'C', 'D', 'E', 'F', 'G', 'H', 'I', 'J', 'K', 'L', 'M',
    'N', 'O', 'P', 'Q', 'R', 'S', 'T', 'U', 'V', 'W', 'X', 'Y', 'Z',
    'a', 'b', 'c', 'd', 'e', 'f', 'g', 'h', 'i', 'j', 'k', 'l', 'm',
    'n', 'o', 'p', 'q', 'r', 's', 't', 'u', 'v', 'w', 'x', 'y', 'z',
    '0', '1', '2', '3', '4', '5', '6', '7', '8', '9', '-', '_']

/-- `s_base64_dec`; what the initializer leaves out is zero. -/
def base64Dec : List UInt8 := [
  0, 0, 0, 0, 0, 0, 0, 0, 0, 0, 0, 0, 0, 0, 0, 0,
  0, 0, 0, 0, 0, 0, 0, 0, 0, 0, 0, 0, 0, 0, 0, 0,
  0, 0, 0, 0, 0, 0, 0, 0, 0, 0, 0, 62, 0, 62, 0, 63,
  52, 53, 54, 55, 56, 57, 58, 59, 60, 61, 0, 0, 0, 0, 0, 0,
  0, 0, 1, 2, 3, 4, 5, 6, 7, 8, 9, 10, 11, 12, 13, 14,
  15, 16, 17, 18, 19, 20, 21, 22, 23, 24, 25, 0, 0, 0, 0, 63,
  0, 26, 27, 28, 29, 30, 31, 32, 33, 34, 35, 36, 37, 38, 39, 40,
  41, 42, 43, 44, 45, 46, 47, 48, 49, 50, 51, 0, 0, 0, 0, 0] ++ List.replicate 128 0

def entry (table : List UInt8) (index : UInt8) : UInt8 := table.getD index.toNat 0

def base64EncodeTable (table : List UInt8) : List UInt8 → List UInt8
  | a :: b :: c :: rest =>
    entry table ((a >>> 2) &&& 0x3F) ::
    entry table (((a &&& 0x03) <<< 4) ||| ((b >>> 4) &&& 0x0F)) ::
    entry table (((b &&& 0x0F) <<< 2) ||| ((c >>> 6) &&& 0x03)) ::
    entry table (c &&& 0x3F) :: base64EncodeTable table rest
  | [a, b] => [
      entry table ((a >>> 2) &&& 0x3F),
      entry table (((a &&& 0x03) <<< 4) ||| ((b >>> 4) &&& 0x0F)),
      entry table ((b &&& 0x0F) <<< 2), pad]
  | [a] => [entry table ((a >>> 2) &&& 0x3F), entry table ((a &&& 0x03) <<< 4), pad, pad]
  | [] => []

def base64Encode (source : List UInt8) : List UInt8 := base64EncodeTable base64Enc source

def base64EncodeUrl (source : List UInt8) : List UInt8 := base64EncodeTable base64Url source

/-- What the loop of `base64_decode` writes for the four characters in front. -/
def base64DecodeGroup (source : List UInt8) : List UInt8 :=
  [(entry base64Dec (sourceAt source 0) <<< 2) ||| (entry base64Dec (sourceAt source 1) >>> 4)] ++
  (if sourceAt source 2 ≠ pad then
    [(entry base64Dec (sourceAt source 1) <<< 4) ||| (entry base64Dec (sourceAt source 2) >>> 2)]
  else []) ++
  (if sourceAt source 3 ≠ pad then
    [(entry base64Dec (sourceAt source 2) <<< 6) ||| entry base64Dec (sourceAt source 3)]
  else [])

def base64Decode : List UInt8 → List UInt8
  | [] => []
  | c :: rest =>
    if c = pad then []
    else base64DecodeGroup (c :: rest) ++ base64Decode (rest.drop 3)
termination_by source => source.length
decreasing_by
  simp only [List.length_drop, List.length_cons]
  omega

/-! ## Base 16 -/

def base16Enc : List UInt8 :=
  characters ['0', '1', '2', '3', '4', '5', '6', '7', '8', '9', 'A', 'B', 'C', 'D', 'E', 'F']

def base16Dec : List UInt8 := [
  0, 0, 0, 0, 0, 0, 0, 0, 0, 0, 0, 0, 0, 0, 0, 0,
  0, 0, 0, 0, 0, 0, 0, 0, 0, 0, 0, 0, 0, 0, 0, 0,
  0, 0, 0, 0, 0, 0, 0, 0, 0, 0, 0, 0, 0, 0, 0, 0,
  0, 1, 2, 3, 4, 5, 6, 7, 8, 9, 0, 0, 0, 0, 0, 0,
  0, 10, 11, 12, 13, 14, 15, 0, 0, 0, 0, 0, 0, 0, 0, 0,
  0, 0, 0, 0, 0, 0, 0, 0, 0, 0, 0, 0, 0, 0, 0, 0,
  0, 10, 11, 12, 13, 14, 15, 0, 0, 0, 0, 0, 0, 0, 0, 0,
  0, 0, 0, 0, 0, 0, 0, 0, 0, 0, 0, 0, 0, 0, 0, 0] ++ List.replicate 128 0

def base16Encode (source : List UInt8) : List UInt8 :=
  source.flatMap fun p : UInt8 => [entry base16Enc ((p >>> 4) &&& 0x0F), entry base16Enc (p &&& 0x0F)]

def base16DecodePairs : List UInt8 → List UInt8
  | first :: second :: rest =>
    ((entry base16Dec first <<< 4) ||| entry base16Dec second) :: base16DecodePairs rest
  | _ => []

def base16Decode (source : List UInt8) : Except Fault (List UInt8) := do
  check (source.length % 2 = 0)
  return base16DecodePairs source

/-! ## Base 32 -/

def base32Enc : List UInt8 :=
  characters [
    'A', 'B', 'C', 'D', 'E', 'F', 'G', 'H', 'I', 'J', 'K', 'L', 'M', 'N', 'O', 'P',
    'Q', 'R', 'S', 'T', 'U', 'V', 'W', 'X', 'Y', 'Z', '2', '3', '4', '5', '6', '7']

def base32Dec : List UInt8 := [
  0, 0, 0, 0, 0, 0, 0, 0, 0, 0, 0, 0, 0, 0, 0, 0,
  0, 0, 0, 0, 0, 0, 0, 0, 0, 0, 0, 0, 0, 0, 0, 0,
  0, 0, 0, 0, 0, 0, 0, 0, 0, 0, 0, 0, 0, 0, 0, 0,
  0, 0, 0x1A, 0x1B, 0x1C, 0x1D, 0x1E, 0x1F, 0, 0, 0, 0, 0, 0, 0, 0,
  0, 0x00, 0x01, 0x02, 0x03, 0x04, 0x05, 0x06, 0x07, 0x08, 0x09, 0x0A, 0x0B, 0x0C, 0x0D, 0x0E,
  0x0F, 0x10, 0x11, 0x12, 0x13, 0x14, 0x15, 0x16, 0x17, 0x18, 0x19, 0, 0, 0, 0, 0,
  0, 0x00, 0x01, 0x02, 0x03, 0x04, 0x05, 0x06, 0x07, 0x08, 0x09, 0x0A, 0x0B, 0x0C, 0x0D, 0x0E,
  0x0F, 0x10, 0x11, 0x12, 0x13, 0x14, 0x15, 0x16, 0x17, 0x18, 0x19, 0, 0, 0, 0, 0] ++
  List.replicate 128 0

/-- What `base32_encode` writes before it fills up with `=`. -/
def base32EncodeGroups : List UInt8 → List UInt8
  | a :: b :: c :: d :: e :: rest =>
    entry base32Enc ((a >>> 3) &&& 0x1F) ::
    entry base32Enc (((a &&& 0x07) <<< 2) ||| ((b >>> 6) &&& 0x03)) ::
    entry base32Enc ((b >>> 1) &&& 0x1F) ::
    entry base32Enc (((b &&& 0x01) <<< 4) ||| ((c >>> 4) &&& 0x0F)) ::
    entry base32Enc (((c &&& 0x0F) <<< 1) ||| ((d >>> 7) &&& 0x01)) ::
    entry base32Enc ((d >>> 2) &&& 0x1F) ::
    entry base32Enc (((d &&& 0x03) <<< 3) ||| ((e >>> 5) &&& 0x07)) ::
    entry base32Enc (e &&& 0x1F) :: base32EncodeGroups rest
  | [a] => [entry base32Enc ((a >>> 3) &&& 0x1F), entry base32Enc ((a &&& 0x07) <<< 2)]
  | [a, b] => [
      entry base32Enc ((a >>> 3) &&& 0x1F),
      entry base32Enc (((a &&& 0x07) <<< 2) ||| ((b >>> 6) &&& 0x03)),
      entry base32Enc ((b >>> 1) &&& 0x1F),
      entry base32Enc ((b &&& 0x01) <<< 4)]
  | [a, b, c] => [
      entry base32Enc ((a >>> 3) &&& 0x1F),
      entry base32Enc (((a &&& 0x07) <<< 2) ||| ((b >>> 6) &&& 0x03)),
      entry base32Enc ((b >>> 1) &&& 0x1F),
      entry base32Enc (((b &&& 0x01) <<< 4) ||| ((c >>> 4) &&& 0x0F)),
      entry base32Enc ((c &&& 0x0F) <<< 1)]
  | [a, b, c, d] => [
      entry base32Enc ((a >>> 3) &&& 0x1F),
      entry base32Enc (((a &&& 0x07) <<< 2) ||| ((b >>> 6) &&& 0x03)),
      entry base32Enc ((b >>> 1) &&& 0x1F),
      entry base32Enc (((b &&& 0x01) <<< 4) ||| ((c >>> 4) &&& 0x0F)),
      entry base32Enc (((c &&& 0x0F) <<< 1) ||| ((d >>> 7) &&& 0x01)),
      entry base32Enc ((d >>> 2) &&& 0x1F),
      entry base32Enc ((d &&& 0x03) <<< 3)]
  | [] => []

def base32Encode (source : List UInt8) : List UInt8 :=
  let target := base32EncodeGroups source
  target ++ List.replicate ((8 - target.length % 8) % 8) pad

/-- What the loop of `base32_decode` writes for the eight characters in front. -/
def base32DecodeGroup (source : List UInt8) : List UInt8 :=
  let value (i : Nat) : UInt8 := entry base32Dec (sourceAt source i)
  [(value 0 <<< 3) ||| (value 1 >>> 2)] ++
  (if sourceAt source 2 ≠ pad then [(value 1 <<< 6) ||| (value 2 <<< 1) ||| (value 3 >>> 4)]
  else []) ++
  (if sourceAt source 4 ≠ pad then [(value 3 <<< 4) ||| (value 4 >>> 1)] else []) ++
  (if sourceAt source 5 ≠ pad then [(value 4 <<< 7) ||| (value 5 <<< 2) ||| (value 6 >>> 3)]
  else []) ++
  (if sourceAt source 7 ≠ pad then [(value 6 <<< 5) ||| value 7] else [])

def base32Decode : List UInt8 → List UInt8
  | [] => []
  | c :: rest =>
    if c = pad then []
    else base32DecodeGroup (c :: rest) ++ base32Decode (rest.drop 7)
termination_by source => source.length
decreasing_by
  simp only [List.length_drop, List.length_cons]
  omega

end CLibs.BaseCodecs
