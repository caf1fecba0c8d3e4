/-
# The recovery key

The outer key as a string that can be written down, and its tolerant parser
(`vault/recovery.rs`): Crockford base32 with a checksum.
-/

import Sypherstore.Core.Keys
import Sypherstore.Logic.Text

namespace Sypherstore

open Logic

inductive RecoveryError where
  /-- "not a Sypherstore recovery key (expected it to start with SYPH1)" -/
  | badPrefix
  /-- "the recovery key contains the invalid character {0:?}" -/
  | badCharacter (c : Char)
  /-- "the recovery key is the wrong length: expected {expected} characters, got
  {got}" -/
  | badLength (expected got : ℕ)
  /-- "the recovery key's checksum does not match." -/
  | badChecksum
  | key (e : KeyError)
  deriving DecidableEq

namespace Recovery

/-- Prefix identifying the format and version. -/
def formatPrefix : List Char := ['S', 'Y', 'P', 'H', '1']

/-- Crockford base32: no `I`, `L`, `O` or `U`. -/
def alphabet : List UInt8 := ascii "0123456789ABCDEFGHJKMNPQRSTVWXYZ"

/-- Bytes of the digest kept as the checksum. -/
abbrev checksumLen : ℕ := 4

/-- Number of base32 characters needed for `n` bytes. -/
def base32Len (n : ℕ) : ℕ := (n + 4) / 5 * 8

section Base32

/-- The pieces of a list no longer than the first argument. -/
def chunksUpTo {α : Type} (n : ℕ) : ℕ → List α → List (List α)
  | 0, _ => []
  | _ + 1, [] => []
  | fuel + 1, xs => xs.take n :: chunksUpTo n fuel (xs.drop n)

/-- A list in pieces of `n`, the last of which may be shorter: `slice::chunks`. -/
def chunks {α : Type} (n : ℕ) (xs : List α) : List (List α) := chunksUpTo n xs.length xs

/-- The 40 bits of a piece of up to five bytes. -/
def bitsOfBytes (chunk : Bytes) : ℕ :=
  (List.range 5).foldl (fun bits i => bits * 256 + (chunk.getD i 0).toNat) 0

/-- The character for each five bits of a piece. -/
def base32Encode (data : Bytes) : Bytes :=
  (chunks 5 data).flatMap fun chunk =>
    (List.range 8).map fun i => alphabet.getD (bitsOfBytes chunk / 32 ^ (7 - i) % 32) 0

/-- The five bits of a character. -/
def characterValue (c : UInt8) : Fallible RecoveryError ℕ :=
  Fallible.ofOption (.badCharacter (Char.ofNat c.toNat)) (alphabet.idxOf? c)

/-- The 40 bits of a piece of up to eight characters; missing ones count as `0`. -/
def bitsOfCharacters (chunk : Bytes) : Fallible RecoveryError ℕ :=
  (List.range 8).foldlM
    (fun bits i => do
      let value ← characterValue (chunk.getD i (UInt8.ofNat '0'.toNat))
      return bits * 32 + value) 0

/-- The five bytes of 40 bits. -/
def bytesOfBits (bits : ℕ) : Bytes :=
  (List.range 5).map fun i => UInt8.ofNat (bits / 256 ^ (4 - i))

def base32Decode (text : Bytes) : Fallible RecoveryError Bytes := do
  let pieces ← (chunks 8 text).mapM bitsOfCharacters
  return pieces.flatMap bytesOfBits

end Base32

section Codec

variable (sha256 : Bytes → Block 32)

/-- The domain-separated checksum of a key. -/
def checksum (bytes : Bytes) : Bytes :=
  (sha256 (ascii "sypherstore/v1/recovery-checksum" ++ bytes)).bytes.take checksumLen

/-- Renders a key as a transcribable recovery string. -/
def encode (key : Key) : String :=
  let encoded := base32Encode (key.bytes ++ checksum sha256 key.bytes)
  let groups := (chunks 8 encoded).map fun group => group.map fun c => Char.ofNat c.toNat
  String.ofList (formatPrefix ++ groups.flatMap fun group => '-' :: group)

/-- `char::to_ascii_uppercase`. -/
def toAsciiUppercase (c : Char) : Char :=
  if 'a' ≤ c ∧ c ≤ 'z' then Char.ofNat (c.toNat - 32) else c

/-- What is left of the input without spaces and dashes, in upper case. -/
def cleaned (input : String) : List Char :=
  (input.toList.filter fun c => !isWhitespace c && c ≠ '-').map toAsciiUppercase

/-- Parses a recovery string back into a key, verifying the checksum. The length of the
body is counted in bytes, and so is what the decoder reads. -/
def decode (input : String) : Fallible RecoveryError Key := do
  let upper := cleaned input
  if formatPrefix.isPrefixOf upper then
    let body := (String.ofList (upper.drop formatPrefix.length)).toUTF8.data.toList
    let expectedChars := base32Len (keyLen + checksumLen)
    if body.length ≠ expectedChars then Fallible.raise (.badLength expectedChars body.length)
    else
      let decoded ← base32Decode body
      if decoded.length < keyLen + checksumLen then
        Fallible.raise (.badLength expectedChars body.length)
      else
        let keyBytes := decoded.take keyLen
        let provided := (decoded.take (keyLen + checksumLen)).drop keyLen
        if checksum sha256 keyBytes ≠ provided then Fallible.raise .badChecksum
        else (Key.takeFrom keyBytes).mapError .key
  else Fallible.raise .badPrefix

end Codec

end Recovery

end Sypherstore
