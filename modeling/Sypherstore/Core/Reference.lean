/-
# Primitives that meet every law

Results about the vault assume documented behaviour of libraries that are not in
the repository. These functions have that behaviour and can be evaluated. The AEAD
hides nothing and the key derivation mixes very little; they are no cryptography.
-/

import Mathlib.Data.UInt
import Sypherstore.Core.Keys
import Sypherstore.Logic.CborBytes
import Sypherstore.Logic.Text

namespace Sypherstore

open Logic

namespace Primitives

/-- The hyphens of a UUID's text. -/
def hyphenate (chars : List Char) : List Char :=
  chars.take 8 ++ '-' :: ((chars.drop 8).take 4 ++ '-' :: ((chars.drop 12).take 4 ++
    '-' :: ((chars.drop 16).take 4 ++ '-' :: chars.drop 20)))

def reference : Primitives where
  aead := Aead.framed keyLen 24
  hkdfExpand prk info := prk.map fun byte => byte + info.sum
  hkdf salt ikm info := Block.replicate keyLen (salt.sum + ikm.sum + info.sum)
  cborWrite := Cbor.encode
  cborRead := Cbor.decode
  cborError record _ := record
  uuidText id := String.ofList (hyphenate (Hex.encodeChars id.bytes))
  uuidParse text :=
    match Hex.decodeChars (text.toList.filter (· ≠ '-')) with
    | .ok bytes => if h : bytes.length = 16 then some ⟨bytes, h⟩ else none
    | .error _ => none
  lowercase text := text.toLower

/-- Taking the hyphens out again leaves the digits. -/
theorem filter_hyphenate {chars : List Char} (h : ∀ c ∈ chars, c ≠ '-') :
    (hyphenate chars).filter (· ≠ '-') = chars := by
  have hkeep : ∀ part : List Char, part ⊆ chars → part.filter (· ≠ '-') = part := by
    intro part hpart
    refine List.filter_eq_self.mpr fun c hc => ?_
    simpa using h c (hpart hc)
  have hmiddle : ∀ a, ((chars.drop a).take 4).filter (· ≠ '-') = (chars.drop a).take 4 :=
    fun a => hkeep _ fun c hc => List.mem_of_mem_drop (List.mem_of_mem_take hc)
  have hjoin : ∀ a, (chars.drop a).take 4 ++ chars.drop (a + 4) = chars.drop a := by
    intro a
    rw [← List.drop_drop, List.take_append_drop]
  have hfilter : (hyphenate chars).filter (· ≠ '-') =
      chars.take 8 ++ ((chars.drop 8).take 4 ++ ((chars.drop 12).take 4 ++
        ((chars.drop 16).take 4 ++ chars.drop 20))) := by
    simp only [hyphenate, List.filter_append, List.filter_cons, ne_eq, not_true_eq_false,
      decide_false, Bool.false_eq_true, if_false]
    rw [hkeep (chars.take 8) fun c hc => List.mem_of_mem_take hc, hmiddle, hmiddle, hmiddle,
      hkeep (chars.drop 20) fun c hc => List.mem_of_mem_drop hc]
  rw [hfilter, hjoin 16, hjoin 12, hjoin 8, List.take_append_drop]

theorem encodeChars_ne_hyphen (bytes : Bytes) : ∀ c ∈ Hex.encodeChars bytes, c ≠ '-' := by
  intro c hc
  obtain ⟨byte, _, hc⟩ := List.mem_flatMap.mp hc
  have hbyte := byte.toNat_lt
  rcases List.mem_cons.mp hc with rfl | hc
  · exact Hex.digit_ne_hyphen _ (by omega)
  · rcases List.mem_cons.mp hc with rfl | hc
    · exact Hex.digit_ne_hyphen _ (by omega)
    · cases hc

theorem reference_tagged : reference.aead.Tagged 16 := by
  intro key nonce aad msg ct henc
  have hle := Aead.framed_tagged key nonce aad msg ct henc
  omega

theorem reference_bindsKey : reference.aead.BindsKey := Aead.framed_bindsKey

end Primitives

end Sypherstore
