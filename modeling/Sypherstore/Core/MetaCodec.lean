/-
# The hexadecimal codec of the `meta` table

Which texts are read as bytes, and which are reported. The decoder hands each pair of
characters to the integer parser of the standard library, which reads a plus sign in front of
a digit as well, and it cuts pairs without looking at characters. Every other text is decoded
to the bytes whose digits it holds, or is reported as malformed.
-/

import Sypherstore.Core.MalformedMeta

namespace Sypherstore

open Logic

variable {text : String}

/-- The text of a value is decoded to what it is the hexadecimal text of, and reported if it is
none. -/
structure ExactHex (text : String) : Prop where
  decoded : ∀ bytes, Hex.decode text = .ok bytes ↔
    Hex.IsHex text.toList ∧ Hex.encode bytes = text.toLower
  rejected : ¬ Hex.IsHex text.toList → Hex.decode text = .error (.error ())
  reported : ¬ Hex.IsHex text.toList → ∀ (sql : Sql) (key : String) (v : Vault),
    sql.fault (.getMeta key) = none → v.metaTable[key]? = some text →
      v.getMetaBytes sql key = .error (.error (.badMeta key))

/-- A text that the decoder refuses is reported under its key. -/
theorem getMetaBytes_of_refused {sql : Sql} {key : String} {v : Vault}
    (hfault : sql.fault (.getMeta key) = none) (hlookup : v.metaTable[key]? = some text)
    (hrefused : Hex.decode text = .error (.error ())) :
    v.getMetaBytes sql key = .error (.error (.badMeta key)) := by
  simp only [Vault.getMetaBytes, Vault.getMeta, Sql.attempt, hfault, hlookup, Fallible.ok_bind,
    hrefused]
  rfl

/-- **The codec is exact** on every text, except where a pair of digits has a plus sign in
front, and all else is pairs of digits, and where digits are followed by a pair of bytes that
ends inside a character. What is encoded is always decoded to itself. -/
theorem meta_hex_is_exact_iff (bytes : Bytes) (text : String) :
    Hex.decode (Hex.encode bytes) = .ok bytes ∧
      (ExactHex text ↔ ¬ Hex.ReadsSign text.toList ∧
        ¬ (Hex.byteLength text.toList % 2 = 0 ∧ Hex.CutsCharacter text.toList)) := by
  refine ⟨Hex.decode_encode bytes, fun h => ⟨?_, ?_⟩, ?_⟩
  · rintro ⟨pairs, hchars, hpairs, hplus⟩
    have hvalues : ∀ pair ∈ pairs, (Hex.pairValue pair.1 pair.2).isSome :=
      fun pair hmem => (Hex.isSome_pairValue_iff ..).mpr (hpairs pair hmem)
    obtain ⟨bytes, hdecode⟩ := Hex.exists_decode_of_pairs hchars hvalues
    exact Hex.not_readsSign_of_isHex ((h.decoded bytes).mp hdecode).1 ⟨pairs, hchars, hpairs, hplus⟩
  · rw [← Hex.decode_reports_iff]
    by_cases hhex : Hex.IsHex text.toList
    · obtain ⟨pairs, hchars, hvalues⟩ := Hex.exists_pairs_of_isHex hhex
      obtain ⟨bytes, hdecode⟩ := Hex.exists_decode_of_pairs hchars hvalues
      rw [hdecode]
      exact .ok bytes
    · rw [h.rejected hhex]
      exact .raise ()
  · rintro ⟨hsign, hcuts⟩
    have hdecoded := Hex.decode_eq_ok_iff_isHex hsign
    have hrejected : ¬ Hex.IsHex text.toList → Hex.decode text = .error (.error ()) := by
      intro hhex
      have hreports := (Hex.decode_reports_iff text).mpr hcuts
      rcases hdecode : Hex.decode text with (_ | _) | bytes
      · rfl
      · exact absurd hdecode hreports
      · exact absurd ((hdecoded bytes).mp hdecode).1 hhex
    exact ⟨hdecoded, hrejected, fun hhex _ _ _ hfault hlookup =>
      getMetaBytes_of_refused hfault hlookup (hrejected hhex)⟩

/-- "+f" is no hexadecimal text, and is read as the byte fifteen. -/
theorem a_sign_is_read_as_a_digit :
    Hex.decode "+f" = .ok [15] ∧ ¬ Hex.IsHex "+f".toList ∧ ¬ ExactHex "+f" := by
  have hdecode : Hex.decode "+f" = .ok [15] := by decide
  have hhex : ¬ Hex.IsHex "+f".toList := fun h => by
    have hdigit := h.2 '+' (by decide)
    revert hdigit
    decide
  exact ⟨hdecode, hhex, fun h => hhex ((h.decoded _).mp hdecode).1⟩

end Sypherstore
