/-
# What is asked of the libraries

Results about the vault rely on documented behaviour of packages that are not in the
repository. CBOR is asked to read back the records that this program writes with it, and
nothing else. The reference primitives meet every law.
-/

import Sypherstore.Core.Session

namespace Sypherstore

open Logic

/-! ## The records written as CBOR -/

/-- The two halves of a secret and the list of authenticators, as they are written. -/
inductive WireRecord : Cbor → Prop where
  | metadata (wire : MetaWire) : WireRecord wire.toCbor
  | payload (wire : PayloadWire) : WireRecord wire.toCbor
  | enrollments (records : List Enrollment) : WireRecord (.array (records.map Enrollment.toCbor))

theorem MetaWire.fits (wire : MetaWire) : wire.toCbor.Fits := by
  refine .map ?_
  have htags : Cbor.Fits (.array (wire.tags.map .text)) := Cbor.fits_array_map fun _ => .text _
  simp +contextual [MetaWire.entries, Cbor.mem_entryUnless, or_imp, Cbor.Fits.text, htags,
    Cbor.fits_int64]

theorem PayloadWire.fits (wire : PayloadWire) : wire.toCbor.Fits := by
  refine .map ?_
  have hextra : Cbor.Fits (.array (wire.extra.map (Cbor.ofPair .text Cbor.ofBytes))) :=
    Cbor.fits_array_map fun _ => Cbor.fits_ofPair (.text _) (Cbor.fits_ofBytes _)
  simp +contextual [PayloadWire.entries, Cbor.mem_entryUnless, or_imp, Cbor.fits_ofBytes,
    hextra, Cbor.fits_ofOption]

theorem Enrollment.fits (record : Enrollment) : record.toCbor.Fits := by
  refine .map ?_
  simp [Enrollment.entries, Cbor.Fits.text, Cbor.fits_ofBytes]

theorem WireRecord.fits {value : Cbor} (h : WireRecord value) : value.Fits := by
  cases h with
  | metadata wire => exact wire.fits
  | payload wire => exact wire.fits
  | enrollments records => exact Cbor.fits_array_map Enrollment.fits

/-! ## The laws -/

namespace Primitives

/-- The documented behaviour that most results rely on: the AEAD decrypts exactly what it
encrypts and appends a 16-byte tag, and the records and the text of UUIDs can be read
back. -/
structure Lawful (P : Primitives) : Prop where
  exact : P.aead.Exact
  tagged : P.aead.Tagged 16
  cbor : ∀ value, WireRecord value → P.cborRead (P.cborWrite value) = some value
  uuid : ∀ id, P.uuidParse (P.uuidText id) = some id

theorem Lawful.uuidText_inj {P : Primitives} (hP : P.Lawful) {id id' : Uuid} :
    P.uuidText id = P.uuidText id' ↔ id = id' := by
  constructor
  · intro h
    have hread := hP.uuid id
    rw [h, hP.uuid id'] at hread
    exact (Option.some.inj hread).symm
  · exact congrArg P.uuidText

theorem reference_lawful : reference.Lawful where
  exact := Aead.framed_exact
  tagged := reference_tagged
  cbor value h := Cbor.decode_encode h.fits
  uuid := by
    intro id
    have hchars : (String.ofList (hyphenate (Hex.encodeChars id.bytes))).toList.filter (· ≠ '-') =
        Hex.encodeChars id.bytes := by
      rw [String.toList_ofList]
      exact filter_hyphenate (encodeChars_ne_hyphen id.bytes)
    simp only [reference, hchars, Hex.decodeChars_encodeChars, id.length_eq, dite_true]

end Primitives

end Sypherstore
