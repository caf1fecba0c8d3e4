/-
# The data model

Metadata, payload, and their wire forms (`model.rs`).

The two halves of a secret are written as CBOR maps with one-letter field names.
Fields with a default are left out when they hold it, so a reader has to supply
exactly the value whose absence the writer meant. The round-trip theorems at the
end are where a dropped field or a wrong default would show.
-/

import Sypherstore.Core.Reference

namespace Sypherstore

open Logic

/-! ## Kinds of secret -/

/-- The kinds of secret the vault can hold. -/
inductive SecretType where
  | password
  | apiKey
  | sshKey
  | gpgKey
  | certificate
  | token
  | recoveryCodes
  | creditCard
  | secureNote
  | database
  | wifiPassword
  | licenseKey
  | other
  deriving DecidableEq, Repr, Inhabited

namespace SecretType

/-- Every variant, in the order of the editor's dropdown. -/
def all : List SecretType :=
  [.password, .apiKey, .sshKey, .gpgKey, .certificate, .token, .recoveryCodes, .creditCard,
    .secureNote, .database, .wifiPassword, .licenseKey, .other]

/-- Stable identifier used in the database and on the command line. -/
def asStr : SecretType → String
  | .password => "password"
  | .apiKey => "api_key"
  | .sshKey => "ssh_key"
  | .gpgKey => "gpg_key"
  | .certificate => "certificate"
  | .token => "token"
  | .recoveryCodes => "recovery_codes"
  | .creditCard => "credit_card"
  | .secureNote => "secure_note"
  | .database => "database"
  | .wifiPassword => "wifi_password"
  | .licenseKey => "license_key"
  | .other => "other"

/-- Parses the stable identifier; unknown values map to `other`. -/
def fromStrLenient (s : String) : SecretType :=
  (all.find? fun t => t.asStr = s).getD .other

/-- No kind shadows another in the lenient lookup. -/
@[simp] theorem fromStrLenient_asStr (t : SecretType) : fromStrLenient t.asStr = t := by
  cases t <;> decide

end SecretType

/-! ## The two halves of a secret -/

/-- The searchable half of a secret. -/
structure SecretMeta where
  id : Uuid
  name : String
  domain : String
  application : String
  secretType : SecretType
  username : String
  tags : List String
  /-- Unix seconds. -/
  createdAt : Int64
  updatedAt : Int64
  deriving DecidableEq, Inhabited

/-- The half of a secret that is only in plaintext while unlocked. -/
structure SecretPayload where
  value : Bytes
  notes : Option Bytes
  extra : List (String × Bytes)
  deriving DecidableEq

/-! ## Wire forms -/

/-- Wire form of `SecretMeta`. The secret's own id is not part of it: it is the
row key, and is supplied again when the record is read. -/
structure MetaWire where
  name : String
  domain : String
  application : String
  secretType : String
  username : String
  tags : List String
  createdAt : Int64
  updatedAt : Int64
  deriving DecidableEq

namespace MetaWire

def fromMeta (m : SecretMeta) : MetaWire where
  name := m.name
  domain := m.domain
  application := m.application
  secretType := m.secretType.asStr
  username := m.username
  tags := m.tags
  createdAt := m.createdAt
  updatedAt := m.updatedAt

/-- Rebuilds the full record around the row id the caller supplies. -/
def intoMeta (wire : MetaWire) (id : Uuid) : SecretMeta where
  id := id
  name := wire.name
  domain := wire.domain
  application := wire.application
  secretType := SecretType.fromStrLenient wire.secretType
  username := wire.username
  tags := wire.tags
  createdAt := wire.createdAt
  updatedAt := wire.updatedAt

/-- The fields the derived `Serialize` writes. -/
def entries (wire : MetaWire) : List (String × Cbor) :=
  [("n", .text wire.name)]
    ++ Cbor.entryUnless wire.domain.isEmpty "d" (.text wire.domain)
    ++ Cbor.entryUnless wire.application.isEmpty "a" (.text wire.application)
    ++ [("t", .text wire.secretType)]
    ++ Cbor.entryUnless wire.username.isEmpty "u" (.text wire.username)
    ++ Cbor.entryUnless wire.tags.isEmpty "g" (.array (wire.tags.map .text))
    ++ [("c", .int wire.createdAt.toInt), ("m", .int wire.updatedAt.toInt)]

def toCbor (wire : MetaWire) : Cbor := .map wire.entries

/-- The derived `Deserialize`. -/
def ofCbor (value : Cbor) : Option MetaWire := do
  let entries ← value.asMap
  let name ← Cbor.required entries "n" Cbor.asText
  let domain ← Cbor.optional entries "d" Cbor.asText ""
  let application ← Cbor.optional entries "a" Cbor.asText ""
  let secretType ← Cbor.required entries "t" Cbor.asText
  let username ← Cbor.optional entries "u" Cbor.asText ""
  let tags ← Cbor.optional entries "g" (Cbor.asArray Cbor.asText) []
  let createdAt ← Cbor.required entries "c" Cbor.asInt64
  let updatedAt ← Cbor.required entries "m" Cbor.asInt64
  return { name, domain, application, secretType, username, tags, createdAt, updatedAt }

end MetaWire

/-- Wire form of `SecretPayload`. -/
structure PayloadWire where
  value : Bytes
  notes : Option Bytes
  extra : List (String × Bytes)
  deriving DecidableEq

namespace PayloadWire

def fromPayload (p : SecretPayload) : PayloadWire where
  value := p.value
  notes := p.notes
  extra := p.extra

def intoPayload (wire : PayloadWire) : SecretPayload where
  value := wire.value
  notes := wire.notes
  extra := wire.extra

/-- The fields the derived `Serialize` writes. -/
def entries (wire : PayloadWire) : List (String × Cbor) :=
  [("v", Cbor.ofBytes wire.value)]
    ++ Cbor.entryUnless wire.notes.isNone "n" (Cbor.ofOption Cbor.ofBytes wire.notes)
    ++ Cbor.entryUnless wire.extra.isEmpty "x"
      (.array (wire.extra.map (Cbor.ofPair .text Cbor.ofBytes)))

def toCbor (wire : PayloadWire) : Cbor := .map wire.entries

/-- The derived `Deserialize`. -/
def ofCbor (value : Cbor) : Option PayloadWire := do
  let entries ← value.asMap
  let value ← Cbor.required entries "v" Cbor.asBytes
  let notes ← Cbor.optional entries "n" (Cbor.asOption Cbor.asBytes) none
  let extra ← Cbor.optional entries "x" (Cbor.asArray (Cbor.asPair Cbor.asText Cbor.asBytes)) []
  return { value, notes, extra }

end PayloadWire

/-! ## Round trips -/

namespace MetaWire

private theorem optional_text {entries : List (String × Cbor)} {name value : String}
    (hnamed : Cbor.named entries name =
      Cbor.entryUnless value.isEmpty name (.text value)) :
    Cbor.optional entries name Cbor.asText "" = some value := by
  refine Cbor.optional_of_named hnamed ?_ fun _ => rfl
  intro hempty
  exact (String.isEmpty_iff.mp hempty).symm

/-- Every field is read back, whether it was written or left out. -/
theorem ofCbor_toCbor (wire : MetaWire) : ofCbor wire.toCbor = some wire := by
  have hname : Cbor.required wire.entries "n" Cbor.asText = some wire.name :=
    Cbor.required_of_named (by simp [entries]) (Cbor.asText_text _)
  have hdomain : Cbor.optional wire.entries "d" Cbor.asText "" = some wire.domain :=
    optional_text (by simp [entries])
  have happlication :
      Cbor.optional wire.entries "a" Cbor.asText "" = some wire.application :=
    optional_text (by simp [entries])
  have htype : Cbor.required wire.entries "t" Cbor.asText = some wire.secretType :=
    Cbor.required_of_named (by simp [entries]) (Cbor.asText_text _)
  have husername : Cbor.optional wire.entries "u" Cbor.asText "" = some wire.username :=
    optional_text (by simp [entries])
  have htags : Cbor.optional wire.entries "g" (Cbor.asArray Cbor.asText) [] =
      some wire.tags := by
    have hnamed : Cbor.named wire.entries "g" =
        Cbor.entryUnless wire.tags.isEmpty "g" (.array (wire.tags.map .text)) := by
      simp [entries]
    refine Cbor.optional_of_named hnamed ?_ ?_
    · intro hempty
      exact (List.isEmpty_iff.mp hempty).symm
    · intro _
      exact Cbor.asArray_map .text Cbor.asText Cbor.asText_text wire.tags
  have hcreated : Cbor.required wire.entries "c" Cbor.asInt64 = some wire.createdAt :=
    Cbor.required_of_named (by simp [entries]) (Cbor.asInt64_int _)
  have hupdated : Cbor.required wire.entries "m" Cbor.asInt64 = some wire.updatedAt :=
    Cbor.required_of_named (by simp [entries]) (Cbor.asInt64_int _)
  simp [ofCbor, toCbor, hname, hdomain, happlication, htype, husername, htags, hcreated,
    hupdated]

/-- Sealing a record and reading it under a row id gives the record under that
id: the id is the one field that does not travel with the rest. -/
@[simp] theorem intoMeta_fromMeta (m : SecretMeta) (id : Uuid) :
    (fromMeta m).intoMeta id = { m with id := id } := by
  simp [fromMeta, intoMeta]

end MetaWire

namespace PayloadWire

theorem ofCbor_toCbor (wire : PayloadWire) : ofCbor wire.toCbor = some wire := by
  have hvalue : Cbor.required wire.entries "v" Cbor.asBytes = some wire.value :=
    Cbor.required_of_named (by simp [entries]) (Cbor.asBytes_ofBytes _)
  have hnotes : Cbor.optional wire.entries "n" (Cbor.asOption Cbor.asBytes) none =
      some wire.notes := by
    have hnamed : Cbor.named wire.entries "n" = Cbor.entryUnless wire.notes.isNone "n"
        (Cbor.ofOption Cbor.ofBytes wire.notes) := by
      simp [entries]
    refine Cbor.optional_of_named hnamed ?_ ?_
    · intro hnone
      exact (Option.isNone_iff_eq_none.mp hnone).symm
    · intro hsome
      cases hcase : wire.notes with
      | none => simp [hcase] at hsome
      | some notes => exact Cbor.asOption_ofBytes notes
  have hextra : Cbor.optional wire.entries "x"
      (Cbor.asArray (Cbor.asPair Cbor.asText Cbor.asBytes)) [] = some wire.extra := by
    have hnamed : Cbor.named wire.entries "x" = Cbor.entryUnless wire.extra.isEmpty "x"
        (.array (wire.extra.map (Cbor.ofPair .text Cbor.ofBytes))) := by
      simp [entries]
    refine Cbor.optional_of_named hnamed ?_ ?_
    · intro hempty
      exact (List.isEmpty_iff.mp hempty).symm
    · intro _
      exact Cbor.asArray_map _ _
        (Cbor.asPair_ofPair Cbor.asText_text Cbor.asBytes_ofBytes) wire.extra
  simp [ofCbor, toCbor, hvalue, hnotes, hextra]

@[simp] theorem intoPayload_fromPayload (p : SecretPayload) :
    (fromPayload p).intoPayload = p := rfl

end PayloadWire

/-! ## Neither half reads as the other -/

/-- A payload has no kind and no timestamps. -/
theorem MetaWire.ofCbor_payload (wire : PayloadWire) : MetaWire.ofCbor wire.toCbor = none := by
  have hcreated : Cbor.required wire.entries "c" Cbor.asInt64 = none :=
    Cbor.required_of_absent (by simp [PayloadWire.entries])
  simp [MetaWire.ofCbor, PayloadWire.toCbor, hcreated]

/-- Metadata has no value. -/
theorem PayloadWire.ofCbor_meta (wire : MetaWire) : PayloadWire.ofCbor wire.toCbor = none := by
  have hvalue : Cbor.required wire.entries "v" Cbor.asBytes = none :=
    Cbor.required_of_absent (by simp [MetaWire.entries])
  simp [PayloadWire.ofCbor, MetaWire.toCbor, hvalue]

end Sypherstore
