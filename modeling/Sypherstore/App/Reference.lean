/-
# A platform that meets every law

A SQLite that keeps its tables in the codec of the reference primitives, a chip that
seals nothing, and runs in which nothing is refused. They show that what results about
commands assume is satisfied together, and they can be evaluated.
-/

import Sypherstore.App.Commands

namespace Sypherstore

open Logic

/-! ## Databases as bytes -/

section Tables

variable {β : Type}

def tableToCbor (write : β → Cbor) (table : Table β) : Cbor :=
  .array (table.toList.map (Cbor.ofPair .text write))

def tableOfCbor (read : Cbor → Option β) (value : Cbor) : Option (Table β) :=
  (Cbor.asArray (Cbor.asPair Cbor.asText read) value).map fun rows => Std.ExtTreeMap.ofList rows

theorem tableOfCbor_tableToCbor {write : β → Cbor} {read : Cbor → Option β}
    (hread : ∀ b, read (write b) = some b) (table : Table β) :
    tableOfCbor read (tableToCbor write table) = some table := by
  have hpairs := Cbor.asArray_map _ _ (Cbor.asPair_ofPair Cbor.asText_text hread) table.toList
  rw [tableOfCbor, tableToCbor, hpairs, Option.map_some, Table.ofList_toList]

theorem fits_tableToCbor {write : β → Cbor} (hwrite : ∀ b, (write b).Fits) (table : Table β) :
    (tableToCbor write table).Fits :=
  Cbor.fits_array_map fun _ => Cbor.fits_ofPair (.text _) (hwrite _)

end Tables

namespace StoredRow

def toCbor (row : StoredRow) : Cbor :=
  Cbor.ofPair .text (Cbor.ofPair Cbor.ofBytes Cbor.ofBytes)
    (row.metaId, row.metaBlob, row.payloadBlob)

def ofCbor (value : Cbor) : Option StoredRow :=
  (Cbor.asPair Cbor.asText (Cbor.asPair Cbor.asBytes Cbor.asBytes) value).map
    fun columns => ⟨columns.1, columns.2.1, columns.2.2⟩

theorem ofCbor_toCbor (row : StoredRow) : ofCbor row.toCbor = some row := by
  rw [ofCbor, toCbor, Cbor.asPair_ofPair Cbor.asText_text
    (Cbor.asPair_ofPair Cbor.asBytes_ofBytes Cbor.asBytes_ofBytes)]
  rfl

theorem fits (row : StoredRow) : row.toCbor.Fits :=
  Cbor.fits_ofPair (.text _) (Cbor.fits_ofPair (Cbor.fits_ofBytes _) (Cbor.fits_ofBytes _))

end StoredRow

namespace Database

def secretsToCbor : SecretsTable → Cbor
  | .absent => .null
  | .legacy count => .int count.toNat
  | .current rows => tableToCbor StoredRow.toCbor rows

def secretsOfCbor : Cbor → Option SecretsTable
  | .null => some .absent
  | .int count => some (.legacy (UInt64.ofNat count.toNat))
  | value => (tableOfCbor StoredRow.ofCbor value).map .current

theorem secretsOfCbor_secretsToCbor (secrets : SecretsTable) :
    secretsOfCbor (secretsToCbor secrets) = some secrets := by
  cases secrets with
  | absent => rfl
  | legacy count => simp [secretsToCbor, secretsOfCbor]
  | current rows =>
      have hrows := tableOfCbor_tableToCbor StoredRow.ofCbor_toCbor rows
      show (tableOfCbor StoredRow.ofCbor (tableToCbor StoredRow.toCbor rows)).map _ = _
      rw [hrows]
      rfl

theorem fits_secretsToCbor (secrets : SecretsTable) : (secretsToCbor secrets).Fits := by
  cases secrets with
  | absent => exact .null
  | legacy count =>
      have hcount := count.toNat_lt
      exact .int (by omega) (by omega)
  | current rows => exact fits_tableToCbor StoredRow.fits rows

def toCbor (d : Database) : Cbor :=
  .array [.int d.userVersion.toInt, Cbor.ofOption (tableToCbor .text) d.metaTable,
    secretsToCbor d.secrets]

def ofCbor : Cbor → Option Database
  | .array [.int userVersion, metaTable, secrets] => do
      let metaTable ← Cbor.asOption (tableOfCbor Cbor.asText) metaTable
      let secrets ← secretsOfCbor secrets
      return { userVersion := Int32.ofInt userVersion, metaTable, secrets }
  | _ => none

theorem ofCbor_toCbor (d : Database) : ofCbor d.toCbor = some d := by
  have hmeta : Cbor.asOption (tableOfCbor Cbor.asText)
      (Cbor.ofOption (tableToCbor .text) d.metaTable) = some d.metaTable := by
    cases d.metaTable with
    | none => rfl
    | some table =>
        show (tableOfCbor Cbor.asText (tableToCbor .text table)).map some = _
        rw [tableOfCbor_tableToCbor Cbor.asText_text]
        rfl
  simp [ofCbor, toCbor, hmeta, secretsOfCbor_secretsToCbor]

theorem fits (d : Database) : d.toCbor.Fits := by
  have hlow := Int32.minValue_le_toInt d.userVersion
  have hhigh := Int32.toInt_le d.userVersion
  rw [Int32.toInt_minValue] at hlow
  rw [Int32.toInt_maxValue] at hhigh
  have hversion : Cbor.Fits (.int d.userVersion.toInt) := .int (by omega) (by omega)
  refine .array ?_
  simp [hversion, Cbor.fits_ofOption (fits_tableToCbor .text), fits_secretsToCbor]

end Database

/-! ## The platform -/

/-- SQLite reports a file of one byte as empty. -/
def SqliteFormat.reference : SqliteFormat where
  load main _ :=
    match (Cbor.decode main).bind Database.ofCbor with
    | some d => .ok d
    | none => if main.length ≤ 1 then .ok .empty else .error ⟨"file is not a database"⟩
  image d := Cbor.encode d.toCbor

theorem SqliteFormat.reference_lawful : SqliteFormat.reference.Lawful where
  empty := rfl
  image d := by
    simp [SqliteFormat.reference, Cbor.decode_encode d.fits, Database.ofCbor_toCbor]

/-- The public area is the chip's randomness, and is kept behind the key. -/
def Chip.reference : Chip where
  create seed value := (seed, value ++ seed)
  unmarshalPublic _ := .ok ()
  unmarshalPrivate _ := .ok ()
  load publicArea privateArea :=
    if privateArea.drop keyLen = publicArea then .ok (privateArea.take keyLen)
    else .error "the areas do not belong together"

theorem Chip.reference_lawful : Chip.reference.Lawful where
  marshal _ _ := ⟨rfl, rfl⟩
  unseals seed key := by
    simp [Chip.reference, key.length_eq]
  bound := by
    intro publicArea publicArea' privateArea value value' h h'
    have howner : ∀ {area value}, Chip.reference.load area privateArea = .ok value →
        privateArea.drop keyLen = area := by
      intro area value hload
      by_contra hne
      simp [Chip.reference, hne] at hload
    exact (howner h').symm.trans (howner h)

namespace Platform

def reference : Platform where
  primitives := .reference
  sqlite := .reference
  json := ⟨fun _ => .ok .default, fun _ => .ok []⟩
  sha256 bytes := Block.replicate 32 bytes.sum
  chip := .reference

end Platform

/-- Where the reference runs keep their vault. -/
def VaultPaths.reference : VaultPaths := ⟨"/vault"⟩

/-- A run in which nothing is refused and no question is asked. -/
def Invocation.working (inner : InnerKeyProvider) (keyText : String) : Invocation where
  force := true
  keyText := .ok keyText
  answer := .error .notFound
  disk := .reliable
  call := .working 0 0 (Nat.le_refl 0) (Block.replicate 16 0)
  checkpoint := .reliable
  tpm := .working [1]
  outerKey := .ok (Block.replicate keyLen 1)
  inner := inner
  backupNonce := .ok (Block.replicate 24 11)
  unixTime := 0

end Sypherstore
