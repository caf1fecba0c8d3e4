/-
# The vault database

The two tables of `vault.db` and the statements the code runs on them
(`vault/db.rs`).

Each call of the program sees a database that may refuse any statement; a
refused statement changes nothing. Rows come back in whatever order the database
likes, so a scan carries an arbitrary rearrangement of the table with it.
-/

import Sypherstore.Core.Envelope
import Sypherstore.Core.Paths
import Sypherstore.Logic.Table

namespace Sypherstore

open Logic

/-- An error reported by SQLite. -/
structure SqliteError where
  message : String
  deriving DecidableEq, Repr

inductive VaultError where
  /-- "no secret with id {0}" -/
  | notFound (id : Uuid)
  /-- "vault is not initialized: {0} is missing" -/
  | notInitialized (what : String)
  /-- "this vault uses the old pre-encryption format, which cannot be upgraded in
  place" -/
  | incompatibleSchema
  /-- "vault metadata key {0:?} is missing or malformed" -/
  | badMeta (key : String)
  | sqlite (e : SqliteError)
  | path (e : PathError)
  deriving DecidableEq

/-! ## Tables -/

/-- Meta table key holding the per-vault KDF salt (hex). -/
def metaKdfSalt : String := "kdf_salt"

/-- Meta table key holding the per-vault FIDO2 hmac salt (hex). -/
def metaHmacSalt : String := "fido_hmac_salt"

/-- Meta table key holding the CBOR list of enrolled authenticators (hex). -/
def metaEnrollments : String := "fido_enrollments"

/-- Meta table key holding the verification envelope (hex). -/
def metaVerifyBlob : String := "verify_blob"

/-- Meta table key holding the UUID the verification envelope is bound to. -/
def metaVerifyId : String := "verify_id"

/-- The columns of a `secrets` row beside its primary key. -/
structure StoredRow where
  metaId : String
  metaBlob : Bytes
  payloadBlob : Bytes
  deriving DecidableEq

/-- The part of a row that `list_rows` and `get_meta_row` read. -/
structure SecretRow where
  id : Uuid
  metaId : Uuid
  metaBlob : Bytes
  deriving DecidableEq

/-- An open vault: the `meta` table and the `secrets` table, by primary key. -/
structure Vault where
  metaTable : Table String
  secrets : Table StoredRow
  deriving DecidableEq

/-- The tables `migrate` creates. -/
def Vault.empty : Vault where
  metaTable := ∅
  secrets := ∅

/-! ## One call's view of the database -/

/-- The statements, so that any one of them can be refused. -/
inductive Statement where
  | connect
  | pragma (name : String)
  | readVersion
  | findSecrets
  | prepareMetaId
  | createTables
  | writeVersion
  | checkpoint
  | getMeta (key : String)
  | setMeta (key : String)
  | insertRow
  | updateRow
  | deleteRow
  | listRows
  | getMetaRow
  | getBlob
  | count
  deriving DecidableEq, Repr

/-- How the database behaves during one call. -/
structure Sql where
  /-- The error a statement is refused with, if it is. -/
  fault : Statement → Option SqliteError
  /-- The order in which a scan returns the rows. -/
  scan : List (String × StoredRow) → List (String × StoredRow)
  scan_perm : ∀ rows, (scan rows).Perm rows

/-- A database that refuses nothing and scans in the order of the keys. -/
def Sql.reliable : Sql where
  fault _ := none
  scan rows := rows
  scan_perm rows := .refl rows

/-- Run a statement unless the database refuses it. -/
def Sql.attempt {α : Type} (sql : Sql) (statement : Statement) (result : α) :
    Fallible VaultError α :=
  match sql.fault statement with
  | some e => Fallible.raise (.sqlite e)
  | none => .ok result

theorem Sql.attempt_eq_ok_iff {α : Type} (sql : Sql) (statement : Statement) (result a : α) :
    sql.attempt statement result = .ok a ↔ sql.fault statement = none ∧ result = a := by
  unfold Sql.attempt
  split <;> simp_all [Fallible.raise]

namespace Vault

/-! ## The meta table -/

/-- Reads a value from the `meta` table. -/
def getMeta (sql : Sql) (key : String) (v : Vault) : Fallible VaultError (Option String) :=
  sql.attempt (.getMeta key) (v.metaTable[key]?)

/-- Writes a value into the `meta` table, replacing any existing entry. -/
def setMeta (sql : Sql) (key value : String) : Stateful Vault VaultError Unit := do
  Stateful.lift (sql.attempt (.setMeta key) ())
  Stateful.modify fun v => { v with metaTable := v.metaTable.insert key value }

/-- Reads a hex-encoded binary value from `meta`. -/
def getMetaBytes (sql : Sql) (key : String) (v : Vault) :
    Fallible VaultError (Option Bytes) := do
  match ← v.getMeta sql key with
  | none => return none
  | some hex =>
      let bytes ← (Hex.decode hex).mapError fun _ => .badMeta key
      return some bytes

/-- Writes a binary value into `meta` as hex. -/
def setMetaBytes (sql : Sql) (key : String) (value : Bytes) : Stateful Vault VaultError Unit :=
  setMeta sql key (Hex.encode value)

/-- Reads a required binary `meta` value, erroring when absent. -/
def requireMetaBytes (sql : Sql) (key : String) (v : Vault) : Fallible VaultError Bytes := do
  let value ← v.getMetaBytes sql key
  Fallible.ofOption (.badMeta key) value

/-! ## The secrets table -/

section Secrets

variable (P : Primitives)

/-- Inserts a new secret from its two sealed envelopes. -/
def insertRow (sql : Sql) (id metaId : Uuid) (metaBlob payloadBlob : Bytes) :
    Stateful Vault VaultError Unit := do
  Stateful.lift (sql.attempt .insertRow ())
  let v ← Stateful.read
  if P.uuidText id ∈ v.secrets then
    Stateful.raise (.sqlite ⟨"UNIQUE constraint failed: secrets.id"⟩)
  else
    Stateful.modify fun v =>
      { v with secrets :=
          v.secrets.insert (P.uuidText id) ⟨P.uuidText metaId, metaBlob, payloadBlob⟩ }

/-- Replaces an existing secret's sealed envelopes. -/
def updateRow (sql : Sql) (id metaId : Uuid) (metaBlob payloadBlob : Bytes) :
    Stateful Vault VaultError Unit := do
  Stateful.lift (sql.attempt .updateRow ())
  let v ← Stateful.read
  if P.uuidText id ∈ v.secrets then
    Stateful.modify fun v =>
      { v with secrets :=
          v.secrets.insert (P.uuidText id) ⟨P.uuidText metaId, metaBlob, payloadBlob⟩ }
  else Stateful.raise (.notFound id)

/-- Deletes a secret. -/
def delete (sql : Sql) (id : Uuid) : Stateful Vault VaultError Unit := do
  Stateful.lift (sql.attempt .deleteRow ())
  let v ← Stateful.read
  if P.uuidText id ∈ v.secrets then
    Stateful.modify fun v => { v with secrets := v.secrets.erase (P.uuidText id) }
  else Stateful.raise (.notFound id)

/-- The id a text column stands for; what does not parse becomes the nil UUID. -/
def parseUuid (text : String) : Uuid := (P.uuidParse text).getD (Block.replicate 16 0)

/-- A row as the reading statements return it. -/
def readRow (row : String × StoredRow) : SecretRow where
  id := parseUuid P row.1
  metaId := parseUuid P row.2.metaId
  metaBlob := row.2.metaBlob

/-- Returns every row's sealed metadata. -/
def listRows (sql : Sql) (v : Vault) : Fallible VaultError (List SecretRow) :=
  sql.attempt .listRows ((sql.scan v.secrets.toList).map (readRow P))

/-- Reads one row's sealed metadata. -/
def getMetaRow (sql : Sql) (id : Uuid) (v : Vault) : Fallible VaultError SecretRow := do
  let row ← sql.attempt .getMetaRow (v.secrets[P.uuidText id]?)
  Fallible.ofOption (.notFound id) (row.map fun row => readRow P ⟨P.uuidText id, row⟩)

/-- Reads one secret's sealed payload blob. -/
def getBlob (sql : Sql) (id : Uuid) (v : Vault) : Fallible VaultError Bytes := do
  let row ← sql.attempt .getBlob (v.secrets[P.uuidText id]?)
  Fallible.ofOption (.notFound id) (row.map StoredRow.payloadBlob)

end Secrets

/-- Number of stored secrets. -/
def count (sql : Sql) (v : Vault) : Fallible VaultError ℕ :=
  sql.attempt .count v.secrets.size

/-! ## What a statement can do

A statement is refused, with the tables as they were, or it does its one thing. -/

variable {P : Primitives}

theorem attempt_cases {α : Type} (sql : Sql) (statement : Statement) (result : α) :
    (∃ e, sql.fault statement = some e ∧
      sql.attempt statement result = .error (.error (.sqlite e))) ∨
    (sql.fault statement = none ∧ sql.attempt statement result = .ok result) := by
  unfold Sql.attempt
  cases h : sql.fault statement with
  | some e => exact .inl ⟨e, rfl, rfl⟩
  | none => exact .inr ⟨rfl, rfl⟩

theorem setMeta_cases (sql : Sql) (key value : String) (v : Vault) :
    (∃ e, setMeta sql key value v = (.error (.error e), v)) ∨
    setMeta sql key value v =
      (.ok (), { v with metaTable := v.metaTable.insert key value }) := by
  rcases attempt_cases sql (.setMeta key) () with ⟨e, _, h⟩ | ⟨_, h⟩
  · exact .inl ⟨_, by simp [setMeta, Stateful.bind_apply, h]; rfl⟩
  · exact .inr (by simp [setMeta, Stateful.bind_apply, h])

theorem setMeta_eq_ok_iff (sql : Sql) (key value : String) (v v' : Vault) (u : Unit) :
    setMeta sql key value v = (.ok u, v') ↔ sql.fault (.setMeta key) = none ∧
      v' = { v with metaTable := v.metaTable.insert key value } := by
  rcases attempt_cases sql (.setMeta key) () with ⟨e, hfault, h⟩ | ⟨hfault, h⟩
  · simp [setMeta, Stateful.bind_apply, h, hfault]
  · simp [setMeta, Stateful.bind_apply, h, hfault, eq_comm]

theorem insertRow_cases (sql : Sql) (id metaId : Uuid) (metaBlob payloadBlob : Bytes)
    (v : Vault) :
    (∃ e, insertRow P sql id metaId metaBlob payloadBlob v = (.error (.error e), v)) ∨
    (P.uuidText id ∉ v.secrets ∧ insertRow P sql id metaId metaBlob payloadBlob v =
      (.ok (), { v with secrets :=
        v.secrets.insert (P.uuidText id) ⟨P.uuidText metaId, metaBlob, payloadBlob⟩ })) := by
  rcases attempt_cases sql .insertRow () with ⟨e, _, h⟩ | ⟨_, h⟩
  · exact .inl ⟨_, by simp [insertRow, Stateful.bind_apply, h]; rfl⟩
  · by_cases hmem : P.uuidText id ∈ v.secrets
    · exact .inl ⟨_, by simp [insertRow, Stateful.bind_apply, h, hmem]; rfl⟩
    · exact .inr ⟨hmem, by simp [insertRow, Stateful.bind_apply, h, hmem]⟩

theorem updateRow_cases (sql : Sql) (id metaId : Uuid) (metaBlob payloadBlob : Bytes)
    (v : Vault) :
    (∃ e, updateRow P sql id metaId metaBlob payloadBlob v = (.error (.error e), v)) ∨
    (P.uuidText id ∈ v.secrets ∧ updateRow P sql id metaId metaBlob payloadBlob v =
      (.ok (), { v with secrets :=
        v.secrets.insert (P.uuidText id) ⟨P.uuidText metaId, metaBlob, payloadBlob⟩ })) := by
  rcases attempt_cases sql .updateRow () with ⟨e, _, h⟩ | ⟨_, h⟩
  · exact .inl ⟨_, by simp [updateRow, Stateful.bind_apply, h]; rfl⟩
  · by_cases hmem : P.uuidText id ∈ v.secrets
    · exact .inr ⟨hmem, by simp [updateRow, Stateful.bind_apply, h, hmem]⟩
    · exact .inl ⟨_, by simp [updateRow, Stateful.bind_apply, h, hmem]; rfl⟩

theorem delete_cases (sql : Sql) (id : Uuid) (v : Vault) :
    (∃ e, delete P sql id v = (.error (.error e), v)) ∨
    (P.uuidText id ∈ v.secrets ∧ delete P sql id v =
      (.ok (), { v with secrets := v.secrets.erase (P.uuidText id) })) := by
  rcases attempt_cases sql .deleteRow () with ⟨e, _, h⟩ | ⟨_, h⟩
  · exact .inl ⟨_, by simp [delete, Stateful.bind_apply, h]; rfl⟩
  · by_cases hmem : P.uuidText id ∈ v.secrets
    · exact .inr ⟨hmem, by simp [delete, Stateful.bind_apply, h, hmem]⟩
    · exact .inl ⟨_, by simp [delete, Stateful.bind_apply, h, hmem]; rfl⟩

/-- What was stored as hex is read back, if the statement is not refused. -/
theorem requireMetaBytes_of_lookup {sql : Sql} {key : String} {v : Vault} {bytes : Bytes}
    (h : v.metaTable[key]? = some (Hex.encode bytes)) :
    v.requireMetaBytes sql key = sql.attempt (.getMeta key) bytes := by
  unfold requireMetaBytes getMetaBytes getMeta Sql.attempt
  cases sql.fault (.getMeta key) with
  | some e => rfl
  | none =>
      simp only [h, Fallible.ok_bind, Hex.decode_encode, Fallible.mapError_ok]
      rfl

theorem getBlob_of_lookup {sql : Sql} {id : Uuid} {v : Vault} {row : StoredRow}
    (hfault : sql.fault .getBlob = none) (h : v.secrets[P.uuidText id]? = some row) :
    v.getBlob P sql id = .ok row.payloadBlob := by
  simp [getBlob, Sql.attempt, hfault, h]

theorem getBlob_of_not_mem {sql : Sql} {id : Uuid} {v : Vault}
    (hfault : sql.fault .getBlob = none) (h : P.uuidText id ∉ v.secrets) :
    v.getBlob P sql id = .error (.error (.notFound id)) := by
  simp [getBlob, Sql.attempt, hfault, Std.ExtTreeMap.getElem?_eq_none h]

theorem getMetaRow_of_lookup {sql : Sql} {id : Uuid} {v : Vault} {row : StoredRow}
    (hfault : sql.fault .getMetaRow = none) (h : v.secrets[P.uuidText id]? = some row) :
    v.getMetaRow P sql id = .ok (readRow P ⟨P.uuidText id, row⟩) := by
  simp [getMetaRow, Sql.attempt, hfault, h]

theorem getMetaRow_of_not_mem {sql : Sql} {id : Uuid} {v : Vault}
    (hfault : sql.fault .getMetaRow = none) (h : P.uuidText id ∉ v.secrets) :
    v.getMetaRow P sql id = .error (.error (.notFound id)) := by
  simp [getMetaRow, Sql.attempt, hfault, Std.ExtTreeMap.getElem?_eq_none h]

end Vault

/-- The row a secret is stored in: both envelopes are its own, the metadata one
under the id stored beside it and the payload one under the row's. -/
def StoresSecret (P : Primitives) (innerKek outerKek : Key) (m : SecretMeta)
    (p : SecretPayload) (row : StoredRow) : Prop :=
  ∃ metaId, row.metaId = P.uuidText metaId ∧
    Sealed P metaId innerKek outerKek (P.cborWrite (MetaWire.fromMeta m).toCbor) row.metaBlob ∧
    Sealed P m.id innerKek outerKek (P.cborWrite (PayloadWire.fromPayload p).toCbor)
      row.payloadBlob

end Sypherstore
