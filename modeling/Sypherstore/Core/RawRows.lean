/-
# Rows whose columns hold anything

The columns of an SQLite table have types, and the values in them need not. A row that was
damaged can hold a number where an id was, or text that is not UTF-8, and a statement that
reads it fails on the conversion. Here a row of `secrets` holds arbitrary values. On rows as
the program writes them the statements of `db.rs`, and what an unlocked session makes of
them, are those of `Core.Db` and `Core.Session`.
-/

import Sypherstore.Core.SessionMap

namespace Sypherstore

open Logic

/-! ## Values and rows -/

/-- What a column holds. -/
inductive SqlValue where
  | text (s : String)
  | blob (bytes : Bytes)
  /-- NULL, a number, or text that is not UTF-8. -/
  | other
  deriving DecidableEq

namespace SqlValue

/-- The error of a conversion. -/
def badType : VaultError := .sqlite ⟨"Invalid column type"⟩

/-- `r.get::<_, String>`. -/
def getString : SqlValue → Fallible VaultError String
  | .text s => .ok s
  | _ => Fallible.raise badType

/-- `r.get::<_, Vec<u8>>`. -/
def getBytes : SqlValue → Fallible VaultError Bytes
  | .blob bytes => .ok bytes
  | _ => Fallible.raise badType

end SqlValue

/-- A row of the `secrets` table. -/
structure RawRow where
  id : SqlValue
  metaId : SqlValue
  metaBlob : SqlValue
  payloadBlob : SqlValue
  deriving DecidableEq

/-- A row as the program writes it. -/
def RawRow.ofStored (entry : String × StoredRow) : RawRow where
  id := .text entry.1
  metaId := .text entry.2.metaId
  metaBlob := .blob entry.2.metaBlob
  payloadBlob := .blob entry.2.payloadBlob

/-- The `secrets` table, in the order of a scan. -/
abbrev RawTable : Type := List RawRow

section Statements

variable (P : Primitives)

/-- A row as the reading statements return it. -/
def RawRow.read (row : RawRow) : Fallible VaultError SecretRow := do
  let id ← row.id.getString
  let metaId ← row.metaId.getString
  let metaBlob ← row.metaBlob.getBytes
  return { id := Vault.parseUuid P id, metaId := Vault.parseUuid P metaId, metaBlob }

namespace RawTable

/-- The row is the one that `WHERE id = ?1` finds. -/
def hasId (id : Uuid) (row : RawRow) : Bool := row.id = .text (P.uuidText id)

/-- Returns every row's sealed metadata. -/
def listRows (rows : RawTable) : Fallible VaultError (List SecretRow) := rows.mapM (RawRow.read P)

/-- Reads one secret's sealed payload blob. -/
def getBlob (id : Uuid) (rows : RawTable) : Fallible VaultError Bytes := do
  let row ← Fallible.ofOption (.notFound id) (rows.find? (hasId P id))
  row.payloadBlob.getBytes

/-- Deletes a secret. -/
def delete (id : Uuid) : Stateful RawTable VaultError Unit := do
  let rows ← Stateful.read
  if rows.any (hasId P id) then Stateful.modify (List.filter (!hasId P id ·))
  else Stateful.raise (.notFound id)

/-! ## An unlocked session -/

variable (inner outer : Key)

/-- Lists metadata, in alphabetical order of the lower-case names. -/
def list (rows : RawTable) : Fallible SessionError (List SecretMeta) := do
  let rows ← (listRows P rows).mapError .vault
  let metas ← (rows.mapM fun row =>
    openMeta P row.metaId row.id inner outer row.metaBlob).mapError .envelope
  return metas.mergeSort fun a b => P.lowercase a.name ≤ P.lowercase b.name

/-- Decrypts one secret. -/
def openSecret (id : Uuid) (rows : RawTable) : Fallible SessionError SecretPayload := do
  let blob ← (getBlob P id rows).mapError .vault
  (openPayload P id inner outer blob).mapError .envelope

end RawTable

end Statements

/-- What a list is made of. -/
theorem RawTable.list_eq_ok_iff (P : Primitives) (inner outer : Key) (table : RawTable)
    (metas : List SecretMeta) :
    RawTable.list P inner outer table = .ok metas ↔
      ∃ rows opened, table.mapM (RawRow.read P) = .ok rows ∧
        (rows.mapM fun row => openMeta P row.metaId row.id inner outer row.metaBlob) =
          .ok opened ∧
        metas = opened.mergeSort fun a b => P.lowercase a.name ≤ P.lowercase b.name := by
  simp only [RawTable.list, RawTable.listRows, Fallible.bind_eq_ok_iff, Fallible.mapError_eq_ok_iff]
  constructor
  · rintro ⟨rows, hrows, opened, hopened, hsorted⟩
    exact ⟨rows, opened, hrows, hopened, (Except.ok.inj hsorted).symm⟩
  · rintro ⟨rows, opened, hrows, hopened, rfl⟩
    exact ⟨rows, hrows, opened, hopened, rfl⟩

/-! ## Rows as the program writes them -/

namespace RawTable

variable {P : Primitives} {v : Vault} {sql : Sql}

/-- The table of a vault. -/
def ofVault (v : Vault) : RawTable := v.secrets.toList.map RawRow.ofStored

theorem read_ofStored (P : Primitives) (entry : String × StoredRow) :
    (RawRow.ofStored entry).read P = .ok (Vault.readRow P entry) := rfl

@[simp] theorem hasId_ofStored (P : Primitives) (id : Uuid) (entry : String × StoredRow) :
    hasId P id (RawRow.ofStored entry) = decide (entry.1 = P.uuidText id) := by
  simp [hasId, RawRow.ofStored]

theorem listRows_ofVault (hfault : sql.fault .listRows = none) :
    v.listRows P sql = listRows P ((sql.scan v.secrets.toList).map RawRow.ofStored) := by
  have hlist : (sql.scan v.secrets.toList).mapM (fun entry => (RawRow.ofStored entry).read P) =
      .ok ((sql.scan v.secrets.toList).map (Vault.readRow P)) :=
    Fallible.mapM_eq_ok_map fun entry _ => read_ofStored P entry
  rw [Vault.listRows, Sql.attempt, hfault, listRows, List.mapM_map]
  exact hlist.symm

theorem getBlob_ofVault (hfault : sql.fault .getBlob = none) (id : Uuid) :
    v.getBlob P sql id = getBlob P id (ofVault v) := by
  have hfind : (ofVault v).find? (hasId P id) =
      (v.secrets.toList.find? fun entry => entry.1 = P.uuidText id).map RawRow.ofStored := by
    rw [ofVault, List.find?_map]
    congr 2
    funext entry
    simp
  rw [Vault.getBlob, Sql.attempt, hfault, getBlob, hfind]
  rw [Table.getElem?_eq_find]
  cases v.secrets.toList.find? fun entry => entry.1 = P.uuidText id <;> rfl

theorem delete_ofVault (hfault : sql.fault .deleteRow = none) (id : Uuid) :
    delete P id (ofVault v) =
      ((Vault.delete P sql id v).1, ofVault (Vault.delete P sql id v).2) := by
  have hany : (ofVault v).any (hasId P id) = decide (P.uuidText id ∈ v.secrets) := by
    rw [Bool.eq_iff_iff, decide_eq_true_eq, ← Std.ExtTreeMap.mem_keys,
      ← Std.ExtTreeMap.map_fst_toList_eq_keys]
    simp [-Std.ExtTreeMap.map_fst_toList_eq_keys, ofVault, hasId_ofStored]
  have herased : (ofVault v).filter (!hasId P id ·) =
      ofVault { v with secrets := v.secrets.erase (P.uuidText id) } := by
    rw [ofVault, ofVault, Table.toList_erase, List.filter_map]
    congr 2
    funext entry
    simp
  simp only [delete, Vault.delete, Stateful.bind_apply, Stateful.read_apply, Stateful.lift_apply,
    Sql.attempt, hfault, hany, decide_eq_true_eq]
  by_cases hmem : P.uuidText id ∈ v.secrets
  · simp [hmem, herased]
  · simp [hmem]

/-! ## Sessions -/

variable {call : Call} {s : Session} {inner : Key}

/-- **A live session lists the rows of its vault**, in the order of the scan. -/
theorem list_ofVault (hfault : call.sql.fault .listRows = none) (hlive : s.Live call.started)
    (hinner : s.innerKek = some inner) :
    Session.list P call s =
      (list P inner s.outerKek ((call.sql.scan s.vault.secrets.toList).map RawRow.ofStored),
        s) := by
  rw [Session.list_of_live hlive hinner, listRows_ofVault hfault]
  rfl

/-- **A live session opens the secrets of its vault.** -/
theorem openSecret_ofVault (hfault : call.sql.fault .getBlob = none) (hlive : s.Live call.started)
    (hinner : s.innerKek = some inner) (id : Uuid) :
    (Session.openSecret P call id s).1 = openSecret P inner s.outerKek id (ofVault s.vault) := by
  rw [Session.openSecret_of_live hlive hinner, getBlob_ofVault hfault, openSecret]
  cases (getBlob P id (ofVault s.vault)).mapError SessionError.vault >>= fun blob =>
    (openPayload P id inner s.outerKek blob).mapError SessionError.envelope <;> rfl

/-- **A session deletes from its vault**, locked or not. -/
theorem delete_ofSession (hfault : call.sql.fault .deleteRow = none) (id : Uuid) :
    ((Session.delete P call id s).1, ofVault (Session.delete P call id s).2.vault) =
      ((delete P id (ofVault s.vault)).1.mapError .vault, (delete P id (ofVault s.vault)).2) := by
  rw [delete_ofVault hfault]
  rfl

end RawTable

end Sypherstore
