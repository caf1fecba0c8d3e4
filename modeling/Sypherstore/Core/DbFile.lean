/-
# The database file

Opening `vault.db` and bringing its schema up to date (`Vault::open` and
`Vault::migrate` in `vault/db.rs`).

What SQLite makes of a file is a parameter, `SqliteFormat`. A database it accepts may
still be one that this program did not write: without tables, or with those of the
format before metadata was encrypted.
-/

import Sypherstore.Core.Db

namespace Sypherstore

open Logic

/-- Current schema version. -/
def schemaVersion : Int32 := 2

/-- The `secrets` table of a database. -/
inductive SecretsTable where
  | absent
  /-- The table of the first version, without the `meta_id` column. Nothing but its
  size is ever read. -/
  | legacy (count : UInt64)
  | current (rows : Table StoredRow)

namespace SecretsTable

def isPresent : SecretsTable → Bool
  | .absent => false
  | _ => true

def isLegacy : SecretsTable → Bool
  | .legacy _ => true
  | _ => false

/-- The rows that the statements of this version see. -/
def rows : SecretsTable → Table StoredRow
  | .current rows => rows
  | _ => ∅

/-- The result of `COUNT(*)`, if there is a table. -/
def count : SecretsTable → Option ℕ
  | .absent => none
  | .legacy count => some count.toNat
  | .current rows => some rows.size

/-- `CREATE TABLE IF NOT EXISTS`. -/
def created : SecretsTable → SecretsTable
  | .absent => .current ∅
  | table => table

end SecretsTable

/-- What SQLite finds in a file. -/
structure Database where
  userVersion : Int32
  metaTable : Option (Table String)
  secrets : SecretsTable

namespace Database

/-- The database of an empty file. -/
def empty : Database where
  userVersion := 0
  metaTable := none
  secrets := .absent

/-- The vault a session works on. Opening and creating one use the `meta` table only. -/
def vault (d : Database) : Fallible VaultError Vault :=
  match d.metaTable with
  | none => Fallible.raise (.sqlite ⟨"no such table: meta"⟩)
  | some metaTable => .ok { metaTable, secrets := d.secrets.rows }

/-- Number of stored secrets. -/
def count (sql : Sql) (d : Database) : Fallible VaultError ℕ :=
  match d.secrets.count with
  | none => Fallible.raise (.sqlite ⟨"no such table: secrets"⟩)
  | some count => sql.attempt .count count

/-- The two tables are those of this vault. -/
structure Stores (d : Database) (v : Vault) : Prop where
  metaTable : d.metaTable = some v.metaTable
  secrets : d.secrets = .current v.secrets

theorem vault_eq_ok_iff (d : Database) (v : Vault) :
    d.vault = .ok v ↔ d.metaTable = some v.metaTable ∧ d.secrets.rows = v.secrets := by
  unfold vault
  cases d.metaTable with
  | none => simp [Fallible.raise]
  | some metaTable =>
      simp only [Except.ok.injEq, Option.some.injEq]
      constructor
      · rintro rfl
        exact ⟨rfl, rfl⟩
      · rintro ⟨rfl, hsecrets⟩
        rw [hsecrets]

theorem Stores.vault_eq {d : Database} {v : Vault} (h : d.Stores v) : d.vault = .ok v :=
  (vault_eq_ok_iff d v).mpr ⟨h.metaTable, by rw [h.secrets]; rfl⟩

end Database

/-- How SQLite reads a database from a main file and its write-ahead log, and what the
main file is once everything has been written back to it. -/
structure SqliteFormat where
  load : (main : Bytes) → (wal : Option Bytes) → Except SqliteError Database
  image : Database → Bytes

/-- Documented behaviour: an empty file is an empty database, and what was written is
read back. -/
structure SqliteFormat.Lawful (sqlite : SqliteFormat) : Prop where
  empty : sqlite.load [] none = .ok .empty
  image : ∀ d, sqlite.load (sqlite.image d) none = .ok d

/-- Brings the schema up to `schemaVersion`. -/
def migrate (sql : Sql) : Stateful Database VaultError Unit := do
  let d ← Stateful.read
  let current := if (sql.fault .readVersion).isSome then 0 else d.userVersion
  if schemaVersion ≤ current then return ()
  else if (sql.fault .findSecrets).isNone && d.secrets.isPresent &&
      (d.secrets.isLegacy || (sql.fault .prepareMetaId).isSome) then
    Stateful.raise .incompatibleSchema
  else do
    Stateful.lift (sql.attempt .createTables ())
    Stateful.modify fun d =>
      { d with metaTable := some (d.metaTable.getD ∅), secrets := d.secrets.created }
    Stateful.lift (sql.attempt .writeVersion ())
    Stateful.modify fun d => { d with userVersion := schemaVersion }

/-- A file that belongs to the database, such as its write-ahead log. -/
def VaultPaths.dbSidecar (paths : VaultPaths) (suffix : String) : Path :=
  paths.db.withExtension ("db" ++ suffix)

section Files

variable (sqlite : SqliteFormat) (paths : VaultPaths)

/-- What SQLite reads from the files. -/
def readDatabase (fs : FileSystem) : Fallible VaultError Database :=
  match fs.file paths.db with
  | none => Fallible.raise (.sqlite ⟨"unable to open database file"⟩)
  | some main =>
      match sqlite.load main.contents ((fs.file (paths.dbSidecar "-wal")).map File.contents) with
      | .ok d => .ok d
      | .error e => Fallible.raise (.sqlite e)

/-- `Connection::open` makes an empty file where there is none. -/
def createDb (fs : FileSystem) : FileSystem :=
  if fs.holds paths.db then fs else fs.store paths.db [] 0o644

/-- The files after a connection has been closed: the log is folded into the main
file. -/
def writeDatabase (d : Database) (fs : FileSystem) : FileSystem :=
  ((fs.store paths.db (sqlite.image d) 0o644).remove (paths.dbSidecar "-wal")).remove
    (paths.dbSidecar "-shm")

/-- Run a call on an open database; what it did is in the file, also when it failed. -/
def onDatabase {ε α : Type} (d : Database) (x : Stateful Database ε α) : Stateful FileSystem ε α :=
  fun fs => ((x d).1, writeDatabase sqlite paths (x d).2 fs)

/-- Several statements without a result, in order. -/
def Sql.attemptAll (sql : Sql) : List Statement → Fallible VaultError Unit
  | [] => .ok ()
  | statement :: rest => do
      sql.attempt statement ()
      sql.attemptAll rest

theorem Sql.attemptAll_eq_ok_iff (sql : Sql) (statements : List Statement) (u : Unit) :
    sql.attemptAll statements = .ok u ↔ ∀ statement ∈ statements, sql.fault statement = none := by
  induction statements with
  | nil => simp [attemptAll]
  | cons statement rest ih =>
      simp [attemptAll, Fallible.bind_eq_ok_iff, attempt_eq_ok_iff, ih]

/-- The settings of a connection, in order. The first of them is the first statement
that reads the file. -/
def pragmas : List String := ["journal_mode", "secure_delete", "foreign_keys", "synchronous"]

/-- Opens (creating if needed) the vault database and applies migrations. -/
def openVault (disk : Disk) (sql : Sql) : Stateful FileSystem VaultError Database := do
  (paths.ensureDirs disk).mapError .path
  Stateful.lift (sql.attempt .connect ())
  Stateful.modify (createDb paths)
  let fs ← Stateful.read
  let d ← Stateful.lift (readDatabase sqlite paths fs)
  Stateful.lift (sql.attemptAll (pragmas.map Statement.pragma))
  let d ← onDatabase sqlite paths d (migrate sql >>= fun _ => Stateful.read)
  (setOwnerOnly disk paths.db).mapError .path
  return d

/-! ## What opening takes and what it changes -/

variable {sqlite paths}

/-- Nothing that opening needs is refused. -/
structure CanOpen (paths : VaultPaths) (disk : Disk) (sql : Sql) : Prop where
  dirs : paths.DirsReady disk
  connect : sql.fault .connect = none
  pragmas : ∀ name ∈ pragmas, sql.fault (.pragma name) = none
  mode : disk.fault (.setMode paths.db) = none

/-- The files after the database has been opened. -/
def opened (sqlite : SqliteFormat) (paths : VaultPaths) (d : Database) (fs : FileSystem) :
    FileSystem :=
  (setOwnerOnly .reliable paths.db (writeDatabase sqlite paths d fs)).2

theorem setOwnerOnly_eq_ok_iff (disk : Disk) (p : Path) (fs fs' : FileSystem) (u : Unit) :
    setOwnerOnly disk p fs = (.ok u, fs') ↔
      disk.fault (.setMode p) = none ∧ fs' = (setOwnerOnly .reliable p fs).2 := by
  simp only [setOwnerOnly, Stateful.bind_apply, Disk.attempt]
  cases disk.fault (.setMode p) with
  | some e => simp
  | none => simp [Disk.reliable, eq_comm]

theorem onDatabase_eq_ok_iff {ε α : Type} (d : Database) (x : Stateful Database ε α)
    (fs fs' : FileSystem) (a : α) :
    onDatabase sqlite paths d x fs = (.ok a, fs') ↔
      ∃ d', x d = (.ok a, d') ∧ fs' = writeDatabase sqlite paths d' fs := by
  rcases hx : x d with ⟨outcome, d'⟩
  simp [onDatabase, hx, eq_comm]

variable (sqlite paths) in
/-- **When opening succeeds**: nothing it needs is refused, SQLite accepts the file, and
its schema can be brought up to date. -/
theorem openVault_eq_ok_iff (disk : Disk) (sql : Sql) (fs fs' : FileSystem) (d' : Database) :
    openVault sqlite paths disk sql fs = (.ok d', fs') ↔
      CanOpen paths disk sql ∧
      ∃ d, readDatabase sqlite paths (createDb paths fs) = .ok d ∧
        migrate sql d = (.ok (), d') ∧ fs' = opened sqlite paths d' (createDb paths fs) := by
  simp only [openVault, Stateful.bind_eq_ok_iff, Stateful.mapError_eq_ok_iff,
    VaultPaths.ensureDirs_eq_ok_iff, Stateful.lift_eq_ok_iff, Sql.attempt_eq_ok_iff,
    Stateful.modify_eq_ok_iff, Stateful.read_eq_ok_iff, Sql.attemptAll_eq_ok_iff,
    setOwnerOnly_eq_ok_iff, onDatabase_eq_ok_iff]
  constructor
  · rintro ⟨_, _, ⟨hdirs, rfl⟩, _, _, ⟨⟨hconnect, _⟩, rfl⟩, _, _, rfl, _, _, ⟨rfl, rfl⟩, d, _,
      ⟨hread, rfl⟩, _, _, ⟨hpragmas, rfl⟩, _, _, ⟨_, ⟨_, _, hmigrate, rfl, rfl⟩, rfl⟩, _, _,
      ⟨hmode, rfl⟩, hreturn⟩
    cases hreturn
    refine ⟨⟨hdirs, hconnect, fun name hname => ?_, hmode⟩, d, hread, hmigrate, rfl⟩
    exact hpragmas _ (List.mem_map_of_mem hname)
  · rintro ⟨⟨hdirs, hconnect, hpragmas, hmode⟩, d, hread, hmigrate, rfl⟩
    refine ⟨(), _, ⟨hdirs, rfl⟩, (), _, ⟨⟨hconnect, trivial⟩, rfl⟩, (), _, rfl, _, _, ⟨rfl, rfl⟩,
      d, _, ⟨hread, rfl⟩, (), _, ⟨?_, rfl⟩, d', _, ⟨_, ⟨_, _, hmigrate, rfl, rfl⟩, rfl⟩, (), _,
      ⟨hmode, rfl⟩, rfl⟩
    intro statement hstatement
    obtain ⟨name, hname, rfl⟩ := List.mem_map.mp hstatement
    exact hpragmas name hname

@[simp] theorem name_dbSidecar_wal : (paths.dbSidecar "-wal").name = "vault.db-wal" := by
  show String.ofList (Path.stem "vault.db".toList ++ '.' :: ("db" ++ "-wal").toList) =
    "vault.db-wal"
  decide

@[simp] theorem name_dbSidecar_shm : (paths.dbSidecar "-shm").name = "vault.db-shm" := by
  show String.ofList (Path.stem "vault.db".toList ++ '.' :: ("db" ++ "-shm").toList) =
    "vault.db-shm"
  decide

/-- The database's own files are different. -/
theorem db_paths_ne (paths : VaultPaths) :
    paths.db ≠ paths.dbSidecar "-wal" ∧ paths.db ≠ paths.dbSidecar "-shm" ∧
      paths.dbSidecar "-wal" ≠ paths.dbSidecar "-shm" :=
  ⟨Path.ne_of_name_ne (by simp), Path.ne_of_name_ne (by simp), Path.ne_of_name_ne (by simp)⟩

variable (sqlite paths) in
/-- After a connection has been closed there is a main file and no log. -/
theorem file_writeDatabase (d : Database) (fs : FileSystem) :
    (∃ mode, (writeDatabase sqlite paths d fs).file paths.db = some ⟨sqlite.image d, mode⟩) ∧
      (writeDatabase sqlite paths d fs).file (paths.dbSidecar "-wal") = none := by
  obtain ⟨hwal, hshm, hsides⟩ := db_paths_ne paths
  constructor
  · rw [writeDatabase, FileSystem.file_remove_of_ne hshm, FileSystem.file_remove_of_ne hwal]
    exact ⟨_, FileSystem.file_put_self _⟩
  · rw [writeDatabase, FileSystem.file_remove_of_ne hsides, FileSystem.file_remove_self]

variable (sqlite paths) in
/-- What opening leaves in the database's files. -/
theorem file_opened (d : Database) (fs : FileSystem) :
    (opened sqlite paths d fs).file paths.db = some ⟨sqlite.image d, 0o600⟩ ∧
      (opened sqlite paths d fs).file (paths.dbSidecar "-wal") = none := by
  obtain ⟨⟨mode, hmain⟩, hwal⟩ := file_writeDatabase sqlite paths d fs
  simp only [opened, setOwnerOnly, Stateful.bind_apply, Disk.attempt, Disk.reliable,
    Stateful.modify_apply, hmain]
  constructor
  · exact FileSystem.file_put_self _
  · rw [FileSystem.file_put_of_ne _ (db_paths_ne paths).1.symm]
    exact hwal

/-- The next connection reads what the last one left. -/
theorem readDatabase_writeDatabase (hsqlite : sqlite.Lawful) (d : Database) (fs : FileSystem) :
    readDatabase sqlite paths (writeDatabase sqlite paths d fs) = .ok d := by
  obtain ⟨⟨mode, hmain⟩, hwal⟩ := file_writeDatabase sqlite paths d fs
  simp [readDatabase, hmain, hwal, hsqlite.image]

theorem readDatabase_opened (hsqlite : sqlite.Lawful) (d : Database) (fs : FileSystem) :
    readDatabase sqlite paths (opened sqlite paths d fs) = .ok d := by
  obtain ⟨hmain, hwal⟩ := file_opened sqlite paths d fs
  simp [readDatabase, hmain, hwal, hsqlite.image]

/-- What SQLite reads is in the bytes of the main file and of its log. -/
theorem readDatabase_congr {there : VaultPaths} {fs gs : FileSystem}
    (hmain : (gs.file there.db).map File.contents = (fs.file paths.db).map File.contents)
    (hlog : (gs.file (there.dbSidecar "-wal")).map File.contents =
      (fs.file (paths.dbSidecar "-wal")).map File.contents) :
    readDatabase sqlite there gs = readDatabase sqlite paths fs := by
  unfold readDatabase
  rw [hlog]
  cases hfile : fs.file paths.db with
  | none =>
      rw [hfile, Option.map_none, Option.map_eq_none_iff] at hmain
      rw [hmain]
  | some main =>
      rw [hfile, Option.map_some] at hmain
      obtain ⟨main', hmain', hsame⟩ := Option.map_eq_some_iff.mp hmain
      rw [hmain']
      simp only [hsame]

theorem holds_db_of_readDatabase {fs : FileSystem} {d : Database}
    (h : readDatabase sqlite paths fs = .ok d) : fs.holds paths.db = true := by
  cases hfile : fs.file paths.db with
  | none => simp [readDatabase, hfile, Fallible.raise] at h
  | some main => exact FileSystem.holds_iff.mpr ⟨main, hfile⟩

theorem holds_db_opened (d : Database) (fs : FileSystem) :
    (opened sqlite paths d fs).holds paths.db = true :=
  FileSystem.holds_iff.mpr ⟨_, (file_opened sqlite paths d fs).1⟩

theorem createDb_of_holds {fs : FileSystem} (h : fs.holds paths.db = true) :
    createDb paths fs = fs := by
  simp [createDb, h]

/-! ## What migrating keeps -/

/-- The database with the tables of this version. -/
def Database.created (d : Database) : Database :=
  { d with metaTable := some (d.metaTable.getD ∅), secrets := d.secrets.created }

/-- **How migrating can go.** It leaves the database as it is, whether or not it
succeeds; or it creates what is missing, and may then fail to record the version. -/
theorem migrate_cases (sql : Sql) (d : Database) :
    migrate sql d = (.ok (), d) ∨
    (∃ e, migrate sql d = (.error (.error e), d)) ∨
    (∃ e, migrate sql d = (.error (.error e), d.created)) ∨
    migrate sql d = (.ok (), { d.created with userVersion := schemaVersion }) := by
  by_cases hcurrent : schemaVersion ≤ (if (sql.fault .readVersion).isSome then 0 else d.userVersion)
  · exact .inl (by simp [migrate, Stateful.bind_apply, hcurrent])
  by_cases hold : ((sql.fault .findSecrets).isNone && d.secrets.isPresent &&
      (d.secrets.isLegacy || (sql.fault .prepareMetaId).isSome)) = true
  · refine .inr (.inl ⟨.incompatibleSchema, ?_⟩)
    simp only [migrate, Stateful.bind_apply, Stateful.read_apply, if_neg hcurrent, if_pos hold,
      Stateful.raise_apply]
  simp only [migrate, Stateful.bind_apply, Stateful.read_apply, if_neg hcurrent, if_neg hold,
    Stateful.lift_apply]
  rcases Vault.attempt_cases sql .createTables () with ⟨e, _, hcreate⟩ | ⟨_, hcreate⟩
  · exact .inr (.inl ⟨_, by rw [hcreate]⟩)
  rcases Vault.attempt_cases sql .writeVersion () with ⟨e, _, hwrite⟩ | ⟨_, hwrite⟩
  · exact .inr (.inr (.inl ⟨_, by rw [hcreate, hwrite]; rfl⟩))
  · exact .inr (.inr (.inr (by rw [hcreate, hwrite]; rfl)))

/-- What migrating makes of an empty database. -/
def Database.fresh : Database := { Database.empty.created with userVersion := schemaVersion }

theorem stores_fresh : Database.fresh.Stores .empty := ⟨rfl, rfl⟩

theorem migrate_empty_eq_ok_iff (sql : Sql) (d : Database) :
    migrate sql .empty = (.ok (), d) ↔
      sql.fault .createTables = none ∧ sql.fault .writeVersion = none ∧ d = .fresh := by
  have hold : ¬ schemaVersion ≤ (if (sql.fault .readVersion).isSome then 0
      else Database.empty.userVersion) := by
    split <;> decide
  have hpresent : Database.empty.secrets.isPresent = false := rfl
  simp only [migrate, Stateful.bind_apply, Stateful.read_apply, if_neg hold, hpresent,
    Bool.and_false, Bool.false_and, Bool.false_eq_true, if_false, Stateful.lift_apply, Sql.attempt]
  cases sql.fault .createTables with
  | some e => simp [Fallible.raise]
  | none =>
      cases sql.fault .writeVersion with
      | some e => simp [Fallible.raise]
      | none =>
          simp only [Stateful.modify_apply, Prod.mk.injEq, true_and]
          exact eq_comm

/-- Migrating keeps what both the database and the created one satisfy. -/
theorem migrate_keeps {sql : Sql} {d d' : Database} {outcome : Fallible VaultError Unit}
    (h : migrate sql d = (outcome, d')) {I : Database → Prop} (hold : I d) (hcreated : I d.created)
    (hversion : I { d.created with userVersion := schemaVersion }) : I d' := by
  rcases migrate_cases sql d with hm | ⟨_, hm⟩ | ⟨_, hm⟩ | hm
  · cases h.symm.trans hm
    exact hold
  · cases h.symm.trans hm
    exact hold
  · cases h.symm.trans hm
    exact hcreated
  · cases h.symm.trans hm
    exact hversion

/-- Migrating a database that has its `meta` table changes no entry of it. -/
theorem migrate_keeps_meta {sql : Sql} {d d' : Database} {outcome : Fallible VaultError Unit}
    (h : migrate sql d = (outcome, d')) {table : Table String}
    (hmeta : d.metaTable = some table) : d'.metaTable = some table := by
  have hcreated : d.created.metaTable = some table := by simp [Database.created, hmeta]
  exact migrate_keeps (I := fun d => d.metaTable = some table) h hmeta hcreated hcreated

theorem migrate_stores {sql : Sql} {d d' : Database} {outcome : Fallible VaultError Unit}
    (h : migrate sql d = (outcome, d')) {v : Vault} (hstores : d.Stores v) : d'.Stores v := by
  have hsecrets : d.created.secrets = .current v.secrets := by
    simp [Database.created, hstores.secrets, SecretsTable.created]
  exact ⟨migrate_keeps_meta h hstores.metaTable,
    migrate_keeps (I := fun d => d.secrets = .current v.secrets) h hstores.secrets hsecrets
      hsecrets⟩

/-- Nothing that migrating may need is refused. -/
def CanMigrate (sql : Sql) : Prop :=
  ∀ statement ∈ [Statement.prepareMetaId, .createTables, .writeVersion], sql.fault statement = none

/-- A database with current tables can be brought up to date. -/
theorem exists_migrate_of_stores {sql : Sql} (hsql : CanMigrate sql) {d : Database} {v : Vault}
    (hstores : d.Stores v) : ∃ d', migrate sql d = (.ok (), d') := by
  simp only [CanMigrate, List.forall_mem_cons] at hsql
  obtain ⟨hprepare, hcreate, hwrite, _⟩ := hsql
  by_cases hcurrent : schemaVersion ≤ (if (sql.fault .readVersion).isSome then 0 else d.userVersion)
  · exact ⟨d, by simp [migrate, Stateful.bind_apply, hcurrent]⟩
  · refine ⟨{ d.created with userVersion := schemaVersion }, ?_⟩
    simp [migrate, Stateful.bind_apply, hcurrent, hprepare, hstores.secrets, hcreate, hwrite,
      SecretsTable.isLegacy, Sql.attempt, Database.created]

/-- When no statement is refused, only tables of the first version are in the way. -/
theorem migrate_eq_ok_iff_of_reliable {sql : Sql} (hsql : ∀ statement, sql.fault statement = none)
    (d d' : Database) :
    migrate sql d = (.ok (), d') ↔
      (schemaVersion ≤ d.userVersion ∧ d' = d) ∨
      (¬ schemaVersion ≤ d.userVersion ∧ d.secrets.isLegacy = false ∧
        d' = { d.created with userVersion := schemaVersion }) := by
  have hpresent : d.secrets.isLegacy = true → d.secrets.isPresent = true := by
    cases d.secrets <;> simp [SecretsTable.isLegacy, SecretsTable.isPresent]
  by_cases hcurrent : schemaVersion ≤ d.userVersion
  · have hrun : migrate sql d = (.ok (), d) := by
      simp [migrate, Stateful.bind_apply, hsql, hcurrent]
    simp only [hrun, hcurrent, not_true_eq_false, false_and, or_false, true_and, Prod.mk.injEq]
    exact eq_comm
  · cases hlegacy : d.secrets.isLegacy with
    | true => simp [migrate, Stateful.bind_apply, hsql, hcurrent, hlegacy, hpresent hlegacy]
    | false =>
        have hrun : migrate sql d = (.ok (), { d.created with userVersion := schemaVersion }) := by
          simp [migrate, Stateful.bind_apply, hsql, hcurrent, hlegacy, Sql.attempt,
            Database.created]
        simp only [hrun, hcurrent, not_false_eq_true, false_and, false_or, true_and,
          Prod.mk.injEq]
        exact eq_comm

/-! ## Files beside the database -/

/-- A file that is none of the database's own. -/
structure Beside (paths : VaultPaths) (p : Path) : Prop where
  db : p ≠ paths.db
  wal : p ≠ paths.dbSidecar "-wal"
  shm : p ≠ paths.dbSidecar "-shm"

theorem file_writeDatabase_of_beside {p : Path} (h : Beside paths p) (d : Database)
    (fs : FileSystem) : (writeDatabase sqlite paths d fs).file p = fs.file p := by
  rw [writeDatabase, FileSystem.file_remove_of_ne h.shm, FileSystem.file_remove_of_ne h.wal,
    FileSystem.file_store_of_ne _ _ h.db]

theorem file_createDb_of_beside {p : Path} (h : Beside paths p) (fs : FileSystem) :
    (createDb paths fs).file p = fs.file p := by
  unfold createDb
  split
  · rfl
  · exact FileSystem.file_store_of_ne _ _ h.db

theorem setOwnerOnly_keeps (disk : Disk) {p q : Path} {f : Option File} (h : q ≠ p) :
    Stateful.Keeps (fun fs : FileSystem => fs.file q = f) (setOwnerOnly disk p) := by
  refine Stateful.Keeps.bind ?_ ?_
  · intro fs hfs
    unfold Disk.attempt
    split <;> exact hfs
  · intro _
    refine Stateful.Keeps.modify ?_
    intro fs hfs
    cases fs.file p with
    | none => exact hfs
    | some found => exact (FileSystem.file_put_of_ne _ h).trans hfs

/-- Restricting the mode of a file changes no byte of it. -/
theorem contents_setOwnerOnly (disk : Disk) (p : Path) (fs : FileSystem) :
    ((setOwnerOnly disk p fs).2.file p).map File.contents = (fs.file p).map File.contents := by
  rw [setOwnerOnly, Stateful.bind_apply, Disk.attempt]
  cases disk.fault (.setMode p) with
  | some e => rfl
  | none =>
      cases hfile : fs.file p with
      | none => simp [hfile]
      | some f => simp [hfile]

variable (sqlite) in
theorem file_opened_of_beside {p : Path} (h : Beside paths p) (d : Database) (fs : FileSystem) :
    (opened sqlite paths d fs).file p = fs.file p :=
  setOwnerOnly_keeps .reliable h.db _ (file_writeDatabase_of_beside h d fs)

/-- Opening touches no file but the database's own, also when it fails. -/
theorem openVault_keeps (disk : Disk) (sql : Sql) {p : Path} {f : Option File}
    (h : Beside paths p) :
    Stateful.Keeps (fun fs : FileSystem => fs.file p = f) (openVault sqlite paths disk sql) := by
  refine Stateful.Keeps.bind (Stateful.Keeps.mapError (paths.ensureDirs_keeps disk _) _) ?_
  intro _
  refine Stateful.Keeps.bind (Stateful.Keeps.lift _) ?_
  intro _
  refine Stateful.Keeps.bind (Stateful.Keeps.modify ?_) ?_
  · intro fs hfs
    exact (file_createDb_of_beside h fs).trans hfs
  intro _
  refine Stateful.Keeps.bind Stateful.Keeps.read ?_
  intro _
  refine Stateful.Keeps.bind (Stateful.Keeps.lift _) ?_
  intro d
  refine Stateful.Keeps.bind (Stateful.Keeps.lift _) ?_
  intro _
  refine Stateful.Keeps.bind ?_ ?_
  · intro fs hfs
    exact (file_writeDatabase_of_beside h _ fs).trans hfs
  intro _
  refine Stateful.Keeps.bind (Stateful.Keeps.mapError (setOwnerOnly_keeps disk h.db) _) ?_
  intro _
  exact Stateful.Keeps.pure _

end Files

end Sypherstore
