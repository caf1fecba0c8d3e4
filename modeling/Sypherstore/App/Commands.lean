/-
# Commands

The command-line entry points that create, adopt and restore a vault
(`commands.rs`), over the files of the vault directory.

A command runs on a `Platform`, which is fixed, and in an `Invocation`, which is new
for each run: the options and answers of the user, and how clock, disk, database, chip
and authenticator behave during it.
-/

import Sypherstore.App.Tpm
import Sypherstore.Core.Backup
import Sypherstore.Core.Config
import Sypherstore.Core.Creation
import Sypherstore.Core.Recovery

namespace Sypherstore

open Logic

/-- What the program takes from outside the repository. -/
structure Platform where
  primitives : Primitives
  sqlite : SqliteFormat
  json : ConfigFormat
  sha256 : Bytes → Block 32
  chip : Chip

/-- One run of a command. -/
structure Invocation where
  force : Bool
  /-- The recovery key as it was typed. -/
  keyText : Except IoError String
  /-- The answer to a question. -/
  answer : Except IoError String
  disk : Disk
  call : Call
  /-- The database as the second connection sees it, the one of the checkpoint. -/
  checkpoint : Sql
  tpm : TpmCall
  /-- `Key::generate` for the outer key. -/
  outerKey : Except RandomError Key
  inner : InnerKeyProvider
  backupNonce : Except RandomError Nonce
  unixTime : ℕ

inductive CommandError where
  /-- "a vault already exists at {0}. Delete it first if you really mean to start
  over." -/
  | alreadyExists (root : String)
  /-- "loading the config file" -/
  | loadingConfig (e : ConfigError)
  /-- "creating the vault database" -/
  | creatingDatabase (e : VaultError)
  /-- "initializing the vault" -/
  | initializing (e : SessionError)
  /-- "writing the config file" -/
  | writingConfig (e : ConfigError)
  /-- "no vault at {0}. Run `sypherstore init` first." -/
  | noVault (root : String)
  /-- "opening the vault" -/
  | openingVault (e : VaultError)
  /-- "recovering the machine key (is this the machine the vault was created on?)" -/
  | recoveringKey (e : SessionError)
  /-- "no vault database at {0}. Copy the vault directory here first." -/
  | noDatabase (db : Path)
  /-- "reading the recovery key" -/
  | readingKey (e : IoError)
  /-- "the recovery key was not accepted" -/
  | badRecoveryKey (e : RecoveryError)
  | readingAnswer (e : IoError)
  /-- "creating the vault directory" -/
  | creatingDirs (e : PathError)
  /-- "sealing the recovered key to this TPM" -/
  | sealing (e : ProviderError)
  /-- "the key was sealed, but the vault still will not open. The recovery key may
  belong to a different vault." -/
  | stillClosed (e : CommandError)
  | counting (e : VaultError)
  /-- "decrypting the backup" -/
  | decryptingBackup (e : BackupError)
  /-- "backing up the current vault before replacing it" -/
  | savingCurrent (e : BackupError)
  /-- "writing the restored database" -/
  | writingDatabase (e : PathError)

/-- How `recovery adopt` ends when it does not fail. -/
inductive AdoptReport where
  | cancelled
  /-- "Vault adopted on this machine. {0} secret(s) available." -/
  | adopted (count : ℕ)
  deriving DecidableEq, Repr

/-- How `restore apply` ends when it does not fail. -/
inductive RestoreReport where
  | cancelled
  /-- "The previous vault was saved to {0}" -/
  | restored (safety : Path)
  deriving DecidableEq, Repr

/-- Ask the user whether to go on, unless told not to. -/
def Invocation.confirmed (run : Invocation) : Fallible CommandError Bool :=
  if run.force then .ok true
  else do
    let answer ← (Fallible.ofExcept run.answer).mapError .readingAnswer
    return (trim answer).toLower ∈ ["y", "yes"]

/-- `fs::remove_file` whose result is ignored. -/
def Disk.discard (disk : Disk) (p : Path) (fs : FileSystem) : FileSystem :=
  if (disk.fault (.remove p)).isSome then fs else fs.remove p

section Commands

variable (env : Platform) (paths : VaultPaths) (run : Invocation)

/-- The outer provider of a build with hardware. -/
def Invocation.outer : OuterKeyProvider FileSystem :=
  TpmOuterProvider.outer env.chip paths run.disk run.tpm run.outerKey

def loadConfig (fs : FileSystem) : Fallible CommandError Config :=
  (Config.load env.json run.disk paths.config fs).mapError .loadingConfig

/-- `Session::initialize` on an open database. However it ends, the connection is
closed and what was written is in the file. -/
def initializeOn (d : Database) (timeout : ℕ) :
    Stateful FileSystem SessionError Session := fun fs =>
  match d.vault with
  | .error e => (Fallible.mapError SessionError.vault (.error e), fs)
  | .ok v =>
      let (outcome, v', fs') := Session.initializeVault env.primitives run.call
        (run.outer env paths) run.inner timeout (v, fs)
      (outcome, writeDatabase env.sqlite paths { d with metaTable := some v'.metaTable } fs')

/-- `sypherstore init`. -/
def cmdInit : Stateful FileSystem CommandError Unit := do
  let fs ← Stateful.read
  if paths.isInitialized fs then Stateful.raise (.alreadyExists paths.root)
  else do
    let config ← Stateful.lift (loadConfig env paths run fs)
    let d ← (openVault env.sqlite paths run.disk run.call.sql).mapError .creatingDatabase
    let _ ← (initializeOn env paths run d config.unlockTimeout).mapError .initializing
    (config.save env.json run.disk paths.config).mapError .writingConfig

/-- Opens the vault with the outer key only, no touch. -/
def openLockedOnly : Stateful FileSystem CommandError (Session × Database) := do
  let fs ← Stateful.read
  if !paths.isInitialized fs then Stateful.raise (.noVault paths.root)
  else do
    let config ← Stateful.lift (loadConfig env paths run fs)
    let d ← (openVault env.sqlite paths run.disk run.call.sql).mapError .openingVault
    let fs ← Stateful.read
    let v ← Stateful.lift (d.vault.mapError fun e => .recoveringKey (.vault e))
    let s ← Stateful.lift ((Session.openLocked run.call v ((run.outer env paths).unsealKey fs)
      config.unlockTimeout).mapError .recoveringKey)
    return (s, d)

/-- `sypherstore recovery adopt`. -/
def cmdRecoveryAdopt : Stateful FileSystem CommandError AdoptReport := do
  let fs ← Stateful.read
  if !fs.holds paths.db then Stateful.raise (.noDatabase paths.db)
  else do
    let keyText ← Stateful.lift ((Fallible.ofExcept run.keyText).mapError .readingKey)
    let key ← Stateful.lift ((Recovery.decode env.sha256 keyText).mapError .badRecoveryKey)
    let goOn ← Stateful.lift run.confirmed
    if !goOn then return .cancelled
    else do
      (paths.ensureDirs run.disk).mapError .creatingDirs
      ((run.outer env paths).provisionWith key).mapError .sealing
      let (_, d) ← (openLockedOnly env paths run).mapError .stillClosed
      let count ← Stateful.lift ((d.count run.call.sql).mapError .counting)
      return .adopted count

/-- `sypherstore restore apply`. -/
def cmdRestoreApply (archive : Path) : Stateful FileSystem CommandError RestoreReport := do
  let (s, _) ← openLockedOnly env paths run
  let fs ← Stateful.read
  let restored ← Stateful.lift
    ((Backup.restore env.primitives run.disk archive s.outerKek fs).mapError .decryptingBackup)
  let goOn ← Stateful.lift run.confirmed
  if !goOn then return .cancelled
  else do
    let safety ← (Backup.create env.primitives env.sqlite paths run.disk run.checkpoint s.outerKek
      run.backupNonce run.unixTime).mapError .savingCurrent
    Stateful.modify (run.disk.discard (paths.dbSidecar "-wal"))
    Stateful.modify (run.disk.discard (paths.dbSidecar "-shm"))
    (writePrivateAtomic run.disk paths.db restored).mapError .writingDatabase
    return .restored safety

end Commands

/-! ## Files the database leaves alone -/

variable {env : Platform} {paths : VaultPaths} {run : Invocation}

theorem beside_tpmSealedPub (paths : VaultPaths) : Beside paths paths.tpmSealedPub :=
  ⟨Path.ne_of_name_ne (by simp), Path.ne_of_name_ne (by simp), Path.ne_of_name_ne (by simp)⟩

theorem beside_tpmSealedPriv (paths : VaultPaths) : Beside paths paths.tpmSealedPriv :=
  ⟨Path.ne_of_name_ne (by simp), Path.ne_of_name_ne (by simp), Path.ne_of_name_ne (by simp)⟩

/-- Opening the database does not change what is sealed. -/
theorem holds_opened_iff (d : Database) (fs : FileSystem) (key : Key) :
    TpmOuterProvider.Holds env.chip paths (opened env.sqlite paths d fs) key ↔
      TpmOuterProvider.Holds env.chip paths fs key := by
  have hpublic := file_opened_of_beside env.sqlite (beside_tpmSealedPub paths) d fs
  have hprivate := file_opened_of_beside env.sqlite (beside_tpmSealedPriv paths) d fs
  exact ⟨fun h => h.congr hpublic.symm hprivate.symm, fun h => h.congr hpublic hprivate⟩

/-! ## Opening without a touch -/

/-- Nothing that opening with the outer key needs is refused. -/
structure CanOpenLocked (paths : VaultPaths) (run : Invocation) : Prop where
  opening : CanOpen paths run.disk run.call.sql
  salt : run.call.sql.fault (.getMeta metaKdfSalt) = none
  unsealing : TpmOuterProvider.CanUnseal paths run.disk run.tpm

/-- **What opening with the outer key takes**: a database that SQLite accepts and that
can be brought up to date, the salt in it, and a sealed key. The salt is all of the
vault that the key is compared with. -/
theorem openLockedOnly_eq_ok_iff (fs fs' : FileSystem) (s : Session) (d' : Database) :
    openLockedOnly env paths run fs = (.ok (s, d'), fs') ↔
      CanOpenLocked paths run ∧ fs.holds paths.db = true ∧
      ∃ config d v outerKek, loadConfig env paths run fs = .ok config ∧
        readDatabase env.sqlite paths fs = .ok d ∧ migrate run.call.sql d = (.ok (), d') ∧
        d'.vault = .ok v ∧ metaKdfSalt ∈ v.metaTable ∧
        TpmOuterProvider.Holds env.chip paths fs outerKek ∧
        fs' = opened env.sqlite paths d' fs ∧
        s = ⟨v, outerKek, none, none, config.unlockTimeout⟩ := by
  simp only [openLockedOnly, Stateful.bind_eq_ok_iff, Stateful.read_eq_ok_iff]
  constructor
  · rintro ⟨_, _, ⟨hfs, hmid⟩, h⟩
    rw [hfs, hmid] at h
    by_cases hdb : fs.holds paths.db = true
    · simp only [VaultPaths.isInitialized, hdb, Bool.not_true, Bool.false_eq_true, if_false,
        Stateful.bind_eq_ok_iff, Stateful.lift_eq_ok_iff, Stateful.mapError_eq_ok_iff,
        Stateful.read_eq_ok_iff, Fallible.mapError_eq_ok_iff, openVault_eq_ok_iff,
        Session.openLocked_eq_ok_iff] at h
      obtain ⟨config, _, ⟨hconfig, rfl⟩, _, _, ⟨hopening, d, hread, hmigrate, rfl⟩, _, _,
        ⟨rfl, rfl⟩, v, _, ⟨hv, rfl⟩, _, _, ⟨⟨hfault, hsalt, outerKek, hunsealed, rfl⟩, rfl⟩,
        hreturn⟩ := h
      cases hreturn
      rw [createDb_of_holds hdb] at hread hunsealed
      obtain ⟨hunsealing, hholds⟩ := (TpmOuterProvider.unsealKey_eq_ok_iff _ _).mp hunsealed
      rw [createDb_of_holds hdb]
      exact ⟨⟨hopening, hfault, hunsealing⟩, hdb, config, d, v, outerKek, hconfig, hread, hmigrate,
        hv, hsalt, (holds_opened_iff ..).mp hholds, rfl, rfl⟩
    · simp [VaultPaths.isInitialized, hdb] at h
  · rintro ⟨⟨hopening, hfault, hunsealing⟩, hdb, config, d, v, outerKek, hconfig, hread, hmigrate,
      hv, hsalt, hholds, rfl, rfl⟩
    have hunsealed : (run.outer env paths).unsealKey (opened env.sqlite paths d' fs) =
        .ok outerKek :=
      (TpmOuterProvider.unsealKey_eq_ok_iff _ _).mpr ⟨hunsealing, (holds_opened_iff ..).mpr hholds⟩
    have hopened : openVault env.sqlite paths run.disk run.call.sql fs =
        (.ok d', opened env.sqlite paths d' fs) := by
      rw [openVault_eq_ok_iff, createDb_of_holds hdb]
      exact ⟨hopening, d, hread, hmigrate, rfl⟩
    refine ⟨_, _, ⟨rfl, rfl⟩, ?_⟩
    simp only [VaultPaths.isInitialized, hdb, Bool.not_true, Bool.false_eq_true, if_false,
      Stateful.bind_eq_ok_iff, Stateful.lift_eq_ok_iff, Stateful.mapError_eq_ok_iff,
      Stateful.read_eq_ok_iff, Fallible.mapError_eq_ok_iff, Session.openLocked_eq_ok_iff]
    exact ⟨config, _, ⟨hconfig, rfl⟩, d', _, hopened, _, _, ⟨rfl, rfl⟩, v, _, ⟨hv, rfl⟩, _, _,
      ⟨⟨hfault, hsalt, outerKek, hunsealed, rfl⟩, rfl⟩, rfl⟩

/-- Opening with the outer key touches no file but the database's own, also when it
fails. -/
theorem openLockedOnly_keeps {p : Path} {f : Option File} (h : Beside paths p) :
    Stateful.Keeps (fun fs : FileSystem => fs.file p = f) (openLockedOnly env paths run) := by
  refine Stateful.Keeps.bind Stateful.Keeps.read ?_
  intro fs
  split
  · exact Stateful.Keeps.raise _
  refine Stateful.Keeps.bind (Stateful.Keeps.lift _) ?_
  intro _
  refine Stateful.Keeps.bind (Stateful.Keeps.mapError (openVault_keeps _ _ h) _) ?_
  intro _
  refine Stateful.Keeps.bind Stateful.Keeps.read ?_
  intro _
  refine Stateful.Keeps.bind (Stateful.Keeps.lift _) ?_
  intro _
  refine Stateful.Keeps.bind (Stateful.Keeps.lift _) ?_
  intro _
  exact Stateful.Keeps.pure _

end Sypherstore
