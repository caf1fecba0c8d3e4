/-
# Creating a vault on a machine

What `sypherstore init` leaves in the vault directory. A run that succeeds leaves a
database with the new keys and the outer key sealed beside it. A run that fails inside
`Session::initialize` leaves the database file too, and its presence is what the next
run looks at first.
-/

import Sypherstore.App.Reference
import Sypherstore.Core.KeyRing

namespace Sypherstore

open Logic

variable {env : Platform} {paths : VaultPaths} {run : Invocation}

/-- The files hold this vault and, sealed, its outer key. -/
structure HoldsVault (env : Platform) (paths : VaultPaths) (fs : FileSystem) (v : Vault)
    (outerKek : Key) : Prop where
  database : ∃ d, readDatabase env.sqlite paths fs = .ok d ∧ d.Stores v
  sealed : TpmOuterProvider.Holds env.chip paths fs outerKek

/-- There is no database and no log of one. -/
structure NoVault (paths : VaultPaths) (fs : FileSystem) : Prop where
  db : fs.file paths.db = none
  wal : fs.file (paths.dbSidecar "-wal") = none

theorem readDatabase_createDb (hsqlite : env.sqlite.Lawful) {fs : FileSystem}
    (h : NoVault paths fs) : readDatabase env.sqlite paths (createDb paths fs) = .ok .empty := by
  have hdb : fs.holds paths.db = false := by simp [FileSystem.holds, h.db]
  have hwal : (createDb paths fs).file (paths.dbSidecar "-wal") = none := by
    simp only [createDb, hdb, Bool.false_eq_true, if_false]
    rw [FileSystem.file_store_of_ne _ _ (db_paths_ne paths).1.symm, h.wal]
  have hmain : ((createDb paths fs).file paths.db).map File.contents = some [] := by
    simp [createDb, hdb]
  obtain ⟨main, hfile, hcontents⟩ := Option.map_eq_some_iff.mp hmain
  simp [readDatabase, hfile, hwal, hcontents, hsqlite.empty]

/-- On a machine without a vault, opening makes a database with empty tables. -/
theorem openVault_of_noVault (hsqlite : env.sqlite.Lawful) {fs fs' : FileSystem} {d : Database}
    {disk : Disk} {sql : Sql} (hno : NoVault paths fs)
    (h : openVault env.sqlite paths disk sql fs = (.ok d, fs')) : d = .fresh := by
  obtain ⟨_, d', hread, hmigrate, _⟩ := (openVault_eq_ok_iff ..).mp h
  obtain rfl := Except.ok.inj ((readDatabase_createDb hsqlite hno).symm.trans hread)
  exact ((migrate_empty_eq_ok_iff ..).mp hmigrate).2.2

/-! ## Success -/

/-- However initializing ends, what it wrote is in the file. -/
theorem initializeOn_apply {d : Database} {v v' : Vault} {timeout : ℕ} {fs mid : FileSystem}
    {outcome : Fallible SessionError Session} (hv : d.vault = .ok v)
    (hrun : Session.initializeVault env.primitives run.call (run.outer env paths) run.inner timeout
      (v, fs) = (outcome, (v', mid))) :
    initializeOn env paths run d timeout fs =
      (outcome, writeDatabase env.sqlite paths { d with metaTable := some v'.metaTable } mid) := by
  simp only [initializeOn, hv, hrun]

theorem initializeOn_eq_ok_iff (d : Database) (timeout : ℕ) (fs fs' : FileSystem) (s : Session) :
    initializeOn env paths run d timeout fs = (.ok s, fs') ↔
      ∃ v v' mid, d.vault = .ok v ∧
        Session.initializeVault env.primitives run.call (run.outer env paths) run.inner timeout
          (v, fs) = (.ok s, (v', mid)) ∧
        fs' = writeDatabase env.sqlite paths { d with metaTable := some v'.metaTable } mid := by
  constructor
  · intro h
    cases hv : d.vault with
    | error e =>
        simp only [initializeOn, hv, Prod.mk.injEq, Fallible.mapError_eq_ok_iff] at h
        cases h.1
    | ok v =>
        rcases hrun : Session.initializeVault env.primitives run.call (run.outer env paths)
          run.inner timeout (v, fs) with ⟨outcome, v', mid⟩
        obtain ⟨rfl, rfl⟩ := Prod.mk.inj ((initializeOn_apply hv hrun).symm.trans h)
        exact ⟨v, v', mid, rfl, hrun, rfl⟩
  · rintro ⟨v, v', mid, hv, hrun, rfl⟩
    exact initializeOn_apply hv hrun

theorem cmdInit_eq_ok_iff (fs fs' : FileSystem) (u : Unit) :
    cmdInit env paths run fs = (.ok u, fs') ↔
      fs.holds paths.db = false ∧ ∃ config d opened s created,
        loadConfig env paths run fs = .ok config ∧
        openVault env.sqlite paths run.disk run.call.sql fs = (.ok d, opened) ∧
        initializeOn env paths run d config.unlockTimeout opened = (.ok s, created) ∧
        config.save env.json run.disk paths.config created = (.ok u, fs') := by
  simp only [cmdInit, Stateful.bind_eq_ok_iff, Stateful.read_eq_ok_iff]
  constructor
  · rintro ⟨_, _, ⟨hfs, hmid⟩, h⟩
    rw [hfs, hmid] at h
    cases hdb : fs.holds paths.db with
    | true => simp [VaultPaths.isInitialized, hdb] at h
    | false =>
        simp only [VaultPaths.isInitialized, hdb, Bool.false_eq_true, if_false,
          Stateful.bind_eq_ok_iff, Stateful.lift_eq_ok_iff, Stateful.mapError_eq_ok_iff] at h
        obtain ⟨config, _, ⟨hconfig, rfl⟩, d, opened, hopen, s, created, hcreate, hsave⟩ := h
        exact ⟨rfl, config, d, opened, s, created, hconfig, hopen, hcreate, hsave⟩
  · rintro ⟨hdb, config, d, opened, s, created, hconfig, hopen, hcreate, hsave⟩
    refine ⟨_, _, ⟨rfl, rfl⟩, ?_⟩
    simp only [VaultPaths.isInitialized, hdb, Bool.false_eq_true, if_false,
      Stateful.bind_eq_ok_iff, Stateful.lift_eq_ok_iff, Stateful.mapError_eq_ok_iff]
    exact ⟨config, _, ⟨hconfig, rfl⟩, d, opened, hopen, s, created, hcreate, hsave⟩

/-- Saving the settings changes no file of the vault but that one. -/
theorem HoldsVault.of_save {fs fs' : FileSystem} {v : Vault} {outerKek : Key} {config : Config}
    {format : ConfigFormat} {disk : Disk} {u : Unit} (h : HoldsVault env paths fs v outerKek)
    (hsave : config.save format disk paths.config fs = (.ok u, fs')) :
    HoldsVault env paths fs' v outerKek := by
  simp only [Config.save, Stateful.bind_eq_ok_iff, Stateful.lift_eq_ok_iff,
    Stateful.mapError_eq_ok_iff, writePrivateAtomic_eq_ok_iff] at hsave
  obtain ⟨json, _, ⟨_, hmid⟩, _, rfl⟩ := hsave
  rw [hmid]
  obtain ⟨⟨d, hread, hstores⟩, hsealed⟩ := h
  have hkept : ∀ q : Path, q.name ≠ "config.json" → q.name ≠ "config.tmp" →
      (fs.replaced paths.config json).file q = fs.file q := by
    intro q hname htmp
    exact FileSystem.replaced_of_ne _ _ (Path.ne_of_name_ne (by simpa using hname))
      (Path.ne_of_name_ne (by simpa using htmp))
  refine ⟨⟨d, ?_, hstores⟩, hsealed.congr (hkept _ (by simp) (by simp))
    (hkept _ (by simp) (by simp))⟩
  rw [← hread]
  unfold readDatabase
  rw [hkept paths.db (by simp) (by simp), hkept (paths.dbSidecar "-wal") (by simp) (by simp)]

/-- **What a successful `init` leaves**: the vault with the new keys, and the outer key
they were made for. -/
theorem holdsVault_of_cmdInit (hsqlite : env.sqlite.Lawful) (hchip : env.chip.Lawful)
    {fs fs' : FileSystem} {u : Unit} (hno : NoVault paths fs)
    (h : cmdInit env paths run fs = (.ok u, fs')) :
    ∃ outerKek keys, run.outerKey = .ok outerKek ∧
      Session.prepareKeys env.primitives run.call run.inner outerKek = .ok keys ∧
      HoldsVault env paths fs' (keys.vault env.primitives .empty) outerKek := by
  obtain ⟨_, config, d, opened, s, created, _, hopen, hcreate, hsave⟩ :=
    (cmdInit_eq_ok_iff ..).mp h
  obtain rfl := openVault_of_noVault hsqlite hno hopen
  obtain ⟨v, v', mid, hv, hinitialize, rfl⟩ := (initializeOn_eq_ok_iff ..).mp hcreate
  obtain rfl := Except.ok.inj (stores_fresh.vault_eq.symm.trans hv)
  obtain ⟨_, _, outerKek, keys, hprovision, hprepare, rfl, rfl⟩ :=
    (Session.initializeVault_eq_ok_iff ..).mp hinitialize
  obtain ⟨_, hdraw, _, _, _, rfl⟩ := (TpmOuterProvider.provision_eq_ok_iff ..).mp hprovision
  refine ⟨outerKek, keys, hdraw, hprepare, .of_save ?_ hsave⟩
  refine ⟨⟨_, readDatabase_writeDatabase hsqlite _ _, rfl, rfl⟩, ?_⟩
  exact (TpmOuterProvider.holds_resealed paths hchip run.tpm.seed outerKek opened).congr
    (file_writeDatabase_of_beside (beside_tpmSealedPub paths) _ _)
    (file_writeDatabase_of_beside (beside_tpmSealedPriv paths) _ _)

/-! ## Opening again -/

/-- The vault is in four files. -/
theorem HoldsVault.congr {fs fs' : FileSystem} {v : Vault} {outerKek : Key}
    (h : HoldsVault env paths fs v outerKek) (hdb : fs'.file paths.db = fs.file paths.db)
    (hlog : fs'.file (paths.dbSidecar "-wal") = fs.file (paths.dbSidecar "-wal"))
    (hpublic : fs'.file paths.tpmSealedPub = fs.file paths.tpmSealedPub)
    (hprivate : fs'.file paths.tpmSealedPriv = fs.file paths.tpmSealedPriv) :
    HoldsVault env paths fs' v outerKek := by
  obtain ⟨⟨d, hread, hstores⟩, hsealed⟩ := h
  exact ⟨⟨d, (readDatabase_congr (by rw [hdb]) (by rw [hlog])).trans hread, hstores⟩,
    hsealed.congr hpublic hprivate⟩

/-- Opening a vault leaves it there, and gives a locked session on it. -/
theorem HoldsVault.opened (hsqlite : env.sqlite.Lawful) {fs fs' : FileSystem} {v : Vault}
    {outerKek : Key} (h : HoldsVault env paths fs v outerKek) {s : Session} {d : Database}
    (hopen : openLockedOnly env paths run fs = (.ok (s, d), fs')) :
    HoldsVault env paths fs' v outerKek ∧ d.Stores v ∧
      ∃ timeout, s = ⟨v, outerKek, none, none, timeout⟩ := by
  obtain ⟨⟨d₀, hread, hstores⟩, hsealed⟩ := h
  obtain ⟨_, _, config, d₁, v', key, _, hread', hmigrate, hv, _, hsealed', rfl, rfl⟩ :=
    (openLockedOnly_eq_ok_iff ..).mp hopen
  obtain rfl := Except.ok.inj (hread.symm.trans hread')
  have hstores' := migrate_stores hmigrate hstores
  obtain rfl := Except.ok.inj (hstores'.vault_eq.symm.trans hv)
  obtain rfl := hsealed'.key_unique hsealed
  exact ⟨⟨⟨d, readDatabase_opened hsqlite _ _, hstores'⟩, (holds_opened_iff ..).mpr hsealed⟩,
    hstores', config.unlockTimeout, rfl⟩

/-! ### A machine where everything works -/

theorem noVault_empty (paths : VaultPaths) : NoVault paths .empty := ⟨rfl, rfl⟩

theorem exists_openVault_working (paths : VaultPaths) :
    ∃ fs, openVault Platform.reference.sqlite paths .reliable .reliable .empty =
      (.ok .fresh, fs) ∧
      (∀ p, Beside paths p → fs.file p = none) := by
  have hopen := (openVault_eq_ok_iff Platform.reference.sqlite paths
    .reliable .reliable .empty _ .fresh).mpr ⟨⟨fun _ _ => rfl, rfl, fun _ _ => rfl, rfl⟩, .empty,
      readDatabase_createDb SqliteFormat.reference_lawful (noVault_empty paths),
      (migrate_empty_eq_ok_iff ..).mpr ⟨rfl, rfl, rfl⟩, rfl⟩
  refine ⟨_, hopen, fun p hp => ?_⟩
  rw [file_opened_of_beside _ hp, file_createDb_of_beside hp]
  rfl

/-- With a token present, `init` succeeds. -/
theorem exists_cmdInit_working (paths : VaultPaths) (id secret : Bytes) (keyText : String) :
    ∃ fs, cmdInit .reference paths (.working (.token id secret) keyText) .empty = (.ok (), fs) := by
  obtain ⟨opened, hopen, hbeside⟩ := exists_openVault_working paths
  obtain ⟨keys, _, hprepare, _⟩ := Session.exists_initializeVault_working 0 0 (Nat.le_refl 0)
    (Block.replicate 16 0) (Block.replicate keyLen 1) id secret 0
  have hunsealed : TpmOuterProvider.isProvisioned paths opened = false := by
    simp [TpmOuterProvider.isProvisioned, FileSystem.holds,
      hbeside _ (beside_tpmSealedPub paths)]
  have hprovision := (TpmOuterProvider.provision_eq_ok_iff .reference paths .reliable
    (.working [1]) (.ok (Block.replicate keyLen 1))
    (Block.replicate keyLen 1) opened _).mpr
    ⟨hunsealed, rfl, fun _ _ => rfl, fun _ _ => rfl, fun _ _ => rfl, rfl⟩
  have hinitialize := (Session.initializeVault_eq_ok_iff
    (Invocation.outer .reference paths (.working (.token id secret) keyText)) (.token id secret)
    Config.default.unlockTimeout .empty _ opened _ _).mpr
    ⟨rfl, fun _ _ => rfl, _, keys, hprovision, hprepare, rfl, rfl⟩
  obtain ⟨s, created, hcreate⟩ : ∃ s created, initializeOn .reference paths
      (.working (.token id secret) keyText) .fresh Config.default.unlockTimeout opened =
      (.ok s, created) :=
    ⟨_, _, (initializeOn_eq_ok_iff ..).mpr ⟨_, _, _, stores_fresh.vault_eq, hinitialize, rfl⟩⟩
  have hsave : Config.default.save Platform.reference.json .reliable paths.config created =
      (.ok (), created.replaced paths.config []) := by
    have hwrite := (writePrivateAtomic_eq_ok_iff .reliable paths.config [] created _ ()).mpr
      ⟨fun _ _ => rfl, rfl⟩
    simp [Config.save, Stateful.bind_apply, Platform.reference, hwrite]
  exact ⟨_, (cmdInit_eq_ok_iff ..).mpr
    ⟨rfl, .default, .fresh, opened, s, created, rfl, hopen, hcreate, hsave⟩⟩

/-- The settings can be read, whether or not there is a file of them. -/
theorem exists_loadConfig_reference (paths : VaultPaths) {run : Invocation}
    (hdisk : run.disk = .reliable) (fs : FileSystem) :
    ∃ config, loadConfig .reference paths run fs = .ok config := by
  simp only [loadConfig, Config.load, Disk.read, hdisk, Disk.reliable]
  cases fs.file paths.config with
  | none => exact ⟨_, rfl⟩
  | some f => exact ⟨_, rfl⟩

theorem loadConfig_reference (paths : VaultPaths) (inner : InnerKeyProvider) (keyText : String)
    (fs : FileSystem) :
    loadConfig .reference paths (.working inner keyText) fs = .ok .default := by
  have hclamped : Config.default.clamped = .default := by decide
  simp only [loadConfig, Config.load, Disk.read, Invocation.working, Disk.reliable]
  cases fs.file paths.config with
  | none => rfl
  | some f => exact congrArg Except.ok hclamped

/-- A vault is opened on a machine where everything works. -/
theorem HoldsVault.exists_opened_working {fs : FileSystem} {v : Vault} {outerKek : Key}
    (h : HoldsVault .reference paths fs v outerKek) (hsalt : metaKdfSalt ∈ v.metaTable)
    (inner : InnerKeyProvider) (keyText : String) :
    ∃ d fs', openLockedOnly .reference paths (.working inner keyText) fs =
      (.ok (⟨v, outerKek, none, none, Config.default.unlockTimeout⟩, d), fs') := by
  obtain ⟨⟨d, hread, hstores⟩, hsealed⟩ := h
  obtain ⟨d', hmigrate⟩ : ∃ d', migrate .reliable d = (.ok (), d') :=
    exists_migrate_of_stores (fun _ _ => rfl) hstores
  refine ⟨d', _, (openLockedOnly_eq_ok_iff ..).mpr ⟨?_, holds_db_of_readDatabase hread, _, d, v,
    outerKek, loadConfig_reference paths inner keyText fs, hread, hmigrate,
    (migrate_stores hmigrate hstores).vault_eq, hsalt, hsealed, rfl, rfl⟩⟩
  exact ⟨⟨fun _ _ => rfl, rfl, fun _ _ => rfl, rfl⟩, rfl, rfl, rfl, fun _ _ => rfl⟩

/-- What `init` leaves on a machine where everything works. -/
theorem exists_holdsVault_working (paths : VaultPaths) (id secret : Bytes) :
    ∃ (fs : FileSystem) (keys : NewKeys) (outerKek : Key), outerKek = Block.replicate keyLen 1 ∧
      Session.prepareKeys .reference (.working 0 0 (Nat.le_refl 0) (Block.replicate 16 0))
        (.token id secret) outerKek = .ok keys ∧
      HoldsVault .reference paths fs (keys.vault .reference .empty) outerKek := by
  obtain ⟨fs, hinit⟩ := exists_cmdInit_working paths id secret ""
  obtain ⟨outerKek, keys, hdraw, hprepare, hholds⟩ := holdsVault_of_cmdInit
    SqliteFormat.reference_lawful Chip.reference_lawful (noVault_empty paths) hinit
  exact ⟨fs, keys, outerKek, (Except.ok.inj hdraw).symm, hprepare, hholds⟩

/-! ## Failure -/

/-- A run of `init` that gets as far as `Session::initialize` and fails in it: drawing a
key, provisioning either layer, the first assertion, or one of the five writes. -/
def FailsInitializing (env : Platform) (paths : VaultPaths) (run : Invocation) (fs : FileSystem)
    (fault : Fault SessionError) (fs' : FileSystem) : Prop :=
  ∃ config d opened, loadConfig env paths run fs = .ok config ∧
    openVault env.sqlite paths run.disk run.call.sql fs = (.ok d, opened) ∧
    initializeOn env paths run d config.unlockTimeout opened = (.error fault, fs')

/-- The verification blob has no id, so no key can be checked against it. -/
def Unverifiable (v : Vault) : Prop := v.metaTable[metaVerifyId]? = none

namespace Session

variable {P : Primitives} {call : Call} {σ : Type}

theorem setMeta_keeps_unverifiable (sql : Sql) {key : String} (value : String)
    (hkey : key ≠ metaVerifyId) : Stateful.Keeps Unverifiable (Vault.setMeta sql key value) := by
  intro v hv
  rcases Vault.setMeta_cases sql key value v with ⟨e, h⟩ | h
  · rw [h]
    exact hv
  · rw [h]
    exact (Table.getElem?_insert_of_ne hkey.symm).trans hv

/-- The id of the verification blob is the last thing written. -/
theorem storeKeys_failsKeeping (sql : Sql) (kdfSalt hmacSalt verifyBlob : Bytes)
    (enrollments : List Enrollment) (verifyId : Uuid) :
    Stateful.FailsKeeping Unverifiable
      (storeKeys P sql kdfSalt hmacSalt enrollments verifyBlob verifyId) := by
  have hkeeps : ∀ (key value : String), key ≠ metaVerifyId → Stateful.Keeps Unverifiable
      ((Vault.setMeta sql key value).mapError SessionError.vault) :=
    fun key value hkey => (setMeta_keeps_unverifiable sql value hkey).mapError _
  refine Stateful.FailsKeeping.bind (hkeeps _ _ (by decide)) fun _ => ?_
  refine Stateful.FailsKeeping.bind (hkeeps _ _ (by decide)) fun _ => ?_
  refine Stateful.FailsKeeping.bind (hkeeps _ _ (by decide)) fun _ => ?_
  refine Stateful.FailsKeeping.bind (hkeeps _ _ (by decide)) fun _ => ?_
  refine Stateful.FailsKeeping.mapError ?_ _
  intro v e v' hv h
  rcases Vault.setMeta_cases sql metaVerifyId (P.uuidText verifyId) v with ⟨e', h'⟩ | h'
  · cases h'.symm.trans h
    exact hv
  · cases h'.symm.trans h

theorem initializeVault_failsKeeping (outer : OuterKeyProvider σ) (inner : InnerKeyProvider)
    (timeout : ℕ) : Stateful.FailsKeeping (fun s : Vault × σ => Unverifiable s.1)
      (initializeVault P call outer inner timeout) := by
  refine Stateful.FailsKeeping.bind Stateful.Keeps.read fun _ => ?_
  refine Stateful.FailsKeeping.bind (Stateful.Keeps.lift _) fun existing => ?_
  split
  · exact (Stateful.Keeps.raise _).failsKeeping
  refine Stateful.FailsKeeping.bind (fun s hs => hs) fun _ => ?_
  refine Stateful.FailsKeeping.bind (Stateful.Keeps.lift _) fun keys => ?_
  refine Stateful.FailsKeeping.bind_total ?_ fun _ s => ⟨_, _, rfl⟩
  intro s e s' hs h
  obtain ⟨houtcome, rfl⟩ := Prod.mk.inj h
  exact storeKeys_failsKeeping _ _ _ _ _ _ s.1 e _ hs (Prod.ext houtcome rfl)

/-- Whatever the authenticator answers, the session stays locked. -/
theorem not_unlock_of_unverifiable (inner : InnerKeyProvider) {s : Session}
    (h : Unverifiable s.vault) : ∃ e, unlock P call inner s = (.error e, s) := by
  rcases unlock_cases P call inner s with hfailed | ⟨innerKek, hassert, _⟩
  · exact hfailed
  · simp only [assertInnerKey, checkKeys, Vault.getMeta, Fallible.bind_eq_ok_iff,
      Fallible.mapError_eq_ok_iff, Sql.attempt_eq_ok_iff, Fallible.ofOption_eq_ok_iff] at hassert
    obtain ⟨_, _, _, _, _, _, _, _, _, _, _, ⟨_, _, _, ⟨_, rfl⟩, _, hparse, _⟩, _⟩ := hassert
    rw [h] at hparse
    cases hparse

end Session

/-- A vault file is all that `init` looks at. -/
theorem cmdInit_of_holds {fs : FileSystem} (h : fs.holds paths.db = true) :
    cmdInit env paths run fs = (.error (.error (.alreadyExists paths.root)), fs) := by
  simp [cmdInit, Stateful.bind_apply, VaultPaths.isInitialized, h]

/-- A run that fails inside `Session::initialize` leaves the file that opening made. -/
theorem FailsInitializing.holds_db {fs fs' : FileSystem} {fault : Fault SessionError}
    (h : FailsInitializing env paths run fs fault fs') : fs'.holds paths.db = true := by
  obtain ⟨config, d, opened, _, hopen, hinit⟩ := h
  cases hv : d.vault with
  | error e =>
      obtain ⟨_, _, _, _, rfl⟩ := (openVault_eq_ok_iff ..).mp hopen
      simp only [initializeOn, hv, Prod.mk.injEq] at hinit
      rw [← hinit.2]
      exact holds_db_opened d _
  | ok v =>
      rcases hrun : Session.initializeVault env.primitives run.call (run.outer env paths) run.inner
        config.unlockTimeout (v, opened) with ⟨outcome, v', mid⟩
      obtain ⟨_, rfl⟩ := Prod.mk.inj ((initializeOn_apply hv hrun).symm.trans hinit)
      obtain ⟨⟨_, hmain⟩, _⟩ := file_writeDatabase env.sqlite paths
        { d with metaTable := some v'.metaTable } mid
      exact FileSystem.holds_iff.mpr ⟨_, hmain⟩

/-- **A failed `init` is final.** On a machine without a vault, a run that fails inside
`Session::initialize` leaves a database behind. Every later `init`, on whatever
hardware, refuses because it is there; and no session that is opened on it can be
unlocked. -/
theorem failed_init_cannot_be_retried (hsqlite : env.sqlite.Lawful) {fs fs' : FileSystem}
    {fault : Fault SessionError} (hno : NoVault paths fs)
    (hfails : FailsInitializing env paths run fs fault fs') :
    cmdInit env paths run fs = (Fallible.mapError .initializing (.error fault), fs') ∧
    (∀ retry, cmdInit env paths retry fs' = (.error (.error (.alreadyExists paths.root)), fs')) ∧
    ∀ opening s d fs'', openLockedOnly env paths opening fs' = (.ok (s, d), fs'') →
      ∀ call inner, ∃ e, Session.unlock env.primitives call inner s = (.error e, s) := by
  have hdb := hfails.holds_db
  obtain ⟨config, d, opened, hconfig, hopen, hinit⟩ := hfails
  obtain rfl := openVault_of_noVault hsqlite hno hopen
  rcases hrun : Session.initializeVault env.primitives run.call (run.outer env paths) run.inner
    config.unlockTimeout (.empty, opened) with ⟨outcome, v', mid⟩
  obtain ⟨rfl, rfl⟩ :=
    Prod.mk.inj ((initializeOn_apply stores_fresh.vault_eq hrun).symm.trans hinit)
  have hunverifiable : Unverifiable v' :=
    Session.initializeVault_failsKeeping _ _ _ (.empty, opened) fault (v', mid) rfl hrun
  refine ⟨?_, fun retry => cmdInit_of_holds hdb, ?_⟩
  · have hnew : ¬ paths.isInitialized fs = true := by
      simp [VaultPaths.isInitialized, FileSystem.holds, hno.db]
    simp only [cmdInit, Stateful.bind_apply, Stateful.read_apply, if_neg hnew, Stateful.lift_apply,
      hconfig, Stateful.mapError_apply, hopen, Fallible.mapError_ok, hinit]
    cases fault with
    | error e => rfl
    | panic => rfl
  · intro opening s d fs'' hopened call inner
    obtain ⟨_, _, _, d', v, _, _, hread, hmigrate, hv, _, _, _, rfl⟩ :=
      (openLockedOnly_eq_ok_iff ..).mp hopened
    obtain rfl := Except.ok.inj ((readDatabase_writeDatabase hsqlite _ _).symm.trans hread)
    have hmeta := migrate_keeps_meta hmigrate rfl
    obtain ⟨hmeta', _⟩ := (Database.vault_eq_ok_iff _ _).mp hv
    have hsame : v'.metaTable = v.metaTable := Option.some.inj (hmeta.symm.trans hmeta')
    apply Session.not_unlock_of_unverifiable
    show v.metaTable[metaVerifyId]? = none
    rw [← hsame]
    exact hunverifiable

/-! ### A token that is not plugged in -/

/-- No authenticator answers. -/
def removedToken : InnerKeyProvider :=
  .withDefaults (Fallible.raise (.device "no authenticator")) fun _ _ =>
    Fallible.raise (.device "no authenticator")

theorem exists_failsInitializing_removedToken (paths : VaultPaths) :
    ∃ fault fs, FailsInitializing .reference paths (.working removedToken "") .empty fault fs := by
  obtain ⟨opened, hopen, _⟩ := exists_openVault_working paths
  rcases hinit : initializeOn .reference paths (.working removedToken "") .fresh
    Config.default.unlockTimeout opened with ⟨outcome, fs⟩
  cases outcome with
  | error fault => exact ⟨fault, fs, .default, .fresh, opened, rfl, hopen, hinit⟩
  | ok s =>
      obtain ⟨_, _, _, _, hinitialize, _⟩ := (initializeOn_eq_ok_iff ..).mp hinit
      obtain ⟨_, _, _, keys, _, hprepare, _⟩ :=
        (Session.initializeVault_eq_ok_iff ..).mp hinitialize
      obtain ⟨_, _, _, ⟨_, hprovision, _⟩, _⟩ := (Session.prepareKeys_eq_ok_iff ..).mp hprepare
      cases hprovision

/-- The same `init` would succeed on the empty directory, and refuses on what the run
without the token left. -/
theorem removed_token_blocks_init : ∃ fault fs fs',
    FailsInitializing .reference .reference (.working removedToken "") .empty fault fs ∧
    cmdInit .reference .reference (.working (.token [1] [1]) "") .empty = (.ok (), fs') ∧
    cmdInit .reference .reference (.working (.token [1] [1]) "") fs =
      (.error (.error (.alreadyExists "/vault")), fs) := by
  obtain ⟨fault, fs, hfails⟩ := exists_failsInitializing_removedToken .reference
  obtain ⟨fs', hworking⟩ := exists_cmdInit_working .reference [1] [1] ""
  exact ⟨fault, fs, fs', hfails, hworking, cmdInit_of_holds hfails.holds_db⟩

theorem removed_token_leaves_half_a_vault : ∃ fault fs,
    FailsInitializing .reference .reference (.working removedToken "") .empty fault fs ∧
    ∀ opening s d fs', openLockedOnly .reference .reference opening fs = (.ok (s, d), fs') →
      ∀ call inner, ∃ e, Session.unlock Platform.reference.primitives call inner s =
        (.error e, s) := by
  obtain ⟨fault, fs, hfails⟩ := exists_failsInitializing_removedToken .reference
  exact ⟨fault, fs, hfails, (failed_init_cannot_be_retried SqliteFormat.reference_lawful
    (noVault_empty .reference) hfails).2.2⟩

end Sypherstore
