/-
# Restoring a backup

What `restore apply` makes of an archive when nothing is refused. The command opens the
vault it is about to replace, first to get at the outer key and then to save a copy, so
whether the archive can be restored depends on the database it is meant to replace.
-/

import Sypherstore.App.Init

namespace Sypherstore

open Logic

variable {env : Platform} {paths : VaultPaths} {run : Invocation}

/-- Nothing is refused during the run, and the user agrees to what is asked. -/
structure Invocation.Undisturbed (run : Invocation) : Prop where
  disk : ∀ step, run.disk.fault step = none
  sql : ∀ statement, run.call.sql.fault statement = none
  checkpoint : ∀ statement, run.checkpoint.fault statement = none
  tpm : ∀ step, run.tpm.fault step = none
  nonce : ∃ nonce, run.backupNonce = .ok nonce
  confirmed : run.confirmed = .ok true

theorem Invocation.Undisturbed.canOpenLocked (h : run.Undisturbed) : CanOpenLocked paths run where
  opening := ⟨fun _ _ => h.disk _, h.sql _, fun _ _ => h.sql _, h.disk _⟩
  salt := h.sql _
  unsealing := ⟨h.disk _, h.disk _, fun _ _ => h.tpm _⟩

theorem Invocation.undisturbed_working (inner : InnerKeyProvider) (keyText : String) :
    (Invocation.working inner keyText).Undisturbed :=
  ⟨fun _ => rfl, fun _ => rfl, fun _ => rfl, fun _ => rfl, ⟨_, rfl⟩, rfl⟩

/-- The live database file is there and SQLite accepts it, its tables are not those of
the first version, and its `meta` table has the row of the salt, readable as text: a
`Database` has no row whose value is anything else. -/
def LiveVaultOpens (sqlite : SqliteFormat) (paths : VaultPaths) (fs : FileSystem) : Prop :=
  ∃ d table, readDatabase sqlite paths fs = .ok d ∧ d.metaTable = some table ∧
    metaKdfSalt ∈ table ∧ (schemaVersion ≤ d.userVersion ∨ d.secrets.isLegacy = false)

theorem liveVaultOpens_iff {sqlite : SqliteFormat} {sql : Sql}
    (hsql : ∀ statement, sql.fault statement = none) (fs : FileSystem) :
    LiveVaultOpens sqlite paths fs ↔
      ∃ d d' v, readDatabase sqlite paths fs = .ok d ∧ migrate sql d = (.ok (), d') ∧
        d'.vault = .ok v ∧ metaKdfSalt ∈ v.metaTable := by
  constructor
  · rintro ⟨d, table, hread, hmeta, hsalt, hversion⟩
    obtain ⟨d', hmigrate⟩ : ∃ d', migrate sql d = (.ok (), d') := by
      by_cases hcurrent : schemaVersion ≤ d.userVersion
      · exact ⟨d, (migrate_eq_ok_iff_of_reliable hsql _ _).mpr (.inl ⟨hcurrent, rfl⟩)⟩
      · exact ⟨_, (migrate_eq_ok_iff_of_reliable hsql _ _).mpr
          (.inr ⟨hcurrent, hversion.resolve_left hcurrent, rfl⟩)⟩
    have hmeta' := migrate_keeps_meta hmigrate hmeta
    exact ⟨d, d', ⟨table, d'.secrets.rows⟩, hread, hmigrate,
      (Database.vault_eq_ok_iff _ _).mpr ⟨hmeta', rfl⟩, hsalt⟩
  · rintro ⟨d, d', v, hread, hmigrate, hv, hsalt⟩
    obtain ⟨hmeta', _⟩ := (Database.vault_eq_ok_iff _ _).mp hv
    rcases (migrate_eq_ok_iff_of_reliable hsql _ _).mp hmigrate with
      ⟨hcurrent, rfl⟩ | ⟨_, hlegacy, rfl⟩
    · exact ⟨_, _, hread, hmeta', hsalt, .inl hcurrent⟩
    · cases hmeta : d.metaTable with
      | none =>
          have hempty : (∅ : Table String) = v.metaTable := by
            simpa [Database.created, hmeta] using hmeta'
          rw [← hempty] at hsalt
          exact absurd hsalt (Std.ExtTreeMap.not_mem_empty)
      | some table =>
          have hsame : table = v.metaTable := by
            simpa [Database.created, hmeta] using hmeta'
          exact ⟨d, table, hread, hmeta, hsame ▸ hsalt, .inr hlegacy⟩

/-- Such a vault is opened with whatever key is sealed. -/
theorem exists_openLockedOnly (hrun : run.Undisturbed) {fs : FileSystem}
    (hlive : LiveVaultOpens env.sqlite paths fs) {outerKek : Key}
    (hsealed : TpmOuterProvider.Holds env.chip paths fs outerKek)
    (hconfig : ∃ config, loadConfig env paths run fs = .ok config) :
    ∃ s d fs', openLockedOnly env paths run fs = (.ok (s, d), fs') ∧
      s.outerKek = outerKek := by
  obtain ⟨config, hconfig⟩ := hconfig
  obtain ⟨d, d', v, hread, hmigrate, hv, hsalt⟩ := (liveVaultOpens_iff hrun.sql fs).mp hlive
  exact ⟨_, _, _, (openLockedOnly_eq_ok_iff fs (opened env.sqlite paths d' fs)
    ⟨v, outerKek, none, none, config.unlockTimeout⟩ d').mpr ⟨hrun.canOpenLocked,
      holds_db_of_readDatabase hread, config, d, v, outerKek, hconfig, hread, hmigrate, hv, hsalt,
      hsealed, rfl, rfl⟩, rfl⟩

/-- `restore apply` succeeds, and the next open finds the archived file and nothing of
the database before. -/
def RestoresExactly (env : Platform) (paths : VaultPaths) (run : Invocation) (archive : Path)
    (image : Bytes) (fs : FileSystem) : Prop :=
  ∃ safety fs', cmdRestoreApply env paths run archive fs = (.ok (.restored safety), fs') ∧
    (fs'.file paths.db).map File.contents = some image ∧
    fs'.file (paths.dbSidecar "-wal") = none ∧ fs'.file (paths.dbSidecar "-shm") = none ∧
    readDatabase env.sqlite paths fs' =
      (Fallible.ofExcept (env.sqlite.load image none)).mapError .sqlite

theorem backups_ne_root (paths : VaultPaths) : paths.backups ≠ paths.root := by
  intro h
  have hlength := congrArg String.length h
  simp [VaultPaths.backups] at hlength

theorem beside_archivePath (paths : VaultPaths) (unixTime : ℕ) :
    Beside paths (Backup.archivePath paths unixTime) :=
  ⟨Path.ne_of_dir_ne (backups_ne_root paths), Path.ne_of_dir_ne (backups_ne_root paths),
    Path.ne_of_dir_ne (backups_ne_root paths)⟩

theorem Disk.discard_of_none {disk : Disk} {p : Path} (h : disk.fault (.remove p) = none)
    (fs : FileSystem) : disk.discard p fs = fs.remove p := by
  simp [Disk.discard, h]

/-- The files after the live database has been replaced. -/
def replacedDb (paths : VaultPaths) (image : Bytes) (fs : FileSystem) : FileSystem :=
  ((fs.remove (paths.dbSidecar "-wal")).remove (paths.dbSidecar "-shm")).replaced paths.db image

theorem file_replacedDb (paths : VaultPaths) (image : Bytes) (fs : FileSystem) :
    ((replacedDb paths image fs).file paths.db).map File.contents = some image ∧
      (replacedDb paths image fs).file (paths.dbSidecar "-wal") = none ∧
      (replacedDb paths image fs).file (paths.dbSidecar "-shm") = none := by
  obtain ⟨hwal, hshm, hsides⟩ := db_paths_ne paths
  refine ⟨?_, ?_, ?_⟩
  · obtain ⟨mode, hmain⟩ := FileSystem.replaced_self
      ((fs.remove (paths.dbSidecar "-wal")).remove (paths.dbSidecar "-shm")) paths.db image
    rw [replacedDb, hmain]
    rfl
  · rw [replacedDb, FileSystem.replaced_of_ne _ _ hwal.symm (Path.ne_of_name_ne (by simp)),
      FileSystem.file_remove_of_ne hsides, FileSystem.file_remove_self]
  · rw [replacedDb, FileSystem.replaced_of_ne _ _ hshm.symm (Path.ne_of_name_ne (by simp)),
      FileSystem.file_remove_self]

theorem readDatabase_replacedDb (image : Bytes) (fs : FileSystem) :
    readDatabase env.sqlite paths (replacedDb paths image fs) =
      (Fallible.ofExcept (env.sqlite.load image none)).mapError .sqlite := by
  obtain ⟨hmain, hwal, _⟩ := file_replacedDb paths image fs
  obtain ⟨main, hfile, rfl⟩ := Option.map_eq_some_iff.mp hmain
  simp only [readDatabase, hfile, hwal, Option.map_none]
  cases env.sqlite.load main.contents none with
  | ok d => rfl
  | error e => rfl

/-- **What restoring takes** when nothing is refused: the vault opens with the key the
archive was made under. -/
theorem cmdRestoreApply_of_openLockedOnly (hrun : run.Undisturbed)
    (hexact : env.primitives.aead.Exact) {archive : Path} {fs opened : FileSystem} {s : Session}
    {d : Database} {image : Bytes}
    (hseals : ∀ nonce msg, ∃ ct, env.primitives.aead.enc
      (Backup.backupKey env.primitives s.outerKek) nonce Backup.magic msg = some ct)
    (hopen : openLockedOnly env paths run fs = (.ok (s, d), opened))
    (hdb : opened.holds paths.db = true) {f : File} (hfile : opened.file archive = some f)
    (harchived : Backup.Archived env.primitives s.outerKek image f.contents) :
    ∃ safety mid, cmdRestoreApply env paths run archive fs =
      (.ok (.restored safety), replacedDb paths image mid) := by
  have hrestore : Backup.restore env.primitives run.disk archive s.outerKek opened = .ok image :=
    (Backup.restore_eq_ok_iff hexact ..).mpr ⟨hrun.disk _, f, hfile, harchived⟩
  obtain ⟨nonce, hnonce⟩ := hrun.nonce
  obtain ⟨main, hmain⟩ : ∃ main,
      (Backup.checkpoint env.sqlite paths run.checkpoint opened).file paths.db = some main := by
    obtain ⟨main, hmain⟩ := FileSystem.holds_iff.mp hdb
    simp only [Backup.checkpoint, hrun.checkpoint, Option.isSome_none, Bool.or_self,
      Bool.false_eq_true, if_false]
    cases readDatabase env.sqlite paths opened with
    | ok d' =>
        obtain ⟨⟨_, hwritten⟩, _⟩ := file_writeDatabase env.sqlite paths d'
          opened
        exact ⟨_, hwritten⟩
    | error e => exact ⟨main, hmain⟩
  obtain ⟨ct, hct⟩ := hseals nonce main.contents
  have hcreate := (Backup.create_eq_ok_iff s.outerKek run.backupNonce run.unixTime opened _ _).mpr
    ⟨hdb, hrun.disk _, hrun.disk _, fun _ _ => hrun.disk _, rfl, main, nonce, ct, hmain, hnonce,
      hct, rfl⟩
  have hwrite := fun mid : FileSystem =>
    (writePrivateAtomic_eq_ok_iff run.disk paths.db image mid _ ()).mpr
      ⟨fun _ _ => hrun.disk _, rfl⟩
  refine ⟨Backup.archivePath paths run.unixTime,
    (Backup.checkpoint env.sqlite paths run.checkpoint opened).replaced
      (Backup.archivePath paths run.unixTime) (Backup.magic ++ nonce.bytes ++ ct), ?_⟩
  rw [cmdRestoreApply, Stateful.bind_of_ok hopen]
  simp only [Stateful.bind_apply, Stateful.read_apply, Stateful.lift_apply, hrestore,
    Fallible.mapError_ok, hrun.confirmed, Bool.not_true, Bool.false_eq_true, if_false,
    Stateful.mapError_apply, hcreate, Stateful.modify_apply, Disk.discard_of_none (hrun.disk _),
    hwrite]
  rfl

/-- Restoring begins with opening the vault that is to be replaced. -/
theorem openLockedOnly_of_cmdRestoreApply {archive : Path} {fs fs' : FileSystem}
    {report : RestoreReport} (h : cmdRestoreApply env paths run archive fs = (.ok report, fs')) :
    ∃ s d opened, openLockedOnly env paths run fs = (.ok (s, d), opened) := by
  rw [cmdRestoreApply, Stateful.bind_eq_ok_iff] at h
  obtain ⟨⟨s, d⟩, opened, hopen, _⟩ := h
  exact ⟨s, d, opened, hopen⟩

theorem liveVaultOpens_of_cmdRestoreApply (hrun : run.Undisturbed) {archive : Path}
    {fs fs' : FileSystem} {report : RestoreReport}
    (h : cmdRestoreApply env paths run archive fs = (.ok report, fs')) :
    LiveVaultOpens env.sqlite paths fs := by
  obtain ⟨_, d', _, hopen⟩ := openLockedOnly_of_cmdRestoreApply h
  obtain ⟨_, _, _, d, v, _, _, hread, hmigrate, hv, hsalt, _⟩ :=
    (openLockedOnly_eq_ok_iff ..).mp hopen
  exact (liveVaultOpens_iff hrun.sql fs).mpr ⟨d, d', v, hread, hmigrate, hv, hsalt⟩

/-- A checkpoint that is not refused leaves the whole database in the main file. -/
theorem load_checkpoint (hsqlite : env.sqlite.Lawful) {sql : Sql} {fs : FileSystem} {d : Database}
    {main : File} (hconnect : sql.fault .connect = none)
    (hcheckpoint : sql.fault .checkpoint = none)
    (hread : readDatabase env.sqlite paths fs = .ok d)
    (hmain : (Backup.checkpoint env.sqlite paths sql fs).file paths.db = some main) :
    env.sqlite.load main.contents none = .ok d := by
  obtain ⟨⟨_, hwritten⟩, _⟩ := file_writeDatabase env.sqlite paths d fs
  simp only [Backup.checkpoint, hconnect, hcheckpoint, hread, hwritten, Option.isSome_none,
    Bool.or_self, Bool.false_eq_true, if_false, Option.some.injEq] at hmain
  rw [← hmain]
  exact hsqlite.image d

/-- **An archive can be restored exactly over a vault that opens.** For every archive
that `create` has written and every later state of the files in which the archive is
still there and the outer key still sealed: a run of `restore apply` in which nothing is
refused puts the archived database back if and only if SQLite accepts the live one, its
tables are current or can be created, and it still has its salt. -/
theorem restore_apply_iff_live_vault_opens (hexact : env.primitives.aead.Exact)
    (hsqlite : env.sqlite.Lawful) {making : Disk} {sql : Sql} {outerKek : Key}
    {draw : Except RandomError Nonce} {unixTime : ℕ} {fs₀ fs₁ fs : FileSystem} {archive : Path}
    (hmade : Backup.create env.primitives env.sqlite paths making sql outerKek draw unixTime fs₀ =
      (.ok archive, fs₁))
    (hkept : fs.file archive = fs₁.file archive)
    (hsealed : TpmOuterProvider.Holds env.chip paths fs outerKek)
    (hconfig : ∃ config, loadConfig env paths run fs = .ok config)
    (hseals : ∀ nonce msg, ∃ ct, env.primitives.aead.enc
      (Backup.backupKey env.primitives outerKek) nonce Backup.magic msg = some ct)
    (hrun : run.Undisturbed) :
    ∃ main, (Backup.checkpoint env.sqlite paths sql fs₀).file paths.db = some main ∧
      (∀ d, readDatabase env.sqlite paths fs₀ = .ok d → sql.fault .connect = none →
        sql.fault .checkpoint = none → env.sqlite.load main.contents none = .ok d) ∧
      (RestoresExactly env paths run archive main.contents fs ↔
        LiveVaultOpens env.sqlite paths fs) := by
  obtain ⟨_, _, _, _, rfl, main, nonce, ct, hmain, _, henc, rfl⟩ :=
    (Backup.create_eq_ok_iff ..).mp hmade
  refine ⟨main, hmain, ?_, ?_⟩
  · intro d hread hconnect hcheckpoint
    exact load_checkpoint hsqlite hconnect hcheckpoint hread hmain
  constructor
  · rintro ⟨_, _, hrestored, _⟩
    exact liveVaultOpens_of_cmdRestoreApply hrun hrestored
  · intro hlive
    obtain ⟨config, hconfig⟩ := hconfig
    obtain ⟨d, d', v, hread, hmigrate, hv, hsalt⟩ := (liveVaultOpens_iff hrun.sql fs).mp hlive
    have hdb := holds_db_of_readDatabase hread
    have hopen := (openLockedOnly_eq_ok_iff fs (opened env.sqlite paths d' fs)
      ⟨v, outerKek, none, none, config.unlockTimeout⟩ d').mpr ⟨hrun.canOpenLocked, hdb, config, d,
        v, outerKek, hconfig, hread, hmigrate, hv, hsalt, hsealed, rfl, rfl⟩
    obtain ⟨mode, hreplaced⟩ := FileSystem.replaced_self
      (Backup.checkpoint env.sqlite paths sql fs₀) (Backup.archivePath paths unixTime)
      (Backup.magic ++ nonce.bytes ++ ct)
    have hfile : (opened env.sqlite paths d' fs).file (Backup.archivePath paths unixTime) =
        some ⟨Backup.magic ++ nonce.bytes ++ ct, mode⟩ := by
      rw [file_opened_of_beside _ (beside_archivePath paths unixTime), hkept, hreplaced]
    obtain ⟨safety, mid, hrestored⟩ := cmdRestoreApply_of_openLockedOnly hrun hexact hseals hopen
      (holds_db_opened d' fs) hfile ⟨nonce, ct, henc, rfl⟩
    obtain ⟨hdbFile, hwal, hshm⟩ := file_replacedDb paths main.contents mid
    exact ⟨safety, _, hrestored, hdbFile, hwal, hshm, readDatabase_replacedDb _ _⟩

/-! ### One vault and its archive -/

theorem file_replaced_archivePath {paths : VaultPaths} {p : Path} (hp : p.dir = paths.root)
    (unixTime : ℕ) (contents : Bytes) (fs : FileSystem) :
    (fs.replaced (Backup.archivePath paths unixTime) contents).file p = fs.file p := by
  have hdir : paths.root ≠ paths.backups := (backups_ne_root paths).symm
  exact FileSystem.replaced_of_ne _ _ (Path.ne_of_dir_ne (by rw [hp]; exact hdir))
    (Path.ne_of_dir_ne (by rw [hp]; exact hdir))

/-- An archive can be made of a vault that `init` has just created. -/
theorem exists_archived_working (paths : VaultPaths) : ∃ fs₀ fs₁ archive keys outerKek,
    Backup.create .reference .reference paths .reliable .reliable outerKek
      (.ok (Block.replicate 24 11)) 0 fs₀ = (.ok archive, fs₁) ∧
    HoldsVault .reference paths fs₁ (NewKeys.vault .reference keys .empty) outerKek := by
  obtain ⟨fs₀, keys, outerKek, _, _, ⟨d, hread, hstores⟩, hsealed⟩ :=
    exists_holdsVault_working paths [1] [1]
  have hdb : fs₀.holds paths.db = true := holds_db_of_readDatabase hread
  have hcheckpoint : Backup.checkpoint .reference paths .reliable fs₀ =
      writeDatabase .reference paths d fs₀ := by
    have hdatabase : readDatabase .reference paths fs₀ = .ok d := hread
    simp [Backup.checkpoint, Sql.reliable, hdatabase]
  obtain ⟨⟨mode, hmain⟩, hwal⟩ := file_writeDatabase .reference paths d fs₀
  obtain ⟨nonce, ct, hcreate⟩ : ∃ (nonce : Nonce) (ct : Bytes), Backup.create .reference .reference
      paths .reliable .reliable outerKek (.ok (Block.replicate 24 11)) 0 fs₀ =
      (.ok (Backup.archivePath paths 0), (Backup.checkpoint .reference paths .reliable fs₀).replaced
        (Backup.archivePath paths 0) (Backup.magic ++ nonce.bytes ++ ct)) :=
    ⟨_, _, (Backup.create_eq_ok_iff ..).mpr ⟨hdb, rfl, rfl, fun _ _ => rfl, rfl, _, _, _,
      hcheckpoint ▸ hmain, rfl, rfl, rfl⟩⟩
  refine ⟨fs₀, _, _, keys, outerKek, hcreate, ⟨d, ?_, hstores⟩, ?_⟩
  · have hloaded : readDatabase .reference paths (writeDatabase .reference paths d fs₀) = .ok d :=
      readDatabase_writeDatabase SqliteFormat.reference_lawful d fs₀
    rw [← hloaded, hcheckpoint]
    unfold readDatabase
    rw [file_replaced_archivePath rfl, file_replaced_archivePath rfl]
    rfl
  · refine hsealed.congr ?_ ?_
    · rw [file_replaced_archivePath rfl, hcheckpoint,
        file_writeDatabase_of_beside (beside_tpmSealedPub paths)]
    · rw [file_replaced_archivePath rfl, hcheckpoint,
        file_writeDatabase_of_beside (beside_tpmSealedPriv paths)]

theorem HoldsVault.liveVaultOpens {fs : FileSystem} {keys : NewKeys} {outerKek : Key}
    (h : HoldsVault env paths fs (keys.vault env.primitives .empty) outerKek) :
    LiveVaultOpens env.sqlite paths fs := by
  obtain ⟨⟨d, hread, hmeta, hsecrets⟩, _⟩ := h
  refine ⟨d, _, hread, hmeta, (KeyRing.StoredIn.of_newKeys keys .empty).mem_kdfSalt, .inr ?_⟩
  rw [hsecrets]
  rfl

/-- The file system after the database has been overwritten with something else. -/
def corrupted (paths : VaultPaths) (fs : FileSystem) : FileSystem := fs.store paths.db [7, 7] 0

/-- SQLite refuses the live database, the archive and the seal are untouched, nothing is
refused, and the archive is not restored. -/
theorem corrupted_database_is_not_restored : ∃ fs₀ fs₁ archive outerKek,
    Backup.create .reference .reference .reference .reliable .reliable outerKek
      (.ok (Block.replicate 24 11)) 0 fs₀ = (.ok archive, fs₁) ∧
    (corrupted .reference fs₁).file archive = fs₁.file archive ∧
    TpmOuterProvider.Holds .reference .reference (corrupted .reference fs₁) outerKek ∧
    (Invocation.working (.token [1] [1]) "").Undisturbed ∧
    ∀ report fs', cmdRestoreApply .reference .reference (.working (.token [1] [1]) "") archive
      (corrupted .reference fs₁) ≠ (.ok report, fs') := by
  obtain ⟨fs₀, fs₁, archive, _, outerKek, hmade, _, hsealed⟩ := exists_archived_working .reference
  obtain ⟨_, _, _, _, harchive, _⟩ := (Backup.create_eq_ok_iff ..).mp hmade
  have hundisturbed := Invocation.undisturbed_working (.token [1] [1]) ""
  have hkept : ∀ p, p ≠ VaultPaths.reference.db →
      (corrupted .reference fs₁).file p = fs₁.file p :=
    fun p hp => FileSystem.file_store_of_ne _ _ hp
  refine ⟨fs₀, fs₁, archive, outerKek, hmade, hkept _ ?_,
    hsealed.congr (hkept _ (beside_tpmSealedPub _).db) (hkept _ (beside_tpmSealedPriv _).db),
    hundisturbed, ?_⟩
  · rw [harchive]
    exact (beside_archivePath _ _).db
  · intro report fs' hrestored
    obtain ⟨d, _, hread, _⟩ := liveVaultOpens_of_cmdRestoreApply hundisturbed hrestored
    have hstored : ((fs₁.store VaultPaths.reference.db [7, 7] 0).file
        VaultPaths.reference.db).map File.contents = some [7, 7] := FileSystem.file_store_self _ _
    obtain ⟨main, hfile, hcontents⟩ := Option.map_eq_some_iff.mp hstored
    have hrefused : SqliteFormat.reference.load [7, 7]
        (((corrupted .reference fs₁).file (VaultPaths.reference.dbSidecar "-wal")).map
          File.contents) = .error ⟨"file is not a database"⟩ := rfl
    have hfile' : (corrupted .reference fs₁).file VaultPaths.reference.db = some main := hfile
    simp only [readDatabase, hfile', hcontents] at hread
    rw [show Platform.reference.sqlite = SqliteFormat.reference from rfl, hrefused] at hread
    cases hread

/-- Over the vault it was made of, the archive is restored. -/
theorem intact_database_is_restored : ∃ fs₁ archive main,
    RestoresExactly .reference .reference (.working (.token [1] [1]) "") archive main fs₁ := by
  obtain ⟨fs₀, fs₁, archive, keys, outerKek, hmade, hholds⟩ := exists_archived_working .reference
  have hexact : Platform.reference.primitives.aead.Exact := Primitives.reference_lawful.exact
  have hsqlite : Platform.reference.sqlite.Lawful := SqliteFormat.reference_lawful
  have hmade : Backup.create Platform.reference.primitives Platform.reference.sqlite .reference
      .reliable .reliable outerKek (.ok (Block.replicate 24 11)) 0 fs₀ = (.ok archive, fs₁) := hmade
  have hseals : ∀ nonce msg, ∃ ct, Platform.reference.primitives.aead.enc
      (Backup.backupKey Platform.reference.primitives outerKek) nonce Backup.magic msg = some ct :=
    fun _ _ => ⟨_, rfl⟩
  obtain ⟨main, _, _, hrestores⟩ := restore_apply_iff_live_vault_opens hexact hsqlite hmade rfl
    hholds.sealed (exists_loadConfig_reference .reference rfl fs₁) hseals
    (Invocation.undisturbed_working (.token [1] [1]) "")
  exact ⟨fs₁, archive, _, hrestores.mpr hholds.liveVaultOpens⟩

end Sypherstore
