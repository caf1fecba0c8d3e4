/-
# The backup command

`cmd_backup` in `commands.rs` makes an archive and then prunes the directory it is in. Pruning
goes by the names alone, so the archive that is reported may be one of those that go: where
none are kept, where the clock went back, or where something else in the directory has a
greater name.
-/

import Sypherstore.App.BackupHistory

namespace Sypherstore

open Logic

inductive BackupCommandError where
  | opening (e : CommandError)
  /-- "writing the backup" -/
  | writing (e : BackupError)
  /-- "pruning old backups" -/
  | pruning (e : BackupError)

/-- What `sypherstore backup` prints. -/
structure BackupReport where
  /-- "Backup written to {0}" -/
  archive : Path
  /-- "Pruned {0} older backup(s), keeping {1}." -/
  pruned : ℕ
  keeping : ℕ

variable (env : Platform) (paths : VaultPaths) (run : Invocation) (scan : DirScan) in
/-- `sypherstore backup`. -/
def cmdBackup : Stateful FileSystem BackupCommandError BackupReport := do
  let fs ← Stateful.read
  let config ← Stateful.lift ((loadConfig env paths run fs).mapError .opening)
  let (s, _) ← (openLockedOnly env paths run).mapError .opening
  let archive ← (Backup.create env.primitives env.sqlite paths run.disk run.checkpoint s.outerKek
    run.backupNonce run.unixTime).mapError .writing
  let pruned ← (Backup.prune run.disk paths scan config.backupRetention).mapError .pruning
  return ⟨archive, pruned, config.backupRetention⟩

variable {env : Platform} {paths : VaultPaths} {run : Invocation} {scan : DirScan}

/-! ## What survives -/

/-- The archive decrypts, with the outer key of the vault, to the main file of the database,
which is as it was read. -/
def HoldsDatabase (env : Platform) (paths : VaultPaths) (before after : FileSystem)
    (archive : Path) : Prop :=
  ∃ outerKek image, TpmOuterProvider.Holds env.chip paths before outerKek ∧
    (after.file paths.db).map File.contents = some image ∧
    Backup.restore env.primitives .reliable archive outerKek after = .ok image

/-- Pruning does not get at the archive: the directory is not looked at, the archive's entry
cannot be read, its removal is refused, or fewer archives than are kept have a greater name. -/
def SurvivesPruning (paths : VaultPaths) (run : Invocation) (scan : DirScan) (config : Config)
    (fs : FileSystem) : Prop :=
  scan.present = false ∨ scan.dropped (Backup.archivePath paths run.unixTime).name = true ∨
    run.disk.fault (.remove (Backup.archivePath paths run.unixTime)) ≠ none ∨
    above (Backup.archiveNames paths scan fs) (Backup.archivePath paths run.unixTime).name <
      config.backupRetention

variable (scan) in
/-- The names above the archive's are those of other files, which the command has left alone
until it prunes. -/
theorem above_archiveNames {fs fs' : FileSystem} {t : ℕ}
    (hkept : ∀ p, Backup.IsArchivePath paths p → p ≠ Backup.archivePath paths t →
      fs'.file p = fs.file p) :
    above (Backup.archiveNames paths scan fs') (Backup.archivePath paths t).name =
      above (Backup.archiveNames paths scan fs) (Backup.archivePath paths t).name := by
  have hmem : ∀ name, (Backup.archivePath paths t).name < name →
      (name ∈ Backup.archiveNames paths scan fs' ↔ name ∈ Backup.archiveNames paths scan fs) := by
    intro name hlt
    simp only [Backup.archiveNames, List.mem_filter, DirScan.mem_names_iff]
    refine and_congr_left fun harchive => ?_
    have hsame := hkept ⟨paths.backups, name⟩ ⟨rfl, harchive⟩ (Path.ne_of_name_ne hlt.ne')
    rw [FileSystem.holds, hsame, FileSystem.holds]
  rw [above, above, List.countP_eq_length_filter, List.countP_eq_length_filter]
  apply List.Perm.length_eq
  rw [List.perm_ext_iff_of_nodup ((Backup.nodup_archiveNames _ _ _).filter _)
    ((Backup.nodup_archiveNames _ _ _).filter _)]
  intro name
  rw [List.mem_filter, List.mem_filter]
  exact and_congr_left fun hlt => hmem name (of_decide_eq_true hlt)

variable (scan) in
/-- An archive is pruned when as many as are kept have a greater name. -/
theorem mem_drop_newestFirst_iff {fs : FileSystem} {archive : Path} (keep : ℕ)
    (harchive : Backup.IsArchivePath paths archive) (hfile : fs.holds archive) :
    archive ∈ ((Backup.newestFirst paths scan fs).drop keep).map (Path.mk paths.backups) ↔
      scan.dropped archive.name = false ∧
        keep ≤ above (Backup.archiveNames paths scan fs) archive.name := by
  have hpath : (⟨paths.backups, archive.name⟩ : Path) = archive := by rw [← harchive.1]
  have hlisted : archive.name ∈ Backup.newestFirst paths scan fs ↔
      scan.dropped archive.name = false := by
    rw [(Backup.newestFirst_perm paths scan fs).mem_iff, Backup.archiveNames, List.mem_filter,
      DirScan.mem_names_iff, hpath]
    simp [hfile, harchive.2]
  rw [← hpath, List.mem_map_of_injective (Backup.map_mk_injective _), hpath]
  constructor
  · intro hmem
    have hin := List.mem_of_mem_drop hmem
    rw [mem_drop_iff_le_above (Backup.pairwise_newestFirst paths scan fs) hin,
      above_of_perm (Backup.newestFirst_perm paths scan fs)] at hmem
    exact ⟨hlisted.mp hin, hmem⟩
  · rintro ⟨hkept, hle⟩
    rw [mem_drop_iff_le_above (Backup.pairwise_newestFirst paths scan fs) (hlisted.mpr hkept),
      above_of_perm (Backup.newestFirst_perm paths scan fs)]
    exact hle

/-- Pruning leaves the archive, or has removed it. -/
theorem file_of_prune_cases {disk : Disk} {keep count : ℕ} {fs fs' : FileSystem} {archive : Path}
    {f : File} (h : Backup.prune disk paths scan keep fs = (.ok count, fs'))
    (harchive : Backup.IsArchivePath paths archive) (hfile : fs.file archive = some f) :
    ((scan.present = false ∨ scan.dropped archive.name = true ∨
        disk.fault (.remove archive) ≠ none ∨
        above (Backup.archiveNames paths scan fs) archive.name < keep) ∧
      fs'.file archive = some f) ∨
    (¬ (scan.present = false ∨ scan.dropped archive.name = true ∨
        disk.fault (.remove archive) ≠ none ∨
        above (Backup.archiveNames paths scan fs) archive.name < keep) ∧
      fs'.file archive = none) := by
  have hholds := FileSystem.holds_iff.mpr ⟨f, hfile⟩
  rcases Backup.prune_eq_ok h with ⟨hpresent, rfl⟩ | ⟨hpresent, hfiles⟩
  · exact .inl ⟨.inl hpresent, hfile⟩
  · have hstands := hfiles archive
    have hdrop := mem_drop_newestFirst_iff scan keep harchive hholds
    split at hstands
    · rename_i hpruned
      rw [hdrop, Backup.Removes, and_iff_right hholds] at hpruned
      obtain ⟨⟨hlisted, hle⟩, hfault⟩ := hpruned
      exact .inr ⟨by simp [hpresent, hlisted, hfault, hle], hstands⟩
    · rename_i hkept
      rw [hdrop, Backup.Removes, and_iff_right hholds] at hkept
      refine .inl ⟨?_, hstands.trans hfile⟩
      by_contra hnone
      simp only [not_or, Bool.not_eq_true, ne_eq, not_not, Nat.not_lt] at hnone
      exact hkept ⟨⟨hnone.2.1, hnone.2.2.2⟩, hnone.2.2.1⟩

/-- Pruning looks at the directory of the archives only. -/
theorem db_of_prune {disk : Disk} {keep count : ℕ} {fs fs' : FileSystem}
    (h : Backup.prune disk paths scan keep fs = (.ok count, fs')) :
    fs'.file paths.db = fs.file paths.db := by
  rcases Backup.prune_eq_ok h with ⟨_, rfl⟩ | ⟨_, hfiles⟩
  · rfl
  · rw [hfiles]
    refine if_neg fun hboth => ?_
    obtain ⟨_, _, hsame⟩ := List.mem_map.mp hboth.1
    exact backups_ne_root paths (congrArg Path.dir hsame)

/-! ## What a successful run has done -/

theorem cmdBackup_eq_ok_iff (fs fs' : FileSystem) (report : BackupReport) :
    cmdBackup env paths run scan fs = (.ok report, fs') ↔
      ∃ config s d opened mid, loadConfig env paths run fs = .ok config ∧
        openLockedOnly env paths run fs = (.ok (s, d), opened) ∧
        (run.backup s.outerKek).run env.primitives env.sqlite paths opened =
          (.ok report.archive, mid) ∧
        Backup.prune run.disk paths scan config.backupRetention mid = (.ok report.pruned, fs') ∧
        report.keeping = config.backupRetention := by
  simp only [cmdBackup, Stateful.bind_eq_ok_iff, Stateful.read_eq_ok_iff, Stateful.lift_eq_ok_iff,
    Stateful.mapError_eq_ok_iff, Fallible.mapError_eq_ok_iff]
  constructor
  · rintro ⟨_, _, ⟨hfs, hmid⟩, config, _, ⟨hconfig, hloaded⟩, ⟨s, d⟩, opened, hopen, archive, mid,
      hcreate, pruned, _, hprune, hreturn⟩
    rw [hfs] at hconfig
    rw [hloaded, hmid] at hopen
    cases hreturn
    exact ⟨config, s, d, opened, mid, hconfig, hopen, hcreate, hprune, rfl⟩
  · rintro ⟨config, s, d, opened, mid, hconfig, hopen, hcreate, hprune, hkeeping⟩
    refine ⟨_, _, ⟨rfl, rfl⟩, config, _, ⟨hconfig, rfl⟩, (s, d), opened, hopen, _, mid, hcreate, _,
      _, hprune, ?_⟩
    rw [← hkeeping]
    rfl

/-- Until it prunes, the command touches no archive but its own. -/
theorem file_of_opened_created {fs opened mid : FileSystem} {s : Session} {d : Database}
    {archive : Path} (hopen : openLockedOnly env paths run fs = (.ok (s, d), opened))
    (hcreate : (run.backup s.outerKek).run env.primitives env.sqlite paths opened =
      (.ok archive, mid))
    {p : Path} (hp : Backup.IsArchivePath paths p)
    (hne : p ≠ Backup.archivePath paths run.unixTime) : mid.file p = fs.file p := by
  have hopened : (openLockedOnly env paths run fs).2.file p = fs.file p :=
    openLockedOnly_keeps hp.beside fs rfl
  have hcreated := Backup.create_keeps env.primitives env.sqlite (run.backup s.outerKek) hp hne
    opened rfl
  rw [hopen] at hopened
  rw [hcreate] at hcreated
  exact hcreated.trans hopened

/-- **A reported backup exists** exactly when the pruning that follows does not get at it. -/
theorem reported_backup_exists_iff (env : Platform) (hexact : env.primitives.aead.Exact)
    (paths : VaultPaths) (run : Invocation) (scan : DirScan) {fs fs' : FileSystem}
    {config : Config} {report : BackupReport} (hconfig : loadConfig env paths run fs = .ok config)
    (h : cmdBackup env paths run scan fs = (.ok report, fs')) :
    HoldsDatabase env paths fs fs' report.archive ↔ SurvivesPruning paths run scan config fs := by
  obtain ⟨_, s, d, opened, mid, hloaded, hopen, hcreate, hprune, _⟩ :=
    (cmdBackup_eq_ok_iff ..).mp h
  obtain rfl := Except.ok.inj (hconfig.symm.trans hloaded)
  obtain ⟨hnamed, image, f, hdb, hfile, harchived⟩ := Backup.archived_of_create hcreate
  have harchive : report.archive = Backup.archivePath paths run.unixTime := hnamed
  have hpath : Backup.IsArchivePath paths report.archive :=
    harchive ▸ Backup.isArchivePath_archivePath paths run.unixTime
  have habove := above_archiveNames scan fun p hp hne =>
    file_of_opened_created hopen hcreate hp hne
  have hstands := file_of_prune_cases hprune hpath hfile
  rw [harchive, habove, ← harchive] at hstands
  rcases hstands with ⟨hsurvives, hkept⟩ | ⟨hpruned, hgone⟩
  · rw [harchive] at hsurvives
    refine iff_of_true ?_ hsurvives
    obtain ⟨_, _, _, _, _, _, _, _, _, _, _, hsealed, _, rfl⟩ :=
      (openLockedOnly_eq_ok_iff ..).mp hopen
    exact ⟨_, image, hsealed, db_of_prune hprune ▸ hdb,
      (Backup.restore_eq_ok_iff hexact ..).mpr ⟨rfl, f, hkept, harchived⟩⟩
  · rw [harchive] at hpruned
    refine iff_of_false ?_ hpruned
    rintro ⟨outerKek, _, _, _, hrestore⟩
    obtain ⟨_, _, hfound, _⟩ := (Backup.restore_eq_ok_iff hexact ..).mp hrestore
    rw [hgone] at hfound
    cases hfound

/-! ### A vault and its only archive -/

/-- A platform on which the configuration file reads as this. -/
def Platform.withConfig (config : Config) : Platform :=
  { Platform.reference with json := ⟨fun _ => .ok config, fun _ => .ok []⟩ }

/-- A directory with a vault, a configuration, and no archive. -/
def vaultAlone (paths : VaultPaths) (main publicFile privateFile : File) : FileSystem :=
  (((FileSystem.empty.put paths.db main).put paths.tpmSealedPub publicFile).put
    paths.tpmSealedPriv privateFile).put paths.config ⟨[], 0o600⟩

theorem exists_prune_reliable (paths : VaultPaths) (keep : ℕ) (fs : FileSystem) :
    ∃ count fs', Backup.prune .reliable paths .plain keep fs = (.ok count, fs') := by
  have hlist : Backup.list paths .plain fs =
      .ok ((Backup.newestFirst paths .plain fs).map (Path.mk paths.backups)) :=
    (Backup.list_eq_ok_iff _).mpr (.inr ⟨rfl, rfl, rfl⟩)
  have hnodup : (((Backup.newestFirst paths .plain fs).map (Path.mk paths.backups)).drop
      keep).Nodup :=
    (List.Nodup.map (Backup.map_mk_injective _) ((Backup.newestFirst_perm ..).nodup_iff.mpr
      (Backup.nodup_archiveNames ..))).sublist (List.drop_sublist _ _)
  obtain ⟨fs', hremove, _⟩ := Backup.removeAll_spec .reliable hnodup fs
  have hprune : Backup.prune .reliable paths .plain keep fs = Backup.removeAll .reliable
      (((Backup.newestFirst paths .plain fs).map (Path.mk paths.backups)).drop keep) fs := by
    simp only [Backup.prune, Stateful.bind_apply, Stateful.read_apply, Stateful.lift_apply, hlist]
  exact ⟨_, fs', hprune.trans hremove⟩

/-- The command succeeds there, whatever the configuration. -/
theorem exists_cmdBackup (config : Config) : ∃ fs fs' report,
    loadConfig (.withConfig config) .reference (.working (.token [1] [1]) "") fs =
      .ok config.clamped ∧
    Backup.archiveNames .reference .plain fs = [] ∧
    cmdBackup (.withConfig config) .reference (.working (.token [1] [1]) "") .plain fs =
      (.ok report, fs') := by
  obtain ⟨full, keys, outerKek, _, _, hholds⟩ := exists_holdsVault_working .reference [1] [1]
  obtain ⟨d₀, table, hread₀, hrest⟩ := hholds.liveVaultOpens
  obtain ⟨main, hmain⟩ := FileSystem.holds_iff.mp (holds_db_of_readDatabase hread₀)
  obtain ⟨publicFile, privateFile, _, _, hload⟩ := hholds.sealed
  let fs := vaultAlone .reference main publicFile privateFile
  have hread₁ : readDatabase .reference .reference fs = .ok d₀ := by
    rw [← hread₀]
    simp only [readDatabase, hmain]
    rfl
  have hsealed : TpmOuterProvider.Holds .reference .reference fs outerKek :=
    ⟨publicFile, privateFile, rfl, rfl, hload⟩
  have hrun := Invocation.undisturbed_working (.token [1] [1]) ""
  obtain ⟨d, d', v, hread, hmigrate, hv, hsalt⟩ :=
    (liveVaultOpens_iff hrun.sql fs).mp ⟨d₀, table, hread₁, hrest⟩
  have hconfig : loadConfig (.withConfig config) .reference (.working (.token [1] [1]) "") fs =
      .ok config.clamped := rfl
  have hopen : openLockedOnly (.withConfig config) .reference (.working (.token [1] [1]) "") fs =
      (.ok (⟨v, outerKek, none, none, config.clamped.unlockTimeout⟩, d'),
        opened .reference .reference d' fs) := (openLockedOnly_eq_ok_iff ..).mpr
    ⟨hrun.canOpenLocked, holds_db_of_readDatabase hread, _, d, v, outerKek, hconfig, hread,
      hmigrate, hv, hsalt, hsealed, rfl, rfl⟩
  obtain ⟨_, _, mid, hcreate, _⟩ := exists_create_reference
    (readDatabase_opened SqliteFormat.reference_lawful d' fs) outerKek (Block.replicate 24 11) 0
  obtain ⟨count, fs', hprune⟩ := exists_prune_reliable .reference config.clamped.backupRetention mid
  exact ⟨fs, fs', ⟨_, count, _⟩, hconfig, rfl, (cmdBackup_eq_ok_iff ..).mpr
    ⟨_, _, d', _, mid, hconfig, hopen, hcreate, hprune, rfl⟩⟩

/-- Where ten are kept, the only archive is there. -/
theorem an_only_backup_is_kept : ∃ fs fs' report,
    cmdBackup (.withConfig .default) .reference (.working (.token [1] [1]) "") .plain fs =
      (.ok report, fs') ∧
    HoldsDatabase (.withConfig .default) .reference fs fs' report.archive := by
  obtain ⟨fs, fs', report, hconfig, hnames, h⟩ := exists_cmdBackup .default
  refine ⟨fs, fs', report, h, ?_⟩
  refine (reported_backup_exists_iff (.withConfig .default) Primitives.reference_lawful.exact
    .reference _ _ hconfig h).mpr (.inr (.inr (.inr ?_)))
  rw [hnames]
  decide

/-- Where none are kept, the archive that is reported has been removed. -/
theorem a_reported_backup_is_gone : ∃ fs fs' report,
    loadConfig (.withConfig { Config.default with backupRetention := 0 }) .reference
      (.working (.token [1] [1]) "") fs = .ok { Config.default with backupRetention := 0 } ∧
    cmdBackup (.withConfig { Config.default with backupRetention := 0 }) .reference
      (.working (.token [1] [1]) "") .plain fs = (.ok report, fs') ∧
    fs'.file report.archive = none := by
  obtain ⟨fs, fs', report, hconfig, _, h⟩ :=
    exists_cmdBackup { Config.default with backupRetention := 0 }
  refine ⟨fs, fs', report, hconfig, h, ?_⟩
  obtain ⟨_, _, _, _, mid, hloaded, _, hcreate, hprune, _⟩ := (cmdBackup_eq_ok_iff ..).mp h
  obtain rfl := Except.ok.inj (hconfig.symm.trans hloaded)
  obtain ⟨harchive, _, f, _, hfile, _⟩ := Backup.archived_of_create hcreate
  have hpath : Backup.IsArchivePath .reference report.archive :=
    harchive ▸ Backup.isArchivePath_archivePath _ _
  rcases file_of_prune_cases hprune hpath hfile with ⟨hsurvives, _⟩ | ⟨_, hgone⟩
  · rcases hsurvives with hpresent | hdropped | hfault | hfew
    · cases hpresent
    · cases hdropped
    · exact absurd rfl hfault
    · exact absurd hfew (Nat.not_lt_zero _)
  · exact hgone

end Sypherstore
