/-
# The vault with its archives

A backup keeps the map as it is, under the second it was made in. A restore puts back a map that
was kept, and keeps the one that it replaces. Over every run of commands, with whatever is refused
to them, the files stand for one live map and for the maps that were kept.
-/

import Sypherstore.App.BackupCommand
import Sypherstore.App.CliRuns
import Sypherstore.App.Moving

namespace Sypherstore

open Logic

/-! ## The shelf -/

/-- The live map, and for each name the map that was last kept under it. -/
structure Shelf where
  live : Contents
  archived : Path → Option Contents

namespace Shelf

def empty : Shelf := ⟨.empty, fun _ => none⟩

/-- Keep the live map under this name. -/
def keep (shelf : Shelf) (p : Path) : Shelf :=
  { shelf with archived := Function.update shelf.archived p (some shelf.live) }

@[simp] theorem archived_keep_self (shelf : Shelf) (p : Path) :
    (shelf.keep p).archived p = some shelf.live := Function.update_self ..

theorem archived_keep_of_ne (shelf : Shelf) {p q : Path} (h : q ≠ p) :
    (shelf.keep p).archived q = shelf.archived q := Function.update_of_ne h ..

end Shelf

/-- A command that has run, with what it ended with. -/
inductive VaultEvent where
  | cli (e : CliEvent)
  | backup (unixTime : ℕ) (r : Fallible BackupCommandError BackupReport)
  | restore (archive : Path) (unixTime : ℕ) (r : Fallible CommandError RestoreReport)

/-- The commands on the files. -/
inductive VaultStep (env : Platform) (paths : VaultPaths) (S : Searcher) :
    FileSystem → VaultEvent → FileSystem → Prop
  | cli {fs fs' : FileSystem} {e : CliEvent} (h : CliStep env paths S fs e fs') :
      VaultStep env paths S fs (.cli e) fs'
  | backup {fs fs' : FileSystem} {run : Invocation} {scan : DirScan}
      {r : Fallible BackupCommandError BackupReport}
      (h : cmdBackup env paths run scan fs = (r, fs')) :
      VaultStep env paths S fs (.backup run.unixTime r) fs'
  | restore {fs fs' : FileSystem} {run : Invocation} {archive : Path}
      {r : Fallible CommandError RestoreReport}
      (h : cmdRestoreApply env paths run archive fs = (r, fs')) :
      VaultStep env paths S fs (.restore archive run.unixTime r) fs'

/-- The commands on the shelf. One that fails changes nothing, but that a backup that fails in
pruning, or a restore that fails in writing the database, has kept the map. -/
inductive ShelfStep (P : Primitives) (paths : VaultPaths) (S : Searcher) :
    Shelf → VaultEvent → Shelf → Prop
  | cli {shelf : Shelf} {e : CliEvent} {c : Contents} (h : MapStep P S shelf.live e c) :
      ShelfStep P paths S shelf (.cli e) { shelf with live := c }
  | backedUp {shelf : Shelf} {t : ℕ} {report : BackupReport}
      (h : report.archive = Backup.archivePath paths t) :
      ShelfStep P paths S shelf (.backup t (.ok report)) (shelf.keep report.archive)
  | notBackedUp {shelf : Shelf} {t : ℕ} {e : Fault BackupCommandError} :
      ShelfStep P paths S shelf (.backup t (.error e)) shelf
  | notPruned {shelf : Shelf} {t : ℕ} {e : Fault BackupError} :
      ShelfStep P paths S shelf (.backup t (Fallible.mapError .pruning (.error e)))
        (shelf.keep (Backup.archivePath paths t))
  | restored {shelf : Shelf} {archive : Path} {t : ℕ} {c : Contents}
      (hkept : shelf.archived archive = some c) :
      ShelfStep P paths S shelf (.restore archive t (.ok (.restored (Backup.archivePath paths t))))
        { shelf.keep (Backup.archivePath paths t) with live := c }
  | cancelled {shelf : Shelf} {archive : Path} {t : ℕ} :
      ShelfStep P paths S shelf (.restore archive t (.ok .cancelled)) shelf
  | notRestored {shelf : Shelf} {archive : Path} {t : ℕ} {e : Fault CommandError} :
      ShelfStep P paths S shelf (.restore archive t (.error e)) shelf
  | notReplaced {shelf : Shelf} {archive : Path} {t : ℕ} {e : Fault PathError} :
      ShelfStep P paths S shelf
        (.restore archive t (Fallible.mapError .writingDatabase (.error e)))
        (shelf.keep (Backup.archivePath paths t))

/-- The archive that a command has reported. -/
def VaultEvent.reported : VaultEvent → Option Path
  | .backup _ (.ok report) => some report.archive
  | .restore _ _ (.ok (.restored safety)) => some safety
  | _ => none

/-- What is restored was reported before. -/
def OwnRestores (events : List VaultEvent) : Prop :=
  ∀ before archive t r after, events = before ++ .restore archive t r :: after →
    archive ∈ before.filterMap VaultEvent.reported

/-! ## The files stand for a shelf -/

section Holds

variable {env : Platform} {paths : VaultPaths} {run : Invocation} {S : Searcher}
  {R : KeyRing → Prop} {innerKek outerKek : Key} {c : Contents} {shelf : Shelf}
  {fs fs' : FileSystem} {p : Path}

/-- The archive, if it is still there, is of a database with this map. -/
def ArchivesMap (env : Platform) (R : KeyRing → Prop) (innerKek outerKek : Key) (fs : FileSystem)
    (p : Path) (c : Contents) : Prop :=
  ∀ f, fs.file p = some f → ∃ image d v,
    Backup.Archived env.primitives outerKek image f.contents ∧
    env.sqlite.load image none = .ok d ∧ d.Stores v ∧
    Refines env.primitives R innerKek outerKek (.closed v) c

/-- The files stand for the shelf. Between two commands there is no log. -/
structure HoldsShelf (env : Platform) (paths : VaultPaths) (R : KeyRing → Prop)
    (innerKek outerKek : Key) (fs : FileSystem) (shelf : Shelf) : Prop where
  live : HoldsMap env paths R innerKek outerKek fs shelf.live
  log : fs.file (paths.dbSidecar "-wal") = none
  archived : ∀ p c, shelf.archived p = some c →
    Backup.IsArchivePath paths p ∧ ArchivesMap env R innerKek outerKek fs p c

/-- Archives may go. -/
theorem ArchivesMap.congr (h : ArchivesMap env R innerKek outerKek fs p c)
    (hfile : fs'.file p = fs.file p ∨ fs'.file p = none) :
    ArchivesMap env R innerKek outerKek fs' p c := by
  intro f hf
  rcases hfile with hsame | hgone
  · exact h f (hsame.symm.trans hf)
  · rw [hgone] at hf
    cases hf

theorem HoldsShelf.congr (h : HoldsShelf env paths R innerKek outerKek fs shelf)
    (hdb : fs'.file paths.db = fs.file paths.db) (hlog : fs'.file (paths.dbSidecar "-wal") = none)
    (hpublic : fs'.file paths.tpmSealedPub = fs.file paths.tpmSealedPub)
    (hprivate : fs'.file paths.tpmSealedPriv = fs.file paths.tpmSealedPriv)
    (harchives : ∀ q, Backup.IsArchivePath paths q →
      fs'.file q = fs.file q ∨ fs'.file q = none) :
    HoldsShelf env paths R innerKek outerKek fs' shelf where
  live := by
    obtain ⟨v, hholds, hrefines⟩ := h.live
    exact ⟨v, hholds.congr hdb (hlog.trans h.log.symm) hpublic hprivate, hrefines⟩
  log := hlog
  archived q c hkept :=
    have ⟨hpath, harchives'⟩ := h.archived q c hkept
    ⟨hpath, harchives'.congr (harchives q hpath)⟩

/-- Whatever is none of the vault's own files may be removed. -/
theorem HoldsShelf.remove (h : HoldsShelf env paths R innerKek outerKek fs shelf)
    (hdb : paths.db ≠ p) (hpublic : paths.tpmSealedPub ≠ p) (hprivate : paths.tpmSealedPriv ≠ p) :
    HoldsShelf env paths R innerKek outerKek (fs.remove p) shelf := by
  have hremoved : ∀ q, (fs.remove p).file q = fs.file q ∨ (fs.remove p).file q = none := by
    intro q
    by_cases hq : q = p
    · exact .inr (hq ▸ FileSystem.file_remove_self)
    · exact .inl (FileSystem.file_remove_of_ne hq)
  refine h.congr (FileSystem.file_remove_of_ne hdb) ?_ (FileSystem.file_remove_of_ne hpublic)
    (FileSystem.file_remove_of_ne hprivate) fun q _ => hremoved q
  rcases hremoved (paths.dbSidecar "-wal") with hsame | hgone
  · exact hsame.trans h.log
  · exact hgone

/-! ## Opening -/

theorem openVault_keeps_log (disk : Disk) (sql : Sql) :
    Stateful.Keeps (fun fs : FileSystem => fs.file (paths.dbSidecar "-wal") = none)
      (openVault env.sqlite paths disk sql) := by
  have hne : paths.dbSidecar "-wal" ≠ paths.db := (db_paths_ne paths).1.symm
  refine Stateful.Keeps.bind (.mapError (paths.ensureDirs_keeps disk _) _) fun _ => ?_
  refine Stateful.Keeps.bind (.lift _) fun _ => ?_
  refine Stateful.Keeps.bind (.modify fun fs hfs => ?_) fun _ => ?_
  · unfold createDb
    split
    · exact hfs
    · rw [FileSystem.file_store_of_ne _ _ hne, hfs]
  refine Stateful.Keeps.bind .read fun _ => ?_
  refine Stateful.Keeps.bind (.lift _) fun _ => ?_
  refine Stateful.Keeps.bind (.lift _) fun _ => ?_
  refine Stateful.Keeps.bind (fun fs _ => (file_writeDatabase env.sqlite paths _ fs).2) fun _ => ?_
  refine Stateful.Keeps.bind (.mapError (setOwnerOnly_keeps disk hne) _) fun _ => ?_
  exact .pure _

theorem openLockedOnly_keeps_log :
    Stateful.Keeps (fun fs : FileSystem => fs.file (paths.dbSidecar "-wal") = none)
      (openLockedOnly env paths run) := by
  refine Stateful.Keeps.bind .read fun _ => ?_
  split
  · exact .raise _
  refine Stateful.Keeps.bind (.lift _) fun _ => ?_
  refine Stateful.Keeps.bind (.mapError (openVault_keeps_log _ _) _) fun _ => ?_
  refine Stateful.Keeps.bind .read fun _ => ?_
  refine Stateful.Keeps.bind (.lift _) fun _ => ?_
  refine Stateful.Keeps.bind (.lift _) fun _ => ?_
  exact .pure _

/-- Opening without a touch leaves the shelf as it is, also when it fails. -/
theorem HoldsShelf.tracks_opened (hsqlite : env.sqlite.Lawful) (run : Invocation) :
    Stateful.Tracks (HoldsShelf env paths R innerKek outerKek) shelf
      (openLockedOnly env paths run) fun r shelf' => (∀ e, r = .error e → shelf' = shelf) ∧
        ∀ opened, r = .ok opened → shelf' = shelf ∧ opened.1.outerKek = outerKek := by
  intro fs h
  obtain ⟨c, hlive, hfailed, hopened⟩ := tracks_openLockedOnly hsqlite run fs h.live
  have hsame : c = shelf.live := by
    cases houtcome : (openLockedOnly env paths run fs).1 with
    | error e => exact hfailed e houtcome
    | ok opened => exact (hopened opened houtcome).1
  subst hsame
  refine ⟨shelf, ⟨hlive, openLockedOnly_keeps_log fs h.log, fun q c hkept => ?_⟩, fun _ _ => rfl,
    fun opened hok => ⟨rfl, (hopened opened hok).2.2.outer _ rfl⟩⟩
  obtain ⟨hpath, harchives⟩ := h.archived q c hkept
  exact ⟨hpath, harchives.congr (.inl (openLockedOnly_keeps hpath.beside fs rfl))⟩

/-- A command on the map touches no archive. -/
theorem file_of_cliStep {e : CliEvent} (hstep : CliStep env paths S fs e fs')
    (hp : Backup.IsArchivePath paths p) : fs'.file p = fs.file p := by
  have hkeeps : Stateful.Keeps (fun now : FileSystem => now.file p = fs.file p)
      (e.1.command.execute env paths S e.1.invocation e.1.touch) :=
    .bind (.mapError (openLockedOnly_keeps hp.beside) _) fun _ now hnow =>
      (file_writeDatabase_of_beside hp.beside _ now).trans hnow
  have hend := hkeeps fs rfl
  rwa [show e.1.command.execute env paths S e.1.invocation e.1.touch fs = (e.2, fs') from hstep]
    at hend

/-- What a command does to the map leaves the archives alone. -/
theorem HoldsShelf.of_cli (hP : env.primitives.Lawful) (hsqlite : env.sqlite.Lawful)
    (hprotects : KeyRing.Protects env.primitives innerKek (fun _ => True) R) {e : CliEvent}
    (h : HoldsShelf env paths R innerKek outerKek fs shelf)
    (hstep : CliStep env paths S fs e fs') :
    ∃ c, MapStep env.primitives S shelf.live e c ∧
      HoldsShelf env paths R innerKek outerKek fs' { shelf with live := c } := by
  obtain ⟨c, hdoes, hlive⟩ := h.live.of_step hP hsqlite hprotects hstep
  have hlog : Stateful.Keeps (fun now : FileSystem => now.file (paths.dbSidecar "-wal") = none)
      (e.1.command.execute env paths S e.1.invocation e.1.touch) :=
    .bind (.mapError openLockedOnly_keeps_log _) fun _ _ _ => (file_writeDatabase ..).2
  have hnone := hlog fs h.log
  rw [show e.1.command.execute env paths S e.1.invocation e.1.touch fs = (e.2, fs') from hstep]
    at hnone
  refine ⟨c, hdoes, hlive, hnone, fun q c' hkept => ?_⟩
  obtain ⟨hpath, harchives⟩ := h.archived q c' hkept
  exact ⟨hpath, harchives.congr (.inl (file_of_cliStep hstep hpath))⟩

/-! ## Keeping a map -/

/-- The vault is there, and no log of it. -/
structure HoldsFolded (env : Platform) (paths : VaultPaths) (v : Vault) (outerKek : Key)
    (fs : FileSystem) : Prop where
  vault : HoldsVault env paths fs v outerKek
  log : fs.file (paths.dbSidecar "-wal") = none

variable {v : Vault}

theorem HoldsFolded.checkpoint (hsqlite : env.sqlite.Lawful)
    (h : HoldsFolded env paths v outerKek fs) (sql : Sql) :
    HoldsFolded env paths v outerKek (Backup.checkpoint env.sqlite paths sql fs) := by
  unfold Backup.checkpoint
  split
  · exact h
  · obtain ⟨d, hread, hstores⟩ := h.vault.database
    rw [hread]
    exact ⟨h.vault.written hsqlite hstores, (file_writeDatabase env.sqlite paths d fs).2⟩

/-- What is written in the directory of the archives is none of the vault's files. -/
theorem HoldsFolded.write_archive (disk : Disk) (t : ℕ) (contents : Bytes) :
    Stateful.Keeps (HoldsFolded env paths v outerKek)
      (writePrivateAtomic disk (Backup.archivePath paths t) contents) := by
  intro fs h
  have hkept : ∀ q : Path, q.dir = paths.root →
      ((writePrivateAtomic disk (Backup.archivePath paths t) contents fs).2).file q =
        fs.file q := by
    intro q hq
    have hdir : q.dir ≠ paths.backups := hq ▸ (backups_ne_root paths).symm
    exact Backup.writePrivateAtomic_keeps disk contents (Path.ne_of_dir_ne hdir)
      (Path.ne_of_dir_ne hdir) fs rfl
  exact ⟨h.vault.congr (hkept _ rfl) (hkept _ rfl) (hkept _ rfl) (hkept _ rfl),
    (hkept _ rfl).trans h.log⟩

/-- A backup leaves the vault there, also when it fails. -/
theorem HoldsFolded.create (hsqlite : env.sqlite.Lawful) (call : Backup.CreateCall) :
    Stateful.Keeps (HoldsFolded env paths v outerKek)
      (call.run env.primitives env.sqlite paths) := by
  refine Stateful.Keeps.bind .read fun fs => ?_
  split
  · exact .raise _
  refine Stateful.Keeps.bind (.modify fun fs h => h.checkpoint hsqlite call.sql) fun _ => ?_
  refine Stateful.Keeps.bind .read fun _ => ?_
  refine Stateful.Keeps.bind (.lift _) fun _ => ?_
  refine Stateful.Keeps.bind (.lift _) fun _ => ?_
  refine Stateful.Keeps.bind (.lift _) fun _ => ?_
  refine Stateful.Keeps.bind (.mapError (fun fs h => ?_) _) fun _ => ?_
  · unfold Disk.attempt
    split <;> exact h
  exact Stateful.Keeps.bind (.mapError (HoldsFolded.write_archive _ _ _) _) fun _ => .pure _

/-- The main file is all of a vault that has no log. -/
theorem HoldsFolded.load {image : Bytes} (h : HoldsFolded env paths v outerKek fs)
    (himage : (fs.file paths.db).map File.contents = some image) :
    ∃ d, env.sqlite.load image none = .ok d ∧ d.Stores v := by
  obtain ⟨d, hread, hstores⟩ := h.vault.database
  obtain ⟨main, hmain, rfl⟩ := Option.map_eq_some_iff.mp himage
  simp only [readDatabase, hmain, h.log, Option.map_none] at hread
  refine ⟨d, ?_, hstores⟩
  cases hload : env.sqlite.load main.contents none with
  | ok found =>
      rw [hload] at hread
      exact congrArg Except.ok (Except.ok.inj hread)
  | error e =>
      rw [hload] at hread
      cases hread

theorem HoldsShelf.holdsFolded (h : HoldsShelf env paths R innerKek outerKek fs shelf) :
    ∃ v, HoldsFolded env paths v outerKek fs ∧
      Refines env.primitives R innerKek outerKek (.closed v) shelf.live := by
  obtain ⟨v, hholds, hrefines⟩ := h.live
  exact ⟨v, ⟨hholds, h.log⟩, hrefines⟩

/-- **What a backup does to the shelf**: it keeps the live map, or fails and keeps none. -/
theorem HoldsShelf.tracks_create (hsqlite : env.sqlite.Lawful) (run : Invocation) :
    Stateful.Tracks (HoldsShelf env paths R innerKek outerKek) shelf
      ((run.backup outerKek).run env.primitives env.sqlite paths) fun r shelf' =>
        (∀ e, r = .error e → shelf' = shelf) ∧ ∀ archive, r = .ok archive →
          archive = Backup.archivePath paths run.unixTime ∧ shelf' = shelf.keep archive := by
  intro fs h
  obtain ⟨v, hfolded, hrefines⟩ := h.holdsFolded
  have hend := HoldsFolded.create hsqlite (run.backup outerKek) fs hfolded
  rcases hrun : (run.backup outerKek).run env.primitives env.sqlite paths fs with ⟨e | archive, fs'⟩
  · rw [hrun] at hend
    refine ⟨shelf, ⟨⟨v, hend.vault, hrefines⟩, hend.log, fun q c hkept => ?_⟩, fun _ _ => rfl,
      nofun⟩
    obtain ⟨hpath, harchives⟩ := h.archived q c hkept
    exact ⟨hpath, harchives.congr (.inl
      (Backup.create_failsKeeping (run.backup outerKek) hpath fs e fs' rfl hrun))⟩
  · rw [hrun] at hend
    obtain ⟨rfl, image, file, himage, hfile, harchived⟩ := Backup.archived_of_create hrun
    obtain ⟨d, hload, hstores⟩ := hend.load himage
    refine ⟨shelf.keep (Backup.archivePath paths run.unixTime), ⟨⟨v, hend.vault, hrefines⟩,
      hend.log, fun q c hkept => ?_⟩, nofun, fun _ hok => ?_⟩
    · by_cases hq : q = Backup.archivePath paths run.unixTime
      · subst hq
        rw [Shelf.archived_keep_self] at hkept
        cases hkept
        refine ⟨Backup.isArchivePath_archivePath .., fun f hf => ?_⟩
        obtain rfl := Option.some.inj (hfile.symm.trans hf)
        exact ⟨image, d, v, harchived, hload, hstores, hrefines⟩
      · rw [Shelf.archived_keep_of_ne shelf hq] at hkept
        obtain ⟨hpath, harchives⟩ := h.archived q c hkept
        have hsame := Backup.create_keeps env.primitives env.sqlite (run.backup outerKek) hpath hq
          fs rfl
        rw [hrun] at hsame
        exact ⟨hpath, harchives.congr (.inl hsame)⟩
    · cases hok
      exact ⟨rfl, rfl⟩

/-- Pruning keeps what does not depend on the files of the directory. -/
theorem prune_keeps {I : FileSystem → Prop} (disk : Disk) (scan : DirScan) (keep : ℕ)
    (hremove : ∀ fs name, I fs → I (fs.remove ⟨paths.backups, name⟩)) :
    Stateful.Keeps I (Backup.prune disk paths scan keep) := by
  have hall : ∀ names : List String, Stateful.Keeps I
      (Backup.removeAll disk (names.map (Path.mk paths.backups))) := by
    intro names
    induction names with
    | nil => exact .pure 0
    | cons name rest ih =>
        refine Stateful.Keeps.bind (fun fs hfs => ?_) fun _ => ih.bind fun _ => .pure _
        unfold removeFile
        split
        · exact hremove fs name hfs
        · exact hfs
  intro fs hfs
  cases hlist : Backup.list paths scan fs with
  | error e =>
      simp only [Backup.prune, Stateful.bind_apply, Stateful.read_apply, Stateful.lift_apply, hlist]
      exact hfs
  | ok archives =>
      obtain ⟨names, rfl⟩ : ∃ names : List String,
          archives = names.map (Path.mk paths.backups) := by
        rcases (Backup.list_eq_ok_iff archives).mp hlist with ⟨_, rfl⟩ | ⟨_, _, rfl⟩
        · exact ⟨[], rfl⟩
        · exact ⟨_, rfl⟩
      simp only [Backup.prune, Stateful.bind_apply, Stateful.read_apply, Stateful.lift_apply, hlist,
        ← List.map_drop]
      exact hall _ fs hfs

/-- Archives that are pruned are gone, and nothing else is. -/
theorem HoldsShelf.prune (disk : Disk) (scan : DirScan) (keep : ℕ) :
    Stateful.Keeps (fun fs => HoldsShelf env paths R innerKek outerKek fs shelf)
      (Backup.prune disk paths scan keep) := by
  have hdir : paths.root ≠ paths.backups := (backups_ne_root paths).symm
  exact prune_keeps disk scan keep fun fs name h =>
    h.remove (Path.ne_of_dir_ne hdir) (Path.ne_of_dir_ne hdir) (Path.ne_of_dir_ne hdir)

/-- **The backup command on the shelf**, whatever it ends with. -/
theorem HoldsShelf.tracks_cmdBackup (hsqlite : env.sqlite.Lawful) (run : Invocation)
    (scan : DirScan) :
    Stateful.Tracks (HoldsShelf env paths R innerKek outerKek) shelf (cmdBackup env paths run scan)
      fun r shelf' => ShelfStep env.primitives paths S shelf (.backup run.unixTime r) shelf' := by
  refine Stateful.Tracks.keeps_bind .read (fun _ => .notBackedUp) fun fs => ?_
  refine Stateful.Tracks.lift_bind (fun _ _ => .notBackedUp) fun config _ => ?_
  refine Stateful.Tracks.mapError_bind (HoldsShelf.tracks_opened hsqlite run)
    (fun _ _ _ => .notBackedUp) ?_
  rintro ⟨s, d⟩ shelf ⟨rfl, rfl⟩
  refine Stateful.Tracks.mapError_bind (HoldsShelf.tracks_create hsqlite run)
    (fun _ _ _ => .notBackedUp) ?_
  rintro archive _ ⟨rfl, rfl⟩
  have hprune : Stateful.Tracks (HoldsShelf env paths R innerKek s.outerKek)
      (shelf.keep (Backup.archivePath paths run.unixTime))
      (Backup.prune run.disk paths scan config.backupRetention) fun r shelf' =>
        (∀ e, r = .error e → shelf' = shelf.keep (Backup.archivePath paths run.unixTime)) ∧
          ∀ n, r = .ok n → shelf' = shelf.keep (Backup.archivePath paths run.unixTime) :=
    fun fs h => ⟨_, HoldsShelf.prune run.disk scan config.backupRetention fs h, fun _ _ => rfl,
      fun _ _ => rfl⟩
  refine Stateful.Tracks.mapError_bind hprune ?_ ?_
  · intro e e' he
    cases e <;> cases he
    · exact .notPruned (e := .error _)
    · exact .notPruned (e := .panic)
  · rintro pruned _ rfl
    exact .pure (.backedUp rfl)

/-! ## Putting a map back -/

/-- The image of an archive is what restoring it gives. -/
theorem ArchivesMap.restored (hexact : env.primitives.aead.Exact)
    (h : ArchivesMap env R innerKek outerKek fs p c) {disk : Disk} {image : Bytes}
    (hrestore : Backup.restore env.primitives disk p outerKek fs = .ok image) :
    ∃ d v, env.sqlite.load image none = .ok d ∧ d.Stores v ∧
      Refines env.primitives R innerKek outerKek (.closed v) c := by
  obtain ⟨_, f, hf, harchived⟩ := (Backup.restore_eq_ok_iff hexact ..).mp hrestore
  obtain ⟨image', d, v, harchived', hload, hstores, hrefines⟩ := h f hf
  have hagain : Backup.restore env.primitives .reliable p outerKek fs = .ok image :=
    (Backup.restore_eq_ok_iff hexact ..).mpr ⟨rfl, f, hf, harchived⟩
  have hagain' : Backup.restore env.primitives .reliable p outerKek fs = .ok image' :=
    (Backup.restore_eq_ok_iff hexact ..).mpr ⟨rfl, f, hf, harchived'⟩
  obtain rfl := Except.ok.inj (hagain.symm.trans hagain')
  exact ⟨d, v, hload, hstores, hrefines⟩

/-- Whether or not the removal is refused. -/
theorem HoldsShelf.discard (h : HoldsShelf env paths R innerKek outerKek fs shelf) (disk : Disk)
    (hdb : paths.db ≠ p) (hpublic : paths.tpmSealedPub ≠ p) (hprivate : paths.tpmSealedPriv ≠ p) :
    HoldsShelf env paths R innerKek outerKek (disk.discard p fs) shelf := by
  unfold Disk.discard
  split
  · exact h
  · exact h.remove hdb hpublic hprivate

/-- **What replacing the main file does to the shelf**: the map of the image is live, or the
write has failed and nothing has changed. -/
theorem HoldsShelf.tracks_replace {image : Bytes} {d : Database} {v : Vault}
    (hload : env.sqlite.load image none = .ok d) (hstores : d.Stores v)
    (hrefines : Refines env.primitives R innerKek outerKek (.closed v) c) (disk : Disk) :
    Stateful.Tracks (HoldsShelf env paths R innerKek outerKek) shelf
      (writePrivateAtomic disk paths.db image) fun r shelf' =>
        (∀ e, r = .error e → shelf' = shelf) ∧
          ∀ u, r = .ok u → shelf' = { shelf with live := c } := by
  intro fs h
  have hlog : paths.dbSidecar "-wal" ≠ paths.db.withExtension "tmp" := Path.ne_of_name_ne (by simp)
  have hpublic : paths.tpmSealedPub ≠ paths.db.withExtension "tmp" := Path.ne_of_name_ne (by simp)
  have hprivate : paths.tpmSealedPriv ≠ paths.db.withExtension "tmp" := Path.ne_of_name_ne (by simp)
  rcases writePrivateAtomic_cases disk paths.db image fs with ⟨_, hrun⟩ | ⟨_, e, fs', hrun, hkept⟩
  · rw [hrun]
    obtain ⟨mode, hmain⟩ := FileSystem.replaced_self fs paths.db image
    have hother : ∀ q, q ≠ paths.db → q ≠ paths.db.withExtension "tmp" →
        (fs.replaced paths.db image).file q = fs.file q := fun q => fs.replaced_of_ne image
    have hnone := (hother _ (db_paths_ne paths).1.symm hlog).trans h.log
    obtain ⟨_, hholds, _⟩ := h.live
    refine ⟨{ shelf with live := c }, ⟨⟨v, ⟨⟨d, ?_, hstores⟩, ?_⟩, hrefines⟩, hnone,
      fun q c' hq => ?_⟩, fun e he => ?_, fun _ _ => rfl⟩
    · simp only [readDatabase, hmain, hnone, Option.map_none, hload]
    · exact hholds.sealed.congr (hother _ (beside_tpmSealedPub paths).db hpublic)
        (hother _ (beside_tpmSealedPriv paths).db hprivate)
    · obtain ⟨hpath, harchives⟩ := h.archived q c' hq
      exact ⟨hpath, harchives.congr (.inl (hother q hpath.beside.db (hpath.ne_tmp _)))⟩
    · cases he
  · rw [hrun]
    have hdb : paths.db ≠ paths.db.withExtension "tmp" := Path.ne_of_name_ne (by simp)
    refine ⟨shelf, h.congr (hkept _ hdb) ((hkept _ hlog).trans h.log) (hkept _ hpublic)
      (hkept _ hprivate) fun q hq => .inl (hkept q (hq.ne_tmp _)), fun _ _ => rfl, fun u hu => ?_⟩
    cases hu

/-- **The restore command on the shelf**, whatever it ends with. -/
theorem HoldsShelf.tracks_cmdRestoreApply (hexact : env.primitives.aead.Exact)
    (hsqlite : env.sqlite.Lawful) (run : Invocation) {archive : Path}
    (hkept : shelf.archived archive = some c) :
    Stateful.Tracks (HoldsShelf env paths R innerKek outerKek) shelf
      (cmdRestoreApply env paths run archive) fun r shelf' =>
        ShelfStep env.primitives paths S shelf (.restore archive run.unixTime r) shelf' := by
  refine Stateful.Tracks.bind (HoldsShelf.tracks_opened hsqlite run) ?_ ?_
  · rintro e _ ⟨hfailed, _⟩
    obtain rfl := hfailed e rfl
    exact .notRestored
  rintro ⟨s, d⟩ shelf ⟨_, hopened⟩
  obtain ⟨rfl, rfl⟩ := hopened _ rfl
  refine Stateful.Tracks.read_bind fun fs h => ?_
  refine Stateful.Tracks.lift_bind (fun _ _ => .notRestored) fun image himage => ?_
  obtain ⟨_, harchives⟩ := h.archived archive c hkept
  obtain ⟨d', v, hload, hstores, hrefines⟩ :=
    harchives.restored hexact ((Fallible.mapError_eq_ok_iff ..).mp himage)
  refine Stateful.Tracks.lift_bind (fun _ _ => .notRestored) fun goOn _ => ?_
  cases goOn with
  | false => exact .pure .cancelled
  | true =>
      refine Stateful.Tracks.mapError_bind (HoldsShelf.tracks_create hsqlite run)
        (fun _ _ _ => .notRestored) ?_
      rintro safety _ ⟨rfl, rfl⟩
      have hpublic := beside_tpmSealedPub paths
      have hprivate := beside_tpmSealedPriv paths
      refine Stateful.Tracks.modify_bind (fun _ h => h.discard run.disk (db_paths_ne paths).1
        hpublic.wal hprivate.wal) ?_
      refine Stateful.Tracks.modify_bind (fun _ h => h.discard run.disk (db_paths_ne paths).2.1
        hpublic.shm hprivate.shm) ?_
      refine Stateful.Tracks.mapError_bind
        (HoldsShelf.tracks_replace hload hstores hrefines run.disk) ?_ ?_
      · intro e e' he
        cases e <;> cases he
        · exact .notReplaced (e := .error _)
        · exact .notReplaced (e := .panic)
      · rintro _ _ rfl
        exact .pure (.restored hkept)

/-! ## Runs -/

/-- What is kept stays kept, and what is reported is kept. -/
theorem ShelfStep.isSome_archived {P : Primitives} {shelf shelf' : Shelf} {e : VaultEvent}
    (h : ShelfStep P paths S shelf e shelf')
    (hp : (shelf.archived p).isSome ∨ e.reported = some p) : (shelf'.archived p).isSome := by
  have hkeep : ∀ q, (shelf.archived p).isSome ∨ p = q → ((shelf.keep q).archived p).isSome := by
    intro q hq
    by_cases hname : p = q
    · rw [hname, Shelf.archived_keep_self]
      rfl
    · rw [Shelf.archived_keep_of_ne shelf hname]
      exact hq.resolve_right hname
  cases h with
  | cli | notBackedUp | cancelled | notRestored => exact hp.resolve_right nofun
  | backedUp => exact hkeep _ (hp.imp_right fun h => (Option.some.inj h).symm)
  | restored => exact hkeep _ (hp.imp_right fun h => (Option.some.inj h).symm)
  | @notPruned _ e => exact hkeep _ (.inl (hp.resolve_right (by cases e <;> nofun)))
  | @notReplaced _ _ e => exact hkeep _ (.inl (hp.resolve_right (by cases e <;> nofun)))

theorem ShelfStep.eq_keep {P : Primitives} {shelf shelf' : Shelf} {t : ℕ} {report : BackupReport}
    (h : ShelfStep P paths S shelf (.backup t (.ok report)) shelf') :
    shelf' = shelf.keep report.archive := by
  generalize hr : (Except.ok report : Fallible BackupCommandError BackupReport) = r at h
  cases h with
  | backedUp => cases hr; rfl
  | notBackedUp => cases hr
  | @notPruned _ e => cases e <;> cases hr

theorem ShelfStep.exists_kept {P : Primitives} {shelf shelf' : Shelf} {archive safety : Path}
    {t : ℕ} (h : ShelfStep P paths S shelf (.restore archive t (.ok (.restored safety))) shelf') :
    ∃ c, shelf.archived archive = some c ∧ shelf'.live = c := by
  generalize hr : (Except.ok (RestoreReport.restored safety) : Fallible CommandError _) = r at h
  cases h with
  | restored hkept => exact ⟨_, hkept, rfl⟩
  | cancelled => cases hr
  | notRestored => cases hr
  | @notReplaced _ _ e => cases e <;> cases hr

/-- **Step lemma.** A command does to the shelf what it says, provided that what it restores is
on the shelf. -/
theorem HoldsShelf.of_step (hP : env.primitives.Lawful) (hsqlite : env.sqlite.Lawful)
    (hprotects : KeyRing.Protects env.primitives innerKek (fun _ => True) R) {e : VaultEvent}
    (h : HoldsShelf env paths R innerKek outerKek fs shelf) (hstep : VaultStep env paths S fs e fs')
    (hown : ∀ archive t r, e = .restore archive t r → (shelf.archived archive).isSome) :
    ∃ shelf', ShelfStep env.primitives paths S shelf e shelf' ∧
      HoldsShelf env paths R innerKek outerKek fs' shelf' := by
  cases hstep with
  | cli hstep =>
      obtain ⟨c, hmap, hend⟩ := h.of_cli hP hsqlite hprotects hstep
      exact ⟨_, .cli hmap, hend⟩
  | backup hstep =>
      obtain ⟨shelf', hend, hdoes⟩ := HoldsShelf.tracks_cmdBackup (S := S) hsqlite _ _ fs h
      rw [hstep] at hend hdoes
      exact ⟨shelf', hdoes, hend⟩
  | restore hstep =>
      obtain ⟨c, hkept⟩ := Option.isSome_iff_exists.mp (hown _ _ _ rfl)
      obtain ⟨shelf', hend, hdoes⟩ :=
        HoldsShelf.tracks_cmdRestoreApply (S := S) hP.exact hsqlite _ hkept fs h
      rw [hstep] at hend hdoes
      exact ⟨shelf', hdoes, hend⟩

theorem OwnRestores.of_append {events : List VaultEvent} {e : VaultEvent}
    (h : OwnRestores (events ++ [e])) : OwnRestores events := by
  rintro before archive t r after rfl
  exact h before archive t r (after ++ [e]) (by simp)

theorem OwnRestores.concat {events : List VaultEvent} {e : VaultEvent} (h : OwnRestores events)
    (he : ∀ archive t r, e = .restore archive t r →
      archive ∈ events.filterMap VaultEvent.reported) : OwnRestores (events ++ [e]) := by
  intro before archive t r after heq
  rcases List.eq_nil_or_concat after with rfl | ⟨rest, last, rfl⟩
  · obtain ⟨rfl, hlast⟩ := List.append_inj' heq rfl
    exact he archive t r (List.singleton_inj.mp hlast)
  · have hsplit : events ++ [e] = (before ++ .restore archive t r :: rest) ++ [last] := by
      simpa using heq
    exact h _ _ _ _ rest (List.append_inj' hsplit rfl).1

/-- A run on the files is a run on the shelf that they stand for. -/
theorem HoldsShelf.of_run (hP : env.primitives.Lawful) (hsqlite : env.sqlite.Lawful)
    (hprotects : KeyRing.Protects env.primitives innerKek (fun _ => True) R)
    {events : List VaultEvent} (hrun : Run (VaultStep env paths S) fs events fs')
    (h : HoldsShelf env paths R innerKek outerKek fs shelf) (hown : OwnRestores events) :
    ∃ shelf', Run (ShelfStep env.primitives paths S) shelf events shelf' ∧
      HoldsShelf env paths R innerKek outerKek fs' shelf' := by
  suffices hall : OwnRestores events → ∃ shelf',
      Run (ShelfStep env.primitives paths S) shelf events shelf' ∧
      HoldsShelf env paths R innerKek outerKek fs' shelf' ∧
      ∀ p ∈ events.filterMap VaultEvent.reported, (shelf'.archived p).isSome by
    obtain ⟨shelf', hmap, hend, _⟩ := hall hown
    exact ⟨shelf', hmap, hend⟩
  refine hrun.history (R := fun past now => OwnRestores past → ∃ shelf',
      Run (ShelfStep env.primitives paths S) shelf past shelf' ∧
      HoldsShelf env paths R innerKek outerKek now shelf' ∧
      ∀ p ∈ past.filterMap VaultEvent.reported, (shelf'.archived p).isSome) ?_ ?_
  · intro past now e next hpast hstep hown
    obtain ⟨mid, hmap, hnow, hreported⟩ := hpast hown.of_append
    obtain ⟨shelf', hdoes, hend⟩ := hnow.of_step hP hsqlite hprotects hstep fun archive t r he =>
      hreported archive (hown past archive t r [] (by rw [he]))
    refine ⟨shelf', hmap.append (.single hdoes), hend, fun p hp => hdoes.isSome_archived ?_⟩
    rw [List.filterMap_append, List.mem_append] at hp
    rcases hp with hbefore | hlast
    · exact .inl (hreported p hbefore)
    · obtain ⟨e', he', hsome⟩ := List.mem_filterMap.mp hlast
      obtain rfl := List.mem_singleton.mp he'
      exact .inr hsome
  · exact fun _ => ⟨shelf, .nil shelf, h, nofun⟩

/-- `init` leaves no log. -/
theorem log_of_cmdInit {u : Unit} (hinit : cmdInit env paths run fs = (.ok u, fs')) :
    fs'.file (paths.dbSidecar "-wal") = none := by
  obtain ⟨_, config, d, opened, s, created, _, _, hcreate, hsave⟩ := (cmdInit_eq_ok_iff ..).mp hinit
  obtain ⟨_, _, _, _, _, hcreated⟩ := (initializeOn_eq_ok_iff ..).mp hcreate
  have hlog : created.file (paths.dbSidecar "-wal") = none := by
    rw [hcreated]
    exact (file_writeDatabase ..).2
  have hkeeps : Stateful.Keeps (fun fs : FileSystem => fs.file (paths.dbSidecar "-wal") = none)
      (config.save env.json run.disk paths.config) :=
    .bind (.lift _) fun json => .mapError (Backup.writePrivateAtomic_keeps run.disk json
      (Path.ne_of_name_ne (by simp)) (Path.ne_of_name_ne (by simp))) _
  have hend := hkeeps created hlog
  rwa [hsave] at hend

/-- `init` makes no archive. -/
theorem archive_of_cmdInit {u : Unit} (hinit : cmdInit env paths run fs = (.ok u, fs'))
    (hp : Backup.IsArchivePath paths p) : fs'.file p = fs.file p := by
  have hroot : ∀ q : Path, q.dir = paths.root → p ≠ q := fun q hq =>
    Path.ne_of_dir_ne (hp.1 ▸ hq ▸ backups_ne_root paths)
  obtain ⟨_, config, d, opened, s, created, _, hopen, hcreate, hsave⟩ :=
    (cmdInit_eq_ok_iff ..).mp hinit
  have hopened : opened.file p = fs.file p := by
    have hkeeps : Stateful.Keeps (fun now : FileSystem => now.file p = fs.file p)
        (openVault env.sqlite paths run.disk run.call.sql) := openVault_keeps _ _ hp.beside
    have hend := hkeeps fs rfl
    rwa [hopen] at hend
  have hcreated : created.file p = opened.file p := by
    obtain ⟨_, _, _, _, hinitialize, rfl⟩ := (initializeOn_eq_ok_iff ..).mp hcreate
    obtain ⟨_, _, _, _, hprovision, _, rfl, rfl⟩ :=
      (Session.initializeVault_eq_ok_iff ..).mp hinitialize
    obtain ⟨_, _, _, _, _, rfl⟩ := (TpmOuterProvider.provision_eq_ok_iff ..).mp hprovision
    rw [file_writeDatabase_of_beside hp.beside, TpmOuterProvider.file_resealed _ _ _
      (hroot _ rfl) (hroot _ rfl) (hp.ne_tmp _)]
  have hsaved : fs'.file p = created.file p := by
    have hkeeps : Stateful.Keeps (fun now : FileSystem => now.file p = created.file p)
        (config.save env.json run.disk paths.config) :=
      .bind (.lift _) fun json => .mapError (Backup.writePrivateAtomic_keeps run.disk json
        (hroot _ rfl) (hp.ne_tmp _)) _
    have hend := hkeeps created rfl
    rwa [hsave] at hend
  rw [hsaved, hcreated, hopened]

/-- An undisturbed restore of the archive puts this map back. -/
def Restorable (env : Platform) (paths : VaultPaths) (S : Searcher) (fs : FileSystem)
    (archive : Path) (c : Contents) : Prop :=
  ∀ {run : Invocation}, run.Undisturbed → (∃ config, loadConfig env paths run fs = .ok config) →
    ∃ safety fs', cmdRestoreApply env paths run archive fs = (.ok (.restored safety), fs') ∧
      Prints env paths S fs' c

/-- What is on the shelf and still there can be restored. -/
theorem HoldsShelf.restorable (hP : env.primitives.Lawful) (hsqlite : env.sqlite.Lawful)
    (hprotects : KeyRing.Protects env.primitives innerKek (fun _ => True) R)
    (hseals : ∀ key nonce ad msg, ∃ ct, env.primitives.aead.enc key nonce ad msg = some ct)
    (h : HoldsShelf env paths R innerKek outerKek fs shelf)
    (hkept : shelf.archived p = some c) (hthere : fs.holds p) : Restorable env paths S fs p c := by
  intro run hrun hconfig
  obtain ⟨v, hfolded, hrefines⟩ := h.holdsFolded
  obtain ⟨d, hread, hstores⟩ := hfolded.vault.database
  obtain ⟨ring, hstored, _⟩ := hrefines.ring
  obtain ⟨s, d', opened, hopen, rfl⟩ := exists_openLockedOnly hrun
    ⟨d, _, hread, hstores.metaTable, hstored.mem_kdfSalt, .inr (by rw [hstores.secrets]; rfl)⟩
    hfolded.vault.sealed hconfig
  obtain ⟨hpath, harchives⟩ := h.archived p c hkept
  obtain ⟨f, hf⟩ := FileSystem.holds_iff.mp hthere
  obtain ⟨image, _, _, harchived, _⟩ := harchives f hf
  have hfile : opened.file p = some f := by
    have hkeeps : Stateful.Keeps (fun fs : FileSystem => fs.file p = some f)
        (openLockedOnly env paths run) := openLockedOnly_keeps hpath.beside
    have hend := hkeeps fs hf
    rwa [hopen] at hend
  obtain ⟨⟨d₁, hread₁, _⟩, _⟩ := (hfolded.vault.opened hsqlite hopen).1
  obtain ⟨safety, mid, hrestored⟩ := cmdRestoreApply_of_openLockedOnly hrun hP.exact
    (fun nonce msg => hseals _ nonce _ msg) hopen (holds_db_of_readDatabase hread₁) hfile harchived
  refine ⟨safety, _, hrestored, ?_⟩
  obtain ⟨shelf', hend, hdoes⟩ :=
    HoldsShelf.tracks_cmdRestoreApply (S := S) hP.exact hsqlite run hkept fs h
  rw [hrestored] at hend hdoes
  obtain ⟨c', hkept', hlive⟩ := hdoes.exists_kept
  obtain rfl := Option.some.inj (hkept.symm.trans hkept')
  exact hlive ▸ hend.live.prints hP hsqlite hprotects

/-- **Archives keep maps.** Whatever runs after `init`, commands, backups and restores of what was
backed up, and whatever is refused to them on the way, the files stand for a live map and for the
maps that were kept: a command does to the live map what it says, a backup keeps it under its
second, pruning changes neither, and a restore puts back what was kept and keeps what was live.
At the end the live map can be read, and every archive that is still there can be restored. -/
theorem archives_keep_maps (hP : env.primitives.Lawful) (hbinds : env.primitives.aead.BindsKey)
    (hsqlite : env.sqlite.Lawful) (hchip : env.chip.Lawful)
    (hseals : ∀ key nonce ad msg, ∃ ct, env.primitives.aead.enc key nonce ad msg = some ct)
    {created : FileSystem} {u : Unit} {events : List VaultEvent} (hno : NoVault paths fs)
    (hinit : cmdInit env paths run fs = (.ok u, created))
    (hrun : Run (VaultStep env paths S) created events fs') (hown : OwnRestores events) :
    ∃ shelf, Run (ShelfStep env.primitives paths S) .empty events shelf ∧
      Prints env paths S fs' shelf.live ∧
      ∀ archive c, shelf.archived archive = some c → fs'.holds archive →
        Restorable env paths S fs' archive c := by
  obtain ⟨innerKek, outerKek, hlive⟩ := holdsMap_of_cmdInit hsqlite hchip hno hinit
  have hprotects := KeyRing.Wraps.protects hP hbinds innerKek
  have hstart : HoldsShelf env paths (KeyRing.Wraps env.primitives innerKek) innerKek outerKek
      created .empty := ⟨hlive, log_of_cmdInit hinit, nofun⟩
  obtain ⟨shelf, hmap, hend⟩ := hstart.of_run hP hsqlite hprotects hrun hown
  exact ⟨shelf, hmap, hend.live.prints hP hsqlite hprotects, fun archive c hkept hthere =>
    hend.restorable hP hsqlite hprotects hseals hkept hthere⟩

end Holds

/-- An invocation of the next second. -/
private def aSecondLater : Invocation := { Invocation.withToken with unixTime := 1 }

/-- On the reference machine a backup of the vault succeeds, and its archive is there. -/
private theorem exists_backed_up {created added : FileSystem} {e : CliEvent} {v : Vault}
    {outerKek : Key} {S : Searcher} (hsalt : metaKdfSalt ∈ v.metaTable)
    (hinit : cmdInit .reference .reference .withToken .empty = (.ok (), created))
    (hadd : CliStep .reference .reference S created e added)
    (hholds : HoldsVault .reference .reference added v outerKek) :
    ∃ report saved, cmdBackup .reference .reference .withToken .plain added =
      (.ok report, saved) ∧ saved.holds report.archive := by
  obtain ⟨d, opened, hopen⟩ := hholds.exists_opened_working hsalt (.token [1] [1]) ""
  obtain ⟨⟨d', hread, _⟩, _⟩ := (hholds.opened SqliteFormat.reference_lawful hopen).1
  obtain ⟨ct, mode, mid, hcreate, hfile⟩ :=
    exists_create_reference hread outerKek (Block.replicate 24 11) 0
  obtain ⟨count, saved, hprune⟩ :=
    exists_prune_reliable .reference Config.default.backupRetention mid
  have hbackup : cmdBackup .reference .reference .withToken .plain added =
      (.ok ⟨Backup.archivePath .reference 0, count, _⟩, saved) := (cmdBackup_eq_ok_iff ..).mpr
    ⟨_, _, d, opened, mid, loadConfig_reference .reference (.token [1] [1]) "" added, hopen,
      hcreate, hprune, rfl⟩
  have hnone : above (Backup.archiveNames .reference .plain mid)
      (Backup.archivePath .reference 0).name < Config.default.backupRetention := by
    have hkept : ∀ p, Backup.IsArchivePath .reference p → p ≠ Backup.archivePath .reference 0 →
        mid.file p = FileSystem.empty.file p := by
      intro p hp hne
      exact (file_of_opened_created hopen hcreate hp hne).trans
        ((file_of_cliStep hadd hp).trans (archive_of_cmdInit hinit hp))
    rw [above_archiveNames .plain hkept]
    decide
  refine ⟨_, saved, hbackup, ?_⟩
  rcases file_of_prune_cases hprune (Backup.isArchivePath_archivePath ..) hfile with
    ⟨_, hkept⟩ | ⟨hpruned, _⟩
  · exact FileSystem.holds_iff.mpr ⟨_, hkept⟩
  · exact absurd (.inr (.inr (.inr hnone))) hpruned

/-- A secret is added, the vault is backed up, and a second later restored. -/
theorem a_backup_is_restored : ∃ created report safety restored, ∃ shelf : Shelf,
    cmdInit .reference .reference .withToken .empty = (.ok (), created) ∧
    Run (VaultStep .reference .reference Searcher.sampleSearcher) created
      [.cli (.addGithub, .ok (.added .ofGithub)), .backup 0 (.ok report),
        .restore report.archive 1 (.ok (.restored safety))] restored ∧
    shelf.live.secret (Block.replicate 16 1) =
      some (.ofGithub, ⟨ascii "correct-horse", none, []⟩) ∧
    Prints .reference .reference Searcher.sampleSearcher restored shelf.live := by
  obtain ⟨created, added, v, outerKek, keys, hinit, hadd, _, hholds, hstored⟩ :=
    exists_added_working
  obtain ⟨report, saved, hbackup, hthere⟩ := exists_backed_up hstored.mem_kdfSalt hinit hadd hholds
  have hseals : ∀ key nonce ad msg, ∃ ct,
      Platform.reference.primitives.aead.enc key nonce ad msg = some ct := fun _ _ _ _ => ⟨_, rfl⟩
  have hsaved : Run (VaultStep .reference .reference Searcher.sampleSearcher) created
      [.cli (.addGithub, .ok (.added .ofGithub)), .backup 0 (.ok report)] saved :=
    .cons (.cli hadd) (.single (VaultStep.backup hbackup))
  have hown : OwnRestores [.cli (.addGithub, .ok (.added .ofGithub)), .backup 0 (.ok report)] := by
    intro before archive t r after heq
    have hmem : VaultEvent.restore archive t r ∈ before ++ .restore archive t r :: after := by simp
    rw [← heq] at hmem
    simp at hmem
  -- the archive can be restored, so there is such a run
  obtain ⟨shelf, hmap, _, hrestorable⟩ := archives_keep_maps Primitives.reference_lawful
    Primitives.reference_bindsKey SqliteFormat.reference_lawful Chip.reference_lawful hseals
    (noVault_empty _) hinit hsaved hown
  have hkept : ∃ c, shelf.archived report.archive = some c := by
    cases hmap with
    | cons _ hrest =>
        cases hrest with
        | cons hback hnil =>
            cases hnil
            rw [hback.eq_keep]
            exact ⟨_, Shelf.archived_keep_self ..⟩
  obtain ⟨c, hkept⟩ := hkept
  have hundisturbed : aSecondLater.Undisturbed :=
    ⟨fun _ => rfl, fun _ => rfl, fun _ => rfl, fun _ => rfl, ⟨_, rfl⟩, rfl⟩
  obtain ⟨safety, restored, hrestore, _⟩ := hrestorable _ c hkept hthere hundisturbed
    ⟨_, loadConfig_reference .reference (.token [1] [1]) "" saved⟩
  have hreported : ∀ archive t r, VaultEvent.restore report.archive 1 (.ok (.restored safety)) =
      .restore archive t r → archive ∈ [.cli (.addGithub, .ok (.added .ofGithub)),
        .backup 0 (.ok report)].filterMap VaultEvent.reported := by
    rintro archive t r ⟨⟩
    exact List.mem_singleton_self _
  have hrun := hsaved.append (.single (VaultStep.restore hrestore))
  obtain ⟨shelf', hmap', hprints, _⟩ := archives_keep_maps Primitives.reference_lawful
    Primitives.reference_bindsKey SqliteFormat.reference_lawful Chip.reference_lawful hseals
    (noVault_empty _) hinit hrun (hown.concat hreported)
  refine ⟨created, report, safety, restored, shelf', hinit, hrun, ?_, hprints⟩
  cases hmap' with
  | cons hfirst hrest =>
      cases hrest with
      | cons hback hlast =>
          cases hlast with
          | cons hrestored hnil =>
              cases hnil
              obtain ⟨c', hkept', rfl⟩ := hrestored.exists_kept
              rw [hback.eq_keep, Shelf.archived_keep_self] at hkept'
              cases hfirst with
              | cli hadded =>
                  rw [← Option.some.inj hkept']
                  exact hadded.secret_of_addGithub

end Sypherstore
