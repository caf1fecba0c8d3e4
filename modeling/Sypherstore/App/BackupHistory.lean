/-
# Backups over time

One backup after another, by the command or as the copy that `restore apply` makes first. The
name of an archive is the second it was made in and the write replaces whatever has that name,
so archives stand as long as no two of them are made in one second.
-/

import Sypherstore.App.Restore
import Sypherstore.Core.BackupsDir
import Sypherstore.Logic.Transition

namespace Sypherstore

open Logic

namespace Backup

/-- One call of `create`. -/
structure CreateCall where
  disk : Disk
  sql : Sql
  outerKek : Key
  nonce : Except RandomError Nonce
  unixTime : ℕ

/-- What happens to the files of a vault: backups that are made or not, and anything else,
with the archives that it touches. -/
inductive Event where
  | created (unixTime : ℕ) (archive : Path) (file : File)
  | failed
  | other (touched : Path → Prop)

/-- The path is that of an archive. -/
def IsArchivePath (paths : VaultPaths) (p : Path) : Prop :=
  p.dir = paths.backups ∧ isArchive p.name

section Steps

variable (P : Primitives) (sqlite : SqliteFormat) (paths : VaultPaths)

def CreateCall.run (call : CreateCall) : Stateful FileSystem BackupError Path :=
  create P sqlite paths call.disk call.sql call.outerKek call.nonce call.unixTime

inductive HistoryStep : FileSystem → Event → FileSystem → Prop
  | created {call : CreateCall} {fs fs' : FileSystem} {archive : Path} {file : File}
      (h : call.run P sqlite paths fs = (.ok archive, fs')) (hfile : fs'.file archive = some file) :
      HistoryStep fs (.created call.unixTime archive file) fs'
  | failed {call : CreateCall} {fs fs' : FileSystem} {e : Fault BackupError}
      (h : call.run P sqlite paths fs = (.error e, fs')) : HistoryStep fs .failed fs'
  | other {touched : Path → Prop} {fs fs' : FileSystem}
      (h : ∀ p, IsArchivePath paths p → ¬ touched p → fs'.file p = fs.file p) :
      HistoryStep fs (.other touched) fs'

end Steps

variable {P : Primitives} {sqlite : SqliteFormat} {paths : VaultPaths} {p : Path}

/-! ## Paths of archives -/

theorem isArchivePath_archivePath (paths : VaultPaths) (t : ℕ) :
    IsArchivePath paths (archivePath paths t) := ⟨rfl, isArchive_archivePath paths t⟩

theorem IsArchivePath.beside (h : IsArchivePath paths p) : Beside paths p := by
  have hdir : p.dir ≠ paths.root := h.1 ▸ backups_ne_root paths
  exact ⟨Path.ne_of_dir_ne hdir, Path.ne_of_dir_ne hdir, Path.ne_of_dir_ne hdir⟩

/-- No temporary file has the name of an archive. -/
theorem IsArchivePath.ne_tmp (h : IsArchivePath paths p) (q : Path) :
    p ≠ q.withExtension "tmp" := by
  rintro rfl
  have hext : Path.extension (q.withExtension "tmp").name.toList =
      if Path.stem q.name.toList = [] then none else some "tmp".toList := by
    rw [Path.withExtension, String.toList_ofList]
    exact Path.extension_append (by decide)
  have harchive := of_decide_eq_true h.2
  rw [hext] at harchive
  split at harchive
  · cases harchive
  · exact absurd (Option.some.inj harchive) (by decide)

/-! ## What a step keeps -/

theorem file_checkpoint_of_beside (h : Beside paths p) (sql : Sql) (fs : FileSystem) :
    (checkpoint sqlite paths sql fs).file p = fs.file p := by
  unfold checkpoint
  split
  · rfl
  · cases readDatabase sqlite paths fs with
    | ok d => exact file_writeDatabase_of_beside h d fs
    | error e => rfl

theorem writePrivateAtomic_keeps (disk : Disk) {path q : Path} (contents : Bytes)
    {f : Option File} (hq : q ≠ path) (htmp : q ≠ path.withExtension "tmp") :
    Stateful.Keeps (fun fs : FileSystem => fs.file q = f)
      (writePrivateAtomic disk path contents) := by
  intro fs hfs
  rcases writePrivateAtomic_cases disk path contents fs with ⟨_, h⟩ | ⟨_, e, fs', h, hkept⟩
  · rw [h]
    exact (fs.replaced_of_ne contents hq htmp).trans hfs
  · rw [h]
    exact (hkept q htmp).trans hfs

/-- A write that fails has touched its temporary file at most. -/
theorem writePrivateAtomic_failsKeeping (disk : Disk) {path q : Path} (contents : Bytes)
    {f : Option File} (htmp : q ≠ path.withExtension "tmp") :
    Stateful.FailsKeeping (fun fs : FileSystem => fs.file q = f)
      (writePrivateAtomic disk path contents) := by
  intro fs e fs' hfs hrun
  rcases writePrivateAtomic_cases disk path contents fs with ⟨_, h⟩ | ⟨_, e', fs'', h, hkept⟩
  · rw [h] at hrun
    cases hrun
  · rw [h] at hrun
    cases hrun
    exact (hkept q htmp).trans hfs

/-- A backup that fails touches no archive. -/
theorem create_failsKeeping (call : CreateCall) (hp : IsArchivePath paths p) {f : Option File} :
    Stateful.FailsKeeping (fun fs : FileSystem => fs.file p = f) (call.run P sqlite paths) := by
  refine Stateful.FailsKeeping.bind Stateful.Keeps.read fun fs => ?_
  split
  · exact (Stateful.Keeps.raise _).failsKeeping
  · refine Stateful.FailsKeeping.bind (Stateful.Keeps.modify ?_) fun _ => ?_
    · intro fs hfs
      rw [file_checkpoint_of_beside hp.beside, hfs]
    refine Stateful.FailsKeeping.bind Stateful.Keeps.read fun _ => ?_
    refine Stateful.FailsKeeping.bind (Stateful.Keeps.lift _) fun _ => ?_
    refine Stateful.FailsKeeping.bind (Stateful.Keeps.lift _) fun _ => ?_
    refine Stateful.FailsKeeping.bind (Stateful.Keeps.lift _) fun _ => ?_
    refine Stateful.FailsKeeping.bind (Stateful.Keeps.mapError ?_ _) fun _ => ?_
    · intro fs hfs
      unfold Disk.attempt
      split <;> exact hfs
    refine Stateful.FailsKeeping.bind_total ?_ fun _ fs => ⟨_, fs, rfl⟩
    exact (writePrivateAtomic_failsKeeping _ _ (hp.ne_tmp _)).mapError _

/-- **What a backup leaves**: the archive of its second, made of the main file that is there. -/
theorem archived_of_create {call : CreateCall} {fs fs' : FileSystem} {archive : Path}
    (h : call.run P sqlite paths fs = (.ok archive, fs')) :
    archive = archivePath paths call.unixTime ∧
      ∃ image file, (fs'.file paths.db).map File.contents = some image ∧
        fs'.file archive = some file ∧ Archived P call.outerKek image file.contents := by
  obtain ⟨_, _, _, _, rfl, main, nonce, ct, hmain, _, henc, rfl⟩ := (create_eq_ok_iff ..).mp h
  obtain ⟨mode, hfile⟩ := FileSystem.replaced_self (checkpoint sqlite paths call.sql fs)
    (archivePath paths call.unixTime) (magic ++ nonce.bytes ++ ct)
  refine ⟨rfl, main.contents, _, ?_, hfile, nonce, ct, henc, rfl⟩
  rw [file_replaced_archivePath rfl, hmain]
  rfl

variable (P sqlite) in
/-- A backup touches no other archive. -/
theorem create_keeps (call : CreateCall) (hp : IsArchivePath paths p)
    (hne : p ≠ archivePath paths call.unixTime) {f : Option File} :
    Stateful.Keeps (fun fs : FileSystem => fs.file p = f) (call.run P sqlite paths) := by
  intro fs hfs
  rcases hrun : call.run P sqlite paths fs with ⟨e | archive, fs'⟩
  · exact create_failsKeeping call hp fs e fs' hfs hrun
  · obtain ⟨_, _, _, _, rfl, _, _, _, _, _, _, rfl⟩ := (create_eq_ok_iff ..).mp hrun
    rw [FileSystem.replaced_of_ne _ _ hne (hp.ne_tmp _), file_checkpoint_of_beside hp.beside, hfs]

/-! ## Runs -/

/-- The event may leave something else at the path. -/
def Event.Touches (p : Path) : Event → Prop
  | .created _ archive _ => archive = p
  | .failed => False
  | .other touched => touched p

/-- The second of a backup that was made. -/
def Event.second : Event → Option ℕ
  | .created unixTime _ _ => some unixTime
  | _ => none

/-- An archive is named after its second. -/
theorem archive_of_step {fs fs' : FileSystem} {t : ℕ} {archive : Path} {file : File}
    (h : HistoryStep P sqlite paths fs (.created t archive file) fs') :
    archive = archivePath paths t ∧ fs'.file archive = some file := by
  cases h with
  | created h hfile => exact ⟨(archived_of_create h).1, hfile⟩

/-- **What one event keeps**: every archive that it does not touch. -/
theorem file_of_step {fs fs' : FileSystem} {event : Event}
    (h : HistoryStep P sqlite paths fs event fs') (hp : IsArchivePath paths p)
    (hfree : ¬ event.Touches p) : fs'.file p = fs.file p := by
  cases h with
  | @created call _ _ archive file h hfile =>
      have hne : p ≠ archivePath paths call.unixTime :=
        fun heq => hfree ((archived_of_create h).1.trans heq.symm)
      have hkept := create_keeps P sqlite call hp hne fs rfl
      rwa [h] at hkept
  | @failed call _ _ e h => exact create_failsKeeping call hp fs e fs' rfl h
  | other h => exact h p hp hfree

/-- **What a run keeps**: every archive that none of its events touches. -/
theorem file_of_run {fs fs' : FileSystem} {events : List Event}
    (h : Run (HistoryStep P sqlite paths) fs events fs') (hp : IsArchivePath paths p)
    (hfree : ∀ event ∈ events, ¬ event.Touches p) : fs'.file p = fs.file p := by
  refine h.invariant (I := fun now => now.file p = fs.file p) ?_ rfl
  intro now event next hevent hnow hstep
  rw [file_of_step hstep hp (hfree event hevent), hnow]

/-- No two backups of the run were made in one second. -/
def DistinctSeconds (events : List Event) : Prop := (events.filterMap Event.second).Nodup

/-- The archives that events of other kinds touch. -/
def Event.TouchesOtherwise (p : Path) : Event → Prop
  | .other touched => touched p
  | _ => False

/-- **An archive stands** as long as no later backup is made in its second. -/
theorem file_of_distinctSeconds {fs fs' : FileSystem} {front back : List Event} {t : ℕ}
    {archive : Path} {file : File}
    (h : Run (HistoryStep P sqlite paths) fs (front ++ .created t archive file :: back) fs')
    (hdistinct : DistinctSeconds (front ++ .created t archive file :: back))
    (hother : ∀ event ∈ back, ¬ event.TouchesOtherwise archive) :
    fs'.file archive = some file := by
  obtain ⟨before, _, hrest⟩ := Run.append_iff.mp h
  cases hrest with
  | @cons _ after _ _ _ hstep hback =>
      obtain ⟨harchive, hfile⟩ := archive_of_step hstep
      have hseconds : (Event.created t archive file :: back).filterMap Event.second =
          t :: back.filterMap Event.second := rfl
      rw [DistinctSeconds, List.filterMap_append, hseconds] at hdistinct
      have hlater := (List.nodup_cons.mp (List.nodup_append.mp hdistinct).2.1).1
      rw [file_of_run hback (harchive ▸ isArchivePath_archivePath paths t), hfile]
      intro event hevent htouches
      cases event with
      | created t' archive' file' =>
          obtain ⟨_, _, hnow⟩ := hback.exists_step hevent
          have hname := (archive_of_step hnow).1
          have htime : t' = t := archivePath_injective paths
            (hname.symm.trans ((htouches : archive' = archive).trans harchive))
          exact hlater (List.mem_filterMap.mpr ⟨_, hevent, congrArg some htime⟩)
      | failed => exact htouches
      | other touched => exact hother _ hevent htouches

end Backup

/-! ## The copy before a restore -/

variable {env : Platform} {paths : VaultPaths} {run : Invocation}

/-- The backup that a command makes. -/
def Invocation.backup (run : Invocation) (outerKek : Key) : Backup.CreateCall :=
  ⟨run.disk, run.checkpoint, outerKek, run.backupNonce, run.unixTime⟩

/-- The end of `restore apply`, behind the copy. -/
def replaceDb (paths : VaultPaths) (run : Invocation) (restored : Bytes) (safety : Path) :
    Stateful FileSystem CommandError RestoreReport := do
  Stateful.modify (run.disk.discard (paths.dbSidecar "-wal"))
  Stateful.modify (run.disk.discard (paths.dbSidecar "-shm"))
  (writePrivateAtomic run.disk paths.db restored).mapError .writingDatabase
  return .restored safety

theorem replaceDb_keeps {p : Path} (hp : Backup.IsArchivePath paths p) {f : Option File}
    (restored : Bytes) (safety : Path) :
    Stateful.Keeps (fun fs : FileSystem => fs.file p = f)
      (replaceDb paths run restored safety) := by
  have hdiscard : ∀ q, p ≠ q → ∀ fs : FileSystem, fs.file p = f →
      (run.disk.discard q fs).file p = f := by
    intro q hq fs hfs
    unfold Disk.discard
    split
    · exact hfs
    · rw [FileSystem.file_remove_of_ne hq, hfs]
  refine Stateful.Keeps.bind (Stateful.Keeps.modify (hdiscard _ hp.beside.wal)) fun _ => ?_
  refine Stateful.Keeps.bind (Stateful.Keeps.modify (hdiscard _ hp.beside.shm)) fun _ => ?_
  refine Stateful.Keeps.bind (Stateful.Keeps.mapError ?_ _) fun _ => Stateful.Keeps.pure _
  exact Backup.writePrivateAtomic_keeps _ _ hp.beside.db (hp.ne_tmp _)

/-- It reports the copy. -/
theorem replaceDb_reports {restored : Bytes} {safety safety' : Path} {fs : FileSystem}
    (h : (replaceDb paths run restored safety fs).1 = .ok (.restored safety')) :
    safety' = safety := by
  rcases hend : replaceDb paths run restored safety fs with ⟨outcome, fs'⟩
  rw [hend] at h
  obtain rfl : outcome = .ok (.restored safety') := h
  simp only [replaceDb, Stateful.bind_eq_ok_iff] at hend
  obtain ⟨_, _, _, _, _, _, _, _, _, hreturn⟩ := hend
  cases hreturn
  rfl

variable (env run) in
/-- `restore apply` either ends behind opening the vault, or goes on to the copy. -/
theorem cmdRestoreApply_cases (archive : Path) (fs : FileSystem) :
    (∃ outcome, cmdRestoreApply env paths run archive fs =
        (outcome, (openLockedOnly env paths run fs).2) ∧
      ∀ safety, outcome ≠ .ok (.restored safety)) ∨
    ∃ outerKek restored, cmdRestoreApply env paths run archive fs =
      (((run.backup outerKek).run env.primitives env.sqlite paths).mapError .savingCurrent >>=
        replaceDb paths run restored) (openLockedOnly env paths run fs).2 := by
  rw [cmdRestoreApply, Stateful.bind_apply]
  rcases openLockedOnly env paths run fs with ⟨outcome, opened⟩
  cases outcome with
  | error e => exact .inl ⟨_, rfl, fun _ => by simp⟩
  | ok opening =>
      obtain ⟨s, d⟩ := opening
      simp only [Stateful.bind_apply, Stateful.read_apply, Stateful.lift_apply]
      cases Fallible.mapError CommandError.decryptingBackup
          (Backup.restore env.primitives run.disk archive s.outerKek opened) with
      | error e => exact .inl ⟨_, rfl, fun _ => by simp⟩
      | ok restored =>
          dsimp only
          cases run.confirmed with
          | error e => exact .inl ⟨_, rfl, fun _ => by simp⟩
          | ok goOn =>
              cases goOn with
              | false => exact .inl ⟨_, rfl, fun _ => by simp⟩
              | true => exact .inr ⟨s.outerKek, restored, rfl⟩

/-- The events are at most one backup, made in this second, and what leaves every archive
alone. -/
structure OneBackup (t : ℕ) (events : List Backup.Event) : Prop where
  seconds : (events.filterMap Backup.Event.second).Sublist [t]
  other : ∀ event ∈ events, ∀ p, ¬ event.TouchesOtherwise p

/-- What leaves every archive alone is one event. -/
theorem step_of_keeps (env : Platform) {ε α : Type} (x : Stateful FileSystem ε α)
    (hx : ∀ p, Backup.IsArchivePath paths p → ∀ f : Option File,
      Stateful.Keeps (fun fs : FileSystem => fs.file p = f) x) (fs : FileSystem) :
    Backup.HistoryStep env.primitives env.sqlite paths fs (.other fun _ => False) (x fs).2 :=
  .other fun p hp _ => hx p hp _ fs rfl

/-- **Restoring is part of the history**: it opens the vault, makes at most one backup, and
replaces the database. -/
theorem cmdRestoreApply_is_run (archive : Path) (fs : FileSystem) :
    ∃ events, Run (Backup.HistoryStep env.primitives env.sqlite paths) fs events
        (cmdRestoreApply env paths run archive fs).2 ∧
      OneBackup run.unixTime events ∧
      ∀ safety, (cmdRestoreApply env paths run archive fs).1 = .ok (.restored safety) →
        ∃ file, Backup.Event.created run.unixTime safety file ∈ events := by
  have hopening := step_of_keeps env (openLockedOnly env paths run)
    (fun p hp _ => openLockedOnly_keeps hp.beside) fs
  rcases cmdRestoreApply_cases env run archive fs with
    ⟨outcome, hend, hnone⟩ | ⟨outerKek, restored, hend⟩
  · refine ⟨[.other fun _ => False], .single ?_, ⟨List.nil_sublist _, ?_⟩, ?_⟩
    · rw [hend]
      exact hopening
    · simp [Backup.Event.TouchesOtherwise]
    · intro safety hsafety
      rw [hend] at hsafety
      exact absurd hsafety (hnone safety)
  · rw [hend, Stateful.bind_apply, Stateful.mapError_apply]
    rcases hcall : (run.backup outerKek).run env.primitives env.sqlite paths
      (openLockedOnly env paths run fs).2 with ⟨outcome, mid⟩
    cases outcome with
    | error e =>
        obtain ⟨e', he⟩ : ∃ e', Fallible.mapError CommandError.savingCurrent (.error e) =
            (.error e' : Fallible CommandError Path) := by
          cases e <;> exact ⟨_, rfl⟩
        simp only [he]
        refine ⟨_, .cons hopening (.single (.failed hcall)), ⟨List.nil_sublist _, ?_⟩,
          fun _ h => nomatch h⟩
        simp [Backup.Event.TouchesOtherwise]
    | ok safety =>
        simp only [Fallible.mapError_ok]
        obtain ⟨-, _, file, -, hfile, -⟩ := Backup.archived_of_create hcall
        have hreplacing := step_of_keeps env (replaceDb paths run restored safety)
          (fun p hp _ => replaceDb_keeps hp restored safety) mid
        refine ⟨_, .cons hopening (.cons (.created hcall hfile) (.single hreplacing)),
          ⟨List.Sublist.refl _, ?_⟩, ?_⟩
        · simp [Backup.Event.TouchesOtherwise]
        · intro safety' hsafety
          obtain rfl := replaceDb_reports hsafety
          exact ⟨file, List.mem_cons_of_mem _ List.mem_cons_self⟩

/-- **Backups made in distinct seconds never destroy one another.** In every run of backups,
restores and other events in which no two backups are made in one second, an archive that a
backup returned holds what it held, unless something else touches it. -/
theorem backups_in_distinct_seconds_stand (env : Platform) (paths : VaultPaths) :
    (∀ (fs fs' : FileSystem) (front back : List Backup.Event) (t : ℕ) (archive : Path)
        (file : File),
      Run (Backup.HistoryStep env.primitives env.sqlite paths) fs
        (front ++ .created t archive file :: back) fs' →
      Backup.DistinctSeconds (front ++ .created t archive file :: back) →
      (∀ event ∈ back, ¬ event.TouchesOtherwise archive) →
      fs'.file archive = some file) ∧
    ∀ (run : Invocation) (archive : Path) (fs : FileSystem),
      ∃ events, Run (Backup.HistoryStep env.primitives env.sqlite paths) fs events
          (cmdRestoreApply env paths run archive fs).2 ∧
        OneBackup run.unixTime events ∧
        ∀ safety, (cmdRestoreApply env paths run archive fs).1 = .ok (.restored safety) →
          ∃ file, Backup.Event.created run.unixTime safety file ∈ events :=
  ⟨fun _ _ _ _ _ _ _ => Backup.file_of_distinctSeconds,
    fun _ archive fs => cmdRestoreApply_is_run archive fs⟩

/-! ### Two backups of one vault -/

/-- A backup of a vault that can be read, on a disk that refuses nothing. -/
theorem exists_create_reference {paths : VaultPaths} {fs : FileSystem} {d : Database}
    (hread : readDatabase .reference paths fs = .ok d) (outerKek : Key) (nonce : Nonce) (t : ℕ) :
    ∃ ct mode fs', (Backup.CreateCall.mk .reliable .reliable outerKek (.ok nonce) t).run .reference
        .reference paths fs = (.ok (Backup.archivePath paths t), fs') ∧
      fs'.file (Backup.archivePath paths t) =
        some ⟨Backup.magic ++ nonce.bytes ++ ct, mode⟩ := by
  have hcheckpoint : Backup.checkpoint .reference paths .reliable fs =
      writeDatabase .reference paths d fs := by
    simp [Backup.checkpoint, Sql.reliable, hread]
  obtain ⟨⟨mode, hmain⟩, _⟩ := file_writeDatabase .reference paths d fs
  obtain ⟨ct, hct⟩ : ∃ ct, Primitives.reference.aead.enc (Backup.backupKey .reference outerKek)
      nonce Backup.magic (SqliteFormat.reference.image d) = some ct := ⟨_, rfl⟩
  obtain ⟨mode', hfile⟩ := FileSystem.replaced_self
    (Backup.checkpoint .reference paths .reliable fs) (Backup.archivePath paths t)
    (Backup.magic ++ nonce.bytes ++ ct)
  exact ⟨ct, mode', _, (Backup.create_eq_ok_iff ..).mpr ⟨holds_db_of_readDatabase hread, rfl, rfl,
    fun _ _ => rfl, rfl, _, _, _, hcheckpoint ▸ hmain, rfl, hct, rfl⟩, hfile⟩

private theorem exists_two_backups (t : ℕ) : ∃ fs₀ fs₂ file file',
    Run (Backup.HistoryStep Platform.reference.primitives Platform.reference.sqlite .reference) fs₀
      [.created 0 (Backup.archivePath .reference 0) file,
        .created t (Backup.archivePath .reference t) file'] fs₂ ∧
      fs₂.file (Backup.archivePath .reference t) = some file' ∧
      file'.contents ≠ file.contents := by
  obtain ⟨fs₀, fs₁, archive, _, outerKek, hmade, ⟨d, hread, _⟩, _⟩ :=
    exists_archived_working .reference
  have hfirst : (Backup.CreateCall.mk .reliable .reliable outerKek (.ok (Block.replicate 24 11))
      0).run .reference .reference .reference fs₀ = (.ok archive, fs₁) := hmade
  obtain ⟨_, _, _, _, rfl, main, nonce, ct, _, hnonce, _, rfl⟩ :=
    (Backup.create_eq_ok_iff ..).mp hmade
  obtain ⟨mode, hfile⟩ := FileSystem.replaced_self
    (Backup.checkpoint .reference .reference .reliable fs₀) (Backup.archivePath .reference 0)
    (Backup.magic ++ nonce.bytes ++ ct)
  obtain ⟨ct', mode', fs₂, hsecond, hfile'⟩ :=
    exists_create_reference hread outerKek (Block.replicate 24 12) t
  refine ⟨fs₀, fs₂, _, _, .cons (.created hfirst hfile) (.single (.created hsecond hfile')),
    hfile', fun hsame => ?_⟩
  obtain rfl := Except.ok.inj hnonce
  have hnonces := (List.append_inj (List.append_inj hsame (by simp)).1 rfl).2
  exact absurd hnonces (by decide)

/-- The backup of one second stands when another is made in the next. -/
theorem a_backup_stands_beside_the_next : ∃ fs₀ fs₂ file file',
    Run (Backup.HistoryStep Platform.reference.primitives Platform.reference.sqlite .reference) fs₀
      [.created 0 (Backup.archivePath .reference 0) file,
        .created 1 (Backup.archivePath .reference 1) file'] fs₂ ∧
      fs₂.file (Backup.archivePath .reference 0) = some file ∧
      fs₂.file (Backup.archivePath .reference 1) = some file' := by
  obtain ⟨fs₀, fs₂, file, file', hrun, hfile', _⟩ := exists_two_backups 1
  have hstands := (backups_in_distinct_seconds_stand .reference .reference).1 fs₀ fs₂ []
    [.created 1 (Backup.archivePath .reference 1) file'] 0 _ file hrun
    (by simp [Backup.DistinctSeconds, Backup.Event.second])
    (by simp [Backup.Event.TouchesOtherwise])
  exact ⟨fs₀, fs₂, file, file', hrun, hstands, hfile'⟩

/-- Two backups of a vault in one second have one name, and the first is lost. -/
theorem a_second_backup_replaces_the_first : ∃ fs₀ fs₂ archive file file',
    Run (Backup.HistoryStep Platform.reference.primitives Platform.reference.sqlite .reference) fs₀
      [.created 0 archive file, .created 0 archive file'] fs₂ ∧
      (fs₂.file archive).map File.contents ≠ some file.contents := by
  obtain ⟨fs₀, fs₂, file, file', hrun, hfile', hother⟩ := exists_two_backups 0
  refine ⟨fs₀, fs₂, _, file, file', hrun, ?_⟩
  rw [hfile', Option.map_some, Ne, Option.some.injEq]
  exact hother

end Sypherstore
