/-
# Restoring, step by step

From the moment the user has agreed, `restore apply` folds the log into the main file, saves a
copy of it, removes the files that belong to the old database and replaces the main file. It
can stop after any of these steps, and between any two pieces of what is written. Both
databases, the live one and the archived one, can be had at all times: one of the two is live,
and the copy and the archive hold what is not.
-/

import Sypherstore.App.BackupHistory
import Sypherstore.Core.AtomicWrite

namespace Sypherstore

open Logic

/-! ## The steps -/

/-- Where a restore stands. -/
inductive RestorePhase where
  | folding
  | copying
  /-- The copy is these bytes. -/
  | saving (raw : Bytes) (phase : WritePhase)
  /-- These sidecars have not been looked at. -/
  | removing (left : List String)
  | replacing (phase : WritePhase)

/-- A restore that is going on. -/
structure Restoring where
  phase : RestorePhase
  fs : FileSystem

inductive RestoreEvent where
  | folded
  | copied
  | wrote (event : WriteEvent)
  | removed (suffix : String)
  /-- The file could not be removed, and nobody is told. -/
  | left (suffix : String)
  /-- The restore goes on to the next file. -/
  | turned

/-- What a restore works with. -/
structure RestoreInputs where
  sql : Sql
  outerKek : Key
  unixTime : ℕ
  /-- What was in the archive. -/
  image : Bytes

section Steps

variable (P : Primitives) (sqlite : SqliteFormat) (paths : VaultPaths) (inputs : RestoreInputs)

/-- Where the copy of the live database goes. -/
def RestoreInputs.safety : Path := Backup.archivePath paths inputs.unixTime

inductive RestoreStep : Restoring → RestoreEvent → Restoring → Prop
  | folded {fs : FileSystem} : RestoreStep ⟨.folding, fs⟩ .folded
      ⟨.copying, Backup.checkpoint sqlite paths inputs.sql fs⟩
  /-- The copy is made of the main file that the checkpoint leaves. -/
  | copied {fs : FileSystem} {main : File} {raw : Bytes} (hmain : fs.file paths.db = some main)
      (harchived : Backup.Archived P inputs.outerKek main.contents raw) :
      RestoreStep ⟨.copying, fs⟩ .copied ⟨.saving raw .opening, fs⟩
  | saving {raw : Bytes} {r r' : Replacing} {event : WriteEvent}
      (h : ReplaceStep (inputs.safety paths) raw r event r') :
      RestoreStep ⟨.saving raw r.phase, r.fs⟩ (.wrote event) ⟨.saving raw r'.phase, r'.fs⟩
  | toRemoving {raw : Bytes} {fs : FileSystem} :
      RestoreStep ⟨.saving raw .done, fs⟩ .turned ⟨.removing ["-wal", "-shm"], fs⟩
  | removed {suffix : String} {left : List String} {fs : FileSystem} :
      RestoreStep ⟨.removing (suffix :: left), fs⟩ (.removed suffix)
        ⟨.removing left, fs.remove (paths.dbSidecar suffix)⟩
  | left {suffix : String} {left : List String} {fs : FileSystem} :
      RestoreStep ⟨.removing (suffix :: left), fs⟩ (.left suffix) ⟨.removing left, fs⟩
  | toReplacing {fs : FileSystem} :
      RestoreStep ⟨.removing [], fs⟩ .turned ⟨.replacing .opening, fs⟩
  | replacing {r r' : Replacing} {event : WriteEvent}
      (h : ReplaceStep paths.db inputs.image r event r') :
      RestoreStep ⟨.replacing r.phase, r.fs⟩ (.wrote event) ⟨.replacing r'.phase, r'.fs⟩

end Steps

namespace Restoring

variable {P : Primitives} {sqlite : SqliteFormat} {paths : VaultPaths} {inputs : RestoreInputs}
  {fs mid : FileSystem} {archive : Path}

/-- A restore that has not begun. -/
def start (fs : FileSystem) : Restoring := ⟨.folding, fs⟩

/-! ## What is there at each step -/

/-- A path that the restore writes nothing to. -/
structure Apart (paths : VaultPaths) (inputs : RestoreInputs) (p : Path) : Prop where
  beside : Beside paths p
  db_tmp : p ≠ paths.db.withExtension "tmp"
  safety : p ≠ inputs.safety paths
  safety_tmp : p ≠ (inputs.safety paths).withExtension "tmp"

/-- An archive of another second is apart. -/
theorem apart_of_isArchivePath {p : Path} (hp : Backup.IsArchivePath paths p)
    (hne : p ≠ inputs.safety paths) : Apart paths inputs p :=
  ⟨hp.beside, hp.ne_tmp _, hne, hp.ne_tmp _⟩

/-- The live database is as the checkpoint left it, and the archive is there. -/
structure Live (paths : VaultPaths) (main : Bytes) (archive : Path) (archived : Option File)
    (fs : FileSystem) : Prop where
  db : (fs.file paths.db).map File.contents = some main
  log : fs.file (paths.dbSidecar "-wal") = none
  archive : fs.file archive = archived

/-- The copy is there. -/
def Saved (P : Primitives) (paths : VaultPaths) (inputs : RestoreInputs) (main : Bytes)
    (fs : FileSystem) : Prop :=
  ∃ f, fs.file (inputs.safety paths) = some f ∧
    Backup.Archived P inputs.outerKek main f.contents

/-- What a restore that started on these files looks like. -/
def StartedOn (P : Primitives) (paths : VaultPaths) (inputs : RestoreInputs) (main : Bytes)
    (archive : Path) (fs : FileSystem) (r : Restoring) : Prop :=
  match r.phase with
  | .folding => r.fs = fs
  | .copying => Live paths main archive (fs.file archive) r.fs
  | .saving raw phase => ∃ mid, Live paths main archive (fs.file archive) mid ∧
      Backup.Archived P inputs.outerKek main raw ∧
      Replacing.StartedOn (inputs.safety paths) raw mid ⟨phase, r.fs⟩
  | .removing _ => Live paths main archive (fs.file archive) r.fs ∧
      Saved P paths inputs main r.fs
  | .replacing phase => ∃ mid, Live paths main archive (fs.file archive) mid ∧
      Saved P paths inputs main mid ∧
      Replacing.StartedOn paths.db inputs.image mid ⟨phase, r.fs⟩

theorem Live.congr {main : Bytes} {archived : Option File}
    (h : Live paths main archive archived fs) (hdb : mid.file paths.db = fs.file paths.db)
    (hlog : mid.file (paths.dbSidecar "-wal") = fs.file (paths.dbSidecar "-wal"))
    (harchive : mid.file archive = fs.file archive) : Live paths main archive archived mid :=
  ⟨hdb ▸ h.db, hlog ▸ h.log, harchive ▸ h.archive⟩

/-- The copy goes to another directory than the database is in. -/
theorem file_saving {raw : Bytes} {p : Path} {phase : WritePhase}
    (h : Replacing.StartedOn (inputs.safety paths) raw mid ⟨phase, fs⟩)
    (hsafety : p ≠ inputs.safety paths) (htmp : p ≠ (inputs.safety paths).withExtension "tmp") :
    fs.file p = mid.file p := by
  by_cases hdone : phase = .done
  · subst hdone
    obtain rfl : fs = _ := h
    exact FileSystem.replaced_of_ne _ _ hsafety htmp
  · exact Replacing.file_of_startedOn h hdone htmp

theorem Live.saving {main raw : Bytes} {archived : Option File} {phase : WritePhase}
    (h : Live paths main archive archived mid) (hapart : Apart paths inputs archive)
    (hwrite : Replacing.StartedOn (inputs.safety paths) raw mid ⟨phase, fs⟩) :
    Live paths main archive archived fs := by
  have hroot : paths.root ≠ paths.backups := (backups_ne_root paths).symm
  exact h.congr (file_saving hwrite (Path.ne_of_dir_ne hroot) (Path.ne_of_dir_ne hroot))
    (file_saving hwrite (Path.ne_of_dir_ne hroot) (Path.ne_of_dir_ne hroot))
    (file_saving hwrite hapart.safety hapart.safety_tmp)

theorem Live.removed {main : Bytes} {archived : Option File} {suffix : String}
    (h : Live paths main archive archived fs) (hapart : Apart paths inputs archive)
    (hsuffix : suffix = "-wal" ∨ suffix = "-shm") :
    Live paths main archive archived (fs.remove (paths.dbSidecar suffix)) := by
  obtain ⟨hwal, hshm, hsides⟩ := db_paths_ne paths
  rcases hsuffix with rfl | rfl
  · exact ⟨by rw [FileSystem.file_remove_of_ne hwal, h.db], FileSystem.file_remove_self,
      by rw [FileSystem.file_remove_of_ne hapart.beside.wal, h.archive]⟩
  · exact h.congr (FileSystem.file_remove_of_ne hshm) (FileSystem.file_remove_of_ne hsides)
      (FileSystem.file_remove_of_ne hapart.beside.shm)

theorem Saved.congr {main : Bytes} (h : Saved P paths inputs main fs)
    (hsafety : mid.file (inputs.safety paths) = fs.file (inputs.safety paths)) :
    Saved P paths inputs main mid := by
  obtain ⟨f, hf, harchived⟩ := h
  exact ⟨f, hsafety.trans hf, harchived⟩

/-- The copy is none of the database's files. -/
theorem beside_safety (paths : VaultPaths) (inputs : RestoreInputs) :
    Beside paths (inputs.safety paths) := beside_archivePath paths inputs.unixTime

/-- The sidecars that are still to be looked at are the two there are. -/
def Removes (r : Restoring) : Prop :=
  ∀ left, r.phase = .removing left → ∀ suffix ∈ left, suffix = "-wal" ∨ suffix = "-shm"

/-- **What one step keeps.** -/
theorem startedOn_of_step {main : Bytes} {r r' : Restoring} {event : RestoreEvent}
    (h : RestoreStep P sqlite paths inputs r event r') (hapart : Apart paths inputs archive)
    (hmain : ((Backup.checkpoint sqlite paths inputs.sql fs).file paths.db).map File.contents =
      some main)
    (hlog : (Backup.checkpoint sqlite paths inputs.sql fs).file (paths.dbSidecar "-wal") = none)
    (hr : StartedOn P paths inputs main archive fs r ∧ r.Removes) :
    StartedOn P paths inputs main archive fs r' ∧ r'.Removes := by
  obtain ⟨hr, hremoves⟩ := hr
  cases h with
  | folded =>
      obtain rfl : _ = fs := hr
      exact ⟨⟨hmain, hlog, Backup.file_checkpoint_of_beside hapart.beside _ _⟩, nofun⟩
  | @copied now found raw hfile harchived =>
      have hlive : Live paths main archive (fs.file archive) now := hr
      have hfound := hlive.db
      rw [hfile] at hfound
      exact ⟨⟨_, hlive, Option.some.inj hfound ▸ harchived, rfl⟩, nofun⟩
  | saving h =>
      obtain ⟨mid, hlive, harchived, hwrite⟩ := hr
      exact ⟨⟨mid, hlive, harchived, h.startedOn hwrite⟩, nofun⟩
  | @toRemoving raw now =>
      obtain ⟨mid, hlive, harchived, hwrite⟩ := hr
      refine ⟨⟨hlive.saving hapart hwrite, ?_⟩, ?_⟩
      · obtain rfl : now = _ := hwrite
        obtain ⟨mode, hfile⟩ := mid.replaced_self (inputs.safety paths) raw
        exact ⟨_, hfile, harchived⟩
      · rintro left ⟨⟩ suffix hsuffix
        simpa using hsuffix
  | @removed suffix left now =>
      obtain ⟨hlive, hsaved⟩ := hr
      have hsuffix := hremoves _ rfl suffix List.mem_cons_self
      refine ⟨⟨hlive.removed hapart hsuffix, hsaved.congr (FileSystem.file_remove_of_ne ?_)⟩, ?_⟩
      · rcases hsuffix with rfl | rfl
        · exact (beside_safety paths inputs).wal
        · exact (beside_safety paths inputs).shm
      · rintro _ ⟨⟩ suffix' hsuffix'
        exact hremoves _ rfl suffix' (List.mem_cons_of_mem _ hsuffix')
  | left =>
      refine ⟨hr, ?_⟩
      rintro _ ⟨⟩ suffix' hsuffix'
      exact hremoves _ rfl suffix' (List.mem_cons_of_mem _ hsuffix')
  | toReplacing => exact ⟨⟨_, hr.1, hr.2, rfl⟩, nofun⟩
  | replacing h =>
      obtain ⟨mid, hlive, hsaved, hwrite⟩ := hr
      exact ⟨⟨mid, hlive, hsaved, h.startedOn hwrite⟩, nofun⟩

/-- Every state of a restore is known from its phase. -/
theorem startedOn_of_run {main : Bytes} {r : Restoring} {events : List RestoreEvent}
    (h : Run (RestoreStep P sqlite paths inputs) (start fs) events r)
    (hapart : Apart paths inputs archive)
    (hmain : ((Backup.checkpoint sqlite paths inputs.sql fs).file paths.db).map File.contents =
      some main)
    (hlog : (Backup.checkpoint sqlite paths inputs.sql fs).file (paths.dbSidecar "-wal") = none) :
    StartedOn P paths inputs main archive fs r := by
  refine (h.invariant (I := fun r => StartedOn P paths inputs main archive fs r ∧ r.Removes)
    (fun _ _ _ _ hr hstep => startedOn_of_step hstep hapart hmain hlog hr) ?_).1
  exact ⟨rfl, nofun⟩

/-! ## What can be had at each step -/

/-- The database is the live one, or an archive gives it. -/
def Recoverable (P : Primitives) (sqlite : SqliteFormat) (paths : VaultPaths) (outerKek : Key)
    (d : Database) (fs : FileSystem) : Prop :=
  readDatabase sqlite paths fs = .ok d ∨ ∃ archive image,
    Backup.restore P .reliable archive outerKek fs = .ok image ∧ sqlite.load image none = .ok d

/-- Whatever has become of a restore, one of the two databases is live and both can be had. -/
structure LosesNothing (P : Primitives) (sqlite : SqliteFormat) (paths : VaultPaths)
    (outerKek : Key) (d d' : Database) (fs : FileSystem) : Prop where
  live : readDatabase sqlite paths fs = .ok d ∨ readDatabase sqlite paths fs = .ok d'
  current : Recoverable P sqlite paths outerKek d fs
  archived : Recoverable P sqlite paths outerKek d' fs

variable {d d' : Database} {f : File} {main : Bytes}

theorem recoverable_of_archived (hexact : P.aead.Exact) {p : Path} {image : Bytes}
    (hfile : fs.file p = some f) (harchived : Backup.Archived P inputs.outerKek image f.contents)
    (hload : sqlite.load image none = .ok d) :
    Recoverable P sqlite paths inputs.outerKek d fs :=
  .inr ⟨p, image, (Backup.restore_eq_ok_iff hexact ..).mpr ⟨rfl, f, hfile, harchived⟩, hload⟩

theorem readDatabase_of_main {image : Bytes}
    (hdb : (fs.file paths.db).map File.contents = some image)
    (hlog : fs.file (paths.dbSidecar "-wal") = none) (hload : sqlite.load image none = .ok d) :
    readDatabase sqlite paths fs = .ok d := by
  obtain ⟨found, hfile, rfl⟩ := Option.map_eq_some_iff.mp hdb
  simp only [readDatabase, hfile, hlog, Option.map_none, hload]

theorem losesNothing_of_live (hexact : P.aead.Exact)
    (h : Live paths main archive (some f) fs) (hmain : sqlite.load main none = .ok d)
    (harchived : Backup.Archived P inputs.outerKek inputs.image f.contents)
    (himage : sqlite.load inputs.image none = .ok d') :
    LosesNothing P sqlite paths inputs.outerKek d d' fs := by
  have hread := readDatabase_of_main h.db h.log hmain
  exact ⟨.inl hread, .inl hread, recoverable_of_archived hexact h.archive harchived himage⟩

theorem losesNothing_of_startedOn (hexact : P.aead.Exact) {r : Restoring}
    (h : StartedOn P paths inputs main archive fs r) (hapart : Apart paths inputs archive)
    (hread : readDatabase sqlite paths fs = .ok d) (hmain : sqlite.load main none = .ok d)
    (hfile : fs.file archive = some f)
    (harchived : Backup.Archived P inputs.outerKek inputs.image f.contents)
    (himage : sqlite.load inputs.image none = .ok d') :
    LosesNothing P sqlite paths inputs.outerKek d d' r.fs := by
  obtain ⟨phase, now⟩ := r
  cases phase with
  | folding =>
      obtain rfl : now = fs := h
      exact ⟨.inl hread, .inl hread, recoverable_of_archived hexact hfile harchived himage⟩
  | copying =>
      have hlive : Live paths main archive (fs.file archive) now := h
      rw [hfile] at hlive
      exact losesNothing_of_live hexact hlive hmain harchived himage
  | saving raw phase =>
      obtain ⟨mid, hlive, _, hwrite⟩ := h
      rw [hfile] at hlive
      exact losesNothing_of_live hexact (hlive.saving hapart hwrite) hmain harchived himage
  | removing left =>
      obtain ⟨hlive, _⟩ := h
      rw [hfile] at hlive
      exact losesNothing_of_live hexact hlive hmain harchived himage
  | replacing phase =>
      obtain ⟨mid, hlive, ⟨copy, hcopy, hcopied⟩, hwrite⟩ := h
      rw [hfile] at hlive
      by_cases hdone : phase = .done
      · subst hdone
        obtain rfl : now = mid.replaced paths.db inputs.image := hwrite
        obtain ⟨hwal, _, _⟩ := db_paths_ne paths
        obtain ⟨mode, hdb⟩ := mid.replaced_self paths.db inputs.image
        have hlog : (mid.replaced paths.db inputs.image).file (paths.dbSidecar "-wal") = none :=
          (FileSystem.replaced_of_ne _ _ hwal.symm (Path.ne_of_name_ne (by simp))).trans hlive.log
        have hnew := readDatabase_of_main (by rw [hdb]; rfl) hlog himage
        -- the copy is all there is of the database that was live
        have hsafety : (mid.replaced paths.db inputs.image).file (inputs.safety paths) =
            some copy := by
          rw [← hcopy]
          exact FileSystem.replaced_of_ne _ _ (beside_safety paths inputs).db
            (Path.ne_of_dir_ne (backups_ne_root paths))
        exact ⟨.inr hnew, recoverable_of_archived hexact hsafety hcopied hmain, .inl hnew⟩
      · have hkept : ∀ p, p ≠ paths.db.withExtension "tmp" → now.file p = mid.file p :=
          fun p hp => Replacing.file_of_startedOn hwrite hdone hp
        refine losesNothing_of_live hexact (hlive.congr (hkept _ ?_) (hkept _ ?_)
          (hkept _ hapart.db_tmp)) hmain harchived himage
        · exact Path.ne_of_name_ne (by simp)
        · exact Path.ne_of_name_ne (by simp)

/-! ## Calls -/

theorem run_saving {raw : Bytes} {phase : WritePhase} {events : List WriteEvent}
    (h : Run (ReplaceStep (inputs.safety paths) raw) ⟨.opening, fs⟩ events ⟨phase, mid⟩) :
    Run (RestoreStep P sqlite paths inputs) ⟨.saving raw .opening, fs⟩ (events.map .wrote)
      ⟨.saving raw phase, mid⟩ :=
  h.map (fun r => (⟨.saving raw r.phase, r.fs⟩ : Restoring)) RestoreEvent.wrote
    fun _ _ _ => RestoreStep.saving

theorem run_replacing {phase : WritePhase} {events : List WriteEvent}
    (h : Run (ReplaceStep paths.db inputs.image) ⟨.opening, fs⟩ events ⟨phase, mid⟩) :
    Run (RestoreStep P sqlite paths inputs) ⟨.replacing .opening, fs⟩ (events.map .wrote)
      ⟨.replacing phase, mid⟩ :=
  h.map (fun r => (⟨.replacing r.phase, r.fs⟩ : Restoring)) RestoreEvent.wrote
    fun _ _ _ => RestoreStep.replacing

variable (P sqlite paths inputs) in
/-- **Making the copy is a run.** -/
theorem create_is_run (disk : Disk) (draw : Except RandomError Nonce) (fs : FileSystem) :
    ∃ events phase, Run (RestoreStep P sqlite paths inputs) (start fs) events ⟨phase,
        (Backup.create P sqlite paths disk inputs.sql inputs.outerKek draw inputs.unixTime fs).2⟩ ∧
      ∀ safety, (Backup.create P sqlite paths disk inputs.sql inputs.outerKek draw
        inputs.unixTime fs).1 = .ok safety → ∃ raw, phase = .saving raw .done := by
  have hfolded : Run (RestoreStep P sqlite paths inputs) (start fs) [.folded]
      ⟨.copying, Backup.checkpoint sqlite paths inputs.sql fs⟩ := .single .folded
  by_cases hdb : fs.holds paths.db = true
  · simp only [Backup.create, Backup.createAfter, Stateful.bind_apply, Stateful.read_apply, hdb,
      Bool.not_true, Bool.false_eq_true, if_false, Stateful.modify_apply, Stateful.lift_apply,
      Stateful.mapError_apply, Disk.attempt]
    cases hread : disk.read paths.db (Backup.checkpoint sqlite paths inputs.sql fs) with
    | error e => rcases e with e | _ <;> exact ⟨_, _, hfolded, fun _ h => by cases h⟩
    | ok plaintext =>
        obtain ⟨_, main, hmain, rfl⟩ := (Disk.read_eq_ok_iff ..).mp hread
        cases draw with
        | error e => exact ⟨_, _, hfolded, by simp⟩
        | ok nonce =>
            cases henc : P.aead.enc (Backup.backupKey P inputs.outerKek) nonce Backup.magic
                main.contents with
            | none =>
                simp only [Fallible.mapError_ok, Fallible.ofExcept_ok, henc, Fallible.ofOption]
                exact ⟨_, _, hfolded, by simp⟩
            | some ct =>
                have hcopied : Run (RestoreStep P sqlite paths inputs) (start fs)
                    [.folded, .copied] ⟨.saving (Backup.magic ++ nonce.bytes ++ ct) .opening,
                      Backup.checkpoint sqlite paths inputs.sql fs⟩ :=
                  hfolded.append (.single (.copied hmain ⟨nonce, ct, henc, rfl⟩))
                simp only [Fallible.mapError_ok, Fallible.ofExcept_ok, henc, Fallible.ofOption_some]
                cases hdir : disk.fault (.createDir paths.backups) with
                | some e => exact ⟨_, _, hcopied, by simp⟩
                | none =>
                    obtain ⟨events, phase, hwrite, hdone⟩ := writePrivateAtomic_is_run disk
                      (inputs.safety paths) (Backup.magic ++ nonce.bytes ++ ct)
                      (Backup.checkpoint sqlite paths inputs.sql fs)
                    have hsaving := hcopied.append (run_saving hwrite)
                    simp only [Fallible.mapError_ok]
                    rcases hresult : writePrivateAtomic disk (inputs.safety paths)
                      (Backup.magic ++ nonce.bytes ++ ct)
                      (Backup.checkpoint sqlite paths inputs.sql fs) with ⟨e | _, fs'⟩
                    · rw [hresult] at hsaving
                      rw [RestoreInputs.safety] at hresult
                      rw [hresult]
                      rcases e with e | _ <;> exact ⟨_, _, hsaving, fun _ h => by cases h⟩
                    · rw [hresult] at hsaving hdone
                      rw [RestoreInputs.safety] at hresult
                      rw [hresult]
                      exact ⟨_, _, hsaving, fun _ _ => ⟨_, by rw [hdone.mp rfl]⟩⟩
  · simp only [Backup.create, Backup.createAfter, Stateful.bind_apply, Stateful.read_apply, hdb]
    exact ⟨[], .folding, .nil _, by simp⟩

variable (P sqlite paths inputs) in
theorem run_removing (disk : Disk) (fs : FileSystem) :
    ∃ events, Run (RestoreStep P sqlite paths inputs) ⟨.removing ["-wal", "-shm"], fs⟩ events
      ⟨.replacing .opening,
        disk.discard (paths.dbSidecar "-shm") (disk.discard (paths.dbSidecar "-wal") fs)⟩ := by
  have hone : ∀ suffix left (fs : FileSystem), ∃ event, RestoreStep P sqlite paths inputs
      ⟨.removing (suffix :: left), fs⟩ event
      ⟨.removing left, disk.discard (paths.dbSidecar suffix) fs⟩ := by
    intro suffix left fs
    unfold Disk.discard
    split
    · exact ⟨_, .left⟩
    · exact ⟨_, .removed⟩
  obtain ⟨_, hwal⟩ := hone "-wal" ["-shm"] fs
  obtain ⟨_, hshm⟩ := hone "-shm" [] _
  exact ⟨_, .cons hwal (.cons hshm (.single .toReplacing))⟩

variable {env : Platform} {run : Invocation} {s : Session} {opened : FileSystem} {image : Bytes}

/-- What a run of the command works with, once it has the archived bytes. -/
def inputsOf (run : Invocation) (s : Session) (image : Bytes) : RestoreInputs :=
  ⟨run.checkpoint, s.outerKek, run.unixTime, image⟩

/-- **A call is a run.** What the command leaves behind, refused or not, is a state of a run
from what opening the vault has left. -/
theorem cmdRestoreApply_is_run (hopen : openLockedOnly env paths run fs = (.ok (s, d), opened))
    (hrestored : ∀ image', Backup.restore env.primitives run.disk archive s.outerKek opened =
      .ok image' → image' = image) :
    ∃ events phase, Run (RestoreStep env.primitives env.sqlite paths (inputsOf run s image))
      (start opened) events ⟨phase, (cmdRestoreApply env paths run archive fs).2⟩ := by
  rw [cmdRestoreApply, Stateful.bind_of_ok hopen]
  simp only [Stateful.bind_apply, Stateful.read_apply, Stateful.lift_apply]
  cases hrestore : Backup.restore env.primitives run.disk archive s.outerKek opened with
  | error e => rcases e with e | _ <;> exact ⟨[], _, .nil _⟩
  | ok image' =>
      obtain rfl := hrestored _ hrestore
      cases hconfirmed : run.confirmed with
      | error e => exact ⟨[], _, .nil _⟩
      | ok goOn =>
          cases goOn with
          | false => exact ⟨[], _, .nil _⟩
          | true =>
              obtain ⟨_, phase, hcopy, hsaved⟩ : ∃ events phase,
                  Run (RestoreStep env.primitives env.sqlite paths (inputsOf run s image'))
                    (start opened) events ⟨phase, (Backup.create env.primitives env.sqlite paths
                      run.disk run.checkpoint s.outerKek run.backupNonce run.unixTime opened).2⟩ ∧
                  _ := create_is_run env.primitives env.sqlite paths (inputsOf run s image')
                    run.disk run.backupNonce opened
              simp only [Fallible.mapError_ok, Bool.not_true, Bool.false_eq_true, if_false]
              rcases hcreate : Backup.create env.primitives env.sqlite paths run.disk
                run.checkpoint s.outerKek run.backupNonce run.unixTime opened with ⟨e | safety, mid⟩
              · rw [hcreate] at hcopy
                rw [Stateful.bind_apply, Stateful.mapError_apply, hcreate]
                rcases e with e | _ <;> exact ⟨_, _, hcopy⟩
              · obtain ⟨raw, rfl⟩ := hsaved safety (congrArg Prod.fst hcreate)
                rw [hcreate] at hcopy
                rw [Stateful.bind_of_ok ((Stateful.mapError_eq_ok_iff ..).mpr hcreate),
                  Stateful.bind_of_ok (Stateful.modify_apply ..),
                  Stateful.bind_of_ok (Stateful.modify_apply ..), Stateful.snd_bind_pure]
                obtain ⟨_, hremoving⟩ := run_removing env.primitives env.sqlite paths
                  (inputsOf run s image') run.disk mid
                obtain ⟨_, _, hwrite, _⟩ := writePrivateAtomic_is_run run.disk paths.db
                  (inputsOf run s image').image (run.disk.discard (paths.dbSidecar "-shm")
                    (run.disk.discard (paths.dbSidecar "-wal") mid))
                exact ⟨_, _, (hcopy.append (.cons .toRemoving hremoving)).append
                  (run_replacing hwrite)⟩

/-! ## Nothing is lost -/

/-- **A restore loses nothing.** The vault has been opened with the outer key under which the
archive was made, the checkpoint is not refused, and the archive is not where the restore
writes. Then wherever the restore stops, killed at any step or refused anything, the live
database is the old one or the archived one in full, and each of the two is live or in an
archive that gives it back. -/
theorem restore_loses_nothing (hexact : env.primitives.aead.Exact) (hsqlite : env.sqlite.Lawful)
    (hopen : openLockedOnly env paths run fs = (.ok (s, d), opened))
    (hconnect : run.checkpoint.fault .connect = none)
    (hcheckpoint : run.checkpoint.fault .checkpoint = none) (hfile : fs.file archive = some f)
    (harchived : Backup.Archived env.primitives s.outerKek image f.contents)
    (himage : env.sqlite.load image none = .ok d')
    (hapart : Apart paths (inputsOf run s image) archive) :
    (∀ events r, Run (RestoreStep env.primitives env.sqlite paths (inputsOf run s image))
      (start opened) events r →
      LosesNothing env.primitives env.sqlite paths s.outerKek d d' r.fs) ∧
    LosesNothing env.primitives env.sqlite paths s.outerKek d d'
      (cmdRestoreApply env paths run archive fs).2 := by
  obtain ⟨_, _, _, _, _, _, _, _, _, _, _, _, hopened, _⟩ := (openLockedOnly_eq_ok_iff ..).mp hopen
  have hread : readDatabase env.sqlite paths opened = .ok d := by
    rw [hopened]
    exact readDatabase_opened hsqlite d fs
  have hkept : opened.file archive = some f := by
    rw [hopened, file_opened_of_beside _ hapart.beside, hfile]
  have hfolded : Backup.checkpoint env.sqlite paths (inputsOf run s image).sql opened =
      writeDatabase env.sqlite paths d opened := by
    simp [Backup.checkpoint, inputsOf, hconnect, hcheckpoint, hread]
  obtain ⟨⟨mode, hmain⟩, hlog⟩ := file_writeDatabase env.sqlite paths d opened
  have hruns : ∀ events r, Run (RestoreStep env.primitives env.sqlite paths (inputsOf run s image))
      (start opened) events r →
      LosesNothing env.primitives env.sqlite paths s.outerKek d d' r.fs := by
    intro events r hrun
    have hstarted : StartedOn env.primitives paths (inputsOf run s image) (env.sqlite.image d)
        archive opened r :=
      startedOn_of_run hrun hapart (by rw [hfolded, hmain]; rfl) (by rw [hfolded, hlog])
    exact losesNothing_of_startedOn hexact hstarted hapart hread (hsqlite.image d) hkept harchived
      himage
  refine ⟨hruns, ?_⟩
  have hunique : ∀ image', Backup.restore env.primitives run.disk archive s.outerKek opened =
      .ok image' → image' = image := by
    intro image' hrestored
    obtain ⟨hdisk, _⟩ := (Backup.restore_eq_ok_iff hexact ..).mp hrestored
    have hgiven : Backup.restore env.primitives run.disk archive s.outerKek opened = .ok image :=
      (Backup.restore_eq_ok_iff hexact ..).mpr ⟨hdisk, f, hkept, harchived⟩
    exact Except.ok.inj (hrestored.symm.trans hgiven)
  obtain ⟨events, _, hrun⟩ := cmdRestoreApply_is_run hopen hunique
  exact hruns events _ hrun

/-- An archive that was made in the first second is restored in the next. -/
theorem the_next_second_restores : ∃ fs archive run s d d' opened,
    openLockedOnly .reference .reference run fs = (.ok (s, d), opened) ∧
    LosesNothing .reference .reference .reference s.outerKek d d'
      (cmdRestoreApply .reference .reference run archive fs).2 := by
  obtain ⟨fs₀, keys, outerKek, _, _, hholds⟩ := exists_holdsVault_working .reference [1] [1]
  obtain ⟨d', hread, hstores⟩ := hholds.database
  let nonce : Nonce := Block.replicate 24 11
  obtain ⟨ct, hct⟩ : ∃ ct, Primitives.reference.aead.enc (Backup.backupKey .reference outerKek)
      nonce Backup.magic (SqliteFormat.reference.image d') = some ct := ⟨_, rfl⟩
  let archive := Backup.archivePath .reference 0
  let made : File := ⟨Backup.magic ++ nonce.bytes ++ ct, 0o600⟩
  have hroot : ∀ p : Path, p.dir = VaultPaths.reference.root →
      (fs₀.put archive made).file p = fs₀.file p := fun p hp =>
    FileSystem.file_put_of_ne _ (Path.ne_of_dir_ne (by rw [hp]; exact (backups_ne_root _).symm))
  have hsealed := hholds.sealed.congr (hroot _ rfl) (hroot _ rfl)
  have hread' : readDatabase .reference .reference (fs₀.put archive made) = .ok d' := by
    rw [← hread]
    unfold readDatabase
    rw [hroot _ rfl, hroot _ rfl]
    rfl
  let run : Invocation := { Invocation.working (.token [1] [1]) "" with unixTime := 1 }
  have hundisturbed : run.Undisturbed :=
    ⟨fun _ => rfl, fun _ => rfl, fun _ => rfl, fun _ => rfl, ⟨_, rfl⟩, rfl⟩
  have hholds' : HoldsVault .reference .reference (fs₀.put archive made) _ _ :=
    ⟨⟨d', hread', hstores⟩, hsealed⟩
  obtain ⟨s, d, opened, hopen, houter⟩ := exists_openLockedOnly hundisturbed
    hholds'.liveVaultOpens hsealed (exists_loadConfig_reference .reference rfl _)
  refine ⟨fs₀.put archive made, archive, run, s, d, d', opened, hopen, ?_⟩
  have hapart : Apart .reference (inputsOf run s (SqliteFormat.reference.image d')) archive :=
    apart_of_isArchivePath (Backup.isArchivePath_archivePath _ _)
      fun h => Nat.zero_ne_one (Backup.archivePath_injective _ h)
  exact (restore_loses_nothing Primitives.reference_lawful.exact SqliteFormat.reference_lawful hopen
    rfl rfl (FileSystem.file_put_self _) ⟨nonce, ct, houter ▸ hct, rfl⟩
    (SqliteFormat.reference_lawful.image d') hapart).2

end Restoring

end Sypherstore
