/-
# The vault directory

Files by path, and the one way in which the program replaces a file
(`vault/paths.rs`).

A run of a command sees a disk that may refuse any of its steps. No step is undone
when a later one is refused, so the state behind an error is also what a crash at
that point would leave. Directories are not tracked: creating one either succeeds or
is refused.
-/

import Mathlib.Data.List.AList
import Sypherstore.Logic.Bytes

namespace Sypherstore

open Logic

/-- A file name in a directory. -/
structure Path where
  dir : String
  name : String
  deriving DecidableEq, Repr

namespace Path

/-- The characters in front of the last dot, unless the name starts with it. -/
def stem (chars : List Char) : List Char :=
  match (chars.reverse.dropWhile (· ≠ '.')).reverse.dropLast with
  | [] => chars
  | front => front

/-- `Path::with_extension`. -/
def withExtension (p : Path) (extension : String) : Path :=
  { p with name := String.ofList (stem p.name.toList ++ '.' :: extension.toList) }

end Path

theorem Path.ne_of_name_ne {p q : Path} (h : p.name ≠ q.name) : p ≠ q :=
  fun heq => h (congrArg Path.name heq)

theorem Path.ne_of_dir_ne {p q : Path} (h : p.dir ≠ q.dir) : p ≠ q :=
  fun heq => h (congrArg Path.dir heq)

/-- An error of the file system. -/
inductive IoError where
  | notFound
  | other (message : String)
  deriving DecidableEq, Repr

inductive PathError where
  /-- "could not determine the XDG data directory" -/
  | noDataDir
  | io (e : IoError)
  deriving DecidableEq, Repr

structure File where
  contents : Bytes
  mode : ℕ
  deriving DecidableEq

/-- The files there are, by path. -/
structure FileSystem where
  files : AList fun _ : Path => File

namespace FileSystem

def empty : FileSystem := ⟨∅⟩

def file (fs : FileSystem) (p : Path) : Option File := fs.files.lookup p

/-- `Path::exists`. -/
def holds (fs : FileSystem) (p : Path) : Bool := (fs.file p).isSome

def put (fs : FileSystem) (p : Path) (f : File) : FileSystem := ⟨fs.files.insert p f⟩

def remove (fs : FileSystem) (p : Path) : FileSystem := ⟨fs.files.erase p⟩

/-- Set the contents of a file. The mode is that of a new file, and an old file keeps
its own. -/
def store (fs : FileSystem) (p : Path) (contents : Bytes) (mode : ℕ) : FileSystem :=
  fs.put p ⟨contents, ((fs.file p).map File.mode).getD mode⟩

/-- `rename`, onto a file or beside it. -/
def rename (fs : FileSystem) (source target : Path) : FileSystem :=
  if source = target then fs
  else
    match fs.file source with
    | some f => (fs.put target f).remove source
    | none => fs

variable {fs : FileSystem} {p q : Path}

@[simp] theorem file_put_self (f : File) : (fs.put p f).file p = some f :=
  AList.lookup_insert fs.files

theorem file_put_of_ne (f : File) (h : q ≠ p) : (fs.put p f).file q = fs.file q :=
  AList.lookup_insert_ne h

@[simp] theorem file_remove_self : (fs.remove p).file p = none := AList.lookup_erase p fs.files

theorem file_remove_of_ne (h : q ≠ p) : (fs.remove p).file q = fs.file q :=
  AList.lookup_erase_ne h

@[simp] theorem file_store_self (contents : Bytes) (mode : ℕ) :
    ((fs.store p contents mode).file p).map File.contents = some contents := by
  rw [store, file_put_self]
  rfl

theorem file_store_of_ne (contents : Bytes) (mode : ℕ) (h : q ≠ p) :
    (fs.store p contents mode).file q = fs.file q := file_put_of_ne _ h

theorem holds_iff : fs.holds p = true ↔ ∃ f, fs.file p = some f := Option.isSome_iff_exists

end FileSystem

/-! ## Steps on the disk -/

/-- What can be refused. The four steps of replacing a file are named after the file,
not after the temporary one they work on. -/
inductive IoStep where
  | createDir (dir : String)
  | setMode (p : Path)
  | setDirMode (dir : String)
  | read (p : Path)
  | createTmp (p : Path)
  | writeTmp (p : Path)
  | syncTmp (p : Path)
  | renameTmp (p : Path)
  | remove (p : Path)
  deriving DecidableEq, Repr

/-- How the disk behaves during one command. -/
structure Disk where
  /-- The error a step is refused with, if it is. -/
  fault : IoStep → Option IoError
  /-- How many bytes reach the temporary file when writing it is refused. -/
  reached : Path → ℕ

/-- A disk that refuses nothing. -/
def Disk.reliable : Disk where
  fault _ := none
  reached _ := 0

namespace Disk

/-- A step of the program that needs the disk. -/
def attempt (disk : Disk) (step : IoStep) : Stateful FileSystem PathError Unit := fun fs =>
  match disk.fault step with
  | some e => (.error (.error (.io e)), fs)
  | none => (.ok (), fs)

/-- `fs::read`. -/
def read (disk : Disk) (p : Path) (fs : FileSystem) : Fallible PathError Bytes :=
  match disk.fault (.read p), fs.file p with
  | some e, _ => .error (.error (.io e))
  | none, none => .error (.error (.io .notFound))
  | none, some f => .ok f.contents

/-- `write_all` to the open temporary file: when it is refused, the file holds some of
the contents. -/
def writeAll (disk : Disk) (p : Path) (contents : Bytes) : Stateful FileSystem PathError Unit :=
  fun fs =>
    match disk.fault (.writeTmp p) with
    | some e => (.error (.error (.io e)),
        fs.store (p.withExtension "tmp") (contents.take (disk.reached p)) 0)
    | none => (.ok (), fs.store (p.withExtension "tmp") contents 0)

/-- Several steps that change no file, in order. -/
def attemptAll (disk : Disk) : List IoStep → Stateful FileSystem PathError Unit
  | [] => pure ()
  | step :: rest => do
      disk.attempt step
      disk.attemptAll rest

theorem attemptAll_cases (disk : Disk) (steps : List IoStep) (fs : FileSystem) :
    ((∀ step ∈ steps, disk.fault step = none) ∧ disk.attemptAll steps fs = (.ok (), fs)) ∨
    (¬ (∀ step ∈ steps, disk.fault step = none) ∧
      ∃ e, disk.attemptAll steps fs = (.error (.error e), fs)) := by
  induction steps with
  | nil => exact .inl ⟨by simp, rfl⟩
  | cons step rest ih =>
      simp only [List.forall_mem_cons, attemptAll, Stateful.bind_apply, attempt]
      cases h : disk.fault step with
      | some e => exact .inr ⟨by simp, _, rfl⟩
      | none => simpa using ih

theorem attempt_eq_ok_iff (disk : Disk) (step : IoStep) (fs fs' : FileSystem) (u : Unit) :
    disk.attempt step fs = (.ok u, fs') ↔ disk.fault step = none ∧ fs' = fs := by
  unfold attempt
  cases h : disk.fault step with
  | some e => simp
  | none => simp [eq_comm]

theorem read_eq_ok_iff (disk : Disk) (p : Path) (fs : FileSystem) (contents : Bytes) :
    disk.read p fs = .ok contents ↔
      disk.fault (.read p) = none ∧ ∃ f, fs.file p = some f ∧ f.contents = contents := by
  unfold read
  cases disk.fault (.read p) with
  | some e => simp
  | none =>
      cases fs.file p with
      | none => simp
      | some f => simp

end Disk

/-- Writes `contents` to `path` through a temporary file and a rename. -/
def writePrivateAtomic (disk : Disk) (path : Path) (contents : Bytes) :
    Stateful FileSystem PathError Unit := do
  let tmp := path.withExtension "tmp"
  disk.attempt (.createTmp path)
  Stateful.modify fun fs => fs.store tmp [] 0o600
  disk.writeAll path contents
  disk.attempt (.syncTmp path)
  disk.attempt (.renameTmp path)
  Stateful.modify fun fs => fs.rename tmp path

/-- No step of writing this file is refused. -/
def Disk.Writes (disk : Disk) (path : Path) : Prop :=
  ∀ step ∈ [IoStep.createTmp path, .writeTmp path, .syncTmp path, .renameTmp path],
    disk.fault step = none

/-- The file system after the file has been replaced. -/
def FileSystem.replaced (fs : FileSystem) (path : Path) (contents : Bytes) : FileSystem :=
  ((fs.store (path.withExtension "tmp") [] 0o600).store (path.withExtension "tmp")
    contents 0).rename (path.withExtension "tmp") path

/-- **Atomic replacement.** Either no step is refused and the file is replaced, or
nothing but the temporary file has changed. -/
theorem writePrivateAtomic_cases (disk : Disk) (path : Path) (contents : Bytes)
    (fs : FileSystem) :
    (disk.Writes path ∧
      writePrivateAtomic disk path contents fs = (.ok (), fs.replaced path contents)) ∨
    (¬ disk.Writes path ∧ ∃ e fs', writePrivateAtomic disk path contents fs =
      (.error (.error e), fs') ∧ ∀ q, q ≠ path.withExtension "tmp" → fs'.file q = fs.file q) := by
  unfold Disk.Writes
  simp only [List.forall_mem_cons, writePrivateAtomic, Stateful.bind_apply, Disk.attempt,
    Disk.writeAll, Stateful.modify_apply]
  have hkept : ∀ contents' q, q ≠ path.withExtension "tmp" →
      ((fs.store (path.withExtension "tmp") [] 0o600).store (path.withExtension "tmp")
        contents' 0).file q = fs.file q := by
    intro contents' q hq
    rw [FileSystem.file_store_of_ne _ _ hq, FileSystem.file_store_of_ne _ _ hq]
  cases hcreate : disk.fault (.createTmp path) with
  | some e => exact .inr ⟨by simp, _, fs, rfl, fun _ _ => rfl⟩
  | none =>
      cases hwrite : disk.fault (.writeTmp path) with
      | some e => exact .inr ⟨by simp, _, _, rfl, hkept _⟩
      | none =>
          cases hsync : disk.fault (.syncTmp path) with
          | some e => exact .inr ⟨by simp, _, _, rfl, hkept _⟩
          | none =>
              cases hrename : disk.fault (.renameTmp path) with
              | some e => exact .inr ⟨by simp, _, _, rfl, hkept _⟩
              | none => exact .inl ⟨by simp, rfl⟩

theorem writePrivateAtomic_eq_ok_iff (disk : Disk) (path : Path) (contents : Bytes)
    (fs fs' : FileSystem) (u : Unit) :
    writePrivateAtomic disk path contents fs = (.ok u, fs') ↔
      disk.Writes path ∧ fs' = fs.replaced path contents := by
  rcases writePrivateAtomic_cases disk path contents fs with ⟨hwrites, h⟩ | ⟨hwrites, e, _, h, _⟩
  · simp [h, hwrites, eq_comm]
  · simp [h, hwrites]

theorem FileSystem.replaced_self (fs : FileSystem) (path : Path) (contents : Bytes) :
    ∃ mode, (fs.replaced path contents).file path = some ⟨contents, mode⟩ := by
  unfold replaced rename
  split
  · rename_i hsame
    rw [hsame]
    exact ⟨_, file_put_self _⟩
  · rename_i hne
    simp only [store, file_put_self]
    rw [file_remove_of_ne (Ne.symm hne)]
    exact ⟨_, file_put_self _⟩

theorem FileSystem.replaced_of_ne (fs : FileSystem) {path q : Path} (contents : Bytes)
    (hq : q ≠ path) (htmp : q ≠ path.withExtension "tmp") :
    (fs.replaced path contents).file q = fs.file q := by
  unfold replaced rename
  split
  · rw [file_store_of_ne _ _ htmp, file_store_of_ne _ _ htmp]
  · simp only [store, file_put_self]
    rw [file_remove_of_ne htmp, file_put_of_ne _ hq, file_put_of_ne _ htmp, file_put_of_ne _ htmp]

/-! ## The files of a vault -/

/-- The set of paths that make up a vault directory. -/
structure VaultPaths where
  root : String
  deriving DecidableEq, Repr

namespace VaultPaths

variable (paths : VaultPaths)

/-- The SQLite database. -/
def db : Path := ⟨paths.root, "vault.db"⟩

/-- Non-secret configuration. -/
def config : Path := ⟨paths.root, "config.json"⟩

/-- TPM-sealed public area for the outer key. -/
def tpmSealedPub : Path := ⟨paths.root, "tpm_sealed.pub"⟩

/-- TPM-sealed private area for the outer key. -/
def tpmSealedPriv : Path := ⟨paths.root, "tpm_sealed.priv"⟩

def icons : String := paths.root ++ "/icons"

/-- Encrypted vault backups. -/
def backups : String := paths.root ++ "/backups"

/-! ### Names

Two files of a vault differ when their names do. -/

@[simp] theorem name_db : paths.db.name = "vault.db" := rfl

@[simp] theorem name_config : paths.config.name = "config.json" := rfl

@[simp] theorem name_tpmSealedPub : paths.tpmSealedPub.name = "tpm_sealed.pub" := rfl

@[simp] theorem name_tpmSealedPriv : paths.tpmSealedPriv.name = "tpm_sealed.priv" := rfl

@[simp] theorem name_db_tmp : (paths.db.withExtension "tmp").name = "vault.tmp" := by
  show String.ofList (Path.stem "vault.db".toList ++ '.' :: "tmp".toList) = "vault.tmp"
  decide

@[simp] theorem name_config_tmp : (paths.config.withExtension "tmp").name = "config.tmp" := by
  show String.ofList (Path.stem "config.json".toList ++ '.' :: "tmp".toList) = "config.tmp"
  decide

@[simp] theorem name_tpmSealedPub_tmp :
    (paths.tpmSealedPub.withExtension "tmp").name = "tpm_sealed.tmp" := by
  show String.ofList (Path.stem "tpm_sealed.pub".toList ++ '.' :: "tmp".toList) = "tpm_sealed.tmp"
  decide

@[simp] theorem name_tpmSealedPriv_tmp :
    (paths.tpmSealedPriv.withExtension "tmp").name = "tpm_sealed.tmp" := by
  show String.ofList (Path.stem "tpm_sealed.priv".toList ++ '.' :: "tmp".toList) = "tpm_sealed.tmp"
  decide

/-- Whether this looks like an initialized vault. -/
def isInitialized (fs : FileSystem) : Bool := fs.holds paths.db

/-- The steps of creating the directory tree, directory by directory. -/
def dirSteps : List IoStep :=
  [paths.root, paths.icons, paths.backups].flatMap fun dir => [.createDir dir, .setDirMode dir]

/-- Creates the vault directory tree with owner-only permissions. -/
def ensureDirs (disk : Disk) : Stateful FileSystem PathError Unit :=
  disk.attemptAll paths.dirSteps

/-- Creating the directories is not refused. -/
def DirsReady (disk : Disk) : Prop := ∀ step ∈ paths.dirSteps, disk.fault step = none

theorem ensureDirs_cases (disk : Disk) (fs : FileSystem) :
    (paths.DirsReady disk ∧ paths.ensureDirs disk fs = (.ok (), fs)) ∨
    (¬ paths.DirsReady disk ∧ ∃ e, paths.ensureDirs disk fs = (.error (.error e), fs)) :=
  disk.attemptAll_cases paths.dirSteps fs

theorem ensureDirs_eq_ok_iff (disk : Disk) (fs fs' : FileSystem) (u : Unit) :
    paths.ensureDirs disk fs = (.ok u, fs') ↔ paths.DirsReady disk ∧ fs' = fs := by
  rcases paths.ensureDirs_cases disk fs with ⟨hready, h⟩ | ⟨hready, e, h⟩
  · simp [h, hready, eq_comm]
  · simp [h, hready]

theorem ensureDirs_keeps (disk : Disk) (I : FileSystem → Prop) :
    Stateful.Keeps I (paths.ensureDirs disk) := by
  intro fs hfs
  rcases paths.ensureDirs_cases disk fs with ⟨_, h⟩ | ⟨_, e, h⟩
  · rw [h]
    exact hfs
  · rw [h]
    exact hfs

end VaultPaths

/-- Restricts a file to `0600`. -/
def setOwnerOnly (disk : Disk) (p : Path) : Stateful FileSystem PathError Unit := do
  disk.attempt (.setMode p)
  Stateful.modify fun fs =>
    match fs.file p with
    | some f => fs.put p { f with mode := 0o600 }
    | none => fs

example : (VaultPaths.mk "v").db.withExtension "tmp" = ⟨"v", "vault.tmp"⟩ := by decide

end Sypherstore
