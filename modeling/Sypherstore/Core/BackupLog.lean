/-
# Backups while the database is in use

`create` reads the main file of the database and nothing else, after a checkpoint that
is to have emptied the log. What comes of the checkpoint is ignored: the connection may
not open, the pragma may be refused, and it reports as a row, not as an error, that
another connection has kept it from getting to the end. Here the database is in use by
other connections while `create` runs, and the archive is compared with what had been
committed when it was called.
-/

import Sypherstore.Core.Backup
import Sypherstore.Logic.WriteAhead

namespace Sypherstore

open Logic

variable {τ : Type}

/-- How SQLite lays a main file out, seen as a list of transactions: the file of those
that have been folded into it, and what is found in a file without a log. -/
structure LogFormat (τ : Type) where
  image : List τ → Bytes
  contents : Bytes → Option (List τ)
  contents_image : ∀ transactions, contents (image transactions) = some transactions

/-- A database in use: its transactions, and the files, which hold those of the main
file. -/
structure LiveDatabase (format : LogFormat τ) (paths : VaultPaths) where
  log : WriteAhead τ
  fs : FileSystem
  inMain : (fs.file paths.db).map File.contents = some (format.image log.main)

namespace LiveDatabase

variable {format : LogFormat τ} {paths : VaultPaths}

/-- The database after other connections and checkpoints have been at it. -/
def run (live : LiveDatabase format paths) (events : List (WriteAhead.Event τ)) :
    LiveDatabase format paths where
  log := live.log.run events
  fs := live.fs.store paths.db (format.image (live.log.run events).main) 0o644
  inMain := FileSystem.file_store_self _ _

end LiveDatabase

namespace Backup

/-- What comes of the connection that `checkpoint` opens. -/
inductive CheckpointRun where
  /-- `Connection::open` failed. -/
  | notOpened (e : SqliteError)
  /-- What the pragma returned, which says whether it was kept from finishing, and how
  many transactions had been moved when the connection was closed. -/
  | opened (pragma : Except SqliteError Bool) (count : ℕ)

/-- `checkpoint`, which ignores the outcome. -/
def CheckpointRun.events : CheckpointRun → List (WriteAhead.Event τ)
  | .notOpened _ => []
  | .opened _ count => [.fold count]

/-- What becomes of the database between the call of `create` and its reading of the main
file: other connections, the checkpoint, and other connections again. -/
def duringCreate (before : List (WriteAhead.Event τ)) (checkpoint : CheckpointRun)
    (after : List (WriteAhead.Event τ)) : List (WriteAhead.Event τ) :=
  before ++ checkpoint.events ++ after

variable {format : LogFormat τ} {paths : VaultPaths}

/-- `create` on a database in use. -/
def createDuring (P : Primitives) (disk : Disk) (live : LiveDatabase format paths)
    (events : List (WriteAhead.Event τ)) (outerKek : Key) (nonce : Except RandomError Nonce)
    (unixTime : ℕ) : Fallible BackupError Path × FileSystem :=
  createAfter P paths disk (fun _ => (live.run events).fs) outerKek nonce unixTime live.fs

/-- The archive at the path decrypts to a database that has every transaction committed
before. -/
def HasEveryCommit (P : Primitives) (live : LiveDatabase format paths) (outerKek : Key)
    (archive : Path) (fs : FileSystem) : Prop :=
  ∃ image transactions, restore P .reliable archive outerKek fs = .ok image ∧
    format.contents image = some transactions ∧ live.log.committed <+: transactions

variable {P : Primitives} {disk : Disk}

/-- What the archive decrypts to: the main file as it was when it was read. -/
theorem restore_createDuring (hexact : P.aead.Exact) {live : LiveDatabase format paths}
    {events : List (WriteAhead.Event τ)} {outerKek : Key} {draw : Except RandomError Nonce}
    {unixTime : ℕ} {path : Path} {fs : FileSystem}
    (hcreate : createDuring P disk live events outerKek draw unixTime = (.ok path, fs)) :
    restore P .reliable path outerKek fs = .ok (format.image (live.log.run events).main) := by
  obtain ⟨_, _, _, _, _, main, nonce, ct, hmain, _, henc, rfl⟩ :=
    (createAfter_eq_ok_iff ..).mp hcreate
  have hcontents := (live.run events).inMain
  rw [hmain] at hcontents
  have himage : main.contents = format.image (live.log.run events).main :=
    Option.some.inj hcontents
  obtain ⟨mode, harchive⟩ := FileSystem.replaced_self (live.run events).fs path
    (magic ++ nonce.bytes ++ ct)
  rw [himage] at henc
  exact (restore_eq_ok_iff hexact ..).mpr ⟨rfl, _, harchive, nonce, ct, henc, rfl⟩

theorem hasEveryCommit_iff_isPrefix (hexact : P.aead.Exact) {live : LiveDatabase format paths}
    {events : List (WriteAhead.Event τ)} {outerKek : Key} {draw : Except RandomError Nonce}
    {unixTime : ℕ} {path : Path} {fs : FileSystem}
    (hcreate : createDuring P disk live events outerKek draw unixTime = (.ok path, fs)) :
    HasEveryCommit P live outerKek path fs ↔
      live.log.committed <+: (live.log.run events).main := by
  have hrestore := restore_createDuring hexact hcreate
  constructor
  · rintro ⟨image, transactions, himage, hcontents, hprefix⟩
    rw [hrestore] at himage
    cases himage
    rw [format.contents_image] at hcontents
    cases hcontents
    exact hprefix
  · intro hprefix
    exact ⟨_, _, hrestore, format.contents_image _, hprefix⟩

/-- **When a backup is complete.** The archive that `create` returns has every transaction
committed before the call exactly when the whole log of that moment had been moved to the
main file by the time it was read. -/
theorem hasEveryCommit_iff (hexact : P.aead.Exact) {live : LiveDatabase format paths}
    {before after : List (WriteAhead.Event τ)} {checkpoint : CheckpointRun} {outerKek : Key}
    {draw : Except RandomError Nonce} {unixTime : ℕ} {path : Path} {fs : FileSystem}
    (hcreate : createDuring P disk live (duringCreate before checkpoint after) outerKek draw
      unixTime = (.ok path, fs)) :
    HasEveryCommit P live outerKek path fs ↔
      live.log.log.length ≤ live.log.moved (duringCreate before checkpoint after) := by
  rw [hasEveryCommit_iff_isPrefix hexact hcreate]
  exact live.log.committed_prefix_main_run_iff _

/-! ## One transaction in the log -/

/-- Transactions of one byte each. -/
private def byteLog : LogFormat UInt8 where
  image transactions := transactions
  contents := some
  contents_image _ := rfl

private def samplePaths : VaultPaths := ⟨"/vault"⟩

/-- One transaction has been folded and one is in the log. -/
private def sampleLive : LiveDatabase byteLog samplePaths where
  log := ⟨[1], [2]⟩
  fs := FileSystem.empty.store samplePaths.db [1] 0o644
  inMain := FileSystem.file_store_self _ _

/-- `create` returns, whatever has been moved. -/
private theorem exists_createDuring_sampleLive (events : List (WriteAhead.Event UInt8)) :
    ∃ fs, createDuring Primitives.reference .reliable sampleLive events
      (Block.replicate keyLen 1) (.ok (Block.replicate 24 2)) 0 =
        (.ok (archivePath samplePaths 0), fs) := by
  obtain ⟨main, hmain, _⟩ := Option.map_eq_some_iff.mp (sampleLive.run events).inMain
  exact ⟨_, (createAfter_eq_ok_iff ..).mpr ⟨rfl, rfl, rfl, fun _ _ => rfl, rfl, main, _, _, hmain,
    rfl, rfl, rfl⟩⟩

/-- The checkpoint moves the transaction, and another connection commits one more. -/
theorem backup_after_checkpoint_is_complete :
    ∃ path fs, createDuring Primitives.reference .reliable sampleLive
        (duringCreate [] (.opened (.ok false) 1) [.commit 3]) (Block.replicate keyLen 1)
        (.ok (Block.replicate 24 2)) 0 = (.ok path, fs) ∧
      HasEveryCommit Primitives.reference sampleLive (Block.replicate keyLen 1) path fs := by
  obtain ⟨fs, hcreate⟩ :=
    exists_createDuring_sampleLive (duringCreate [] (.opened (.ok false) 1) [.commit 3])
  exact ⟨_, fs, hcreate,
    (hasEveryCommit_iff Aead.framed_exact hcreate).mpr (by decide)⟩

/-- Another connection keeps the checkpoint from moving anything, and `create` returns an
archive without the transaction in the log. -/
theorem backup_after_blocked_checkpoint_is_incomplete :
    ∃ path fs, createDuring Primitives.reference .reliable sampleLive
        (duringCreate [] (.opened (.ok true) 0) []) (Block.replicate keyLen 1)
        (.ok (Block.replicate 24 2)) 0 = (.ok path, fs) ∧
      ¬ HasEveryCommit Primitives.reference sampleLive (Block.replicate keyLen 1) path fs := by
  obtain ⟨fs, hcreate⟩ :=
    exists_createDuring_sampleLive (duringCreate [] (.opened (.ok true) 0) [])
  refine ⟨_, fs, hcreate, fun hcomplete => ?_⟩
  have hprefix := (hasEveryCommit_iff_isPrefix Aead.framed_exact hcreate).mp
    hcomplete
  revert hprefix
  decide

end Backup

end Sypherstore
