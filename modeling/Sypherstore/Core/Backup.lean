/-
# Encrypted backups

Archives of the whole database file (`vault/backup.rs`), encrypted under a key derived
from the outer key.
-/

import Sypherstore.Core.DbFile

namespace Sypherstore

open Logic

inductive BackupError where
  /-- "not a Sypherstore backup archive" -/
  | badMagic
  /-- "the backup is truncated" -/
  | truncated
  /-- "could not decrypt the backup: wrong machine, or the file is damaged" -/
  | decrypt
  /-- "no vault database to back up at {0}" -/
  | noVault (db : Path)
  | key (e : KeyError)
  | path (e : PathError)
  deriving DecidableEq

namespace Backup

/-- Magic and version for the archive format. -/
def magic : Bytes := ascii "SYPHBAK1"

@[simp] theorem length_magic : magic.length = 8 := by decide

/-- HKDF info separating the backup key from every other use of the outer key. -/
def infoBackup : Bytes := ascii "sypherstore/v1/backup"

/-- Derives the archive key from the vault's outer key. -/
def backupKey (P : Primitives) (outerKek : Key) : Key := P.hkdfExpand outerKek infoBackup

/-! ## Names -/

/-- Year, month and day of a number of days since 1970-01-01. -/
def civilFromDays (z : ℤ) : ℤ × ℕ × ℕ :=
  let z := z + 719468
  let era := z / 146097
  let doe := z % 146097
  let yoe := (doe - doe.tdiv 1460 + doe.tdiv 36524 - doe.tdiv 146096).tdiv 365
  let y := yoe + era * 400
  let doy := doe - (365 * yoe + yoe.tdiv 4 - yoe.tdiv 100)
  let mp := (5 * doy + 2).tdiv 153
  let d := (doy - (153 * mp + 2).tdiv 5 + 1).toNat
  let m := (if mp < 10 then mp + 3 else mp - 9).toNat
  (if m ≤ 2 then y + 1 else y, m, d)

/-- A number with leading zeros up to a width. -/
def padded (width n : ℕ) : List Char :=
  List.replicate (width - (Nat.toDigits 10 n).length) '0' ++ Nat.toDigits 10 n

/-- A year with leading zeros up to four characters, one of which may be a sign. -/
def paddedYear (y : ℤ) : List Char :=
  if 0 ≤ y then padded 4 y.toNat else '-' :: padded 3 y.natAbs

/-- UTC timestamp as `YYYYMMDD-HHMMSS`. -/
def timestamp (secs : ℕ) : String :=
  let tod := secs % 86400
  let (y, m, d) := civilFromDays (secs / 86400 : ℕ)
  String.ofList (paddedYear y ++ padded 2 m ++ padded 2 d ++ '-' :: (padded 2 (tod / 3600) ++
    padded 2 (tod % 3600 / 60) ++ padded 2 (tod % 60)))

example : timestamp 1609459200 = "20210101-000000" := by decide

/-- Where an archive goes. -/
def archivePath (paths : VaultPaths) (unixTime : ℕ) : Path :=
  ⟨paths.backups, "vault-" ++ timestamp unixTime ++ ".syphbak"⟩

/-! ## Archives -/

section Archives

variable (P : Primitives) (sqlite : SqliteFormat) (paths : VaultPaths) (disk : Disk) (sql : Sql)

/-- Folds the write-ahead log back into the main database file, if SQLite lets it. -/
def checkpoint (fs : FileSystem) : FileSystem :=
  if (sql.fault .connect).isSome || (sql.fault .checkpoint).isSome then fs
  else
    match readDatabase sqlite paths fs with
    | .ok d => writeDatabase sqlite paths d fs
    | .error _ => fs

/-- `create`, given what becomes of the files while it folds the log back. -/
def createAfter (folded : FileSystem → FileSystem) (outerKek : Key)
    (nonce : Except RandomError Nonce) (unixTime : ℕ) : Stateful FileSystem BackupError Path := do
  let fs ← Stateful.read
  if !fs.holds paths.db then Stateful.raise (.noVault paths.db)
  else do
    Stateful.modify folded
    let fs ← Stateful.read
    let plaintext ← Stateful.lift ((disk.read paths.db fs).mapError .path)
    let nonce ← Stateful.lift ((Fallible.ofExcept nonce).mapError fun e => .key (.random e))
    let ciphertext ← Stateful.lift (Fallible.ofOption .decrypt
      (P.aead.enc (backupKey P outerKek) nonce magic plaintext))
    (disk.attempt (.createDir paths.backups)).mapError .path
    let path := archivePath paths unixTime
    (writePrivateAtomic disk path (magic ++ nonce.bytes ++ ciphertext)).mapError .path
    return path

/-- Writes an encrypted snapshot of the vault database. -/
def create (outerKek : Key) (nonce : Except RandomError Nonce) (unixTime : ℕ) :
    Stateful FileSystem BackupError Path :=
  createAfter P paths disk (checkpoint sqlite paths sql) outerKek nonce unixTime

/-- Decrypts an archive and returns the database bytes. -/
def restore (archive : Path) (outerKek : Key) (fs : FileSystem) : Fallible BackupError Bytes := do
  let raw ← (disk.read archive fs).mapError .path
  if raw.length < magic.length + 24 then Fallible.raise .truncated
  else
    let (mark, rest) ← splitAt raw magic.length
    if mark ≠ magic then Fallible.raise .badMagic
    else
      let (nonceBytes, ciphertext) ← splitAt rest 24
      let nonce ← toBlock 24 nonceBytes
      Fallible.ofOption .decrypt (P.aead.dec (backupKey P outerKek) nonce magic ciphertext)

/-- These bytes are an archive of a database file. -/
def Archived (outerKek : Key) (image raw : Bytes) : Prop :=
  ∃ (nonce : Nonce) (ct : Bytes),
    P.aead.enc (backupKey P outerKek) nonce magic image = some ct ∧
      raw = magic ++ nonce.bytes ++ ct

variable {P sqlite paths disk sql}

/-- **What `create` has done** when it returns: an archive of the main file, as it was
left by then, stands at the path. -/
theorem createAfter_eq_ok_iff (folded : FileSystem → FileSystem) (outerKek : Key)
    (draw : Except RandomError Nonce) (unixTime : ℕ) (fs fs' : FileSystem) (path : Path) :
    createAfter P paths disk folded outerKek draw unixTime fs = (.ok path, fs') ↔
      fs.holds paths.db = true ∧ disk.fault (.read paths.db) = none ∧
      disk.fault (.createDir paths.backups) = none ∧ disk.Writes (archivePath paths unixTime) ∧
      path = archivePath paths unixTime ∧
      ∃ main nonce ct, (folded fs).file paths.db = some main ∧ draw = .ok nonce ∧
        P.aead.enc (backupKey P outerKek) nonce magic main.contents = some ct ∧
        fs' = (folded fs).replaced path (magic ++ nonce.bytes ++ ct) := by
  simp only [createAfter, Stateful.bind_eq_ok_iff, Stateful.read_eq_ok_iff]
  constructor
  · rintro ⟨_, _, ⟨hfs, hmid⟩, h⟩
    rw [hfs, hmid] at h
    by_cases hdb : fs.holds paths.db = true
    · simp only [hdb, Bool.not_true, Bool.false_eq_true, if_false, Stateful.bind_eq_ok_iff,
        Stateful.modify_eq_ok_iff, Stateful.read_eq_ok_iff, Stateful.lift_eq_ok_iff,
        Fallible.mapError_eq_ok_iff, Disk.read_eq_ok_iff, Fallible.ofExcept_eq_ok_iff,
        Fallible.ofOption_eq_ok_iff, Stateful.mapError_eq_ok_iff, Disk.attempt_eq_ok_iff,
        writePrivateAtomic_eq_ok_iff] at h
      obtain ⟨_, _, rfl, _, _, ⟨rfl, rfl⟩, _, _, ⟨⟨hread, main, hmain, rfl⟩, rfl⟩, nonce, _,
        ⟨hnonce, rfl⟩, ct, _, ⟨henc, rfl⟩, _, _, ⟨hdir, rfl⟩, _, _, ⟨hwrites, rfl⟩, hreturn⟩ := h
      cases hreturn
      exact ⟨hdb, hread, hdir, hwrites, rfl, main, nonce, ct, hmain, hnonce, henc, rfl⟩
    · simp [hdb] at h
  · rintro ⟨hdb, hread, hdir, hwrites, rfl, main, nonce, ct, hmain, hnonce, henc, rfl⟩
    refine ⟨_, _, ⟨rfl, rfl⟩, ?_⟩
    simp only [hdb, Bool.not_true, Bool.false_eq_true, if_false, Stateful.bind_eq_ok_iff,
      Stateful.modify_eq_ok_iff, Stateful.read_eq_ok_iff, Stateful.lift_eq_ok_iff,
      Fallible.mapError_eq_ok_iff, Disk.read_eq_ok_iff, Fallible.ofExcept_eq_ok_iff,
      Fallible.ofOption_eq_ok_iff, Stateful.mapError_eq_ok_iff, Disk.attempt_eq_ok_iff,
      writePrivateAtomic_eq_ok_iff]
    exact ⟨(), _, rfl, _, _, ⟨rfl, rfl⟩, _, _, ⟨⟨hread, main, hmain, rfl⟩, rfl⟩, nonce, _,
      ⟨hnonce, rfl⟩, ct, _, ⟨henc, rfl⟩, (), _, ⟨hdir, rfl⟩, (), _, ⟨hwrites, rfl⟩, rfl⟩

theorem create_eq_ok_iff (outerKek : Key) (draw : Except RandomError Nonce) (unixTime : ℕ)
    (fs fs' : FileSystem) (path : Path) :
    create P sqlite paths disk sql outerKek draw unixTime fs = (.ok path, fs') ↔
      fs.holds paths.db = true ∧ disk.fault (.read paths.db) = none ∧
      disk.fault (.createDir paths.backups) = none ∧ disk.Writes (archivePath paths unixTime) ∧
      path = archivePath paths unixTime ∧
      ∃ main nonce ct, (checkpoint sqlite paths sql fs).file paths.db = some main ∧
        draw = .ok nonce ∧
        P.aead.enc (backupKey P outerKek) nonce magic main.contents = some ct ∧
        fs' = (checkpoint sqlite paths sql fs).replaced path (magic ++ nonce.bytes ++ ct) :=
  createAfter_eq_ok_iff ..

/-- **Restoring accepts exactly the archives** made under the same outer key. -/
theorem restore_eq_ok_iff (hexact : P.aead.Exact) (archive : Path) (outerKek : Key)
    (fs : FileSystem) (image : Bytes) :
    restore P disk archive outerKek fs = .ok image ↔
      disk.fault (.read archive) = none ∧
      ∃ f, fs.file archive = some f ∧ Archived P outerKek image f.contents := by
  simp only [restore, Fallible.bind_eq_ok_iff, Fallible.mapError_eq_ok_iff, Disk.read_eq_ok_iff]
  constructor
  · rintro ⟨raw, ⟨hread, f, hf, rfl⟩, h⟩
    refine ⟨hread, f, hf, ?_⟩
    by_cases hshort : f.contents.length < magic.length + 24
    · rw [if_pos hshort] at h
      cases h
    rw [if_neg hshort] at h
    rw [length_magic] at h hshort
    obtain ⟨mark, rest, hraw⟩ := exists_block_append (n := 8) (b := f.contents) (by omega)
    rw [hraw, splitAt_block_append, Fallible.ok_bind] at h
    by_cases hmark : mark.bytes = magic
    · have hrest : 24 ≤ rest.length := by
        rw [hraw, List.length_append, Block.length_bytes] at hshort
        omega
      obtain ⟨nonce, ct, rfl⟩ := exists_block_append (n := 24) (b := rest) hrest
      simp only [hmark, ne_eq, not_true_eq_false, if_false, splitAt_block_append, toBlock_bytes,
        Fallible.ok_bind, Fallible.ofOption_eq_ok_iff] at h
      exact ⟨nonce, ct, (hexact ..).mp h, by rw [hraw, hmark, List.append_assoc]⟩
    · simp [hmark, Fallible.raise] at h
  · rintro ⟨hread, f, hf, nonce, ct, henc, hraw⟩
    refine ⟨_, ⟨hread, f, hf, rfl⟩, ?_⟩
    have hlong : ¬ f.contents.length < magic.length + 24 := by
      rw [hraw]
      simp only [List.length_append, length_magic, Block.length_bytes]
      omega
    have hmark : splitAt (ε := BackupError) f.contents magic.length =
        .ok (magic, nonce.bytes ++ ct) := by
      rw [hraw, List.append_assoc, splitAt_of_le (by simp)]
      simp
    simp only [if_neg hlong, hmark, Fallible.ok_bind, ne_eq, not_true_eq_false, if_false,
      splitAt_block_append, toBlock_bytes, hexact.dec_enc henc, Fallible.ofOption_some]

end Archives

end Backup

end Sypherstore
