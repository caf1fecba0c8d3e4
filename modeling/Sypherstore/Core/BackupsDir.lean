/-
# The directory of the archives

What `list` shows of the directory and what `prune` leaves of it (`vault/backup.rs`). Archives
are told by their extension and ordered by their names, newest first, and the names sort by
time.
-/

import Sypherstore.Core.BackupNames
import Sypherstore.Logic.Sorting

namespace Sypherstore

open Logic

/-! ## Extensions -/

namespace Path

/-- `Path::extension`. A dot at the front begins no extension. -/
def extension (chars : List Char) : Option (List Char) :=
  match (chars.reverse.dropWhile (· ≠ '.')).reverse.dropLast with
  | [] => none
  | _ :: _ => some (chars.reverse.takeWhile (· ≠ '.')).reverse

theorem extension_append {front ext : List Char} (h : '.' ∉ ext) :
    extension (front ++ '.' :: ext) = if front = [] then none else some ext := by
  have hkept : ∀ c ∈ ext.reverse, decide (c ≠ '.') = true := fun c hc =>
    decide_eq_true (ne_of_mem_of_not_mem (List.mem_reverse.mp hc) h)
  have hreverse : (front ++ '.' :: ext).reverse = ext.reverse ++ '.' :: front.reverse := by simp
  have hfront : ((front ++ '.' :: ext).reverse.dropWhile (· ≠ '.')).reverse.dropLast = front := by
    rw [hreverse, List.dropWhile_append_of_pos hkept]
    simp
  have hext : ((front ++ '.' :: ext).reverse.takeWhile (· ≠ '.')).reverse = ext := by
    rw [hreverse, List.takeWhile_append_of_pos hkept]
    simp
  unfold extension
  rw [hfront, hext]
  cases front <;> rfl

end Path

/-! ## Listing and pruning -/

/-- What reading the directory comes to, besides the files in it. -/
structure DirScan where
  /-- `Path::exists` on the directory. -/
  present : Bool
  /-- The error `read_dir` is refused with, if it is. -/
  refused : Option IoError
  /-- The entries that are no files. -/
  others : List String
  /-- The entries that cannot be read, and are left out. -/
  dropped : String → Bool
  nodup : others.Nodup

/-- A directory that can be read, with files in it only. -/
def DirScan.plain : DirScan := ⟨true, none, [], fun _ => false, List.nodup_nil⟩

/-- The names of the files in a directory. -/
def FileSystem.namesIn (fs : FileSystem) (dir : String) : List String :=
  (fs.files.keys.filter fun p => p.dir = dir).map Path.name

/-- The names that reading the directory gives. -/
def DirScan.names (scan : DirScan) (dir : String) (fs : FileSystem) : List String :=
  (fs.namesIn dir ++ scan.others.filter fun name => !fs.holds ⟨dir, name⟩).filter fun name =>
    !scan.dropped name

/-- `fs::remove_file`: whether it went well. -/
def removeFile (disk : Disk) (p : Path) : Stateful FileSystem BackupError Bool := fun fs =>
  if fs.holds p && (disk.fault (.remove p)).isNone then (.ok true, fs.remove p)
  else (.ok false, fs)

namespace Backup

/-- The name has the extension of an archive. -/
def isArchive (name : String) : Bool := Path.extension name.toList = some "syphbak".toList

/-- The names of the archives in the directory. -/
def archiveNames (paths : VaultPaths) (scan : DirScan) (fs : FileSystem) : List String :=
  (scan.names paths.backups fs).filter isArchive

/-- Lists archives, newest first. They are all in one directory, and so sorted by name. -/
def list (paths : VaultPaths) (scan : DirScan) (fs : FileSystem) :
    Fallible BackupError (List Path) :=
  if !scan.present then .ok []
  else
    match scan.refused with
    | some e => Fallible.raise (.path (.io e))
    | none => .ok ((((archiveNames paths scan fs).mergeSort fun a b => a ≤ b).reverse).map
        (Path.mk paths.backups))

/-- Removes files one after the other, and counts those that go. -/
def removeAll (disk : Disk) : List Path → Stateful FileSystem BackupError ℕ
  | [] => pure 0
  | old :: rest => do
      let removed ← removeFile disk old
      let count ← removeAll disk rest
      return (if removed then 1 else 0) + count

/-- Deletes all but the newest `keep` archives. -/
def prune (disk : Disk) (paths : VaultPaths) (scan : DirScan) (keep : ℕ) :
    Stateful FileSystem BackupError ℕ := do
  let fs ← Stateful.read
  let archives ← Stateful.lift (list paths scan fs)
  removeAll disk (archives.drop keep)

end Backup

/-! ## What the directory holds -/

theorem mem_namesIn_iff {fs : FileSystem} {dir name : String} :
    name ∈ fs.namesIn dir ↔ fs.holds ⟨dir, name⟩ := by
  have hkeys : ∀ p, p ∈ fs.files.keys ↔ fs.holds p := fun p => AList.lookup_isSome.symm
  simp only [FileSystem.namesIn, List.mem_map, List.mem_filter, decide_eq_true_eq, hkeys]
  constructor
  · rintro ⟨p, ⟨hp, rfl⟩, rfl⟩
    exact hp
  · intro h
    exact ⟨⟨dir, name⟩, ⟨h, rfl⟩, rfl⟩

theorem nodup_namesIn (fs : FileSystem) (dir : String) : (fs.namesIn dir).Nodup := by
  refine List.Nodup.map_on ?_ (fs.files.nodupKeys.filter _)
  intro p hp q hq hname
  have hpdir := of_decide_eq_true (List.mem_filter.mp hp).2
  have hqdir := of_decide_eq_true (List.mem_filter.mp hq).2
  calc p = ⟨p.dir, p.name⟩ := rfl
    _ = ⟨q.dir, q.name⟩ := by rw [hpdir, hqdir, hname]
    _ = q := rfl

namespace DirScan

variable {scan : DirScan} {dir name : String} {fs : FileSystem}

theorem mem_names_iff : name ∈ scan.names dir fs ↔
    (fs.holds ⟨dir, name⟩ ∨ name ∈ scan.others) ∧ scan.dropped name = false := by
  simp only [names, List.mem_filter, List.mem_append, mem_namesIn_iff, Bool.not_eq_true']
  cases fs.holds ⟨dir, name⟩ <;> simp

theorem nodup_names (scan : DirScan) (dir : String) (fs : FileSystem) :
    (scan.names dir fs).Nodup := by
  refine List.Nodup.filter _ (List.Nodup.append (nodup_namesIn fs dir)
    (scan.nodup.filter _) ?_)
  intro name hfile hother
  rw [mem_namesIn_iff] at hfile
  simp [hfile] at hother

end DirScan

namespace Backup

variable {paths : VaultPaths} {scan : DirScan} {disk : Disk} {fs : FileSystem}

/-- The names of the archives, newest first. -/
def newestFirst (paths : VaultPaths) (scan : DirScan) (fs : FileSystem) : List String :=
  ((archiveNames paths scan fs).mergeSort fun a b => a ≤ b).reverse

theorem newestFirst_perm (paths : VaultPaths) (scan : DirScan) (fs : FileSystem) :
    (newestFirst paths scan fs).Perm (archiveNames paths scan fs) :=
  (List.reverse_perm _).trans (List.mergeSort_perm _ _)

theorem nodup_archiveNames (paths : VaultPaths) (scan : DirScan) (fs : FileSystem) :
    (archiveNames paths scan fs).Nodup :=
  (scan.nodup_names paths.backups fs).filter _

/-- From the greatest name down. -/
theorem pairwise_newestFirst (paths : VaultPaths) (scan : DirScan) (fs : FileSystem) :
    (newestFirst paths scan fs).Pairwise (· > ·) := by
  have htrans : ∀ a b c : String, decide (a ≤ b) → decide (b ≤ c) → decide (a ≤ c) := by
    intro a b c hab hbc
    exact decide_eq_true ((of_decide_eq_true hab).trans (of_decide_eq_true hbc))
  have htotal : ∀ a b : String, decide (a ≤ b) || decide (b ≤ a) := by
    intro a b
    simpa using le_total a b
  have hsorted := List.pairwise_mergeSort htrans htotal (archiveNames paths scan fs)
  have hnodup := (List.mergeSort_perm (archiveNames paths scan fs) fun a b => a ≤ b).nodup_iff.mpr
    (nodup_archiveNames paths scan fs)
  rw [newestFirst, List.pairwise_reverse]
  refine (hsorted.and hnodup).imp ?_
  rintro a b ⟨hle, hne⟩
  exact lt_of_le_of_ne (of_decide_eq_true hle) hne

theorem list_eq_ok_iff (archives : List Path) :
    list paths scan fs = .ok archives ↔
      (scan.present = false ∧ archives = []) ∨
        (scan.present = true ∧ scan.refused = none ∧
          archives = (newestFirst paths scan fs).map (Path.mk paths.backups)) := by
  unfold list newestFirst
  cases scan.present with
  | false => simp [eq_comm]
  | true =>
      cases scan.refused with
      | none => simp [eq_comm]
      | some e => simp [Fallible.raise]

/-! ## Removing -/

/-- Removing this file goes well. -/
def Removes (disk : Disk) (fs : FileSystem) (p : Path) : Prop :=
  fs.holds p = true ∧ disk.fault (.remove p) = none

instance (disk : Disk) (fs : FileSystem) : DecidablePred (Removes disk fs) :=
  fun _ => inferInstanceAs (Decidable (_ ∧ _))

theorem removeFile_cases (disk : Disk) (p : Path) (fs : FileSystem) :
    (Removes disk fs p ∧ removeFile disk p fs = (.ok true, fs.remove p)) ∨
      (¬ Removes disk fs p ∧ removeFile disk p fs = (.ok false, fs)) := by
  unfold Removes removeFile
  rw [← Option.isNone_iff_eq_none, ← Bool.and_eq_true]
  split
  · rename_i hremoves
    exact .inl ⟨hremoves, rfl⟩
  · rename_i hkept
    exact .inr ⟨hkept, rfl⟩

theorem holds_remove_of_ne {p q : Path} (h : q ≠ p) : (fs.remove p).holds q = fs.holds q := by
  rw [FileSystem.holds, FileSystem.file_remove_of_ne h, FileSystem.holds]

/-- **What removing does**: it takes the files that can be removed, no other, and counts
them. -/
theorem removeAll_spec (disk : Disk) {olds : List Path} (hnodup : olds.Nodup) (fs : FileSystem) :
    ∃ fs', removeAll disk olds fs = (.ok (olds.countP (Removes disk fs ·)), fs') ∧
      ∀ p, fs'.file p = if p ∈ olds ∧ Removes disk fs p then none else fs.file p := by
  induction olds generalizing fs with
  | nil => exact ⟨fs, rfl, fun p => by simp⟩
  | cons old rest ih =>
      obtain ⟨hold, hrest⟩ := List.nodup_cons.mp hnodup
      rcases removeFile_cases disk old fs with ⟨hremoves, hstep⟩ | ⟨hkept, hstep⟩
      · obtain ⟨fs', hrun, hfile⟩ := ih hrest (fs.remove old)
        have hsame : ∀ p ∈ rest, (Removes disk (fs.remove old) p ↔ Removes disk fs p) := by
          intro p hp
          rw [Removes, holds_remove_of_ne (ne_of_mem_of_not_mem hp hold), Removes]
        have hcount : rest.countP (Removes disk (fs.remove old) ·) =
            rest.countP (Removes disk fs ·) :=
          List.countP_congr fun p hp => by simpa using hsame p hp
        refine ⟨fs', ?_, fun p => ?_⟩
        · simp only [removeAll, Stateful.bind_apply, hstep, hrun, hcount]
          simp [hremoves, Nat.add_comm]
        · rw [hfile p]
          by_cases hp : p = old
          · rw [hp, if_neg (fun h => hold h.1), FileSystem.file_remove_self,
              if_pos ⟨List.mem_cons_self, hremoves⟩]
          · rw [FileSystem.file_remove_of_ne hp]
            by_cases hmem : p ∈ rest
            · simp [hmem, hsame p hmem]
            · simp [hmem, hp]
      · obtain ⟨fs', hrun, hfile⟩ := ih hrest fs
        refine ⟨fs', ?_, fun p => ?_⟩
        · simp only [removeAll, Stateful.bind_apply, hstep, hrun]
          simp [hkept]
        · rw [hfile p]
          by_cases hp : p = old
          · rw [hp, if_neg (fun h => hold h.1), if_neg (fun h => hkept h.2)]
          · simp [hp]

theorem map_mk_injective (dir : String) : Function.Injective (Path.mk dir) :=
  fun _ _ h => congrArg Path.name h

/-- What a run of `prune` that does not fail has done. -/
theorem prune_eq_ok {keep count : ℕ} {fs' : FileSystem}
    (h : prune disk paths scan keep fs = (.ok count, fs')) :
    (scan.present = false ∧ fs' = fs) ∨
      (scan.present = true ∧ ∀ p, fs'.file p =
        if p ∈ ((newestFirst paths scan fs).drop keep).map (Path.mk paths.backups) ∧
          Removes disk fs p then none else fs.file p) := by
  simp only [prune, Stateful.bind_eq_ok_iff, Stateful.read_eq_ok_iff, Stateful.lift_eq_ok_iff] at h
  obtain ⟨_, _, ⟨hfs, hmid⟩, archives, _, ⟨hlist, hend⟩, hremove⟩ := h
  rw [hfs] at hlist
  rw [hend, hmid] at hremove
  rcases (list_eq_ok_iff archives).mp hlist with ⟨hpresent, rfl⟩ | ⟨hpresent, _, rfl⟩
  · left
    rw [List.drop_nil] at hremove
    cases hremove
    exact ⟨hpresent, rfl⟩
  · right
    rw [← List.map_drop] at hremove
    have hnodup := ((pairwise_newestFirst paths scan fs).imp fun hlt => hlt.ne').sublist
      (List.drop_sublist keep _)
    obtain ⟨fs'', hrun, hfile⟩ := removeAll_spec disk
      (List.Nodup.map (map_mk_injective paths.backups) hnodup) fs
    obtain ⟨_, rfl⟩ := Prod.mk.inj (hrun.symm.trans hremove)
    exact ⟨hpresent, hfile⟩

/-! ## Archives by time -/

theorem isArchive_archivePath (paths : VaultPaths) (t : ℕ) :
    isArchive (archivePath paths t).name := by
  have hname : (archivePath paths t).name.toList =
      ("vault-" ++ timestamp t).toList ++ '.' :: "syphbak".toList := by
    rw [archivePath, String.toList_append]
    rfl
  have hfront : ("vault-" ++ timestamp t).toList ≠ [] := by
    rw [String.toList_append]
    exact List.append_ne_nil_of_left_ne_nil (by decide) _
  rw [isArchive, hname, Path.extension_append (by decide), if_neg hfront, decide_eq_true_eq]

/-- Names of archives sort by time. -/
theorem archiveName_lt (paths : VaultPaths) {s t : ℕ} (h : s < t) (ht : t < endOfYears) :
    (archivePath paths s).name < (archivePath paths t).name := by
  have hless := String.lt_iff_toList_lt.mp (timestamp_lt h ht)
  rw [String.lt_iff_toList_lt, archivePath, archivePath]
  simp only [String.toList_append, List.append_assoc]
  have hlength : (timestamp s).toList.length = (timestamp t).toList.length := by
    rw [length_timestamp (h.trans ht), length_timestamp ht]
  rw [append_lt_append_iff rfl, append_lt_append_iff hlength]
  exact .inr ⟨rfl, .inl hless⟩

/-- The archives of a directory are those made at these times, each a second of its own. -/
structure HoldsArchives (paths : VaultPaths) (scan : DirScan) (fs : FileSystem)
    (times : List ℕ) : Prop where
  distinct : times.Nodup
  before : ∀ t ∈ times, t < endOfYears
  present : scan.present = true
  readable : scan.refused = none
  archives : ∀ name, name ∈ archiveNames paths scan fs ↔
    ∃ t ∈ times, name = (archivePath paths t).name
  files : ∀ t ∈ times, fs.holds (archivePath paths t)

/-- Times, the latest first. -/
def latestFirst (times : List ℕ) : List ℕ := times.insertionSort (· ≥ ·)

theorem latestFirst_perm (times : List ℕ) : (latestFirst times).Perm times :=
  List.perm_insertionSort _ _

theorem pairwise_latestFirst {times : List ℕ} (h : times.Nodup) :
    (latestFirst times).Pairwise (· > ·) := by
  have hsorted := List.pairwise_insertionSort (· ≥ ·) times
  have hnodup := (latestFirst_perm times).nodup_iff.mpr h
  refine (hsorted.and hnodup).imp ?_
  rintro a b ⟨hle, hne⟩
  exact lt_of_le_of_ne hle hne.symm

namespace HoldsArchives

variable {times : List ℕ}

/-- The archives from the greatest name down are those from the latest time down. -/
theorem newestFirst_eq (h : HoldsArchives paths scan fs times) :
    newestFirst paths scan fs = (latestFirst times).map fun t => (archivePath paths t).name := by
  have hnames : ((latestFirst times).map fun t => (archivePath paths t).name).Pairwise
      (· > ·) := by
    rw [List.pairwise_map]
    refine (pairwise_latestFirst h.distinct).imp_of_mem ?_
    intro t s ht _ hless
    exact archiveName_lt paths hless (h.before t ((latestFirst_perm times).mem_iff.mp ht))
  have hperm : (newestFirst paths scan fs).Perm
      ((latestFirst times).map fun t => (archivePath paths t).name) := by
    rw [List.perm_ext_iff_of_nodup ((pairwise_newestFirst paths scan fs).imp fun hlt => hlt.ne')
      (hnames.imp fun hlt => hlt.ne')]
    intro name
    rw [(newestFirst_perm paths scan fs).mem_iff, h.archives, List.mem_map]
    simp only [(latestFirst_perm times).mem_iff, eq_comm]
  exact hperm.eq_of_pairwise (fun a b _ _ hab hba => absurd hab hba.asymm)
    (pairwise_newestFirst paths scan fs) hnames

theorem list_eq (h : HoldsArchives paths scan fs times) :
    list paths scan fs = .ok ((latestFirst times).map (archivePath paths)) := by
  rw [list_eq_ok_iff]
  refine .inr ⟨h.present, h.readable, ?_⟩
  rw [h.newestFirst_eq, List.map_map]
  rfl

end HoldsArchives

/-- **Archives are listed and pruned by time.** Names of archives sort as the seconds they were
made at; so a directory of archives is listed from the latest one down, and pruning removes
all but the latest `keep` and no other file, and counts what it has removed. -/
theorem archives_go_by_time (paths : VaultPaths) (disk : Disk) (scan : DirScan) (fs : FileSystem)
    (times : List ℕ) (h : HoldsArchives paths scan fs times) :
    (∀ s t : ℕ, s < t → t < endOfYears → timestamp s < timestamp t) ∧
      list paths scan fs = .ok ((latestFirst times).map (archivePath paths)) ∧
      ∀ keep : ℕ, (∀ t ∈ times, disk.fault (.remove (archivePath paths t)) = none) →
        ∃ fs', prune disk paths scan keep fs = (.ok (times.length - keep), fs') ∧
          ∀ p, fs'.file p =
            if p ∈ ((latestFirst times).drop keep).map (archivePath paths) then none
            else fs.file p := by
  refine ⟨fun _ _ => timestamp_lt, h.list_eq, fun keep hdisk => ?_⟩
  have hnodup : (((latestFirst times).drop keep).map (archivePath paths)).Nodup := by
    refine List.Nodup.map (archivePath_injective paths) (List.Nodup.sublist
      (List.drop_sublist _ _) ?_)
    exact (latestFirst_perm times).nodup_iff.mpr h.distinct
  have hremoves : ∀ p ∈ ((latestFirst times).drop keep).map (archivePath paths),
      Removes disk fs p := by
    intro p hp
    obtain ⟨t, ht, rfl⟩ := List.mem_map.mp hp
    have htime := (latestFirst_perm times).mem_iff.mp (List.mem_of_mem_drop ht)
    exact ⟨h.files t htime, hdisk t htime⟩
  obtain ⟨fs', hrun, hfile⟩ := removeAll_spec disk hnodup fs
  have hcount : (((latestFirst times).drop keep).map (archivePath paths)).countP
      (Removes disk fs ·) = times.length - keep := by
    rw [List.countP_eq_length.mpr fun p hp => decide_eq_true (hremoves p hp), List.length_map,
      List.length_drop, (latestFirst_perm times).length_eq]
  refine ⟨fs', ?_, fun p => ?_⟩
  · rw [prune, Stateful.bind_apply, Stateful.read_apply]
    simp only [Stateful.bind_apply, Stateful.lift_apply, h.list_eq, ← List.map_drop, hrun, hcount]
  · rw [hfile p]
    by_cases hp : p ∈ ((latestFirst times).drop keep).map (archivePath paths)
    · rw [if_pos hp, if_pos ⟨hp, hremoves p hp⟩]
    · rw [if_neg hp, if_neg (fun hboth => hp hboth.1)]

/-- A vault directory with an archive of New Year's Eve, and one of the next second. -/
def newYearFiles : FileSystem :=
  (FileSystem.empty.put (archivePath ⟨"v"⟩ 1609459199) ⟨[], 0o600⟩).put
    (archivePath ⟨"v"⟩ 1609459200) ⟨[], 0o600⟩

/-- Of these two, the one of the old year goes. -/
theorem the_old_year_is_pruned :
    ∃ fs', prune .reliable ⟨"v"⟩ .plain 1 newYearFiles = (.ok 1, fs') ∧
      fs'.file (archivePath ⟨"v"⟩ 1609459199) = none ∧
      (fs'.file (archivePath ⟨"v"⟩ 1609459200)).isSome := by
  have hnames : archiveNames ⟨"v"⟩ .plain newYearFiles =
      ["vault-20210101-000000.syphbak", "vault-20201231-235959.syphbak"] := by decide
  have holds : HoldsArchives ⟨"v"⟩ .plain newYearFiles [1609459199, 1609459200] :=
    { distinct := by decide
      before := by decide
      present := rfl
      readable := rfl
      archives := by
        intro name
        have hold : (archivePath ⟨"v"⟩ 1609459199).name = "vault-20201231-235959.syphbak" := by
          decide
        have hnew : (archivePath ⟨"v"⟩ 1609459200).name = "vault-20210101-000000.syphbak" := by
          decide
        simp [hnames, hold, hnew, or_comm]
      files := by decide }
  obtain ⟨fs', hrun, hfile⟩ := (archives_go_by_time _ .reliable _ _ _ holds).2.2 1 fun _ _ => rfl
  refine ⟨fs', hrun, ?_, ?_⟩
  · rw [hfile]
    exact if_pos (by decide)
  · rw [hfile, if_neg (by decide)]
    decide

end Backup

end Sypherstore
