/-
# Replacing a file, step by step

A file is replaced through a temporary one beside it, whose name is the target's with
another extension. The name may already be taken, even by the target itself: an old file of
that name is truncated, keeps its mode, and is then renamed away.

A replacement here can stop after any of its steps, and between any two pieces of the
contents. A file is told from another by its path; links are not modelled.
-/

import Sypherstore.Core.Paths
import Sypherstore.Logic.Transition

namespace Sypherstore

open Logic

variable {path : Path} {contents : Bytes} {fs : FileSystem}

/-! ## The steps -/

/-- Where a replacement stands. -/
inductive WritePhase where
  | opening
  | writing (written rest : Bytes)
  | complete
  | done

/-- A replacement that is going on. -/
structure Replacing where
  phase : WritePhase
  fs : FileSystem

inductive WriteEvent where
  | opened
  | wrote (piece : Bytes)
  | synced
  | renamed

/-- One system call of `write_private_atomic`. -/
inductive ReplaceStep (path : Path) (contents : Bytes) :
    Replacing → WriteEvent → Replacing → Prop where
  /-- The mode is that of a new file; an old file is emptied. -/
  | opened {fs : FileSystem} : ReplaceStep path contents ⟨.opening, fs⟩ .opened
      ⟨.writing [] contents, fs.store (path.withExtension "tmp") [] 0o600⟩
  /-- `write_all` may take several calls. -/
  | wrote {written piece rest : Bytes} {fs : FileSystem} :
      ReplaceStep path contents ⟨.writing written (piece ++ rest), fs⟩ (.wrote piece)
        ⟨.writing (written ++ piece) rest,
          fs.store (path.withExtension "tmp") (written ++ piece) 0⟩
  | synced {fs : FileSystem} :
      ReplaceStep path contents ⟨.writing contents [], fs⟩ .synced ⟨.complete, fs⟩
  | renamed {fs : FileSystem} : ReplaceStep path contents ⟨.complete, fs⟩ .renamed
      ⟨.done, fs.rename (path.withExtension "tmp") path⟩

namespace FileSystem

/-- A file that is there keeps its mode. -/
theorem store_store (fs : FileSystem) (p : Path) (first second : Bytes) (mode mode' : ℕ) :
    (fs.store p first mode).store p second mode' = fs.store p second mode := by
  simp only [store, file_put_self, Option.map_some, Option.getD_some]
  exact congrArg FileSystem.mk (AList.insert_insert fs.files)

theorem file_store (fs : FileSystem) (p : Path) (contents : Bytes) (mode : ℕ) :
    (fs.store p contents mode).file p =
      some ⟨contents, ((fs.file p).map File.mode).getD mode⟩ := file_put_self _

theorem replaced_eq (fs : FileSystem) (path : Path) (contents : Bytes) :
    fs.replaced path contents =
      (fs.store (path.withExtension "tmp") contents 0o600).rename
        (path.withExtension "tmp") path := by
  rw [replaced, store_store]

end FileSystem

/-- What a replacement that started on these files looks like. -/
def Replacing.StartedOn (path : Path) (contents : Bytes) (fs : FileSystem) (r : Replacing) :
    Prop :=
  match r.phase with
  | .opening => r.fs = fs
  | .writing written rest =>
      written ++ rest = contents ∧ r.fs = fs.store (path.withExtension "tmp") written 0o600
  | .complete => r.fs = fs.store (path.withExtension "tmp") contents 0o600
  | .done => r.fs = fs.replaced path contents

theorem ReplaceStep.startedOn {r r' : Replacing} {event : WriteEvent}
    (h : ReplaceStep path contents r event r') (hr : r.StartedOn path contents fs) :
    r'.StartedOn path contents fs := by
  cases h with
  | opened =>
      cases hr
      exact ⟨rfl, rfl⟩
  | wrote =>
      obtain ⟨hwhole, rfl⟩ := hr
      exact ⟨by rw [← hwhole, List.append_assoc], FileSystem.store_store _ _ _ _ _ _⟩
  | synced => exact hr.2
  | renamed =>
      cases hr
      exact (FileSystem.replaced_eq fs path contents).symm

/-- Every state of a run is known from its phase. -/
theorem startedOn_of_run {r : Replacing} {events : List WriteEvent}
    (h : Run (ReplaceStep path contents) ⟨.opening, fs⟩ events r) :
    r.StartedOn path contents fs :=
  h.invariant (fun _ _ _ _ ht hstep => hstep.startedOn ht) rfl

/-- Until it is done, a replacement touches nothing but the temporary file. -/
theorem Replacing.file_of_startedOn {q : Path} {r : Replacing}
    (h : r.StartedOn path contents fs) (hphase : r.phase ≠ .done)
    (hq : q ≠ path.withExtension "tmp") : r.fs.file q = fs.file q := by
  obtain ⟨phase, now⟩ := r
  cases phase with
  | opening =>
      obtain rfl : now = fs := h
      rfl
  | writing written rest =>
      obtain ⟨_, rfl⟩ := h
      exact FileSystem.file_store_of_ne _ _ hq
  | complete =>
      obtain rfl : now = _ := h
      exact FileSystem.file_store_of_ne _ _ hq
  | done => exact absurd rfl hphase

/-! ## Runs and calls -/

/-- Any part of the contents may be in the temporary file. -/
theorem run_to_writing (path : Path) (fs : FileSystem) (written rest : Bytes) :
    Run (ReplaceStep path (written ++ rest)) ⟨.opening, fs⟩ [.opened, .wrote written]
      ⟨.writing written rest, fs.store (path.withExtension "tmp") written 0o600⟩ := by
  have hwrote : ReplaceStep path (written ++ rest)
      ⟨.writing [] (written ++ rest), fs.store (path.withExtension "tmp") [] 0o600⟩
      (.wrote written) ⟨.writing written rest,
        (fs.store (path.withExtension "tmp") [] 0o600).store (path.withExtension "tmp")
          written 0⟩ := .wrote
  rw [FileSystem.store_store] at hwrote
  exact .cons .opened (.single hwrote)

theorem writePrivateAtomic_eq_ok_iff_writes (disk : Disk) (path : Path) (contents : Bytes)
    (fs : FileSystem) :
    (writePrivateAtomic disk path contents fs).1 = .ok () ↔ disk.Writes path := by
  rcases writePrivateAtomic_cases disk path contents fs with ⟨hwrites, h⟩ | ⟨hwrites, e, _, h, _⟩
  · simp [h, hwrites]
  · simp [h, hwrites]

/-- **A call is a run.** What it leaves behind, refused or not, is a state of a run, and it
returns `Ok` exactly when the run is done. -/
theorem writePrivateAtomic_is_run (disk : Disk) (path : Path) (contents : Bytes)
    (fs : FileSystem) :
    ∃ events phase, Run (ReplaceStep path contents) ⟨.opening, fs⟩ events
        ⟨phase, (writePrivateAtomic disk path contents fs).2⟩ ∧
      ((writePrivateAtomic disk path contents fs).1 = .ok () ↔ phase = .done) := by
  have hwriting : ∀ n, Run (ReplaceStep path contents) ⟨.opening, fs⟩
      [.opened, .wrote (contents.take n)] ⟨.writing (contents.take n) (contents.drop n),
        (fs.store (path.withExtension "tmp") [] 0o600).store (path.withExtension "tmp")
          (contents.take n) 0⟩ := by
    intro n
    have hrun := run_to_writing path fs (contents.take n) (contents.drop n)
    rwa [List.take_append_drop, ← FileSystem.store_store _ _ [] _ _ 0] at hrun
  have hwhole := hwriting contents.length
  rw [List.take_length, List.drop_length] at hwhole
  simp only [writePrivateAtomic, Stateful.bind_apply, Disk.attempt, Disk.writeAll,
    Stateful.modify_apply]
  cases hcreate : disk.fault (.createTmp path) with
  | some e => exact ⟨[], .opening, .nil _, by simp⟩
  | none =>
      cases hwrite : disk.fault (.writeTmp path) with
      | some e => exact ⟨_, _, hwriting (disk.reached path), by simp⟩
      | none =>
          cases hsync : disk.fault (.syncTmp path) with
          | some e => exact ⟨_, _, hwhole, by simp⟩
          | none =>
              cases hrename : disk.fault (.renameTmp path) with
              | some e => exact ⟨_, _, hwhole.append (.single .synced), by simp⟩
              | none =>
                  exact ⟨_, .done, hwhole.append (.cons .synced (.single .renamed)), by simp⟩

/-! ## The temporary name -/

/-- The part in front of the last dot. -/
theorem stem_append {front back : List Char} (hfront : front ≠ []) (hback : '.' ∉ back) :
    Path.stem (front ++ '.' :: back) = front := by
  have hdrop : (front ++ '.' :: back).reverse.dropWhile (· ≠ '.') = '.' :: front.reverse := by
    rw [List.reverse_append, List.reverse_cons, List.append_assoc, List.dropWhile_append_of_pos]
    · simp
    · intro c hc
      have hne : c ≠ '.' := fun hdot => hback (hdot ▸ List.mem_reverse.mp hc)
      simpa using hne
  have hkept : ((front ++ '.' :: back).reverse.dropWhile (· ≠ '.')).reverse.dropLast = front := by
    rw [hdrop, List.reverse_cons, List.reverse_reverse, List.dropLast_concat]
  unfold Path.stem
  rw [hkept]
  cases front with
  | nil => exact absurd rfl hfront
  | cons c front => rfl

/-- The temporary name is the target's own when that already ends in `.tmp`. -/
theorem withExtension_tmp_eq_self_iff (p : Path) :
    p.withExtension "tmp" = p ↔ ∃ front, front ≠ [] ∧ p.name.toList = front ++ ".tmp".toList := by
  have hname : p.withExtension "tmp" = p ↔
      Path.stem p.name.toList ++ ".tmp".toList = p.name.toList := by
    rw [Path.withExtension, Path.mk.injEq, and_iff_right rfl, ← String.toList_inj,
      String.toList_ofList]
    exact Iff.rfl
  rw [hname]
  constructor
  · intro h
    refine ⟨_, ?_, h.symm⟩
    intro hnil
    rw [hnil] at h
    rw [← h] at hnil
    exact absurd hnil (by decide)
  · rintro ⟨front, hfront, h⟩
    have hstem : Path.stem (front ++ '.' :: "tmp".toList) = front :=
      stem_append hfront (by decide)
    rw [h]
    exact congrArg (· ++ ".tmp".toList) hstem

/-! ## What a replacement may touch -/

/-- The target holds its old contents, or the new ones in full. -/
def OldOrNew (fs : FileSystem) (path : Path) (contents : Bytes) (fs' : FileSystem) : Prop :=
  (fs'.file path).map File.contents = (fs.file path).map File.contents ∨
    (fs'.file path).map File.contents = some contents

/-- Replacing this file touches nothing else, and leaves it private. -/
structure TouchesOnlyItsTarget (path : Path) (contents : Bytes) (fs : FileSystem) : Prop where
  /-- After `Ok` the target holds the contents, with mode `0600`. -/
  isPrivate : ∀ disk fs', writePrivateAtomic disk path contents fs = (.ok (), fs') →
    fs'.file path = some ⟨contents, 0o600⟩
  /-- After `Ok` every other file is still there and holds what it held. -/
  frame : ∀ disk fs', writePrivateAtomic disk path contents fs = (.ok (), fs') →
    ∀ q, q ≠ path → ∀ f, fs.file q = some f →
      (fs'.file q).map File.contents = some f.contents
  /-- At no step is the target half written. -/
  atomic : ∀ events r, Run (ReplaceStep path contents) ⟨.opening, fs⟩ events r →
    OldOrNew fs path contents r.fs

/-- The temporary name is free. Where it is the target's own name, the target is private, and
what is to be written leaves no state between the old contents and the new. -/
def WritesApart (path : Path) (contents : Bytes) (fs : FileSystem) : Prop :=
  (path.withExtension "tmp" ≠ path ∧ fs.file (path.withExtension "tmp") = none) ∨
    (path.withExtension "tmp" = path ∧ (∀ f, fs.file path = some f → f.mode = 0o600) ∧
      (contents = [] ∨
        contents.length = 1 ∧ (fs.file path).map File.contents = some []))

theorem replaced_apart (hne : path.withExtension "tmp" ≠ path) :
    (fs.replaced path contents).file path =
        some ⟨contents, ((fs.file (path.withExtension "tmp")).map File.mode).getD 0o600⟩ ∧
      (fs.replaced path contents).file (path.withExtension "tmp") = none := by
  rw [FileSystem.replaced_eq, FileSystem.rename, if_neg hne, FileSystem.file_store]
  exact ⟨by rw [FileSystem.file_remove_of_ne hne.symm, FileSystem.file_put_self],
    FileSystem.file_remove_self⟩

theorem replaced_same (hsame : path.withExtension "tmp" = path) :
    fs.replaced path contents = fs.store path contents 0o600 := by
  rw [FileSystem.replaced_eq, FileSystem.rename, if_pos hsame, hsame]

theorem writePrivateAtomic_reliable (path : Path) (contents : Bytes) (fs : FileSystem) :
    writePrivateAtomic .reliable path contents fs = (.ok (), fs.replaced path contents) :=
  (writePrivateAtomic_eq_ok_iff _ _ _ _ _ _).mpr ⟨fun _ _ => rfl, rfl⟩

/-- Every call that returns `Ok` leaves the same files, and every run goes through files with a
part of the contents under the temporary name. -/
theorem touchesOnlyItsTarget_iff :
    TouchesOnlyItsTarget path contents fs ↔
      (fs.replaced path contents).file path = some ⟨contents, 0o600⟩ ∧
      (∀ q, q ≠ path → ∀ f, fs.file q = some f →
        ((fs.replaced path contents).file q).map File.contents = some f.contents) ∧
      ∀ written, written <+: contents →
        OldOrNew fs path contents (fs.store (path.withExtension "tmp") written 0o600) := by
  have hcall := writePrivateAtomic_reliable path contents fs
  constructor
  · intro h
    refine ⟨h.isPrivate _ _ hcall, h.frame _ _ hcall, ?_⟩
    rintro written ⟨rest, rfl⟩
    exact h.atomic _ _ (run_to_writing path fs written rest)
  · rintro ⟨hprivate, hframe, hpart⟩
    refine ⟨?_, ?_, ?_⟩
    · intro disk fs' hok
      obtain ⟨_, rfl⟩ := (writePrivateAtomic_eq_ok_iff _ _ _ _ _ _).mp hok
      exact hprivate
    · intro disk fs' hok
      obtain ⟨_, rfl⟩ := (writePrivateAtomic_eq_ok_iff _ _ _ _ _ _).mp hok
      exact hframe
    · intro events r hrun
      have hr := startedOn_of_run hrun
      obtain ⟨phase, fs'⟩ := r
      cases phase with
      | opening =>
          have hfs : fs' = fs := hr
          exact .inl (by rw [hfs])
      | writing written rest =>
          obtain ⟨hwhole, rfl⟩ := hr
          exact hpart written ⟨rest, hwhole⟩
      | complete =>
          have hfs : fs' = _ := hr
          subst hfs
          exact hpart contents List.prefix_rfl
      | done =>
          have hfs : fs' = _ := hr
          subst hfs
          exact .inr (by rw [hprivate]; rfl)

/-- A temporary file beside the target comes and goes, if the name was free. -/
theorem touches_iff_of_apart (hne : path.withExtension "tmp" ≠ path) :
    TouchesOnlyItsTarget path contents fs ↔ fs.file (path.withExtension "tmp") = none := by
  rw [touchesOnlyItsTarget_iff]
  constructor
  · rintro ⟨_, hframe, _⟩
    by_contra htaken
    obtain ⟨f, hf⟩ := Option.ne_none_iff_exists'.mp htaken
    have hkept := hframe _ hne f hf
    rw [(replaced_apart hne).2] at hkept
    cases hkept
  · intro hfree
    refine ⟨?_, ?_, ?_⟩
    · rw [(replaced_apart hne).1, hfree]
      rfl
    · intro q hq f hf
      have htmp : q ≠ path.withExtension "tmp" := by
        rintro rfl
        cases hfree.symm.trans hf
      rw [FileSystem.replaced_of_ne _ _ hq htmp, hf]
      rfl
    · intro written _
      exact .inl (by rw [FileSystem.file_store_of_ne _ _ hne.symm])

/-- Written in place, the target has the mode of a new file, or keeps its own. -/
theorem private_iff_of_same (hsame : path.withExtension "tmp" = path) :
    (fs.replaced path contents).file path = some ⟨contents, 0o600⟩ ↔
      ∀ f, fs.file path = some f → f.mode = 0o600 := by
  rw [replaced_same hsame, FileSystem.file_store]
  cases fs.file path <;> simp

/-- Written in place, the target holds every part of the contents at some step. -/
theorem parts_iff_of_same (hsame : path.withExtension "tmp" = path) :
    (∀ written, written <+: contents →
        OldOrNew fs path contents (fs.store (path.withExtension "tmp") written 0o600)) ↔
      contents = [] ∨ contents.length = 1 ∧ (fs.file path).map File.contents = some [] := by
  simp only [OldOrNew, hsame, FileSystem.file_store_self, Option.some.injEq]
  match contents with
  | [] => simp
  | [byte] =>
      have hempty : (fs.file path).map File.contents = some [] ↔
          some [] = (fs.file path).map File.contents := eq_comm
      simp [List.prefix_cons_iff, hempty]
  | first :: second :: rest =>
      -- nothing and the first byte would both have to be the old contents
      refine iff_of_false (fun hpart => ?_) (by simp)
      have hempty := (hpart [] List.nil_prefix).resolve_right (by simp)
      have hone := (hpart [first] ⟨second :: rest, rfl⟩).resolve_right (by simp)
      cases hempty.trans hone.symm

theorem touches_iff_of_same (hsame : path.withExtension "tmp" = path) :
    TouchesOnlyItsTarget path contents fs ↔
      (∀ f, fs.file path = some f → f.mode = 0o600) ∧
        (contents = [] ∨ contents.length = 1 ∧ (fs.file path).map File.contents = some []) := by
  have hframe : ∀ q, q ≠ path → ∀ f, fs.file q = some f →
      ((fs.replaced path contents).file q).map File.contents = some f.contents := by
    intro q hq f hf
    rw [replaced_same hsame, FileSystem.file_store_of_ne _ _ hq, hf]
    rfl
  rw [touchesOnlyItsTarget_iff, private_iff_of_same hsame, parts_iff_of_same hsame]
  exact and_congr_right fun _ => and_iff_right hframe

/-- **Replacing a file touches only the file** exactly when the temporary name is free, or is
the target's own and harmless there. -/
theorem touches_only_its_target_iff (path : Path) (contents : Bytes) (fs : FileSystem) :
    TouchesOnlyItsTarget path contents fs ↔ WritesApart path contents fs := by
  unfold WritesApart
  by_cases hsame : path.withExtension "tmp" = path
  · rw [touches_iff_of_same hsame]
    simp [hsame]
  · rw [touches_iff_of_apart hsame]
    simp [hsame]

/-- A key is exported beside a readable file of the temporary name: the file is gone, and the
key is as readable as it was. -/
theorem an_old_temporary_file_is_taken :
    let key : Path := ⟨"home", "key.txt"⟩
    let stale : Path := ⟨"home", "key.tmp"⟩
    let fs := FileSystem.empty.put stale ⟨[1, 2], 0o644⟩
    ∃ fs', writePrivateAtomic .reliable key [3] fs = (.ok (), fs') ∧
      fs'.file key = some ⟨[3], 0o644⟩ ∧ fs'.file stale = none ∧
      ¬ TouchesOnlyItsTarget key [3] fs := by
  intro key stale fs
  have hcall := writePrivateAtomic_reliable key [3] fs
  have hkey : (fs.replaced key [3]).file key = some ⟨[3], 0o644⟩ := by decide
  refine ⟨_, hcall, hkey, by decide, ?_⟩
  intro h
  cases hkey.symm.trans (h.isPrivate _ _ hcall)

end Sypherstore
