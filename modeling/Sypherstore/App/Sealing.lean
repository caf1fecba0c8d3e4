/-
# Sealing, step by step

The two areas of a sealed key are two files, replaced one after the other (`hw/tpm.rs`). Each
replacement is atomic and the two together are not: a seal that stops or fails between them
leaves the new public area beside the old private one, and the chip does not load the two.
-/

import Sypherstore.App.Reference
import Sypherstore.Core.AtomicWrite

namespace Sypherstore

open Logic

/-- The chip reads both areas and loads them together. -/
structure Chip.Belong (chip : Chip) (publicArea privateArea : Bytes) : Prop where
  isPublic : chip.unmarshalPublic publicArea = .ok ()
  isPrivate : chip.unmarshalPrivate privateArea = .ok ()
  load : ∃ value, chip.load publicArea privateArea = .ok value

namespace TpmOuterProvider

variable {chip : Chip} {paths : VaultPaths} {key : Key} {areas : Bytes × Bytes}
  {fs fs' : FileSystem}

/-! ## The steps -/

/-- Where a seal stands: what is left to ask the chip, or how far the file has come. -/
inductive SealPhase where
  | asking (left : List TpmStep)
  | publicArea (phase : WritePhase)
  | privateArea (phase : WritePhase)

/-- A seal that is going on. -/
structure Sealing where
  phase : SealPhase
  fs : FileSystem

inductive SealEvent where
  | asked (step : TpmStep)
  | wrote (event : WriteEvent)
  /-- The seal goes on to the next file. -/
  | turned

/-- One step of sealing, once the areas are known. -/
inductive SealStep (paths : VaultPaths) (areas : Bytes × Bytes) :
    Sealing → SealEvent → Sealing → Prop where
  | asked {step : TpmStep} {left : List TpmStep} {fs : FileSystem} :
      SealStep paths areas ⟨.asking (step :: left), fs⟩ (.asked step) ⟨.asking left, fs⟩
  | toPublic {fs : FileSystem} :
      SealStep paths areas ⟨.asking [], fs⟩ .turned ⟨.publicArea .opening, fs⟩
  | publicArea {r r' : Replacing} {event : WriteEvent}
      (h : ReplaceStep paths.tpmSealedPub areas.1 r event r') :
      SealStep paths areas ⟨.publicArea r.phase, r.fs⟩ (.wrote event)
        ⟨.publicArea r'.phase, r'.fs⟩
  | toPrivate {fs : FileSystem} :
      SealStep paths areas ⟨.publicArea .done, fs⟩ .turned ⟨.privateArea .opening, fs⟩
  | privateArea {r r' : Replacing} {event : WriteEvent}
      (h : ReplaceStep paths.tpmSealedPriv areas.2 r event r') :
      SealStep paths areas ⟨.privateArea r.phase, r.fs⟩ (.wrote event)
        ⟨.privateArea r'.phase, r'.fs⟩

/-- What the chip is asked, in order. -/
def sealSteps : List TpmStep := [.openContext, .createPrimary, .create, .marshal]

/-- A seal that has not begun. -/
def Sealing.start (fs : FileSystem) : Sealing := ⟨.asking sealSteps, fs⟩

/-- The public area has been replaced, the private one has not. -/
def SealPhase.Between : SealPhase → Prop
  | .asking _ => False
  | .publicArea phase => phase = .done
  | .privateArea phase => phase ≠ .done

/-- What a seal that started on these files looks like. -/
def Sealing.StartedOn (paths : VaultPaths) (areas : Bytes × Bytes) (fs : FileSystem)
    (r : Sealing) : Prop :=
  match r.phase with
  | .asking _ => r.fs = fs
  | .publicArea phase => Replacing.StartedOn paths.tpmSealedPub areas.1 fs ⟨phase, r.fs⟩
  | .privateArea phase => Replacing.StartedOn paths.tpmSealedPriv areas.2
      (fs.replaced paths.tpmSealedPub areas.1) ⟨phase, r.fs⟩

theorem SealStep.startedOn {r r' : Sealing} {event : SealEvent}
    (h : SealStep paths areas r event r') (hr : r.StartedOn paths areas fs) :
    r'.StartedOn paths areas fs := by
  cases h with
  | asked => exact hr
  | toPublic => exact hr
  | publicArea h => exact ReplaceStep.startedOn h hr
  | toPrivate => exact hr
  | privateArea h => exact ReplaceStep.startedOn h hr

/-- Every state of a seal is known from its phase. -/
theorem startedOn_of_seal {r : Sealing} {events : List SealEvent}
    (h : Run (SealStep paths areas) (.start fs) events r) : r.StartedOn paths areas fs :=
  h.invariant (fun _ _ _ _ ht hstep => hstep.startedOn ht) rfl

/-! ## The areas that are found -/

/-- What is in the two files. -/
def sealedAreas (paths : VaultPaths) (fs : FileSystem) : Option Bytes × Option Bytes :=
  ((fs.file paths.tpmSealedPub).map File.contents,
    (fs.file paths.tpmSealedPriv).map File.contents)

theorem sealedAreas_congr (hpublic : fs'.file paths.tpmSealedPub = fs.file paths.tpmSealedPub)
    (hprivate : fs'.file paths.tpmSealedPriv = fs.file paths.tpmSealedPriv) :
    sealedAreas paths fs' = sealedAreas paths fs := by
  rw [sealedAreas, hpublic, hprivate, sealedAreas]

/-- The new public area, and what was there for the private one. -/
theorem sealedAreas_replaced (publicArea : Bytes) :
    sealedAreas paths (fs.replaced paths.tpmSealedPub publicArea) =
      (some publicArea, (sealedAreas paths fs).2) := by
  obtain ⟨hne, _, htmp, _, _⟩ := sealed_paths_ne paths
  obtain ⟨mode, hpublic⟩ := fs.replaced_self paths.tpmSealedPub publicArea
  rw [sealedAreas, hpublic, FileSystem.replaced_of_ne _ _ hne.symm htmp]
  rfl

/-- **The areas a seal leaves**: the old ones, the new public one beside the old private one
between the two files, or the new ones. -/
theorem sealedAreas_of_seal {r : Sealing} {events : List SealEvent}
    (h : Run (SealStep paths areas) (.start fs) events r) :
    (¬ r.phase.Between ∧ sealedAreas paths r.fs = sealedAreas paths fs) ∨
      (r.phase.Between ∧ sealedAreas paths r.fs = (some areas.1, (sealedAreas paths fs).2)) ∨
      (¬ r.phase.Between ∧ sealedAreas paths r.fs = (some areas.1, some areas.2)) := by
  obtain ⟨hne, htmp, htmp', hpublic, hprivate⟩ := sealed_paths_ne paths
  have hstarted := startedOn_of_seal h
  obtain ⟨phase, now⟩ := r
  cases phase with
  | asking left =>
      obtain rfl : now = fs := hstarted
      exact .inl ⟨id, rfl⟩
  | publicArea phase =>
      by_cases hdone : phase = .done
      · subst hdone
        obtain rfl : now = _ := hstarted
        exact .inr (.inl ⟨rfl, sealedAreas_replaced _⟩)
      · exact .inl ⟨hdone, sealedAreas_congr (Replacing.file_of_startedOn hstarted hdone hpublic)
          (Replacing.file_of_startedOn hstarted hdone htmp')⟩
  | privateArea phase =>
      by_cases hdone : phase = .done
      · subst hdone
        obtain rfl : now = _ := hstarted
        refine .inr (.inr ⟨fun hbetween => hbetween rfl, ?_⟩)
        obtain ⟨mode, hfile⟩ := (fs.replaced paths.tpmSealedPub areas.1).replaced_self
          paths.tpmSealedPriv areas.2
        have hkept : (sealedAreas paths (fs.replaced paths.tpmSealedPub areas.1)).1 =
            some areas.1 := congrArg Prod.fst (sealedAreas_replaced areas.1)
        rw [sealedAreas, hfile, FileSystem.replaced_of_ne _ _ hne htmp]
        exact Prod.ext hkept rfl
      · refine .inr (.inl ⟨hdone, ?_⟩)
        rw [← sealedAreas_replaced]
        exact sealedAreas_congr (Replacing.file_of_startedOn hstarted hdone htmp)
          (Replacing.file_of_startedOn hstarted hdone hprivate)

/-! ## Calls -/

/-- Nothing happens to the files before the chip has done what it is asked. -/
theorem run_asking (paths : VaultPaths) (areas : Bytes × Bytes) (asked left : List TpmStep)
    (fs : FileSystem) : Run (SealStep paths areas) ⟨.asking (asked ++ left), fs⟩
      (asked.map .asked) ⟨.asking left, fs⟩ := by
  induction asked with
  | nil => exact .nil _
  | cons step asked ih => exact .cons .asked ih

theorem run_publicArea {phase : WritePhase} {events : List WriteEvent}
    (h : Run (ReplaceStep paths.tpmSealedPub areas.1) ⟨.opening, fs⟩ events ⟨phase, fs'⟩) :
    Run (SealStep paths areas) (.start fs)
      (sealSteps.map .asked ++ .turned :: events.map .wrote) ⟨.publicArea phase, fs'⟩ := by
  refine (run_asking paths areas sealSteps [] fs).append (.cons .toPublic ?_)
  exact h.map (fun r => (⟨.publicArea r.phase, r.fs⟩ : Sealing)) SealEvent.wrote
    fun _ _ _ => SealStep.publicArea

theorem run_privateArea {phase : WritePhase} {events : List WriteEvent} {mid : FileSystem}
    (h : Run (ReplaceStep paths.tpmSealedPriv areas.2) ⟨.opening, mid⟩ events ⟨phase, fs'⟩) :
    Run (SealStep paths areas) ⟨.publicArea .done, mid⟩ (.turned :: events.map .wrote)
      ⟨.privateArea phase, fs'⟩ :=
  .cons .toPrivate (h.map (fun r => (⟨.privateArea r.phase, r.fs⟩ : Sealing)) SealEvent.wrote
    fun _ _ _ => SealStep.privateArea)

/-- The call gets past the public file and no further. -/
structure StopsBetween (paths : VaultPaths) (disk : Disk) (tpm : TpmCall) : Prop where
  creates : tpm.Creates
  writesPublic : disk.Writes paths.tpmSealedPub
  refused : ¬ disk.Writes paths.tpmSealedPriv

/-- **A call is a run.** What it leaves behind, refused or not, is a state of a seal. -/
theorem sealKey_is_run (chip : Chip) (paths : VaultPaths) (disk : Disk) (tpm : TpmCall)
    (key : Key) (fs : FileSystem) :
    ∃ events phase, Run (SealStep paths (chip.create tpm.seed key.bytes)) (.start fs) events
        ⟨phase, (sealKey chip paths disk tpm key fs).2⟩ ∧
      (phase.Between ↔ StopsBetween paths disk tpm) := by
  by_cases hcreates : tpm.Creates
  · have ⟨hopen, hprimary, hcreate, hmarshal⟩ : tpm.fault .openContext = none ∧
        tpm.fault .createPrimary = none ∧ tpm.fault .create = none ∧
        tpm.fault .marshal = none := by
      simpa [TpmCall.Creates] using hcreates
    obtain ⟨events, phase, hpublic, hdone⟩ := writePrivateAtomic_is_run disk paths.tpmSealedPub
      (chip.create tpm.seed key.bytes).1 fs
    rw [writePrivateAtomic_eq_ok_iff_writes] at hdone
    simp only [sealKey, Stateful.bind_apply, Stateful.lift_apply, TpmCall.attempt, hopen, hprimary,
      hcreate, hmarshal, Stateful.mapError_apply]
    rcases writePrivateAtomic_cases disk paths.tpmSealedPub (chip.create tpm.seed key.bytes).1 fs
      with ⟨hwrites, h⟩ | ⟨hrefused, e, mid, h, _⟩
    · obtain rfl := hdone.mp hwrites
      rw [h] at hpublic ⊢
      obtain ⟨events', phase', hprivate, hdone'⟩ := writePrivateAtomic_is_run disk
        paths.tpmSealedPriv (chip.create tpm.seed key.bytes).2
        (fs.replaced paths.tpmSealedPub (chip.create tpm.seed key.bytes).1)
      rw [writePrivateAtomic_eq_ok_iff_writes] at hdone'
      refine ⟨_, _, (run_publicArea hpublic).append (run_privateArea hprivate), ?_⟩
      have hbetween : SealPhase.Between (.privateArea phase') ↔ ¬ phase' = .done := Iff.rfl
      rw [hbetween, ← hdone']
      exact ⟨fun hprivate => ⟨hcreates, hwrites, hprivate⟩, StopsBetween.refused⟩
    · rw [h] at hpublic ⊢
      refine ⟨_, _, run_publicArea hpublic, ?_⟩
      exact iff_of_false (fun hphase => hrefused (hdone.mpr hphase))
        fun h => hrefused h.writesPublic
  · obtain ⟨e, h⟩ := sealKey_of_not_creates chip paths disk hcreates key fs
    rw [h]
    exact ⟨[], _, .nil _, iff_of_false id fun h => hcreates h.creates⟩

/-! ## All or nothing -/

/-- What a seal that did not return may leave: unsealing does what it did before, or gives the
new key; and the two files hold what they held, or areas that belong together. -/
structure AllOrNothing (chip : Chip) (paths : VaultPaths) (key : Key) (fs fs' : FileSystem) :
    Prop where
  unseals : (∀ disk tpm, unsealKey chip paths disk tpm fs' = unsealKey chip paths disk tpm fs) ∨
    Holds chip paths fs' key
  belong : sealedAreas paths fs' = sealedAreas paths fs ∨ ∀ publicArea privateArea,
    sealedAreas paths fs' = (some publicArea, some privateArea) →
      chip.Belong publicArea privateArea

/-- The old files do no harm when the new public area joins them: there is no private area, the
public area is the same, or the chip gets the new key out of the two. -/
def Harmless (chip : Chip) (paths : VaultPaths) (publicArea : Bytes) (key : Key)
    (fs : FileSystem) : Prop :=
  (sealedAreas paths fs).2 = none ∨ (sealedAreas paths fs).1 = some publicArea ∨
    ∃ privateArea, (sealedAreas paths fs).2 = some privateArea ∧
      chip.unmarshalPrivate privateArea = .ok () ∧ chip.load publicArea privateArea = .ok key.bytes

theorem holds_iff_areas : Holds chip paths fs key ↔ ∃ publicArea privateArea,
    sealedAreas paths fs = (some publicArea, some privateArea) ∧
      chip.unmarshalPublic publicArea = .ok () ∧ chip.unmarshalPrivate privateArea = .ok () ∧
      chip.load publicArea privateArea = .ok key.bytes := by
  simp only [sealedAreas, Prod.mk.injEq, Option.map_eq_some_iff]
  constructor
  · rintro ⟨publicFile, privateFile, hpublic, hprivate, hload⟩
    exact ⟨_, _, ⟨⟨publicFile, hpublic, rfl⟩, privateFile, hprivate, rfl⟩, hload⟩
  · rintro ⟨_, _, ⟨⟨publicFile, hpublic, rfl⟩, privateFile, hprivate, rfl⟩, hload⟩
    exact ⟨publicFile, privateFile, hpublic, hprivate, hload⟩

/-- Unsealing sees the two areas and nothing else. -/
theorem unsealKey_congr (h : sealedAreas paths fs' = sealedAreas paths fs) (disk : Disk)
    (tpm : TpmCall) : unsealKey chip paths disk tpm fs' = unsealKey chip paths disk tpm fs := by
  obtain ⟨hpublic, hprivate⟩ := Prod.mk.inj h
  have hholds : ∀ p, (fs'.file p).map File.contents = (fs.file p).map File.contents →
      fs'.holds p = fs.holds p := by
    intro p hp
    have hsome := congrArg Option.isSome hp
    rwa [Option.isSome_map, Option.isSome_map] at hsome
  have hread : ∀ p, (fs'.file p).map File.contents = (fs.file p).map File.contents →
      disk.read p fs' = disk.read p fs := by
    intro p hp
    unfold Disk.read
    cases disk.fault (.read p) with
    | some e => rfl
    | none =>
        cases hfile : fs'.file p <;> cases hfile' : fs.file p <;> simp_all
  unfold unsealKey isProvisioned
  rw [hholds _ hpublic, hholds _ hprivate, hread _ hpublic, hread _ hprivate]

/-- A chip that loads the areas and then gives nothing out. -/
def refusesUnseal : TpmCall where
  fault step := if step = .unseal then some (.device "") else none
  seed := []

/-- Such a chip tells whether two areas belong together. -/
theorem unsealKey_refused_iff :
    unsealKey chip paths .reliable refusesUnseal fs = .error (.error (.device "")) ↔
      ∃ publicArea privateArea, sealedAreas paths fs = (some publicArea, some privateArea) ∧
        chip.Belong publicArea privateArea := by
  have hbelong : ∀ publicArea privateArea, chip.Belong publicArea privateArea ↔
      chip.unmarshalPublic publicArea = .ok () ∧ chip.unmarshalPrivate privateArea = .ok () ∧
        ∃ value, chip.load publicArea privateArea = .ok value :=
    fun _ _ => ⟨fun h => ⟨h.isPublic, h.isPrivate, h.load⟩, fun h => ⟨h.1, h.2.1, h.2.2⟩⟩
  simp only [sealedAreas, hbelong]
  cases hpublic : fs.file paths.tpmSealedPub with
  | none => simp [unsealKey, isProvisioned, FileSystem.holds, hpublic, Fallible.raise]
  | some publicFile =>
      cases hprivate : fs.file paths.tpmSealedPriv with
      | none => simp [unsealKey, isProvisioned, FileSystem.holds, hprivate, Fallible.raise]
      | some privateFile =>
          simp only [unsealKey, isProvisioned, FileSystem.holds, hpublic, hprivate, Disk.read,
            Disk.reliable, TpmCall.attempt, refusesUnseal]
          cases hpublicArea : chip.unmarshalPublic publicFile.contents with
          | error detail => simp [hpublicArea]
          | ok =>
              cases hprivateArea : chip.unmarshalPrivate privateFile.contents with
              | error detail => simp [hpublicArea, hprivateArea]
              | ok =>
                  cases hload : chip.load publicFile.contents privateFile.contents with
                  | error detail => simp [hpublicArea, hprivateArea, hload]
                  | ok value => simp [hpublicArea, hprivateArea, hload, Fallible.raise]

theorem allOrNothing_of_same (h : sealedAreas paths fs' = sealedAreas paths fs) :
    AllOrNothing chip paths key fs fs' :=
  ⟨.inl (unsealKey_congr h), .inl h⟩

/-- Both areas are the new ones. -/
theorem allOrNothing_of_new (hchip : chip.Lawful) {seed : Bytes}
    (h : sealedAreas paths fs' =
      (some (chip.create seed key.bytes).1, some (chip.create seed key.bytes).2)) :
    AllOrNothing chip paths key fs fs' := by
  obtain ⟨hpublic, hprivate⟩ := hchip.marshal seed key
  refine ⟨.inr (holds_iff_areas.mpr ⟨_, _, h, hpublic, hprivate, hchip.unseals seed key⟩), .inr ?_⟩
  intro publicArea privateArea hareas
  cases h.symm.trans hareas
  exact ⟨hpublic, hprivate, _, hchip.unseals seed key⟩

/-- **Between the two files** a seal is all or nothing only where the old files do no harm. -/
theorem allOrNothing_between_iff (hchip : chip.Lawful) {seed : Bytes}
    (h : sealedAreas paths fs' =
      (some (chip.create seed key.bytes).1, (sealedAreas paths fs).2)) :
    AllOrNothing chip paths key fs fs' ↔
      Harmless chip paths (chip.create seed key.bytes).1 key fs := by
  have hpublic := (hchip.marshal seed key).1
  constructor
  · rintro ⟨hunseals, hbelong⟩
    cases hprivate : (sealedAreas paths fs).2 with
    | none => exact .inl hprivate
    | some privateArea =>
        rw [hprivate] at h
        rcases hbelong with hsame | htogether
        · exact .inr (.inl (congrArg Prod.fst (hsame.symm.trans h)))
        · rcases hunseals with hunseals | hnew
          · -- the old areas load too, and one private area loads with one public area
            have hrefused := unsealKey_refused_iff.mpr ⟨_, _, h, htogether _ _ h⟩
            rw [hunseals, unsealKey_refused_iff] at hrefused
            obtain ⟨oldPublic, oldPrivate, hold, _, _, value, hload⟩ := hrefused
            obtain ⟨_, _, value', hload'⟩ := htogether _ _ h
            obtain rfl := Option.some.inj (hprivate.symm.trans (congrArg Prod.snd hold))
            obtain rfl := hchip.bound _ _ _ _ _ hload' hload
            exact .inr (.inl (congrArg Prod.fst hold))
          · obtain ⟨_, _, hareas, _, hmarshal, hload⟩ := holds_iff_areas.mp hnew
            cases h.symm.trans hareas
            exact .inr (.inr ⟨_, hprivate, hmarshal, hload⟩)
  · rintro (hnone | hsame | ⟨privateArea, hprivate, hmarshal, hload⟩)
    · refine ⟨.inl fun disk tpm => ?_, .inr fun publicArea privateArea hareas => ?_⟩
      · have hfile := Option.map_eq_none_iff.mp hnone
        have hfile' := Option.map_eq_none_iff.mp ((congrArg Prod.snd h).trans hnone)
        simp [unsealKey, isProvisioned, FileSystem.holds, hfile, hfile']
      · rw [h, hnone] at hareas
        cases hareas
    · exact allOrNothing_of_same (h.trans (Prod.ext hsame.symm rfl))
    · rw [hprivate] at h
      refine ⟨.inr (holds_iff_areas.mpr ⟨_, _, h, hpublic, hmarshal, hload⟩), .inr ?_⟩
      intro publicArea privateArea' hareas
      cases h.symm.trans hareas
      exact ⟨hpublic, hmarshal, _, hload⟩

theorem allOrNothing_of_seal_iff (hchip : chip.Lawful) {seed : Bytes} {r : Sealing}
    {events : List SealEvent}
    (h : Run (SealStep paths (chip.create seed key.bytes)) (.start fs) events r) :
    AllOrNothing chip paths key fs r.fs ↔
      (r.phase.Between → Harmless chip paths (chip.create seed key.bytes).1 key fs) := by
  rcases sealedAreas_of_seal h with ⟨hbetween, hareas⟩ | ⟨hbetween, hareas⟩ | ⟨hbetween, hareas⟩
  · exact iff_of_true (allOrNothing_of_same hareas) fun h => absurd h hbetween
  · rw [allOrNothing_between_iff hchip hareas]
    exact ⟨fun h _ => h, fun h => h hbetween⟩
  · exact iff_of_true (allOrNothing_of_new hchip hareas) fun h => absurd h hbetween

theorem allOrNothing_sealKey_iff (hchip : chip.Lawful) (disk : Disk) (tpm : TpmCall) :
    AllOrNothing chip paths key fs (sealKey chip paths disk tpm key fs).2 ↔
      (StopsBetween paths disk tpm →
        Harmless chip paths (chip.create tpm.seed key.bytes).1 key fs) := by
  obtain ⟨_, _, hrun, hphase⟩ := sealKey_is_run chip paths disk tpm key fs
  rw [← hphase]
  exact allOrNothing_of_seal_iff hchip hrun

/-- Provisioning seals, or changes nothing. -/
theorem provision_files (chip : Chip) (paths : VaultPaths) (disk : Disk) (tpm : TpmCall)
    (draw : Except RandomError Key) (fs : FileSystem) :
    (provision chip paths disk tpm draw fs).2 =
      match isProvisioned paths fs, draw with
      | false, .ok key => (sealKey chip paths disk tpm key fs).2
      | _, _ => fs := by
  simp only [provision, Stateful.bind_apply, Stateful.read_apply]
  cases isProvisioned paths fs with
  | true => rfl
  | false =>
      cases draw with
      | error e => rfl
      | ok key =>
          simp only [Bool.false_eq_true, if_false, Stateful.bind_apply, Stateful.lift_apply,
            Fallible.ofExcept_ok, Fallible.mapError_ok]
          rcases sealKey chip paths disk tpm key fs with ⟨_ | _, _⟩ <;> rfl

/-- **Sealing is all or nothing, except between the two files.** Wherever a seal stops, and
however a call of `provision_with` or `provision` ends, unsealing is as before or gives the new
key, exactly when the seal is not cut off between the two files or the old files do no harm. -/
theorem sealing_is_all_or_nothing_iff (hchip : chip.Lawful) (paths : VaultPaths) (key : Key)
    (fs : FileSystem) :
    (∀ seed events r, Run (SealStep paths (chip.create seed key.bytes)) (.start fs) events r →
      (AllOrNothing chip paths key fs r.fs ↔
        (r.phase.Between → Harmless chip paths (chip.create seed key.bytes).1 key fs))) ∧
    (∀ disk tpm, AllOrNothing chip paths key fs (sealKey chip paths disk tpm key fs).2 ↔
      (StopsBetween paths disk tpm →
        Harmless chip paths (chip.create tpm.seed key.bytes).1 key fs)) ∧
    ∀ disk tpm draw, (∀ key', draw = .ok key' → key' = key) →
      (AllOrNothing chip paths key fs (provision chip paths disk tpm draw fs).2 ↔
        (isProvisioned paths fs = false → draw = .ok key → StopsBetween paths disk tpm →
          Harmless chip paths (chip.create tpm.seed key.bytes).1 key fs)) := by
  refine ⟨fun _ _ _ => allOrNothing_of_seal_iff hchip,
    fun _ _ => allOrNothing_sealKey_iff hchip _ _, fun disk tpm draw hdraw => ?_⟩
  rw [provision_files]
  cases hprovisioned : isProvisioned paths fs with
  | true => exact iff_of_true (allOrNothing_of_same rfl) fun h => nomatch h
  | false =>
      cases draw with
      | error e => exact iff_of_true (allOrNothing_of_same rfl) fun _ h => nomatch h
      | ok key' =>
          obtain rfl := hdraw key' rfl
          rw [forall_prop_of_true rfl, forall_prop_of_true rfl]
          exact allOrNothing_sealKey_iff hchip disk tpm

/-- A disk that does not open a temporary file for the private area. -/
def refusesPrivate (paths : VaultPaths) : Disk where
  fault step := if step = .createTmp paths.tpmSealedPriv then some (.other "no space") else none
  reached _ := 0

/-- A first seal that is cut off between the files has sealed nothing. -/
theorem a_first_seal_is_all_or_nothing :
    StopsBetween .reference (refusesPrivate .reference) (.working [1]) ∧
      AllOrNothing .reference .reference (Block.replicate keyLen 1) .empty
        (sealKey .reference .reference (refusesPrivate .reference) (.working [1])
          (Block.replicate keyLen 1) .empty).2 := by
  refine ⟨⟨fun _ _ => rfl, by unfold Disk.Writes; decide, by unfold Disk.Writes; decide⟩, ?_⟩
  exact ((sealing_is_all_or_nothing_iff Chip.reference_lawful .reference _ _).2.1 _ _).mpr
    fun _ => .inl rfl

/-- A key is sealed, and sealing another one is cut off between the files: the chip loads
neither. -/
theorem a_seal_is_lost : ∃ fs fs' fault,
    unsealKey .reference .reference .reliable (.working [1]) fs = .ok (Block.replicate keyLen 1) ∧
    sealKey .reference .reference (refusesPrivate .reference) (.working [2])
      (Block.replicate keyLen 2) fs = (.error fault, fs') ∧
    (∀ key, unsealKey .reference .reference .reliable (.working [1]) fs' ≠ .ok key) ∧
    ¬ AllOrNothing .reference .reference (Block.replicate keyLen 2) fs fs' := by
  let fs := resealed .reference .reference [1] (Block.replicate keyLen 1) .empty
  let fs' := (sealKey .reference .reference (refusesPrivate .reference) (.working [2])
    (Block.replicate keyLen 2) fs).2
  have hsealed : Holds .reference .reference fs (Block.replicate keyLen 1) :=
    holds_resealed .reference Chip.reference_lawful _ _ _
  have hold : sealedAreas .reference fs =
      (some [1], some ((Block.replicate keyLen 1).bytes ++ [1])) := by decide
  have hmixed : sealedAreas .reference fs' =
      (some (Chip.reference.create [2] (Block.replicate keyLen 2).bytes).1,
        (sealedAreas .reference fs).2) := by decide
  have hload : Chip.reference.load [2] ((Block.replicate keyLen 1).bytes ++ [1]) =
      .error "the areas do not belong together" := rfl
  refine ⟨fs, fs', _, (unsealKey_eq_ok_iff ..).mpr ⟨⟨rfl, rfl, fun _ _ => rfl⟩, hsealed⟩, rfl,
    fun key hkey => ?_, ?_⟩
  · obtain ⟨_, _, hareas, _, _, hkey⟩ := holds_iff_areas.mp ((unsealKey_eq_ok_iff ..).mp hkey).2
    rw [hmixed, hold] at hareas
    cases hareas
    cases hload.symm.trans hkey
  · rw [allOrNothing_between_iff Chip.reference_lawful hmixed, Harmless, hold]
    rintro (hnone | hsame | ⟨_, hprivate, _, hkey⟩)
    · cases hnone
    · cases hsame
    · cases hprivate
      cases hload.symm.trans hkey

end TpmOuterProvider

end Sypherstore
