/-
# The outer key in the TPM

Sealing the outer key and recovering it (`hw/tpm.rs`). The chip is a parameter: what
its two areas hold does not change, while each call may find it unwilling.
-/

import Sypherstore.Core.Session

namespace Sypherstore

open Logic

/-- What the chip makes of values and areas. -/
structure Chip where
  /-- The public and the private area of a sealed value, made with randomness of the
  chip's own. -/
  create : (seed value : Bytes) → Bytes × Bytes
  /-- `Public::unmarshall`, with the error's text. -/
  unmarshalPublic : Bytes → Except String Unit
  /-- `Private::try_from`. -/
  unmarshalPrivate : Bytes → Except String Unit
  /-- Load the two areas under the primary key and unseal the value. -/
  load : (publicArea privateArea : Bytes) → Except String Bytes

namespace Chip

/-- Documented behaviour: a key that was sealed can be unsealed, and a private area
loads with its own public area only. -/
structure Lawful (chip : Chip) : Prop where
  marshal : ∀ seed (key : Key), chip.unmarshalPublic (chip.create seed key.bytes).1 = .ok () ∧
    chip.unmarshalPrivate (chip.create seed key.bytes).2 = .ok ()
  unseals : ∀ seed (key : Key),
    chip.load (chip.create seed key.bytes).1 (chip.create seed key.bytes).2 = .ok key.bytes
  bound : ∀ publicArea publicArea' privateArea value value',
    chip.load publicArea privateArea = .ok value →
    chip.load publicArea' privateArea = .ok value' → publicArea' = publicArea

end Chip

/-- What the program asks of the chip. -/
inductive TpmStep where
  | openContext
  | createPrimary
  | create
  | marshal
  | unseal
  deriving DecidableEq, Repr

/-- How the chip behaves during one call. -/
structure TpmCall where
  /-- The error a step fails with, if it does. -/
  fault : TpmStep → Option ProviderError
  seed : Bytes

namespace TpmCall

def attempt (tpm : TpmCall) (step : TpmStep) : Fallible ProviderError Unit :=
  match tpm.fault step with
  | some e => Fallible.raise e
  | none => .ok ()

theorem attempt_eq_ok_iff (tpm : TpmCall) (step : TpmStep) (u : Unit) :
    tpm.attempt step = .ok u ↔ tpm.fault step = none := by
  unfold attempt
  cases tpm.fault step <;> simp [Fallible.raise]

/-- The chip seals a value during this call. -/
def Creates (tpm : TpmCall) : Prop :=
  ∀ step ∈ [TpmStep.openContext, .createPrimary, .create, .marshal], tpm.fault step = none

/-- A chip that does everything it is asked. -/
def working (seed : Bytes) : TpmCall where
  fault _ := none
  seed := seed

end TpmCall

def IoError.text : IoError → String
  | .notFound => "No such file or directory (os error 2)"
  | .other message => message

def PathError.text : PathError → String
  | .noDataDir => "could not determine the XDG data directory"
  | .io e => e.text

namespace TpmOuterProvider

section Provider

variable (chip : Chip) (paths : VaultPaths) (disk : Disk) (tpm : TpmCall)

def isProvisioned (fs : FileSystem) : Bool :=
  fs.holds paths.tpmSealedPub && fs.holds paths.tpmSealedPriv

/-- Seals `key` to this TPM and writes the two blob files. -/
def sealKey (key : Key) : Stateful FileSystem ProviderError Unit := do
  Stateful.lift (tpm.attempt .openContext)
  Stateful.lift (tpm.attempt .createPrimary)
  Stateful.lift (tpm.attempt .create)
  Stateful.lift (tpm.attempt .marshal)
  let (publicArea, privateArea) := chip.create tpm.seed key.bytes
  (writePrivateAtomic disk paths.tpmSealedPub publicArea).mapError fun e => .device e.text
  (writePrivateAtomic disk paths.tpmSealedPriv privateArea).mapError fun e => .device e.text

/-- Generates a key and seals it, unless there is sealed key material. -/
def provision (draw : Except RandomError Key) : Stateful FileSystem ProviderError Key := do
  let fs ← Stateful.read
  if isProvisioned paths fs then
    Stateful.raise (.device "this vault already has TPM-sealed key material")
  else do
    let key ← Stateful.lift ((Fallible.ofExcept draw).mapError fun e => .key (.random e))
    sealKey chip paths disk tpm key
    return key

/-- Recovers the sealed key. -/
def unsealKey (fs : FileSystem) : Fallible ProviderError Key := do
  if !isProvisioned paths fs then Fallible.raise .notProvisioned
  else
    let publicArea ← (disk.read paths.tpmSealedPub fs).mapError fun e => .io e.text
    let privateArea ← (disk.read paths.tpmSealedPriv fs).mapError fun e => .io e.text
    (Fallible.ofExcept (chip.unmarshalPublic publicArea)).mapError fun detail =>
      .corrupt ("tpm_sealed.pub is not a valid TPM public area: " ++ detail)
    (Fallible.ofExcept (chip.unmarshalPrivate privateArea)).mapError fun detail =>
      .corrupt ("tpm_sealed.priv is not a valid TPM private area: " ++ detail)
    tpm.attempt .openContext
    tpm.attempt .createPrimary
    let value ← (Fallible.ofExcept (chip.load publicArea privateArea)).mapError fun detail =>
      .corrupt ("the TPM refused to load the sealed key: " ++ detail ++ ". This vault was " ++
        "created on a different machine, or the TPM has been cleared.")
    tpm.attempt .unseal
    if value.length ≠ keyLen then
      Fallible.raise (.corrupt ("the sealed value is " ++ toString value.length ++
        " bytes, expected " ++ toString keyLen))
    else (Key.takeFrom value).mapError .key

/-- The provider, over the vault's files. -/
def outer (draw : Except RandomError Key) : OuterKeyProvider FileSystem where
  provision := provision chip paths disk tpm draw
  provisionWith := sealKey chip paths disk tpm
  unsealKey := unsealKey chip paths disk tpm
  isProvisioned := isProvisioned paths

end Provider

/-! ## What is sealed -/

variable {chip : Chip} {paths : VaultPaths} {disk : Disk} {tpm : TpmCall}

/-- The two files hold areas that the chip unseals to this key. -/
def Holds (chip : Chip) (paths : VaultPaths) (fs : FileSystem) (key : Key) : Prop :=
  ∃ publicFile privateFile, fs.file paths.tpmSealedPub = some publicFile ∧
    fs.file paths.tpmSealedPriv = some privateFile ∧
    chip.unmarshalPublic publicFile.contents = .ok () ∧
    chip.unmarshalPrivate privateFile.contents = .ok () ∧
    chip.load publicFile.contents privateFile.contents = .ok key.bytes

/-- Nothing that unsealing needs is refused. -/
structure CanUnseal (paths : VaultPaths) (disk : Disk) (tpm : TpmCall) : Prop where
  readPublic : disk.fault (.read paths.tpmSealedPub) = none
  readPrivate : disk.fault (.read paths.tpmSealedPriv) = none
  chip : ∀ step ∈ [TpmStep.openContext, .createPrimary, .unseal], tpm.fault step = none

/-- **What unsealing returns**: the key the files hold. -/
theorem unsealKey_eq_ok_iff (fs : FileSystem) (key : Key) :
    unsealKey chip paths disk tpm fs = .ok key ↔
      CanUnseal paths disk tpm ∧ Holds chip paths fs key := by
  constructor
  · intro h
    by_cases hprovisioned : isProvisioned paths fs = true
    · simp only [unsealKey, hprovisioned, Bool.not_true, Bool.false_eq_true, if_false,
        Fallible.bind_eq_ok_iff, Fallible.mapError_eq_ok_iff, Disk.read_eq_ok_iff,
        Fallible.ofExcept_eq_ok_iff, TpmCall.attempt_eq_ok_iff] at h
      obtain ⟨_, ⟨hpublicRead, publicFile, hpublic, rfl⟩, _, ⟨hprivateRead, privateFile, hprivate,
        rfl⟩, _, hpublicArea, _, hprivateArea, _, hopen, _, hprimary, value, hload, _, hunseal,
        hkey⟩ := h
      by_cases hlen : value.length = keyLen
      · simp only [hlen, ne_eq, not_true_eq_false, if_false, Fallible.mapError_eq_ok_iff,
          Key.takeFrom_eq_ok_iff] at hkey
        subst hkey
        exact ⟨⟨hpublicRead, hprivateRead, by simp [hopen, hprimary, hunseal]⟩, publicFile,
          privateFile, hpublic, hprivate, hpublicArea, hprivateArea, hload⟩
      · simp [hlen, Fallible.raise] at hkey
    · simp [unsealKey, hprovisioned, Fallible.raise] at h
  · rintro ⟨⟨hpublicRead, hprivateRead, hchip⟩, publicFile, privateFile, hpublic, hprivate,
      hpublicArea, hprivateArea, hload⟩
    have hprovisioned : isProvisioned paths fs = true := by
      simp [isProvisioned, FileSystem.holds, hpublic, hprivate]
    simp only [List.forall_mem_cons] at hchip
    obtain ⟨hopen, hprimary, hunseal, _⟩ := hchip
    simp only [unsealKey, hprovisioned, Bool.not_true, Bool.false_eq_true, if_false,
      Fallible.bind_eq_ok_iff, Fallible.mapError_eq_ok_iff, Disk.read_eq_ok_iff,
      Fallible.ofExcept_eq_ok_iff, TpmCall.attempt_eq_ok_iff]
    exact ⟨_, ⟨hpublicRead, publicFile, hpublic, rfl⟩, _, ⟨hprivateRead, privateFile, hprivate,
      rfl⟩, (), hpublicArea, (), hprivateArea, (), hopen, (), hprimary, _, hload, (), hunseal,
      by simp⟩

/-- Only the two files matter. -/
theorem Holds.congr {fs fs' : FileSystem} {key : Key} (h : Holds chip paths fs key)
    (hpublic : fs'.file paths.tpmSealedPub = fs.file paths.tpmSealedPub)
    (hprivate : fs'.file paths.tpmSealedPriv = fs.file paths.tpmSealedPriv) :
    Holds chip paths fs' key := by
  obtain ⟨publicFile, privateFile, hpublicFile, hprivateFile, hload⟩ := h
  exact ⟨publicFile, privateFile, hpublic.trans hpublicFile, hprivate.trans hprivateFile, hload⟩

theorem Holds.key_unique {fs : FileSystem} {key key' : Key} (h : Holds chip paths fs key)
    (h' : Holds chip paths fs key') : key' = key := by
  obtain ⟨publicFile, privateFile, hpublic, hprivate, _, _, hload⟩ := h
  obtain ⟨publicFile', privateFile', hpublic', hprivate', _, _, hload'⟩ := h'
  obtain rfl := Option.some.inj (hpublic'.symm.trans hpublic)
  obtain rfl := Option.some.inj (hprivate'.symm.trans hprivate)
  exact Block.ext (Except.ok.inj (hload'.symm.trans hload))

/-- The files after both areas have been written. -/
def resealed (chip : Chip) (paths : VaultPaths) (seed : Bytes) (key : Key) (fs : FileSystem) :
    FileSystem :=
  (fs.replaced paths.tpmSealedPub (chip.create seed key.bytes).1).replaced paths.tpmSealedPriv
    (chip.create seed key.bytes).2

/-- The two areas and their temporary file have different names. -/
theorem sealed_paths_ne (paths : VaultPaths) :
    paths.tpmSealedPub ≠ paths.tpmSealedPriv ∧
    paths.tpmSealedPub ≠ paths.tpmSealedPriv.withExtension "tmp" ∧
    paths.tpmSealedPriv ≠ paths.tpmSealedPub.withExtension "tmp" ∧
    paths.tpmSealedPub ≠ paths.tpmSealedPub.withExtension "tmp" ∧
    paths.tpmSealedPriv ≠ paths.tpmSealedPriv.withExtension "tmp" :=
  ⟨Path.ne_of_name_ne (by simp), Path.ne_of_name_ne (by simp), Path.ne_of_name_ne (by simp),
    Path.ne_of_name_ne (by simp), Path.ne_of_name_ne (by simp)⟩

/-- The two areas go through one temporary file. -/
theorem tmp_eq (paths : VaultPaths) :
    paths.tpmSealedPub.withExtension "tmp" = paths.tpmSealedPriv.withExtension "tmp" :=
  congrArg (Path.mk paths.root) (show (paths.tpmSealedPub.withExtension "tmp").name =
    (paths.tpmSealedPriv.withExtension "tmp").name by simp)

variable (chip paths disk) in
/-- A call that the chip refuses has changed nothing. -/
theorem sealKey_of_not_creates (h : ¬ tpm.Creates) (key : Key)
    (fs : FileSystem) : ∃ e, sealKey chip paths disk tpm key fs = (.error (.error e), fs) := by
  simp only [sealKey, Stateful.bind_apply, Stateful.lift_apply, TpmCall.attempt]
  cases hopen : tpm.fault .openContext with
  | some e => exact ⟨e, rfl⟩
  | none =>
      cases hprimary : tpm.fault .createPrimary with
      | some e => exact ⟨e, rfl⟩
      | none =>
          cases hcreate : tpm.fault .create with
          | some e => exact ⟨e, rfl⟩
          | none =>
              cases hmarshal : tpm.fault .marshal with
              | some e => exact ⟨e, rfl⟩
              | none =>
                  refine absurd ?_ h
                  simp [TpmCall.Creates, hopen, hprimary, hcreate, hmarshal]

variable (chip paths disk tpm) in
/-- **How sealing can go.** It stops before either file has changed; or with a new public
and the old private area; or it replaces both. -/
theorem sealKey_cases (key : Key) (fs : FileSystem) :
    (¬ (tpm.Creates ∧ disk.Writes paths.tpmSealedPub) ∧
      ∃ e fs', sealKey chip paths disk tpm key fs = (.error (.error e), fs') ∧
        ∀ q, q ≠ paths.tpmSealedPub.withExtension "tmp" → fs'.file q = fs.file q) ∨
    (tpm.Creates ∧ disk.Writes paths.tpmSealedPub ∧ ¬ disk.Writes paths.tpmSealedPriv ∧
      ∃ e fs', sealKey chip paths disk tpm key fs = (.error (.error e), fs') ∧
        ∀ q, q ≠ paths.tpmSealedPriv.withExtension "tmp" → fs'.file q =
          (fs.replaced paths.tpmSealedPub (chip.create tpm.seed key.bytes).1).file q) ∨
    (tpm.Creates ∧ disk.Writes paths.tpmSealedPub ∧ disk.Writes paths.tpmSealedPriv ∧
      sealKey chip paths disk tpm key fs = (.ok (), resealed chip paths tpm.seed key fs)) := by
  by_cases hcreates : tpm.Creates
  · have ⟨hopen, hprimary, hcreate, hmarshal⟩ : tpm.fault .openContext = none ∧
        tpm.fault .createPrimary = none ∧ tpm.fault .create = none ∧
        tpm.fault .marshal = none := by
      simpa [TpmCall.Creates] using hcreates
    simp only [sealKey, Stateful.bind_apply, Stateful.lift_apply, TpmCall.attempt, hopen, hprimary,
      hcreate, hmarshal, Stateful.mapError_apply]
    rcases writePrivateAtomic_cases disk paths.tpmSealedPub (chip.create tpm.seed key.bytes).1 fs
      with ⟨hpublic, h⟩ | ⟨hpublic, e, fs', h, hkept⟩
    · rw [h]
      simp only [Fallible.mapError_ok]
      rcases writePrivateAtomic_cases disk paths.tpmSealedPriv (chip.create tpm.seed key.bytes).2
        (fs.replaced paths.tpmSealedPub (chip.create tpm.seed key.bytes).1)
        with ⟨hprivate, h'⟩ | ⟨hprivate, e, fs', h', hkept⟩
      · rw [h']
        exact .inr (.inr ⟨hcreates, hpublic, hprivate, rfl⟩)
      · rw [h']
        exact .inr (.inl ⟨hcreates, hpublic, hprivate, _, fs', rfl, hkept⟩)
    · rw [h]
      exact .inl ⟨fun hboth => hpublic hboth.2, _, fs', rfl, hkept⟩
  · obtain ⟨e, h⟩ := sealKey_of_not_creates chip paths disk hcreates key fs
    exact .inl ⟨fun hboth => hcreates hboth.1, e, fs, h, fun _ _ => rfl⟩

/-- **What sealing takes.** -/
theorem sealKey_eq_ok_iff (key : Key) (fs fs' : FileSystem) (u : Unit) :
    sealKey chip paths disk tpm key fs = (.ok u, fs') ↔
      tpm.Creates ∧ disk.Writes paths.tpmSealedPub ∧ disk.Writes paths.tpmSealedPriv ∧
      fs' = resealed chip paths tpm.seed key fs := by
  rcases sealKey_cases chip paths disk tpm key fs with
    ⟨hstopped, e, _, h, _⟩ | ⟨_, _, hprivate, e, _, h, _⟩ | ⟨hcreates, hpublic, hprivate, h⟩
  · simp only [h, Prod.mk.injEq, reduceCtorEq, false_and, false_iff]
    exact fun ⟨hcreates, hpublic, _⟩ => hstopped ⟨hcreates, hpublic⟩
  · simp [h, hprivate]
  · simp [h, hcreates, hpublic, hprivate, eq_comm]

variable (chip paths disk tpm) in
/-- **What provisioning takes**: nothing that was sealed before. -/
theorem provision_eq_ok_iff (draw : Except RandomError Key) (key : Key) (fs fs' : FileSystem) :
    provision chip paths disk tpm draw fs = (.ok key, fs') ↔
      isProvisioned paths fs = false ∧ draw = .ok key ∧ tpm.Creates ∧
      disk.Writes paths.tpmSealedPub ∧ disk.Writes paths.tpmSealedPriv ∧
      fs' = resealed chip paths tpm.seed key fs := by
  simp only [provision, Stateful.bind_eq_ok_iff, Stateful.read_eq_ok_iff]
  constructor
  · rintro ⟨_, _, ⟨hfs, hmid⟩, h⟩
    rw [hfs, hmid] at h
    cases hprovisioned : isProvisioned paths fs with
    | true => simp [hprovisioned] at h
    | false =>
        simp only [hprovisioned, Bool.false_eq_true, if_false, Stateful.bind_eq_ok_iff,
          Stateful.lift_eq_ok_iff, Fallible.mapError_eq_ok_iff, Fallible.ofExcept_eq_ok_iff,
          sealKey_eq_ok_iff] at h
        obtain ⟨_, _, ⟨hdraw, rfl⟩, _, _, ⟨hcreates, hpublic, hprivate, rfl⟩, hreturn⟩ := h
        cases hreturn
        exact ⟨rfl, hdraw, hcreates, hpublic, hprivate, rfl⟩
  · rintro ⟨hprovisioned, hdraw, hcreates, hpublic, hprivate, rfl⟩
    refine ⟨_, _, ⟨rfl, rfl⟩, ?_⟩
    simp only [hprovisioned, Bool.false_eq_true, if_false, Stateful.bind_eq_ok_iff,
      Stateful.lift_eq_ok_iff, Fallible.mapError_eq_ok_iff, Fallible.ofExcept_eq_ok_iff,
      sealKey_eq_ok_iff]
    exact ⟨key, _, ⟨hdraw, rfl⟩, (), _, ⟨hcreates, hpublic, hprivate, rfl⟩, rfl⟩

/-- The files of the vault other than the two areas and their temporary file. -/
theorem file_resealed (seed : Bytes) (key : Key) (fs : FileSystem) {q : Path}
    (hpublic : q ≠ paths.tpmSealedPub) (hprivate : q ≠ paths.tpmSealedPriv)
    (htmp : q ≠ paths.tpmSealedPub.withExtension "tmp") :
    (resealed chip paths seed key fs).file q = fs.file q := by
  rw [resealed, FileSystem.replaced_of_ne _ _ hprivate (tmp_eq paths ▸ htmp),
    FileSystem.replaced_of_ne _ _ hpublic htmp]

variable (paths) in
/-- What was sealed is held. -/
theorem holds_resealed (hchip : chip.Lawful) (seed : Bytes) (key : Key) (fs : FileSystem) :
    Holds chip paths (resealed chip paths seed key fs) key := by
  have ⟨hne, htmp, _, _, _⟩ := sealed_paths_ne paths
  obtain ⟨mode, hpublic⟩ :=
    fs.replaced_self paths.tpmSealedPub (chip.create seed key.bytes).1
  obtain ⟨mode', hprivate⟩ := (fs.replaced paths.tpmSealedPub
    (chip.create seed key.bytes).1).replaced_self paths.tpmSealedPriv
    (chip.create seed key.bytes).2
  obtain ⟨hmarshalPublic, hmarshalPrivate⟩ := hchip.marshal seed key
  refine ⟨⟨_, mode⟩, ⟨_, mode'⟩, ?_, hprivate, hmarshalPublic, hmarshalPrivate,
    hchip.unseals seed key⟩
  rw [resealed, FileSystem.replaced_of_ne _ _ hne htmp, hpublic]

end TpmOuterProvider

end Sypherstore
