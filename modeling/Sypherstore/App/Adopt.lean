/-
# Adopting a vault with its recovery key

What `recovery adopt` proves when it reports success, and what becomes of the key that
was sealed before. The command seals the typed key first and opens the vault
afterwards, with the outer key only, so the key is never compared with the vault.
-/

import Sypherstore.App.Init
import Sypherstore.Core.Enrollment

namespace Sypherstore

open Logic

variable {env : Platform} {paths : VaultPaths} {run : Invocation}

/-! ## How a run goes -/

/-- The user typed a recovery key that decodes. -/
def Typed (env : Platform) (run : Invocation) (key : Key) : Prop :=
  ∃ keyText, run.keyText = .ok keyText ∧ Recovery.decode env.sha256 keyText = .ok key

/-- The run goes as far as sealing the key: there is a database, the user agreed, and the
directories are there. -/
structure SealsKey (paths : VaultPaths) (run : Invocation) (fs : FileSystem) : Prop where
  db : fs.holds paths.db = true
  confirmed : run.confirmed = .ok true
  dirs : paths.DirsReady run.disk

/-- The run replaces the first of the two sealed files. -/
structure ReplacesSeal (paths : VaultPaths) (run : Invocation) (fs : FileSystem) : Prop where
  seals : SealsKey paths run fs
  creates : run.tpm.Creates
  writes : run.disk.Writes paths.tpmSealedPub

/-- What adopting calls its proof: the vault opens, and its rows can be counted. -/
def openAndCount (env : Platform) (paths : VaultPaths) (run : Invocation) :
    Stateful FileSystem CommandError AdoptReport := do
  let (_, d) ← (openLockedOnly env paths run).mapError .stillClosed
  let count ← Stateful.lift ((d.count run.call.sql).mapError .counting)
  return .adopted count

theorem openAndCount_eq_ok_iff (fs fs' : FileSystem) (report : AdoptReport) :
    openAndCount env paths run fs = (.ok report, fs') ↔
      ∃ s d n, openLockedOnly env paths run fs = (.ok (s, d), fs') ∧
        d.count run.call.sql = .ok n ∧ report = .adopted n := by
  simp only [openAndCount, Stateful.bind_eq_ok_iff, Stateful.mapError_eq_ok_iff,
    Stateful.lift_eq_ok_iff, Fallible.mapError_eq_ok_iff]
  constructor
  · rintro ⟨⟨s, d⟩, _, hopen, n, _, ⟨hcount, rfl⟩, hreturn⟩
    cases hreturn
    exact ⟨s, d, n, hopen, hcount, rfl⟩
  · rintro ⟨s, d, n, hopen, hcount, rfl⟩
    exact ⟨(s, d), _, hopen, n, _, ⟨hcount, rfl⟩, rfl⟩

theorem openAndCount_keeps {p : Path} {f : Option File} (h : Beside paths p) :
    Stateful.Keeps (fun fs : FileSystem => fs.file p = f) (openAndCount env paths run) := by
  refine Stateful.Keeps.bind (Stateful.Keeps.mapError (openLockedOnly_keeps h) _) fun _ => ?_
  refine Stateful.Keeps.bind (Stateful.Keeps.lift _) fun _ => ?_
  exact Stateful.Keeps.pure _

/-- The key is sealed, and only then is the vault opened. -/
theorem cmdRecoveryAdopt_of_sealsKey {fs : FileSystem} {key : Key} (htyped : Typed env run key)
    (hseals : SealsKey paths run fs) :
    cmdRecoveryAdopt env paths run fs =
      ((TpmOuterProvider.sealKey env.chip paths run.disk run.tpm key).mapError .sealing >>= fun _ =>
        openAndCount env paths run) fs := by
  obtain ⟨keyText, htext, hdecode⟩ := htyped
  obtain ⟨hdb, hconfirmed, hdirs⟩ := hseals
  have hready := (paths.ensureDirs_eq_ok_iff run.disk fs fs ()).mpr ⟨hdirs, rfl⟩
  have hfound : ¬ (!fs.holds paths.db) = true := by simp [hdb]
  simp only [cmdRecoveryAdopt, Stateful.bind_apply, Stateful.read_apply, if_neg hfound,
    Stateful.lift_apply, htext, Fallible.ofExcept_ok, Fallible.mapError_ok, hdecode, hconfirmed,
    Bool.not_true, Bool.false_eq_true, if_false, Stateful.mapError_apply, hready]
  rfl

/-- Before that, nothing is changed. -/
theorem cmdRecoveryAdopt_of_not_sealsKey {fs : FileSystem} {key : Key} (htyped : Typed env run key)
    (hseals : ¬ SealsKey paths run fs) :
    ∃ outcome, cmdRecoveryAdopt env paths run fs = (outcome, fs) ∧
      ∀ n, outcome ≠ .ok (.adopted n) := by
  obtain ⟨keyText, htext, hdecode⟩ := htyped
  by_cases hdb : fs.holds paths.db = true
  · have hfound : ¬ (!fs.holds paths.db) = true := by simp [hdb]
    simp only [cmdRecoveryAdopt, Stateful.bind_apply, Stateful.read_apply, if_neg hfound,
      Stateful.lift_apply, htext, Fallible.ofExcept_ok, Fallible.mapError_ok, hdecode]
    cases hconfirmed : run.confirmed with
    | error e => exact ⟨_, rfl, fun n => by simp⟩
    | ok goOn =>
        cases goOn with
        | false => exact ⟨_, rfl, fun n => by simp⟩
        | true =>
            rcases paths.ensureDirs_cases run.disk fs with ⟨hdirs, _⟩ | ⟨_, e, h⟩
            · exact absurd ⟨hdb, hconfirmed, hdirs⟩ hseals
            · refine ⟨.error (.error (.creatingDirs e)), ?_, fun n => by simp⟩
              simp [Stateful.bind_apply, h]
  · refine ⟨.error (.error (.noDatabase paths.db)), ?_, fun n => by simp⟩
    simp [cmdRecoveryAdopt, Stateful.bind_apply, hdb]

/-- **When adopting reports success**: the key is sealed, and the vault opens with
whatever is sealed. -/
theorem cmdRecoveryAdopt_eq_adopted_iff {key : Key} (htyped : Typed env run key)
    (fs fs' : FileSystem) (n : ℕ) :
    cmdRecoveryAdopt env paths run fs = (.ok (.adopted n), fs') ↔
      ReplacesSeal paths run fs ∧ run.disk.Writes paths.tpmSealedPriv ∧
      ∃ s d, openLockedOnly env paths run
          (TpmOuterProvider.resealed env.chip paths run.tpm.seed key fs) = (.ok (s, d), fs') ∧
        d.count run.call.sql = .ok n := by
  by_cases hseals : SealsKey paths run fs
  · rw [cmdRecoveryAdopt_of_sealsKey htyped hseals]
    simp only [Stateful.bind_eq_ok_iff, Stateful.mapError_eq_ok_iff,
      TpmOuterProvider.sealKey_eq_ok_iff, openAndCount_eq_ok_iff]
    constructor
    · rintro ⟨_, _, ⟨hcreates, hpublic, hprivate, rfl⟩, s, d, count, hopen, hcount, hreport⟩
      cases hreport
      exact ⟨⟨hseals, hcreates, hpublic⟩, hprivate, s, d, hopen, hcount⟩
    · rintro ⟨⟨_, hcreates, hpublic⟩, hprivate, s, d, hopen, hcount⟩
      exact ⟨(), _, ⟨hcreates, hpublic, hprivate, rfl⟩, s, d, n, hopen, hcount, rfl⟩
  · obtain ⟨outcome, h, houtcome⟩ := cmdRecoveryAdopt_of_not_sealsKey htyped hseals
    rw [h]
    constructor
    · intro hadopted
      exact absurd (Prod.mk.inj hadopted).1 (houtcome n)
    · intro hreplaces
      exact absurd hreplaces.1.seals hseals

/-! ## What is sealed afterwards -/

/-- The two sealed files at the end of a run: as they were; with a new public area in
front of the old private one; or with both areas of the typed key. -/
theorem cmdRecoveryAdopt_sealed_cases (paths : VaultPaths) (hchip : env.chip.Lawful) {key : Key}
    (htyped : Typed env run key) (fs : FileSystem) :
    let fs' := (cmdRecoveryAdopt env paths run fs).2
    (¬ ReplacesSeal paths run fs ∧
      fs'.file paths.tpmSealedPub = fs.file paths.tpmSealedPub ∧
      fs'.file paths.tpmSealedPriv = fs.file paths.tpmSealedPriv) ∨
    (ReplacesSeal paths run fs ∧ ¬ run.disk.Writes paths.tpmSealedPriv ∧
      (∃ mode, fs'.file paths.tpmSealedPub =
        some ⟨(env.chip.create run.tpm.seed key.bytes).1, mode⟩) ∧
      fs'.file paths.tpmSealedPriv = fs.file paths.tpmSealedPriv) ∨
    (ReplacesSeal paths run fs ∧ run.disk.Writes paths.tpmSealedPriv ∧
      TpmOuterProvider.Holds env.chip paths fs' key) := by
  intro fs'
  by_cases hseals : SealsKey paths run fs
  · have ⟨hne, htmpPriv, hprivTmp, htmpPub, hprivTmp'⟩ := TpmOuterProvider.sealed_paths_ne paths
    have hrun := cmdRecoveryAdopt_of_sealsKey htyped hseals
    rcases TpmOuterProvider.sealKey_cases env.chip paths run.disk run.tpm key fs with
      ⟨hstopped, e, mid, hseal, hkept⟩ | ⟨hcreates, hpublic, hprivate, e, mid, hseal, hkept⟩ |
      ⟨hcreates, hpublic, hprivate, hseal⟩
    · have hend : fs' = mid := by
        simp only [fs', hrun, Stateful.bind_apply, Stateful.mapError_apply, hseal]
        rfl
      rw [hend]
      exact .inl ⟨fun h => hstopped ⟨h.creates, h.writes⟩, hkept _ htmpPub, hkept _ hprivTmp⟩
    · have hend : fs' = mid := by
        simp only [fs', hrun, Stateful.bind_apply, Stateful.mapError_apply, hseal]
        rfl
      rw [hend]
      refine .inr (.inl ⟨⟨hseals, hcreates, hpublic⟩, hprivate, ?_, ?_⟩)
      · rw [hkept _ htmpPriv]
        exact fs.replaced_self _ _
      · rw [hkept _ hprivTmp', FileSystem.replaced_of_ne _ _ hne.symm hprivTmp]
    · have hheld := TpmOuterProvider.holds_resealed paths hchip run.tpm.seed key fs
      have hkept : ∀ p, Beside paths p →
          fs'.file p = (TpmOuterProvider.resealed env.chip paths run.tpm.seed key fs).file p := by
        intro p hp
        have hend : fs' = (openAndCount env paths run
            (TpmOuterProvider.resealed env.chip paths run.tpm.seed key fs)).2 := by
          simp only [fs', hrun, Stateful.bind_apply, Stateful.mapError_apply, hseal]
          rfl
        rw [hend]
        exact openAndCount_keeps hp _ rfl
      exact .inr (.inr ⟨⟨hseals, hcreates, hpublic⟩, hprivate,
        hheld.congr (hkept _ (beside_tpmSealedPub paths)) (hkept _ (beside_tpmSealedPriv paths))⟩)
  · obtain ⟨outcome, h, _⟩ := cmdRecoveryAdopt_of_not_sealsKey htyped hseals
    have hend : fs' = fs := congrArg Prod.snd h
    rw [hend]
    exact .inl ⟨fun hreplaces => hseals hreplaces.seals, rfl, rfl⟩

/-! ## The promise -/

variable {ι : Type} {w : Authenticators ι}

/-- The vault was created with this outer key, and has since been used with these
authenticators only; those for which `enrolled` holds were enrolled. -/
def CreatedWith (w : Authenticators ι) (P : Primitives) (outerKek : Key) (enrolled : ι → Prop)
    (v : Vault) : Prop :=
  ∃ (σ : Type) (outer : OuterKeyProvider σ) (inner : InnerKeyProvider) (created : Call)
    (timeout : ℕ) (t t' : σ) (v₀ : Vault) (s₀ : Session) (actions : List Action)
    (process : Process),
    Session.initializeVault P created outer inner timeout (.empty, t) = (.ok s₀, (v₀, t')) ∧
    Run (Process.Step P) (.running s₀) actions process ∧
    (∀ action ∈ actions, action.UnsealsOnly s₀.outerKek) ∧
    (∃ a, w.Stands a inner) ∧
    (∀ action ∈ actions, action.UsesOnly fun inner => ∃ a, w.Stands a inner) ∧
    s₀.outerKek = outerKek ∧ process.vault = v ∧ ∀ a, enrolled a → w.EnrolledBy inner actions a

/-- The vault keeps its salt. -/
theorem CreatedWith.mem_kdfSalt {P : Primitives} (hP : P.Lawful) {outerKek : Key}
    {enrolled : ι → Prop} {v : Vault} (h : CreatedWith w P outerKek enrolled v) :
    metaKdfSalt ∈ v.metaTable := by
  obtain ⟨_, _, inner, created, timeout, _, _, _, s₀, actions, process, hcreate, hrun, hsealed,
    ⟨b, hb⟩, huses, rfl, rfl, _⟩ := h
  obtain ⟨_, _, outerKek, keys, _, hprepare, _, rfl⟩ :=
    (Session.initializeVault_eq_ok_iff ..).mp hcreate
  have hstart : Refines P (w.Vouch P keys.innerKek outerKek) keys.innerKek outerKek
      (.running (keys.session P created outerKek .empty timeout)) .empty :=
    .of_newKeys keys timeout (.of_prepareKeys hb hprepare)
  have hend := hstart.run hP (Authenticators.Vouch.protects hP w keys.innerKek outerKek) hsealed
    huses hrun
  obtain ⟨ring, hstored, _⟩ := hend.ring
  exact hstored.mem_kdfSalt

/-- With the key it was created with, the vault unlocks with every enrolled
authenticator. -/
theorem CreatedWith.unlocks {P : Primitives} (hP : P.Lawful) {outerKek : Key}
    {enrolled : ι → Prop} {v : Vault} (h : CreatedWith w P outerKek enrolled v) {a : ι}
    (ha : enrolled a) {inner : InnerKeyProvider} (hstands : w.Stands a inner)
    (hresponds : w.Responds a inner) {call : Call} (hreadable : KeyRing.Readable call.sql)
    (timeout : ℕ) :
    ∃ s, Session.unlock P call inner ⟨v, outerKek, none, none, timeout⟩ = (.ok (), s) := by
  obtain ⟨_, _, primary, created, timeout₀, _, _, _, s₀, actions, process, hcreate, hrun, hsealed,
    hprimary, huses, rfl, rfl, henrolled⟩ := h
  obtain ⟨_, _, outerKek, keys, _, hprepare, _, rfl⟩ :=
    (Session.initializeVault_eq_ok_iff ..).mp hcreate
  obtain ⟨id, hissuer, hrefines⟩ := Authenticators.exists_stored_of_enrolledBy hP hprepare hrun
    hsealed huses hprimary (henrolled a ha)
  obtain ⟨ring, hstored, hvouch, hid⟩ := hrefines.ring
  have hadmits := hvouch.admits hstands hresponds ⟨id, hid, hissuer⟩
  exact ⟨_, KeyRing.unlock_of_admits _ hP ⟨process.vault, outerKek, none, none, timeout⟩ hstored
    hreadable hadmits⟩

/-- The vault in these files can be opened with the outer key and unlocked with every
enrolled authenticator, by a run in which nothing is refused. -/
def UnlocksFrom (env : Platform) (paths : VaultPaths) (w : Authenticators ι) (enrolled : ι → Prop)
    (fs : FileSystem) : Prop :=
  ∀ a, enrolled a → ∀ (next : Invocation) (inner : InnerKeyProvider) (call : Call),
    CanOpenLocked paths next → CanMigrate next.call.sql →
    (∃ config, loadConfig env paths next fs = .ok config) →
    w.Stands a inner → w.Responds a inner → KeyRing.Readable call.sql →
    ∃ s d fs' s', openLockedOnly env paths next fs = (.ok (s, d), fs') ∧
      Session.unlock env.primitives call inner s = (.ok (), s')

theorem unlocksFrom_of_holdsVault (hP : env.primitives.Lawful) {outerKek : Key} {v : Vault}
    {enrolled : ι → Prop} {fs : FileSystem} (hholds : HoldsVault env paths fs v outerKek)
    (hcreated : CreatedWith w env.primitives outerKek enrolled v) :
    UnlocksFrom env paths w enrolled fs := by
  intro a ha next inner call hopening hmigration ⟨config, hconfig⟩ hstands hresponds hreadable
  obtain ⟨⟨d, hread, hstores⟩, hsealed⟩ := hholds
  obtain ⟨d', hmigrate⟩ := exists_migrate_of_stores hmigration hstores
  have hopen := (openLockedOnly_eq_ok_iff fs _ _ d').mpr ⟨hopening, holds_db_of_readDatabase hread,
    config, d, v, outerKek, hconfig, hread, hmigrate, (migrate_stores hmigrate hstores).vault_eq,
    hcreated.mem_kdfSalt hP, hsealed, rfl, rfl⟩
  obtain ⟨s', hunlock⟩ := hcreated.unlocks hP ha hstands hresponds hreadable config.unlockTimeout
  exact ⟨_, d', _, s', hopen, hunlock⟩

/-- What a run with this recovery key owes to a vault that was created with `outerKek`: it
reports success only if that key is sealed and the vault can be used again, and with
another key it does not report success and takes nothing away. -/
structure KeepsPromise (env : Platform) (paths : VaultPaths) (w : Authenticators ι)
    (enrolled : ι → Prop) (run : Invocation) (key outerKek : Key) (fs : FileSystem) : Prop where
  proved : ∀ n fs', cmdRecoveryAdopt env paths run fs = (.ok (.adopted n), fs') →
    TpmOuterProvider.Holds env.chip paths fs' outerKek ∧ UnlocksFrom env paths w enrolled fs'
  refused : key ≠ outerKek → ∀ n fs', cmdRecoveryAdopt env paths run fs ≠ (.ok (.adopted n), fs')
  kept : key ≠ outerKek → ∀ old, TpmOuterProvider.Holds env.chip paths fs old →
    TpmOuterProvider.Holds env.chip paths (cmdRecoveryAdopt env paths run fs).2 old

/-- Nothing that adopting does after the first file is replaced is refused. -/
structure Completes (env : Platform) (paths : VaultPaths) (run : Invocation) (fs : FileSystem)
    (d : Database) : Prop where
  writes : run.disk.Writes paths.tpmSealedPriv
  opening : CanOpenLocked paths run
  config : ∃ config, loadConfig env paths run fs = .ok config
  migrates : ∃ d', migrate run.call.sql d = (.ok (), d')
  counts : run.call.sql.fault .count = none

/-- Sealing a key leaves database and settings as they are. -/
theorem file_resealed_of_name {p : Path} (hpublic : p.name ≠ "tpm_sealed.pub")
    (hprivate : p.name ≠ "tpm_sealed.priv") (htmp : p.name ≠ "tpm_sealed.tmp") (seed : Bytes)
    (key : Key) (fs : FileSystem) :
    (TpmOuterProvider.resealed env.chip paths seed key fs).file p = fs.file p :=
  TpmOuterProvider.file_resealed seed key fs (Path.ne_of_name_ne (by simpa using hpublic))
    (Path.ne_of_name_ne (by simpa using hprivate)) (Path.ne_of_name_ne (by simpa using htmp))

theorem readDatabase_resealed (seed : Bytes) (key : Key) (fs : FileSystem) :
    readDatabase env.sqlite paths (TpmOuterProvider.resealed env.chip paths seed key fs) =
      readDatabase env.sqlite paths fs := by
  unfold readDatabase
  rw [file_resealed_of_name (by simp) (by simp) (by simp),
    file_resealed_of_name (by simp) (by simp) (by simp)]

theorem loadConfig_resealed (seed : Bytes) (key : Key) (fs : FileSystem) :
    loadConfig env paths run (TpmOuterProvider.resealed env.chip paths seed key fs) =
      loadConfig env paths run fs := by
  unfold loadConfig Config.load Disk.read
  rw [file_resealed_of_name (by simp) (by simp) (by simp)]

/-- **What the report depends on.** Whether the key is that of the vault is not part of
it. -/
theorem exists_adopted_iff (hchip : env.chip.Lawful) {key : Key} (htyped : Typed env run key)
    {fs : FileSystem} {d : Database} {v : Vault}
    (hread : readDatabase env.sqlite paths fs = .ok d) (hstores : d.Stores v)
    (hsalt : metaKdfSalt ∈ v.metaTable) :
    (∃ n fs', cmdRecoveryAdopt env paths run fs = (.ok (.adopted n), fs')) ↔
      ReplacesSeal paths run fs ∧ Completes env paths run fs d := by
  constructor
  · rintro ⟨n, fs', hadopted⟩
    obtain ⟨hreplaces, hwrites, s, d', hopen, hcount⟩ :=
      (cmdRecoveryAdopt_eq_adopted_iff htyped fs fs' n).mp hadopted
    obtain ⟨hopening, _, config, d₁, _, _, hconfig, hread', hmigrate, _⟩ :=
      (openLockedOnly_eq_ok_iff ..).mp hopen
    rw [readDatabase_resealed] at hread'
    obtain rfl := Except.ok.inj (hread.symm.trans hread')
    rw [loadConfig_resealed] at hconfig
    refine ⟨hreplaces, hwrites, hopening, ⟨config, hconfig⟩, ⟨d', hmigrate⟩, ?_⟩
    simp only [Database.count, (migrate_stores hmigrate hstores).secrets, SecretsTable.count,
      Sql.attempt_eq_ok_iff] at hcount
    exact hcount.1
  · rintro ⟨hreplaces, hwrites, hopening, ⟨config, hconfig⟩, ⟨d', hmigrate⟩, hcounts⟩
    have hread' : readDatabase env.sqlite paths
        (TpmOuterProvider.resealed env.chip paths run.tpm.seed key fs) = .ok d :=
      (readDatabase_resealed ..).trans hread
    have hstores' := migrate_stores hmigrate hstores
    have hopen := (openLockedOnly_eq_ok_iff _ _ _ d').mpr ⟨hopening,
      holds_db_of_readDatabase hread', config, d, v, key, (loadConfig_resealed ..).trans hconfig,
      hread', hmigrate, hstores'.vault_eq, hsalt,
      TpmOuterProvider.holds_resealed paths hchip run.tpm.seed key fs, rfl, rfl⟩
    have hcount : d'.count run.call.sql = .ok v.secrets.size := by
      simp [Database.count, hstores'.secrets, SecretsTable.count, Sql.attempt_eq_ok_iff, hcounts]
    exact ⟨_, _, (cmdRecoveryAdopt_eq_adopted_iff htyped fs _ _).mpr
      ⟨hreplaces, hwrites, _, d', hopen, hcount⟩⟩

/-- A run that reports success has sealed the typed key, beside the vault. -/
theorem holdsVault_of_adopted (hsqlite : env.sqlite.Lawful) (hchip : env.chip.Lawful) {key : Key}
    (htyped : Typed env run key) {fs fs' : FileSystem} {d : Database} {v : Vault} {n : ℕ}
    (hread : readDatabase env.sqlite paths fs = .ok d) (hstores : d.Stores v)
    (hadopted : cmdRecoveryAdopt env paths run fs = (.ok (.adopted n), fs')) :
    HoldsVault env paths fs' v key := by
  obtain ⟨_, _, s, d', hopen, _⟩ := (cmdRecoveryAdopt_eq_adopted_iff htyped fs fs' n).mp hadopted
  obtain ⟨_, _, _, d₁, _, _, _, hread', hmigrate, _, _, _, rfl, _⟩ :=
    (openLockedOnly_eq_ok_iff ..).mp hopen
  rw [readDatabase_resealed] at hread'
  obtain rfl := Except.ok.inj (hread.symm.trans hread')
  exact ⟨⟨d', readDatabase_opened hsqlite _ _, migrate_stores hmigrate hstores⟩,
    (holds_opened_iff ..).mpr (TpmOuterProvider.holds_resealed paths hchip run.tpm.seed key fs)⟩

/-- **Adopting proves what it reports exactly when it has nothing to prove.** A run keeps
its promise if and only if the typed key is that of the vault, or the run stops before
it replaces the first sealed file, or it stops later and what was sealed before was
nothing or, with both files written, this very key. -/
theorem adopt_keeps_promise_iff (hP : env.primitives.Lawful) (hsqlite : env.sqlite.Lawful)
    (hchip : env.chip.Lawful) {key outerKek : Key} {enrolled : ι → Prop} {fs : FileSystem}
    {d : Database} {v : Vault} (htyped : Typed env run key)
    (hread : readDatabase env.sqlite paths fs = .ok d) (hstores : d.Stores v)
    (hcreated : CreatedWith w env.primitives outerKek enrolled v)
    (hfresh : ∀ f, fs.file paths.tpmSealedPub = some f →
      f.contents ≠ (env.chip.create run.tpm.seed key.bytes).1) :
    KeepsPromise env paths w enrolled run key outerKek fs ↔
      key = outerKek ∨ ¬ ReplacesSeal paths run fs ∨
      (¬ Completes env paths run fs d ∧ ∀ old, TpmOuterProvider.Holds env.chip paths fs old →
        old = key ∧ run.disk.Writes paths.tpmSealedPriv) := by
  have hadopted := exists_adopted_iff hchip htyped hread hstores (hcreated.mem_kdfSalt hP)
  have hsealed := cmdRecoveryAdopt_sealed_cases paths hchip htyped fs
  constructor
  · intro hpromise
    by_cases hkey : key = outerKek
    · exact .inl hkey
    by_cases hreplaces : ReplacesSeal paths run fs
    swap
    · exact .inr (.inl hreplaces)
    refine .inr (.inr ⟨?_, ?_⟩)
    · intro hcompletes
      obtain ⟨n, fs', h⟩ := hadopted.mpr ⟨hreplaces, hcompletes⟩
      exact hpromise.refused hkey n fs' h
    · intro old hold
      have hkept := hpromise.kept hkey old hold
      rcases hsealed with ⟨hstopped, _⟩ | ⟨_, hprivate, ⟨mode, hpublicFile⟩, hprivateFile⟩ |
        ⟨_, hprivate, hholds⟩
      · exact absurd hreplaces hstopped
      · -- The old private area would have to load with the new public one.
        obtain ⟨publicFile, privateFile, hpub, hpriv, _, _, hload⟩ := hold
        obtain ⟨publicFile', privateFile', hpub', hpriv', _, _, hload'⟩ := hkept
        obtain rfl := Option.some.inj (hpublicFile.symm.trans hpub')
        obtain rfl := Option.some.inj (hpriv.symm.trans (hprivateFile.symm.trans hpriv'))
        exact absurd (hchip.bound _ _ _ _ _ hload' hload) (hfresh publicFile hpub)
      · exact ⟨hholds.key_unique hkept, hprivate⟩
  · intro hsafe
    have hnever : key ≠ outerKek → ∀ n fs',
        cmdRecoveryAdopt env paths run fs ≠ (.ok (.adopted n), fs') := by
      intro hkey n fs' h
      obtain ⟨hreplaces, hcompletes⟩ := hadopted.mp ⟨n, fs', h⟩
      rcases hsafe with hsame | hstops | ⟨hincomplete, _⟩
      · exact hkey hsame
      · exact hstops hreplaces
      · exact hincomplete hcompletes
    refine ⟨?_, hnever, ?_⟩
    · intro n fs' h
      have hkey : key = outerKek := by
        by_contra hkey
        exact hnever hkey n fs' h
      have hholds := holdsVault_of_adopted hsqlite hchip htyped hread hstores h
      rw [hkey] at hholds
      exact ⟨hholds.sealed, unlocksFrom_of_holdsVault hP hholds hcreated⟩
    · intro hkey old hold
      rcases hsealed with ⟨_, hpublic, hprivate⟩ | ⟨hreplaces, hprivate, _⟩ |
        ⟨hreplaces, _, hholds⟩
      · exact hold.congr hpublic hprivate
      · rcases hsafe with hsame | hstops | ⟨_, hlost⟩
        · exact absurd hsame hkey
        · exact absurd hreplaces hstops
        · exact absurd (hlost old hold).2 hprivate
      · rcases hsafe with hsame | hstops | ⟨_, hlost⟩
        · exact absurd hsame hkey
        · exact absurd hreplaces hstops
        · rw [(hlost old hold).1]
          exact hholds

/-! ### Two recovery keys -/

/-- One token with one credential. -/
private def oneToken : Authenticators Unit where
  issuer id := if id = [1] then some () else none
  secret _ _ := [1]

/-- A recovery key is typed on a machine where everything works. -/
private def typing (key : Key) (seed : Bytes) : Invocation :=
  { Invocation.working (.token [1] [1]) (Recovery.encode Platform.reference.sha256 key) with
    tpm := .working seed }

/-- A vault that was just created, in files that hold its key. -/
private theorem exists_created_working : ∃ (fs : FileSystem) (v : Vault) (outerKek : Key),
    outerKek = Block.replicate keyLen 1 ∧ HoldsVault .reference .reference fs v outerKek ∧
    CreatedWith oneToken Platform.reference.primitives outerKek (fun _ => True) v := by
  obtain ⟨fs, keys, outerKek, hkey, hprepare, hholds⟩ :=
    exists_holdsVault_working .reference [1] [1]
  have hstands : oneToken.Stands () (.token [1] [1]) := .token rfl fun _ => rfl
  refine ⟨fs, _, outerKek, hkey, hholds, Option Key, .machine outerKek, .token [1] [1],
    .working 0 0 (Nat.le_refl 0) (Block.replicate 16 0), 0, none, some outerKek, _, _, [], _,
    (Session.initializeVault_eq_ok_iff ..).mpr
      ⟨rfl, fun _ _ => rfl, outerKek, keys, rfl, hprepare, rfl, rfl⟩,
    .nil _, by simp, ⟨(), hstands⟩, by simp, rfl, rfl, fun _ _ => .inl hstands⟩

/-- With a seed the chip has not used before, nothing is in the way of adopting. -/
private theorem typing_completes {fs : FileSystem} {v : Vault} {outerKek : Key} (key : Key)
    (seed : Bytes) (hholds : HoldsVault .reference .reference fs v outerKek) :
    ∃ d, readDatabase Platform.reference.sqlite .reference fs = .ok d ∧ d.Stores v ∧
      ReplacesSeal .reference (typing key seed) fs ∧
      Completes .reference .reference (typing key seed) fs d := by
  obtain ⟨⟨d, hread, hstores⟩, _⟩ := hholds
  refine ⟨d, hread, hstores, ⟨⟨holds_db_of_readDatabase hread, rfl, fun _ _ => rfl⟩, fun _ _ => rfl,
    fun _ _ => rfl⟩, fun _ _ => rfl, ?_, exists_loadConfig_reference .reference rfl fs,
    exists_migrate_of_stores (fun _ _ => rfl) hstores, rfl⟩
  exact ⟨⟨fun _ _ => rfl, rfl, fun _ _ => rfl, rfl⟩, rfl, rfl, rfl, fun _ _ => rfl⟩

/-- The recovery key of another vault is reported as adopted, and the key of this vault,
which was sealed before, is gone. -/
theorem foreign_recovery_key_is_adopted : ∃ (fs fs' : FileSystem) (v : Vault)
    (outerKek key : Key) (seed : Bytes) (n : ℕ),
    CreatedWith oneToken Platform.reference.primitives outerKek (fun _ => True) v ∧
    HoldsVault .reference .reference fs v outerKek ∧ key ≠ outerKek ∧
    Typed .reference (typing key seed) key ∧
    cmdRecoveryAdopt .reference .reference (typing key seed) fs = (.ok (.adopted n), fs') ∧
    TpmOuterProvider.Holds .reference .reference fs' key ∧
    ¬ TpmOuterProvider.Holds .reference .reference fs' outerKek := by
  obtain ⟨fs, v, outerKek, hkey, hholds, hcreated⟩ := exists_created_working
  have hne : Block.replicate keyLen 2 ≠ outerKek := by
    rw [hkey]
    decide
  have htyped :
      Typed .reference (typing (Block.replicate keyLen 2) [2]) (Block.replicate keyLen 2) :=
    ⟨_, rfl, by decide +kernel⟩
  obtain ⟨d, hread, hstores, hreplaces, hcompletes⟩ :=
    typing_completes (Block.replicate keyLen 2) [2] hholds
  obtain ⟨n, fs', hadopted⟩ := (exists_adopted_iff Chip.reference_lawful htyped hread hstores
    (hcreated.mem_kdfSalt Primitives.reference_lawful)).mpr ⟨hreplaces, hcompletes⟩
  have hsealed := (holdsVault_of_adopted SqliteFormat.reference_lawful Chip.reference_lawful htyped
    hread hstores hadopted).sealed
  exact ⟨fs, fs', v, outerKek, _, [2], n, hcreated, hholds, hne, htyped, hadopted, hsealed,
    fun hold => hne (hsealed.key_unique hold).symm⟩

/-- With the vault's own recovery key the promise is kept. -/
theorem own_recovery_key_is_adopted : ∃ (fs : FileSystem) (key : Key) (seed : Bytes),
    KeepsPromise .reference .reference oneToken (fun _ => True) (typing key seed) key key fs := by
  obtain ⟨fs, v, outerKek, hkey, hholds, hcreated⟩ := exists_created_working
  have ⟨publicFile, _, hpublic, _⟩ := hholds.sealed
  have htyped : Typed .reference (typing outerKek (0 :: publicFile.contents)) outerKek := by
    rw [hkey]
    exact ⟨_, rfl, by decide +kernel⟩
  obtain ⟨d, hread, hstores, _⟩ := typing_completes outerKek (0 :: publicFile.contents) hholds
  have hfresh : ∀ f, fs.file VaultPaths.reference.tpmSealedPub = some f →
      f.contents ≠ (Chip.reference.create (0 :: publicFile.contents) outerKek.bytes).1 := by
    intro f hf hsame
    obtain rfl := Option.some.inj (hpublic.symm.trans hf)
    exact absurd hsame (List.cons_ne_self _ _).symm
  have hpromise := (adopt_keeps_promise_iff Primitives.reference_lawful
    SqliteFormat.reference_lawful Chip.reference_lawful htyped hread hstores hcreated hfresh).mpr
    (.inl rfl)
  exact ⟨fs, outerKek, _, hpromise⟩

end Sypherstore
