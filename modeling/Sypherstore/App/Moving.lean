/-
# Moving to another machine

`recovery export` shows the outer key as text. The database is copied to a machine with another
chip, the text is typed there, not always as it was written, and `recovery adopt` seals the key
to that chip. What the two commands do fits together: the vault is the same there, and opens
with the same authenticators.
-/

import Sypherstore.App.Adopt
import Sypherstore.App.Restore
import Sypherstore.Core.RecoveryText

namespace Sypherstore

open Logic

/-! ## Exporting -/

/-- How `recovery export` ends when it does not fail. -/
inductive ExportReport where
  | cancelled
  | shown (text : String)
  /-- "Recovery key written to {0} (mode 0600)." -/
  | written (path : Path)

inductive ExportError where
  | command (e : CommandError)
  /-- "writing the recovery key" -/
  | writingKey (e : PathError)

section Export

variable (env : Platform) (paths : VaultPaths) (run : Invocation)

/-- `sypherstore recovery export`. -/
def cmdRecoveryExport (out : Option Path) : Stateful FileSystem ExportError ExportReport := do
  let (s, _) ← (openLockedOnly env paths run).mapError .command
  let keyText := Recovery.encode env.sha256 s.outerKek
  let goOn ← Stateful.lift (run.confirmed.mapError .command)
  if !goOn then return .cancelled
  else
    match out with
    | some path => do
        (writePrivateAtomic run.disk path (Cbor.utf8 (keyText ++ "\n"))).mapError .writingKey
        return .written path
    | none => return .shown keyText

end Export

/-- The text that the user has afterwards, on the terminal or in the file. -/
def ExportReport.Gives (report : ExportReport) (fs : FileSystem) (text : String) : Prop :=
  match report with
  | .cancelled => False
  | .shown found => found = text
  | .written path => (fs.file path).map File.contents = some (Cbor.utf8 (text ++ "\n"))

variable {env : Platform} {paths there : VaultPaths} {run next : Invocation} {out : Option Path}
  {fs fs' gs : FileSystem} {v : Vault} {outerKek : Key} {report : ExportReport}
  {text typed : String}

/-- The key is written outside the vault's directory. -/
def WritesElsewhere (paths : VaultPaths) (out : Option Path) : Prop :=
  ∀ path, out = some path → path.dir ≠ paths.root

/-- What is written to another directory leaves the vault there. -/
theorem HoldsVault.replaced_elsewhere (h : HoldsVault env paths fs v outerKek) {path : Path}
    (hdir : path.dir ≠ paths.root) (contents : Bytes) :
    HoldsVault env paths (fs.replaced path contents) v outerKek := by
  have hkept : ∀ p : Path, p.dir = paths.root →
      (fs.replaced path contents).file p = fs.file p := fun p hp =>
    FileSystem.replaced_of_ne _ _ (Path.ne_of_dir_ne (by rw [hp]; exact hdir.symm))
      (Path.ne_of_dir_ne (by rw [hp]; exact hdir.symm))
  exact h.congr (hkept _ rfl) (hkept _ rfl) (hkept _ rfl) (hkept _ rfl)

/-- A line of a file is one text. -/
theorem line_of_utf8 {line line' : String}
    (h : Cbor.utf8 (line ++ "\n") = Cbor.utf8 (line' ++ "\n")) : line = line' := by
  have hline := congrArg Cbor.ofUtf8 h
  rw [Cbor.ofUtf8_utf8, Cbor.ofUtf8_utf8, Option.some.injEq, ← String.toList_inj,
    String.toList_append, String.toList_append] at hline
  exact String.toList_inj.mp (List.append_cancel_right hline)

/-- **What exporting gives**: the outer key as text, and the vault stays as it is. -/
theorem holdsVault_of_exported (hsqlite : env.sqlite.Lawful)
    (h : HoldsVault env paths fs v outerKek) (hout : WritesElsewhere paths out)
    (hexport : cmdRecoveryExport env paths run out fs = (.ok report, fs'))
    (hgives : report.Gives fs' text) :
    HoldsVault env paths fs' v outerKek ∧ text = Recovery.encode env.sha256 outerKek := by
  simp only [cmdRecoveryExport, Stateful.bind_eq_ok_iff, Stateful.mapError_eq_ok_iff,
    Stateful.lift_eq_ok_iff] at hexport
  obtain ⟨⟨s, d⟩, _, hopen, goOn, _, ⟨_, rfl⟩, hrest⟩ := hexport
  obtain ⟨hopened, _, _, rfl⟩ := h.opened hsqlite hopen
  cases goOn with
  | false =>
      cases hrest
      cases hgives
  | true =>
      cases out with
      | none =>
          cases hrest
          exact ⟨hopened, hgives.symm⟩
      | some path =>
          simp only [Bool.not_true, Bool.false_eq_true, if_false, Stateful.bind_eq_ok_iff,
            Stateful.mapError_eq_ok_iff, writePrivateAtomic_eq_ok_iff] at hrest
          obtain ⟨_, _, ⟨_, rfl⟩, hreport⟩ := hrest
          cases hreport
          refine ⟨hopened.replaced_elsewhere (hout path rfl) _, ?_⟩
          rw [ExportReport.Gives, (FileSystem.replaced_self _ path _).choose_spec] at hgives
          have hline := line_of_utf8 (Option.some.inj hgives)
          exact hline.symm

/-! ## Adopting there -/

/-- The same programs on a machine with another chip and other settings. -/
def Platform.onMachine (env : Platform) (chip : Chip) (json : ConfigFormat) : Platform :=
  { env with chip, json }

/-- The database has been copied; what else is in the directory does not matter. -/
structure Copied (paths : VaultPaths) (fs : FileSystem) (there : VaultPaths) (gs : FileSystem) :
    Prop where
  db : (gs.file there.db).map File.contents = (fs.file paths.db).map File.contents
  log : (gs.file (there.dbSidecar "-wal")).map File.contents =
    (fs.file (paths.dbSidecar "-wal")).map File.contents

theorem Copied.readDatabase_eq {sqlite : SqliteFormat} (h : Copied paths fs there gs) :
    readDatabase sqlite there gs = readDatabase sqlite paths fs := readDatabase_congr h.db h.log

variable {ι : Type} {w : Authenticators ι} {enrolled : ι → Prop}

/-- **A vault moves.** It was created with some authenticators and used with them; its recovery
key was exported, to the terminal or to a file outside its directory; its database was copied to
another machine, and the key typed there in either case, with or without dashes and spaces. When
nothing is refused there, `recovery adopt` reports all its secrets; and whenever it reports
success the vault is there, under the same outer key, and every authenticator that was enrolled
unlocks it. -/
theorem vault_moves (hP : env.primitives.Lawful) (hsqlite : env.sqlite.Lawful) {chip : Chip}
    (hchip : chip.Lawful) (json : ConfigFormat) {typing : Invocation}
    (hholds : HoldsVault env paths fs v outerKek)
    (hcreated : CreatedWith w env.primitives outerKek enrolled v)
    (hout : WritesElsewhere paths out)
    (hexport : cmdRecoveryExport env paths run out fs = (.ok report, fs'))
    (hgives : report.Gives fs' text) (hcopied : Copied paths fs' there gs)
    (htyped : typing.keyText = .ok typed) (hretyped : Recovery.Retyped text.toList typed.toList) :
    ((ReplacesSeal there typing gs ∧ ∀ d, readDatabase env.sqlite there gs = .ok d →
        Completes (env.onMachine chip json) there typing gs d) →
      ∃ gs', cmdRecoveryAdopt (env.onMachine chip json) there typing gs =
        (.ok (.adopted v.secrets.size), gs')) ∧
    ∀ n gs', cmdRecoveryAdopt (env.onMachine chip json) there typing gs =
        (.ok (.adopted n), gs') →
      n = v.secrets.size ∧
      HoldsVault (env.onMachine chip json) there gs' v outerKek ∧
      UnlocksFrom (env.onMachine chip json) there w enrolled gs' := by
  obtain ⟨⟨⟨d, hread, hstores⟩, _⟩, rfl⟩ :=
    holdsVault_of_exported hsqlite hholds hout hexport hgives
  have hthere : readDatabase (env.onMachine chip json).sqlite there gs = .ok d :=
    hcopied.readDatabase_eq.trans hread
  have hkey : Typed (env.onMachine chip json) typing outerKek := by
    refine ⟨typed, htyped, Recovery.decode_of_cleaned_eq ?_⟩
    have hcleaned := hretyped.cleaned_eq
    rw [String.ofList_toList, String.ofList_toList] at hcleaned
    exact hcleaned.symm
  have hcount : ∀ {n : ℕ} {gs' : FileSystem}, cmdRecoveryAdopt (env.onMachine chip json) there
      typing gs = (.ok (.adopted n), gs') → n = v.secrets.size := by
    intro n gs' hadopted
    obtain ⟨_, _, s, d', hopen, hcount⟩ :=
      (cmdRecoveryAdopt_eq_adopted_iff hkey gs gs' n).mp hadopted
    obtain ⟨_, _, _, d₁, _, _, _, hread', hmigrate, _⟩ := (openLockedOnly_eq_ok_iff ..).mp hopen
    rw [readDatabase_resealed] at hread'
    obtain rfl := Except.ok.inj (hthere.symm.trans hread')
    simp only [Database.count, (migrate_stores hmigrate hstores).secrets, SecretsTable.count,
      Sql.attempt_eq_ok_iff] at hcount
    exact hcount.2.symm
  constructor
  · rintro ⟨hreplaces, hcompletes⟩
    obtain ⟨n, gs', hadopted⟩ := (exists_adopted_iff hchip hkey hthere hstores
      (hcreated.mem_kdfSalt hP)).mpr ⟨hreplaces, hcompletes d hthere⟩
    obtain rfl := hcount hadopted
    exact ⟨gs', hadopted⟩
  · intro n gs' hadopted
    have hformat : (env.onMachine chip json).sqlite.Lawful := hsqlite
    have hprograms : (env.onMachine chip json).primitives.Lawful := hP
    have hmoved := holdsVault_of_adopted hformat hchip hkey hthere hstores hadopted
    exact ⟨hcount hadopted, hmoved, unlocksFrom_of_holdsVault hprograms hmoved hcreated⟩

/-- One token with one credential. -/
private def oneKey : Authenticators Unit where
  issuer id := if id = [1] then some () else none
  secret _ _ := [1]

/-- A machine on which the user types this. -/
private def typingThere (typed : String) : Invocation :=
  { Invocation.working (.token [1] [1]) typed with tpm := .working [2] }

/-- A vault that was just created is moved to another directory, where the files of its seal
are not. -/
theorem a_vault_is_moved : ∃ (fs fs' gs gs' : FileSystem) (v : Vault) (outerKek : Key)
    (text : String),
    HoldsVault .reference .reference fs v outerKek ∧
    cmdRecoveryExport .reference .reference (.working (.token [1] [1]) "") none fs =
      (.ok (.shown text), fs') ∧
    gs.file (VaultPaths.mk "/new").tpmSealedPub = none ∧
    cmdRecoveryAdopt .reference ⟨"/new"⟩ (typingThere text) gs =
      (.ok (.adopted v.secrets.size), gs') ∧
    HoldsVault .reference ⟨"/new"⟩ gs' v outerKek := by
  obtain ⟨fs, keys, outerKek, _, hprepare, hholds⟩ :=
    exists_holdsVault_working .reference [1] [1]
  have hstands : oneKey.Stands () (.token [1] [1]) := .token rfl fun _ => rfl
  have hcreated : CreatedWith oneKey Platform.reference.primitives outerKek (fun _ => True)
      (keys.vault .reference .empty) :=
    ⟨Option Key, .machine outerKek, .token [1] [1],
      .working 0 0 (Nat.le_refl 0) (Block.replicate 16 0), 0, none, some outerKek, _, _, [], _,
      (Session.initializeVault_eq_ok_iff ..).mpr
        ⟨rfl, fun _ _ => rfl, outerKek, keys, rfl, hprepare, rfl, rfl⟩,
      .nil _, by simp, ⟨(), hstands⟩, by simp, rfl, rfl, fun _ _ => .inl hstands⟩
  have hundisturbed : (Invocation.working (.token [1] [1]) "").Undisturbed :=
    Invocation.undisturbed_working _ _
  obtain ⟨d, hread, hstores⟩ := hholds.database
  obtain ⟨d', hmigrate⟩ : ∃ d', migrate .reliable d = (.ok (), d') :=
    exists_migrate_of_stores (fun _ _ => rfl) hstores
  have hstores' := migrate_stores hmigrate hstores
  obtain ⟨config, hconfig⟩ : ∃ config,
      loadConfig .reference .reference (.working (.token [1] [1]) "") fs = .ok config :=
    exists_loadConfig_reference .reference rfl fs
  have hopen : openLockedOnly .reference .reference (.working (.token [1] [1]) "") fs =
      (.ok (⟨keys.vault .reference .empty, outerKek, none, none, config.unlockTimeout⟩, d'),
        opened Platform.reference.sqlite .reference d' fs) :=
    (openLockedOnly_eq_ok_iff ..).mpr ⟨hundisturbed.canOpenLocked, holds_db_of_readDatabase hread,
      config, d, _, _, hconfig, hread, hmigrate, hstores'.vault_eq,
      hcreated.mem_kdfSalt Primitives.reference_lawful, hholds.sealed, rfl, rfl⟩
  let text := Recovery.encode Platform.reference.sha256 outerKek
  have hexport : cmdRecoveryExport .reference .reference (.working (.token [1] [1]) "") none fs =
      (.ok (.shown text), opened Platform.reference.sqlite .reference d' fs) := by
    rw [cmdRecoveryExport, Stateful.bind_of_ok ((Stateful.mapError_eq_ok_iff ..).mpr hopen)]
    rfl
  -- The files of another vault that holds the same database.
  let gs := opened Platform.reference.sqlite ⟨"/new"⟩ d' .empty
  obtain ⟨hmain, hlog⟩ := file_opened Platform.reference.sqlite .reference d' fs
  obtain ⟨hmain', hlog'⟩ := file_opened Platform.reference.sqlite ⟨"/new"⟩ d' .empty
  have hcopied : Copied .reference (opened Platform.reference.sqlite .reference d' fs)
      ⟨"/new"⟩ gs :=
    ⟨by rw [hmain, hmain'], by rw [hlog, hlog']⟩
  have hthere : readDatabase Platform.reference.sqlite ⟨"/new"⟩ gs = .ok d' :=
    readDatabase_opened SqliteFormat.reference_lawful _ _
  have hunsealed : gs.file (VaultPaths.mk "/new").tpmSealedPub = none :=
    file_opened_of_beside _ (beside_tpmSealedPub _) d' .empty
  have hreplaces : ReplacesSeal ⟨"/new"⟩ (typingThere text) gs :=
    ⟨⟨holds_db_of_readDatabase hthere, rfl, fun _ _ => rfl⟩, fun _ _ => rfl, fun _ _ => rfl⟩
  have hopening : CanOpenLocked ⟨"/new"⟩ (typingThere text) :=
    ⟨⟨fun _ _ => rfl, rfl, fun _ _ => rfl, rfl⟩, rfl, rfl, rfl, fun _ _ => rfl⟩
  have hcompletes : Completes .reference ⟨"/new"⟩ (typingThere text) gs d' :=
    ⟨fun _ _ => rfl, hopening, exists_loadConfig_reference ⟨"/new"⟩ rfl gs,
      exists_migrate_of_stores (fun _ _ => rfl) hstores', rfl⟩
  have htyped : (typingThere text).keyText = .ok text := rfl
  obtain ⟨hreported, hmoved⟩ := vault_moves Primitives.reference_lawful
    SqliteFormat.reference_lawful Chip.reference_lawful Platform.reference.json hholds hcreated
    (by simp [WritesElsewhere]) hexport rfl hcopied htyped (Recovery.Retyped.refl _)
  obtain ⟨gs', hadopted⟩ := hreported ⟨hreplaces, fun d₀ hd₀ => by
    obtain rfl := Except.ok.inj (hthere.symm.trans hd₀)
    exact hcompletes⟩
  obtain ⟨_, hholds', _⟩ := hmoved _ _ hadopted
  exact ⟨fs, _, gs, gs', _, outerKek, text, hholds, hexport, hunsealed, hadopted, hholds'⟩

end Sypherstore
