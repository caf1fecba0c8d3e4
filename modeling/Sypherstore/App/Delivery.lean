/-
# Delivering a secret, and the token that is saved on the way

`deliver` in `daemon.rs` opens the keyboard session on first use and saves the restore token
that comes with it. What it saves is the configuration that the daemon loaded when it started,
with the token put in. The user may have changed the file since, and the change is undone.
-/

import Sypherstore.App.Reference
import Sypherstore.Logic.Transition

namespace Sypherstore

open Logic

/-! ## Delivering -/

/-- A keyboard session, with the token that lets a later one skip the dialog. -/
structure Typist where
  restoreToken : Option String

/-- What disk, portal and clipboard do during one delivery. -/
structure DeliveryCall where
  disk : Disk
  /-- The session that is granted, with a new token or none, or why it is not. -/
  portal : Option String → Except String (Option String)
  typeSecret : Bytes → Except String Unit
  /-- The secret stays on the clipboard for these milliseconds. -/
  copyViaClipboard : Bytes → ℕ → Except String Unit

inductive DeliveryError where
  /-- "keyboard access unavailable, and the clipboard fallback is disabled (set
  clipboard_fallback in config.json to enable it)" -/
  | noKeyboardAccess (cause : String)
  /-- "no keyboard session available" -/
  | noSession
  | typing (cause : String)
  | copying (cause : String)

/-- What deliveries go on with: the files, and the session once there is one. -/
structure Delivery where
  fs : FileSystem
  typist : Option Typist

/-- `Typist::connect`. Without a new token the old one is kept. -/
def Typist.connect (portal : Option String → Except String (Option String))
    (restoreToken : Option String) : Except String Typist :=
  (portal restoreToken).map fun newToken => ⟨newToken.or restoreToken⟩

section Deliver

variable (format : ConfigFormat) (paths : VaultPaths) (config : Config) (call : DeliveryCall)

/-- Persist the token so the next daemon start skips the dialog. A failure is not fatal. -/
def saveToken (connected : Typist) (fs : FileSystem) : FileSystem :=
  match connected.restoreToken with
  | some token =>
      if config.remoteDesktopRestoreToken ≠ some token then
        (Config.save format call.disk paths.config (config.withToken (some token)) fs).2
      else fs
  | none => fs

/-- Type into the focused window, over the session there is. -/
def typeActive (secret : Bytes) : Stateful Delivery DeliveryError Unit := do
  let s ← Stateful.read
  match s.typist with
  | none => Stateful.raise .noSession
  | some _ => Stateful.lift ((Fallible.ofExcept (call.typeSecret secret)).mapError .typing)

/-- Types a secret into the focused window, or falls back to the clipboard. -/
def deliver (secret : Bytes) : Stateful Delivery DeliveryError Unit := do
  let s ← Stateful.read
  if s.typist.isNone then
    match Typist.connect call.portal config.remoteDesktopRestoreToken with
    | .ok connected => do
        Stateful.modify fun s => ⟨saveToken format paths config call connected s.fs, some connected⟩
        typeActive call secret
    | .error e =>
        if !config.clipboardFallback then Stateful.raise (.noKeyboardAccess e)
        else
          Stateful.lift ((Fallible.ofExcept
            (call.copyViaClipboard secret config.clipboardClearMs)).mapError .copying)
  else typeActive call secret

end Deliver

variable {format : ConfigFormat} {paths : VaultPaths} {config : Config} {call : DeliveryCall}
  {secret : Bytes} {s : Delivery} {token : String}

/-- The call opens the session, gets a token that the daemon did not start with, and is not
refused when it saves it. -/
structure SavesToken (format : ConfigFormat) (paths : VaultPaths) (config : Config)
    (call : DeliveryCall) (s : Delivery) (token : String) : Prop where
  first : s.typist = none
  connects : ∃ connected, Typist.connect call.portal config.remoteDesktopRestoreToken =
    .ok connected ∧ connected.restoreToken = some token
  isNew : config.remoteDesktopRestoreToken ≠ some token
  serializes : ∃ json, format.write (config.withToken (some token)) = .ok json
  writes : call.disk.Writes paths.config

/-- **What a delivery leaves**: with a session it changes nothing, without one it connects and
saves the token, and if it does not get one it changes nothing either. -/
theorem deliver_state (format : ConfigFormat) (paths : VaultPaths) (config : Config)
    (call : DeliveryCall) (secret : Bytes) (s : Delivery) :
    (deliver format paths config call secret s).2 =
      match s.typist, Typist.connect call.portal config.remoteDesktopRestoreToken with
      | none, .ok connected => ⟨saveToken format paths config call connected s.fs, some connected⟩
      | _, _ => s := by
  have htype : ∀ now, (typeActive call secret now).2 = now := by
    rintro ⟨fs, typist⟩
    cases typist <;> rfl
  simp only [deliver, Stateful.bind_apply, Stateful.read_apply]
  cases htypist : s.typist with
  | some active => exact htype s
  | none =>
      cases Typist.connect call.portal config.remoteDesktopRestoreToken with
      | ok connected =>
          exact htype ⟨saveToken format paths config call connected s.fs, some connected⟩
      | error e => cases config.clipboardFallback <;> rfl

/-! ## The file -/

theorem config_ne_tmp (paths : VaultPaths) : paths.config ≠ paths.config.withExtension "tmp" :=
  Path.ne_of_name_ne (by simp)

/-- Saving puts the configuration in the file, or leaves the file as it was. -/
theorem onDisk_save (hformat : format.Lawful) (disk : Disk) (paths : VaultPaths) (config : Config)
    (fs : FileSystem) :
    ((∃ json, format.write config = .ok json) ∧ disk.Writes paths.config ∧
      Config.onDisk format paths.config (Config.save format disk paths.config config fs).2 =
        some config) ∨
    (¬ ((∃ json, format.write config = .ok json) ∧ disk.Writes paths.config) ∧
      Config.onDisk format paths.config (Config.save format disk paths.config config fs).2 =
        Config.onDisk format paths.config fs) := by
  cases hwrite : format.write config with
  | error detail =>
      refine .inr ⟨fun h => ?_, ?_⟩
      · obtain ⟨_, hjson⟩ := h.1
        cases hjson
      · simp [Config.save, Stateful.bind_apply, hwrite]
  | ok json =>
      simp only [Config.save, Stateful.bind_apply, Stateful.lift_apply, hwrite,
        Fallible.ofExcept_ok, Fallible.mapError_ok, Stateful.mapError_apply]
      rcases writePrivateAtomic_cases disk paths.config json fs with
        ⟨hwrites, h⟩ | ⟨hrefused, e, fs', h, hkept⟩
      · refine .inl ⟨⟨json, rfl⟩, hwrites, ?_⟩
        obtain ⟨mode, hfile⟩ := fs.replaced_self paths.config json
        rw [h, Config.onDisk, hfile]
        simp [hformat.read_write config json hwrite, Except.toOption]
      · refine .inr ⟨fun hboth => hrefused hboth.2, ?_⟩
        rw [h]
        exact Config.onDisk_congr (hkept _ (config_ne_tmp paths))

/-- A token is put in the file when it is new and saving it is not refused. -/
theorem onDisk_saveToken (hformat : format.Lawful) (connected : Typist) (fs : FileSystem) :
    (∃ token, connected.restoreToken = some token ∧
      config.remoteDesktopRestoreToken ≠ some token ∧
      ((∃ json, format.write (config.withToken (some token)) = .ok json) ∧
        call.disk.Writes paths.config) ∧
      Config.onDisk format paths.config (saveToken format paths config call connected fs) =
        some (config.withToken (some token))) ∨
    ((∀ token, connected.restoreToken = some token →
        config.remoteDesktopRestoreToken ≠ some token →
        ¬ ((∃ json, format.write (config.withToken (some token)) = .ok json) ∧
          call.disk.Writes paths.config)) ∧
      Config.onDisk format paths.config (saveToken format paths config call connected fs) =
        Config.onDisk format paths.config fs) := by
  unfold saveToken
  cases connected.restoreToken with
  | none => exact .inr ⟨by simp, rfl⟩
  | some token =>
      by_cases hnew : config.remoteDesktopRestoreToken = some token
      · refine .inr ⟨fun token' h hnew' => absurd (hnew.trans h) hnew', by simp [hnew]⟩
      · simp only [ne_eq, hnew, not_false_eq_true, if_true]
        rcases onDisk_save hformat call.disk paths (config.withToken (some token)) fs with
          ⟨hjson, hwrites, hdisk⟩ | ⟨hrefused, hdisk⟩
        · exact .inl ⟨token, rfl, hnew, ⟨hjson, hwrites⟩, hdisk⟩
        · refine .inr ⟨fun token' h _ => ?_, hdisk⟩
          obtain rfl := Option.some.inj h
          exact hrefused

theorem SavesToken.unique {token' : String} (h : SavesToken format paths config call s token)
    (h' : SavesToken format paths config call s token') : token' = token := by
  obtain ⟨_, hconnected, htoken⟩ := h.connects
  obtain ⟨_, hconnected', htoken'⟩ := h'.connects
  obtain rfl := Except.ok.inj (hconnected.symm.trans hconnected')
  exact Option.some.inj (htoken'.symm.trans htoken)

variable (call secret s) in
/-- **What a delivery does to the file**: it holds the configuration of the start with the new
token, if one is saved, and otherwise what it held. -/
theorem onDisk_deliver (hformat : format.Lawful) :
    (∃ token, SavesToken format paths config call s token ∧
      Config.onDisk format paths.config (deliver format paths config call secret s).2.fs =
        some (config.withToken (some token))) ∨
    ((∀ token, ¬ SavesToken format paths config call s token) ∧
      Config.onDisk format paths.config (deliver format paths config call secret s).2.fs =
        Config.onDisk format paths.config s.fs) := by
  rw [deliver_state]
  cases htypist : s.typist with
  | some active =>
      refine .inr ⟨fun token h => ?_, rfl⟩
      cases htypist.symm.trans h.first
  | none =>
      cases hconnect : Typist.connect call.portal config.remoteDesktopRestoreToken with
      | error e =>
          refine .inr ⟨fun token h => ?_, rfl⟩
          obtain ⟨_, hconnected, _⟩ := h.connects
          cases hconnect.symm.trans hconnected
      | ok connected =>
          rcases onDisk_saveToken hformat connected s.fs with
            ⟨token, htoken, hnew, ⟨hjson, hwrites⟩, hdisk⟩ | ⟨hrefused, hdisk⟩
          · exact .inl ⟨token, ⟨htypist, ⟨connected, hconnect, htoken⟩, hnew, hjson, hwrites⟩,
              hdisk⟩
          · refine .inr ⟨fun token h => ?_, hdisk⟩
            obtain ⟨_, hconnected, htoken⟩ := h.connects
            obtain rfl := Except.ok.inj (hconnect.symm.trans hconnected)
            exact hrefused token htoken h.isNew ⟨h.serializes, h.writes⟩

/-! ## While the daemon runs -/

inductive DeliveryEvent where
  /-- The user leaves this configuration on disk. -/
  | edited (edit : Config)
  | used (call : DeliveryCall) (secret : Bytes)

/-- The daemon goes on with the configuration it loaded, whatever becomes of the file. -/
inductive DeliveryStep (format : ConfigFormat) (paths : VaultPaths) (config : Config) :
    Delivery → DeliveryEvent → Delivery → Prop where
  | edited {s : Delivery} {fs' : FileSystem} {edit : Config}
      (h : Config.onDisk format paths.config fs' = some edit) :
      DeliveryStep format paths config s (.edited edit) ⟨fs', s.typist⟩
  | used {s : Delivery} (call : DeliveryCall) (secret : Bytes) :
      DeliveryStep format paths config s (.used call secret)
        (deliver format paths config call secret s).2

/-- What the user has in the file after the event. -/
def DeliveryEvent.left (before : Option Config) : DeliveryEvent → Option Config
  | .edited edit => some edit
  | .used _ _ => before

/-- The last edit, or what was in the file at the start. -/
def lastEdit (start : Option Config) (events : List DeliveryEvent) : Option Config :=
  events.foldl DeliveryEvent.left start

/-- A delivery that opens no session changes nothing. -/
theorem deliver_of_no_typist
    (h : (deliver format paths config call secret s).2.typist = none) :
    s.typist = none ∧ (deliver format paths config call secret s).2 = s := by
  rw [deliver_state] at h ⊢
  cases htypist : s.typist with
  | some active =>
      simp only [htypist] at h
      cases h
  | none =>
      cases hconnect : Typist.connect call.portal config.remoteDesktopRestoreToken with
      | error e => exact ⟨rfl, rfl⟩
      | ok connected => simp [htypist, hconnect] at h

/-- **Until there is a session the file is the user's**: it holds what the user left there. -/
theorem onDisk_of_run {fs₀ : FileSystem} {events : List DeliveryEvent}
    (hrun : Run (DeliveryStep format paths config) ⟨fs₀, none⟩ events s) (hs : s.typist = none) :
    Config.onDisk format paths.config s.fs =
      lastEdit (Config.onDisk format paths.config fs₀) events := by
  refine hrun.simulation (R := fun now left => now.typist = none →
    Config.onDisk format paths.config now.fs = left) ?_ (fun _ => rfl) hs
  intro now event next left _ hnow hstep hnext
  cases hstep with
  | edited h => exact h
  | used call secret =>
      obtain ⟨hfirst, hsame⟩ := deliver_of_no_typist hnext
      rw [hsame]
      exact hnow hfirst

/-- Nothing but the token is another in the file. -/
def OnlyTokenChanges (format : ConfigFormat) (paths : VaultPaths) (token : String)
    (fs fs' : FileSystem) : Prop :=
  ∀ before, Config.onDisk format paths.config fs = some before →
    Config.onDisk format paths.config fs' = some (before.withToken (some token))

/-- Nothing but the token is another in what is loaded. -/
def OnlyTokenLoads (format : ConfigFormat) (paths : VaultPaths) (token : String)
    (fs fs' : FileSystem) : Prop :=
  ∀ before, Config.load format .reliable paths.config fs = .ok before →
    Config.load format .reliable paths.config fs' = .ok (before.withToken (some token))

/-- The call that saves the token leaves the configuration of the start with it. -/
theorem SavesToken.onDisk (h : SavesToken format paths config call s token)
    (hformat : format.Lawful) (secret : Bytes) :
    Config.onDisk format paths.config (deliver format paths config call secret s).2.fs =
      some (config.withToken (some token)) := by
  rcases onDisk_deliver call secret s hformat with ⟨token', h', hdisk⟩ | ⟨hnone, _⟩
  · rwa [h.unique h'] at hdisk
  · exact absurd h (hnone token)

/-- **Saving the token changes only the token** exactly when what the user last left on disk is,
but for the token, what the daemon loaded at the start; and so for what is loaded, when it is
that after clamping. A delivery that saves no token leaves the file alone. -/
theorem saving_changes_only_the_token_iff (hformat : format.Lawful) (paths : VaultPaths)
    {disk : Disk} {fs₀ : FileSystem} {config : Config}
    (hload : Config.load format disk paths.config fs₀ = .ok config) {events : List DeliveryEvent}
    {s : Delivery} (hrun : Run (DeliveryStep format paths config) ⟨fs₀, none⟩ events s)
    (call : DeliveryCall) (secret : Bytes) :
    (∀ token, SavesToken format paths config call s token →
      (OnlyTokenChanges format paths token s.fs (deliver format paths config call secret s).2.fs ↔
        ∀ edit, lastEdit (Config.onDisk format paths.config fs₀) events = some edit →
          edit.withToken none = config.withToken none) ∧
      (OnlyTokenLoads format paths token s.fs (deliver format paths config call secret s).2.fs ↔
        ∀ edit, lastEdit (Config.onDisk format paths.config fs₀) events = some edit →
          edit.clamped.withToken none = config.withToken none)) ∧
    ((∀ token, ¬ SavesToken format paths config call s token) →
      Config.onDisk format paths.config (deliver format paths config call secret s).2.fs =
        Config.onDisk format paths.config s.fs) := by
  refine ⟨fun token hsaves => ?_, fun hnone => ?_⟩
  · have hafter := hsaves.onDisk hformat secret
    rw [← onDisk_of_run hrun hsaves.first]
    constructor
    · refine forall₂_congr fun edit _ => ?_
      rw [hafter, Option.some.injEq, Config.withToken_inj, eq_comm]
    · have hlater : ∀ before : Config, Config.load format .reliable paths.config
          (deliver format paths config call secret s).2.fs =
            .ok (before.withToken (some token)) ↔
          before.withToken none = config.withToken none := by
        intro before
        rw [Config.load_eq_ok_iff rfl, hafter, Option.map_some, Option.some.injEq,
          Config.clamped_withToken, Config.clamped_of_load hload, Config.withToken_inj, eq_comm]
      have hloaded : ∀ before, Config.load format .reliable paths.config s.fs = .ok before ↔
          (Config.onDisk format paths.config s.fs).map Config.clamped = some before :=
        Config.load_eq_ok_iff rfl
      simp only [OnlyTokenLoads, hlater, hloaded]
      constructor
      · intro h edit hedit
        exact h _ (by rw [hedit, Option.map_some])
      · intro h before hbefore
        obtain ⟨edit, hedit, rfl⟩ := Option.map_eq_some_iff.mp hbefore
        exact h edit hedit
  · rcases onDisk_deliver call secret s hformat with ⟨token, hsaves, _⟩ | ⟨_, hdisk⟩
    · exact absurd hsaves (hnone token)
    · exact hdisk

/-! ### An edit that is undone -/

namespace Config

def toCbor (config : Config) : Cbor :=
  .array [.int config.unlockTimeoutSecs, .text config.hotkey,
    Cbor.ofOption .text config.remoteDesktopRestoreToken,
    .int (if config.clipboardFallback then 1 else 0), .int config.clipboardClearMs,
    .int (if config.browserDetection then 1 else 0), .int config.browserDetectTimeoutMs,
    .int config.backupRetention]

def ofCbor : Cbor → Option Config
  | .array [.int timeout, .text hotkey, token, .int fallback, .int clearMs, .int detection,
      .int detectMs, .int retention] => do
      let token ← Cbor.asOption Cbor.asText token
      return ⟨timeout.toNat, hotkey, token, fallback = 1, clearMs.toNat, detection = 1,
        detectMs.toNat, retention.toNat⟩
  | _ => none

theorem ofCbor_toCbor (config : Config) : ofCbor config.toCbor = some config := by
  obtain ⟨timeout, hotkey, token, fallback, clearMs, detection, detectMs, retention⟩ := config
  cases token <;> cases fallback <;> cases detection <;> simp [ofCbor, toCbor] <;> rfl

/-- The numbers are those of a 64-bit machine. -/
def numbersFit (config : Config) : Bool :=
  [config.unlockTimeoutSecs, config.clipboardClearMs, config.browserDetectTimeoutMs,
    config.backupRetention].all fun n => n < 256 ^ 8

theorem fits {config : Config} (h : config.numbersFit) : config.toCbor.Fits := by
  have hbit : ∀ b : Bool, Cbor.Fits (.int (if b then 1 else 0)) := by
    intro b
    cases b <;> exact .int (by decide) (by decide)
  have hnumber : ∀ n : ℕ, n < 256 ^ 8 → Cbor.Fits (.int n) :=
    fun n hn => .int (by omega) (by omega)
  simp only [numbersFit, List.all_cons, List.all_nil, Bool.and_true, Bool.and_eq_true,
    decide_eq_true_eq] at h
  obtain ⟨htimeout, hclear, hdetect, hretention⟩ := h
  refine .array ?_
  simp [hbit, hnumber _ htimeout, hnumber _ hclear, hnumber _ hdetect, hnumber _ hretention,
    Cbor.Fits.text, Cbor.fits_ofOption Cbor.Fits.text]

end Config

/-- A format that keeps the settings in the codec of the reference primitives. -/
def ConfigFormat.reference : ConfigFormat where
  read bytes :=
    match (Cbor.decode bytes).bind Config.ofCbor with
    | some config => .ok config
    | none => .error "expected value"
  write config :=
    if config.numbersFit then .ok (Cbor.encode config.toCbor) else .error "number out of range"

theorem ConfigFormat.reference_read {config : Config} (h : config.numbersFit) :
    ConfigFormat.reference.read (Cbor.encode config.toCbor) = .ok config := by
  simp [ConfigFormat.reference, Cbor.decode_encode (Config.fits h), Config.ofCbor_toCbor]

theorem ConfigFormat.reference_lawful : ConfigFormat.reference.Lawful where
  read_write := by
    intro config json h
    by_cases hfit : config.numbersFit
    · simp only [ConfigFormat.reference, hfit, if_true, Except.ok.injEq] at h
      exact h ▸ ConfigFormat.reference_read hfit
    · simp [ConfigFormat.reference, hfit] at h

/-- The portal grants a session and a token. -/
def DeliveryCall.granted (token : String) : DeliveryCall where
  disk := .reliable
  portal _ := .ok (some token)
  typeSecret _ := .ok ()
  copyViaClipboard _ _ := .ok ()

/-- The settings of a user who wants the clipboard. -/
def Config.wantsClipboard : Config := { Config.default with clipboardFallback := true }

/-- A vault directory with nothing but this configuration. -/
def configured (config : Config) : FileSystem :=
  FileSystem.empty.put VaultPaths.reference.config ⟨Cbor.encode config.toCbor, 0o600⟩

theorem onDisk_configured (config : Config) (h : config.numbersFit) :
    Config.onDisk .reference VaultPaths.reference.config (configured config) = some config := by
  simp [Config.onDisk, configured, ConfigFormat.reference_read h, Except.toOption]

theorem load_configured : Config.load .reference .reliable VaultPaths.reference.config
    (configured .wantsClipboard) = .ok .wantsClipboard := by
  rw [Config.load_eq_ok_iff rfl, onDisk_configured _ (by decide)]
  decide

theorem savesToken_granted (fs : FileSystem) :
    SavesToken .reference .reference .wantsClipboard (.granted "token") ⟨fs, none⟩ "token" :=
  ⟨rfl, ⟨_, rfl, rfl⟩, by decide, ⟨_, rfl⟩, fun _ _ => rfl⟩

/-- A file that nobody edits gets the token and nothing else. -/
theorem an_unedited_file_gets_the_token :
    OnlyTokenChanges .reference .reference "token" (configured .wantsClipboard)
      (deliver .reference .reference .wantsClipboard (.granted "token") []
        ⟨configured .wantsClipboard, none⟩).2.fs := by
  refine (((saving_changes_only_the_token_iff ConfigFormat.reference_lawful .reference
    load_configured (.nil _) _ []).1 _ (savesToken_granted _)).1).mpr ?_
  intro edit hedit
  rw [lastEdit, List.foldl_nil, onDisk_configured _ (by decide), Option.some.injEq] at hedit
  rw [hedit]

/-- The user turns the clipboard fallback off, and the first delivery turns it on again. -/
theorem an_edit_is_undone : ∃ fs fs',
    Config.load .reference .reliable VaultPaths.reference.config fs = .ok .wantsClipboard ∧
    Run (DeliveryStep .reference .reference .wantsClipboard) ⟨fs, none⟩ [.edited .default]
      ⟨fs', none⟩ ∧
    SavesToken .reference .reference .wantsClipboard (.granted "token") ⟨fs', none⟩ "token" ∧
    Config.load .reference .reliable VaultPaths.reference.config fs' = .ok .default ∧
    Config.load .reference .reliable VaultPaths.reference.config
      (deliver .reference .reference .wantsClipboard (.granted "token") [] ⟨fs', none⟩).2.fs =
        .ok (Config.wantsClipboard.withToken (some "token")) ∧
    ¬ OnlyTokenChanges .reference .reference "token" fs'
      (deliver .reference .reference .wantsClipboard (.granted "token") [] ⟨fs', none⟩).2.fs := by
  have hedit := onDisk_configured .default (by decide)
  have hsaves := savesToken_granted (configured .default)
  have hdisk := hsaves.onDisk ConfigFormat.reference_lawful []
  refine ⟨configured .wantsClipboard, configured .default, load_configured, .single (.edited hedit),
    hsaves, ?_, ?_, ?_⟩
  · rw [Config.load_eq_ok_iff rfl, hedit]
    decide
  · rw [Config.load_eq_ok_iff rfl, hdisk]
    decide
  · intro honly
    have hsame : Config.wantsClipboard.withToken (some "token") =
        Config.default.withToken (some "token") :=
      Option.some.inj (hdisk.symm.trans (honly .default hedit))
    exact absurd hsame (by decide)

end Sypherstore
