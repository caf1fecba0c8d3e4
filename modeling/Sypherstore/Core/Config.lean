/-
# The configuration file

User settings, kept as JSON next to the vault (`config.rs`). Reading and writing JSON
is a parameter, `ConfigFormat`; what happens to a value that was read is not.
-/

import Sypherstore.Core.Paths
import Sypherstore.Logic.Text

namespace Sypherstore

open Logic

/-- Default idle timeout before the inner key is zeroized. -/
def defaultTimeoutSecs : ℕ := 60

/-- Default global hotkey. -/
def defaultHotkey : String := "Meta+Shift+V"

/-- Ceiling on the unlock timeout. -/
def maxTimeoutSecs : ℕ := 3600

structure Config where
  /-- Seconds of inactivity after which the vault returns to locked. -/
  unlockTimeoutSecs : ℕ
  hotkey : String
  /-- Restore token for the RemoteDesktop portal session. -/
  remoteDesktopRestoreToken : Option String
  clipboardFallback : Bool
  clipboardClearMs : ℕ
  browserDetection : Bool
  browserDetectTimeoutMs : ℕ
  /-- How many backups are kept. -/
  backupRetention : ℕ
  deriving DecidableEq, Repr

inductive ConfigError where
  /-- "could not parse {0}: {1}" -/
  | parse (path detail : String)
  /-- "could not serialize config: {0}" -/
  | serialize (detail : String)
  | path (e : PathError)
  | io (e : IoError)
  deriving DecidableEq, Repr

/-- `serde_json` on a configuration. -/
structure ConfigFormat where
  read : Bytes → Except String Config
  write : Config → Except String Bytes

/-- Documented behaviour: what was written reads back. -/
structure ConfigFormat.Lawful (format : ConfigFormat) : Prop where
  read_write : ∀ config json, format.write config = .ok json → format.read json = .ok config

namespace Config

def default : Config where
  unlockTimeoutSecs := defaultTimeoutSecs
  hotkey := defaultHotkey
  remoteDesktopRestoreToken := none
  clipboardFallback := false
  clipboardClearMs := 100
  browserDetection := true
  browserDetectTimeoutMs := 300
  backupRetention := 10

/-- `Ord::clamp`. -/
def clamp (low high n : ℕ) : ℕ := max low (min high n)

/-- Returns a copy with out-of-range values pulled back into bounds. -/
def clamped (config : Config) : Config where
  unlockTimeoutSecs := clamp 5 maxTimeoutSecs config.unlockTimeoutSecs
  hotkey := if (trim config.hotkey).isEmpty then defaultHotkey else config.hotkey
  remoteDesktopRestoreToken := config.remoteDesktopRestoreToken
  clipboardFallback := config.clipboardFallback
  clipboardClearMs := clamp 50 60000 config.clipboardClearMs
  browserDetection := config.browserDetection
  browserDetectTimeoutMs := clamp 50 2000 config.browserDetectTimeoutMs
  backupRetention := min config.backupRetention 365

/-- The timeout in nanoseconds, the unit of the clock. -/
def unlockTimeout (config : Config) : ℕ := config.unlockTimeoutSecs * 1000000000

/-- Loads the config, falling back to defaults when the file is absent. -/
def load (format : ConfigFormat) (disk : Disk) (p : Path) (fs : FileSystem) :
    Fallible ConfigError Config :=
  match disk.read p fs with
  | .ok bytes =>
      match format.read bytes with
      | .ok config => .ok config.clamped
      | .error detail => Fallible.raise (.parse (p.dir ++ "/" ++ p.name) detail)
  | .error (.error (.io .notFound)) => .ok default
  | .error (.error (.io e)) => Fallible.raise (.io e)
  | .error (.error e) => Fallible.raise (.path e)
  | .error .panic => .error .panic

/-- Writes the config atomically. -/
def save (format : ConfigFormat) (disk : Disk) (p : Path) (config : Config) :
    Stateful FileSystem ConfigError Unit := do
  let json ← Stateful.lift ((Fallible.ofExcept (format.write config)).mapError .serialize)
  (writePrivateAtomic disk p json).mapError .path

/-- Clamping again changes nothing. -/
theorem clamped_clamped (config : Config) : config.clamped.clamped = config.clamped := by
  have hclamp : ∀ low high n : ℕ, clamp low high (clamp low high n) = clamp low high n := by
    intro low high n
    simp only [clamp]
    omega
  have hhotkey : (if (trim config.clamped.hotkey).isEmpty then defaultHotkey
      else config.clamped.hotkey) = config.clamped.hotkey := by
    simp only [clamped]
    split <;> simp_all
  simp only [clamped] at hhotkey ⊢
  simp only [hclamp, hhotkey, Config.mk.injEq, true_and]
  omega

/-- The configuration in the file, as it was written. Without a file it is the default one. -/
def onDisk (format : ConfigFormat) (p : Path) (fs : FileSystem) : Option Config :=
  match fs.file p with
  | some f => (format.read f.contents).toOption
  | none => some default

theorem onDisk_congr {format : ConfigFormat} {p : Path} {fs fs' : FileSystem}
    (h : fs'.file p = fs.file p) : onDisk format p fs' = onDisk format p fs := by
  rw [onDisk, h, onDisk]

/-- The configuration with another restore token. -/
def withToken (config : Config) (token : Option String) : Config :=
  { config with remoteDesktopRestoreToken := token }

@[simp] theorem clamped_withToken (config : Config) (token : Option String) :
    (config.withToken token).clamped = config.clamped.withToken token := by
  simp [clamped, withToken]

/-- Loading reads the file and clamps what is in it. -/
theorem load_eq_ok_iff {format : ConfigFormat} {disk : Disk} {p : Path} {fs : FileSystem}
    (hread : disk.fault (.read p) = none) (config : Config) :
    load format disk p fs = .ok config ↔ (onDisk format p fs).map clamped = some config := by
  unfold load onDisk Disk.read
  rw [hread]
  cases fs.file p with
  | none =>
      have hdefault : default.clamped = default := by decide
      simp [hdefault]
  | some f =>
      cases hcontents : format.read f.contents with
      | error detail => simp [hcontents, Fallible.raise, Except.toOption]
      | ok raw => simp [hcontents, Except.toOption]

/-- What is loaded is in bounds. -/
theorem clamped_of_load {format : ConfigFormat} {disk : Disk} {p : Path} {fs : FileSystem}
    {config : Config} (h : load format disk p fs = .ok config) : config.clamped = config := by
  have hdefault : default.clamped = default := by decide
  unfold load at h
  split at h
  · split at h
    · cases h
      exact clamped_clamped _
    · cases h
  · cases h
    exact hdefault
  all_goals cases h

/-- Two configurations with one token differ where they differ without it. -/
theorem withToken_inj {config config' : Config} {token : Option String} :
    config.withToken token = config'.withToken token ↔
      config.withToken none = config'.withToken none := by
  simp [withToken]

end Config

end Sypherstore
