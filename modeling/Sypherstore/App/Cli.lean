/-
# The commands that need a touch

`commands.rs`: adding, listing, deleting, enrolling and decrypting on the command line. Each of
them is a process of its own. It opens the vault, unlocks it with one touch, makes its calls, and
whatever it ends with, what its calls have written is in the file when the connection is closed.
-/

import Sypherstore.App.Damage
import Sypherstore.Core.Search

namespace Sypherstore

open Logic

inductive CliError where
  | opening (e : CommandError)
  /-- "unlocking the vault" -/
  | unlocking (e : SessionError)
  /-- "stdin is not a terminal; use --stdin to pipe the secret in" -/
  | notATerminal
  /-- "reading the secret" -/
  | readingSecret (e : IoError)
  /-- "reading the confirmation" -/
  | readingConfirmation (e : IoError)
  /-- "the two entries did not match" -/
  | mismatch
  /-- "reading the secret from stdin" -/
  | readingStdin (e : IoError)
  /-- "refusing to store an empty secret" -/
  | emptySecret
  /-- "storing the secret" -/
  | storing (e : SessionError)
  /-- "reading the vault" -/
  | readingVault (e : SessionError)
  | deletion (e : DeleteError)
  /-- "enrolling the new authenticator" -/
  | enrolling (e : SessionError)
  | listing (e : SessionError)
  | resolving (e : TargetError)
  /-- "decrypting the secret" -/
  | decrypting (e : SessionError)
  | writingOutput (e : IoError)

/-- How a command ends when it does not fail. -/
inductive CliReport where
  /-- "Added {} ({})" -/
  | added (m : SecretMeta)
  /-- "The vault is empty. Add one with `sypherstore add <name>`." -/
  | empty
  /-- "No secrets matched." -/
  | unmatched
  | listed (rows : List Ranked)
  | deletion (report : DeleteReport)
  /-- "Enrolled {label:?}. Either key can now unlock this vault." -/
  | enrolled (existing : List String) (label : String)
  /-- "Unlock succeeded and the verification blob decrypted. {} secret(s) in the vault." -/
  | unlocked (count : ℕ)
  /-- What was written to the standard output. -/
  | printed (bytes : Bytes)

/-- Where a new secret comes from: `--stdin`, or a prompt for it and one for its confirmation. -/
inductive SecretInput where
  | piped (bytes : Except IoError Bytes)
  | typed (isTerminal : Bool) (first second : Except IoError String)

/-- Reads a secret from stdin, without the line breaks at its end. -/
def readSecretFromStdin (bytes : Except IoError Bytes) : Fallible CliError Bytes := do
  let raw ← (Fallible.ofExcept bytes).mapError .readingStdin
  return raw.rdropWhile fun b => b = 0x0a || b = 0x0d

/-- Reads a secret twice from the terminal. -/
def promptForSecret (isTerminal : Bool) (first second : Except IoError String) :
    Fallible CliError Bytes :=
  if !isTerminal then Fallible.raise .notATerminal
  else do
    let first ← (Fallible.ofExcept first).mapError .readingSecret
    let second ← (Fallible.ofExcept second).mapError .readingConfirmation
    if first ≠ second then Fallible.raise .mismatch
    else return Cbor.utf8 first

def SecretInput.value : SecretInput → Fallible CliError Bytes
  | .piped bytes => readSecretFromStdin bytes
  | .typed isTerminal first second => promptForSecret isTerminal first second

structure AddArgs where
  name : String
  domain : Option String
  application : Option String
  username : Option String
  secretType : SecretType
  tags : List String

/-- A bare hostname for storage. -/
def normalizeDomain (input : Option String) : String := (input.bind normalizeHost).getD ""

/-- The metadata of a new secret. -/
def AddArgs.secretMeta (args : AddArgs) (id : Uuid) (now : Int64) : SecretMeta where
  id
  name := trim args.name
  domain := normalizeDomain args.domain
  application := trim (args.application.getD "")
  secretType := args.secretType
  username := trim (args.username.getD "")
  tags := (args.tags.map trim).filter fun tag => !tag.isEmpty
  createdAt := now
  updatedAt := now

/-- `unwrap_or_default`. -/
def orDefault {ε α : Type} (fallback : α) : Fallible ε α → Fallible ε α
  | .error (.error _) => .ok fallback
  | x => x

/-- What `list` shows of these secrets. -/
def listReport (S : Searcher) (query host : Option String) (secrets : List SecretMeta) :
    CliReport :=
  if secrets.isEmpty then .empty
  else
    let ranked := S.rank secrets (query.getD "") { host, application := none }
    if ranked.isEmpty then .unmatched else .listed ranked

/-- A command with what it reads while it runs, one `Call` for each call of the session. -/
inductive CliCommand where
  | add (args : AddArgs) (input : SecretInput) (id : Option Uuid) (now : Int64) (call : Call)
  | list (query host : Option String) (call : Call)
  | delete (run : DeleteRun) (target : String) (listing deleting : Call)
  | enrollKey (label : Option String) (labels : Call) (inner : InnerKeyProvider) (call : Call)
  | unlockTest (call : Call)
  | decrypt (target : String) (listing opening : Call) (output : Except IoError Unit)

namespace CliCommand

section Bodies

variable (P : Primitives) (S : Searcher)

/-- `sypherstore add`. -/
def cmdAdd (args : AddArgs) (input : SecretInput) (id : Option Uuid) (now : Int64) (call : Call) :
    Stateful Session CliError CliReport := do
  let id ← Stateful.lift (match id with
    | some id => .ok id
    | none => Fallible.panic)
  let m := args.secretMeta id now
  let value ← Stateful.lift input.value
  if value.isEmpty then Stateful.raise .emptySecret
  else do
    (Session.add P call m { value, notes := none, extra := [] }).mapError .storing
    return .added m

/-- `sypherstore list`. -/
def cmdList (query host : Option String) (call : Call) : Stateful Session CliError CliReport := do
  let secrets ← (Session.list P call).mapError .readingVault
  return listReport S query host secrets

/-- `sypherstore delete`. -/
def cmdDelete (run : DeleteRun) (target : String) (listing deleting : Call) :
    Stateful Session DeleteError DeleteReport := do
  let secrets ← (Session.list P listing).mapError .listing
  let target ←
    Stateful.lift ((Fallible.ofExcept (resolveTarget P secrets target)).mapError .resolving)
  let goOn ← Stateful.lift run.confirmed
  if !goOn then return .cancelled
  else do
    (Session.delete P deleting target.id).mapError .deleting
    Stateful.lift ((Fallible.ofExcept run.vacuum).mapError .compacting)
    return .deleted target.name

/-- `sypherstore enroll-key`. -/
def cmdEnrollKey (label : Option String) (labels : Call) (inner : InnerKeyProvider)
    (call : Call) : Stateful Session CliError CliReport := do
  let s ← Stateful.read
  let existing ← Stateful.lift
    ((orDefault [] (Session.enrolledLabels P labels s)).mapError .enrolling)
  let label := label.getD "backup"
  (Session.enrollKey P call inner label).mapError .enrolling
  return .enrolled existing label

/-- `sypherstore dev unlock-test`, once the vault is unlocked. -/
def cmdUnlockTest (call : Call) : Stateful Session CliError CliReport := do
  let secrets ← (Session.list P call).mapError .listing
  return .unlocked secrets.length

/-- `sypherstore dev decrypt`. -/
def cmdDecrypt (target : String) (listing opening : Call) (output : Except IoError Unit) :
    Stateful Session CliError CliReport := do
  let secrets ← (Session.list P listing).mapError .listing
  let m ← Stateful.lift ((Fallible.ofExcept (resolveTarget P secrets target)).mapError .resolving)
  let payload ← (Session.openSecret P opening m.id).mapError .decrypting
  Stateful.lift ((Fallible.ofExcept output).mapError .writingOutput)
  return .printed (payload.value ++ [0x0a])

/-- What a command does in the session it has unlocked. -/
def body : CliCommand → Stateful Session CliError CliReport
  | .add args input id now call => cmdAdd P args input id now call
  | .list query host call => cmdList P S query host call
  | .delete run target listing deleting => do
      let report ← (cmdDelete P run target listing deleting).mapError .deletion
      return .deletion report
  | .enrollKey label labels inner call => cmdEnrollKey P label labels inner call
  | .unlockTest call => cmdUnlockTest P call
  | .decrypt target listing opening output => cmdDecrypt P target listing opening output

end Bodies

end CliCommand

/-- The database with the tables that a session has worked on. -/
def Database.withVault (d : Database) (v : Vault) : Database where
  userVersion := d.userVersion
  metaTable := some v.metaTable
  secrets :=
    match d.secrets with
    | .current _ => .current v.secrets
    | table => table

section Unlocked

variable (env : Platform) (paths : VaultPaths)

/-- Run these calls on the session of an open database. However they end, the connection is
closed and what was written is in the file. -/
def onSession {α : Type} (s : Session) (d : Database) (x : Stateful Session CliError α) :
    Stateful FileSystem CliError α := fun fs =>
  ((x s).1, writeDatabase env.sqlite paths (d.withVault (x s).2.vault) fs)

/-- Opens the vault and unlocks it, prompting for a touch, and goes on. -/
def openUnlocked {α : Type} (run : Invocation) (touch : Call) (x : Stateful Session CliError α) :
    Stateful FileSystem CliError α := do
  let (s, d) ← (openLockedOnly env paths run).mapError .opening
  onSession env paths s d do
    (Session.unlock env.primitives touch run.inner).mapError .unlocking
    x

/-- One command on the files. -/
def CliCommand.execute (S : Searcher) (run : Invocation) (touch : Call) (command : CliCommand) :
    Stateful FileSystem CliError CliReport :=
  openUnlocked env paths run touch (command.body env.primitives S)

end Unlocked

end Sypherstore
