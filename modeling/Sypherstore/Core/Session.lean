/-
# The session

The lock state machine and the operations that compose storage, envelopes and
the two hardware layers (`vault/session.rs`).

Time enters as two clock readings per call, because a call reads the clock twice:
once where it checks the deadline and once where it moves it. Everything may
happen in between.
-/

import Mathlib.Data.String.Basic
import Sypherstore.Core.Db

namespace Sypherstore

open Logic

/-- An instant of the monotonic clock. -/
abbrev Instant : Type := ℕ

/-- Whether the vault currently holds an inner key. -/
inductive LockState where
  | locked
  | unlocked (remaining : ℕ)
  deriving DecidableEq, Repr

def LockState.isUnlocked : LockState → Bool
  | .locked => false
  | .unlocked _ => true

inductive SessionError where
  /-- "the vault is locked; a YubiKey touch is required" -/
  | locked
  /-- "the vault is already initialized at this location" -/
  | alreadyInitialized
  /-- "unlock succeeded but the keys do not match this vault: wrong YubiKey, or
  the vault was moved from another machine" -/
  | verificationFailed
  /-- "the authenticator that answered is not enrolled in this vault." -/
  | noMatchingKey
  /-- "the vault's enrollment record is corrupt: {0}" -/
  | badEnrollments (detail : String)
  /-- "that authenticator is already enrolled in this vault" -/
  | alreadyEnrolled
  | vault (e : VaultError)
  | envelope (e : EnvelopeError)
  | provider (e : ProviderError)
  | key (e : KeyError)
  deriving DecidableEq

/-! ## What a call reads from outside -/

/-- The clock, the random source and the database as one call sees them. -/
structure Call where
  /-- `Instant::now()` where the call checks the deadline. -/
  started : Instant
  /-- `Instant::now()` where the call sets a new deadline. -/
  ended : Instant
  started_le_ended : started ≤ ended
  sql : Sql
  /-- `Uuid::new_v4`, which panics without randomness. -/
  uuid : Option Uuid
  metaNonces : Nonces
  payloadNonces : Nonces
  verifyNonces : Nonces
  wrapNonce : Except RandomError Nonce
  /-- `Key::generate`. -/
  key : Except RandomError Key
  kdfSalt : Except RandomError (Block saltLen)
  hmacSalt : Except RandomError (Block saltLen)

namespace Call

/-- `Uuid::new_v4()`. -/
def newUuid {ε : Type} (call : Call) : Fallible ε Uuid :=
  match call.uuid with
  | some id => .ok id
  | none => .error .panic

/-- Draw a key or a salt. -/
def draw {α : Type} (value : Except RandomError α) : Fallible SessionError α :=
  (Fallible.ofExcept value).mapError fun e => .key (.random e)

end Call

/-! ## Enrollments -/

/-- One enrolled authenticator's record. -/
structure Enrollment where
  label : String
  credentialId : Bytes
  wrapBlob : Bytes
  deriving DecidableEq

namespace Enrollment

/-- The fields the derived `Serialize` writes. -/
def entries (record : Enrollment) : List (String × Cbor) :=
  [("l", .text record.label), ("c", Cbor.ofBytes record.credentialId),
    ("w", Cbor.ofBytes record.wrapBlob)]

def toCbor (record : Enrollment) : Cbor := .map record.entries

/-- The derived `Deserialize`. -/
def ofCbor (value : Cbor) : Option Enrollment := do
  let entries ← value.asMap
  let label ← Cbor.required entries "l" Cbor.asText
  let credentialId ← Cbor.required entries "c" Cbor.asBytes
  let wrapBlob ← Cbor.required entries "w" Cbor.asBytes
  return { label, credentialId, wrapBlob }

theorem ofCbor_toCbor (record : Enrollment) : ofCbor record.toCbor = some record := by
  have hlabel : Cbor.required record.entries "l" Cbor.asText = some record.label :=
    Cbor.required_of_named (by simp [entries]) (Cbor.asText_text _)
  have hid : Cbor.required record.entries "c" Cbor.asBytes = some record.credentialId :=
    Cbor.required_of_named (by simp [entries]) (Cbor.asBytes_ofBytes _)
  have hwrap : Cbor.required record.entries "w" Cbor.asBytes = some record.wrapBlob :=
    Cbor.required_of_named (by simp [entries]) (Cbor.asBytes_ofBytes _)
  simp [ofCbor, toCbor, hlabel, hid, hwrap]

end Enrollment

section Enrollments

variable (P : Primitives)

/-- Reads the enrolled-authenticator list from the vault's meta table. -/
def loadEnrollments (sql : Sql) (v : Vault) : Fallible SessionError (List Enrollment) := do
  let bytes ← (v.requireMetaBytes sql metaEnrollments).mapError .vault
  Fallible.ofOption (.badEnrollments (P.cborError "Enrollments" bytes))
    ((P.cborRead bytes).bind (Cbor.asArray Enrollment.ofCbor))

/-- Writes the enrolled-authenticator list back to the vault's meta table. -/
def saveEnrollments (sql : Sql) (enrollments : List Enrollment) :
    Stateful Vault SessionError Unit :=
  (Vault.setMetaBytes sql metaEnrollments
    (P.cborWrite (.array (enrollments.map Enrollment.toCbor)))).mapError .vault

/-- Registers one authenticator's wrapped copy of `innerKek`. -/
def wrapFor (call : Call) (inner : InnerKeyProvider) (credentialId hmacSalt kdfSalt : Bytes)
    (innerKek : Key) (label : String) : Fallible SessionError Enrollment := do
  let assertion ← (inner.assertSecret credentialId hmacSalt).mapError .provider
  let wrap := deriveWrapKey P assertion kdfSalt
  let wrapBlob ← (wrapKey P call.wrapNonce wrap innerKek).mapError .envelope
  return { label, credentialId, wrapBlob }

end Enrollments

/-- What `initialize` has in hand before it writes anything. -/
structure NewKeys where
  innerKek : Key
  kdfSalt : Block saltLen
  hmacSalt : Block saltLen
  primary : Enrollment
  verifyId : Uuid
  verifyBlob : Bytes

/-! ## The session and its lock -/

/-- An open vault with its outer key resident and its inner key gated. -/
structure Session where
  vault : Vault
  outerKek : Key
  /-- Present exactly when unlocked. -/
  innerKek : Option Key
  /-- When the inner key expires. -/
  deadline : Option Instant
  timeout : ℕ
  deriving DecidableEq

namespace Session

/-- Zeroizes the inner key and returns to locked. -/
def lock (s : Session) : Session := { s with innerKek := none, deadline := none }

/-- Relocks if the deadline has passed. Returns the resulting state. -/
def tick (now : Instant) (s : Session) : LockState × Session :=
  match s.innerKek, s.deadline with
  | some _, some deadline =>
      if deadline ≤ now then (.locked, s.lock) else (.unlocked (deadline - now), s)
  | some _, none => (.locked, s.lock)
  | none, _ => (.locked, s)

/-- Extends the unlock window. -/
def touch (now : Instant) (s : Session) : Session :=
  match s.innerKek with
  | some _ => { s with deadline := some (now + s.timeout) }
  | none => s

/-- Current lock state without advancing the machine. The clock is read a second
time for the remaining duration. -/
def state (now later : Instant) (s : Session) : LockState :=
  match s.innerKek, s.deadline with
  | some _, some deadline => if deadline ≤ now then .locked else .unlocked (deadline - later)
  | _, _ => .locked

/-- Advances the state machine and fails if that left the vault locked. -/
def ensureUnlocked (now : Instant) : Stateful Session SessionError Unit := fun s =>
  if (s.tick now).1.isUnlocked then (.ok (), (s.tick now).2)
  else (.error (.error .locked), (s.tick now).2)

/-- Both root keys, inner first. -/
def keys (s : Session) : Fallible SessionError (Key × Key) := do
  let inner ← Fallible.ofOption .locked s.innerKek
  return (inner, s.outerKek)

/-- Run a call on the session's database. -/
def onVault {α : Type} (x : Stateful Vault VaultError α) : Stateful Session SessionError α :=
  Stateful.zoom Session.vault (fun s v => { s with vault := v }) (x.mapError .vault)

section Operations

variable (P : Primitives)

/-! ## Creating and opening a vault -/

/-- The five meta writes at the end of `initialize`, in order. -/
def storeKeys (sql : Sql) (kdfSalt hmacSalt : Bytes) (enrollments : List Enrollment)
    (verifyBlob : Bytes) (verifyId : Uuid) : Stateful Vault SessionError Unit := do
  (Vault.setMetaBytes sql metaKdfSalt kdfSalt).mapError .vault
  (Vault.setMetaBytes sql metaHmacSalt hmacSalt).mapError .vault
  saveEnrollments P sql enrollments
  (Vault.setMetaBytes sql metaVerifyBlob verifyBlob).mapError .vault
  (Vault.setMeta sql metaVerifyId (P.uuidText verifyId)).mapError .vault

/-- The steps of `initialize` between the outer key and the first write: draw the
inner key and the salts, register and assert the primary authenticator, seal the
verification blob. -/
def prepareKeys (call : Call) (inner : InnerKeyProvider) (outerKek : Key) :
    Fallible SessionError NewKeys := do
  let innerKek ← Call.draw call.key
  let kdfSalt ← Call.draw call.kdfSalt
  let hmacSalt ← Call.draw call.hmacSalt
  let credentialId ← inner.provision.mapError .provider
  let primary ←
    wrapFor P call inner credentialId hmacSalt.bytes kdfSalt.bytes innerKek "primary"
  let verifyId ← call.newUuid
  let verifyBlob ←
    (sealVerification P call.verifyNonces verifyId innerKek outerKek).mapError .envelope
  return { innerKek, kdfSalt, hmacSalt, primary, verifyId, verifyBlob }

/-- `Session::initialize`, over the database and the outer provider's state. -/
def initializeVault {σ : Type} (call : Call) (outer : OuterKeyProvider σ)
    (inner : InnerKeyProvider) (timeout : ℕ) : Stateful (Vault × σ) SessionError Session := do
  let (v, _) ← Stateful.read
  let existing ← Stateful.lift ((v.getMeta call.sql metaKdfSalt).mapError .vault)
  if existing.isSome then Stateful.raise .alreadyInitialized
  else
    let outerKek ← Stateful.zoom Prod.snd (fun s t => (s.1, t)) (outer.provision.mapError .provider)
    let keys ← Stateful.lift (prepareKeys P call inner outerKek)
    Stateful.zoom Prod.fst (fun s v => (v, s.2))
      (storeKeys P call.sql keys.kdfSalt.bytes keys.hmacSalt.bytes [keys.primary]
        keys.verifyBlob keys.verifyId)
    let (v, _) ← Stateful.read
    return { vault := v, outerKek, innerKek := some keys.innerKek,
             deadline := some (call.ended + timeout), timeout }

/-- Opens an existing vault, recovering the outer key only. -/
def openLocked (call : Call) (v : Vault) (unsealed : Fallible ProviderError Key)
    (timeout : ℕ) : Fallible SessionError Session := do
  let existing ← (v.getMeta call.sql metaKdfSalt).mapError .vault
  if existing.isNone then Fallible.raise (.vault (.notInitialized "kdf_salt"))
  else
    let outerKek ← unsealed.mapError .provider
    return { vault := v, outerKek, innerKek := none, deadline := none, timeout }

/-! ## Enrolling and unlocking -/

/-- Register a credential on another authenticator and wrap the inner key under
it: the enrollments to be saved. -/
def enroll (call : Call) (inner : InnerKeyProvider) (label : String) (s : Session) :
    Fallible SessionError (List Enrollment) := do
  let innerKek ← Fallible.ofOption .locked s.innerKek
  let hmacSalt ← (s.vault.requireMetaBytes call.sql metaHmacSalt).mapError .vault
  let kdfSalt ← (s.vault.requireMetaBytes call.sql metaKdfSalt).mapError .vault
  let enrollments ← loadEnrollments P call.sql s.vault
  let existingIds := enrollments.map Enrollment.credentialId
  let credentialId ← (inner.provisionExcluding existingIds).mapError .provider
  if credentialId ∈ existingIds then Fallible.raise .alreadyEnrolled
  else
    let label :=
      if (trim label).isEmpty then "key-" ++ toString (enrollments.length + 1) else trim label
    let enrollment ← wrapFor P call inner credentialId hmacSalt kdfSalt innerKek label
    return enrollments ++ [enrollment]

/-- Enrolls an additional authenticator so it can also open this vault. -/
def enrollKey (call : Call) (inner : InnerKeyProvider) (label : String) :
    Stateful Session SessionError Unit := do
  ensureUnlocked call.started
  let s ← Stateful.read
  let enrollments ← Stateful.lift (enroll P call inner label s)
  Stateful.zoom Session.vault (fun s v => { s with vault := v })
    (saveEnrollments P call.sql enrollments)
  Stateful.modify (touch call.ended)

/-- Labels of every enrolled authenticator. -/
def enrolledLabels (call : Call) (s : Session) : Fallible SessionError (List String) := do
  let enrollments ← loadEnrollments P call.sql s.vault
  return enrollments.map Enrollment.label

/-- Find the record of the credential that answered and recover the inner key
from it. -/
def unwrapMatched (enrollments : List Enrollment) (kdfSalt matchedId assertion : Bytes) :
    Fallible SessionError Key := do
  let enrollment ← Fallible.ofOption .noMatchingKey
    (enrollments.find? fun record => record.credentialId = matchedId)
  let wrap := deriveWrapKey P assertion kdfSalt
  (unwrapKey P wrap enrollment.wrapBlob).mapError fun _ => .verificationFailed

/-- Check a candidate inner key against the verification blob. -/
def checkKeys (sql : Sql) (v : Vault) (innerKek outerKek : Key) :
    Fallible SessionError Unit := do
  let verifyBlob ← (v.requireMetaBytes sql metaVerifyBlob).mapError .vault
  let verifyText ← (v.getMeta sql metaVerifyId).mapError .vault
  let verifyId ← Fallible.ofOption (.vault (.badMeta metaVerifyId))
    (verifyText.bind P.uuidParse)
  let verified ← (verifyKeys P verifyId innerKek outerKek verifyBlob).mapError
    fun _ => SessionError.verificationFailed
  if verified then return () else Fallible.raise .verificationFailed

/-- Perform an assertion, recover the inner key from the record of whichever
credential answered, and verify it. -/
def assertInnerKey (call : Call) (inner : InnerKeyProvider) (s : Session) :
    Fallible SessionError Key := do
  let hmacSalt ← (s.vault.requireMetaBytes call.sql metaHmacSalt).mapError .vault
  let kdfSalt ← (s.vault.requireMetaBytes call.sql metaKdfSalt).mapError .vault
  let enrollments ← loadEnrollments P call.sql s.vault
  let credentialIds := enrollments.map Enrollment.credentialId
  let (matchedId, assertion) ←
    (inner.assertFirstAvailable credentialIds hmacSalt).mapError .provider
  let innerKek ← unwrapMatched P enrollments kdfSalt matchedId assertion
  checkKeys P call.sql s.vault innerKek s.outerKek
  return innerKek

/-- Performs an assertion and admits the inner key, then verifies it. A key that
fails the verification is not retained. -/
def unlock (call : Call) (inner : InnerKeyProvider) : Stateful Session SessionError Unit := do
  let s ← Stateful.read
  let innerKek ← Stateful.lift (assertInnerKey P call inner s)
  Stateful.modify fun s =>
    { s with innerKek := some innerKek, deadline := some (call.ended + s.timeout) }

/-! ## Reading and writing secrets -/

/-- Lists metadata, in alphabetical order of the lower-case names. The sort is
stable. -/
def list (call : Call) : Stateful Session SessionError (List SecretMeta) := do
  ensureUnlocked call.started
  let s ← Stateful.read
  let (inner, outer) ← Stateful.lift s.keys
  let rows ← Stateful.lift ((s.vault.listRows P call.sql).mapError .vault)
  let metas ← Stateful.lift
    ((rows.mapM fun row => openMeta P row.metaId row.id inner outer row.metaBlob).mapError
      .envelope)
  return metas.mergeSort fun a b => P.lowercase a.name ≤ P.lowercase b.name

/-- Decrypts one secret's metadata. -/
def metaFor (call : Call) (id : Uuid) : Stateful Session SessionError SecretMeta := do
  let s ← Stateful.read
  let row ← Stateful.lift ((s.vault.getMetaRow P call.sql id).mapError .vault)
  ensureUnlocked call.started
  let s ← Stateful.read
  let (inner, outer) ← Stateful.lift s.keys
  Stateful.lift ((openMeta P row.metaId row.id inner outer row.metaBlob).mapError .envelope)

/-- Decrypts one secret. `Session::open`. -/
def openSecret (call : Call) (id : Uuid) : Stateful Session SessionError SecretPayload := do
  let s ← Stateful.read
  let blob ← Stateful.lift ((s.vault.getBlob P call.sql id).mapError .vault)
  ensureUnlocked call.started
  let s ← Stateful.read
  let (inner, outer) ← Stateful.lift s.keys
  let payload ← Stateful.lift ((openPayload P id inner outer blob).mapError .envelope)
  Stateful.modify (touch call.ended)
  return payload

/-- The two envelopes of a secret and the metadata id they were made with. -/
def sealSecret (call : Call) (inner outer : Key) (m : SecretMeta) (p : SecretPayload) :
    Fallible SessionError (Uuid × Bytes × Bytes) := do
  let metaId ← call.newUuid
  let metaBlob ← (sealMeta P call.metaNonces metaId inner outer m).mapError .envelope
  let payloadBlob ← (sealPayload P call.payloadNonces m.id inner outer p).mapError .envelope
  return (metaId, metaBlob, payloadBlob)

/-- Seals and stores a new secret. -/
def add (call : Call) (m : SecretMeta) (p : SecretPayload) :
    Stateful Session SessionError Unit := do
  ensureUnlocked call.started
  let s ← Stateful.read
  let (inner, outer) ← Stateful.lift s.keys
  let (metaId, metaBlob, payloadBlob) ← Stateful.lift (sealSecret P call inner outer m p)
  onVault (Vault.insertRow P call.sql m.id metaId metaBlob payloadBlob)
  Stateful.modify (touch call.ended)

/-- Re-seals and replaces an existing secret. -/
def update (call : Call) (m : SecretMeta) (p : SecretPayload) :
    Stateful Session SessionError Unit := do
  ensureUnlocked call.started
  let s ← Stateful.read
  let (inner, outer) ← Stateful.lift s.keys
  let (metaId, metaBlob, payloadBlob) ← Stateful.lift (sealSecret P call inner outer m p)
  onVault (Vault.updateRow P call.sql m.id metaId metaBlob payloadBlob)
  Stateful.modify (touch call.ended)

/-- Deletes a secret. Allowed while locked. -/
def delete (call : Call) (id : Uuid) : Stateful Session SessionError Unit :=
  onVault (Vault.delete P call.sql id)

end Operations

end Session

/-! ## One entry point for every call -/

/-- A call on an open session, with its arguments. -/
inductive Op where
  | unlock (inner : InnerKeyProvider)
  | lock
  | tick
  | touch
  | state
  | list
  | metaFor (id : Uuid)
  | openSecret (id : Uuid)
  | add (m : SecretMeta) (p : SecretPayload)
  | update (m : SecretMeta) (p : SecretPayload)
  | delete (id : Uuid)
  | enrollKey (inner : InnerKeyProvider) (label : String)

/-- What a successful call returns. -/
inductive Reply where
  | done
  | lockState (state : LockState)
  | metas (metas : List SecretMeta)
  | secretMeta (m : SecretMeta)
  | payload (p : SecretPayload)
  deriving DecidableEq

namespace Session

/-- Run one call. -/
def perform (P : Primitives) (call : Call) : Op → Stateful Session SessionError Reply
  | .unlock inner => do unlock P call inner; return .done
  | .lock => do Stateful.modify lock; return .done
  | .tick => fun s => (.ok (.lockState (s.tick call.started).1), (s.tick call.started).2)
  | .touch => do Stateful.modify (touch call.ended); return .done
  | .state => do let s ← Stateful.read; return .lockState (s.state call.started call.ended)
  | .list => do return .metas (← list P call)
  | .metaFor id => do return .secretMeta (← metaFor P call id)
  | .openSecret id => do return .payload (← openSecret P call id)
  | .add m p => do add P call m p; return .done
  | .update m p => do update P call m p; return .done
  | .delete id => do delete P call id; return .done
  | .enrollKey inner label => do enrollKey P call inner label; return .done

end Session

end Sypherstore
