/-
# Which authenticator is asked

`fido.rs` opens every authenticator that is plugged in and picks the one it needs: for an
unlock one that holds an enrolled credential, for an enrollment the one that holds none. The
right one is found out by a silent assertion. What the devices do is a parameter, and what they
hold and what they were asked for is a state that the calls work on.
-/

import Mathlib.Data.List.Infix
import Sypherstore.Core.ConcurrentEnrollment

namespace Sypherstore

open Logic

variable {D : Type}

/-! ## The devices -/

/-- An authenticator as the HID layer lists it, and whether it can be opened. -/
structure HidDevice (D : Type) where
  device : D
  readable : Bool

inductive CredentialExtension where
  | hmacSecret (enabled : Option Bool)
  | other

/-- The authenticator confirms that hmac-secret is enabled. -/
def CredentialExtension.enablesHmacSecret : CredentialExtension → Bool
  | .hmacSecret (some true) | .hmacSecret none => true
  | _ => false

inductive AssertionExtension where
  | hmacSecret (output : Option Bytes)
  | other

structure Attestation where
  credentialId : Bytes
  extensions : List CredentialExtension

structure Assertion where
  credentialId : Bytes
  extensions : List AssertionExtension

/-- What devices and user do during one call of the provider. -/
structure FidoCall (D : Type) where
  /-- `get_fidokey_devices`. -/
  devices : List (HidDevice D)
  /-- The PIN prompt, if there is one, and what it returns. -/
  pinPrompt : Option (Except ProviderError String)
  /-- An assertion without PIN, user verification and touch, by what the device holds. -/
  preflight : D → (held : Bytes → Bool) → (credentialIds : List Bytes) → Except String Unit
  makeCredential : D → (pin : String) → Except String Attestation
  getAssertion : D → (credentialIds : List Bytes) → (salt : Bytes) → (pin : String) →
    Except String (List Assertion)

namespace FidoCall

/-- The devices that open, in the order they are listed in. -/
def readable (call : FidoCall D) : List D := (call.devices.filter (·.readable)).map (·.device)

/-- Documented behaviour: the silent assertion succeeds on a device that holds one of the
credentials, and on no other. -/
def Probes (call : FidoCall D) : Prop :=
  ∀ d held ids, ids ≠ [] → ((call.preflight d held ids).isOk ↔ ∃ id ∈ ids, held id)

end FidoCall

/-- What a device was asked for with the user's PIN. -/
inductive FidoRequest where
  | makeCredential
  | getAssertion (credentialIds : List Bytes)
  deriving DecidableEq

/-- What the devices hold, and what they were asked for. -/
structure Tokens (D : Type) where
  holds : D → Bytes → Bool
  asked : List (D × FidoRequest)

namespace Tokens

/-- A credential id is held by one device only. -/
def Unique (t : Tokens D) : Prop := ∀ d d' id, t.holds d id → t.holds d' id → d' = d

def ask (d : D) (request : FidoRequest) (t : Tokens D) : Tokens D :=
  { t with asked := t.asked ++ [(d, request)] }

def register [DecidableEq D] (d : D) (id : Bytes) (t : Tokens D) : Tokens D :=
  { t with holds := fun d' id' => decide (d' = d ∧ id' = id) || t.holds d' id' }

end Tokens

/-! ## The provider -/

namespace FidoInnerProvider

/-- Length of an hmac-secret salt and of its output. -/
def hmacLen : ℕ := 32

/-- Validates the salt before any hardware is touched. -/
def checkSalt (salt : Bytes) : Fallible ProviderError Bytes :=
  if salt.length = hmacLen then .ok salt
  else Fallible.raise (.device
    ("the hmac-secret salt must be " ++ toString hmacLen ++ " bytes, got " ++
      toString salt.length))

/-- Turns a library error into something a user can act on. -/
def mapDeviceError (text : String) : ProviderError :=
  let mentions (part : String) : Bool := decide (part.toList <:+: text.toLower.toList)
  if mentions "timeout" || mentions "user action timeout" then .timeout
  else if mentions "operation_denied" || mentions "operation denied" then .cancelled
  else if mentions "keepalive cancel" || mentions "cancel" then .cancelled
  else if mentions "pin" then
    .device (text ++ ". If your authenticator has a PIN, Sypherstore needs it configured.")
  else .device text

section Provider

variable (call : FidoCall D)

/-- Obtains a PIN, or explains why the operation cannot proceed. -/
def requestPin : Fallible ProviderError String :=
  match call.pinPrompt with
  | some answer => Fallible.ofExcept answer
  | none => Fallible.raise (.device
      "this authenticator requires its PIN, but there is no way to ask for one here")

/-- Opens every connected authenticator. One that cannot be opened does not block the
others. -/
def openAll : Fallible ProviderError (List D) :=
  if call.devices.isEmpty then
    Fallible.raise (.noDevice ("no FIDO2 authenticator found. Plug in your YubiKey. If it is " ++
      "plugged in, check that /dev/hidraw* is readable (run `sypherstore doctor`)."))
  else if call.readable.isEmpty then
    Fallible.raise (.device ("no connected FIDO2 authenticator could be opened. Check that " ++
      "/dev/hidraw* is readable (run `sypherstore doctor`)."))
  else .ok call.readable

/-- Asks a device, silently, whether it holds any of the credentials. -/
def holdsAny (t : Tokens D) (credentialIds : List Bytes) (d : D) : Bool :=
  if credentialIds.isEmpty then false
  else (call.preflight d (t.holds d) credentialIds).isOk

/-- Picks the connected authenticator that holds one of the credentials. With a single device
connected there is nothing to choose. -/
def openEnrolled (t : Tokens D) (credentialIds : List Bytes) : Fallible ProviderError D := do
  match ← openAll call with
  | [only] => return only
  | devices =>
      Fallible.ofOption (.device ("none of the connected authenticators answered for this " ++
          "vault's credentials. Leave only the enrolled key plugged in and try again."))
        (devices.find? (holdsAny call t credentialIds))

/-- Picks a connected authenticator that is not already enrolled. -/
def openUnenrolled (t : Tokens D) (existing : List Bytes) : Fallible ProviderError D := do
  match ← openAll call with
  | [only] =>
      if !existing.isEmpty && holdsAny call t existing only then
        Fallible.raise (.device ("the connected authenticator is already enrolled in this " ++
          "vault. Connect the NEW key (the enrolled one may stay plugged in)."))
      else return only
  | devices =>
      match devices.filter (!holdsAny call t existing ·) with
      | [] => Fallible.raise (.device ("every connected authenticator is already enrolled in " ++
          "this vault. Connect the new key you want to enroll."))
      | [d] => return d
      -- Registering on an arbitrary one would leave the user unsure which key got enrolled.
      | _ => Fallible.raise (.device ("more than one un-enrolled authenticator is connected. " ++
          "Leave just the one you want to register plugged in."))

/-- Ask a device to register a credential. -/
def makeCredential [DecidableEq D] (d : D) (pin : String) :
    Stateful (Tokens D) ProviderError Attestation := do
  Stateful.modify (Tokens.ask d .makeCredential)
  let attestation ←
    Stateful.lift ((Fallible.ofExcept (call.makeCredential d pin)).mapError mapDeviceError)
  Stateful.modify (Tokens.register d attestation.credentialId)
  return attestation

/-- Registers a credential on an authenticator that holds none of the existing ones. -/
def provisionOnNewDevice [DecidableEq D] (existing : List Bytes) :
    Stateful (Tokens D) ProviderError Bytes := do
  let t ← Stateful.read
  let d ← Stateful.lift (openUnenrolled call t existing)
  let pin ← Stateful.lift (requestPin call)
  let attestation ← makeCredential call d pin
  if !attestation.extensions.any CredentialExtension.enablesHmacSecret then
    Stateful.raise (.device ("this authenticator did not enable the hmac-secret extension. " ++
      "Sypherstore needs a CTAP2 authenticator that supports it."))
  else if attestation.credentialId.isEmpty then
    Stateful.raise (.device "the authenticator returned an empty credential id")
  else return attestation.credentialId

/-- The authenticator reports which credential it used. Some omit it when the list held exactly
one. -/
def matched (assertion : Assertion) (credentialIds : List Bytes) : Fallible ProviderError Bytes :=
  if !assertion.credentialId.isEmpty then .ok assertion.credentialId
  else
    match credentialIds with
    | [id] => .ok id
    | _ => Fallible.raise (.device "the authenticator did not say which credential it used")

/-- The first hmac-secret output of an assertion. -/
def hmacOutput : List AssertionExtension → Fallible ProviderError Bytes
  | [] => Fallible.raise (.device ("the authenticator completed the assertion but returned no " ++
      "hmac-secret output. The credential may have been created without the extension."))
  | .hmacSecret (some output) :: _ =>
      if output.length = hmacLen then .ok output
      else Fallible.raise (.device ("hmac-secret returned " ++ toString output.length ++
        " bytes, expected " ++ toString hmacLen))
  | _ :: rest => hmacOutput rest

/-- What the device answered: the credential it used, and its secret. -/
def readAssertions (credentialIds : List Bytes) (answer : Except String (List Assertion)) :
    Fallible ProviderError (Bytes × Bytes) := do
  let assertions ← (Fallible.ofExcept answer).mapError mapDeviceError
  let assertion ← Fallible.ofOption
    (.device ("the authenticator returned no assertion. It is not one of the keys enrolled in " ++
      "this vault, or its credential was deleted.")) assertions.head?
  let id ← matched assertion credentialIds
  let secret ← hmacOutput assertion.extensions
  return (id, secret)

/-- One assertion that carries every credential, on a device that holds one of them. -/
def assertFirstAvailable (credentialIds : List Bytes) (salt : Bytes) :
    Stateful (Tokens D) ProviderError (Bytes × Bytes) := do
  let salt ← Stateful.lift (checkSalt salt)
  if credentialIds.isEmpty then
    Stateful.raise (.noDevice "this vault has no enrolled authenticators")
  else
    let t ← Stateful.read
    let d ← Stateful.lift (openEnrolled call t credentialIds)
    let pin ← Stateful.lift (requestPin call)
    Stateful.modify (Tokens.ask d (.getAssertion credentialIds))
    Stateful.lift (readAssertions credentialIds (call.getAssertion d credentialIds salt pin))

/-- A single known credential is just a list of one. -/
def assertSecret (credentialId salt : Bytes) : Stateful (Tokens D) ProviderError Bytes := do
  let (_, secret) ← assertFirstAvailable call [credentialId] salt
  return secret

end Provider

/-! ## Which device is opened -/

variable {call : FidoCall D} {t : Tokens D} {ids existing : List Bytes} {d : D}

theorem holdsAny_iff (h : call.Probes) (t : Tokens D) (ids : List Bytes) (d : D) :
    holdsAny call t ids d ↔ ∃ id ∈ ids, t.holds d id := by
  unfold holdsAny
  cases ids with
  | nil => simp
  | cons id rest => exact h d (t.holds d) (id :: rest) (by simp)

theorem openAll_eq_ok_iff (call : FidoCall D) (ds : List D) :
    openAll call = .ok ds ↔ call.readable ≠ [] ∧ ds = call.readable := by
  unfold openAll
  by_cases hdevices : call.devices = []
  · simp [hdevices, FidoCall.readable, Fallible.raise]
  · by_cases hreadable : call.readable = []
    · simp [hdevices, hreadable, Fallible.raise]
    · have hopened : (.ok call.readable : Fallible ProviderError (List D)) = .ok ds ↔
          ds = call.readable := ⟨fun h => (Except.ok.inj h).symm, fun h => h ▸ rfl⟩
      simpa [hdevices, hreadable] using hopened

/-- **The new key**: the device that is opened for a registration holds none of the credentials,
and it is the only readable one. -/
theorem openUnenrolled_eq_ok (h : call.Probes) (hopen : openUnenrolled call t existing = .ok d) :
    d ∈ call.readable ∧ (∀ id ∈ existing, ¬ t.holds d id) ∧
      ∀ d' ∈ call.readable, d' ≠ d → ∃ id ∈ existing, t.holds d' id := by
  unfold openUnenrolled at hopen
  obtain ⟨ds, hds, hopen⟩ := (Fallible.bind_eq_ok_iff _ _ _).mp hopen
  obtain ⟨_, rfl⟩ := (openAll_eq_ok_iff call ds).mp hds
  split at hopen
  · rename_i only honly
    split at hopen
    · cases hopen
    · rename_i hfree
      cases hopen
      have hnone : ¬ holdsAny call t existing d := by
        intro hheld
        cases existing with
        | nil => simp [holdsAny] at hheld
        | cons id rest => simp [hheld] at hfree
      simp only [holdsAny_iff h, not_exists, not_and] at hnone
      refine ⟨by simp [honly], hnone, fun d' hd' hne => ?_⟩
      rw [honly, List.mem_singleton] at hd'
      exact absurd hd' hne
  · split at hopen
    · cases hopen
    · rename_i fresh hfresh
      cases hopen
      have hmem : d ∈ call.readable.filter (!holdsAny call t existing ·) := by simp [hfresh]
      obtain ⟨hreadable, hfree⟩ := List.mem_filter.mp hmem
      simp only [Bool.not_eq_true', ← Bool.not_eq_true, holdsAny_iff h, not_exists,
        not_and] at hfree
      refine ⟨hreadable, hfree, fun d' hd' hne => ?_⟩
      by_contra hlacks
      have hother : d' ∈ call.readable.filter (!holdsAny call t existing ·) :=
        List.mem_filter.mpr ⟨hd', by simpa [← Bool.not_eq_true, holdsAny_iff h] using hlacks⟩
      rw [hfresh, List.mem_singleton] at hother
      exact hne hother
    · cases hopen

/-- **An enrolled key**: if one of the readable devices holds a credential, the device that is
opened holds one. -/
theorem openEnrolled_of_exists (h : call.Probes)
    (hheld : ∃ d ∈ call.readable, ∃ id ∈ ids, t.holds d id) :
    ∃ d, openEnrolled call t ids = .ok d ∧ d ∈ call.readable ∧ ∃ id ∈ ids, t.holds d id := by
  obtain ⟨d, hreadable, hholds⟩ := hheld
  have hopen : openAll call = .ok call.readable :=
    (openAll_eq_ok_iff ..).mpr ⟨List.ne_nil_of_mem hreadable, rfl⟩
  simp only [openEnrolled, hopen, Fallible.ok_bind]
  split
  · rename_i only honly
    rw [honly, List.mem_singleton] at hreadable
    exact ⟨only, rfl, by simp [honly], hreadable ▸ hholds⟩
  · cases hfind : call.readable.find? (holdsAny call t ids) with
    | none =>
        have hlacks := List.find?_eq_none.mp hfind d hreadable
        exact absurd ((holdsAny_iff h ..).mpr hholds) hlacks
    | some found =>
        have hfound := List.find?_some hfind
        exact ⟨found, rfl, List.mem_of_find?_eq_some hfind, (holdsAny_iff h ..).mp hfound⟩

/-- The one device that holds a credential is opened for it. -/
theorem openEnrolled_of_unique {id : Bytes} (h : call.Probes) (hunique : t.Unique)
    (hreadable : d ∈ call.readable) (hholds : t.holds d id) : openEnrolled call t [id] = .ok d := by
  obtain ⟨d', hopen, _, held, hheld, hholds'⟩ :=
    openEnrolled_of_exists h ⟨d, hreadable, id, List.mem_singleton_self id, hholds⟩
  obtain rfl := List.mem_singleton.mp hheld
  rw [hopen, hunique d d' _ hholds hholds']

/-! ## What the devices are asked for -/

section Asked

variable [DecidableEq D]

/-- A registration asks no device, or it asks the one that was opened for it. One that succeeds
leaves the credential with this device. -/
theorem provisionOnNewDevice_asks (call : FidoCall D) (existing : List Bytes) (t : Tokens D) :
    ((∃ e, (provisionOnNewDevice call existing t).1 = .error e) ∧
      (provisionOnNewDevice call existing t).2 = t) ∨
    ∃ d, openUnenrolled call t existing = .ok d ∧
      (provisionOnNewDevice call existing t).2.asked =
        t.asked ++ [(d, FidoRequest.makeCredential)] ∧
      ∀ id, (provisionOnNewDevice call existing t).1 = .ok id →
        (provisionOnNewDevice call existing t).2 = (t.ask d .makeCredential).register d id := by
  simp only [provisionOnNewDevice, makeCredential, Stateful.bind_apply, Stateful.read_apply,
    Stateful.lift_apply, Stateful.modify_apply]
  cases openUnenrolled call t existing with
  | error e => exact .inl ⟨⟨e, rfl⟩, rfl⟩
  | ok d =>
  cases requestPin call with
  | error e => exact .inl ⟨⟨e, rfl⟩, rfl⟩
  | ok pin =>
  refine .inr ⟨d, rfl, ?_⟩
  dsimp only
  cases call.makeCredential d pin with
  | error e => exact ⟨rfl, fun _ h => by cases h⟩
  | ok attestation =>
      simp only [Fallible.ofExcept_ok, Fallible.mapError_ok, Stateful.pure_apply]
      split
      · exact ⟨rfl, fun _ h => by cases h⟩
      · split
        · exact ⟨rfl, fun _ h => by cases h⟩
        · refine ⟨rfl, fun id h => ?_⟩
          cases h
          rfl

omit [DecidableEq D] in
/-- An assertion asks no device, or it asks the one that was opened for the credential. One that
succeeds has asked it. -/
theorem assertSecret_asks (call : FidoCall D) (id salt : Bytes) (t : Tokens D) :
    ((∃ e, (assertSecret call id salt t).1 = .error e) ∧ (assertSecret call id salt t).2 = t) ∨
    ∃ d, openEnrolled call t [id] = .ok d ∧
      (assertSecret call id salt t).2 = t.ask d (.getAssertion [id]) := by
  simp only [assertSecret, assertFirstAvailable, Stateful.bind_apply, Stateful.read_apply,
    Stateful.lift_apply, Stateful.modify_apply, List.isEmpty_cons, Bool.false_eq_true, if_false]
  cases checkSalt salt with
  | error e => exact .inl ⟨⟨e, rfl⟩, rfl⟩
  | ok salt =>
  dsimp only
  cases openEnrolled call t [id] with
  | error e => exact .inl ⟨⟨e, rfl⟩, rfl⟩
  | ok d =>
  cases requestPin call with
  | error e => exact .inl ⟨⟨e, rfl⟩, rfl⟩
  | ok pin =>
      refine .inr ⟨d, rfl, ?_⟩
      dsimp only
      cases readAssertions [id] (call.getAssertion d [id] salt pin) <;> rfl

end Asked

end FidoInnerProvider

/-! ## Enrolling -/

namespace Session

open FidoInnerProvider

section EnrollOn

variable [DecidableEq D] (P : Primitives) (call : Call) (registering asserting : FidoCall D)
  (label : String)

/-- The inner key, wrapped under what the new authenticator answered. -/
def wrapRecord (inputs : EnrollInputs) (credentialId assertion : Bytes) :
    Fallible SessionError Enrollment := do
  let label :=
    if (trim label).isEmpty then "key-" ++ toString (inputs.enrollments.length + 1)
    else trim label
  let wrap := deriveWrapKey P assertion inputs.kdfSalt
  let wrapBlob ← (wrapKey P call.wrapNonce wrap inputs.innerKek).mapError .envelope
  return { label, credentialId, wrapBlob }

/-- The hardware steps of `enroll_key`: a registration, and an assertion of the new credential
that its wrap key is derived from. The devices are listed once for each. -/
def newRecord (inputs : EnrollInputs) : Stateful (Tokens D) SessionError Enrollment := do
  let credentialId ←
    (provisionOnNewDevice registering inputs.existingIds).mapError SessionError.provider
  if inputs.existingIds.contains credentialId then Stateful.raise .alreadyEnrolled
  else
    let assertion ←
      (assertSecret asserting credentialId inputs.hmacSalt).mapError SessionError.provider
    Stateful.lift (wrapRecord P call label inputs credentialId assertion)

/-- `enroll_key` on the session and the devices. -/
def enrollKeyOn : Stateful (Session × Tokens D) SessionError Unit := do
  Stateful.zoom Prod.fst (fun s now => (now, s.2)) (ensureUnlocked call.started)
  let (s, _) ← Stateful.read
  let inputs ← Stateful.lift (readInputs P call s)
  let record ← Stateful.zoom Prod.snd (fun s now => (s.1, now))
    (newRecord P call registering asserting label inputs)
  Stateful.zoom Prod.fst (fun s now => (now, s.2)) do
    Stateful.zoom Session.vault (fun s v => { s with vault := v })
      (saveEnrollments P call.sql (inputs.enrollments ++ [record]))
    Stateful.modify (touch call.ended)

end EnrollOn

end Session

/-- What the devices answer, when they hold one thing at a registration and another at an
assertion. -/
def FidoInnerProvider.answers [DecidableEq D] (registering asserting : FidoCall D)
    (t t' : Tokens D) : InnerKeyProvider where
  provision := (provisionOnNewDevice registering [] t).1
  provisionExcluding existing := (provisionOnNewDevice registering existing t).1
  assertSecret id salt := (assertSecret asserting id salt t').1
  assertFirstAvailable ids salt := (assertFirstAvailable asserting ids salt t').1

namespace Session

open FidoInnerProvider

variable [DecidableEq D] {P : Primitives} {call : Call} {registering asserting : FidoCall D}
  {label : String} {s s' : Session} {t t' : Tokens D} {inputs : EnrollInputs}

theorem credentialId_of_wrapRecord {credentialId assertion : Bytes} {record : Enrollment}
    (h : wrapRecord P call label inputs credentialId assertion = .ok record) :
    record.credentialId = credentialId := by
  obtain ⟨_, _, hrecord⟩ := (Fallible.bind_eq_ok_iff _ _ _).mp h
  rw [← Except.ok.inj hrecord]

/-- The record is the one that `enroll_key` makes with what the devices answer. -/
theorem newRecord_outcome (P : Primitives) (call : Call) (registering asserting : FidoCall D)
    (label : String) (inputs : EnrollInputs) (t : Tokens D) :
    (newRecord P call registering asserting label inputs t).1 =
      let inner := answers registering asserting t
        (provisionOnNewDevice registering inputs.existingIds t).2
      registerCredential inner inputs >>= recordFor P ⟨call, inner, label⟩ inputs := by
  dsimp only [newRecord, registerCredential]
  simp only [Stateful.bind_apply, Stateful.mapError_apply]
  rcases hfirst : provisionOnNewDevice registering inputs.existingIds t with ⟨(_ | _) | id, t₁⟩
  · simp only [answers, hfirst]
    rfl
  · simp only [answers, hfirst]
    rfl
  simp only [answers, hfirst, Fallible.mapError_ok, Fallible.ok_bind]
  split
  · rfl
  simp only [Stateful.bind_apply, Stateful.mapError_apply, recordFor, wrapFor, pure_bind]
  rcases assertSecret asserting id inputs.hmacSalt t₁ with ⟨(_ | _) | secret, t₂⟩ <;> rfl

/-- **What `enroll_key` does to the session** is what it does with a provider that answers as the
devices do, at the registration and after it. -/
theorem enrollKeyOn_session (P : Primitives) (call : Call) (registering asserting : FidoCall D)
    (label : String) (s : Session) (t : Tokens D) :
    ∃ t', ((enrollKeyOn P call registering asserting label (s, t)).1,
        (enrollKeyOn P call registering asserting label (s, t)).2.1) =
      enrollKey P call (answers registering asserting t t') label s := by
  simp only [enrollKeyOn, enrollKey, Stateful.bind_apply, Stateful.zoom_apply]
  rcases ensureUnlocked call.started s with ⟨e | u, s₁⟩
  · exact ⟨t, rfl⟩
  simp only [Stateful.read_apply, Stateful.lift_apply]
  cases hinputs : readInputs P call s₁ with
  | error e =>
      refine ⟨t, ?_⟩
      rw [enroll_eq_stages P ⟨call, answers registering asserting t t, label⟩ s₁, hinputs]
      rfl
  | ok inputs =>
      refine ⟨(provisionOnNewDevice registering inputs.existingIds t).2, ?_⟩
      rw [enroll_eq_stages P ⟨call, answers registering asserting t _, label⟩ s₁, hinputs]
      have hrecord := newRecord_outcome P call registering asserting label inputs t
      simp only [Fallible.ok_bind, ← bind_assoc]
      dsimp only at hrecord
      rw [← hrecord]
      rcases newRecord P call registering asserting label inputs t with ⟨e | record, t₂⟩
      · rfl
      · rfl

/-- What one enrollment asks the devices for: nothing, a registration, or a registration and then
an assertion of the new credential on the device that registered it. -/
inductive AsksOne (holds : D → Bytes → Bool) : List (D × FidoRequest) → Prop
  | nothing : AsksOne holds []
  | registration (d : D) : AsksOne holds [(d, .makeCredential)]
  | both (d : D) (id : Bytes) (hholds : holds d id) :
      AsksOne holds [(d, .makeCredential), (d, .getAssertion [id])]

/-- **The hand-over**: with the same devices connected, the device that registers a credential is
opened when the credential is to be asserted. -/
theorem openEnrolled_of_provision {existing : List Bytes} {id : Bytes}
    (hasserting : asserting.Probes) (hsame : registering.devices.Perm asserting.devices)
    (hprovision : provisionOnNewDevice registering existing t = (.ok id, t'))
    (hregistering : registering.Probes) (hunique : t'.Unique) :
    ∃ d, openUnenrolled registering t existing = .ok d ∧ t'.holds d id ∧
      t'.asked = t.asked ++ [(d, .makeCredential)] ∧ openEnrolled asserting t' [id] = .ok d := by
  rcases provisionOnNewDevice_asks registering existing t with
    ⟨⟨e, he⟩, _⟩ | ⟨d, hopen, hasked, hok⟩
  · rw [hprovision] at he
    cases he
  · rw [hprovision] at hasked hok
    have hregistered : t' = (t.ask d .makeCredential).register d id := hok id rfl
    have hholds : t'.holds d id := by simp [hregistered, Tokens.register]
    have hreadable : d ∈ asserting.readable :=
      ((hsame.filter _).map _).mem_iff.mp (openUnenrolled_eq_ok hregistering hopen).1
    exact ⟨d, hopen, hholds, hasked, openEnrolled_of_unique hasserting hunique hreadable hholds⟩

/-- The devices are asked in the two hardware steps only, and a call that succeeds goes through
both. -/
theorem enrollKeyOn_devices (P : Primitives) (call : Call) (registering asserting : FidoCall D)
    (label : String) (s : Session) (t : Tokens D) :
    ((∃ e, (enrollKeyOn P call registering asserting label (s, t)).1 = .error e) ∧
      (enrollKeyOn P call registering asserting label (s, t)).2.2 = t) ∨
    ∃ inputs, (enrollKeyOn P call registering asserting label (s, t)).2.2 =
        (newRecord P call registering asserting label inputs t).2 ∧
      ((enrollKeyOn P call registering asserting label (s, t)).1 = .ok () →
        ∃ record, (newRecord P call registering asserting label inputs t).1 = .ok record) := by
  simp only [enrollKeyOn, Stateful.bind_apply, Stateful.zoom_apply]
  rcases ensureUnlocked call.started s with ⟨e | u, s₁⟩
  · exact .inl ⟨⟨e, rfl⟩, rfl⟩
  simp only [Stateful.read_apply, Stateful.lift_apply]
  cases readInputs P call s₁ with
  | error e => exact .inl ⟨⟨e, rfl⟩, rfl⟩
  | ok inputs =>
      refine .inr ⟨inputs, ?_⟩
      dsimp only
      rcases newRecord P call registering asserting label inputs t with ⟨e | record, t₂⟩
      · exact ⟨rfl, fun h => by cases h⟩
      · exact ⟨rfl, fun _ => ⟨record, rfl⟩⟩

/-- A call succeeds when the record is made and the list can be saved. -/
theorem enrollKeyOn_of_record {record : Enrollment} (hlive : s.Live call.started)
    (hread : readInputs P call s = .ok inputs)
    (hrecord : newRecord P call registering asserting label inputs t = (.ok record, t'))
    (hfault : call.sql.fault (.setMeta metaEnrollments) = none) :
    enrollKeyOn P call registering asserting label (s, t) =
      (.ok (), s.enrolled P call (inputs.enrollments ++ [record]), t') := by
  simp only [enrollKeyOn, Stateful.bind_apply, Stateful.zoom_apply, ensureUnlocked_of_live hlive,
    Stateful.read_apply, Stateful.lift_apply, hread, hrecord, saveEnrollments_eq_ok hfault]
  rfl

/-- The hardware steps end with the registration, or go on to the assertion, and a record names
the credential that was asserted. -/
theorem newRecord_cases {outcome : Fallible SessionError Enrollment}
    (hrun : newRecord P call registering asserting label inputs t = (outcome, t')) :
    (t' = (provisionOnNewDevice registering inputs.existingIds t).2 ∧ ∃ e, outcome = .error e) ∨
    ∃ id t₁, provisionOnNewDevice registering inputs.existingIds t = (.ok id, t₁) ∧
      t' = (assertSecret asserting id inputs.hmacSalt t₁).2 ∧
      ∀ record, outcome = .ok record → record.credentialId = id ∧
        ∃ secret, (assertSecret asserting id inputs.hmacSalt t₁).1 = .ok secret := by
  simp only [newRecord, Stateful.bind_apply, Stateful.mapError_apply] at hrun
  rcases hprovision : provisionOnNewDevice registering inputs.existingIds t with
    ⟨(_ | _) | id, t₁⟩ <;> simp only [hprovision] at hrun
  · cases hrun
    exact .inl ⟨rfl, _, rfl⟩
  · cases hrun
    exact .inl ⟨rfl, _, rfl⟩
  simp only [Fallible.mapError_ok] at hrun
  split at hrun
  · cases hrun
    exact .inl ⟨rfl, _, rfl⟩
  refine .inr ⟨id, t₁, rfl, ?_⟩
  simp only [Stateful.bind_apply, Stateful.mapError_apply] at hrun
  rcases hassert : assertSecret asserting id inputs.hmacSalt t₁ with
    ⟨(_ | _) | secret, t₂⟩ <;> simp only [hassert] at hrun
  · cases hrun
    exact ⟨rfl, fun _ h => by cases h⟩
  · cases hrun
    exact ⟨rfl, fun _ h => by cases h⟩
  · cases hrun
    exact ⟨rfl, fun record h => ⟨credentialId_of_wrapRecord h, secret, rfl⟩⟩

section Asks

variable (hregistering : registering.Probes) (hasserting : asserting.Probes)
  (hsame : registering.devices.Perm asserting.devices)

include hregistering hasserting hsame

theorem newRecord_asks {outcome : Fallible SessionError Enrollment}
    (hrun : newRecord P call registering asserting label inputs t = (outcome, t'))
    (hunique : t'.Unique) :
    (∃ new, t'.asked = t.asked ++ new ∧ AsksOne t'.holds new) ∧
      ∀ record, outcome = .ok record → ∃ d, t'.holds d record.credentialId ∧
        t'.asked = t.asked ++ [(d, .makeCredential), (d, .getAssertion [record.credentialId])] := by
  rcases newRecord_cases hrun with ⟨rfl, e, rfl⟩ | ⟨id, t₁, hprovision, ht', hrecord⟩
  · refine ⟨?_, fun _ h => by cases h⟩
    rcases provisionOnNewDevice_asks registering inputs.existingIds t with
      ⟨_, hkept⟩ | ⟨d, _, hasked, _⟩
    · exact ⟨[], by simp [hkept], .nothing⟩
    · exact ⟨_, hasked, .registration d⟩
  -- Asserting changes nothing that a device holds, so the ids are unique when it begins.
  have hbefore : t₁.Unique → ∃ d, t₁.holds d id ∧ t₁.asked = t.asked ++ [(d, .makeCredential)] ∧
      openEnrolled asserting t₁ [id] = .ok d := by
    intro hunique
    obtain ⟨d, _, h⟩ :=
      openEnrolled_of_provision hasserting hsame hprovision hregistering hunique
    exact ⟨d, h⟩
  rcases assertSecret_asks asserting id inputs.hmacSalt t₁ with
    ⟨⟨e, herror⟩, hkept⟩ | ⟨d', hopen', hasked'⟩
  · obtain rfl : t' = t₁ := ht'.trans hkept
    obtain ⟨d, _, hasked, _⟩ := hbefore hunique
    refine ⟨⟨_, hasked, .registration d⟩, fun record h => ?_⟩
    obtain ⟨_, secret, hsecret⟩ := hrecord record h
    cases herror.symm.trans hsecret
  · obtain rfl : t' = t₁.ask d' (.getAssertion [id]) := ht'.trans hasked'
    obtain ⟨d, hholds, hasked, hopen⟩ := hbefore hunique
    obtain rfl : d = d' := Except.ok.inj (hopen.symm.trans hopen')
    have hboth : (t₁.ask d (.getAssertion [id])).asked =
        t.asked ++ [(d, .makeCredential), (d, .getAssertion [id])] := by
      simp [Tokens.ask, hasked]
    refine ⟨⟨_, hboth, .both d id hholds⟩, fun record h => ?_⟩
    obtain ⟨rfl, _⟩ := hrecord record h
    exact ⟨d, hholds, hboth⟩

/-- **What an enrollment asks for**, over the whole call. -/
theorem enrollKeyOn_asks {outcome : Fallible SessionError Unit}
    (hrun : enrollKeyOn P call registering asserting label (s, t) = (outcome, s', t'))
    (hunique : t'.Unique) :
    (∃ new, t'.asked = t.asked ++ new ∧ AsksOne t'.holds new) ∧
      (outcome = .ok () → ∃ d id, t'.holds d id ∧
        t'.asked = t.asked ++ [(d, .makeCredential), (d, .getAssertion [id])]) := by
  have hdevices := enrollKeyOn_devices P call registering asserting label s t
  rw [hrun] at hdevices
  rcases hdevices with ⟨⟨e, he⟩, ht⟩ | ⟨inputs, ht, hok⟩
  · obtain rfl : t' = t := ht
    exact ⟨⟨[], by simp, .nothing⟩, fun h => by cases h.symm.trans he⟩
  · have hmade : newRecord P call registering asserting label inputs t =
        ((newRecord P call registering asserting label inputs t).1, t') := Prod.ext rfl ht.symm
    obtain ⟨hasks, hrecord⟩ := newRecord_asks hregistering hasserting hsame hmade hunique
    refine ⟨hasks, fun h => ?_⟩
    obtain ⟨record, hrecorded⟩ := hok h
    obtain ⟨d, hholds, hasked⟩ := hrecord record hrecorded
    exact ⟨d, record.credentialId, hholds, hasked⟩

end Asks

end Session

namespace FidoInnerProvider

/-- **Authenticators are chosen deliberately.** A device that is opened for a registration holds
none of the enrolled credentials and every other readable device holds one; if a readable device
holds an enrolled credential, one that does is opened for an unlock; and with the same devices
connected, the credential that `enroll_key` registers is asserted on the device that registered
it, on no other, and this device is found. -/
theorem authenticators_are_chosen [DecidableEq D] (P : Primitives) :
    (∀ (call : FidoCall D) t existing d, call.Probes → openUnenrolled call t existing = .ok d →
      d ∈ call.readable ∧ (∀ id ∈ existing, ¬ t.holds d id) ∧
        ∀ d' ∈ call.readable, d' ≠ d → ∃ id ∈ existing, t.holds d' id) ∧
    (∀ (call : FidoCall D) t ids, call.Probes →
      (∃ d ∈ call.readable, ∃ id ∈ ids, t.holds d id) →
        ∃ d, openEnrolled call t ids = .ok d ∧ d ∈ call.readable ∧ ∃ id ∈ ids, t.holds d id) ∧
    ∀ (registering asserting : FidoCall D), registering.Probes → asserting.Probes →
      registering.devices.Perm asserting.devices →
        (∀ existing t id t', provisionOnNewDevice registering existing t = (.ok id, t') →
          t'.Unique → ∃ d, openUnenrolled registering t existing = .ok d ∧ t'.holds d id ∧
            t'.asked = t.asked ++ [(d, .makeCredential)] ∧
            openEnrolled asserting t' [id] = .ok d) ∧
        ∀ call label s t outcome s' t',
          Session.enrollKeyOn P call registering asserting label (s, t) = (outcome, s', t') →
          t'.Unique → (∃ new, t'.asked = t.asked ++ new ∧ Session.AsksOne t'.holds new) ∧
            (outcome = .ok () → ∃ d id, t'.holds d id ∧
              t'.asked = t.asked ++ [(d, .makeCredential), (d, .getAssertion [id])]) := by
  refine ⟨fun call t existing d h hopen => openUnenrolled_eq_ok h hopen,
    fun call t ids h hheld => openEnrolled_of_exists h hheld, ?_⟩
  intro registering asserting hregistering hasserting hsame
  constructor
  · intro existing t id t' hprovision hunique
    exact Session.openEnrolled_of_provision hasserting hsame hprovision hregistering hunique
  · intro call label s t outcome s' t' hrun hunique
    exact Session.enrollKeyOn_asks hregistering hasserting hsame hrun hunique

private def newSecret : Bytes := List.replicate 32 7

/-- The enrolled key and a new one, side by side. -/
private def twoKeys : FidoCall Bool where
  devices := [⟨false, true⟩, ⟨true, true⟩]
  pinPrompt := some (.ok "1234")
  preflight _ held ids := if ids.any held then .ok () else .error "CTAP2_ERR_NO_CREDENTIALS"
  makeCredential _ _ := .ok ⟨[2], [.hmacSecret (some true)]⟩
  getAssertion _ ids _ _ := .ok (ids.map fun id => ⟨id, [.hmacSecret (some newSecret)]⟩)

/-- Only the first of them holds a credential. -/
private def oneEnrolled : Tokens Bool := ⟨fun d id => !d && id == [1], []⟩

private theorem twoKeys_probes : twoKeys.Probes := by
  intro d held ids _
  have hany : (twoKeys.preflight d held ids).isOk = ids.any held := by
    dsimp only [twoKeys]
    cases ids.any held <;> rfl
  rw [hany, List.any_eq_true]

private theorem unique_register :
    (((oneEnrolled.ask true .makeCredential).register true [2]).ask true
      (.getAssertion [[2]])).Unique := by
  intro d d' id h h'
  cases d <;> cases d' <;> simp_all [Tokens.ask, Tokens.register, oneEnrolled]

/-- The two hardware steps go to the new key. -/
private theorem exists_newRecord {inputs : EnrollInputs} (hexisting : inputs.existingIds = [[1]])
    (hsalt : inputs.hmacSalt.length = hmacLen) :
    ∃ record, Session.newRecord Primitives.reference (.atOnce 1) twoKeys twoKeys "spare" inputs
        oneEnrolled =
      (.ok record, ((oneEnrolled.ask true .makeCredential).register true [2]).ask true
        (.getAssertion [[2]])) := by
  have hprovision : provisionOnNewDevice twoKeys [[1]] oneEnrolled =
      (.ok [2], (oneEnrolled.ask true .makeCredential).register true [2]) := rfl
  have hsecret : assertSecret twoKeys [2] inputs.hmacSalt
      ((oneEnrolled.ask true .makeCredential).register true [2]) =
        (.ok newSecret, ((oneEnrolled.ask true .makeCredential).register true [2]).ask true
          (.getAssertion [[2]])) := by
    simp only [assertSecret, assertFirstAvailable, checkSalt, hsalt, if_true]
    rfl
  obtain ⟨record, hrecord⟩ : ∃ record, Session.wrapRecord Primitives.reference (.atOnce 1) "spare"
    inputs [2] newSecret = .ok record := ⟨_, rfl⟩
  refine ⟨record, ?_⟩
  simp [Session.newRecord, Stateful.bind_apply, Stateful.mapError_apply, hexisting, hprovision,
    hsecret, hrecord]

/-- A second key is enrolled while the first is plugged in. -/
theorem a_second_key_is_enrolled :
    ∃ s s' t', Session.enrollKeyOn Primitives.reference (.atOnce 1) twoKeys twoKeys "spare"
        (s, oneEnrolled) = (.ok (), s', t') ∧ t'.Unique ∧
      (∃ d id, t'.holds d id ∧
        t'.asked = [(d, .makeCredential), (d, .getAssertion [id])]) ∧
      (∃ d, openUnenrolled twoKeys oneEnrolled [[1]] = .ok d ∧ ¬ oneEnrolled.holds d [1]) ∧
      ∃ d, openEnrolled twoKeys oneEnrolled [[1]] = .ok d ∧ oneEnrolled.holds d [1] := by
  obtain ⟨hnew, henrolled, hrun⟩ := authenticators_are_chosen (D := Bool) Primitives.reference
  obtain ⟨keys, hid, _⟩ := Session.exists_initializeVault_working 0 0 (Nat.le_refl 0)
    (Block.replicate 16 0) (Block.replicate keyLen 1) [1] [1] 10
  have hstored : (KeyRing.ofNewKeys keys).StoredIn Primitives.reference
      (keys.vault Primitives.reference .empty) := .of_newKeys keys .empty
  have hread : readInputs Primitives.reference (.atOnce 1)
      (keys.session Primitives.reference (.atOnce 0) (Block.replicate keyLen 1) .empty 10) =
        .ok ⟨keys.innerKek, (KeyRing.ofNewKeys keys).hmacSalt, (KeyRing.ofNewKeys keys).kdfSalt,
          (KeyRing.ofNewKeys keys).enrollments⟩ :=
    Processes.readInputs_of_storedIn Primitives.reference_lawful hstored rfl fun _ => rfl
  have hexisting : EnrollInputs.existingIds
      ⟨keys.innerKek, keys.hmacSalt.bytes, keys.kdfSalt.bytes, [keys.primary]⟩ = [[1]] := by
    simp [EnrollInputs.existingIds, hid]
  obtain ⟨record, hrecord⟩ := exists_newRecord hexisting keys.hmacSalt.length_eq
  have henroll := Session.enrollKeyOn_of_record ⟨keys.innerKek, 10, rfl, rfl, by decide⟩ hread
    hrecord rfl
  obtain ⟨_, hasked⟩ := (hrun twoKeys twoKeys twoKeys_probes twoKeys_probes (.refl _)).2 _ _ _ _ _
    _ _ henroll unique_register
  refine ⟨_, _, _, henroll, unique_register, hasked rfl, ?_, ?_⟩
  · refine ⟨true, rfl, ?_⟩
    exact (hnew twoKeys oneEnrolled [[1]] true twoKeys_probes rfl).2.1 [1] (by simp)
  · obtain ⟨d, hopen, _, id, hmem, hholds⟩ := henrolled twoKeys oneEnrolled [[1]] twoKeys_probes
      ⟨false, by simp [FidoCall.readable, twoKeys], [1], by simp, rfl⟩
    obtain rfl := List.mem_singleton.mp hmem
    exact ⟨d, hopen, hholds⟩

end FidoInnerProvider

end Sypherstore
