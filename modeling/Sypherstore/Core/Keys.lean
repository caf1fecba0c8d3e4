/-
# Key hierarchy and the two hardware layers

The root keys, the subkeys derived from them, and the interfaces behind which
the TPM and the authenticator sit (`crypto/keys.rs`).

The cryptographic libraries are not part of the repository. They enter as one
record of functions, `Primitives`, and nothing is assumed of them here; a
theorem that relies on one of their documented properties says so.
-/

import Sypherstore.Logic.Aead
import Sypherstore.Logic.Cbor

namespace Sypherstore

open Logic

/-- Length of every symmetric key in the system. -/
abbrev keyLen : ℕ := 32

/-- Length of the per-vault salts. -/
abbrev saltLen : ℕ := 32

/-- A symmetric key. `Key::take_from` and `Key::from_slice` refuse any other
length, so the length is part of the type. -/
abbrev Key : Type := Block keyLen

abbrev Uuid : Type := Block 16

/-- An extended ChaCha20 nonce. -/
abbrev Nonce : Type := Block 24

/-- The functions the repository takes from other packages. -/
structure Primitives where
  /-- `XChaCha20Poly1305`. -/
  aead : Aead Key Nonce
  /-- HKDF-Expand from a 32-byte pseudorandom key to 32 bytes, which cannot fail
  at these lengths. -/
  hkdfExpand : (prk : Key) → (info : Bytes) → Key
  /-- HKDF-Extract and -Expand to 32 bytes. -/
  hkdf : (salt ikm info : Bytes) → Key
  /-- `ciborium::into_writer`. -/
  cborWrite : Cbor → Bytes
  /-- `ciborium::from_reader`. -/
  cborRead : Bytes → Option Cbor
  /-- The text of the error `from_reader` gives when these bytes are not the
  named record. -/
  cborError : (record : String) → Bytes → String
  /-- `Uuid::to_string`. -/
  uuidText : Uuid → String
  /-- `Uuid::parse_str`. -/
  uuidParse : String → Option Uuid
  /-- `str::to_lowercase`. -/
  lowercase : String → String

/-- A failure of the operating system's random source. -/
structure RandomError where
  code : ℕ
  deriving DecidableEq, Repr

inductive KeyError where
  /-- "key must be 32 bytes, got {n}" -/
  | badKeyLength (got : ℕ)
  /-- "failed to gather randomness" -/
  | random (e : RandomError)
  deriving DecidableEq, Repr

/-- HKDF info for turning a FIDO2 hmac-secret output into a wrap key. -/
def infoInnerKek : Bytes := ascii "sypherstore/v1/inner-kek"

/-- HKDF info prefix for a secret's inner subkey. -/
def infoSecretInner : Bytes := ascii "sypherstore/v1/secret-inner/"

/-- HKDF info prefix for a secret's outer subkey. -/
def infoSecretOuter : Bytes := ascii "sypherstore/v1/secret-outer/"

/-- `Key::take_from`. -/
def Key.takeFrom (bytes : Bytes) : Fallible KeyError Key :=
  if h : bytes.length = keyLen then .ok ⟨bytes, h⟩
  else .error (.error (.badKeyLength bytes.length))

@[simp] theorem Key.takeFrom_bytes (key : Key) : Key.takeFrom key.bytes = .ok key := by
  simp [Key.takeFrom]

theorem Key.takeFrom_eq_ok_iff (bytes : Bytes) (key : Key) :
    Key.takeFrom bytes = .ok key ↔ bytes = key.bytes := by
  constructor
  · intro h
    by_cases hlen : bytes.length = keyLen
    · simp only [Key.takeFrom, hlen, dite_true] at h
      cases h
      rfl
    · simp [Key.takeFrom, hlen] at h
  · rintro rfl
    exact Key.takeFrom_bytes key

section Derivation

variable (P : Primitives)

/-- Derives an authenticator's wrap key from a raw hmac-secret output. -/
def deriveWrapKey (hmacSecret vaultSalt : Bytes) : Key :=
  P.hkdf vaultSalt hmacSecret infoInnerKek

/-- Expand-only HKDF under a prefix and a secret's UUID. -/
def deriveSubkey (kek : Key) (infoPrefix : Bytes) (id : Uuid) : Key :=
  P.hkdfExpand kek (infoPrefix ++ id.bytes)

/-- A secret's inner subkey. -/
def deriveSecretInnerKey (innerKek : Key) (id : Uuid) : Key :=
  deriveSubkey P innerKek infoSecretInner id

/-- A secret's outer subkey. -/
def deriveSecretOuterKey (outerKek : Key) (id : Uuid) : Key :=
  deriveSubkey P outerKek infoSecretOuter id

end Derivation

inductive ProviderError where
  /-- "No device found: {detail}" -/
  | noDevice (detail : String)
  /-- "The vault is not provisioned on this machine" -/
  | notProvisioned
  /-- "The operation timed out waiting for the user" -/
  | timeout
  /-- "The user cancelled the operation" -/
  | cancelled
  /-- "Device error: {detail}" -/
  | device (detail : String)
  /-- "Stored key material is corrupt: {detail}" -/
  | corrupt (detail : String)
  | key (e : KeyError)
  | io (detail : String)
  deriving DecidableEq, Repr

/-- The machine-bound outer layer, over whatever state `σ` the implementation
keeps: sealed files, a TPM. -/
structure OuterKeyProvider (σ : Type) where
  /-- Generates and seals a new outer key, returning it. -/
  provision : Stateful σ ProviderError Key
  /-- Seals a caller-supplied key instead of generating one. -/
  provisionWith : Key → Stateful σ ProviderError Unit
  /-- Recovers the previously sealed outer key. -/
  unsealKey : σ → Fallible ProviderError Key
  /-- Whether this vault has already been provisioned on this machine. -/
  isProvisioned : σ → Bool

/-- The presence-bound inner layer. A provider is what one authenticator, or one
set of connected authenticators, answers during one call of the session. -/
structure InnerKeyProvider where
  /-- Registers a credential and returns its opaque handle. -/
  provision : Fallible ProviderError Bytes
  /-- Registers a credential on an authenticator that holds none of the given
  ones. -/
  provisionExcluding : List Bytes → Fallible ProviderError Bytes
  /-- The hmac-secret output of a credential for a salt. -/
  assertSecret : (credentialId salt : Bytes) → Fallible ProviderError Bytes
  /-- Asserts against whichever of the credentials is present. -/
  assertFirstAvailable :
    (credentialIds : List Bytes) → (salt : Bytes) → Fallible ProviderError (Bytes × Bytes)

namespace InnerKeyProvider

/-- The loop of the default `assert_first_available`: try the ids in order,
remembering the last error. -/
def tryInOrder (assertSecret : Bytes → Bytes → Fallible ProviderError Bytes) (salt : Bytes) :
    List Bytes → Option ProviderError → Fallible ProviderError (Bytes × Bytes)
  | [], lastErr => Fallible.raise (lastErr.getD (.noDevice "no credential ids to try"))
  | id :: rest, _ =>
      match assertSecret id salt with
      | .ok secret => .ok (id, secret)
      | .error (.error e) => tryInOrder assertSecret salt rest (some e)
      | .error .panic => .error .panic

/-- A provider that overrides neither default method. -/
def withDefaults (provision : Fallible ProviderError Bytes)
    (assertSecret : Bytes → Bytes → Fallible ProviderError Bytes) : InnerKeyProvider where
  provision := provision
  provisionExcluding _ := provision
  assertSecret := assertSecret
  assertFirstAvailable credentialIds salt := tryInOrder assertSecret salt credentialIds none

/-- The default method answers with a listed credential and with what
`assert_secret` gives for it. -/
theorem tryInOrder_eq_ok {assertSecret : Bytes → Bytes → Fallible ProviderError Bytes}
    {salt : Bytes} {ids : List Bytes} {lastErr : Option ProviderError} {id secret : Bytes}
    (h : tryInOrder assertSecret salt ids lastErr = .ok (id, secret)) :
    id ∈ ids ∧ assertSecret id salt = .ok secret := by
  induction ids generalizing lastErr with
  | nil => simp [tryInOrder, Fallible.raise] at h
  | cons head rest ih =>
      rw [tryInOrder] at h
      split at h
      · rename_i found hfound
        obtain ⟨rfl, rfl⟩ : head = id ∧ found = secret := by simpa using h
        exact ⟨List.mem_cons_self, hfound⟩
      · exact ⟨List.mem_cons_of_mem _ (ih h).1, (ih h).2⟩
      · cases h

/-- The default method answers as soon as one listed credential does, if no
attempt panics. -/
theorem exists_tryInOrder_eq_ok
    {assertSecret : Bytes → Bytes → Fallible ProviderError Bytes} {salt : Bytes}
    (hpanic : ∀ id, assertSecret id salt ≠ .error .panic) {ids : List Bytes} {id secret : Bytes}
    (hid : id ∈ ids) (hsecret : assertSecret id salt = .ok secret)
    (lastErr : Option ProviderError) :
    ∃ answer, tryInOrder assertSecret salt ids lastErr = .ok answer := by
  induction ids generalizing lastErr with
  | nil => simp at hid
  | cons head rest ih =>
      rw [tryInOrder]
      rcases hhead : assertSecret head salt with fault | found
      · cases fault with
        | error e =>
            rcases List.mem_cons.mp hid with rfl | hid
            · rw [hhead] at hsecret
              cases hsecret
            · exact ih hid (some e)
        | panic => exact absurd hhead (hpanic head)
      · exact ⟨(head, found), rfl⟩

end InnerKeyProvider

end Sypherstore
