/-
# Creating a vault

What `initialize` has done when it returns a session, and that it does return one
when nothing it uses fails.
-/

import Sypherstore.Core.SessionSteps

namespace Sypherstore

open Logic

/-- The meta table `initialize` leaves: five entries over the old ones. -/
def keyTable (P : Primitives) (kdfSalt hmacSalt : Bytes) (enrollments : List Enrollment)
    (verifyBlob : Bytes) (verifyId : Uuid) (table : Table String) :
    Table String :=
  ((((table.insert metaKdfSalt (Hex.encode kdfSalt)).insert metaHmacSalt
    (Hex.encode hmacSalt)).insert metaEnrollments
    (Hex.encode (P.cborWrite (.array (enrollments.map Enrollment.toCbor))))).insert
    metaVerifyBlob (Hex.encode verifyBlob)).insert metaVerifyId (P.uuidText verifyId)

/-- The vault `initialize` makes of an old one. -/
def NewKeys.vault (P : Primitives) (keys : NewKeys) (v : Vault) : Vault :=
  { v with
    metaTable := keyTable P keys.kdfSalt.bytes keys.hmacSalt.bytes [keys.primary]
      keys.verifyBlob keys.verifyId v.metaTable }

/-- The session `initialize` returns. -/
def NewKeys.session (P : Primitives) (call : Call) (keys : NewKeys) (outerKek : Key) (v : Vault)
    (timeout : ℕ) : Session where
  vault := keys.vault P v
  outerKek := outerKek
  innerKek := some keys.innerKek
  deadline := some (call.ended + timeout)
  timeout := timeout

namespace Session

variable {P : Primitives} {call : Call} {σ : Type}

/-- The five writes succeed exactly when the database refuses none of them. -/
theorem storeKeys_eq_ok_iff (sql : Sql) (kdfSalt hmacSalt verifyBlob : Bytes)
    (enrollments : List Enrollment) (verifyId : Uuid) (v v' : Vault) (u : Unit) :
    storeKeys P sql kdfSalt hmacSalt enrollments verifyBlob verifyId v = (.ok u, v') ↔
      (∀ key ∈ [metaKdfSalt, metaHmacSalt, metaEnrollments, metaVerifyBlob, metaVerifyId],
        sql.fault (.setMeta key) = none) ∧
      v' = { v with
        metaTable :=
          keyTable P kdfSalt hmacSalt enrollments verifyBlob verifyId v.metaTable } := by
  simp only [storeKeys, saveEnrollments, Vault.setMetaBytes, Stateful.bind_eq_ok_iff,
    Stateful.mapError_eq_ok_iff, Vault.setMeta_eq_ok_iff]
  constructor
  · rintro ⟨_, _, ⟨hkdf, rfl⟩, _, _, ⟨hhmac, rfl⟩, _, _, ⟨henroll, rfl⟩, _, _, ⟨hblob, rfl⟩,
      hid, rfl⟩
    exact ⟨by simp [hkdf, hhmac, henroll, hblob, hid], rfl⟩
  · rintro ⟨hfault, rfl⟩
    simp only [List.forall_mem_cons] at hfault
    obtain ⟨hkdf, hhmac, henroll, hblob, hid, _⟩ := hfault
    exact ⟨(), _, ⟨hkdf, rfl⟩, (), _, ⟨hhmac, rfl⟩, (), _, ⟨henroll, rfl⟩, (), _, ⟨hblob, rfl⟩,
      hid, rfl⟩

theorem draw_eq_ok_iff {α : Type} (value : Except RandomError α) (a : α) :
    Call.draw value = .ok a ↔ value = .ok a := by
  simp [Call.draw]

theorem newUuid_eq_ok_iff {ε : Type} (id : Uuid) :
    (call.newUuid : Fallible ε Uuid) = .ok id ↔ call.uuid = some id := by
  unfold Call.newUuid
  cases call.uuid <;> simp

theorem wrapKey_eq_ok_iff (draw : Except RandomError Nonce) (wrap innerKek : Key) (blob : Bytes) :
    wrapKey P draw wrap innerKek = .ok blob ↔
      ∃ nonce ct, draw = .ok nonce ∧ P.aead.enc wrap nonce wrapAad innerKek.bytes = some ct ∧
        blob = nonce.bytes ++ ct := by
  simp only [wrapKey, Fallible.bind_eq_ok_iff, drawNonce_eq_ok_iff, Fallible.ofOption_eq_ok_iff]
  constructor
  · rintro ⟨nonce, hdraw, ct, hct, hblob⟩
    cases hblob
    exact ⟨nonce, ct, hdraw, hct, rfl⟩
  · rintro ⟨nonce, ct, hdraw, hct, rfl⟩
    exact ⟨nonce, hdraw, ct, hct, rfl⟩

/-- A record made for an authenticator carries the inner key, wrapped under the
key derived from what the authenticator answered. -/
theorem wrapFor_eq_ok_iff (inner : InnerKeyProvider) (credentialId hmacSalt kdfSalt : Bytes)
    (innerKek : Key) (label : String) (record : Enrollment) :
    wrapFor P call inner credentialId hmacSalt kdfSalt innerKek label = .ok record ↔
      ∃ secret wrapBlob, inner.assertSecret credentialId hmacSalt = .ok secret ∧
        wrapKey P call.wrapNonce (deriveWrapKey P secret kdfSalt) innerKek = .ok wrapBlob ∧
        record = ⟨label, credentialId, wrapBlob⟩ := by
  simp only [wrapFor, Fallible.bind_eq_ok_iff, Fallible.mapError_eq_ok_iff]
  constructor
  · rintro ⟨secret, hsecret, wrapBlob, hwrap, hrecord⟩
    cases hrecord
    exact ⟨secret, wrapBlob, hsecret, hwrap, rfl⟩
  · rintro ⟨secret, wrapBlob, hsecret, hwrap, rfl⟩
    exact ⟨secret, hsecret, wrapBlob, hwrap, rfl⟩

theorem prepareKeys_eq_ok_iff (inner : InnerKeyProvider) (outerKek : Key) (keys : NewKeys) :
    prepareKeys P call inner outerKek = .ok keys ↔
      call.key = .ok keys.innerKek ∧ call.kdfSalt = .ok keys.kdfSalt ∧
      call.hmacSalt = .ok keys.hmacSalt ∧
      (∃ credentialId, inner.provision = .ok credentialId ∧
        wrapFor P call inner credentialId keys.hmacSalt.bytes keys.kdfSalt.bytes keys.innerKek
          "primary" = .ok keys.primary) ∧
      call.uuid = some keys.verifyId ∧
      sealVerification P call.verifyNonces keys.verifyId keys.innerKek outerKek =
        .ok keys.verifyBlob := by
  simp only [prepareKeys, Fallible.bind_eq_ok_iff, draw_eq_ok_iff, newUuid_eq_ok_iff,
    Fallible.mapError_eq_ok_iff]
  constructor
  · rintro ⟨innerKek, hkey, kdfSalt, hkdf, hmacSalt, hhmac, credentialId, hid, primary, hprimary,
      verifyId, huuid, verifyBlob, hverify, hkeys⟩
    cases hkeys
    exact ⟨hkey, hkdf, hhmac, ⟨credentialId, hid, hprimary⟩, huuid, hverify⟩
  · rintro ⟨hkey, hkdf, hhmac, ⟨credentialId, hid, hprimary⟩, huuid, hverify⟩
    exact ⟨_, hkey, _, hkdf, _, hhmac, credentialId, hid, _, hprimary, _, huuid, _, hverify, rfl⟩

/-- **What a successful `initialize` has done**, and the only way it succeeds. -/
theorem initializeVault_eq_ok_iff (outer : OuterKeyProvider σ) (inner : InnerKeyProvider)
    (timeout : ℕ) (v v' : Vault) (t t' : σ) (s : Session) :
    initializeVault P call outer inner timeout (v, t) = (.ok s, (v', t')) ↔
      v.getMeta call.sql metaKdfSalt = .ok none ∧
      (∀ key ∈ [metaKdfSalt, metaHmacSalt, metaEnrollments, metaVerifyBlob, metaVerifyId],
        call.sql.fault (.setMeta key) = none) ∧
      ∃ outerKek keys, outer.provision t = (.ok outerKek, t') ∧
        prepareKeys P call inner outerKek = .ok keys ∧
        v' = keys.vault P v ∧ s = keys.session P call outerKek v timeout := by
  simp only [initializeVault, Stateful.bind_eq_ok_iff, Stateful.read_eq_ok_iff,
    Stateful.lift_eq_ok_iff, Fallible.mapError_eq_ok_iff]
  constructor
  · rintro ⟨_, _, ⟨rfl, rfl⟩, existing, _, ⟨hexisting, rfl⟩, h⟩
    cases existing with
    | some value => simp at h
    | none =>
        simp only [Option.isSome_none, Bool.false_eq_true, if_false, Stateful.bind_eq_ok_iff,
          Stateful.zoom_eq_ok_iff, Stateful.mapError_eq_ok_iff, Stateful.lift_eq_ok_iff,
          Stateful.read_eq_ok_iff, storeKeys_eq_ok_iff] at h
        obtain ⟨outerKek, _, ⟨t'', hprovision, rfl⟩, keys, _, ⟨hkeys, rfl⟩, _, _,
          ⟨_, ⟨hfault, rfl⟩, rfl⟩, _, _, ⟨rfl, rfl⟩, hreturn⟩ := h
        cases hreturn
        exact ⟨hexisting, hfault, outerKek, keys, hprovision, hkeys, rfl, rfl⟩
  · rintro ⟨hexisting, hfault, outerKek, keys, hprovision, hkeys, rfl, rfl⟩
    refine ⟨_, _, ⟨rfl, rfl⟩, none, _, ⟨hexisting, rfl⟩, ?_⟩
    simp only [Option.isSome_none, Bool.false_eq_true, if_false, Stateful.bind_eq_ok_iff,
      Stateful.zoom_eq_ok_iff, Stateful.mapError_eq_ok_iff, Stateful.lift_eq_ok_iff,
      Stateful.read_eq_ok_iff, storeKeys_eq_ok_iff]
    exact ⟨outerKek, _, ⟨t', hprovision, rfl⟩, keys, _, ⟨hkeys, rfl⟩, (), _,
      ⟨_, ⟨hfault, rfl⟩, rfl⟩, _, _, ⟨rfl, rfl⟩, rfl⟩

/-- **What opening takes**: the salt is there and the outer key can be unsealed. -/
theorem openLocked_eq_ok_iff (v : Vault) (unsealed : Fallible ProviderError Key) (timeout : ℕ)
    (s : Session) :
    openLocked call v unsealed timeout = .ok s ↔
      call.sql.fault (.getMeta metaKdfSalt) = none ∧ metaKdfSalt ∈ v.metaTable ∧
      ∃ outerKek, unsealed = .ok outerKek ∧ s = ⟨v, outerKek, none, none, timeout⟩ := by
  simp only [openLocked, Vault.getMeta, Fallible.bind_eq_ok_iff, Fallible.mapError_eq_ok_iff,
    Sql.attempt_eq_ok_iff]
  rw [← Std.ExtTreeMap.isSome_getElem?_iff_mem]
  constructor
  · rintro ⟨_, ⟨hfault, rfl⟩, h⟩
    cases hlookup : v.metaTable[metaKdfSalt]? with
    | none => simp [hlookup, Fallible.raise] at h
    | some salt =>
        simp only [hlookup, Option.isNone_some, Bool.false_eq_true, if_false,
          Fallible.bind_eq_ok_iff, Fallible.mapError_eq_ok_iff] at h
        obtain ⟨outerKek, hunsealed, hs⟩ := h
        cases hs
        exact ⟨hfault, rfl, outerKek, hunsealed, rfl⟩
  · rintro ⟨hfault, hsalt, outerKek, hunsealed, rfl⟩
    obtain ⟨salt, hlookup⟩ := Option.isSome_iff_exists.mp hsalt
    refine ⟨_, ⟨hfault, rfl⟩, ?_⟩
    simp only [hlookup, Option.isNone_some, Bool.false_eq_true, if_false, Fallible.bind_eq_ok_iff,
      Fallible.mapError_eq_ok_iff]
    exact ⟨outerKek, hunsealed, rfl⟩

end Session

/-! ## Hardware and calls that work -/

/-- A call in which every draw and every statement succeeds. -/
def Call.working (started ended : Instant) (hle : started ≤ ended) (uuid : Uuid) : Call where
  started := started
  ended := ended
  started_le_ended := hle
  sql := .reliable
  uuid := some uuid
  metaNonces := ⟨.ok (Block.replicate 24 1), .ok (Block.replicate 24 2)⟩
  payloadNonces := ⟨.ok (Block.replicate 24 3), .ok (Block.replicate 24 4)⟩
  verifyNonces := ⟨.ok (Block.replicate 24 5), .ok (Block.replicate 24 6)⟩
  wrapNonce := .ok (Block.replicate 24 7)
  key := .ok (Block.replicate keyLen 8)
  kdfSalt := .ok (Block.replicate saltLen 9)
  hmacSalt := .ok (Block.replicate saltLen 10)

/-- A call in which everything works at once. -/
def Call.atOnce (now : Instant) : Call :=
  .working now now (Nat.le_refl now) (Block.replicate 16 0)

/-- A token that holds one credential. -/
def InnerKeyProvider.token (id secret : Bytes) : InnerKeyProvider :=
  .withDefaults (.ok id) fun id' _ =>
    if id' = id then .ok secret else Fallible.raise (.device "no such credential")

/-- A machine whose sealed key is the state, and which seals `fresh` when asked
to generate one. -/
def OuterKeyProvider.machine (fresh : Key) : OuterKeyProvider (Option Key) where
  provision sealed :=
    match sealed with
    | some _ => (Fallible.raise (.device "this vault already has TPM-sealed key material"), sealed)
    | none => (.ok fresh, some fresh)
  provisionWith key := Stateful.modify fun _ => some key
  unsealKey := Fallible.ofOption .notProvisioned
  isProvisioned := Option.isSome

namespace Session

theorem exists_sealBytes_reference (n1 n2 : Nonce) (id : Uuid) (innerKek outerKek : Key)
    (plaintext : Bytes) :
    ∃ blob, sealBytes Primitives.reference ⟨.ok n1, .ok n2⟩ id innerKek outerKek plaintext =
      .ok blob :=
  ⟨_, rfl⟩

theorem exists_wrapFor_working (started ended : Instant) (hle : started ≤ ended) (uuid : Uuid)
    (id secret hmacSalt kdfSalt : Bytes) (innerKek : Key) (label : String) :
    ∃ wrapBlob, wrapFor Primitives.reference (.working started ended hle uuid) (.token id secret)
      id hmacSalt kdfSalt innerKek label = .ok ⟨label, id, wrapBlob⟩ := by
  refine ⟨_, (wrapFor_eq_ok_iff ..).mpr ⟨secret, _, ?_, rfl, rfl⟩⟩
  exact if_pos rfl

/-- On a machine where everything works, `initialize` returns a session. -/
theorem exists_initializeVault_working (started ended : Instant) (hle : started ≤ ended)
    (uuid : Uuid) (fresh : Key) (id secret : Bytes) (timeout : ℕ) :
    ∃ keys : NewKeys, keys.primary.credentialId = id ∧
      prepareKeys Primitives.reference (.working started ended hle uuid) (.token id secret) fresh =
        .ok keys ∧
      initializeVault Primitives.reference (.working started ended hle uuid) (.machine fresh)
        (.token id secret) timeout (.empty, none) =
      (.ok (keys.session Primitives.reference (.working started ended hle uuid) fresh .empty
          timeout),
        (keys.vault Primitives.reference .empty, some fresh)) := by
  obtain ⟨wrapBlob, hwrap⟩ := exists_wrapFor_working started ended hle uuid id secret
    (Block.replicate saltLen 10).bytes (Block.replicate saltLen 9).bytes (Block.replicate keyLen 8)
    "primary"
  obtain ⟨verifyBlob, hverify⟩ := exists_sealBytes_reference (Block.replicate 24 5)
    (Block.replicate 24 6) uuid (Block.replicate keyLen 8) fresh verificationPlaintext
  have hprepare : prepareKeys Primitives.reference (.working started ended hle uuid)
      (.token id secret) fresh = .ok ⟨Block.replicate keyLen 8, Block.replicate saltLen 9,
        Block.replicate saltLen 10, ⟨"primary", id, wrapBlob⟩, uuid, verifyBlob⟩ :=
    (prepareKeys_eq_ok_iff ..).mpr ⟨rfl, rfl, rfl, ⟨id, rfl, hwrap⟩, rfl, hverify⟩
  refine ⟨_, rfl, hprepare, ?_⟩
  exact (initializeVault_eq_ok_iff ..).mpr
    ⟨rfl, fun _ _ => rfl, fresh, _, rfl, hprepare, rfl, rfl⟩

end Session

end Sypherstore
