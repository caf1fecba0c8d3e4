/-
# The vault's keys at rest

What the `meta` table holds once a vault has been created, and what unlocking and
enrolling make of it. Both read the same five entries, so both are stated here
over the decoded data instead of over tables, hex and CBOR.
-/

import Sypherstore.Core.Creation
import Sypherstore.Core.Laws

namespace Sypherstore

open Logic

/-- The decoded contents of the five key entries. -/
structure KeyRing where
  kdfSalt : Bytes
  hmacSalt : Bytes
  enrollments : List Enrollment
  verifyBlob : Bytes
  verifyId : Uuid
  deriving DecidableEq

namespace KeyRing

/-- The credential ids offered to an authenticator. -/
def credentialIds (ring : KeyRing) : List Bytes := ring.enrollments.map Enrollment.credentialId

/-- The `meta` table holds these keys. -/
structure StoredIn (P : Primitives) (ring : KeyRing) (v : Vault) : Prop where
  kdfSalt : v.metaTable[metaKdfSalt]? = some (Hex.encode ring.kdfSalt)
  hmacSalt : v.metaTable[metaHmacSalt]? = some (Hex.encode ring.hmacSalt)
  enrollments : v.metaTable[metaEnrollments]? =
    some (Hex.encode (P.cborWrite (.array (ring.enrollments.map Enrollment.toCbor))))
  verifyBlob : v.metaTable[metaVerifyBlob]? = some (Hex.encode ring.verifyBlob)
  verifyId : v.metaTable[metaVerifyId]? = some (P.uuidText ring.verifyId)

variable {P : Primitives} {call : Call}

/-- The keys `initialize` stores. -/
def ofNewKeys (keys : NewKeys) : KeyRing where
  kdfSalt := keys.kdfSalt.bytes
  hmacSalt := keys.hmacSalt.bytes
  enrollments := [keys.primary]
  verifyBlob := keys.verifyBlob
  verifyId := keys.verifyId

theorem StoredIn.of_newKeys (keys : NewKeys) (v : Vault) :
    (ofNewKeys keys).StoredIn P (keys.vault P v) := by
  -- The lookups stay optional: only these see through the insertions before them.
  constructor <;>
    simp [-getElem?_pos, NewKeys.vault, keyTable, ofNewKeys, Table.getElem?_insert, metaKdfSalt,
      metaHmacSalt, metaEnrollments, metaVerifyBlob, metaVerifyId]

/-- The keys are in the `meta` table and nowhere else. -/
theorem StoredIn.congr {ring : KeyRing} {v v' : Vault} (h : ring.StoredIn P v)
    (hmeta : v'.metaTable = v.metaTable) : ring.StoredIn P v' := by
  obtain ⟨hkdf, hhmac, henrollments, hblob, hid⟩ := h
  constructor <;> rwa [hmeta]

/-- Saving a list of enrollments replaces that entry only. -/
theorem StoredIn.enrolled {ring : KeyRing} {s : Session} (h : ring.StoredIn P s.vault)
    (enrollments : List Enrollment) :
    StoredIn P { ring with enrollments } (s.enrolled P call enrollments).vault := by
  have hvault : (s.enrolled P call enrollments).vault = { s.vault with
      metaTable := s.vault.metaTable.insert metaEnrollments
        (Hex.encode (P.cborWrite (.array (enrollments.map Enrollment.toCbor)))) } := by
    unfold Session.enrolled Session.touch
    split <;> rfl
  obtain ⟨hkdf, hhmac, _, hblob, hid⟩ := h
  rw [hvault]
  constructor
  · rw [Table.getElem?_insert_of_ne (by decide)]
    exact hkdf
  · rw [Table.getElem?_insert_of_ne (by decide)]
    exact hhmac
  · rw [Std.ExtTreeMap.getElem?_insert_self]
  · rw [Table.getElem?_insert_of_ne (by decide)]
    exact hblob
  · rw [Table.getElem?_insert_of_ne (by decide)]
    exact hid

/-! ## Reading the entries back -/

theorem requireMetaBytes_eq_ok_iff {sql : Sql} {key : String} {v : Vault} {bytes bytes' : Bytes}
    (h : v.metaTable[key]? = some (Hex.encode bytes)) :
    v.requireMetaBytes sql key = .ok bytes' ↔
      sql.fault (.getMeta key) = none ∧ bytes' = bytes := by
  rw [Vault.requireMetaBytes_of_lookup h, Sql.attempt_eq_ok_iff]
  exact and_congr_right fun _ => eq_comm

theorem loadEnrollments_of_lookup (hP : P.Lawful) {v : Vault} {stored : List Enrollment}
    (h : v.metaTable[metaEnrollments]? =
      some (Hex.encode (P.cborWrite (.array (stored.map Enrollment.toCbor)))))
    (sql : Sql) (enrollments : List Enrollment) :
    loadEnrollments P sql v = .ok enrollments ↔
      sql.fault (.getMeta metaEnrollments) = none ∧ enrollments = stored := by
  have hread : (P.cborRead (P.cborWrite (.array (stored.map Enrollment.toCbor)))).bind
      (Cbor.asArray Enrollment.ofCbor) = some stored := by
    rw [hP.cbor _ (.enrollments stored), Option.bind_some]
    exact Cbor.asArray_map _ _ Enrollment.ofCbor_toCbor _
  simp only [loadEnrollments, Fallible.bind_eq_ok_iff, Fallible.mapError_eq_ok_iff,
    requireMetaBytes_eq_ok_iff h, Fallible.ofOption_eq_ok_iff]
  constructor
  · rintro ⟨_, ⟨hfault, rfl⟩, hload⟩
    rw [hread] at hload
    exact ⟨hfault, (Option.some.inj hload).symm⟩
  · rintro ⟨hfault, rfl⟩
    exact ⟨_, ⟨hfault, rfl⟩, hread⟩

theorem loadEnrollments_eq_ok_iff (hP : P.Lawful) {ring : KeyRing} {v : Vault}
    (h : ring.StoredIn P v) (sql : Sql) (enrollments : List Enrollment) :
    loadEnrollments P sql v = .ok enrollments ↔
      sql.fault (.getMeta metaEnrollments) = none ∧ enrollments = ring.enrollments :=
  loadEnrollments_of_lookup hP h.enrollments sql enrollments

/-! ## Unwrapping and verifying -/

/-- Unwrapping accepts exactly the blobs that carry a key under this wrap key. -/
theorem unwrapKey_eq_ok_iff (hP : P.Lawful) (wrap innerKek : Key) (blob : Bytes) :
    unwrapKey P wrap blob = .ok innerKek ↔ Wrapped P wrap innerKek blob := by
  constructor
  · intro h
    by_cases hshort : blob.length < nonceLen + tagLen
    · simp [unwrapKey, hshort, Fallible.raise] at h
    obtain ⟨nonce, ct, rfl⟩ := exists_block_append (n := nonceLen) (b := blob) (by omega)
    simp only [unwrapKey, if_neg hshort, splitAt_block_append, toBlock_bytes, Fallible.ok_bind,
      Fallible.bind_eq_ok_iff, Fallible.ofOption_eq_ok_iff, Fallible.mapError_eq_ok_iff] at h
    obtain ⟨plaintext, hdec, hkey⟩ := h
    obtain rfl := (Key.takeFrom_eq_ok_iff ..).mp hkey
    exact ⟨nonce, ct, (hP.exact ..).mp hdec, rfl⟩
  · rintro ⟨nonce, ct, henc, rfl⟩
    have hlengths := layout_lengths
    have htag := hP.tagged _ _ _ _ _ henc
    have hlong : ¬ (nonce.bytes ++ ct).length < nonceLen + tagLen := by
      rw [List.length_append, Block.length_bytes]
      omega
    simp only [unwrapKey, if_neg hlong, splitAt_block_append, toBlock_bytes, Fallible.ok_bind,
      hP.exact.dec_enc henc, Fallible.ofOption_some, Key.takeFrom_bytes, Fallible.mapError_ok]

/-- Whoever unwraps a blob, under whatever wrap key, finds the key it was made
from. -/
theorem wrapped_inj (hP : P.Lawful) (hbinds : P.aead.BindsKey) {wrap wrap' innerKek innerKek' : Key}
    {blob : Bytes} (h : Wrapped P wrap innerKek blob) (h' : Wrapped P wrap' innerKek' blob) :
    innerKek' = innerKek := by
  obtain ⟨nonce, ct, henc, hblob⟩ := h
  obtain ⟨nonce', ct', henc', hblob'⟩ := h'
  obtain ⟨hnonce, rfl⟩ := List.append_inj (hblob.symm.trans hblob') (by simp)
  obtain rfl := Block.ext hnonce
  exact Block.ext (hbinds.msg_eq hP.exact henc (hP.exact.dec_enc henc'))

/-- The check passes exactly when the verification blob is an envelope of the
verification text under the two keys. -/
theorem checkKeys_eq_ok_iff (hP : P.Lawful) {ring : KeyRing} {v : Vault} (h : ring.StoredIn P v)
    (sql : Sql) (innerKek outerKek : Key) (u : Unit) :
    Session.checkKeys P sql v innerKek outerKek = .ok u ↔
      sql.fault (.getMeta metaVerifyBlob) = none ∧ sql.fault (.getMeta metaVerifyId) = none ∧
      Sealed P ring.verifyId innerKek outerKek verificationPlaintext ring.verifyBlob := by
  simp only [Session.checkKeys, Vault.getMeta, h.verifyId, Fallible.bind_eq_ok_iff,
    Fallible.mapError_eq_ok_iff, requireMetaBytes_eq_ok_iff h.verifyBlob, Sql.attempt_eq_ok_iff,
    Fallible.ofOption_eq_ok_iff, verifyKeys, openBytes_eq_ok_iff hP.exact hP.tagged]
  constructor
  · rintro ⟨_, ⟨hblob, rfl⟩, _, ⟨hid, rfl⟩, _, hparse, _, ⟨plaintext, hsealed, hverified⟩, hok⟩
    obtain rfl := Option.some.inj ((hP.uuid _).symm.trans hparse)
    cases hverified
    by_cases hplain : plaintext = verificationPlaintext
    · rw [hplain] at hsealed
      exact ⟨hblob, hid, hsealed⟩
    · simp [hplain, Fallible.raise] at hok
  · rintro ⟨hblob, hid, hsealed⟩
    exact ⟨_, ⟨hblob, rfl⟩, _, ⟨hid, rfl⟩, _, hP.uuid _, _, ⟨_, hsealed, rfl⟩, by simp; rfl⟩

/-- The five entries can be read. -/
def Readable (sql : Sql) : Prop :=
  ∀ key ∈ [metaHmacSalt, metaKdfSalt, metaEnrollments, metaVerifyBlob, metaVerifyId],
    sql.fault (.getMeta key) = none

/-- The ring admits an inner key when a provider answers for one of the stored
credentials, the record of that credential carries the key wrapped under the answer,
and the verification blob opens under that key and the outer one. -/
def Admits (P : Primitives) (ring : KeyRing) (inner : InnerKeyProvider)
    (innerKek outerKek : Key) : Prop :=
  ∃ matchedId assertion record,
    inner.assertFirstAvailable ring.credentialIds ring.hmacSalt = .ok (matchedId, assertion) ∧
    (ring.enrollments.find? fun record => record.credentialId = matchedId) = some record ∧
    Wrapped P (deriveWrapKey P assertion ring.kdfSalt) innerKek record.wrapBlob ∧
    Sealed P ring.verifyId innerKek outerKek verificationPlaintext ring.verifyBlob

theorem StoredIn.mem_kdfSalt {ring : KeyRing} {v : Vault} (h : ring.StoredIn P v) :
    metaKdfSalt ∈ v.metaTable :=
  Std.ExtTreeMap.isSome_getElem?_iff_mem.mp (Option.isSome_iff_exists.mpr ⟨_, h.kdfSalt⟩)

/-- A vault with its keys can be opened, with whatever outer key is unsealed. -/
theorem StoredIn.openLocked {ring : KeyRing} {v : Vault} (h : ring.StoredIn P v)
    (outerKek : Key) (hfault : call.sql.fault (.getMeta metaKdfSalt) = none)
    (timeout : ℕ) :
    Session.openLocked call v (.ok outerKek) timeout = .ok ⟨v, outerKek, none, none, timeout⟩ :=
  (Session.openLocked_eq_ok_iff ..).mpr ⟨hfault, h.mem_kdfSalt, outerKek, rfl, rfl⟩

/-- **What unlocking takes**: the five entries can be read, and the ring admits the
key. -/
theorem assertInnerKey_eq_ok_iff (hP : P.Lawful) {ring : KeyRing} {s : Session}
    (h : ring.StoredIn P s.vault) (inner : InnerKeyProvider) (innerKek : Key) :
    Session.assertInnerKey P call inner s = .ok innerKek ↔
      Readable call.sql ∧ ring.Admits P inner innerKek s.outerKek := by
  simp only [Session.assertInnerKey, Session.unwrapMatched, Fallible.bind_eq_ok_iff,
    Fallible.mapError_eq_ok_iff, requireMetaBytes_eq_ok_iff h.hmacSalt,
    requireMetaBytes_eq_ok_iff h.kdfSalt, loadEnrollments_eq_ok_iff hP h,
    Fallible.ofOption_eq_ok_iff, unwrapKey_eq_ok_iff hP, checkKeys_eq_ok_iff hP h]
  constructor
  · rintro ⟨_, ⟨hhmac, rfl⟩, _, ⟨hkdf, rfl⟩, _, ⟨henrollments, rfl⟩, ⟨matchedId, assertion⟩,
      hassert, k, ⟨record, hfind, hwrapped⟩, _, ⟨hblob, hid, hsealed⟩, hk⟩
    cases hk
    refine ⟨?_, matchedId, assertion, record, hassert, hfind, hwrapped, hsealed⟩
    simp [Readable, hhmac, hkdf, henrollments, hblob, hid]
  · rintro ⟨hreadable, matchedId, assertion, record, hassert, hfind, hwrapped, hsealed⟩
    simp only [Readable, List.forall_mem_cons] at hreadable
    obtain ⟨hhmac, hkdf, henrollments, hblob, hid, _⟩ := hreadable
    exact ⟨_, ⟨hhmac, rfl⟩, _, ⟨hkdf, rfl⟩, _, ⟨henrollments, rfl⟩, (matchedId, assertion),
      hassert, innerKek, ⟨record, hfind, hwrapped⟩, (), ⟨hblob, hid, hsealed⟩, rfl⟩

variable (call) in
theorem unlock_of_admits (hP : P.Lawful) {ring : KeyRing} (s : Session)
    (h : ring.StoredIn P s.vault) (hreadable : Readable call.sql) {inner : InnerKeyProvider}
    {innerKek : Key} (hadmits : ring.Admits P inner innerKek s.outerKek) :
    Session.unlock P call inner s = (.ok (),
      { s with innerKek := some innerKek, deadline := some (call.ended + s.timeout) }) := by
  have hassert := (assertInnerKey_eq_ok_iff hP h inner innerKek).mpr ⟨hreadable, hadmits⟩
  simp [Session.unlock, Stateful.bind_apply, Stateful.read_apply, Stateful.lift_apply, hassert]

variable (call) in
/-- A provider that answers for no credential leaves the session as it is. -/
theorem unlock_of_refused (hP : P.Lawful) {ring : KeyRing} (s : Session)
    (h : ring.StoredIn P s.vault) (hreadable : Readable call.sql) {inner : InnerKeyProvider}
    {e : ProviderError}
    (hrefused : inner.assertFirstAvailable ring.credentialIds ring.hmacSalt = .error (.error e)) :
    Session.unlock P call inner s = (.error (.error (.provider e)), s) := by
  have hhmac : s.vault.requireMetaBytes call.sql metaHmacSalt = .ok ring.hmacSalt :=
    (requireMetaBytes_eq_ok_iff h.hmacSalt).mpr ⟨hreadable _ (by simp), rfl⟩
  have hkdf : s.vault.requireMetaBytes call.sql metaKdfSalt = .ok ring.kdfSalt :=
    (requireMetaBytes_eq_ok_iff h.kdfSalt).mpr ⟨hreadable _ (by simp), rfl⟩
  have hlist : loadEnrollments P call.sql s.vault = .ok ring.enrollments :=
    (loadEnrollments_eq_ok_iff hP h call.sql ring.enrollments).mpr ⟨hreadable _ (by simp), rfl⟩
  have hassert : Session.assertInnerKey P call inner s = .error (.error (.provider e)) := by
    rw [credentialIds] at hrefused
    simp [Session.assertInnerKey, hhmac, hkdf, hlist, hrefused]
  simp [Session.unlock, Stateful.bind_apply, Stateful.read_apply, Stateful.lift_apply, hassert]

/-- A record that an authenticator's provider makes for a ring: under a credential id
that was not there, with the inner key wrapped under what the provider answers for
it. -/
structure Accepts (P : Primitives) (ring : KeyRing) (inner : InnerKeyProvider) (innerKek : Key)
    (record : Enrollment) : Prop where
  provisioned : inner.provisionExcluding ring.credentialIds = .ok record.credentialId
  fresh : record.credentialId ∉ ring.credentialIds
  wrapped : ∃ secret, inner.assertSecret record.credentialId ring.hmacSalt = .ok secret ∧
    Wrapped P (deriveWrapKey P secret ring.kdfSalt) innerKek record.wrapBlob

/-- The ring with one more record. -/
def enroll (ring : KeyRing) (record : Enrollment) : KeyRing :=
  { ring with enrollments := ring.enrollments ++ [record] }

@[simp] theorem credentialIds_enroll (ring : KeyRing) (record : Enrollment) :
    (ring.enroll record).credentialIds = ring.credentialIds ++ [record.credentialId] := by
  simp [credentialIds, enroll]

/-- The label of the next record. -/
def labelFor (ring : KeyRing) (label : String) : String :=
  if (trim label).isEmpty then "key-" ++ toString (ring.enrollments.length + 1) else trim label

variable (call) in
/-- **What enrolling takes**: an inner key, three entries that can be read, and a
provider that registers a credential which is not there and answers for it. -/
theorem enroll_eq_ok_iff (hP : P.Lawful) {ring : KeyRing} {s : Session}
    (h : ring.StoredIn P s.vault) (inner : InnerKeyProvider) (label : String)
    (enrollments : List Enrollment) :
    Session.enroll P call inner label s = .ok enrollments ↔
      (∀ key ∈ [metaHmacSalt, metaKdfSalt, metaEnrollments],
        call.sql.fault (.getMeta key) = none) ∧
      ∃ innerKek credentialId record, s.innerKek = some innerKek ∧
        inner.provisionExcluding ring.credentialIds = .ok credentialId ∧
        credentialId ∉ ring.credentialIds ∧
        wrapFor P call inner credentialId ring.hmacSalt ring.kdfSalt innerKek
          (ring.labelFor label) = .ok record ∧
        enrollments = (ring.enroll record).enrollments := by
  simp only [Session.enroll, Fallible.bind_eq_ok_iff, Fallible.ofOption_eq_ok_iff,
    Fallible.mapError_eq_ok_iff, requireMetaBytes_eq_ok_iff h.hmacSalt,
    requireMetaBytes_eq_ok_iff h.kdfSalt, loadEnrollments_eq_ok_iff hP h]
  constructor
  · rintro ⟨innerKek, hinner, _, ⟨hhmac, rfl⟩, _, ⟨hkdf, rfl⟩, _, ⟨hlist, rfl⟩, credentialId,
      hprovision, henroll⟩
    by_cases hmem : credentialId ∈ ring.credentialIds
    · rw [credentialIds] at hmem
      simp [hmem, Fallible.raise] at henroll
    rw [credentialIds] at hmem
    simp only [hmem, if_false, Fallible.bind_eq_ok_iff] at henroll
    obtain ⟨record, hwrap, hrecords⟩ := henroll
    cases hrecords
    exact ⟨by simp [hhmac, hkdf, hlist], innerKek, credentialId, record, hinner, hprovision, hmem,
      hwrap, rfl⟩
  · rintro ⟨hread, innerKek, credentialId, record, hinner, hprovision, hmem, hwrap, rfl⟩
    simp only [List.forall_mem_cons] at hread
    obtain ⟨hhmac, hkdf, hlist, _⟩ := hread
    refine ⟨innerKek, hinner, _, ⟨hhmac, rfl⟩, _, ⟨hkdf, rfl⟩, _, ⟨hlist, rfl⟩, credentialId,
      hprovision, ?_⟩
    rw [credentialIds] at hmem
    simp only [hmem, if_false, Fallible.bind_eq_ok_iff]
    exact ⟨record, hwrap, rfl⟩

/-- **What enrolling adds**: one record, with the session's own inner key. -/
theorem enroll_eq_ok (hP : P.Lawful) {ring : KeyRing} {s : Session}
    (h : ring.StoredIn P s.vault) {inner : InnerKeyProvider} {label : String}
    {enrollments : List Enrollment}
    (henroll : Session.enroll P call inner label s = .ok enrollments) :
    ∃ innerKek record, s.innerKek = some innerKek ∧ ring.Accepts P inner innerKek record ∧
      enrollments = (ring.enroll record).enrollments := by
  obtain ⟨_, innerKek, credentialId, record, hinner, hprovision, hfresh, hwrapFor, rfl⟩ :=
    (enroll_eq_ok_iff call hP h inner label enrollments).mp henroll
  obtain ⟨secret, wrapBlob, hsecret, hwrap, rfl⟩ := (Session.wrapFor_eq_ok_iff ..).mp hwrapFor
  obtain ⟨nonce, ct, _, henc, rfl⟩ := (Session.wrapKey_eq_ok_iff ..).mp hwrap
  exact ⟨innerKek, _, hinner, ⟨hprovision, hfresh, secret, hsecret, nonce, ct, henc, rfl⟩, rfl⟩

/-- The primary record is made like every other, for the credential the provider
registers. -/
theorem wrapped_of_prepareKeys {inner : InnerKeyProvider} {outerKek : Key} {keys : NewKeys}
    (hprepare : Session.prepareKeys P call inner outerKek = .ok keys) :
    ∃ secret, inner.assertSecret keys.primary.credentialId keys.hmacSalt.bytes = .ok secret ∧
      Wrapped P (deriveWrapKey P secret keys.kdfSalt.bytes) keys.innerKek keys.primary.wrapBlob ∧
      inner.provision = .ok keys.primary.credentialId := by
  obtain ⟨_, _, _, ⟨credentialId, hprovision, hprimary⟩, _, _⟩ :=
    (Session.prepareKeys_eq_ok_iff ..).mp hprepare
  obtain ⟨secret, wrapBlob, hsecret, hwrap, hrecord⟩ := (Session.wrapFor_eq_ok_iff ..).mp hprimary
  obtain ⟨nonce, ct, _, henc, rfl⟩ := (Session.wrapKey_eq_ok_iff ..).mp hwrap
  rw [hrecord]
  exact ⟨secret, hsecret, ⟨nonce, ct, henc, rfl⟩, hprovision⟩

/-! ## What a session may rely on -/

/-- A property of the ring that a session with this inner key may rely on while only
permitted providers are used: what the ring admits is that key, and a record that it
accepts keeps the property. -/
structure Protects (P : Primitives) (innerKek : Key) (permitted : InnerKeyProvider → Prop)
    (R : KeyRing → Prop) : Prop where
  admits : ∀ ring inner outerKek found, R ring → permitted inner →
    ring.Admits P inner found outerKek → found = innerKek
  accepts : ∀ ring inner record, R ring → permitted inner →
    ring.Accepts P inner innerKek record → R (ring.enroll record)

/-- A credential that is stored stays stored. -/
theorem Protects.and_mem {innerKek : Key} {permitted : InnerKeyProvider → Prop}
    {R : KeyRing → Prop} (h : Protects P innerKek permitted R) (id : Bytes) :
    Protects P innerKek permitted fun ring => R ring ∧ id ∈ ring.credentialIds where
  admits ring inner outerKek found hring := h.admits ring inner outerKek found hring.1
  accepts := by
    rintro ring inner record ⟨hring, hid⟩ hinner haccepts
    refine ⟨h.accepts ring inner record hring hinner haccepts, ?_⟩
    rw [credentialIds_enroll]
    exact List.mem_append_left _ hid

/-- Every record wraps the inner key under some wrap key. -/
def Wraps (P : Primitives) (innerKek : Key) (ring : KeyRing) : Prop :=
  ∀ record ∈ ring.enrollments, ∃ wrap, Wrapped P wrap innerKek record.wrapBlob

theorem Wraps.of_prepareKeys {inner : InnerKeyProvider} {outerKek : Key} {keys : NewKeys}
    (hprepare : Session.prepareKeys P call inner outerKek = .ok keys) :
    Wraps P keys.innerKek (ofNewKeys keys) := by
  intro record hrecord
  obtain rfl := List.mem_singleton.mp hrecord
  obtain ⟨_, _, hwrapped, _⟩ := wrapped_of_prepareKeys hprepare
  exact ⟨_, hwrapped⟩

/-- When a wrong key fails the tag, that is enough, whatever the providers answer. -/
theorem Wraps.protects (hP : P.Lawful) (hbinds : P.aead.BindsKey) (innerKek : Key) :
    Protects P innerKek (fun _ => True) (Wraps P innerKek) where
  admits := by
    rintro ring inner outerKek found hring - ⟨_, _, record, _, hfind, hfound, _⟩
    obtain ⟨wrap, hwrap⟩ := hring record (List.mem_of_find?_eq_some hfind)
    exact wrapped_inj hP hbinds hwrap hfound
  accepts := by
    rintro ring inner record hring - ⟨_, _, secret, _, hwrapped⟩ record' hrecord'
    rcases List.mem_append.mp hrecord' with hold | hnew
    · exact hring record' hold
    · obtain rfl := List.mem_singleton.mp hnew
      exact ⟨_, hwrapped⟩

end KeyRing

end Sypherstore
