/-
# Malformed metadata

Binary values are kept in the `meta` table as hexadecimal text, and whatever text stands
there should be reported when it is no such value. Unlocking and enrolling read several of
these values. Apart from the decoder of the text, nothing on their way can panic.
-/

import Sypherstore.Core.Creation
import Sypherstore.Logic.HexText

namespace Sypherstore

open Logic

variable {P : Primitives} {sql : Sql} {v : Vault} {inner : InnerKeyProvider}

/-! ## What does not panic -/

/-- The authenticator's library answers or fails. -/
structure InnerKeyProvider.Reports (inner : InnerKeyProvider) : Prop where
  provisionExcluding : ∀ ids, (inner.provisionExcluding ids).Reports
  assertSecret : ∀ id salt, (inner.assertSecret id salt).Reports
  assertFirstAvailable : ∀ ids salt, (inner.assertFirstAvailable ids salt).Reports

theorem Sql.reports_attempt {α : Type} (sql : Sql) (statement : Statement) (result : α) :
    (sql.attempt statement result).Reports := by
  unfold Sql.attempt
  split
  · exact .raise _
  · exact .ok _

theorem reports_wrapKey (nonce : Except RandomError Nonce) (wrap innerKek : Key) :
    (wrapKey P nonce wrap innerKek).Reports := by
  refine .bind ((Fallible.reports_mapError_iff _ _).mpr (.ofExcept nonce)) fun nonce _ => ?_
  exact .bind (.ofOption _ _) fun _ _ => .ok _

theorem reports_unwrapKey (wrap : Key) (blob : Bytes) : (unwrapKey P wrap blob).Reports := by
  unfold unwrapKey
  split
  · exact .raise _
  · rename_i hlong
    obtain ⟨nonce, ct, rfl⟩ := exists_block_append (n := nonceLen) (b := blob) (by omega)
    simp only [splitAt_block_append, toBlock_bytes, Fallible.ok_bind]
    refine .bind (.ofOption _ _) fun plaintext _ => ?_
    rw [Fallible.reports_mapError_iff, Key.takeFrom]
    split
    · exact .ok _
    · exact .raise _

theorem reports_verifyKeys (id : Uuid) (innerKek outerKek : Key) (blob : Bytes) :
    (verifyKeys P id innerKek outerKek blob).Reports :=
  .bind (openBytes_ne_panic id innerKek outerKek blob) fun _ _ => .ok _

/-! ## Reading a value -/

/-- No value of the table makes the decoder cut a character. -/
def MetaDecodes (v : Vault) : Prop :=
  ∀ (key text : String), v.metaTable[key]? = some text →
    ¬ (Hex.byteLength text.toList % 2 = 0 ∧ Hex.CutsCharacter text.toList)

theorem MetaDecodes.getMetaBytes (h : MetaDecodes v) (sql : Sql) (key : String) :
    (v.getMetaBytes sql key).Reports := by
  refine .bind (Sql.reports_attempt sql _ _) fun value hvalue => ?_
  cases value with
  | none => exact .ok none
  | some text =>
      have hlookup : v.metaTable[key]? = some text := by
        unfold Vault.getMeta Sql.attempt at hvalue
        split at hvalue
        · cases hvalue
        · exact Except.ok.inj hvalue
      refine .bind ((Fallible.reports_mapError_iff _ _).mpr ?_) fun _ _ => .ok _
      exact (Hex.decode_reports_iff text).mpr (h key text hlookup)

/-- Where the text of a value cuts a character, reading it panics. -/
theorem getMetaBytes_panics {key text : String} (hfault : sql.fault (.getMeta key) = none)
    (hlookup : v.metaTable[key]? = some text) (hdecode : ¬ (Hex.decode text).Reports) :
    v.getMetaBytes sql key = .error .panic := by
  have hpanic : Hex.decode text = .error .panic := not_not.mp hdecode
  simp only [Vault.getMetaBytes, Vault.getMeta, Sql.attempt, hfault, hlookup, Fallible.ok_bind,
    hpanic]
  rfl

theorem MetaDecodes.requireMetaBytes (h : MetaDecodes v) (sql : Sql) (key : String) :
    (v.requireMetaBytes sql key).Reports :=
  .bind (h.getMetaBytes sql key) fun _ _ => .ofOption _ _

theorem MetaDecodes.loadEnrollments (h : MetaDecodes v) (sql : Sql) :
    (loadEnrollments P sql v).Reports :=
  .bind ((Fallible.reports_mapError_iff _ _).mpr (h.requireMetaBytes sql _)) fun _ _ =>
    .ofOption _ _

/-! ## Unlocking and enrolling -/

namespace Session

variable {call : Call} {s : Session}

theorem reports_wrapFor (hinner : inner.Reports) (credentialId hmacSalt kdfSalt : Bytes)
    (innerKek : Key) (label : String) :
    (wrapFor P call inner credentialId hmacSalt kdfSalt innerKek label).Reports := by
  refine .bind ((Fallible.reports_mapError_iff _ _).mpr (hinner.assertSecret _ _)) fun _ _ => ?_
  exact .bind ((Fallible.reports_mapError_iff _ _).mpr (reports_wrapKey _ _ _)) fun _ _ => .ok _

theorem reports_checkKeys (h : MetaDecodes v) (innerKek outerKek : Key) :
    (checkKeys P sql v innerKek outerKek).Reports := by
  refine .bind ((Fallible.reports_mapError_iff _ _).mpr (h.requireMetaBytes sql _)) fun _ _ => ?_
  refine .bind ((Fallible.reports_mapError_iff _ _).mpr (Sql.reports_attempt _ _ _)) fun _ _ => ?_
  refine .bind (.ofOption _ _) fun _ _ => ?_
  refine .bind ((Fallible.reports_mapError_iff _ _).mpr (reports_verifyKeys _ _ _ _))
    fun verified _ => ?_
  cases verified with
  | false => exact .raise _
  | true => exact .ok ()

theorem reports_assertInnerKey (h : MetaDecodes s.vault) (hinner : inner.Reports) :
    (assertInnerKey P call inner s).Reports := by
  refine .bind ((Fallible.reports_mapError_iff _ _).mpr (h.requireMetaBytes _ _)) fun _ _ => ?_
  refine .bind ((Fallible.reports_mapError_iff _ _).mpr (h.requireMetaBytes _ _)) fun _ _ => ?_
  refine .bind (h.loadEnrollments _) fun enrollments _ => ?_
  refine .bind ((Fallible.reports_mapError_iff _ _).mpr (hinner.assertFirstAvailable _ _))
    fun answer _ => ?_
  have hmatched : ∀ kdfSalt matchedId assertion,
      (unwrapMatched P enrollments kdfSalt matchedId assertion).Reports := fun _ _ _ =>
    .bind (.ofOption _ _) fun _ _ =>
      (Fallible.reports_mapError_iff _ _).mpr (reports_unwrapKey _ _)
  refine .bind (hmatched _ _ _) fun innerKek _ => ?_
  exact .bind (reports_checkKeys h innerKek s.outerKek) fun _ _ => .ok _

theorem reports_enroll (h : MetaDecodes s.vault) (hinner : inner.Reports) (label : String) :
    (enroll P call inner label s).Reports := by
  refine .bind (.ofOption _ _) fun _ _ => ?_
  refine .bind ((Fallible.reports_mapError_iff _ _).mpr (h.requireMetaBytes _ _)) fun _ _ => ?_
  refine .bind ((Fallible.reports_mapError_iff _ _).mpr (h.requireMetaBytes _ _)) fun _ _ => ?_
  refine .bind (h.loadEnrollments _) fun _ _ => ?_
  refine .bind ((Fallible.reports_mapError_iff _ _).mpr (hinner.provisionExcluding _))
    fun _ _ => ?_
  dsimp only
  split
  · exact .raise _
  · exact .bind (reports_wrapFor hinner _ _ _ _ _) fun _ _ => .ok _

theorem reports_unlock (h : MetaDecodes s.vault) (hinner : inner.Reports) :
    (unlock P call inner s).1.Reports := by
  refine Stateful.reports_bind (.ok s) fun s₁ s₂ hread => ?_
  obtain ⟨rfl, rfl⟩ := (Stateful.read_eq_ok_iff _ _ _).mp hread
  exact Stateful.reports_bind (reports_assertInnerKey h hinner) fun _ _ _ => .ok ()

theorem reports_saveEnrollments (enrollments : List Enrollment) (v : Vault) :
    (saveEnrollments P sql enrollments v).1.Reports := by
  refine (Fallible.reports_mapError_iff _ _).mpr ?_
  exact Stateful.reports_bind (Sql.reports_attempt _ _ _) fun _ _ _ => .ok ()

theorem reports_enrollKey (h : MetaDecodes s.vault) (hinner : inner.Reports) (label : String) :
    (enrollKey P call inner label s).1.Reports := by
  refine Stateful.reports_bind ?_ fun _ s₁ hunlocked => ?_
  · unfold ensureUnlocked
    split
    · exact .ok ()
    · exact .raise _
  -- the deadline is all that the check moves
  have hvault : s₁.vault = s.vault := by
    have := vault_ensureUnlocked call.started s
    rwa [hunlocked] at this
  have henroll : (enroll P call inner label s₁).Reports :=
    reports_enroll (hvault ▸ h) hinner label
  refine Stateful.reports_bind (.ok s₁) fun s₂ s₃ hread => ?_
  obtain ⟨rfl, rfl⟩ := (Stateful.read_eq_ok_iff _ _ _).mp hread
  refine Stateful.reports_bind henroll fun enrollments s₄ _ => ?_
  exact Stateful.reports_bind (reports_saveEnrollments enrollments s₄.vault) fun _ _ _ => .ok ()

end Session

/-! ## Malformed metadata is reported -/

/-- Reading the metadata of the vault, unlocking it and enrolling into it return a value or an
error, whatever the database, the authenticator and the clock do. -/
structure ReportsMeta (P : Primitives) (v : Vault) : Prop where
  getMetaBytes : ∀ sql key, (v.getMetaBytes sql key).Reports
  requireMetaBytes : ∀ sql key, (v.requireMetaBytes sql key).Reports
  loadEnrollments : ∀ sql, (loadEnrollments P sql v).Reports
  unlock : ∀ (call : Call) (inner : InnerKeyProvider) (s : Session), inner.Reports →
    s.vault = v → (s.unlock P call inner).1.Reports
  enrollKey : ∀ (call : Call) (inner : InnerKeyProvider) (label : String) (s : Session),
    inner.Reports → s.vault = v → (s.enrollKey P call inner label).1.Reports

/-- **Malformed metadata is reported** exactly when no value of the `meta` table has an even
number of bytes and, behind some pairs of digits, goes on with a pair of bytes that ends
inside a character. -/
theorem malformed_meta_is_reported_iff (P : Primitives) (v : Vault) :
    ReportsMeta P v ↔ MetaDecodes v := by
  constructor
  · intro h key text hlookup
    rw [← Hex.decode_reports_iff]
    by_contra hdecode
    exact h.getMetaBytes .reliable key (getMetaBytes_panics rfl hlookup hdecode)
  · intro h
    exact {
      getMetaBytes := h.getMetaBytes
      requireMetaBytes := h.requireMetaBytes
      loadEnrollments := h.loadEnrollments
      unlock := by
        rintro call inner s hinner rfl
        exact Session.reports_unlock h hinner
      enrollKey := by
        rintro call inner label s hinner rfl
        exact Session.reports_enrollKey h hinner label }

/-- A vault whose only value is a salt that is no hexadecimal text. -/
def accentedVault : Vault :=
  { Vault.empty with metaTable := Vault.empty.metaTable.insert metaHmacSalt "aéb" }

/-- The four bytes of "aéb" are cut in the middle of the second character: reading the salt
panics, and unlocking with it. -/
theorem an_accented_salt_panics :
    accentedVault.getMetaBytes .reliable metaHmacSalt = .error .panic ∧
      (Session.unlock .reference (.atOnce 0) (.token [1] [2])
        { vault := accentedVault, outerKek := Block.replicate keyLen 0, innerKek := none,
          deadline := none, timeout := 0 }).1 = .error .panic ∧
      ¬ ReportsMeta .reference accentedVault := by
  have hread : accentedVault.getMetaBytes .reliable metaHmacSalt = .error .panic :=
    getMetaBytes_panics rfl (Std.ExtTreeMap.getElem?_insert_self) fun h => h rfl
  refine ⟨hread, ?_, fun h => h.getMetaBytes _ _ hread⟩
  -- the salt is the first thing that unlocking reads
  have hrequire : accentedVault.requireMetaBytes .reliable metaHmacSalt = .error .panic := by
    rw [Vault.requireMetaBytes, hread]
    rfl
  simp only [Session.unlock, Stateful.bind_apply, Stateful.read_apply, Stateful.lift_apply,
    Session.assertInnerKey, Call.atOnce, Call.working, hrequire]
  rfl

end Sypherstore
