/-
# What one call can do to a session

For each operation, the ways it can end: refused with the session as it was,
refused because the vault is locked, or done, with what that took. The laws of
the lock, of the stored secrets and of the enrollments are all derived from these
case lemmas, and none of them unfolds an operation again.
-/

import Sypherstore.Core.Session

namespace Sypherstore

open Logic

namespace Session

variable {P : Primitives} {call : Call}

/-! ## The lock -/

/-- The session is unlocked and its deadline has not come. -/
def Live (now : Instant) (s : Session) : Prop :=
  ∃ inner deadline, s.innerKek = some inner ∧ s.deadline = some deadline ∧ now < deadline

theorem tick_of_live {now : Instant} {s : Session} (h : s.Live now) :
    (s.tick now).1.isUnlocked = true ∧ (s.tick now).2 = s := by
  obtain ⟨inner, deadline, hinner, hdeadline, hnow⟩ := h
  simp [tick, hinner, hdeadline, Nat.not_le.mpr hnow, LockState.isUnlocked]

/-- Ticking a session that is not live leaves no inner key, and nothing else is
changed. -/
theorem tick_of_not_live {now : Instant} {s : Session} (h : ¬ s.Live now) :
    (s.tick now).1 = .locked ∧ (s.tick now).2.innerKek = none ∧
      (s.tick now).2.vault = s.vault ∧ (s.tick now).2.outerKek = s.outerKek ∧
      (s.tick now).2.timeout = s.timeout := by
  cases hinner : s.innerKek with
  | none => simp [tick, hinner]
  | some inner =>
      cases hdeadline : s.deadline with
      | none => simp [tick, hinner, hdeadline, lock]
      | some deadline =>
          have hnow : deadline ≤ now := by
            by_contra hlt
            exact h ⟨inner, deadline, hinner, hdeadline, Nat.not_le.mp hlt⟩
          simp [tick, hinner, hdeadline, hnow, lock]

@[simp] theorem vault_tick (now : Instant) (s : Session) : (s.tick now).2.vault = s.vault := by
  by_cases hlive : s.Live now
  · rw [(tick_of_live hlive).2]
  · exact (tick_of_not_live hlive).2.2.1

theorem isUnlocked_tick_iff {now : Instant} {s : Session} :
    (s.tick now).1.isUnlocked = true ↔ s.Live now := by
  constructor
  · intro h
    by_contra hlive
    rw [(tick_of_not_live hlive).1] at h
    cases h
  · exact fun h => (tick_of_live h).1

theorem ensureUnlocked_of_live {now : Instant} {s : Session} (h : s.Live now) :
    ensureUnlocked now s = (.ok (), s) := by
  simp [ensureUnlocked, tick_of_live h]

theorem ensureUnlocked_of_not_live {now : Instant} {s : Session} (h : ¬ s.Live now) :
    ensureUnlocked now s = (.error (.error .locked), (s.tick now).2) := by
  rw [ensureUnlocked, if_neg]
  rwa [isUnlocked_tick_iff]

theorem keys_of_inner {s : Session} {inner : Key} (h : s.innerKek = some inner) :
    s.keys = .ok (inner, s.outerKek) := by
  simp [keys, h]

theorem touch_of_inner {now : Instant} {s : Session} {inner : Key}
    (h : s.innerKek = some inner) :
    s.touch now = { s with deadline := some (now + s.timeout) } := by
  simp [touch, h]

@[simp] theorem innerKek_touch (now : Instant) (s : Session) :
    (s.touch now).innerKek = s.innerKek := by
  unfold touch
  split <;> simp_all

@[simp] theorem vault_touch (now : Instant) (s : Session) : (s.touch now).vault = s.vault := by
  unfold touch
  split <;> rfl

@[simp] theorem outerKek_touch (now : Instant) (s : Session) :
    (s.touch now).outerKek = s.outerKek := by
  unfold touch
  split <;> rfl

@[simp] theorem vault_ensureUnlocked (now : Instant) (s : Session) :
    (ensureUnlocked now s).2.vault = s.vault := by
  by_cases hlive : s.Live now
  · rw [ensureUnlocked_of_live hlive]
  · rw [ensureUnlocked_of_not_live hlive]
    exact (tick_of_not_live hlive).2.2.1

theorem onVault_apply {α : Type} (x : Stateful Vault VaultError α) (s : Session) :
    onVault x s = ((x s.vault).1.mapError .vault, { s with vault := (x s.vault).2 }) := rfl

/-! ## Reading -/

theorem list_of_live {s : Session} {inner : Key} (hlive : s.Live call.started)
    (hinner : s.innerKek = some inner) :
    list P call s =
      (((s.vault.listRows P call.sql).mapError .vault >>= fun rows =>
        ((rows.mapM fun row =>
          openMeta P row.metaId row.id inner s.outerKek row.metaBlob).mapError .envelope) >>=
        fun metas => .ok (metas.mergeSort fun a b => P.lowercase a.name ≤ P.lowercase b.name)),
        s) := by
  simp only [list, Stateful.bind_apply, ensureUnlocked_of_live hlive, Stateful.read_apply,
    Stateful.lift_apply, keys_of_inner hinner]
  cases (s.vault.listRows P call.sql).mapError SessionError.vault with
  | error e => rfl
  | ok rows =>
      simp only [Fallible.ok_bind]
      cases ((rows.mapM fun row =>
          openMeta P row.metaId row.id inner s.outerKek row.metaBlob).mapError
            SessionError.envelope) with
      | error e => rfl
      | ok metas => rfl

theorem list_of_not_live {s : Session} (hlive : ¬ s.Live call.started) :
    list P call s = (.error (.error .locked), (s.tick call.started).2) := by
  simp [list, Stateful.bind_apply, ensureUnlocked_of_not_live hlive]

/-- `meta_for` looks the row up before it looks at the lock. -/
theorem metaFor_of_live {s : Session} {inner : Key} (hlive : s.Live call.started)
    (hinner : s.innerKek = some inner) (id : Uuid) :
    metaFor P call id s =
      ((s.vault.getMetaRow P call.sql id).mapError .vault >>= fun row =>
        (openMeta P row.metaId row.id inner s.outerKek row.metaBlob).mapError .envelope, s) := by
  simp only [metaFor, Stateful.bind_apply, Stateful.read_apply, Stateful.lift_apply]
  cases (s.vault.getMetaRow P call.sql id).mapError SessionError.vault with
  | error e => rfl
  | ok row => simp [ensureUnlocked_of_live hlive, keys_of_inner hinner]

theorem metaFor_of_not_live {s : Session} (hlive : ¬ s.Live call.started) (id : Uuid) :
    ∃ e, (metaFor P call id s).1 = .error e ∧
      ((metaFor P call id s).2 = s ∨ (metaFor P call id s).2 = (s.tick call.started).2) := by
  simp only [metaFor, Stateful.bind_apply, Stateful.read_apply, Stateful.lift_apply]
  cases (s.vault.getMetaRow P call.sql id).mapError SessionError.vault with
  | error e => exact ⟨e, rfl, .inl rfl⟩
  | ok row => exact ⟨_, by simp [ensureUnlocked_of_not_live hlive]; rfl,
      .inr (by simp [ensureUnlocked_of_not_live hlive])⟩

theorem openSecret_of_live {s : Session} {inner : Key} (hlive : s.Live call.started)
    (hinner : s.innerKek = some inner) (id : Uuid) :
    openSecret P call id s =
      match (s.vault.getBlob P call.sql id).mapError SessionError.vault >>= fun blob =>
        (openPayload P id inner s.outerKek blob).mapError .envelope with
      | .ok payload => (.ok payload, s.touch call.ended)
      | .error e => (.error e, s) := by
  simp only [openSecret, Stateful.bind_apply, Stateful.read_apply, Stateful.lift_apply]
  cases (s.vault.getBlob P call.sql id).mapError SessionError.vault with
  | error e => rfl
  | ok blob =>
      simp only [ensureUnlocked_of_live hlive, keys_of_inner hinner, Fallible.ok_bind]
      cases (openPayload P id inner s.outerKek blob).mapError SessionError.envelope with
      | error e => rfl
      | ok payload => rfl

theorem openSecret_of_not_live {s : Session} (hlive : ¬ s.Live call.started) (id : Uuid) :
    ∃ e, (openSecret P call id s).1 = .error e ∧
      ((openSecret P call id s).2 = s ∨ (openSecret P call id s).2 = (s.tick call.started).2) := by
  simp only [openSecret, Stateful.bind_apply, Stateful.read_apply, Stateful.lift_apply]
  cases (s.vault.getBlob P call.sql id).mapError SessionError.vault with
  | error e => exact ⟨e, rfl, .inl rfl⟩
  | ok blob => exact ⟨_, by simp [ensureUnlocked_of_not_live hlive]; rfl,
      .inr (by simp [ensureUnlocked_of_not_live hlive])⟩

/-! ## Writing -/

theorem sealSecret_eq_ok {inner outer : Key} {m : SecretMeta} {p : SecretPayload}
    {metaId : Uuid} {metaBlob payloadBlob : Bytes}
    (h : sealSecret P call inner outer m p = .ok (metaId, metaBlob, payloadBlob)) :
    StoresSecret P inner outer m p ⟨P.uuidText metaId, metaBlob, payloadBlob⟩ := by
  simp only [sealSecret, Fallible.bind_eq_ok_iff, Fallible.mapError_eq_ok_iff] at h
  obtain ⟨metaId', _, metaBlob', hmeta, payloadBlob', hpayload, heq⟩ := h
  cases heq
  exact ⟨metaId, rfl, Sealed.of_sealBytes hmeta, Sealed.of_sealBytes hpayload⟩

/-- The session after a row has been written at the end of a call. -/
def written (call : Call) (s : Session) (id : String) (row : StoredRow) : Session :=
  touch call.ended { s with vault := { s.vault with secrets := s.vault.secrets.insert id row } }

variable (P call) in
theorem add_cases (m : SecretMeta) (p : SecretPayload) (s : Session) :
    (∃ e, add P call m p s = (.error e, s)) ∨
    (¬ s.Live call.started ∧
      add P call m p s = (.error (.error .locked), (s.tick call.started).2)) ∨
    (∃ inner row, s.Live call.started ∧ s.innerKek = some inner ∧
      P.uuidText m.id ∉ s.vault.secrets ∧ StoresSecret P inner s.outerKek m p row ∧
      add P call m p s = (.ok (), s.written call (P.uuidText m.id) row)) := by
  by_cases hlive : s.Live call.started
  · have ⟨inner, _, hinner, _, _⟩ := hlive
    simp only [add, Stateful.bind_apply, ensureUnlocked_of_live hlive, Stateful.read_apply,
      Stateful.lift_apply, keys_of_inner hinner]
    rcases hseal : sealSecret P call inner s.outerKek m p with e | ⟨metaId, metaBlob, payloadBlob⟩
    · exact .inl ⟨e, rfl⟩
    simp only [onVault_apply]
    rcases Vault.insertRow_cases (P := P) call.sql m.id metaId metaBlob payloadBlob s.vault with
      ⟨e, hinsert⟩ | ⟨hfresh, hinsert⟩
    · rw [hinsert]
      exact .inl ⟨_, rfl⟩
    · rw [hinsert]
      exact .inr (.inr ⟨inner, _, hlive, hinner, hfresh, sealSecret_eq_ok hseal, rfl⟩)
  · exact .inr (.inl ⟨hlive, by
      simp [add, Stateful.bind_apply, ensureUnlocked_of_not_live hlive]⟩)

variable (P call) in
theorem update_cases (m : SecretMeta) (p : SecretPayload) (s : Session) :
    (∃ e, update P call m p s = (.error e, s)) ∨
    (¬ s.Live call.started ∧
      update P call m p s = (.error (.error .locked), (s.tick call.started).2)) ∨
    (∃ inner row, s.Live call.started ∧ s.innerKek = some inner ∧
      P.uuidText m.id ∈ s.vault.secrets ∧ StoresSecret P inner s.outerKek m p row ∧
      update P call m p s = (.ok (), s.written call (P.uuidText m.id) row)) := by
  by_cases hlive : s.Live call.started
  · have ⟨inner, _, hinner, _, _⟩ := hlive
    simp only [update, Stateful.bind_apply, ensureUnlocked_of_live hlive, Stateful.read_apply,
      Stateful.lift_apply, keys_of_inner hinner]
    rcases hseal : sealSecret P call inner s.outerKek m p with e | ⟨metaId, metaBlob, payloadBlob⟩
    · exact .inl ⟨e, rfl⟩
    simp only [onVault_apply]
    rcases Vault.updateRow_cases (P := P) call.sql m.id metaId metaBlob payloadBlob s.vault with
      ⟨e, hupdate⟩ | ⟨hmem, hupdate⟩
    · rw [hupdate]
      exact .inl ⟨_, rfl⟩
    · rw [hupdate]
      exact .inr (.inr ⟨inner, _, hlive, hinner, hmem, sealSecret_eq_ok hseal, rfl⟩)
  · exact .inr (.inl ⟨hlive, by
      simp [update, Stateful.bind_apply, ensureUnlocked_of_not_live hlive]⟩)

variable (P call) in
theorem delete_cases (id : Uuid) (s : Session) :
    (∃ e, delete P call id s = (.error e, s)) ∨
    (P.uuidText id ∈ s.vault.secrets ∧ delete P call id s =
      (.ok (), { s with vault :=
        { s.vault with secrets := s.vault.secrets.erase (P.uuidText id) } })) := by
  simp only [delete, onVault_apply]
  rcases Vault.delete_cases (P := P) call.sql id s.vault with ⟨e, h⟩ | ⟨hmem, h⟩
  · rw [h]
    exact .inl ⟨_, rfl⟩
  · rw [h]
    exact .inr ⟨hmem, rfl⟩

/-! ## Keys -/

variable (P call) in
theorem unlock_cases (inner : InnerKeyProvider) (s : Session) :
    (∃ e, unlock P call inner s = (.error e, s)) ∨
    (∃ innerKek, assertInnerKey P call inner s = .ok innerKek ∧
      unlock P call inner s = (.ok (),
        { s with innerKek := some innerKek, deadline := some (call.ended + s.timeout) })) := by
  simp only [unlock, Stateful.bind_apply, Stateful.read_apply, Stateful.lift_apply]
  cases assertInnerKey P call inner s with
  | error e => exact .inl ⟨e, rfl⟩
  | ok innerKek => exact .inr ⟨innerKek, rfl, rfl⟩

theorem saveEnrollments_cases (sql : Sql) (enrollments : List Enrollment) (v : Vault) :
    (∃ e, saveEnrollments P sql enrollments v = (.error e, v)) ∨
    saveEnrollments P sql enrollments v =
      (.ok (), { v with
        metaTable := v.metaTable.insert metaEnrollments
          (Hex.encode (P.cborWrite (.array (enrollments.map Enrollment.toCbor)))) }) := by
  simp only [saveEnrollments, Vault.setMetaBytes, Stateful.mapError_apply]
  rcases Vault.setMeta_cases sql metaEnrollments
      (Hex.encode (P.cborWrite (.array (enrollments.map Enrollment.toCbor)))) v with ⟨e, h⟩ | h
  · rw [h]
    exact .inl ⟨_, rfl⟩
  · rw [h]
    exact .inr rfl

/-- The session after a list of enrollments has been saved at the end of a call. -/
def enrolled (P : Primitives) (call : Call) (s : Session) (enrollments : List Enrollment) :
    Session :=
  touch call.ended { s with
    vault := { s.vault with
      metaTable := s.vault.metaTable.insert metaEnrollments
        (Hex.encode (P.cborWrite (.array (enrollments.map Enrollment.toCbor)))) } }

variable (P call) in
theorem enrollKey_cases (inner : InnerKeyProvider) (label : String) (s : Session) :
    (∃ e, enrollKey P call inner label s = (.error e, s)) ∨
    (¬ s.Live call.started ∧
      enrollKey P call inner label s = (.error (.error .locked), (s.tick call.started).2)) ∨
    (∃ enrollments, s.Live call.started ∧ enroll P call inner label s = .ok enrollments ∧
      enrollKey P call inner label s = (.ok (), s.enrolled P call enrollments)) := by
  by_cases hlive : s.Live call.started
  · simp only [enrollKey, Stateful.bind_apply, ensureUnlocked_of_live hlive, Stateful.read_apply,
      Stateful.lift_apply]
    rcases henroll : enroll P call inner label s with e | enrollments
    · exact .inl ⟨e, rfl⟩
    simp only [Stateful.zoom_apply]
    rcases saveEnrollments_cases (P := P) call.sql enrollments s.vault with ⟨e, h⟩ | h
    · rw [h]
      exact .inl ⟨e, rfl⟩
    · rw [h]
      exact .inr (.inr ⟨enrollments, hlive, rfl, rfl⟩)
  · exact .inr (.inl ⟨hlive, by
      simp [enrollKey, Stateful.bind_apply, ensureUnlocked_of_not_live hlive]⟩)

/-- The list is saved when the database does not refuse it. -/
theorem saveEnrollments_eq_ok {sql : Sql} {enrollments : List Enrollment} {v : Vault}
    (hfault : sql.fault (.setMeta metaEnrollments) = none) :
    saveEnrollments P sql enrollments v =
      (.ok (), { v with
        metaTable := v.metaTable.insert metaEnrollments
          (Hex.encode (P.cborWrite (.array (enrollments.map Enrollment.toCbor)))) }) := by
  rw [saveEnrollments, Stateful.mapError_eq_ok_iff]
  exact (Vault.setMeta_eq_ok_iff ..).mpr ⟨hfault, rfl⟩

/-- Enrolling succeeds when there is a record to add and the list can be saved. -/
theorem enrollKey_of_enroll {inner : InnerKeyProvider} {label : String} {s : Session}
    {enrollments : List Enrollment} (hlive : s.Live call.started)
    (henroll : enroll P call inner label s = .ok enrollments)
    (hfault : call.sql.fault (.setMeta metaEnrollments) = none) :
    enrollKey P call inner label s = (.ok (), s.enrolled P call enrollments) := by
  simp only [enrollKey, Stateful.bind_apply, ensureUnlocked_of_live hlive, Stateful.read_apply,
    Stateful.lift_apply, henroll, Stateful.zoom_apply, saveEnrollments_eq_ok hfault]
  rfl

/-! ## Every call -/

/-- Everything a call can do to a session, with whether it succeeded. -/
inductive Effect (P : Primitives) (call : Call) (s : Session) : Op → Bool → Session → Prop
  /-- The call failed and left the session as it was. -/
  | refused (op : Op) : Effect P call s op false s
  /-- The call found the session expired and failed, having relocked it. -/
  | expired (op : Op) (hlive : ¬ s.Live call.started) :
      Effect P call s op false (s.tick call.started).2
  | locked : Effect P call s .lock true s.lock
  | ticked : Effect P call s .tick true (s.tick call.started).2
  | touched : Effect P call s .touch true (s.touch call.ended)
  | observed : Effect P call s .state true s
  | listed (hlive : s.Live call.started) : Effect P call s .list true s
  | described (id : Uuid) (hlive : s.Live call.started) : Effect P call s (.metaFor id) true s
  | opened (id : Uuid) (hlive : s.Live call.started) :
      Effect P call s (.openSecret id) true (s.touch call.ended)
  | added (m : SecretMeta) (p : SecretPayload) (inner : Key) (row : StoredRow)
      (hlive : s.Live call.started) (hinner : s.innerKek = some inner)
      (hfresh : P.uuidText m.id ∉ s.vault.secrets)
      (hrow : StoresSecret P inner s.outerKek m p row) :
      Effect P call s (.add m p) true (s.written call (P.uuidText m.id) row)
  | updated (m : SecretMeta) (p : SecretPayload) (inner : Key) (row : StoredRow)
      (hlive : s.Live call.started) (hinner : s.innerKek = some inner)
      (hmem : P.uuidText m.id ∈ s.vault.secrets)
      (hrow : StoresSecret P inner s.outerKek m p row) :
      Effect P call s (.update m p) true (s.written call (P.uuidText m.id) row)
  | deleted (id : Uuid) (hmem : P.uuidText id ∈ s.vault.secrets) :
      Effect P call s (.delete id) true
        { s with vault := { s.vault with secrets := s.vault.secrets.erase (P.uuidText id) } }
  | enrolled (inner : InnerKeyProvider) (label : String) (enrollments : List Enrollment)
      (hlive : s.Live call.started)
      (henroll : enroll P call inner label s = .ok enrollments) :
      Effect P call s (.enrollKey inner label) true (s.enrolled P call enrollments)
  | unlocked (inner : InnerKeyProvider) (innerKek : Key)
      (hassert : assertInnerKey P call inner s = .ok innerKek) :
      Effect P call s (.unlock inner) true
        { s with innerKek := some innerKek, deadline := some (call.ended + s.timeout) }

/-- Wrapping the value of a call up as a reply changes neither its success nor
the session it leaves. -/
private theorem Effect.reply {α : Type} {op : Op} {s : Session}
    {x : Stateful Session SessionError α} {f : α → Reply}
    (h : Effect P call s op (x s).1.isOk (x s).2) :
    Effect P call s op ((x >>= fun a => pure (f a)) s).1.isOk
      ((x >>= fun a => pure (f a)) s).2 := by
  rw [Stateful.bind_apply]
  rcases hx : x s with ⟨e | a, s'⟩
  · rw [hx] at h
    exact h
  · rw [hx] at h
    exact h

variable (P call) in
/-- **Every call does one of the things listed.** -/
theorem perform_effect (op : Op) (s : Session) :
    Effect P call s op (perform P call op s).1.isOk (perform P call op s).2 := by
  cases op with
  | unlock inner =>
      refine Effect.reply ?_
      rcases unlock_cases P call inner s with ⟨e, h⟩ | ⟨innerKek, hassert, h⟩
      · rw [h]
        exact .refused _
      · rw [h]
        exact .unlocked inner innerKek hassert
  | lock => exact .locked
  | tick => exact .ticked
  | touch => exact .touched
  | state => exact .observed
  | list =>
      refine Effect.reply ?_
      by_cases hlive : s.Live call.started
      · have ⟨inner, _, hinner, _, _⟩ := hlive
        have hsame : (list P call s).2 = s := by rw [list_of_live hlive hinner]
        rw [hsame]
        cases (list P call s).1 with
        | error e => exact .refused _
        | ok metas => exact .listed hlive
      · rw [list_of_not_live hlive]
        exact .expired _ hlive
  | metaFor id =>
      refine Effect.reply ?_
      by_cases hlive : s.Live call.started
      · have ⟨inner, _, hinner, _, _⟩ := hlive
        have hsame : (metaFor P call id s).2 = s := by rw [metaFor_of_live hlive hinner]
        rw [hsame]
        cases (metaFor P call id s).1 with
        | error e => exact .refused _
        | ok m => exact .described id hlive
      · obtain ⟨e, he, hsame | hticked⟩ := metaFor_of_not_live (P := P) hlive id
        · rw [he, hsame]
          exact .refused _
        · rw [he, hticked]
          exact .expired _ hlive
  | openSecret id =>
      refine Effect.reply ?_
      by_cases hlive : s.Live call.started
      · have ⟨inner, _, hinner, _, _⟩ := hlive
        rw [openSecret_of_live hlive hinner]
        split
        · exact .opened id hlive
        · exact .refused _
      · obtain ⟨e, he, hsame | hticked⟩ := openSecret_of_not_live (P := P) hlive id
        · rw [he, hsame]
          exact .refused _
        · rw [he, hticked]
          exact .expired _ hlive
  | add m p =>
      refine Effect.reply ?_
      rcases add_cases P call m p s with
        ⟨e, h⟩ | ⟨hlive, h⟩ | ⟨inner, row, hlive, hinner, hfresh, hrow, h⟩
      · rw [h]
        exact .refused _
      · rw [h]
        exact .expired _ hlive
      · rw [h]
        exact .added m p inner row hlive hinner hfresh hrow
  | update m p =>
      refine Effect.reply ?_
      rcases update_cases P call m p s with
        ⟨e, h⟩ | ⟨hlive, h⟩ | ⟨inner, row, hlive, hinner, hmem, hrow, h⟩
      · rw [h]
        exact .refused _
      · rw [h]
        exact .expired _ hlive
      · rw [h]
        exact .updated m p inner row hlive hinner hmem hrow
  | delete id =>
      refine Effect.reply ?_
      rcases delete_cases P call id s with ⟨e, h⟩ | ⟨hmem, h⟩
      · rw [h]
        exact .refused _
      · rw [h]
        exact .deleted id hmem
  | enrollKey inner label =>
      refine Effect.reply ?_
      rcases enrollKey_cases P call inner label s with
        ⟨e, h⟩ | ⟨hlive, h⟩ | ⟨enrollments, hlive, henroll, h⟩
      · rw [h]
        exact .refused _
      · rw [h]
        exact .expired _ hlive
      · rw [h]
        exact .enrolled inner label enrollments hlive henroll

/-! ## The rows -/

/-- The row is in the store. -/
def HasRow (row : String) (s : Session) : Prop := row ∈ s.vault.secrets

/-- A row stays, whatever the call does and whether or not it succeeds, unless the call
is a deletion. -/
theorem Effect.hasRow {op : Op} {ok : Bool} {s s' : Session} {row : String}
    (h : Effect P call s op ok s') (hop : ∀ id, op ≠ .delete id)
    (hrow : s.HasRow row) : s'.HasRow row := by
  unfold HasRow at hrow ⊢
  cases h with
  | refused op => exact hrow
  | expired op hlive => rwa [vault_tick]
  | locked => exact hrow
  | ticked => rwa [vault_tick]
  | touched => rwa [vault_touch]
  | observed => exact hrow
  | listed hlive => exact hrow
  | described id hlive => exact hrow
  | opened id hlive => rwa [vault_touch]
  | added m p inner row hlive hinner hfresh hrow' =>
      rw [written, vault_touch]
      exact Table.mem_insert.mpr (.inr hrow)
  | updated m p inner row hlive hinner hmem hrow' =>
      rw [written, vault_touch]
      exact Table.mem_insert.mpr (.inr hrow)
  | deleted id hmem => exact absurd rfl (hop id)
  | enrolled inner label enrollments hlive henroll =>
      rw [Session.enrolled, vault_touch]
      exact hrow
  | unlocked inner innerKek hassert => exact hrow

theorem keeps_row {op : Op} {row : String} (hop : ∀ id, op ≠ .delete id) :
    Stateful.Keeps (HasRow row) (perform P call op) :=
  fun s hrow => (perform_effect P call op s).hasRow hop hrow

/-- A function that is run as an `Op` keeps what the `Op` keeps. -/
theorem keeps_of_perform {α : Type} {I : Session → Prop} {x : Stateful Session SessionError α}
    {f : α → Reply} {op : Op} (hperform : perform P call op = (x >>= fun a => pure (f a)))
    (hop : Stateful.Keeps I (perform P call op)) : Stateful.Keeps I x := by
  intro s hs
  have hend := hop s hs
  rw [hperform, Stateful.bind_apply] at hend
  rcases hx : x s with ⟨e | a, s'⟩
  · rwa [hx] at hend
  · rwa [hx] at hend

end Session

end Sypherstore
