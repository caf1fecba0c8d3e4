/-
# Enrolling from several processes at once

`enroll_key` reads the list of enrollments, waits for two touches, and writes the
whole list back. The vault has no lock across these steps, and any number of
processes may be on their way through them. Here the call is cut at the points where
another process can come in between, and the processes share one vault.

The list is a shared cell in the sense of `Logic.SharedCell`: a credential is lost
only when a process writes back a list that another has added to since it was read.
-/

import Mathlib.Data.Set.BooleanAlgebra
import Mathlib.Order.CompletePartialOrder
import Sypherstore.Core.KeyRing
import Sypherstore.Logic.SharedCell

namespace Sypherstore

open Logic

/-! ## The steps of one call -/

/-- One call of `enroll_key`, with its arguments. -/
structure EnrollRequest where
  call : Call
  inner : InnerKeyProvider
  label : String

/-- What the call has in hand when it turns to the hardware. -/
structure EnrollInputs where
  innerKek : Key
  hmacSalt : Bytes
  kdfSalt : Bytes
  enrollments : List Enrollment

/-- The credential ids that the new authenticator must not hold. -/
abbrev EnrollInputs.existingIds (inputs : EnrollInputs) : List Bytes :=
  inputs.enrollments.map Enrollment.credentialId

/-- How far a call has come. -/
inductive Enrolling where
  | idle
  /-- The list has been read, the new authenticator is to register a credential. -/
  | registering (req : EnrollRequest) (inputs : EnrollInputs)
  /-- The new authenticator is to answer for its credential. -/
  | wrapping (req : EnrollRequest) (inputs : EnrollInputs) (credentialId : Bytes)
  /-- The list is to be written back with one more record. -/
  | saving (req : EnrollRequest) (inputs : EnrollInputs) (record : Enrollment)

section Stages

variable (P : Primitives)

/-- Read what the hardware steps need. -/
def readInputs (call : Call) (s : Session) : Fallible SessionError EnrollInputs := do
  let innerKek ← Fallible.ofOption .locked s.innerKek
  let hmacSalt ← (s.vault.requireMetaBytes call.sql metaHmacSalt).mapError .vault
  let kdfSalt ← (s.vault.requireMetaBytes call.sql metaKdfSalt).mapError .vault
  let enrollments ← loadEnrollments P call.sql s.vault
  return { innerKek, hmacSalt, kdfSalt, enrollments }

/-- The first touch: register a credential that is not in the list. -/
def registerCredential (inner : InnerKeyProvider) (inputs : EnrollInputs) :
    Fallible SessionError Bytes := do
  let credentialId ← (inner.provisionExcluding inputs.existingIds).mapError .provider
  if inputs.existingIds.contains credentialId then Fallible.raise .alreadyEnrolled
  else return credentialId

/-- The second touch: the record of the new authenticator. -/
def recordFor (req : EnrollRequest) (inputs : EnrollInputs) (credentialId : Bytes) :
    Fallible SessionError Enrollment :=
  let label :=
    if (trim req.label).isEmpty then "key-" ++ toString (inputs.enrollments.length + 1)
    else trim req.label
  wrapFor P req.call req.inner credentialId inputs.hmacSalt inputs.kdfSalt inputs.innerKek label

/-- The part of the call before the hardware. -/
def Enrolling.begin (req : EnrollRequest) : Stateful Session SessionError Enrolling := do
  Session.ensureUnlocked req.call.started
  let s ← Stateful.read
  let inputs ← Stateful.lift (readInputs P req.call s)
  return .registering req inputs

/-- The next step of a call that has begun. -/
def Enrolling.next : Enrolling → Stateful Session SessionError Enrolling
  | .idle => return .idle
  | .registering req inputs => do
      let credentialId ← Stateful.lift (registerCredential req.inner inputs)
      return .wrapping req inputs credentialId
  | .wrapping req inputs credentialId => do
      let record ← Stateful.lift (recordFor P req inputs credentialId)
      return .saving req inputs record
  | .saving req inputs record => do
      Stateful.zoom Session.vault (fun s v => { s with vault := v })
        (saveEnrollments P req.call.sql (inputs.enrollments ++ [record]))
      Stateful.modify (Session.touch req.call.ended)
      return .idle

/-- The records to be saved, by the same steps. -/
theorem enroll_eq_stages (req : EnrollRequest) (s : Session) :
    Session.enroll P req.call req.inner req.label s =
      (readInputs P req.call s >>= fun inputs =>
        registerCredential req.inner inputs >>= fun credentialId =>
          recordFor P req inputs credentialId >>= fun record =>
            .ok (inputs.enrollments ++ [record])) := by
  unfold Session.enroll readInputs
  cases Fallible.ofOption SessionError.locked s.innerKek with
  | error e => rfl
  | ok innerKek =>
  cases (s.vault.requireMetaBytes req.call.sql metaHmacSalt).mapError SessionError.vault with
  | error e => rfl
  | ok hmacSalt =>
  cases (s.vault.requireMetaBytes req.call.sql metaKdfSalt).mapError SessionError.vault with
  | error e => rfl
  | ok kdfSalt =>
  cases loadEnrollments P req.call.sql s.vault with
  | error e => rfl
  | ok enrollments =>
      simp only [Fallible.ok_bind, pure_bind, registerCredential]
      cases (req.inner.provisionExcluding
          (enrollments.map Enrollment.credentialId)).mapError SessionError.provider with
      | error e => rfl
      | ok credentialId =>
          simp only [Fallible.ok_bind]
          have hcontains : (enrollments.map Enrollment.credentialId).contains credentialId ↔
              credentialId ∈ enrollments.map Enrollment.credentialId := List.contains_iff_mem
          by_cases hmem : credentialId ∈ enrollments.map Enrollment.credentialId
          · rw [if_pos hmem, if_pos (hcontains.mpr hmem)]
            rfl
          · rw [if_neg hmem, if_neg (mt hcontains.mp hmem)]
            rfl

/-- **A call that nothing comes in between is these four steps.** -/
theorem enrollKey_eq_steps (req : EnrollRequest) :
    Session.enrollKey P req.call req.inner req.label = do
      let registering ← Enrolling.begin P req
      let wrapping ← registering.next P
      let saving ← wrapping.next P
      let _ ← saving.next P
      return () := by
  funext s
  unfold Session.enrollKey Enrolling.begin
  simp only [Stateful.bind_apply, Stateful.read_apply, Stateful.lift_apply, enroll_eq_stages]
  rcases Session.ensureUnlocked req.call.started s with ⟨e | u, s'⟩
  · rfl
  simp only
  cases readInputs P req.call s' with
  | error e => rfl
  | ok inputs =>
  simp only [Fallible.ok_bind, Stateful.pure_apply, Enrolling.next, Stateful.bind_apply,
    Stateful.lift_apply]
  cases registerCredential req.inner inputs with
  | error e => rfl
  | ok credentialId =>
  simp only [Fallible.ok_bind, Stateful.pure_apply, Stateful.bind_apply, Stateful.lift_apply]
  cases recordFor P req inputs credentialId with
  | error e => rfl
  | ok record =>
  simp only [Fallible.ok_bind, Stateful.pure_apply, Stateful.bind_apply, Stateful.zoom_apply]
  rcases saveEnrollments P req.call.sql (inputs.enrollments ++ [record]) s'.vault with ⟨e | u, v⟩
  · rfl
  · rfl

end Stages

/-! ## Processes on one vault -/

variable {ι : Type}

/-- Processes that share a vault: what it holds, and for each process its session and
how far its call of `enroll_key` has come. The vault in a process's own session is what
it saw when it last looked. -/
structure Processes (ι : Type) where
  vault : Vault
  session : ι → Session
  phase : ι → Enrolling

inductive EnrollEvent (ι : Type) where
  /-- A call has read the list. -/
  | started (i : ι)
  /-- A touch has been answered. -/
  | touched (i : ι)
  /-- A call has returned `Ok`: it read this list and added this record to it. -/
  | saved (i : ι) (enrollments : List Enrollment) (record : Enrollment)
  /-- A call has returned an error. -/
  | failed (i : ι) (e : Fault SessionError)

namespace Processes

variable [DecidableEq ι]

/-- The session of a process as it finds the vault now. -/
def sees (w : Processes ι) (i : ι) : Session := { w.session i with vault := w.vault }

/-- A process has taken a step. -/
def put (w : Processes ι) (i : ι) (s : Session) (phase : Enrolling) : Processes ι where
  vault := s.vault
  session := Function.update w.session i s
  phase := Function.update w.phase i phase

@[simp] theorem sees_put (w : Processes ι) (i : ι) (s : Session) (phase : Enrolling) :
    (w.put i s phase).sees i = s := by
  simp [sees, put]

@[simp] theorem phase_put (w : Processes ι) (i : ι) (s : Session) (phase : Enrolling) :
    (w.put i s phase).phase i = phase := by
  simp [put]

theorem put_of_ne (w : Processes ι) {i j : ι} (hj : j ≠ i) (s : Session) (phase : Enrolling) :
    (w.put i s phase).phase j = w.phase j ∧ (w.put i s phase).session j = w.session j := by
  simp [put, hj]

variable (P : Primitives)

/-- One step of one process. -/
inductive Step : Processes ι → EnrollEvent ι → Processes ι → Prop
  | started (w : Processes ι) (i : ι) (req : EnrollRequest) (phase : Enrolling) (s : Session)
      (hidle : w.phase i = .idle)
      (hbegin : Enrolling.begin P req (w.sees i) = (.ok phase, s)) :
      Step w (.started i) (w.put i s phase)
  | refused (w : Processes ι) (i : ι) (req : EnrollRequest) (e : Fault SessionError)
      (s : Session) (hidle : w.phase i = .idle)
      (hbegin : Enrolling.begin P req (w.sees i) = (.error e, s)) :
      Step w (.failed i e) (w.put i s .idle)
  | registered (w : Processes ι) (i : ι) (req : EnrollRequest) (inputs : EnrollInputs)
      (phase : Enrolling) (s : Session) (hphase : w.phase i = .registering req inputs)
      (hnext : (Enrolling.registering req inputs).next P (w.sees i) = (.ok phase, s)) :
      Step w (.touched i) (w.put i s phase)
  | wrapped (w : Processes ι) (i : ι) (req : EnrollRequest) (inputs : EnrollInputs)
      (credentialId : Bytes) (phase : Enrolling) (s : Session)
      (hphase : w.phase i = .wrapping req inputs credentialId)
      (hnext : (Enrolling.wrapping req inputs credentialId).next P (w.sees i) = (.ok phase, s)) :
      Step w (.touched i) (w.put i s phase)
  | saved (w : Processes ι) (i : ι) (req : EnrollRequest) (inputs : EnrollInputs)
      (record : Enrollment) (phase : Enrolling) (s : Session)
      (hphase : w.phase i = .saving req inputs record)
      (hnext : (Enrolling.saving req inputs record).next P (w.sees i) = (.ok phase, s)) :
      Step w (.saved i inputs.enrollments record) (w.put i s phase)
  | failed (w : Processes ι) (i : ι) (e : Fault SessionError) (s : Session)
      (hbusy : w.phase i ≠ .idle) (hnext : (w.phase i).next P (w.sees i) = (.error e, s)) :
      Step w (.failed i e) (w.put i s .idle)

/-- The credentials in the stored list. -/
def storedIds (v : Vault) : Set Bytes :=
  {id | ∃ enrollments, loadEnrollments P .reliable v = .ok enrollments ∧
    id ∈ enrollments.map Enrollment.credentialId}

/-- Every authenticator whose call returned `Ok` is in the stored list. -/
def KeepsEnrolled (events : List (EnrollEvent ι)) (w : Processes ι) : Prop :=
  ∀ i enrollments record, .saved i enrollments record ∈ events →
    record.credentialId ∈ storedIds P w.vault

/-- A call that writes the list has read every credential that is stored. -/
def UpToDate (w : Processes ι) : EnrollEvent ι → Prop
  | .saved _ enrollments _ =>
      ∀ id ∈ storedIds P w.vault, id ∈ enrollments.map Enrollment.credentialId
  | _ => True

/-! ## What a step does to the list -/

variable {P}

/-- A list that one call reads is there for every call. -/
theorem loadEnrollments_reliable {sql : Sql} {v : Vault} {enrollments : List Enrollment}
    (h : loadEnrollments P sql v = .ok enrollments) :
    loadEnrollments P .reliable v = .ok enrollments := by
  simp only [loadEnrollments, Vault.requireMetaBytes, Vault.getMetaBytes, Vault.getMeta,
    Fallible.bind_eq_ok_iff, Fallible.mapError_eq_ok_iff, Sql.attempt_eq_ok_iff] at h ⊢
  obtain ⟨bytes, ⟨value, ⟨stored, ⟨_, hstored⟩, hvalue⟩, hbytes⟩, hread⟩ := h
  exact ⟨bytes, ⟨value, ⟨stored, ⟨rfl, hstored⟩, hvalue⟩, hbytes⟩, hread⟩

theorem storedIds_of_load {sql : Sql} {v : Vault} {enrollments : List Enrollment}
    (h : loadEnrollments P sql v = .ok enrollments) :
    storedIds P v = {id | id ∈ enrollments.map Enrollment.credentialId} := by
  ext id
  constructor
  · rintro ⟨enrollments', hload, hid⟩
    rw [loadEnrollments_reliable h] at hload
    cases hload
    exact hid
  · exact fun hid => ⟨enrollments, loadEnrollments_reliable h, hid⟩

/-- A call that begins reads the list and leaves the vault alone. -/
theorem begin_eq_ok {req : EnrollRequest} {s s' : Session} {phase : Enrolling}
    (h : Enrolling.begin P req s = (.ok phase, s')) :
    s'.vault = s.vault ∧ ∃ inputs, phase = .registering req inputs ∧
      storedIds P s.vault = {id | id ∈ inputs.existingIds} := by
  simp only [Enrolling.begin, Stateful.bind_eq_ok_iff, Stateful.read_eq_ok_iff,
    Stateful.lift_eq_ok_iff] at h
  obtain ⟨_, mid, hunlocked, _, _, ⟨rfl, rfl⟩, inputs, _, ⟨hread, rfl⟩, hphase⟩ := h
  cases hphase
  have hvault := Session.vault_ensureUnlocked req.call.started s
  rw [hunlocked] at hvault
  refine ⟨hvault, inputs, rfl, ?_⟩
  simp only [readInputs, Fallible.bind_eq_ok_iff] at hread
  obtain ⟨_, _, _, _, _, _, enrollments, hload, hinputs⟩ := hread
  cases hinputs
  rw [hvault] at hload
  exact storedIds_of_load hload

theorem vault_begin (req : EnrollRequest) (s : Session) :
    (Enrolling.begin P req s).2.vault = s.vault := by
  simp only [Enrolling.begin, Stateful.bind_apply, Stateful.read_apply, Stateful.lift_apply]
  have hvault := Session.vault_ensureUnlocked req.call.started s
  rcases hunlocked : Session.ensureUnlocked req.call.started s with ⟨e | u, mid⟩
  · rw [hunlocked] at hvault
    exact hvault
  · rw [hunlocked] at hvault
    simp only
    cases readInputs P req.call mid <;> exact hvault

/-- A step that is not the last leaves the session alone, and the call keeps the list
that it has read. -/
theorem next_registering_eq_ok {req : EnrollRequest} {inputs : EnrollInputs} {s s' : Session}
    {phase : Enrolling}
    (h : (Enrolling.registering req inputs).next P s = (.ok phase, s')) :
    s' = s ∧ ∃ credentialId, phase = .wrapping req inputs credentialId := by
  simp only [Enrolling.next, Stateful.bind_eq_ok_iff, Stateful.lift_eq_ok_iff] at h
  obtain ⟨credentialId, _, ⟨_, rfl⟩, hphase⟩ := h
  cases hphase
  exact ⟨rfl, credentialId, rfl⟩

theorem next_wrapping_eq_ok {req : EnrollRequest} {inputs : EnrollInputs} {credentialId : Bytes}
    {s s' : Session} {phase : Enrolling}
    (h : (Enrolling.wrapping req inputs credentialId).next P s = (.ok phase, s')) :
    s' = s ∧ ∃ record, phase = .saving req inputs record := by
  simp only [Enrolling.next, Stateful.bind_eq_ok_iff, Stateful.lift_eq_ok_iff] at h
  obtain ⟨record, _, ⟨_, rfl⟩, hphase⟩ := h
  cases hphase
  exact ⟨rfl, record, rfl⟩

/-- The last step replaces the stored list. -/
theorem next_saving_eq_ok (hP : P.Lawful) {req : EnrollRequest} {inputs : EnrollInputs}
    {record : Enrollment} {s s' : Session} {phase : Enrolling}
    (h : (Enrolling.saving req inputs record).next P s = (.ok phase, s')) :
    phase = .idle ∧
      storedIds P s'.vault =
        {id | id ∈ (inputs.enrollments ++ [record]).map Enrollment.credentialId} := by
  simp only [Enrolling.next, Stateful.bind_eq_ok_iff, Stateful.zoom_eq_ok_iff,
    Stateful.modify_eq_ok_iff] at h
  obtain ⟨_, _, ⟨v, hsave, rfl⟩, _, _, rfl, hphase⟩ := h
  cases hphase
  refine ⟨rfl, ?_⟩
  rw [Session.vault_touch]
  rcases Session.saveEnrollments_cases (P := P) req.call.sql (inputs.enrollments ++ [record])
      s.vault with ⟨e, hrefused⟩ | hsaved
  · rw [hrefused] at hsave
    cases hsave
  · rw [hsaved] at hsave
    cases hsave
    exact storedIds_of_load ((KeyRing.loadEnrollments_of_lookup hP
      Std.ExtTreeMap.getElem?_insert_self .reliable _).mpr ⟨rfl, rfl⟩)

theorem vault_next_of_error {phase : Enrolling} {s s' : Session} {e : Fault SessionError}
    (h : phase.next P s = (.error e, s')) : s'.vault = s.vault := by
  cases phase with
  | idle => cases h
  | registering req inputs =>
      simp only [Enrolling.next, Stateful.bind_apply, Stateful.lift_apply] at h
      cases hregister : registerCredential req.inner inputs with
      | error e' =>
          rw [hregister] at h
          cases h
          rfl
      | ok credentialId =>
          rw [hregister] at h
          cases h
  | wrapping req inputs credentialId =>
      simp only [Enrolling.next, Stateful.bind_apply, Stateful.lift_apply] at h
      cases hrecord : recordFor P req inputs credentialId with
      | error e' =>
          rw [hrecord] at h
          cases h
          rfl
      | ok record =>
          rw [hrecord] at h
          cases h
  | saving req inputs record =>
      simp only [Enrolling.next, Stateful.bind_apply, Stateful.zoom_apply] at h
      rcases Session.saveEnrollments_cases (P := P) req.call.sql (inputs.enrollments ++ [record])
        s.vault with ⟨e', hrefused⟩ | hsaved
      · rw [hrefused] at h
        cases h
        rfl
      · rw [hsaved] at h
        cases h

/-! ## The list as a shared cell -/

/-- The credentials in the list that a call has read. -/
def copy : Enrolling → Option (Set Bytes)
  | .idle => none
  | .registering _ inputs | .wrapping _ inputs _ | .saving _ inputs _ =>
      some {id | id ∈ inputs.existingIds}

variable (P) in
/-- The stored credentials, and what each process believes they are. -/
def cell (w : Processes ι) : SharedCell ι (Set Bytes) where
  value := storedIds P w.vault
  held i := copy (w.phase i)

/-- What a step is to the cell. -/
def access : EnrollEvent ι → SharedCell.Access ι (Set Bytes)
  | .started i => .read i
  | .touched i => .work i
  | .saved i enrollments record =>
      .write i {id | id ∈ (enrollments ++ [record]).map Enrollment.credentialId}
  | .failed i _ => .drop i

theorem cell_put (w : Processes ι) (i : ι) (s : Session) (phase : Enrolling) :
    (w.put i s phase).cell P =
      { value := storedIds P s.vault
        held := Function.update (w.cell P).held i (copy phase) } := by
  simp only [cell, put, SharedCell.mk.injEq, true_and]
  funext j
  by_cases hj : j = i
  · subst hj
    simp
  · simp [hj]

/-- A step of a call that only waits for the hardware does not show in the cell. -/
theorem cell_put_sees (w : Processes ι) (i : ι) {phase : Enrolling}
    (hcopy : copy (w.phase i) = copy phase) : (w.put i (w.sees i) phase).cell P = w.cell P := by
  have hheld : copy phase = (w.cell P).held i := hcopy.symm
  rw [cell_put, hheld, Function.update_eq_self]
  rfl

/-- **The processes refine the shared cell**, one access for each step. -/
theorem Step.access (hP : P.Lawful) {w w' : Processes ι} {e : EnrollEvent ι}
    (h : Step P w e w') : SharedCell.Step (w.cell P) (access e) (w'.cell P) := by
  cases h with
  | started i req phase s hidle hbegin =>
      obtain ⟨hvault, inputs, rfl, hstored⟩ := begin_eq_ok hbegin
      rw [cell_put, hvault]
      have hcopy : copy (.registering req inputs) = some (w.cell P).value :=
        congrArg some hstored.symm
      rw [hcopy]
      exact .read _ _
  | refused i req e s hidle hbegin =>
      have hvault := vault_begin (P := P) req (w.sees i)
      rw [hbegin] at hvault
      rw [cell_put, hvault]
      exact .drop _ _
  | registered i req inputs phase s hphase hnext =>
      obtain ⟨rfl, credentialId, rfl⟩ := next_registering_eq_ok hnext
      rw [cell_put_sees w i (by rw [hphase]; rfl)]
      exact .work _ _
  | wrapped i req inputs credentialId phase s hphase hnext =>
      obtain ⟨rfl, record, rfl⟩ := next_wrapping_eq_ok hnext
      rw [cell_put_sees w i (by rw [hphase]; rfl)]
      exact .work _ _
  | saved i req inputs record phase s hphase hnext =>
      obtain ⟨rfl, hstored⟩ := next_saving_eq_ok hP hnext
      rw [cell_put, hstored]
      have hcopy : (w.cell P).held i = some {id | id ∈ inputs.existingIds} :=
        congrArg copy hphase
      refine .write _ _ _ _ hcopy ?_
      intro id hid
      have hmem : id ∈ (inputs.enrollments ++ [record]).map Enrollment.credentialId := by
        rw [List.map_append]
        exact List.mem_append_left _ hid
      exact hmem
  | failed i e s hbusy hnext =>
      rw [cell_put, vault_next_of_error hnext]
      exact .drop _ _

/-- A save that is up to date leaves the cell undisturbed. -/
theorem Step.undisturbed {w w' : Processes ι} {e : EnrollEvent ι} (h : Step P w e w')
    (hfresh : w.UpToDate P e) : (w.cell P).Undisturbed (Processes.access e) := by
  cases h with
  | saved i req inputs record phase s hphase hnext =>
      intro held hheld
      have hcopy : (w.cell P).held i = some {id | id ∈ inputs.existingIds} :=
        congrArg copy hphase
      rw [hcopy] at hheld
      cases hheld
      exact hfresh
  | _ => trivial

/-- **No enrolled key is lost** in a run in which every call that writes the list has read
every credential stored by then. -/
theorem enrolled_keys_are_kept (hP : P.Lawful) {w w' : Processes ι}
    {events : List (EnrollEvent ι)} (hrun : Run (guarded (Step P) (UpToDate P)) w events w') :
    KeepsEnrolled P events w' := by
  intro i enrollments record hsaved
  have hcells : Run (guarded SharedCell.Step SharedCell.Undisturbed) (w.cell P)
      (events.map access) (w'.cell P) :=
    hrun.map (cell P) access fun _ _ _ hstep =>
      ⟨hstep.1.access hP, hstep.1.undisturbed hstep.2⟩
  have hle := SharedCell.write_le_of_run hcells (List.mem_map_of_mem hsaved)
  apply hle
  simp

/-- The condition is tight: a credential that the call has not read, and that is not the
one it adds, is gone as soon as it writes. -/
theorem not_mem_storedIds_of_saved (hP : P.Lawful) {w w' : Processes ι} {i : ι}
    {enrollments : List Enrollment} {record : Enrollment} {id : Bytes}
    (h : Step P w (.saved i enrollments record) w')
    (hunread : id ∉ enrollments.map Enrollment.credentialId)
    (hother : id ≠ record.credentialId) : id ∉ storedIds P w'.vault := by
  have hcell := h.access hP
  generalize hnow : w'.cell P = c at hcell
  cases hcell with
  | write _ _ _ hheld hadds =>
      have hstored : storedIds P w'.vault =
          {id | id ∈ (enrollments ++ [record]).map Enrollment.credentialId} :=
        congrArg SharedCell.value hnow
      rw [hstored]
      intro hid
      have hmem : id ∈ (enrollments ++ [record]).map Enrollment.credentialId := hid
      rw [List.map_append] at hmem
      rcases List.mem_append.mp hmem with hold | hnew
      · exact hunread hold
      · exact hother (List.mem_singleton.mp hnew)

/-! ## Two processes that enroll a token each -/

theorem readInputs_of_storedIn (hP : P.Lawful) {ring : KeyRing} {call : Call} {s : Session}
    {innerKek : Key} (h : ring.StoredIn P s.vault) (hinner : s.innerKek = some innerKek)
    (hsql : ∀ key, call.sql.fault (.getMeta key) = none) :
    readInputs P call s =
      .ok ⟨innerKek, ring.hmacSalt, ring.kdfSalt, ring.enrollments⟩ := by
  have hload := (KeyRing.loadEnrollments_eq_ok_iff hP h call.sql _).mpr ⟨hsql _, rfl⟩
  have hhmac := (KeyRing.requireMetaBytes_eq_ok_iff h.hmacSalt).mpr ⟨hsql _, rfl⟩
  have hkdf := (KeyRing.requireMetaBytes_eq_ok_iff h.kdfSalt).mpr ⟨hsql _, rfl⟩
  simp only [readInputs, hinner, Fallible.ofOption_some, hhmac, hkdf, hload, Fallible.ok_bind,
    Fallible.mapError_ok]
  rfl

private def spareRequest (id : Bytes) : EnrollRequest where
  call := .atOnce 1
  inner := .token id id
  label := "spare"

/-- A process of an unlocked session gets as far as the write. -/
private theorem exists_run_to_saving {w : Processes ι} {i : ι} {ring : KeyRing} {innerKek : Key}
    {id : Bytes} (hidle : w.phase i = .idle) (hlive : (w.sees i).Live 1)
    (hinner : (w.sees i).innerKek = some innerKek)
    (hstored : ring.StoredIn Primitives.reference w.vault) (hfresh : id ∉ ring.credentialIds) :
    ∃ inputs record w', inputs.enrollments = ring.enrollments ∧ record.credentialId = id ∧
      Run (guarded (Step Primitives.reference) (UpToDate Primitives.reference)) w
        [.started i, .touched i, .touched i] w' ∧
      w'.vault = w.vault ∧ w'.phase i = .saving (spareRequest id) inputs record ∧
      ∀ j, j ≠ i → w'.phase j = w.phase j ∧ w'.session j = w.session j := by
  obtain ⟨inputs, hlist, hread⟩ : ∃ inputs, inputs.enrollments = ring.enrollments ∧
      readInputs Primitives.reference (spareRequest id).call (w.sees i) = .ok inputs :=
    ⟨_, rfl, readInputs_of_storedIn Primitives.reference_lawful hstored hinner fun _ => rfl⟩
  have hbegin : Enrolling.begin Primitives.reference (spareRequest id) (w.sees i) =
      (.ok (.registering (spareRequest id) inputs), w.sees i) := by
    have hunlocked : Session.ensureUnlocked (spareRequest id).call.started (w.sees i) =
        (.ok (), w.sees i) := Session.ensureUnlocked_of_live hlive
    simp [Enrolling.begin, Stateful.bind_apply, hunlocked, hread]
  have hregister : (Enrolling.registering (spareRequest id) inputs).next Primitives.reference
      (w.sees i) = (.ok (.wrapping (spareRequest id) inputs id), w.sees i) := by
    have hnew : id ∉ inputs.existingIds := by
      rw [EnrollInputs.existingIds, hlist]
      exact hfresh
    have hid : registerCredential (spareRequest id).inner inputs = .ok id :=
      if_neg (mt List.contains_iff_mem.mp hnew)
    simp [Enrolling.next, Stateful.bind_apply, hid]
  obtain ⟨record, hid, hrecord⟩ : ∃ record, record.credentialId = id ∧
      recordFor Primitives.reference (spareRequest id) inputs id = .ok record := by
    obtain ⟨wrapBlob, hwrap⟩ := Session.exists_wrapFor_working 1 1 (Nat.le_refl 1)
      (Block.replicate 16 0) id id inputs.hmacSalt inputs.kdfSalt inputs.innerKek
      (if (trim (spareRequest id).label).isEmpty
        then "key-" ++ toString (inputs.enrollments.length + 1) else trim (spareRequest id).label)
    exact ⟨_, rfl, hwrap⟩
  have hwrap : (Enrolling.wrapping (spareRequest id) inputs id).next Primitives.reference
      (w.sees i) = (.ok (.saving (spareRequest id) inputs record), w.sees i) := by
    simp [Enrolling.next, Stateful.bind_apply, hrecord]
  have hfirst := Step.started w i _ _ _ hidle hbegin
  have hsecond := Step.registered _ i _ _ _ _
    (phase_put w i (w.sees i) (.registering (spareRequest id) inputs))
    (by rw [sees_put]; exact hregister)
  have hthird := Step.wrapped _ i _ _ _ _ _
    (phase_put (w.put i (w.sees i) (.registering (spareRequest id) inputs)) i (w.sees i)
      (.wrapping (spareRequest id) inputs id))
    (by rw [sees_put]; exact hwrap)
  refine ⟨inputs, record, _, hlist, hid, .cons ⟨hfirst, trivial⟩ (.cons ⟨hsecond, trivial⟩
    (.single ⟨hthird, trivial⟩)), rfl, phase_put .., ?_⟩
  intro j hj
  simp [put_of_ne _ hj]

/-- The write of a process on a database that refuses nothing. -/
private theorem exists_saved {w : Processes ι} {i : ι} {id : Bytes} {inputs : EnrollInputs}
    {record : Enrollment} (hphase : w.phase i = .saving (spareRequest id) inputs record) :
    ∃ w', Step Primitives.reference w (.saved i inputs.enrollments record) w' ∧
      ∀ j, j ≠ i → w'.phase j = w.phase j := by
  obtain ⟨s, hnext⟩ : ∃ s, (Enrolling.saving (spareRequest id) inputs record).next
      Primitives.reference (w.sees i) = (.ok .idle, s) := ⟨_, rfl⟩
  exact ⟨_, .saved w i _ _ _ _ _ hphase hnext, fun j hj => (put_of_ne w hj _ _).1⟩

/-- Two processes with the session that `initialize` returned. -/
private def twoProcesses (keys : NewKeys) : Processes Bool where
  vault := keys.vault Primitives.reference .empty
  session _ := keys.session Primitives.reference (.atOnce 0) (Block.replicate keyLen 1) .empty 10
  phase _ := .idle

/-- A process that enrolls a token alone finds it in the list. -/
theorem token_enrolled_alone_is_kept :
    ∃ (w w' : Processes Bool) (events : List (EnrollEvent Bool)) (enrollments : List Enrollment)
      (record : Enrollment),
      Run (Step Primitives.reference) w events w' ∧ .saved false enrollments record ∈ events ∧
      KeepsEnrolled Primitives.reference events w' := by
  obtain ⟨keys, hid, _⟩ := Session.exists_initializeVault_working 0 0 (Nat.le_refl 0)
    (Block.replicate 16 0) (Block.replicate keyLen 1) [1] [1] 10
  have hstored : (KeyRing.ofNewKeys keys).StoredIn Primitives.reference (twoProcesses keys).vault :=
    .of_newKeys keys .empty
  have hfresh : [2] ∉ (KeyRing.ofNewKeys keys).credentialIds := by
    simp [KeyRing.credentialIds, KeyRing.ofNewKeys, hid]
  obtain ⟨inputs, record, w₁, hlist, hnew, hrun, hvault, hphase, _⟩ :=
    exists_run_to_saving (w := twoProcesses keys) (i := false) rfl
      ⟨keys.innerKek, 10, rfl, rfl, by decide⟩ rfl hstored hfresh
  obtain ⟨w₂, hsaved, _⟩ := exists_saved hphase
  have hfull : Run (guarded (Step Primitives.reference) (UpToDate Primitives.reference))
      (twoProcesses keys) ([.started false, .touched false, .touched false] ++
        [.saved false inputs.enrollments record]) w₂ := by
    refine hrun.append (.single ⟨hsaved, ?_⟩)
    rintro id ⟨enrollments, hload, hmem⟩
    rw [hvault] at hload
    obtain ⟨_, rfl⟩ := (KeyRing.loadEnrollments_eq_ok_iff Primitives.reference_lawful hstored
      .reliable enrollments).mp hload
    rwa [hlist]
  exact ⟨_, _, _, _, _, hfull.mono fun _ _ _ h => h.1, List.mem_append_right _ List.mem_cons_self,
    enrolled_keys_are_kept Primitives.reference_lawful hfull⟩

/-- Two processes read the list before either writes it. The token of the one that writes
first is not in the list at the end, though its `enroll_key` returned `Ok`. -/
theorem concurrent_enrollment_loses_a_key :
    ∃ (w w' : Processes Bool) (events : List (EnrollEvent Bool)),
      (∀ i, w.phase i = .idle) ∧ Run (Step Primitives.reference) w events w' ∧
      ¬ KeepsEnrolled Primitives.reference events w' := by
  obtain ⟨keys, hid, _⟩ := Session.exists_initializeVault_working 0 0 (Nat.le_refl 0)
    (Block.replicate 16 0) (Block.replicate keyLen 1) [1] [1] 10
  have hstored : (KeyRing.ofNewKeys keys).StoredIn Primitives.reference (twoProcesses keys).vault :=
    .of_newKeys keys .empty
  have hfresh : ∀ n, n ≠ 1 → [n] ∉ (KeyRing.ofNewKeys keys).credentialIds := by
    intro n hn
    simp [KeyRing.credentialIds, KeyRing.ofNewKeys, hid, hn]
  obtain ⟨inputs₁, record₁, w₁, _, hnew₁, hrun₁, hvault₁, hphase₁, hothers₁⟩ :=
    exists_run_to_saving (w := twoProcesses keys) (i := false) rfl
      ⟨keys.innerKek, 10, rfl, rfl, by decide⟩ rfl hstored (hfresh 2 (by decide))
  obtain ⟨hidle, hsession⟩ := hothers₁ true (by decide)
  have hsees : w₁.sees true = (twoProcesses keys).sees true := by
    rw [sees, sees, hsession, hvault₁]
  obtain ⟨inputs₂, record₂, w₂, hlist₂, hnew₂, hrun₂, hvault₂, hphase₂, hothers₂⟩ :=
    exists_run_to_saving (w := w₁) (i := true) hidle
      (hsees ▸ ⟨keys.innerKek, 10, rfl, rfl, by decide⟩) (congrArg Session.innerKek hsees)
      (hvault₁ ▸ hstored) (hfresh 3 (by decide))
  obtain ⟨hphase₁', _⟩ := hothers₂ false (by decide)
  obtain ⟨w₃, hsaved₁, hothers₃⟩ := exists_saved (hphase₁'.trans hphase₁)
  obtain ⟨w₄, hsaved₂, _⟩ := exists_saved ((hothers₃ true (by decide)).trans hphase₂)
  refine ⟨twoProcesses keys, w₄, _, fun _ => rfl,
    (hrun₁.append hrun₂).mono (fun _ _ _ h => h.1) |>.append (.cons hsaved₁ (.single hsaved₂)), ?_⟩
  intro hkeeps
  have hkept := hkeeps false inputs₁.enrollments record₁ (by simp)
  refine not_mem_storedIds_of_saved Primitives.reference_lawful hsaved₂ ?_ ?_ hkept
  · rw [hlist₂, hnew₁]
    exact hfresh 2 (by decide)
  · rw [hnew₁, hnew₂]
    decide

end Processes

end Sypherstore
