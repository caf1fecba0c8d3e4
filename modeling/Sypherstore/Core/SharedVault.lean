/-
# Processes that share a vault

The daemon keeps the database open while commands open it beside it, and nothing orders what they
do. A call that reads or writes the rows does so in one statement. `unlock` and `enroll_key` wait
for a touch between their statements, and there the others come in between. However the calls of
all the processes are interleaved, they act on one map.
-/

import Sypherstore.Core.Answers
import Sypherstore.Core.ConcurrentEnrollment
import Sypherstore.Core.UnlockSoundness

namespace Sypherstore

open Logic

/-! ## The steps of the processes -/

/-- A call that waits for no touch. -/
def Op.isImmediate : Op → Bool
  | .unlock _ => false
  | .enrollKey _ _ => false
  | _ => true

/-- An unlock that waits for the touch, and the vault as it was when the list was read. -/
structure Unlocking where
  call : Call
  inner : InnerKeyProvider
  seen : Vault

/-- Processes that share a vault, with the unlock that each of them is in. -/
structure Sharing (ι : Type) extends Processes ι where
  unlocking : ι → Option Unlocking

inductive SharingEvent (ι : Type) where
  /-- A process has opened the vault; the one that was there before it is gone. -/
  | opened (i : ι) (unsealed : Fallible ProviderError Key)
  /-- A call has returned. -/
  | called (i : ι) (e : Event)
  /-- An unlock has read the list. -/
  | asked (i : ι)
  | enrolling (e : EnrollEvent ι)

/-- The process that a step of enrolling is made by. -/
def EnrollEvent.process {ι : Type} : EnrollEvent ι → ι
  | .started i => i
  | .touched i => i
  | .saved i _ _ => i
  | .failed i _ => i

variable {ι : Type} {P : Primitives} {innerKek outerKek : Key} {c : Contents}

namespace Sharing

/-- Every process has opened the vault. -/
def start (v : Vault) (outerKek : Key) (timeout : ℕ) : Sharing ι where
  vault := v
  session _ := ⟨v, outerKek, none, none, timeout⟩
  phase _ := .idle
  unlocking _ := none

/-- The process is in no call. -/
structure Idle (w : Sharing ι) (i : ι) : Prop where
  phase : w.phase i = .idle
  unlocking : w.unlocking i = none

variable [DecidableEq ι]

/-- The process is left with this session, and in no call. -/
def leave (w : Sharing ι) (i : ι) (s : Session) : Sharing ι where
  toProcesses := w.toProcesses.put i s .idle
  unlocking := Function.update w.unlocking i none

variable (P) in
/-- One step of one process. -/
inductive Step : Sharing ι → SharingEvent ι → Sharing ι → Prop
  | opened {w : Sharing ι} {i : ι} {call : Call} {unsealed : Fallible ProviderError Key}
      {timeout : ℕ} {s : Session}
      (hopen : Session.openLocked call w.vault unsealed timeout = .ok s) :
      Step w (.opened i unsealed) (w.leave i s)
  | called {w : Sharing ι} {i : ι} {call : Call} {op : Op} {r : Fallible SessionError Reply}
      {s : Session} (hidle : w.Idle i) (hop : op.isImmediate)
      (hrun : Session.perform P call op (w.sees i) = (r, s)) :
      Step w (.called i ⟨call, op, r⟩) (w.leave i s)
  | asked {w : Sharing ι} {i : ι} (call : Call) (inner : InnerKeyProvider) (hidle : w.Idle i) :
      Step w (.asked i)
        { w with unlocking := Function.update w.unlocking i (some ⟨call, inner, w.vault⟩) }
  | answered {w : Sharing ι} {i : ι} {u : Unlocking} {r : Fallible SessionError Reply}
      {s : Session} (hasked : w.unlocking i = some u)
      (hrun : Session.perform P u.call (.unlock u.inner) { w.session i with vault := u.seen } =
        (r, s)) :
      Step w (.called i ⟨u.call, .unlock u.inner, r⟩) (w.leave i { s with vault := w.vault })
  | enrolling {w : Sharing ι} {e : EnrollEvent ι} {p : Processes ι}
      (hnone : w.unlocking e.process = none) (hstep : Processes.Step P w.toProcesses e p) :
      Step w (.enrolling e) { w with toProcesses := p }

end Sharing

/-- What a step does to the map. -/
def Contents.share (c : Contents) : SharingEvent ι → Contents
  | .called _ e => c.perform e.op e.succeeded
  | _ => c

/-- The map after a run that starts without secrets. -/
def Contents.shared (events : List (SharingEvent ι)) : Contents :=
  events.foldl Contents.share .empty

/-- Whoever opens the vault gets the key that was sealed, or none. -/
def SharingEvent.UnsealsOnly (outerKek : Key) : SharingEvent ι → Prop
  | .opened _ unsealed => ∀ key, unsealed = .ok key → key = outerKek
  | _ => True

/-! ## What the processes share -/

/-- Every record of the list wraps the inner key. -/
def Wrapping (P : Primitives) (innerKek : Key) (enrollments : List Enrollment) : Prop :=
  ∀ record ∈ enrollments, ∃ wrap, Wrapped P wrap innerKek record.wrapBlob

/-- What a call of `enroll_key` has in hand is right, though it may be out of date. -/
def Enrolling.Carries (P : Primitives) (innerKek : Key) : Enrolling → Prop
  | .idle => True
  | .registering _ inputs => inputs.innerKek = innerKek ∧ Wrapping P innerKek inputs.enrollments
  | .wrapping _ inputs _ => inputs.innerKek = innerKek ∧ Wrapping P innerKek inputs.enrollments
  | .saving _ inputs record => Wrapping P innerKek (inputs.enrollments ++ [record])

/-- The processes refine one map: each of them would if it were alone, and what the calls that
are under way have read is right. -/
structure Shares (P : Primitives) (innerKek outerKek : Key) (w : Sharing ι) (c : Contents) :
    Prop where
  sees : ∀ i, Refines P (KeyRing.Wraps P innerKek) innerKek outerKek (.running (w.sees i)) c
  seen : ∀ i u, w.unlocking i = some u →
    ∃ ring : KeyRing, ring.StoredIn P u.seen ∧ ring.Wraps P innerKek
  carries : ∀ i, (w.phase i).Carries P innerKek

/-- What one process has made of the tables, another finds there. -/
theorem Refines.elsewhere {R : KeyRing → Prop} {c' : Contents} {s t : Session}
    (h : Refines P R innerKek outerKek (.running s) c')
    (ht : Refines P R innerKek outerKek (.running t) c) :
    Refines P R innerKek outerKek (.running { t with vault := s.vault }) c' where
  holds := h.holds
  ring := h.ring
  outer := by
    rintro _ ⟨⟩
    exact ht.outer t rfl
  inner := by
    rintro _ ⟨⟩
    exact ht.inner t rfl

/-- The processes that open a vault without secrets share the empty map. -/
theorem Refines.start {s : Session}
    (h : Refines P (KeyRing.Wraps P innerKek) innerKek outerKek (.running s) .empty)
    (timeout : ℕ) :
    Shares P innerKek outerKek (Sharing.start s.vault outerKek timeout : Sharing ι) .empty where
  sees _ := h.same_tables rfl (h.outer s rfl).symm (.inl rfl)
  seen i u hu := by cases hu
  carries _ := trivial

variable [DecidableEq ι] {w w' : Sharing ι} {i : ι}

/-- A process that takes a step leaves the others a vault that holds what its own session does. -/
theorem Shares.put (h : Shares P innerKek outerKek w c) {c' : Contents} {s : Session}
    {phase : Enrolling}
    (hs : Refines P (KeyRing.Wraps P innerKek) innerKek outerKek (.running s) c')
    (hphase : phase.Carries P innerKek) :
    Shares P innerKek outerKek { w with toProcesses := w.toProcesses.put i s phase } c' where
  sees j := by
    by_cases hj : j = i
    · subst hj
      rw [Processes.sees_put]
      exact hs
    · have hsees : (w.toProcesses.put i s phase).sees j = { w.sees j with vault := s.vault } := by
        simp [Processes.sees, Processes.put, hj]
      rw [hsees]
      exact hs.elsewhere (h.sees j)
  seen := h.seen
  carries j := by
    by_cases hj : j = i
    · subst hj
      simpa [Processes.put] using hphase
    · simpa [Processes.put, hj] using h.carries j

theorem Shares.leave (h : Shares P innerKek outerKek w c) {c' : Contents} {s : Session}
    (hs : Refines P (KeyRing.Wraps P innerKek) innerKek outerKek (.running s) c') :
    Shares P innerKek outerKek (w.leave i s) c' where
  sees := (h.put (P := P) (i := i) hs (show Enrolling.idle.Carries P innerKek from trivial)).sees
  seen j u hu := by
    by_cases hj : j = i
    · subst hj
      simp [Sharing.leave] at hu
    · exact h.seen j u (by simpa [Sharing.leave, hj] using hu)
  carries :=
    (h.put (P := P) (i := i) hs (show Enrolling.idle.Carries P innerKek from trivial)).carries

/-! ## The calls that wait for a touch -/

/-- Looking at the clock changes no key and no row. -/
theorem Refines.ensureUnlocked {R : KeyRing → Prop} {s : Session}
    (h : Refines P R innerKek outerKek (.running s) c) (now : Instant) :
    Refines P R innerKek outerKek (.running (Session.ensureUnlocked now s).2) c := by
  by_cases hlive : s.Live now
  · rw [Session.ensureUnlocked_of_live hlive]
    exact h
  · obtain ⟨_, hinner, hvault, houter, _⟩ := Session.tick_of_not_live hlive
    rw [Session.ensureUnlocked_of_not_live hlive]
    exact h.same_tables hvault houter (.inl hinner)

/-- An unlock that has read the list some time ago admits the inner key or nothing. -/
theorem Refines.unlocked_from (hP : P.Lawful) (hbinds : P.aead.BindsKey) {s s' : Session}
    (h : Refines P (KeyRing.Wraps P innerKek) innerKek outerKek (.running s) c) {call : Call}
    {inner : InnerKeyProvider} {seen : Vault} {ring : KeyRing} (hstored : ring.StoredIn P seen)
    (hwraps : ring.Wraps P innerKek) {r : Fallible SessionError Reply}
    (hrun : Session.perform P call (.unlock inner) { s with vault := seen } = (r, s')) :
    Refines P (KeyRing.Wraps P innerKek) innerKek outerKek
      (.running { s' with vault := s.vault }) c := by
  have hs' : s' = (Session.unlock P call inner { s with vault := seen }).2 := by
    have hsnd := Stateful.snd_bind_pure (Session.unlock P call inner)
      (fun _ => Reply.done) { s with vault := seen }
    exact (congrArg Prod.snd hrun).symm.trans hsnd
  rcases Session.unlock_cases P call inner { s with vault := seen } with ⟨e, hfailed⟩ |
    ⟨found, hassert, hunlocked⟩
  · rw [hs', hfailed]
    exact h
  · obtain ⟨_, hadmits⟩ := (KeyRing.assertInnerKey_eq_ok_iff hP hstored inner found).mp hassert
    obtain rfl := (KeyRing.Wraps.protects hP hbinds innerKek).admits ring inner _ found hwraps
      trivial hadmits
    rw [hs', hunlocked]
    exact h.same_tables rfl rfl (.inr (.inr rfl))

/-- What a call reads for enrolling is right when it reads it. -/
theorem Refines.readInputs (hP : P.Lawful) {s : Session}
    (h : Refines P (KeyRing.Wraps P innerKek) innerKek outerKek (.running s) c) {call : Call}
    {inputs : EnrollInputs} (hread : Sypherstore.readInputs P call s = .ok inputs) :
    inputs.innerKek = innerKek ∧ Wrapping P innerKek inputs.enrollments := by
  obtain ⟨ring, hring, hwraps⟩ := h.ring
  have hstored : ring.StoredIn P s.vault := hring
  simp only [Sypherstore.readInputs, Fallible.bind_eq_ok_iff, Fallible.ofOption_eq_ok_iff,
    KeyRing.loadEnrollments_eq_ok_iff hP hstored] at hread
  obtain ⟨found, hfound, _, _, _, _, _, ⟨_, rfl⟩, hinputs⟩ := hread
  cases hinputs
  refine ⟨?_, hwraps⟩
  rcases h.inner s rfl with hnone | hkey
  · rw [hnone] at hfound
    cases hfound
  · exact Option.some.inj (hfound.symm.trans hkey)

/-- A record that is made from what was read wraps the inner key. -/
theorem Wrapping.recordFor {req : EnrollRequest} {inputs : EnrollInputs} {credentialId : Bytes}
    {record : Enrollment} (hkey : inputs.innerKek = innerKek)
    (h : Wrapping P innerKek inputs.enrollments)
    (hrecord : Sypherstore.recordFor P req inputs credentialId = .ok record) :
    Wrapping P innerKek (inputs.enrollments ++ [record]) := by
  obtain ⟨secret, wrapBlob, _, hwrap, rfl⟩ := (Session.wrapFor_eq_ok_iff ..).mp hrecord
  obtain ⟨nonce, ct, _, henc, rfl⟩ := (Session.wrapKey_eq_ok_iff ..).mp hwrap
  rw [hkey] at henc
  intro found hfound
  rcases List.mem_append.mp hfound with hold | hnew
  · exact h found hold
  · obtain rfl := List.mem_singleton.mp hnew
    exact ⟨_, nonce, ct, henc, rfl⟩

/-- Saving a list of records that wrap the inner key changes no row, whatever was stored. -/
theorem Refines.saved {s : Session}
    (h : Refines P (KeyRing.Wraps P innerKek) innerKek outerKek (.running s) c) {call : Call}
    {enrollments : List Enrollment} (hwraps : Wrapping P innerKek enrollments) :
    Refines P (KeyRing.Wraps P innerKek) innerKek outerKek
      (.running (s.enrolled P call enrollments)) c where
  holds := h.holds.congr (by rw [Process.vault, Session.enrolled, Session.vault_touch]; rfl)
  ring := by
    obtain ⟨ring, hstored, _⟩ := h.ring
    exact ⟨_, hstored.enrolled enrollments, hwraps⟩
  outer := by
    rintro _ ⟨⟩
    rw [Session.enrolled, Session.outerKek_touch]
    exact h.outer s rfl
  inner := by
    rintro _ ⟨⟩
    rw [Session.enrolled, Session.innerKek_touch]
    exact h.inner s rfl

/-- A call that fails on its way leaves the session as it found it. -/
theorem Enrolling.next_of_error {phase : Enrolling} {s s' : Session} {e : Fault SessionError}
    (h : phase.next P s = (.error e, s')) : s' = s := by
  cases phase with
  | idle => cases h
  | registering req inputs =>
      simp only [Enrolling.next, Stateful.bind_apply, Stateful.lift_apply] at h
      cases hregister : registerCredential req.inner inputs <;> rw [hregister] at h <;> cases h
      rfl
  | wrapping req inputs credentialId =>
      simp only [Enrolling.next, Stateful.bind_apply, Stateful.lift_apply] at h
      cases hrecord : recordFor P req inputs credentialId <;> rw [hrecord] at h <;> cases h
      rfl
  | saving req inputs record =>
      simp only [Enrolling.next, Stateful.bind_apply, Stateful.zoom_apply] at h
      rcases Session.saveEnrollments_cases (P := P) req.call.sql (inputs.enrollments ++ [record])
        s.vault with ⟨e', hrefused⟩ | hsaved
      · rw [hrefused] at h
        cases h
        rfl
      · rw [hsaved] at h
        cases h

theorem Enrolling.snd_begin (req : EnrollRequest) (s : Session) :
    (Enrolling.begin P req s).2 = (Session.ensureUnlocked req.call.started s).2 := by
  simp only [Enrolling.begin, Stateful.bind_apply, Stateful.read_apply, Stateful.lift_apply]
  rcases Session.ensureUnlocked req.call.started s with ⟨e | u, mid⟩
  · rfl
  · simp only
    cases Sypherstore.readInputs P req.call mid <;> rfl

/-- The last step saves the list that the call has read, with one more record. -/
theorem Enrolling.next_saving {req : EnrollRequest} {inputs : EnrollInputs} {record : Enrollment}
    {s s' : Session} {phase : Enrolling}
    (h : (Enrolling.saving req inputs record).next P s = (.ok phase, s')) :
    phase = .idle ∧ s' = s.enrolled P req.call (inputs.enrollments ++ [record]) := by
  simp only [Enrolling.next, Stateful.bind_eq_ok_iff, Stateful.zoom_eq_ok_iff,
    Stateful.modify_eq_ok_iff] at h
  obtain ⟨_, _, ⟨v, hsave, rfl⟩, _, _, rfl, hphase⟩ := h
  cases hphase
  rcases Session.saveEnrollments_cases (P := P) req.call.sql (inputs.enrollments ++ [record])
      s.vault with ⟨e, hrefused⟩ | hsaved
  · rw [hrefused] at hsave
    cases hsave
  · rw [hsaved] at hsave
    cases hsave
    exact ⟨rfl, rfl⟩

/-- A step of enrolling changes no row. -/
theorem Shares.enrolling (hP : P.Lawful) (h : Shares P innerKek outerKek w c)
    {e : EnrollEvent ι} {p : Processes ι} (hstep : Processes.Step P w.toProcesses e p) :
    Shares P innerKek outerKek { w with toProcesses := p } c := by
  cases hstep with
  | started i req phase s hidle hbegin =>
      have hs := (h.sees i).ensureUnlocked req.call.started
      simp only [Enrolling.begin, Stateful.bind_eq_ok_iff, Stateful.read_eq_ok_iff,
        Stateful.lift_eq_ok_iff] at hbegin
      obtain ⟨_, mid, hunlocked, _, _, ⟨rfl, rfl⟩, inputs, _, ⟨hread, rfl⟩, hphase⟩ := hbegin
      cases hphase
      rw [hunlocked] at hs
      exact h.put hs (hs.readInputs hP hread)
  | refused i req e s hidle hbegin =>
      have hs := (h.sees i).ensureUnlocked req.call.started
      rw [← Enrolling.snd_begin (P := P), hbegin] at hs
      exact h.put hs trivial
  | registered i req inputs phase s hphase hnext =>
      obtain ⟨rfl, credentialId, rfl⟩ := Processes.next_registering_eq_ok hnext
      have hcarries := h.carries i
      rw [hphase] at hcarries
      exact h.put (h.sees i) hcarries
  | wrapped i req inputs credentialId phase s hphase hnext =>
      have hcarries := h.carries i
      rw [hphase] at hcarries
      simp only [Enrolling.next, Stateful.bind_eq_ok_iff, Stateful.lift_eq_ok_iff] at hnext
      obtain ⟨record, _, ⟨hrecord, rfl⟩, hsaving⟩ := hnext
      cases hsaving
      exact h.put (h.sees i) (hcarries.2.recordFor hcarries.1 hrecord)
  | saved i req inputs record phase s hphase hnext =>
      have hcarries := h.carries i
      rw [hphase] at hcarries
      obtain ⟨rfl, rfl⟩ := Enrolling.next_saving hnext
      exact h.put ((h.sees i).saved hcarries) trivial
  | failed i e s hbusy hnext =>
      obtain rfl := Enrolling.next_of_error hnext
      exact h.put (h.sees i) trivial

/-! ## Runs -/

theorem Op.usesOnly_true (op : Op) : op.UsesOnly fun _ => True := by
  cases op <;> trivial

/-- **Step lemma.** Whoever takes a step does to the map what the step says. -/
theorem Shares.step (hP : P.Lawful) (hbinds : P.aead.BindsKey) {e : SharingEvent ι}
    (h : Shares P innerKek outerKek w c) (hsealed : e.UnsealsOnly outerKek)
    (hstep : Sharing.Step P w e w') : Shares P innerKek outerKek w' (c.share e) := by
  cases hstep with
  | @opened i call unsealed timeout s hopen =>
      obtain ⟨_, _, key, hunsealed, rfl⟩ := (Session.openLocked_eq_ok_iff ..).mp hopen
      obtain rfl := hsealed key hunsealed
      have hs : Refines P (KeyRing.Wraps P innerKek) innerKek key
          (.running ⟨w.vault, key, none, none, timeout⟩) c := by
        exact (h.sees i).same_tables rfl ((h.sees i).outer _ rfl).symm (.inl rfl)
      exact h.leave hs
  | @called i call op r s hidle hop hrun =>
      have heffect := Session.perform_effect P call op (w.sees i)
      rw [hrun] at heffect
      exact h.leave ((h.sees i).effect hP (KeyRing.Wraps.protects hP hbinds innerKek)
        op.usesOnly_true heffect)
  | @asked i call inner hidle =>
      refine ⟨h.sees, fun j u hu => ?_, h.carries⟩
      dsimp only at hu
      by_cases hj : j = i
      · subst hj
        rw [Function.update_self] at hu
        cases hu
        exact (h.sees j).ring
      · rw [Function.update_of_ne hj] at hu
        exact h.seen j u hu
  | @answered i u r s hasked hrun =>
      obtain ⟨ring, hstored, hwraps⟩ := h.seen i u hasked
      have hs := (h.sees i).unlocked_from hP hbinds hstored hwraps hrun
      exact h.leave hs
  | enrolling hnone henroll => exact h.enrolling hP henroll

/-- What a process is answered is right for the map at that moment. -/
theorem Shares.fits (hP : P.Lawful) {e : Event} (h : Shares P innerKek outerKek w c)
    (hstep : Sharing.Step P w (.called i e) w') : e.Fits P c := by
  cases hstep with
  | @called _ call op r s hidle hop hrun =>
      have hcall : Session.Step P (w.sees i) ⟨call, op, r⟩ s := hrun
      exact (h.sees i).fits hP hcall
  | answered hasked hrun =>
      -- An unlock looks for no row.
      unfold Event.Fits
      split
      · trivial
      · rintro id ⟨⟩
      · trivial

/-- **Run lemma.** -/
theorem Shares.run (hP : P.Lawful) (hbinds : P.aead.BindsKey) {events : List (SharingEvent ι)}
    (h : Shares P innerKek outerKek w c) (hsealed : ∀ e ∈ events, e.UnsealsOnly outerKek)
    (hrun : Run (Sharing.Step P) w events w') :
    Shares P innerKek outerKek w' (events.foldl Contents.share c) := by
  refine hrun.simulation (R := fun w c => Shares P innerKek outerKek w c) ?_ h
  intro u e u' c he hu hstep
  exact hu.step hP hbinds (hsealed e he) hstep

/-- **Any number of processes share one map.** After `initialize`, and however the calls of the
processes that have opened the vault are interleaved, whichever of them come, go, wait for a touch
or fail: every call that was answered was answered as the map at that moment says, and every
process acts as the map that the successful calls of all of them add up to. -/
theorem processes_share_a_map {σ : Type} (hP : P.Lawful) (hbinds : P.aead.BindsKey)
    {outer : OuterKeyProvider σ} {inner : InnerKeyProvider} {created : Call} {timeout timeout' : ℕ}
    {t t' : σ} {v₀ : Vault} {s₀ : Session} {events : List (SharingEvent ι)}
    (hcreate : Session.initializeVault P created outer inner timeout (.empty, t) =
      (.ok s₀, (v₀, t')))
    (hrun : Run (Sharing.Step P) (Sharing.start v₀ s₀.outerKek timeout') events w)
    (hsealed : ∀ e ∈ events, e.UnsealsOnly s₀.outerKek) :
    (∀ before i e after, events = before ++ .called i e :: after →
      e.Fits P (Contents.shared before)) ∧
    ∀ i call, ActsAsMap P call (w.sees i) (Contents.shared events) := by
  obtain ⟨_, _, outerKek, keys, _, hprepare, rfl, rfl⟩ :=
    (Session.initializeVault_eq_ok_iff ..).mp hcreate
  have hcreated : Refines P (KeyRing.Wraps P keys.innerKek) keys.innerKek outerKek
      (.running (keys.session P created outerKek .empty timeout)) .empty :=
    .of_newKeys keys timeout (.of_prepareKeys hprepare)
  have hstart : Shares P keys.innerKek outerKek
      (Sharing.start (keys.vault P .empty) outerKek timeout' : Sharing ι) .empty :=
    hcreated.start timeout'
  refine ⟨?_, ?_⟩
  · rintro before i e after rfl
    obtain ⟨mid, hbefore, hrest⟩ := Run.append_iff.mp hrun
    have hmid := hstart.run hP hbinds (fun a ha => hsealed a (List.mem_append_left _ ha)) hbefore
    cases hrest with
    | cons hstep _ => exact hmid.fits hP hstep
  · intro i call
    exact ((hstart.run hP hbinds hsealed hrun).sees i).actsAsMap hP

private def sharedMeta : SecretMeta where
  id := Block.replicate 16 1
  name := "GitHub"
  domain := "github.com"
  application := ""
  secretType := .password
  username := "octocat"
  tags := []
  createdAt := 1
  updatedAt := 1

private def sharedPayload : SecretPayload where
  value := ascii "correct-horse"
  notes := none
  extra := []

/-- A process that is asked for a touch at once is unlocked. -/
private theorem unlocks {call : Call} {inner : InnerKeyProvider}
    {r : Fallible SessionError Reply} {s : Session} (hidle : w.Idle i)
    (hrun : Session.perform P call (.unlock inner) (w.sees i) = (r, s)) :
    Run (Sharing.Step P) w [.asked i, .called i ⟨call, .unlock inner, r⟩]
      (w.leave i { s with vault := w.vault }) := by
  have hanswered := Sharing.Step.answered (P := P) (i := i) (r := r) (s := s) (w :=
    { w with unlocking := Function.update w.unlocking i (some ⟨call, inner, w.vault⟩) })
    (Function.update_self i _ w.unlocking) hrun
  have hsame : Sharing.leave { w with
      unlocking := Function.update w.unlocking i (some ⟨call, inner, w.vault⟩) } i
      { s with vault := w.vault } = w.leave i { s with vault := w.vault } := by
    simp [Sharing.leave]
  rw [← hsame]
  exact .cons (.asked call inner hidle) (.single hanswered)

/-- What the first process adds, the second opens. -/
theorem what_one_process_adds_another_opens :
    ∃ (v : Vault) (outerKek : Key) (events : List (SharingEvent Bool)) (w : Sharing Bool),
      Run (Sharing.Step Primitives.reference) (Sharing.start v outerKek 10) events w ∧
      SharingEvent.called false ⟨.atOnce 1, .add sharedMeta sharedPayload, .ok .done⟩ ∈ events ∧
      (Session.openSecret .reference (.atOnce 2) sharedMeta.id (w.sees true)).1 =
        .ok sharedPayload := by
  obtain ⟨keys, hid, hprepare, hcreate⟩ := Session.exists_initializeVault_working 0 0
    (Nat.le_refl 0) (Block.replicate 16 0) (Block.replicate keyLen 1) [1] [1] 10
  let w₀ : Sharing Bool :=
    Sharing.start (keys.vault .reference .empty) (Block.replicate keyLen 1) 10
  have hunlock : ∀ v : Vault, v.metaTable = (keys.vault .reference .empty).metaTable →
      Session.perform .reference (.atOnce 0) (.unlock (.token [1] [1]))
        ⟨v, Block.replicate keyLen 1, none, none, 10⟩ =
        (.ok .done, ⟨v, Block.replicate keyLen 1, some keys.innerKek, some (0 + 10), 10⟩) := by
    intro v hmeta
    exact Stateful.bind_of_ok (KeyRing.unlock_of_admits (.atOnce 0) Primitives.reference_lawful _
      ((KeyRing.StoredIn.of_newKeys keys .empty).congr hmeta) (fun _ _ => rfl)
      (admits_of_token hprepare hid))
  obtain ⟨s, hadd, hmeta⟩ : ∃ s, Session.perform .reference (.atOnce 1)
      (.add sharedMeta sharedPayload) ⟨keys.vault .reference .empty, Block.replicate keyLen 1,
        some keys.innerKek, some (0 + 10), 10⟩ = (.ok .done, s) ∧
      s.vault.metaTable = (keys.vault .reference .empty).metaTable := ⟨_, rfl, rfl⟩
  have hfirst := unlocks (P := .reference) (w := w₀) (i := false) ⟨rfl, rfl⟩ (hunlock _ rfl)
  have himmediate : (Op.add sharedMeta sharedPayload).isImmediate := rfl
  have hsecond := Sharing.Step.called (P := .reference) (i := false) (w :=
    w₀.leave false ⟨keys.vault .reference .empty, Block.replicate keyLen 1, some keys.innerKek,
      some (0 + 10), 10⟩) ⟨rfl, rfl⟩ himmediate hadd
  have hthird := unlocks (P := .reference) (i := true) (w := Sharing.leave (w₀.leave false
    ⟨keys.vault .reference .empty, Block.replicate keyLen 1, some keys.innerKek, some (0 + 10),
      10⟩) false s) ⟨rfl, rfl⟩ (hunlock s.vault hmeta)
  have hrun := hfirst.append ((Run.single hsecond).append hthird)
  obtain ⟨_, hmap⟩ := processes_share_a_map Primitives.reference_lawful
    Primitives.reference_bindsKey hcreate hrun (by simp [SharingEvent.UnsealsOnly])
  have hopened := (hmap true (.atOnce 2)).openSecret ⟨keys.innerKek, 10, rfl, rfl, by decide⟩ rfl
    sharedMeta.id
  have hsecret : (Contents.shared
      ([.asked false, .called false ⟨.atOnce 0, .unlock (.token [1] [1]), .ok .done⟩] ++
        ([.called false ⟨.atOnce 1, .add sharedMeta sharedPayload, .ok .done⟩] ++
          [.asked true, .called true ⟨.atOnce 0, .unlock (.token [1] [1]), .ok .done⟩]) :
        List (SharingEvent Bool))).secret sharedMeta.id = some (sharedMeta, sharedPayload) := rfl
  rw [hsecret] at hopened
  exact ⟨_, _, _, _, hrun, by simp, hopened⟩

end Sypherstore
