/-
# Deletions

A row leaves the store in one place of the daemon only, past an assertion that the handler
of the request has waited for. The thread of that assertion is younger than the request,
so no unlock from before can stand in for it, and the handler takes nothing else on from
the `select!` until it is over.
-/

import Sypherstore.App.DaemonKeeping
import Sypherstore.App.PinDelivery
import Sypherstore.Core.UnlockSoundness

namespace Sypherstore

open Logic

namespace Daemon

variable {P : Primitives} {s s' : Daemon} {session : Session} {past : List Action}
  {r : UiRequest} {row : String}

/-! ## Where a row can go -/

/-- The row is in the store of the session. -/
def HasRow (row : String) (s : Daemon) : Prop := s.session.HasRow row

/-- Calls other than a deletion keep the row, whatever the popup is told. -/
theorem kept_hasRow (P : Primitives) (row : String) :
    Kept P False fun session _ => session.HasRow row where
  told _ _ hrow := hrow
  called _ _ _ hop := Session.keeps_row hop

/-- The worker removes a row only past the unlock of a deletion. -/
theorem hasRow_work {input : WorkInput} (h : s.work P input = some s')
    (hnot : ∀ id, s.worker ≠ .authorized (.delete id)) (hrow : s.HasRow row) : s'.HasRow row :=
  Meets.work (kept_hasRow P row) hnot hrow h

/-- A thread removes no row. -/
theorem hasRow_threadStep {t : ℕ} {thread : Thread} {move : ThreadMove}
    (h : s.threadStep P t thread move = some s') (hrow : s.HasRow row) : s'.HasRow row := by
  by_cases hmove : move = .request
  · subst hmove
    dsimp only [threadStep] at h
    split at h
    · cases h
      exact hrow
    · cases h
  · exact Meets.threadStep (kept_hasRow P row) hmove hrow h

/-- **A row leaves the store only at the end of a deletion**, and it leaves alone. -/
theorem row_removed {action : Action} (hstep : Step P s action s') (hrow : s.HasRow row)
    (hgone : ¬ s'.HasRow row) :
    ∃ id, row = P.uuidText id ∧ s.worker = .authorized (.delete id) ∧
      s'.session.vault.secrets = s.session.vault.secrets.erase row := by
  cases action with
  | send r =>
      cases hstep
      exact absurd hrow hgone
  | handle =>
      dsimp only [Step, next] at hstep
      split at hstep
      · cases hstep
      · cases hstep
        exact absurd hrow hgone
  | take arm =>
      cases take_effect hstep with
      | entered hidle hto => exact absurd hrow hgone
      | @accepted r rest hidle hrequests =>
          have hrest : HasRow row { s with requests := rest } := hrow
          exact absurd (Meets.accept (kept_hasRow P row) hrest r) hgone
  | work input =>
      by_cases hat : ∃ id, s.worker = .authorized (.delete id)
      · obtain ⟨id, hat⟩ := hat
        have hwork : s.onAuthorized P input (.delete id) = some s' := by
          simpa [Step, next, work, hat] using hstep
        obtain ⟨found, hrun, hwork⟩ := Option.bind_eq_some_iff.mp hwork
        obtain ⟨_, rfl⟩ := (withSession_eq_some_iff ..).mp hrun
        have hsession : s'.session = (Session.delete P input.call id s.session).2 := by
          cases hwork
          rcases (Session.delete P input.call id s.session).1 with (e | _) | _ <;> rfl
        rcases Session.delete_cases P input.call id s.session with ⟨e, hfailed⟩ | ⟨hmem, hdone⟩
        · rw [hfailed] at hsession
          exact absurd (by rwa [HasRow, hsession]) hgone
        · rw [hdone] at hsession
          have hsecrets : s'.session.vault.secrets =
              s.session.vault.secrets.erase (P.uuidText id) := by rw [hsession]
          have hself : row = P.uuidText id := by
            by_contra hne
            refine hgone ?_
            rw [HasRow, Session.HasRow, hsecrets]
            exact Table.mem_erase.mpr ⟨hne, hrow⟩
          exact ⟨id, hself, hat, hself ▸ hsecrets⟩
      · exact absurd (hasRow_work hstep (fun id heq => hat ⟨id, heq⟩) hrow) hgone
  | thread t move =>
      obtain ⟨thread, _, hmove⟩ := Option.bind_eq_some_iff.mp hstep
      exact absurd (hasRow_threadStep hmove hrow) hgone

/-! ## What has happened since the request was taken -/

/-- The worker took this request and has taken nothing else since, and a thread with this
number was not there yet when it did. -/
inductive Since (P : Primitives) (session : Session) (r : UiRequest) (t : ℕ) :
    List Action → Daemon → Prop
  | intro {before later : List Action} {since s : Daemon}
      (hbefore : Run (Step P) (start session) before since)
      (hlater : Run (Step P) since (.take (.request r) :: later) s)
      (hnew : since.threads.length ≤ t) (hsingle : ∀ arm, .take arm ∉ later) :
      Since P session r t (before ++ .take (.request r) :: later) s

/-- After the worker had taken this request, and before it took anything else, a thread that
was started in between asserted, and what the authenticator answered opened the vault. -/
inductive FreshlyAsserted (P : Primitives) (session : Session) (r : UiRequest) :
    List Action → Prop
  | intro {before asserting rest : List Action} {since mid : Daemon} {t : ℕ} {thread : Thread}
      {call : Call} {inner : InnerKeyProvider} {key : Key}
      (hbefore : Run (Step P) (start session) before since)
      (hasserting : Run (Step P) since (.take (.request r) :: asserting) mid)
      (hnew : since.threads.length ≤ t) (hthread : mid.threads[t]? = some thread)
      (hkind : thread.kind = .reassert)
      (hverified : Session.assertInnerKey P call inner mid.session = .ok key)
      (hsingle : ∀ arm, .take arm ∉ asserting ++ .thread t (.finish call inner) :: rest) :
      FreshlyAsserted P session r
        (before ++ .take (.request r) :: (asserting ++ .thread t (.finish call inner) :: rest))

theorem Since.step {t : ℕ} {action : Action} (h : Since P session r t past s)
    (haction : ∀ arm, action ≠ .take arm) (hstep : Step P s action s') :
    Since P session r t (past ++ [action]) s' := by
  obtain ⟨hbefore, hlater, hnew, hsingle⟩ := h
  rw [List.append_assoc, List.cons_append]
  refine ⟨hbefore, hlater.append (.single hstep), hnew, fun arm hmem => ?_⟩
  rcases List.mem_append.mp hmem with hold | hlast
  · exact hsingle arm hold
  · exact haction arm (List.mem_singleton.mp hlast).symm

theorem FreshlyAsserted.append {action : Action} (h : FreshlyAsserted P session r past)
    (haction : ∀ arm, action ≠ .take arm) : FreshlyAsserted P session r (past ++ [action]) := by
  obtain ⟨hbefore, hasserting, hnew, hthread, hkind, hverified, hsingle⟩ := h
  rw [List.append_assoc, List.cons_append, List.append_assoc, List.cons_append]
  refine ⟨hbefore, hasserting, hnew, hthread, hkind, hverified, fun arm hmem => ?_⟩
  rw [← List.cons_append, ← List.append_assoc, List.mem_append] at hmem
  rcases hmem with hold | hlast
  · exact hsingle arm hold
  · exact haction arm (List.mem_singleton.mp hlast).symm

/-- An authenticator that is not used opens nothing. -/
theorem assertInnerKey_refusing {call : Call} {e : ProviderError} {u : Session} {key : Key} :
    Session.assertInnerKey P call (.refusing e) u ≠ .ok key := by
  intro h
  simp [Session.assertInnerKey, InnerKeyProvider.refusing, Fallible.bind_eq_ok_iff] at h

/-- A thread returns in one step only. -/
theorem phase_of_threadStep {t : ℕ} {thread : Thread} {move : ThreadMove}
    (ht : s.threads[t]? = some thread) (h : s.threadStep P t thread move = some s')
    (hmove : ∀ call inner, move ≠ .finish call inner) :
    ∃ phase, s'.threads[t]? = some { thread with phase } ∧ ∀ result, phase ≠ .returned result := by
  cases move with
  | finish call inner => exact absurd rfl (hmove call inner)
  | announce =>
      dsimp only [threadStep] at h
      split at h
      · split at h <;> cases h <;> exact ⟨_, getElem?_setPhase_self ht _, by simp⟩
      · cases h
        exact ⟨_, getElem?_setPhase_self ht _, by simp⟩
      · cases h
  | tick call =>
      dsimp only [threadStep] at h
      split at h
      · obtain ⟨found, htick, h⟩ := Option.bind_eq_some_iff.mp h
        obtain ⟨session, hfound⟩ := tickSession_eq_some htick
        cases h
        exact ⟨_, getElem?_setPhase_self (by rwa [hfound]) _, by simp⟩
      · cases h
  | refresh call =>
      dsimp only [threadStep] at h
      split at h
      · obtain ⟨found, hrun, h⟩ := Option.bind_eq_some_iff.mp h
        obtain ⟨_, rfl⟩ := (withSession_eq_some_iff ..).mp hrun
        cases h
        unfold refreshed
        split <;> exact ⟨_, getElem?_setPhase_self ht _, by simp⟩
      · cases h
  | _ =>
      dsimp only [threadStep] at h
      split at h <;> cases h <;> exact ⟨_, getElem?_setPhase_self ht _, by simp⟩

/-- A thread returns `Ok` only with what an authenticator answered. -/
theorem asserted_of_threadStep {t : ℕ} {thread : Thread} {move : ThreadMove}
    (ht : s.threads[t]? = some thread) (h : s.threadStep P t thread move = some s')
    (hreturned : s'.threads[t]? = some { thread with phase := .returned (.ok ()) }) :
    ∃ call inner key, move = .finish call inner ∧
      Session.assertInnerKey P call inner s.session = .ok key := by
  have hunlock : ∀ call inner, (s.finishUnlock P t call inner).threads[t]? =
      some { thread with phase := .returned (.ok ()) } →
      ∃ key, Session.assertInnerKey P call inner s.session = .ok key := by
    intro call inner hfinished
    have hself := getElem?_setPhase_self (s := { s with
      session := (Session.unlock P call inner s.session).2, holder := none }) ht
      (.returned (Session.unlock P call inner s.session).1)
    rw [show (s.finishUnlock P t call inner).threads[t]? = _ from hself] at hfinished
    rcases Session.unlock_cases P call inner s.session with ⟨e, hfailed⟩ | ⟨key, hassert, _⟩
    · rw [hfailed] at hfinished
      simp at hfinished
    · exact ⟨key, hassert⟩
  cases move with
  | finish call inner =>
      dsimp only [threadStep] at h
      split at h
      · cases h
        obtain ⟨key, hassert⟩ := hunlock call inner hreturned
        exact ⟨call, inner, key, rfl, hassert⟩
      · cases h
        obtain ⟨key, hassert⟩ := hunlock call inner hreturned
        exact ⟨call, inner, key, rfl, hassert⟩
      · cases h
        obtain ⟨key, hassert⟩ := hunlock call _ hreturned
        exact absurd hassert assertInnerKey_refusing
      · cases h
  | _ =>
      obtain ⟨phase, hphase, hnot⟩ := phase_of_threadStep ht h (by simp)
      rw [hphase, Option.some.injEq, Thread.mk.injEq] at hreturned
      exact absurd hreturned.2 (hnot _)

/-- Where the handler is, and what it has behind it. -/
structure Traced (P : Primitives) (session : Session) (past : List Action) (s : Daemon) :
    Prop where
  run : Run (Step P) (start session) past s
  handling : ∀ r, s.worker = .handling r → Since P session r s.threads.length past s
  awaiting : ∀ r t, s.worker = .awaiting r t → Since P session r t past s ∧
    ∃ phase, s.threads[t]? = some { kind := .reassert, phase } ∧
      (phase = .returned (.ok ()) → FreshlyAsserted P session r past)
  authorized : ∀ id, s.worker = .authorized (.delete id) →
    FreshlyAsserted P session (.delete id) past

theorem traced_start : Traced P session [] (start session) where
  run := .nil _
  handling := by rintro r ⟨⟩
  awaiting := by rintro r t ⟨⟩
  authorized := by rintro id ⟨⟩

/-- A step that leaves the worker and the threads where they are. -/
theorem Traced.of_same {action : Action} (h : Traced P session past s)
    (haction : ∀ arm, action ≠ .take arm) (hstep : Step P s action s')
    (hworker : s'.worker = s.worker) (hthreads : s'.threads = s.threads) :
    Traced P session (past ++ [action]) s' where
  run := h.run.append (.single hstep)
  handling r hat := by
    rw [hthreads]
    exact (h.handling r (hworker ▸ hat)).step haction hstep
  awaiting r t hat := by
    obtain ⟨hsince, phase, ht, hok⟩ := h.awaiting r t (hworker ▸ hat)
    rw [hthreads]
    exact ⟨hsince.step haction hstep, phase, ht, fun hphase => (hok hphase).append haction⟩
  authorized id hat := (h.authorized id (hworker ▸ hat)).append haction

/-- A request is done at once, or its handler begins. -/
theorem worker_accept (r : UiRequest) : (s.accept r).worker = s.worker ∨
    (s.accept r).worker = .handling r ∧ (s.accept r).threads = s.threads := by
  cases r with
  | unlock =>
      left
      show s.startUnlock.worker = s.worker
      unfold startUnlock
      split <;> rfl
  | pinResponse pin => exact .inl rfl
  | dismissed => exact .inl rfl
  | _ => exact .inr ⟨rfl, rfl⟩

/-- The worker takes a request, and with it the trace begins. -/
theorem Traced.take {arm : Arm} (h : Traced P session past s) (hstep : Step P s (.take arm) s') :
    Traced P session (past ++ [.take arm]) s' := by
  have hrun := h.run.append (.single hstep)
  cases take_effect hstep with
  | entered hidle hto =>
      rcases hto with ⟨_, rfl⟩ | ⟨_, rfl⟩ | ⟨_, rfl⟩
      · exact ⟨hrun, by simp, by simp, by simp⟩
      · exact ⟨hrun, by simp, by simp, by simp⟩
      · exact ⟨hrun, by simp, by simp, by simp⟩
  | @accepted r rest hidle hrequests =>
      rcases worker_accept (s := { s with requests := rest }) r with hat | ⟨hat, hthreads⟩
      · have hat := hat.trans hidle
        exact ⟨hrun, fun _ hat' => Worker.noConfusion (hat.symm.trans hat'),
          fun _ _ hat' => Worker.noConfusion (hat.symm.trans hat'),
          fun _ hat' => Worker.noConfusion (hat.symm.trans hat')⟩
      · refine ⟨hrun, fun r' hr' => ?_, fun _ _ hat' => Worker.noConfusion (hat.symm.trans hat'),
          fun _ hat' => Worker.noConfusion (hat.symm.trans hat')⟩
        obtain rfl := Worker.handling.inj (hat.symm.trans hr')
        exact .intro h.run (.single hstep) (by rw [hthreads]) (by simp)

/-- The worker goes on with a handler. -/
theorem Traced.work {input : WorkInput} (h : Traced P session past s)
    (hstep : Step P s (.work input) s') : Traced P session (past ++ [.work input]) s' := by
  have hrun := h.run.append (.single hstep)
  have haction : ∀ arm, Action.work input ≠ .take arm := by simp
  cases work_effect hstep with
  | @moved worker session lastState events hmoves =>
      refine ⟨hrun, fun r hat => ?_, fun r t hat => ?_, fun id hat => ?_⟩
      · obtain rfl : worker = .handling r := hat
        cases hmoves
      · obtain rfl : worker = .awaiting r t := hat
        cases hmoves
      · obtain rfl : worker = .authorized (.delete id) := hat
        cases hmoves with
        | foundAuthorized hat' hedits hflag hfree => cases hedits
  | started events hat hflag => exact ⟨hrun, by simp, by simp, by simp⟩
  | @reasserted r session hat hlook hwhy =>
      refine ⟨hrun, by simp, fun r' t hat' => ?_, by simp⟩
      obtain ⟨rfl, rfl⟩ := Worker.awaiting.inj hat'
      refine ⟨(h.handling r hat).step haction hstep, .waiting, ?_, by simp⟩
      exact getElem?_spawn.mpr (.inr ⟨rfl, rfl⟩)
  | @resumed r t result worker events hat hreturned hto =>
      obtain ⟨hsince, phase, ht, hok⟩ := h.awaiting r t hat
      refine ⟨hrun, fun r' hat' => ?_, fun r' t' hat' => ?_, fun id hat' => ?_⟩
      · have hworker : worker = .handling r' := hat'
        rw [hto] at hworker
        split at hworker <;> cases hworker
      · have hworker : worker = .awaiting r' t' := hat'
        rw [hto] at hworker
        split at hworker <;> cases hworker
      · have hworker : worker = .authorized (.delete id) := hat'
        rw [hto] at hworker
        split at hworker
        · rename_i hresult
          obtain rfl := Worker.authorized.inj hworker
          cases result with
          | error e => cases hresult
          | ok _ =>
              rw [ht, Option.some.injEq, Thread.mk.injEq] at hreturned
              exact (hok hreturned.2).append haction
        · cases hworker

/-- A thread takes a step. If it is the one the handler waits for and it returns `Ok`, it
has asserted. -/
theorem Traced.thread {t : ℕ} {move : ThreadMove} (h : Traced P session past s)
    (hstep : Step P s (.thread t move) s') : Traced P session (past ++ [.thread t move]) s' := by
  have hrun := h.run.append (.single hstep)
  have haction : ∀ arm, Action.thread t move ≠ .take arm := by simp
  obtain ⟨thread, ht, hmove⟩ := Option.bind_eq_some_iff.mp hstep
  have heffect := threadStep_effect hmove
  have hworker : s'.worker = s.worker := by cases heffect <;> rfl
  have hlength : s'.threads.length = s.threads.length := by
    cases heffect <;> exact List.length_modify ..
  have hother : ∀ t', t' ≠ t → s'.threads[t']? = s.threads[t']? := by
    intro t' hne
    cases heffect <;> exact getElem?_setPhase_of_ne hne.symm _
  refine ⟨hrun, fun r hat => ?_, fun r t' hat => ?_, fun id hat => ?_⟩
  · rw [hlength]
    exact (h.handling r (hworker ▸ hat)).step haction hstep
  · obtain ⟨hsince, phase, ht', hok⟩ := h.awaiting r t' (hworker ▸ hat)
    refine ⟨hsince.step haction hstep, ?_⟩
    by_cases heq : t' = t
    · subst heq
      obtain ⟨phase', hphase', _⟩ := heffect.phase ht
      rw [ht, Option.some.injEq] at ht'
      subst ht'
      refine ⟨phase', hphase', ?_⟩
      rintro rfl
      obtain ⟨call, inner, key, rfl, hverified⟩ := asserted_of_threadStep ht hmove hphase'
      obtain ⟨hbefore, hlater, hnew, hsingle⟩ := hsince
      rw [List.append_assoc, List.cons_append]
      refine .intro hbefore hlater hnew ht rfl hverified fun arm hmem => ?_
      rcases List.mem_append.mp hmem with hold | hlast
      · exact hsingle arm hold
      · cases List.mem_singleton.mp hlast
    · rw [hother t' heq]
      exact ⟨phase, ht', fun hphase => (hok hphase).append haction⟩
  · exact (h.authorized id (hworker ▸ hat)).append haction

theorem Traced.step {action : Action} (h : Traced P session past s)
    (hstep : Step P s action s') : Traced P session (past ++ [action]) s' := by
  cases action with
  | send r =>
      refine h.of_same (by simp) hstep ?_ ?_
      · cases hstep
        rfl
      · cases hstep
        rfl
  | handle =>
      have hsame : s'.worker = s.worker ∧ s'.threads = s.threads := by
        dsimp only [Step, next] at hstep
        split at hstep
        · cases hstep
        · cases hstep
          exact ⟨rfl, rfl⟩
      exact h.of_same (by simp) hstep hsame.1 hsame.2
  | take arm => exact h.take hstep
  | work input => exact h.work hstep
  | thread t move => exact h.thread hstep

/-- **Every state a run reaches is traced.** -/
theorem traced_of_run {actions : List Action} (h : Run (Step P) (start session) actions s) :
    Traced P session actions s :=
  h.history (fun _ _ _ _ hu hstep => hu.step hstep) traced_start

/-! ## Deletions -/

/-- **A deletion needs a fresh assertion.** Whatever step of whatever run removes a row, the
worker is at the end of a deletion it has taken from the queue, an assertion was started and
verified after that, and no other row goes. -/
theorem deletion_needs_assertion (P : Primitives) (session : Session) (actions : List Action)
    (s s' : Daemon) (action : Action) (row : String)
    (hrun : Run (Step P) (start session) actions s) (hstep : Step P s action s')
    (hrow : s.HasRow row) (hgone : ¬ s'.HasRow row) :
    ∃ id, row = P.uuidText id ∧ s.worker = .authorized (.delete id) ∧
      s'.session.vault.secrets = s.session.vault.secrets.erase row ∧
      FreshlyAsserted P session (.delete id) actions := by
  obtain ⟨id, hid, hat, hsecrets⟩ := row_removed hstep hrow hgone
  exact ⟨id, hid, hat, hsecrets, (traced_of_run hrun).authorized id hat⟩

/-- Past its assertion a deletion removes the row, unless the database refuses. -/
theorem exists_deletion (input : WorkInput) {id : Uuid}
    (hat : s.worker = .authorized (.delete id)) (hfree : s.holder = none)
    (hfault : input.call.sql.fault .deleteRow = none) (hrow : s.HasRow (P.uuidText id)) :
    ∃ s', Step P s (.work input) s' ∧ ¬ s'.HasRow (P.uuidText id) := by
  have hmem : P.uuidText id ∈ s.session.vault.secrets := hrow
  have hdone : Session.delete P input.call id s.session = (.ok (), { s.session with vault :=
      { s.session.vault with
        secrets := s.session.vault.secrets.erase (P.uuidText id) } }) := by
    simp [Session.delete, Session.onVault_apply, Vault.delete, Stateful.bind_apply, Sql.attempt,
      hfault, hmem]
  simp only [Step, next, work, hat, onAuthorized, withSession, hfree, hdone, Option.bind_eq_bind,
    Option.bind_some]
  exact ⟨_, rfl, fun hkept => (Table.mem_erase.mp hkept).1 rfl⟩

/-- A secret is deleted with the authenticator at hand, which asks for no PIN: up to the
point where the handler goes on. -/
def assertedFor (id : Uuid) : List Action :=
  [.send (.delete id), .take (.request (.delete id)), .work (.usual 1), .thread 0 .acquire,
    .thread 0 (.finish (.atOnce 2) (.token [1] [2]))]

/-- A vault that was just created and holds one secret, as the daemon opens it. -/
def holding (keys : NewKeys) (id : Uuid) (row : StoredRow) : Session :=
  { reopened keys (Block.replicate keyLen 1) with
    vault := keys.vault .reference
      { Vault.empty with secrets := (∅ : Table _).insert (Primitives.reference.uuidText id) row } }

theorem exists_run_assertedFor (id : Uuid) (row : StoredRow) :
    ∃ keys s, Run (Step .reference) (start (holding keys id row))
        (assertedFor id ++ [.work (.usual 3)]) s ∧
      s.worker = .authorized (.delete id) ∧ s.holder = none ∧
      s.session.vault = (holding keys id row).vault := by
  obtain ⟨keys, hid, hprepare, _⟩ := Session.exists_initializeVault_working 0 0 (Nat.le_refl 0)
    (Block.replicate 16 0) (Block.replicate keyLen 1) [1] [2] 60
  have hunlock := KeyRing.unlock_of_admits
    (.working 2 2 (Nat.le_refl 2) (Block.replicate 16 0)) Primitives.reference_lawful
    (holding keys id row)
    (.of_newKeys keys _) (fun _ _ => rfl) (admits_of_token hprepare hid)
  have hasserted : ∃ s, Run (Step .reference) (start (holding keys id row)) (assertedFor id) s ∧
      s.worker = .awaiting (.delete id) 0 ∧ s.holder = none ∧
      s.threads = [⟨.reassert, .returned (Session.unlock .reference (.working 2 2
        (Nat.le_refl 2) (Block.replicate 16 0)) (.token [1] [2]) (holding keys id row)).1⟩] ∧
      s.session.vault = (Session.unlock .reference (.working 2 2 (Nat.le_refl 2)
        (Block.replicate 16 0)) (.token [1] [2]) (holding keys id row)).2.vault := by
    have htake : Step .reference { start (holding keys id row) with requests := [.delete id] }
        (.take (.request (.delete id)))
        ((start (holding keys id row)).goto (.handling (.delete id))) :=
      take_of_requests (s := { start (holding keys id row) with requests := [.delete id] }) rfl rfl
    exact ⟨_, .cons rfl (.cons htake (.cons rfl (.cons rfl (.cons rfl (.nil _))))), rfl, rfl, rfl,
      rfl⟩
  obtain ⟨s, hrun, hat, hfree, hthreads, hvault⟩ := hasserted
  rw [hunlock] at hthreads hvault
  have hresume : Step .reference s (.work (.usual 3))
      ((s.setPhase 0 .done).resume (.delete id) (.ok ())) := by
    simp [Step, next, work, hat, hthreads]
  exact ⟨keys, _, hrun.append (.single hresume), rfl, hfree, hvault⟩

/-- Its owner deletes the only secret of a vault. -/
theorem a_deletion_with_the_authenticator :
    ∃ session actions s s' id, Run (Step .reference) (start session) actions s ∧
      Step .reference s (.work (.usual 4)) s' ∧ s.HasRow (Primitives.reference.uuidText id) ∧
      ¬ s'.HasRow (Primitives.reference.uuidText id) ∧
      FreshlyAsserted .reference session (.delete id) actions := by
  obtain ⟨keys, s, hrun, hat, hfree, hvault⟩ :=
    exists_run_assertedFor (Block.replicate 16 7) ⟨"", [], []⟩
  have hrow : s.HasRow (Primitives.reference.uuidText (Block.replicate 16 7)) := by
    rw [HasRow, Session.HasRow, hvault]
    exact Table.mem_insert.mpr (.inl rfl)
  obtain ⟨s', hstep, hgone⟩ := exists_deletion (.usual 4) hat hfree rfl hrow
  obtain ⟨id, _, hat', _, hfresh⟩ :=
    deletion_needs_assertion .reference _ _ s s' _ _ hrun hstep hrow hgone
  obtain rfl : Block.replicate 16 7 = id := by simpa [hat] using hat'
  exact ⟨_, _, s, s', _, hrun, hstep, hrow, hgone, hfresh⟩

end Daemon

end Sypherstore
