/-
# What the daemon asks of the session

Every step of the daemon makes a few calls of the session, most of them none, while it
holds the mutex. The calls of a run, in the order of its steps, are a run of the session
by itself: the threads and the worker interleave, the session does not notice. So the
vault is, after any run, the map that these calls add up to.
-/

import Sypherstore.Core.Answers
import Sypherstore.App.PinDelivery

namespace Sypherstore

open Logic

namespace Daemon

/-! ## The calls of a step -/

/-- What `ui_lock_state` asks. -/
def lookCalls (call : Call) (s : Daemon) : List (Call × Op) :=
  if s.unlockInFlight then [] else [(call, .tick)]

/-- What the worker asks before its next waiting point. -/
def workCalls (input : WorkInput) (s : Daemon) : List (Call × Op) :=
  match s.worker with
  | .ticking => s.lookCalls input.call
  | .hotkey (.checking _ _) => s.lookCalls input.call
  | .hotkey (.listing _ _) => [(input.call, .list)]
  | .hotkey (.announcing _) => s.lookCalls input.call
  | .hotkey (.finishing true) => [(input.call, .touch)]
  | .handling .touch => [(input.call, .touch)]
  | .handling (.use id) => [(input.call, .openSecret id)]
  | .handling (.delete _) => [(input.call, .lock)]
  | .handling (.beginEdit _) => s.lookCalls input.call
  | .handling (.save _ _ _) => s.lookCalls input.call
  | .authorized (.beginEdit id) => [(input.call, .metaFor id), (input.second, .openSecret id)]
  | .authorized (.save m payload isUpdate) =>
      [(input.call, if isUpdate then .update m payload else .add m payload)]
  | .authorized (.delete id) => [(input.call, .delete id)]
  | .refreshing => [(input.call, .list)]
  | .stopping => [(input.call, .lock)]
  | _ => []

/-- What a thread asks in one step. -/
def threadCalls (phase : Phase) : ThreadMove → List (Call × Op)
  | .finish call inner =>
      match phase with
      | .answered (.error e) => [(call, .unlock (.refusing e))]
      | _ => [(call, .unlock inner)]
  | .tick call => [(call, .tick)]
  | .refresh call => [(call, .list)]
  | _ => []

/-- What a step asks of the session. -/
def callsOf (s : Daemon) : Action → List (Call × Op)
  | .work input => s.workCalls input
  | .thread t move => (s.threads[t]?).elim [] fun thread => threadCalls thread.phase move
  | _ => []

section

variable (P : Primitives)

/-- The calls of a step with their answers. -/
def answersOf (s : Daemon) (a : Action) : List Event := Session.performed P (s.callsOf a) s.session

/-- The calls of a run with their answers. -/
def log (s : Daemon) (actions : List Action) : List Event :=
  trail (next P) (answersOf P) s actions

end

variable {P : Primitives} {s s' : Daemon}

theorem run_lookCalls {call : Call} {found : UiLockState × Daemon}
    (h : s.uiLockState call = some found) :
    Run (Session.Step P) s.session (Session.performed P (s.lookCalls call) s.session)
      found.2.session := by
  unfold uiLockState at h
  split at h
  · rename_i hflag
    cases h
    rw [lookCalls, if_pos hflag]
    exact .nil _
  · rename_i hflag
    rw [lookCalls, if_neg hflag]
    unfold tickSession at h
    split at h
    · cases h
    · cases h
      exact Session.run_performed_single rfl

@[simp] theorem session_settle {α : Type} {result : Fallible SessionError α}
    {ok : α → Daemon → Daemon} {err : SessionError → Daemon → Daemon}
    (hok : ∀ a, (ok a s).session = s.session) (herr : ∀ e, (err e s).session = s.session) :
    (s.settle result ok err).session = s.session := by
  rcases result with (e | _) | a
  · exact herr e
  · rfl
  · exact hok a

theorem session_startUnlock : s.startUnlock.session = s.session := by
  unfold startUnlock
  split <;> rfl

theorem session_accept {r : UiRequest} : (s.accept r).session = s.session := by
  cases r with
  | unlock => exact session_startUnlock
  | _ => rfl

theorem session_ticked {state : UiLockState} : (s.ticked state).session = s.session := by
  unfold ticked
  split <;> rfl

/-- A critical section in which one call is made. -/
theorem run_withSession {α : Type} {x : Stateful Session SessionError α} (call : Call) (op : Op)
    {f : α → Reply} (hop : Session.perform P call op = (x >>= fun a => pure (f a)))
    {found : Fallible SessionError α × Daemon} (h : s.withSession x = some found) :
    Run (Session.Step P) s.session (Session.performed P [(call, op)] s.session)
      found.2.session := by
  obtain ⟨_, rfl⟩ := (withSession_eq_some_iff ..).mp h
  refine Session.run_performed_single ?_
  rw [hop, Stateful.snd_bind_pure]

theorem run_onHotkey {input : WorkInput} {point : HotkeyPoint} (hat : s.worker = .hotkey point)
    (h : s.onHotkey P input point = some s') :
    Run (Session.Step P) s.session (Session.performed P (s.workCalls input) s.session)
      s'.session := by
  rw [workCalls, hat]
  cases point with
  | detecting =>
      cases h
      exact .nil _
  | checking host application =>
      obtain ⟨found, hlook, h⟩ := Option.bind_eq_some_iff.mp h
      have hrun := run_lookCalls (P := P) hlook
      dsimp only at h
      split at h <;> cases h <;> exact hrun
  | listing host application =>
      obtain ⟨found, hcall, h⟩ := Option.bind_eq_some_iff.mp h
      have hrun := run_withSession input.call .list rfl hcall
      cases h
      rw [session_settle (fun _ => rfl) fun _ => rfl]
      exact hrun
  | announcing unlocked =>
      obtain ⟨found, hlook, h⟩ := Option.bind_eq_some_iff.mp h
      cases h
      exact run_lookCalls hlook
  | finishing unlocked =>
      cases unlocked with
      | false =>
          cases h
          rw [show (s.startUnlock.goto .idle).session = s.startUnlock.session from rfl,
            session_startUnlock]
          exact .nil _
      | true =>
          obtain ⟨found, hcall, h⟩ := Option.bind_eq_some_iff.mp h
          cases h
          exact run_withSession input.call .touch rfl hcall

theorem run_onRequest {input : WorkInput} {r : UiRequest} (hat : s.worker = .handling r)
    (h : s.onRequest P input r = some s') :
    Run (Session.Step P) s.session (Session.performed P (s.workCalls input) s.session)
      s'.session := by
  rw [workCalls, hat]
  cases r with
  | touch =>
      obtain ⟨found, hcall, h⟩ := Option.bind_eq_some_iff.mp h
      cases h
      exact run_withSession input.call .touch rfl hcall
  | use id =>
      obtain ⟨found, hcall, h⟩ := Option.bind_eq_some_iff.mp h
      have hrun := run_withSession input.call (.openSecret id) rfl hcall
      cases h
      rw [session_settle (fun _ => rfl) fun _ => rfl]
      exact hrun
  | delete id =>
      obtain ⟨found, hcall, h⟩ := Option.bind_eq_some_iff.mp h
      cases h
      exact run_withSession input.call .lock rfl hcall
  | beginEdit id =>
      obtain ⟨found, hlook, h⟩ := Option.bind_eq_some_iff.mp h
      have hrun := run_lookCalls (P := P) hlook
      cases h
      dsimp only
      split <;> exact hrun
  | save m payload isUpdate =>
      obtain ⟨found, hlook, h⟩ := Option.bind_eq_some_iff.mp h
      have hrun := run_lookCalls (P := P) hlook
      cases h
      dsimp only
      split <;> exact hrun
  | _ => cases h

theorem run_onAuthorized {input : WorkInput} {r : UiRequest} (hat : s.worker = .authorized r)
    (h : s.onAuthorized P input r = some s') :
    Run (Session.Step P) s.session (Session.performed P (s.workCalls input) s.session)
      s'.session := by
  rw [workCalls, hat]
  cases r with
  | beginEdit id =>
      obtain ⟨found, hcall, h⟩ := Option.bind_eq_some_iff.mp h
      obtain ⟨_, rfl⟩ := (withSession_eq_some_iff ..).mp hcall
      cases h
      rw [session_settle (fun _ => rfl) fun _ => rfl]
      exact Session.run_performed_pair (.metaFor id) (.openSecret id) rfl rfl s.session
  | save m payload isUpdate =>
      obtain ⟨found, hcall, h⟩ := Option.bind_eq_some_iff.mp h
      have hrun := run_withSession (P := P) input.call
        (if isUpdate then .update m payload else .add m payload) (f := fun _ => .done)
        (by cases isUpdate <;> rfl) hcall
      cases h
      rw [session_settle (fun _ => rfl) fun _ => rfl]
      exact hrun
  | delete id =>
      obtain ⟨found, hcall, h⟩ := Option.bind_eq_some_iff.mp h
      have hrun := run_withSession input.call (.delete id) rfl hcall
      cases h
      rw [session_settle (fun _ => rfl) fun _ => rfl]
      exact hrun
  | _ => cases h

theorem run_work {input : WorkInput} (h : s.work P input = some s') :
    Run (Session.Step P) s.session (Session.performed P (s.workCalls input) s.session)
      s'.session := by
  unfold work at h
  split at h
  · cases h
  · cases h
  · cases h
  · rename_i hat
    obtain ⟨found, hlook, h⟩ := Option.bind_eq_some_iff.mp h
    have hrun := run_lookCalls (P := P) hlook
    cases h
    rw [workCalls, hat, show ((found.2.ticked found.1).goto .idle).session =
      (found.2.ticked found.1).session from rfl, session_ticked]
    exact hrun
  · rename_i point hat
    exact run_onHotkey hat h
  · rename_i r hat
    exact run_onRequest hat h
  · rename_i r t hat
    split at h
    · rename_i result hreturned
      cases h
      rw [workCalls, hat]
      rcases result with (e | _) | _ <;> exact .nil _
    · cases h
  · rename_i r hat
    exact run_onAuthorized hat h
  · rename_i hat
    rw [workCalls, hat]
    split at h <;> cases h <;> exact .nil _
  · rename_i hat
    obtain ⟨found, hcall, h⟩ := Option.bind_eq_some_iff.mp h
    have hrun := run_withSession input.call .list rfl hcall
    cases h
    rw [workCalls, hat, session_settle (fun _ => rfl) fun _ => rfl]
    exact hrun
  · rename_i hat
    obtain ⟨found, hcall, h⟩ := Option.bind_eq_some_iff.mp h
    cases h
    rw [workCalls, hat]
    exact run_withSession input.call .lock rfl hcall

theorem run_threadStep {t : ℕ} {thread : Thread} {move : ThreadMove}
    (h : s.threadStep P t thread move = some s') :
    Run (Session.Step P) s.session
      (Session.performed P (threadCalls thread.phase move) s.session) s'.session := by
  have hunlock : ∀ call inner, Run (Session.Step P) s.session
      (Session.performed P [(call, .unlock inner)] s.session)
      (s.finishUnlock P t call inner).session := by
    intro call inner
    exact Session.run_performed_single (by rw [Session.perform, Stateful.snd_bind_pure]; rfl)
  cases move with
  | finish call inner =>
      dsimp only [threadStep] at h
      split at h
      · rename_i hphase
        cases h
        simp only [threadCalls, hphase]
        exact hunlock call inner
      · rename_i hphase
        cases h
        simp only [threadCalls, hphase]
        exact hunlock call inner
      · rename_i hphase
        cases h
        simp only [threadCalls, hphase]
        exact hunlock call _
      · cases h
  | announce =>
      dsimp only [threadStep] at h
      split at h
      · split at h <;> cases h <;> exact .nil _
      · cases h
        exact .nil _
      · cases h
  | tick call =>
      dsimp only [threadStep] at h
      split at h
      · obtain ⟨found, htick, h⟩ := Option.bind_eq_some_iff.mp h
        cases h
        unfold tickSession at htick
        split at htick
        · cases htick
        · cases htick
          exact Session.run_performed_single rfl
      · cases h
  | refresh call =>
      dsimp only [threadStep] at h
      split at h
      · obtain ⟨found, hcall, h⟩ := Option.bind_eq_some_iff.mp h
        have hrun := run_withSession call .list rfl hcall
        cases h
        unfold refreshed
        split <;> exact hrun
      · cases h
  | _ =>
      dsimp only [threadStep] at h
      split at h <;> cases h <;> exact .nil _

/-- **A step is a run of the session.** -/
theorem run_answersOf {a : Action} (h : Step P s a s') :
    Run (Session.Step P) s.session (s.answersOf P a) s'.session := by
  cases a with
  | send r =>
      cases h
      exact .nil _
  | handle =>
      dsimp only [Step, next] at h
      split at h <;> cases h
      exact .nil _
  | take arm =>
      have hsame : s'.session = s.session := by
        cases take_effect h with
        | entered hidle hto => rfl
        | accepted hidle hrequests => exact session_accept
      rw [hsame]
      exact .nil _
  | work input => exact run_work h
  | thread t move =>
      obtain ⟨thread, ht, hstep⟩ := Option.bind_eq_some_iff.mp h
      have hrun := run_threadStep hstep
      rwa [answersOf, callsOf, ht]

/-- **A run of the daemon is a run of the session.** Whatever the interleaving, the calls
come one after the other. -/
theorem run_log {actions : List Action} (h : Run (Step P) s actions s') :
    Run (Session.Step P) s.session (s.log P actions) s'.session :=
  h.expand session fun _ _ _ hstep => run_answersOf hstep

/-! ## The map -/

variable {session : Session} {actions : List Action}

/-- A process that creates a vault, uses it and runs the daemon on it refines the map that
all its calls add up to. -/
theorem refines_of_run {σ : Type} (hP : P.Lawful) (hbinds : P.aead.BindsKey)
    {outer : OuterKeyProvider σ} {inner : InnerKeyProvider} {created : Call} {timeout : ℕ}
    {t t' : σ} {v₀ : Vault} {s₀ : Session} {before : List Sypherstore.Action}
    (hcreate : Session.initializeVault P created outer inner timeout (.empty, t) =
      (.ok s₀, (v₀, t')))
    (hbefore : Run (Process.Step P) (.running s₀) before (.running session))
    (hsealed : ∀ a ∈ before, a.UnsealsOnly s₀.outerKek)
    (hrun : Run (Step P) (start session) actions s) :
    ∃ innerKek, Refines P (KeyRing.Wraps P innerKek) innerKek s₀.outerKek (.running s.session)
      ((Contents.after before).afterCalls (log P (start session) actions)) ∧
      Refines P (KeyRing.Wraps P innerKek) innerKek s₀.outerKek (.running session)
        (Contents.after before) := by
  obtain ⟨_, _, outerKek, keys, _, hprepare, _, rfl⟩ :=
    (Session.initializeVault_eq_ok_iff ..).mp hcreate
  have hstart : Refines P (KeyRing.Wraps P keys.innerKek) keys.innerKek outerKek
      (.running (keys.session P created outerKek .empty timeout)) .empty :=
    .of_newKeys keys timeout (.of_prepareKeys hprepare)
  have hprotects := KeyRing.Wraps.protects hP hbinds keys.innerKek
  have hsession := hstart.run hP hprotects hsealed (fun a _ => a.usesOnly_true) hbefore
  have hlog := hsession.run hP hprotects (by simp [Action.UnsealsOnly])
    (fun a _ => a.usesOnly_true) (Session.run_process (run_log hrun))
  rw [Contents.foldl_next_map_call] at hlog
  exact ⟨keys.innerKek, hlog, hsession⟩

def noteMeta : SecretMeta where
  id := Block.replicate 16 1
  name := "GitHub"
  domain := "github.com"
  application := ""
  secretType := .password
  username := "octocat"
  tags := []
  createdAt := 1
  updatedAt := 1

def notePayload : SecretPayload where
  value := ascii "correct-horse"
  notes := none
  extra := []

/-- A secret is saved in an unlocked vault: up to the list that follows. -/
def savingNote : List Action :=
  [.send (.save noteMeta notePayload false), .take (.request (.save noteMeta notePayload false)),
    .work (.usual 1), .work (.usual 2)]

/-- A session as `initialize` leaves it. -/
def newSession (keys : NewKeys) : Session :=
  keys.session .reference (.atOnce 0) (Block.replicate keyLen 1) .empty 10

theorem exists_run_savingNote (keys : NewKeys) :
    ∃ s, Run (Step .reference) (start (newSession keys)) savingNote s ∧
      s.worker = .refreshing ∧ s.holder = none ∧ s.session.Live 3 ∧
      (Contents.empty.afterCalls (log .reference (start (newSession keys)) savingNote)).secret
        noteMeta.id = some (noteMeta, notePayload) := by
  have hsend : Step .reference (start (newSession keys)) (.send (.save noteMeta notePayload false))
      { start (newSession keys) with requests := [.save noteMeta notePayload false] } := rfl
  have htake : Step .reference
      { start (newSession keys) with requests := [.save noteMeta notePayload false] }
      (.take (.request (.save noteMeta notePayload false)))
      ((start (newSession keys)).goto (.handling (.save noteMeta notePayload false))) :=
    take_of_requests
      (s := { start (newSession keys) with requests := [.save noteMeta notePayload false] }) rfl rfl
  refine ⟨_, .cons hsend (.cons htake (.cons rfl (.cons rfl (.nil _)))), rfl, rfl,
    ⟨keys.innerKek, 12, rfl, rfl, by decide⟩, ?_⟩
  rw [savingNote, log, trail_cons hsend, trail_cons htake]
  rfl

/-- **The daemon serves one map.** Whatever the order in which the worker and the assertion
threads take their steps, the vault is afterwards the map that the calls in the log add up
to, and each answer in the log is the one of the map at that point. -/
theorem daemon_serves_a_map {σ : Type} (hP : P.Lawful) (hbinds : P.aead.BindsKey)
    {outer : OuterKeyProvider σ} {inner : InnerKeyProvider} {created : Call} {timeout : ℕ}
    {t t' : σ} {v₀ : Vault} {s₀ : Session} {before : List Sypherstore.Action}
    (hcreate : Session.initializeVault P created outer inner timeout (.empty, t) =
      (.ok s₀, (v₀, t')))
    (hbefore : Run (Process.Step P) (.running s₀) before (.running session))
    (hsealed : ∀ a ∈ before, a.UnsealsOnly s₀.outerKek)
    (hrun : Run (Step P) (start session) actions s) :
    (∀ call, ActsAsMap P call s.session
      ((Contents.after before).afterCalls (log P (start session) actions))) ∧
    ∀ past e rest, log P (start session) actions = past ++ e :: rest →
      e.Fits P ((Contents.after before).afterCalls past) := by
  obtain ⟨innerKek, hend, hsession⟩ := refines_of_run hP hbinds hcreate hbefore hsealed hrun
  refine ⟨fun call => hend.actsAsMap hP, fun past e rest hlog => ?_⟩
  have hsteps := run_log hrun
  rw [hlog] at hsteps
  have huses : ∀ e ∈ past, e.op.UsesOnly fun _ => True := by
    intro e _
    cases e.op <;> trivial
  exact hsession.answers_fit hP (KeyRing.Wraps.protects hP hbinds innerKek) huses hsteps

/-- What was saved through the daemon is opened. -/
theorem saved_note_is_opened :
    ∃ keys s, Run (Step .reference) (start (newSession keys)) savingNote s ∧
      (Session.openSecret .reference (.atOnce 3) noteMeta.id s.session).1 = .ok notePayload := by
  obtain ⟨keys, _, _, hcreate⟩ := Session.exists_initializeVault_working 0 0 (Nat.le_refl 0)
    (Block.replicate 16 0) (Block.replicate keyLen 1) [1] [2] 10
  have hnew : Session.initializeVault .reference _ _ _ 10 (.empty, none) =
      (.ok (newSession keys), _) := hcreate
  obtain ⟨s, hrun, _, _, hlive, hsecret⟩ := exists_run_savingNote keys
  refine ⟨keys, s, hrun, ?_⟩
  have hmap := (daemon_serves_a_map Primitives.reference_lawful Primitives.reference_bindsKey
    hnew (.nil _) (by simp) hrun).1 (.atOnce 3)
  have hopen := hmap.openSecret hlive rfl noteMeta.id
  rw [show Contents.after [] = Contents.empty from rfl, hsecret] at hopen
  exact hopen

end Daemon

end Sypherstore
