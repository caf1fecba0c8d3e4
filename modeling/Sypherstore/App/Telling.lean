/-
# What the daemon tells, and when

What the popup is told of the vault was read from the session in the same step, and a
secret that is to be typed was opened in the step before. So what is told is true, and
nothing is let out outside the window of an unlock.
-/

import Sypherstore.App.DaemonLog
import Sypherstore.App.Deletion

namespace Sypherstore

open Logic

/-! ## What the popup is told -/

/-- The event carries what is kept in the vault. -/
def DaemonEvent.discloses : DaemonEvent → Bool
  | .showPopup secrets _ _ => !secrets.isEmpty
  | .refresh _ => true
  | .editReady _ _ => true
  | _ => false

/-- The event says what is kept in the vault. -/
def DaemonEvent.reports : DaemonEvent → Bool
  | .showPopup _ _ _ => true
  | .refresh _ => true
  | .editReady _ _ => true
  | _ => false

theorem DaemonEvent.reports_of_discloses {event : DaemonEvent} (h : event.discloses) :
    event.reports := by
  cases event <;> first | rfl | cases h

namespace Daemon

/-- The calls that a step may make. -/
def Action.calls : Action → List Call
  | .work input => [input.call, input.second]
  | .thread _ (.finish call _) => [call]
  | .thread _ (.tick call) => [call]
  | .thread _ (.refresh call) => [call]
  | _ => []

/-- The popup is opened with no list at all: on a shortcut the worker has found the vault
locked, or an unlock under way, or it has found the vault unlocked and could not read its
list. -/
inductive Unlisted (P : Primitives) (s : Daemon) : Action → DaemonEvent → Prop
  | locked {input : WorkInput} {host application : Option String}
      (hat : s.worker = .hotkey (.checking host application))
      (hlocked : s.Locked input.call.started) :
      Unlisted P s (.work input) (.showPopup [] host application)
  | unread {input : WorkInput} {host application : Option String} {e : SessionError}
      (hat : s.worker = .hotkey (.listing host application))
      (hlist : (Session.list P input.call s.session).1 = .error (.error e)) :
      Unlisted P s (.work input) (.showPopup [] host application)

end Daemon

/-- Where an event has what it carries from: one of the calls of the step. -/
inductive DaemonEvent.Source (P : Primitives) (s : Daemon) (a : Daemon.Action) : DaemonEvent → Prop
  | plain {event : DaemonEvent} (h : event.reports = false) : Source P s a event
  | unlisted {event : DaemonEvent} (h : s.Unlisted P a event) : Source P s a event
  | shown {call : Call} {secrets : List SecretMeta} {host application : Option String}
      (hcall : call ∈ a.calls) (hlist : (Session.list P call s.session).1 = .ok secrets) :
      Source P s a (.showPopup secrets host application)
  | refreshed {call : Call} {secrets : List SecretMeta} (hcall : call ∈ a.calls)
      (hlist : (Session.list P call s.session).1 = .ok secrets) : Source P s a (.refresh secrets)
  | opened {first second : Call} {id : Uuid} {m : SecretMeta} {payload : SecretPayload}
      (hcall : first ∈ a.calls) (hmeta : (Session.metaFor P first id s.session).1 = .ok m)
      (hopen : (Session.openSecret P second id s.session).1 = .ok payload) :
      Source P s a (.editReady m payload)

namespace DaemonEvent.Source

variable {P : Primitives} {s : Daemon} {a : Daemon.Action} {event : DaemonEvent}

/-- What an event carries was read from a live session. -/
theorem live (h : event.Source P s a) (hdiscloses : event.discloses) :
    ∃ call ∈ a.calls, s.session.Live call.started := by
  cases h with
  | plain h => exact absurd (reports_of_discloses hdiscloses) (by simp [h])
  | unlisted h => cases h <;> cases hdiscloses
  | shown hcall hlist => exact ⟨_, hcall, Session.live_of_list hlist⟩
  | refreshed hcall hlist => exact ⟨_, hcall, Session.live_of_list hlist⟩
  | opened hcall hmeta hopen => exact ⟨_, hcall, Session.live_of_metaFor hmeta⟩

end DaemonEvent.Source

namespace Daemon

/-- The step has told the popup only what it has read with its calls. -/
def Tells (P : Primitives) (a : Action) (s s' : Daemon) : Prop :=
  ∃ told, s'.events = s.events ++ told ∧ ∀ event ∈ told, event.Source P s a

section Tells

variable {P : Primitives} {a : Action} {s s' mid : Daemon}

theorem Tells.nothing (h : s'.events = s.events) : Tells P a s s' := ⟨[], by simp [h], by simp⟩

theorem Tells.emit {event : DaemonEvent} (h : Tells P a s mid) (hevent : event.Source P s a) :
    Tells P a s (mid.emit event) := by
  obtain ⟨told, htold, hall⟩ := h
  refine ⟨told ++ [event], by simp [Daemon.emit, htold], ?_⟩
  intro e he
  rcases List.mem_append.mp he with hold | hnew
  · exact hall e hold
  · rwa [List.mem_singleton.mp hnew]

theorem Tells.settle {α : Type} {result : Fallible SessionError α} {ok : α → Daemon → Daemon}
    {err : SessionError → Daemon → Daemon} (hsame : mid.events = s.events)
    (hok : ∀ found, result = .ok found → Tells P a s (ok found mid))
    (herr : ∀ e, result = .error (.error e) → Tells P a s (err e mid)) :
    Tells P a s (mid.settle result ok err) := by
  rcases result with (e | _) | found
  · exact herr e rfl
  · exact .nothing hsame
  · exact hok found rfl

theorem events_uiLockState {call : Call} {found : UiLockState × Daemon}
    (h : s.uiLockState call = some found) : found.2.events = s.events := by
  obtain ⟨_, _, _, session, hfound⟩ := uiLockState_eq_some h
  rw [hfound]

theorem tells_startUnlock (hsame : mid.events = s.events) : Tells P a s mid.startUnlock := by
  unfold startUnlock
  split
  · exact .nothing hsame
  · have hflagged : Tells P a s { mid with unlockInFlight := true } := .nothing hsame
    exact hflagged.emit (.plain rfl)

theorem tells_onHotkey {input : WorkInput} {point : HotkeyPoint} (hat : s.worker = .hotkey point)
    (h : s.onHotkey P input point = some s') : Tells P (.work input) s s' := by
  cases point with
  | detecting =>
      cases h
      exact .nothing rfl
  | checking host application =>
      obtain ⟨found, hlook, h⟩ := Option.bind_eq_some_iff.mp h
      have hsame : Tells P (.work input) s found.2 :=
        .nothing (events_uiLockState hlook)
      obtain ⟨_, _, hlocked, _⟩ := uiLockState_eq_some hlook
      dsimp only at h
      split at h
      · cases h
        exact hsame
      · rename_i hstate
        cases h
        exact hsame.emit (.unlisted (.locked hat (hlocked (Bool.eq_false_iff.mpr hstate))))
  | listing host application =>
      obtain ⟨found, hcall, h⟩ := Option.bind_eq_some_iff.mp h
      obtain ⟨_, rfl⟩ := (withSession_eq_some_iff ..).mp hcall
      cases h
      have hsame : Tells P (.work input) s
        { s with session := (Session.list P input.call s.session).2 } := .nothing rfl
      refine .settle rfl (fun secrets hlist => ?_) fun e hlist => ?_
      · exact hsame.emit (.shown (by simp [Action.calls]) hlist)
      · exact hsame.emit (.unlisted (.unread hat hlist))
  | announcing unlocked =>
      obtain ⟨found, hlook, h⟩ := Option.bind_eq_some_iff.mp h
      cases h
      exact (Tells.nothing (events_uiLockState hlook)).emit (.plain rfl)
  | finishing unlocked =>
      cases unlocked with
      | false =>
          cases h
          exact tells_startUnlock rfl
      | true =>
          obtain ⟨found, hcall, h⟩ := Option.bind_eq_some_iff.mp h
          obtain ⟨_, rfl⟩ := (withSession_eq_some_iff ..).mp hcall
          cases h
          exact .nothing rfl

theorem tells_onRequest {input : WorkInput} {r : UiRequest} (h : s.onRequest P input r = some s') :
    Tells P (.work input) s s' := by
  cases r with
  | touch =>
      obtain ⟨found, hcall, h⟩ := Option.bind_eq_some_iff.mp h
      obtain ⟨_, rfl⟩ := (withSession_eq_some_iff ..).mp hcall
      cases h
      exact .nothing rfl
  | use id =>
      obtain ⟨found, hcall, h⟩ := Option.bind_eq_some_iff.mp h
      obtain ⟨_, rfl⟩ := (withSession_eq_some_iff ..).mp hcall
      cases h
      have hsame : Tells P (.work input) s
        { s with session := (Session.openSecret P input.call id s.session).2 } := .nothing rfl
      exact .settle rfl (fun _ _ => hsame.emit (.plain rfl)) fun _ _ => hsame.emit (.plain rfl)
  | delete id =>
      obtain ⟨found, hcall, h⟩ := Option.bind_eq_some_iff.mp h
      obtain ⟨_, rfl⟩ := (withSession_eq_some_iff ..).mp hcall
      cases h
      exact .nothing rfl
  | beginEdit id =>
      obtain ⟨found, hlook, h⟩ := Option.bind_eq_some_iff.mp h
      have hsame : Tells P (.work input) s found.2 :=
        .nothing (events_uiLockState hlook)
      cases h
      split <;> exact hsame
  | save m payload isUpdate =>
      obtain ⟨found, hlook, h⟩ := Option.bind_eq_some_iff.mp h
      have hsame : Tells P (.work input) s found.2 :=
        .nothing (events_uiLockState hlook)
      cases h
      split <;> exact hsame
  | _ => cases h

/-- The metadata is read first, which leaves the session as it was. -/
theorem opened_of_ok {first second : Call} {id : Uuid} {session : Session} {m : SecretMeta}
    {payload : SecretPayload}
    (h : ((do let m ← Session.metaFor P first id
              let payload ← Session.openSecret P second id
              return (m, payload) : Stateful Session SessionError _) session).1 =
      .ok (m, payload)) :
    (Session.metaFor P first id session).1 = .ok m ∧
      (Session.openSecret P second id session).1 = .ok payload := by
  obtain ⟨m', mid, hmeta, hrest⟩ := (Stateful.bind_eq_ok_iff _ _ _ _ _).mp (Prod.ext h rfl)
  obtain ⟨payload', _, hopen, hpure⟩ := (Stateful.bind_eq_ok_iff _ _ _ _ _).mp hrest
  cases (Prod.mk.inj hpure).1
  have hlive := Session.live_of_metaFor (congrArg Prod.fst hmeta)
  have ⟨inner, _, hinner, _, _⟩ := hlive
  have hsame : mid = session := by
    rw [Session.metaFor_of_live hlive hinner] at hmeta
    exact (Prod.mk.inj hmeta).2.symm
  subst hsame
  exact ⟨congrArg Prod.fst hmeta, congrArg Prod.fst hopen⟩

theorem tells_onAuthorized {input : WorkInput} {r : UiRequest}
    (h : s.onAuthorized P input r = some s') :
    Tells P (.work input) s s' := by
  have hsame : ∀ session, Tells P (.work input) s { s with session } :=
    fun _ => .nothing rfl
  cases r with
  | beginEdit id =>
      obtain ⟨found, hcall, h⟩ := Option.bind_eq_some_iff.mp h
      obtain ⟨_, rfl⟩ := (withSession_eq_some_iff ..).mp hcall
      cases h
      refine .settle rfl (fun found hfound => ?_) fun _ _ => (hsame _).emit (.plain rfl)
      obtain ⟨hmeta, hopen⟩ := opened_of_ok hfound
      exact (hsame _).emit (.opened (by simp [Action.calls]) hmeta hopen)
  | save m payload isUpdate =>
      obtain ⟨found, hcall, h⟩ := Option.bind_eq_some_iff.mp h
      obtain ⟨_, rfl⟩ := (withSession_eq_some_iff ..).mp hcall
      cases h
      refine .settle rfl (fun _ _ => ?_) fun _ _ => ?_
      · exact (hsame _).emit (.plain rfl)
      · exact (hsame _).emit (.plain rfl)
  | delete id =>
      obtain ⟨found, hcall, h⟩ := Option.bind_eq_some_iff.mp h
      obtain ⟨_, rfl⟩ := (withSession_eq_some_iff ..).mp hcall
      cases h
      refine .settle rfl (fun _ _ => ?_) fun _ _ => ?_
      · exact (hsame _).emit (.plain rfl)
      · exact (hsame _).emit (.plain rfl)
  | _ => cases h

/-- The worker tells what it has read of the session in the same step. -/
theorem tells_work {input : WorkInput} (h : s.work P input = some s') :
    Tells P (.work input) s s' := by
  unfold work at h
  split at h
  · cases h
  · cases h
  · cases h
  · obtain ⟨found, hlook, h⟩ := Option.bind_eq_some_iff.mp h
    have hsame : Tells P (.work input) s found.2 :=
      .nothing (events_uiLockState hlook)
    cases h
    unfold ticked
    split
    · exact hsame.emit (.plain rfl)
    · exact hsame
  · exact tells_onHotkey (by assumption) h
  · exact tells_onRequest h
  · rename_i r t hat
    split at h
    · rename_i result hreturned
      cases h
      have hsame : Tells P (.work input) s (s.setPhase t .done) := .nothing rfl
      rcases result with (e | _) | _
      · exact hsame.emit (.plain rfl)
      · exact hsame.emit (.plain rfl)
      · exact hsame
    · cases h
  · exact tells_onAuthorized h
  · have hsame : Tells P (.work input) s s := .nothing rfl
    split at h
    · cases h
      exact hsame.emit (.plain rfl)
    · cases h
      exact hsame.emit (.plain rfl)
  · obtain ⟨found, hcall, h⟩ := Option.bind_eq_some_iff.mp h
    obtain ⟨_, rfl⟩ := (withSession_eq_some_iff ..).mp hcall
    cases h
    have hsame : Tells P (.work input) s
      { s with session := (Session.list P input.call s.session).2 } := .nothing rfl
    refine .settle rfl (fun _ hlist => ?_) fun _ _ => hsame
    exact hsame.emit (.refreshed (by simp [Action.calls]) hlist)
  · obtain ⟨found, hcall, h⟩ := Option.bind_eq_some_iff.mp h
    obtain ⟨_, rfl⟩ := (withSession_eq_some_iff ..).mp hcall
    cases h
    exact .nothing rfl

theorem tells_threadStep {t : ℕ} {thread : Thread} {move : ThreadMove}
    (h : s.threadStep P t thread move = some s') :
    Tells P (.thread t move) s s' := by
  have hsame : Tells P (.thread t move) s s := .nothing rfl
  cases move with
  | request =>
      dsimp only [threadStep] at h
      split at h <;> cases h
      exact hsame.emit (.plain rfl)
  | announce =>
      dsimp only [threadStep] at h
      split at h
      · split at h <;> cases h
        · exact hsame.emit (.plain rfl)
        · exact hsame
      · cases h
        exact (hsame.emit (.plain rfl)).emit (.plain rfl)
      · cases h
  | tick call =>
      dsimp only [threadStep] at h
      split at h
      · obtain ⟨found, htick, h⟩ := Option.bind_eq_some_iff.mp h
        obtain ⟨session, hfound⟩ := tickSession_eq_some htick
        cases h
        exact (Tells.nothing (by rw [hfound])).emit (.plain rfl)
      · cases h
  | refresh call =>
      dsimp only [threadStep] at h
      split at h
      · obtain ⟨found, hcall, h⟩ := Option.bind_eq_some_iff.mp h
        obtain ⟨_, rfl⟩ := (withSession_eq_some_iff ..).mp hcall
        cases h
        have hsame : Tells P (.thread t (.refresh call)) s
          { s with session := (Session.list P call s.session).2 } := .nothing rfl
        unfold refreshed
        split
        · rename_i secrets hlist
          exact (hsame.emit (.refreshed (by simp [Action.calls]) hlist)).emit (.plain rfl)
        · exact hsame.emit (.plain rfl)
        · exact hsame
      · cases h
  | _ =>
      dsimp only [threadStep] at h
      split at h <;> cases h <;> exact hsame

/-- A step tells the popup what it has read of the session, or the popup handles what it was
told before. -/
theorem step_tells {a : Action} (h : Step P s a s') :
    Tells P a s s' ∨ s'.events = s.events.tail := by
  cases a with
  | send r =>
      cases h
      exact .inl (.nothing rfl)
  | handle =>
      dsimp only [Step, next] at h
      split at h <;> cases h
      rename_i event rest hevents
      exact .inr (by rw [hevents]; rfl)
  | take arm =>
      cases take_effect h with
      | entered hidle hto => exact .inl (.nothing rfl)
      | @accepted r rest hidle hrequests =>
          cases r with
          | unlock => exact .inl (tells_startUnlock rfl)
          | _ => exact .inl (.nothing rfl)
  | work input => exact .inl (tells_work h)
  | thread t move =>
      obtain ⟨thread, _, hstep⟩ := Option.bind_eq_some_iff.mp h
      exact .inl (tells_threadStep hstep)

/-- An event that was not there before the step. -/
theorem source_of_new {a : Action} (h : Step P s a s') {event : DaemonEvent}
    (hnew : event ∈ s'.events.drop s.events.length) : event.Source P s a := by
  rcases step_tells h with ⟨told, htold, hall⟩ | htail
  · rw [htold, List.drop_left] at hnew
    exact hall event hnew
  · rw [htail, List.drop_eq_nil_of_le (by simp)] at hnew
    cases hnew

/-- The worker goes to type a secret only with what it has just opened. -/
theorem opened_of_delivering {a : Action} (h : Step P s a s') (hat : s'.worker = .delivering)
    (hnew : s.worker ≠ .delivering) :
    ∃ id input payload, s.worker = .handling (.use id) ∧ a = .work input ∧
      (Session.openSecret P input.call id s.session).1 = .ok payload := by
  cases a with
  | send r =>
      cases h
      exact absurd hat hnew
  | handle =>
      dsimp only [Step, next] at h
      split at h <;> cases h
      exact absurd hat hnew
  | take arm =>
      cases take_effect h with
      | entered hidle hto =>
          rcases hto with ⟨_, rfl⟩ | ⟨_, rfl⟩ | ⟨_, rfl⟩ <;> cases hat
      | @accepted r rest hidle hrequests =>
          rcases worker_accept (s := { s with requests := rest }) r with hsame | ⟨hto, _⟩
          · exact absurd (hsame.symm.trans hat) hnew
          · exact Worker.noConfusion (hto.symm.trans hat)
  | work input =>
      have hfrom : ∃ id, s.worker = .handling (.use id) := by
        cases work_effect h with
        | @moved worker session lastState events hmoves =>
            obtain rfl : worker = .delivering := hat
            cases hmoves with
            | @opened id hfrom hfree => exact ⟨id, hfrom⟩
        | started events hfrom hflag => cases hat
        | reasserted session hfrom hlook hwhy => cases hat
        | resumed events hfrom hreturned hto =>
            obtain rfl : _ = Worker.delivering := hat
            split at hto <;> cases hto
      obtain ⟨id, hfrom⟩ := hfrom
      refine ⟨id, input, ?_⟩
      dsimp only [Step, next, work] at h
      rw [hfrom] at h
      obtain ⟨found, hcall, h⟩ := Option.bind_eq_some_iff.mp h
      obtain ⟨_, rfl⟩ := (withSession_eq_some_iff ..).mp hcall
      cases h
      rcases hopen : (Session.openSecret P input.call id s.session).1 with (e | _) | payload
      · simp [hopen, settle, fail, goto] at hat
      · simp [hopen, settle, goto] at hat
      · exact ⟨payload, hfrom, rfl, rfl⟩
  | thread t move =>
      obtain ⟨thread, ht, hstep⟩ := Option.bind_eq_some_iff.mp h
      have hsame : s'.worker = s.worker := by cases threadStep_effect hstep <;> rfl
      exact absurd (hsame.symm.trans hat) hnew

end Tells

/-! ## Runs -/

variable {P : Primitives} {session : Session} {actions : List Action} {s s' : Daemon}

/-- The step lets something out of the vault: to the popup, or to be typed. -/
def Discloses (s s' : Daemon) : Prop :=
  (∃ event ∈ s'.events.drop s.events.length, event.discloses) ∨
    s'.worker = .delivering ∧ s.worker ≠ .delivering

/-- In the run an authenticator has answered, and its answer has opened the vault: that is
this call of the session, made after those. -/
def Asserted (P : Primitives) (session : Session) (actions : List Action) (past : List Event)
    (unlock : Event) : Prop :=
  ∃ before t call inner rest mid key,
    actions = before ++ .thread t (.finish call inner) :: rest ∧
    Run (Step P) (start session) before mid ∧ past = log P (start session) before ∧
    unlock.call = call ∧ unlock.op = .unlock inner ∧
    Session.assertInnerKey P call inner mid.session = .ok key

/-- Only an assertion thread unlocks. -/
theorem unlock_of_mem_callsOf {a : Action} {call : Call} {op : Op} (h : (call, op) ∈ s.callsOf a)
    (hop : op.isUnlock) :
    ∃ t inner inner', a = .thread t (.finish call inner) ∧ s.callsOf a = [(call, .unlock inner')] ∧
      (inner' = inner ∨ ∃ e, inner' = .refusing e) := by
  cases a with
  | work input =>
      dsimp only [callsOf, workCalls] at h
      split at h
      all_goals
        simp only [lookCalls, List.mem_ite_nil_left, List.mem_cons, List.not_mem_nil,
          Prod.mk.injEq] at h
      all_goals grind [Op.isUnlock]
  | thread t move =>
      dsimp only [callsOf] at h
      cases ht : s.threads[t]? with
      | none => simp [ht] at h
      | some thread =>
          rw [callsOf, ht, Option.elim_some]
          rw [ht, Option.elim_some] at h
          cases move with
          | finish call' inner =>
              simp only [threadCalls] at h ⊢
              split at h
              · rename_i e hphase
                obtain ⟨rfl, rfl⟩ := Prod.mk.inj (List.mem_singleton.mp h)
                exact ⟨t, inner, .refusing e, rfl, by simp, .inr ⟨e, rfl⟩⟩
              · rename_i hphase
                obtain ⟨rfl, rfl⟩ := Prod.mk.inj (List.mem_singleton.mp h)
                exact ⟨t, inner, inner, rfl, rfl, .inl rfl⟩
          | tick call' =>
              obtain ⟨rfl, rfl⟩ := Prod.mk.inj (List.mem_singleton.mp h)
              cases hop
          | refresh call' =>
              obtain ⟨rfl, rfl⟩ := Prod.mk.inj (List.mem_singleton.mp h)
              cases hop
          | _ => cases h
  | _ => cases h

/-- An unlock in the log is an authenticator's. -/
theorem asserted_of_log_eq {past rest : List Event} {unlock : Event}
    (hrun : Run (Step P) (start session) actions s)
    (hlog : log P (start session) actions = past ++ unlock :: rest) (hunlocks : unlock.unlocks) :
    Asserted P session actions past unlock := by
  obtain ⟨before, a, after, mid, early, late, rfl, hbefore, hcut, rfl⟩ := hrun.trail_cut hlog
  obtain ⟨hop, hok⟩ := Bool.and_eq_true_iff.mp hunlocks
  have hmem : unlock ∈ mid.answersOf P a := by simp [hcut]
  obtain ⟨t, inner, used, rfl, hcalls, hused⟩ :=
    unlock_of_mem_callsOf (Session.mem_performed hmem) hop
  -- The step makes no other call.
  rw [answersOf, hcalls, Session.performed_single] at hcut
  obtain ⟨rfl, heq⟩ : early = [] ∧
      unlock = ⟨unlock.call, .unlock used, (Session.perform P unlock.call (.unlock used)
        mid.session).1⟩ := by
    rcases List.append_eq_singleton_iff.mp hcut.symm with ⟨hnil, htail⟩ | ⟨_, htail⟩
    · exact ⟨hnil, (List.cons.inj htail).1⟩
    · cases htail
  rw [Event.succeeded, heq, Session.perform, Stateful.fst_bind_pure] at hok
  rcases Session.unlock_cases P unlock.call used mid.session with
    ⟨fault, hfailed⟩ | ⟨key, hassert, _⟩
  · rw [hfailed] at hok
    cases hok
  · rcases hused with rfl | ⟨e, rfl⟩
    · exact ⟨before, t, _, used, after, mid, key, rfl, hbefore, List.append_nil _, rfl,
        congrArg Event.op heq, hassert⟩
    · exact absurd hassert assertInnerKey_refusing

theorem live_of_discloses {a : Action} (hstep : Step P s a s') (h : Discloses s s') :
    ∃ call ∈ a.calls, s.session.Live call.started := by
  rcases h with ⟨event, hnew, hdiscloses⟩ | ⟨hat, hnew⟩
  · exact (source_of_new hstep hnew).live hdiscloses
  · obtain ⟨id, input, payload, _, rfl, hopen⟩ := opened_of_delivering hstep hat hnew
    exact ⟨input.call, by simp [Action.calls], Session.live_of_openSecret hopen⟩

/-- **Nothing is let out of a locked vault.** The daemon starts locked. Whatever it then
tells the popup of the vault, and whatever secret it takes out to be typed, there was an
unlock before, which an authenticator has answered, no lock since, and the reading call
started before the deadline that this unlock or a call since then has set. -/
theorem disclosed_within_window {a : Action} (hrun : Run (Step P) (start session) actions s)
    (hlocked : session.innerKek = none) (hstep : Step P s a s') (hdiscloses : Discloses s s') :
    ∃ call ∈ a.calls, ∃ past unlock deadline,
      UnlockWindow session.timeout past unlock (log P (start session) actions) deadline ∧
      call.started < deadline ∧ Asserted P session actions past unlock := by
  obtain ⟨call, hcall, hlive⟩ := live_of_discloses hstep hdiscloses
  obtain ⟨past, unlock, deadline, hwindow, hnow⟩ :=
    Session.live_in_window (run_log hrun) hlocked hlive
  obtain ⟨rest, hlog, hunlocks⟩ := hwindow.log_eq
  exact ⟨call, hcall, past, unlock, deadline, hwindow, hnow, asserted_of_log_eq hrun hlog hunlocks⟩

/-- A list that is refreshed reaches the popup. -/
private theorem exists_step_refreshing (input : WorkInput) {secrets : List SecretMeta}
    (hat : s.worker = .refreshing) (hfree : s.holder = none)
    (hlist : (Session.list P input.call s.session).1 = .ok secrets) :
    ∃ s', Step P s (.work input) s' ∧ s'.events = s.events ++ [.refresh secrets] :=
  ⟨(({ s with session := (Session.list P input.call s.session).2 } : Daemon).emit
    (.refresh secrets)).goto .idle,
    by simp [Step, next, work, hat, withSession, hfree, hlist, settle], by simp [emit, goto]⟩

/-- A vault is unlocked from the popup, with a token that asks for no PIN. -/
private def unlocking : List Action :=
  [.send .unlock, .take (.request .unlock), .thread 0 .acquire,
    .thread 0 (.finish (.atOnce 2) (.token [1] [2])), .thread 0 .endUnlock, .thread 0 .announce,
    .thread 0 (.tick (.atOnce 3))]

/-- A secret is saved in it: up to the list that follows. -/
private def savingUnlocked : List Action :=
  [.send (.save noteMeta notePayload false), .take (.request (.save noteMeta notePayload false)),
    .work (.usual 4), .work (.usual 5)]

/-- The vault after it was unlocked. -/
private def unlockedSession (keys : NewKeys) : Session :=
  { reopened keys (Block.replicate keyLen 1) with
    innerKek := some keys.innerKek, deadline := some 62 }

/-- The vault with the secret in it. -/
private def savedSession (keys : NewKeys) : Session :=
  (Session.perform .reference (.atOnce 5) (.add noteMeta notePayload) (unlockedSession keys)).2

private theorem exists_list_savedSession {keys : NewKeys}
    (hwraps : KeyRing.Wraps .reference keys.innerKek (.ofNewKeys keys)) :
    ∃ secrets, (Session.list .reference (.atOnce 6) (savedSession keys)).1 = .ok secrets ∧
      noteMeta ∈ secrets := by
  have hP := Primitives.reference_lawful
  have hprotects := KeyRing.Wraps.protects hP Primitives.reference_bindsKey keys.innerKek
  have hnew : Refines .reference (KeyRing.Wraps .reference keys.innerKek) keys.innerKek
      (Block.replicate keyLen 1) (.running (newSession keys)) .empty := .of_newKeys keys 10 hwraps
  have hunlocked : Refines .reference (KeyRing.Wraps .reference keys.innerKek) keys.innerKek
      (Block.replicate keyLen 1) (.running (unlockedSession keys)) .empty :=
    hnew.same_tables rfl rfl (.inr (.inr rfl))
  have huses : (Op.add noteMeta notePayload).UsesOnly fun _ => True := trivial
  have hsaved := hunlocked.effect hP hprotects huses
    (Session.perform_effect .reference (.atOnce 5) (.add noteMeta notePayload)
      (unlockedSession keys))
  have hlive : Session.Live (Call.atOnce 6).started ((Session.perform .reference (.atOnce 5)
      (.add noteMeta notePayload) (unlockedSession keys)).2) :=
    ⟨keys.innerKek, 65, rfl, rfl, by decide⟩
  obtain ⟨secrets, hlist, hlists⟩ := hsaved.list hP hlive rfl
  exact ⟨secrets, hlist, (hlists.2.1 noteMeta).mpr ⟨notePayload, rfl⟩⟩

private theorem exists_run_savingUnlocked :
    ∃ keys s, Run (Step .reference) (start (reopened keys (Block.replicate keyLen 1)))
        (unlocking ++ savingUnlocked) s ∧
      s.worker = .refreshing ∧ s.holder = none ∧ s.session = savedSession keys ∧
      KeyRing.Wraps .reference keys.innerKek (.ofNewKeys keys) := by
  obtain ⟨keys, hid, hprepare, _⟩ := Session.exists_initializeVault_working 0 0 (Nat.le_refl 0)
    (Block.replicate 16 0) (Block.replicate keyLen 1) [1] [2] 60
  have hunlock := KeyRing.unlock_of_admits (.atOnce 2) Primitives.reference_lawful
    (reopened keys (Block.replicate keyLen 1)) (.of_newKeys keys _) (fun _ _ => rfl)
    (admits_of_token hprepare hid)
  have htake : Step .reference
      { start (reopened keys (Block.replicate keyLen 1)) with requests := [.unlock] }
      (.take (.request .unlock))
      { start (reopened keys (Block.replicate keyLen 1)) with
        unlockInFlight := true, threads := [⟨.startUnlock, .waiting⟩]
        events := [.lockChanged .waitingForTouch] } := rfl
  have hfinish : Step .reference
      { start (reopened keys (Block.replicate keyLen 1)) with
        unlockInFlight := true, threads := [⟨.startUnlock, .unlocking⟩], holder := some 0
        events := [.lockChanged .waitingForTouch] }
      (.thread 0 (.finish (.atOnce 2) (.token [1] [2])))
      { start (unlockedSession keys) with
        unlockInFlight := true, threads := [⟨.startUnlock, .returned (.ok ())⟩]
        events := [.lockChanged .waitingForTouch] } := by
    simp [Step, next, threadStep, finishUnlock, setPhase, start, hunlock]
    rfl
  have hunlocked : Run (Step .reference) (start (reopened keys (Block.replicate keyLen 1)))
      unlocking { start (unlockedSession keys) with
        threads := [⟨.startUnlock, .announced⟩]
        events := [.lockChanged .waitingForTouch, .lockChanged (.unlocked 59)] } :=
    .cons rfl (.cons htake (.cons rfl (.cons hfinish (.cons rfl (.cons rfl
      (.cons rfl (.nil _)))))))
  have htakeSave : Step .reference
      { start (unlockedSession keys) with
        threads := [⟨.startUnlock, .announced⟩]
        events := [.lockChanged .waitingForTouch, .lockChanged (.unlocked 59)]
        requests := [.save noteMeta notePayload false] }
      (.take (.request (.save noteMeta notePayload false)))
      { start (unlockedSession keys) with
        threads := [⟨.startUnlock, .announced⟩]
        events := [.lockChanged .waitingForTouch, .lockChanged (.unlocked 59)]
        worker := .handling (.save noteMeta notePayload false) } :=
    take_of_requests (s := { start (unlockedSession keys) with
      threads := [⟨.startUnlock, .announced⟩]
      events := [.lockChanged .waitingForTouch, .lockChanged (.unlocked 59)]
      requests := [.save noteMeta notePayload false] }) rfl rfl
  exact ⟨keys, _, hunlocked.append (.cons rfl (.cons htakeSave (.cons rfl (.cons rfl (.nil _))))),
    rfl, rfl, rfl, .of_prepareKeys hprepare⟩

/-- The list that the popup is sent of an unlocked vault shows the secret in it, and is sent
in the window of the unlock. -/
theorem unlocked_vault_is_listed :
    ∃ keys s s' secrets past unlock deadline,
      Run (Step .reference) (start (reopened keys (Block.replicate keyLen 1)))
        (unlocking ++ savingUnlocked) s ∧
      Step .reference s (.work (.usual 6)) s' ∧
      DaemonEvent.refresh secrets ∈ s'.events.drop s.events.length ∧ noteMeta ∈ secrets ∧
      UnlockWindow 60 past unlock (log .reference
        (start (reopened keys (Block.replicate keyLen 1))) (unlocking ++ savingUnlocked)) deadline ∧
      6 < deadline ∧
      Asserted .reference (reopened keys (Block.replicate keyLen 1)) (unlocking ++ savingUnlocked)
        past unlock := by
  obtain ⟨keys, s, hrun, hat, hfree, hsession, hwraps⟩ := exists_run_savingUnlocked
  obtain ⟨secrets, hlist, hnote⟩ := exists_list_savedSession hwraps
  obtain ⟨s', hstep, hevents⟩ := exists_step_refreshing (.usual 6) hat hfree
    (hsession ▸ hlist)
  have hnew : DaemonEvent.refresh secrets ∈ s'.events.drop s.events.length := by
    rw [hevents, List.drop_left]
    exact List.mem_singleton_self _
  obtain ⟨call, hcall, past, unlock, deadline, hwindow, hnow, hasserted⟩ :=
    disclosed_within_window hrun rfl hstep (.inl ⟨_, hnew, rfl⟩)
  have hstarted : call.started = 6 := by
    rcases List.mem_pair.mp hcall with rfl | rfl <;> rfl
  exact ⟨keys, s, s', secrets, past, unlock, deadline, hrun, hstep, hnew, hnote, hwindow,
    hstarted ▸ hnow, hasserted⟩

end Daemon

end Sypherstore
