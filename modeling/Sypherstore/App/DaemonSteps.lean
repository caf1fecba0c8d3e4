/-
# What a step of the daemon can do

Once for each kind of step: where the worker may go from where it is, and what a thread
may do to the session mutex and to the flag of the unlock in flight. From this, who can
be waiting for whom in any state the daemon reaches.
-/

import Sypherstore.App.Daemon

namespace Sypherstore

open Logic

/-- The thread holds the session mutex. -/
def Phase.holds : Phase → Bool
  | .unlocking | .drained | .blocked | .answered _ => true
  | _ => false

/-- The thread has not come to `end_unlock`, or back to the handler that waits for it. -/
def Phase.pending : Phase → Bool
  | .waiting | .returned _ => true
  | phase => phase.holds

theorem Phase.pending_of_holds {phase : Phase} (h : phase.holds) : phase.pending := by
  cases phase <;> first | rfl | cases h

/-- The request opens or saves the editor's form. -/
def UiRequest.edits : UiRequest → Bool
  | .beginEdit _ | .save _ _ _ => true
  | _ => false

namespace Daemon

variable {P : Primitives} {s s' : Daemon}

/-! ## The fields that a step leaves alone -/

theorem getElem?_setPhase_of_ne {t t' : ℕ} (h : t ≠ t') (phase : Phase) :
    (s.setPhase t phase).threads[t']? = s.threads[t']? := by
  simp [setPhase, h]

theorem getElem?_setPhase_self {t : ℕ} {thread : Thread} (h : s.threads[t]? = some thread)
    (phase : Phase) : (s.setPhase t phase).threads[t]? = some { thread with phase } := by
  simp [setPhase, h]

theorem getElem?_spawn {kind : ThreadKind} {t : ℕ} {thread : Thread} :
    (s.spawn kind).threads[t]? = some thread ↔
      s.threads[t]? = some thread ∨
        t = s.threads.length ∧ thread = { kind, phase := .waiting } := by
  rw [spawn, List.getElem?_append]
  by_cases h : t < s.threads.length
  · simp [h, h.ne]
  · rw [if_neg h]
    have hnone : s.threads[t]? = none := List.getElem?_eq_none (not_lt.mp h)
    by_cases heq : t = s.threads.length
    · simp [heq, eq_comm]
    · have hout : 1 ≤ t - s.threads.length := by omega
      simp [hnone, heq, List.getElem?_eq_none (l := [_]) hout]

/-- A second unlock is refused. -/
theorem startUnlock_of_inFlight (h : s.unlockInFlight = true) : s.startUnlock = s := if_pos h

theorem startUnlock_of_not_inFlight (h : s.unlockInFlight = false) :
    s.startUnlock =
      ({ s with unlockInFlight := true }.emit (.lockChanged .waitingForTouch)).spawn
        .startUnlock :=
  if_neg (by simp [h])

/-! ## The worker -/

/-- `ui_lock_state` does not wait. -/
def CanLook (s : Daemon) : Prop := s.unlockInFlight ∨ s.holder = none

/-- `ui_lock_state` does not find the vault unlocked. -/
def Locked (s : Daemon) (now : Instant) : Prop :=
  s.unlockInFlight ∨ (s.session.tick now).1.isUnlocked = false

/-- Where the worker may go without a thread being concerned. -/
inductive Moves (s : Daemon) : Worker → Prop
  | ticked (hat : s.worker = .ticking) (hlook : s.CanLook) : Moves s .idle
  | detected {host application : Option String} (hat : s.worker = .hotkey .detecting) :
      Moves s (.hotkey (.checking host application))
  | foundLocked {host application : Option String}
      (hat : s.worker = .hotkey (.checking host application)) (hlook : s.CanLook) :
      Moves s (.hotkey (.announcing false))
  | foundUnlocked {host application : Option String}
      (hat : s.worker = .hotkey (.checking host application)) (hflag : s.unlockInFlight = false)
      (hfree : s.holder = none) : Moves s (.hotkey (.listing host application))
  | listed {host application : Option String}
      (hat : s.worker = .hotkey (.listing host application)) (hfree : s.holder = none) :
      Moves s (.hotkey (.announcing true))
  | announced {unlocked : Bool} (hat : s.worker = .hotkey (.announcing unlocked))
      (hlook : s.CanLook) : Moves s (.hotkey (.finishing unlocked))
  | refused (hat : s.worker = .hotkey (.finishing false)) (hflag : s.unlockInFlight) :
      Moves s .idle
  | touched (hat : s.worker = .hotkey (.finishing true)) (hfree : s.holder = none) : Moves s .idle
  | handled {r : UiRequest} (hat : s.worker = .handling r) (hfree : s.holder = none) :
      Moves s .idle
  | opened {id : Uuid} (hat : s.worker = .handling (.use id)) (hfree : s.holder = none) :
      Moves s .delivering
  | foundAuthorized {r : UiRequest} (hat : s.worker = .handling r)
      (hedits : r.edits) (hflag : s.unlockInFlight = false) (hfree : s.holder = none) :
      Moves s (.authorized r)
  | performed {r : UiRequest} (hat : s.worker = .authorized r) (hfree : s.holder = none) :
      Moves s .idle
  | stored {r : UiRequest} (hat : s.worker = .authorized r) (hfree : s.holder = none) :
      Moves s .refreshing
  | delivered (hat : s.worker = .delivering) : Moves s .idle
  | refreshed (hat : s.worker = .refreshing) (hfree : s.holder = none) : Moves s .idle
  | stopped (hat : s.worker = .stopping) (hfree : s.holder = none) : Moves s .stopped
  | died (hat : (∃ host application, s.worker = .hotkey (.listing host application)) ∨
      (∃ r, s.worker = .handling r ∨ s.worker = .authorized r) ∨ s.worker = .refreshing)
      (hfree : s.holder = none) : Moves s .died

/-- What the worker does between two waiting points. -/
inductive WorkEffect (s : Daemon) (now : Instant) : Daemon → Prop
  | moved {worker : Worker} (session : Session) (lastState : UiLockState)
      (events : List DaemonEvent) (hmoves : s.Moves worker) :
      WorkEffect s now { s with worker, session, lastState, events }
  | started (events : List DaemonEvent) (hat : s.worker = .hotkey (.finishing false))
      (hflag : s.unlockInFlight = false) :
      WorkEffect s now { s.spawn .startUnlock with worker := .idle, unlockInFlight := true, events }
  | reasserted {r : UiRequest} (session : Session) (hat : s.worker = .handling r)
      (hlook : s.CanLook)
      (hwhy : (∃ id, r = .delete id) ∧ s.holder = none ∨ r.edits ∧ s.Locked now) :
      WorkEffect s now
        { s.spawn .reassert with worker := .awaiting r s.threads.length, session }
  | resumed {r : UiRequest} {t : ℕ} {result : Fallible SessionError Unit} {worker : Worker}
      (events : List DaemonEvent) (hat : s.worker = .awaiting r t)
      (hreturned : s.threads[t]? = some ⟨.reassert, .returned result⟩)
      (hto : worker = if result.isOk then .authorized r else .idle) :
      WorkEffect s now { s.setPhase t .done with worker, events }

theorem withSession_eq_some_iff {α : Type} (x : Stateful Session SessionError α)
    (found : Fallible SessionError α × Daemon) :
    s.withSession x = some found ↔
      s.holder = none ∧ found = ((x s.session).1, { s with session := (x s.session).2 }) := by
  cases h : s.holder <;> simp [withSession, h, eq_comm]

theorem uiLockState_eq_some {call : Call} {found : UiLockState × Daemon}
    (h : s.uiLockState call = some found) :
    s.CanLook ∧ (found.1.isUnlocked → s.unlockInFlight = false ∧ s.holder = none) ∧
      (found.1.isUnlocked = false → s.Locked call.started) ∧
      ∃ session, found.2 = { s with session } := by
  unfold uiLockState at h
  split at h
  · rename_i hflag
    cases h
    exact ⟨.inl hflag, by simp [UiLockState.isUnlocked], fun _ => .inl hflag, s.session, rfl⟩
  · rename_i hflag
    unfold tickSession at h
    split at h
    · cases h
    · rename_i hfree
      cases h
      refine ⟨.inr hfree, fun _ => ⟨by simpa using hflag, hfree⟩, fun hlocked => .inr ?_, _, rfl⟩
      rwa [LockState.isUnlocked_ui] at hlocked

/-- Each end of a critical section of the worker. -/
theorem settle_effect {α : Type} {now : Instant} (result : Fallible SessionError α)
    (session : Session)
    {ok : α → Daemon → Daemon} {err : SessionError → Daemon → Daemon}
    (hok : ∀ a, s.WorkEffect now (ok a { s with session }))
    (herr : ∀ e, s.WorkEffect now (err e { s with session })) (hdied : s.Moves .died) :
    s.WorkEffect now ({ s with session }.settle result ok err) := by
  rcases result with (e | _) | a
  · exact herr e
  · exact .moved session s.lastState s.events hdied
  · exact hok a

theorem onHotkey_effect {input : WorkInput} {point : HotkeyPoint}
    (hat : s.worker = .hotkey point) (h : s.onHotkey P input point = some s') :
    s.WorkEffect input.call.started s' := by
  cases point with
  | detecting =>
      cases h
      exact .moved _ _ _ (.detected hat)
  | checking host application =>
      obtain ⟨⟨state, mid⟩, hlook, h⟩ := Option.bind_eq_some_iff.mp h
      obtain ⟨hcan, hunlocked, hlocked, session, rfl⟩ := uiLockState_eq_some hlook
      dsimp only at h
      split at h
      · rename_i hstate
        cases h
        exact .moved _ _ _ (.foundUnlocked hat (hunlocked hstate).1 (hunlocked hstate).2)
      · cases h
        exact .moved _ _ _ (.foundLocked hat hcan)
  | listing host application =>
      obtain ⟨found, hrun, h⟩ := Option.bind_eq_some_iff.mp h
      obtain ⟨hfree, rfl⟩ := (withSession_eq_some_iff ..).mp hrun
      cases h
      refine settle_effect _ _ (fun secrets => ?_) (fun e => ?_) (.died (.inl ⟨_, _, hat⟩) hfree)
      · exact .moved _ _ _ (.listed hat hfree)
      · exact .moved _ _ _ (.listed hat hfree)
  | announcing unlocked =>
      obtain ⟨⟨state, mid⟩, hlook, h⟩ := Option.bind_eq_some_iff.mp h
      obtain ⟨hcan, _, _, session, rfl⟩ := uiLockState_eq_some hlook
      cases h
      exact .moved _ _ _ (.announced hat hcan)
  | finishing unlocked =>
      cases unlocked with
      | false =>
          cases h
          cases hflag : s.unlockInFlight with
          | true =>
              rw [startUnlock_of_inFlight hflag]
              exact .moved _ _ _ (.refused hat hflag)
          | false =>
              rw [startUnlock_of_not_inFlight hflag]
              exact .started _ hat hflag
      | true =>
          obtain ⟨found, hrun, h⟩ := Option.bind_eq_some_iff.mp h
          obtain ⟨hfree, rfl⟩ := (withSession_eq_some_iff ..).mp hrun
          cases h
          exact .moved _ _ _ (.touched hat hfree)

theorem onRequest_effect {input : WorkInput} {r : UiRequest} (hat : s.worker = .handling r)
    (h : s.onRequest P input r = some s') : s.WorkEffect input.call.started s' := by
  have hbegin : ∀ {r' : UiRequest}, r'.edits → s.worker = .handling r' →
      ((s.uiLockState input.call).bind fun found =>
        some (if found.1.isUnlocked then found.2.goto (.authorized r')
          else found.2.reassert r')) = some s' → s.WorkEffect input.call.started s' := by
    intro r' hedits hat h
    obtain ⟨⟨state, mid⟩, hlook, h⟩ := Option.bind_eq_some_iff.mp h
    obtain ⟨hcan, hunlocked, hlocked, session, rfl⟩ := uiLockState_eq_some hlook
    cases h
    by_cases hstate : state.isUnlocked
    · rw [if_pos hstate]
      exact .moved _ _ _ (.foundAuthorized hat hedits (hunlocked hstate).1 (hunlocked hstate).2)
    · rw [if_neg hstate]
      exact .reasserted session hat hcan (.inr ⟨hedits, hlocked (by simpa using hstate)⟩)
  cases r with
  | touch =>
      obtain ⟨found, hrun, h⟩ := Option.bind_eq_some_iff.mp h
      obtain ⟨hfree, rfl⟩ := (withSession_eq_some_iff ..).mp hrun
      cases h
      exact .moved _ _ _ (.handled hat hfree)
  | use id =>
      obtain ⟨found, hrun, h⟩ := Option.bind_eq_some_iff.mp h
      obtain ⟨hfree, rfl⟩ := (withSession_eq_some_iff ..).mp hrun
      cases h
      refine settle_effect _ _ (fun payload => ?_) (fun e => ?_)
        (.died (.inr (.inl ⟨_, .inl hat⟩)) hfree)
      · exact .moved _ _ _ (.opened hat hfree)
      · exact .moved _ _ _ (.handled hat hfree)
  | delete id =>
      obtain ⟨found, hrun, h⟩ := Option.bind_eq_some_iff.mp h
      obtain ⟨hfree, rfl⟩ := (withSession_eq_some_iff ..).mp hrun
      cases h
      exact .reasserted _ hat (.inr hfree) (.inl ⟨⟨id, rfl⟩, hfree⟩)
  | beginEdit id => exact hbegin rfl hat h
  | save m payload isUpdate => exact hbegin rfl hat h
  | _ => cases h

theorem onAuthorized_effect {input : WorkInput} {r : UiRequest} (hat : s.worker = .authorized r)
    (h : s.onAuthorized P input r = some s') : s.WorkEffect input.call.started s' := by
  cases r with
  | beginEdit id =>
      obtain ⟨found, hrun, h⟩ := Option.bind_eq_some_iff.mp h
      obtain ⟨hfree, rfl⟩ := (withSession_eq_some_iff ..).mp hrun
      cases h
      refine settle_effect _ _ (fun found => ?_) (fun e => ?_)
        (.died (.inr (.inl ⟨_, .inr hat⟩)) hfree)
      · exact .moved _ _ _ (.performed hat hfree)
      · exact .moved _ _ _ (.performed hat hfree)
  | save m payload isUpdate =>
      obtain ⟨found, hrun, h⟩ := Option.bind_eq_some_iff.mp h
      obtain ⟨hfree, rfl⟩ := (withSession_eq_some_iff ..).mp hrun
      cases h
      refine settle_effect _ _ (fun _ => ?_) (fun e => ?_)
        (.died (.inr (.inl ⟨_, .inr hat⟩)) hfree)
      · exact .moved _ _ _ (.stored hat hfree)
      · exact .moved _ _ _ (.performed hat hfree)
  | delete id =>
      obtain ⟨found, hrun, h⟩ := Option.bind_eq_some_iff.mp h
      obtain ⟨hfree, rfl⟩ := (withSession_eq_some_iff ..).mp hrun
      cases h
      refine settle_effect _ _ (fun _ => ?_) (fun e => ?_)
        (.died (.inr (.inl ⟨_, .inr hat⟩)) hfree)
      · exact .moved _ _ _ (.stored hat hfree)
      · exact .moved _ _ _ (.performed hat hfree)
  | _ => cases h

/-- **What the worker does.** -/
theorem work_effect {input : WorkInput} (h : s.work P input = some s') :
    s.WorkEffect input.call.started s' := by
  unfold work at h
  split at h
  · cases h
  · cases h
  · cases h
  · rename_i hat
    obtain ⟨⟨state, mid⟩, hlook, h⟩ := Option.bind_eq_some_iff.mp h
    obtain ⟨hcan, _, _, session, rfl⟩ := uiLockState_eq_some hlook
    cases h
    unfold ticked
    split
    · exact .moved _ _ _ (.ticked hat hcan)
    · exact .moved _ _ _ (.ticked hat hcan)
  · rename_i point hat
    exact onHotkey_effect hat h
  · rename_i r hat
    exact onRequest_effect hat h
  · rename_i r t hat
    split at h
    · rename_i result hreturned
      cases h
      rcases result with (e | _) | _
      · exact .resumed _ hat hreturned rfl
      · exact .resumed _ hat hreturned rfl
      · exact .resumed _ hat hreturned rfl
    · cases h
  · rename_i r hat
    exact onAuthorized_effect hat h
  · rename_i hat
    split at h
    · cases h
      exact .moved _ _ _ (.delivered hat)
    · cases h
      exact .moved _ _ _ (.delivered hat)
  · rename_i hat
    obtain ⟨found, hrun, h⟩ := Option.bind_eq_some_iff.mp h
    obtain ⟨hfree, rfl⟩ := (withSession_eq_some_iff ..).mp hrun
    cases h
    refine settle_effect _ _ (fun secrets => ?_) (fun e => ?_) (.died (.inr (.inr hat)) hfree)
    · exact .moved _ _ _ (.refreshed hat hfree)
    · exact .moved _ _ _ (.refreshed hat hfree)
  · rename_i hat
    obtain ⟨found, hrun, h⟩ := Option.bind_eq_some_iff.mp h
    obtain ⟨hfree, rfl⟩ := (withSession_eq_some_iff ..).mp hrun
    cases h
    exact .moved _ _ _ (.stopped hat hfree)

/-! ## The assertion threads -/

/-- What a thread does in one step. -/
inductive ThreadEffect (s : Daemon) (t : ℕ) (thread : Thread) : Daemon → Prop
  | acquired (hphase : thread.phase = .waiting) (hfree : s.holder = none) :
      ThreadEffect s t thread ({ s with holder := some t }.setPhase t .unlocking)
  | drained (hphase : thread.phase = .unlocking) :
      ThreadEffect s t thread ({ s with answers := [] }.setPhase t .drained)
  | requested (hphase : thread.phase = .drained) :
      ThreadEffect s t thread ((s.emit (.requestPin false)).setPhase t .blocked)
  | received {pin : Option String} {rest : List (Option String)}
      (hphase : thread.phase = .blocked) (hanswers : s.answers = pin :: rest) :
      ThreadEffect s t thread ({ s with answers := rest }.setPhase t (.answered (pinResult pin)))
  | timedOut (hphase : thread.phase = .blocked) :
      ThreadEffect s t thread (s.setPhase t (.answered (.error .timeout)))
  | finished (session : Session) (result : Fallible SessionError Unit)
      (hholds : thread.phase.holds) :
      ThreadEffect s t thread
        ({ s with session, holder := none }.setPhase t (.returned result))
  | endedUnlock {result : Fallible SessionError Unit} (ended : Except SessionError Unit)
      (hkind : thread.kind = .startUnlock) (hphase : thread.phase = .returned result) :
      ThreadEffect s t thread ({ s with unlockInFlight := false }.setPhase t (.ended ended))
  | unwound (hkind : thread.kind = .startUnlock)
      (hphase : thread.phase = .returned (.error .panic)) : ThreadEffect s t thread
        (s.setPhase t .done)
  | reported {phase : Phase} (session : Session) (events : List DaemonEvent)
      (hbefore : thread.phase.pending = false) (hafter : phase.pending = false) :
      ThreadEffect s t thread ({ s with session, events }.setPhase t phase)

theorem tickSession_eq_some {call : Call} {found : UiLockState × Daemon}
    (h : s.tickSession call = some found) : ∃ session, found.2 = { s with session } := by
  unfold tickSession at h
  split at h
  · cases h
  · cases h
    exact ⟨_, rfl⟩

/-- **What a thread does.** -/
theorem threadStep_effect {t : ℕ} {thread : Thread} {move : ThreadMove}
    (h : s.threadStep P t thread move = some s') : s.ThreadEffect t thread s' := by
  cases move with
  | acquire =>
      dsimp only [threadStep] at h
      split at h
      · rename_i hphase hfree
        cases h
        exact .acquired hphase hfree
      · cases h
  | drain =>
      dsimp only [threadStep] at h
      split at h
      · rename_i hphase
        cases h
        exact .drained hphase
      · cases h
  | request =>
      dsimp only [threadStep] at h
      split at h
      · rename_i hphase
        cases h
        exact .requested hphase
      · cases h
  | receive =>
      dsimp only [threadStep] at h
      split at h
      · rename_i pin rest hphase hanswers
        cases h
        exact .received hphase hanswers
      · cases h
  | timeout =>
      dsimp only [threadStep] at h
      split at h
      · rename_i hphase
        cases h
        exact .timedOut hphase
      · cases h
  | finish call inner =>
      dsimp only [threadStep] at h
      split at h
      · rename_i hphase
        cases h
        exact .finished _ _ (by rw [hphase]; rfl)
      · rename_i hphase
        cases h
        exact .finished _ _ (by rw [hphase]; rfl)
      · rename_i hphase
        cases h
        exact .finished _ _ (by rw [hphase]; rfl)
      · cases h
  | endUnlock =>
      dsimp only [threadStep] at h
      split at h
      · rename_i hkind hphase
        cases h
        exact .endedUnlock _ hkind hphase
      · rename_i hkind hphase
        cases h
        exact .endedUnlock _ hkind hphase
      · rename_i hkind hphase
        cases h
        exact .unwound hkind hphase
      · cases h
  | announce =>
      dsimp only [threadStep] at h
      split at h
      · rename_i hphase
        split at h
        · cases h
          exact .reported _ _ (by rw [hphase]; rfl) rfl
        · cases h
          exact .reported _ _ (by rw [hphase]; rfl) rfl
      · rename_i hphase
        cases h
        exact .reported _ _ (by rw [hphase]; rfl) rfl
      · cases h
  | tick call =>
      dsimp only [threadStep] at h
      split at h
      · rename_i hphase
        obtain ⟨⟨state, mid⟩, htick, h⟩ := Option.bind_eq_some_iff.mp h
        obtain ⟨session, rfl⟩ := tickSession_eq_some htick
        cases h
        exact .reported _ _ (by rw [hphase]; rfl) rfl
      · cases h
  | refresh call =>
      dsimp only [threadStep] at h
      split at h
      · rename_i hphase
        obtain ⟨⟨result, mid⟩, hrun, h⟩ := Option.bind_eq_some_iff.mp h
        obtain ⟨hfree, hmid⟩ := (withSession_eq_some_iff ..).mp hrun
        cases hmid
        cases h
        have hbefore : thread.phase.pending = false := by rw [hphase]; rfl
        unfold refreshed
        split
        · exact .reported _ _ hbefore rfl
        · exact .reported _ _ hbefore rfl
        · exact .reported _ _ hbefore rfl
      · cases h

/-- Only a thread that held the mutex returns. -/
theorem ThreadEffect.phase {t : ℕ} {thread : Thread} (h : s.ThreadEffect t thread s')
    (ht : s.threads[t]? = some thread) :
    ∃ phase, s'.threads[t]? = some { thread with phase } ∧
      (∀ result, phase = .returned result → thread.phase.holds) := by
  cases h with
  | finished session result hholds =>
      exact ⟨_, getElem?_setPhase_self ht _, fun _ _ => hholds⟩
  | reported session events hbefore hafter =>
      refine ⟨_, getElem?_setPhase_self ht _, ?_⟩
      rintro result rfl
      cases hafter
  | _ => exact ⟨_, getElem?_setPhase_self ht _, by simp⟩

/-! ## Taking a branch -/

/-- What the idle worker does. -/
inductive TakeEffect (s : Daemon) : Arm → Daemon → Prop
  | entered {arm : Arm} {worker : Worker} (hidle : s.worker = .idle)
      (hto : arm = .shutdown ∧ worker = .stopping ∨
        (arm = .hotkey ∨ arm = .sigusr1) ∧ worker = .hotkey .detecting ∨
        arm = .tick ∧ worker = .ticking) :
      TakeEffect s arm { s with worker }
  | accepted {r : UiRequest} {rest : List UiRequest} (hidle : s.worker = .idle)
      (hrequests : s.requests = r :: rest) :
      TakeEffect s (.request r) ({ s with requests := rest }.accept r)

theorem take_effect {arm : Arm} (h : s.take arm = some s') : s.TakeEffect arm s' := by
  unfold take at h
  split at h
  · rename_i hidle
    cases h
    exact .entered hidle (.inl ⟨rfl, rfl⟩)
  · rename_i hidle
    cases h
    exact .entered hidle (.inr (.inl ⟨.inl rfl, rfl⟩))
  · rename_i hidle
    cases h
    exact .entered hidle (.inr (.inl ⟨.inr rfl, rfl⟩))
  · rename_i r hidle
    split at h
    · rename_i hhead
      cases h
      obtain ⟨rest, hrest⟩ := List.head?_eq_some_iff.mp hhead
      rw [hrest, List.tail_cons]
      exact .accepted hidle hrest
    · cases h
  · rename_i hidle
    cases h
    exact .entered hidle (.inr (.inr ⟨rfl, rfl⟩))
  · cases h

/-! ## Who waits for whom -/

def Holds (s : Daemon) (t : ℕ) : Prop :=
  ∃ thread, s.threads[t]? = some thread ∧ thread.phase.holds

def Pending (s : Daemon) (kind : ThreadKind) (t : ℕ) : Prop :=
  ∃ thread, s.threads[t]? = some thread ∧ thread.kind = kind ∧ thread.phase.pending

/-- The mutex has at most one holder, an unlock that nobody waits for keeps the flag up,
and an assertion of a handler has the worker waiting for it. -/
structure Consistent (s : Daemon) : Prop where
  holder : ∀ t, s.holder = some t ↔ s.Holds t
  inFlight : ∀ t, s.Pending .startUnlock t → s.unlockInFlight
  single : ∀ t t', s.Pending .startUnlock t → s.Pending .startUnlock t' → t = t'
  awaited : ∀ t, s.Pending .reassert t → ∃ r, s.worker = .awaiting r t

theorem consistent_start (session : Session) : (start session).Consistent where
  holder t := by simp [start, Holds]
  inFlight t h := by simp [start, Pending] at h
  single t t' h := by simp [start, Pending] at h
  awaited t h := by simp [start, Pending] at h

/-- A thread goes on without going back. -/
theorem Consistent.setPhase (h : s.Consistent) {t : ℕ} {thread : Thread} {phase : Phase}
    (ht : s.threads[t]? = some thread) (hthreads : s'.threads = (s.setPhase t phase).threads)
    (hworker : s'.worker = s.worker)
    (hself : s'.holder = some t ↔ phase.holds)
    (hother : ∀ t', t' ≠ t → (s'.holder = some t' ↔ s.holder = some t'))
    (hpending : phase.pending → thread.phase.pending)
    (hflag : s'.unlockInFlight = s.unlockInFlight ∨
      s.Pending .startUnlock t ∧ phase.pending = false) :
    s'.Consistent := by
  have hat : s'.threads[t]? = some { thread with phase } := by
    rw [hthreads, getElem?_setPhase_self ht]
  have hne : ∀ t', t' ≠ t → s'.threads[t']? = s.threads[t']? := by
    intro t' hne
    rw [hthreads, getElem?_setPhase_of_ne hne.symm]
  have hback : ∀ kind t', s'.Pending kind t' → s.Pending kind t' := by
    rintro kind t' ⟨thread', ht', hkind, hphase⟩
    by_cases heq : t' = t
    · obtain rfl : { thread with phase } = thread' := by simpa [heq, hat] using ht'
      exact ⟨thread, heq ▸ ht, hkind, hpending hphase⟩
    · exact ⟨thread', hne t' heq ▸ ht', hkind, hphase⟩
  refine ⟨fun t' => ?_, fun t' ht' => ?_, fun t₁ t₂ h₁ h₂ => ?_, fun t' ht' => ?_⟩
  · by_cases heq : t' = t
    · simp [heq, hself, Holds, hat]
    · rw [hother t' heq, h.holder, Holds, Holds, hne t' heq]
  · rcases hflag with hsame | ⟨hstarted, hdone⟩
    · rw [hsame]
      exact h.inFlight t' (hback _ _ ht')
    · obtain rfl := h.single t' t (hback _ _ ht') hstarted
      obtain ⟨thread', hthread, _, hphase⟩ := ht'
      obtain rfl : { thread with phase } = thread' := by simpa [hat] using hthread
      simp [hdone] at hphase
  · exact h.single t₁ t₂ (hback _ _ h₁) (hback _ _ h₂)
  · rw [hworker]
    exact h.awaited t' (hback _ _ ht')

/-- A thread that holds the mutex is its only holder. -/
theorem Consistent.holder_of_holds (h : s.Consistent) {t : ℕ} {thread : Thread}
    (ht : s.threads[t]? = some thread) (hholds : thread.phase.holds) : s.holder = some t :=
  (h.holder t).mpr ⟨thread, ht, hholds⟩

theorem Consistent.holder_ne_of_not_holds (h : s.Consistent) {t : ℕ} {thread : Thread}
    (ht : s.threads[t]? = some thread) (hholds : thread.phase.holds = false) :
    s.holder ≠ some t := by
  intro hheld
  obtain ⟨thread', ht', hholds'⟩ := (h.holder t).mp hheld
  obtain rfl : thread' = thread := by simpa [ht'] using ht
  simp [hholds] at hholds'

theorem Consistent.threadEffect (h : s.Consistent) {t : ℕ} {thread : Thread}
    (ht : s.threads[t]? = some thread) (heffect : s.ThreadEffect t thread s') :
    s'.Consistent := by
  -- A step of a thread that holds the mutex before and after it.
  have hinside : ∀ {u : Daemon} {phase : Phase}, thread.phase.holds → phase.holds →
      u.threads = (s.setPhase t phase).threads → u.worker = s.worker → u.holder = s.holder →
      u.unlockInFlight = s.unlockInFlight → u.Consistent := by
    intro u phase hbefore hafter hthreads hworker hholder hflag
    refine h.setPhase ht hthreads hworker ?_ (fun t' _ => by rw [hholder])
      (fun _ => Phase.pending_of_holds hbefore) (.inl hflag)
    simp [hholder, h.holder_of_holds ht hbefore, hafter]
  cases heffect with
  | acquired hphase hfree =>
      refine h.setPhase ht rfl rfl (by simp [Daemon.setPhase, Phase.holds]) ?_
        (fun _ => by rw [hphase]; rfl) (.inl rfl)
      intro t' hne
      simp [Daemon.setPhase, hfree, hne.symm]
  | drained hphase => exact hinside (by rw [hphase]; rfl) rfl rfl rfl rfl rfl
  | requested hphase => exact hinside (by rw [hphase]; rfl) rfl rfl rfl rfl rfl
  | received hphase hanswers => exact hinside (by rw [hphase]; rfl) rfl rfl rfl rfl rfl
  | timedOut hphase => exact hinside (by rw [hphase]; rfl) rfl rfl rfl rfl rfl
  | finished session result hholds =>
      have hheld := h.holder_of_holds ht hholds
      refine h.setPhase ht rfl rfl (by simp [Daemon.setPhase, Phase.holds]) ?_
        (fun _ => Phase.pending_of_holds hholds) (.inl rfl)
      intro t' hne
      simp [Daemon.setPhase, hheld, hne.symm]
  | endedUnlock ended hkind hphase =>
      have hpending : thread.phase.pending := by rw [hphase]; rfl
      refine h.setPhase ht rfl rfl ?_ (fun t' _ => Iff.rfl) (fun _ => hpending)
        (.inr ⟨⟨thread, ht, hkind, hpending⟩, rfl⟩)
      have hne := h.holder_ne_of_not_holds ht (by rw [hphase]; rfl)
      simp [Daemon.setPhase, Phase.holds, hne]
  | unwound hkind hphase =>
      refine h.setPhase ht rfl rfl ?_ (fun t' _ => Iff.rfl) (by simp [Phase.pending, Phase.holds])
        (.inl rfl)
      have hne := h.holder_ne_of_not_holds ht (by rw [hphase]; rfl)
      simp [Daemon.setPhase, Phase.holds, hne]
  | @reported phase session events hbefore hafter =>
      have hnot : ∀ phase : Phase, phase.pending = false → phase.holds = false := by
        intro phase hphase
        by_contra hholds
        simp [Phase.pending_of_holds (by simpa using hholds)] at hphase
      refine h.setPhase ht rfl rfl ?_ (fun t' _ => Iff.rfl) (by simp [hafter]) (.inl rfl)
      have hne := h.holder_ne_of_not_holds ht (hnot _ hbefore)
      simp [Daemon.setPhase, hnot _ hafter, hne]

theorem pending_spawn_iff {kind kind' : ThreadKind} {t : ℕ} :
    (s.spawn kind).Pending kind' t ↔
      s.Pending kind' t ∨ t = s.threads.length ∧ kind' = kind := by
  constructor
  · rintro ⟨thread, ht, hkind, hphase⟩
    rcases getElem?_spawn.mp ht with hold | ⟨hnew, rfl⟩
    · exact .inl ⟨thread, hold, hkind, hphase⟩
    · exact .inr ⟨hnew, hkind.symm⟩
  · rintro (⟨thread, ht, hkind, hphase⟩ | ⟨hnew, rfl⟩)
    · exact ⟨thread, getElem?_spawn.mpr (.inl ht), hkind, hphase⟩
    · exact ⟨_, getElem?_spawn.mpr (.inr ⟨hnew, rfl⟩), rfl, rfl⟩

theorem holds_spawn_iff {kind : ThreadKind} {t : ℕ} : (s.spawn kind).Holds t ↔ s.Holds t := by
  constructor
  · rintro ⟨thread, ht, hholds⟩
    rcases getElem?_spawn.mp ht with hold | ⟨_, rfl⟩
    · exact ⟨thread, hold, hholds⟩
    · cases hholds
  · rintro ⟨thread, ht, hholds⟩
    exact ⟨thread, getElem?_spawn.mpr (.inl ht), hholds⟩

/-- While no handler waits for an assertion, the worker may go anywhere. -/
theorem Consistent.of_worker (h : s.Consistent) (hnone : ∀ t, ¬ s.Pending .reassert t)
    (hthreads : s'.threads = s.threads) (hholder : s'.holder = s.holder)
    (hflag : s'.unlockInFlight = s.unlockInFlight) : s'.Consistent := by
  have hpending : ∀ kind t, s'.Pending kind t ↔ s.Pending kind t := by simp [Pending, hthreads]
  refine ⟨fun t => ?_, fun t ht => ?_, fun t t' ht ht' => ?_, fun t ht => ?_⟩
  · rw [hholder, h.holder, Holds, Holds, hthreads]
  · rw [hflag]
    exact h.inFlight t ((hpending _ _).mp ht)
  · exact h.single t t' ((hpending _ _).mp ht) ((hpending _ _).mp ht')
  · exact absurd ((hpending _ _).mp ht) (hnone t)

theorem Consistent.not_pending_reassert (h : s.Consistent)
    (hworker : ∀ r t, s.worker ≠ .awaiting r t) (t : ℕ) : ¬ s.Pending .reassert t := by
  intro hpending
  obtain ⟨r, hr⟩ := h.awaited t hpending
  exact hworker r t hr

/-- A thread for `start_unlock` is spawned, and the flag goes up. -/
theorem Consistent.startUnlock (h : s.Consistent) (hworker : ∀ r t, s.worker ≠ .awaiting r t)
    (hdown : s.unlockInFlight = false)
    (hthreads : s'.threads = (s.spawn .startUnlock).threads) (hholder : s'.holder = s.holder)
    (hup : s'.unlockInFlight) : s'.Consistent := by
  have hpending : ∀ kind t, s'.Pending kind t →
      s.Pending kind t ∨ t = s.threads.length ∧ kind = .startUnlock := by
    intro kind t ht
    refine pending_spawn_iff.mp ?_
    rwa [Pending, ← hthreads]
  have hnew : ∀ t, s'.Pending .startUnlock t → t = s.threads.length := by
    intro t ht
    rcases hpending _ _ ht with hold | ⟨heq, _⟩
    · simp [h.inFlight t hold] at hdown
    · exact heq
  refine ⟨fun t => ?_, fun _ _ => hup, fun t t' ht ht' => ?_, fun t ht => ?_⟩
  · rw [hholder, h.holder, ← holds_spawn_iff, Holds, Holds, ← hthreads]
  · rw [hnew t ht, hnew t' ht']
  · rcases hpending _ _ ht with hold | ⟨_, hkind⟩
    · exact absurd hold (h.not_pending_reassert hworker t)
    · cases hkind

theorem Consistent.startUnlocked (h : s.Consistent)
    (hworker : ∀ r t, s.worker ≠ .awaiting r t) : s.startUnlock.Consistent := by
  cases hflag : s.unlockInFlight with
  | true => rwa [startUnlock_of_inFlight hflag]
  | false =>
      rw [startUnlock_of_not_inFlight hflag]
      exact h.startUnlock hworker hflag rfl rfl rfl

theorem Moves.not_awaiting {worker : Worker} (h : s.Moves worker) (r : UiRequest) (t : ℕ) :
    s.worker ≠ .awaiting r t := by
  intro hat
  cases h <;> simp_all

theorem Consistent.workEffect {now : Instant} (h : s.Consistent) (heffect : s.WorkEffect now s') :
    s'.Consistent := by
  cases heffect with
  | moved session lastState events hmoves =>
      exact h.of_worker (h.not_pending_reassert hmoves.not_awaiting) rfl rfl rfl
  | started events hat hflag => exact h.startUnlock (by simp [hat]) hflag rfl rfl rfl
  | @reasserted r session hat hlook hwhy =>
      have hnone := h.not_pending_reassert (by simp [hat])
      refine ⟨fun t => ?_, fun t ht => ?_, fun t t' ht ht' => ?_, fun t ht => ?_⟩
      · exact (h.holder t).trans holds_spawn_iff.symm
      · rcases pending_spawn_iff.mp ht with hold | ⟨_, hkind⟩
        · exact h.inFlight t hold
        · cases hkind
      · rcases pending_spawn_iff.mp ht with hold | ⟨_, hkind⟩
        · rcases pending_spawn_iff.mp ht' with hold' | ⟨_, hkind⟩
          · exact h.single t t' hold hold'
          · cases hkind
        · cases hkind
      · rcases pending_spawn_iff.mp ht with hold | ⟨rfl, _⟩
        · exact absurd hold (hnone t)
        · exact ⟨r, rfl⟩
  | @resumed r t result worker events hat hreturned hto =>
      have hnot := h.holder_ne_of_not_holds hreturned rfl
      have hdone : (s.setPhase t .done).Consistent :=
        h.setPhase hreturned rfl rfl (by simpa [Daemon.setPhase, Phase.holds] using hnot)
          (fun _ _ => Iff.rfl) (by simp [Phase.pending, Phase.holds]) (.inl rfl)
      refine hdone.of_worker (fun t' ht' => ?_) rfl rfl rfl
      obtain ⟨r', hr'⟩ := hdone.awaited t' ht'
      have hsame : s.worker = .awaiting r' t' := hr'
      obtain ⟨rfl, rfl⟩ : r = r' ∧ t = t' := by simpa [hat] using hsame
      obtain ⟨thread, hthread, _, hphase⟩ := ht'
      rw [getElem?_setPhase_self hreturned] at hthread
      cases hthread
      cases hphase

theorem Consistent.takeEffect (h : s.Consistent) {arm : Arm} (heffect : s.TakeEffect arm s') :
    s'.Consistent := by
  cases heffect with
  | entered hidle hto => exact h.of_worker (h.not_pending_reassert (by simp [hidle])) rfl rfl rfl
  | @accepted r rest hidle hrequests =>
      have hnone := h.not_pending_reassert (by simp [hidle])
      have hmid : ({ s with requests := rest } : Daemon).Consistent :=
        h.of_worker hnone rfl rfl rfl
      cases r with
      | unlock => exact hmid.startUnlocked (by simp [hidle])
      | pinResponse pin => exact h.of_worker hnone rfl rfl rfl
      | dismissed => exact hmid
      | _ => exact h.of_worker hnone rfl rfl rfl

theorem Consistent.step {action : Action} (h : s.Consistent) (hstep : Step P s action s') :
    s'.Consistent := by
  cases action with
  | send r =>
      cases hstep
      exact ⟨h.holder, h.inFlight, h.single, h.awaited⟩
  | handle =>
      dsimp only [Step, next] at hstep
      split at hstep
      · cases hstep
      · cases hstep
        exact ⟨h.holder, h.inFlight, h.single, h.awaited⟩
  | take arm => exact h.takeEffect (take_effect hstep)
  | work input => exact h.workEffect (work_effect hstep)
  | thread t move =>
      obtain ⟨thread, ht, hmove⟩ := Option.bind_eq_some_iff.mp hstep
      exact h.threadEffect ht (threadStep_effect hmove)

/-- **Every state the daemon reaches is consistent.** -/
theorem consistent_of_run {session : Session} {actions : List Action}
    (h : Run (Step P) (start session) actions s) : s.Consistent :=
  h.invariant (fun _ _ _ _ hu hstep => hu.step hstep) (consistent_start session)

end Daemon

end Sypherstore
