/-
# The worker during a background unlock

`start_unlock` moves the assertion to a thread of its own, so that the tick timer and the
hotkey stream go on while the user reaches for the key. The thread holds the session mutex
all that time. Handlers that ask for the lock state alone are answered from the flag;
those that take the mutex, or start an assertion of their own, are not.
-/

import Sypherstore.App.PinDelivery

namespace Sypherstore

open Logic

/-- The touch and the PIN are still to come in the thread. -/
def Phase.outstanding : Phase → Bool
  | .waiting => true
  | phase => phase.holds

theorem Phase.pending_of_outstanding {phase : Phase} (h : phase.outstanding) : phase.pending := by
  cases phase <;> first | rfl | cases h

theorem Phase.outstanding_of_holds {phase : Phase} (h : phase.holds) : phase.outstanding := by
  cases phase <;> first | rfl | cases h

/-- The worker is back in its `select!`, or has left the loop. -/
def Worker.over : Worker → Bool
  | .idle | .stopped | .died => true
  | _ => false

/-- A handler that needs the session, at its first waiting point. -/
def Worker.atStart : Worker → Bool
  | .stopping | .handling _ => true
  | _ => false

theorem Worker.over_eq_false_of_atStart {worker : Worker} (h : worker.atStart) :
    worker.over = false := by
  cases worker <;> first | rfl | cases h

/-- The handler of a tick or of the shortcut runs, or none does. -/
def Worker.light : Worker → Bool
  | .ticking | .hotkey _ => true
  | worker => worker.over

/-- The branch runs a handler that needs the session. -/
def Arm.needsSession : Arm → Bool
  | .shutdown => true
  | .request r => r.needsSession
  | _ => false

/-- How many waiting points of `on_hotkey` lie ahead. -/
def HotkeyPoint.ahead : HotkeyPoint → ℕ
  | .detecting => 4
  | .checking _ _ => 3
  | .listing _ _ => 2
  | .announcing _ => 1
  | .finishing _ => 0

namespace Daemon

variable {P : Primitives} {s s' : Daemon} {t : ℕ}

/-! ## Definitions -/

/-- The thread was started by `start_unlock`, and its touch and PIN are still to come. -/
def UnlockInFlight (s : Daemon) (t : ℕ) : Prop :=
  ∃ phase, s.threads[t]? = some { kind := .startUnlock, phase } ∧ phase.outstanding

/-- A step while the handler runs. -/
def HandlerStep (P : Primitives) : Daemon → Action → Daemon → Prop :=
  guarded (Step P) fun s _ => s.worker.over = false

/-- Whatever else happens, the handler does not end before the thread takes a step. -/
def StallsOn (P : Primitives) (s : Daemon) (t : ℕ) : Prop :=
  ∀ actions s', Run (Step P) s actions s' → (∀ action ∈ actions, action.ofThread t = false) →
    s'.worker.over = false

/-- The handler can come to a point from which only the thread brings it on. -/
def WaitsFor (P : Primitives) (s : Daemon) (t : ℕ) : Prop :=
  ∃ actions mid, Run (HandlerStep P) s actions mid ∧ mid.StallsOn P t

/-- Wherever the handler gets to, the worker can end it by itself. -/
def Completes (P : Primitives) (s : Daemon) : Prop :=
  ∀ actions mid, Run (HandlerStep P) s actions mid →
    ∃ actions' s', Run (Step P) mid actions' s' ∧ (∀ action ∈ actions', action.ofWorker) ∧
      s'.worker.over

theorem ofThread_of_ofWorker {action : Action} (h : action.ofWorker) :
    action.ofThread t = false := by
  cases action <;> first | rfl | cases h

/-- A handler that the worker can end by itself waits for no thread. -/
theorem Completes.not_waitsFor (h : s.Completes P) : ¬ s.WaitsFor P t := by
  rintro ⟨actions, mid, hrun, hstalls⟩
  obtain ⟨actions', s', hrun', hown, hover⟩ := h actions mid hrun
  have hnot := hstalls actions' s' hrun' fun action hmem => ofThread_of_ofWorker (hown action hmem)
  rw [hnot] at hover
  cases hover

/-! ## Handlers that need the session -/

/-- The thread holds the mutex, and the handler needs it. -/
structure Starved (s : Daemon) (t : ℕ) : Prop where
  consistent : s.Consistent
  holds : s.Holds t
  unfree : ¬ s.Free
  running : s.worker.over = false

theorem Starved.holder (h : s.Starved t) : s.holder = some t := (h.consistent.holder t).mpr h.holds

/-- Without the mutex, a handler that is not calm does not end. -/
theorem Moves.not_over {worker : Worker} (h : s.Moves worker) (hheld : s.holder ≠ none)
    (hcalm : s.worker.calm = false) : worker.over = false := by
  cases h with
  | ticked hat hlook => simp [hat, Worker.calm] at hcalm
  | refused hat hflag => simp [hat, Worker.calm] at hcalm
  | delivered hat => simp [hat, Worker.calm] at hcalm
  | touched hat hfree => exact absurd hfree hheld
  | handled hat hfree => exact absurd hfree hheld
  | performed hat hfree => exact absurd hfree hheld
  | refreshed hat hfree => exact absurd hfree hheld
  | stopped hat hfree => exact absurd hfree hheld
  | died hat hfree => exact absurd hfree hheld
  | _ => rfl

theorem Starved.not_over_of_work {input : WorkInput} (h : s.Starved t)
    (hstep : Step P s (.work input) s') : s'.worker.over = false := by
  have hheld : s.holder ≠ none := by simp [h.holder]
  have hcalm : s.worker.calm = false := by
    by_contra hcalm
    exact h.unfree (.inl (by simpa using hcalm))
  cases work_effect hstep with
  | moved session lastState events hmoves => exact hmoves.not_over hheld hcalm
  | started events hat hflag => simp [hat, Worker.calm] at hcalm
  | reasserted session hat hlook hwhy => rfl
  | @resumed r t' result worker events hat hreturned hto =>
      cases result with
      | error fault => exact absurd (.inr ⟨r, t', fault, hat, hreturned⟩) h.unfree
      | ok _ =>
          have hworker : worker = .authorized r := hto
          rw [hworker]
          rfl

/-- The handler starves until the thread takes a step. -/
theorem Starved.step {action : Action} (h : s.Starved t) (hother : action.ofThread t = false)
    (hstep : Step P s action s') : s'.Starved t := by
  have hconsistent := h.consistent.step hstep
  have hholds : s'.Holds t := by
    obtain ⟨thread, ht, hholds⟩ := h.holds
    exact ⟨thread, getElem?_of_other_step ht hholds hother hstep, hholds⟩
  cases action with
  | send r =>
      cases hstep
      exact ⟨hconsistent, hholds, h.unfree, h.running⟩
  | handle =>
      dsimp only [Step, next] at hstep
      split at hstep
      · cases hstep
      · cases hstep
        exact ⟨hconsistent, hholds, h.unfree, h.running⟩
  | take arm =>
      have hidle : s.worker = .idle := by
        cases take_effect hstep with
        | entered hidle hto => exact hidle
        | accepted hidle hrequests => exact hidle
      exact absurd h.running (by simp [hidle, Worker.over])
  | work input =>
      have hheld : s.holder ≠ none := by simp [h.holder]
      exact ⟨hconsistent, hholds, not_free_of_work hheld h.unfree hstep, h.not_over_of_work hstep⟩
  | thread t' move =>
      have hne : t' ≠ t := by simpa [Action.ofThread] using hother
      have hworker : s'.worker = s.worker := by
        obtain ⟨thread, _, hmove⟩ := Option.bind_eq_some_iff.mp hstep
        cases threadStep_effect hmove <;> rfl
      exact ⟨hconsistent, hholds, not_free_of_thread h.consistent h.holder hne h.unfree hstep,
        hworker ▸ h.running⟩

theorem Starved.stallsOn (h : s.Starved t) : s.StallsOn P t := by
  intro actions s' hrun hother
  have hend : s'.Starved t :=
    hrun.invariant (I := fun u => u.Starved t)
      (fun _ _ _ hmem hu hstep => hu.step (hother _ hmem) hstep) h
  exact hend.running

theorem not_free_of_atStart (h : s.worker.atStart) : ¬ s.Free := by
  rintro (hcalm | ⟨r, t, fault, hat, _⟩)
  · revert h hcalm
    cases s.worker <;> simp [Worker.atStart, Worker.calm]
  · simp [hat, Worker.atStart] at h

/-- The worker takes a branch whose handler needs the session. -/
theorem take_of_needsSession {arm : Arm} (h : arm.needsSession) (htake : Step P s (.take arm) s') :
    s.worker = .idle ∧ s'.worker.atStart ∧ s'.threads = s.threads ∧ s'.holder = s.holder := by
  cases take_effect htake with
  | entered hidle hto =>
      rcases hto with ⟨_, rfl⟩ | ⟨rfl | rfl, _⟩ | ⟨rfl, _⟩
      · exact ⟨hidle, rfl, rfl, rfl⟩
      · cases h
      · cases h
      · cases h
  | @accepted r rest hidle hrequests =>
      refine ⟨hidle, ?_⟩
      cases r <;> first | exact ⟨rfl, rfl, rfl⟩ | cases h

/-- While the worker waits for no assertion, only an unlock in flight can hold the mutex. -/
theorem Consistent.holder_eq_none_of_waiting (hs : s.Consistent)
    (hworker : ∀ r t, s.worker ≠ .awaiting r t)
    (ht : s.threads[t]? = some { kind := .startUnlock, phase := .waiting }) : s.holder = none := by
  by_contra hheld
  obtain ⟨t', hheld⟩ := Option.ne_none_iff_exists'.mp hheld
  obtain ⟨⟨kind, phase⟩, ht', hholds⟩ := (hs.holder t').mp hheld
  have hpending := Phase.pending_of_holds hholds
  cases kind with
  | startUnlock =>
      obtain rfl := hs.single t t' ⟨_, ht, rfl, rfl⟩ ⟨_, ht', rfl, hpending⟩
      rw [ht, Option.some.injEq, Thread.mk.injEq] at ht'
      rw [← ht'.2] at hholds
      cases hholds
  | reassert => exact hs.not_pending_reassert hworker t' ⟨_, ht', rfl, hpending⟩

/-- **A handler that needs the session waits for the unlock.** -/
theorem waitsFor_of_needsSession {arm : Arm} (hs : s.Consistent) (ht : s.UnlockInFlight t)
    (h : arm.needsSession) (htake : Step P s (.take arm) s') : s'.WaitsFor P t := by
  have hs' := hs.step htake
  obtain ⟨hidle, hat, hthreads, hholder⟩ := take_of_needsSession h htake
  have hrunning := Worker.over_eq_false_of_atStart hat
  obtain ⟨phase, ht, houtstanding⟩ := ht
  by_cases hwaiting : phase = .waiting
  · -- The thread is the next to get the mutex.
    subst hwaiting
    have hfree : s'.holder = none :=
      hholder.trans (hs.holder_eq_none_of_waiting (by simp [hidle]) ht)
    rw [← hthreads] at ht
    have hacquire : Step P s' (.thread t .acquire)
        ({ s' with holder := some t }.setPhase t .unlocking) := by
      simp [Step, next, ht, threadStep, hfree]
    have hholds := getElem?_setPhase_self (s := { s' with holder := some t }) ht .unlocking
    exact ⟨[.thread t .acquire], _, .single ⟨hacquire, hrunning⟩, Starved.stallsOn
      ⟨hs'.step hacquire, ⟨_, hholds, rfl⟩, not_free_of_atStart hat, hrunning⟩⟩
  · have hholds : phase.holds := by
      cases phase <;> first | exact houtstanding | exact absurd rfl hwaiting
    exact ⟨[], s', .nil s', Starved.stallsOn
      ⟨hs', ⟨_, hthreads ▸ ht, hholds⟩, not_free_of_atStart hat, hrunning⟩⟩

/-! ## Handlers that do not need it -/

/-- No thread has the mutex or is about to take it. -/
def Quiet (s : Daemon) : Prop :=
  ∀ (t : ℕ) (thread : Thread), s.threads[t]? = some thread → thread.phase.outstanding = false

/-- As long as the unlock is in flight the handler is calm, and afterwards the mutex is
free. -/
structure Unhindered (s : Daemon) : Prop where
  consistent : s.Consistent
  light : s.worker.light
  clear : s.unlockInFlight = true ∧ s.worker.calm ∨ s.Quiet

theorem Quiet.holder_eq_none (h : s.Quiet) (hs : s.Consistent) : s.holder = none := by
  by_contra hheld
  obtain ⟨t, hheld⟩ := Option.ne_none_iff_exists'.mp hheld
  obtain ⟨thread, ht, hholds⟩ := (hs.holder t).mp hheld
  have houtstanding := h t thread ht
  simp [Phase.outstanding_of_holds hholds] at houtstanding

theorem Moves.light {worker : Worker} (h : s.Moves worker) (hlight : s.worker.light) :
    worker.light := by
  cases h with
  | foundAuthorized hat hedits hflag hfree => simp [hat, Worker.light, Worker.over] at hlight
  | stored hat hfree => simp [hat, Worker.light, Worker.over] at hlight
  | opened hat hfree => simp [hat, Worker.light, Worker.over] at hlight
  | _ => rfl

/-- A thread comes to an end, and no other has begun. -/
theorem quiet_of_setPhase {thread : Thread} {phase : Phase} (ht : s.threads[t]? = some thread)
    (hthreads : s'.threads = (s.setPhase t phase).threads) (hphase : phase.outstanding = false)
    (hother : ∀ t' thread', t' ≠ t → s.threads[t']? = some thread' →
      thread'.phase.outstanding = false) : s'.Quiet := by
  intro t' thread' ht'
  rw [hthreads] at ht'
  by_cases heq : t' = t
  · rw [heq, getElem?_setPhase_self ht, Option.some.injEq] at ht'
    rwa [← ht']
  · rw [getElem?_setPhase_of_ne (Ne.symm heq)] at ht'
    exact hother t' thread' heq ht'

theorem Unhindered.thread {t : ℕ} {thread : Thread} (h : s.Unhindered)
    (ht : s.threads[t]? = some thread) (hs' : s'.Consistent)
    (heffect : s.ThreadEffect t thread s') : s'.Unhindered := by
  have hworker : s'.worker = s.worker := by cases heffect <;> rfl
  refine ⟨hs', hworker ▸ h.light, ?_⟩
  rcases h.clear with ⟨hflag, hcalm⟩ | hquiet
  · cases heffect with
    | @endedUnlock result ended hkind hphase =>
        refine .inr (quiet_of_setPhase ht rfl rfl fun t' thread' hne ht' => ?_)
        -- Another thread would be a second unlock, or the worker would wait for it.
        by_contra houtstanding
        have hpending := Phase.pending_of_outstanding (by simpa using houtstanding)
        cases hkind' : thread'.kind with
        | startUnlock =>
            exact hne (h.consistent.single t' t ⟨thread', ht', hkind', hpending⟩
              ⟨thread, ht, hkind, by rw [hphase]; rfl⟩)
        | reassert =>
            obtain ⟨r, hat⟩ := h.consistent.awaited t' ⟨thread', ht', hkind', hpending⟩
            simp [hat, Worker.calm] at hcalm
    | _ => exact .inl ⟨hflag, hworker ▸ hcalm⟩
  · right
    have hthread := hquiet t thread ht
    cases heffect with
    | acquired hphase hfree => simp [hphase, Phase.outstanding] at hthread
    | drained hphase => simp [hphase, Phase.outstanding, Phase.holds] at hthread
    | requested hphase => simp [hphase, Phase.outstanding, Phase.holds] at hthread
    | received hphase hanswers => simp [hphase, Phase.outstanding, Phase.holds] at hthread
    | timedOut hphase => simp [hphase, Phase.outstanding, Phase.holds] at hthread
    | finished session result hholds => simp [Phase.outstanding_of_holds hholds] at hthread
    | endedUnlock ended hkind hphase =>
        exact quiet_of_setPhase ht rfl rfl fun t' thread' _ => hquiet t' thread'
    | unwound hkind hphase =>
        exact quiet_of_setPhase ht rfl rfl fun t' thread' _ => hquiet t' thread'
    | @reported phase session events hbefore hafter =>
        refine quiet_of_setPhase ht rfl ?_ fun t' thread' _ => hquiet t' thread'
        by_contra houtstanding
        simp [Phase.pending_of_outstanding (by simpa using houtstanding)] at hafter

theorem Unhindered.work {input : WorkInput} (h : s.Unhindered) (hs' : s'.Consistent)
    (heffect : s.WorkEffect input.call.started s') : s'.Unhindered := by
  have hlight := h.light
  cases heffect with
  | moved session lastState events hmoves =>
      refine ⟨hs', hmoves.light hlight, h.clear.imp (fun hclear => ?_) id⟩
      exact ⟨hclear.1, hmoves.calm hclear.1 hclear.2⟩
  | started events hat hflag => exact ⟨hs', rfl, .inl ⟨rfl, rfl⟩⟩
  | reasserted session hat hlook hwhy => simp [hat, Worker.light, Worker.over] at hlight
  | resumed events hat hreturned hto => simp [hat, Worker.light, Worker.over] at hlight

/-- A handler that does not need the session stays unhindered. -/
theorem Unhindered.step {action : Action} (h : s.Unhindered) (hstep : HandlerStep P s action s') :
    s'.Unhindered := by
  obtain ⟨hstep, hrunning⟩ := hstep
  have hs' := h.consistent.step hstep
  cases action with
  | send r =>
      cases hstep
      exact ⟨hs', h.light, h.clear⟩
  | handle =>
      dsimp only [Step, next] at hstep
      split at hstep
      · cases hstep
      · cases hstep
        exact ⟨hs', h.light, h.clear⟩
  | take arm =>
      have hidle : s.worker = .idle := by
        cases take_effect hstep with
        | entered hidle hto => exact hidle
        | accepted hidle hrequests => exact hidle
      exact absurd hrunning (by simp [hidle, Worker.over])
  | work input => exact h.work hs' (work_effect hstep)
  | thread t move =>
      obtain ⟨thread, ht, hmove⟩ := Option.bind_eq_some_iff.mp hstep
      exact h.thread ht hs' (threadStep_effect hmove)

theorem exists_uiLockState (hfree : s.holder = none) (call : Call) :
    ∃ found, s.uiLockState call = some found := by
  unfold uiLockState tickSession
  rw [hfree]
  split <;> exact ⟨_, rfl⟩

/-- With the mutex free, `on_hotkey` goes on from each of its waiting points. -/
theorem exists_hotkey_step (input : WorkInput) {point : HotkeyPoint} (hfree : s.holder = none)
    (hat : s.worker = .hotkey point) :
    ∃ s', Step P s (.work input) s' ∧ s'.holder = none ∧
      (s'.worker.over ∨ ∃ next, s'.worker = .hotkey next ∧ next.ahead < point.ahead) := by
  have hstep : ∃ s', Step P s (.work input) s' := by
    obtain ⟨found, hlook⟩ := exists_uiLockState hfree input.call
    simp only [Step, next, work, hat]
    cases point with
    | detecting => exact ⟨_, rfl⟩
    | checking host application =>
        simp only [onHotkey, hlook, Option.bind_eq_bind, Option.bind_some]
        split <;> exact ⟨_, rfl⟩
    | listing host application =>
        simp only [onHotkey, withSession, hfree, Option.bind_eq_bind, Option.bind_some]
        exact ⟨_, rfl⟩
    | announcing unlocked =>
        simp only [onHotkey, hlook, Option.bind_eq_bind, Option.bind_some]
        exact ⟨_, rfl⟩
    | finishing unlocked =>
        cases unlocked with
        | false => exact ⟨_, rfl⟩
        | true =>
            simp only [onHotkey, withSession, hfree, Option.bind_eq_bind, Option.bind_some]
            exact ⟨_, rfl⟩
  obtain ⟨s', hstep⟩ := hstep
  refine ⟨s', hstep, ?_⟩
  have hpoint : ∀ {before : HotkeyPoint}, s.worker = .hotkey before → before = point :=
    fun hat' => Worker.hotkey.inj (hat'.symm.trans hat)
  cases work_effect hstep with
  | moved session lastState events hmoves =>
      refine ⟨hfree, ?_⟩
      cases hmoves with
      | detected hat' =>
          exact .inr ⟨_, rfl, by simp [← hpoint hat', HotkeyPoint.ahead]⟩
      | foundLocked hat' hlook =>
          exact .inr ⟨_, rfl, by simp [← hpoint hat', HotkeyPoint.ahead]⟩
      | foundUnlocked hat' hflag hfree =>
          exact .inr ⟨_, rfl, by simp [← hpoint hat', HotkeyPoint.ahead]⟩
      | listed hat' hfree =>
          exact .inr ⟨_, rfl, by simp [← hpoint hat', HotkeyPoint.ahead]⟩
      | announced hat' hlook =>
          exact .inr ⟨_, rfl, by simp [← hpoint hat', HotkeyPoint.ahead]⟩
      | foundAuthorized hat' hedits hflag hfree => simp [hat] at hat'
      | stored hat' hfree => simp [hat] at hat'
      | opened hat' hfree => simp [hat] at hat'
      | _ => exact .inl rfl
  | started events hat' hflag => exact ⟨hfree, .inl rfl⟩
  | reasserted session hat' hlook hwhy => simp [hat] at hat'
  | resumed events hat' hreturned hto => simp [hat] at hat'

theorem exists_run_over_of_hotkey (input : WorkInput) {point : HotkeyPoint}
    (hfree : s.holder = none) (hat : s.worker = .hotkey point) :
    ∃ actions s', Run (Step P) s actions s' ∧ (∀ action ∈ actions, action.ofWorker) ∧
      s'.worker.over := by
  induction hn : point.ahead using Nat.strong_induction_on generalizing s point with
  | _ n ih =>
      obtain ⟨s₁, hstep, hfree₁, hover | ⟨next, hat₁, hless⟩⟩ :=
        exists_hotkey_step (P := P) input hfree hat
      · exact ⟨[.work input], s₁, .single hstep, by simp [Action.ofWorker], hover⟩
      · obtain ⟨actions, s', hrun, hown, hover⟩ := ih _ (hn ▸ hless) hfree₁ hat₁ rfl
        refine ⟨.work input :: actions, s', .cons hstep hrun, ?_, hover⟩
        rintro action (_ | ⟨_, hmem⟩)
        · rfl
        · exact hown action hmem

/-- An unhindered handler is ended by the worker alone. -/
theorem Unhindered.exists_run_over (h : s.Unhindered) (input : WorkInput) :
    ∃ actions s', Run (Step P) s actions s' ∧ (∀ action ∈ actions, action.ofWorker) ∧
      s'.worker.over := by
  rcases h.clear with ⟨hflag, hcalm⟩ | hquiet
  · obtain ⟨actions, mid, hrun, hown, hback⟩ :=
      exists_run_idle_of_calm (P := P) input hflag hcalm
    exact ⟨actions, mid, hrun, hown, by rw [hback.idle]; rfl⟩
  · have hfree := hquiet.holder_eq_none h.consistent
    have hlight := h.light
    cases hat : s.worker with
    | idle => exact ⟨[], s, .nil s, by simp, by rw [hat]; rfl⟩
    | stopped => exact ⟨[], s, .nil s, by simp, by rw [hat]; rfl⟩
    | died => exact ⟨[], s, .nil s, by simp, by rw [hat]; rfl⟩
    | hotkey point => exact exists_run_over_of_hotkey input hfree hat
    | ticking =>
        obtain ⟨found, hlook⟩ := exists_uiLockState hfree input.call
        have hwork : Step P s (.work input) ((found.2.ticked found.1).goto .idle) := by
          simp [Step, next, Daemon.work, hat, hlook]
        exact ⟨[.work input], _, .single hwork, by simp [Action.ofWorker], rfl⟩
    | _ => simp [hat, Worker.light, Worker.over] at hlight

/-- **A handler that needs no session is ended by the worker alone.** -/
theorem completes_of_not_needsSession {arm : Arm} (hs : s.Consistent) (ht : s.UnlockInFlight t)
    (h : arm.needsSession = false) (htake : Step P s (.take arm) s') : s'.Completes P := by
  obtain ⟨phase, ht, houtstanding⟩ := ht
  have hflag := hs.inFlight t ⟨_, ht, rfl, Phase.pending_of_outstanding houtstanding⟩
  have hstart : s'.worker.light ∧ s'.unlockInFlight = true ∧ s'.worker.calm := by
    cases take_effect htake with
    | entered hidle hto =>
        rcases hto with ⟨rfl, _⟩ | ⟨_, rfl⟩ | ⟨_, rfl⟩
        · cases h
        · exact ⟨rfl, hflag, rfl⟩
        · exact ⟨rfl, hflag, rfl⟩
    | @accepted r rest hidle hrequests =>
        obtain ⟨hworker, hflag', _⟩ :=
          accept_of_not_needsSession (s := { s with requests := rest }) hflag h
        have hidle' := hworker.trans hidle
        exact ⟨by rw [hidle']; rfl, hflag', by rw [hidle']; rfl⟩
  intro actions mid hrun
  have hmid : mid.Unhindered := by
    refine hrun.invariant (I := Unhindered) (fun _ _ _ _ hu hstep => hu.step hstep) ?_
    exact ⟨hs.step htake, hstart.1, .inl hstart.2⟩
  exact hmid.exists_run_over (.usual 0)

/-! ## Every branch -/

/-- **A background unlock and the worker.** In every state the daemon reaches while an
unlock is in flight, a branch completes by the worker's own steps just if its handler does
not need the session. Otherwise it comes to wait for that unlock. -/
theorem background_unlock (P : Primitives) (session : Session) (actions : List Action)
    (s : Daemon) (t : ℕ) (arm : Arm) (s' : Daemon)
    (hrun : Run (Step P) (start session) actions s) (ht : s.UnlockInFlight t)
    (htake : Step P s (.take arm) s') :
    (s'.Completes P ↔ arm.needsSession = false) ∧
      (¬ s'.WaitsFor P t ↔ arm.needsSession = false) := by
  have hs := consistent_of_run hrun
  cases h : arm.needsSession with
  | false =>
      have hcompletes := completes_of_not_needsSession hs ht h htake
      simp [hcompletes, hcompletes.not_waitsFor]
  | true =>
      have hwaits := waitsFor_of_needsSession hs ht h htake
      have hnot : ¬ s'.Completes P := fun hcompletes => hcompletes.not_waitsFor hwaits
      simp [hwaits, hnot]

/-- The shortcut is pressed, the thread of the unlock gets the mutex, and the popup shows
that it waits for the touch. -/
def unlockBegun : List Action :=
  hotkeyPressed ++ [.thread 0 .acquire, .handle, .handle, .handle]

theorem exists_unlockBegun :
    ∃ keys s, Session.prepareKeys .reference
        (.working 0 0 (Nat.le_refl 0) (Block.replicate 16 0)) (.token [1] [2])
        (Block.replicate keyLen 1) = .ok keys ∧
      Session.openLocked (.working 0 0 (Nat.le_refl 0) (Block.replicate 16 0))
        (keys.vault .reference .empty) (.ok (Block.replicate keyLen 1)) 60 =
          .ok (reopened keys (Block.replicate keyLen 1)) ∧
      Run (Step .reference) (start (reopened keys (Block.replicate keyLen 1))) unlockBegun s ∧
      s.UnlockInFlight 0 ∧ s.worker = .idle ∧ s.requests = [] := by
  obtain ⟨keys, hkeys, hopen⟩ := exists_reopened
  have hrun : ∃ s, Run (Step .reference) (start (reopened keys (Block.replicate keyLen 1)))
      unlockBegun s ∧ s.UnlockInFlight 0 ∧ s.worker = .idle ∧ s.requests = [] := by
    exact ⟨_, .cons rfl (.cons rfl (.cons rfl (.cons rfl (.cons rfl (.cons rfl (.cons rfl
      (.cons rfl (.cons rfl (.nil _))))))))), ⟨.unlocking, rfl, rfl⟩, rfl, rfl⟩
  obtain ⟨s, hrun, ht, hidle, hrequests⟩ := hrun
  exact ⟨keys, s, hkeys, hopen, hrun, ht, hidle, hrequests⟩

theorem background_unlock_and_the_timer :
    ∃ keys s s', Run (Step .reference) (start (reopened keys (Block.replicate keyLen 1)))
        unlockBegun s ∧ s.UnlockInFlight 0 ∧ Step .reference s (.take .tick) s' ∧
      s'.Completes .reference ∧ ¬ s'.WaitsFor .reference 0 := by
  obtain ⟨keys, s, _, _, hrun, ht, hidle, _⟩ := exists_unlockBegun
  have htake : Step .reference s (.take .tick) (s.goto .ticking) := by
    simp [Step, next, take, hidle]
  obtain ⟨hcompletes, hwaits⟩ := background_unlock .reference _ _ s 0 .tick _ hrun ht htake
  exact ⟨keys, s, _, hrun, ht, htake, hcompletes.mpr rfl, hwaits.mpr rfl⟩

/-- While the popup waits for the touch, the user types into its search field. -/
theorem background_unlock_stalls_the_worker :
    ∃ keys s s', Session.prepareKeys .reference
        (.working 0 0 (Nat.le_refl 0) (Block.replicate 16 0)) (.token [1] [2])
        (Block.replicate keyLen 1) = .ok keys ∧
      Session.openLocked (.working 0 0 (Nat.le_refl 0) (Block.replicate 16 0))
        (keys.vault .reference .empty) (.ok (Block.replicate keyLen 1)) 60 =
          .ok (reopened keys (Block.replicate keyLen 1)) ∧
      Run (Step .reference) (start (reopened keys (Block.replicate keyLen 1)))
        (unlockBegun ++ [.send .touch]) s ∧ s.UnlockInFlight 0 ∧
      Step .reference s (.take (.request .touch)) s' ∧ s'.WaitsFor .reference 0 := by
  obtain ⟨keys, s, hkeys, hopen, hrun, ht, hidle, hrequests⟩ := exists_unlockBegun
  have hsend : Step .reference s (.send .touch) { s with requests := [.touch] } := by
    simp [Step, next, hrequests]
  have htake := take_of_requests (s := { s with requests := [.touch] }) hidle rfl
  have hall := hrun.append (.single hsend)
  exact ⟨keys, _, _, hkeys, hopen, hall, ht, htake,
    waitsFor_of_needsSession (consistent_of_run hall) ht rfl htake⟩

end Daemon

end Sypherstore
