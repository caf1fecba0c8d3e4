/-
# Delivering a PIN

An assertion thread that has asked for a PIN holds the session mutex while it waits, and
the answer comes through the queue of the very worker whose handlers take that mutex or
wait for such a thread. Whether the answer arrives depends on where the worker is and on
what stands before the answer in the queue. Once either is in the way, nothing but the
thread itself can clear it: it has to time out.
-/

import Sypherstore.App.DaemonSteps
import Sypherstore.Core.Creation

namespace Sypherstore

open Logic

/-- The handler of the request takes the session mutex. -/
def UiRequest.needsSession : UiRequest → Bool
  | .touch | .use _ | .beginEdit _ | .save _ _ _ | .delete _ => true
  | _ => false

/-- What is left of the handler takes no mutex while an unlock is in flight. -/
def Worker.calm : Worker → Bool
  | .idle | .ticking | .delivering => true
  | .hotkey .detecting | .hotkey (.checking _ _) | .hotkey (.announcing false)
  | .hotkey (.finishing false) => true
  | _ => false

/-- How many steps a calm handler still takes. -/
def Worker.remaining : Worker → ℕ
  | .hotkey .detecting => 4
  | .hotkey (.checking _ _) => 3
  | .hotkey (.announcing _) => 2
  | .idle => 0
  | _ => 1

/-- A step of a handler that meets nothing unusual. -/
def WorkInput.usual (now : Instant) : WorkInput where
  call := .working now now (Nat.le_refl now) (Block.replicate 16 0)
  second := .working now now (Nat.le_refl now) (Block.replicate 16 0)
  host := none
  application := none
  deliveryError := none

namespace Daemon

variable {P : Primitives} {s s' : Daemon} {t : ℕ} {pin : Option String}
  {ahead behind : List UiRequest}

/-! ## Definitions -/

/-- The step belongs to the worker. -/
def Action.ofWorker : Action → Bool
  | .take _ | .work _ => true
  | _ => false

/-- The step belongs to this thread. -/
def Action.ofThread (t : ℕ) : Action → Bool
  | .thread t' _ => t' = t
  | _ => false

/-- The thread waits in `request_pin` for an answer. -/
def Blocked (s : Daemon) (t : ℕ) : Prop :=
  ∃ kind, s.threads[t]? = some { kind, phase := .blocked }

/-- Without a step of any thread, the worker can come to hand this answer, which has
`behind` after it in the queue, to the broker. -/
def CanForward (P : Primitives) (s : Daemon) (pin : Option String) (behind : List UiRequest) :
    Prop :=
  ∃ actions mid s', Run (Step P) s actions mid ∧ (∀ action ∈ actions, action.ofWorker) ∧
    mid.requests = .pinResponse pin :: behind ∧
    Step P mid (.take (.request (.pinResponse pin))) s'

/-- The handler that is running can end although a thread is blocked: it needs the mutex
no more, or it waits for an assertion that has failed already. -/
def Free (s : Daemon) : Prop :=
  s.worker.calm ∨ ∃ r t fault, s.worker = .awaiting r t ∧
    s.threads[t]? = some { kind := .reassert, phase := .returned (.error fault) }

/-! ## A worker that is free -/

theorem Blocked.holder (hs : s.Consistent) (h : s.Blocked t) : s.holder = some t := by
  obtain ⟨kind, ht⟩ := h
  exact hs.holder_of_holds ht rfl

/-- Only an unlock that nobody waits for can be blocked while the worker is free. -/
theorem inFlight_of_free (hs : s.Consistent) (h : s.Blocked t) (hfree : s.Free) :
    s.unlockInFlight := by
  obtain ⟨kind, ht⟩ := h
  cases kind with
  | startUnlock => exact hs.inFlight t ⟨_, ht, rfl, rfl⟩
  | reassert =>
      obtain ⟨r, hat⟩ := hs.awaited t ⟨_, ht, rfl, rfl⟩
      rcases hfree with hcalm | ⟨r', t', fault, hat', hreturned⟩
      · simp [hat, Worker.calm] at hcalm
      · obtain ⟨rfl, rfl⟩ : r = r' ∧ t = t' := by simpa [hat] using hat'
        simp [ht] at hreturned

theorem uiLockState_of_inFlight (hflag : s.unlockInFlight = true) (call : Call) :
    s.uiLockState call = some (.waitingForTouch, s) := if_pos hflag

/-- While an unlock is in flight, a calm handler goes on without looking at the session. -/
theorem exists_calm_step (input : WorkInput) (hflag : s.unlockInFlight = true)
    (hcalm : s.worker.calm) (hbusy : s.worker ≠ .idle) :
    ∃ s', Step P s (.work input) s' ∧ s'.worker.calm ∧ s'.unlockInFlight = true ∧
      s'.requests = s.requests ∧ s'.worker.remaining < s.worker.remaining := by
  have hlook := uiLockState_of_inFlight hflag input.call
  unfold Step next work
  cases hat : s.worker with
  | idle => exact absurd hat hbusy
  | ticking =>
      simp only [hlook, Option.bind_eq_bind, Option.bind_some]
      refine ⟨_, rfl, rfl, ?_, ?_, by simp [goto, Worker.remaining]⟩
      · unfold ticked; split <;> exact hflag
      · unfold ticked; split <;> rfl
  | delivering =>
      cases herror : input.deliveryError with
      | none =>
          refine ⟨(s.emit (.status "Typed.")).goto .idle, ?_, rfl, hflag, rfl, ?_⟩
          · simp [herror]
          · simp [goto, Worker.remaining]
      | some e =>
          refine ⟨s.fail (.delivery e), ?_, rfl, hflag, rfl, ?_⟩
          · simp [herror]
          · simp [fail, goto, Worker.remaining]
  | hotkey point =>
      cases point with
      | detecting => exact ⟨_, rfl, rfl, hflag, rfl, by simp [goto, Worker.remaining]⟩
      | checking host application =>
          simp only [onHotkey, hlook, Option.bind_eq_bind, Option.bind_some]
          exact ⟨_, rfl, rfl, hflag, rfl, by simp [goto, Worker.remaining]⟩
      | announcing unlocked =>
          cases unlocked with
          | true => simp [hat, Worker.calm] at hcalm
          | false =>
              simp only [onHotkey, hlook, Option.bind_eq_bind, Option.bind_some]
              exact ⟨_, rfl, rfl, hflag, rfl, by simp [goto, Worker.remaining]⟩
      | finishing unlocked =>
          cases unlocked with
          | true => simp [hat, Worker.calm] at hcalm
          | false =>
              refine ⟨_, rfl, rfl, ?_⟩
              rw [startUnlock_of_inFlight hflag]
              exact ⟨hflag, rfl, by simp [goto, Worker.remaining]⟩
      | listing host application => simp [hat, Worker.calm] at hcalm
  | _ => simp [hat, Worker.calm] at hcalm

/-- The worker is back in its `select!`, with the unlock still in flight and the queue as
it was. -/
structure BackFrom (s mid : Daemon) : Prop where
  idle : mid.worker = .idle
  inFlight : mid.unlockInFlight = true
  requests : mid.requests = s.requests

theorem exists_run_idle_of_calm (input : WorkInput) (hflag : s.unlockInFlight = true)
    (hcalm : s.worker.calm) :
    ∃ actions mid, Run (Step P) s actions mid ∧ (∀ action ∈ actions, action.ofWorker) ∧
      s.BackFrom mid := by
  induction hn : s.worker.remaining using Nat.strong_induction_on generalizing s with
  | _ n ih =>
      by_cases hidle : s.worker = .idle
      · exact ⟨[], s, .nil s, by simp, hidle, hflag, rfl⟩
      · obtain ⟨s₁, hstep, hcalm₁, hflag₁, hrequests, hless⟩ :=
          exists_calm_step (P := P) input hflag hcalm hidle
        obtain ⟨actions, mid, hrun, hworker, hback⟩ := ih _ (hn ▸ hless) hflag₁ hcalm₁ rfl
        refine ⟨.work input :: actions, mid, .cons hstep hrun, ?_, hback.idle, hback.inFlight,
          hback.requests.trans hrequests⟩
        rintro action (_ | ⟨_, hmem⟩)
        · rfl
        · exact hworker action hmem

/-- A handler whose assertion has failed tells the popup and ends. -/
theorem exists_run_idle_of_free (input : WorkInput) (hflag : s.unlockInFlight = true)
    (hfree : s.Free) :
    ∃ actions mid, Run (Step P) s actions mid ∧ (∀ action ∈ actions, action.ofWorker) ∧
      s.BackFrom mid := by
  rcases hfree with hcalm | ⟨r, t, fault, hat, hreturned⟩
  · exact exists_run_idle_of_calm input hflag hcalm
  · have hwork : s.work P input = some ((s.setPhase t .done).resume r (.error fault)) := by
      simp [work, hat, hreturned]
    refine ⟨[.work input], _, .single hwork, by simp [Action.ofWorker], ?_⟩
    cases fault with
    | error e => exact ⟨rfl, hflag, rfl⟩
    | panic => exact ⟨rfl, hflag, rfl⟩

/-- A request that needs no session is done when it is taken. -/
theorem accept_of_not_needsSession {r : UiRequest} (hflag : s.unlockInFlight = true)
    (h : r.needsSession = false) :
    (s.accept r).worker = s.worker ∧ (s.accept r).unlockInFlight = true ∧
      (s.accept r).requests = s.requests := by
  cases r with
  | unlock =>
      show s.startUnlock.worker = s.worker ∧ s.startUnlock.unlockInFlight = true ∧
        s.startUnlock.requests = s.requests
      rw [startUnlock_of_inFlight hflag]
      exact ⟨rfl, hflag, rfl⟩
  | pinResponse pin => exact ⟨rfl, hflag, rfl⟩
  | dismissed => exact ⟨rfl, hflag, rfl⟩
  | _ => cases h

theorem take_of_requests {r : UiRequest} {rest : List UiRequest} (hidle : s.worker = .idle)
    (hqueue : s.requests = r :: rest) :
    s.take (.request r) = some ({ s with requests := rest }.accept r) := by
  simp [take, hidle, hqueue]

/-- Requests that need no session do not hold up the answer behind them. -/
theorem exists_run_ahead (hidle : s.worker = .idle) (hflag : s.unlockInFlight = true)
    (hqueue : s.requests = ahead ++ .pinResponse pin :: behind)
    (hahead : ∀ r ∈ ahead, r.needsSession = false) :
    ∃ actions mid, Run (Step P) s actions mid ∧ (∀ action ∈ actions, action.ofWorker) ∧
      mid.worker = .idle ∧ mid.requests = .pinResponse pin :: behind := by
  induction ahead generalizing s with
  | nil => exact ⟨[], s, .nil s, by simp, hidle, hqueue⟩
  | cons r ahead ih =>
      obtain ⟨hworker, hflag', hrequests⟩ :=
        accept_of_not_needsSession (s := { s with requests := ahead ++ .pinResponse pin :: behind })
          hflag (hahead r (.head _))
      obtain ⟨actions, mid, hrun, hown, hmid⟩ :=
        ih (hworker.trans hidle) hflag' hrequests fun r hr => hahead r (.tail _ hr)
      refine ⟨.take (.request r) :: actions, mid, .cons (take_of_requests hidle hqueue) hrun, ?_,
        hmid⟩
      rintro action (_ | ⟨_, hmem⟩)
      · rfl
      · exact hown action hmem

/-- **A free worker delivers the answer**, unless a request before it needs the session. -/
theorem canForward_of_free (input : WorkInput) (hs : s.Consistent) (hblocked : s.Blocked t)
    (hqueue : s.requests = ahead ++ .pinResponse pin :: behind) (hfree : s.Free)
    (hahead : ∀ r ∈ ahead, r.needsSession = false) : CanForward P s pin behind := by
  have hflag := inFlight_of_free hs hblocked hfree
  obtain ⟨first, s₁, hfirst, hown₁, hback⟩ := exists_run_idle_of_free (P := P) input hflag hfree
  obtain ⟨second, s₂, hsecond, hown₂, hidle, hrequests⟩ :=
    exists_run_ahead (P := P) hback.idle hback.inFlight (hback.requests.trans hqueue) hahead
  refine ⟨first ++ second, s₂, _, hfirst.append hsecond, ?_, hrequests,
    take_of_requests hidle hrequests⟩
  intro action hmem
  rcases List.mem_append.mp hmem with hmem | hmem
  · exact hown₁ action hmem
  · exact hown₂ action hmem

/-! ## A worker that is not free -/

/-- A thread that holds the mutex stays where it is until it takes a step itself. -/
theorem getElem?_of_other_step {thread : Thread} {action : Action}
    (ht : s.threads[t]? = some thread) (hholds : thread.phase.holds)
    (hother : action.ofThread t = false) (hstep : Step P s action s') :
    s'.threads[t]? = some thread := by
  cases action with
  | send r =>
      cases hstep
      exact ht
  | handle =>
      dsimp only [Step, next] at hstep
      split at hstep
      · cases hstep
      · cases hstep
        exact ht
  | take arm =>
      cases take_effect hstep with
      | entered hidle hto => exact ht
      | @accepted r rest hidle hrequests =>
          cases r with
          | unlock =>
              show (Daemon.startUnlock { s with requests := rest }).threads[t]? = _
              unfold Daemon.startUnlock
              split
              · exact ht
              · exact getElem?_spawn.mpr (.inl ht)
          | _ => exact ht
  | work input =>
      cases work_effect hstep with
      | moved session lastState events hmoves => exact ht
      | started events hat hflag => exact getElem?_spawn.mpr (.inl ht)
      | reasserted session hat hlook hwhy => exact getElem?_spawn.mpr (.inl ht)
      | @resumed r t' result worker events hat hreturned hto =>
          have hne : t' ≠ t := by
            rintro rfl
            rw [ht, Option.some.injEq] at hreturned
            simp [hreturned, Phase.holds] at hholds
          exact (getElem?_setPhase_of_ne hne .done).trans ht
  | thread t' move =>
      have hne : t' ≠ t := by simpa [Action.ofThread] using hother
      obtain ⟨thread, _, hmove⟩ := Option.bind_eq_some_iff.mp hstep
      cases threadStep_effect hmove with
      | _ => exact (getElem?_setPhase_of_ne hne _).trans ht

/-- A blocked thread stays blocked until it takes a step itself. -/
theorem Blocked.step {action : Action} (h : s.Blocked t) (hother : action.ofThread t = false)
    (hstep : Step P s action s') : s'.Blocked t := by
  obtain ⟨kind, ht⟩ := h
  exact ⟨kind, getElem?_of_other_step ht rfl hother hstep⟩

/-- Where no session is to be had, a handler that needs one does not end. -/
theorem not_free_of_work {input : WorkInput} (hheld : s.holder ≠ none) (h : ¬ s.Free)
    (hstep : Step P s (.work input) s') : ¬ s'.Free := by
  have hcalm : s.worker.calm = false := by
    by_contra hcalm
    exact h (.inl (by simpa using hcalm))
  cases work_effect hstep with
  | @moved worker session lastState events hmoves =>
      rintro (hcalm' | ⟨r, t', fault, hat', _⟩)
      · cases hmoves with
        | ticked hat hlook => simp [hat, Worker.calm] at hcalm
        | detected hat => simp [hat, Worker.calm] at hcalm
        | foundLocked hat hlook => simp [hat, Worker.calm] at hcalm
        | foundUnlocked hat hflag hfree => exact hheld hfree
        | listed hat hfree => exact hheld hfree
        | @announced unlocked hat hlook =>
            cases unlocked with
            | true => simp [Worker.calm] at hcalm'
            | false => simp [hat, Worker.calm] at hcalm
        | refused hat hflag => simp [hat, Worker.calm] at hcalm
        | touched hat hfree => exact hheld hfree
        | handled hat hfree => exact hheld hfree
        | opened hat hfree => exact hheld hfree
        | foundAuthorized hat hedits hflag hfree => exact hheld hfree
        | performed hat hfree => exact hheld hfree
        | stored hat hfree => exact hheld hfree
        | delivered hat => simp [hat, Worker.calm] at hcalm
        | refreshed hat hfree => exact hheld hfree
        | stopped hat hfree => exact hheld hfree
        | died hat hfree => exact hheld hfree
      · have hworker : worker = .awaiting r t' := hat'
        rw [hworker] at hmoves
        cases hmoves
  | started events hat hflag => simp [hat, Worker.calm] at hcalm
  | @reasserted r session hat hlook hwhy =>
      rintro (hcalm' | ⟨r', t', fault, hat', hreturned⟩)
      · cases hcalm'
      · cases hat'
        rw [getElem?_spawn.mpr (.inr ⟨rfl, rfl⟩)] at hreturned
        cases hreturned
  | @resumed r t' result worker events hat hreturned hto =>
      cases result with
      | error fault => exact absurd (.inr ⟨r, t', fault, hat, hreturned⟩) h
      | ok _ =>
          have hworker : worker = .authorized r := hto
          rintro (hcalm' | ⟨r', t'', fault, hat', _⟩)
          · simp [hworker, Worker.calm] at hcalm'
          · simp [hworker] at hat'

/-- Nor can the thread it may be waiting for get at the session. -/
theorem not_free_of_thread {t' : ℕ} {move : ThreadMove} (hs : s.Consistent)
    (hheld : s.holder = some t) (hne : t' ≠ t) (h : ¬ s.Free)
    (hstep : Step P s (.thread t' move) s') : ¬ s'.Free := by
  obtain ⟨thread, ht', hmove⟩ := Option.bind_eq_some_iff.mp hstep
  have heffect := threadStep_effect hmove
  have hworker : s'.worker = s.worker := by cases heffect <;> rfl
  rintro (hcalm | ⟨r, t'', fault, hat, hreturned⟩)
  · exact h (.inl (hworker ▸ hcalm))
  · rw [hworker] at hat
    by_cases heq : t'' = t'
    · -- The thread would have returned in this step, but then it held the mutex.
      obtain ⟨phase, hphase, hholds⟩ := heffect.phase ht'
      rw [heq, hphase] at hreturned
      have hheld' := hs.holder_of_holds ht' (hholds _ (Thread.mk.inj (Option.some.inj hreturned)).2)
      rw [hheld] at hheld'
      exact hne (Option.some.inj hheld').symm
    · have hsame : s'.threads[t'']? = s.threads[t'']? := by
        cases heffect <;> exact getElem?_setPhase_of_ne (Ne.symm heq) _
      exact h (.inr ⟨r, t'', fault, hat, hsame ▸ hreturned⟩)

/-- The answer stands in the queue, and what is in its way cannot go. -/
structure Jammed (t : ℕ) (pin : Option String) (behind : List UiRequest) (s : Daemon) : Prop where
  consistent : s.Consistent
  blocked : s.Blocked t
  stuck : ∃ ahead later, s.requests = ahead ++ .pinResponse pin :: (behind ++ later) ∧
    (¬ s.Free ∨ ∃ r ∈ ahead, r.needsSession)

/-- The rest of the queue is as it was. -/
theorem requests_accept (r : UiRequest) : (s.accept r).requests = s.requests := by
  cases r with
  | unlock =>
      show s.startUnlock.requests = s.requests
      unfold Daemon.startUnlock
      split <;> rfl
  | _ => rfl

/-- The worker begins the handler of a request that needs the session. -/
theorem not_free_accept {r : UiRequest} (h : r.needsSession) : ¬ (s.accept r).Free := by
  have hworker : (s.accept r).worker = .handling r := by
    cases r <;> first | rfl | cases h
  simp [Free, hworker, Worker.calm]

theorem requests_work {input : WorkInput} (h : Step P s (.work input) s') :
    s'.requests = s.requests := by
  cases work_effect h <;> rfl

theorem requests_thread {t' : ℕ} {move : ThreadMove} (h : Step P s (.thread t' move) s') :
    s'.requests = s.requests := by
  obtain ⟨thread, _, hmove⟩ := Option.bind_eq_some_iff.mp h
  cases threadStep_effect hmove <;> rfl

/-- **A jam stays** until the blocked thread itself takes a step. -/
theorem Jammed.step {action : Action} (h : Jammed t pin behind s)
    (hother : action.ofThread t = false) (hstep : Step P s action s') :
    Jammed t pin behind s' := by
  refine ⟨h.consistent.step hstep, h.blocked.step hother hstep, ?_⟩
  obtain ⟨ahead, later, hqueue, hway⟩ := h.stuck
  cases action with
  | send r =>
      cases hstep
      exact ⟨ahead, later ++ [r], by simp [hqueue], hway⟩
  | handle =>
      dsimp only [Step, next] at hstep
      split at hstep
      · cases hstep
      · cases hstep
        exact ⟨ahead, later, hqueue, hway⟩
  | take arm =>
      cases take_effect hstep with
      | entered hidle hto =>
          rcases hway with hnot | hneeds
          · exact absurd (.inl (by simp [hidle, Worker.calm])) hnot
          · exact ⟨ahead, later, hqueue, .inr hneeds⟩
      | @accepted r rest hidle hrequests =>
          rcases hway with hnot | ⟨needy, hmem, hneeds⟩
          · exact absurd (.inl (by simp [hidle, Worker.calm])) hnot
          · cases ahead with
            | nil => cases hmem
            | cons first ahead =>
                rw [hrequests, List.cons_append, List.cons.injEq] at hqueue
                obtain ⟨rfl, rfl⟩ := hqueue
                refine ⟨ahead, later, requests_accept r, ?_⟩
                rcases List.mem_cons.mp hmem with rfl | hlater
                · exact .inl (not_free_accept hneeds)
                · exact .inr ⟨needy, hlater, hneeds⟩
  | work input =>
      refine ⟨ahead, later, (requests_work hstep).trans hqueue, hway.imp_left fun hnot => ?_⟩
      exact not_free_of_work (by simp [h.blocked.holder h.consistent]) hnot hstep
  | thread t' move =>
      have hne : t' ≠ t := by simpa [Action.ofThread] using hother
      refine ⟨ahead, later, (requests_thread hstep).trans hqueue, hway.imp_left fun hnot => ?_⟩
      exact not_free_of_thread h.consistent (h.blocked.holder h.consistent) hne hnot hstep

/-- In a jam nobody else can bring the answer to the broker. -/
theorem Jammed.not_forwarded {actions : List Action} (h : Jammed t pin behind s)
    (hother : ∀ action ∈ actions, action.ofThread t = false)
    (hrun : Run (Step P) s actions s') :
    s'.worker ≠ .idle ∨ s'.requests ≠ .pinResponse pin :: behind := by
  have hend : Jammed t pin behind s' :=
    hrun.invariant (fun _ _ _ hmem hu hstep => hu.step (hother _ hmem) hstep) h
  by_contra hdone
  rw [not_or, not_not, not_not] at hdone
  obtain ⟨hidle, hhead⟩ := hdone
  obtain ⟨ahead, later, hqueue, hway⟩ := hend.stuck
  have hlength := congrArg List.length (hhead.symm.trans hqueue)
  have hnil : ahead = [] := by
    refine List.eq_nil_of_length_eq_zero ?_
    simp only [List.length_cons, List.length_append] at hlength
    omega
  rcases hway with hnot | ⟨r, hmem, _⟩
  · exact hnot (.inl (by simp [hidle, Worker.calm]))
  · simp [hnil] at hmem

/-- **Exactly when an answer can be delivered.** -/
theorem canForward_iff (input : WorkInput) (hs : s.Consistent) (hblocked : s.Blocked t)
    (hqueue : s.requests = ahead ++ .pinResponse pin :: behind) :
    CanForward P s pin behind ↔ s.Free ∧ ∀ r ∈ ahead, r.needsSession = false := by
  constructor
  · rintro ⟨actions, mid, s', hrun, hown, hrequests, htake⟩
    by_contra hway
    have hjammed : Jammed t pin behind s := by
      refine ⟨hs, hblocked, ahead, [], by simp [hqueue], ?_⟩
      by_cases hfree : s.Free
      · right
        simpa [hfree] using hway
      · exact .inl hfree
    have hidle : mid.worker = .idle := by
      cases take_effect htake with
      | entered hidle hto => exact hidle
      | accepted hidle hrequests => exact hidle
    have hother : ∀ action ∈ actions, action.ofThread t = false := by
      intro action hmem
      have hworker := hown action hmem
      cases action <;> first | rfl | cases hworker
    rcases hjammed.not_forwarded hother hrun with hnot | hnot
    · exact hnot hidle
    · exact hnot hrequests
  · rintro ⟨hfree, hahead⟩
    exact canForward_of_free input hs hblocked hqueue hfree hahead

/-! ## Runs without a jam -/

/-- No request that needs the session meets an unlock in flight, no handler starts an
assertion of its own, and the daemon is not shut down during an unlock. -/
def Orderly (s : Daemon) : Action → Prop
  | .send r => s.unlockInFlight → r.needsSession = false
  | .take .shutdown => s.unlockInFlight = false
  | .take (.request .unlock) => ∀ r ∈ s.requests, r.needsSession = false
  | .work input =>
      (s.worker = .hotkey (.finishing false) → ∀ r ∈ s.requests, r.needsSession = false) ∧
        ∀ r, s.worker = .handling r →
          (∀ id, r ≠ .delete id) ∧ (r.edits → ¬ s.Locked input.call.started)
  | _ => True

/-- While an unlock is in flight, nothing that needs the session is queued or running. -/
structure Unjammed (s : Daemon) : Prop where
  unawaited : ∀ r t, s.worker ≠ .awaiting r t
  calm : s.unlockInFlight → s.worker.calm
  queue : s.unlockInFlight → ∀ r ∈ s.requests, r.needsSession = false

/-- While an unlock is in flight, a calm handler stays calm. -/
theorem Moves.calm {worker : Worker} (h : s.Moves worker) (hflag : s.unlockInFlight = true)
    (hcalm : s.worker.calm) : worker.calm := by
  cases h with
  | foundUnlocked hat hdown hfree => simp [hflag] at hdown
  | @announced unlocked hat hlook =>
      cases unlocked with
      | true => simp [hat, Worker.calm] at hcalm
      | false => rfl
  | listed hat hfree => simp [hat, Worker.calm] at hcalm
  | foundAuthorized hat hedits hdown hfree => simp [hflag] at hdown
  | stored hat hfree => simp [hat, Worker.calm] at hcalm
  | stopped hat hfree => simp [hat, Worker.calm] at hcalm
  | died hat hfree =>
      rcases hat with ⟨host, application, hat⟩ | ⟨r, hat | hat⟩ | hat <;>
        simp [hat, Worker.calm] at hcalm
  | _ => rfl

theorem Moves.unawaited {worker : Worker} (h : s.Moves worker) (r : UiRequest) (t : ℕ) :
    worker ≠ .awaiting r t := by
  cases h <;> simp

theorem startUnlock_fields :
    s.startUnlock.worker = s.worker ∧ s.startUnlock.requests = s.requests := by
  unfold Daemon.startUnlock
  split <;> exact ⟨rfl, rfl⟩

theorem Unjammed.take {arm : Arm} (h : s.Unjammed) (hguard : s.Orderly (.take arm))
    (heffect : s.TakeEffect arm s') : s'.Unjammed := by
  cases heffect with
  | @entered _ worker hidle hto =>
      rcases hto with ⟨rfl, rfl⟩ | ⟨_, rfl⟩ | ⟨_, rfl⟩
      · have hdown : s.unlockInFlight = false := hguard
        exact ⟨by simp, fun hflag => by simp [hdown] at hflag, h.queue⟩
      · exact ⟨by simp, fun _ => rfl, h.queue⟩
      · exact ⟨by simp, fun _ => rfl, h.queue⟩
  | @accepted r rest hidle hrequests =>
      have hrest : s.unlockInFlight → ∀ r' ∈ rest, r'.needsSession = false :=
        fun hflag r' hr' => h.queue hflag r' (hrequests ▸ List.mem_cons_of_mem _ hr')
      cases r with
      | unlock =>
          obtain ⟨hworker, hqueue⟩ := startUnlock_fields (s := { s with requests := rest })
          refine ⟨fun r t hat => ?_, fun _ => ?_, fun _ r' hr' => ?_⟩
          · exact h.unawaited r t (hworker.symm.trans hat)
          · rw [show (Daemon.accept .unlock { s with requests := rest }).worker = .idle from
              hworker.trans hidle]
            rfl
          · have hmem : r' ∈ rest := by simpa [Daemon.accept, hqueue] using hr'
            exact hguard r' (hrequests ▸ List.mem_cons_of_mem _ hmem)
      | pinResponse pin => exact ⟨h.unawaited, h.calm, hrest⟩
      | dismissed => exact ⟨h.unawaited, h.calm, hrest⟩
      | _ =>
          refine ⟨by simp [Daemon.accept, goto], fun hflag => ?_, hrest⟩
          have hneeds := h.queue hflag _ (hrequests ▸ List.mem_cons_self)
          cases hneeds

theorem Unjammed.work {input : WorkInput} (h : s.Unjammed) (hguard : s.Orderly (.work input))
    (heffect : s.WorkEffect input.call.started s') : s'.Unjammed := by
  cases heffect with
  | moved session lastState events hmoves =>
      exact ⟨hmoves.unawaited, fun hflag => hmoves.calm hflag (h.calm hflag), h.queue⟩
  | started events hat hflag => exact ⟨by simp, fun _ => rfl, fun _ => hguard.1 hat⟩
  | @reasserted r session hat hlook hwhy =>
      obtain ⟨hdelete, hbegin⟩ := hguard.2 r hat
      rcases hwhy with ⟨⟨id, rfl⟩, _⟩ | ⟨hedits, hlocked⟩
      · exact absurd rfl (hdelete id)
      · exact absurd hlocked (hbegin hedits)
  | resumed events hat hreturned hto => exact absurd hat (h.unawaited _ _)

/-- **In an orderly run nothing jams.** -/
theorem unjammed_of_run {session : Session} {actions : List Action}
    (h : Run (guarded (Step P) Orderly) (start session) actions s) : s.Unjammed := by
  refine h.invariant (fun u action u' _ hu hstep => ?_) ⟨by simp [start], by simp [start], by
    simp [start]⟩
  obtain ⟨hstep, hguard⟩ := hstep
  cases action with
  | send r =>
      cases hstep
      refine ⟨hu.unawaited, hu.calm, fun hflag r' hr' => ?_⟩
      rcases List.mem_append.mp hr' with hold | hnew
      · exact hu.queue hflag r' hold
      · rw [List.mem_singleton.mp hnew]
        exact hguard hflag
  | handle =>
      dsimp only [Step, next] at hstep
      split at hstep
      · cases hstep
      · cases hstep
        exact ⟨hu.unawaited, hu.calm, hu.queue⟩
  | take arm => exact hu.take hguard (take_effect hstep)
  | work input => exact hu.work hguard (work_effect hstep)
  | thread t move =>
      obtain ⟨thread, _, hmove⟩ := Option.bind_eq_some_iff.mp hstep
      cases threadStep_effect hmove with
      | endedUnlock ended hkind hphase =>
          refine ⟨hu.unawaited, fun hflag => ?_, fun hflag => ?_⟩
          · cases hflag
          · cases hflag
      | _ => exact ⟨hu.unawaited, hu.calm, hu.queue⟩

/-- **PIN delivery.** In every state the daemon reaches, an answer that is queued while a
thread is blocked can be brought to it just if the running handler can end and no request
before the answer needs the session. In an orderly run it always can. -/
theorem pin_delivery (P : Primitives) (session : Session) :
    (∀ actions s t pin ahead behind, Run (Step P) (start session) actions s → s.Blocked t →
      s.requests = ahead ++ .pinResponse pin :: behind →
      (CanForward P s pin behind ↔ s.Free ∧ ∀ r ∈ ahead, r.needsSession = false)) ∧
    (∀ actions s t pin ahead behind, Run (guarded (Step P) Orderly) (start session) actions s →
      s.Blocked t → s.requests = ahead ++ .pinResponse pin :: behind →
      CanForward P s pin behind) := by
  refine ⟨fun actions s t pin ahead behind hrun hblocked hqueue => ?_,
    fun actions s t pin ahead behind hrun hblocked hqueue => ?_⟩
  · exact canForward_iff (.usual 0) (consistent_of_run hrun) hblocked hqueue
  · have hs := consistent_of_run (hrun.mono fun _ _ _ h => h.1)
    have hu := unjammed_of_run hrun
    have hflag : s.unlockInFlight := by
      obtain ⟨kind, ht⟩ := hblocked
      cases kind with
      | startUnlock => exact hs.inFlight t ⟨_, ht, rfl, rfl⟩
      | reassert =>
          obtain ⟨r, hat⟩ := hs.awaited t ⟨_, ht, rfl, rfl⟩
          exact absurd hat (hu.unawaited r t)
    refine canForward_of_free (.usual 0) hs hblocked hqueue (.inl (hu.calm hflag)) ?_
    intro r hr
    exact hu.queue hflag r (hqueue ▸ List.mem_append_left _ hr)

/-- A thread that was just started gets the mutex and asks for the PIN; the popup handles
its events and answers. -/
def promptedBy (t events : ℕ) : List Action :=
  [.thread t .acquire, .thread t .drain, .thread t .request] ++ List.replicate events .handle ++
    [.send (.pinResponse (some "1234"))]

/-- The shortcut is pressed. -/
def hotkeyPressed : List Action :=
  [.take .hotkey, .work (.usual 1), .work (.usual 1), .work (.usual 1), .work (.usual 1)]

/-- The user confirms that a secret is to be deleted. -/
def deleteConfirmed (id : Uuid) : List Action :=
  [.send (.delete id), .take (.request (.delete id)), .work (.usual 1)]

/-- The vault of a session that was just created, as the daemon opens it. -/
def reopened (keys : NewKeys) (outerKek : Key) : Session where
  vault := keys.vault .reference .empty
  outerKek := outerKek
  innerKek := none
  deadline := none
  timeout := 60

theorem exists_reopened :
    ∃ keys, Session.prepareKeys .reference (.working 0 0 (Nat.le_refl 0) (Block.replicate 16 0))
        (.token [1] [2]) (Block.replicate keyLen 1) = .ok keys ∧
      Session.openLocked (.working 0 0 (Nat.le_refl 0) (Block.replicate 16 0))
      (keys.vault .reference .empty) (.ok (Block.replicate keyLen 1)) 60 =
        .ok (reopened keys (Block.replicate keyLen 1)) := by
  obtain ⟨keys, _, hkeys, _⟩ := Session.exists_initializeVault_working 0 0 (Nat.le_refl 0)
    (Block.replicate 16 0) (Block.replicate keyLen 1) [1] [2] 60
  exact ⟨keys, hkeys, rfl⟩

theorem pin_for_the_hotkey_is_delivered :
    ∃ keys s, Run (guarded (Step .reference) Orderly)
        (start (reopened keys (Block.replicate keyLen 1))) (hotkeyPressed ++ promptedBy 0 4) s ∧
      s.Blocked 0 ∧ CanForward .reference s (some "1234") [] := by
  obtain ⟨keys, _⟩ := exists_reopened
  have hrun : ∃ s, Run (guarded (Step .reference) Orderly)
      (start (reopened keys (Block.replicate keyLen 1))) (hotkeyPressed ++ promptedBy 0 4) s ∧
      s.Blocked 0 ∧ s.requests = [.pinResponse (some "1234")] := by
    have hcalm : ∀ (s : Daemon) (input : WorkInput), s.requests = [] →
        (∀ r, s.worker ≠ .handling r) → s.Orderly (.work input) := by
      intro s input hqueue hworker
      exact ⟨fun _ => by simp [hqueue], fun r hat => absurd hat (hworker r)⟩
    refine ⟨_, .cons ⟨rfl, trivial⟩ (.cons ⟨rfl, hcalm _ _ rfl (by simp [goto])⟩
      (.cons ⟨rfl, hcalm _ _ rfl (by simp [goto])⟩ (.cons ⟨rfl, hcalm _ _ rfl (by simp [goto])⟩
      (.cons ⟨rfl, hcalm _ _ rfl (by simp [goto])⟩ (.cons ⟨rfl, trivial⟩ (.cons ⟨rfl, trivial⟩
      (.cons ⟨rfl, trivial⟩ (.cons ⟨rfl, trivial⟩ (.cons ⟨rfl, trivial⟩ (.cons ⟨rfl, trivial⟩
      (.cons ⟨rfl, trivial⟩ (.cons ⟨rfl, fun _ => rfl⟩ (.nil _))))))))))))), ?_, rfl⟩
    exact ⟨.startUnlock, rfl⟩
  obtain ⟨s, hrun, hblocked, hqueue⟩ := hrun
  exact ⟨keys, s, hrun, hblocked,
    (pin_delivery .reference (reopened keys (Block.replicate keyLen 1))).2 _ s 0 _ [] [] hrun
      hblocked hqueue⟩

/-- Where the worker waits for the only thread, and that thread for an answer that is not
there, the popup's own steps and the timeout are all that is left. -/
theorem enabled_of_deadlock {r : UiRequest} {action : Action} (hat : s.worker = .awaiting r t)
    (hthreads : ∀ t' thread, s.threads[t']? = some thread → t' = t ∧ thread.phase = .blocked)
    (hanswers : s.answers = []) (hstep : Step P s action s') :
    (∃ r, action = .send r) ∨ action = .handle ∨ action = .thread t .timeout := by
  cases action with
  | send r => exact .inl ⟨r, rfl⟩
  | handle => exact .inr (.inl rfl)
  | take arm =>
      cases take_effect hstep with
      | entered hidle hto => simp [hat] at hidle
      | accepted hidle hrequests => simp [hat] at hidle
  | work input =>
      cases work_effect hstep with
      | moved session lastState events hmoves => exact absurd hat (hmoves.not_awaiting _ _)
      | started events hat' hflag => simp [hat] at hat'
      | reasserted session hat' hlook hwhy => simp [hat] at hat'
      | resumed events hat' hreturned hto => cases (hthreads _ _ hreturned).2
  | thread t' move =>
      obtain ⟨thread, ht', hmove⟩ := Option.bind_eq_some_iff.mp hstep
      obtain ⟨rfl, hphase⟩ := hthreads t' thread ht'
      cases move with
      | timeout => exact .inr (.inr rfl)
      | endUnlock => cases hkind : thread.kind <;> simp [threadStep, hphase, hkind] at hmove
      | _ => simp [threadStep, hphase, hanswers] at hmove

/-- A secret is deleted: the handler waits for its assertion, the assertion for the PIN,
and the PIN for the handler. -/
theorem pin_for_a_deletion_is_not_delivered :
    ∃ keys s, Session.prepareKeys .reference
        (.working 0 0 (Nat.le_refl 0) (Block.replicate 16 0)) (.token [1] [2])
        (Block.replicate keyLen 1) = .ok keys ∧
      Session.openLocked (.working 0 0 (Nat.le_refl 0) (Block.replicate 16 0))
        (keys.vault .reference .empty) (.ok (Block.replicate keyLen 1)) 60 =
          .ok (reopened keys (Block.replicate keyLen 1)) ∧
      Run (Step .reference) (start (reopened keys (Block.replicate keyLen 1)))
        (deleteConfirmed (Block.replicate 16 7) ++ promptedBy 0 1) s ∧
      s.Blocked 0 ∧ s.requests = [.pinResponse (some "1234")] ∧
      ¬ CanForward .reference s (some "1234") [] ∧
      ∀ action s', Step .reference s action s' →
        (∃ r, action = .send r) ∨ action = .handle ∨ action = .thread 0 .timeout := by
  obtain ⟨keys, hkeys, hopen⟩ := exists_reopened
  have hdeadlock : ∃ s, Run (Step .reference) (start (reopened keys (Block.replicate keyLen 1)))
      (deleteConfirmed (Block.replicate 16 7) ++ promptedBy 0 1) s ∧
      s.worker = .awaiting (.delete (Block.replicate 16 7)) 0 ∧
      s.threads = [⟨.reassert, .blocked⟩] ∧ s.requests = [.pinResponse (some "1234")] ∧
      s.answers = [] := by
    exact ⟨_, .cons rfl (.cons rfl (.cons rfl (.cons rfl (.cons rfl (.cons rfl (.cons rfl
      (.cons rfl (.nil _)))))))), rfl, rfl, rfl, rfl⟩
  obtain ⟨s, hrun, hat, hthreads, hqueue, hanswers⟩ := hdeadlock
  have hblocked : s.Blocked 0 := ⟨.reassert, by simp [hthreads]⟩
  refine ⟨keys, s, hkeys, hopen, hrun, hblocked, hqueue, fun hforward => ?_,
    fun action s' hstep => ?_⟩
  · have hfirst : s.requests = [] ++ .pinResponse (some "1234") :: [] := hqueue
    have hfree := ((canForward_iff (.usual 0) (consistent_of_run hrun) hblocked hfirst).mp
      hforward).1
    rcases hfree with hcalm | ⟨r, t, fault, hat', hreturned⟩
    · simp [hat, Worker.calm] at hcalm
    · obtain ⟨_, rfl⟩ : _ ∧ 0 = t := by simpa [hat] using hat'
      simp [hthreads] at hreturned
  · refine enabled_of_deadlock hat (fun t' thread ht' => ?_) hanswers hstep
    cases t' with
    | zero =>
        simp only [hthreads, List.getElem?_cons_zero, Option.some.injEq] at ht'
        exact ⟨rfl, ht' ▸ rfl⟩
    | succ n => simp [hthreads] at ht'

end Daemon

end Sypherstore
