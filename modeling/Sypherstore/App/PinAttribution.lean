/-
# Whose PIN is it

An answer does not say which prompt it is for. It travels through the popup's queue and the
broker's channel, and the call of `request_pin` that finds it first takes it. The daemon and
the popup are run together here, with a record of which call asked for each prompt and which
prompt each answer was given to. A call drains the broker's channel before it asks, so an
older answer can only reach it from behind: from the popup's queue, or from an old prompt
that is still on screen.
-/

import Sypherstore.App.DaemonKeeping
import Sypherstore.App.PinDelivery
import Sypherstore.App.PopupRuns
import Sypherstore.Core.KeyRing

namespace Sypherstore

open Logic

/-- The move is a part of `request_pin` that deals with an answer or a prompt. -/
def ThreadMove.ofBroker : ThreadMove → Bool
  | .drain | .request | .receive => true
  | _ => false

namespace Daemon

variable {P : Primitives} {s s' : Daemon} {t : ℕ}

/-! ## Prompts on their way to the popup -/

/-- How many of the waiting events ask for a PIN. -/
def prompts (s : Daemon) : ℕ := s.events.countP DaemonEvent.asksPin

@[simp] theorem prompts_emit (event : DaemonEvent) (s : Daemon) :
    (s.emit event).prompts = s.prompts + if event.asksPin then 1 else 0 := by
  simp [prompts, emit, List.countP_append, List.countP_singleton]

@[simp] theorem prompts_setPhase (t : ℕ) (phase : Phase) (s : Daemon) :
    (s.setPhase t phase).prompts = s.prompts := rfl

theorem prompts_startUnlock (s : Daemon) : s.startUnlock.prompts = s.prompts := by
  unfold startUnlock
  split
  · rfl
  · simp [spawn, prompts, emit, DaemonEvent.asksPin]

/-- Nobody asks for a PIN outside `request_pin`, whatever is called. -/
theorem kept_prompts (P : Primitives) (n : ℕ) :
    Kept P True fun _ events => events.countP DaemonEvent.asksPin = n where
  told event hevent hn := by simp [List.countP_append, hevent, hn]
  called _ _ _ _ := fun _ hn => hn

theorem prompts_work {input : WorkInput} (h : s.work P input = some s') :
    s'.prompts = s.prompts :=
  Meets.work (kept_prompts P s.prompts) (fun _ _ => trivial) rfl h

theorem prompts_take {arm : Arm} (h : s.take arm = some s') : s'.prompts = s.prompts := by
  cases take_effect h with
  | entered hidle hto => rfl
  | @accepted r rest hidle hrequests =>
      cases r with
      | unlock => exact prompts_startUnlock { s with requests := rest }
      | _ => rfl

/-! ## What the steps do to answers and to `request_pin` -/

/-- `request_pin` has drained the answers and has not asked yet. -/
def Drained (s : Daemon) (t : ℕ) : Prop :=
  ∃ kind, s.threads[t]? = some { kind, phase := .drained }

/-- The answers on their way to `request_pin`, oldest first. -/
def flight (s : Daemon) : List (Option String) := s.answers ++ answersIn s.requests

/-- What no step outside `request_pin` changes. -/
structure Aside (s s' : Daemon) : Prop where
  flight : s'.flight = s.flight
  prompts : s'.prompts = s.prompts
  drained : ∀ t, s'.Drained t → s.Drained t
  blocked : ∀ t, s'.Blocked t → s.Blocked t

theorem flight_take {arm : Arm} (h : s.take arm = some s') : s'.flight = s.flight := by
  cases take_effect h with
  | entered hidle hto => rfl
  | @accepted r rest hidle hrequests =>
      cases r with
      | unlock =>
          show (Daemon.startUnlock { s with requests := rest }).flight = s.flight
          unfold Daemon.startUnlock
          split <;> simp [flight, hrequests, spawn, emit, UiRequest.answer]
      | _ => simp [flight, accept, goto, hrequests, UiRequest.answer]

theorem flight_work {input : WorkInput} (h : s.work P input = some s') : s'.flight = s.flight := by
  cases work_effect h <;> rfl

/-- The mutex stays with the thread that has it. -/
theorem holder_of_worker {action : Action} (hworker : action.ofWorker) (h : Step P s action s') :
    s'.holder = s.holder := by
  cases action with
  | take arm =>
      cases take_effect h with
      | entered hidle hto => rfl
      | @accepted r rest hidle hrequests =>
          cases r with
          | unlock =>
              show (Daemon.startUnlock { s with requests := rest }).holder = s.holder
              unfold Daemon.startUnlock
              split <;> rfl
          | _ => rfl
  | work input => cases work_effect h <;> rfl
  | _ => cases hworker

/-- A thread that holds the mutex after a step of the worker was there before. -/
theorem getElem?_of_worker {action : Action} {thread : Thread} (hs : s.Consistent)
    (hworker : action.ofWorker) (h : Step P s action s') (ht : s'.threads[t]? = some thread)
    (hholds : thread.phase.holds) : s.threads[t]? = some thread := by
  have hheld := (hs.step h).holder_of_holds ht hholds
  rw [holder_of_worker hworker h] at hheld
  obtain ⟨thread₀, ht₀, hholds₀⟩ := (hs.holder t).mp hheld
  have hother : action.ofThread t = false := by
    cases action <;> first | rfl | cases hworker
  have hkept := getElem?_of_other_step ht₀ hholds₀ hother h
  rw [ht] at hkept
  rw [ht₀, hkept]

theorem aside_worker {action : Action} (hs : s.Consistent) (hworker : action.ofWorker)
    (h : Step P s action s') : Aside s s' where
  flight := by
    cases action with
    | take arm => exact flight_take h
    | work input => exact flight_work h
    | _ => cases hworker
  prompts := by
    cases action with
    | take arm => exact prompts_take h
    | work input => exact prompts_work h
    | _ => cases hworker
  drained := by
    rintro t ⟨kind, ht⟩
    exact ⟨kind, getElem?_of_worker hs hworker h ht rfl⟩
  blocked := by
    rintro t ⟨kind, ht⟩
    exact ⟨kind, getElem?_of_worker hs hworker h ht rfl⟩

/-- After a change of phase, a thread is where it was, unless it is the one that changed. -/
theorem phase_of_setPhase {phase : Phase} {t' : ℕ} {thread' : Thread}
    (hthreads : s'.threads = (s.setPhase t phase).threads) (h : s'.threads[t']? = some thread') :
    t' = t ∧ thread'.phase = phase ∨ s.threads[t']? = some thread' := by
  rw [hthreads] at h
  by_cases heq : t = t'
  · subst heq
    rw [setPhase, List.getElem?_modify_eq] at h
    obtain ⟨thread, _, rfl⟩ := Option.map_eq_some_iff.mp h
    exact .inl ⟨rfl, rfl⟩
  · rw [getElem?_setPhase_of_ne heq] at h
    exact .inr h

theorem Drained.of_setPhase {phase : Phase} {t' : ℕ}
    (hthreads : s'.threads = (s.setPhase t phase).threads) (hphase : phase ≠ .drained)
    (h : s'.Drained t') : s.Drained t' := by
  obtain ⟨kind, ht'⟩ := h
  rcases phase_of_setPhase hthreads ht' with ⟨_, hsame⟩ | hkept
  · exact absurd hsame.symm hphase
  · exact ⟨kind, hkept⟩

theorem Blocked.of_setPhase {phase : Phase} {t' : ℕ}
    (hthreads : s'.threads = (s.setPhase t phase).threads) (hphase : phase ≠ .blocked)
    (h : s'.Blocked t') : s.Blocked t' := by
  obtain ⟨kind, ht'⟩ := h
  rcases phase_of_setPhase hthreads ht' with ⟨_, hsame⟩ | hkept
  · exact absurd hsame.symm hphase
  · exact ⟨kind, hkept⟩

/-- A thread that goes on outside `request_pin`. -/
theorem aside_setPhase {phase : Phase} (hthreads : s'.threads = (s.setPhase t phase).threads)
    (hdrained : phase ≠ .drained) (hblocked : phase ≠ .blocked) (hflight : s'.flight = s.flight)
    (hprompts : s'.prompts = s.prompts) : Aside s s' where
  flight := hflight
  prompts := hprompts
  drained _ h := h.of_setPhase hthreads hdrained
  blocked _ h := h.of_setPhase hthreads hblocked

/-- Two threads that hold the mutex are one. -/
theorem Consistent.eq_of_holds (hs : s.Consistent) {t' : ℕ} {thread thread' : Thread}
    (ht : s.threads[t]? = some thread) (hholds : thread.phase.holds)
    (ht' : s.threads[t']? = some thread') (hholds' : thread'.phase.holds) : t = t' := by
  have hheld := hs.holder_of_holds ht hholds
  rw [hs.holder_of_holds ht' hholds'] at hheld
  exact (Option.some.inj hheld).symm

/-- A thread that holds the mutex and is not blocked keeps every other one from it. -/
theorem Consistent.not_blocked (hs : s.Consistent) {thread : Thread}
    (ht : s.threads[t]? = some thread) (hholds : thread.phase.holds)
    (hphase : thread.phase ≠ .blocked) (t' : ℕ) : ¬ s.Blocked t' := by
  rintro ⟨kind, ht'⟩
  obtain rfl := hs.eq_of_holds ht hholds ht' rfl
  rw [ht] at ht'
  cases ht'
  exact hphase rfl

theorem aside_thread {thread : Thread} {move : ThreadMove} (hmove : move.ofBroker = false)
    (h : s.threadStep P t thread move = some s') : Aside s s' := by
  have hprompts : s'.prompts = s.prompts := by
    apply Meets.threadStep (kept_prompts P s.prompts) _ rfl h
    rintro rfl
    cases hmove
  cases move with
  | drain => cases hmove
  | request => cases hmove
  | receive => cases hmove
  | acquire =>
      dsimp only [threadStep] at h
      split at h
      · cases h
        exact aside_setPhase rfl (by simp) (by simp) rfl hprompts
      · cases h
  | timeout =>
      dsimp only [threadStep] at h
      split at h
      · cases h
        exact aside_setPhase rfl (by simp) (by simp) rfl hprompts
      · cases h
  | finish call inner =>
      dsimp only [threadStep] at h
      split at h <;> cases h <;> exact aside_setPhase rfl (by simp) (by simp) rfl hprompts
  | endUnlock =>
      dsimp only [threadStep] at h
      split at h <;> cases h <;> exact aside_setPhase rfl (by simp) (by simp) rfl hprompts
  | announce =>
      dsimp only [threadStep] at h
      split at h
      · split at h
        · cases h
          exact aside_setPhase rfl (by simp) (by simp) rfl hprompts
        · cases h
          exact aside_setPhase rfl (by simp) (by simp) rfl hprompts
      · cases h
        exact aside_setPhase rfl (by simp) (by simp) rfl hprompts
      · cases h
  | tick call =>
      dsimp only [threadStep] at h
      split at h
      · obtain ⟨⟨state, mid⟩, htick, h⟩ := Option.bind_eq_some_iff.mp h
        obtain ⟨session, rfl⟩ := tickSession_eq_some htick
        cases h
        exact aside_setPhase rfl (by simp) (by simp) rfl hprompts
      · cases h
  | refresh call =>
      dsimp only [threadStep] at h
      split at h
      · obtain ⟨⟨result, mid⟩, hrun, h⟩ := Option.bind_eq_some_iff.mp h
        obtain ⟨hfree, hmid⟩ := (withSession_eq_some_iff ..).mp hrun
        cases hmid
        cases h
        revert hprompts
        unfold refreshed
        split
        · exact fun hprompts => aside_setPhase rfl (by simp) (by simp) rfl hprompts
        · exact fun hprompts => aside_setPhase rfl (by simp) (by simp) rfl hprompts
        · exact fun hprompts => aside_setPhase rfl (by simp) (by simp) rfl hprompts
      · cases h

end Daemon

/-! ## The daemon and its popup -/

/-- The daemon with its popup, and a record of prompts and answers. -/
structure Conversation where
  daemon : Daemon
  popup : Popup
  /-- The threads that asked for a PIN, in the order in which they did. A prompt is named by
  its place in this list, from one on. -/
  askers : List ℕ
  /-- The last prompt that was opened, or zero. -/
  shown : ℕ
  /-- For every answer on its way to `request_pin`, oldest first, the prompt it was given to. -/
  origins : List ℕ

namespace Conversation

inductive Action where
  /-- A step of the worker or of an assertion thread. -/
  | daemon (action : Daemon.Action)
  /-- The popup takes a step of its own. -/
  | popup (input : Popup.Input)
  /-- The popup handles the oldest event. -/
  | deliver (now : Instant)

def start (session : Session) : Conversation :=
  { daemon := .start session, popup := .new, askers := [], shown := 0, origins := [] }

/-- The popup, with the queue it shares with the worker. -/
def front (s : Conversation) : Popup := { s.popup with requests := s.daemon.requests }

/-- After a step of the daemon: what `request_pin` does is recorded. -/
def record (s : Conversation) (daemon : Daemon) : Daemon.Action → Conversation
  | .thread _ .drain => { s with daemon, origins := s.origins.drop s.daemon.answers.length }
  | .thread t .request => { s with daemon, askers := s.askers ++ [t] }
  | .thread _ .receive => { s with daemon, origins := s.origins.tail }
  | _ => { s with daemon }

/-- After a step of the popup: the answers it has sent were given to the open prompt. -/
def adopt (s : Conversation) (popup : Popup) : Conversation :=
  { s with
    popup
    daemon := { s.daemon with requests := popup.requests }
    origins := s.origins ++ List.replicate
      ((answersIn popup.requests).length - (answersIn s.daemon.requests).length) s.shown }

section Steps

variable (P : Primitives) (S : Searcher)

def next (s : Conversation) : Action → Option Conversation
  | .daemon (.send _) | .daemon .handle => none
  | .daemon action => (s.daemon.next P action).map fun daemon => s.record daemon action
  | .popup (.event _ _) => none
  | .popup input => (s.front.next S input).map s.adopt
  | .deliver now =>
      match s.daemon.events with
      | [] => none
      | event :: events =>
          let s := s.adopt (s.front.handleEvent S now event)
          some { s with
            daemon := { s.daemon with events }
            shown := if event.asksPin then s.shown + 1 else s.shown }

def Step (s : Conversation) (a : Action) (s' : Conversation) : Prop := s.next P S a = some s'

end Steps

variable {P : Primitives} {S : Searcher} {s s' : Conversation} {t : ℕ}

/-- The oldest answer was given to the last prompt asked for, and this thread asked for it. -/
def Attributed (s : Conversation) (t : ℕ) : Prop :=
  s.origins.head? = some s.askers.length ∧ s.askers.getLast? = some t

/-- No answer is behind a call of `request_pin` that drains the channel, and none is given
to an older prompt while such a call is about to ask or has its prompt on the way. -/
def Punctual (s : Conversation) : Action → Prop
  | .daemon (.thread _ .drain) => answersIn s.daemon.requests = []
  | .popup (.tick _ keys) => s.popup.submits keys →
      (∀ t, ¬ s.daemon.Drained t) ∧ ((∃ t, s.daemon.Blocked t) → s.daemon.prompts = 0)
  | _ => True

/-- What is known about the answers on their way. -/
structure Tracked (s : Conversation) : Prop where
  consistent : s.daemon.Consistent
  onScreen : s.popup.OnScreen
  flight : s.origins.length = s.daemon.flight.length
  prompts : s.shown + s.daemon.prompts = s.askers.length
  drained : ∀ t, s.daemon.Drained t → s.origins = []
  blocked : ∀ t, s.daemon.Blocked t →
    (∀ origin ∈ s.origins, origin = s.askers.length) ∧ s.askers.getLast? = some t

theorem tracked_start (session : Session) : (start session).Tracked where
  consistent := Daemon.consistent_start session
  onScreen := Popup.onScreen_new
  flight := rfl
  prompts := rfl
  drained t _ := rfl
  blocked := by
    rintro t ⟨kind, ht⟩
    simp [start, Daemon.start] at ht

/-- A step outside `request_pin`. -/
theorem Tracked.aside {daemon : Daemon} (h : s.Tracked) (hconsistent : daemon.Consistent)
    (haside : s.daemon.Aside daemon) : Tracked { s with daemon } where
  consistent := hconsistent
  onScreen := h.onScreen
  flight := h.flight.trans (congrArg List.length haside.flight.symm)
  prompts := by
    show s.shown + daemon.prompts = s.askers.length
    rw [haside.prompts, h.prompts]
  drained t ht := h.drained t (haside.drained t ht)
  blocked t ht := h.blocked t (haside.blocked t ht)

/-! ## The steps of `request_pin` -/

theorem Tracked.drain {thread : Thread} {daemon : Daemon} (h : s.Tracked)
    (hguard : answersIn s.daemon.requests = []) (ht : s.daemon.threads[t]? = some thread)
    (hstep : s.daemon.threadStep P t thread .drain = some daemon)
    (hconsistent : daemon.Consistent) :
    (s.record daemon (.thread t .drain)).Tracked := by
  dsimp only [Daemon.threadStep] at hstep
  split at hstep
  · rename_i hphase
    cases hstep
    have hnone : s.origins.drop s.daemon.answers.length = [] := by
      rw [List.drop_eq_nil_iff, h.flight, Daemon.flight, hguard, List.append_nil]
    refine ⟨hconsistent, h.onScreen, ?_, h.prompts, fun _ _ => hnone, fun t' ht' => ?_⟩
    · show (s.origins.drop s.daemon.answers.length).length = _
      rw [hnone]
      exact (congrArg List.length hguard).symm
    · have hnot := h.consistent.not_blocked ht (by rw [hphase]; rfl) (by simp [hphase]) t'
      exact absurd (ht'.of_setPhase (s := s.daemon) rfl (by simp)) hnot
  · cases hstep

theorem Tracked.request {thread : Thread} {daemon : Daemon} (h : s.Tracked)
    (ht : s.daemon.threads[t]? = some thread)
    (hstep : s.daemon.threadStep P t thread .request = some daemon)
    (hconsistent : daemon.Consistent) : (s.record daemon (.thread t .request)).Tracked := by
  dsimp only [Daemon.threadStep] at hstep
  split at hstep
  · rename_i hphase
    cases hstep
    have hdrained : s.daemon.Drained t := by
      refine ⟨thread.kind, ?_⟩
      rw [ht, ← hphase]
    have hnone : s.origins = [] := h.drained t hdrained
    refine ⟨hconsistent, h.onScreen, h.flight, ?_, fun _ _ => hnone, fun t' ht' => ?_⟩
    · show s.shown + ((s.daemon.emit (.requestPin false)).setPhase t .blocked).prompts =
        (s.askers ++ [t]).length
      rw [Daemon.prompts_setPhase, Daemon.prompts_emit, List.length_append, ← h.prompts]
      rfl
    · refine ⟨fun origin horigin => ?_, ?_⟩
      · have hmem : origin ∈ s.origins := horigin
        simp [hnone] at hmem
      · obtain ⟨kind, ht'⟩ := ht'
        have hnot := h.consistent.not_blocked ht (by rw [hphase]; rfl) (by simp [hphase]) t'
        rcases Daemon.phase_of_setPhase (s := s.daemon) rfl ht' with ⟨rfl, _⟩ | hkept
        · exact List.getLast?_concat
        · exact absurd ⟨kind, hkept⟩ hnot
  · cases hstep

theorem Tracked.receive {thread : Thread} {daemon : Daemon} (h : s.Tracked)
    (hstep : s.daemon.threadStep P t thread .receive = some daemon)
    (hconsistent : daemon.Consistent) : (s.record daemon (.thread t .receive)).Tracked := by
  dsimp only [Daemon.threadStep] at hstep
  split at hstep
  · rename_i pin rest hphase hanswers
    cases hstep
    refine ⟨hconsistent, h.onScreen, ?_, h.prompts, fun t' ht' => ?_, fun t' ht' => ?_⟩
    · show s.origins.tail.length = (rest ++ answersIn s.daemon.requests).length
      rw [List.length_tail, h.flight, Daemon.flight, hanswers]
      rfl
    · show s.origins.tail = []
      rw [h.drained t' (ht'.of_setPhase (s := s.daemon) rfl (by simp))]
      rfl
    · obtain ⟨hall, hlast⟩ := h.blocked t' (ht'.of_setPhase (s := s.daemon) rfl (by simp))
      exact ⟨fun origin horigin => hall origin (List.mem_of_mem_tail horigin), hlast⟩
  · cases hstep

/-- What a blocked thread receives is the answer to its own prompt. -/
theorem Tracked.attributed {thread : Thread} {daemon : Daemon} (h : s.Tracked)
    (ht : s.daemon.threads[t]? = some thread)
    (hstep : s.daemon.threadStep P t thread .receive = some daemon) : s.Attributed t := by
  dsimp only [Daemon.threadStep] at hstep
  split at hstep
  · rename_i pin rest hphase hanswers
    have hblocked : s.daemon.Blocked t := by
      refine ⟨thread.kind, ?_⟩
      rw [ht, ← hphase]
    obtain ⟨hall, hlast⟩ := h.blocked t hblocked
    refine ⟨?_, hlast⟩
    cases horigins : s.origins with
    | nil =>
        have hlength := h.flight
        simp [horigins, Daemon.flight, hanswers] at hlength
    | cons origin origins =>
        rw [List.head?_cons, hall origin (by simp [horigins])]
  · cases hstep

/-! ## The steps of the popup -/

/-- No answer is sent, or one at a time when no call is about to ask or waits for a prompt
that is on its way. -/
theorem Tracked.adopt {popup : Popup} (h : s.Tracked) (hscreen : popup.OnScreen)
    (hsent : answersIn popup.requests = answersIn s.daemon.requests ∨
      (∃ answer, answersIn popup.requests = answersIn s.daemon.requests ++ [answer]) ∧
        (∀ t, ¬ s.daemon.Drained t) ∧ ((∃ t, s.daemon.Blocked t) → s.daemon.prompts = 0)) :
    (s.adopt popup).Tracked := by
  have hconsistent : (s.adopt popup).daemon.Consistent :=
    ⟨h.consistent.holder, h.consistent.inFlight, h.consistent.single, h.consistent.awaited⟩
  rcases hsent with hnone | ⟨⟨answer, hone⟩, hdrained, hblocked⟩
  · have horigins : (s.adopt popup).origins = s.origins := by simp [Conversation.adopt, hnone]
    refine ⟨hconsistent, hscreen, ?_, h.prompts, fun t ht => ?_, fun t ht => ?_⟩
    · rw [horigins, h.flight]
      simp [Conversation.adopt, Daemon.flight, hnone]
    · rw [horigins]
      exact h.drained t ht
    · rw [horigins]
      exact h.blocked t ht
  · have horigins : (s.adopt popup).origins = s.origins ++ [s.shown] := by
      simp [Conversation.adopt, hone]
    refine ⟨hconsistent, hscreen, ?_, h.prompts, fun t ht => absurd ht (hdrained t),
      fun t ht => ?_⟩
    · rw [horigins, List.length_append, h.flight]
      simp [Conversation.adopt, Daemon.flight, hone, Nat.add_assoc]
    · obtain ⟨hall, hlast⟩ := h.blocked t ht
      refine ⟨fun origin horigin => ?_, hlast⟩
      rw [horigins] at horigin
      rcases List.mem_append.mp horigin with hold | hnew
      · exact hall origin hold
      · -- The open prompt is the last one asked for, since none is on its way.
        have hshown : s.shown + 0 = s.askers.length := hblocked ⟨t, ht⟩ ▸ h.prompts
        rw [List.mem_singleton.mp hnew]
        exact hshown

/-- The popup has handled an event that was waiting. -/
theorem Tracked.handled {event : DaemonEvent} {events : List DaemonEvent} (h : s.Tracked)
    (hevents : s.daemon.events = event :: events) :
    Tracked { s with
      daemon := { s.daemon with events }
      shown := if event.asksPin then s.shown + 1 else s.shown } where
  consistent :=
    ⟨h.consistent.holder, h.consistent.inFlight, h.consistent.single, h.consistent.awaited⟩
  onScreen := h.onScreen
  flight := h.flight
  prompts := by
    have hprompts := h.prompts
    rw [Daemon.prompts, hevents, List.countP_cons] at hprompts
    show (if event.asksPin then s.shown + 1 else s.shown) + events.countP _ = s.askers.length
    rw [← hprompts]
    split <;> omega
  drained := h.drained
  blocked := h.blocked

theorem answers_of_event {p p' : Popup} {now : Instant} {event : DaemonEvent}
    (h : p.Effect (.event now event) p') : answersIn p'.requests = answersIn p.requests := by
  cases h with
  | kept hinput hquiet => exact hquiet.answers
  | dismissed hinput hclosed hdismissed => exact hdismissed.answers
  | asked hasks hvisible hsent => rw [hsent]
  | dropped hinput hother hdone hsent => exact hsent

/-! ## Runs -/

theorem Tracked.popupStep {input : Popup.Input} {popup : Popup} (h : s.Tracked)
    (hguard : s.Punctual (.popup input)) (hstep : s.front.Step S input popup) :
    (s.adopt popup).Tracked := by
  have hscreen : s.front.OnScreen := h.onScreen
  apply h.adopt (hscreen.step hstep)
  cases Popup.step_effect hscreen hstep with
  | kept hinput hquiet => exact .inl hquiet.answers
  | @answered moment keys answer _ hasks hdone hvisible hsent hkeys =>
      refine .inr ⟨⟨answer, ?_⟩, hguard hkeys⟩
      rw [hsent, answersIn_append]
      rfl
  | dismissed hinput hclosed hdismissed => exact .inl hdismissed.answers
  | asked hasks hvisible hsent => exact .inl (congrArg answersIn hsent)
  | dropped hinput hother hdone hsent => exact .inl hsent

theorem Tracked.daemonStep {action : Daemon.Action} {daemon : Daemon} (h : s.Tracked)
    (hguard : s.Punctual (.daemon action)) (hown : ∀ r, action ≠ .send r)
    (hhandle : action ≠ .handle) (hstep : s.daemon.Step P action daemon) :
    (s.record daemon action).Tracked := by
  have hconsistent := h.consistent.step hstep
  cases action with
  | send r => exact absurd rfl (hown r)
  | handle => exact absurd rfl hhandle
  | take arm => exact h.aside hconsistent (Daemon.aside_worker h.consistent rfl hstep)
  | work input => exact h.aside hconsistent (Daemon.aside_worker h.consistent rfl hstep)
  | thread t move =>
      obtain ⟨thread, ht, hmove⟩ := Option.bind_eq_some_iff.mp hstep
      cases move with
      | drain => exact h.drain hguard ht hmove hconsistent
      | request => exact h.request ht hmove hconsistent
      | receive => exact h.receive hmove hconsistent
      | _ => exact h.aside hconsistent (Daemon.aside_thread rfl hmove)

theorem Tracked.step {action : Action} (h : s.Tracked) (hguard : s.Punctual action)
    (hstep : Step P S s action s') : s'.Tracked := by
  cases action with
  | daemon action =>
      have hnext : ∃ daemon, s.daemon.Step P action daemon ∧ s.record daemon action = s' ∧
          (∀ r, action ≠ .send r) ∧ action ≠ .handle := by
        cases action with
        | send r => cases hstep
        | handle => cases hstep
        | _ =>
            obtain ⟨daemon, hdaemon, hrecord⟩ := Option.map_eq_some_iff.mp hstep
            exact ⟨daemon, hdaemon, hrecord, by simp, by simp⟩
      obtain ⟨daemon, hdaemon, rfl, hown, hhandle⟩ := hnext
      exact h.daemonStep hguard hown hhandle hdaemon
  | popup input =>
      have hnext : ∃ popup, s.front.Step S input popup ∧ s.adopt popup = s' := by
        cases input with
        | event now event => cases hstep
        | _ => exact Option.map_eq_some_iff.mp hstep
      obtain ⟨popup, hpopup, rfl⟩ := hnext
      exact h.popupStep hguard hpopup
  | deliver now =>
      dsimp only [Step, next] at hstep
      split at hstep
      · cases hstep
      · rename_i event events hevents
        cases hstep
        have hscreen : s.front.OnScreen := h.onScreen
        have hhandled : s.front.Step S (.event now event) (s.front.handleEvent S now event) := rfl
        have hadopted := h.adopt (hscreen.step hhandled)
          (.inl (answers_of_event (Popup.step_effect hscreen hhandled)))
        exact hadopted.handled hevents

/-- **PINs are not misattributed** in a run that is punctual: what a call of `request_pin`
receives is the answer to the prompt that the same call asked for. -/
theorem pin_answers_are_attributed (P : Primitives) (S : Searcher) (session : Session)
    (actions : List Action) (s s' : Conversation) (t : ℕ)
    (hrun : Run (guarded (Step P S) Punctual) (start session) actions s)
    (hstep : Step P S s (.daemon (.thread t .receive)) s') : s.Attributed t := by
  have htracked : s.Tracked := by
    apply hrun.invariant _ (tracked_start session)
    rintro u action u' _ hu ⟨hnext, hguard⟩
    exact hu.step hguard hnext
  obtain ⟨daemon, hdaemon, _⟩ := Option.map_eq_some_iff.mp hstep
  obtain ⟨thread, ht, hmove⟩ := Option.bind_eq_some_iff.mp hdaemon
  exact htracked.attributed ht hmove

/-- The shortcut is pressed, the unlock asks for the PIN, and the popup shows the prompt in
which the user types. -/
def typed : List Action :=
  Daemon.hotkeyPressed.map .daemon ++
    [.daemon (.thread 0 .acquire), .daemon (.thread 0 .drain), .daemon (.thread 0 .request),
      .deliver 1, .deliver 1, .deliver 1, .deliver 1,
      .popup (.draw .zero { Gestures.none with pin := some "1234" })]

/-- Enter is pressed in the prompt, and the worker takes the answer from the queue. -/
def submitted : List Action :=
  [.popup (.tick .zero { Keys.none with enter := true }),
    .daemon (.take (.request (.pinResponse (some "1234"))))]

/-- The call that asked receives what the user typed. -/
theorem a_pin_reaches_its_call :
    ∃ keys s s', Run (guarded (Step .reference .plain) Punctual)
        (start (Daemon.reopened keys (Block.replicate keyLen 1))) (typed ++ submitted) s ∧
      Step .reference .plain s (.daemon (.thread 0 .receive)) s' ∧ s.Attributed 0 := by
  obtain ⟨keys, _⟩ := Daemon.exists_reopened
  have hrun : ∃ s s', Run (guarded (Step .reference .plain) Punctual)
      (start (Daemon.reopened keys (Block.replicate keyLen 1))) (typed ++ submitted) s ∧
      Step .reference .plain s (.daemon (.thread 0 .receive)) s' := by
    refine ⟨_, _, .cons ⟨rfl, trivial⟩ (.cons ⟨rfl, trivial⟩ (.cons ⟨rfl, trivial⟩
      (.cons ⟨rfl, trivial⟩ (.cons ⟨rfl, trivial⟩ (.cons ⟨rfl, trivial⟩ (.cons ⟨rfl, rfl⟩
      (.cons ⟨rfl, trivial⟩ (.cons ⟨rfl, trivial⟩ (.cons ⟨rfl, trivial⟩ (.cons ⟨rfl, trivial⟩
      (.cons ⟨rfl, trivial⟩ (.cons ⟨rfl, trivial⟩ (.cons ⟨rfl, fun _ => ⟨?_, fun _ => rfl⟩⟩
      (.cons ⟨rfl, trivial⟩ (.nil _))))))))))))))), rfl⟩
    rintro t ⟨kind, ht⟩
    cases t with
    | zero => cases ht
    | succ t => cases ht
  obtain ⟨s, s', hrun, hstep⟩ := hrun
  exact ⟨keys, s, s', hrun, hstep,
    pin_answers_are_attributed .reference .plain _ _ s s' 0 hrun hstep⟩

/-- The call times out, and its unlock ends. The shortcut is pressed again, and the next
unlock asks. -/
def askedAgain : List Action :=
  [.daemon (.thread 0 .timeout),
    .daemon (.thread 0 (.finish (.atOnce 2) (.token [1] [2]))),
    .daemon (.thread 0 .endUnlock)] ++
  Daemon.hotkeyPressed.map .daemon ++
    [.daemon (.thread 1 .acquire), .daemon (.thread 1 .drain), .daemon (.thread 1 .request)]

/-- The first unlock has given up. -/
def gaveUp (s : Conversation) : Conversation :=
  let fault : Fault SessionError := .error (.provider .timeout)
  { s with daemon := { s.daemon with holder := none }.setPhase 0 (.returned (.error fault)) }

theorem step_gaveUp {keys : NewKeys}
    (hsession : s.daemon.session = Daemon.reopened keys (Block.replicate keyLen 1))
    (hthread : s.daemon.threads[0]? = some ⟨.startUnlock, .answered (.error .timeout)⟩) :
    Step .reference S s (.daemon (.thread 0 (.finish
      (.working 2 2 (Nat.le_refl 2) (Block.replicate 16 0)) (.token [1] [2])))) s.gaveUp := by
  have hrefused : (InnerKeyProvider.refusing .timeout).assertFirstAvailable
      (KeyRing.ofNewKeys keys).credentialIds (KeyRing.ofNewKeys keys).hmacSalt =
        .error (.error .timeout) := rfl
  have hunlock := KeyRing.unlock_of_refused
    (.working 2 2 (Nat.le_refl 2) (Block.replicate 16 0)) Primitives.reference_lawful
    (Daemon.reopened keys (Block.replicate keyLen 1)) (.of_newKeys keys .empty)
    (fun _ _ => rfl) hrefused
  have hnext : s.daemon.next .reference (.thread 0 (.finish
      (.working 2 2 (Nat.le_refl 2) (Block.replicate 16 0)) (.token [1] [2]))) =
      some s.gaveUp.daemon := by
    simp only [Daemon.next, hthread, Option.bind_eq_bind, Option.bind_some, Daemon.threadStep,
      Daemon.finishUnlock, hsession, hunlock, gaveUp]
  exact congrArg (Option.map fun daemon => s.record daemon _) hnext

/-- While the second unlock waits, the user submits the prompt of the first, which is still
on screen. The second unlock receives that PIN. -/
theorem a_pin_is_misattributed :
    ∃ keys s s', Run (Step .reference .plain)
        (start (Daemon.reopened keys (Block.replicate keyLen 1)))
        (typed ++ askedAgain ++ submitted) s ∧
      Step .reference .plain s (.daemon (.thread 1 .receive)) s' ∧
      s.askers = [0, 1] ∧ s.origins = [1] ∧ ¬ s.Attributed 1 := by
  obtain ⟨keys, _⟩ := Daemon.exists_reopened
  have hrun : ∃ s s', Run (Step .reference .plain)
      (start (Daemon.reopened keys (Block.replicate keyLen 1)))
      (typed ++ askedAgain ++ submitted) s ∧
      Step .reference .plain s (.daemon (.thread 1 .receive)) s' ∧
      s.askers = [0, 1] ∧ s.origins = [1] := by
    exact ⟨_, _, .cons rfl (.cons rfl (.cons rfl (.cons rfl (.cons rfl (.cons rfl (.cons rfl
      (.cons rfl (.cons rfl (.cons rfl (.cons rfl (.cons rfl (.cons rfl (.cons rfl
      (.cons (step_gaveUp rfl rfl) (.cons rfl (.cons rfl (.cons rfl (.cons rfl (.cons rfl
      (.cons rfl (.cons rfl (.cons rfl (.cons rfl (.cons rfl (.cons rfl
      (.nil _)))))))))))))))))))))))))), rfl, rfl, rfl⟩
  obtain ⟨s, s', hrun, hstep, haskers, horigins⟩ := hrun
  refine ⟨keys, s, s', hrun, hstep, haskers, horigins, ?_⟩
  rintro ⟨hhead, _⟩
  simp [haskers, horigins] at hhead

end Conversation

end Sypherstore
