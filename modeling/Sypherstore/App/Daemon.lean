/-
# The daemon

The worker, the popup's two queues, the session behind its mutex and the threads that
perform assertions, taking steps in any order (`daemon.rs`, `state.rs`, `pin.rs`).

The worker takes one branch of its `select!` at a time and runs the handler to its end.
A handler stops at every point where it waits: for the session mutex, for an assertion
thread, or for something outside the daemon. A critical section of the worker is one
step. That of an assertion thread is many: the thread holds the mutex from before the
PIN is asked for until the authenticator has answered.
-/

import Sypherstore.App.WorkerLoop

namespace Sypherstore

open Logic

/-! ## The state -/

/-- What an assertion thread was started for. -/
inductive ThreadKind where
  /-- `start_unlock`: nobody waits for it. -/
  | startUnlock
  /-- `reassert`: a handler waits for it. -/
  | reassert
  deriving DecidableEq, Repr

/-- Where an assertion thread is. -/
inductive Phase where
  /-- Before it has the session mutex. -/
  | waiting
  /-- Inside `Session::unlock`, before a PIN is asked for. -/
  | unlocking
  /-- `request_pin` has drained the answers. -/
  | drained
  /-- `request_pin` has asked the popup and waits for the answer. -/
  | blocked
  /-- `request_pin` is over, and the authenticator works. -/
  | answered (pin : Except ProviderError String)
  /-- The mutex is released. -/
  | returned (result : Fallible SessionError Unit)
  /-- `end_unlock` is done. -/
  | ended (result : Except SessionError Unit)
  /-- `ui_lock_state` has found no unlock in flight. -/
  | reading
  /-- The popup was told about the unlock. -/
  | announced
  | done

structure Thread where
  kind : ThreadKind
  phase : Phase

/-- Where `on_hotkey` is. -/
inductive HotkeyPoint where
  /-- Waiting for the context. -/
  | detecting
  | checking (host application : Option String)
  | listing (host application : Option String)
  /-- The popup is shown, and the lock state is read for it. -/
  | announcing (unlocked : Bool)
  | finishing (unlocked : Bool)

/-- Where the worker is. -/
inductive Worker where
  /-- In the `select!`. -/
  | idle
  | ticking
  | hotkey (point : HotkeyPoint)
  /-- At the start of the handler of a request. -/
  | handling (r : UiRequest)
  /-- In `reassert`, until this thread returns. -/
  | awaiting (r : UiRequest) (t : ℕ)
  /-- Past the unlock that the handler of the request needs. -/
  | authorized (r : UiRequest)
  | delivering
  | refreshing
  | stopping
  | stopped
  /-- A handler panicked. -/
  | died

structure Daemon where
  session : Session
  /-- The thread that holds the session mutex. -/
  holder : Option ℕ
  unlockInFlight : Bool
  threads : List Thread
  worker : Worker
  lastState : UiLockState
  /-- From the popup to the worker. -/
  requests : List UiRequest
  /-- From the daemon to the popup. -/
  events : List DaemonEvent
  /-- From the worker to `PinBroker`. -/
  answers : List (Option String)

/-- What a handler meets outside the daemon while it goes on. -/
structure WorkInput where
  call : Call
  /-- A second call in the same critical section. -/
  second : Call
  host : Option String
  application : Option String
  /-- The error of `deliver`, if it fails. -/
  deliveryError : Option String

/-- A step of an assertion thread. -/
inductive ThreadMove where
  | acquire
  | drain
  | request
  | receive
  | timeout
  /-- The rest of `Session::unlock`, with the authenticator as it behaves this time. -/
  | finish (call : Call) (inner : InnerKeyProvider)
  | endUnlock
  | announce
  | tick (call : Call)
  | refresh (call : Call)

/-- An authenticator that is not used, since `request_pin` failed. -/
def InnerKeyProvider.refusing (e : ProviderError) : InnerKeyProvider where
  provision := .error (.error e)
  provisionExcluding _ := .error (.error e)
  assertSecret _ _ := .error (.error e)
  assertFirstAvailable _ _ := .error (.error e)

namespace Daemon

inductive Action where
  /-- The popup sends a request. -/
  | send (r : UiRequest)
  /-- The popup handles the oldest event. -/
  | handle
  /-- The worker takes a branch. -/
  | take (arm : Arm)
  /-- The worker goes on with its handler. -/
  | work (input : WorkInput)
  | thread (t : ℕ) (move : ThreadMove)

/-- The daemon as it enters the loop. -/
def start (session : Session) : Daemon :=
  { session, holder := none, unlockInFlight := false, threads := [], worker := .idle,
    lastState := .locked, requests := [], events := [], answers := [] }

def emit (event : DaemonEvent) (s : Daemon) : Daemon := { s with events := s.events ++ [event] }

/-- The worker goes to another point. -/
def goto (worker : Worker) (s : Daemon) : Daemon := { s with worker }

def setPhase (t : ℕ) (phase : Phase) (s : Daemon) : Daemon :=
  { s with threads := s.threads.modify t fun thread => { thread with phase } }

/-- `spawn_blocking`. -/
def spawn (kind : ThreadKind) (s : Daemon) : Daemon :=
  { s with threads := s.threads ++ [{ kind, phase := .waiting }] }

/-! ## `Shared` -/

/-- Runs a call with the session locked, once the mutex is free. -/
def withSession {α : Type} (x : Stateful Session SessionError α) (s : Daemon) :
    Option (Fallible SessionError α × Daemon) :=
  match s.holder with
  | some _ => none
  | none => some ((x s.session).1, { s with session := (x s.session).2 })

/-- Ticks the session and translates its state for the UI. -/
def tickSession (call : Call) (s : Daemon) : Option (UiLockState × Daemon) :=
  match s.holder with
  | some _ => none
  | none =>
      some ((s.session.tick call.started).1.ui,
        { s with session := (s.session.tick call.started).2 })

/-- Current lock state, translated for the UI. While an unlock is in flight the session
is not looked at. -/
def uiLockState (call : Call) (s : Daemon) : Option (UiLockState × Daemon) :=
  if s.unlockInFlight then some (.waitingForTouch, s) else s.tickSession call

/-! ## The worker -/

/-- `start_unlock`. -/
def startUnlock (s : Daemon) : Daemon :=
  if s.unlockInFlight then s
  else ({ s with unlockInFlight := true }.emit (.lockChanged .waitingForTouch)).spawn .startUnlock

/-- `reassert`, up to the point where it waits. -/
def reassert (r : UiRequest) (s : Daemon) : Daemon :=
  (s.spawn .reassert).goto (.awaiting r s.threads.length)

/-- What the popup is told when the assertion for a request failed. -/
def assertNotice (r : UiRequest) (e : AssertError) : Notice :=
  match r with
  | .delete _ => .deleteCancelled e
  | _ => .assertion e

/-- The end of a critical section: a panic ends the worker. -/
def settle {α : Type} (result : Fallible SessionError α) (ok : α → Daemon → Daemon)
    (err : SessionError → Daemon → Daemon) (s : Daemon) : Daemon :=
  match result with
  | .ok a => ok a s
  | .error (.error e) => err e s
  | .error .panic => s.goto .died

/-- Tell the popup, and return to the `select!`. -/
def fail (notice : Notice) (s : Daemon) : Daemon := (s.emit (.error notice)).goto .idle

/-- The body of the tick branch, with the lock state it has read. -/
def ticked (state : UiLockState) (s : Daemon) : Daemon :=
  if state ≠ s.lastState ∨ state.isUnlocked then
    { s with lastState := state }.emit (.lockChanged state)
  else s

section Steps

variable (P : Primitives)

/-- `on_hotkey`, from one waiting point to the next. -/
def onHotkey (input : WorkInput) (s : Daemon) : HotkeyPoint → Option Daemon
  | .detecting => some (s.goto (.hotkey (.checking input.host input.application)))
  | .checking host application => do
      let (state, s) ← s.uiLockState input.call
      if state.isUnlocked then return s.goto (.hotkey (.listing host application))
      else
        return (s.emit (.showPopup [] host application)).goto (.hotkey (.announcing false))
  | .listing host application => do
      let (result, s) ← s.withSession (Session.list P input.call)
      let shown (secrets : List SecretMeta) (s : Daemon) : Daemon :=
        (s.emit (.showPopup secrets host application)).goto (.hotkey (.announcing true))
      return s.settle result shown fun _ => shown []
  | .announcing unlocked => do
      let (state, s) ← s.uiLockState input.call
      return (s.emit (.lockChanged state)).goto (.hotkey (.finishing unlocked))
  | .finishing false => some (s.startUnlock.goto .idle)
  | .finishing true => do
      let (_, s) ← s.withSession (Stateful.modify (Session.touch input.call.ended))
      return s.goto .idle

/-- The handler of a request up to its first waiting point. The other requests are done
when they are taken. -/
def onRequest (input : WorkInput) (s : Daemon) : UiRequest → Option Daemon
  | .touch => do
      let (_, s) ← s.withSession (Stateful.modify (Session.touch input.call.ended))
      return s.goto .idle
  | .use id => do
      let (result, s) ← s.withSession (Session.openSecret P input.call id)
      return s.settle result (fun _ s => (s.emit .hide).goto .delivering) fun e => fail (.session e)
  | .delete id => do
      let (_, s) ← s.withSession (Stateful.modify Session.lock)
      return s.reassert (.delete id)
  | .beginEdit id => do
      let (state, s) ← s.uiLockState input.call
      return if state.isUnlocked then s.goto (.authorized (.beginEdit id))
        else s.reassert (.beginEdit id)
  | .save m payload isUpdate => do
      let (state, s) ← s.uiLockState input.call
      return if state.isUnlocked then s.goto (.authorized (.save m payload isUpdate))
        else s.reassert (.save m payload isUpdate)
  | _ => none

/-- The assertion has returned to the handler that waits for it. -/
def resume (r : UiRequest) (result : Fallible SessionError Unit) (s : Daemon) : Daemon :=
  match result with
  | .ok _ => s.goto (.authorized r)
  | .error (.error e) => s.fail (assertNotice r (.unlocking e))
  | .error .panic => s.fail (assertNotice r .panicked)

/-- The handler of a request past its unlock. -/
def onAuthorized (input : WorkInput) (s : Daemon) : UiRequest → Option Daemon
  | .beginEdit id => do
      let (result, s) ← s.withSession do
        let m ← Session.metaFor P input.call id
        let payload ← Session.openSecret P input.second id
        return (m, payload)
      return s.settle result (fun found s => (s.emit (.editReady found.1 found.2)).goto .idle)
        fun e => fail (.session e)
  | .save m payload isUpdate => do
      let (result, s) ← s.withSession
        (if isUpdate then Session.update P input.call m payload
          else Session.add P input.call m payload)
      let text := if isUpdate then "Updated." else "Added."
      return s.settle result (fun _ s => (s.emit (.status text)).goto .refreshing)
        fun e => fail (.session e)
  | .delete id => do
      let (result, s) ← s.withSession (Session.delete P input.call id)
      return s.settle result (fun _ s => (s.emit (.status "Deleted.")).goto .refreshing)
        fun e => fail (.session e)
  | _ => none

/-- The worker goes on to its next waiting point. -/
def work (input : WorkInput) (s : Daemon) : Option Daemon :=
  match s.worker with
  | .idle | .stopped | .died => none
  | .ticking => do
      let (state, s) ← s.uiLockState input.call
      return (s.ticked state).goto .idle
  | .hotkey point => s.onHotkey P input point
  | .handling r => s.onRequest P input r
  | .awaiting r t =>
      match s.threads[t]? with
      | some { kind := .reassert, phase := .returned result } =>
          some ((s.setPhase t .done).resume r result)
      | _ => none
  | .authorized r => s.onAuthorized P input r
  | .delivering =>
      match input.deliveryError with
      | none => some ((s.emit (.status "Typed.")).goto .idle)
      | some e => some (s.fail (.delivery e))
  | .refreshing => do
      let (result, s) ← s.withSession (Session.list P input.call)
      return s.settle result (fun secrets s => (s.emit (.refresh secrets)).goto .idle)
        fun _ => goto .idle
  | .stopping => do
      let (_, s) ← s.withSession (Stateful.modify Session.lock)
      return s.goto .stopped

/-- The worker has taken a request from the queue. Three kinds of request wait for
nothing. -/
def accept (r : UiRequest) (s : Daemon) : Daemon :=
  match r with
  | .unlock => s.startUnlock
  | .pinResponse pin => { s with answers := s.answers ++ [pin] }
  | .dismissed => s
  | r => s.goto (.handling r)

/-- The worker takes a branch of its `select!`. The registration is over: the daemon
holds its shortcut, and that branch is disabled. -/
def take (arm : Arm) (s : Daemon) : Option Daemon :=
  match s.worker, arm with
  | .idle, .shutdown => some (s.goto .stopping)
  | .idle, .hotkey => some (s.goto (.hotkey .detecting))
  | .idle, .sigusr1 => some (s.goto (.hotkey .detecting))
  | .idle, .request r =>
      if s.requests.head? = some r then some ({ s with requests := s.requests.tail }.accept r)
      else none
  | .idle, .tick => some (s.goto .ticking)
  | _, _ => none

/-! ## The assertion threads -/

/-- The rest of `Session::unlock`, at whose end the mutex is released. -/
def finishUnlock (t : ℕ) (call : Call) (inner : InnerKeyProvider) (s : Daemon) : Daemon :=
  { s with session := (Session.unlock P call inner s.session).2, holder := none }.setPhase t
    (.returned (Session.unlock P call inner s.session).1)

/-- How `request_pin` ends when an answer arrives. -/
def pinResult : Option String → Except ProviderError String
  | some pin => .ok pin
  | none => .error .cancelled

/-- The end of the thread of `start_unlock`, told from what `list` returned. -/
def refreshed (result : Fallible SessionError (List SecretMeta)) (s : Daemon) : Daemon :=
  match result with
  | .ok secrets => (s.emit (.refresh secrets)).emit (.status "Unlocked.")
  | .error (.error _) => s.emit (.status "Unlocked.")
  | .error .panic => s

/-- A thread takes a step. A provider that needs no PIN finishes without asking for one;
a panic unwinds past `end_unlock`. -/
def threadStep (t : ℕ) (thread : Thread) (s : Daemon) : ThreadMove → Option Daemon
  | .acquire =>
      match thread.phase, s.holder with
      | .waiting, none => some ({ s with holder := some t }.setPhase t .unlocking)
      | _, _ => none
  | .drain =>
      match thread.phase with
      | .unlocking => some ({ s with answers := [] }.setPhase t .drained)
      | _ => none
  | .request =>
      match thread.phase with
      | .drained => some ((s.emit (.requestPin false)).setPhase t .blocked)
      | _ => none
  | .receive =>
      match thread.phase, s.answers with
      | .blocked, pin :: rest =>
          some ({ s with answers := rest }.setPhase t (.answered (pinResult pin)))
      | _, _ => none
  | .timeout =>
      match thread.phase with
      | .blocked => some (s.setPhase t (.answered (.error .timeout)))
      | _ => none
  | .finish call inner =>
      match thread.phase with
      | .unlocking => some (s.finishUnlock P t call inner)
      | .answered (.ok _) => some (s.finishUnlock P t call inner)
      | .answered (.error e) => some (s.finishUnlock P t call (.refusing e))
      | _ => none
  | .endUnlock =>
      match thread.kind, thread.phase with
      | .startUnlock, .returned (.ok _) =>
          some ({ s with unlockInFlight := false }.setPhase t (.ended (.ok ())))
      | .startUnlock, .returned (.error (.error e)) =>
          some ({ s with unlockInFlight := false }.setPhase t (.ended (.error e)))
      | .startUnlock, .returned (.error .panic) => some (s.setPhase t .done)
      | _, _ => none
  | .announce =>
      match thread.phase with
      | .ended (.ok _) =>
          if s.unlockInFlight then
            some ((s.emit (.lockChanged .waitingForTouch)).setPhase t .announced)
          else some (s.setPhase t .reading)
      | .ended (.error e) =>
          some (((s.emit (.lockChanged .locked)).emit (.error (.session e))).setPhase t .done)
      | _ => none
  | .tick call =>
      match thread.phase with
      | .reading => do
          let (state, s) ← s.tickSession call
          return (s.emit (.lockChanged state)).setPhase t .announced
      | _ => none
  | .refresh call =>
      match thread.phase with
      | .announced => do
          let (result, s) ← s.withSession (Session.list P call)
          return (s.refreshed result).setPhase t .done
      | _ => none

/-! ## The system -/

def next (s : Daemon) : Action → Option Daemon
  | .send r => some { s with requests := s.requests ++ [r] }
  | .handle =>
      match s.events with
      | [] => none
      | _ :: rest => some { s with events := rest }
  | .take arm => s.take arm
  | .work input => s.work P input
  | .thread t move => do
      let thread ← s.threads[t]?
      s.threadStep P t thread move

def Step (s : Daemon) (a : Action) (s' : Daemon) : Prop := s.next P a = some s'

end Steps

end Daemon

end Sypherstore
