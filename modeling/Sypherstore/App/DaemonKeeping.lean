/-
# What the daemon keeps

A property of the session and of the events told to the popup survives every step of the
worker and of the threads, if the calls of the session and the events keep it. The handlers
are walked through once for this, so that what they may do to the store or to the prompts
needs no other walk.
-/

import Sypherstore.App.DaemonSteps
import Sypherstore.Core.SessionSteps

namespace Sypherstore

open Logic

namespace Daemon

variable {P : Primitives} {s s' : Daemon} {I : Session → List DaemonEvent → Prop}
  {deletes : Prop}

/-- A property of the session and of the events that wait for the popup. -/
def Meets (I : Session → List DaemonEvent → Prop) (s : Daemon) : Prop := I s.session s.events

/-- The calls of the session keep the property, deletions only if they are among them, and so
does every event but a question for a PIN. -/
structure Kept (P : Primitives) (deletes : Prop) (I : Session → List DaemonEvent → Prop) :
    Prop where
  told : ∀ {session events} (event : DaemonEvent), event.asksPin = false → I session events →
    I session (events ++ [event])
  called : ∀ (op : Op) (call : Call) (events : List DaemonEvent),
    (∀ id, op = .delete id → deletes) →
      Stateful.Keeps (fun session => I session events) (Session.perform P call op)

theorem Kept.call (hI : Kept P deletes I) {α : Type} {x : Stateful Session SessionError α}
    {f : α → Reply} {events : List DaemonEvent} (call : Call) (op : Op)
    (hop : ∀ id, op = .delete id → deletes)
    (hperform : Session.perform P call op = (x >>= fun a => pure (f a))) :
    Stateful.Keeps (fun session => I session events) x :=
  Session.keeps_of_perform hperform (hI.called op call events hop)

theorem Meets.emit (hI : Kept P deletes I) {event : DaemonEvent} (hevent : event.asksPin = false)
    (hs : s.Meets I) : (s.emit event).Meets I := hI.told event hevent hs

theorem Meets.fail (hI : Kept P deletes I) (hs : s.Meets I) (notice : Notice) :
    (s.fail notice).Meets I := hI.told _ rfl hs

theorem Meets.withSession {α : Type} {x : Stateful Session SessionError α}
    {found : Fallible SessionError α × Daemon} (hs : s.Meets I) (h : s.withSession x = some found)
    (hx : Stateful.Keeps (fun session => I session s.events) x) : found.2.Meets I := by
  obtain ⟨_, rfl⟩ := (withSession_eq_some_iff ..).mp h
  exact hx _ hs

theorem Meets.tickSession (hI : Kept P deletes I) {call : Call} {found : UiLockState × Daemon}
    (hs : s.Meets I) (h : s.tickSession call = some found) : found.2.Meets I := by
  unfold Daemon.tickSession at h
  split at h
  · cases h
  · cases h
    exact hI.called .tick call s.events nofun _ hs

theorem Meets.uiLockState (hI : Kept P deletes I) {call : Call} {found : UiLockState × Daemon}
    (hs : s.Meets I) (h : s.uiLockState call = some found) : found.2.Meets I := by
  unfold Daemon.uiLockState at h
  split at h
  · cases h
    exact hs
  · exact hs.tickSession hI h

/-- The end of a critical section: a panic only ends the worker. -/
theorem Meets.settle {α : Type} {result : Fallible SessionError α} {ok : α → Daemon → Daemon}
    {err : SessionError → Daemon → Daemon} (hs : s.Meets I) (hok : ∀ a, (ok a s).Meets I)
    (herr : ∀ e, (err e s).Meets I) : (s.settle result ok err).Meets I := by
  rcases result with (e | _) | a
  · exact herr e
  · exact hs
  · exact hok a

theorem Meets.startUnlock (hI : Kept P deletes I) (hs : s.Meets I) : s.startUnlock.Meets I := by
  unfold Daemon.startUnlock
  split
  · exact hs
  · exact hI.told _ rfl hs

theorem Meets.accept (hI : Kept P deletes I) (hs : s.Meets I) (r : UiRequest) :
    (s.accept r).Meets I := by
  cases r with
  | unlock => exact hs.startUnlock hI
  | _ => exact hs

theorem Meets.onHotkey (hI : Kept P deletes I) {input : WorkInput} {point : HotkeyPoint}
    (hs : s.Meets I) (h : s.onHotkey P input point = some s') : s'.Meets I := by
  cases point with
  | detecting =>
      cases h
      exact hs
  | checking host application =>
      obtain ⟨found, hlook, h⟩ := Option.bind_eq_some_iff.mp h
      have hmid := hs.uiLockState hI hlook
      dsimp only at h
      split at h
      · cases h
        exact hmid
      · cases h
        exact hmid.emit hI rfl
  | listing host application =>
      obtain ⟨found, hrun, h⟩ := Option.bind_eq_some_iff.mp h
      have hmid := hs.withSession hrun (hI.call input.call .list nofun rfl)
      cases h
      exact hmid.settle (fun _ => hmid.emit hI rfl) fun _ => hmid.emit hI rfl
  | announcing unlocked =>
      obtain ⟨found, hlook, h⟩ := Option.bind_eq_some_iff.mp h
      have hmid := hs.uiLockState hI hlook
      cases h
      exact hmid.emit hI rfl
  | finishing unlocked =>
      cases unlocked with
      | false =>
          cases h
          exact hs.startUnlock hI
      | true =>
          obtain ⟨found, hrun, h⟩ := Option.bind_eq_some_iff.mp h
          have hmid := hs.withSession hrun (hI.call input.call .touch nofun rfl)
          cases h
          exact hmid

theorem Meets.onRequest (hI : Kept P deletes I) {input : WorkInput} {r : UiRequest}
    (hs : s.Meets I) (h : s.onRequest P input r = some s') : s'.Meets I := by
  have hbegin : ∀ {r' : UiRequest}, ((s.uiLockState input.call).bind fun found =>
      some (if found.1.isUnlocked then found.2.goto (.authorized r')
        else found.2.reassert r')) = some s' → s'.Meets I := by
    intro r' h
    obtain ⟨found, hlook, h⟩ := Option.bind_eq_some_iff.mp h
    have hmid := hs.uiLockState hI hlook
    split at h
    · cases h
      exact hmid
    · cases h
      exact hmid
  cases r with
  | touch =>
      obtain ⟨found, hrun, h⟩ := Option.bind_eq_some_iff.mp h
      have hmid := hs.withSession hrun (hI.call input.call .touch nofun rfl)
      cases h
      exact hmid
  | use id =>
      obtain ⟨found, hrun, h⟩ := Option.bind_eq_some_iff.mp h
      have hmid := hs.withSession hrun (hI.call input.call (.openSecret id) nofun rfl)
      cases h
      exact hmid.settle (fun _ => hmid.emit hI rfl) fun _ => hmid.fail hI _
  | delete id =>
      obtain ⟨found, hrun, h⟩ := Option.bind_eq_some_iff.mp h
      have hmid := hs.withSession hrun (hI.call input.call .lock nofun rfl)
      cases h
      exact hmid
  | beginEdit id => exact hbegin h
  | save m payload isUpdate => exact hbegin h
  | _ => cases h

theorem Meets.onAuthorized (hI : Kept P deletes I) {input : WorkInput} {r : UiRequest}
    (hdeletes : ∀ id, r = .delete id → deletes) (hs : s.Meets I)
    (h : s.onAuthorized P input r = some s') : s'.Meets I := by
  cases r with
  | beginEdit id =>
      obtain ⟨found, hrun, h⟩ := Option.bind_eq_some_iff.mp h
      have hmid := hs.withSession hrun <|
        (hI.call input.call (.metaFor id) nofun rfl).bind fun _ =>
          (hI.call input.second (.openSecret id) nofun rfl).bind fun _ => .pure _
      cases h
      exact hmid.settle (fun _ => hmid.emit hI rfl) fun _ => hmid.fail hI _
  | save m payload isUpdate =>
      obtain ⟨found, hrun, h⟩ := Option.bind_eq_some_iff.mp h
      have hmid : found.2.Meets I := by
        apply hs.withSession hrun
        split
        · exact hI.call input.call (.update m payload) nofun rfl
        · exact hI.call input.call (.add m payload) nofun rfl
      cases h
      exact hmid.settle (fun _ => hmid.emit hI rfl) fun _ => hmid.fail hI _
  | delete id =>
      obtain ⟨found, hrun, h⟩ := Option.bind_eq_some_iff.mp h
      have hmid := hs.withSession hrun
        (hI.call input.call (.delete id) (fun _ _ => hdeletes id rfl) rfl)
      cases h
      exact hmid.settle (fun _ => hmid.emit hI rfl) fun _ => hmid.fail hI _
  | _ => cases h

/-- **What the worker keeps.** A step of it keeps what the calls and the events keep. The only
deletion is that of a handler that is past its unlock. -/
theorem Meets.work (hI : Kept P deletes I) {input : WorkInput}
    (hdeletes : ∀ id, s.worker = .authorized (.delete id) → deletes) (hs : s.Meets I)
    (h : s.work P input = some s') : s'.Meets I := by
  unfold Daemon.work at h
  split at h
  · cases h
  · cases h
  · cases h
  · obtain ⟨found, hlook, h⟩ := Option.bind_eq_some_iff.mp h
    have hmid := hs.uiLockState hI hlook
    cases h
    unfold ticked
    split
    · exact hI.told _ rfl hmid
    · exact hmid
  · exact hs.onHotkey hI h
  · exact hs.onRequest hI h
  · split at h
    · cases h
      rename_i result _
      rcases result with (e | _) | _
      · exact hI.told _ rfl hs
      · exact hI.told _ rfl hs
      · exact hs
    · cases h
  · rename_i r hat
    exact hs.onAuthorized hI (fun id hr => hdeletes id (hr ▸ hat)) h
  · split at h
    · cases h
      exact hs.emit hI rfl
    · cases h
      exact hs.fail hI _
  · obtain ⟨found, hrun, h⟩ := Option.bind_eq_some_iff.mp h
    have hmid := hs.withSession hrun (hI.call input.call .list nofun rfl)
    cases h
    exact hmid.settle (fun _ => hmid.emit hI rfl) fun _ => hmid
  · obtain ⟨found, hrun, h⟩ := Option.bind_eq_some_iff.mp h
    have hmid := hs.withSession hrun (hI.call input.call .lock nofun rfl)
    cases h
    exact hmid

/-- **What the threads keep.** A thread deletes nothing, and it tells the popup nothing that
breaks the property unless it asks for a PIN. -/
theorem Meets.threadStep (hI : Kept P deletes I) {t : ℕ} {thread : Thread} {move : ThreadMove}
    (hmove : move ≠ .request) (hs : s.Meets I) (h : s.threadStep P t thread move = some s') :
    s'.Meets I := by
  have hfinish : ∀ call inner, (s.finishUnlock P t call inner).Meets I := by
    intro call inner
    have hcall : Stateful.Keeps (fun session => I session s.events) (Session.unlock P call inner) :=
      hI.call call (.unlock inner) nofun rfl
    exact hcall _ hs
  cases move with
  | request => exact absurd rfl hmove
  | finish call inner =>
      dsimp only [Daemon.threadStep] at h
      split at h
      · cases h
        exact hfinish call inner
      · cases h
        exact hfinish call inner
      · cases h
        exact hfinish call _
      · cases h
  | announce =>
      dsimp only [Daemon.threadStep] at h
      split at h
      · split at h
        · cases h
          exact hs.emit hI rfl
        · cases h
          exact hs
      · cases h
        exact (hs.emit hI rfl).emit hI rfl
      · cases h
  | tick call =>
      dsimp only [Daemon.threadStep] at h
      split at h
      · obtain ⟨found, htick, h⟩ := Option.bind_eq_some_iff.mp h
        have hmid := hs.tickSession hI htick
        cases h
        exact hmid.emit hI rfl
      · cases h
  | refresh call =>
      dsimp only [Daemon.threadStep] at h
      split at h
      · obtain ⟨found, hrun, h⟩ := Option.bind_eq_some_iff.mp h
        have hmid := hs.withSession hrun (hI.call call .list nofun rfl)
        cases h
        unfold refreshed
        split
        · exact (hmid.emit hI rfl).emit hI rfl
        · exact hmid.emit hI rfl
        · exact hmid
      · cases h
  | _ =>
      dsimp only [Daemon.threadStep] at h
      split at h <;> cases h <;> exact hs

end Daemon

end Sypherstore
