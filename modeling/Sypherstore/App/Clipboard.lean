/-
# The clipboard fallback

`copy_via_clipboard` in `paste.rs` puts a secret on the clipboard and leaves a thread behind
that clears it after a delay. The documentation promises more, that what was there before is
saved and restored. Nothing saves it, and a thread clears whatever it finds when it wakes up:
what another application has copied since, or the secret of a later paste whose own delay has
not passed.
-/

import Sypherstore.Logic.Bytes
import Sypherstore.Logic.Stateful
import Sypherstore.Logic.Transition

namespace Sypherstore

open Logic

/-! ## The clipboard and its writers -/

/-- What is on the clipboard. A secret that the fallback put there stays until a moment,
and what another application put there has none. -/
structure Offer where
  bytes : Bytes
  keptUntil : Option ℕ

structure Clipboard where
  offer : Option Offer
  /-- From when on each thread that is still asleep may wake up, in the order of the pastes. -/
  timers : List ℕ
  now : ℕ
  /-- What was put there last by something other than the fallback. The code does not keep it. -/
  foreign : Option Bytes

namespace Clipboard

/-- The secret is on the clipboard, and a thread sleeps for the delay. -/
def hold (secret : Bytes) (clearAfter : ℕ) (s : Clipboard) : Clipboard :=
  { s with
    offer := some ⟨secret, some (s.now + clearAfter)⟩
    timers := s.timers ++ [s.now + clearAfter] }

/-- Copies a secret to the clipboard. What the clipboard says to it is `set`. -/
def copyViaClipboard (set : Except String Unit) (secret : Bytes) (clearAfter : ℕ) :
    Stateful Clipboard String Unit := do
  Stateful.lift ((Fallible.ofExcept set).mapError fun e => "could not set the clipboard: " ++ e)
  Stateful.modify (hold secret clearAfter)

/-- A thread wakes up. Clearing is best effort: a refusal is ignored. -/
def wake (i : ℕ) (cleared : Bool) (s : Clipboard) : Clipboard :=
  { s with
    offer := if cleared then none else s.offer
    timers := s.timers.eraseIdx i }

inductive Action where
  | wait (ms : ℕ)
  /-- Another application copies something, or leaves the clipboard empty. -/
  | put (content : Option Bytes)
  | paste (set : Except String Unit) (secret : Bytes) (clearAfter : ℕ)
  /-- The thread at this position wakes up, and its `clear` goes through or is refused. -/
  | wake (i : ℕ) (cleared : Bool)

def next (s : Clipboard) : Action → Option Clipboard
  | .wait ms => some { s with now := s.now + ms }
  | .put content => some { s with offer := content.map (⟨·, none⟩), foreign := content }
  | .paste set secret clearAfter => some (copyViaClipboard set secret clearAfter s).2
  | .wake i cleared =>
      -- A thread sleeps for its delay at least, and may be scheduled later.
      if s.timers[i]?.any (· ≤ s.now) then some (s.wake i cleared) else none

def Step (s : Clipboard) (a : Action) (s' : Clipboard) : Prop := s.next a = some s'

/-- The clipboard before the first paste. -/
def start (initial : Option Bytes) : Clipboard := ⟨initial.map (⟨·, none⟩), [], 0, initial⟩

def bytes (s : Clipboard) : Option Bytes := s.offer.map Offer.bytes

/-! ## What is promised -/

/-- The last content put there by something other than the fallback. -/
def lastForeign (initial : Option Bytes) (actions : List Action) : Option Bytes :=
  actions.foldl
    (fun kept a => match a with
      | .put content => content
      | _ => kept) initial

/-- Once all timers have fired, the clipboard holds what others left there. -/
def GivesBack (initial : Option Bytes) (actions : List Action) (s : Clipboard) : Prop :=
  s.timers = [] → s.bytes = lastForeign initial actions

/-- A secret is on the clipboard and its delay has not passed. -/
def HoldsRunning (s : Clipboard) : Prop :=
  ∃ offer due, s.offer = some offer ∧ offer.keptUntil = some due ∧ s.now < due

/-- While the delay of a secret is running, only another application empties the clipboard. -/
def Spares (s : Clipboard) (a : Action) (s' : Clipboard) : Prop :=
  s.HoldsRunning → (∀ content, a ≠ .put content) → s'.offer ≠ none

/-- The thread finds no secret whose delay is running, and the last of the threads finds the
clipboard such that clearing it, or leaving it, is right. -/
def Careful (s : Clipboard) : Action → Prop
  | .wake _ true => ¬ s.HoldsRunning ∧ (s.timers.length = 1 → s.foreign = none)
  | .wake _ false => s.timers.length = 1 → s.bytes = s.foreign
  | _ => True

variable {s s' : Clipboard} {a : Action} {actions : List Action} {initial : Option Bytes}

/-! ## What a step does -/

@[simp] theorem copyViaClipboard_ok (u : Unit) (secret : Bytes) (clearAfter : ℕ) (s : Clipboard) :
    (copyViaClipboard (.ok u) secret clearAfter s).2 = s.hold secret clearAfter := rfl

/-- A paste that the clipboard refuses leaves no thread behind. -/
@[simp] theorem copyViaClipboard_error (e : String) (secret : Bytes) (clearAfter : ℕ)
    (s : Clipboard) : (copyViaClipboard (.error e) secret clearAfter s).2 = s := rfl

/-- What leaves the clipboard as it is takes no secret away. -/
theorem spares_of_offer_eq (h : s'.offer = s.offer) : Spares s a s' := by
  rintro ⟨offer, _, hoffer, _⟩ _
  simp [h, hoffer]

/-- A thread that wakes up is one of those asleep, and its delay has passed. -/
theorem step_wake_iff {i : ℕ} {cleared : Bool} :
    Step s (.wake i cleared) s' ↔
      (∃ due, s.timers[i]? = some due ∧ due ≤ s.now) ∧ s' = s.wake i cleared := by
  simp only [Step, next]
  cases htimer : s.timers[i]? with
  | none => simp
  | some due => simp [eq_comm]

/-- After a thread has woken up none is left exactly when it was the only one. -/
theorem wake_timers_eq_nil_iff {i due : ℕ} {cleared : Bool} (h : s.timers[i]? = some due) :
    (s.wake i cleared).timers = [] ↔ s.timers.length = 1 := by
  obtain ⟨hi, _⟩ := List.getElem?_eq_some_iff.mp h
  have hlength : (s.timers.eraseIdx i).length = s.timers.length - 1 := List.length_eraseIdx_of_lt hi
  rw [wake, ← List.length_eq_zero_iff, hlength]
  omega

theorem lastForeign_append (initial : Option Bytes) (actions : List Action) (a : Action) :
    lastForeign initial (actions ++ [a]) = lastForeign (lastForeign initial actions) [a] := by
  simp [lastForeign]

theorem foreign_step (h : Step s a s') : s'.foreign = lastForeign s.foreign [a] := by
  cases a with
  | wait ms =>
      cases h
      rfl
  | put content =>
      cases h
      rfl
  | paste set secret clearAfter =>
      cases h
      cases set <;> rfl
  | wake i cleared =>
      obtain ⟨_, rfl⟩ := step_wake_iff.mp h
      rfl

/-- The model keeps the last content of the others. -/
theorem foreign_of_run (h : Run Step (start initial) actions s) :
    s.foreign = lastForeign initial actions := by
  refine h.history (R := fun past t => t.foreign = lastForeign initial past) ?_ rfl
  intro past t a t' hpast hstep
  rw [foreign_step hstep, hpast, ← lastForeign_append]

/-- A step from a clipboard that is given back keeps both promises exactly when it is careful. -/
theorem promises_step_iff (hs : s.timers = [] → s.bytes = s.foreign) (h : Step s a s') :
    ((s'.timers = [] → s'.bytes = s'.foreign) ∧ Spares s a s') ↔ Careful s a := by
  cases a with
  | wait ms =>
      cases h
      exact iff_of_true ⟨hs, spares_of_offer_eq rfl⟩ trivial
  | put content =>
      cases h
      refine iff_of_true ⟨fun _ => ?_, fun _ hother => absurd rfl (hother content)⟩ trivial
      cases content <;> rfl
  | paste set secret clearAfter =>
      cases h
      refine iff_of_true ?_ trivial
      cases set with
      | ok u => exact ⟨fun hnone => by simp [hold] at hnone, fun _ _ => by simp [hold]⟩
      | error e => exact ⟨hs, spares_of_offer_eq rfl⟩
  | wake i cleared =>
      obtain ⟨⟨due, htimer, _⟩, rfl⟩ := step_wake_iff.mp h
      rw [wake_timers_eq_nil_iff htimer]
      cases cleared with
      | true =>
          have hemptied : (s.wake i true).bytes = none := rfl
          have hforeign : (s.wake i true).foreign = s.foreign := rfl
          have hspares : Spares s (.wake i true) (s.wake i true) ↔ ¬ s.HoldsRunning :=
            ⟨fun hspares hrunning => hspares hrunning (by simp) rfl,
              fun hquiet hrunning => absurd hrunning hquiet⟩
          rw [hemptied, hforeign, hspares, Careful, and_comm, eq_comm (a := none)]
      | false => exact and_iff_left (spares_of_offer_eq rfl)

/-! ## Runs -/

theorem bytes_start (initial : Option Bytes) : (start initial).bytes = (start initial).foreign := by
  cases initial <;> rfl

/-- In a run of careful steps the clipboard is given back. -/
theorem bytes_eq_foreign_of_run (h : Run (guarded Step Careful) (start initial) actions s) :
    s.timers = [] → s.bytes = s.foreign := by
  refine h.invariant (I := fun t => t.timers = [] → t.bytes = t.foreign) ?_
    fun _ => bytes_start initial
  rintro t a t' _ ht ⟨hstep, hcareful⟩
  exact ((promises_step_iff ht hstep).mpr hcareful).1

theorem givesBack_iff (h : Run Step (start initial) actions s) :
    GivesBack initial actions s ↔ (s.timers = [] → s.bytes = s.foreign) := by
  rw [GivesBack, foreign_of_run h]

/-- Each step of a run of careful steps spares the secrets. -/
theorem spares_of_run (h : Run (guarded Step Careful) (start initial) actions s) :
    Run (fun t a t' => Step t a t' ∧ Spares t a t') (start initial) actions s := by
  refine h.mono_of_invariant (I := fun t => t.timers = [] → t.bytes = t.foreign) ?_
    fun _ => bytes_start initial
  rintro t a t' ht ⟨hstep, hcareful⟩
  obtain ⟨hback, hspares⟩ := (promises_step_iff ht hstep).mpr hcareful
  exact ⟨⟨hstep, hspares⟩, hback⟩

/-- **The clipboard is given back** in every run whose threads wake up carefully, and no secret
is cleared early in it. In such a run the next step breaks neither exactly when it is careful. -/
theorem clipboard_is_given_back (initial : Option Bytes) :
    ∀ actions s, Run (guarded Step Careful) (start initial) actions s →
      GivesBack initial actions s ∧
        Run (fun t a t' => Step t a t' ∧ Spares t a t') (start initial) actions s ∧
          ∀ a s', Step s a s' →
            ((GivesBack initial (actions ++ [a]) s' ∧ Spares s a s') ↔ Careful s a) := by
  intro actions s hrun
  have hsteps : Run Step (start initial) actions s := hrun.mono fun _ _ _ h => h.1
  have hback := bytes_eq_foreign_of_run hrun
  refine ⟨(givesBack_iff hsteps).mpr hback, spares_of_run hrun, fun a s' hstep => ?_⟩
  rw [givesBack_iff (hsteps.append (.single hstep))]
  exact promises_step_iff hback hstep

/-- A paste onto an empty clipboard, whose thread clears it again. -/
theorem an_empty_clipboard_is_given_back :
    ∃ s, Run (guarded Step Careful) (start none)
        [.paste (.ok ()) [115] 100, .wait 100, .wake 0 true] s ∧
      s.timers = [] ∧
      GivesBack none [.paste (.ok ()) [115] 100, .wait 100, .wake 0 true] s ∧ s.bytes = none := by
  have hcareful : ∃ s, Run (guarded Step Careful) (start none)
      [.paste (.ok ()) [115] 100, .wait 100, .wake 0 true] s ∧ s.timers = [] := by
    refine ⟨_, .cons ⟨rfl, trivial⟩ (.cons ⟨rfl, trivial⟩ (.cons ⟨rfl, ?_, fun _ => rfl⟩
      (.nil _))), rfl⟩
    rintro ⟨offer, due, hoffer, hdue, hrunning⟩
    cases hoffer
    cases hdue
    exact absurd hrunning (by decide)
  obtain ⟨s, hrun, htimers⟩ := hcareful
  have hback := (clipboard_is_given_back none _ _ hrun).1
  exact ⟨s, hrun, htimers, hback, hback htimers⟩

/-- What was on the clipboard before a paste is gone after it. And of two pastes the thread of
the first clears the secret of the second, which was to stay for as long again. -/
theorem a_paste_loses_the_clipboard :
    (∃ s, Run Step (start (some [111])) [.paste (.ok ()) [115] 100, .wait 100, .wake 0 true] s ∧
      s.timers = [] ∧ s.bytes = none ∧
      ¬ GivesBack (some [111]) [.paste (.ok ()) [115] 100, .wait 100, .wake 0 true] s) ∧
    ∃ s s', Run Step (start none) [.paste (.ok ()) [115] 100, .wait 90,
        .paste (.ok ()) [116] 100, .wait 10] s ∧
      Step s (.wake 0 true) s' ∧ s'.timers = [190] ∧ s'.now = 100 ∧
      ¬ Spares s (.wake 0 true) s' := by
  constructor
  · refine ⟨_, .cons rfl (.cons rfl (.cons rfl (.nil _))), rfl, rfl, fun hback => ?_⟩
    cases hback rfl
  · refine ⟨_, _, .cons rfl (.cons rfl (.cons rfl (.cons rfl (.nil _)))), rfl, rfl, rfl, ?_⟩
    intro hspares
    exact hspares ⟨_, 190, rfl, rfl, by decide⟩ (by simp) rfl

end Clipboard

end Sypherstore
