/-
# The protocol between the popup and the worker

The messages of the two threads of the daemon (`state.rs`), and the lock state as the
popup shows it.
-/

import Sypherstore.Core.Session

namespace Sypherstore

/-- The lock state as the UI needs to render it. From the vault's point of view an
assertion in progress is still locked. -/
inductive UiLockState where
  | locked
  | waitingForTouch
  | unlocked (remaining : ℕ)
  deriving DecidableEq, Repr

def UiLockState.isUnlocked : UiLockState → Bool
  | .unlocked _ => true
  | _ => false

/-- The state of the vault, translated for the UI. -/
def LockState.ui : LockState → UiLockState
  | .locked => .locked
  | .unlocked remaining => .unlocked remaining

@[simp] theorem LockState.isUnlocked_ui (state : LockState) :
    state.ui.isUnlocked = state.isUnlocked := by
  cases state <;> rfl

/-- Messages from the UI to the worker. -/
inductive UiRequest where
  | unlock
  | use (id : Uuid)
  | dismissed
  | touch
  | beginEdit (id : Uuid)
  | save (m : SecretMeta) (payload : SecretPayload) (isUpdate : Bool)
  | delete (id : Uuid)
  /-- The PIN the user typed, or nothing if they cancelled. -/
  | pinResponse (pin : Option String)
  deriving DecidableEq

/-- How an assertion that a handler waits for can fail. -/
inductive AssertError where
  /-- "the assertion task panicked" -/
  | panicked
  /-- "unlocking the vault" -/
  | unlocking (e : SessionError)

/-- What the popup is told when an operation failed. -/
inductive Notice where
  | session (e : SessionError)
  | assertion (e : AssertError)
  /-- "Delete cancelled: {0}" -/
  | deleteCancelled (e : AssertError)
  /-- The error of typing a secret. -/
  | delivery (e : String)

/-- Messages from the worker to the UI. -/
inductive DaemonEvent where
  | showPopup (secrets : List SecretMeta) (host application : Option String)
  | hide
  | lockChanged (state : UiLockState)
  | error (notice : Notice)
  | status (text : String)
  | editReady (m : SecretMeta) (payload : SecretPayload)
  | refresh (secrets : List SecretMeta)
  | requestPin (retry : Bool)

/-- The worker asks for a PIN. -/
def DaemonEvent.asksPin : DaemonEvent → Bool
  | .requestPin _ => true
  | _ => false

end Sypherstore
