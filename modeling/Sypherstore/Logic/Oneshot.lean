/-
# A channel for one value

The sender sends one value, or is dropped; the receiver is polled until it has what
became of the sender. Polling it once more is a panic.
-/

import Mathlib.Data.List.Basic

namespace Sypherstore.Logic

variable {α : Type}

/-- The receiver of a oneshot channel. -/
inductive Oneshot (α : Type) where
  | pending
  /-- The sender is done: a value, or nothing if it was dropped. -/
  | sent (value : Option α)
  /-- The receiver has been told. -/
  | taken
  deriving DecidableEq

/-- What one poll of a receiver brings. -/
inductive Polled (α : Type) where
  | pending
  | ready (value : Option α)
  | panicked
  deriving DecidableEq

namespace Oneshot

def poll : Oneshot α → Polled α
  | .pending => .pending
  | .sent value => .ready value
  | .taken => .panicked

/-- Send a value, or drop the sender. There is only one sender, and it is gone then. -/
def send (value : Option α) : Oneshot α → Option (Oneshot α)
  | .pending => some (.sent value)
  | _ => none

@[simp] theorem poll_eq_panicked_iff (rx : Oneshot α) : rx.poll = .panicked ↔ rx = .taken := by
  cases rx <;> simp [poll]

theorem send_eq_some_iff (value : Option α) (rx rx' : Oneshot α) :
    rx.send value = some rx' ↔ rx = .pending ∧ rx' = .sent value := by
  cases rx <;> simp [send, eq_comm]

end Oneshot

end Sypherstore.Logic
