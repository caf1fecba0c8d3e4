/-
# A main file and a write-ahead log

A database is the transactions that have been committed to it, the older of them in the
main file and the others in the log. Committing appends to the log; folding moves the
oldest of the log to the main file, as many as it gets. Whoever reads the main file
alone sees what has been folded, and the rules here say when that is enough.
-/

import Mathlib.Data.List.Infix

namespace Sypherstore.Logic

variable {τ : Type}

structure WriteAhead (τ : Type) where
  main : List τ
  log : List τ

namespace WriteAhead

/-- Everything that has been committed, in order. -/
def committed (w : WriteAhead τ) : List τ := w.main ++ w.log

inductive Event (τ : Type) where
  | commit (t : τ)
  /-- At most this many transactions are moved to the main file. -/
  | fold (count : ℕ)

def next (w : WriteAhead τ) : Event τ → WriteAhead τ
  | .commit t => { w with log := w.log ++ [t] }
  | .fold count => { main := w.main ++ w.log.take count, log := w.log.drop count }

/-- The database after some events. -/
def run (w : WriteAhead τ) (events : List (Event τ)) : WriteAhead τ := events.foldl next w

/-- How many transactions the events move to the main file. -/
def moved (w : WriteAhead τ) : List (Event τ) → ℕ
  | [] => 0
  | .commit t :: events => (w.next (.commit t)).moved events
  | .fold count :: events => min count w.log.length + (w.next (.fold count)).moved events

theorem main_prefix_committed (w : WriteAhead τ) : w.main <+: w.committed :=
  List.prefix_append ..

/-- Nothing that has been committed is undone. -/
theorem committed_prefix_next (w : WriteAhead τ) (event : Event τ) :
    w.committed <+: (w.next event).committed := by
  cases event with
  | commit t =>
      refine ⟨[t], ?_⟩
      simp [committed, next]
  | fold count =>
      refine ⟨[], ?_⟩
      simp [committed, next]

theorem committed_prefix_run (w : WriteAhead τ) (events : List (Event τ)) :
    w.committed <+: (w.run events).committed := by
  induction events generalizing w with
  | nil => exact List.prefix_rfl
  | cons event events ih => exact (w.committed_prefix_next event).trans (ih (w.next event))

theorem length_main_run (w : WriteAhead τ) (events : List (Event τ)) :
    (w.run events).main.length = w.main.length + w.moved events := by
  induction events generalizing w with
  | nil => rfl
  | cons event events ih =>
      have hrun : w.run (event :: events) = (w.next event).run events := rfl
      rw [hrun, ih]
      cases event with
      | commit t => rfl
      | fold count =>
          simp only [moved, next, List.length_append, List.length_take]
          omega

/-- **When the main file is enough.** Everything that was committed before is in the main
file exactly when the whole log of that time has been moved to it. -/
theorem committed_prefix_main_run_iff (w : WriteAhead τ) (events : List (Event τ)) :
    w.committed <+: (w.run events).main ↔ w.log.length ≤ w.moved events := by
  have hlength := w.length_main_run events
  have hcommitted : w.committed.length = w.main.length + w.log.length := List.length_append
  constructor
  · intro hprefix
    have hle := hprefix.length_le
    omega
  · intro hmoved
    apply List.prefix_of_prefix_length_le (w.committed_prefix_run events)
      (w.run events).main_prefix_committed
    omega

end WriteAhead

end Sypherstore.Logic
