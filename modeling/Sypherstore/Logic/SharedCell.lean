/-
# A value that is read, worked on, and written back whole

Any number of processes share one cell. Each may read it, work on its own copy for
as long as it likes, and write the copy back. Nothing stops another process from
writing in between, and then the later write undoes the earlier one. The rules here
say that this is the only way for an update to be lost.
-/

import Mathlib.Logic.Function.Basic
import Mathlib.Order.Defs.PartialOrder
import Sypherstore.Logic.Transition

namespace Sypherstore.Logic

variable {ι V : Type}

/-- The shared value, and the copy each process works on. -/
structure SharedCell (ι V : Type) where
  value : V
  held : ι → Option V

namespace SharedCell

/-- What a process does to the cell. -/
inductive Access (ι V : Type) where
  /-- Take a copy. -/
  | read (i : ι)
  /-- Work on the copy, without the cell. -/
  | work (i : ι)
  /-- Give the copy up. -/
  | drop (i : ι)
  /-- Write the copy back. -/
  | write (i : ι) (v : V)

section Rules

variable [DecidableEq ι] [Preorder V]

/-- One access. What is written back is at least what was read: a process adds to
its copy and takes nothing away. -/
inductive Step : SharedCell ι V → Access ι V → SharedCell ι V → Prop
  | read (c : SharedCell ι V) (i : ι) :
      Step c (.read i) { c with held := Function.update c.held i (some c.value) }
  | work (c : SharedCell ι V) (i : ι) : Step c (.work i) c
  | drop (c : SharedCell ι V) (i : ι) :
      Step c (.drop i) { c with held := Function.update c.held i none }
  | write (c : SharedCell ι V) (i : ι) (copy v : V) (hheld : c.held i = some copy)
      (hadds : copy ≤ v) :
      Step c (.write i v) { value := v, held := Function.update c.held i none }

/-- The cell still holds what the writing process read. -/
def Undisturbed (c : SharedCell ι V) : Access ι V → Prop
  | .write i _ => ∀ copy, c.held i = some copy → c.value ≤ copy
  | _ => True

variable {c c' : SharedCell ι V} {a : Access ι V} {as : List (Access ι V)}

theorem Step.value_le (h : Step c a c') (hquiet : c.Undisturbed a) : c.value ≤ c'.value := by
  cases h with
  | read i => exact le_refl c.value
  | work i => exact le_refl c.value
  | drop i => exact le_refl c.value
  | write i copy v hheld hadds => exact le_trans (hquiet copy hheld) hadds

/-- Undisturbed writes only add to the cell. -/
theorem value_le_of_run (h : Run (guarded Step Undisturbed) c as c') : c.value ≤ c'.value := by
  refine h.invariant (I := fun d => c.value ≤ d.value) ?_ (le_refl c.value)
  intro d a d' _ hle hstep
  exact le_trans hle (hstep.1.value_le hstep.2)

/-- **No update is lost** while every write is undisturbed. -/
theorem write_le_of_run (h : Run (guarded Step Undisturbed) c as c') {i : ι} {v : V}
    (hwrite : .write i v ∈ as) : v ≤ c'.value := by
  obtain ⟨before, after, rfl⟩ := List.append_of_mem hwrite
  obtain ⟨mid, _, hrest⟩ := Run.append_iff.mp h
  cases hrest with
  | cons hstep hafter =>
      cases hstep.1 with
      | write _ copy _ hheld hadds => exact value_le_of_run hafter

end Rules

end SharedCell

end Sypherstore.Logic
