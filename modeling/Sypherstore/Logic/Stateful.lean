/-
# Fallible computations over a state

A call into a running program can return a value, return an error, or panic,
and in all three cases it may already have changed the state it works on. A
computation here is therefore a function from a state to an outcome *and* the
state left behind: an error does not roll anything back. Anything that is undone
on failure has to be undone by the code, and is proved rather than assumed.

The module fixes the equations every later proof computes with, and two rules:
a successful sequence splits into successful steps, and a property that each
step keeps is kept by the sequence, whether or not it succeeds.
-/

import Mathlib.Data.List.Basic
import Mathlib.Data.List.Forall2

namespace Sypherstore.Logic

/-- The two ways a call can fail to return a value. -/
inductive Fault (ε : Type) where
  /-- An error value, which the caller can inspect. -/
  | error (e : ε)
  /-- An unwinding panic. -/
  | panic
  deriving DecidableEq, Repr

/-- A call that reads no state and changes none. -/
abbrev Fallible (ε α : Type) : Type := Except (Fault ε) α

/-- A call that may change a state of type `σ` even when it fails. -/
def Stateful (σ ε α : Type) : Type := σ → Fallible ε α × σ

namespace Fallible

variable {ε ε' α β : Type}

/-- Return an error value. -/
def raise (e : ε) : Fallible ε α := .error (.error e)

/-- Unwind. -/
def panic : Fallible ε α := .error .panic

/-- Convert the error value, as `map_err` and the `?` operator do. A panic is
not an error value and passes through. -/
def mapError (f : ε → ε') : Fallible ε α → Fallible ε' α
  | .ok a => .ok a
  | .error (.error e) => .error (.error (f e))
  | .error .panic => .error .panic

/-- Read an ordinary result as a call that cannot panic. -/
def ofExcept : Except ε α → Fallible ε α
  | .ok a => .ok a
  | .error e => .error (.error e)

/-- Fail with `e` when there is no value, as `ok_or` does. -/
def ofOption (e : ε) : Option α → Fallible ε α
  | some a => .ok a
  | none => .error (.error e)

@[simp] theorem mapError_ok (f : ε → ε') (a : α) :
    mapError f (.ok a : Fallible ε α) = .ok a := rfl

@[simp] theorem mapError_error (f : ε → ε') (e : ε) :
    mapError f (.error (.error e) : Fallible ε α) = .error (.error (f e)) := rfl

@[simp] theorem mapError_eq_ok_iff (f : ε → ε') (x : Fallible ε α) (a : α) :
    mapError f x = .ok a ↔ x = .ok a := by
  cases x with
  | ok b => simp
  | error fault => cases fault <;> simp [mapError]

@[simp] theorem ofExcept_ok (a : α) : ofExcept (.ok a : Except ε α) = .ok a := rfl

@[simp] theorem ofExcept_error (e : ε) :
    ofExcept (.error e : Except ε α) = .error (.error e) := rfl

@[simp] theorem ofExcept_eq_ok_iff (x : Except ε α) (a : α) :
    ofExcept x = .ok a ↔ x = .ok a := by
  cases x <;> simp

@[simp] theorem ofOption_some (e : ε) (a : α) : ofOption e (some a) = .ok a := rfl

@[simp] theorem ofOption_none (e : ε) :
    ofOption e (none : Option α) = .error (.error e) := rfl

@[simp] theorem ofOption_eq_ok_iff (e : ε) (x : Option α) (a : α) :
    ofOption e x = .ok a ↔ x = some a := by
  cases x <;> simp

/-- A successful sequence of two calls splits at the value in between. -/
theorem bind_eq_ok_iff (x : Except ε α) (f : α → Except ε β) (b : β) :
    (x >>= f) = .ok b ↔ ∃ a, x = .ok a ∧ f a = .ok b := by
  cases x with
  | ok a => simp [bind, Except.bind]
  | error e => simp [bind, Except.bind]

theorem bind_eq_error_iff (x : Fallible ε α) (f : α → Fallible ε β) (e : Fault ε) :
    (x >>= f) = .error e ↔ x = .error e ∨ ∃ a, x = .ok a ∧ f a = .error e := by
  cases x with
  | ok a => simp [bind, Except.bind]
  | error e => simp [bind, Except.bind]

theorem mapError_eq_error_iff (f : ε → ε') (x : Fallible ε α) (e : ε') :
    x.mapError f = .error (.error e) ↔ ∃ e', x = .error (.error e') ∧ f e' = e := by
  rcases x with (e' | _) | a <;> simp [mapError]

@[simp] theorem ok_bind (a : α) (f : α → Fallible ε β) :
    ((.ok a : Fallible ε α) >>= f) = f a := rfl

@[simp] theorem error_bind (e : Fault ε) (f : α → Fallible ε β) :
    ((.error e : Fallible ε α) >>= f) = .error e := rfl

/-- A traversal whose every element succeeds collects the values in order. -/
theorem mapM_eq_ok_map {f : α → Fallible ε β} {g : α → β} {xs : List α}
    (h : ∀ x ∈ xs, f x = .ok (g x)) : xs.mapM f = .ok (xs.map g) := by
  induction xs with
  | nil => rfl
  | cons x xs ih =>
      have htail := ih fun y hy => h y (List.mem_cons_of_mem _ hy)
      rw [List.mapM_cons, h x List.mem_cons_self, ok_bind, htail]
      rfl

/-- Everything a successful traversal collected came from one of the elements. -/
theorem exists_of_mem_mapM {f : α → Fallible ε β} {xs : List α} {ys : List β} {y : β}
    (h : xs.mapM f = .ok ys) (hy : y ∈ ys) : ∃ x ∈ xs, f x = .ok y := by
  induction xs generalizing ys with
  | nil =>
      cases h
      cases hy
  | cons x xs ih =>
      rw [List.mapM_cons, bind_eq_ok_iff] at h
      obtain ⟨head, hhead, hrest⟩ := h
      obtain ⟨tail, htail, hcons⟩ := (bind_eq_ok_iff _ _ _).mp hrest
      cases hcons
      rcases List.mem_cons.mp hy with rfl | hy
      · exact ⟨x, List.mem_cons_self, hhead⟩
      · obtain ⟨x', hx', hfx'⟩ := ih htail hy
        exact ⟨x', List.mem_cons_of_mem _ hx', hfx'⟩

/-- A traversal succeeds where every element does. -/
theorem exists_mapM_eq_ok {f : α → Fallible ε β} {xs : List α} (h : ∀ x ∈ xs, ∃ y, f x = .ok y) :
    ∃ ys, xs.mapM f = .ok ys := by
  induction xs with
  | nil => exact ⟨[], rfl⟩
  | cons x xs ih =>
      obtain ⟨y, hy⟩ := h x List.mem_cons_self
      obtain ⟨ys, hys⟩ := ih fun z hz => h z (List.mem_cons_of_mem _ hz)
      exact ⟨y :: ys, by rw [List.mapM_cons, hy, ok_bind, hys]; rfl⟩

/-- What a successful traversal collected, element by element. -/
theorem mapM_eq_ok_iff {f : α → Fallible ε β} {xs : List α} {ys : List β} :
    xs.mapM f = .ok ys ↔ List.Forall₂ (fun x y => f x = .ok y) xs ys := by
  induction xs generalizing ys with
  | nil =>
      rw [List.mapM_nil, List.forall₂_nil_left_iff]
      exact ⟨fun h => (Except.ok.inj h).symm, fun h => congrArg Except.ok h.symm⟩
  | cons x xs ih =>
      rw [List.mapM_cons, bind_eq_ok_iff, List.forall₂_cons_left_iff]
      constructor
      · rintro ⟨y, hy, hrest⟩
        obtain ⟨ys, hys, hcons⟩ := (bind_eq_ok_iff _ _ _).mp hrest
        exact ⟨y, ys, hy, ih.mp hys, (Except.ok.inj hcons).symm⟩
      · rintro ⟨y, ys, hy, hys, rfl⟩
        exact ⟨y, hy, (bind_eq_ok_iff _ _ _).mpr ⟨ys, ih.mpr hys, rfl⟩⟩

/-- A successful traversal has collected something for each element. -/
theorem exists_mem_of_mapM {f : α → Fallible ε β} {xs : List α} {ys : List β} {x : α}
    (h : xs.mapM f = .ok ys) (hx : x ∈ xs) : ∃ y ∈ ys, f x = .ok y := by
  rw [mapM_eq_ok_iff] at h
  induction h with
  | nil => cases hx
  | cons hy _ ih =>
      rcases List.mem_cons.mp hx with rfl | hx
      · exact ⟨_, List.mem_cons_self, hy⟩
      · obtain ⟨y, hmem, hfx⟩ := ih hx
        exact ⟨y, List.mem_cons_of_mem _ hmem, hfx⟩

/-! ### Calls that do not panic -/

/-- The call returns a value or an error. -/
def Reports (x : Fallible ε α) : Prop := x ≠ panic

theorem Reports.ok (a : α) : Reports (.ok a : Fallible ε α) := fun h => nomatch h

theorem Reports.raise (e : ε) : Reports (raise e : Fallible ε α) := fun h => nomatch h

theorem Reports.ofOption (e : ε) (x : Option α) : Reports (ofOption e x) := by
  cases x with
  | none => exact .raise e
  | some a => exact .ok a

theorem Reports.ofExcept (x : Except ε α) : Reports (ofExcept x) := by
  cases x with
  | error e => exact .raise e
  | ok a => exact .ok a

/-- Converting the error hides no panic and adds none. -/
theorem reports_mapError_iff (f : ε → ε') (x : Fallible ε α) :
    Reports (mapError f x) ↔ Reports x := by
  rcases x with (_ | _) | a
  · exact iff_of_true (.raise _) (.raise _)
  · exact iff_of_false (fun h => h rfl) (fun h => h rfl)
  · exact iff_of_true (.ok a) (.ok a)

/-- A sequence panics only where one of its calls does. -/
theorem Reports.bind {x : Fallible ε α} {f : α → Fallible ε β} (hx : Reports x)
    (hf : ∀ a, x = .ok a → Reports (f a)) : Reports (x >>= f) := by
  rcases x with (e | _) | a
  · exact .raise e
  · exact absurd rfl hx
  · exact hf a rfl

end Fallible

namespace Stateful

variable {σ τ ε ε' α β : Type}

instance : Monad (Stateful σ ε) where
  pure a := fun s => (.ok a, s)
  bind x f := fun s =>
    match x s with
    | (.ok a, s') => f a s'
    | (.error e, s') => (.error e, s')

/-- The current state. -/
def read : Stateful σ ε σ := fun s => (.ok s, s)

/-- Update the state. -/
def modify (f : σ → σ) : Stateful σ ε Unit := fun s => (.ok (), f s)

/-- Return an error value, leaving the state as it is. -/
def raise (e : ε) : Stateful σ ε α := fun s => (.error (.error e), s)

/-- Run a call that does not touch the state. -/
def lift (x : Fallible ε α) : Stateful σ ε α := fun s => (x, s)

/-- Convert the error value; see `Fallible.mapError`. -/
def mapError (f : ε → ε') (x : Stateful σ ε α) : Stateful σ ε' α := fun s =>
  ((x s).1.mapError f, (x s).2)

/-- Run a call on a part of the state. -/
def zoom (part : σ → τ) (put : σ → τ → σ) (x : Stateful τ ε α) : Stateful σ ε α :=
  fun s => ((x (part s)).1, put s (x (part s)).2)

/-- Run a call and go on with its outcome, also when it fails. -/
def outcome (x : Stateful σ ε α) : Stateful σ ε' (Fallible ε α) := fun s => (.ok (x s).1, (x s).2)

@[simp] theorem pure_apply (a : α) (s : σ) :
    (pure a : Stateful σ ε α) s = (.ok a, s) := rfl

@[simp] theorem read_apply (s : σ) : (read : Stateful σ ε σ) s = (.ok s, s) := rfl

@[simp] theorem modify_apply (f : σ → σ) (s : σ) :
    (modify f : Stateful σ ε Unit) s = (.ok (), f s) := rfl

@[simp] theorem raise_apply (e : ε) (s : σ) :
    (raise e : Stateful σ ε α) s = (.error (.error e), s) := rfl

@[simp] theorem lift_apply (x : Fallible ε α) (s : σ) :
    (lift x : Stateful σ ε α) s = (x, s) := rfl

@[simp] theorem mapError_apply (f : ε → ε') (x : Stateful σ ε α) (s : σ) :
    mapError f x s = ((x s).1.mapError f, (x s).2) := rfl

@[simp] theorem outcome_apply (x : Stateful σ ε α) (s : σ) :
    (outcome x : Stateful σ ε' (Fallible ε α)) s = (.ok (x s).1, (x s).2) := rfl

@[simp] theorem zoom_apply (part : σ → τ) (put : σ → τ → σ) (x : Stateful τ ε α) (s : σ) :
    zoom part put x s = ((x (part s)).1, put s (x (part s)).2) := rfl

theorem bind_apply (x : Stateful σ ε α) (f : α → Stateful σ ε β) (s : σ) :
    (x >>= f) s =
      match x s with
      | (.ok a, s') => f a s'
      | (.error e, s') => (.error e, s') := rfl

/-- A step that succeeded hands its value and its state to the rest. -/
theorem bind_of_ok {x : Stateful σ ε α} {f : α → Stateful σ ε β} {s s' : σ} {a : α}
    (hx : x s = (.ok a, s')) : (x >>= f) s = f a s' := by
  simp [bind_apply, hx]

/-- A step that failed ends the sequence, with the state it left. -/
theorem bind_of_error {x : Stateful σ ε α} {f : α → Stateful σ ε β} {s s' : σ}
    {e : Fault ε} (hx : x s = (.error e, s')) : (x >>= f) s = (.error e, s') := by
  simp [bind_apply, hx]

/-- Wrapping up the value of a call leaves the state it leaves. -/
theorem snd_bind_pure (x : Stateful σ ε α) (f : α → β) (s : σ) :
    ((x >>= fun a => pure (f a)) s).2 = (x s).2 := by
  rw [bind_apply]
  rcases x s with ⟨e | a, s'⟩ <;> rfl

theorem fst_bind_pure (x : Stateful σ ε α) (f : α → β) (s : σ) :
    ((x >>= fun a => pure (f a)) s).1 = (x s).1.map f := by
  rw [bind_apply]
  rcases x s with ⟨e | a, s'⟩ <;> rfl

theorem fst_of_bind_pure_error {x : Stateful σ ε α} {f : α → β} {s : σ} {e : Fault ε}
    (h : ((x >>= fun a => pure (f a)) s).1 = .error e) : (x s).1 = .error e := by
  rw [fst_bind_pure] at h
  cases hx : (x s).1 with
  | error e' =>
      rw [hx] at h
      cases h
      rfl
  | ok a =>
      rw [hx] at h
      cases h

/-- **Sequence rule.** A successful sequence splits into two successful steps
at the value and the state in between. -/
theorem bind_eq_ok_iff (x : Stateful σ ε α) (f : α → Stateful σ ε β) (s s' : σ) (b : β) :
    (x >>= f) s = (.ok b, s') ↔
      ∃ a mid, x s = (.ok a, mid) ∧ f a mid = (.ok b, s') := by
  rw [bind_apply]
  rcases hx : x s with ⟨outcome, mid⟩
  cases outcome with
  | ok a => simp
  | error e => simp

theorem mapError_eq_ok_iff (f : ε → ε') (x : Stateful σ ε α) (s s' : σ) (a : α) :
    mapError f x s = (.ok a, s') ↔ x s = (.ok a, s') := by
  rcases hx : x s with ⟨outcome, mid⟩
  simp [hx]

theorem lift_eq_ok_iff (x : Fallible ε α) (s s' : σ) (a : α) :
    lift x s = (.ok a, s') ↔ x = .ok a ∧ s' = s := by
  simp [eq_comm]

theorem read_eq_ok_iff (s s' a : σ) :
    (read : Stateful σ ε σ) s = (.ok a, s') ↔ a = s ∧ s' = s := by
  simp [eq_comm]

theorem modify_eq_ok_iff (f : σ → σ) (s s' : σ) (u : Unit) :
    (modify f : Stateful σ ε Unit) s = (.ok u, s') ↔ s' = f s := by
  simp [eq_comm]

theorem zoom_eq_ok_iff (part : σ → τ) (put : σ → τ → σ) (x : Stateful τ ε α) (s s' : σ) (a : α) :
    zoom part put x s = (.ok a, s') ↔ ∃ t, x (part s) = (.ok a, t) ∧ s' = put s t := by
  rcases hx : x (part s) with ⟨outcome, t⟩
  simp [hx, eq_comm]

/-- A sequence panics only where one of its steps does. -/
theorem reports_bind {x : Stateful σ ε α} {f : α → Stateful σ ε β} {s : σ}
    (hx : (x s).1.Reports) (hf : ∀ a s', x s = (.ok a, s') → (f a s').1.Reports) :
    ((x >>= f) s).1.Reports := by
  rw [bind_apply]
  rcases hrun : x s with ⟨(e | _) | a, s'⟩
  · exact .raise e
  · rw [hrun] at hx
    exact absurd rfl hx
  · exact hf a s' hrun

/-! ## Properties kept by every outcome -/

/-- The call leaves `P` true whenever it starts with `P` true, also when it
fails. -/
def Keeps (P : σ → Prop) (x : Stateful σ ε α) : Prop :=
  ∀ s, P s → P (x s).2

theorem Keeps.pure {P : σ → Prop} (a : α) : Keeps P (pure a : Stateful σ ε α) :=
  fun _ hs => hs

theorem Keeps.read {P : σ → Prop} : Keeps P (read : Stateful σ ε σ) := fun _ hs => hs

theorem Keeps.raise {P : σ → Prop} (e : ε) : Keeps P (raise e : Stateful σ ε α) := fun _ hs => hs

theorem Keeps.lift {P : σ → Prop} (x : Fallible ε α) : Keeps P (lift x : Stateful σ ε α) :=
  fun _ hs => hs

theorem Keeps.modify {P : σ → Prop} {f : σ → σ} (hf : ∀ s, P s → P (f s)) :
    Keeps P (modify f : Stateful σ ε Unit) := hf

theorem Keeps.mapError {P : σ → Prop} {x : Stateful σ ε α} (hx : Keeps P x) (f : ε → ε') :
    Keeps P (mapError f x) := hx

theorem Keeps.bind {P : σ → Prop} {x : Stateful σ ε α} {f : α → Stateful σ ε β}
    (hx : Keeps P x) (hf : ∀ a, Keeps P (f a)) : Keeps P (x >>= f) := by
  intro s hs
  have hmid := hx s hs
  rw [bind_apply]
  rcases hrun : x s with ⟨outcome, mid⟩
  rw [hrun] at hmid
  cases outcome with
  | ok a => exact hf a mid hmid
  | error e => exact hmid

/-! ## Properties kept by failures -/

/-- The call leaves `P` true when it starts with `P` true and fails. -/
def FailsKeeping (P : σ → Prop) (x : Stateful σ ε α) : Prop :=
  ∀ s e s', P s → x s = (.error e, s') → P s'

theorem Keeps.failsKeeping {P : σ → Prop} {x : Stateful σ ε α} (hx : Keeps P x) :
    FailsKeeping P x := by
  intro s e s' hs hrun
  have hend := hx s hs
  rwa [hrun] at hend

theorem FailsKeeping.mapError {P : σ → Prop} {x : Stateful σ ε α} (hx : FailsKeeping P x)
    (f : ε → ε') : FailsKeeping P (mapError f x) := by
  intro s e s' hs hrun
  rcases hmid : x s with ⟨outcome, mid⟩
  rw [mapError_apply, hmid] at hrun
  cases outcome with
  | ok a => simp at hrun
  | error e' =>
      obtain ⟨_, rfl⟩ := Prod.mk.inj hrun
      exact hx s e' mid hs hmid

/-- What comes before a failure has to keep the property whether or not it fails. -/
theorem FailsKeeping.bind {P : σ → Prop} {x : Stateful σ ε α} {f : α → Stateful σ ε β}
    (hx : Keeps P x) (hf : ∀ a, FailsKeeping P (f a)) : FailsKeeping P (x >>= f) := by
  intro s e s' hs hrun
  have hmid := hx s hs
  rw [bind_apply] at hrun
  rcases hstep : x s with ⟨outcome, mid⟩
  rw [hstep] at hmid hrun
  cases outcome with
  | ok a => exact hf a mid e s' hmid hrun
  | error e' =>
      obtain ⟨_, rfl⟩ := Prod.mk.inj hrun
      exact hmid

/-- What cannot fail may come after anything. -/
theorem FailsKeeping.bind_total {P : σ → Prop} {x : Stateful σ ε α} {f : α → Stateful σ ε β}
    (hx : FailsKeeping P x) (hf : ∀ a s, ∃ b s', f a s = (.ok b, s')) :
    FailsKeeping P (x >>= f) := by
  intro s e s' hs hrun
  rw [bind_apply] at hrun
  rcases hstep : x s with ⟨outcome, mid⟩
  rw [hstep] at hrun
  cases outcome with
  | ok a =>
      obtain ⟨b, end', hend⟩ := hf a mid
      cases hend.symm.trans hrun
  | error e' =>
      obtain ⟨_, rfl⟩ := Prod.mk.inj hrun
      exact hx s e' mid hs hstep

end Stateful

end Sypherstore.Logic
