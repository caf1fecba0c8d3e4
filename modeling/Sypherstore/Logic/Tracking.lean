/-
# Tracking an abstract state

What a call does to a concrete state is told by what it does to the abstract state that this one
stands for. A call that fails leaves a concrete state as well, so it, too, has to end at one that
stands for something, and what is promised about the end is promised of every outcome.
-/

import Sypherstore.Logic.Stateful

namespace Sypherstore.Logic

namespace Stateful

variable {σ τ ε ε' α β : Type} {R : σ → τ → Prop} {t : τ}

/-- From a state that stands for `t`, the call ends at one that stands for some `t'`, and its
outcome and `t'` are as promised. -/
def Tracks (R : σ → τ → Prop) (t : τ) (x : Stateful σ ε α) (post : Fallible ε α → τ → Prop) :
    Prop :=
  ∀ s, R s t → ∃ t', R (x s).2 t' ∧ post (x s).1 t'

namespace Tracks

variable {x : Stateful σ ε α} {post : Fallible ε α → τ → Prop}

theorem mono {mid : Fallible ε α → τ → Prop} (hx : Tracks R t x mid)
    (himp : ∀ r t', mid r t' → post r t') : Tracks R t x post := by
  intro s hs
  obtain ⟨t', hend, hmid⟩ := hx s hs
  exact ⟨t', hend, himp _ _ hmid⟩

theorem lift {v : Fallible ε α} (h : post v t) : Tracks R t (lift v) post :=
  fun _ hs => ⟨t, hs, h⟩

theorem pure {a : α} (h : post (.ok a) t) : Tracks R t (pure a : Stateful σ ε α) post :=
  fun _ hs => ⟨t, hs, h⟩

/-- What is read stands for `t`. -/
theorem read {post : Fallible ε σ → τ → Prop} (h : ∀ s, R s t → post (.ok s) t) :
    Tracks R t (read : Stateful σ ε σ) post :=
  fun s hs => ⟨t, hs, h s hs⟩

theorem mapError {f : ε → ε'} {post : Fallible ε' α → τ → Prop}
    (hx : Tracks R t x fun r t' => post (r.mapError f) t') : Tracks R t (mapError f x) post := hx

/-- **Sequence rule.** A failure of the first part is a failure of the whole, and the second
part begins where the first ends. -/
theorem bind {f : α → Stateful σ ε β} {mid : Fallible ε α → τ → Prop}
    {post : Fallible ε β → τ → Prop} (hx : Tracks R t x mid)
    (hfails : ∀ e t', mid (.error e) t' → post (.error e) t')
    (hrest : ∀ a t', mid (.ok a) t' → Tracks R t' (f a) post) : Tracks R t (x >>= f) post := by
  intro s hs
  obtain ⟨t', hmid, hpost⟩ := hx s hs
  rw [bind_apply]
  rcases hrun : x s with ⟨e | a, s'⟩
  · rw [hrun] at hmid hpost
    exact ⟨t', hmid, hfails e t' hpost⟩
  · rw [hrun] at hmid hpost
    exact hrest a t' hpost s' hmid

/-- A step that does not touch the state fails or goes on. -/
theorem lift_bind {v : Fallible ε α} {f : α → Stateful σ ε β} {post : Fallible ε β → τ → Prop}
    (hfails : ∀ e, v = .error e → post (.error e) t)
    (hrest : ∀ a, v = .ok a → Tracks R t (f a) post) :
    Tracks R t (Stateful.lift v >>= f) post := by
  have hv : Tracks R t (Stateful.lift v) fun r t' => r = v ∧ t' = t := .lift ⟨rfl, rfl⟩
  refine bind hv ?_ ?_
  · rintro e t' ⟨he, rfl⟩
    exact hfails e he.symm
  · rintro a t' ⟨ha, rfl⟩
    exact hrest a ha.symm

/-- What is read stands for the abstract state. -/
theorem read_bind {f : σ → Stateful σ ε β} {post : Fallible ε β → τ → Prop}
    (hrest : ∀ s, R s t → Tracks R t (f s) post) : Tracks R t (Stateful.read >>= f) post :=
  fun s hs => hrest s hs s hs

/-- A change that keeps the abstract state, and cannot fail. -/
theorem modify_bind {g : σ → σ} {f : Unit → Stateful σ ε β} {post : Fallible ε β → τ → Prop}
    (hkeeps : ∀ s, R s t → R (g s) t) (hrest : Tracks R t (f ()) post) :
    Tracks R t (Stateful.modify g >>= f) post :=
  fun s hs => hrest (g s) (hkeeps s hs)

/-- A step that keeps the abstract state, whatever it answers. -/
theorem keeps_bind {f : α → Stateful σ ε β} {post : Fallible ε β → τ → Prop}
    (hx : Keeps (fun s => R s t) x) (hfails : ∀ e, post (.error e) t)
    (hrest : ∀ a, Tracks R t (f a) post) : Tracks R t (x >>= f) post := by
  have hkept : Tracks R t x fun _ t' => t' = t := fun s hs => ⟨t, hx s hs, rfl⟩
  refine bind hkept ?_ ?_
  · rintro e t' rfl
    exact hfails e
  · rintro a t' rfl
    exact hrest a

/-- A call whose failure is reported under another name and leaves the abstract state. -/
theorem mapError_bind {convert : ε → ε'} {f : α → Stateful σ ε' β} {after : α → τ → Prop}
    {post : Fallible ε' β → τ → Prop}
    (hx : Tracks R t x fun r t' => (∀ e, r = .error e → t' = t) ∧ ∀ a, r = .ok a → after a t')
    (hfails : ∀ e e', Fallible.mapError convert (.error e : Fallible ε α) = .error e' →
      post (.error e') t)
    (hrest : ∀ a t', after a t' → Tracks R t' (f a) post) :
    Tracks R t (Stateful.mapError convert x >>= f) post := by
  have hconverted : Tracks R t (Stateful.mapError convert x) fun r t' =>
      (∀ e, r = .error e → t' = t ∧ post (.error e) t) ∧ ∀ a, r = .ok a → after a t' := by
    refine mapError (hx.mono ?_)
    rintro r t' ⟨herror, hok⟩
    cases r with
    | ok a =>
        refine ⟨?_, ?_⟩
        · intro e he
          cases he
        · intro b hb
          obtain rfl := Except.ok.inj hb
          exact hok a rfl
    | error fault =>
        refine ⟨fun e he => ⟨herror fault rfl, hfails fault e he⟩, fun b hb => ?_⟩
        cases fault <;> cases hb
  refine bind hconverted ?_ ?_
  · rintro e t' ⟨herror, _⟩
    obtain ⟨rfl, hpost⟩ := herror e rfl
    exact hpost
  · rintro a t' ⟨_, hok⟩
    exact hrest a t' (hok a rfl)

end Tracks

end Stateful

end Sypherstore.Logic
