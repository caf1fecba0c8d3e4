/-
# The inner key dies on a timer

Runs of one session, and when an expired unlock stays expired.

`tick` relocks a session whose deadline has come, and everything that reads a
secret ticks first. `touch` does not: it moves the deadline of whatever inner key
is there. A touch that comes too late therefore revives the key, and so does a
call that outlasts the deadline and touches at its end. As long as no deadline is
moved after it has come, an expired unlock does stay expired.
-/

import Sypherstore.Core.Creation
import Sypherstore.Logic.Transition

namespace Sypherstore

open Logic

/-! ## Runs of a session -/

namespace Op

/-- The call reads or writes a secret. -/
def needsKey : Op → Bool
  | .list | .metaFor _ | .openSecret _ | .add _ _ | .update _ _ | .enrollKey _ _ => true
  | _ => false

/-- The call ends by touching the session, if it succeeds. -/
def touches : Op → Bool
  | .touch | .openSecret _ | .add _ _ | .update _ _ | .enrollKey _ _ => true
  | _ => false

def isUnlock : Op → Bool
  | .unlock _ => true
  | _ => false

end Op

/-- One call of a run, with what it returned. -/
structure Event where
  call : Call
  op : Op
  result : Fallible SessionError Reply

namespace Event

def succeeded (e : Event) : Bool := e.result.isOk

/-- The call touched the session. -/
def movesDeadline (e : Event) : Bool := e.op.touches && e.succeeded

/-- The call is a successful unlock. -/
def unlocks (e : Event) : Bool := e.op.isUnlock && e.succeeded

end Event

namespace Session

variable {P : Primitives} {call : Call}

/-- One call of a run. -/
def Step (P : Primitives) (s : Session) (e : Event) (s' : Session) : Prop :=
  perform P e.call e.op s = (e.result, s')

theorem Step.of_enrollKey {call : Call} {inner : InnerKeyProvider} {label : String}
    {s s' : Session} (h : enrollKey P call inner label s = (.ok (), s')) :
    Step P s ⟨call, .enrollKey inner label, .ok .done⟩ s' := by
  simp [Step, perform, Stateful.bind_apply, h]

theorem Step.effect {s s' : Session} {e : Event} (h : Step P s e s') :
    Effect P e.call s e.op e.succeeded s' := by
  have heffect := perform_effect P e.call e.op s
  rw [Step] at h
  rw [h] at heffect
  exact heffect

theorem Step.unique {s s' s'' : Session} {e : Event} (h : Step P s e s') (h' : Step P s e s'') :
    s' = s'' := by
  rw [Step] at h h'
  rw [h] at h'
  exact (Prod.mk.inj h').2

/-! ## Effects on the lock -/

/-- Only a live session lets a call get at a secret. -/
theorem Effect.live {s s' : Session} {op : Op} (h : Effect P call s op true s')
    (hkey : op.needsKey) : s.Live call.started := by
  cases h with
  | listed hlive => exact hlive
  | described id hlive => exact hlive
  | opened id hlive => exact hlive
  | added m p inner row hlive hinner hfresh hrow => exact hlive
  | updated m p inner row hlive hinner hmem hrow => exact hlive
  | enrolled inner label enrollments hlive henroll => exact hlive
  | _ => cases hkey

theorem deadline_touch (now : Instant) {s : Session} (h : s.innerKek.isSome) :
    (s.touch now).deadline = some (now + s.timeout) := by
  obtain ⟨inner, hinner⟩ := Option.isSome_iff_exists.mp h
  rw [touch_of_inner hinner]

/-- A call that touches keeps the inner key and, if there is one, moves its
deadline. -/
theorem Effect.of_touches {s s' : Session} {op : Op} (h : Effect P call s op true s')
    (htouches : op.touches) :
    s'.innerKek = s.innerKek ∧
      (s.innerKek.isSome → s'.deadline = some (call.ended + s.timeout)) := by
  cases h with
  | touched => exact ⟨innerKek_touch _ _, deadline_touch _⟩
  | opened id hlive => exact ⟨innerKek_touch _ _, deadline_touch _⟩
  | added m p inner row hlive hinner hfresh hrow =>
      exact ⟨innerKek_touch _ _, fun h => deadline_touch call.ended h⟩
  | updated m p inner row hlive hinner hmem hrow =>
      exact ⟨innerKek_touch _ _, fun h => deadline_touch call.ended h⟩
  | enrolled inner label enrollments hlive henroll =>
      exact ⟨innerKek_touch _ _, fun h => deadline_touch call.ended h⟩
  | _ => cases htouches

/-- Any other call that does not unlock either leaves the key and its deadline or
drops the key. -/
theorem Effect.of_not_touches {s s' : Session} {op : Op} {ok : Bool}
    (h : Effect P call s op ok s') (htouches : (op.touches && ok) = false)
    (hunlock : (op.isUnlock && ok) = false) :
    (s'.innerKek = s.innerKek ∧ s'.deadline = s.deadline) ∨ s'.innerKek = none := by
  cases h with
  | refused op => exact .inl ⟨rfl, rfl⟩
  | expired op hlive => exact .inr (tick_of_not_live hlive).2.1
  | locked => exact .inr rfl
  | ticked =>
      by_cases hlive : s.Live call.started
      · exact .inl (by rw [(tick_of_live hlive).2]; exact ⟨rfl, rfl⟩)
      · exact .inr (tick_of_not_live hlive).2.1
  | observed => exact .inl ⟨rfl, rfl⟩
  | listed hlive => exact .inl ⟨rfl, rfl⟩
  | described id hlive => exact .inl ⟨rfl, rfl⟩
  | deleted id hmem => exact .inl ⟨rfl, rfl⟩
  | unlocked inner innerKek hassert => cases hunlock
  | _ => cases htouches

end Session

/-- The calls of a run come one after the other. -/
def Chronological (events : List Event) : Prop :=
  events.Pairwise fun e e' => e.call.ended ≤ e'.call.started

namespace Session

variable {P : Primitives}

/-! ## When an expired unlock stays expired -/

/-- An unlock whose deadline is `deadline` stays expired over `mid` and `last`: if
the clock has reached the deadline when `last` starts, no call in between moved
it before that, and none of them was a successful unlock, then `last` does not
get at a secret. -/
def StaysExpired (s : Session) (mid : List Event) (last : Event) : Prop :=
  ∀ deadline, s.innerKek.isSome → s.deadline = some deadline →
    deadline ≤ last.call.started →
    (∀ e ∈ mid, e.movesDeadline → deadline ≤ e.call.ended) →
    (∀ e ∈ mid, ¬ e.unlocks) →
    last.op.needsKey → ¬ last.succeeded

/-- The condition on a step: if it moves the deadline of an inner key, it does so
before that deadline has come. -/
def InTime (s : Session) (e : Event) : Prop :=
  e.movesDeadline → s.innerKek.isSome → ∀ deadline, s.deadline = some deadline →
    e.call.ended < deadline

/-- No deadline other than this one is in force. -/
def NoOtherDeadline (deadline : Instant) (s : Session) : Prop :=
  s.innerKek = none ∨ s.deadline = some deadline

theorem Step.noOtherDeadline {s s' : Session} {e : Event} {deadline : Instant}
    (h : Step P s e s') (hunlock : ¬ e.unlocks) (hintime : s.InTime e)
    (hlate : e.movesDeadline → deadline ≤ e.call.ended) (hs : s.NoOtherDeadline deadline) :
    s'.NoOtherDeadline deadline := by
  have heffect := h.effect
  by_cases hmoves : e.movesDeadline
  · -- A deadline moved in time would have been moved before it came.
    obtain ⟨htouches, hok⟩ := Bool.and_eq_true_iff.mp hmoves
    rw [hok] at heffect
    rcases hs with hnone | hdeadline
    · exact .inl (by rw [(heffect.of_touches htouches).1, hnone])
    · cases hinner : s.innerKek with
      | none => exact .inl (by rw [(heffect.of_touches htouches).1, hinner])
      | some inner =>
          have hbefore := hintime hmoves (by simp [hinner]) deadline hdeadline
          exact absurd (hlate hmoves) (Nat.not_le.mpr hbefore)
  · rcases heffect.of_not_touches (Bool.eq_false_iff.mpr hmoves) (Bool.eq_false_iff.mpr hunlock)
      with ⟨hinner, hdeadline⟩ | hnone
    · rw [NoOtherDeadline, hinner, hdeadline]
      exact hs
    · exact .inl hnone

theorem staysExpired_of_inTime {s₁ s₂ s₃ : Session} {mid : List Event} {last : Event}
    (hmid : Run (guarded (Step P) InTime) s₁ mid s₂) (hlast : Step P s₂ last s₃) :
    s₁.StaysExpired mid last := by
  intro deadline hinner hdeadline hreached hlate hunlock hkey hok
  have hkept : s₂.NoOtherDeadline deadline := by
    refine hmid.invariant ?_ (.inr hdeadline)
    intro s e s' he hs hstep
    exact hstep.1.noOtherDeadline (hunlock e he) hstep.2 (hlate e he) hs
  have heffect := hlast.effect
  rw [hok] at heffect
  obtain ⟨inner, deadline', hinner', hdeadline', hnow⟩ := heffect.live hkey
  rcases hkept with hnone | hsame
  · rw [hnone] at hinner'
    cases hinner'
  · rw [hsame] at hdeadline'
    cases hdeadline'
    exact absurd hreached (Nat.not_le.mpr hnow)

/-- **An expired unlock stays expired** in every run whose steps move deadlines in
time, at every point of the run. -/
theorem expired_unlock_stays_expired {s₀ s₁ s : Session} {before mid after : List Event}
    {last : Event}
    (hrun : Run (guarded (Step P) InTime) s₀ (before ++ (mid ++ last :: after)) s)
    (hbefore : Run (Step P) s₀ before s₁) : s₁.StaysExpired mid last := by
  obtain ⟨s₁', hhead, hrest⟩ := Run.append_iff.mp hrun
  obtain ⟨s₂, hmid, hlast⟩ := Run.append_iff.mp hrest
  have hsame : s₁ = s₁' :=
    hbefore.unique (fun _ _ _ _ h h' => h.unique h') (hhead.mono fun _ _ _ h => h.1)
  cases hlast with
  | cons hstep _ =>
      rw [hsame]
      exact staysExpired_of_inTime hmid hstep.1

/-- The condition is not only enough: a step that moves the deadline of a key after
it has come makes the key good again. -/
theorem live_of_not_inTime {s s' : Session} {e : Event} (h : Step P s e s')
    (htimeout : 0 < s.timeout) (hlate : ¬ s.InTime e) : s'.Live e.call.ended := by
  simp only [InTime, Classical.not_imp] at hlate
  obtain ⟨hmoves, hsome, _⟩ := hlate
  obtain ⟨htouches, hok⟩ := Bool.and_eq_true_iff.mp hmoves
  have heffect := h.effect
  rw [hok] at heffect
  obtain ⟨hinner, hdeadline⟩ := heffect.of_touches htouches
  obtain ⟨inner, hinner'⟩ := Option.isSome_iff_exists.mp hsome
  exact ⟨inner, _, hinner.trans hinner', hdeadline hsome, Nat.lt_add_of_pos_right htimeout⟩

private def earlyTouch : Event where
  call := .working 5 5 (Nat.le_refl 5) (Block.replicate 16 0)
  op := .touch
  result := .ok .done

private def listAtEighteen : Event where
  call := .working 18 18 (Nat.le_refl 18) (Block.replicate 16 0)
  op := .list
  result := .error (.error .locked)

/-- A vault created at instant 0 with a timeout of 10 and touched at instant 5 is
not listed at instant 18. -/
theorem touched_in_time_then_expired :
    ∃ keys : NewKeys, ∃ s₁ : Session,
      Run (Step Primitives.reference)
        (keys.session Primitives.reference (.working 0 0 (Nat.le_refl 0) (Block.replicate 16 0))
          (Block.replicate keyLen 1) .empty 10) [earlyTouch] s₁ ∧
      s₁.deadline = some 15 ∧ s₁.StaysExpired [] listAtEighteen := by
  obtain ⟨keys, _⟩ := exists_initializeVault_working 0 0 (Nat.le_refl 0)
    (Block.replicate 16 0) (Block.replicate keyLen 1) [1] [2] 10
  have hearly : Run (Step Primitives.reference)
      (keys.session Primitives.reference (.working 0 0 (Nat.le_refl 0) (Block.replicate 16 0))
        (Block.replicate keyLen 1) .empty 10) [earlyTouch] _ := Run.single rfl
  refine ⟨keys, _, hearly, rfl, ?_⟩
  have hlate : ¬ Session.Live listAtEighteen.call.started (touch earlyTouch.call.ended
      (keys.session Primitives.reference (.working 0 0 (Nat.le_refl 0) (Block.replicate 16 0))
        (Block.replicate keyLen 1) .empty 10)) := by
    rintro ⟨inner, deadline, _, hdeadline, hnow⟩
    cases hdeadline
    simp [listAtEighteen, earlyTouch, Call.working, NewKeys.session] at hnow
  obtain ⟨s₂, hrun⟩ : ∃ s₂, Run (guarded (Step Primitives.reference) InTime)
      (keys.session Primitives.reference (.working 0 0 (Nat.le_refl 0) (Block.replicate 16 0))
        (Block.replicate keyLen 1) .empty 10)
      ([earlyTouch] ++ ([] ++ listAtEighteen :: [])) s₂ := by
    refine ⟨_, .cons ⟨rfl, ?_⟩ (Run.single ⟨Stateful.bind_of_error (list_of_not_live hlate), ?_⟩)⟩
    · intro _ _ deadline hdeadline
      cases hdeadline
      simp [earlyTouch, Call.working]
    · intro hmoves
      cases hmoves
  exact expired_unlock_stays_expired hrun hearly

/-! ## A touch that comes too late -/

private def lateTouch : Event where
  call := .working 12 12 (Nat.le_refl 12) (Block.replicate 16 0)
  op := .touch
  result := .ok .done

private def listAfter : Event where
  call := .working 13 13 (Nat.le_refl 13) (Block.replicate 16 0)
  op := .list
  result := .ok (.metas [])

/-- A live session without secrets lists none. -/
private theorem list_of_no_secrets {s : Session} (hlive : s.Live call.started)
    (hsql : call.sql = .reliable) (hempty : s.vault.secrets = ∅) :
    perform P call .list s = (.ok (.metas []), s) := by
  have ⟨inner, _, hinner, _, _⟩ := hlive
  have hrows : s.vault.listRows P call.sql = .ok [] := by
    rw [hsql, Vault.listRows, hempty]
    rfl
  have hlist : list P call s = (.ok [], s) := by
    rw [list_of_live hlive hinner, hrows]
    simp only [Fallible.mapError_ok, Fallible.ok_bind, List.mapM_nil]
    simp [pure, Except.pure]
  exact Stateful.bind_of_ok hlist

/-- A vault is created at instant 0 with a timeout of 10 and touched at instant 12;
at instant 13 it can still be listed. -/
theorem late_touch_revives_an_expired_key :
    ∃ s₁ s₂ s₃ : Session,
      (∃ v t, initializeVault Primitives.reference
        (.working 0 0 (Nat.le_refl 0) (Block.replicate 16 0)) (.machine (Block.replicate keyLen 1))
        (.token [1] [2]) 10 (.empty, none) = (.ok s₁, (v, t))) ∧
      Run (Step Primitives.reference) s₁ [lateTouch] s₂ ∧
      Step Primitives.reference s₂ listAfter s₃ ∧
      Chronological [lateTouch, listAfter] ∧
      ¬ s₁.StaysExpired [lateTouch] listAfter := by
  obtain ⟨keys, _, _, hinit⟩ := exists_initializeVault_working 0 0 (Nat.le_refl 0)
    (Block.replicate 16 0) (Block.replicate keyLen 1) [1] [2] 10
  refine ⟨_, _, _, ⟨_, _, hinit⟩, Run.single rfl, list_of_no_secrets ?_ rfl rfl, ?_, ?_⟩
  · exact ⟨keys.innerKek, 22, rfl, rfl, by simp [listAfter, Call.working]⟩
  · simp [Chronological, lateTouch, listAfter, Call.working]
  · intro hstays
    refine hstays 10 rfl rfl ?_ ?_ ?_ rfl rfl
    · simp [listAfter, Call.working]
    · intro e he _
      obtain rfl := List.mem_singleton.mp he
      simp [lateTouch, Call.working]
    · intro e he
      obtain rfl := List.mem_singleton.mp he
      decide

end Session

end Sypherstore
