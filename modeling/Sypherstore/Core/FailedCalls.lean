/-
# What a failed call leaves behind

Every call writes at most once, with everything that can fail before it, so a call that
fails has changed neither table. The one thing that may have changed is the lock: a call
that finds the deadline gone relocks the session before it fails.
-/

import Sypherstore.Core.UnlockSoundness

namespace Sypherstore

open Logic

variable {P : Primitives} {call : Call} {s s' : Session} {op : Op}

namespace Session

/-- The session holds an inner key whose deadline has come. -/
def RelockDue (now : Instant) (s : Session) : Prop :=
  s.innerKek.isSome ∧ ∃ deadline, s.deadline = some deadline ∧ deadline ≤ now

/-- Ticking changes nothing unless a relock is due, and then it relocks. -/
theorem tick_eq_or_lock {now : Instant} (hpaired : s.innerKek.isSome = s.deadline.isSome) :
    (s.tick now).2 = s ∨ s.RelockDue now ∧ (s.tick now).2 = s.lock := by
  cases hinner : s.innerKek with
  | none => exact .inl (by simp [tick, hinner])
  | some inner =>
      cases hdeadline : s.deadline with
      | none =>
          rw [hinner, hdeadline] at hpaired
          cases hpaired
      | some deadline =>
          by_cases hnow : deadline ≤ now
          · right
            exact ⟨⟨by rw [hinner]; rfl, deadline, hdeadline, hnow⟩,
              by simp [tick, hinner, hdeadline, hnow]⟩
          · exact .inl (by simp [tick, hinner, hdeadline, hnow])

/-- A call that fails was refused, or found the session expired. -/
theorem Effect.eq_or_ticked (h : Effect P call s op false s') :
    s' = s ∨ s' = (s.tick call.started).2 := by
  cases h with
  | refused => exact .inl rfl
  | expired => exact .inr rfl

theorem Effect.eq_or_lock (h : Effect P call s op false s')
    (hpaired : s.innerKek.isSome = s.deadline.isSome) :
    s' = s ∨ s.RelockDue call.started ∧ s' = s.lock := by
  rcases h.eq_or_ticked with hsame | hticked
  · exact .inl hsame
  · rw [hticked]
    exact tick_eq_or_lock hpaired

end Session

/-- **A failed call changes nothing.** In every session that a process can come to have,
whatever the call and whatever made it fail, both tables are as they were, and so is
everything else unless a relock was due, which is then all that has happened. -/
theorem failed_call_changes_nothing {process : Process} {since : Option Instant}
    {generated : Option Key} {actions : List Action} {e : Fault SessionError}
    (hbegun : Process.Begun P process since generated)
    (hrun : Run (Process.Step P) process actions (.running s))
    (hfailed : Session.perform P call op s = (.error e, s')) :
    s'.vault = s.vault ∧ (s' = s ∨ s.RelockDue call.started ∧ s' = s.lock) := by
  have hstep : (Process.running s).InStep (actions.foldl Action.latest since) :=
    hrun.simulation (R := fun process since => process.InStep since)
      (fun _ _ _ _ _ hs hstep => hstep.inStep hs) hbegun.inStep
  have heffect := Session.perform_effect P call op s
  rw [hfailed] at heffect
  have hend := Session.Effect.eq_or_lock heffect (hstep s rfl).paired
  refine ⟨?_, hend⟩
  rcases hend with rfl | ⟨_, rfl⟩
  · rfl
  · rfl

/-- A vault is created at instant 0 with a timeout of 10; listing it at instant 18 fails and
relocks it. -/
theorem expired_list_only_relocks :
    ∃ s s' : Session, s.innerKek.isSome ∧
      Session.perform Primitives.reference (.atOnce 18) .list s = (.error (.error .locked), s') ∧
      s'.vault = s.vault ∧ s' = s.lock := by
  obtain ⟨keys, _, hprepare, hcreate⟩ := Session.exists_initializeVault_working 0 0
    (Nat.le_refl 0) (Block.replicate 16 0) (Block.replicate keyLen 1) [1] [2] 10
  have hkey := ((Session.prepareKeys_eq_ok_iff ..).mp hprepare).1
  have hbegun := Process.Begun.created hcreate hkey
  have hlate : ¬ Session.Live (Call.atOnce 18).started (keys.session Primitives.reference
      (.working 0 0 (Nat.le_refl 0) (Block.replicate 16 0)) (Block.replicate keyLen 1) .empty
      10) := by
    rintro ⟨inner, deadline, _, hdeadline, hnow⟩
    cases hdeadline
    simp [Call.atOnce, Call.working] at hnow
  have hfailed : Session.perform Primitives.reference (.atOnce 18) .list _ =
      (.error (.error .locked), _) :=
    Stateful.bind_of_error (Session.list_of_not_live hlate)
  obtain ⟨hvault, _⟩ := failed_call_changes_nothing hbegun (.nil _) hfailed
  exact ⟨_, _, rfl, hfailed, hvault, rfl⟩

end Sypherstore
