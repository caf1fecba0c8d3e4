/-
# Runs of labelled transition systems

A system is a relation between a state, the label of a step, and the next state.
Three rules carry every proof about whole runs: an invariant kept by each step
holds at the end of a run; a run can be cut at any of its labels; and a function
that follows each step follows the run.
-/

import Mathlib.Data.List.Basic

namespace Sypherstore.Logic

variable {σ α τ : Type}

/-- A run of `step` from one state to another, with the labels of its steps. -/
inductive Run (step : σ → α → σ → Prop) : σ → List α → σ → Prop
  | nil (s : σ) : Run step s [] s
  | cons {s s' s'' : σ} {a : α} {as : List α} (hstep : step s a s')
      (hrest : Run step s' as s'') : Run step s (a :: as) s''

/-- The steps that also meet a condition on the state they start in. -/
def guarded (step : σ → α → σ → Prop) (guard : σ → α → Prop) : σ → α → σ → Prop :=
  fun s a s' => step s a s' ∧ guard s a

/-- The labels that the steps of a run leave in another system, each found from the state
the step starts in. -/
def trail {β : Type} (next : σ → α → Option σ) (labels : σ → α → List β) :
    σ → List α → List β
  | _, [] => []
  | s, a :: as => labels s a ++ (next s a).elim [] fun s' => trail next labels s' as

theorem trail_cons {β : Type} {next : σ → α → Option σ} {labels : σ → α → List β} {s s' : σ}
    {a : α} {as : List α} (h : next s a = some s') :
    trail next labels s (a :: as) = labels s a ++ trail next labels s' as := by
  rw [trail, h, Option.elim_some]

namespace Run

variable {step : σ → α → σ → Prop} {s s' s'' : σ} {a : α} {as bs : List α}

theorem append (h : Run step s as s') (h' : Run step s' bs s'') :
    Run step s (as ++ bs) s'' := by
  induction h with
  | nil => exact h'
  | cons hstep _ ih => exact .cons hstep (ih h')

theorem single (h : step s a s') : Run step s [a] s' := .cons h (.nil s')

/-- A run over a concatenation passes through a state in between. -/
theorem append_iff :
    Run step s (as ++ bs) s'' ↔ ∃ mid, Run step s as mid ∧ Run step mid bs s'' := by
  constructor
  · intro h
    induction as generalizing s with
    | nil => exact ⟨s, .nil s, h⟩
    | cons a as ih =>
        cases h with
        | cons hstep hrest =>
            obtain ⟨mid, hleft, hright⟩ := ih hrest
            exact ⟨mid, .cons hstep hleft, hright⟩
  · rintro ⟨mid, hleft, hright⟩
    exact hleft.append hright

/-- Every label of a run is that of a step. -/
theorem exists_step (h : Run step s as s') (ha : a ∈ as) : ∃ t t', step t a t' := by
  obtain ⟨early, late, rfl⟩ := List.append_of_mem ha
  obtain ⟨t, _, hrest⟩ := append_iff.mp h
  cases hrest with
  | cons hstep _ => exact ⟨t, _, hstep⟩

/-- Where the trail of a run is cut, one of its steps is cut. -/
theorem trail_cut {β : Type} {next : σ → α → Option σ} {labels : σ → α → List β} {b : β}
    {past rest : List β} (h : Run (fun t a t' => next t a = some t') s as s')
    (hcut : trail next labels s as = past ++ b :: rest) :
    ∃ before a after mid early late, as = before ++ a :: after ∧
      Run (fun t a t' => next t a = some t') s before mid ∧ labels mid a = early ++ b :: late ∧
      past = trail next labels s before ++ early := by
  induction h generalizing past with
  | nil => simp [trail] at hcut
  | @cons t t' t'' a as hfirst hrest ih =>
      have hwhere : (∃ late, labels t a = past ++ b :: late) ∨
          ∃ tail, past = labels t a ++ tail ∧ trail next labels t' as = tail ++ b :: rest := by
        rw [trail_cons hfirst] at hcut
        rcases List.append_eq_append_iff.mp hcut with hlater | ⟨late, hhere, htail⟩
        · exact .inr hlater
        · cases late with
          | nil => exact .inr ⟨[], by simpa using hhere.symm, by simpa using htail.symm⟩
          | cons b' late =>
              obtain ⟨rfl, _⟩ := List.cons.inj htail
              exact .inl ⟨late, hhere⟩
      rcases hwhere with ⟨late, hhere⟩ | ⟨tail, rfl, htail⟩
      · exact ⟨[], a, as, t, past, late, rfl, .nil t, hhere, rfl⟩
      · obtain ⟨before, a', after, mid, early, late, rfl, hbefore, hmid, rfl⟩ := ih htail
        exact ⟨a :: before, a', after, mid, early, late, rfl, .cons hfirst hbefore, hmid,
          by rw [trail_cons hfirst, List.append_assoc]⟩

theorem mono {step' : σ → α → σ → Prop} (hsub : ∀ s a s', step s a s' → step' s a s')
    (h : Run step s as s') : Run step' s as s' := by
  induction h with
  | nil => exact .nil _
  | cons hstep _ ih => exact .cons (hsub _ _ _ hstep) ih

/-- The steps of a run are those of another system where an invariant holds. -/
theorem mono_of_invariant {step' : σ → α → σ → Prop} {I : σ → Prop}
    (hsub : ∀ s a s', I s → step s a s' → step' s a s' ∧ I s') (h : Run step s as s') (hs : I s) :
    Run step' s as s' := by
  induction h with
  | nil => exact .nil _
  | cons hstep _ ih =>
      obtain ⟨hstep', hnext⟩ := hsub _ _ _ hs hstep
      exact .cons hstep' (ih hnext)

/-- If a state and a label determine the next state, a state and the labels of a
run determine its end. -/
theorem unique (hstep : ∀ t a t' t'', step t a t' → step t a t'' → t' = t'')
    (h : Run step s as s') (h' : Run step s as s'') : s' = s'' := by
  induction h with
  | nil =>
      cases h'
      rfl
  | cons hfirst _ ih =>
      cases h' with
      | cons hfirst' hrest' =>
          obtain rfl := hstep _ _ _ _ hfirst hfirst'
          exact ih hrest'

/-- **Invariant rule.** What each step of the run keeps holds at its end. -/
theorem invariant {I : σ → Prop} (h : Run step s as s')
    (hstep : ∀ t a t', a ∈ as → I t → step t a t' → I t') (hs : I s) : I s' := by
  induction h with
  | nil => exact hs
  | cons hfirst _ ih =>
      refine ih (fun t a t' ha => hstep t a t' (List.mem_cons_of_mem _ ha)) ?_
      exact hstep _ _ _ List.mem_cons_self hs hfirst

/-- **Refinement rule.** When each step is a step of another system after its state
and its label have been translated, a run is a run of that system. -/
theorem map {β : Type} {step' : τ → β → τ → Prop} (f : σ → τ) (g : α → β)
    (hstep : ∀ t a t', step t a t' → step' (f t) (g a) (f t')) (h : Run step s as s') :
    Run step' (f s) (as.map g) (f s') := by
  induction h with
  | nil => exact .nil _
  | cons hfirst _ ih => exact .cons (hstep _ _ _ hfirst) ih

/-- **Expansion rule.** When each step is a run of another system, so is a run, with the
labels that its steps leave. -/
theorem expand {β : Type} {next : σ → α → Option σ} {labels : σ → α → List β}
    {step' : τ → β → τ → Prop} (f : σ → τ)
    (hstep : ∀ t a t', next t a = some t' → Run step' (f t) (labels t a) (f t'))
    (h : Run (fun t a t' => next t a = some t') s as s') :
    Run step' (f s) (trail next labels s as) (f s') := by
  induction h with
  | nil => exact .nil _
  | cons hfirst _ ih =>
      rw [trail_cons hfirst]
      exact (hstep _ _ _ hfirst).append ih

/-- **Simulation rule.** If a function on abstract states follows each step, its
fold over the labels follows the run. -/
theorem simulation {R : σ → τ → Prop} {next : τ → α → τ} {t : τ} (h : Run step s as s')
    (hstep : ∀ u a u' v, a ∈ as → R u v → step u a u' → R u' (next v a)) (hs : R s t) :
    R s' (as.foldl next t) := by
  induction h generalizing t with
  | nil => exact hs
  | cons hfirst _ ih =>
      refine ih (fun u a u' v ha => hstep u a u' v (List.mem_cons_of_mem _ ha)) ?_
      exact hstep _ _ _ _ List.mem_cons_self hs hfirst

/-- **Refinement rule.** When a step of one system is matched by a step of another with the same
label, so is a run. -/
theorem refines {R : σ → τ → Prop} {step' : τ → α → τ → Prop} {t : τ} (h : Run step s as s')
    (hstep : ∀ u a u' v, R u v → step u a u' → ∃ v', step' v a v' ∧ R u' v') (hs : R s t) :
    ∃ t', Run step' t as t' ∧ R s' t' := by
  induction h generalizing t with
  | nil => exact ⟨t, .nil t, hs⟩
  | cons hfirst _ ih =>
      obtain ⟨mid, hmid, hrest⟩ := hstep _ _ _ _ hs hfirst
      obtain ⟨t', hrun, hend⟩ := ih hrest
      exact ⟨t', .cons hmid hrun, hend⟩

/-- **History rule.** The invariant may speak of the labels of the run so far. -/
theorem history {R : List α → σ → Prop} (h : Run step s as s')
    (hstep : ∀ past t a t', R past t → step t a t' → R (past ++ [a]) t') (hs : R [] s) :
    R as s' := by
  have hrun : ∀ past, R past s → R (past ++ as) s' := by
    clear hs
    induction h with
    | nil => simp
    | @cons t t' t'' a as hfirst _ ih =>
        intro past hpast
        have hnext : R (past ++ [a] ++ as) t'' := ih _ (hstep _ _ _ _ hpast hfirst)
        simpa using hnext
  simpa using hrun [] hs

end Run

/-! ## What has happened -/

/-- A run with these labels has taken such a step, after this much of the run. -/
def Happened (step : σ → α → σ → Prop) (start : σ) (as : List α)
    (Q : List α → σ → α → σ → Prop) : Prop :=
  ∃ before a rest s s', as = before ++ a :: rest ∧ Run step start before s ∧ step s a s' ∧
    Q before s a s'

namespace Happened

variable {step : σ → α → σ → Prop} {start s s' : σ} {as : List α} {a : α}
  {Q Q' : List α → σ → α → σ → Prop}

/-- It has still happened later. -/
theorem append (h : Happened step start as Q) (bs : List α) : Happened step start (as ++ bs) Q := by
  obtain ⟨before, a, rest, s, s', rfl, hrun, hstep, hq⟩ := h
  exact ⟨before, a, rest ++ bs, s, s', by simp, hrun, hstep, hq⟩

theorem last (hrun : Run step start as s) (hstep : step s a s') (hq : Q as s a s') :
    Happened step start (as ++ [a]) Q :=
  ⟨as, a, [], s, s', rfl, hrun, hstep, hq⟩

theorem mono (h : Happened step start as Q) (himp : ∀ as s a s', Q as s a s' → Q' as s a s') :
    Happened step start as Q' := by
  obtain ⟨before, a, rest, s, s', heq, hrun, hstep, hq⟩ := h
  exact ⟨before, a, rest, s, s', heq, hrun, hstep, himp _ _ _ _ hq⟩

end Happened

end Sypherstore.Logic
