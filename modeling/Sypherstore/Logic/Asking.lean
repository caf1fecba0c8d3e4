/-
# Programs that ask

A program that asks questions one after another and does nothing else in between. Who answers
may lie, contradict itself or change its mind, and the program may be dropped while it waits
for an answer, so what can be said about it in general is said about the log of its questions
and answers. Only when the answers are those of one function is there one result.
-/

import Mathlib.Data.List.Basic
import Mathlib.Tactic.Common

namespace Sypherstore.Logic

/-- A program that is done, or asks and goes on with the answer. -/
inductive Asking (Q : Type) (A : Q → Type) (α : Type) where
  | done (a : α)
  | ask (q : Q) (next : A q → Asking Q A α)

/-- A question with its answer. -/
structure Exchange (Q : Type) (A : Q → Type) where
  question : Q
  answer : A question

namespace Asking

variable {Q : Type} {A : Q → Type} {α β : Type}

def bind : Asking Q A α → (α → Asking Q A β) → Asking Q A β
  | .done a, f => f a
  | .ask q next, f => .ask q fun answer => (next answer).bind f

instance : Monad (Asking Q A) where
  pure := .done
  bind := Asking.bind

/-- Ask one question. -/
def question (q : Q) : Asking Q A (A q) := .ask q .done

/-- The result for the first element that has one. The others are not asked about. -/
def firstSome (f : α → Asking Q A (Option β)) : List α → Asking Q A (Option β)
  | [] => .done none
  | a :: as => do
      match ← f a with
      | some b => return some b
      | none => firstSome f as

/-! ## Logs -/

/-- The program asks this and is answered this, and is then done, or dropped while it waits. -/
inductive Trace : Asking Q A α → List (Exchange Q A) → Option α → Prop
  | done (a : α) : Trace (.done a) [] (some a)
  | dropped (q : Q) (next : A q → Asking Q A α) : Trace (.ask q next) [] none
  | answered {q : Q} {next : A q → Asking Q A α} {log : List (Exchange Q A)} {result : Option α}
      (answer : A q) (rest : Trace (next answer) log result) :
      Trace (.ask q next) (⟨q, answer⟩ :: log) result

variable {log : List (Exchange Q A)} {result : Option β}

theorem trace_pure_iff {a : α} {r : Option α} :
    Trace (pure a : Asking Q A α) log r ↔ log = [] ∧ r = some a := by
  constructor
  · intro h
    cases h
    exact ⟨rfl, rfl⟩
  · rintro ⟨rfl, rfl⟩
    exact .done a

/-- **A sequence** is dropped in its first part or goes on with what this gave. -/
theorem trace_bind_iff {p : Asking Q A α} {f : α → Asking Q A β} :
    Trace (p >>= f) log result ↔ (result = none ∧ Trace p log none) ∨
      ∃ a before after, log = before ++ after ∧ Trace p before (some a) ∧
        Trace (f a) after result := by
  constructor
  · intro h
    change Trace (p.bind f) log result at h
    induction p generalizing log with
    | done a => exact .inr ⟨a, [], log, rfl, .done a, h⟩
    | ask q next ih =>
        cases h with
        | dropped => exact .inl ⟨rfl, .dropped q next⟩
        | answered answer rest =>
            rcases ih answer rest with ⟨hresult, hnext⟩ | ⟨a, before, after, rfl, hnext, hrest⟩
            · exact .inl ⟨hresult, .answered answer hnext⟩
            · exact .inr ⟨a, _ :: before, after, rfl, .answered answer hnext, hrest⟩
  · rintro (⟨rfl, h⟩ | ⟨a, before, after, rfl, h, hrest⟩)
    · change Trace (p.bind f) log none
      induction p generalizing log with
      | done a => cases h
      | ask q next ih =>
          cases h with
          | dropped => exact .dropped q _
          | answered answer rest => exact .answered answer (ih answer rest)
    · change Trace (p.bind f) (before ++ after) result
      induction p generalizing before with
      | done a' =>
          cases h
          exact hrest
      | ask q next ih =>
          cases h with
          | answered answer rest => exact .answered answer (ih answer _ rest)

/-- A question is answered and the program goes on, or it is dropped. -/
theorem trace_question_bind_iff {q : Q} {f : A q → Asking Q A β} :
    Trace (question q >>= f) log result ↔ (log = [] ∧ result = none) ∨
      ∃ answer rest, log = ⟨q, answer⟩ :: rest ∧ Trace (f answer) rest result := by
  constructor
  · intro h
    cases h with
    | dropped => exact .inl ⟨rfl, rfl⟩
    | answered answer rest => exact .inr ⟨answer, _, rfl, rest⟩
  · rintro (⟨rfl, rfl⟩ | ⟨answer, rest, rfl, h⟩)
    · exact .dropped q _
    · exact .answered answer h

/-- One question whose answer is read in some way. -/
theorem trace_question_map_iff {q : Q} {f : A q → α} {log : List (Exchange Q A)} {a : α} :
    Trace (question q >>= fun answer => pure (f answer)) log (some a) ↔
      ∃ answer, log = [⟨q, answer⟩] ∧ f answer = a := by
  simp only [trace_question_bind_iff, reduceCtorEq, and_false, false_or, trace_pure_iff,
    Option.some.injEq]
  constructor
  · rintro ⟨answer, rest, rfl, rfl, rfl⟩
    exact ⟨answer, rfl, rfl⟩
  · rintro ⟨answer, rfl, rfl⟩
    exact ⟨answer, [], rfl, rfl, rfl⟩

/-! ## How much is asked -/

/-- The program asks so many questions at most. -/
def AsksAtMost (n : ℕ) (p : Asking Q A α) : Prop :=
  ∀ log result, Trace p log result → log.length ≤ n

theorem AsksAtMost.pure (n : ℕ) (a : α) : AsksAtMost n (Pure.pure a : Asking Q A α) := by
  intro log result h
  rw [(trace_pure_iff.mp h).1]
  exact Nat.zero_le n

theorem AsksAtMost.mono {m n : ℕ} {p : Asking Q A α} (h : AsksAtMost m p) (hle : m ≤ n) :
    AsksAtMost n p :=
  fun log result ht => Nat.le_trans (h log result ht) hle

theorem AsksAtMost.question (q : Q) : AsksAtMost 1 (question q : Asking Q A (A q)) := by
  intro log result h
  cases h with
  | dropped => exact Nat.zero_le 1
  | answered answer rest =>
      cases rest
      exact Nat.le_refl 1

theorem AsksAtMost.bind {m n : ℕ} {p : Asking Q A α} {f : α → Asking Q A β}
    (h : AsksAtMost m p) (hf : ∀ a, AsksAtMost n (f a)) : AsksAtMost (m + n) (p >>= f) := by
  intro log result ht
  rcases trace_bind_iff.mp ht with ⟨_, hfirst⟩ | ⟨a, before, after, rfl, hfirst, hrest⟩
  · exact Nat.le_trans (h log none hfirst) (Nat.le_add_right m n)
  · rw [List.length_append]
    exact Nat.add_le_add (h before _ hfirst) (hf a after result hrest)

theorem AsksAtMost.firstSome {n : ℕ} {f : α → Asking Q A (Option β)} {as : List α}
    (h : ∀ a ∈ as, AsksAtMost n (f a)) : AsksAtMost (as.length * n) (firstSome f as) := by
  induction as with
  | nil => exact .pure _ none
  | cons a as ih =>
      have hhead := h a List.mem_cons_self
      have htail := ih fun b hb => h b (List.mem_cons_of_mem a hb)
      have hboth : AsksAtMost (n + as.length * n) (Asking.firstSome f (a :: as)) := by
        refine hhead.bind fun found => ?_
        cases found with
        | some b => exact .pure _ (some b)
        | none => exact htail
      refine hboth.mono (Nat.le_of_eq ?_)
      rw [List.length_cons, Nat.succ_mul, Nat.add_comm n]

/-! ## Where a first result comes from -/

/-- The elements before it gave nothing. -/
theorem trace_firstSome {f : α → Asking Q A (Option β)} {as : List α} {b : β}
    (h : Trace (firstSome f as) log (some (some b))) :
    ∃ front a back before after, as = front ++ a :: back ∧ log = before ++ after ∧
      Trace (firstSome f front) before (some none) ∧ Trace (f a) after (some (some b)) := by
  induction as generalizing log with
  | nil => cases h
  | cons a as ih =>
      obtain ⟨hnone, _⟩ | ⟨found, first, rest, rfl, hfirst, hrest⟩ := trace_bind_iff.mp h
      · cases hnone
      · cases found with
        | some b' =>
            obtain ⟨rfl, hb⟩ := trace_pure_iff.mp hrest
            cases hb
            exact ⟨[], a, as, [], first, rfl, by simp, .done none, hfirst⟩
        | none =>
            obtain ⟨front, a', back, before, after, rfl, rfl, hfront, ha'⟩ := ih hrest
            refine ⟨a :: front, a', back, first ++ before, after, rfl, by simp, ?_, ha'⟩
            exact trace_bind_iff.mpr (.inr ⟨none, first, before, rfl, hfirst, hfront⟩)

/-! ## One function answers -/

/-- The result if the answers are these. -/
def eval (answers : ∀ q, A q) : Asking Q A α → α
  | .done a => a
  | .ask q next => (next (answers q)).eval answers

@[simp] theorem eval_pure (answers : ∀ q, A q) (a : α) :
    eval answers (pure a : Asking Q A α) = a := rfl

@[simp] theorem eval_question (answers : ∀ q, A q) (q : Q) :
    eval answers (question q) = answers q := rfl

@[simp] theorem eval_bind (answers : ∀ q, A q) (p : Asking Q A α) (f : α → Asking Q A β) :
    eval answers (p >>= f) = eval answers (f (eval answers p)) := by
  change eval answers (p.bind f) = _
  induction p with
  | done a => rfl
  | ask q next ih => exact ih (answers q)

/-- The first result in a tree is the first one in a branch. -/
theorem findSome?_flatMap {γ : Type} (f : β → Option γ) (g : α → List β) (as : List α) :
    (as.flatMap g).findSome? f = as.findSome? fun a => (g a).findSome? f := by
  induction as with
  | nil => rfl
  | cons a as ih =>
      rw [List.flatMap_cons, List.findSome?_append, ih, List.findSome?_cons]
      cases (g a).findSome? f with
      | some c => rfl
      | none => rfl

theorem eval_firstSome (answers : ∀ q, A q) (f : α → Asking Q A (Option β)) (as : List α) :
    eval answers (firstSome f as) = as.findSome? fun a => eval answers (f a) := by
  induction as with
  | nil => rfl
  | cons a as ih =>
      rw [firstSome, eval_bind, List.findSome?_cons]
      cases eval answers (f a) with
      | some b => rfl
      | none => exact ih

/-- **A program that is not dropped gives the one result** if its log holds these answers. -/
theorem Trace.eval_eq {p : Asking Q A α} {a : α} {answers : ∀ q, A q}
    (h : Trace p log (some a)) (hlog : ∀ e ∈ log, e.answer = answers e.question) :
    eval answers p = a := by
  induction p generalizing log with
  | done a' =>
      cases h
      rfl
  | ask q next ih =>
      cases h with
      | answered answer rest =>
          have hanswer : answer = answers q := hlog ⟨q, answer⟩ List.mem_cons_self
          rw [eval, ← hanswer]
          exact ih answer rest fun e he => hlog e (List.mem_cons_of_mem _ he)

/-- Such a run there is. -/
theorem exists_trace_eval (answers : ∀ q, A q) (p : Asking Q A α) :
    ∃ log, Trace p log (some (eval answers p)) ∧ ∀ e ∈ log, e.answer = answers e.question := by
  induction p with
  | done a => exact ⟨[], .done a, by simp⟩
  | ask q next ih =>
      obtain ⟨log, h, hlog⟩ := ih (answers q)
      exact ⟨⟨q, answers q⟩ :: log, .answered (answers q) h, by simpa using hlog⟩

end Asking

end Sypherstore.Logic
