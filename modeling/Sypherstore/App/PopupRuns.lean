/-
# Runs of the popup

What a prompt is owed and what a hidden popup may hold, in any order of the worker's
events, key frames, drawn frames, focus losses and compositor closes. Both fail on an event
that comes at the wrong moment, and on nothing else: an event that takes the popup over
while a prompt is open, and a list that arrives after the popup was dismissed.
-/

import Sypherstore.App.PopupSteps

namespace Sypherstore

open Logic

/-- Libraries that find nothing. -/
def Searcher.plain : Searcher where
  psl _ := none
  score _ _ := none
  lowercase text := text

/-- The first moment. -/
def Moment.zero : Moment := ⟨0, 0, Block.replicate 16 0⟩

namespace Popup

variable {S : Searcher} {p p' : Popup} {input : Input} {inputs : List Input}

theorem onScreen_new : new.OnScreen := by
  intro hasks
  cases hasks

theorem OnScreen.step (hp : p.OnScreen) (h : Step S p input p') : p'.OnScreen := by
  intro hasks
  cases step_effect hp h with
  | kept hinput hquiet => exact hquiet.visible.trans (hp (hquiet.asks ▸ hasks))
  | answered _ hdone => simp [hdone] at hasks
  | dismissed _ _ hdismissed => simp [hdismissed.asks] at hasks
  | asked _ hvisible _ => exact hvisible
  | dropped _ _ hdone _ => simp [hdone] at hasks

/-- Every prompt that a run comes to is on screen. -/
theorem onScreen_of_run (h : Run (Step S) new inputs p) : p.OnScreen :=
  h.invariant (fun _ _ _ _ hq hstep => hq.step hstep) onScreen_new

/-! ## Prompts are answered -/

/-- The step leaves an open prompt, or opens another one in its place. -/
def Leaves (p : Popup) (input : Input) (p' : Popup) : Prop :=
  p.mode.asksPin ∧ (input.asksPin ∨ p'.mode.asksPin = false)

/-- A step that leaves a prompt sends one answer, and every other step sends none. -/
def Settles (p : Popup) (input : Input) (p' : Popup) : Prop :=
  (Leaves p input p' ∧ ∃ answer, answersIn p'.requests = answersIn p.requests ++ [answer]) ∨
    (¬ Leaves p input p' ∧ answersIn p'.requests = answersIn p.requests)

/-- No event takes the popup over while a prompt is open. -/
def Undisturbed (p : Popup) (input : Input) : Prop := p.mode.asksPin → input.interrupts = false

theorem Input.interrupts_of_asksPin {input : Input} (h : input.asksPin) : input.interrupts := by
  cases input with
  | event now e =>
      cases e with
      | requestPin retry => rfl
      | _ => cases h
  | _ => cases h

theorem Input.not_asksPin_of_gentle {input : Input} (h : input.interrupts = false) :
    input.asksPin = false := by
  by_contra hasks
  simp [Input.interrupts_of_asksPin (by simpa using hasks)] at h

/-- A step settles the prompt exactly when it is not disturbed. -/
theorem settles_iff (hp : p.OnScreen) (h : Step S p input p') :
    Settles p input p' ↔ Undisturbed p input := by
  unfold Settles Leaves Undisturbed
  cases step_effect hp h with
  | kept hinput hquiet =>
      simp [hinput, Input.not_asksPin_of_gentle hinput, hquiet.answers, hquiet.asks]
  | answered hasks hdone _ hsent =>
      simp [hasks, hdone, hsent, Input.interrupts, UiRequest.answer]
  | dismissed hinput hclosed hdismissed => simp [hclosed, hdismissed.answers]
  | asked hasks hvisible hsent => simp [hsent, Input.asksPin, Input.interrupts, DaemonEvent.asksPin]
  | dropped hinput hother hdone hsent => simp [hsent, hinput, hdone]

/-- How many prompts are open. -/
def openPrompts (p : Popup) : ℕ := if p.mode.asksPin then 1 else 0

theorem balance_step (hp : p.OnScreen) (hguard : Undisturbed p input) (h : Step S p input p') :
    (if input.asksPin then 1 else 0) + (answersIn p.requests).length + p.openPrompts =
      (answersIn p'.requests).length + p'.openPrompts := by
  unfold openPrompts
  cases step_effect hp h with
  | kept hinput hquiet =>
      simp [Input.not_asksPin_of_gentle hinput, hquiet.answers, hquiet.asks]
  | answered hasks hdone _ hsent => simp [hasks, hdone, hsent, Input.asksPin, UiRequest.answer]
  | dismissed hinput hclosed hdismissed =>
      simp [Input.not_asksPin_of_gentle hinput, hclosed, hdismissed.asks, hdismissed.answers]
  | asked hasks hvisible hsent =>
      have hclosed : p.mode.asksPin = false := by
        by_contra hopen
        cases hguard (by simpa using hopen)
      simp [hclosed, hasks, hsent, Input.asksPin, DaemonEvent.asksPin, Nat.add_comm]
  | dropped hinput hother hdone hsent =>
      have hclosed : p.mode.asksPin = false := by
        by_contra hopen
        simp [hguard (by simpa using hopen)] at hinput
      simp [hclosed, hother, hdone, hsent]

/-- The prompts opened are the answers sent and the prompt that is still open. -/
theorem prompts_eq_answers_add (h : Run (guarded (Step S) Undisturbed) new inputs p) :
    inputs.countP Input.asksPin = (answersIn p.requests).length + p.openPrompts := by
  have hboth : p.OnScreen ∧
      inputs.countP Input.asksPin = (answersIn p.requests).length + p.openPrompts := by
    refine h.history (R := fun past q => q.OnScreen ∧
      past.countP Input.asksPin = (answersIn q.requests).length + q.openPrompts) ?_
      ⟨onScreen_new, rfl⟩
    rintro past q a q' ⟨hscreen, hcount⟩ ⟨hstep, hguard⟩
    have hbalance := balance_step hscreen hguard hstep
    refine ⟨hscreen.step hstep, ?_⟩
    rw [List.countP_append, List.countP_singleton, hcount]
    omega
  exact hboth.2

/-- **Prompts are answered once.** A step deals with an open prompt as it should exactly
when no event takes the popup over, and in a run of such steps every prompt that was opened
has had one answer, but for the one that is open. -/
theorem prompts_are_answered (S : Searcher) :
    (∀ inputs p input p', Run (Step S) new inputs p → Step S p input p' →
      (Settles p input p' ↔ Undisturbed p input)) ∧
    ∀ inputs p, Run (guarded (Step S) Undisturbed) new inputs p →
      inputs.countP Input.asksPin = (answersIn p.requests).length + p.openPrompts := by
  constructor
  · intro inputs p input p' hrun hstep
    exact settles_iff (onScreen_of_run hrun) hstep
  · intro inputs p hrun
    exact prompts_eq_answers_add hrun

/-- A PIN is asked for, typed and submitted. -/
theorem a_typed_pin_is_answered :
    ∃ p, Run (guarded (Step .plain) Undisturbed) new
        [.event 0 (.requestPin false), .draw .zero { Gestures.none with pin := some "1234" },
          .tick .zero { Keys.none with enter := true }] p ∧
      answersIn p.requests = [some "1234"] ∧
      1 = (answersIn p.requests).length + p.openPrompts := by
  have hrun : ∃ p, Run (guarded (Step .plain) Undisturbed) new
      [.event 0 (.requestPin false), .draw .zero { Gestures.none with pin := some "1234" },
        .tick .zero { Keys.none with enter := true }] p ∧
      answersIn p.requests = [some "1234"] := by
    refine ⟨_, .cons ⟨rfl, ?_⟩ (.cons ⟨rfl, ?_⟩ (.cons ⟨rfl, ?_⟩ (.nil _))), by decide⟩
    · intro hasks
      cases hasks
    · exact fun _ => rfl
    · exact fun _ => rfl
  obtain ⟨p, hrun, hanswers⟩ := hrun
  exact ⟨p, hrun, hanswers, (prompts_are_answered .plain).2 _ _ hrun⟩

/-- A second press of the hotkey shows the list in place of the prompt, which is never
answered. -/
theorem a_prompt_is_dropped :
    ∃ p p', Run (Step .plain) new [.event 0 (.requestPin false)] p ∧
      Step .plain p (.event 0 (.showPopup [] none none)) p' ∧
      Leaves p (.event 0 (.showPopup [] none none)) p' ∧ answersIn p'.requests = [] ∧
      ¬ Settles p (.event 0 (.showPopup [] none none)) p' := by
  refine ⟨_, _, .single rfl, rfl, ⟨rfl, .inr rfl⟩, rfl, ?_⟩
  rintro (⟨_, answer, hanswer⟩ | ⟨hstays, _⟩)
  · cases hanswer
  · exact hstays ⟨rfl, .inr rfl⟩

/-! ## A hidden popup holds nothing -/

/-- No list, no query, and neither a form nor a prompt. -/
def Empty (p : Popup) : Prop :=
  p.secrets = [] ∧ p.ranked = [] ∧ p.query = "" ∧ p.mode = .list

/-- The popup is on screen, or it holds nothing. -/
def Discreet (p : Popup) : Prop := p.visible = false → p.Empty

/-- The input hands a list to a popup that was dismissed. -/
def arrivesLate (p : Popup) : Input → Bool
  | .event _ (.refresh secrets) => !p.visible && !secrets.isEmpty
  | _ => false

theorem discreet_new : new.Discreet := fun _ => ⟨rfl, rfl, rfl, rfl⟩

theorem discreet_of_visible (h : p.visible) : p.Discreet := by
  intro hhidden
  simp [h] at hhidden

theorem Discreet.hide (h : p.Discreet) : p.hide.Discreet := by
  unfold Popup.hide
  split
  · exact fun _ => ⟨rfl, rfl, rfl, rfl⟩
  · exact h

/-- A change of what a hidden popup does not lose. -/
theorem Discreet.of_eq (h : p.Discreet) (hvisible : p'.visible = p.visible)
    (hsecrets : p'.secrets = p.secrets) (hranked : p'.ranked = p.ranked)
    (hquery : p'.query = p.query) (hmode : p'.mode = p.mode) : p'.Discreet := by
  intro hhidden
  obtain ⟨h₁, h₂, h₃, h₄⟩ := h (hvisible ▸ hhidden)
  exact ⟨hsecrets.trans h₁, hranked.trans h₂, hquery.trans h₃, hmode.trans h₄⟩

theorem discreet_refresh_iff (h : p.Discreet) (secrets : List SecretMeta) :
    (rerank S { p with secrets }).Discreet ↔ p.visible = false → secrets = [] := by
  constructor
  · intro hafter hhidden
    exact (hafter hhidden).1
  · intro hempty hhidden
    obtain ⟨_, _, hquery, hmode⟩ := h hhidden
    obtain rfl := hempty hhidden
    exact ⟨rfl, S.rank_nil _ _, hquery, hmode⟩

theorem discreet_handleEvent_iff (h : p.Discreet) (now : Instant) (event : DaemonEvent) :
    (p.handleEvent S now event).Discreet ↔ p.arrivesLate (.event now event) = false := by
  cases event with
  | showPopup secrets host application => exact iff_of_true (discreet_of_visible rfl) rfl
  | hide => exact iff_of_true h.hide rfl
  | lockChanged state => exact iff_of_true (h.of_eq rfl rfl rfl rfl rfl) rfl
  | error notice => exact iff_of_true (h.of_eq rfl rfl rfl rfl rfl) rfl
  | status text => exact iff_of_true (h.of_eq rfl rfl rfl rfl rfl) rfl
  | editReady m payload => exact iff_of_true (discreet_of_visible rfl) rfl
  | refresh secrets =>
      apply (discreet_refresh_iff h secrets).trans
      cases hvisible : p.visible <;> simp [arrivesLate, hvisible]
  | requestPin retry => exact iff_of_true (discreet_of_visible rfl) rfl

theorem Discreet.tick (h : p.Discreet) (moment : Moment) (keys : Keys) :
    (p.tick moment keys).Discreet := by
  obtain ⟨message, hexpired⟩ := exists_expireMessage moment.now p
  cases hvisible : p.visible with
  | false =>
      rw [tick_of_hidden moment keys hvisible, hexpired]
      exact h.of_eq rfl rfl rfl rfl rfl
  | true =>
      rw [tick_of_visible moment keys hvisible, hexpired, afterKeys]
      have hshown := (visible_handleKeys moment keys { p with message }).trans hvisible
      split
      · exact (discreet_of_visible hshown).hide
      · exact discreet_of_visible hshown

/-- A step of a discreet popup leaves it so exactly when no list arrives late. -/
theorem discreet_step_iff (h : p.Discreet) (hstep : Step S p input p') :
    p'.Discreet ↔ p.arrivesLate input = false := by
  cases input with
  | event now event =>
      cases hstep
      exact discreet_handleEvent_iff h now event
  | tick moment keys =>
      cases hstep
      exact iff_of_true (h.tick moment keys) rfl
  | draw moment gestures =>
      dsimp only [Step, next] at hstep
      split at hstep
      · rename_i hvisible
        cases hstep
        have hshown := (quiet_draw (S := S) moment gestures p).visible.trans hvisible
        exact iff_of_true (discreet_of_visible hshown) rfl
      · cases hstep
  | closed =>
      cases hstep
      exact iff_of_true h.hide rfl
  | focusLost =>
      cases hstep
      refine iff_of_true ?_ rfl
      unfold loseFocus
      split
      · exact h
      · exact h.hide

/-- **A hidden popup holds nothing**, as long as no list arrives after a dismissal, and in
such a state the next step breaks this exactly when one does. -/
theorem hidden_popup_holds_nothing (S : Searcher) :
    ∀ inputs p, Run (guarded (Step S) fun q input => q.arrivesLate input = false) new inputs p →
      p.Discreet ∧
        ∀ input p', Step S p input p' → (p'.Discreet ↔ p.arrivesLate input = false) := by
  intro inputs p hrun
  have hdiscreet : p.Discreet := by
    apply hrun.invariant (I := Discreet) _ discreet_new
    rintro q input q' _ hq ⟨hstep, hguard⟩
    exact (discreet_step_iff hq hstep).mpr hguard
  exact ⟨hdiscreet, fun input p' hstep => discreet_step_iff hdiscreet hstep⟩

/-- A list is shown and dismissed. -/
theorem a_dismissed_popup_holds_nothing :
    ∃ p, Run (guarded (Step .plain) fun q input => q.arrivesLate input = false) new
        [.event 0 (.showPopup [default] none none),
          .tick .zero { Keys.none with escape := true }] p ∧
      p.visible = false ∧ p.Empty := by
  have hrun : ∃ p, Run (guarded (Step .plain) fun q input => q.arrivesLate input = false) new
      [.event 0 (.showPopup [default] none none),
        .tick .zero { Keys.none with escape := true }] p ∧ p.visible = false :=
    ⟨_, .cons ⟨rfl, rfl⟩ (.cons ⟨rfl, rfl⟩ (.nil _)), rfl⟩
  obtain ⟨p, hrun, hhidden⟩ := hrun
  exact ⟨p, hrun, hhidden, (hidden_popup_holds_nothing .plain _ _ hrun).1 hhidden⟩

/-- An unlock finishes after the user has dismissed the popup, and the popup keeps the list
that was sent for it. -/
theorem a_late_list_is_held :
    ∃ p, Run (Step .plain) new
        [.event 0 (.showPopup [] none none), .tick .zero { Keys.none with escape := true },
          .event 0 (.refresh [default])] p ∧
      p.visible = false ∧ p.secrets = [default] ∧ ¬ p.Discreet := by
  refine ⟨_, .cons rfl (.cons rfl (.cons rfl (.nil _))), rfl, rfl, ?_⟩
  intro hdiscreet
  cases (hdiscreet rfl).1

end Popup

end Sypherstore
