/-
# Forms under way

A form that is open holds work the user has not saved. What becomes of it is followed here
through any order of the worker's events, key frames, drawn frames, focus losses and
compositor closes. Losing the focus never costs the form; an event that shows something
else in its place does.
-/

import Sypherstore.App.PopupRuns

namespace Sypherstore

open Logic

namespace Editor

/-- What has been entered, apart from how the form shows it. -/
def entered (editor : Editor) : Editor :=
  { editor with reveal := false, focus := .name, focusDirty := false, error := none }

/-- The form passes the checks of a save. -/
def valid (editor : Editor) : Bool := !(trim editor.name).isEmpty && !editor.value.isEmpty

/-- The form after what the user typed with an input. -/
def typed (editor : Editor) : Popup.Input → Editor
  | .draw _ gestures => editor.drawn gestures.form
  | _ => editor

/-- The form is closed deliberately: by Escape, by Cancel, by a save that validates, or by
the compositor. -/
def givenUp (editor : Editor) : Popup.Input → Bool
  | .tick _ keys => keys.escape || keys.ctrl && keys.s && editor.valid
  | .draw _ gestures =>
      gestures.cancelClicked || gestures.saveClicked && (editor.drawn gestures.form).valid
  | .closed => true
  | _ => false

/-- The worker has the popup show something other than what is in the form. -/
def replacedBy (editor : Editor) : Popup.Input → Prop
  | .event _ (.showPopup _ _ _) | .event _ .hide | .event _ (.requestPin _) => True
  | .event _ (.editReady m payload) => (fromExisting m payload).entered ≠ editor.entered
  | _ => False

theorem entered_typed {a b : Editor} (h : a.entered = b.entered) (input : Popup.Input) :
    (a.typed input).entered = (b.typed input).entered := by
  cases input with
  | draw moment gestures =>
      simp only [entered, Editor.mk.injEq] at h
      simp [typed, entered, drawn, h]
  | _ => exact h

/-- A form that does not validate is left as it is. -/
theorem build_of_not_valid {editor : Editor} (h : editor.valid = false) (now : Int64)
    (fresh : Uuid) : ∃ message, editor.build now fresh = (.error message, editor) := by
  unfold build
  split
  · exact ⟨_, rfl⟩
  · rename_i hname
    split
    · exact ⟨_, rfl⟩
    · rename_i hvalue
      simp [valid, hname, hvalue] at h

end Editor

namespace Popup

variable {S : Searcher} {p p' : Popup} {input : Input} {inputs : List Input} {editor : Editor}

/-! ## A hidden popup shows the list -/

/-- Whatever is off the screen has been put away. -/
def Stowed (p : Popup) : Prop := p.visible = false → p.mode = .list

theorem stowed_new : new.Stowed := fun _ => rfl

theorem stowed_of_visible (h : p.visible) : p.Stowed := by
  intro hhidden
  simp [h] at hhidden

theorem Stowed.hide (h : p.Stowed) : p.hide.Stowed := by
  unfold Popup.hide
  split
  · exact fun _ => rfl
  · exact h

theorem Stowed.tick (h : p.Stowed) (moment : Moment) (keys : Keys) :
    (p.tick moment keys).Stowed := by
  obtain ⟨message, hexpired⟩ := exists_expireMessage moment.now p
  cases hvisible : p.visible with
  | false =>
      rw [tick_of_hidden moment keys hvisible, hexpired]
      exact h
  | true =>
      rw [tick_of_visible moment keys hvisible, hexpired, afterKeys]
      have hshown := (visible_handleKeys moment keys { p with message }).trans hvisible
      split
      · exact (stowed_of_visible hshown).hide
      · exact stowed_of_visible hshown

theorem Stowed.handleEvent (h : p.Stowed) (now : Instant) (event : DaemonEvent) :
    (p.handleEvent S now event).Stowed := by
  cases event with
  | showPopup secrets host application => exact fun _ => rfl
  | hide => exact h.hide
  | lockChanged state => exact h
  | error notice => exact h
  | status text => exact h
  | editReady m payload => exact stowed_of_visible rfl
  | refresh secrets => exact h
  | requestPin retry => exact stowed_of_visible rfl

theorem Stowed.step (h : p.Stowed) (hstep : Step S p input p') : p'.Stowed := by
  cases input with
  | event now event =>
      cases hstep
      exact h.handleEvent now event
  | tick moment keys =>
      cases hstep
      exact h.tick moment keys
  | draw moment gestures =>
      dsimp only [Step, next] at hstep
      split at hstep
      · rename_i hvisible
        cases hstep
        exact stowed_of_visible ((quiet_draw (S := S) moment gestures p).visible.trans hvisible)
      · cases hstep
  | closed =>
      cases hstep
      exact h.hide
  | focusLost =>
      cases hstep
      unfold loseFocus
      split
      · exact h
      · exact h.hide

/-! ## What a step does to the form -/

/-- The form is still open, with what the user has entered in it, or it was given up. -/
def KeepsForm (p : Popup) (input : Input) (p' : Popup) : Prop :=
  ∀ editor, p.mode = .edit editor → editor.givenUp input ∨
    ∃ editor', p'.mode = .edit editor' ∧ editor'.entered = (editor.typed input).entered

/-- The worker does not take the popup from an open form. -/
def FormUndisturbed (p : Popup) (input : Input) : Prop :=
  ∀ editor, p.mode = .edit editor → ¬ editor.replacedBy input

/-- Saving a form that does not validate leaves it open, with a message. -/
theorem saveEditor_of_not_valid (moment : Moment) (hmode : p.mode = .edit editor)
    (h : editor.valid = false) :
    ∃ message, p.saveEditor moment =
      { p with mode := .edit { editor with error := some message } } := by
  obtain ⟨message, hbuild⟩ := editor.build_of_not_valid h moment.unix moment.uuid
  exact ⟨message, by simp [saveEditor, hmode, hbuild]⟩

theorem form_handleEditKeys (moment : Moment) (keys : Keys) (hmode : p.mode = .edit editor)
    (h : editor.givenUp (.tick moment keys) = false) :
    ∃ editor', (p.handleEditKeys moment keys).mode = .edit editor' ∧
      editor'.entered = editor.entered := by
  simp only [Editor.givenUp, Bool.or_eq_false_iff] at h
  obtain ⟨hescape, hsave⟩ := h
  -- Tab comes before Ctrl+S, and changes nothing that a save looks at
  have htab : ∃ current,
      (if keys.tab then { p with mode := .edit (editor.cycleFocus keys.shift) } else p).mode =
        .edit current ∧ current.entered = editor.entered ∧ current.valid = editor.valid := by
    split
    · exact ⟨_, rfl, rfl, rfl⟩
    · exact ⟨editor, hmode, rfl, rfl⟩
  obtain ⟨current, hcurrent, hentered, hvalid⟩ := htab
  simp only [handleEditKeys, hescape, hmode, Bool.false_eq_true, if_false]
  split
  · rename_i hkeys
    have hinvalid : current.valid = false := by
      rw [hvalid]
      simpa [hkeys] using hsave
    obtain ⟨message, hsaved⟩ := saveEditor_of_not_valid moment hcurrent hinvalid
    rw [hsaved]
    exact ⟨_, rfl, hentered⟩
  · exact ⟨current, hcurrent, hentered⟩

theorem form_tick (moment : Moment) (keys : Keys) (hmode : p.mode = .edit editor)
    (h : editor.givenUp (.tick moment keys) = false) :
    ∃ editor', (p.tick moment keys).mode = .edit editor' ∧
      editor'.entered = editor.entered := by
  obtain ⟨message, hexpired⟩ := exists_expireMessage moment.now p
  cases hvisible : p.visible with
  | false =>
      rw [tick_of_hidden moment keys hvisible, hexpired]
      exact ⟨editor, hmode, rfl⟩
  | true =>
      have hkeys : handleKeys moment keys { p with message } =
          (false, handleEditKeys moment keys { p with message }) := by
        simp [handleKeys, hmode]
      rw [tick_of_visible moment keys hvisible, hexpired, afterKeys, hkeys]
      exact form_handleEditKeys moment keys hmode h

theorem form_draw (moment : Moment) (gestures : Gestures) (hmode : p.mode = .edit editor)
    (h : editor.givenUp (.draw moment gestures) = false) :
    ∃ editor', (p.draw S moment gestures).mode = .edit editor' ∧
      editor'.entered = (editor.drawn gestures.form).entered := by
  simp only [Editor.givenUp, Bool.or_eq_false_iff] at h
  obtain ⟨hcancel, hsave⟩ := h
  simp only [draw, drawEditMode, hmode, hcancel, Bool.false_eq_true, if_false]
  split
  · rename_i hclicked
    have hinvalid : (editor.drawn gestures.form).valid = false := by
      simpa [hclicked] using hsave
    have hdrawn : { p with mode := .edit (editor.drawn gestures.form) }.mode =
        .edit (editor.drawn gestures.form) := rfl
    obtain ⟨message, hsaved⟩ := saveEditor_of_not_valid moment hdrawn hinvalid
    rw [hsaved]
    exact ⟨_, rfl, rfl⟩
  · exact ⟨_, rfl, rfl⟩

/-- An event leaves the form as it is exactly when it does not replace it. -/
theorem form_handleEvent_iff (now : Instant) (event : DaemonEvent) (hmode : p.mode = .edit editor)
    (hvisible : p.visible) :
    (∃ editor', (p.handleEvent S now event).mode = .edit editor' ∧
      editor'.entered = editor.entered) ↔ ¬ editor.replacedBy (.event now event) := by
  have hkept : ∃ editor', p.mode = .edit editor' ∧ editor'.entered = editor.entered :=
    ⟨editor, hmode, rfl⟩
  cases event with
  | showPopup secrets host application =>
      simp [handleEvent, Editor.replacedBy]
  | hide => simp [handleEvent, Editor.replacedBy, Popup.hide, hvisible, send]
  | lockChanged state => exact iff_of_true hkept id
  | error notice => exact iff_of_true hkept id
  | status text => exact iff_of_true hkept id
  | editReady m payload => simp [handleEvent, Editor.replacedBy]
  | refresh secrets => exact iff_of_true hkept id
  | requestPin retry => simp [handleEvent, Editor.replacedBy]

/-- A step keeps an open form exactly when the worker does not take the popup from it. -/
theorem keepsForm_iff (hp : p.Stowed) (h : Step S p input p') :
    KeepsForm p input p' ↔ FormUndisturbed p input := by
  unfold KeepsForm FormUndisturbed
  refine forall_congr' fun editor => forall_congr' fun hmode => ?_
  have hvisible : p.visible := by
    by_contra hhidden
    have hlist := hp (by simpa using hhidden)
    simp [hmode] at hlist
  cases input with
  | event now event =>
      cases h
      apply (or_iff_right Bool.false_ne_true).trans
      exact form_handleEvent_iff now event hmode hvisible
  | tick moment keys =>
      cases h
      refine iff_of_true ?_ id
      cases hgiven : editor.givenUp (.tick moment keys) with
      | true => exact .inl rfl
      | false => exact .inr (form_tick moment keys hmode hgiven)
  | draw moment gestures =>
      dsimp only [Step, next] at h
      rw [if_pos hvisible] at h
      cases h
      refine iff_of_true ?_ id
      cases hgiven : editor.givenUp (.draw moment gestures) with
      | true => exact .inl rfl
      | false => exact .inr (form_draw moment gestures hmode hgiven)
  | closed => exact iff_of_true (.inl rfl) id
  | focusLost =>
      cases h
      have hkept : p.loseFocus = p := by simp [loseFocus, keepOpenOnFocusLoss, hmode]
      rw [hkept]
      exact iff_of_true (.inr ⟨editor, hmode, rfl⟩) id

/-! ## Runs -/

theorem stowed_of_run (h : Run (Step S) new inputs p) : p.Stowed :=
  h.invariant (fun _ _ _ _ hq hstep => hq.step hstep) stowed_new

/-- The form on screen is given up with an input. -/
def GivesUp (p : Popup) (input : Input) : Prop :=
  ∃ editor, p.mode = .edit editor ∧ editor.givenUp input

/-- While it is neither disturbed nor given up, a form holds what was typed into it. -/
theorem form_of_run (hp : p.Stowed) (hmode : p.mode = .edit editor)
    (h : Run (guarded (Step S) fun q input => FormUndisturbed q input ∧ ¬ q.GivesUp input)
      p inputs p') :
    ∃ editor', p'.mode = .edit editor' ∧
      editor'.entered = (inputs.foldl Editor.typed editor).entered := by
  have hboth : p'.Stowed ∧ ∃ editor', p'.mode = .edit editor' ∧
      editor'.entered = (inputs.foldl Editor.typed editor).entered := by
    refine h.simulation (R := fun q (typed : Editor) => q.Stowed ∧ ∃ editor',
      q.mode = .edit editor' ∧ editor'.entered = typed.entered) ?_ ⟨hp, editor, hmode, rfl⟩
    rintro q input q' typed _ ⟨hq, current, hcurrent, hentered⟩ ⟨hstep, hundisturbed, hkept⟩
    refine ⟨hq.step hstep, ?_⟩
    rcases (keepsForm_iff hq hstep).mpr hundisturbed current hcurrent with hgiven | hnext
    · exact absurd ⟨current, hcurrent, hgiven⟩ hkept
    · obtain ⟨next, hnext, hsame⟩ := hnext
      exact ⟨next, hnext, hsame.trans (Editor.entered_typed hentered input)⟩
  exact hboth.2

/-- **Half-entered work is kept.** A step keeps the form that is open, unless it is given up,
exactly when the worker does not take the popup from it; and in a run of such steps a form
that was not given up is still there, with everything that was typed into it. -/
theorem forms_are_kept (S : Searcher) :
    (∀ inputs p input p', Run (Step S) new inputs p → Step S p input p' →
      (KeepsForm p input p' ↔ FormUndisturbed p input)) ∧
    ∀ before p editor after p', Run (Step S) new before p → p.mode = .edit editor →
      Run (guarded (Step S) fun q input => FormUndisturbed q input ∧ ¬ q.GivesUp input)
        p after p' →
      ∃ editor', p'.mode = .edit editor' ∧
        editor'.entered = (after.foldl Editor.typed editor).entered := by
  constructor
  · intro inputs p input p' hrun hstep
    exact keepsForm_iff (stowed_of_run hrun) hstep
  · intro before p editor after p' hbefore hmode hafter
    exact form_of_run (stowed_of_run hbefore) hmode hafter

/-- The popup is opened, and the user starts to add a secret. -/
def startedForm (name : String) : List Input :=
  [.event 0 (.showPopup [] none none), .tick .zero { Keys.none with ctrl := true, n := true },
    .draw .zero { Gestures.none with form := { Gestures.none.form with name := some name } }]

theorem exists_startedForm (name : String) :
    ∃ p editor, Run (Step .plain) new (startedForm name) p ∧ p.mode = .edit editor ∧
      editor.name = name :=
  ⟨_, _, .cons rfl (.cons rfl (.cons rfl (.nil _))), rfl, rfl⟩

/-- The user clicks away to copy a value, and a list arrives meanwhile. -/
theorem a_form_survives_a_click_away :
    ∃ p p' editor editor', Run (Step .plain) new (startedForm "GitHub") p ∧
      p.mode = .edit editor ∧ editor.name = "GitHub" ∧
      Run (guarded (Step .plain) fun q input => FormUndisturbed q input ∧ ¬ q.GivesUp input) p
        [.focusLost, .event 0 (.refresh [default])] p' ∧
      p'.mode = .edit editor' ∧ editor'.entered = editor.entered := by
  obtain ⟨p, editor, hbefore, hmode, hname⟩ := exists_startedForm "GitHub"
  have hlost : p.loseFocus = p := by simp [loseFocus, keepOpenOnFocusLoss, hmode]
  have hafter : ∃ p', Run (guarded (Step .plain) fun q input =>
      FormUndisturbed q input ∧ ¬ q.GivesUp input) p
      [.focusLost, .event 0 (.refresh [default])] p' := by
    refine ⟨_, .cons ⟨congrArg some hlost, fun _ _ => id, ?_⟩
      (.cons ⟨rfl, fun _ _ => id, ?_⟩ (.nil _))⟩
    · rintro ⟨_, _, hgiven⟩
      cases hgiven
    · rintro ⟨_, _, hgiven⟩
      cases hgiven
  obtain ⟨p', hafter⟩ := hafter
  obtain ⟨editor', hmode', hentered⟩ :=
    (forms_are_kept .plain).2 _ _ _ _ _ hbefore hmode hafter
  exact ⟨p, p', editor, editor', hbefore, hmode, hname, hafter, hmode', hentered⟩

/-- An assertion asks for its PIN while the user is adding a secret, and the form is gone. -/
theorem a_prompt_discards_a_form :
    ∃ p p', Run (Step .plain) new (startedForm "GitHub") p ∧
      Step .plain p (.event 0 (.requestPin false)) p' ∧
      (∃ editor, p.mode = .edit editor ∧ editor.name = "GitHub") ∧
      (∀ editor, p'.mode ≠ .edit editor) ∧ ¬ KeepsForm p (.event 0 (.requestPin false)) p' := by
  obtain ⟨p, editor, hrun, hmode, hname⟩ := exists_startedForm "GitHub"
  refine ⟨p, _, hrun, rfl, ⟨editor, hmode, hname⟩, fun _ => Mode.noConfusion, ?_⟩
  intro hkeeps
  rcases hkeeps editor hmode with hgiven | ⟨_, hstays, _⟩
  · cases hgiven
  · cases hstays

end Popup

end Sypherstore
