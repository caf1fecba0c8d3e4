/-
# What a step of the popup does to its prompt

A prompt is opened by one event and answered by two keys. Everything else either leaves the
prompt, the answers sent and the visibility as they are, or takes a prompt away without an
answer. This is said once for every handler here; the runs of the popup build on it.
-/

import Sypherstore.App.Popup

namespace Sypherstore

open Logic

/-- The PIN prompt is shown. -/
def Mode.asksPin : Mode → Bool
  | .pin _ => true
  | _ => false

/-- The answer a request carries. -/
def UiRequest.answer : UiRequest → Option (Option String)
  | .pinResponse pin => some pin
  | _ => none

/-- The answers among some requests, in their order. -/
def answersIn (requests : List UiRequest) : List (Option String) :=
  requests.filterMap UiRequest.answer

@[simp] theorem answersIn_nil : answersIn [] = [] := rfl

@[simp] theorem answersIn_append (requests more : List UiRequest) :
    answersIn (requests ++ more) = answersIn requests ++ answersIn more :=
  List.filterMap_append

@[simp] theorem answersIn_cons (r : UiRequest) (requests : List UiRequest) :
    answersIn (r :: requests) = r.answer.toList ++ answersIn requests := by
  cases r <;> rfl

namespace Popup

variable {S : Searcher} {p p' p'' : Popup}

/-! ## Steps that leave the prompt alone -/

/-- The prompt, the answers sent and the visibility are as before. -/
structure Quiet (p p' : Popup) : Prop where
  visible : p'.visible = p.visible
  asks : p'.mode.asksPin = p.mode.asksPin
  answers : answersIn p'.requests = answersIn p.requests

theorem Quiet.refl (p : Popup) : Quiet p p := ⟨rfl, rfl, rfl⟩

theorem Quiet.trans (h : Quiet p p') (h' : Quiet p' p'') : Quiet p p'' :=
  ⟨h'.visible.trans h.visible, h'.asks.trans h.asks, h'.answers.trans h.answers⟩

theorem quiet_send {r : UiRequest} (hr : r.answer = none) : Quiet p (p.send r) :=
  ⟨rfl, rfl, by simp [send, hr]⟩

theorem quiet_activateSelected (p : Popup) : Quiet p p.activateSelected := by
  unfold activateSelected
  split
  · exact .refl p
  · split
    · exact quiet_send rfl
    · exact quiet_send rfl
    · exact .refl p

theorem quiet_saveEditor (moment : Moment) (p : Popup) : Quiet p (p.saveEditor moment) := by
  unfold saveEditor
  split
  · rename_i editor hmode
    split
    · exact ⟨rfl, by simp [hmode, Mode.asksPin], (quiet_send rfl).answers⟩
    · exact ⟨rfl, by simp [hmode, Mode.asksPin], rfl⟩
  · exact .refl p

theorem quiet_moveUp (p : Popup) : Quiet p p.moveUp := by
  unfold moveUp
  split
  · exact ⟨rfl, rfl, rfl⟩
  · exact .refl p

theorem quiet_moveDown (p : Popup) : Quiet p p.moveDown := by
  unfold moveDown
  split
  · exact ⟨rfl, rfl, rfl⟩
  · exact .refl p

/-- A step that is taken only under a condition. -/
theorem Quiet.ite {condition : Bool} (h : Quiet p p') : Quiet p (if condition then p' else p) := by
  split
  · exact h
  · exact .refl p

theorem quiet_handleListKeys (moment : Moment) (keys : Keys) (hclosed : p.mode.asksPin = false) :
    Quiet p (p.handleListKeys moment keys).2 := by
  unfold handleListKeys
  split
  · exact .refl p
  · split
    · exact ⟨rfl, hclosed.symm, rfl⟩
    · split
      · split
        · exact quiet_send rfl
        · exact .refl p
      · split
        · split
          · exact ⟨rfl, hclosed.symm, rfl⟩
          · exact .refl p
        · have htouched : Quiet p (if keys.up || keys.down then p.send .touch else p) :=
            (quiet_send rfl).ite
          exact ((htouched.trans (quiet_moveUp _).ite).trans (quiet_moveDown _).ite).trans
            (quiet_activateSelected _).ite

theorem quiet_handleEditKeys (moment : Moment) (keys : Keys) (hclosed : p.mode.asksPin = false) :
    Quiet p (p.handleEditKeys moment keys) := by
  unfold handleEditKeys
  split
  · exact ⟨rfl, hclosed.symm, rfl⟩
  · split
    · rename_i editor hmode
      have hfocus : Quiet p
          (if keys.tab then { p with mode := .edit (editor.cycleFocus keys.shift) } else p) :=
        Quiet.ite ⟨rfl, hclosed.symm, rfl⟩
      exact hfocus.trans (quiet_saveEditor moment _).ite
    · exact .refl p

theorem quiet_handleConfirmKeys (keys : Keys) (hclosed : p.mode.asksPin = false) :
    Quiet p (p.handleConfirmKeys keys) := by
  unfold handleConfirmKeys
  split
  · exact ⟨rfl, hclosed.symm, rfl⟩
  · split
    · split
      · exact ⟨rfl, hclosed.symm, (quiet_send rfl).answers⟩
      · exact ⟨rfl, hclosed.symm, rfl⟩
    · exact .refl p

/-- Outside the prompt no key opens one or answers one. -/
theorem quiet_handleKeys (moment : Moment) (keys : Keys) (hclosed : p.mode.asksPin = false) :
    Quiet p (p.handleKeys moment keys).2 := by
  unfold handleKeys
  split
  · exact quiet_handleListKeys moment keys hclosed
  · exact quiet_handleEditKeys moment keys hclosed
  · exact quiet_handleConfirmKeys keys hclosed
  · rename_i hmode
    simp [hmode, Mode.asksPin] at hclosed

theorem exists_expireMessage (now : Instant) (p : Popup) :
    ∃ message, p.expireMessage now = { p with message } := by
  unfold expireMessage
  split
  · split
    · exact ⟨none, rfl⟩
    · exact ⟨p.message, rfl⟩
  · exact ⟨p.message, rfl⟩

theorem quiet_drawList (gestures : Gestures) (hclosed : p.mode.asksPin = false) :
    Quiet p (p.drawList gestures) := by
  unfold drawList
  split
  · exact .refl p
  · dsimp only
    split
    · split
      · exact ⟨rfl, hclosed.symm, rfl⟩
      · exact ⟨rfl, rfl, rfl⟩
    · split
      · split
        · exact ⟨rfl, rfl, by simp [send, UiRequest.answer]⟩
        · exact ⟨rfl, rfl, rfl⟩
      · split
        · refine Quiet.trans ?_ (quiet_activateSelected _)
          exact ⟨rfl, rfl, rfl⟩
        · exact ⟨rfl, rfl, rfl⟩

theorem quiet_drawListMode (moment : Moment) (gestures : Gestures)
    (hclosed : p.mode.asksPin = false) : Quiet p (p.drawListMode S moment gestures) := by
  unfold drawListMode
  split
  · exact ⟨rfl, hclosed.symm, rfl⟩
  · split
    · refine Quiet.trans ?_ (quiet_drawList gestures hclosed)
      exact ⟨rfl, rfl, by simp [send, rerank, UiRequest.answer]⟩
    · refine Quiet.trans ?_ (quiet_drawList gestures hclosed)
      exact ⟨rfl, rfl, rfl⟩

theorem quiet_drawEditMode (moment : Moment) (gestures : Gestures)
    (hclosed : p.mode.asksPin = false) : Quiet p (p.drawEditMode moment gestures) := by
  unfold drawEditMode
  split
  · split
    · exact ⟨rfl, hclosed.symm, rfl⟩
    · split
      · refine Quiet.trans ?_ (quiet_saveEditor moment _)
        exact ⟨rfl, hclosed.symm, rfl⟩
      · exact ⟨rfl, hclosed.symm, rfl⟩
  · exact .refl p

/-- Drawing neither opens a prompt nor answers one. -/
theorem quiet_draw (moment : Moment) (gestures : Gestures) (p : Popup) :
    Quiet p (p.draw S moment gestures) := by
  unfold draw
  split
  · rename_i hmode
    exact quiet_drawListMode moment gestures (by simp [hmode, Mode.asksPin])
  · rename_i hmode
    exact quiet_drawEditMode moment gestures (by simp [hmode, Mode.asksPin])
  · exact .refl p
  · unfold drawPinMode
    split
    · rename_i hmode
      exact ⟨rfl, by simp [hmode, Mode.asksPin], rfl⟩
    · exact .refl p

/-! ## Closing the popup -/

/-- A dismissed popup shows no prompt, and dismissing it answers none. -/
structure Dismissed (p p' : Popup) : Prop where
  visible : p'.visible = false
  asks : p'.mode.asksPin = false
  answers : answersIn p'.requests = answersIn p.requests

theorem hide_of_hidden (h : p.visible = false) : p.hide = p := by simp [hide, h]

theorem dismissed_hide (h : p.visible) : Dismissed p p.hide := by
  have hhide : p.hide = { p with
      visible := false, mode := .list, secrets := [], ranked := [], query := "" }.send .dismissed :=
    if_pos h
  rw [hhide]
  exact ⟨rfl, rfl, by simp [send, UiRequest.answer]⟩

theorem hidden_hide (p : Popup) : p.hide.visible = false := by
  cases hvisible : p.visible with
  | false => rw [hide_of_hidden hvisible, hvisible]
  | true => exact (dismissed_hide hvisible).visible

theorem Quiet.dismissed (h : Quiet p p') (h' : Dismissed p' p'') : Dismissed p p'' :=
  ⟨h'.visible, h'.asks, h'.answers.trans h.answers⟩

/-! ## Every step -/

/-- Handling the input takes an open prompt away. -/
def Input.interrupts : Input → Bool
  | .event _ (.showPopup _ _ _) | .event _ .hide | .event _ (.editReady _ _)
  | .event _ (.requestPin _) | .closed => true
  | _ => false

/-- The input is the worker asking for a PIN. -/
def Input.asksPin : Input → Bool
  | .event _ e => e.asksPin
  | _ => false

/-- The keys answer the open prompt. -/
def submits (keys : Keys) (p : Popup) : Bool :=
  match p.mode with
  | .pin entry => keys.escape || keys.enter && !entry.value.isEmpty
  | _ => false

/-- A prompt is only ever shown on screen. -/
def OnScreen (p : Popup) : Prop := p.mode.asksPin → p.visible

/-- What a step does to the prompt. -/
inductive Effect (p : Popup) : Input → Popup → Prop
  | kept {input : Input} {p' : Popup} (hinput : input.interrupts = false) (h : Quiet p p') :
      Effect p input p'
  | answered {moment : Moment} {keys : Keys} {answer : Option String} {p' : Popup}
      (hasks : p.mode.asksPin) (hdone : p'.mode.asksPin = false) (hvisible : p'.visible = p.visible)
      (hsent : p'.requests = p.requests ++ [.pinResponse answer]) (hkeys : p.submits keys) :
      Effect p (.tick moment keys) p'
  | dismissed {input : Input} {p' : Popup} (hinput : input.interrupts = false)
      (hclosed : p.mode.asksPin = false) (h : Dismissed p p') : Effect p input p'
  | asked {now : Instant} {retry : Bool} {p' : Popup} (hasks : p'.mode.asksPin)
      (hvisible : p'.visible) (hsent : p'.requests = p.requests) :
      Effect p (.event now (.requestPin retry)) p'
  | dropped {input : Input} {p' : Popup} (hinput : input.interrupts)
      (hother : input.asksPin = false) (hdone : p'.mode.asksPin = false)
      (hsent : answersIn p'.requests = answersIn p.requests) : Effect p input p'

theorem effect_handlePinKeys (moment : Moment) (keys : Keys) (hasks : p.mode.asksPin) :
    Effect p (.tick moment keys) (p.handlePinKeys keys) := by
  cases hmode : p.mode with
  | pin entry =>
      unfold handlePinKeys
      split
      · rename_i hescape
        exact .answered hasks rfl rfl rfl (by simp [submits, hmode, hescape])
      · simp only [hmode]
        split
        · rename_i henter
          split
          · exact .kept rfl (.refl p)
          · rename_i htyped
            exact .answered hasks rfl rfl rfl (by simp [submits, hmode, henter, htyped])
        · exact .kept rfl (.refl p)
  | _ => simp [hmode, Mode.asksPin] at hasks

theorem tick_of_hidden (moment : Moment) (keys : Keys) (h : p.visible = false) :
    p.tick moment keys = p.expireMessage moment.now := by
  obtain ⟨message, hexpired⟩ := exists_expireMessage moment.now p
  simp [tick, hexpired, h]

theorem handleKeys_of_asksPin (moment : Moment) (keys : Keys) (hasks : p.mode.asksPin) :
    p.handleKeys moment keys = (false, p.handlePinKeys keys) := by
  cases hmode : p.mode with
  | pin entry => simp [handleKeys, hmode]
  | _ => simp [hmode, Mode.asksPin] at hasks

/-- The message has no part in it. -/
theorem Effect.of_message {input : Input} {message : Option (Message × Instant)}
    (h : Effect { p with message } input p') : Effect p input p' := by
  cases h with
  | kept hinput h => exact .kept hinput ⟨h.visible, h.asks, h.answers⟩
  | answered hasks hdone hvisible hsent hkeys => exact .answered hasks hdone hvisible hsent hkeys
  | dismissed hinput hclosed h => exact .dismissed hinput hclosed ⟨h.visible, h.asks, h.answers⟩
  | asked hasks hvisible hsent => exact .asked hasks hvisible hsent
  | dropped hinput hother hdone hsent => exact .dropped hinput hother hdone hsent

/-- What a key frame leaves of a popup on screen. -/
def afterKeys (moment : Moment) (keys : Keys) (p : Popup) : Popup :=
  if (p.handleKeys moment keys).1 then (p.handleKeys moment keys).2.hide
  else (p.handleKeys moment keys).2

theorem tick_of_visible (moment : Moment) (keys : Keys) (h : p.visible) :
    p.tick moment keys = (p.expireMessage moment.now).afterKeys moment keys := by
  obtain ⟨message, hexpired⟩ := exists_expireMessage moment.now p
  simp [tick, afterKeys, hexpired, h]

theorem visible_handlePinKeys (keys : Keys) (p : Popup) :
    (p.handlePinKeys keys).visible = p.visible := by
  unfold handlePinKeys
  split
  · rfl
  · split
    · split
      · split <;> rfl
      · rfl
    · rfl

/-- Only closing takes the popup off the screen. -/
theorem visible_handleKeys (moment : Moment) (keys : Keys) (p : Popup) :
    (p.handleKeys moment keys).2.visible = p.visible := by
  cases hasks : p.mode.asksPin with
  | true =>
      rw [handleKeys_of_asksPin moment keys hasks]
      exact visible_handlePinKeys keys p
  | false => exact (quiet_handleKeys moment keys hasks).visible

theorem effect_afterKeys (moment : Moment) (keys : Keys) (hvisible : p.visible) :
    Effect p (.tick moment keys) (p.afterKeys moment keys) := by
  unfold afterKeys
  cases hasks : p.mode.asksPin with
  | true =>
      rw [handleKeys_of_asksPin moment keys hasks]
      exact effect_handlePinKeys moment keys hasks
  | false =>
      have hkeys := quiet_handleKeys moment keys hasks
      split
      · have hshown := hkeys.visible.trans hvisible
        exact .dismissed rfl hasks (hkeys.dismissed (dismissed_hide hshown))
      · exact .kept rfl hkeys

theorem effect_tick (moment : Moment) (keys : Keys) (p : Popup) :
    Effect p (.tick moment keys) (p.tick moment keys) := by
  obtain ⟨message, hexpired⟩ := exists_expireMessage moment.now p
  cases hvisible : p.visible with
  | false =>
      rw [tick_of_hidden moment keys hvisible, hexpired]
      exact .kept rfl ⟨rfl, rfl, rfl⟩
  | true =>
      rw [tick_of_visible moment keys hvisible, hexpired]
      apply Effect.of_message
      exact effect_afterKeys (p := { p with message }) moment keys hvisible

/-- A popup that is taken away shows no prompt. -/
theorem effect_forceHide {input : Input} (hinput : input.interrupts)
    (hother : input.asksPin = false) (hp : p.OnScreen) : Effect p input p.forceHide := by
  unfold forceHide
  cases hvisible : p.visible with
  | false =>
      rw [hide_of_hidden hvisible]
      refine .dropped hinput hother ?_ rfl
      by_contra hasks
      simp [hp (by simpa using hasks)] at hvisible
  | true =>
      have hdismissed := dismissed_hide hvisible
      exact .dropped hinput hother hdismissed.asks hdismissed.answers

theorem effect_handleEvent (now : Instant) (event : DaemonEvent) (hp : p.OnScreen) :
    Effect p (.event now event) (p.handleEvent S now event) := by
  cases event with
  | showPopup secrets host application => exact .dropped rfl rfl rfl rfl
  | hide => exact effect_forceHide rfl rfl hp
  | lockChanged state => exact .kept rfl ⟨rfl, rfl, rfl⟩
  | error notice => exact .kept rfl ⟨rfl, rfl, rfl⟩
  | status text => exact .kept rfl ⟨rfl, rfl, rfl⟩
  | editReady m payload => exact .dropped rfl rfl rfl rfl
  | refresh secrets => exact .kept rfl ⟨rfl, rfl, rfl⟩
  | requestPin retry => exact .asked rfl rfl rfl

/-- **What a step does to the prompt.** -/
theorem step_effect {input : Input} (hp : p.OnScreen) (h : Step S p input p') :
    Effect p input p' := by
  cases input with
  | event now event =>
      cases h
      exact effect_handleEvent now event hp
  | tick moment keys =>
      cases h
      exact effect_tick moment keys p
  | draw moment gestures =>
      dsimp only [Step, next] at h
      split at h
      · cases h
        exact .kept rfl (quiet_draw moment gestures p)
      · cases h
  | closed =>
      cases h
      exact effect_forceHide rfl rfl hp
  | focusLost =>
      cases h
      unfold loseFocus
      split
      · exact .kept rfl (.refl p)
      · rename_i hkeep
        have hclosed : p.mode.asksPin = false := by
          cases hmode : p.mode with
          | pin entry => simp [keepOpenOnFocusLoss, hmode] at hkeep
          | _ => rfl
        show Effect p _ p.hide
        cases hvisible : p.visible with
        | false =>
            rw [hide_of_hidden hvisible]
            exact .kept rfl (.refl p)
        | true => exact .dismissed rfl hclosed (dismissed_hide hvisible)

end Popup

end Sypherstore
