/-
# What the popup asks for, and what it shows

Two case analyses of a step of the popup. A request that it sends is due: the user did in
that frame what the request is for, with the question, the form or the prompt on screen.
And a question, a form or a list is on screen because it was there before, because the
user asked for it, or because the worker has sent it.
-/

import Sypherstore.App.PopupCoherence
import Sypherstore.Core.Ranking

namespace Sypherstore

open Logic

/-- The secrets that an event lists. -/
def DaemonEvent.secrets : DaemonEvent → List SecretMeta
  | .showPopup secrets _ _ => secrets
  | .refresh secrets => secrets
  | _ => []

namespace Popup

variable {S : Searcher} {p p' p'' : Popup} {input : Input} {mode : Mode}

/-! ## What the user did -/

def Input.enters : Input → Bool
  | .tick _ keys => keys.enter
  | _ => false

def Input.escapes : Input → Bool
  | .tick _ keys => keys.escape
  | _ => false

/-- The user moves through the list or types in its search box. -/
def Input.moves : Input → Bool
  | .tick _ keys => keys.up || keys.down
  | .draw _ gestures => gestures.query.isSome
  | _ => false

/-- The popup goes off the screen: the user closes the list, or leaves it for another window,
or the compositor or the worker takes the popup away. -/
def Input.dismisses : Input → Mode → Bool
  | .tick _ keys, .list => keys.escape
  | .focusLost, .list => true
  | .closed, _ => true
  | .event _ .hide, _ => true
  | _, _ => false

/-- The user saves the form in this frame. -/
def Input.saves : Input → Bool
  | .tick _ keys => keys.ctrl && keys.s
  | .draw _ gestures => gestures.saveClicked
  | _ => false

/-- What the user makes of the form in this frame. -/
def Input.form : Input → Editor → Editor
  | .tick _ keys, editor => if keys.tab then editor.cycleFocus keys.shift else editor
  | .draw _ gestures, editor => editor.drawn gestures.form
  | _, editor => editor

/-- What the frame reads of its surroundings. -/
def Input.moment : Input → Option Moment
  | .tick moment _ => some moment
  | .draw moment _ => some moment
  | _ => none

/-- The user asks to delete the row in this frame. -/
def Input.deletes : Input → ℕ → Bool
  | .tick _ keys, _ => keys.ctrl && keys.d
  | .draw _ gestures, i => (gestures.row i).deleted
  | _, _ => false

/-- The user saves a form with this on screen: what is to be stored is what the form says, and
it updates a secret if the form was not a new one. -/
def Saves (mode : Mode) (input : Input) (m : SecretMeta) (payload : SecretPayload)
    (isUpdate : Bool) : Prop :=
  ∃ editor moment, mode = .edit editor ∧ input.moment = some moment ∧ input.saves ∧
    ((input.form editor).build moment.unix moment.uuid).1 = .ok (m, payload) ∧
    isUpdate = !editor.isNew

/-- What is asked of the worker about no row was due: the user confirmed a deletion, saved
a form, closed a prompt, used the list or left it, with this on screen. -/
def Due (mode : Mode) (input : Input) : UiRequest → Prop
  | .touch => mode = .list ∧ input.moves
  | .dismissed => input.dismisses mode
  | .delete id => (∃ name, mode = .confirmDelete id name) ∧ input.enters
  | .save m payload isUpdate => Saves mode input m payload isUpdate
  | .pinResponse none => (∃ entry, mode = .pin entry) ∧ input.escapes
  | .pinResponse (some pin) => (∃ entry, mode = .pin entry ∧ entry.value = pin) ∧ input.enters
  | _ => True

/-- Each request that a handler sends is due. -/
def SendsDue (mode : Mode) (input : Input) (p p' : Popup) : Prop :=
  ∃ sent, p'.requests = p.requests ++ sent ∧ ∀ r ∈ sent, Due mode input r

namespace SendsDue

theorem nothing (h : p'.requests = p.requests) : SendsDue mode input p p' :=
  ⟨[], by simp [h], by simp⟩

theorem one {r : UiRequest} (h : p'.requests = p.requests ++ [r]) (hr : Due mode input r) :
    SendsDue mode input p p' :=
  ⟨[r], h, List.forall_mem_singleton.mpr hr⟩

theorem trans (h : SendsDue mode input p p') (h' : SendsDue mode input p' p'') :
    SendsDue mode input p p'' := by
  obtain ⟨sent, hsent, hdue⟩ := h
  obtain ⟨more, hmore, hdue'⟩ := h'
  exact ⟨sent ++ more, by rw [hmore, hsent, List.append_assoc],
    List.forall_mem_append.mpr ⟨hdue, hdue'⟩⟩

theorem ite (condition : Bool) (h : SendsDue mode input p p') :
    SendsDue mode input p (if condition then p' else p) := by
  split
  · exact h
  · exact nothing rfl

end SendsDue

theorem sendsDue_activateSelected (p : Popup) : SendsDue mode input p p.activateSelected := by
  unfold activateSelected
  split
  · exact .nothing rfl
  · split
    · exact .one rfl trivial
    · exact .one rfl trivial
    · exact .nothing rfl

theorem sendsDue_hide (p : Popup) (h : input.dismisses mode) : SendsDue mode input p p.hide := by
  unfold hide
  split
  · exact .one rfl h
  · exact .nothing rfl

theorem sendsDue_moveUp (p : Popup) : SendsDue mode input p p.moveUp := by
  unfold moveUp
  split <;> exact .nothing rfl

theorem sendsDue_moveDown (p : Popup) : SendsDue mode input p p.moveDown := by
  unfold moveDown
  split <;> exact .nothing rfl

theorem sendsDue_handleListKeys (moment : Moment) (keys : Keys) (p : Popup) :
    SendsDue .list (.tick moment keys) p (p.handleListKeys moment keys).2 := by
  unfold handleListKeys
  split
  · exact .nothing rfl
  · split
    · exact .nothing rfl
    · split
      · split
        · exact .one rfl trivial
        · exact .nothing rfl
      · split
        · split <;> exact .nothing rfl
        · have htouched : SendsDue .list (.tick moment keys) p
              (if keys.up || keys.down then p.send .touch else p) := by
            split
            · rename_i hmoves
              exact .one rfl ⟨rfl, hmoves⟩
            · exact .nothing rfl
          have hmoved := (htouched.trans (.ite keys.up (sendsDue_moveUp _))).trans
            (.ite keys.down (sendsDue_moveDown _))
          exact hmoved.trans (.ite keys.enter (sendsDue_activateSelected _))

@[simp] theorem Input.id_form (input : Input) (editor : Editor) :
    (input.form editor).id = editor.id := by
  cases input with
  | tick moment keys =>
      dsimp only [Input.form]
      split <;> rfl
  | _ => rfl

/-- A secret that is updated keeps the id that its form was opened with. -/
theorem Saves.id_eq {m : SecretMeta} {payload : SecretPayload} {isUpdate : Bool}
    (h : Saves mode input m payload isUpdate) (hupdate : isUpdate) :
    ∃ editor, mode = .edit editor ∧ editor.id = some m.id := by
  obtain ⟨editor, moment, hmode, _, _, hbuild, rfl⟩ := h
  obtain ⟨_, _, hbuilt⟩ := Editor.build_eq_ok_iff.mp hbuild
  have hm : m = (input.form editor).builtMeta moment.unix moment.uuid :=
    (Prod.mk.inj hbuilt).1.symm
  obtain ⟨id, hsome⟩ : ∃ id, editor.id = some id :=
    Option.isSome_iff_exists.mp (by simpa [Editor.isNew] using hupdate)
  refine ⟨editor, hmode, ?_⟩
  rw [hm, Editor.builtMeta, Input.id_form, hsome]
  rfl

theorem Saves.not_event {m : SecretMeta} {payload : SecretPayload} {isUpdate : Bool}
    (h : Saves mode input m payload isUpdate) (now : Instant) (event : DaemonEvent) :
    input ≠ .event now event := by
  rintro rfl
  obtain ⟨_, _, _, hmoment, _⟩ := h
  cases hmoment

/-- The form is saved as the frame has left it. -/
theorem sendsDue_saveEditor {moment : Moment} {editor : Editor}
    (hmode : p.mode = .edit (input.form editor)) (hmoment : input.moment = some moment)
    (hsaves : input.saves) : SendsDue (.edit editor) input p (p.saveEditor moment) := by
  unfold saveEditor
  rw [hmode]
  dsimp only
  split
  · rename_i m payload wiped hbuild
    refine .one rfl ⟨editor, moment, rfl, hmoment, hsaves, by rw [hbuild], ?_⟩
    rw [Editor.isNew, Editor.isNew, Input.id_form]
  · exact .nothing rfl

theorem sendsDue_handleEditKeys (moment : Moment) (keys : Keys) {editor : Editor}
    (hmode : p.mode = .edit editor) :
    SendsDue (.edit editor) (.tick moment keys) p (p.handleEditKeys moment keys) := by
  unfold handleEditKeys
  split
  · exact .nothing rfl
  · rw [hmode]
    dsimp only
    split
    · rename_i hsaves
      split
      · rename_i htab
        have hform : (Input.tick moment keys).form editor = editor.cycleFocus keys.shift :=
          if_pos htab
        exact (SendsDue.nothing rfl).trans (sendsDue_saveEditor
          (p := { p with mode := .edit (editor.cycleFocus keys.shift) }) (by rw [hform]) rfl hsaves)
      · rename_i htab
        have hform : (Input.tick moment keys).form editor = editor := if_neg htab
        exact sendsDue_saveEditor (by rw [hform, hmode]) rfl hsaves
    · split <;> exact .nothing rfl

theorem sendsDue_handleConfirmKeys (moment : Moment) (keys : Keys) {id : Uuid} {name : String}
    (hmode : p.mode = .confirmDelete id name) :
    SendsDue (.confirmDelete id name) (.tick moment keys) p (p.handleConfirmKeys keys) := by
  unfold handleConfirmKeys
  rw [hmode]
  split
  · exact .nothing rfl
  · split
    · rename_i henter
      exact .one rfl ⟨⟨name, rfl⟩, henter⟩
    · exact .nothing rfl

theorem sendsDue_handlePinKeys (moment : Moment) (keys : Keys) {entry : PinEntry}
    (hmode : p.mode = .pin entry) :
    SendsDue (.pin entry) (.tick moment keys) p (p.handlePinKeys keys) := by
  unfold handlePinKeys
  rw [hmode]
  split
  · rename_i hescape
    exact .one rfl ⟨⟨entry, rfl⟩, hescape⟩
  · split
    · rename_i henter
      dsimp only
      split
      · exact .nothing rfl
      · exact .one rfl ⟨⟨entry, rfl, rfl⟩, henter⟩
    · exact .nothing rfl

theorem sendsDue_handleKeys (moment : Moment) (keys : Keys) (p : Popup) :
    SendsDue p.mode (.tick moment keys) p (p.handleKeys moment keys).2 := by
  unfold handleKeys
  split
  · rename_i hmode
    rw [hmode]
    exact sendsDue_handleListKeys moment keys p
  · rename_i editor hmode
    rw [hmode]
    exact sendsDue_handleEditKeys moment keys hmode
  · rename_i id name hmode
    rw [hmode]
    exact sendsDue_handleConfirmKeys moment keys hmode
  · rename_i entry hmode
    rw [hmode]
    exact sendsDue_handlePinKeys moment keys hmode

/-- Keys close the popup only from the list. -/
theorem dismisses_of_close {moment : Moment} {keys : Keys}
    (h : (p.handleKeys moment keys).1 = true) : (Input.tick moment keys).dismisses p.mode := by
  cases hmode : p.mode with
  | list =>
      simp only [handleKeys, hmode] at h
      exact escape_of_close h
  | _ => simp [handleKeys, hmode] at h

theorem sendsDue_tick (moment : Moment) (keys : Keys) (p : Popup) :
    SendsDue p.mode (.tick moment keys) p (p.tick moment keys) := by
  obtain ⟨message, hexpired⟩ := exists_expireMessage moment.now p
  cases hvisible : p.visible with
  | false =>
      rw [tick_of_hidden moment keys hvisible, hexpired]
      exact .nothing rfl
  | true =>
      rw [tick_of_visible moment keys hvisible, hexpired, afterKeys]
      have hhandled := sendsDue_handleKeys moment keys { p with message }
      split
      · rename_i hclose
        exact hhandled.trans (sendsDue_hide _ (dismisses_of_close hclose))
      · exact hhandled

theorem sendsDue_drawList (gestures : Gestures) (p : Popup) :
    SendsDue mode input p (p.drawList gestures) := by
  unfold drawList
  split
  · exact .nothing rfl
  · dsimp only
    split
    · split <;> exact .nothing rfl
    · split
      · split
        · exact .one rfl trivial
        · exact .nothing rfl
      · split
        · exact (SendsDue.nothing rfl).trans (sendsDue_activateSelected _)
        · exact .nothing rfl

theorem sendsDue_drawListMode (moment : Moment) (gestures : Gestures) (p : Popup) :
    SendsDue .list (.draw moment gestures) p (p.drawListMode S moment gestures) := by
  unfold drawListMode
  split
  · exact .nothing rfl
  · dsimp only
    split
    · rename_i query hquery
      have hmoves : (Input.draw moment gestures).moves := by
        rw [Input.moves, hquery]
        rfl
      exact (SendsDue.one (r := .touch) rfl ⟨rfl, hmoves⟩).trans (sendsDue_drawList gestures _)
    · exact (SendsDue.nothing rfl).trans (sendsDue_drawList gestures { p with needsFocus := false })

theorem sendsDue_draw (moment : Moment) (gestures : Gestures) (p : Popup) :
    SendsDue p.mode (.draw moment gestures) p (p.draw S moment gestures) := by
  unfold draw
  split
  · rename_i hmode
    rw [hmode]
    exact sendsDue_drawListMode moment gestures p
  · rename_i editor hmode
    rw [hmode, drawEditMode, hmode]
    dsimp only
    split
    · exact .nothing rfl
    · split
      · rename_i hsaves
        exact (SendsDue.nothing rfl).trans (sendsDue_saveEditor
          (p := { p with mode := .edit (editor.drawn gestures.form) }) rfl rfl hsaves)
      · exact .nothing rfl
  · exact .nothing rfl
  · unfold drawPinMode
    split <;> exact .nothing rfl

/-- **What a step of the popup sends is due.** -/
theorem step_sendsDue (h : Step S p input p') : SendsDue p.mode input p p' := by
  cases input with
  | event now event =>
      cases h
      cases event with
      | hide => exact sendsDue_hide p rfl
      | _ => exact .nothing rfl
  | tick moment keys =>
      cases h
      exact sendsDue_tick moment keys p
  | draw moment gestures =>
      dsimp only [Step, next] at h
      split at h <;> cases h
      exact sendsDue_draw moment gestures p
  | closed =>
      cases h
      exact sendsDue_hide p rfl
  | focusLost =>
      cases h
      unfold loseFocus
      split
      · exact .nothing rfl
      · rename_i hkeep
        refine sendsDue_hide p ?_
        cases hmode : p.mode with
        | list => rfl
        | _ => simp [keepOpenOnFocusLoss, hmode] at hkeep

/-- A popup that is not on screen sends nothing. -/
theorem requests_of_hidden (h : Step S p input p') (hhidden : p.visible = false) :
    p'.requests = p.requests := by
  cases input with
  | event now event =>
      cases h
      cases event with
      | hide => rw [handleEvent, hide_of_hidden hhidden]
      | _ => rfl
  | tick moment keys =>
      obtain ⟨message, hexpired⟩ := exists_expireMessage moment.now p
      cases h
      rw [tick_of_hidden moment keys hhidden, hexpired]
  | draw moment gestures =>
      dsimp only [Step, next] at h
      rw [hhidden] at h
      cases h
  | closed =>
      cases h
      rw [forceHide, hide_of_hidden hhidden]
  | focusLost =>
      cases h
      unfold loseFocus forceHide
      rw [hide_of_hidden hhidden, ite_self]

/-! ## What is on screen -/

/-- Where a question, a form or a list on screen comes from: it was there before, or the user
asked for it, or the worker has sent it. -/
structure Turns (p : Popup) (input : Input) (p' : Popup) : Prop where
  confirm : ∀ id name, p'.mode = .confirmDelete id name → p.mode = .confirmDelete id name ∨
    ∃ m, p'.target = some m ∧ m.id = id ∧ input.deletes p'.selected
  edit : ∀ editor id, p'.mode = .edit editor → editor.id = some id →
    (∃ editor₀, p.mode = .edit editor₀ ∧ editor₀.id = some id) ∨
      ∃ now m payload, input = .event now (.editReady m payload) ∧ m.id = id
  secrets : ∀ m ∈ p'.secrets, m ∈ p.secrets ∨ ∃ now event, input = .event now event ∧
    m ∈ event.secrets

theorem Turns.of_mode (hmode : p'.mode = p.mode) (hsecrets : p'.secrets = p.secrets) :
    Turns p input p' where
  confirm _ _ h := .inl (hmode ▸ h)
  edit editor _ h hid := .inl ⟨editor, hmode ▸ h, hid⟩
  secrets _ h := .inl (hsecrets ▸ h)

/-- The list is on screen again. -/
theorem Turns.of_list (hmode : p'.mode = .list)
    (hsecrets : ∀ m ∈ p'.secrets, m ∈ p.secrets ∨ ∃ now event, input = .event now event ∧
      m ∈ event.secrets) : Turns p input p' where
  confirm id name h := by rw [hmode] at h; cases h
  edit editor id h := by rw [hmode] at h; cases h
  secrets := hsecrets

/-- A PIN is asked for. -/
theorem Turns.of_pin {entry : PinEntry} (hmode : p'.mode = .pin entry)
    (hsecrets : p'.secrets = p.secrets) : Turns p input p' where
  confirm id name h := by rw [hmode] at h; cases h
  edit editor id h := by rw [hmode] at h; cases h
  secrets _ h := .inl (hsecrets ▸ h)

theorem Turns.congr {q : Popup} (h : Turns p input p') (hmode : q.mode = p.mode)
    (hsecrets : q.secrets = p.secrets) : Turns q input p' where
  confirm := by rw [hmode]; exact h.confirm
  edit := by rw [hmode]; exact h.edit
  secrets := by rw [hsecrets]; exact h.secrets

/-- A form is on screen that updates the same secret, or none. -/
theorem Turns.of_form {editor : Editor} (hmode : p'.mode = .edit editor)
    (hid : ∀ id, editor.id = some id → ∃ editor₀, p.mode = .edit editor₀ ∧ editor₀.id = some id)
    (hsecrets : p'.secrets = p.secrets) : Turns p input p' where
  confirm _ _ h := by rw [hmode] at h; cases h
  edit editor' id h hid' := by
    rw [hmode] at h
    cases h
    exact .inl (hid id hid')
  secrets _ h := .inl (hsecrets ▸ h)

/-- The form was on screen before, with other texts or with the focus elsewhere. -/
theorem Turns.of_focus {editor editor' : Editor}
    (h : Turns { p with mode := .edit editor' } input p') (hmode : p.mode = .edit editor)
    (hid : editor'.id = editor.id) : Turns p input p' where
  confirm id name hmode' := by
    rcases h.confirm id name hmode' with hold | hnew
    · cases hold
    · exact .inr hnew
  edit editor'' id hmode' hid' := by
    rcases h.edit editor'' id hmode' hid' with ⟨editor₀, hold, hid₀⟩ | hnew
    · cases hold
      exact .inl ⟨editor, hmode, hid ▸ hid₀⟩
    · exact .inr hnew
  secrets := h.secrets

theorem Turns.of_confirm {m : SecretMeta} (hmode : p'.mode = .confirmDelete m.id m.name)
    (htarget : p'.target = some m) (hdeletes : input.deletes p'.selected)
    (hsecrets : p'.secrets = p.secrets) : Turns p input p' where
  confirm id name h := by
    rw [hmode] at h
    cases h
    exact .inr ⟨m, htarget, rfl, hdeletes⟩
  edit _ _ h := by rw [hmode] at h; cases h
  secrets _ h := .inl (hsecrets ▸ h)

/-- The same is on screen. -/
structure Still (p p' : Popup) : Prop where
  mode : p'.mode = p.mode
  secrets : p'.secrets = p.secrets

theorem Still.trans (h : Still p p') (h' : Still p' p'') : Still p p'' :=
  ⟨h'.mode.trans h.mode, h'.secrets.trans h.secrets⟩

theorem Still.ite (condition : Bool) (h : Still p p') : Still p (if condition then p' else p) := by
  split
  · exact h
  · exact ⟨rfl, rfl⟩

theorem Still.turns (h : Still p p') : Turns p input p' := .of_mode h.mode h.secrets

theorem still_activateSelected (p : Popup) : Still p p.activateSelected := by
  unfold activateSelected
  split
  · exact ⟨rfl, rfl⟩
  · split <;> exact ⟨rfl, rfl⟩

theorem still_moveUp (p : Popup) : Still p p.moveUp := by
  unfold moveUp
  split <;> exact ⟨rfl, rfl⟩

theorem still_moveDown (p : Popup) : Still p p.moveDown := by
  unfold moveDown
  split <;> exact ⟨rfl, rfl⟩

theorem turns_hide (p : Popup) : Turns p input p.hide := by
  unfold hide
  split
  · exact .of_list rfl (by simp [send])
  · exact .of_mode rfl rfl

theorem turns_handleListKeys (moment : Moment) (keys : Keys) (p : Popup) :
    Turns p (.tick moment keys) (p.handleListKeys moment keys).2 := by
  unfold handleListKeys
  split
  · exact .of_mode rfl rfl
  · split
    · exact .of_form rfl (by simp [Editor.new]) rfl
    · split
      · split <;> exact .of_mode rfl rfl
      · split
        · rename_i hdeletes
          split
          · rename_i m htarget
            exact .of_confirm rfl htarget hdeletes rfl
          · exact .of_mode rfl rfl
        · have htouched : Still p (if keys.up || keys.down then p.send .touch else p) :=
            .ite _ ⟨rfl, rfl⟩
          have hmoved := (htouched.trans (.ite keys.up (still_moveUp _))).trans
            (.ite keys.down (still_moveDown _))
          exact (hmoved.trans (.ite keys.enter (still_activateSelected _))).turns

theorem turns_saveEditor {moment : Moment} {editor : Editor} (hmode : p.mode = .edit editor) :
    Turns p input (p.saveEditor moment) := by
  unfold saveEditor
  rw [hmode]
  dsimp only
  split
  · exact .of_list rfl fun m hm => .inl hm
  · rename_i message left hbuild
    have hleft : left.id = editor.id := by
      have hsame := congrArg (fun built => built.2.id) hbuild
      simp only [Editor.build] at hsame
      split at hsame
      · exact hsame.symm
      · split at hsame
        · exact hsame.symm
        · exact hsame.symm
    refine .of_form rfl (fun id hid => ⟨editor, hmode, ?_⟩) rfl
    rw [← hleft]
    exact hid

theorem turns_handleEditKeys {moment : Moment} {keys : Keys} {editor : Editor}
    (hmode : p.mode = .edit editor) : Turns p input (p.handleEditKeys moment keys) := by
  unfold handleEditKeys
  split
  · exact .of_list rfl fun m hm => .inl hm
  · rw [hmode]
    dsimp only
    split
    · split
      · have hsaved : Turns { p with mode := .edit (editor.cycleFocus keys.shift) } input
            (saveEditor moment { p with mode := .edit (editor.cycleFocus keys.shift) }) :=
          turns_saveEditor rfl
        exact hsaved.of_focus hmode rfl
      · exact turns_saveEditor hmode
    · split
      · exact .of_form rfl (fun id hid => ⟨editor, hmode, hid⟩) rfl
      · exact .of_mode rfl rfl

theorem turns_handleKeys (moment : Moment) (keys : Keys) (p : Popup) :
    Turns p (.tick moment keys) (p.handleKeys moment keys).2 := by
  have hlist : ∀ {p' : Popup}, p'.mode = .list → p'.secrets = p.secrets →
      Turns p (.tick moment keys) p' := by
    intro p' hmode hsecrets
    exact .of_list hmode fun m hm => .inl (hsecrets ▸ hm)
  unfold handleKeys
  split
  · exact turns_handleListKeys moment keys p
  · rename_i editor hmode
    exact turns_handleEditKeys hmode
  · unfold handleConfirmKeys
    dsimp only
    split
    · exact hlist rfl rfl
    · split
      · split <;> exact hlist rfl rfl
      · exact .of_mode rfl rfl
  · unfold handlePinKeys
    dsimp only
    split
    · exact hlist rfl rfl
    · split
      · split
        · split
          · exact .of_mode rfl rfl
          · exact hlist rfl rfl
        · exact .of_mode rfl rfl
      · exact .of_mode rfl rfl

theorem turns_tick (moment : Moment) (keys : Keys) (p : Popup) :
    Turns p (.tick moment keys) (p.tick moment keys) := by
  obtain ⟨message, hexpired⟩ := exists_expireMessage moment.now p
  cases hvisible : p.visible with
  | false =>
      rw [tick_of_hidden moment keys hvisible, hexpired]
      exact .of_mode rfl rfl
  | true =>
      rw [tick_of_visible moment keys hvisible, hexpired, afterKeys]
      split
      · rename_i hclose
        rw [handleKeys_of_close hclose]
        exact (turns_hide { p with message }).congr rfl rfl
      · exact (turns_handleKeys moment keys { p with message }).congr rfl rfl

theorem turns_drawList (moment : Moment) (gestures : Gestures) (p : Popup) :
    Turns p (.draw moment gestures) (p.drawList gestures) := by
  unfold drawList
  split
  · exact .of_mode rfl rfl
  · dsimp only
    split
    · rename_i i hdeleted
      split
      · rename_i entry hentry
        exact .of_confirm rfl (congrArg (Option.map Ranked.secret) hentry)
          (flag_of_lastRow hdeleted).2 rfl
      · exact .of_mode rfl rfl
    · split
      · split <;> exact .of_mode rfl rfl
      · split
        · exact (still_activateSelected _).turns.congr rfl rfl
        · exact .of_mode rfl rfl

theorem turns_draw (moment : Moment) (gestures : Gestures) (p : Popup) :
    Turns p (.draw moment gestures) (p.draw S moment gestures) := by
  unfold draw
  split
  · unfold drawListMode
    split
    · exact .of_form rfl (by simp [Editor.new]) rfl
    · dsimp only
      split
      · exact (turns_drawList moment gestures _).congr rfl rfl
      · exact (turns_drawList moment gestures _).congr rfl rfl
  · rename_i editor hmode
    rw [drawEditMode, hmode]
    dsimp only
    split
    · exact .of_list rfl fun m hm => .inl hm
    · split
      · have hsaved : Turns { p with mode := .edit (editor.drawn gestures.form) }
            (.draw moment gestures)
            (saveEditor moment { p with mode := .edit (editor.drawn gestures.form) }) :=
          turns_saveEditor rfl
        exact hsaved.of_focus hmode rfl
      · exact .of_form rfl (fun id hid => ⟨editor, hmode, hid⟩) rfl
  · exact .of_mode rfl rfl
  · unfold drawPinMode
    split
    · exact .of_pin rfl rfl
    · exact .of_mode rfl rfl

theorem turns_handleEvent (now : Instant) (event : DaemonEvent) (p : Popup) :
    Turns p (.event now event) (p.handleEvent S now event) := by
  cases event with
  | showPopup secrets host application =>
      exact .of_list rfl fun m hm => .inr ⟨now, _, rfl, hm⟩
  | hide => exact turns_hide p
  | editReady m payload =>
      refine ⟨nofun, fun editor id hmode hid => ?_, fun m hm => .inl hm⟩
      cases hmode
      cases hid
      exact .inr ⟨now, m, payload, rfl, rfl⟩
  | refresh secrets =>
      exact ⟨fun _ _ h => .inl h, fun editor _ h hid => .inl ⟨editor, h, hid⟩,
        fun m hm => .inr ⟨now, _, rfl, hm⟩⟩
  | requestPin retry => exact .of_pin rfl rfl
  | _ => exact .of_mode rfl rfl

/-- **What a step of the popup brings on screen.** -/
theorem step_turns (h : Step S p input p') : Turns p input p' := by
  cases input with
  | event now event =>
      cases h
      exact turns_handleEvent now event p
  | tick moment keys =>
      cases h
      exact turns_tick moment keys p
  | draw moment gestures =>
      dsimp only [Step, next] at h
      split at h <;> cases h
      exact turns_draw moment gestures p
  | closed =>
      cases h
      exact turns_hide p
  | focusLost =>
      cases h
      unfold loseFocus
      split
      · exact .of_mode rfl rfl
      · exact turns_hide p

/-- The highlighted secret is one of those that the popup holds. -/
theorem mem_secrets_of_target {m : SecretMeta} (h : p.Coherent S) (htarget : p.target = some m) :
    m ∈ p.secrets := by
  obtain ⟨entry, hentry, rfl⟩ := Option.map_eq_some_iff.mp htarget
  have hmem : entry ∈ S.rank p.secrets p.query p.context :=
    h.ranked ▸ List.mem_of_getElem? hentry
  have hretained := (S.rank_perm p.secrets p.query p.context).mem_iff.mp hmem
  obtain ⟨m, hm, hone⟩ := List.mem_filterMap.mp (Searcher.mem_entries_of_mem_retained hretained)
  obtain ⟨rfl, _⟩ := Searcher.rankOne_eq_some hone
  exact hm

end Popup

end Sypherstore
