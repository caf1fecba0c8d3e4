/-
# The popup

What the popup shows, what it holds, and how it answers events, keys and the mouse
(`ui/popup.rs`). Drawing is modelled by what the user can do to a drawn frame. The library
that draws decides nothing: every text, click and flag of a frame is an input here.
-/

import Sypherstore.App.Editor
import Sypherstore.App.State
import Sypherstore.Core.Search
import Sypherstore.Logic.Transition

namespace Sypherstore

open Logic

/-! ## The state -/

/-- How long a message stays, in nanoseconds. -/
def messageLinger : ℕ := 4 * 10 ^ 9

/-- The PIN prompt. -/
structure PinEntry where
  value : String
  /-- A previous PIN was rejected. -/
  retry : Bool
  needsFocus : Bool
  deriving DecidableEq

/-- What the popup is showing. -/
inductive Mode where
  | list
  | edit (editor : Editor)
  | confirmDelete (id : Uuid) (name : String)
  | pin (entry : PinEntry)
  deriving DecidableEq

/-- The line at the bottom. -/
inductive Message where
  | error (notice : Notice)
  | status (text : String)

structure Popup where
  /-- The channel to the worker. -/
  requests : List UiRequest
  mode : Mode
  secrets : List SecretMeta
  /-- Ranked view of `secrets` for the current query. -/
  ranked : List Ranked
  context : SearchContext
  query : String
  selected : ℕ
  scrollToSelection : Bool
  lockState : UiLockState
  visible : Bool
  needsFocus : Bool
  message : Option (Message × Instant)

/-! ## Inputs -/

/-- One frame's worth of key presses. -/
structure Keys where
  escape : Bool
  up : Bool
  down : Bool
  enter : Bool
  tab : Bool
  shift : Bool
  ctrl : Bool
  n : Bool
  e : Bool
  d : Bool
  s : Bool
  deriving DecidableEq

/-- No key is pressed. -/
def Keys.none : Keys :=
  ⟨false, false, false, false, false, false, false, false, false, false, false⟩

/-- What the user did to a row of the list. -/
structure RowAction where
  clicked : Bool
  edited : Bool
  deleted : Bool

/-- A click on the body of the row, and on neither of its buttons. -/
def RowAction.activated (row : RowAction) : Bool := row.clicked && !row.deleted && !row.edited

/-- What the user did to the form: the texts that changed, the kind picked, the eye. -/
structure FormInput where
  name : Option String
  value : Option String
  username : Option String
  domain : Option String
  application : Option String
  tags : Option String
  notes : Option String
  secretType : Option SecretType
  eyeClicked : Bool

/-- What the user did to a drawn frame. -/
structure Gestures where
  addClicked : Bool
  /-- The text of the search box, if it changed. -/
  query : Option String
  row : ℕ → RowAction
  form : FormInput
  saveClicked : Bool
  cancelClicked : Bool
  /-- The text of the PIN box, if it changed. -/
  pin : Option String

/-- The user only looks. -/
def Gestures.none : Gestures where
  addClicked := false
  query := .none
  row _ := ⟨false, false, false⟩
  form := ⟨.none, .none, .none, .none, .none, .none, .none, .none, false⟩
  saveClicked := false
  cancelClicked := false
  pin := .none

/-- What a step reads of its surroundings. -/
structure Moment where
  /-- `Instant::now()`. -/
  now : Instant
  /-- `now_unix()`. -/
  unix : Int64
  /-- `Uuid::new_v4()`. -/
  uuid : Uuid

/-- What the form holds after a frame in which it was drawn. -/
def Editor.drawn (form : FormInput) (editor : Editor) : Editor :=
  { editor with
    name := form.name.getD editor.name
    value := form.value.getD editor.value
    secretType := form.secretType.getD editor.secretType
    username := form.username.getD editor.username
    domain := form.domain.getD editor.domain
    application := form.application.getD editor.application
    tags := form.tags.getD editor.tags
    notes := form.notes.getD editor.notes
    reveal := editor.reveal != form.eyeClicked
    focusDirty := false }

namespace Popup

/-- `Popup::new`, with an empty channel. -/
def new : Popup where
  requests := []
  mode := .list
  secrets := []
  ranked := []
  context := { host := none, application := none }
  query := ""
  selected := 0
  scrollToSelection := false
  lockState := .locked
  visible := false
  needsFocus := false
  message := none

/-- `self.requests.send`. -/
def send (r : UiRequest) (p : Popup) : Popup := { p with requests := p.requests ++ [r] }

/-- The secret of the highlighted row. -/
def target (p : Popup) : Option SecretMeta := p.ranked[p.selected]?.map Ranked.secret

/-- Hides the popup and tells the worker it was dismissed. -/
def hide (p : Popup) : Popup :=
  if p.visible then
    { p with visible := false, mode := .list, secrets := [], ranked := [], query := "" }.send
      .dismissed
  else p

/-- For when the compositor has taken the surface away. -/
def forceHide (p : Popup) : Popup := p.hide

/-- Acts on the highlighted row. -/
def activateSelected (p : Popup) : Popup :=
  match p.target with
  | none => p
  | some m =>
      match p.lockState with
      | .unlocked _ => p.send (.use m.id)
      | .locked => p.send .unlock
      | .waitingForTouch => p

/-- Validates the form and sends it to the worker. -/
def saveEditor (moment : Moment) (p : Popup) : Popup :=
  match p.mode with
  | .edit editor =>
      match editor.build moment.unix moment.uuid with
      | (.ok (m, payload), _) =>
          { p.send (.save m payload !editor.isNew) with mode := .list, needsFocus := true }
      | (.error message, editor) => { p with mode := .edit { editor with error := some message } }
  | _ => p

/-! ## Keys -/

/-- Enter submits, Escape cancels the assertion. -/
def handlePinKeys (keys : Keys) (p : Popup) : Popup :=
  if keys.escape then { p.send (.pinResponse none) with mode := .list }
  else if keys.enter then
    match p.mode with
    | .pin entry =>
        if entry.value.isEmpty then p
        else { p.send (.pinResponse (some entry.value)) with mode := .list }
    | _ => p
  else p

def moveUp (p : Popup) : Popup :=
  if 0 < p.selected then { p with selected := p.selected - 1, scrollToSelection := true } else p

def moveDown (p : Popup) : Popup :=
  if p.selected + 1 < p.ranked.length then
    { p with selected := p.selected + 1, scrollToSelection := true }
  else p

/-- The keys of the list, and whether they close the popup. Moving counts as use. -/
def handleListKeys (moment : Moment) (keys : Keys) (p : Popup) : Bool × Popup :=
  if keys.escape then (true, p)
  else if keys.ctrl && keys.n then
    (false, { p with mode := .edit (Editor.new moment.unix), needsFocus := true })
  else if keys.ctrl && keys.e then
    match p.target with
    | some m => (false, p.send (.beginEdit m.id))
    | none => (false, p)
  else if keys.ctrl && keys.d then
    match p.target with
    | some m => (false, { p with mode := .confirmDelete m.id m.name })
    | none => (false, p)
  else
    let p := if keys.up || keys.down then p.send .touch else p
    let p := if keys.up then p.moveUp else p
    let p := if keys.down then p.moveDown else p
    (false, if keys.enter then p.activateSelected else p)

/-- Escape abandons the form; Ctrl+S saves. -/
def handleEditKeys (moment : Moment) (keys : Keys) (p : Popup) : Popup :=
  if keys.escape then { p with mode := .list, needsFocus := true }
  else
    match p.mode with
    | .edit editor =>
        let p :=
          if keys.tab then { p with mode := .edit (editor.cycleFocus keys.shift) } else p
        if keys.ctrl && keys.s then p.saveEditor moment else p
    | _ => p

/-- Enter confirms the deletion, Escape abandons it. -/
def handleConfirmKeys (keys : Keys) (p : Popup) : Popup :=
  if keys.escape then { p with mode := .list }
  else if keys.enter then
    match p.mode with
    | .confirmDelete id _ => { p.send (.delete id) with mode := .list }
    | _ => { p with mode := .list }
  else p

/-- Handles the keys of a frame, and tells whether the popup should close. -/
def handleKeys (moment : Moment) (keys : Keys) (p : Popup) : Bool × Popup :=
  match p.mode with
  | .list => p.handleListKeys moment keys
  | .edit _ => (false, p.handleEditKeys moment keys)
  | .confirmDelete _ _ => (false, p.handleConfirmKeys keys)
  | .pin _ => (false, p.handlePinKeys keys)

/-- A message that has stayed long enough goes. -/
def expireMessage (now : Instant) (p : Popup) : Popup :=
  match p.message with
  | some (_, since) => if messageLinger < now - since then { p with message := none } else p
  | none => p

/-- Advances the popup by a frame. It wants to be on screen afterwards if it is visible. -/
def tick (moment : Moment) (keys : Keys) (p : Popup) : Popup :=
  let p := p.expireMessage moment.now
  if p.visible then
    let (close, p) := p.handleKeys moment keys
    if close then p.hide else p
  else p

section Drawing

variable (S : Searcher)

/-- Ranks the list again and keeps the selection in it. -/
def rerank (p : Popup) : Popup :=
  let ranked := S.rank p.secrets p.query p.context
  { p with
    ranked
    selected := if ranked.length ≤ p.selected then ranked.length - 1 else p.selected }

/-! ## Drawing -/

/-- The last row for which something was reported. -/
def lastRow (flag : ℕ → Bool) (p : Popup) : Option ℕ :=
  ((List.range p.ranked.length).filter flag).getLast?

/-- The rows of the list. Deletion takes precedence over editing, and both over use. -/
def drawList (gestures : Gestures) (p : Popup) : Popup :=
  if p.ranked.isEmpty then p
  else
    let p := { p with scrollToSelection := false }
    match p.lastRow fun i => (gestures.row i).deleted with
    | some i =>
        match p.ranked[i]? with
        | some entry =>
            { p with selected := i, mode := .confirmDelete entry.secret.id entry.secret.name }
        | none => p
    | none =>
        match p.lastRow fun i => (gestures.row i).edited with
        | some i =>
            match p.ranked[i]? with
            | some entry => { p with selected := i }.send (.beginEdit entry.secret.id)
            | none => p
        | none =>
            match p.lastRow fun i => (gestures.row i).activated with
            | some i => { p with selected := i }.activateSelected
            | none => p

/-- The search box and the list below it. -/
def drawListMode (moment : Moment) (gestures : Gestures) (p : Popup) : Popup :=
  if gestures.addClicked then
    { p with mode := .edit (Editor.new moment.unix), needsFocus := true }
  else
    let p := { p with needsFocus := false }
    let p :=
      match gestures.query with
      | some query => ({ p with query, selected := 0 }.rerank S).send .touch
      | none => p
    p.drawList gestures

/-- The form, and then its buttons. -/
def drawEditMode (moment : Moment) (gestures : Gestures) (p : Popup) : Popup :=
  match p.mode with
  | .edit editor =>
      let p := { p with mode := .edit (editor.drawn gestures.form) }
      if gestures.cancelClicked then { p with mode := .list, needsFocus := true }
      else if gestures.saveClicked then p.saveEditor moment
      else p
  | _ => p

/-- The PIN prompt. -/
def drawPinMode (gestures : Gestures) (p : Popup) : Popup :=
  match p.mode with
  | .pin entry =>
      { p with
        mode := .pin { entry with value := gestures.pin.getD entry.value, needsFocus := false } }
  | _ => p

/-- Draws the popup, and takes what the user did to it. -/
def draw (moment : Moment) (gestures : Gestures) (p : Popup) : Popup :=
  match p.mode with
  | .list => p.drawListMode S moment gestures
  | .edit _ => p.drawEditMode moment gestures
  | .confirmDelete _ _ => p
  | .pin _ => p.drawPinMode gestures

/-! ## Events -/

/-- Applies one event from the worker. -/
def handleEvent (now : Instant) (p : Popup) : DaemonEvent → Popup
  | .showPopup secrets host application =>
      { { p with
          secrets
          context := { host, application }
          query := ""
          selected := 0
          message := none }.rerank S with
        mode := .list
        visible := true
        needsFocus := true }
  | .hide => p.hide
  | .lockChanged state => { p with lockState := state }
  | .error notice => { p with message := some (.error notice, now) }
  | .status text => { p with message := some (.status text, now) }
  | .editReady m payload =>
      { p with mode := .edit (Editor.fromExisting m payload), visible := true, needsFocus := true }
  | .refresh secrets => { p with secrets }.rerank S
  | .requestPin retry =>
      { p with mode := .pin { value := "", retry, needsFocus := true }, visible := true }

end Drawing

/-! ## Queries of the shell -/

/-- Something on screen is animating. -/
def wantsRepaint (p : Popup) : Bool :=
  p.visible && (p.lockState.isUnlocked || p.message.isSome)

/-- The popup survives losing the keyboard focus. -/
def keepOpenOnFocusLoss (p : Popup) : Bool :=
  match p.mode with
  | .edit _ | .confirmDelete _ _ | .pin _ => true
  | .list => false

/-- A text field is on screen that a paste should go to. -/
def wantsTextInput (p : Popup) : Bool :=
  p.visible &&
    match p.mode with
    | .list | .edit _ | .pin _ => true
    | .confirmDelete _ _ => false

/-- What the shell does when the keyboard focus is lost. -/
def loseFocus (p : Popup) : Popup := if p.keepOpenOnFocusLoss then p else p.forceHide

/-! ## The popup as a system -/

inductive Input where
  | event (now : Instant) (event : DaemonEvent)
  /-- The keys of the last drawn frame. -/
  | tick (moment : Moment) (keys : Keys)
  | draw (moment : Moment) (gestures : Gestures)
  /-- The compositor takes the surface away. -/
  | closed
  | focusLost

variable (S : Searcher)

def next (p : Popup) : Input → Option Popup
  | .event now event => some (p.handleEvent S now event)
  | .tick moment keys => some (p.tick moment keys)
  | .draw moment gestures => if p.visible then some (p.draw S moment gestures) else none
  | .closed => some p.forceHide
  | .focusLost => some p.loseFocus

def Step (p : Popup) (input : Input) (p' : Popup) : Prop := p.next S input = some p'

end Popup

end Sypherstore
