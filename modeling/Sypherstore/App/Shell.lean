/-
# The window shell

The window that hosts the popup, and the keys that reach it (`ui/shell.rs`). A press waits in
`input` until a frame is drawn, and the handlers read the keys of the frame drawn last. So a
frame's keys stay readable until the next frame, however long that takes. The compositor is
an input here, and so is what the pointer does, which is part of the gestures of a frame.
-/

import Sypherstore.App.Popup
import Sypherstore.Core.Domain

namespace Sypherstore

open Logic

/-! ## Keys -/

/-- The keysym of a key, a number. -/
structure Keysym where
  raw : UInt32
  deriving DecidableEq

/-- The keys of the drawing library that a keysym can stand for. Letters are upper case. -/
inductive UiKey where
  | escape
  | enter
  | tab
  | backspace
  | delete
  | arrowUp
  | arrowDown
  | arrowLeft
  | arrowRight
  | home
  | endOfLine
  | pageUp
  | pageDown
  | character (c : Char)
  deriving DecidableEq

/-- The modifier keys that are held. -/
structure Modifiers where
  alt : Bool
  ctrl : Bool
  shift : Bool
  deriving DecidableEq

/-- `Modifiers::NONE`. -/
def Modifiers.none : Modifiers := ⟨false, false, false⟩

/-- The keysyms that are listed one by one. -/
def namedKeys : List (UInt32 × UiKey) :=
  [(0xff1b, .escape), (0xff0d, .enter), (0xff8d, .enter), (0xff09, .tab), (0xff08, .backspace),
    (0xffff, .delete), (0xff52, .arrowUp), (0xff54, .arrowDown), (0xff51, .arrowLeft),
    (0xff53, .arrowRight), (0xff50, .home), (0xff57, .endOfLine), (0xff55, .pageUp),
    (0xff56, .pageDown)]

/-- `char::from_u32`. -/
def charFromU32 (raw : UInt32) : Option Char :=
  if h : raw.toNat.isValidChar then some (Char.ofNatAux raw.toNat h) else none

/-- Letters and digits are their own codepoints, and either case names the same key. -/
def translateKeysym (sym : Keysym) : Option UiKey :=
  match namedKeys.lookup sym.raw with
  | some key => some key
  | none =>
      ((charFromU32 sym.raw).filter isAsciiAlphanumeric).map fun c => .character c.toUpper

example : translateKeysym ⟨0x73⟩ = some (.character 'S') ∧
    translateKeysym ⟨0x53⟩ = some (.character 'S') ∧ translateKeysym ⟨0x20⟩ = none := by
  decide

/-- What the compositor tells of a key. -/
structure KeyEvent where
  keysym : Keysym
  utf8 : Option String

/-! ## Input -/

/-- An event for the drawing library. -/
inductive InputEvent where
  | key (key : UiKey) (pressed : Bool) (modifiers : Modifiers)
  | text (text : String)
  | paste (text : String)

/-- The key that the event presses. -/
def InputEvent.pressedKey : InputEvent → Option UiKey
  | .key k true _ => some k
  | _ => none

/-- An event and the call of `push_key` that pushed it. Only the record reads the number. -/
structure Pushed where
  number : ℕ
  event : InputEvent

/-- What a drawn frame was given. -/
structure Frame where
  events : List Pushed
  modifiers : Modifiers

/-- Before anything was drawn. -/
def Frame.blank : Frame := ⟨[], .none⟩

namespace Frame

/-- `InputState::key_pressed`. -/
def keyPressed (f : Frame) (key : UiKey) : Bool :=
  f.events.any fun pushed => pushed.event.pressedKey = some key

/-- What `handle_keys` reads of the frame. -/
def keys (f : Frame) : Keys where
  escape := f.keyPressed .escape
  up := f.keyPressed .arrowUp
  down := f.keyPressed .arrowDown
  enter := f.keyPressed .enter
  tab := f.keyPressed .tab
  shift := f.modifiers.shift
  ctrl := f.modifiers.ctrl
  n := f.keyPressed (.character 'N')
  e := f.keyPressed (.character 'E')
  d := f.keyPressed (.character 'D')
  s := f.keyPressed (.character 'S')

end Frame

/-- The numbers of the presses of some keys. -/
def pressesOf (heeds : UiKey → Bool) (events : List Pushed) : List ℕ :=
  events.filterMap fun pushed =>
    match pushed.event.pressedKey with
    | some key => if heeds key then some pushed.number else none
    | none => none

/-- The keys that the popup acts on while it shows this. -/
def Mode.answers (ctrl : Bool) : Mode → UiKey → Bool
  | _, .escape => true
  | .list, .arrowUp | .list, .arrowDown | .list, .enter => true
  | .list, .character c => ctrl && (c = 'N' || c = 'E' || c = 'D')
  | .edit _, .tab => true
  | .edit _, .character c => ctrl && c = 'S'
  | .confirmDelete _ _, .enter => true
  | .pin entry, .enter => !entry.value.isEmpty
  | _, _ => false

/-- The keys that the popup acts on in some mode. -/
def UiKey.isCommand (ctrl : Bool) : UiKey → Bool
  | .escape | .arrowUp | .arrowDown | .enter | .tab => true
  | .character c => ctrl && (c = 'N' || c = 'E' || c = 'D' || c = 'S')
  | _ => false

/-- The presses of the frame that the popup acts on while it shows this. -/
def Frame.answered (f : Frame) (mode : Mode) : List ℕ :=
  pressesOf (mode.answers f.modifiers.ctrl) f.events

/-- The presses of the frame that the popup acts on in some mode. -/
def Frame.commands (f : Frame) : List ℕ := pressesOf (UiKey.isCommand f.modifiers.ctrl) f.events

/-- The frame with only some of its events. -/
def Frame.filter (keep : ℕ → Bool) (f : Frame) : Frame :=
  { f with events := f.events.filter fun pushed => keep pushed.number }

/-! ## The shell -/

/-- A mapped popup. -/
structure Window where
  /-- The compositor has sent its first configure. -/
  configured : Bool
  deriving DecidableEq

structure Shell where
  popup : Popup
  window : Option Window
  /-- Input accumulated since the last frame. -/
  input : List Pushed
  modifiers : Modifiers
  /-- What the drawing library reports outside a frame. -/
  pass : Frame
  /-- The record: how many keys were delivered. -/
  delivered : ℕ
  /-- The record: how many of them before the popup was last shown by the hotkey. -/
  shown : ℕ
  /-- The record: the presses that the popup acted on, one entry for each time. -/
  acted : List ℕ

namespace Shell

/-- The shell as it starts. -/
def start : Shell where
  popup := .new
  window := none
  input := []
  modifiers := .none
  pass := .blank
  delivered := 0
  shown := 0
  acted := []

/-- The window may be drawn on. -/
def configured (s : Shell) : Bool := s.window.any Window.configured

/-- The waiting presses that the popup could act on, if Ctrl is held when they are drawn. -/
def waiting (s : Shell) : List ℕ := pressesOf (UiKey.isCommand true) s.input

/-- The last frame without the presses from before the popup was last shown, and without those
that were acted on. -/
def unread (s : Shell) : Frame := s.pass.filter fun n => s.shown ≤ n && n ∉ s.acted

/-- The text that a press types. Commands type none. -/
def typed (event : KeyEvent) (pressed : Bool) (s : Shell) : Option String :=
  if pressed && !s.modifiers.ctrl && !s.modifiers.alt then
    event.utf8.filter fun text => !text.isEmpty && !text.toList.any isControl
  else none

/-- The events that a key makes. The clipboard is only read for a paste. -/
def keyEvents (event : KeyEvent) (pressed : Bool) (clipboard : Option String) (s : Shell) :
    List InputEvent :=
  let key := translateKeysym event.keysym
  if pressed && s.modifiers.ctrl && key = some (.character 'V') then
    match s.popup.wantsTextInput, clipboard with
    | true, some text => if text.isEmpty then [] else [.paste text]
    | _, _ => []
  else
    (key.map fun k => .key k pressed s.modifiers).toList ++
      ((s.typed event pressed).map .text).toList

/-- Pushes a key into the input queue. -/
def pushKey (event : KeyEvent) (pressed : Bool) (clipboard : Option String) (s : Shell) : Shell :=
  { s with
    input := s.input ++ (s.keyEvents event pressed clipboard).map (Pushed.mk s.delivered)
    delivered := s.delivered + 1 }

/-- Creates the window, unless its surface cannot be had. -/
def map (mapped : Bool) (s : Shell) : Shell :=
  if mapped then { s with window := some ⟨false⟩ } else s

/-- Destroys the window. The library forgets the focus, but not the keys of the last frame. -/
def unmap (s : Shell) : Shell := { s with window := none }

/-- The event opens the popup anew for the hotkey. -/
def isShow : DaemonEvent → Bool
  | .showPopup _ _ _ => true
  | _ => false

/-- What the ticks have acted on once this frame's tick is done. -/
def actedAfter (s : Shell) : List ℕ :=
  s.acted ++ if s.popup.visible then s.pass.answered s.popup.mode else []

/-- The popup reads the keys of the last frame. -/
def tick (moment : Moment) (s : Shell) : Shell :=
  { s with popup := s.popup.tick moment s.pass.keys, acted := s.actedAfter }

/-- Maps or unmaps the window to match what the popup wants. -/
def reconcile (mapped : Bool) (s : Shell) : Shell :=
  match s.popup.visible, s.window with
  | true, none => s.map mapped
  | false, some _ => s.unmap
  | _, _ => s

section Drawing

variable (S : Searcher)

/-- Worker events go to the popup. -/
def onDaemonEvent (now : Instant) (event : DaemonEvent) (s : Shell) : Shell :=
  { s with
    popup := s.popup.handleEvent S now event
    shown := if isShow event then s.delivered else s.shown }

/-- Draws a frame with the input that has accumulated, if the window is ready for it. -/
def draw (moment : Moment) (gestures : Gestures) (s : Shell) : Shell :=
  if s.configured then
    { s with
      popup := s.popup.draw S moment gestures
      pass := ⟨s.input, s.modifiers⟩
      input := [] }
  else s

/-- What the loop does after each dispatch. -/
def afterDispatch (moment frame : Moment) (mapped : Bool) (gestures : Gestures) (s : Shell) :
    Shell :=
  let s := (s.tick moment).reconcile mapped
  if s.popup.visible then s.draw S frame gestures else s

end Drawing

/-! ## The loop -/

inductive Action where
  | daemonEvent (now : Instant) (event : DaemonEvent)
  | key (event : KeyEvent) (pressed : Bool) (clipboard : Option String)
  | updateModifiers (modifiers : Modifiers)
  | configure
  /-- The compositor takes the surface away. -/
  | closed
  /-- The keyboard focus is lost. -/
  | leave
  /-- A dispatch is over. -/
  | dispatched (moment frame : Moment) (mapped : Bool) (gestures : Gestures)

variable (S : Searcher)

def next (s : Shell) : Action → Shell
  | .daemonEvent now event => s.onDaemonEvent S now event
  | .key event pressed clipboard => s.pushKey event pressed clipboard
  | .updateModifiers modifiers => { s with modifiers }
  | .configure => { s with window := s.window.map fun _ => ⟨true⟩ }
  | .closed => { s with popup := s.popup.forceHide, window := none }
  | .leave => { s with modifiers := .none, popup := s.popup.loseFocus }
  | .dispatched moment frame mapped gestures => s.afterDispatch S moment frame mapped gestures

def Step (s : Shell) (action : Action) (s' : Shell) : Prop := s.next S action = s'

end Shell

end Sypherstore
