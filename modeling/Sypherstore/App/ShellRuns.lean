/-
# Which popup a key acts on

A key press should act once, and on the popup that was open when it was pressed. A frame's
keys are read by every tick until the next frame is drawn, and none is drawn while the popup
is hidden or its window waits to be configured. So a press is read again when the popup is
opened over an old frame, and this is the only way.
-/

import Sypherstore.App.PopupRuns
import Sypherstore.App.Shell

namespace Sypherstore

open Logic

/-! ## Presses -/

theorem mem_pressesOf {heeds : UiKey → Bool} {events : List Pushed} {n : ℕ} :
    n ∈ pressesOf heeds events ↔
      ∃ pushed ∈ events, ∃ key, pushed.event.pressedKey = some key ∧ heeds key ∧
        pushed.number = n := by
  simp only [pressesOf, List.mem_filterMap]
  refine exists_congr fun pushed => and_congr_right fun _ => ?_
  cases pushed.event.pressedKey <;> simp

theorem pressesOf_append (heeds : UiKey → Bool) (events more : List Pushed) :
    pressesOf heeds (events ++ more) = pressesOf heeds events ++ pressesOf heeds more :=
  List.filterMap_append

/-- Heeding more keys finds more presses, in the same order. -/
theorem pressesOf_sublist {heeds heeds' : UiKey → Bool} (h : ∀ key, heeds key → heeds' key)
    (events : List Pushed) : (pressesOf heeds events).Sublist (pressesOf heeds' events) := by
  induction events with
  | nil => exact .slnil
  | cons pushed events ih =>
      unfold pressesOf at ih ⊢
      rw [List.filterMap_cons, List.filterMap_cons]
      cases pushed.event.pressedKey with
      | none => exact ih
      | some key =>
          cases hkey : heeds key with
          | true => simpa [hkey, h key hkey] using ih
          | false =>
              cases hkey' : heeds' key with
              | true => simpa [hkey, hkey'] using ih.cons pushed.number
              | false => simpa [hkey, hkey'] using ih

theorem UiKey.isCommand_of_answers {mode : Mode} {ctrl : Bool} {key : UiKey}
    (h : mode.answers ctrl key) : key.isCommand ctrl := by
  cases mode <;> cases key <;> simp_all [Mode.answers, UiKey.isCommand]

theorem UiKey.isCommand_of_ctrl {ctrl : Bool} {key : UiKey} (h : key.isCommand ctrl) :
    key.isCommand true := by
  cases key <;> simp_all [UiKey.isCommand]

namespace Frame

variable {f g : Frame} {mode : Mode} {key : UiKey}

theorem keyPressed_iff :
    f.keyPressed key ↔ ∃ pushed ∈ f.events, pushed.event.pressedKey = some key := by
  simp [keyPressed]

theorem answered_sublist (f : Frame) (mode : Mode) : (f.answered mode).Sublist f.commands :=
  pressesOf_sublist (fun _ => UiKey.isCommand_of_answers) f.events

/-- A frame in which nothing is answered presses none of the mode's keys. -/
theorem keyPressed_of_unanswered (h : f.answered mode = [])
    (hkey : mode.answers f.modifiers.ctrl key) : f.keyPressed key = false := by
  by_contra hpressed
  obtain ⟨pushed, hmem, hevent⟩ := keyPressed_iff.mp (by simpa using hpressed)
  have hanswered : pushed.number ∈ f.answered mode :=
    mem_pressesOf.mpr ⟨pushed, hmem, key, hevent, hkey, rfl⟩
  simp [h] at hanswered

/-- A frame that loses no press that the mode answers is the same for it. -/
theorem keyPressed_filter {keep : ℕ → Bool} (h : ∀ n ∈ f.answered mode, keep n)
    (hkey : mode.answers f.modifiers.ctrl key) :
    f.keyPressed key = (f.filter keep).keyPressed key := by
  apply Bool.eq_iff_iff.mpr
  rw [keyPressed_iff, keyPressed_iff]
  constructor
  · rintro ⟨pushed, hmem, hevent⟩
    have hkept := h _ (mem_pressesOf.mpr ⟨pushed, hmem, key, hevent, hkey, rfl⟩)
    exact ⟨pushed, List.mem_filter.mpr ⟨hmem, hkept⟩, hevent⟩
  · rintro ⟨pushed, hmem, hevent⟩
    exact ⟨pushed, (List.mem_filter.mp hmem).1, hevent⟩

end Frame

/-! ## What a tick reads of a frame -/

namespace Popup

variable {p : Popup} {f g : Frame}

/-- Only the keys that the mode answers have a part in what a frame does. -/
theorem handleKeys_congr (moment : Moment) (hmodifiers : f.modifiers = g.modifiers)
    (hkeys : ∀ key, p.mode.answers f.modifiers.ctrl key → f.keyPressed key = g.keyPressed key) :
    p.handleKeys moment f.keys = p.handleKeys moment g.keys := by
  have hescape : f.keyPressed .escape = g.keyPressed .escape := by
    apply hkeys
    cases p.mode <;> rfl
  -- A chord counts only while Ctrl is held, and then the mode answers its letter.
  have hchord : ∀ c, (f.modifiers.ctrl → p.mode.answers f.modifiers.ctrl (.character c)) →
      (f.modifiers.ctrl && f.keyPressed (.character c)) =
        (f.modifiers.ctrl && g.keyPressed (.character c)) := by
    intro c hanswers
    cases hctrl : f.modifiers.ctrl with
    | true => rw [hkeys _ (hanswers hctrl)]
    | false => rfl
  cases hmode : p.mode with
  | list =>
      have hn := hchord 'N' fun hctrl => by simp [hmode, Mode.answers, hctrl]
      have he := hchord 'E' fun hctrl => by simp [hmode, Mode.answers, hctrl]
      have hd := hchord 'D' fun hctrl => by simp [hmode, Mode.answers, hctrl]
      have hup := hkeys .arrowUp (by simp [hmode, Mode.answers])
      have hdown := hkeys .arrowDown (by simp [hmode, Mode.answers])
      have henter := hkeys .enter (by simp [hmode, Mode.answers])
      simp only [handleKeys, hmode, handleListKeys, Frame.keys, ← hmodifiers, hescape, hn, he, hd,
        hup, hdown, henter]
  | edit editor =>
      have hs := hchord 'S' fun hctrl => by simp [hmode, Mode.answers, hctrl]
      have htab := hkeys .tab (by simp [hmode, Mode.answers])
      simp only [handleKeys, hmode, handleEditKeys, Frame.keys, ← hmodifiers, hescape, hs, htab]
  | confirmDelete id name =>
      have henter := hkeys .enter (by simp [hmode, Mode.answers])
      simp only [handleKeys, hmode, handleConfirmKeys, Frame.keys, hescape, henter]
  | pin entry =>
      simp only [handleKeys, hmode, handlePinKeys, Frame.keys, hescape]
      cases hempty : entry.value.isEmpty with
      | true => simp
      | false =>
          have henter := hkeys .enter (by simp [hmode, Mode.answers, hempty])
          simp [henter]

theorem tick_congr (moment : Moment) (hmodifiers : f.modifiers = g.modifiers)
    (hkeys : ∀ key, p.mode.answers f.modifiers.ctrl key → f.keyPressed key = g.keyPressed key) :
    p.tick moment f.keys = p.tick moment g.keys := by
  obtain ⟨message, hexpired⟩ := exists_expireMessage moment.now p
  cases hvisible : p.visible with
  | false => rw [tick_of_hidden _ _ hvisible, tick_of_hidden _ _ hvisible]
  | true =>
      have hsame := handleKeys_congr (p := { p with message }) moment hmodifiers hkeys
      rw [tick_of_visible _ _ hvisible, tick_of_visible _ _ hvisible, hexpired]
      simp only [afterKeys, hsame]

theorem handleKeys_none (moment : Moment) (modifiers : Modifiers) (p : Popup) :
    p.handleKeys moment (Frame.mk [] modifiers).keys = (false, p) := by
  cases hmode : p.mode <;>
    simp [handleKeys, hmode, handleListKeys, handleEditKeys, handleConfirmKeys, handlePinKeys,
      Frame.keys, Frame.keyPressed]

/-- A frame in which nothing is answered is a frame without keys. -/
theorem tick_of_unanswered (moment : Moment) (h : f.answered p.mode = []) :
    p.tick moment f.keys = p.expireMessage moment.now := by
  obtain ⟨message, hexpired⟩ := exists_expireMessage moment.now p
  have hnone : p.tick moment f.keys = p.tick moment (Frame.mk [] f.modifiers).keys := by
    have hmodifiers : f.modifiers = (Frame.mk [] f.modifiers).modifiers := rfl
    apply tick_congr moment hmodifiers
    intro key hkey
    rw [f.keyPressed_of_unanswered h hkey]
    rfl
  rw [hnone]
  cases hvisible : p.visible with
  | false => rw [tick_of_hidden _ _ hvisible]
  | true => simp [tick_of_visible _ _ hvisible, hexpired, afterKeys, handleKeys_none]

theorem handleListKeys_open (moment : Moment) {keys : Keys} (hescape : keys.escape = false) :
    (p.handleListKeys moment keys).1 = false := by
  unfold handleListKeys
  rw [if_neg (by simp [hescape])]
  split
  · rfl
  · split
    · split <;> rfl
    · split
      · split <;> rfl
      · rfl

theorem handleKeys_open (moment : Moment) {keys : Keys} (hescape : keys.escape = false)
    (p : Popup) : (p.handleKeys moment keys).1 = false := by
  unfold handleKeys
  split
  · exact handleListKeys_open moment hescape
  all_goals rfl

/-- Only Escape closes the popup. -/
theorem escape_of_closed (moment : Moment) {keys : Keys} (hvisible : p.visible)
    (h : (p.tick moment keys).visible = false) : keys.escape := by
  obtain ⟨message, hexpired⟩ := exists_expireMessage moment.now p
  rw [tick_of_visible _ _ hvisible, hexpired, afterKeys] at h
  by_contra hescape
  rw [if_neg (by simp [handleKeys_open moment (by simpa using hescape)]), visible_handleKeys] at h
  simp [hvisible] at h

end Popup

/-! ## The record of a run -/

namespace Shell

variable {S : Searcher} {s s' : Shell} {action : Action} {actions : List Action}

/-- The popup was closed by a key of the last frame, which has been answered. -/
structure Spent (s : Shell) : Prop where
  hidden : s.popup.visible = false
  unmapped : s.window = none
  escape : s.pass.keyPressed .escape

/-- Every press was answered once at most and has its turn before the later ones, unless the
last frame is spent. What is read of a frame is read only once it will be replaced. -/
structure Orderly (s : Shell) : Prop where
  counted : ∀ n ∈ s.acted ++ s.pass.commands ++ s.waiting, n < s.delivered
  recent : ∀ n ∈ s.pass.commands ++ s.waiting, s.shown ≤ n
  seen : s.shown ≤ s.delivered
  ordered : (s.acted ++ s.waiting).Nodup
  unread : (s.acted ++ s.pass.commands ++ s.waiting).Nodup ∨ s.Spent
  idle : s.popup.visible → s.configured = false → s.pass.answered s.popup.mode = []

/-- The last frame and the waiting input have nothing to say to the popup that the action
opens: to a list nothing at all, and to a form or a prompt that no frame is drawn for before
the next tick none of the keys that it answers. -/
def Fresh (s : Shell) : Action → Prop
  | .daemonEvent _ (.showPopup _ _ _) => s.pass.commands = [] ∧ s.waiting = []
  | .daemonEvent _ (.editReady m payload) =>
      s.configured = false → s.pass.answered (.edit (.fromExisting m payload)) = []
  | .daemonEvent _ (.requestPin retry) =>
      s.configured = false → s.pass.answered (.pin ⟨"", retry, true⟩) = []
  | _ => True

theorem orderly_start : start.Orderly where
  counted := by simp [start, Frame.commands, Frame.blank, waiting, pressesOf]
  recent := by simp [start, Frame.commands, Frame.blank, waiting, pressesOf]
  seen := le_refl _
  ordered := by simp [start, waiting, pressesOf]
  unread := .inl (by simp [start, Frame.commands, Frame.blank, waiting, pressesOf])
  idle := by simp [start, Popup.new]

/-- A step that only moves the popup and its window. -/
theorem Orderly.of_popup (h : s.Orderly) {popup : Popup} {window : Option Window}
    {modifiers : Modifiers} (hspent : s.Spent → popup.visible = false ∧ window = none)
    (hidle : popup.visible → window.any Window.configured = false →
      s.pass.answered popup.mode = []) : Orderly { s with popup, window, modifiers } where
  counted := h.counted
  recent := h.recent
  seen := h.seen
  ordered := h.ordered
  unread := h.unread.imp_right fun hs => ⟨(hspent hs).1, (hspent hs).2, hs.escape⟩
  idle := hidle

/-- A step that hides the popup or leaves its mode, and leaves the window. -/
theorem Orderly.of_quiet (h : s.Orderly) {popup : Popup} {modifiers : Modifiers}
    (hquiet : popup.visible = false ∨
      popup.visible = s.popup.visible ∧ popup.mode = s.popup.mode) :
    Orderly { s with popup, modifiers } := by
  apply h.of_popup
  · intro hspent
    refine ⟨?_, hspent.unmapped⟩
    rcases hquiet with hhidden | ⟨hsame, _⟩
    · exact hhidden
    · exact hsame.trans hspent.hidden
  · intro hvisible hconfigured
    rcases hquiet with hhidden | ⟨hsame, hmode⟩
    · simp [hhidden] at hvisible
    · rw [hmode]
      exact h.idle (hsame.symm.trans hvisible) hconfigured

/-! ## What one step does to the record -/

/-- A call of `push_key` presses at most one key. -/
theorem pressesOf_keyEvents (heeds : UiKey → Bool) (event : KeyEvent) (pressed : Bool)
    (clipboard : Option String) (s : Shell) :
    (pressesOf heeds ((s.keyEvents event pressed clipboard).map (Pushed.mk s.delivered))).Sublist
      [s.delivered] := by
  unfold keyEvents
  dsimp only
  split
  · split
    · split
      · exact List.nil_sublist _
      · exact List.nil_sublist _
    · exact List.nil_sublist _
  · rw [List.map_append, pressesOf_append]
    have htext : pressesOf heeds (((s.typed event pressed).map InputEvent.text).toList.map
        (Pushed.mk s.delivered)) = [] := by
      cases s.typed event pressed <;> rfl
    rw [htext, List.append_nil]
    cases translateKeysym event.keysym with
    | none => exact List.nil_sublist _
    | some k =>
        cases pressed with
        | false => exact List.nil_sublist _
        | true => cases hk : heeds k <;> simp [pressesOf, InputEvent.pressedKey, hk]

/-- The new press is later than all that were delivered. -/
theorem nodup_append_sublist {l more : List ℕ} {n : ℕ} (h : l.Nodup) (hlt : ∀ m ∈ l, m < n)
    (hmore : more.Sublist [n]) : (l ++ more).Nodup := by
  have hlast : (l ++ [n]).Nodup := by
    apply h.append (List.nodup_singleton n)
    intro m hm hn
    obtain rfl := List.mem_singleton.mp hn
    exact lt_irrefl _ (hlt _ hm)
  exact hlast.sublist (hmore.append_left l)

theorem Orderly.pushKey (h : s.Orderly) (event : KeyEvent) (pressed : Bool)
    (clipboard : Option String) : (s.pushKey event pressed clipboard).Orderly := by
  have hnew := pressesOf_keyEvents (UiKey.isCommand true) event pressed clipboard s
  have hwaiting : (s.pushKey event pressed clipboard).waiting = s.waiting ++
      pressesOf (UiKey.isCommand true)
        ((s.keyEvents event pressed clipboard).map (Pushed.mk s.delivered)) :=
    pressesOf_append ..
  generalize pressesOf (UiKey.isCommand true)
    ((s.keyEvents event pressed clipboard).map (Pushed.mk s.delivered)) = more at hnew hwaiting
  have hmore : ∀ n ∈ more, n = s.delivered := fun n hn => by simpa using hnew.subset hn
  constructor
  · intro n hn
    rw [hwaiting, ← List.append_assoc] at hn
    rcases List.mem_append.mp hn with hold | hlast
    · exact (h.counted n hold).trans (Nat.lt_succ_self _)
    · rw [hmore n hlast]
      exact Nat.lt_succ_self _
  · intro n hn
    rw [hwaiting, ← List.append_assoc] at hn
    rcases List.mem_append.mp hn with hold | hlast
    · exact h.recent n hold
    · rw [hmore n hlast]
      exact h.seen
  · exact h.seen.trans (Nat.le_succ _)
  · rw [hwaiting, ← List.append_assoc]
    apply nodup_append_sublist h.ordered _ hnew
    intro n hn
    apply h.counted n
    simp only [List.mem_append] at hn ⊢
    exact hn.imp_left .inl
  · rcases h.unread with hunread | hspent
    · left
      rw [hwaiting, ← List.append_assoc]
      exact nodup_append_sublist hunread h.counted hnew
    · exact .inr ⟨hspent.hidden, hspent.unmapped, hspent.escape⟩
  · exact h.idle

/-- Escape is answered whatever the popup shows. -/
theorem Spent.answered (h : s.Spent) (mode : Mode) : s.pass.answered mode ≠ [] := by
  intro hnone
  have hanswers : mode.answers s.pass.modifiers.ctrl .escape := by cases mode <;> rfl
  have hidle := s.pass.keyPressed_of_unanswered hnone hanswers
  simp [h.escape] at hidle

theorem Spent.not_configured (h : s.Spent) : s.configured = false := by
  simp [configured, h.unmapped]

/-- An event that opens a form or a prompt over a frame whose keys it does not answer. -/
theorem Orderly.opened (h : s.Orderly) {popup : Popup}
    (hfresh : s.configured = false → s.pass.answered popup.mode = []) :
    Orderly { s with popup } := by
  apply h.of_popup
  · intro hspent
    exact absurd (hfresh hspent.not_configured) (hspent.answered _)
  · exact fun _ => hfresh

theorem Orderly.shown (h : s.Orderly) {popup : Popup} (hpass : s.pass.commands = [])
    (hwaiting : s.waiting = []) : Orderly { s with popup, shown := s.delivered } where
  counted := h.counted
  recent := by
    intro n hn
    have hnone : n ∈ s.pass.commands ++ s.waiting := hn
    simp [hpass, hwaiting] at hnone
  seen := le_refl _
  ordered := h.ordered
  unread := by
    left
    have hacted : (s.acted ++ s.pass.commands ++ s.waiting).Nodup := by
      simpa [hpass, hwaiting] using h.ordered
    exact hacted
  idle := by
    intro _ _
    have hsub := s.pass.answered_sublist popup.mode
    rw [hpass] at hsub
    exact List.sublist_nil.mp hsub

theorem Orderly.onDaemonEvent (h : s.Orderly) (now : Instant) (event : DaemonEvent)
    (hfresh : s.Fresh (.daemonEvent now event)) : (s.onDaemonEvent S now event).Orderly := by
  cases event with
  | showPopup secrets host application => exact h.shown hfresh.1 hfresh.2
  | hide => exact h.of_quiet (.inl (Popup.hidden_hide _))
  | lockChanged state => exact h.of_quiet (.inr ⟨rfl, rfl⟩)
  | error notice => exact h.of_quiet (.inr ⟨rfl, rfl⟩)
  | status text => exact h.of_quiet (.inr ⟨rfl, rfl⟩)
  | editReady m payload => exact h.opened hfresh
  | refresh secrets => exact h.of_quiet (.inr ⟨rfl, rfl⟩)
  | requestPin retry => exact h.opened hfresh

/-- A tick of a popup that is hidden, or whose window waits, answers nothing. -/
theorem Orderly.tick_idle (h : s.Orderly) (moment : Moment)
    (hidle : s.popup.visible = false ∨ s.configured = false) :
    s.tick moment = { s with popup := s.popup.expireMessage moment.now } := by
  cases hvisible : s.popup.visible with
  | false => simp [tick, actedAfter, hvisible, Popup.tick_of_hidden]
  | true =>
      have hnone := h.idle hvisible (hidle.resolve_left (by simp [hvisible]))
      simp [tick, actedAfter, hnone, Popup.tick_of_unanswered moment hnone]

theorem actedAfter_sublist (s : Shell) : s.actedAfter.Sublist (s.acted ++ s.pass.commands) := by
  unfold actedAfter
  split
  · exact (s.pass.answered_sublist _).append_left _
  · exact (List.nil_sublist _).append_left _

theorem Orderly.unread_of_visible (h : s.Orderly) (hvisible : s.popup.visible) :
    (s.acted ++ s.pass.commands ++ s.waiting).Nodup := by
  apply h.unread.resolve_right
  intro hspent
  simp [hspent.hidden] at hvisible

/-- The presses of a frame come after those of the frame before it. -/
theorem Orderly.drawn (h : s.Orderly) (hvisible : s.popup.visible) (hconfigured : s.configured)
    {popup : Popup} : Orderly { s with
      popup, acted := s.actedAfter, pass := ⟨s.input, s.modifiers⟩, input := [] } := by
  have hcommands : (Frame.mk s.input s.modifiers).commands.Sublist s.waiting :=
    pressesOf_sublist (fun _ => UiKey.isCommand_of_ctrl) s.input
  have hacted := s.actedAfter_sublist
  have hall : (s.actedAfter ++ (Frame.mk s.input s.modifiers).commands ++ []).Sublist
      (s.acted ++ s.pass.commands ++ s.waiting) := by
    rw [List.append_nil]
    exact hacted.append hcommands
  have hunread := h.unread_of_visible hvisible
  constructor
  · exact fun n hn => h.counted n (hall.subset hn)
  · intro n hn
    apply h.recent n
    have hmem : n ∈ (Frame.mk s.input s.modifiers).commands := by
      simpa [waiting, pressesOf] using hn
    exact List.mem_append_right _ (hcommands.subset hmem)
  · exact h.seen
  · have hnodup := hunread.sublist ((hacted.append (List.nil_sublist s.waiting)))
    exact hnodup
  · exact .inl (hunread.sublist hall)
  · intro _ hwaits
    have hready : s.configured = false := hwaits
    simp [hready] at hconfigured

/-- The popup was closed by Escape. The frame stays, and its window goes. -/
theorem Orderly.spent (h : s.Orderly) (hvisible : s.popup.visible)
    (hescape : s.pass.keyPressed .escape) {popup : Popup} (hhidden : popup.visible = false) :
    Orderly { s with popup, acted := s.actedAfter, window := none } := by
  have hunread := h.unread_of_visible hvisible
  have hacted := s.actedAfter_sublist
  constructor
  · intro n hn
    have hmem : n ∈ s.actedAfter ++ s.pass.commands ++ s.waiting := hn
    apply h.counted n
    simp only [List.mem_append] at hmem ⊢
    rcases hmem with (hold | hpass) | hwaiting
    · exact .inl (List.mem_append.mp (hacted.subset hold))
    · exact .inl (.inr hpass)
    · exact .inr hwaiting
  · exact h.recent
  · exact h.seen
  · exact hunread.sublist (hacted.append_right s.waiting)
  · exact .inr ⟨hhidden, rfl, hescape⟩
  · intro hshown
    have hopen : popup.visible = true := hshown
    simp [hhidden] at hopen

/-! ## After a dispatch -/

theorem afterDispatch_of_hidden {moment frame : Moment} {mapped : Bool} {gestures : Gestures}
    (h : (s.tick moment).popup.visible = false) :
    s.afterDispatch S moment frame mapped gestures = { s.tick moment with window := none } := by
  unfold afterDispatch
  have hreconciled : (s.tick moment).reconcile mapped = { s.tick moment with window := none } := by
    unfold reconcile
    rw [h]
    cases hwindow : (s.tick moment).window with
    | none => simp [← hwindow]
    | some window => rfl
  rw [hreconciled]
  exact if_neg (by simp [h])

theorem afterDispatch_of_configured {moment frame : Moment} {mapped : Bool} {gestures : Gestures}
    (h : (s.tick moment).popup.visible) (hconfigured : s.configured) :
    s.afterDispatch S moment frame mapped gestures = { s.tick moment with
      popup := (s.tick moment).popup.draw S frame gestures
      pass := ⟨s.input, s.modifiers⟩
      input := [] } := by
  unfold afterDispatch
  have hready : (s.tick moment).configured := hconfigured
  have hreconciled : (s.tick moment).reconcile mapped = s.tick moment := by
    unfold reconcile
    rw [h]
    cases hwindow : (s.tick moment).window with
    | none => simp [configured, hwindow] at hready
    | some window => rfl
  rw [hreconciled]
  dsimp only
  rw [if_pos h, draw, if_pos hready]
  rfl

/-- While the window waits to be configured there is nothing to draw on. -/
theorem afterDispatch_of_waiting {moment frame : Moment} {mapped : Bool} {gestures : Gestures}
    (h : (s.tick moment).popup.visible) (hconfigured : s.configured = false) :
    ∃ window : Option Window, window.any Window.configured = false ∧
      s.afterDispatch S moment frame mapped gestures = { s.tick moment with window } := by
  have hreconciled : ∃ window : Option Window, window.any Window.configured = false ∧
      (s.tick moment).reconcile mapped = { s.tick moment with window } := by
    unfold reconcile
    rw [h]
    cases hwindow : (s.tick moment).window with
    | none =>
        show ∃ window : Option Window, _ ∧ (s.tick moment).map mapped = _
        cases mapped with
        | true => exact ⟨some ⟨false⟩, rfl, rfl⟩
        | false => exact ⟨none, rfl, by simp [map, ← hwindow]⟩
    | some window => exact ⟨some window, hwindow ▸ hconfigured, by simp [← hwindow]⟩
  obtain ⟨window, hwaits, hwindow⟩ := hreconciled
  refine ⟨window, hwaits, ?_⟩
  unfold afterDispatch
  rw [hwindow]
  dsimp only
  rw [if_pos h, draw, if_neg]
  simp [configured, hwaits]

theorem Orderly.afterDispatch (h : s.Orderly) (moment frame : Moment) (mapped : Bool)
    (gestures : Gestures) : (s.afterDispatch S moment frame mapped gestures).Orderly := by
  cases hidle : !s.popup.visible || !s.configured with
  | true =>
      have htick := h.tick_idle moment (by simpa using hidle)
      obtain ⟨message, hexpired⟩ := Popup.exists_expireMessage moment.now s.popup
      rw [hexpired] at htick
      cases hvisible : s.popup.visible with
      | false =>
          rw [afterDispatch_of_hidden (by rw [htick]; exact hvisible), htick]
          exact h.of_popup (fun _ => ⟨hvisible, rfl⟩) fun hshown => by simp [hvisible] at hshown
      | true =>
          have hwaits : s.configured = false := by simpa [hvisible] using hidle
          have hshown : (s.tick moment).popup.visible := by
            rw [htick]
            exact hvisible
          obtain ⟨window, hwindow, hafter⟩ : ∃ window : Option Window, _ ∧
              s.afterDispatch S moment frame mapped gestures = _ :=
            afterDispatch_of_waiting hshown hwaits
          rw [hafter, htick]
          apply h.of_popup
          · intro hspent
            simp [hspent.hidden] at hvisible
          · exact fun _ _ => h.idle hvisible hwaits
  | false =>
      obtain ⟨hvisible, hconfigured⟩ : s.popup.visible ∧ s.configured := by simpa using hidle
      cases hafter : (s.tick moment).popup.visible with
      | false =>
          rw [afterDispatch_of_hidden hafter]
          exact h.spent hvisible (Popup.escape_of_closed moment hvisible hafter) hafter
      | true =>
          rw [afterDispatch_of_configured hafter hconfigured]
          exact h.drawn hvisible hconfigured

/-! ## Runs -/

theorem Orderly.step (h : s.Orderly) (hfresh : s.Fresh action) (hstep : Step S s action s') :
    s'.Orderly := by
  cases hstep
  cases action with
  | daemonEvent now event => exact h.onDaemonEvent now event hfresh
  | key event pressed clipboard => exact h.pushKey event pressed clipboard
  | updateModifiers modifiers => exact h.of_quiet (.inr ⟨rfl, rfl⟩)
  | configure =>
      apply h.of_popup
      · intro hspent
        exact ⟨hspent.hidden, by simp [hspent.unmapped]⟩
      · intro hvisible hwaits
        apply h.idle hvisible
        cases hwindow : s.window with
        | none => simp [configured, hwindow]
        | some window => simp [hwindow] at hwaits
  | closed =>
      have hhidden := Popup.hidden_hide s.popup
      exact h.of_popup (fun _ => ⟨hhidden, rfl⟩) fun hshown => by
        simp [Popup.forceHide, hhidden] at hshown
  | leave =>
      apply h.of_quiet
      unfold Popup.loseFocus
      split
      · exact .inr ⟨rfl, rfl⟩
      · exact .inl (Popup.hidden_hide _)
  | dispatched moment frame mapped gestures => exact h.afterDispatch moment frame mapped gestures

/-- A tick depends on nothing but the presses that no tick has acted on yet and that came
after the popup was last shown. -/
theorem Orderly.tick_unread (h : s.Orderly) (moment : Moment) :
    s.popup.tick moment s.pass.keys = s.popup.tick moment s.unread.keys := by
  cases hvisible : s.popup.visible with
  | false => rw [Popup.tick_of_hidden _ _ hvisible, Popup.tick_of_hidden _ _ hvisible]
  | true =>
      have hmodifiers : s.pass.modifiers = s.unread.modifiers := rfl
      apply Popup.tick_congr moment hmodifiers
      intro key hkey
      apply Frame.keyPressed_filter _ hkey
      intro n hn
      have hcommand : n ∈ s.pass.commands := (s.pass.answered_sublist _).subset hn
      have hrecent := h.recent n (List.mem_append_left _ hcommand)
      have hapart := List.disjoint_of_nodup_append
        (List.Nodup.of_append_left (h.unread_of_visible hvisible))
      simpa [hrecent] using fun hacted => hapart hacted hcommand

/-- The condition on the hotkey is not only enough. Where the last frame presses a key that
a list answers, the tick after the hotkey acts on a press from before it. -/
theorem Orderly.acts_on_old_press (h : s.Orderly) (now : Instant) (secrets : List SecretMeta)
    (host application : Option String) (moment : Moment) (hpressed : s.pass.answered .list ≠ []) :
    ∃ n ∈ ((s.onDaemonEvent S now (.showPopup secrets host application)).tick moment).acted,
      n < (s.onDaemonEvent S now (.showPopup secrets host application)).shown := by
  obtain ⟨n, hn⟩ := List.exists_mem_of_ne_nil _ hpressed
  have hold : n < s.delivered := by
    apply h.counted n
    simp [(s.pass.answered_sublist _).subset hn]
  exact ⟨n, List.mem_append_right s.acted hn, hold⟩

/-- **Key presses act once, and not on a popup that was shown after them.** In every run in
which the popup is only opened over frames and input that have nothing to say to it, no press
is acted on twice, and a tick goes as if the last frame held neither the presses acted on nor
those from before the last hotkey. -/
theorem presses_act_once (S : Searcher) :
    ∀ actions s, Run (guarded (Step S) Fresh) start actions s →
      s.acted.Nodup ∧
        ∀ moment, s.popup.tick moment s.pass.keys = s.popup.tick moment s.unread.keys := by
  intro actions s hrun
  have horderly : s.Orderly := by
    apply hrun.invariant (I := Orderly) _ orderly_start
    rintro t action t' _ ht ⟨hstep, hfresh⟩
    exact ht.step hfresh hstep
  exact ⟨horderly.ordered.sublist (List.sublist_append_left _ _), horderly.tick_unread⟩

/-- The Down key, as the compositor tells of it. -/
def downKey : KeyEvent := ⟨⟨0xff54⟩, none⟩

/-- The Escape key. -/
def escapeKey : KeyEvent := ⟨⟨0xff1b⟩, none⟩

/-- A dispatch after which the user only looks. -/
def Action.glance : Action := .dispatched .zero .zero true .none

/-- The hotkey, while nothing is stored. -/
def Action.hotkey : Action := .daemonEvent 0 (.showPopup [] none none)

/-- The shell after the first hotkey. -/
def opened : Shell := { start with popup := { Popup.new with visible := true, needsFocus := true } }

theorem step_opened : Step .plain start .hotkey opened := by
  simp [Step, next, Action.hotkey, onDaemonEvent, Popup.handleEvent, Popup.rerank, opened, start,
    isShow, Popup.new]

/-- A list is shown and drawn, and a press of Down reaches it once. -/
theorem a_press_moves_once :
    ∃ s, Run (guarded (Step .plain) Fresh) start
        [.hotkey, .glance, .configure, .glance, .key downKey true none, .glance, .glance, .glance]
        s ∧ s.acted = [0] ∧ s.popup.requests = [.touch] ∧
      s.popup.tick .zero s.pass.keys = s.popup.tick .zero s.unread.keys := by
  have hrun : ∃ s, Run (guarded (Step .plain) Fresh) start
      [.hotkey, .glance, .configure, .glance, .key downKey true none, .glance, .glance, .glance] s ∧
      s.acted = [0] ∧ s.popup.requests = [.touch] :=
    ⟨_, .cons ⟨step_opened, rfl, rfl⟩ (.cons ⟨rfl, trivial⟩ (.cons ⟨rfl, trivial⟩
      (.cons ⟨rfl, trivial⟩ (.cons ⟨rfl, trivial⟩ (.cons ⟨rfl, trivial⟩ (.cons ⟨rfl, trivial⟩
        (.cons ⟨rfl, trivial⟩ (.nil _)))))))), rfl, rfl⟩
  obtain ⟨s, hrun, hacted, hsent⟩ := hrun
  exact ⟨s, hrun, hacted, hsent, (presses_act_once .plain _ _ hrun).2 .zero⟩

/-- The list is closed with Escape, and the next hotkey opens one that the same press closes
before it was drawn. Without the old press it would have stayed. -/
theorem an_old_escape_closes_the_new_popup :
    ∃ s s', Run (Step .plain) start
        [.hotkey, .glance, .configure, .glance, .key escapeKey true none, .glance, .glance,
          .hotkey] s ∧
      Step .plain s .glance s' ∧ s.shown = 1 ∧ s.popup.visible ∧
      (s.popup.tick .zero s.unread.keys).visible ∧ s'.popup.visible = false ∧
      s'.acted = [0, 0] ∧ ¬ s'.acted.Nodup :=
  ⟨_, _, .cons step_opened (.cons rfl (.cons rfl (.cons rfl (.cons rfl (.cons rfl (.cons rfl
    (.cons rfl (.nil _)))))))), rfl, rfl, rfl, rfl, rfl, rfl, by decide⟩

end Shell

end Sypherstore
