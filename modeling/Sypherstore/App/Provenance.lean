/-
# Where a request comes from

The worker handles what is in its queue, and asks nobody whether the user wants it. That
it was wanted is a property of the popup and the daemon together: the popup sends a request
only for what the user has done in the state that was on screen, the rows on screen are
those that the daemon has told it, and a form that updates a secret was opened with that
secret. So each request that the worker handles can be traced back through the run, and
the store changes only as the user has asked.
-/

import Sypherstore.App.Telling
import Sypherstore.App.PinAttribution
import Sypherstore.App.PopupRequests

namespace Sypherstore

open Logic

/-! ## The worker -/

namespace Worker

/-- The worker is in the handler of this request. -/
def Serves : Worker → UiRequest → Prop
  | .handling r', r => r' = r
  | .awaiting r' _, r => r' = r
  | .authorized r', r => r' = r
  | _, _ => False

end Worker

namespace Daemon

variable {P : Primitives} {s s' : Daemon} {r : UiRequest}

theorem Moves.serves {worker : Worker} (h : s.Moves worker) (hserves : worker.Serves r) :
    s.worker.Serves r := by
  cases h with
  | foundAuthorized hat hedits hflag hfree =>
      rw [hat]
      exact hserves
  | _ => cases hserves

/-- A handler begins only with a request from the queue. -/
theorem serves_of_step {a : Action} (h : Step P s a s') (hserves : s'.worker.Serves r) :
    s.worker.Serves r ∨ r ∈ s.requests := by
  cases a with
  | send r' =>
      cases h
      exact .inl hserves
  | handle =>
      dsimp only [Step, next] at h
      split at h <;> cases h
      exact .inl hserves
  | take arm =>
      cases take_effect h with
      | entered hidle hto =>
          rcases hto with ⟨_, rfl⟩ | ⟨_, rfl⟩ | ⟨_, rfl⟩ <;> cases hserves
      | @accepted r' rest hidle hrequests =>
          rcases worker_accept (s := { s with requests := rest }) r' with hsame | ⟨hto, _⟩
          · rw [hsame] at hserves
            exact .inl hserves
          · rw [hto] at hserves
            obtain rfl : r' = r := hserves
            exact .inr (by simp [hrequests])
  | work input =>
      left
      cases work_effect h with
      | moved session lastState events hmoves => exact hmoves.serves hserves
      | started events hat hflag => cases hserves
      | reasserted session hat hlook hwhy =>
          rw [hat]
          exact hserves
      | resumed events hat hreturned hto =>
          rw [hat]
          subst hto
          dsimp only at hserves
          split at hserves
          · exact hserves
          · cases hserves
  | thread t move =>
      obtain ⟨thread, ht, hstep⟩ := Option.bind_eq_some_iff.mp h
      have hsame : s'.worker = s.worker := by cases threadStep_effect hstep <;> rfl
      exact .inl (hsame ▸ hserves)

/-- Only the popup puts a request into the queue. -/
theorem mem_requests_of_step {a : Action} (h : Step P s a s') (ha : ∀ r', a ≠ .send r')
    (hr : r ∈ s'.requests) : r ∈ s.requests := by
  cases a with
  | send r' => exact absurd rfl (ha r')
  | handle =>
      dsimp only [Step, next] at h
      split at h <;> cases h
      exact hr
  | take arm =>
      cases take_effect h with
      | entered hidle hto => exact hr
      | @accepted r' rest hidle hrequests =>
          have hrest : ({ s with requests := rest }.accept r').requests = rest := by
            cases r' with
            | unlock =>
                show (Daemon.startUnlock { s with requests := rest }).requests = rest
                unfold startUnlock
                split <;> rfl
            | _ => rfl
          rw [hrest] at hr
          rw [hrequests]
          exact List.mem_cons_of_mem _ hr
  | work input => cases work_effect h <;> exact hr
  | thread t move =>
      obtain ⟨thread, ht, hstep⟩ := Option.bind_eq_some_iff.mp h
      have hsame : s'.requests = s.requests := by cases threadStep_effect hstep <;> rfl
      exact hsame ▸ hr

end Daemon

namespace Conversation

section Definitions

variable (P : Primitives) (S : Searcher) (session : Session)

/-- The daemon has told the popup of a list with this secret in it. -/
def Listed (past : List Action) (m : SecretMeta) : Prop :=
  Happened (Step P S) (start session) past fun _ s _ s' =>
    ∃ event ∈ s'.daemon.events.drop s.daemon.events.length, m ∈ event.secrets

/-- The daemon has given this secret to the popup to be edited. -/
def Opened (past : List Action) (id : Uuid) : Prop :=
  Happened (Step P S) (start session) past fun _ s _ s' =>
    ∃ m payload, .editReady m payload ∈ s'.daemon.events.drop s.daemon.events.length ∧ m.id = id

/-- The user did this to a row of the popup, and the daemon had listed the secret. -/
def Picks (how : Popup.Input → ℕ → Bool) (id : Uuid) (past : List Action) (a : Action)
    (s' : Conversation) : Prop :=
  ∃ input m, a = .popup input ∧ s'.popup.target = some m ∧ m.id = id ∧
    how input s'.popup.selected ∧ Listed P S session past m

/-- What a step is to the popup: an input of its own, or the oldest event. -/
def Feeds (s : Conversation) (a : Action) (input : Popup.Input) : Prop :=
  a = .popup input ∧ (∀ now event, input ≠ .event now event) ∨
    ∃ now event, a = .deliver now ∧ s.daemon.events.head? = some event ∧ input = .event now event

/-- In this step the user asks for this, with what is on screen. The popup may also go off the
screen by itself. -/
def Asks (before : List Action) (s : Conversation) (a : Action) (s' : Conversation) :
    UiRequest → Prop
  | .unlock => s.popup.lockState = .locked ∧
      ∃ id, Picks P S session Popup.Input.activates id before a s'
  | .use id => s.popup.lockState.isUnlocked ∧
      Picks P S session Popup.Input.activates id before a s'
  | .beginEdit id => Picks P S session Popup.Input.edits id before a s'
  | .delete id =>
      (∃ input, a = .popup input ∧ input.enters) ∧
      (∃ name, s.popup.mode = .confirmDelete id name) ∧
      Happened (Step P S) (start session) before fun earlier _ a' u' =>
        Picks P S session Popup.Input.deletes id earlier a' u'
  | .save m payload isUpdate =>
      (∃ input, a = .popup input ∧ Popup.Saves s.popup.mode input m payload isUpdate) ∧
      (isUpdate → Opened P S session before m.id)
  | .pinResponse none =>
      (∃ input, a = .popup input ∧ input.escapes) ∧ ∃ entry, s.popup.mode = .pin entry
  | .pinResponse (some pin) =>
      (∃ input, a = .popup input ∧ input.enters) ∧
      ∃ entry, s.popup.mode = .pin entry ∧ entry.value = pin
  | .touch => (∃ input, a = .popup input ∧ input.moves) ∧ s.popup.mode = .list
  | .dismissed => ∃ input, s.Feeds a input ∧ input.dismisses s.popup.mode

/-- This was asked for, on screen. -/
def AskedFor (past : List Action) (r : UiRequest) : Prop :=
  Happened (Step P S) (start session) past fun before s a s' =>
    s.popup.visible ∧ Asks P S session before s a s' r

/-- Everything on screen, in the queues and in the worker can be traced back. -/
structure Sourced (past : List Action) (s : Conversation) : Prop where
  run : Run (Step P S) (start session) past s
  coherent : s.popup.Coherent S
  listed : ∀ event ∈ s.daemon.events, ∀ m ∈ event.secrets, Listed P S session past m
  opened : ∀ m payload, .editReady m payload ∈ s.daemon.events → Opened P S session past m.id
  secrets : ∀ m ∈ s.popup.secrets, Listed P S session past m
  confirm : ∀ id name, s.popup.mode = .confirmDelete id name →
    Happened (Step P S) (start session) past fun before _ a s' =>
      Picks P S session Popup.Input.deletes id before a s'
  edit : ∀ editor id, s.popup.mode = .edit editor → editor.id = some id →
    Opened P S session past id
  queue : ∀ r ∈ s.daemon.requests, AskedFor P S session past r
  worker : ∀ r, s.daemon.worker.Serves r → AskedFor P S session past r

end Definitions

variable {P : Primitives} {S : Searcher} {session : Session} {past : List Action}
  {s s' : Conversation}

theorem Feeds.mem_events {a : Action} {now : Instant} {event : DaemonEvent}
    (h : s.Feeds a (.event now event)) : event ∈ s.daemon.events := by
  rcases h with ⟨_, hnot⟩ | ⟨_, _, _, hhead, heq⟩
  · exact absurd rfl (hnot now event)
  · cases heq
    exact List.mem_of_mem_head? hhead

theorem Feeds.eq_popup {a : Action} {input : Popup.Input} (h : s.Feeds a input)
    (hnot : ∀ now event, input ≠ .event now event) : a = .popup input := by
  rcases h with ⟨ha, _⟩ | ⟨now, event, _, _, heq⟩
  · exact ha
  · exact absurd heq (hnot now event)

theorem sourced_start : Sourced P S session [] (start session) where
  run := .nil _
  coherent := Popup.coherent_new S
  listed := by simp [start, Daemon.start]
  opened := by simp [start, Daemon.start]
  secrets := by simp [start, Popup.new]
  confirm := by simp [start, Popup.new]
  edit := by simp [start, Popup.new]
  queue := by simp [start, Daemon.start]
  worker := by rintro r ⟨⟩

/-! ## Steps -/

/-- The popup takes a step, of its own or with the oldest event. -/
theorem Sourced.adopt {a : Action} {input : Popup.Input} {popup : Popup}
    (h : Sourced P S session past s) (hstep : Step P S s a s')
    (hpopup : s.front.Step S input popup)
    (hinput : s.Feeds a input)
    (hto : s'.popup = popup) (hrequests : s'.daemon.requests = popup.requests)
    (hevents : ∀ event ∈ s'.daemon.events, event ∈ s.daemon.events)
    (hworker : s'.daemon.worker = s.daemon.worker) : Sourced P S session (past ++ [a]) s' := by
  have hcoherent : s.front.Coherent S := ⟨h.coherent.ranked, h.coherent.selected⟩
  have hfaithful := Popup.step_faithful hpopup
  have hturns := Popup.step_turns hpopup
  have hafter : popup.Coherent S := hfaithful.coherent hcoherent
  have hsecrets : ∀ m ∈ popup.secrets, Listed P S session past m := by
    intro m hm
    rcases hturns.secrets m hm with hold | ⟨now, event, rfl, hnew⟩
    · exact h.secrets m hold
    · exact h.listed event hinput.mem_events m hnew
  -- What the user did to a row is recorded with this step.
  have hpicks : ∀ {how : Popup.Input → ℕ → Bool} {m : SecretMeta},
      (∀ now event i, how (.event now event) i = false) → popup.target = some m →
      how input popup.selected → Picks P S session how m.id past a s' := by
    intro how m hevent htarget hhow
    rcases hinput with ⟨ha, _⟩ | ⟨now, event, _, _, rfl⟩
    · exact ⟨input, m, ha, hto ▸ htarget, rfl, hto ▸ hhow,
        hsecrets m (Popup.mem_secrets_of_target hafter htarget)⟩
    · rw [hevent] at hhow
      cases hhow
  have hown : ∀ {does : Popup.Input → Bool}, (∀ now event, does (.event now event) = false) →
      does input → ∃ input, a = .popup input ∧ does input := by
    intro does hevent hdoes
    rcases hinput with ⟨ha, _⟩ | ⟨now, event, _, _, rfl⟩
    · exact ⟨input, ha, hdoes⟩
    · rw [hevent] at hdoes
      cases hdoes
  refine ⟨h.run.append (.single hstep), hto ▸ hafter, ?_, ?_, ?_, ?_, ?_, ?_, ?_⟩
  · exact fun event hevent m hm => (h.listed event (hevents event hevent) m hm).append [a]
  · exact fun m payload hevent => (h.opened m payload (hevents _ hevent)).append [a]
  · rw [hto]
    exact fun m hm => (hsecrets m hm).append [a]
  · intro id name hmode
    rw [hto] at hmode
    rcases hturns.confirm id name hmode with hold | ⟨m, htarget, rfl, hdeletes⟩
    · exact (h.confirm id name hold).append [a]
    · exact .last h.run hstep (hpicks (fun _ _ _ => rfl) htarget hdeletes)
  · intro editor id hmode hid
    rw [hto] at hmode
    rcases hturns.edit editor id hmode hid with ⟨editor₀, hold, hid₀⟩ | ⟨now, m, payload, rfl, rfl⟩
    · exact (h.edit editor₀ id hold hid₀).append [a]
    · exact (h.opened m payload hinput.mem_events).append [a]
  · intro r hr
    rw [hrequests] at hr
    obtain ⟨sent, hsent, htargets⟩ := hfaithful.sent
    obtain ⟨sent', hsent', hdue⟩ := Popup.step_sendsDue hpopup
    obtain rfl : sent = sent' := List.append_cancel_left (hsent.symm.trans hsent')
    rw [hsent] at hr
    rcases List.mem_append.mp hr with hold | hnew
    · exact (h.queue r hold).append [a]
    · have htarget := htargets r hnew
      have hdue := hdue r hnew
      have hvisible : s.front.visible := by
        by_contra hhidden
        have hsame := Popup.requests_of_hidden hpopup (Bool.eq_false_iff.mpr hhidden)
        obtain rfl : sent = [] := by simpa [hsent] using hsame
        cases hnew
      refine .last h.run hstep ⟨hvisible, ?_⟩
      cases r with
      | unlock =>
          obtain ⟨hsome, hactivates, hlocked⟩ := htarget
          obtain ⟨m, hm⟩ := Option.isSome_iff_exists.mp hsome
          exact ⟨hlocked, m.id, hpicks (fun _ _ _ => rfl) hm hactivates⟩
      | use id =>
          obtain ⟨hid, hactivates, hunlocked⟩ := htarget
          obtain ⟨m, hm, rfl⟩ := Option.map_eq_some_iff.mp hid
          exact ⟨hunlocked, hpicks (fun _ _ _ => rfl) hm hactivates⟩
      | beginEdit id =>
          obtain ⟨hid, hedits⟩ := htarget
          obtain ⟨m, hm, rfl⟩ := Option.map_eq_some_iff.mp hid
          exact hpicks (fun _ _ _ => rfl) hm hedits
      | delete id =>
          obtain ⟨⟨name, hmode⟩, henters⟩ := hdue
          exact ⟨hown (fun _ _ => rfl) henters, ⟨name, hmode⟩, h.confirm id name hmode⟩
      | save m payload isUpdate =>
          refine ⟨⟨input, hinput.eq_popup hdue.not_event, hdue⟩, fun hupdate => ?_⟩
          obtain ⟨editor, hmode, hid⟩ := hdue.id_eq hupdate
          exact h.edit editor m.id hmode hid
      | pinResponse pin =>
          cases pin with
          | none =>
              obtain ⟨⟨entry, hmode⟩, hescapes⟩ := hdue
              exact ⟨hown (fun _ _ => rfl) hescapes, entry, hmode⟩
          | some pin =>
              obtain ⟨⟨entry, hmode, hvalue⟩, henters⟩ := hdue
              exact ⟨hown (fun _ _ => rfl) henters, entry, hmode, hvalue⟩
      | touch => exact ⟨hown (fun _ _ => rfl) hdue.2, hdue.1⟩
      | dismissed => exact ⟨input, hinput, hdue⟩
  · intro r hr
    rw [hworker] at hr
    exact (h.worker r hr).append [a]

theorem daemon_record (s : Conversation) (daemon : Daemon) (action : Daemon.Action) :
    (s.record daemon action).daemon = daemon ∧ (s.record daemon action).popup = s.popup := by
  unfold record
  split <;> exact ⟨rfl, rfl⟩

/-- The daemon takes a step. -/
theorem Sourced.daemon {action : Daemon.Action} {daemon : Daemon}
    (h : Sourced P S session past s) (hsend : ∀ r, action ≠ .send r)
    (hdaemon : s.daemon.Step P action daemon)
    (hstep : Step P S s (.daemon action) (s.record daemon action)) :
    Sourced P S session (past ++ [.daemon action]) (s.record daemon action) := by
  obtain ⟨hto, hpopup⟩ := daemon_record s daemon action
  have hevents : ∀ event ∈ daemon.events, event ∈ s.daemon.events ∨
      event ∈ (s.record daemon action).daemon.events.drop s.daemon.events.length := by
    intro event hevent
    rw [hto]
    rcases Daemon.step_tells hdaemon with ⟨told, htold, _⟩ | htail
    · rw [htold] at hevent ⊢
      rw [List.drop_left]
      exact List.mem_append.mp hevent
    · rw [htail] at hevent
      exact .inl (List.mem_of_mem_tail hevent)
  refine ⟨h.run.append (.single hstep), hpopup ▸ h.coherent, ?_, ?_, ?_, ?_, ?_, ?_, ?_⟩
  · intro event hevent m hm
    rw [hto] at hevent
    rcases hevents event hevent with hold | hnew
    · exact (h.listed event hold m hm).append _
    · exact .last h.run hstep ⟨event, hnew, hm⟩
  · intro m payload hevent
    rw [hto] at hevent
    rcases hevents _ hevent with hold | hnew
    · exact (h.opened m payload hold).append _
    · exact .last h.run hstep ⟨m, payload, hnew, rfl⟩
  · rw [hpopup]
    exact fun m hm => (h.secrets m hm).append _
  · rw [hpopup]
    exact fun id name hmode => (h.confirm id name hmode).append _
  · rw [hpopup]
    exact fun editor id hmode hid => (h.edit editor id hmode hid).append _
  · intro r hr
    rw [hto] at hr
    exact (h.queue r (Daemon.mem_requests_of_step hdaemon hsend hr)).append _
  · intro r hr
    rw [hto] at hr
    rcases Daemon.serves_of_step hdaemon hr with hold | hqueued
    · exact (h.worker r hold).append _
    · exact (h.queue r hqueued).append _

/-- A step of the daemon in the conversation. -/
theorem daemon_step {action : Daemon.Action} (h : Step P S s (.daemon action) s') :
    ∃ daemon, s.daemon.Step P action daemon ∧ s.record daemon action = s' ∧
      ∀ r, action ≠ .send r := by
  cases action with
  | send r => cases h
  | handle => cases h
  | _ =>
      obtain ⟨daemon, hdaemon, hrecord⟩ := Option.map_eq_some_iff.mp h
      exact ⟨daemon, hdaemon, hrecord, by simp⟩

/-- A step that the popup takes by itself. -/
theorem popup_step {input : Popup.Input} (h : Step P S s (.popup input) s') :
    ∃ popup, s.front.Step S input popup ∧ s.adopt popup = s' ∧
      ∀ now event, input ≠ .event now event := by
  have hnot : ∀ now event, input ≠ .event now event := by
    rintro now event rfl
    cases h
  have hnext : (s.front.next S input).map s.adopt = some s' := by
    cases input with
    | event now event => exact absurd rfl (hnot now event)
    | _ => exact h
  obtain ⟨popup, hpopup, hadopt⟩ := Option.map_eq_some_iff.mp hnext
  exact ⟨popup, hpopup, hadopt, hnot⟩

/-- The popup handles the oldest event. -/
theorem deliver_step {now : Instant} (h : Step P S s (.deliver now) s') :
    ∃ event, s.daemon.events.head? = some event ∧ s'.popup = s.front.handleEvent S now event ∧
      s'.daemon.requests = s'.popup.requests ∧
      s'.daemon = { s.daemon with requests := s'.daemon.requests, events := s.daemon.events.tail }
      := by
  dsimp only [Step, next] at h
  split at h
  · cases h
  · rename_i event events hevents
    cases h
    exact ⟨event, by simp [hevents], rfl, rfl, by rw [hevents]; rfl⟩

theorem Sourced.step {a : Action} (h : Sourced P S session past s) (hstep : Step P S s a s') :
    Sourced P S session (past ++ [a]) s' := by
  cases a with
  | daemon action =>
      obtain ⟨daemon, hdaemon, rfl, hsend⟩ := daemon_step hstep
      exact h.daemon hsend hdaemon hstep
  | popup input =>
      obtain ⟨popup, hpopup, rfl, hnot⟩ := popup_step hstep
      exact h.adopt hstep hpopup (.inl ⟨rfl, hnot⟩) rfl rfl (fun _ hevent => hevent) rfl
  | deliver now =>
      obtain ⟨event, hhead, hto, hrequests, hdaemon⟩ := deliver_step hstep
      have hpopup : s.front.Step S (.event now event) (s.front.handleEvent S now event) := rfl
      refine h.adopt hstep hpopup (.inr ⟨now, event, rfl, hhead, rfl⟩) hto (hto ▸ hrequests) ?_
        (by rw [hdaemon])
      intro event' hevent'
      rw [hdaemon] at hevent'
      exact List.mem_of_mem_tail hevent'

theorem sourced_of_run {actions : List Action} (hrun : Run (Step P S) (start session) actions s) :
    Sourced P S session actions s :=
  hrun.history (R := fun past s => Sourced P S session past s)
    (fun _ _ _ _ h hstep => h.step hstep) sourced_start

/-- **No request is invented.** In every run of the daemon with its popup, what is in the queue
and what the worker is serving was asked for with the popup on screen: with the row
highlighted whose secret is to be used, edited or deleted, or for which the vault is to be
unlocked, which the daemon had listed; with the form on screen that says what is to be saved,
which for an update was opened with that secret; with the prompt on screen whose PIN was
given. The popup is dismissed when the user leaves it or when it is taken away. -/
theorem requests_are_asked_for (P : Primitives) (S : Searcher) (session : Session)
    (actions : List Action) (s : Conversation)
    (hrun : Run (Step P S) (start session) actions s) :
    (∀ r ∈ s.daemon.requests, AskedFor P S session actions r) ∧
    ∀ r, s.daemon.worker.Serves r → AskedFor P S session actions r := by
  have hsourced := sourced_of_run hrun
  exact ⟨hsourced.queue, hsourced.worker⟩

/-! ## What becomes of the store -/

end Conversation

/-- The row under which this call writes or from which it deletes. -/
def Op.writes (P : Primitives) : Op → Option String
  | .add m _ => some (P.uuidText m.id)
  | .update m _ => some (P.uuidText m.id)
  | .delete id => some (P.uuidText id)
  | _ => none

/-- A call leaves a row alone, deletes it, or stores a secret in it. -/
theorem Session.Effect.row_cases {P : Primitives} {call : Call} {s s' : Session} {op : Op}
    {ok : Bool} (h : Session.Effect P call s op ok s') (row : String) :
    s'.vault.secrets[row]? = s.vault.secrets[row]? ∨
    (∃ id, op = .delete id ∧ row = P.uuidText id ∧ s'.vault.secrets[row]? = none) ∨
    ∃ m p inner stored, (op = .add m p ∨ op = .update m p) ∧ row = P.uuidText m.id ∧
      s.innerKek = some inner ∧ s'.vault.secrets[row]? = some stored ∧
      StoresSecret P inner s.outerKek m p stored := by
  have hwritten : ∀ id stored,
      (s.written call id stored).vault.secrets[row]? = s.vault.secrets[row]? ∨
      row = id ∧ (s.written call id stored).vault.secrets[row]? = some stored := by
    intro id stored
    rw [Session.written, Session.vault_touch]
    by_cases hrow : row = id
    · subst hrow
      exact .inr ⟨rfl, Std.ExtTreeMap.getElem?_insert_self⟩
    · exact .inl (Table.getElem?_insert_of_ne hrow)
  cases h with
  | added m p inner stored hlive hinner hfresh hstored =>
      rcases hwritten (P.uuidText m.id) stored with hsame | ⟨hrow, hlookup⟩
      · exact .inl hsame
      · exact .inr (.inr ⟨m, p, inner, stored, .inl rfl, hrow, hinner, hlookup, hstored⟩)
  | updated m p inner stored hlive hinner hmem hstored =>
      rcases hwritten (P.uuidText m.id) stored with hsame | ⟨hrow, hlookup⟩
      · exact .inl hsame
      · exact .inr (.inr ⟨m, p, inner, stored, .inr rfl, hrow, hinner, hlookup, hstored⟩)
  | deleted id hmem =>
      by_cases hrow : row = P.uuidText id
      · subst hrow
        exact .inr (.inl ⟨id, rfl, rfl, Std.ExtTreeMap.getElem?_erase_self⟩)
      · exact .inl (Table.getElem?_erase_of_ne hrow)
  | expired op hlive => exact .inl (by rw [Session.vault_tick])
  | ticked => exact .inl (by rw [Session.vault_tick])
  | touched => exact .inl (by rw [Session.vault_touch])
  | opened id hlive => exact .inl (by rw [Session.vault_touch])
  | enrolled inner label enrollments hlive henroll =>
      exact .inl (by rw [Session.enrolled, Session.vault_touch])
  | _ => exact .inl rfl

theorem Session.lookup_eq_of_run {P : Primitives} {s s' : Session} {log : List Event}
    {row : String} (h : Run (Session.Step P) s log s')
    (hlog : ∀ e ∈ log, e.op.writes P ≠ some row) :
    s'.vault.secrets[row]? = s.vault.secrets[row]? := by
  refine h.invariant
    (I := fun t => t.vault.secrets[row]? = s.vault.secrets[row]?) ?_ rfl
  intro t e t' he ht hstep
  rcases hstep.effect.row_cases row with
    hsame | ⟨id, hop, hrow, _⟩ | ⟨m, p, _, _, hop, hrow, _, _, _⟩
  · rw [hsame, ht]
  · exact absurd (by rw [hop, hrow, Op.writes]) (hlog e he)
  · rcases hop with hop | hop <;> exact absurd (by rw [hop, hrow, Op.writes]) (hlog e he)

namespace Daemon

variable {P : Primitives} {s s' : Daemon}

/-- Only two handlers write, and then they do nothing else. -/
theorem serves_of_writes {a : Action} {call : Call} {op : Op} {row : String}
    (h : (call, op) ∈ s.callsOf a) (hop : op.writes P = some row) :
    s.callsOf a = [(call, op)] ∧
      ((∃ id, op = .delete id ∧ s.worker.Serves (.delete id)) ∨
        ∃ m payload isUpdate, (op = if isUpdate then .update m payload else .add m payload) ∧
          s.worker.Serves (.save m payload isUpdate)) := by
  cases a with
  | work input =>
      dsimp only [callsOf, workCalls] at h ⊢
      split at h
      case h_12 m payload isUpdate hat =>
        obtain ⟨rfl, rfl⟩ := Prod.mk.inj (List.mem_singleton.mp h)
        rw [hat]
        exact ⟨rfl, .inr ⟨m, payload, isUpdate, rfl, rfl⟩⟩
      case h_13 id hat =>
        obtain ⟨rfl, rfl⟩ := Prod.mk.inj (List.mem_singleton.mp h)
        rw [hat]
        exact ⟨rfl, .inl ⟨id, rfl, rfl⟩⟩
      all_goals
        simp only [lookCalls, List.mem_ite_nil_left, List.mem_cons, List.not_mem_nil,
          Prod.mk.injEq] at h
      all_goals grind [Op.writes]
  | thread t move =>
      dsimp only [callsOf] at h
      cases ht : s.threads[t]? with
      | none => simp [ht] at h
      | some thread =>
          rw [ht, Option.elim_some] at h
          cases move with
          | finish call' inner =>
              simp only [threadCalls] at h
              split at h <;> (obtain ⟨rfl, rfl⟩ := Prod.mk.inj (List.mem_singleton.mp h); cases hop)
          | tick call' =>
              obtain ⟨rfl, rfl⟩ := Prod.mk.inj (List.mem_singleton.mp h)
              cases hop
          | refresh call' =>
              obtain ⟨rfl, rfl⟩ := Prod.mk.inj (List.mem_singleton.mp h)
              cases hop
          | _ => cases h
  | _ => cases h

/-- The row is as the request wants it: deleted, or with the secret in it. -/
def Fulfilled (P : Primitives) (s s' : Daemon) (row : String) : UiRequest → Prop
  | .delete id => row = P.uuidText id ∧ s'.session.vault.secrets[row]? = none
  | .save m payload _ => row = P.uuidText m.id ∧ ∃ inner stored,
      s.session.innerKek = some inner ∧ s'.session.vault.secrets[row]? = some stored ∧
      StoresSecret P inner s.session.outerKek m payload stored
  | _ => False

/-- A row that a step changes is the one that the worker's request is about. -/
theorem serves_of_changed {a : Action} (h : Step P s a s') {row : String}
    (hchanged : s'.session.vault.secrets[row]? ≠ s.session.vault.secrets[row]?) :
    ∃ r, s.worker.Serves r ∧ Fulfilled P s s' row r := by
  have hrun := run_answersOf h
  obtain ⟨e, he, hwrites⟩ : ∃ e ∈ s.answersOf P a, e.op.writes P = some row := by
    by_contra! hnone
    exact hchanged (Session.lookup_eq_of_run hrun hnone)
  obtain ⟨hcalls, hserves⟩ := serves_of_writes (Session.mem_performed he) hwrites
  rw [answersOf, hcalls, Session.performed_single] at hrun
  obtain ⟨mid, hstep, hnil⟩ : ∃ mid, Session.Step P s.session _ mid ∧
      Run (Session.Step P) mid [] s'.session := by
    cases hrun with
    | cons hstep hrest => exact ⟨_, hstep, hrest⟩
  cases hnil
  have heffect : Session.Effect P e.call s.session e.op _ s'.session := hstep.effect
  rcases heffect.row_cases row with
    hsame | ⟨id, hop, hrow, hgone⟩ | ⟨m, p, inner, stored, hop, hrow, hinner, hlookup, hstored⟩
  · exact absurd hsame hchanged
  · rcases hserves with ⟨id', hdelete, hserves⟩ | ⟨m, p, isUpdate, hsave, _⟩
    · obtain rfl := Op.delete.inj (hop.symm.trans hdelete)
      exact ⟨_, hserves, hrow, hgone⟩
    · cases isUpdate <;> simp [hop] at hsave
  · rcases hserves with ⟨id, hdelete, _⟩ | ⟨m', p', isUpdate, hsave, hserves⟩
    · rcases hop with hop | hop <;> simp [hop] at hdelete
    · obtain ⟨rfl, rfl⟩ : m' = m ∧ p' = p := by
        rcases hop with hop | hop <;> cases isUpdate <;> simp_all
      exact ⟨_, hserves, hrow, inner, stored, hinner, hlookup, hstored⟩

end Daemon

namespace Conversation

variable {P : Primitives} {S : Searcher} {session : Session} {actions : List Action}
  {s s' : Conversation}

theorem session_of_step {a : Action} (h : Step P S s a s') :
    s'.daemon.session = s.daemon.session ∨
      ∃ action, a = .daemon action ∧ s.daemon.Step P action s'.daemon := by
  cases a with
  | daemon action =>
      obtain ⟨daemon, hdaemon, rfl, _⟩ := daemon_step h
      exact .inr ⟨action, rfl, (daemon_record s daemon action).1.symm ▸ hdaemon⟩
  | popup input =>
      obtain ⟨popup, _, rfl, _⟩ := popup_step h
      exact .inl rfl
  | deliver now =>
      obtain ⟨event, _, _, _, hdaemon⟩ := deliver_step h
      exact .inl (by rw [hdaemon])

/-- **The store changes only as the user asked.** The user has asked for what a step does to a
row. Either the row is gone, and the user has asked to delete its secret, and has confirmed
that; or a secret is stored in it, and the user has saved that secret from a form. -/
theorem changes_are_asked_for (P : Primitives) (S : Searcher) (session : Session)
    (actions : List Action) (s s' : Conversation) (a : Action) (row : String)
    (hrun : Run (Step P S) (start session) actions s) (hstep : Step P S s a s')
    (hchanged : s'.daemon.session.vault.secrets[row]? ≠
      s.daemon.session.vault.secrets[row]?) :
    (∃ id, AskedFor P S session actions (.delete id) ∧
      Daemon.Fulfilled P s.daemon s'.daemon row (.delete id)) ∨
    ∃ m payload isUpdate, AskedFor P S session actions (.save m payload isUpdate) ∧
      Daemon.Fulfilled P s.daemon s'.daemon row (.save m payload isUpdate) := by
  have hasked := (sourced_of_run hrun).worker
  rcases session_of_step hstep with hsame | ⟨action, rfl, hdaemon⟩
  · rw [hsame] at hchanged
    exact absurd rfl hchanged
  · obtain ⟨r, hserves, hfulfilled⟩ := Daemon.serves_of_changed hdaemon hchanged
    cases r with
    | delete id => exact .inl ⟨id, hasked _ hserves, hfulfilled⟩
    | save m payload isUpdate =>
        exact .inr ⟨m, payload, isUpdate, hasked _ hserves, hfulfilled⟩
    | _ => cases hfulfilled

/-! ### A note, written and saved -/

private theorem step_take {r : UiRequest} {rest : List UiRequest}
    (hidle : s.daemon.worker = .idle) (hqueue : s.daemon.requests = r :: rest) :
    Step P S s (.daemon (.take (.request r)))
      { s with daemon := ({ s.daemon with requests := rest } : Daemon).accept r } := by
  simp [Step, next, Daemon.next, Daemon.take, hidle, hqueue, record]

private theorem list_newSession (keys : NewKeys) :
    Session.list .reference (.atOnce 1) (Daemon.newSession keys) =
      (.ok [], Daemon.newSession keys) := by
  rw [Session.list_of_live ⟨keys.innerKek, 10, rfl, rfl, by decide⟩ rfl]
  have hrows : (Daemon.newSession keys).vault.listRows .reference (Call.atOnce 1).sql = .ok [] :=
    rfl
  simp [hrows, pure, Except.pure]

private def noteForm : FormInput :=
  { Gestures.none.form with name := some "Note", value := some "correct-horse" }

/-- What the form of the note stands for. -/
private def noteRequest : UiRequest :=
  .save (((Editor.new 0).drawn noteForm).builtMeta 0 (Block.replicate 16 0))
    ((Editor.new 0).drawn noteForm).builtPayload false

private def noteRow : String := Primitives.reference.uuidText (Block.replicate 16 0)

/-- The shortcut, an empty form, what the user types, and Ctrl+S. -/
private def writing : List Action :=
  [.daemon (.take .hotkey), .daemon (.work (.usual 1)), .daemon (.work (.usual 1)),
    .daemon (.work (.usual 1)), .deliver 1, .daemon (.work (.usual 1)),
    .daemon (.work (.usual 1)), .popup (.tick .zero { Keys.none with ctrl := true, n := true }),
    .popup (.draw .zero { Gestures.none with form := noteForm }),
    .popup (.tick .zero { Keys.none with ctrl := true, s := true })]

private theorem exists_writing (keys : NewKeys) :
    ∃ s, Run (Step .reference .plain) (start (Daemon.newSession keys)) writing s ∧
      s.daemon.worker = .idle ∧ s.daemon.requests = [noteRequest] ∧ s.daemon.holder = none ∧
      s.daemon.unlockInFlight = false ∧
      s.daemon.session = { Daemon.newSession keys with deadline := some 11 } := by
  have hlist : Step .reference .plain
      { start (Daemon.newSession keys) with
        daemon := { Daemon.start (Daemon.newSession keys) with
          worker := .hotkey (.listing none none) } }
      (.daemon (.work (.usual 1)))
      { start (Daemon.newSession keys) with
        daemon := { Daemon.start (Daemon.newSession keys) with
          worker := .hotkey (.announcing true)
          events := [.showPopup [] none none] } } := by
    have hcall : (WorkInput.usual 1).call = .atOnce 1 := rfl
    simp [Step, next, Daemon.next, Daemon.work, Daemon.onHotkey, Daemon.withSession, hcall,
      Daemon.start, list_newSession, Daemon.settle, Daemon.emit, Daemon.goto, record]
  exact ⟨_, .cons rfl (.cons rfl (.cons rfl (.cons hlist (.cons rfl (.cons rfl (.cons rfl
    (.cons rfl (.cons rfl (.cons rfl (.nil _)))))))))), rfl, rfl, rfl, rfl, rfl⟩

/-- The worker takes the request and stores the note. -/
private theorem exists_written (keys : NewKeys) :
    ∃ s s', Run (Step .reference .plain) (start (Daemon.newSession keys))
        (writing ++ [.daemon (.take (.request noteRequest)), .daemon (.work (.usual 2))]) s ∧
      Step .reference .plain s (.daemon (.work (.usual 3))) s' ∧
      s.daemon.worker.Serves noteRequest ∧ s.daemon.session.vault.secrets = ∅ ∧
      (s'.daemon.session.vault.secrets[noteRow]?).isSome := by
  obtain ⟨⟨daemon, popup, askers, shown, origins⟩, hrun, hidle, hqueue, hfree, hflag, hsession⟩ :=
    exists_writing keys
  obtain ⟨session, holder, flag, threads, worker, lastState, requests, events, answers⟩ := daemon
  dsimp only at hidle hqueue hfree hflag hsession
  subst hidle hqueue hfree hflag hsession
  have htake := step_take (P := .reference) (S := .plain)
    (s := ⟨⟨{ Daemon.newSession keys with deadline := some 11 }, none, false, threads, .idle,
      lastState, [noteRequest], events, answers⟩, popup, askers, shown, origins⟩) rfl rfl
  exact ⟨_, _, hrun.append (.cons htake (.cons rfl (.nil _))), rfl, rfl, rfl, rfl⟩

/-- What is served was asked for. -/
theorem a_note_is_asked_for :
    ∃ keys actions s, Run (Step .reference .plain) (start (Daemon.newSession keys)) actions s ∧
      s.daemon.worker.Serves noteRequest ∧
      AskedFor .reference .plain (Daemon.newSession keys) actions noteRequest := by
  obtain ⟨keys, _⟩ := Daemon.exists_reopened
  obtain ⟨s, _, hrun, _, hserves, _⟩ := exists_written keys
  exact ⟨keys, _, s, hrun, hserves,
    (requests_are_asked_for .reference .plain _ _ s hrun).2 _ hserves⟩

/-- What is stored was asked for. -/
theorem a_note_is_stored :
    ∃ keys actions row, ∃ s s' : Conversation,
      Run (Step .reference .plain) (start (Daemon.newSession keys)) actions s ∧
      s'.daemon.session.vault.secrets[row]? ≠ s.daemon.session.vault.secrets[row]? ∧
      ∃ m payload isUpdate,
        AskedFor .reference .plain (Daemon.newSession keys) actions (.save m payload isUpdate) ∧
        Daemon.Fulfilled .reference s.daemon s'.daemon row (.save m payload isUpdate) := by
  obtain ⟨keys, _⟩ := Daemon.exists_reopened
  obtain ⟨s, s', hrun, hstep, _, hempty, hstored⟩ := exists_written keys
  have hsome := Option.isSome_iff_ne_none.mp hstored
  have hchanged : s'.daemon.session.vault.secrets[noteRow]? ≠
      s.daemon.session.vault.secrets[noteRow]? := by
    rwa [hempty, Std.ExtTreeMap.getElem?_empty]
  rcases changes_are_asked_for .reference .plain _ _ s s' _ _ hrun hstep hchanged with
    ⟨id, _, _, hgone⟩ | hsaved
  · exact absurd hgone hsome
  · exact ⟨keys, _, _, s, s', hrun, hchanged, hsaved⟩

end Conversation

end Sypherstore
