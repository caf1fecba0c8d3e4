/-
# The worker's select loop and the shortcut registration

The loop of `worker_loop`: which branch of its `select!` may be taken, and what the
branch of the registration leaves behind. The registration runs as a task of its own
and reports over a oneshot channel, whose branch is enabled for as long as no shortcut
is held. A registration that fails leaves it enabled, and then the next iteration polls
a channel that has already delivered.
-/

import Sypherstore.App.Hotkey
import Sypherstore.App.State
import Sypherstore.Logic.Oneshot
import Sypherstore.Logic.Transition

namespace Sypherstore

open Logic

/-- The branches of the `select!`. -/
inductive Arm where
  | shutdown
  | hotkey
  | registration
  | sigusr1
  | request (r : UiRequest)
  | tick
  deriving DecidableEq

/-- What the registration task reports: the result of `register`, or nothing if the task
died. -/
abbrev Registration : Type := Option (Except HotkeyError HotkeySession)

/-- The shortcut is bound. -/
def Registration.bound : Registration → Bool
  | some (.ok _) => true
  | _ => false

inductive LoopStatus where
  | running
  | stopped
  | panicked
  deriving DecidableEq, Repr

/-- What the loop holds on to between two iterations, and what it has done. -/
structure WorkerLoop where
  sessionRx : Oneshot (Except HotkeyError HotkeySession)
  hotkeySession : Option HotkeySession
  /-- The handler of SIGUSR1 is installed. -/
  sigusr1 : Bool
  status : LoopStatus
  /-- "Global shortcut unavailable: {0}", as shown in the popup. -/
  errors : List HotkeyError
  /-- The branches that were run, in order. -/
  served : List Arm
  deriving DecidableEq

/-- One event: the registration task ends, or the loop goes round and takes a branch. -/
inductive Turn where
  | registered (result : Registration)
  | take (arm : Arm)

namespace Turn

def arm : Turn → Option Arm
  | .registered _ => none
  | .take arm => some arm

end Turn

namespace WorkerLoop

/-- The loop as it is entered. -/
def start (sigusr1 : Bool) : WorkerLoop :=
  { sessionRx := .pending, hotkeySession := none, sigusr1, status := .running, errors := [],
    served := [] }

/-- The branch is polled at all. -/
def enabled (loop : WorkerLoop) : Arm → Bool
  | .registration => loop.hotkeySession.isNone
  | _ => true

/-- The branch can complete. The sender of the activations belongs to the registration
task, and is dropped with it unless the shortcut is bound. -/
def ready (loop : WorkerLoop) : Arm → Bool
  | .registration =>
      match loop.sessionRx.poll with
      | .ready _ => true
      | _ => false
  | .hotkey =>
      match loop.sessionRx with
      | .pending => true
      | .sent result => Registration.bound result
      | .taken => loop.hotkeySession.isSome
  | .sigusr1 => loop.sigusr1
  | _ => true

/-- The body of the registration branch. -/
def registrationArm (loop : WorkerLoop) : Registration → WorkerLoop
  | some (.ok session) => { loop with hotkeySession := some session }
  | some (.error e) => { loop with errors := loop.errors ++ [e] }
  | none => loop

/-- The body of a branch, as far as it is about the loop. -/
def runArm (loop : WorkerLoop) : Arm → WorkerLoop
  | .shutdown => { loop with status := .stopped }
  | .registration =>
      match loop.sessionRx with
      | .sent result => { loop with sessionRx := .taken }.registrationArm result
      | _ => loop
  | _ => loop

/-- One iteration polls every enabled branch and runs one that is ready. -/
def iterate (arm : Arm) (loop : WorkerLoop) : Option WorkerLoop :=
  if loop.status ≠ .running then none
  else if loop.enabled .registration ∧ loop.sessionRx.poll = .panicked then
    some { loop with status := .panicked }
  else if loop.enabled arm ∧ loop.ready arm then
    some { loop.runArm arm with served := loop.served ++ [arm] }
  else none

def next (loop : WorkerLoop) : Turn → Option WorkerLoop
  | .registered result =>
      (loop.sessionRx.send result).map fun rx => { loop with sessionRx := rx }
  | .take arm => loop.iterate arm

def Step (loop : WorkerLoop) (turn : Turn) (loop' : WorkerLoop) : Prop :=
  loop.next turn = some loop'

/-! ## What a turn does -/

/-- The next iteration polls a channel that has already delivered. -/
def Doomed (loop : WorkerLoop) : Prop := loop.sessionRx = .taken ∧ loop.hotkeySession = none

instance (loop : WorkerLoop) : Decidable loop.Doomed :=
  inferInstanceAs (Decidable (_ ∧ _))

/-- The loop with the report taken from the channel. -/
def told (loop : WorkerLoop) (result : Registration) : WorkerLoop :=
  { loop with sessionRx := .taken }.registrationArm result

/-- What a turn can do. -/
inductive Effect (loop : WorkerLoop) : Turn → WorkerLoop → Prop
  | registered {result : Registration} (hpending : loop.sessionRx = .pending) :
      Effect loop (.registered result) { loop with sessionRx := .sent result }
  | panicked {arm : Arm} (hrunning : loop.status = .running) (hdoomed : loop.Doomed) :
      Effect loop (.take arm) { loop with status := .panicked }
  | told {result : Registration} (hrunning : loop.status = .running)
      (hsent : loop.sessionRx = .sent result) (hnone : loop.hotkeySession = none) :
      Effect loop (.take .registration)
        { loop.told result with served := loop.served ++ [.registration] }
  | served {arm : Arm} {status : LoopStatus} (hrunning : loop.status = .running)
      (hdoomed : ¬ loop.Doomed) (harm : arm ≠ .registration) (hstatus : status ≠ .panicked) :
      Effect loop (.take arm) { loop with status, served := loop.served ++ [arm] }

variable {loop loop' : WorkerLoop} {turn : Turn} {turns : List Turn}

theorem polledAgain_iff :
    (loop.enabled .registration ∧ loop.sessionRx.poll = .panicked) ↔ loop.Doomed := by
  simp [enabled, Doomed, and_comm]

theorem ready_registration_iff :
    loop.ready .registration ↔ ∃ result, loop.sessionRx = .sent result := by
  cases h : loop.sessionRx <;> simp [ready, h, Oneshot.poll]

theorem runArm_registration {result : Registration} (h : loop.sessionRx = .sent result) :
    loop.runArm .registration = loop.told result := by
  simp only [runArm, told, h]

theorem runArm_of_ne {arm : Arm} (h : arm ≠ .registration) :
    ∃ status, (loop.status ≠ .panicked → status ≠ .panicked) ∧
      loop.runArm arm = { loop with status } := by
  cases arm with
  | registration => exact absurd rfl h
  | shutdown => exact ⟨.stopped, by simp, rfl⟩
  | _ => exact ⟨loop.status, id, rfl⟩

theorem Step.effect (h : loop.Step turn loop') : loop.Effect turn loop' := by
  cases turn with
  | registered result =>
      obtain ⟨rx, hrx, rfl⟩ := Option.map_eq_some_iff.mp h
      obtain ⟨hpending, rfl⟩ := (Oneshot.send_eq_some_iff ..).mp hrx
      exact .registered hpending
  | take arm =>
      have h : loop.iterate arm = some loop' := h
      unfold iterate at h
      split at h
      · cases h
      · rename_i hstatus
        have hrunning : loop.status = .running := not_not.mp hstatus
        split at h
        · rename_i hpolled
          cases h
          exact .panicked hrunning (polledAgain_iff.mp hpolled)
        · rename_i hpolled
          have hdoomed : ¬ loop.Doomed := fun h => hpolled (polledAgain_iff.mpr h)
          split at h
          · rename_i htaken
            cases h
            by_cases harm : arm = .registration
            · rw [harm] at htaken ⊢
              obtain ⟨result, hsent⟩ := ready_registration_iff.mp htaken.2
              rw [runArm_registration hsent]
              exact .told hrunning hsent (Option.isNone_iff_eq_none.mp htaken.1)
            · obtain ⟨status, hstatus, heq⟩ := loop.runArm_of_ne harm
              rw [heq]
              exact .served hrunning hdoomed harm (hstatus (by simp [hrunning]))
          · cases h

@[simp] theorem sessionRx_told (result : Registration) :
    (loop.told result).sessionRx = .taken := by
  rcases result with _ | _ | _ <;> rfl

@[simp] theorem status_told (result : Registration) :
    (loop.told result).status = loop.status := by
  rcases result with _ | _ | _ <;> rfl

/-- Only a shortcut that was bound is held. -/
theorem hotkeySession_told {result : Registration} (h : loop.hotkeySession = none) :
    (loop.told result).hotkeySession = none ↔ result.bound = false := by
  rcases result with _ | _ | _ <;> simp [told, registrationArm, Registration.bound, h]

/-! ## Runs -/

/-- Every branch the loop went round for was run. -/
structure KeepsServing (loop : WorkerLoop) (turns : List Turn) : Prop where
  alive : loop.status ≠ .panicked
  served : loop.served = turns.filterMap Turn.arm

/-- The loop was told that the registration had failed, and went round again. -/
def WentOn (turns : List Turn) : Prop :=
  ∃ first before between after result arm,
    turns = first ++ .registered result :: before ++ .take .registration :: between ++
      .take arm :: after ∧ Registration.bound result = false

theorem WentOn.append (h : WentOn turns) (later : List Turn) : WentOn (turns ++ later) := by
  obtain ⟨first, before, between, after, result, arm, rfl, hfailed⟩ := h
  exact ⟨first, before, between, after ++ later, result, arm, by simp, hfailed⟩

/-- Where the registration is, after these turns. -/
inductive Stage (turns : List Turn) (loop : WorkerLoop) : Prop
  | waiting (hrx : loop.sessionRx = .pending) (hnone : loop.hotkeySession = none)
  | sent {first before : List Turn} {result : Registration}
      (hturns : turns = first ++ .registered result :: before)
      (hrx : loop.sessionRx = .sent result) (hnone : loop.hotkeySession = none)
  | told {first before between : List Turn} {result : Registration}
      (hturns : turns = first ++ .registered result :: before ++ .take .registration :: between)
      (hrx : loop.sessionRx = .taken)
      (hheld : loop.hotkeySession = none ↔ result.bound = false)

/-- A turn that leaves the registration where it is. -/
theorem Stage.snoc (h : Stage turns loop) (hrx : loop'.sessionRx = loop.sessionRx)
    (hsession : loop'.hotkeySession = loop.hotkeySession) : Stage (turns ++ [turn]) loop' := by
  cases h with
  | waiting h hnone => exact .waiting (hrx.trans h) (hsession.trans hnone)
  | @sent first before result hturns h hnone =>
      have hlater : turns ++ [turn] = first ++ .registered result :: (before ++ [turn]) := by
        simp [hturns]
      exact .sent hlater (hrx.trans h) (hsession.trans hnone)
  | @told first before between result hturns h hheld =>
      have hlater : turns ++ [turn] = first ++ .registered result :: before ++
          .take .registration :: (between ++ [turn]) := by
        simp [hturns]
      exact .told hlater (hrx.trans h) (by rw [hsession, hheld])

theorem Stage.step (h : Stage turns loop) (heffect : loop.Effect turn loop') :
    Stage (turns ++ [turn]) loop' := by
  cases heffect with
  | @registered result hpending =>
      have hnone : loop.hotkeySession = none := by
        cases h with
        | waiting hrx hnone => exact hnone
        | sent hturns hrx hnone => exact hnone
        | told hturns hrx hheld => simp [hrx] at hpending
      exact .sent rfl rfl hnone
  | panicked hrunning hdoomed => exact h.snoc rfl rfl
  | @told result hrunning hsent hnone =>
      cases h with
      | waiting hrx _ => simp [hrx] at hsent
      | @sent first before result' hturns hrx _ =>
          obtain rfl : result' = result := by simpa [hrx] using hsent
          exact .told (by rw [hturns]) (sessionRx_told _) (hotkeySession_told hnone)
      | told hturns hrx hheld => simp [hrx] at hsent
  | served hrunning hdoomed harm hstatus => exact h.snoc rfl rfl

/-- What is known of a loop after these turns. -/
structure After (turns : List Turn) (loop : WorkerLoop) : Prop where
  stage : Stage turns loop
  wentOn : loop.status = .panicked → WentOn turns
  served : loop.status ≠ .panicked → loop.served = turns.filterMap Turn.arm

theorem After.step (h : After turns loop) (heffect : loop.Effect turn loop') :
    After (turns ++ [turn]) loop' := by
  refine ⟨h.stage.step heffect, ?_, ?_⟩
  · intro hstatus
    cases heffect with
    | registered hpending => exact (h.wentOn hstatus).append _
    | @panicked arm hrunning hdoomed =>
        cases h.stage with
        | waiting hrx _ => simp [hdoomed.1] at hrx
        | sent hturns hrx _ => simp [hdoomed.1] at hrx
        | @told first before between result hturns hrx hheld =>
            exact ⟨first, before, between, [], result, arm, by rw [hturns], hheld.mp hdoomed.2⟩
    | told hrunning hsent hnone => simp [hrunning] at hstatus
    | served hrunning hdoomed harm halive => exact absurd hstatus halive
  · intro hstatus
    cases heffect with
    | registered hpending => simp [Turn.arm, ← h.served hstatus]
    | panicked hrunning hdoomed => exact absurd rfl hstatus
    | told hrunning hsent hnone => simp [Turn.arm, h.served (by simp [hrunning])]
    | served hrunning hdoomed harm halive => simp [Turn.arm, h.served (by simp [hrunning])]

theorem after_of_run {sigusr1 : Bool} (h : Run Step (start sigusr1) turns loop) :
    After turns loop := by
  refine h.history ?_ ⟨.waiting rfl rfl, by simp [start], fun _ => rfl⟩
  intro past u turn u' hafter hstep
  exact hafter.step hstep.effect

/-! ## After a failure -/

/-- A failed report is on its way, or has been taken. -/
def Failing (result : Registration) (loop : WorkerLoop) : Prop :=
  loop.hotkeySession = none ∧ (loop.sessionRx = .sent result ∨ loop.sessionRx = .taken)

theorem Failing.step {result : Registration} (h : Failing result loop)
    (hfailed : result.bound = false) (heffect : loop.Effect turn loop') :
    Failing result loop' ∧ (turn = .take .registration → loop'.Doomed) := by
  obtain ⟨hnone, hrx⟩ := h
  cases heffect with
  | registered hpending => simp [hpending] at hrx
  | panicked hrunning hdoomed => exact ⟨⟨hnone, hrx⟩, fun _ => hdoomed⟩
  | @told told hrunning hsent _ =>
      obtain rfl : told = result := by simpa [hsent] using hrx
      have hdoomed : (loop.told told).hotkeySession = none := (hotkeySession_told hnone).mpr hfailed
      exact ⟨⟨hdoomed, .inr (sessionRx_told _)⟩, fun _ => ⟨sessionRx_told _, hdoomed⟩⟩
  | served hrunning hdoomed harm hstatus =>
      exact ⟨⟨hnone, hrx⟩, fun h => absurd (Turn.take.inj h) harm⟩

/-- Once a delivered channel is due to be polled, it stays due, and the next iteration
panics. -/
theorem Doomed.step (h : loop.Doomed) (heffect : loop.Effect turn loop') :
    loop'.Doomed ∧ (turn.arm.isSome → loop'.status = .panicked) := by
  cases heffect with
  | registered hpending => simp [h.1] at hpending
  | panicked hrunning hdoomed => exact ⟨h, fun _ => rfl⟩
  | told hrunning hsent hnone => simp [h.1] at hsent
  | served hrunning hdoomed harm hstatus => exact absurd h hdoomed

theorem Effect.status_panicked (heffect : loop.Effect turn loop')
    (h : loop.status = .panicked) : loop'.status = .panicked := by
  cases heffect with
  | registered hpending => exact h
  | panicked hrunning hdoomed => rfl
  | told hrunning hsent hnone => simp [hrunning] at h
  | served hrunning hdoomed harm hstatus => simp [hrunning] at h

theorem Effect.sessionRx_ne_pending (heffect : loop.Effect turn loop')
    (h : loop.sessionRx ≠ .pending) : loop'.sessionRx ≠ .pending := by
  cases heffect with
  | registered hpending => exact absurd hpending h
  | panicked hrunning hdoomed => exact h
  | told hrunning hsent hnone => simp
  | served hrunning hdoomed harm hstatus => exact h

/-- A loop that goes round after it was told of the failure is dead. -/
theorem panicked_of_wentOn {sigusr1 : Bool} (hrun : Run Step (start sigusr1) turns loop)
    (h : WentOn turns) : loop.status = .panicked := by
  obtain ⟨first, before, between, after, result, arm, rfl, hfailed⟩ := h
  obtain ⟨l₃, h₃, hafter⟩ := Run.append_iff.mp hrun
  obtain ⟨l₂, h₂, hbetween⟩ := Run.append_iff.mp h₃
  obtain ⟨l₁, h₁, hbefore⟩ := Run.append_iff.mp h₂
  have hfailing : Failing result l₂ := by
    cases hbefore with
    | cons hreport hrest =>
        refine hrest.invariant (fun t a t' _ ht hstep => (ht.step hfailed hstep.effect).1) ?_
        cases hreport.effect with
        | registered hpending =>
            cases (after_of_run h₁).stage with
            | waiting _ hnone => exact ⟨hnone, .inl rfl⟩
            | sent _ hrx _ => simp [hpending] at hrx
            | told _ hrx _ => simp [hpending] at hrx
  have hdoomed : l₃.Doomed := by
    cases hbetween with
    | cons htold hrest =>
        refine hrest.invariant (fun t a t' _ ht hstep => (ht.step hstep.effect).1) ?_
        exact (hfailing.step hfailed htold.effect).2 rfl
  cases hafter with
  | cons hagain hrest =>
      refine hrest.invariant (fun t a t' _ ht hstep => hstep.effect.status_panicked ht) ?_
      exact (hdoomed.step hagain.effect).2 rfl

/-- There is one report. -/
theorem registered_unique {result result' : Registration} {later : List Turn}
    (hrun : Run Step loop (.registered result :: later) loop')
    (h : .registered result' ∈ later) : False := by
  obtain ⟨before, after, rfl⟩ := List.append_of_mem h
  cases hrun with
  | cons hreport hrest =>
      obtain ⟨mid, hbefore, hafter⟩ := Run.append_iff.mp hrest
      have hdone : mid.sessionRx ≠ .pending := by
        refine hbefore.invariant (fun t a t' _ ht hstep => hstep.effect.sessionRx_ne_pending ht) ?_
        cases hreport.effect with
        | registered hpending => simp
      cases hafter with
      | cons hagain _ =>
          cases hagain.effect with
          | registered hpending => exact hdone hpending

/-- Without a failed report there is no going on after one. -/
theorem not_wentOn_of_bound
    (h : ∀ result, .registered result ∈ turns → Registration.bound result) :
    ¬ WentOn turns := by
  rintro ⟨first, before, between, after, result, arm, rfl, hfailed⟩
  have hbound := h result (by simp)
  simp [hfailed] at hbound

/-- A report that no shortcut is bound, and a tick after it. -/
theorem exists_run_wentOn (sigusr1 : Bool) {result : Registration} (h : result.bound = false) :
    ∃ loop, Run Step (start sigusr1)
      [.registered result, .take .registration, .take .tick] loop := by
  rcases result with _ | e | session
  · exact ⟨_, .cons rfl (.cons rfl (.cons rfl (.nil _)))⟩
  · exact ⟨_, .cons rfl (.cons rfl (.cons rfl (.nil _)))⟩
  · cases h

/-- **When the loop keeps serving**: it may be told that the registration failed, but it
must not go round again. -/
theorem keepsServing_iff {sigusr1 : Bool} (hrun : Run Step (start sigusr1) turns loop) :
    loop.KeepsServing turns ↔ ¬ WentOn turns := by
  have hafter := after_of_run hrun
  constructor
  · intro hserves hwentOn
    exact hserves.alive (panicked_of_wentOn hrun hwentOn)
  · intro hwentOn
    have halive : loop.status ≠ .panicked := fun h => hwentOn (hafter.wentOn h)
    exact ⟨halive, hafter.served halive⟩

/-- A portal that works, and a user who answers its dialog with this response. -/
def answering (response : ℕ) : Portal where
  connect := .ok (some ":1.42")
  shortcuts := .ok ()
  objectPath _ := .ok ()
  request _ := .ok ()
  receiveResponse _ := .ok ()
  receiveActivated := .ok ()
  createSession _ := .ok ()
  bindShortcuts _ _ := .ok ()
  reply path :=
    if path = "/org/freedesktop/portal/desktop/request/1_42/sypherstore_bind" then
      some (.ok { response, results := [] })
    else
      some (.ok { response := 0,
                  results := [("session_handle", .objectPath "/portal/session/1_42/sypherstore")] })

/-- The registration ends, the loop is told of it, and half a second later the timer
ticks. -/
def answeredTurns (response : ℕ) : List Turn :=
  [.registered (some (register (answering response) "Meta+Shift+V")), .take .registration,
    .take .tick]

theorem accepted_shortcut_is_served :
    ∃ loop, Run Step (start true) (answeredTurns 0) loop ∧ loop.KeepsServing (answeredTurns 0) := by
  have hregister : register (answering 0) "Meta+Shift+V" =
      .ok { session := "/portal/session/1_42/sypherstore" } := by rfl
  obtain ⟨loop, hrun⟩ : ∃ loop, Run Step (start true) (answeredTurns 0) loop := by
    rw [answeredTurns, hregister]
    exact ⟨_, .cons rfl (.cons rfl (.cons rfl (.nil _)))⟩
  refine ⟨loop, hrun, (keepsServing_iff hrun).mpr (not_wentOn_of_bound ?_)⟩
  intro result hmem
  obtain rfl : result = some (register (answering 0) "Meta+Shift+V") := by
    simpa [answeredTurns] using hmem
  rw [hregister]
  rfl

/-- The user cancels the dialog. -/
theorem cancelled_shortcut_kills_the_loop :
    ∃ loop, Run Step (start true) (answeredTurns 1) loop ∧
      loop.errors = [.shortcutRefused 1] ∧ loop.status = .panicked ∧
      loop.served = [.registration] := by
  have hregister : register (answering 1) "Meta+Shift+V" = .error (.shortcutRefused 1) := by rfl
  rw [answeredTurns, hregister]
  exact ⟨_, .cons rfl (.cons rfl (.cons rfl (.nil _))), rfl, rfl, rfl⟩

/-- The only outcome that no later event can make fatal is the shortcut being bound. -/
theorem keepsServing_always_iff (sigusr1 : Bool) (result : Registration) :
    (∀ turns loop, Run Step (start sigusr1) (.registered result :: turns) loop →
      loop.status ≠ .panicked) ↔ result.bound := by
  constructor
  · intro halways
    by_contra hbound
    have hfailed : result.bound = false := by simpa using hbound
    obtain ⟨loop, hrun⟩ := exists_run_wentOn sigusr1 hfailed
    refine halways _ _ hrun (panicked_of_wentOn hrun ?_)
    exact ⟨[], [], [], [], result, .tick, rfl, hfailed⟩
  · intro hbound turns loop hrun hpanicked
    refine not_wentOn_of_bound ?_ ((after_of_run hrun).wentOn hpanicked)
    intro result' hmem
    rcases List.mem_cons.mp hmem with heq | hlater
    · rw [Turn.registered.inj heq, hbound]
    · exact (registered_unique hrun hlater).elim

/-- Where the portal declines, the daemon is one event away from its end. -/
theorem not_always_of_declined {portal : Portal} (sigusr1 : Bool) (trigger : String)
    (hdeclined : ∀ path reply, portal.reply path = some (.ok reply) → reply.response ≠ 0) :
    ∃ turns loop, Run Step (start sigusr1)
      (.registered (some (register portal trigger)) :: turns) loop ∧ loop.status = .panicked := by
  by_contra hnever
  have halways := (keepsServing_always_iff sigusr1 (some (register portal trigger))).mp
    fun turns loop hrun hpanicked => hnever ⟨turns, loop, hrun, hpanicked⟩
  cases hregister : register portal trigger with
  | error e => simp [hregister, Registration.bound] at halways
  | ok session =>
      obtain ⟨sender, haccepted⟩ := register_accepted hregister
      obtain ⟨path, reply, _, hreply, hzero⟩ := haccepted .bindShortcuts
      exact hdeclined path reply hreply hzero

end WorkerLoop

end Sypherstore
