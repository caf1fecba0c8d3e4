/-
# What an unlocked session holds

Two invariants of every session there can be. The two fields of the lock state stay in
step: there is a deadline exactly when there is an inner key, and it was set by the
latest call that may set one. And the inner key is the one that was generated for the
vault, whatever the providers answered: each record carries that key, and a record that
is opened with the wrong answer does not open at all.
-/

import Sypherstore.Core.SessionMap

namespace Sypherstore

open Logic

variable {P : Primitives}

/-! ## The lock state -/

/-- The call set a deadline, if there was a key to set one for. -/
def Event.setsDeadline (e : Event) : Bool := e.movesDeadline || e.unlocks

/-- The latest time at which a deadline may have been set. -/
def Action.latest (since : Option Instant) : Action → Option Instant
  | .call e => if e.setsDeadline then some e.call.ended else since
  | .reopen _ _ _ => since

namespace Session

/-- There is a deadline exactly when there is an inner key, and it is not later than the
time it was set plus the timeout. -/
structure InStep (since : Option Instant) (s : Session) : Prop where
  paired : s.innerKek.isSome = s.deadline.isSome
  bounded : ∀ deadline, s.deadline = some deadline →
    ∃ time, since = some time ∧ deadline ≤ time + s.timeout

variable {since : Option Instant} {s s' : Session} {call : Call}

theorem InStep.with_vault (h : s.InStep since) (v : Vault) :
    ({ s with vault := v } : Session).InStep since :=
  ⟨h.paired, h.bounded⟩

theorem InStep.of_locked (hinner : s.innerKek = none) (hdeadline : s.deadline = none) :
    s.InStep since where
  paired := by simp [hinner, hdeadline]
  bounded := by simp [hdeadline]

theorem InStep.of_unlocked {innerKek : Key} {now : Instant} (hinner : s.innerKek = some innerKek)
    (hdeadline : s.deadline = some (now + s.timeout)) : s.InStep (some now) where
  paired := by simp [hinner, hdeadline]
  bounded := by
    intro deadline h
    rw [hdeadline] at h
    cases h
    exact ⟨now, rfl, Nat.le_refl _⟩

theorem InStep.touch (h : s.InStep since) (now : Instant) : (s.touch now).InStep (some now) := by
  cases hinner : s.innerKek with
  | some innerKek =>
      rw [touch_of_inner hinner]
      exact .of_unlocked hinner rfl
  | none =>
      have hdeadline : s.deadline = none := by
        have hpaired := h.paired
        rw [hinner] at hpaired
        exact Option.isSome_eq_false_iff.mp hpaired.symm |> Option.isNone_iff_eq_none.mp
      have hsame : s.touch now = s := by simp [Session.touch, hinner]
      rw [hsame]
      exact .of_locked hinner hdeadline

theorem InStep.tick (h : s.InStep since) (now : Instant) : (s.tick now).2.InStep since := by
  cases hinner : s.innerKek with
  | none => simpa [Session.tick, hinner] using h
  | some innerKek =>
      cases hdeadline : s.deadline with
      | none =>
          have hlocked : (s.tick now).2 = s.lock := by simp [Session.tick, hinner, hdeadline]
          rw [hlocked]
          exact .of_locked rfl rfl
      | some deadline =>
          by_cases hnow : deadline ≤ now
          · have hlocked : (s.tick now).2 = s.lock := by
              simp [Session.tick, hinner, hdeadline, hnow]
            rw [hlocked]
            exact .of_locked rfl rfl
          · have hsame : (s.tick now).2 = s := by simp [Session.tick, hinner, hdeadline, hnow]
            rwa [hsame]

/-- Every call keeps the two fields in step, the failing ones too. -/
theorem Effect.inStep {op : Op} {ok : Bool} (h : Effect P call s op ok s')
    (hs : s.InStep since) :
    s'.InStep (if (op.touches && ok) || (op.isUnlock && ok) then some call.ended else since) := by
  cases h with
  | refused op => simpa using hs
  | expired op hlive => simpa using hs.tick call.started
  | locked => exact .of_locked rfl rfl
  | ticked => exact hs.tick call.started
  | touched => exact hs.touch call.ended
  | observed => exact hs
  | listed hlive => exact hs
  | described id hlive => exact hs
  | opened id hlive => exact hs.touch call.ended
  | added m p inner row hlive hinner hfresh hrow =>
      exact (hs.with_vault _).touch call.ended
  | updated m p inner row hlive hinner hmem hrow =>
      exact (hs.with_vault _).touch call.ended
  | deleted id hmem => exact hs.with_vault _
  | enrolled inner label enrollments hlive henroll =>
      exact (hs.with_vault _).touch call.ended
  | unlocked inner innerKek hassert => exact .of_unlocked rfl rfl

/-- `state` and `tick`, at one instant, agree on whether the session is locked. -/
theorem isUnlocked_state_eq (now later : Instant) (s : Session) :
    (s.state now later).isUnlocked = (s.tick now).1.isUnlocked := by
  cases hinner : s.innerKek with
  | none => simp [state, Session.tick, hinner]
  | some innerKek =>
      cases hdeadline : s.deadline with
      | none => simp [state, Session.tick, hinner, hdeadline]
      | some deadline =>
          by_cases hnow : deadline ≤ now
          · simp [state, Session.tick, hinner, hdeadline, hnow]
          · simp [state, Session.tick, hinner, hdeadline, hnow, LockState.isUnlocked]

end Session

/-! ## The inner key -/

/-- The records of the vault all carry this inner key, and an open session has no
other. -/
structure Guards (P : Primitives) (innerKek : Key) (process : Process) : Prop where
  ring : ∃ ring : KeyRing, ring.StoredIn P process.vault ∧ KeyRing.Wraps P innerKek ring
  inner : ∀ s, process = .running s → ∀ key, s.innerKek = some key → key = innerKek

namespace Guards

variable {innerKek : Key} {call : Call}

theorem of_newKeys {created : Call} {keys : NewKeys} {inner : InnerKeyProvider}
    {outerKek : Key} (hprepare : Session.prepareKeys P created inner outerKek = .ok keys)
    (v : Vault) (timeout : ℕ) :
    Guards P keys.innerKek (.running (keys.session P created outerKek v timeout)) where
  ring := ⟨.ofNewKeys keys, .of_newKeys keys v, .of_prepareKeys hprepare⟩
  inner := by
    rintro s ⟨⟩ key hkey
    exact (Option.some.inj hkey).symm

/-- The tables of the keys are the same and no other key has come in. -/
theorem same_keys {s s' : Session} (h : Guards P innerKek (.running s))
    (hmeta : s'.vault.metaTable = s.vault.metaTable)
    (hinner : s'.innerKek = none ∨ s'.innerKek = s.innerKek) :
    Guards P innerKek (.running s') where
  ring := by
    obtain ⟨ring, hstored, hwraps⟩ := h.ring
    exact ⟨ring, hstored.congr hmeta, hwraps⟩
  inner := by
    rintro s ⟨⟩ key hkey
    rcases hinner with hnone | hsame
    · rw [hnone] at hkey
      cases hkey
    · rw [hsame] at hkey
      exact h.inner _ rfl key hkey

/-- What any provider gets the session to accept is the inner key. -/
theorem eq_of_assertInnerKey (hP : P.Lawful) (hbinds : P.aead.BindsKey) {s : Session}
    (h : Guards P innerKek (.running s)) {inner : InnerKeyProvider} {found : Key}
    (hassert : Session.assertInnerKey P call inner s = .ok found) : found = innerKek := by
  obtain ⟨ring, hstored, hwraps⟩ := h.ring
  obtain ⟨_, hadmits⟩ := (KeyRing.assertInnerKey_eq_ok_iff hP hstored inner found).mp hassert
  exact (KeyRing.Wraps.protects hP hbinds innerKek).admits ring inner _ found hwraps trivial
    hadmits

theorem enrolled (hP : P.Lawful) (hbinds : P.aead.BindsKey) {s : Session}
    (h : Guards P innerKek (.running s)) {inner : InnerKeyProvider} {label : String}
    {enrollments : List Enrollment}
    (henroll : Session.enroll P call inner label s = .ok enrollments) :
    Guards P innerKek (.running (s.enrolled P call enrollments)) where
  ring := by
    obtain ⟨ring, hstored, hwraps⟩ := h.ring
    obtain ⟨key, record, hkey, haccepts, rfl⟩ := KeyRing.enroll_eq_ok hP hstored henroll
    obtain rfl := h.inner s rfl key hkey
    exact ⟨ring.enroll record, hstored.enrolled _,
      (KeyRing.Wraps.protects hP hbinds key).accepts ring inner record hwraps trivial haccepts⟩
  inner := by
    rintro _ ⟨⟩ key hkey
    rw [Session.enrolled, Session.innerKek_touch] at hkey
    exact h.inner s rfl key hkey

theorem effect (hP : P.Lawful) (hbinds : P.aead.BindsKey) {s s' : Session} {op : Op} {ok : Bool}
    (h : Session.Effect P call s op ok s') (hs : Guards P innerKek (.running s)) :
    Guards P innerKek (.running s') := by
  cases h with
  | refused op => exact hs
  | expired op hlive =>
      have htick := Session.tick_of_not_live hlive
      exact hs.same_keys (by rw [htick.2.2.1]) (.inl htick.2.1)
  | locked => exact hs.same_keys rfl (.inl rfl)
  | ticked =>
      by_cases hlive : s.Live call.started
      · rw [(Session.tick_of_live hlive).2]
        exact hs
      · have htick := Session.tick_of_not_live hlive
        exact hs.same_keys (by rw [htick.2.2.1]) (.inl htick.2.1)
  | touched => exact hs.same_keys (by simp) (.inr (by simp))
  | observed => exact hs
  | listed hlive => exact hs
  | described id hlive => exact hs
  | opened id hlive => exact hs.same_keys (by simp) (.inr (by simp))
  | added m p inner row hlive hinner hfresh hrow =>
      exact hs.same_keys (by simp [Session.written]) (.inr (by simp [Session.written]))
  | updated m p inner row hlive hinner hmem hrow =>
      exact hs.same_keys (by simp [Session.written]) (.inr (by simp [Session.written]))
  | deleted id hmem => exact hs.same_keys rfl (.inr rfl)
  | enrolled inner label enrollments hlive henroll => exact hs.enrolled hP hbinds henroll
  | unlocked inner found hassert =>
      obtain rfl := hs.eq_of_assertInnerKey hP hbinds hassert
      exact
        { ring := hs.ring
          inner := by
            rintro _ ⟨⟩ key hkey
            exact (Option.some.inj hkey).symm }

end Guards

/-! ## Runs -/

/-- How a process comes to a vault: by creating it, at this time and with this inner key,
or by finding one that is there. -/
inductive Process.Begun (P : Primitives) : Process → Option Instant → Option Key → Prop
  | created {σ : Type} {outer : OuterKeyProvider σ} {inner : InnerKeyProvider} {call : Call}
      {timeout : ℕ} {v v' : Vault} {t t' : σ} {s : Session} {key : Key}
      (hcreate : Session.initializeVault P call outer inner timeout (v, t) = (.ok s, (v', t')))
      (hkey : call.key = .ok key) : Begun P (.running s) (some call.ended) (some key)
  | found (v : Vault) : Begun P (.closed v) none none

/-- Every session of the process is in step. -/
def Process.InStep (process : Process) (since : Option Instant) : Prop :=
  ∀ s, process = .running s → s.InStep since

theorem Process.Begun.inStep {process : Process} {since : Option Instant} {key : Option Key}
    (h : Process.Begun P process since key) : process.InStep since := by
  cases h with
  | created hcreate hkey =>
      obtain ⟨_, _, _, _, _, _, _, rfl⟩ := (Session.initializeVault_eq_ok_iff ..).mp hcreate
      rintro s ⟨⟩
      exact .of_unlocked rfl rfl
  | found v =>
      rintro s ⟨⟩

theorem Process.Begun.guards {process : Process} {since : Option Instant} {key : Key}
    (h : Process.Begun P process since (some key)) : Guards P key process := by
  cases h with
  | created hcreate hkey =>
      obtain ⟨_, _, _, keys, _, hprepare, _, rfl⟩ :=
        (Session.initializeVault_eq_ok_iff ..).mp hcreate
      have hdrawn := ((Session.prepareKeys_eq_ok_iff ..).mp hprepare).1
      obtain rfl := Except.ok.inj (hdrawn.symm.trans hkey)
      exact .of_newKeys hprepare _ _

theorem Process.Step.inStep {process process' : Process} {a : Action} {since : Option Instant}
    (h : Process.Step P process a process') (hs : process.InStep since) :
    process'.InStep (a.latest since) := by
  cases h with
  | call hcall =>
      rintro s ⟨⟩
      exact hcall.effect.inStep (hs _ rfl)
  | reopened hopen =>
      obtain ⟨_, _, _, _, rfl⟩ := (Session.openLocked_eq_ok_iff ..).mp hopen
      rintro s ⟨⟩
      exact .of_locked rfl rfl
  | notReopened hopen =>
      rintro s ⟨⟩

theorem Process.Step.guards (hP : P.Lawful) (hbinds : P.aead.BindsKey) {key : Key}
    {process process' : Process} {a : Action} (h : Process.Step P process a process')
    (hs : Guards P key process) : Guards P key process' := by
  cases h with
  | call hcall => exact .effect hP hbinds hcall.effect hs
  | reopened hopen =>
      obtain ⟨_, _, _, _, rfl⟩ := (Session.openLocked_eq_ok_iff ..).mp hopen
      exact ⟨hs.ring, by rintro s ⟨⟩ key ⟨⟩⟩
  | notReopened hopen => exact ⟨hs.ring, by rintro s ⟨⟩⟩

/-- **Unlocking is sound, and the lock state stays in step.** In every session that a
process can come to have, an inner key is there exactly when a deadline is, the deadline
is at most the timeout after the latest call that may have set it, and `state` and `tick`
agree; and if the vault was created in the run, no provider whatsoever gets the session to
unlock with another key than the one that was generated then. -/
theorem unlock_is_sound (hP : P.Lawful) (hbinds : P.aead.BindsKey) {process : Process}
    {since : Option Instant} {generated : Option Key} {actions : List Action} {s : Session}
    (hbegun : Process.Begun P process since generated)
    (hrun : Run (Process.Step P) process actions (.running s)) :
    (s.innerKek.isSome ↔ s.deadline.isSome) ∧
    (∀ deadline, s.deadline = some deadline →
      ∃ time, actions.foldl Action.latest since = some time ∧ deadline ≤ time + s.timeout) ∧
    (∀ now later, (s.state now later).isUnlocked = (s.tick now).1.isUnlocked) ∧
    ∀ key, generated = some key → ∀ (call : Call) (provider : InnerKeyProvider) (s' : Session),
      Session.unlock P call provider s = (.ok (), s') → s'.innerKek = some key := by
  have hstep : (Process.running s).InStep (actions.foldl Action.latest since) :=
    hrun.simulation (R := fun process since => process.InStep since)
      (fun _ _ _ _ _ hs hstep => hstep.inStep hs) hbegun.inStep
  have hinStep := hstep s rfl
  refine ⟨by rw [hinStep.paired], hinStep.bounded,
    fun now later => Session.isUnlocked_state_eq now later s, ?_⟩
  rintro key rfl call provider s' hunlock
  have hguards : Guards P key (.running s) :=
    hrun.invariant (fun _ _ _ _ hs hstep => hstep.guards hP hbinds hs) hbegun.guards
  rcases Session.unlock_cases P call provider s with ⟨e, hfailed⟩ | ⟨found, hassert, hdone⟩
  · rw [hfailed] at hunlock
    cases hunlock
  · rw [hdone] at hunlock
    cases hunlock
    exact congrArg some (hguards.eq_of_assertInnerKey hP hbinds hassert)

private def lockAtOne : Event where
  call := .atOnce 1
  op := .lock
  result := .ok .done

private theorem run_lockAtOne (s : Session) : Run (Process.Step Primitives.reference) (.running s)
    [.call lockAtOne] (.running s.lock) :=
  .single (.call rfl)

/-- The token a vault was created with makes its keys admit the inner key. -/
theorem admits_of_token {keys : NewKeys} {outerKek : Key} {id secret : Bytes}
    (hprepare : Session.prepareKeys Primitives.reference
      (.working 0 0 (Nat.le_refl 0) (Block.replicate 16 0)) (.token id secret) outerKek = .ok keys)
    (hid : keys.primary.credentialId = id) :
    (KeyRing.ofNewKeys keys).Admits Primitives.reference (.token id secret) keys.innerKek
      outerKek := by
  obtain ⟨secret', hsecret, hwrapped, _⟩ := KeyRing.wrapped_of_prepareKeys hprepare
  obtain ⟨_, _, _, _, _, hverify⟩ := (Session.prepareKeys_eq_ok_iff ..).mp hprepare
  have hanswer : (InnerKeyProvider.token id secret).assertFirstAvailable
      (KeyRing.ofNewKeys keys).credentialIds (KeyRing.ofNewKeys keys).hmacSalt =
        .ok (id, secret') := by
    rw [hid] at hsecret
    simp only [InnerKeyProvider.token, InnerKeyProvider.withDefaults] at hsecret ⊢
    simp only [KeyRing.credentialIds, KeyRing.ofNewKeys, List.map_cons, hid,
      InnerKeyProvider.tryInOrder, hsecret]
  exact ⟨id, secret', keys.primary, hanswer, by simp [KeyRing.ofNewKeys, hid], hwrapped,
    Sealed.of_sealBytes hverify⟩

/-- A vault is created, locked, and unlocked with its token. -/
theorem locked_vault_unlocks_with_its_key :
    ∃ (s₀ s s' : Session) (call : Call) (key : Key),
      Run (Process.Step Primitives.reference) (.running s₀) [.call lockAtOne] (.running s) ∧
      Session.unlock Primitives.reference call (.token [1] [2]) s = (.ok (), s') ∧
      s₀.innerKek = some key ∧ s.innerKek = none ∧ s'.innerKek = some key := by
  obtain ⟨keys, hid, hprepare, hcreate⟩ := Session.exists_initializeVault_working 0 0
    (Nat.le_refl 0) (Block.replicate 16 0) (Block.replicate keyLen 1) [1] [2] 10
  have hkey := ((Session.prepareKeys_eq_ok_iff ..).mp hprepare).1
  have hbegun := Process.Begun.created hcreate hkey
  have hrun := run_lockAtOne (keys.session Primitives.reference
    (.working 0 0 (Nat.le_refl 0) (Block.replicate 16 0)) (Block.replicate keyLen 1) .empty 10)
  have hunlock := KeyRing.unlock_of_admits
      (.working 2 2 (Nat.le_refl 2) (Block.replicate 16 0)) Primitives.reference_lawful
    (Session.lock (keys.session Primitives.reference
      (.working 0 0 (Nat.le_refl 0) (Block.replicate 16 0)) (Block.replicate keyLen 1) .empty 10))
    (.of_newKeys keys .empty) (fun _ _ => rfl) (admits_of_token hprepare hid)
  exact ⟨_, _, _, _, keys.innerKek, hrun, hunlock, rfl, rfl,
    (unlock_is_sound Primitives.reference_lawful Primitives.reference_bindsKey hbegun hrun).2.2.2
      _ rfl _ _ _ hunlock⟩

end Sypherstore
