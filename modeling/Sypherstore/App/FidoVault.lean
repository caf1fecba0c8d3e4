/-
# Any enrolled key that is plugged in

The vault asks for the authenticators it knows of and takes what comes back for an answer. The
provider takes whatever is plugged in, in the order it is listed. Put together, and with devices
that keep to what they are documented to do, the keys that a run has enrolled are those that open
the vault, each of them alone or beside any others.
-/

import Sypherstore.Core.Enrollment
import Sypherstore.App.Fido

namespace Sypherstore

open Logic

variable {ι D : Type}

/-! ## True answers -/

namespace Authenticators

variable {w : Authenticators ι} {P : Primitives} {innerKek outerKek : Key} {ring : KeyRing}
  {inner : InnerKeyProvider}

/-- What the provider answers for a credential is what its issuer answers, and the credential is
one that was offered. -/
structure Truthful (w : Authenticators ι) (inner : InnerKeyProvider) : Prop where
  assertSecret : ∀ id salt secret, inner.assertSecret id salt = .ok secret →
    secret = w.secret id salt
  assertFirstAvailable : ∀ ids salt id secret,
    inner.assertFirstAvailable ids salt = .ok (id, secret) → id ∈ ids ∧ secret = w.secret id salt

/-- The records fit the authenticators, and their salt is one that an authenticator takes. -/
def Fits (w : Authenticators ι) (P : Primitives) (innerKek outerKek : Key) (ring : KeyRing) :
    Prop :=
  w.Vouch P innerKek outerKek ring ∧ ring.hmacSalt.length = FidoInnerProvider.hmacLen

theorem Fits.of_prepareKeys {call : Call} {keys : NewKeys} (htruthful : w.Truthful inner)
    (hprepare : Session.prepareKeys P call inner outerKek = .ok keys) :
    w.Fits P keys.innerKek outerKek (KeyRing.ofNewKeys keys) := by
  refine ⟨⟨List.nodup_singleton _, ?_, ?_⟩, keys.hmacSalt.length_eq⟩
  · intro record hrecord
    obtain rfl := List.mem_singleton.mp hrecord
    obtain ⟨secret, hsecret, hwrapped, _⟩ := KeyRing.wrapped_of_prepareKeys hprepare
    obtain rfl := htruthful.assertSecret _ _ _ hsecret
    exact hwrapped
  · obtain ⟨_, _, _, _, _, hverify⟩ := (Session.prepareKeys_eq_ok_iff ..).mp hprepare
    exact Sealed.of_sealBytes hverify

/-- **Enrollment invariant.** True answers are enough to keep the records fitting, whoever
gives them. -/
theorem Fits.protects (hP : P.Lawful) (w : Authenticators ι) (innerKek outerKek : Key) :
    KeyRing.Protects P innerKek w.Truthful (w.Fits P innerKek outerKek) where
  admits := by
    rintro ring inner _ found ⟨hvouch, _⟩ htruthful
      ⟨matchedId, assertion, record, hassert, hfind, hfound, _⟩
    obtain ⟨_, rfl⟩ := htruthful.assertFirstAvailable _ _ _ _ hassert
    obtain ⟨hrecord, rfl⟩ := mem_of_find_key hfind
    exact wrapped_unique hP (hvouch.wrapped record hrecord) hfound
  accepts := by
    rintro ring inner record ⟨hvouch, hsalt⟩ htruthful ⟨_, hfresh, secret, hsecret, hrecord⟩
    obtain rfl := htruthful.assertSecret _ _ _ hsecret
    refine ⟨⟨?_, ?_, hvouch.verified⟩, hsalt⟩
    · rw [KeyRing.credentialIds_enroll]
      exact hvouch.nodup.append (List.nodup_singleton _) (List.disjoint_singleton.mpr hfresh)
    · intro record' hrecord'
      rcases List.mem_append.mp hrecord' with hold | hnew
      · exact hvouch.wrapped record' hold
      · obtain rfl := List.mem_singleton.mp hnew
        exact hrecord

/-- A true answer for a stored credential is all it takes. -/
theorem Fits.admits (h : w.Fits P innerKek outerKek ring) (htruthful : w.Truthful inner)
    {id secret : Bytes}
    (hassert : inner.assertFirstAvailable ring.credentialIds ring.hmacSalt = .ok (id, secret)) :
    ring.Admits P inner innerKek outerKek := by
  obtain ⟨hmem, rfl⟩ := htruthful.assertFirstAvailable _ _ _ _ hassert
  obtain ⟨held, hheld, hid⟩ := List.mem_map.mp hmem
  obtain ⟨record, hfind, hrecord, rfl⟩ : ∃ record,
      (ring.enrollments.find? fun record => record.credentialId = id) = some record ∧
        record ∈ ring.enrollments ∧ record.credentialId = id := exists_find_key hheld hid
  exact ⟨_, _, record, hassert, hfind, h.1.wrapped record hrecord, h.1.verified⟩

end Authenticators

/-! ## Devices that keep their word -/

/-- Documented behaviour of the devices of a call: the silent assertion finds out what a device
holds, and an assertion is for an offered credential that the device holds, names no other, and
carries the secret of that credential. -/
structure FidoCall.Honest (call : FidoCall D) (w : Authenticators ι) (t : Tokens D) : Prop where
  probes : call.Probes
  asserts : ∀ d ids salt pin answers assertion,
    call.getAssertion d ids salt pin = .ok answers → answers.head? = some assertion →
    ∃ id ∈ ids, t.holds d id ∧
      (assertion.credentialId = id ∨ assertion.credentialId = []) ∧
      ∀ output, AssertionExtension.hmacSecret (some output) ∈ assertion.extensions →
        output = w.secret id salt

/-- The user gives the PIN of the key that is opened and touches it, and the key answers for
what it holds. -/
def FidoCall.Cooperates (call : FidoCall D) (t : Tokens D) (ids : List Bytes)
    (salt : Bytes) : Prop :=
  ∃ pin, call.pinPrompt = some (.ok pin) ∧
    ∀ d, FidoInnerProvider.openEnrolled call t ids = .ok d → (∃ id ∈ ids, t.holds d id) →
      ∃ assertion rest output, call.getAssertion d ids salt pin = .ok (assertion :: rest) ∧
        (assertion.credentialId ≠ [] ∨ ids.length = 1) ∧
        FidoInnerProvider.hmacOutput assertion.extensions = .ok output

namespace FidoInnerProvider

variable {w : Authenticators ι} {call registering asserting : FidoCall D} {t t' : Tokens D}
  {ids : List Bytes} {salt : Bytes} {d : D}

theorem mem_of_hmacOutput {extensions : List AssertionExtension} {output : Bytes}
    (h : hmacOutput extensions = .ok output) :
    .hmacSecret (some output) ∈ extensions := by
  induction extensions with
  | nil => cases h
  | cons first rest ih =>
      match first with
      | .hmacSecret (some found) =>
          rw [hmacOutput] at h
          split at h
          · cases h
            exact List.mem_cons_self
          · cases h
      | .hmacSecret none => exact List.mem_cons_of_mem _ (ih h)
      | .other => exact List.mem_cons_of_mem _ (ih h)

theorem mem_readable_of_openEnrolled (h : openEnrolled call t ids = .ok d) : d ∈ call.readable := by
  obtain ⟨ds, hds, hopen⟩ := (Fallible.bind_eq_ok_iff _ _ _).mp h
  obtain ⟨_, rfl⟩ := (openAll_eq_ok_iff call ds).mp hds
  split at hopen
  · rename_i only honly
    cases hopen
    simp [honly]
  · exact List.mem_of_find?_eq_some ((Fallible.ofOption_eq_ok_iff ..).mp hopen)

/-- The credential that is taken for the one that answered is that one. -/
theorem matched_eq {assertion : Assertion} {id id' : Bytes} (h : matched assertion ids = .ok id)
    (hmem : id' ∈ ids) (hnamed : assertion.credentialId = id' ∨ assertion.credentialId = []) :
    id = id' := by
  unfold matched at h
  split at h
  · rename_i hnonempty
    cases h
    exact hnamed.resolve_right fun hempty => by simp [hempty] at hnonempty
  · split at h
    · cases h
      exact (List.mem_singleton.mp hmem).symm
    · cases h

/-- **What an assertion tells**: a readable device holds one of the credentials, and this is the
secret of it. -/
theorem readable_of_assertFirstAvailable {id secret : Bytes} (hhonest : call.Honest w t)
    (h : (assertFirstAvailable call ids salt t).1 = .ok (id, secret)) :
    (∃ d ∈ call.readable, t.holds d id) ∧ id ∈ ids ∧ secret = w.secret id salt := by
  obtain ⟨t', hrun⟩ : ∃ t', assertFirstAvailable call ids salt t = (.ok (id, secret), t') :=
    ⟨_, Prod.ext h rfl⟩
  simp only [assertFirstAvailable, Stateful.bind_eq_ok_iff, Stateful.lift_eq_ok_iff] at hrun
  obtain ⟨salt', _, ⟨hsalt, rfl⟩, hrun⟩ := hrun
  obtain rfl : salt' = salt := by
    unfold checkSalt at hsalt
    split at hsalt <;> cases hsalt
    rfl
  split at hrun
  · cases hrun
  simp only [Stateful.bind_eq_ok_iff, Stateful.lift_eq_ok_iff, Stateful.read_eq_ok_iff,
    Stateful.modify_eq_ok_iff] at hrun
  obtain ⟨_, _, ⟨rfl, rfl⟩, d, _, ⟨hopen, rfl⟩, pin, _, ⟨_, rfl⟩, _, _, _, hread, _⟩ := hrun
  simp only [readAssertions, Fallible.bind_eq_ok_iff, Fallible.mapError_eq_ok_iff,
    Fallible.ofExcept_eq_ok_iff, Fallible.ofOption_eq_ok_iff] at hread
  obtain ⟨answers, hanswers, assertion, hfirst, found, hmatched, output, houtput, hpair⟩ := hread
  cases hpair
  obtain ⟨id', hmem, hholds, hnamed, hsecret⟩ := hhonest.asserts _ _ _ _ _ _ hanswers hfirst
  obtain rfl := matched_eq hmatched hmem hnamed
  exact ⟨⟨d, mem_readable_of_openEnrolled hopen, hholds⟩, hmem,
    hsecret _ (mem_of_hmacOutput houtput)⟩

/-- **A key that is there is found**: beside whatever else is plugged in, a device that holds one
of the credentials gets an answer. -/
theorem exists_assertFirstAvailable (hhonest : call.Honest w t)
    (hcooperates : call.Cooperates t ids salt) (hsalt : salt.length = hmacLen)
    (hheld : ∃ d ∈ call.readable, ∃ id ∈ ids, t.holds d id) :
    ∃ answer, (assertFirstAvailable call ids salt t).1 = .ok answer := by
  obtain ⟨pin, hpin, hanswers⟩ := hcooperates
  obtain ⟨d, hopen, _, hholds⟩ := openEnrolled_of_exists hhonest.probes hheld
  obtain ⟨assertion, rest, output, hasserted, hnamed, houtput⟩ := hanswers d hopen hholds
  have hids : ids ≠ [] := by
    rintro rfl
    obtain ⟨_, hmem, _⟩ := hholds
    cases hmem
  obtain ⟨id, hmatched⟩ : ∃ id, matched assertion ids = .ok id := by
    unfold matched
    by_cases hempty : assertion.credentialId = []
    · obtain ⟨id, rfl⟩ := List.length_eq_one_iff.mp (hnamed.resolve_left (not_not_intro hempty))
      exact ⟨id, by simp [hempty]⟩
    · exact ⟨assertion.credentialId, by simp [hempty]⟩
  have hread : readAssertions ids (call.getAssertion d ids salt pin) = .ok (id, output) := by
    simp [readAssertions, hasserted, hmatched, houtput]
  refine ⟨(id, output), ?_⟩
  simp [assertFirstAvailable, Stateful.bind_apply, checkSalt, hsalt, hids, hopen, requestPin, hpin,
    hread]

/-- **Devices that keep their word give true answers**, whatever is plugged in. -/
theorem truthful_answers [DecidableEq D] (registering : FidoCall D) (t : Tokens D)
    (hhonest : asserting.Honest w t') : w.Truthful (answers registering asserting t t') where
  assertSecret := by
    intro id salt secret h
    have hmatched : ∃ id', (assertFirstAvailable asserting [id] salt t').1 = .ok (id', secret) := by
      have hassert : (assertSecret asserting id salt t').1 = .ok secret := h
      simp only [assertSecret, Stateful.bind_apply] at hassert
      rcases hfirst : assertFirstAvailable asserting [id] salt t' with ⟨e | ⟨id', found⟩, t''⟩
      · rw [hfirst] at hassert
        cases hassert
      · rw [hfirst] at hassert
        cases hassert
        exact ⟨id', rfl⟩
    obtain ⟨id', hfirst⟩ := hmatched
    obtain ⟨_, hmem, hsecret⟩ := readable_of_assertFirstAvailable hhonest hfirst
    rw [hsecret, List.mem_singleton.mp hmem]
  assertFirstAvailable ids salt id secret h := (readable_of_assertFirstAvailable hhonest h).2

end FidoInnerProvider

/-! ## What an enrollment leaves -/

variable {P : Primitives} {innerKek outerKek : Key} {R : KeyRing → Prop}
  {permitted : InnerKeyProvider → Prop} {inner : InnerKeyProvider}

/-- An enrollment excludes the credentials stored at its time, and a run keeps the credential
of each of its enrollments. -/
theorem Refines.exists_stored (hP : P.Lawful) (hprotects : KeyRing.Protects P innerKek permitted R)
    {process process' : Process} {c : Contents} {before later : List Action} {e : Event}
    {label : String} (h : Refines P R innerKek outerKek process c)
    (hrun : Run (Process.Step P) process (before ++ .call e :: later) process')
    (hsealed : ∀ a ∈ before ++ .call e :: later, a.UnsealsOnly outerKek)
    (huses : ∀ a ∈ before ++ .call e :: later, a.UsesOnly permitted)
    (hop : e.op = .enrollKey inner label) (hok : e.succeeded) :
    ∃ (s : Session) (ring : KeyRing) (id : Bytes),
      Run (Process.Step P) process before (.running s) ∧
      Run (Process.Step P) (.running s) (.call e :: later) process' ∧
      ring.StoredIn P s.vault ∧ inner.provisionExcluding ring.credentialIds = .ok id ∧
      Refines P (fun ring => R ring ∧ id ∈ ring.credentialIds) innerKek outerKek process'
        ((before ++ .call e :: later).foldl Contents.next c) := by
  simp only [List.forall_mem_append, List.forall_mem_cons] at hsealed huses
  obtain ⟨mid, hbefore, hrest⟩ := Run.append_iff.mp hrun
  have hmid := h.run hP hprotects hsealed.1 huses.1 hbefore
  have hinner : permitted inner := by
    have hused : e.op.UsesOnly permitted := huses.2.1
    rwa [hop] at hused
  have hlast := hrest
  cases hrest with
  | cons hstep hlater =>
      cases hstep with
      | @call s _ _ hcall =>
          have heffect := hcall.effect
          rw [hop, hok] at heffect
          cases heffect with
          | enrolled _ _ enrollments hlive henroll =>
              have hthen : Refines P (fun ring => R ring ∧ ring.StoredIn P s.vault) innerKek
                  outerKek (.running s) (before.foldl Contents.next c) := by
                obtain ⟨ring, hstored, hring⟩ := hmid.ring
                exact { hmid with ring := ⟨ring, hstored, hring, hstored⟩ }
              have henrolled := hthen.enrolled hP henroll
              obtain ⟨_, hnew, ring, record, ⟨hring, hstored⟩, haccepts, rfl⟩ := henrolled.ring
              have hkept := hprotects.accepts ring inner record hring hinner haccepts
              refine ⟨s, ring, record.credentialId, hbefore, hlast, hstored,
                haccepts.provisioned, ?_⟩
              have hnow : Refines P (fun ring => R ring ∧ record.credentialId ∈ ring.credentialIds)
                  innerKek outerKek (.running _) (before.foldl Contents.next c) :=
                { holds := henrolled.holds
                  ring := ⟨_, hnew, hkept, by simp⟩
                  outer := henrolled.outer
                  inner := henrolled.inner }
              have hend := hnow.run hP (hprotects.and_mem _) hsealed.2.2 huses.2.2 hlater
              have hnext : (before.foldl Contents.next c).next (.call e) =
                  before.foldl Contents.next c := by
                simp [Contents.next, Contents.perform, hop]
              rw [List.foldl_append, List.foldl_cons, hnext]
              exact hend

namespace FidoInnerProvider

variable [DecidableEq D] {w : Authenticators ι}

variable (D w) in
/-- What devices that keep their word answer, when they hold one thing at a registration and
another at an assertion. -/
def ByDevices (inner : InnerKeyProvider) : Prop :=
  ∃ (registering asserting : FidoCall D) (t t' : Tokens D), asserting.Honest w t' ∧
    inner = answers registering asserting t t'

theorem ByDevices.truthful (h : ByDevices D w inner) : w.Truthful inner := by
  obtain ⟨registering, asserting, t, t', hhonest, rfl⟩ := h
  exact truthful_answers registering t hhonest

variable (D w) in
/-- The keys that open the vault are those that are enrolled: any of them that is plugged in
opens it with the inner key and every secret of the map, and other devices never do. -/
structure OpenedByKeys (P : Primitives) (innerKek outerKek : Key) (v : Vault) (c : Contents)
    (enrollments : List Enrollment) : Prop where
  stored : ∀ sql : Sql, sql.fault (.getMeta metaEnrollments) = none →
    loadEnrollments P sql v = .ok enrollments
  differ : (enrollments.map Enrollment.credentialId).Nodup
  opens : ∀ (call : FidoCall D) (now : Tokens D), call.Honest w now →
    (∀ salt, call.Cooperates now (enrollments.map Enrollment.credentialId) salt) →
    (∃ d ∈ call.readable, ∃ id ∈ enrollments.map Enrollment.credentialId, now.holds d id) →
    ∀ (opening unlocking : Call) (timeout : ℕ),
      opening.sql.fault (.getMeta metaKdfSalt) = none → KeyRing.Readable unlocking.sql →
      ∃ reopened s, Session.openLocked opening v (.ok outerKek) timeout = .ok reopened ∧
        Session.unlock P unlocking (answers call call now now) reopened = (.ok (), s) ∧
        s.innerKek = some innerKek ∧
        ∀ id m p, c.secret id = some (m, p) → ∀ reading : Call, s.Live reading.started →
          reading.sql.fault .getBlob = none → (Session.openSecret P reading id s).1 = .ok p
  refuses : ∀ (call : FidoCall D) (now : Tokens D), call.Honest w now →
    (∀ d ∈ call.readable, ∀ id ∈ enrollments.map Enrollment.credentialId, ¬ now.holds d id) →
    ∀ (unlocking : Call) (s : Session), s.vault = v →
      ∃ e, Session.unlock P unlocking (answers call call now now) s = (.error e, s)

theorem openedByKeys_of_refines (hP : P.Lawful) {process : Process} {c : Contents} {ring : KeyRing}
    (h : Refines P (w.Fits P innerKek outerKek) innerKek outerKek process c)
    (hstored : ring.StoredIn P process.vault) (hfits : w.Fits P innerKek outerKek ring) :
    OpenedByKeys D w P innerKek outerKek process.vault c ring.enrollments where
  stored sql hfault := (KeyRing.loadEnrollments_eq_ok_iff hP hstored sql _).mpr ⟨hfault, rfl⟩
  differ := hfits.1.nodup
  opens := by
    intro call now hhonest hcooperates hheld opening unlocking timeout hopening hreadable
    obtain ⟨⟨id, secret⟩, hassert⟩ := exists_assertFirstAvailable hhonest
      (hcooperates ring.hmacSalt) hfits.2 hheld
    have htruthful := truthful_answers (w := w) call now hhonest
    have hadmits := hfits.admits htruthful hassert
    have hopen := hstored.openLocked outerKek hopening timeout
    have hunlock := KeyRing.unlock_of_admits unlocking hP
      ⟨process.vault, outerKek, none, none, timeout⟩ hstored hreadable hadmits
    have hreopened := h.step hP (Authenticators.Fits.protects hP w innerKek outerKek)
      (a := .reopen opening (.ok outerKek) timeout)
      (fun key hkey => (Except.ok.inj hkey).symm) trivial (.reopened hopen)
    refine ⟨_, _, hopen, hunlock, rfl, ?_⟩
    intro id m p hsecret reading hlive hfault
    have hunlocked : Refines P _ innerKek outerKek (.running ⟨process.vault, outerKek,
        some innerKek, some (unlocking.ended + timeout), timeout⟩) c :=
      hreopened.same_tables rfl rfl (.inr (.inr rfl))
    have hanswer := hunlocked.openSecret hP hlive hfault id
    rw [hsecret] at hanswer
    exact hanswer
  refuses := by
    rintro call now hhonest hnone unlocking s hvault
    rcases Session.unlock_cases P unlocking (answers call call now now) s with
      hfailed | ⟨found, hassert, _⟩
    · exact hfailed
    · obtain ⟨_, id, secret, record, hanswer, _⟩ :=
        (KeyRing.assertInnerKey_eq_ok_iff hP (hvault ▸ hstored) _ found).mp hassert
      obtain ⟨⟨d, hreadable, hholds⟩, hmem, _⟩ :=
        readable_of_assertFirstAvailable hhonest hanswer
      exact absurd hholds (hnone d hreadable id hmem)

/-- A registration that excludes these credentials answers with one that is left on the
device opened for it. -/
structure Registers (registering : FidoCall D) (t : Tokens D) (existing : List Bytes) (d : D)
    (id : Bytes) : Prop where
  opened : openUnenrolled registering t existing = .ok d
  answered : (provisionOnNewDevice registering existing t).1 = .ok id
  kept : (provisionOnNewDevice registering existing t).2.holds d id

theorem exists_registers {existing : List Bytes} {id : Bytes} {registering : FidoCall D}
    {t : Tokens D} (h : (provisionOnNewDevice registering existing t).1 = .ok id) :
    ∃ d, Registers registering t existing d id := by
  rcases provisionOnNewDevice_asks registering existing t with
    ⟨⟨e, he⟩, _⟩ | ⟨d, hopen, _, hregistered⟩
  · cases h.symm.trans he
  · refine ⟨d, hopen, h, ?_⟩
    rw [hregistered id h]
    simp [Tokens.register]

/-- **The enrolled keys open the vault.** After `initialize` and any run in which devices that
keep their word are used, whichever are plugged in at each call: the credential that the first
registration answered with is stored, and so is that of each enrollment since, which excluded
those stored at its time; each is on the device that was opened for it; any device that holds a
stored credential opens the vault, with the inner key that `initialize` drew, and no others do. -/
theorem enrolled_keys_open {σ : Type} (hP : P.Lawful) {outer : OuterKeyProvider σ}
    {registering asserting : FidoCall D} {t₁ t₂ : Tokens D} {created : Call} {timeout : ℕ}
    {x x' : σ} {v₀ : Vault} {s₀ : Session} {actions : List Action} {process : Process}
    (hcreate : Session.initializeVault P created outer (answers registering asserting t₁ t₂) timeout
      (.empty, x) = (.ok s₀, (v₀, x')))
    (hhonest : asserting.Honest w t₂) (hrun : Run (Process.Step P) (.running s₀) actions process)
    (hsealed : ∀ a ∈ actions, a.UnsealsOnly s₀.outerKek)
    (huses : ∀ a ∈ actions, a.UsesOnly (ByDevices D w)) :
    ∃ innerKek enrollments, s₀.innerKek = some innerKek ∧
      OpenedByKeys D w P innerKek s₀.outerKek process.vault (Contents.after actions) enrollments ∧
      (∃ d id, Registers registering t₁ [] d id ∧ id ∈ enrollments.map Enrollment.credentialId) ∧
      ∀ (before later : List Action) (e : Event) (registering' asserting' : FidoCall D)
        (u u' : Tokens D) (label : String), actions = before ++ .call e :: later →
        e.op = .enrollKey (answers registering' asserting' u u') label → e.succeeded →
        ∃ s stored d id, Run (Process.Step P) (.running s₀) before (.running s) ∧
          Run (Process.Step P) (.running s) (.call e :: later) process ∧
          loadEnrollments P .reliable s.vault = .ok stored ∧
          Registers registering' u (stored.map Enrollment.credentialId) d id ∧
          id ∈ enrollments.map Enrollment.credentialId := by
  obtain ⟨_, _, outerKek, keys, _, hprepare, _, rfl⟩ :=
    (Session.initializeVault_eq_ok_iff ..).mp hcreate
  have htruthful := truthful_answers registering t₁ hhonest
  have hprotects := Authenticators.Fits.protects hP w keys.innerKek outerKek
  have huses' : ∀ a ∈ actions, a.UsesOnly w.Truthful := by
    intro a ha
    have hused := huses a ha
    cases a with
    | call e =>
        change e.op.UsesOnly _ at hused ⊢
        cases hop : e.op <;> rw [hop] at hused <;>
          first | exact ByDevices.truthful hused | trivial
    | reopen => trivial
  have hstart : Refines P (w.Fits P keys.innerKek outerKek) keys.innerKek outerKek
      (.running (keys.session P created outerKek .empty timeout)) .empty :=
    .of_newKeys keys timeout (.of_prepareKeys htruthful hprepare)
  have hend := hstart.run hP hprotects hsealed huses' hrun
  obtain ⟨ring, hstored, hfits⟩ := hend.ring
  have hmem : ∀ {id : Bytes}, Refines P (fun ring => w.Fits P keys.innerKek outerKek ring ∧
      id ∈ ring.credentialIds) keys.innerKek outerKek process (Contents.after actions) →
      id ∈ ring.enrollments.map Enrollment.credentialId := by
    intro id h
    obtain ⟨ring', hstored', _, hid⟩ := h.ring
    have hload := (KeyRing.loadEnrollments_eq_ok_iff hP hstored .reliable _).mpr ⟨rfl, rfl⟩
    obtain ⟨_, hsame⟩ := (KeyRing.loadEnrollments_eq_ok_iff hP hstored' .reliable _).mp hload
    rw [hsame]
    exact hid
  refine ⟨keys.innerKek, ring.enrollments, rfl, openedByKeys_of_refines hP hend hstored hfits,
    ?_, ?_⟩
  · obtain ⟨_, _, _, hprovision⟩ := KeyRing.wrapped_of_prepareKeys hprepare
    obtain ⟨d, hregisters⟩ := exists_registers hprovision
    refine ⟨d, _, hregisters, hmem ?_⟩
    have hfirst : Refines P (fun ring => w.Fits P keys.innerKek outerKek ring ∧
        keys.primary.credentialId ∈ ring.credentialIds) keys.innerKek outerKek
        (.running (keys.session P created outerKek .empty timeout)) .empty :=
      .of_newKeys keys timeout ⟨.of_prepareKeys htruthful hprepare, List.mem_singleton_self _⟩
    exact hfirst.run hP (hprotects.and_mem _) hsealed huses' hrun
  · rintro before later e registering' asserting' u u' label rfl hop hok
    obtain ⟨s, then', id, hbefore, hlater, hthen, hprovision, hkept⟩ :=
      hstart.exists_stored hP hprotects hrun hsealed huses' hop hok
    obtain ⟨d, hregisters⟩ := exists_registers hprovision
    exact ⟨s, then'.enrollments, d, id, hbefore, hlater,
      (KeyRing.loadEnrollments_eq_ok_iff hP hthen .reliable _).mpr ⟨rfl, rfl⟩, hregisters,
      hmem hkept⟩

/-- What the one key answers. -/
private def keySecret : Bytes := List.replicate 32 7

/-- One key there is to enroll, and another that holds nothing. -/
private def keyCall (devices : List (HidDevice Bool)) : FidoCall Bool where
  devices := devices
  pinPrompt := some (.ok "1234")
  preflight _ held ids := if ids.any held then .ok () else .error "CTAP2_ERR_NO_CREDENTIALS"
  makeCredential _ _ := .ok ⟨[1], [.hmacSecret (some true)]⟩
  getAssertion d ids _ _ :=
    if d && ids.contains [1] then .ok [⟨[1], [.hmacSecret (some keySecret)]⟩]
    else .error "CTAP2_ERR_NO_CREDENTIALS"

private def keyTokens : Tokens Bool := ⟨fun d id => d && id == [1], []⟩

private def keyWorld : Authenticators Unit := ⟨fun _ => none, fun _ _ => keySecret⟩

private theorem keyCall_honest (devices : List (HidDevice Bool)) :
    (keyCall devices).Honest keyWorld keyTokens where
  probes := by
    intro d held ids _
    have hany : ((keyCall devices).preflight d held ids).isOk = ids.any held := by
      dsimp only [keyCall]
      cases ids.any held <;> rfl
    rw [hany, List.any_eq_true]
  asserts := by
    intro d ids salt pin answers assertion hanswers hfirst
    dsimp only [keyCall] at hanswers
    split at hanswers
    · rename_i hheld
      cases hanswers
      cases hfirst
      obtain ⟨rfl, hmem⟩ : d = true ∧ [1] ∈ ids := by simpa using hheld
      exact ⟨[1], hmem, by simp [keyTokens], .inl rfl, by simp [keyWorld]⟩
    · cases hanswers

private theorem keyCall_cooperates (devices : List (HidDevice Bool)) (ids : List Bytes)
    (salt : Bytes) : (keyCall devices).Cooperates keyTokens ids salt := by
  refine ⟨"1234", rfl, ?_⟩
  rintro d - ⟨id, hmem, hholds⟩
  obtain ⟨rfl, rfl⟩ : d = true ∧ id = [1] := by simpa [keyTokens] using hholds
  exact ⟨_, _, _, if_pos (by simpa using hmem), .inl (by simp), rfl⟩

/-- With the key that the vault was created with beside another, it is found. -/
theorem a_key_is_found_beside_another : ∃ innerKek outerKek v reopened s,
    Session.openLocked (.atOnce 1) v (.ok outerKek) 10 = .ok reopened ∧
    Session.unlock .reference (.atOnce 2) (answers (keyCall [⟨false, true⟩, ⟨true, true⟩])
      (keyCall [⟨false, true⟩, ⟨true, true⟩]) keyTokens keyTokens) reopened = (.ok (), s) ∧
    s.innerKek = some innerKek := by
  let alone := keyCall [⟨true, true⟩]
  obtain ⟨wrapBlob, hwrap⟩ : ∃ wrapBlob, wrapFor .reference (.atOnce 0)
      (answers alone alone ⟨fun _ _ => false, []⟩ keyTokens) [1] (Block.replicate saltLen 10).bytes
      (Block.replicate saltLen 9).bytes (Block.replicate keyLen 8) "primary" =
        .ok ⟨"primary", [1], wrapBlob⟩ :=
    ⟨_, (Session.wrapFor_eq_ok_iff ..).mpr ⟨keySecret, _, rfl, rfl, rfl⟩⟩
  obtain ⟨verifyBlob, hverify⟩ := Session.exists_sealBytes_reference (Block.replicate 24 5)
    (Block.replicate 24 6) (Block.replicate 16 0) (Block.replicate keyLen 8)
    (Block.replicate keyLen 1) verificationPlaintext
  have hprepare : Session.prepareKeys .reference (.atOnce 0)
      (answers alone alone ⟨fun _ _ => false, []⟩ keyTokens) (Block.replicate keyLen 1) =
        .ok ⟨Block.replicate keyLen 8, Block.replicate saltLen 9, Block.replicate saltLen 10,
          ⟨"primary", [1], wrapBlob⟩, Block.replicate 16 0, verifyBlob⟩ :=
    (Session.prepareKeys_eq_ok_iff ..).mpr ⟨rfl, rfl, rfl, ⟨[1], rfl, hwrap⟩, rfl, hverify⟩
  have hcreate : Session.initializeVault .reference (.atOnce 0)
      (.machine (Block.replicate keyLen 1)) (answers alone alone ⟨fun _ _ => false, []⟩ keyTokens)
      10 (.empty, none) = (.ok _, (_, _)) :=
    (Session.initializeVault_eq_ok_iff ..).mpr
      ⟨rfl, fun _ _ => rfl, Block.replicate keyLen 1, _, rfl, hprepare, rfl, rfl⟩
  obtain ⟨innerKek, enrollments, _, hopened, ⟨d, id, hregisters, hmem⟩, _⟩ :=
    enrolled_keys_open Primitives.reference_lawful hcreate (keyCall_honest _) (.nil _)
      (by simp) (by simp)
  obtain rfl : [1] = id := Except.ok.inj hregisters.answered
  obtain ⟨reopened, s, hopen, hunlock, hinner, _⟩ := hopened.opens _ keyTokens
    (keyCall_honest [⟨false, true⟩, ⟨true, true⟩]) (keyCall_cooperates _ _)
    ⟨true, List.mem_cons_of_mem _ List.mem_cons_self, [1], hmem, rfl⟩ (.atOnce 1) (.atOnce 2) 10
    rfl (fun _ _ => rfl)
  exact ⟨innerKek, _, _, reopened, s, hopen, hunlock, hinner⟩

end FidoInnerProvider

end Sypherstore
