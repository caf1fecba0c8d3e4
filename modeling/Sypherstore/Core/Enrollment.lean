/-
# Any enrolled authenticator opens the vault

Who holds a credential and what it answers is not the vault's doing. It enters as
`Authenticators`, and a provider stands for one of them when its answers are that
authenticator's. The keys at rest then have a property that every enrollment keeps:
each record carries the one inner key, wrapped under its own credential's answer.
-/

import Sypherstore.Core.SessionMap
import Sypherstore.Logic.Keyed

namespace Sypherstore

open Logic

variable {ι : Type}

/-! ## Authenticators -/

/-- The authenticators there are: which of them issued a credential, and what it
answers for that credential and a salt. -/
structure Authenticators (ι : Type) where
  issuer : Bytes → Option ι
  secret : (credentialId salt : Bytes) → Bytes

namespace Authenticators

/-- The provider answers for credentials that `a` issued and for no others, and with
what `a` answers. -/
structure Stands (w : Authenticators ι) (a : ι) (inner : InnerKeyProvider) : Prop where
  provision : ∀ id, inner.provision = .ok id → w.issuer id = some a
  provisionExcluding : ∀ ids id, inner.provisionExcluding ids = .ok id → w.issuer id = some a
  assertSecret : ∀ id salt secret, inner.assertSecret id salt = .ok secret →
    w.issuer id = some a ∧ secret = w.secret id salt
  assertFirstAvailable : ∀ ids salt id secret,
    inner.assertFirstAvailable ids salt = .ok (id, secret) →
    w.issuer id = some a ∧ secret = w.secret id salt

/-- The authenticator is there and its user cooperates: offered a credential of its
own, it answers for an offered one. -/
def Responds (w : Authenticators ι) (a : ι) (inner : InnerKeyProvider) : Prop :=
  ∀ ids salt, (∃ id ∈ ids, w.issuer id = some a) →
    ∃ id ∈ ids, ∃ secret, inner.assertFirstAvailable ids salt = .ok (id, secret)

variable {w : Authenticators ι} {a : ι}

section Defaults

variable {provision : Fallible ProviderError Bytes}
  {assertSecret : Bytes → Bytes → Fallible ProviderError Bytes}

/-- A provider that overrides neither default method stands for an authenticator if
its two other methods do. -/
theorem Stands.withDefaults (hprovision : ∀ id, provision = .ok id → w.issuer id = some a)
    (hassert : ∀ id salt secret, assertSecret id salt = .ok secret →
      w.issuer id = some a ∧ secret = w.secret id salt) :
    w.Stands a (.withDefaults provision assertSecret) where
  provision := hprovision
  provisionExcluding _ := hprovision
  assertSecret := hassert
  assertFirstAvailable := by
    intro ids salt id secret hanswer
    obtain ⟨_, hsecret⟩ := InnerKeyProvider.tryInOrder_eq_ok hanswer
    exact hassert id salt secret hsecret

/-- Trying the credentials in order finds one that the authenticator issued. -/
theorem Responds.withDefaults (hpanic : ∀ id salt, assertSecret id salt ≠ .error .panic)
    (hanswers : ∀ id salt, w.issuer id = some a → ∃ secret, assertSecret id salt = .ok secret) :
    w.Responds a (.withDefaults provision assertSecret) := by
  rintro ids salt ⟨id, hid, hissuer⟩
  obtain ⟨secret, hsecret⟩ := hanswers id salt hissuer
  obtain ⟨⟨matchedId, answer⟩, hanswer⟩ :=
    InnerKeyProvider.exists_tryInOrder_eq_ok (fun id => hpanic id salt) hid hsecret none
  obtain ⟨hmem, _⟩ := InnerKeyProvider.tryInOrder_eq_ok hanswer
  exact ⟨matchedId, hmem, answer, hanswer⟩

end Defaults

/-! ## The keys at rest -/

/-- The records have different credentials, each carries the inner key under what its
credential's authenticator answers, and the verification blob fits the two keys. -/
structure Vouch (w : Authenticators ι) (P : Primitives) (innerKek outerKek : Key)
    (ring : KeyRing) : Prop where
  nodup : ring.credentialIds.Nodup
  wrapped : ∀ record ∈ ring.enrollments,
    Wrapped P (deriveWrapKey P (w.secret record.credentialId ring.hmacSalt) ring.kdfSalt)
      innerKek record.wrapBlob
  verified : Sealed P ring.verifyId innerKek outerKek verificationPlaintext ring.verifyBlob

variable {P : Primitives} {innerKek outerKek : Key}

theorem Vouch.of_prepareKeys {call : Call} {inner : InnerKeyProvider} {keys : NewKeys}
    (hstands : w.Stands a inner)
    (hprepare : Session.prepareKeys P call inner outerKek = .ok keys) :
    w.Vouch P keys.innerKek outerKek (KeyRing.ofNewKeys keys) where
  nodup := List.nodup_singleton _
  wrapped := by
    intro record hrecord
    obtain rfl := List.mem_singleton.mp hrecord
    obtain ⟨secret, hsecret, hwrapped, _⟩ := KeyRing.wrapped_of_prepareKeys hprepare
    obtain ⟨_, rfl⟩ := hstands.assertSecret _ _ _ hsecret
    exact hwrapped
  verified := by
    obtain ⟨_, _, _, _, _, hverify⟩ := (Session.prepareKeys_eq_ok_iff ..).mp hprepare
    exact Sealed.of_sealBytes hverify

/-- A blob carries one key under one wrap key. -/
theorem wrapped_unique (hP : P.Lawful) {wrap found : Key} {blob : Bytes}
    (h : Wrapped P wrap innerKek blob) (hfound : Wrapped P wrap found blob) :
    found = innerKek := by
  have hunwrap := (KeyRing.unwrapKey_eq_ok_iff hP wrap innerKek blob).mpr h
  rw [(KeyRing.unwrapKey_eq_ok_iff hP wrap found blob).mpr hfound] at hunwrap
  exact Except.ok.inj hunwrap

/-- **Enrollment invariant.** While only these authenticators are used, every ring
they vouch for admits the one inner key, and stays so when a record is added. -/
theorem Vouch.protects (hP : P.Lawful) (w : Authenticators ι) (innerKek outerKek : Key) :
    KeyRing.Protects P innerKek (fun inner => ∃ a, w.Stands a inner)
      (w.Vouch P innerKek outerKek) where
  admits := by
    rintro ring inner _ found hring ⟨a, hstands⟩
      ⟨matchedId, assertion, record, hassert, hfind, hfound, _⟩
    obtain ⟨_, rfl⟩ := hstands.assertFirstAvailable _ _ _ _ hassert
    have hid : record.credentialId = matchedId := by simpa using List.find?_some hfind
    have hwrapped := hring.wrapped record (List.mem_of_find?_eq_some hfind)
    rw [hid] at hwrapped
    exact wrapped_unique hP hwrapped hfound
  accepts := by
    rintro ring inner record hring ⟨a, hstands⟩ ⟨_, hfresh, secret, hsecret, hrecord⟩
    obtain ⟨_, rfl⟩ := hstands.assertSecret _ _ _ hsecret
    exact
      { nodup := by
          rw [KeyRing.credentialIds_enroll]
          apply hring.nodup.append (List.nodup_singleton _)
          exact List.disjoint_singleton.mpr hfresh
        wrapped := by
          intro record' hrecord'
          rcases List.mem_append.mp hrecord' with hold | hnew
          · exact hring.wrapped record' hold
          · obtain rfl := List.mem_singleton.mp hnew
            exact hrecord
        verified := hring.verified }

/-- An authenticator with a stored credential makes the ring admit its key. -/
theorem Vouch.admits {ring : KeyRing} (h : w.Vouch P innerKek outerKek ring)
    {inner : InnerKeyProvider} (hstands : w.Stands a inner) (hresponds : w.Responds a inner)
    (hheld : ∃ id ∈ ring.credentialIds, w.issuer id = some a) :
    ring.Admits P inner innerKek outerKek := by
  obtain ⟨matchedId, hmem, secret, hassert⟩ :=
    hresponds ring.credentialIds ring.hmacSalt hheld
  obtain ⟨_, rfl⟩ := hstands.assertFirstAvailable _ _ _ _ hassert
  obtain ⟨held, hheld, hid⟩ := List.mem_map.mp hmem
  obtain ⟨record, hfind, hrecord, hfound⟩ : ∃ record,
      (ring.enrollments.find? fun record => record.credentialId = matchedId) = some record ∧
        record ∈ ring.enrollments ∧ record.credentialId = matchedId := exists_find_key hheld hid
  have hwrapped := h.wrapped record hrecord
  rw [hfound] at hwrapped
  exact ⟨matchedId, _, record, hassert, hfind, hwrapped, h.verified⟩

/-- A provider that stands for an authenticator without a stored credential makes the
ring admit nothing. -/
theorem not_admits {ring : KeyRing} {inner : InnerKeyProvider} (hstands : w.Stands a inner)
    (hnone : ∀ id ∈ ring.credentialIds, w.issuer id ≠ some a) (found outerKek : Key) :
    ¬ ring.Admits P inner found outerKek := by
  rintro ⟨matchedId, _, record, hassert, hfind, _⟩
  obtain ⟨hrecord, hid⟩ := mem_of_find_key hfind
  have hmem := List.mem_map_of_mem (f := Enrollment.credentialId) hrecord
  rw [hid] at hmem
  exact hnone matchedId hmem (hstands.assertFirstAvailable _ _ _ _ hassert).1

/-! ## Runs -/

/-- The authenticators a run enrolls: the one the vault was created with, and those of
its successful enrollments. -/
def EnrolledBy (w : Authenticators ι) (primary : InnerKeyProvider) (actions : List Action)
    (a : ι) : Prop :=
  w.Stands a primary ∨ ∃ e inner label, Action.call e ∈ actions ∧
    e.op = .enrollKey inner label ∧ e.succeeded ∧ w.Stands a inner

/-- A session on this vault that was just opened and is unlocked with `a` alone holds
the inner key and opens every secret of the map. -/
def OpensAlone (w : Authenticators ι) (P : Primitives) (innerKek outerKek : Key) (v : Vault)
    (c : Contents) (a : ι) : Prop :=
  ∀ (inner : InnerKeyProvider) (opening unlocking : Call) (timeout : ℕ),
    w.Stands a inner → w.Responds a inner →
    opening.sql.fault (.getMeta metaKdfSalt) = none → KeyRing.Readable unlocking.sql →
    ∃ reopened s, Session.openLocked opening v (.ok outerKek) timeout = .ok reopened ∧
      Session.unlock P unlocking inner reopened = (.ok (), s) ∧ s.innerKek = some innerKek ∧
      ∀ id m p, c.secret id = some (m, p) → ∀ call : Call, s.Live call.started →
        call.sql.fault .getBlob = none → (Session.openSecret P call id s).1 = .ok p

/-- A provider that stands for `a` unlocks no session on this vault. -/
def NeverUnlocks (w : Authenticators ι) (P : Primitives) (v : Vault) (a : ι) : Prop :=
  ∀ (inner : InnerKeyProvider) (call : Call) (s : Session), w.Stands a inner → s.vault = v →
    ∃ e, Session.unlock P call inner s = (.error e, s)

/-- **Unlocking a reopened session.** A stored credential of `a` is all it takes. -/
theorem opensAlone_of_refines (hP : P.Lawful) {process : Process} {c : Contents} {id : Bytes}
    (h : Refines P (fun ring => w.Vouch P innerKek outerKek ring ∧ id ∈ ring.credentialIds)
      innerKek outerKek process c)
    (hissuer : w.issuer id = some a) :
    w.OpensAlone P innerKek outerKek process.vault c a := by
  intro inner opening unlocking timeout hstands hresponds hopening hreadable
  obtain ⟨ring, hstored, hvouch, hid⟩ := h.ring
  have hopen := hstored.openLocked outerKek hopening timeout
  have hadmits := hvouch.admits hstands hresponds ⟨id, hid, hissuer⟩
  have hunlock := KeyRing.unlock_of_admits _ hP ⟨process.vault, outerKek, none, none, timeout⟩
    hstored hreadable hadmits
  have hprotects := (Vouch.protects hP w innerKek outerKek).and_mem id
  have hreopened := h.step hP hprotects (a := .reopen opening (.ok outerKek) timeout)
    (fun key hkey => (Except.ok.inj hkey).symm) trivial (.reopened hopen)
  refine ⟨_, ⟨process.vault, outerKek, some innerKek, some (unlocking.ended + timeout), timeout⟩,
    hopen, hunlock, rfl, ?_⟩
  intro id m p hsecret call hlive hfault
  have hunlocked : Refines P _ innerKek outerKek (.running ⟨process.vault, outerKek, some innerKek,
      some (unlocking.ended + timeout), timeout⟩) c :=
    hreopened.same_tables rfl rfl (.inr (.inr rfl))
  have hanswer := hunlocked.openSecret hP hlive hfault id
  rw [hsecret] at hanswer
  exact hanswer

theorem neverUnlocks_of_storedIn (hP : P.Lawful) {ring : KeyRing} {v : Vault}
    (h : ring.StoredIn P v) (hnone : ∀ id ∈ ring.credentialIds, w.issuer id ≠ some a) :
    w.NeverUnlocks P v a := by
  rintro inner call s hstands rfl
  rcases Session.unlock_cases P call inner s with hfailed | ⟨found, hassert, _⟩
  · exact hfailed
  · obtain ⟨_, hadmits⟩ := (KeyRing.assertInnerKey_eq_ok_iff hP h inner found).mp hassert
    exact absurd hadmits (not_admits hstands hnone found s.outerKek)

/-- A successful enrollment stores a credential of the authenticator. -/
theorem exists_stored_of_enrolled (hP : P.Lawful) {call : Call} {s s' : Session} {c : Contents}
    {inner : InnerKeyProvider} {label : String}
    (h : Refines P (w.Vouch P innerKek outerKek) innerKek outerKek (.running s) c)
    (hstands : w.Stands a inner)
    (heffect : Session.Effect P call s (.enrollKey inner label) true s') :
    ∃ id, w.issuer id = some a ∧
      Refines P (fun ring => w.Vouch P innerKek outerKek ring ∧ id ∈ ring.credentialIds)
        innerKek outerKek (.running s') c := by
  cases heffect with
  | enrolled _ _ enrollments hlive henroll =>
      have henrolled := h.enrolled hP henroll
      obtain ⟨_, hstored, ring, record, hring, haccepts, rfl⟩ := henrolled.ring
      have hvouch := (Vouch.protects hP w innerKek outerKek).accepts ring inner record hring
        ⟨a, hstands⟩ haccepts
      refine ⟨record.credentialId, hstands.provisionExcluding _ _ haccepts.provisioned, ?_⟩
      exact
        { holds := henrolled.holds
          ring := ⟨_, hstored, hvouch, by simp⟩
          outer := henrolled.outer
          inner := henrolled.inner }

/-- Every authenticator that a run enrolls has a credential stored at its end. -/
theorem exists_stored_of_enrolledBy (hP : P.Lawful) {call : Call} {inner : InnerKeyProvider}
    {keys : NewKeys} {timeout : ℕ} {actions : List Action} {process : Process}
    (hprepare : Session.prepareKeys P call inner outerKek = .ok keys)
    (hrun : Run (Process.Step P) (.running (keys.session P call outerKek .empty timeout)) actions
      process)
    (hsealed : ∀ action ∈ actions, action.UnsealsOnly outerKek)
    (huses : ∀ action ∈ actions, action.UsesOnly fun inner => ∃ a, w.Stands a inner)
    (hinner : ∃ a, w.Stands a inner) (henrolled : w.EnrolledBy inner actions a) :
    ∃ id, w.issuer id = some a ∧
      Refines P (fun ring => w.Vouch P keys.innerKek outerKek ring ∧ id ∈ ring.credentialIds)
        keys.innerKek outerKek process (Contents.after actions) := by
  obtain ⟨b, hb⟩ := hinner
  have hprotects := Vouch.protects hP w keys.innerKek outerKek
  have hstart : Refines P (w.Vouch P keys.innerKek outerKek) keys.innerKek outerKek
      (.running (keys.session P call outerKek .empty timeout)) .empty :=
    .of_newKeys keys timeout (.of_prepareKeys hb hprepare)
  rcases henrolled with hprimary | ⟨e, enrolling, label, he, hop, hok, hstands⟩
  · obtain ⟨_, _, _, hprovision⟩ := KeyRing.wrapped_of_prepareKeys hprepare
    refine ⟨keys.primary.credentialId, hprimary.provision _ hprovision, ?_⟩
    have hstored : Refines P (fun ring => w.Vouch P keys.innerKek outerKek ring ∧
        keys.primary.credentialId ∈ ring.credentialIds) keys.innerKek outerKek
        (.running (keys.session P call outerKek .empty timeout)) .empty :=
      .of_newKeys keys timeout ⟨.of_prepareKeys hb hprepare, List.mem_singleton_self _⟩
    exact hstored.run hP (hprotects.and_mem _) hsealed huses hrun
  · obtain ⟨before, later, rfl⟩ := List.append_of_mem he
    simp only [List.forall_mem_append, List.forall_mem_cons] at hsealed huses
    obtain ⟨mid, hbefore, hrest⟩ := Run.append_iff.mp hrun
    have hmid := hstart.run hP hprotects hsealed.1 huses.1 hbefore
    cases hrest with
    | cons hstep hlater =>
        cases hstep with
        | call hcall =>
            have heffect := hcall.effect
            rw [hop, hok] at heffect
            obtain ⟨id, hissuer, hstored⟩ := exists_stored_of_enrolled hP hmid hstands heffect
            refine ⟨id, hissuer, ?_⟩
            have hend := hstored.run hP (hprotects.and_mem id) hsealed.2.2 huses.2.2 hlater
            have hnext : (before.foldl Contents.next .empty).next (.call e) =
                before.foldl Contents.next .empty := by
              simp [Contents.next, Contents.perform, hop]
            rw [Contents.after, List.foldl_append, List.foldl_cons, hnext]
            exact hend

/-- **Any enrolled authenticator alone opens the vault.** After `initialize` and any
run in which only these authenticators are used, the stored credentials differ; each
authenticator that the run enrolled opens the vault alone, with the inner key that
`initialize` drew; and one without a stored credential never does. -/
theorem any_enrolled_authenticator_opens {σ : Type} (hP : P.Lawful)
    {outer : OuterKeyProvider σ} {inner : InnerKeyProvider} {created : Call} {timeout : ℕ}
    {t t' : σ} {v₀ : Vault} {s₀ : Session} {actions : List Action} {process : Process}
    (hcreate : Session.initializeVault P created outer inner timeout (.empty, t) =
      (.ok s₀, (v₀, t')))
    (hrun : Run (Process.Step P) (.running s₀) actions process)
    (hsealed : ∀ action ∈ actions, action.UnsealsOnly s₀.outerKek)
    (hinner : ∃ a, w.Stands a inner)
    (huses : ∀ action ∈ actions, action.UsesOnly fun inner => ∃ a, w.Stands a inner) :
    ∃ innerKek enrollments, s₀.innerKek = some innerKek ∧
      (∀ sql : Sql, sql.fault (.getMeta metaEnrollments) = none →
        loadEnrollments P sql process.vault = .ok enrollments) ∧
      (enrollments.map Enrollment.credentialId).Nodup ∧
      (∀ a, w.EnrolledBy inner actions a →
        w.OpensAlone P innerKek s₀.outerKek process.vault (Contents.after actions) a) ∧
      (∀ a, (∀ record ∈ enrollments, w.issuer record.credentialId ≠ some a) →
        w.NeverUnlocks P process.vault a) := by
  obtain ⟨_, _, outerKek, keys, _, hprepare, _, rfl⟩ :=
    (Session.initializeVault_eq_ok_iff ..).mp hcreate
  have ⟨b, hb⟩ := hinner
  have hstart : Refines P (w.Vouch P keys.innerKek outerKek) keys.innerKek outerKek
      (.running (keys.session P created outerKek .empty timeout)) .empty :=
    .of_newKeys keys timeout (.of_prepareKeys hb hprepare)
  have hend := hstart.run hP (Vouch.protects hP w keys.innerKek outerKek) hsealed huses hrun
  obtain ⟨ring, hstored, hvouch⟩ := hend.ring
  refine ⟨keys.innerKek, ring.enrollments, rfl, ?_, hvouch.nodup, ?_, ?_⟩
  · intro sql hfault
    exact (KeyRing.loadEnrollments_eq_ok_iff hP hstored sql _).mpr ⟨hfault, rfl⟩
  · intro a ha
    obtain ⟨id, hissuer, hrefines⟩ :=
      exists_stored_of_enrolledBy hP hprepare hrun hsealed huses hinner ha
    exact opensAlone_of_refines hP hrefines hissuer
  · intro a hnone
    apply neverUnlocks_of_storedIn hP hstored
    intro id hid
    obtain ⟨record, hrecord, rfl⟩ := List.mem_map.mp hid
    exact hnone record hrecord

/-! ### Two tokens -/

/-- A token stands for whoever issued its one credential. -/
theorem Stands.token {id secret : Bytes} (hissuer : w.issuer id = some a)
    (hsecret : ∀ salt, w.secret id salt = secret) : w.Stands a (.token id secret) := by
  apply Stands.withDefaults
  · rintro _ ⟨⟩
    exact hissuer
  · intro id' salt answer hanswer
    by_cases hid : id' = id
    · subst hid
      simp only [if_true, Except.ok.injEq] at hanswer
      exact ⟨hissuer, hanswer.symm.trans (hsecret salt).symm⟩
    · simp [hid, Fallible.raise] at hanswer

/-- A token responds for an authenticator that issued its credential and no other. -/
theorem Responds.token {id secret : Bytes} (honly : ∀ id', w.issuer id' = some a → id' = id) :
    w.Responds a (.token id secret) := by
  apply Responds.withDefaults
  · intro id' salt
    by_cases hid : id' = id <;> simp [hid, Fallible.raise]
  · intro id' salt hissuer
    exact ⟨secret, if_pos (honly id' hissuer)⟩

/-- Two tokens with one credential each. -/
private def twoTokens : Authenticators Bool where
  issuer id := if id = [1] then some false else if id = [2] then some true else none
  secret id _ := id

private def enrollingCall : Call := .working 1 1 (Nat.le_refl 1) (Block.replicate 16 0)

/-- The second token can be enrolled in a session that `initialize` returns. -/
private theorem exists_enrolled_second (keys : NewKeys) (hid : keys.primary.credentialId = [1])
    (s : Session) (hvault : s.vault = keys.vault Primitives.reference .empty)
    (hinner : s.innerKek = some keys.innerKek) (hlive : s.Live 1) :
    ∃ s', Session.Step Primitives.reference s
      ⟨enrollingCall, .enrollKey (.token [2] [2]) "spare", .ok .done⟩ s' := by
  have hstored : (KeyRing.ofNewKeys keys).StoredIn Primitives.reference s.vault := by
    rw [hvault]
    exact .of_newKeys keys .empty
  obtain ⟨wrapBlob, hwrap⟩ := Session.exists_wrapFor_working 1 1 (Nat.le_refl 1)
    (Block.replicate 16 0) [2] [2] keys.hmacSalt.bytes keys.kdfSalt.bytes keys.innerKek
    ((KeyRing.ofNewKeys keys).labelFor "spare")
  have hfresh : [2] ∉ (KeyRing.ofNewKeys keys).credentialIds := by
    simp [KeyRing.credentialIds, KeyRing.ofNewKeys, hid]
  have henroll := (KeyRing.enroll_eq_ok_iff enrollingCall Primitives.reference_lawful hstored
    (.token [2] [2]) "spare" _).mpr
    ⟨fun _ _ => rfl, keys.innerKek, [2], _, hinner, rfl, hfresh, hwrap, rfl⟩
  exact ⟨_, .of_enrollKey (Session.enrollKey_of_enroll hlive henroll rfl)⟩

/-- The vault is created with the first token, and the second, enrolled later, opens it
alone. -/
theorem second_token_opens_alone : ∃ (s₀ s : Session) (actions : List Action) (innerKek : Key),
    Run (Process.Step Primitives.reference) (.running s₀) actions (.running s) ∧
    s₀.innerKek = some innerKek ∧
    twoTokens.OpensAlone Primitives.reference innerKek s₀.outerKek s.vault
      (Contents.after actions) true := by
  obtain ⟨keys, hid, _, hcreate⟩ := Session.exists_initializeVault_working 0 0 (Nat.le_refl 0)
    (Block.replicate 16 0) (Block.replicate keyLen 1) [1] [1] 10
  obtain ⟨s, hstep⟩ := exists_enrolled_second keys hid
    (keys.session Primitives.reference (.working 0 0 (Nat.le_refl 0) (Block.replicate 16 0))
      (Block.replicate keyLen 1) .empty 10)
    rfl rfl ⟨keys.innerKek, 10, rfl, rfl, by decide⟩
  have hrun := Run.single (Process.Step.call hstep)
  have hfirst : twoTokens.Stands false (.token [1] [1]) := .token rfl fun _ => rfl
  have hsecond : twoTokens.Stands true (.token [2] [2]) := .token rfl fun _ => rfl
  have huses : ∀ action ∈ [Action.call ⟨enrollingCall, .enrollKey (.token [2] [2]) "spare",
      .ok .done⟩], action.UsesOnly fun inner => ∃ a, twoTokens.Stands a inner := by
    intro action haction
    obtain rfl := List.mem_singleton.mp haction
    exact ⟨true, hsecond⟩
  obtain ⟨innerKek, _, hinner, _, _, hopens, _⟩ :=
    any_enrolled_authenticator_opens Primitives.reference_lawful hcreate hrun
      (by simp [Action.UnsealsOnly]) ⟨false, hfirst⟩ huses
  exact ⟨_, s, _, innerKek, hrun, hinner,
    hopens true (.inr ⟨_, _, _, List.mem_singleton_self _, rfl, rfl, hsecond⟩)⟩

end Authenticators

end Sypherstore
