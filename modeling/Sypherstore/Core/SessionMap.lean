/-
# The session is a map

What a vault is for: a partial map from ids to secrets, changed by the calls that
succeed and read by the others. The encrypted rows refine it through every run,
including runs in which the session is dropped and the vault opened again.

The abstract side knows nothing of keys, rows or envelopes. It is compared with
the session by `Holds`, for the rows, and `Refines`, which adds the keys.
-/

import Sypherstore.Core.KeyRing
import Sypherstore.Core.LockTimer

namespace Sypherstore

open Logic

/-! ## The abstract map -/

/-- A partial map from ids to secrets, in which every secret is stored under its
own id. -/
structure Contents where
  secret : Uuid → Option (SecretMeta × SecretPayload)
  id_eq : ∀ {id m p}, secret id = some (m, p) → m.id = id

namespace Contents

def empty : Contents where
  secret _ := none
  id_eq := by simp

/-- Store a secret under its id. -/
def put (c : Contents) (m : SecretMeta) (p : SecretPayload) : Contents where
  secret := Function.update c.secret m.id (some (m, p))
  id_eq := by
    intro id m' p' h
    by_cases hid : id = m.id
    · subst hid
      rw [Function.update_self] at h
      cases h
      rfl
    · rw [Function.update_of_ne hid] at h
      exact c.id_eq h

/-- Remove whatever is stored under an id. -/
def remove (c : Contents) (id : Uuid) : Contents where
  secret := Function.update c.secret id none
  id_eq := by
    intro id' m' p' h
    by_cases hid : id' = id
    · subst hid
      rw [Function.update_self] at h
      cases h
    · rw [Function.update_of_ne hid] at h
      exact c.id_eq h

@[simp] theorem secret_put_self (c : Contents) (m : SecretMeta) (p : SecretPayload) :
    (c.put m p).secret m.id = some (m, p) := Function.update_self ..

theorem secret_put_of_ne (c : Contents) (m : SecretMeta) (p : SecretPayload) {id : Uuid}
    (h : id ≠ m.id) : (c.put m p).secret id = c.secret id := Function.update_of_ne h ..

@[simp] theorem secret_remove_self (c : Contents) (id : Uuid) :
    (c.remove id).secret id = none := Function.update_self ..

theorem secret_remove_of_ne (c : Contents) {id id' : Uuid} (h : id' ≠ id) :
    (c.remove id).secret id' = c.secret id' := Function.update_of_ne h ..

end Contents

/-! ## A process and its runs -/

/-- A process that uses one vault: the session is open, or was dropped or could not
be opened. -/
inductive Process where
  | closed (v : Vault)
  | running (s : Session)

def Process.vault : Process → Vault
  | .closed v => v
  | .running s => s.vault

/-- A step of a process: a call, or dropping the session and opening the vault
again with what the outer provider unseals. -/
inductive Action where
  | call (e : Event)
  | reopen (call : Call) (unsealed : Fallible ProviderError Key) (timeout : ℕ)

namespace Process

inductive Step (P : Primitives) : Process → Action → Process → Prop
  | call {s s' : Session} {e : Event} (h : Session.Step P s e s') :
      Step P (.running s) (.call e) (.running s')
  | reopened {p : Process} {call : Call} {unsealed : Fallible ProviderError Key} {timeout : ℕ}
      {s : Session} (h : Session.openLocked call p.vault unsealed timeout = .ok s) :
      Step P p (.reopen call unsealed timeout) (.running s)
  | notReopened {p : Process} {call : Call} {unsealed : Fallible ProviderError Key}
      {timeout : ℕ} {e : Fault SessionError}
      (h : Session.openLocked call p.vault unsealed timeout = .error e) :
      Step P p (.reopen call unsealed timeout) (.closed p.vault)

end Process

/-- Whenever the vault is opened again, the outer provider returns the key that was
sealed, or fails. -/
def Action.UnsealsOnly (outerKek : Key) : Action → Prop
  | .call _ => True
  | .reopen _ unsealed _ => ∀ key, unsealed = .ok key → key = outerKek

/-- Only permitted providers are used to unlock and to enroll. -/
def Op.UsesOnly (permitted : InnerKeyProvider → Prop) : Op → Prop
  | .unlock inner => permitted inner
  | .enrollKey inner _ => permitted inner
  | _ => True

def Action.UsesOnly (permitted : InnerKeyProvider → Prop) : Action → Prop
  | .call e => e.op.UsesOnly permitted
  | .reopen _ _ _ => True

theorem Action.usesOnly_true (a : Action) : a.UsesOnly fun _ => True := by
  cases a with
  | call e => cases h : e.op <;> simp [UsesOnly, Op.UsesOnly, h]
  | reopen call unsealed timeout => trivial

/-- What a call does to the map: a successful `add`, `update` or `delete` changes
it, and nothing else does. -/
def Contents.perform (c : Contents) : Op → Bool → Contents
  | .add m p, true => c.put m p
  | .update m p, true => c.put m p
  | .delete id, true => c.remove id
  | _, _ => c

theorem Contents.perform_false (c : Contents) (op : Op) : c.perform op false = c := by
  cases op <;> rfl

def Contents.next (c : Contents) : Action → Contents
  | .call e => c.perform e.op e.succeeded
  | .reopen _ _ _ => c

/-- The map after a run that starts without secrets. -/
def Contents.after (actions : List Action) : Contents := actions.foldl Contents.next .empty

/-! ## The rows hold the map -/

section Holds

variable {P : Primitives} {innerKek outerKek : Key}

/-- The rows of a vault hold a map: every secret has its row, and there is no row
beside those. -/
structure Holds (P : Primitives) (innerKek outerKek : Key) (c : Contents) (v : Vault) : Prop where
  stored : ∀ {id m p}, c.secret id = some (m, p) →
    ∃ row, v.secrets[P.uuidText id]? = some row ∧ StoresSecret P innerKek outerKek m p row
  only : ∀ {text}, text ∈ v.secrets →
    ∃ id m p, text = P.uuidText id ∧ c.secret id = some (m, p)

theorem Holds.empty {v : Vault} (h : v.secrets = ∅) : Holds P innerKek outerKek .empty v where
  stored := by
    intro id m p hsecret
    cases hsecret
  only := by
    intro text htext
    rw [h] at htext
    exact absurd htext Std.ExtTreeMap.not_mem_empty

theorem Holds.congr {c : Contents} {v v' : Vault} (h : Holds P innerKek outerKek c v)
    (hsecrets : v'.secrets = v.secrets) : Holds P innerKek outerKek c v' where
  stored := by
    rw [hsecrets]
    exact h.stored
  only := by
    rw [hsecrets]
    exact h.only

theorem Holds.insert (hP : P.Lawful) {c : Contents} {v v' : Vault} {m : SecretMeta}
    {p : SecretPayload} {row : StoredRow} (h : Holds P innerKek outerKek c v)
    (hrow : StoresSecret P innerKek outerKek m p row)
    (hv' : v'.secrets = v.secrets.insert (P.uuidText m.id) row) :
    Holds P innerKek outerKek (c.put m p) v' where
  stored := by
    intro id m' p' hsecret
    rw [hv']
    by_cases hid : id = m.id
    · subst hid
      rw [Contents.secret_put_self] at hsecret
      cases hsecret
      exact ⟨row, Std.ExtTreeMap.getElem?_insert_self, hrow⟩
    · rw [Contents.secret_put_of_ne c m p hid] at hsecret
      have hne : P.uuidText id ≠ P.uuidText m.id := fun h => hid (hP.uuidText_inj.mp h)
      rw [Table.getElem?_insert_of_ne hne]
      exact h.stored hsecret
  only := by
    intro text htext
    rw [hv', Table.mem_insert] at htext
    by_cases hnew : text = P.uuidText m.id
    · exact ⟨m.id, m, p, hnew, Contents.secret_put_self c m p⟩
    · obtain ⟨id, m', p', rfl, hsecret⟩ := h.only (htext.resolve_left hnew)
      have hid : id ≠ m.id := fun h => hnew (congrArg P.uuidText h)
      exact ⟨id, m', p', rfl, by rw [Contents.secret_put_of_ne c m p hid, hsecret]⟩

theorem Holds.erase (hP : P.Lawful) {c : Contents} {v v' : Vault} {id : Uuid}
    (h : Holds P innerKek outerKek c v)
    (hv' : v'.secrets = v.secrets.erase (P.uuidText id)) :
    Holds P innerKek outerKek (c.remove id) v' where
  stored := by
    intro id' m p hsecret
    have hid : id' ≠ id := by
      rintro rfl
      rw [Contents.secret_remove_self] at hsecret
      cases hsecret
    rw [Contents.secret_remove_of_ne c hid] at hsecret
    have hne : P.uuidText id' ≠ P.uuidText id := fun h => hid (hP.uuidText_inj.mp h)
    rw [hv', Table.getElem?_erase_of_ne hne]
    exact h.stored hsecret
  only := by
    intro text htext
    rw [hv', Table.mem_erase] at htext
    obtain ⟨id', m, p, rfl, hsecret⟩ := h.only htext.2
    have hid : id' ≠ id := fun h => htext.1 (congrArg P.uuidText h)
    exact ⟨id', m, p, rfl, by rw [Contents.secret_remove_of_ne c hid, hsecret]⟩

/-- An id has a row exactly when it is live. -/
theorem Holds.mem_iff (hP : P.Lawful) {c : Contents} {v : Vault}
    (h : Holds P innerKek outerKek c v) (id : Uuid) :
    P.uuidText id ∈ v.secrets ↔ c.secret id ≠ none := by
  constructor
  · intro hmem hnone
    obtain ⟨id', m, p, htext, hsecret⟩ := h.only hmem
    rw [hP.uuidText_inj.mp htext, hsecret] at hnone
    cases hnone
  · intro hlive
    obtain ⟨⟨m, p⟩, hsecret⟩ := Option.ne_none_iff_exists'.mp hlive
    obtain ⟨row, hlookup, _⟩ := h.stored hsecret
    exact Std.ExtTreeMap.isSome_getElem?_iff_mem.mp (by rw [hlookup]; rfl)

/-! ## Reading what is held -/

theorem parseUuid_uuidText (hP : P.Lawful) (id : Uuid) :
    Vault.parseUuid P (P.uuidText id) = id := by
  simp [Vault.parseUuid, hP.uuid]

theorem readWire_cborWrite (hP : P.Lawful) {α : Type} (record : String)
    (ofCbor : Cbor → Option α) {value : Cbor} (hrecord : WireRecord value) :
    readWire P record ofCbor (P.cborWrite value) =
      Fallible.ofOption (.decode (P.cborError record (P.cborWrite value))) (ofCbor value) := by
  simp [readWire, hP.cbor _ hrecord]

/-- The payload half of a stored secret is read back as it was. -/
theorem StoresSecret.openPayload (hP : P.Lawful) {m : SecretMeta} {p : SecretPayload}
    {row : StoredRow} (h : StoresSecret P innerKek outerKek m p row) :
    openPayload P m.id innerKek outerKek row.payloadBlob = .ok p := by
  obtain ⟨metaId, _, _, hpayload⟩ := h
  simp only [Sypherstore.openPayload, (openBytes_eq_ok_iff hP.exact hP.tagged ..).mpr hpayload,
    Fallible.ok_bind, readWire_cborWrite hP _ _ (.payload _), PayloadWire.ofCbor_toCbor,
    Fallible.ofOption_some, PayloadWire.intoPayload_fromPayload]
  rfl

/-- The metadata half is read back, field for field, under whatever id it is read. -/
theorem StoresSecret.openMeta_at (hP : P.Lawful) {m : SecretMeta} {p : SecretPayload}
    {row : StoredRow} (h : StoresSecret P innerKek outerKek m p row) (id : Uuid) :
    openMeta P (Vault.parseUuid P row.metaId) id innerKek outerKek row.metaBlob =
      .ok { m with id := id } := by
  obtain ⟨metaId, hid, hmeta, _⟩ := h
  rw [hid, parseUuid_uuidText hP]
  simp only [Sypherstore.openMeta, (openBytes_eq_ok_iff hP.exact hP.tagged ..).mpr hmeta,
    Fallible.ok_bind, readWire_cborWrite hP _ _ (.metadata _), MetaWire.ofCbor_toCbor,
    Fallible.ofOption_some, MetaWire.intoMeta_fromMeta]
  rfl

theorem StoresSecret.openMeta (hP : P.Lawful) {m : SecretMeta} {p : SecretPayload}
    {row : StoredRow} (h : StoresSecret P innerKek outerKek m p row) :
    openMeta P (Vault.parseUuid P row.metaId) m.id innerKek outerKek row.metaBlob = .ok m :=
  h.openMeta_at hP m.id

/-- Every row opens to the metadata the map holds for it, under its own id. -/
theorem Holds.openMeta_row (hP : P.Lawful) {c : Contents} {v : Vault}
    (h : Holds P innerKek outerKek c v) {entry : String × StoredRow}
    (hentry : entry ∈ v.secrets.toList) :
    ∃ m, (∃ p, c.secret m.id = some (m, p)) ∧ (Vault.readRow P entry).id = m.id ∧
      Sypherstore.openMeta P (Vault.readRow P entry).metaId (Vault.readRow P entry).id innerKek
        outerKek (Vault.readRow P entry).metaBlob = .ok m := by
  obtain ⟨text, row⟩ := entry
  have hlookup : v.secrets[text]? = some row :=
    Std.ExtTreeMap.mem_toList_iff_getElem?_eq_some.mp hentry
  have htext : text ∈ v.secrets := Std.ExtTreeMap.isSome_getElem?_iff_mem.mp (by rw [hlookup]; rfl)
  obtain ⟨id, m, p, rfl, hsecret⟩ := h.only htext
  obtain ⟨row', hlookup', hstores⟩ := h.stored hsecret
  obtain rfl : row' = row := Option.some.inj (hlookup'.symm.trans hlookup)
  obtain rfl := c.id_eq hsecret
  have hread : (Vault.readRow P ⟨P.uuidText m.id, row'⟩).id = m.id := parseUuid_uuidText hP m.id
  refine ⟨m, ⟨p, hsecret⟩, hread, ?_⟩
  rw [hread]
  exact hstores.openMeta hP

/-- No two rows are read under one id. -/
theorem Holds.nodup_ids (hP : P.Lawful) {c : Contents} {v : Vault}
    (h : Holds P innerKek outerKek c v) :
    (v.secrets.toList.map fun entry => (Vault.readRow P entry).id).Nodup := by
  have hkeys : (v.secrets.keys.map (Vault.parseUuid P)).Nodup := by
    refine Std.ExtTreeMap.nodup_keys.map_on ?_
    intro text htext text' htext' hparse
    obtain ⟨id, _, _, rfl, _⟩ := h.only (Std.ExtTreeMap.mem_keys.mp htext)
    obtain ⟨id', _, _, rfl, _⟩ := h.only (Std.ExtTreeMap.mem_keys.mp htext')
    rw [parseUuid_uuidText hP, parseUuid_uuidText hP] at hparse
    rw [hparse]
  have hmap : (v.secrets.toList.map fun entry => (Vault.readRow P entry).id) =
      v.secrets.keys.map (Vault.parseUuid P) := by
    rw [← Std.ExtTreeMap.map_fst_toList_eq_keys, List.map_map]
    rfl
  rw [hmap]
  exact hkeys

end Holds

/-! ## Refinement -/

section Refinement

variable {P : Primitives} {R : KeyRing → Prop} {permitted : InnerKeyProvider → Prop}
  {innerKek outerKek : Key}

/-- A process refines a map under two keys: its rows hold the map, the keys it stores
have the property `R`, and an open session has no other keys than these. -/
structure Refines (P : Primitives) (R : KeyRing → Prop) (innerKek outerKek : Key)
    (process : Process) (c : Contents) : Prop where
  holds : Holds P innerKek outerKek c process.vault
  ring : ∃ ring : KeyRing, ring.StoredIn P process.vault ∧ R ring
  outer : ∀ s, process = .running s → s.outerKek = outerKek
  inner : ∀ s, process = .running s → s.innerKek = none ∨ s.innerKek = some innerKek

theorem Refines.of_newKeys {call : Call} (keys : NewKeys) (timeout : ℕ)
    (hring : R (KeyRing.ofNewKeys keys)) :
    Refines P R keys.innerKek outerKek (.running (keys.session P call outerKek .empty timeout))
      .empty where
  holds := Holds.empty rfl
  ring := ⟨KeyRing.ofNewKeys keys, KeyRing.StoredIn.of_newKeys keys .empty, hring⟩
  outer := by
    rintro s ⟨⟩
    rfl
  inner := by
    rintro s ⟨⟩
    exact .inr rfl

/-- A session with the same tables and the same keys, or none, refines the same
map. -/
theorem Refines.same_tables {s s' : Session} {c : Contents}
    (h : Refines P R innerKek outerKek (.running s) c) (hvault : s'.vault = s.vault)
    (houter : s'.outerKek = s.outerKek)
    (hinner : s'.innerKek = none ∨ s'.innerKek = s.innerKek ∨ s'.innerKek = some innerKek) :
    Refines P R innerKek outerKek (.running s') c where
  holds := h.holds.congr (congrArg Vault.secrets hvault)
  ring := by
    obtain ⟨ring, hstored, hring⟩ := h.ring
    exact ⟨ring, hstored.congr (congrArg Vault.metaTable hvault), hring⟩
  outer := by
    rintro t ⟨⟩
    exact houter.trans (h.outer s rfl)
  inner := by
    rintro t ⟨⟩
    rcases hinner with hnone | hsame | hkey
    · exact .inl hnone
    · rw [hsame]
      exact h.inner s rfl
    · exact .inr hkey

/-- Writing a row for a secret follows `put`. -/
theorem Refines.written (hP : P.Lawful) {call : Call} {s : Session} {c : Contents}
    {m : SecretMeta} {p : SecretPayload} {row : StoredRow}
    (h : Refines P R innerKek outerKek (.running s) c)
    (hrow : StoresSecret P innerKek outerKek m p row) :
    Refines P R innerKek outerKek (.running (s.written call (P.uuidText m.id) row))
      (c.put m p) where
  holds := h.holds.insert hP hrow (by rw [Process.vault, Session.written, Session.vault_touch]; rfl)
  ring := by
    obtain ⟨ring, hstored, hring⟩ := h.ring
    refine ⟨ring, hstored.congr ?_, hring⟩
    rw [Process.vault, Session.written, Session.vault_touch]
    rfl
  outer := by
    rintro t ⟨⟩
    rw [Session.written, Session.outerKek_touch]
    exact h.outer s rfl
  inner := by
    rintro t ⟨⟩
    rw [Session.written, Session.innerKek_touch]
    exact h.inner s rfl

/-- Unlocking with a permitted provider admits the vault's own inner key. -/
theorem Refines.assertInnerKey_eq (hP : P.Lawful)
    (hprotects : KeyRing.Protects P innerKek permitted R) {call : Call} {s : Session}
    {c : Contents} (h : Refines P R innerKek outerKek (.running s) c) {inner : InnerKeyProvider}
    (hinner : permitted inner) {found : Key}
    (hassert : Session.assertInnerKey P call inner s = .ok found) : found = innerKek := by
  obtain ⟨ring, hstored, hring⟩ := h.ring
  obtain ⟨_, hadmits⟩ := (KeyRing.assertInnerKey_eq_ok_iff hP hstored inner found).mp hassert
  exact hprotects.admits ring inner s.outerKek found hring hinner hadmits

theorem Refines.mono {R' : KeyRing → Prop} {process : Process} {c : Contents}
    (h : Refines P R innerKek outerKek process c) (himp : ∀ ring, R ring → R' ring) :
    Refines P R' innerKek outerKek process c where
  holds := h.holds
  ring := by
    obtain ⟨ring, hstored, hring⟩ := h.ring
    exact ⟨ring, hstored, himp ring hring⟩
  outer := h.outer
  inner := h.inner

/-- Enrolling another authenticator leaves the rows and adds a record that wraps the
inner key. -/
theorem Refines.enrolled (hP : P.Lawful) {call : Call} {s : Session} {c : Contents}
    (h : Refines P R innerKek outerKek (.running s) c) {inner : InnerKeyProvider}
    {label : String} {enrollments : List Enrollment}
    (henroll : Session.enroll P call inner label s = .ok enrollments) :
    Refines P (fun ring' => ∃ ring record, R ring ∧ ring.Accepts P inner innerKek record ∧
      ring' = ring.enroll record)
      innerKek outerKek (.running (s.enrolled P call enrollments)) c where
  holds := h.holds.congr (by rw [Process.vault, Session.enrolled, Session.vault_touch]; rfl)
  ring := by
    obtain ⟨ring, hstored, hring⟩ := h.ring
    obtain ⟨found, record, hfound, haccepts, rfl⟩ := KeyRing.enroll_eq_ok hP hstored henroll
    have hsame : found = innerKek := by
      rcases h.inner s rfl with hnone | hkey
      · rw [hnone] at hfound
        cases hfound
      · exact Option.some.inj (hfound.symm.trans hkey)
    subst hsame
    exact ⟨ring.enroll record, hstored.enrolled _, ring, record, hring, haccepts, rfl⟩
  outer := by
    rintro t ⟨⟩
    rw [Session.enrolled, Session.outerKek_touch]
    exact h.outer s rfl
  inner := by
    rintro t ⟨⟩
    rw [Session.enrolled, Session.innerKek_touch]
    exact h.inner s rfl

/-- **Step lemma.** Every call of a session that refines a map leaves a session that
refines what the call makes of the map. -/
theorem Refines.effect (hP : P.Lawful) (hprotects : KeyRing.Protects P innerKek permitted R)
    {call : Call} {s s' : Session} {c : Contents} {op : Op} {ok : Bool}
    (h : Refines P R innerKek outerKek (.running s) c) (huses : op.UsesOnly permitted)
    (heffect : Session.Effect P call s op ok s') :
    Refines P R innerKek outerKek (.running s') (c.perform op ok) := by
  have hticked : Refines P R innerKek outerKek (.running (s.tick call.started).2) c := by
    by_cases hlive : s.Live call.started
    · rw [(Session.tick_of_live hlive).2]
      exact h
    · obtain ⟨_, hinner, hvault, houter, _⟩ := Session.tick_of_not_live hlive
      exact h.same_tables hvault houter (.inl hinner)
  have hsealing : ∀ {inner : Key}, s.innerKek = some inner → inner = innerKek ∧
      s.outerKek = outerKek := by
    intro inner hinner
    refine ⟨?_, h.outer s rfl⟩
    rcases h.inner s rfl with hnone | hkey
    · rw [hnone] at hinner
      cases hinner
    · exact Option.some.inj (hinner.symm.trans hkey)
  cases heffect with
  | refused op =>
      rw [Contents.perform_false]
      exact h
  | expired op hlive =>
      rw [Contents.perform_false]
      exact hticked
  | locked => exact h.same_tables rfl rfl (.inl rfl)
  | ticked => exact hticked
  | touched =>
      exact h.same_tables (Session.vault_touch ..) (Session.outerKek_touch ..)
        (.inr (.inl (Session.innerKek_touch ..)))
  | observed => exact h
  | listed hlive => exact h
  | described id hlive => exact h
  | opened id hlive =>
      exact h.same_tables (Session.vault_touch ..) (Session.outerKek_touch ..)
        (.inr (.inl (Session.innerKek_touch ..)))
  | added m p inner row hlive hinner hfresh hrow =>
      obtain ⟨rfl, houter⟩ := hsealing hinner
      rw [houter] at hrow
      exact h.written hP hrow
  | updated m p inner row hlive hinner hmem hrow =>
      obtain ⟨rfl, houter⟩ := hsealing hinner
      rw [houter] at hrow
      exact h.written hP hrow
  | deleted id hmem =>
      exact
        { holds := h.holds.erase hP rfl
          ring := by
            obtain ⟨ring, hstored, hring⟩ := h.ring
            exact ⟨ring, hstored.congr rfl, hring⟩
          outer := by
            rintro t ⟨⟩
            exact h.outer s rfl
          inner := by
            rintro t ⟨⟩
            exact h.inner s rfl }
  | enrolled inner label enrollments hlive henroll =>
      refine (h.enrolled hP henroll).mono ?_
      rintro _ ⟨ring, record, hring, haccepts, rfl⟩
      exact hprotects.accepts ring inner record hring huses haccepts
  | unlocked inner found hassert =>
      obtain rfl := h.assertInnerKey_eq hP hprotects huses hassert
      exact h.same_tables rfl rfl (.inr (.inr rfl))

theorem Refines.step (hP : P.Lawful) (hprotects : KeyRing.Protects P innerKek permitted R)
    {process process' : Process} {c : Contents} {a : Action}
    (h : Refines P R innerKek outerKek process c) (hsealed : a.UnsealsOnly outerKek)
    (huses : a.UsesOnly permitted) (hstep : Process.Step P process a process') :
    Refines P R innerKek outerKek process' (c.next a) := by
  cases hstep with
  | call hcall => exact h.effect hP hprotects huses hcall.effect
  | reopened hopen =>
      obtain ⟨_, _, key, hunsealed, rfl⟩ := (Session.openLocked_eq_ok_iff ..).mp hopen
      exact
        { holds := h.holds
          ring := h.ring
          outer := by
            rintro t ⟨⟩
            exact hsealed key hunsealed
          inner := by
            rintro t ⟨⟩
            exact .inl rfl }
  | notReopened hopen =>
      exact
        { holds := h.holds
          ring := h.ring
          outer := by rintro t ⟨⟩
          inner := by rintro t ⟨⟩ }

/-- **Run lemma.** A run refines the map its successful calls add up to. -/
theorem Refines.run (hP : P.Lawful) (hprotects : KeyRing.Protects P innerKek permitted R)
    {process process' : Process} {c : Contents} {actions : List Action}
    (h : Refines P R innerKek outerKek process c)
    (hsealed : ∀ a ∈ actions, a.UnsealsOnly outerKek) (huses : ∀ a ∈ actions, a.UsesOnly permitted)
    (hrun : Run (Process.Step P) process actions process') :
    Refines P R innerKek outerKek process' (actions.foldl Contents.next c) :=
  hrun.simulation (fun _ a _ _ ha hrefines hstep =>
    hrefines.step hP hprotects (hsealed a ha) (huses a ha) hstep) h

/-! ## What the calls answer -/

variable {call : Call} {s : Session} {c : Contents}

theorem Refines.rows (h : Refines P R innerKek outerKek (.running s) c) :
    Holds P innerKek outerKek c s.vault := h.holds

/-- The inner key of a live session is the vault's. -/
theorem Refines.inner_of_live (h : Refines P R innerKek outerKek (.running s) c)
    (hlive : s.Live call.started) : s.innerKek = some innerKek := by
  obtain ⟨inner, _, hinner, _, _⟩ := hlive
  rcases h.inner s rfl with hnone | hkey
  · rw [hnone] at hinner
    cases hinner
  · exact hkey

/-- `open` answers with the payload the map holds. -/
theorem Refines.openSecret (hP : P.Lawful) (h : Refines P R innerKek outerKek (.running s) c)
    (hlive : s.Live call.started) (hfault : call.sql.fault .getBlob = none) (id : Uuid) :
    (Session.openSecret P call id s).1 =
      match c.secret id with
      | some (_, p) => .ok p
      | none => .error (.error (.vault (.notFound id))) := by
  rw [Session.openSecret_of_live hlive (h.inner_of_live hlive)]
  cases hsecret : c.secret id with
  | none =>
      have hdead : P.uuidText id ∉ s.vault.secrets := by
        intro hmem
        exact (h.rows.mem_iff hP id).mp hmem hsecret
      rw [Vault.getBlob_of_not_mem hfault hdead]
      rfl
  | some secret =>
      obtain ⟨m, p⟩ := secret
      obtain ⟨row, hlookup, hrow⟩ := h.rows.stored hsecret
      have hopen := hrow.openPayload hP
      rw [c.id_eq hsecret, ← h.outer s rfl] at hopen
      rw [Vault.getBlob_of_lookup hfault hlookup, Fallible.mapError_ok, Fallible.ok_bind, hopen]
      rfl

/-- `meta_for` answers with the metadata the map holds. -/
theorem Refines.metaFor (hP : P.Lawful) (h : Refines P R innerKek outerKek (.running s) c)
    (hlive : s.Live call.started) (hfault : call.sql.fault .getMetaRow = none) (id : Uuid) :
    (Session.metaFor P call id s).1 =
      match c.secret id with
      | some (m, _) => .ok m
      | none => .error (.error (.vault (.notFound id))) := by
  rw [Session.metaFor_of_live hlive (h.inner_of_live hlive)]
  cases hsecret : c.secret id with
  | none =>
      have hdead : P.uuidText id ∉ s.vault.secrets := by
        intro hmem
        exact (h.rows.mem_iff hP id).mp hmem hsecret
      rw [Vault.getMetaRow_of_not_mem hfault hdead]
      rfl
  | some secret =>
      obtain ⟨m, p⟩ := secret
      obtain ⟨row, hlookup, hrow⟩ := h.rows.stored hsecret
      have hopen := hrow.openMeta hP
      rw [c.id_eq hsecret, ← h.outer s rfl] at hopen
      rw [Vault.getMetaRow_of_lookup hfault hlookup, Fallible.mapError_ok, Fallible.ok_bind]
      simp only [Vault.readRow, parseUuid_uuidText hP, hopen, Fallible.mapError_ok]

/-- The list shows every live secret once, with its metadata, in the order of the
lower-case names. -/
def Lists (P : Primitives) (c : Contents) (metas : List SecretMeta) : Prop :=
  (metas.map SecretMeta.id).Nodup ∧
  (∀ m, m ∈ metas ↔ ∃ p, c.secret m.id = some (m, p)) ∧
  metas.Pairwise fun a b => P.lowercase a.name ≤ P.lowercase b.name

theorem Refines.list (hP : P.Lawful) (h : Refines P R innerKek outerKek (.running s) c)
    (hlive : s.Live call.started) (hfault : call.sql.fault .listRows = none) :
    ∃ metas, (Session.list P call s).1 = .ok metas ∧ Lists P c metas := by
  have hrows : s.vault.listRows P call.sql =
      .ok ((call.sql.scan s.vault.secrets.toList).map (Vault.readRow P)) := by
    simp [Vault.listRows, Sql.attempt, hfault]
  have hperm := call.sql.scan_perm s.vault.secrets.toList
  have hopens : ∀ row ∈ (call.sql.scan s.vault.secrets.toList).map (Vault.readRow P),
      ∃ m, (∃ p, c.secret m.id = some (m, p)) ∧ row.id = m.id ∧
        openMeta P row.metaId row.id innerKek s.outerKek row.metaBlob = .ok m := by
    intro row hrow
    obtain ⟨entry, hentry, rfl⟩ := List.mem_map.mp hrow
    rw [h.outer s rfl]
    exact h.rows.openMeta_row hP (hperm.mem_iff.mp hentry)
  choose! describe hlisted hid hopen using hopens
  have hlist : (Session.list P call s).1 =
      .ok ((((call.sql.scan s.vault.secrets.toList).map (Vault.readRow P)).map describe).mergeSort
        fun a b => P.lowercase a.name ≤ P.lowercase b.name) := by
    rw [Session.list_of_live hlive (h.inner_of_live hlive), hrows]
    simp only [Fallible.mapError_ok, Fallible.ok_bind, Fallible.mapM_eq_ok_map hopen]
  refine ⟨_, hlist, ?_, ?_, ?_⟩
  · have hids : (((call.sql.scan s.vault.secrets.toList).map (Vault.readRow P)).map describe).map
        SecretMeta.id =
        (call.sql.scan s.vault.secrets.toList).map fun entry => (Vault.readRow P entry).id := by
      rw [List.map_map, List.map_map]
      exact List.map_congr_left fun entry hentry => (hid _ (List.mem_map_of_mem hentry)).symm
    rw [((List.mergeSort_perm _ _).map _).nodup_iff, hids, (hperm.map _).nodup_iff]
    exact h.rows.nodup_ids hP
  · intro m
    rw [List.mem_mergeSort]
    constructor
    · intro hm
      obtain ⟨row, hrow, rfl⟩ := List.mem_map.mp hm
      exact hlisted row hrow
    · rintro ⟨p, hsecret⟩
      obtain ⟨stored, hstored, _⟩ := h.rows.stored hsecret
      have hentry : (P.uuidText m.id, stored) ∈ s.vault.secrets.toList :=
        Std.ExtTreeMap.mem_toList_iff_getElem?_eq_some.mpr hstored
      have hrow : Vault.readRow P ⟨P.uuidText m.id, stored⟩ ∈
          (call.sql.scan s.vault.secrets.toList).map (Vault.readRow P) :=
        List.mem_map_of_mem (hperm.mem_iff.mpr hentry)
      have hsame : (describe (Vault.readRow P ⟨P.uuidText m.id, stored⟩)).id = m.id :=
        (hid _ hrow).symm.trans (parseUuid_uuidText hP m.id)
      obtain ⟨p', hsecret'⟩ := hlisted _ hrow
      rw [hsame, hsecret] at hsecret'
      obtain ⟨hm, _⟩ := Prod.mk.inj (Option.some.inj hsecret')
      rw [hm]
      exact List.mem_map_of_mem hrow
  · refine (List.pairwise_mergeSort ?_ ?_ _).imp fun hle => of_decide_eq_true hle
    · intro a b d hab hbd
      exact decide_eq_true ((of_decide_eq_true hab).trans (of_decide_eq_true hbd))
    · intro a b
      simpa using le_total (P.lowercase a.name) (P.lowercase b.name)

/-- A session answers every call as a map would, while it is unlocked and the
statement that reads is not refused; and it refuses to add what is there and to
change or delete what is not, locked or unlocked. -/
structure ActsAsMap (P : Primitives) (call : Call) (s : Session) (c : Contents) : Prop where
  openSecret : s.Live call.started → call.sql.fault .getBlob = none → ∀ id,
    (Session.openSecret P call id s).1 =
      match c.secret id with
      | some (_, p) => .ok p
      | none => .error (.error (.vault (.notFound id)))
  metaFor : s.Live call.started → call.sql.fault .getMetaRow = none → ∀ id,
    (Session.metaFor P call id s).1 =
      match c.secret id with
      | some (m, _) => .ok m
      | none => .error (.error (.vault (.notFound id)))
  list : s.Live call.started → call.sql.fault .listRows = none →
    ∃ metas, (Session.list P call s).1 = .ok metas ∧ Lists P c metas
  add : ∀ m p, c.secret m.id ≠ none → ∃ e, (Session.add P call m p s).1 = .error e
  update : ∀ m p, c.secret m.id = none → ∃ e, (Session.update P call m p s).1 = .error e
  delete : ∀ id, c.secret id = none → ∃ e, (Session.delete P call id s).1 = .error e

theorem Refines.actsAsMap (hP : P.Lawful) (h : Refines P R innerKek outerKek (.running s) c) :
    ActsAsMap P call s c where
  openSecret hlive hfault := h.openSecret hP hlive hfault
  metaFor hlive hfault := h.metaFor hP hlive hfault
  list hlive hfault := h.list hP hlive hfault
  add := by
    intro m p hlive
    rcases Session.add_cases P call m p s with ⟨e, hadd⟩ | ⟨_, hadd⟩ | ⟨_, _, _, _, hfresh, _, _⟩
    · exact ⟨e, by rw [hadd]⟩
    · exact ⟨_, by rw [hadd]⟩
    · exact absurd ((h.rows.mem_iff hP m.id).mpr hlive) hfresh
  update := by
    intro m p hdead
    rcases Session.update_cases P call m p s with
      ⟨e, hupdate⟩ | ⟨_, hupdate⟩ | ⟨_, _, _, _, hmem, _, _⟩
    · exact ⟨e, by rw [hupdate]⟩
    · exact ⟨_, by rw [hupdate]⟩
    · exact absurd hdead ((h.rows.mem_iff hP m.id).mp hmem)
  delete := by
    intro id hdead
    rcases Session.delete_cases P call id s with ⟨e, hdelete⟩ | ⟨hmem, _⟩
    · exact ⟨e, by rw [hdelete]⟩
    · exact absurd hdead ((h.rows.mem_iff hP id).mp hmem)

/-- **The session implements a map.** After `initialize` on a fresh vault and any run
of calls and reopenings, with any mix of successes and failures, the session acts
as the map that the successful calls of the run add up to. -/
theorem session_implements_map {σ : Type} (hP : P.Lawful) (hbinds : P.aead.BindsKey)
    {outer : OuterKeyProvider σ} {inner : InnerKeyProvider} {created : Call} {timeout : ℕ}
    {t t' : σ} {v₀ : Vault} {s₀ s : Session} {actions : List Action}
    (hcreate : Session.initializeVault P created outer inner timeout (.empty, t) =
      (.ok s₀, (v₀, t')))
    (hrun : Run (Process.Step P) (.running s₀) actions (.running s))
    (hsealed : ∀ a ∈ actions, a.UnsealsOnly s₀.outerKek) (call : Call) :
    ActsAsMap P call s (Contents.after actions) := by
  obtain ⟨_, _, outerKek, keys, _, hprepare, _, rfl⟩ :=
    (Session.initializeVault_eq_ok_iff ..).mp hcreate
  have hstart : Refines P (KeyRing.Wraps P keys.innerKek) keys.innerKek outerKek
      (.running (keys.session P created outerKek .empty timeout)) .empty :=
    .of_newKeys keys timeout (.of_prepareKeys hprepare)
  have hprotects := KeyRing.Wraps.protects hP hbinds keys.innerKek
  exact (hstart.run hP hprotects hsealed (fun a _ => a.usesOnly_true) hrun).actsAsMap hP

end Refinement

/-! ### One secret, added and read -/

private def sampleMeta : SecretMeta where
  id := Block.replicate 16 1
  name := "GitHub"
  domain := "github.com"
  application := ""
  secretType := .password
  username := "octocat"
  tags := []
  createdAt := 1
  updatedAt := 1

private def samplePayload : SecretPayload where
  value := ascii "correct-horse"
  notes := none
  extra := []

/-- A secret added at instant 1 is opened at instant 2. -/
theorem session_opens_what_was_added :
    ∃ keys : NewKeys, ∃ s : Session,
      Run (Process.Step Primitives.reference)
        (.running (keys.session Primitives.reference
          (.working 0 0 (Nat.le_refl 0) (Block.replicate 16 0)) (Block.replicate keyLen 1) .empty
          10))
        [.call ⟨.working 1 1 (Nat.le_refl 1) (Block.replicate 16 2), .add sampleMeta samplePayload,
          .ok .done⟩] (.running s) ∧
      (Session.openSecret Primitives.reference
        (.working 2 2 (Nat.le_refl 2) (Block.replicate 16 3)) sampleMeta.id s).1 =
        .ok samplePayload := by
  obtain ⟨keys, _, _, hcreate⟩ := Session.exists_initializeVault_working 0 0 (Nat.le_refl 0)
    (Block.replicate 16 0) (Block.replicate keyLen 1) [1] [2] 10
  obtain ⟨s, hadd, hlive⟩ : ∃ s, Session.perform Primitives.reference
      (.working 1 1 (Nat.le_refl 1) (Block.replicate 16 2)) (.add sampleMeta samplePayload)
      (keys.session Primitives.reference (.working 0 0 (Nat.le_refl 0) (Block.replicate 16 0))
        (Block.replicate keyLen 1) .empty 10) = (.ok .done, s) ∧ s.Live 2 :=
    ⟨_, rfl, keys.innerKek, 11, rfl, rfl, by decide⟩
  have hstep : Session.Step Primitives.reference
      (keys.session Primitives.reference (.working 0 0 (Nat.le_refl 0) (Block.replicate 16 0))
        (Block.replicate keyLen 1) .empty 10)
      ⟨.working 1 1 (Nat.le_refl 1) (Block.replicate 16 2), .add sampleMeta samplePayload,
        .ok .done⟩ s := hadd
  have hrun := Run.single (Process.Step.call hstep)
  have hmap := session_implements_map Primitives.reference_lawful Primitives.reference_bindsKey
    hcreate hrun (by simp [Action.UnsealsOnly])
    (.working 2 2 (Nat.le_refl 2) (Block.replicate 16 3))
  refine ⟨keys, s, hrun, ?_⟩
  have hopen := hmap.openSecret hlive rfl sampleMeta.id
  have hsecret : (Contents.after [.call ⟨.working 1 1 (Nat.le_refl 1) (Block.replicate 16 2),
      .add sampleMeta samplePayload, .ok .done⟩]).secret sampleMeta.id =
      some (sampleMeta, samplePayload) := rfl
  rw [hsecret] at hopen
  exact hopen

end Sypherstore
