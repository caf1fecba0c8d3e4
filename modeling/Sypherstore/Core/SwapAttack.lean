/-
# Rows moved about in the database

An attacker who can write `vault.db` but holds no key can still rearrange it: copy,
delete and permute rows, and mix their columns. The envelope of a payload names the id
of its row, so a payload cannot be moved. The envelope of the metadata names a second
id that stands in the same row, so the two can be moved together.

The abstract side is the owner's history: which secret was stored in which row.
-/

import Sypherstore.Core.Enrollment

namespace Sypherstore

open Logic

variable {P : Primitives} {innerKek outerKek : Key}

/-! ## What a column of a stored row can be opened as -/

namespace StoresSecret

variable {m : SecretMeta} {p : SecretPayload} {row : StoredRow}

/-- An envelope opens only under the id it names, and to the bytes it was made from. -/
theorem openBytes_unique (hP : P.Lawful) {id id' : Uuid} {plaintext plaintext' blob : Bytes}
    (h : Sealed P id innerKek outerKek plaintext blob)
    (hopen : openBytes P id' innerKek outerKek blob = .ok plaintext') :
    id' = id ∧ plaintext' = plaintext := by
  have hsealed := (openBytes_eq_ok_iff hP.exact hP.tagged ..).mp hopen
  obtain rfl := hsealed.id_eq h
  have hself := (openBytes_eq_ok_iff hP.exact hP.tagged ..).mpr h
  exact ⟨rfl, Except.ok.inj (hopen.symm.trans hself)⟩

/-- Metadata that an envelope opens to is read from what was sealed. -/
theorem exists_wire_of_openMeta (hP : P.Lawful) {sealedId metaId id : Uuid} {cbor : Cbor}
    {blob : Bytes} {m' : SecretMeta}
    (h : Sealed P sealedId innerKek outerKek (P.cborWrite cbor) blob) (hrecord : WireRecord cbor)
    (hopen : Sypherstore.openMeta P metaId id innerKek outerKek blob = .ok m') :
    ∃ wire, MetaWire.ofCbor cbor = some wire ∧ wire.intoMeta id = m' := by
  simp only [Sypherstore.openMeta, Fallible.bind_eq_ok_iff] at hopen
  obtain ⟨plaintext, hplain, wire, hwire, hm'⟩ := hopen
  obtain ⟨_, rfl⟩ := openBytes_unique hP h hplain
  rw [readWire_cborWrite hP _ _ hrecord, Fallible.ofOption_eq_ok_iff] at hwire
  exact ⟨wire, hwire, Except.ok.inj hm'⟩

/-- So is a payload, and the envelope names its row. -/
theorem exists_wire_of_openPayload (hP : P.Lawful) {sealedId id : Uuid} {cbor : Cbor}
    {blob : Bytes} {p' : SecretPayload}
    (h : Sealed P sealedId innerKek outerKek (P.cborWrite cbor) blob) (hrecord : WireRecord cbor)
    (hopen : Sypherstore.openPayload P id innerKek outerKek blob = .ok p') :
    id = sealedId ∧ ∃ wire, PayloadWire.ofCbor cbor = some wire ∧ wire.intoPayload = p' := by
  simp only [Sypherstore.openPayload, Fallible.bind_eq_ok_iff] at hopen
  obtain ⟨plaintext, hplain, wire, hwire, hp'⟩ := hopen
  obtain ⟨hid, rfl⟩ := openBytes_unique hP h hplain
  rw [readWire_cborWrite hP _ _ hrecord, Fallible.ofOption_eq_ok_iff] at hwire
  exact ⟨hid, wire, hwire, Except.ok.inj hp'⟩

/-- A metadata blob, in whatever row it stands, opens to the metadata it was made from
with the id of that row. -/
theorem eq_of_openMeta (hP : P.Lawful) (h : StoresSecret P innerKek outerKek m p row)
    {metaId id : Uuid} {m' : SecretMeta}
    (hopen : Sypherstore.openMeta P metaId id innerKek outerKek row.metaBlob = .ok m') :
    m' = { m with id := id } := by
  obtain ⟨_, _, hmeta, _⟩ := h
  obtain ⟨wire, hwire, rfl⟩ := exists_wire_of_openMeta hP hmeta (.metadata _) hopen
  obtain rfl := Option.some.inj ((MetaWire.ofCbor_toCbor _).symm.trans hwire)
  exact MetaWire.intoMeta_fromMeta m id

theorem not_openMeta_payload (hP : P.Lawful) (h : StoresSecret P innerKek outerKek m p row)
    {metaId id : Uuid} {m' : SecretMeta} :
    Sypherstore.openMeta P metaId id innerKek outerKek row.payloadBlob ≠ .ok m' := by
  intro hopen
  obtain ⟨_, _, _, hpayload⟩ := h
  obtain ⟨wire, hwire, _⟩ := exists_wire_of_openMeta hP hpayload (.payload _) hopen
  rw [MetaWire.ofCbor_payload] at hwire
  cases hwire

/-- A payload blob opens only in a row of its own id. -/
theorem eq_of_openPayload (hP : P.Lawful) (h : StoresSecret P innerKek outerKek m p row)
    {id : Uuid} {p' : SecretPayload}
    (hopen : Sypherstore.openPayload P id innerKek outerKek row.payloadBlob = .ok p') :
    id = m.id ∧ p' = p := by
  obtain ⟨_, _, _, hpayload⟩ := h
  obtain ⟨hid, wire, hwire, rfl⟩ := exists_wire_of_openPayload hP hpayload (.payload _) hopen
  obtain rfl := Option.some.inj ((PayloadWire.ofCbor_toCbor _).symm.trans hwire)
  exact ⟨hid, rfl⟩

theorem not_openPayload_meta (hP : P.Lawful) (h : StoresSecret P innerKek outerKek m p row)
    {id : Uuid} {p' : SecretPayload} :
    Sypherstore.openPayload P id innerKek outerKek row.metaBlob ≠ .ok p' := by
  intro hopen
  obtain ⟨_, _, hmeta, _⟩ := h
  obtain ⟨_, wire, hwire, _⟩ := exists_wire_of_openPayload hP hmeta (.metadata _) hopen
  rw [PayloadWire.ofCbor_meta] at hwire
  cases hwire

end StoresSecret

/-! ## The owner's history -/

/-- A run stored this secret in this row: one of its calls is a successful `add` or
`update` of it, and the row is what stood under its id afterwards. -/
def StoredInRun (P : Primitives) (s₀ : Session) (actions : List Action) (m : SecretMeta)
    (p : SecretPayload) (row : StoredRow) : Prop :=
  ∃ before e later s s', actions = before ++ Action.call e :: later ∧
    Run (Process.Step P) (.running s₀) before (.running s) ∧ Session.Step P s e s' ∧
    (e.op = .add m p ∨ e.op = .update m p) ∧ e.succeeded ∧
    s'.vault.secrets[P.uuidText m.id]? = some row

/-- What `add` and `update` store is the secret, under the session's keys. -/
theorem storesSecret_of_effect {call : Call} {s s' : Session} {op : Op} {m : SecretMeta}
    {p : SecretPayload} {row : StoredRow} (heffect : Session.Effect P call s op true s')
    (hop : op = .add m p ∨ op = .update m p)
    (hlookup : s'.vault.secrets[P.uuidText m.id]? = some row) :
    ∃ inner, s.innerKek = some inner ∧ StoresSecret P inner s.outerKek m p row := by
  have hwritten : ∀ row', (s.written call (P.uuidText m.id) row').vault.secrets[P.uuidText m.id]? =
      some row → row' = row := by
    intro row' h
    rw [Session.written, Session.vault_touch, Std.ExtTreeMap.getElem?_insert_self] at h
    exact Option.some.inj h
  rcases hop with rfl | rfl
  · cases heffect with
    | added _ _ inner row' hlive hinner hfresh hrow =>
        obtain rfl := hwritten row' hlookup
        exact ⟨inner, hinner, hrow⟩
  · cases heffect with
    | updated _ _ inner row' hlive hinner hmem hrow =>
        obtain rfl := hwritten row' hlookup
        exact ⟨inner, hinner, hrow⟩

theorem StoredInRun.storesSecret (hP : P.Lawful) (hbinds : P.aead.BindsKey) {s₀ : Session}
    {actions : List Action} {c : Contents} {m : SecretMeta} {p : SecretPayload} {row : StoredRow}
    (hstart : Refines P (KeyRing.Wraps P innerKek) innerKek outerKek (.running s₀) c)
    (hsealed : ∀ a ∈ actions, a.UnsealsOnly outerKek) (h : StoredInRun P s₀ actions m p row) :
    StoresSecret P innerKek outerKek m p row := by
  obtain ⟨before, e, later, s, s', rfl, hbefore, hstep, hop, hok, hlookup⟩ := h
  have hrefines := hstart.run hP (KeyRing.Wraps.protects hP hbinds innerKek)
    (fun a ha => hsealed a (List.mem_append_left _ ha)) (fun a _ => a.usesOnly_true) hbefore
  have heffect := hstep.effect
  rw [hok] at heffect
  obtain ⟨inner, hinner, hstores⟩ := storesSecret_of_effect heffect hop hlookup
  rw [hrefines.outer s rfl] at hstores
  rcases hrefines.inner s rfl with hnone | hkey
  · rw [hnone] at hinner
    cases hinner
  · obtain rfl := Option.some.inj (hkey.symm.trans hinner)
    exact hstores

/-! ## What an attacker can make of it -/

/-- Every row of the vault is assembled from columns of genuine rows: its id and
metadata id from ids and metadata ids, its two blobs from blobs of either kind. -/
def AssembledFrom (P : Primitives) (G : SecretMeta → SecretPayload → StoredRow → Prop)
    (v : Vault) : Prop :=
  ∀ (text : String) (row : StoredRow), v.secrets[text]? = some row →
    (∃ m p source, G m p source ∧ (text = P.uuidText m.id ∨ text = source.metaId)) ∧
    (∃ m p source, G m p source ∧ (row.metaId = P.uuidText m.id ∨ row.metaId = source.metaId)) ∧
    (∃ m p source, G m p source ∧
      (row.metaBlob = source.metaBlob ∨ row.metaBlob = source.payloadBlob)) ∧
    (∃ m p source, G m p source ∧
      (row.payloadBlob = source.metaBlob ∨ row.payloadBlob = source.payloadBlob))

/-- A session on this vault that was opened with the sealed key and then unlocked. -/
def OpenedOn (P : Primitives) (outerKek : Key) (v : Vault) (s : Session) : Prop :=
  ∃ opening unsealed timeout reopened unlocking inner,
    Session.openLocked opening v unsealed timeout = .ok reopened ∧
    (∀ key, unsealed = .ok key → key = outerKek) ∧
    Session.unlock P unlocking inner reopened = (.ok (), s)

/-- Such a session is on this vault and holds the vault's two keys, because unlocking
verifies them. -/
theorem OpenedOn.keys (hP : P.Lawful) (hbinds : P.aead.BindsKey) {ring : KeyRing} {v : Vault}
    {s : Session} (hstored : ring.StoredIn P v) (hwraps : ring.Wraps P innerKek)
    (h : OpenedOn P outerKek v s) :
    s.vault = v ∧ s.innerKek = some innerKek ∧ s.outerKek = outerKek := by
  obtain ⟨opening, unsealed, timeout, reopened, unlocking, inner, hopen, hsealed, hunlock⟩ := h
  obtain ⟨_, _, key, hkey, rfl⟩ := (Session.openLocked_eq_ok_iff ..).mp hopen
  obtain rfl := hsealed key hkey
  rcases Session.unlock_cases P unlocking inner ⟨v, key, none, none, timeout⟩ with
    ⟨e, herror⟩ | ⟨found, hassert, hok⟩
  · rw [herror] at hunlock
    cases hunlock
  · rw [hok] at hunlock
    cases hunlock
    obtain ⟨_, hadmits⟩ := (KeyRing.assertInnerKey_eq_ok_iff hP hstored inner found).mp hassert
    have hfound := (KeyRing.Wraps.protects hP hbinds innerKek).admits ring inner key found hwraps
      trivial hadmits
    exact ⟨rfl, congrArg some hfound, rfl⟩

/-- The metadata blob in the row of an id was stored for a secret whose metadata, the id
aside, was also stored under this id. -/
def BoundTo (P : Primitives) (G : SecretMeta → SecretPayload → StoredRow → Prop) (v : Vault)
    (id : Uuid) : Prop :=
  ∃ row m₁ p₁ row₁ m₂ p₂ row₂, v.secrets[P.uuidText id]? = some row ∧
    G m₁ p₁ row₁ ∧ row₁.metaBlob = row.metaBlob ∧
    G m₂ p₂ row₂ ∧ m₂ = { m₁ with id := id }

/-! ## What the session reads from it -/

/-- Every entry of a list comes from a row. -/
theorem exists_row_of_list {call : Call} {s : Session} {inner : Key} {metas : List SecretMeta}
    {m : SecretMeta} (hinner : s.innerKek = some inner)
    (hlist : (Session.list P call s).1 = .ok metas) (hm : m ∈ metas) :
    ∃ text row, s.vault.secrets[text]? = some row ∧
      openMeta P (Vault.parseUuid P row.metaId) (Vault.parseUuid P text) inner s.outerKek
        row.metaBlob = .ok m := by
  by_cases hlive : s.Live call.started
  · rw [Session.list_of_live hlive hinner] at hlist
    simp only [Fallible.bind_eq_ok_iff, Fallible.mapError_eq_ok_iff, Vault.listRows,
      Sql.attempt_eq_ok_iff] at hlist
    obtain ⟨_, ⟨_, rfl⟩, found, hfound, hsorted⟩ := hlist
    obtain rfl := Except.ok.inj hsorted
    rw [List.mem_mergeSort] at hm
    obtain ⟨_, hrow, hopen⟩ := Fallible.exists_of_mem_mapM hfound hm
    obtain ⟨⟨text, row⟩, hentry, rfl⟩ := List.mem_map.mp hrow
    have hmem := (call.sql.scan_perm s.vault.secrets.toList).mem_iff.mp hentry
    exact ⟨text, row, Std.ExtTreeMap.mem_toList_iff_getElem?_eq_some.mp hmem, hopen⟩
  · rw [Session.list_of_not_live hlive] at hlist
    cases hlist

/-- What is opened comes from the row of its id. -/
theorem exists_row_of_openSecret {call : Call} {s : Session} {inner : Key} {id : Uuid}
    {p : SecretPayload} (hinner : s.innerKek = some inner)
    (hopened : (Session.openSecret P call id s).1 = .ok p) :
    ∃ row, s.vault.secrets[P.uuidText id]? = some row ∧
      openPayload P id inner s.outerKek row.payloadBlob = .ok p := by
  by_cases hlive : s.Live call.started
  · rw [Session.openSecret_of_live hlive hinner] at hopened
    split at hopened
    · rename_i payload hread
      obtain rfl := Except.ok.inj hopened
      simp only [Fallible.bind_eq_ok_iff, Fallible.mapError_eq_ok_iff, Vault.getBlob,
        Sql.attempt_eq_ok_iff, Fallible.ofOption_eq_ok_iff] at hread
      obtain ⟨blob, ⟨_, ⟨_, rfl⟩, hblob⟩, hopen⟩ := hread
      obtain ⟨row, hlookup, rfl⟩ := Option.map_eq_some_iff.mp hblob
      exact ⟨row, hlookup, hopen⟩
    · cases hopened
  · obtain ⟨e, he, _⟩ := Session.openSecret_of_not_live (P := P) hlive id
    rw [he] at hopened
    cases hopened

/-! ## Which rows keep a name with its value -/

section Assembled

variable {G : SecretMeta → SecretPayload → StoredRow → Prop} {v : Vault}

/-- In an assembled vault the row that is read under an id is the row of that id. -/
theorem AssembledFrom.text_eq (hP : P.Lawful)
    (hG : ∀ m p row, G m p row → StoresSecret P innerKek outerKek m p row)
    (h : AssembledFrom P G v) {text : String} {row : StoredRow}
    (hlookup : v.secrets[text]? = some row) :
    text = P.uuidText (Vault.parseUuid P text) := by
  obtain ⟨⟨m, p, source, hsource, hid | hid⟩, _⟩ := h text row hlookup
  · rw [hid, parseUuid_uuidText hP]
  · obtain ⟨metaId, hmetaId, _⟩ := hG m p source hsource
    rw [hid, hmetaId, parseUuid_uuidText hP]

/-- The metadata that is read from a row was made by the owner, for some id. -/
theorem AssembledFrom.exists_of_openMeta (hP : P.Lawful)
    (hG : ∀ m p row, G m p row → StoresSecret P innerKek outerKek m p row)
    (h : AssembledFrom P G v) {text : String} {row : StoredRow}
    (hlookup : v.secrets[text]? = some row) {metaId id : Uuid} {m : SecretMeta}
    (hopen : openMeta P metaId id innerKek outerKek row.metaBlob = .ok m) :
    ∃ m₁ p₁ row₁, G m₁ p₁ row₁ ∧ row₁.metaBlob = row.metaBlob ∧ m = { m₁ with id := id } := by
  obtain ⟨_, _, ⟨m₁, p₁, row₁, hsource, hblob | hblob⟩, _⟩ := h text row hlookup
  · rw [hblob] at hopen
    exact ⟨m₁, p₁, row₁, hsource, hblob.symm, (hG _ _ _ hsource).eq_of_openMeta hP hopen⟩
  · rw [hblob] at hopen
    exact absurd hopen ((hG _ _ _ hsource).not_openMeta_payload hP)

/-- The payload that is read from a row was stored by the owner under the row's id. -/
theorem AssembledFrom.exists_of_openPayload (hP : P.Lawful)
    (hG : ∀ m p row, G m p row → StoresSecret P innerKek outerKek m p row)
    (h : AssembledFrom P G v) {text : String} {row : StoredRow}
    (hlookup : v.secrets[text]? = some row) {id : Uuid} {p : SecretPayload}
    (hopen : openPayload P id innerKek outerKek row.payloadBlob = .ok p) :
    ∃ m' row', G m' p row' ∧ m'.id = id := by
  obtain ⟨_, _, _, m', p', row', hsource, hblob | hblob⟩ := h text row hlookup
  · rw [hblob] at hopen
    exact absurd hopen ((hG _ _ _ hsource).not_openPayload_meta hP)
  · rw [hblob] at hopen
    obtain ⟨rfl, rfl⟩ := (hG _ _ _ hsource).eq_of_openPayload hP hopen
    exact ⟨m', row', hsource, rfl⟩

end Assembled

/-- **Which names stay with their values.** A session lists metadata under an id and
opens a payload under it, on a vault assembled from the rows of a run. Both were stored
under that id by the owner exactly when the metadata blob in its row is bound to it,
which nothing in the envelope sees to. -/
theorem listed_with_opened_iff {σ : Type} (hP : P.Lawful) (hbinds : P.aead.BindsKey)
    {outer : OuterKeyProvider σ} {inner : InnerKeyProvider} {created : Call} {timeout : ℕ}
    {t t' : σ} {v₀ v : Vault} {s₀ s : Session} {actions : List Action} {process : Process}
    (hcreate : Session.initializeVault P created outer inner timeout (.empty, t) =
      (.ok s₀, (v₀, t')))
    (hrun : Run (Process.Step P) (.running s₀) actions process)
    (hsealed : ∀ a ∈ actions, a.UnsealsOnly s₀.outerKek)
    (hmeta : v.metaTable = process.vault.metaTable)
    (hassembled : AssembledFrom P (StoredInRun P s₀ actions) v)
    (hopened : OpenedOn P s₀.outerKek v s) {listing opening : Call} {metas : List SecretMeta}
    {m : SecretMeta} {p : SecretPayload} (hlist : (Session.list P listing s).1 = .ok metas)
    (hm : m ∈ metas) (hopen : (Session.openSecret P opening m.id s).1 = .ok p) :
    ((∃ p' row, StoredInRun P s₀ actions m p' row) ∧
      ∃ m' row, StoredInRun P s₀ actions m' p row ∧ m'.id = m.id) ↔
    BoundTo P (StoredInRun P s₀ actions) v m.id := by
  obtain ⟨_, _, outerKek, keys, _, hprepare, _, rfl⟩ :=
    (Session.initializeVault_eq_ok_iff ..).mp hcreate
  have hstart : Refines P (KeyRing.Wraps P keys.innerKek) keys.innerKek outerKek
      (.running (keys.session P created outerKek .empty timeout)) .empty :=
    .of_newKeys keys timeout (.of_prepareKeys hprepare)
  have hG := fun m p row (h : StoredInRun P _ actions m p row) =>
    h.storesSecret hP hbinds hstart hsealed
  have hend := hstart.run hP (KeyRing.Wraps.protects hP hbinds keys.innerKek) hsealed
    (fun a _ => a.usesOnly_true) hrun
  obtain ⟨ring, hstored, hwraps⟩ := hend.ring
  obtain ⟨rfl, hinner, houter⟩ := hopened.keys hP hbinds (hstored.congr hmeta) hwraps
  obtain ⟨text, row, hlookup, hmetaOpen⟩ := exists_row_of_list hinner hlist hm
  rw [houter] at hmetaOpen
  obtain ⟨m₁, p₁, row₁, hfirst, hblob, hm₁⟩ :=
    hassembled.exists_of_openMeta hP hG hlookup hmetaOpen
  have htext : text = P.uuidText m.id := by
    rw [hm₁]
    exact hassembled.text_eq hP hG hlookup
  rw [htext] at hlookup
  obtain ⟨row', hlookup', hpayloadOpen⟩ := exists_row_of_openSecret hinner hopen
  rw [houter] at hpayloadOpen
  have hpayload := hassembled.exists_of_openPayload hP hG hlookup' hpayloadOpen
  constructor
  · rintro ⟨⟨p₂, row₂, hsecond⟩, _⟩
    refine ⟨row, m₁, p₁, row₁, m, p₂, row₂, hlookup, hfirst, hblob, hsecond, ?_⟩
    rw [hm₁]
  · rintro ⟨row', m₁', p₁', row₁', m₂, p₂, row₂, hlookup', hfirst', hblob', hsecond, hm₂⟩
    obtain rfl := Option.some.inj (hlookup.symm.trans hlookup')
    rw [← hblob'] at hmetaOpen
    have hsame := (hG _ _ _ hfirst').eq_of_openMeta hP hmetaOpen
    have hm : m = m₂ := by
      rw [hm₂, hsame]
    rw [hm] at hpayload ⊢
    exact ⟨⟨p₂, row₂, hsecond⟩, hpayload⟩

/-! ## Metadata moved to another row -/

private def bankMeta : SecretMeta where
  id := Block.replicate 16 1
  name := "Bank"
  domain := ""
  application := ""
  secretType := .password
  username := ""
  tags := []
  createdAt := 1
  updatedAt := 1

private def forumMeta : SecretMeta := { bankMeta with id := Block.replicate 16 2, name := "Forum" }

private def bankPayload : SecretPayload where
  value := ascii "bank-password"
  notes := none
  extra := []

private def forumPayload : SecretPayload := { bankPayload with value := ascii "forum-password" }

private def callAt (now : Instant) (uuid : Uuid) : Call := .working now now (Nat.le_refl now) uuid

private def storeBank : Event where
  call := callAt 1 (Block.replicate 16 3)
  op := .add bankMeta bankPayload
  result := .ok .done

private def storeForum : Event where
  call := callAt 2 (Block.replicate 16 4)
  op := .add forumMeta forumPayload
  result := .ok .done

/-- Two secrets are stored, each in its row. -/
private theorem exists_two_stored (keys : NewKeys) :
    ∃ (s₁ s₂ : Session) (bank forum : StoredRow),
      Session.Step Primitives.reference (keys.session Primitives.reference
        (callAt 0 (Block.replicate 16 0)) (Block.replicate keyLen 1) .empty 10) storeBank s₁ ∧
      Session.Step Primitives.reference s₁ storeForum s₂ ∧
      s₁.vault.secrets[Primitives.reference.uuidText bankMeta.id]? = some bank ∧
      s₂.vault.secrets[Primitives.reference.uuidText forumMeta.id]? = some forum ∧
      s₂.vault.metaTable = (keys.vault Primitives.reference .empty).metaTable :=
  ⟨_, _, _, _, rfl, rfl, rfl, rfl, rfl⟩

/-- The attacker's vault: the row of the second secret with the metadata columns of another
row. -/
private def movedVault (v : Vault) (source forum : StoredRow) : Vault where
  metaTable := v.metaTable
  secrets := (∅ : Table StoredRow).insert
    (Primitives.reference.uuidText forumMeta.id)
    ⟨source.metaId, source.metaBlob, forum.payloadBlob⟩

private theorem assembledFrom_movedVault {G : SecretMeta → SecretPayload → StoredRow → Prop}
    {v : Vault} {m : SecretMeta} {p : SecretPayload} {source forum : StoredRow}
    (hsource : G m p source) (hforum : G forumMeta forumPayload forum) :
    AssembledFrom Primitives.reference G (movedVault v source forum) := by
  intro text row hlookup
  have htext : text = Primitives.reference.uuidText forumMeta.id := by
    by_contra hne
    rw [movedVault, Table.getElem?_insert_of_ne hne] at hlookup
    cases hlookup
  subst htext
  rw [movedVault, Std.ExtTreeMap.getElem?_insert_self] at hlookup
  obtain rfl := Option.some.inj hlookup
  exact ⟨⟨_, _, _, hforum, .inl rfl⟩, ⟨_, _, _, hsource, .inr rfl⟩, ⟨_, _, _, hsource, .inl rfl⟩,
    _, _, _, hforum, .inr rfl⟩

/-- The holder of the one token there is. -/
private def holder : Authenticators Unit where
  issuer id := if id = [1] then some () else none
  secret id _ := id

/-- A vault with the keys that `initialize` stored is opened and unlocked with the
primary token. -/
private theorem exists_openedOn {created : Call} {fresh : Key} {keys : NewKeys} {v : Vault}
    (hprepare : Session.prepareKeys Primitives.reference created (.token [1] [1]) fresh = .ok keys)
    (hmeta : v.metaTable = (keys.vault Primitives.reference .empty).metaTable) :
    OpenedOn Primitives.reference fresh v ⟨v, fresh, some keys.innerKek, some 13, 10⟩ := by
  have hstored : (KeyRing.ofNewKeys keys).StoredIn Primitives.reference v :=
    (KeyRing.StoredIn.of_newKeys keys .empty).congr hmeta
  have hstands : holder.Stands () (.token [1] [1]) := .token rfl fun _ => rfl
  have hresponds : holder.Responds () (.token [1] [1]) := by
    apply Authenticators.Responds.token
    intro id hissuer
    by_contra hid
    simp [holder, hid] at hissuer
  have hvouch := Authenticators.Vouch.of_prepareKeys hstands hprepare
  obtain ⟨_, _, _, hprovision⟩ := KeyRing.wrapped_of_prepareKeys hprepare
  have hid : keys.primary.credentialId = [1] := (Except.ok.inj hprovision).symm
  have hadmits := hvouch.admits hstands hresponds
    ⟨keys.primary.credentialId, List.mem_singleton_self _, by rw [hid]; rfl⟩
  have hopen : Session.openLocked (callAt 3 (Block.replicate 16 0)) v (.ok fresh) 10 = .ok _ :=
    hstored.openLocked fresh rfl 10
  have hunlock : Session.unlock Primitives.reference (callAt 3 (Block.replicate 16 0))
      (.token [1] [1]) ⟨v, fresh, none, none, 10⟩ = (.ok (), _) :=
    KeyRing.unlock_of_admits _ Primitives.reference_lawful _ hstored (fun _ _ => rfl) hadmits
  exact ⟨_, _, _, _, _, _, hopen, fun key hkey => (Except.ok.inj hkey).symm, hunlock⟩

/-- The list shows what is in the metadata columns under the second secret's id. -/
private theorem list_movedVault {v : Vault} {source forum : StoredRow} {innerKek outerKek : Key}
    {m : SecretMeta} {p : SecretPayload}
    (hsource : StoresSecret Primitives.reference innerKek outerKek m p source) :
    (Session.list Primitives.reference (callAt 4 (Block.replicate 16 0))
      ⟨movedVault v source forum, outerKek, some innerKek, some 13, 10⟩).1 =
      .ok [{ m with id := forumMeta.id }] := by
  rw [Session.list_of_live ⟨innerKek, 13, rfl, rfl, by decide⟩ rfl]
  have hrows : (movedVault v source forum).listRows Primitives.reference
      (callAt 4 (Block.replicate 16 0)).sql =
      .ok [⟨forumMeta.id, Vault.parseUuid Primitives.reference source.metaId,
        source.metaBlob⟩] := by
    simp [Vault.listRows, Sql.attempt, callAt, Call.working, Sql.reliable, movedVault,
      Vault.readRow, Table.toList_insert_empty, parseUuid_uuidText Primitives.reference_lawful]
  have hopen := hsource.openMeta_at Primitives.reference_lawful forumMeta.id
  simp only [hrows, Fallible.mapError_ok, Fallible.ok_bind, List.mapM_cons, List.mapM_nil, hopen]
  simp [pure, Except.pure]

/-- Opening that id gives the second secret's value. -/
private theorem openSecret_movedVault {v : Vault} {source forum : StoredRow}
    {innerKek outerKek : Key}
    (hforum : StoresSecret Primitives.reference innerKek outerKek forumMeta forumPayload forum) :
    (Session.openSecret Primitives.reference (callAt 4 (Block.replicate 16 0)) forumMeta.id
      ⟨movedVault v source forum, outerKek, some innerKek, some 13, 10⟩).1 = .ok forumPayload := by
  have hlookup : (movedVault v source forum).secrets[Primitives.reference.uuidText forumMeta.id]? =
      some ⟨source.metaId, source.metaBlob, forum.payloadBlob⟩ :=
    Std.ExtTreeMap.getElem?_insert_self
  have hblob : (movedVault v source forum).getBlob Primitives.reference
      (callAt 4 (Block.replicate 16 0)).sql forumMeta.id = .ok forum.payloadBlob := by
    rw [Vault.getBlob_of_lookup rfl hlookup]
  have hopen := hforum.openPayload Primitives.reference_lawful
  rw [Session.openSecret_of_live ⟨innerKek, 13, rfl, rfl, by decide⟩ rfl]
  simp only [hblob, Fallible.mapError_ok, Fallible.ok_bind, hopen]

/-- The owner never stored the first name under the second id. -/
private theorem not_stored_moved {s₀ : Session} {p : SecretPayload} {row : StoredRow} :
    ¬ StoredInRun Primitives.reference s₀ [.call storeBank, .call storeForum]
      { bankMeta with id := forumMeta.id } p row := by
  rintro ⟨before, e, later, _, _, hactions, _, _, hop, _, _⟩
  have he : Action.call e ∈ [Action.call storeBank, .call storeForum] := by
    rw [hactions]
    simp
  have hmeta : { bankMeta with id := forumMeta.id } = bankMeta ∨
      { bankMeta with id := forumMeta.id } = forumMeta := by
    rcases List.mem_pair.mp he with hbank | hforum
    · obtain rfl := Action.call.inj hbank
      rcases hop with hadd | hupdate
      · exact .inl (Op.add.inj hadd).1.symm
      · cases hupdate
    · obtain rfl := Action.call.inj hforum
      rcases hop with hadd | hupdate
      · exact .inr (Op.add.inj hadd).1.symm
      · cases hupdate
  revert hmeta
  decide

/-- What a session shows of a vault that was assembled from the two rows, with everything a
reader of the vault could check. -/
private structure Shows (s₀ : Session) (process : Process) (v : Vault) (s : Session)
    (m : SecretMeta) : Prop where
  metaTable : v.metaTable = process.vault.metaTable
  assembled : AssembledFrom Primitives.reference
    (StoredInRun Primitives.reference s₀ [.call storeBank, .call storeForum]) v
  opened : OpenedOn Primitives.reference s₀.outerKek v s
  listed : (Session.list Primitives.reference (callAt 4 (Block.replicate 16 0)) s).1 = .ok [m]
  opens : (Session.openSecret Primitives.reference (callAt 4 (Block.replicate 16 0))
    forumMeta.id s).1 = .ok forumPayload

/-- The second row as it is, and with the metadata columns of the first. -/
private theorem exists_moved_metadata : ∃ (s₀ s s' : Session) (v₀ own moved : Vault)
    (process : Process),
    Session.initializeVault Primitives.reference (callAt 0 (Block.replicate 16 0))
      (.machine (Block.replicate keyLen 1)) (.token [1] [1]) 10 (.empty, none) =
      (.ok s₀, (v₀, some (Block.replicate keyLen 1))) ∧
    Run (Process.Step Primitives.reference) (.running s₀) [.call storeBank, .call storeForum]
      process ∧
    (∃ row, StoredInRun Primitives.reference s₀ [.call storeBank, .call storeForum] forumMeta
      forumPayload row) ∧
    Shows s₀ process own s forumMeta ∧
    Shows s₀ process moved s' { bankMeta with id := forumMeta.id } := by
  obtain ⟨keys, _, hprepare, hcreate⟩ := Session.exists_initializeVault_working 0 0 (Nat.le_refl 0)
    (Block.replicate 16 0) (Block.replicate keyLen 1) [1] [1] 10
  obtain ⟨s₁, s₂, bank, forum, hfirst, hsecond, hbankRow, hforumRow, hmeta⟩ :=
    exists_two_stored keys
  have hrun := (Run.single (Process.Step.call hfirst)).append (.single (.call hsecond))
  have hbank : StoredInRun Primitives.reference _ [.call storeBank, .call storeForum] bankMeta
      bankPayload bank :=
    ⟨[], storeBank, [.call storeForum], _, s₁, rfl, .nil _, hfirst, .inl rfl, rfl, hbankRow⟩
  have hforum : StoredInRun Primitives.reference _ [.call storeBank, .call storeForum] forumMeta
      forumPayload forum :=
    ⟨[.call storeBank], storeForum, [], s₁, s₂, rfl, .single (.call hfirst), hsecond, .inl rfl,
      rfl, hforumRow⟩
  have hstart : Refines Primitives.reference (KeyRing.Wraps Primitives.reference keys.innerKek)
      keys.innerKek (Block.replicate keyLen 1) (.running (keys.session Primitives.reference
        (callAt 0 (Block.replicate 16 0)) (Block.replicate keyLen 1) .empty 10)) .empty :=
    .of_newKeys keys 10 (.of_prepareKeys hprepare)
  have hsealed : ∀ a ∈ [Action.call storeBank, .call storeForum],
      a.UnsealsOnly (Block.replicate keyLen 1) := by
    simp [Action.UnsealsOnly]
  have hstores := fun m p row (h : StoredInRun Primitives.reference _ _ m p row) =>
    h.storesSecret Primitives.reference_lawful Primitives.reference_bindsKey hstart hsealed
  have hshows : ∀ m p source, StoredInRun Primitives.reference _ _ m p source →
      Shows _ (.running s₂) (movedVault s₂.vault source forum) _ { m with id := forumMeta.id } :=
    fun m p source hsource =>
      { metaTable := rfl
        assembled := assembledFrom_movedVault hsource hforum
        opened := exists_openedOn hprepare hmeta
        listed := list_movedVault (hstores _ _ _ hsource)
        opens := openSecret_movedVault (hstores _ _ _ hforum) }
  exact ⟨_, _, _, _, _, _, _, hcreate, hrun, ⟨forum, hforum⟩, hshows _ _ _ hforum,
    hshows _ _ _ hbank⟩

/-- **A name is paired with another secret's value.** Two secrets are stored; the
metadata columns of the first are moved to the row of the second; a reopened and
unlocked session lists the first name under the second id, where the second value is
opened. -/
theorem moved_metadata_is_listed : ∃ (s₀ s : Session) (v₀ v : Vault) (process : Process)
    (actions : List Action) (m : SecretMeta) (p : SecretPayload),
    Session.initializeVault Primitives.reference (callAt 0 (Block.replicate 16 0))
      (.machine (Block.replicate keyLen 1)) (.token [1] [1]) 10 (.empty, none) =
      (.ok s₀, (v₀, some (Block.replicate keyLen 1))) ∧
    Run (Process.Step Primitives.reference) (.running s₀) actions process ∧
    v.metaTable = process.vault.metaTable ∧
    AssembledFrom Primitives.reference (StoredInRun Primitives.reference s₀ actions) v ∧
    OpenedOn Primitives.reference s₀.outerKek v s ∧
    (Session.list Primitives.reference (callAt 4 (Block.replicate 16 0)) s).1 = .ok [m] ∧
    (Session.openSecret Primitives.reference (callAt 4 (Block.replicate 16 0)) m.id s).1 = .ok p ∧
    ¬ ∃ p' row, StoredInRun Primitives.reference s₀ actions m p' row := by
  obtain ⟨s₀, _, s, v₀, _, v, process, hcreate, hrun, _, _, hmoved⟩ := exists_moved_metadata
  exact ⟨s₀, s, v₀, v, process, _, _, _, hcreate, hrun, hmoved.metaTable, hmoved.assembled,
    hmoved.opened, hmoved.listed, hmoved.opens, fun ⟨_, _, hstored⟩ => not_stored_moved hstored⟩

/-- The metadata of the second secret is bound to its id, and what was moved there is not. -/
theorem metadata_is_bound_until_moved : ∃ (s₀ : Session) (own moved : Vault),
    AssembledFrom Primitives.reference
      (StoredInRun Primitives.reference s₀ [.call storeBank, .call storeForum]) own ∧
    BoundTo Primitives.reference
      (StoredInRun Primitives.reference s₀ [.call storeBank, .call storeForum]) own forumMeta.id ∧
    AssembledFrom Primitives.reference
      (StoredInRun Primitives.reference s₀ [.call storeBank, .call storeForum]) moved ∧
    ¬ BoundTo Primitives.reference
      (StoredInRun Primitives.reference s₀ [.call storeBank, .call storeForum]) moved
        forumMeta.id := by
  obtain ⟨s₀, s, s', v₀, own, moved, process, hcreate, hrun, ⟨row, hforum⟩, hown, hmoved⟩ :=
    exists_moved_metadata
  have hiff := fun v s m (h : Shows s₀ process v s m) (hid : m.id = forumMeta.id) =>
    listed_with_opened_iff Primitives.reference_lawful Primitives.reference_bindsKey hcreate hrun
      (by simp [Action.UnsealsOnly]) h.metaTable h.assembled h.opened h.listed
      (List.mem_singleton_self _) (hid ▸ h.opens)
  refine ⟨s₀, own, moved, hown.assembled, ?_, hmoved.assembled, fun hbound => ?_⟩
  · exact (hiff own s forumMeta hown rfl).mp ⟨⟨_, row, hforum⟩, forumMeta, row, hforum, rfl⟩
  · obtain ⟨⟨_, _, hstored⟩, _⟩ := (hiff moved s' _ hmoved rfl).mpr hbound
    exact not_stored_moved hstored

end Sypherstore
