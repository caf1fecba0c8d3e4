/-
# One damaged row

What is left of a vault when one row of `secrets` was damaged. Opening a secret and deleting one
touch their own row only. The list goes through every row and gives up at the first that it
cannot open, and `sypherstore delete` starts with the list (`cmd_delete` in `commands.rs`), so
they are lost with the metadata of the one row. An id that cannot be read is made up for with
the nil UUID, metadata that cannot be opened is not.
-/

import Sypherstore.App.Commands
import Sypherstore.App.Targets
import Sypherstore.Core.RawRows

namespace Sypherstore

open Logic

/-! ## Deleting on the command line -/

/-- One run of `sypherstore delete`, once the vault is unlocked. -/
structure DeleteRun where
  force : Bool
  /-- The answer to "Delete {:?} ({})? This cannot be undone. [y/N] ". -/
  answer : Except IoError String
  /-- `VACUUM`, after the row is gone. -/
  vacuum : Except VaultError Unit

inductive DeleteError where
  | listing (e : SessionError)
  | resolving (e : TargetError)
  | readingAnswer (e : IoError)
  /-- "deleting the secret" -/
  | deleting (e : SessionError)
  /-- "compacting the vault" -/
  | compacting (e : VaultError)

/-- How it ends when it does not fail. -/
inductive DeleteReport where
  | cancelled
  /-- "Deleted {:?}" -/
  | deleted (name : String)
  deriving DecidableEq

namespace DeleteRun

/-- Ask the user whether to go on, unless told not to. -/
def confirmed (run : DeleteRun) : Fallible DeleteError Bool :=
  if run.force then .ok true
  else do
    let answer ← (Fallible.ofExcept run.answer).mapError .readingAnswer
    return (trim answer).toLower ∈ ["y", "yes"]

/-- The user goes on and the database can be compacted. -/
structure GoesOn (run : DeleteRun) : Prop where
  confirmed : run.confirmed = .ok true
  vacuum : run.vacuum = .ok ()

end DeleteRun

section Delete

variable (P : Primitives) (inner outer : Key)

/-- `cmd_delete`, in the session that it has unlocked. -/
def cmdDelete (run : DeleteRun) (target : String) :
    Stateful RawTable DeleteError DeleteReport := do
  let rows ← Stateful.read
  let secrets ← Stateful.lift ((RawTable.list P inner outer rows).mapError .listing)
  let target ←
    Stateful.lift ((Fallible.ofExcept (resolveTarget P secrets target)).mapError .resolving)
  if !(← Stateful.lift run.confirmed) then return .cancelled
  else
    ((RawTable.delete P target.id).mapError SessionError.vault).mapError DeleteError.deleting
    Stateful.lift ((Fallible.ofExcept run.vacuum).mapError .compacting)
    return .deleted target.name

/-! ## What should be left -/

/-- The row holds this secret, as the program wrote it. -/
def RawRow.Holds (m : SecretMeta) (p : SecretPayload) (row : RawRow) : Prop :=
  ∃ stored, StoresSecret P inner outer m p stored ∧
    row = RawRow.ofStored ⟨P.uuidText m.id, stored⟩

/-- The text is the id of a secret, in any spelling. -/
def IsFullId (id : Uuid) (target : String) : Prop :=
  trim target ≠ "" ∧ P.uuidParse (trim target) = some id

/-- The secrets in the other rows are listed and opened, and can be deleted by their ids. So can
the secret in the damaged row, if its id is what it was. -/
structure Survives (others : List RawRow) (damaged : RawRow) (table : RawTable) : Prop where
  listed : ∃ metas, RawTable.list P inner outer table = .ok metas ∧
    ∀ row ∈ others, ∀ m p, row.Holds P inner outer m p → m ∈ metas
  opened : ∀ row ∈ others, ∀ m p, row.Holds P inner outer m p →
    RawTable.openSecret P inner outer m.id table = .ok p
  deleted : ∀ row ∈ others, ∀ m p, row.Holds P inner outer m p →
    ∀ run target, run.GoesOn → IsFullId P m.id target →
      ∃ name, cmdDelete P inner outer run target table =
        (.ok (.deleted name), table.filter (·.id ≠ row.id))
  damagedDeleted : ∀ id, damaged.id = .text (P.uuidText id) →
    ∀ run target, run.GoesOn → IsFullId P id target →
      ∃ name, cmdDelete P inner outer run target table = (.ok (.deleted name), others)

/-- The metadata of the row can still be read: its columns have their types, and the blob opens
under the metadata id. -/
def RawRow.Legible (row : RawRow) : Prop :=
  ∃ found m, row.read P = .ok found ∧
    openMeta P found.metaId found.id inner outer found.metaBlob = .ok m

end Delete

variable {P : Primitives} {inner outer : Key} {m : SecretMeta} {p : SecretPayload} {row : RawRow}
  {table : RawTable} {metas : List SecretMeta} {id : Uuid} {target : String} {run : DeleteRun}

/-! ## Listing -/

theorem RawRow.Holds.read (hP : P.Lawful) (h : row.Holds P inner outer m p) :
    ∃ found, row.read P = .ok found ∧
      openMeta P found.metaId found.id inner outer found.metaBlob = .ok m := by
  obtain ⟨stored, hstores, rfl⟩ := h
  refine ⟨_, RawTable.read_ofStored P _, ?_⟩
  have hid : (Vault.readRow P ⟨P.uuidText m.id, stored⟩).id = m.id := parseUuid_uuidText hP m.id
  rw [hid]
  exact hstores.openMeta hP

theorem RawRow.Holds.legible (hP : P.Lawful) (h : row.Holds P inner outer m p) :
    row.Legible P inner outer := by
  obtain ⟨found, hread, hopen⟩ := h.read hP
  exact ⟨found, m, hread, hopen⟩

theorem RawRow.Holds.id_eq (h : row.Holds P inner outer m p) :
    row.id = .text (P.uuidText m.id) := by
  obtain ⟨stored, _, rfl⟩ := h
  rfl

/-- Metadata is listed under the id of its row. -/
theorem id_of_openMeta {metaId : Uuid} {blob : Bytes}
    (h : openMeta P metaId id inner outer blob = .ok m) : m.id = id := by
  obtain ⟨_, _, hrest⟩ := (Fallible.bind_eq_ok_iff _ _ _).mp h
  obtain ⟨wire, _, hm⟩ := (Fallible.bind_eq_ok_iff _ _ _).mp hrest
  rw [← Except.ok.inj hm]
  rfl

/-- A row whose id the program wrote is read under it. -/
theorem id_of_read (hP : P.Lawful) {found : SecretRow} (hread : row.read P = .ok found)
    (hid : row.id = .text (P.uuidText id)) : found.id = id := by
  obtain ⟨text, htext, hrest⟩ := (Fallible.bind_eq_ok_iff _ _ _).mp hread
  obtain ⟨_, _, hrest⟩ := (Fallible.bind_eq_ok_iff _ _ _).mp hrest
  obtain ⟨_, _, hfound⟩ := (Fallible.bind_eq_ok_iff _ _ _).mp hrest
  rw [hid] at htext
  rw [← Except.ok.inj hfound, ← Except.ok.inj htext]
  exact parseUuid_uuidText hP id

/-- An empty blob is no metadata. -/
theorem not_legible_of_empty (h : row.metaBlob = .blob []) : ¬ row.Legible P inner outer := by
  rintro ⟨found, m, hread, hopen⟩
  obtain ⟨_, _, hrest⟩ := (Fallible.bind_eq_ok_iff _ _ _).mp hread
  obtain ⟨_, _, hrest⟩ := (Fallible.bind_eq_ok_iff _ _ _).mp hrest
  obtain ⟨blob, hblob, hfound⟩ := (Fallible.bind_eq_ok_iff _ _ _).mp hrest
  rw [h] at hblob
  obtain rfl := Except.ok.inj hblob
  obtain rfl := Except.ok.inj hfound
  have htruncated : ∀ metaId id,
      openMeta P metaId id inner outer [] = .error (.error (.truncated 0)) := fun _ _ => rfl
  rw [htruncated] at hopen
  cases hopen

/-- **The list is there exactly when every row is legible.** -/
theorem exists_list_iff (P : Primitives) (inner outer : Key) (table : RawTable) :
    (∃ metas, RawTable.list P inner outer table = .ok metas) ↔
      ∀ row ∈ table, row.Legible P inner outer := by
  constructor
  · rintro ⟨metas, hlist⟩ row hrow
    obtain ⟨rows, opened, hrows, hopened, _⟩ := (RawTable.list_eq_ok_iff ..).mp hlist
    obtain ⟨found, hfound, hread⟩ := Fallible.exists_mem_of_mapM hrows hrow
    obtain ⟨m, _, hm⟩ := Fallible.exists_mem_of_mapM hopened hfound
    exact ⟨found, m, hread, hm⟩
  · intro hlegible
    have hread : ∀ row ∈ table, ∃ found, row.read P = .ok found := by
      intro row hrow
      obtain ⟨found, _, hfound, _⟩ := hlegible row hrow
      exact ⟨found, hfound⟩
    obtain ⟨rows, hrows⟩ := Fallible.exists_mapM_eq_ok hread
    have hopen : ∀ found ∈ rows, ∃ m,
        openMeta P found.metaId found.id inner outer found.metaBlob = .ok m := by
      intro found hfound
      obtain ⟨row, hrow, hread⟩ := Fallible.exists_of_mem_mapM hrows hfound
      obtain ⟨found', m, hread', hm⟩ := hlegible row hrow
      obtain rfl : found = found' := Except.ok.inj (hread.symm.trans hread')
      exact ⟨m, hm⟩
    obtain ⟨opened, hopened⟩ := Fallible.exists_mapM_eq_ok hopen
    exact ⟨_, (RawTable.list_eq_ok_iff ..).mpr ⟨rows, opened, hrows, hopened, rfl⟩⟩

/-- What a legible row opens to is in the list. -/
theorem mem_list (hlist : RawTable.list P inner outer table = .ok metas) (hrow : row ∈ table)
    {found : SecretRow} (hread : row.read P = .ok found)
    (hm : openMeta P found.metaId found.id inner outer found.metaBlob = .ok m) : m ∈ metas := by
  obtain ⟨rows, opened, hrows, hopened, rfl⟩ := (RawTable.list_eq_ok_iff ..).mp hlist
  obtain ⟨found', hfound, hread'⟩ := Fallible.exists_mem_of_mapM hrows hrow
  obtain rfl : found = found' := Except.ok.inj (hread.symm.trans hread')
  obtain ⟨m', hmem, hm'⟩ := Fallible.exists_mem_of_mapM hopened hfound
  obtain rfl : m = m' := Except.ok.inj (hm.symm.trans hm')
  exact List.mem_mergeSort.mpr hmem

/-! ## Opening and deleting -/

theorem openSecret_of_holds (hP : P.Lawful) (hids : (table.map RawRow.id).Nodup)
    (hrow : row ∈ table) (h : row.Holds P inner outer m p) :
    RawTable.openSecret P inner outer m.id table = .ok p := by
  obtain ⟨stored, hstores, rfl⟩ := h
  have hfind : table.find? (RawTable.hasId P m.id) =
      some (RawRow.ofStored ⟨P.uuidText m.id, stored⟩) :=
    (find_key_eq_some_iff hids).mpr ⟨hrow, rfl⟩
  rw [RawTable.openSecret, RawTable.getBlob, hfind]
  exact congrArg (Fallible.mapError SessionError.envelope) (hstores.openPayload hP)

/-- **Deleting needs the id of a row and nothing else of it.** -/
theorem delete_of_id (hrow : row ∈ table) (hid : row.id = .text (P.uuidText id)) :
    RawTable.delete P id table = (.ok (), table.filter (·.id ≠ row.id)) := by
  have hany : table.any (RawTable.hasId P id) = true :=
    List.any_eq_true.mpr ⟨row, hrow, decide_eq_true hid⟩
  have hkeep : table.filter (!RawTable.hasId P id ·) = table.filter (·.id ≠ row.id) := by
    congr 1
    funext other
    simp [RawTable.hasId, hid]
  simp only [RawTable.delete, Stateful.bind_apply, Stateful.read_apply, hany, if_true,
    Stateful.modify_apply, hkeep]

/-- A full id resolves to something listed under it. -/
theorem resolveTarget_of_isFullId (h : IsFullId P id target) (hm : m ∈ metas) (hid : m.id = id) :
    ∃ found, resolveTarget P metas target = .ok found ∧ found.id = id := by
  have hnotEmpty : ¬ (trim target).isEmpty = true := by
    rw [String.isEmpty_iff]
    exact h.1
  obtain ⟨found, hfound, _, hfoundId⟩ : ∃ found, metas.find? (fun m => m.id = id) = some found ∧
      found ∈ metas ∧ found.id = id := exists_find_key hm hid
  have hresolve : resolveTarget P metas target = .ok found := by
    simp only [resolveTarget, if_neg hnotEmpty, h.2, hfound]
  exact ⟨found, hresolve, hfoundId⟩

/-- With a list, a row is deleted by the full id of what it is listed as. -/
theorem cmdDelete_of_list (hlist : RawTable.list P inner outer table = .ok metas) (hm : m ∈ metas)
    (hmid : m.id = id) (hrow : row ∈ table) (hid : row.id = .text (P.uuidText id))
    (hrun : run.GoesOn) (htarget : IsFullId P id target) :
    ∃ name, cmdDelete P inner outer run target table =
      (.ok (.deleted name), table.filter (·.id ≠ row.id)) := by
  obtain ⟨found, hresolve, hfound⟩ := resolveTarget_of_isFullId htarget hm hmid
  have hdelete : RawTable.delete P found.id table = (.ok (), table.filter (·.id ≠ row.id)) :=
    delete_of_id hrow (by rw [hfound]; exact hid)
  refine ⟨found.name, ?_⟩
  simp [cmdDelete, Stateful.bind_apply, hlist, hresolve, hrun.confirmed, hrun.vacuum, hdelete]

/-- Without a list nothing is deleted. -/
theorem cmdDelete_of_list_error {e : Fault SessionError}
    (hlist : RawTable.list P inner outer table = .error e) (run : DeleteRun) (target : String) :
    ∃ e', cmdDelete P inner outer run target table = (.error e', table) := by
  cases e with
  | error e => exact ⟨.error (.listing e), by simp [cmdDelete, Stateful.bind_apply, hlist]⟩
  | panic => exact ⟨.panic, by simp [cmdDelete, Stateful.bind_apply, hlist, Fallible.mapError]⟩

/-! ## What is left -/

section Survival

variable {early late : List RawRow} {damaged : RawRow}

theorem mem_table_of_mem (h : row ∈ early ++ late) : row ∈ early ++ damaged :: late := by
  rw [List.mem_append, List.mem_cons]
  rcases List.mem_append.mp h with h | h
  · exact .inl h
  · exact .inr (.inr h)

/-- **The other secrets survive the damage to one row exactly when its metadata can still be
read.** They can be opened in any case, and every row can be deleted in the session by the id
that it has. -/
theorem others_survive_iff (hP : P.Lawful)
    (hids : ((early ++ damaged :: late).map RawRow.id).Nodup)
    (hothers : ∀ row ∈ early ++ late, ∃ m p, row.Holds P inner outer m p) :
    (Survives P inner outer (early ++ late) damaged (early ++ damaged :: late) ↔
      damaged.Legible P inner outer) ∧
    (∀ row ∈ early ++ late, ∀ m p, row.Holds P inner outer m p →
      RawTable.openSecret P inner outer m.id (early ++ damaged :: late) = .ok p) ∧
    ∀ row ∈ early ++ damaged :: late, ∀ id, row.id = .text (P.uuidText id) →
      RawTable.delete P id (early ++ damaged :: late) =
        (.ok (), (early ++ damaged :: late).filter (·.id ≠ row.id)) := by
  have hopened : ∀ row ∈ early ++ late, ∀ m p, row.Holds P inner outer m p →
      RawTable.openSecret P inner outer m.id (early ++ damaged :: late) = .ok p :=
    fun row hrow m p h => openSecret_of_holds hP hids (mem_table_of_mem hrow) h
  refine ⟨⟨?_, ?_⟩, hopened, fun row hrow id hid => delete_of_id hrow hid⟩
  · intro h
    obtain ⟨metas, hlist, _⟩ := h.listed
    exact (exists_list_iff ..).mp ⟨metas, hlist⟩ damaged (by simp)
  · intro hlegible
    have hall : ∀ row ∈ early ++ damaged :: late, row.Legible P inner outer := by
      intro row hrow
      rcases List.mem_cons.mp (List.perm_middle.mem_iff.mp hrow) with rfl | hother
      · exact hlegible
      · obtain ⟨m, p, hholds⟩ := hothers row hother
        exact hholds.legible hP
    obtain ⟨metas, hlist⟩ := (exists_list_iff ..).mpr hall
    have hlisted : ∀ row ∈ early ++ late, ∀ m p, row.Holds P inner outer m p → m ∈ metas := by
      intro row hrow m p hholds
      obtain ⟨found, hread, hopen⟩ := hholds.read hP
      exact mem_list hlist (mem_table_of_mem hrow) hread hopen
    refine ⟨⟨metas, hlist, hlisted⟩, hopened, ?_, ?_⟩
    · intro row hrow m p hholds run target hrun htarget
      exact cmdDelete_of_list hlist (hlisted row hrow m p hholds) rfl (mem_table_of_mem hrow)
        hholds.id_eq hrun htarget
    · intro id hid run target hrun htarget
      obtain ⟨found, m, hread, hopen⟩ := hlegible
      have hmid : m.id = id := (id_of_openMeta hopen).trans (id_of_read hP hread hid)
      have hdamaged : damaged ∈ early ++ damaged :: late := by simp
      obtain ⟨name, hdelete⟩ := cmdDelete_of_list hlist (mem_list hlist hdamaged hread hopen) hmid
        hdamaged hid hrun htarget
      exact ⟨name, by rw [hdelete, filter_key_ne_middle hids]⟩

/-- A row for any secret, with primitives that can be evaluated. -/
theorem exists_holds_reference (inner outer : Key) (m : SecretMeta) (p : SecretPayload) :
    ∃ row : RawRow, row.Holds .reference inner outer m p := by
  obtain ⟨metaBlob, hmeta⟩ := Session.exists_sealBytes_reference (Block.replicate 24 1)
    (Block.replicate 24 2) (Block.replicate 16 3) inner outer
    (Primitives.reference.cborWrite (MetaWire.fromMeta m).toCbor)
  obtain ⟨payloadBlob, hpayload⟩ := Session.exists_sealBytes_reference (Block.replicate 24 4)
    (Block.replicate 24 5) m.id inner outer
    (Primitives.reference.cborWrite (PayloadWire.fromPayload p).toCbor)
  exact ⟨_, ⟨_, metaBlob, payloadBlob⟩, ⟨Block.replicate 16 3, rfl, .of_sealBytes hmeta,
    .of_sealBytes hpayload⟩, rfl⟩

/-- A secret whose payload is lost does not take another one away. -/
theorem others_survive_a_lost_payload :
    ∃ row damaged : RawRow,
      row.Holds .reference (Block.replicate keyLen 1) (Block.replicate keyLen 2)
        (password "GitHub" 0xbe 0xef) ⟨[115], none, []⟩ ∧
      damaged.payloadBlob = .other ∧
      Survives .reference (Block.replicate keyLen 1) (Block.replicate keyLen 2) [row] damaged
        [damaged, row] := by
  obtain ⟨row, hrow⟩ := exists_holds_reference (Block.replicate keyLen 1) (Block.replicate keyLen 2)
    (password "GitHub" 0xbe 0xef) ⟨[115], none, []⟩
  obtain ⟨bank, hbank⟩ := exists_holds_reference (Block.replicate keyLen 1)
    (Block.replicate keyLen 2) (password "Bank" 0xaa 0xaa) ⟨[116], none, []⟩
  have hids : (([] ++ { bank with payloadBlob := .other } :: [row]).map RawRow.id).Nodup := by
    simp only [List.nil_append, List.map_cons, List.map_nil, hbank.id_eq, hrow.id_eq]
    decide
  have hlegible : RawRow.Legible .reference (Block.replicate keyLen 1) (Block.replicate keyLen 2)
      { bank with payloadBlob := .other } := by
    obtain ⟨found, m, hread, hopen⟩ := hbank.legible Primitives.reference_lawful
    exact ⟨found, m, hread, hopen⟩
  exact ⟨row, _, hrow, rfl, (others_survive_iff Primitives.reference_lawful hids
    (by simpa using ⟨_, _, hrow⟩)).1.mpr hlegible⟩

/-- A secret whose metadata is lost. -/
private def emptied : RawRow where
  id := .text (Primitives.reference.uuidText (password "Bank" 0xaa 0xaa).id)
  metaId := .text (Primitives.reference.uuidText (Block.replicate 16 3))
  metaBlob := .blob []
  payloadBlob := .blob []

private theorem emptied_not_legible (inner outer : Key) :
    ¬ emptied.Legible .reference inner outer := not_legible_of_empty rfl

/-- The metadata of one secret is lost. The other is listed no more, and its id is not enough to
delete it on the command line. -/
theorem a_lost_blob_takes_the_list :
    ∃ row : RawRow,
      row.Holds .reference (Block.replicate keyLen 1) (Block.replicate keyLen 2)
        (password "GitHub" 0xbe 0xef) ⟨[115], none, []⟩ ∧
      (∃ e, RawTable.list .reference (Block.replicate keyLen 1) (Block.replicate keyLen 2)
        [emptied, row] = .error e) ∧
      IsFullId .reference (password "GitHub" 0xbe 0xef).id
        "beef0000-0000-0000-0000-000000000000" ∧
      (∃ e, cmdDelete .reference (Block.replicate keyLen 1) (Block.replicate keyLen 2)
        ⟨true, .ok "", .ok ()⟩ "beef0000-0000-0000-0000-000000000000" [emptied, row] =
          (.error e, [emptied, row])) ∧
      ¬ Survives .reference (Block.replicate keyLen 1) (Block.replicate keyLen 2) [row] emptied
        [emptied, row] := by
  obtain ⟨row, hrow⟩ := exists_holds_reference (Block.replicate keyLen 1) (Block.replicate keyLen 2)
    (password "GitHub" 0xbe 0xef) ⟨[115], none, []⟩
  have hnone : ¬ ∃ metas, RawTable.list .reference (Block.replicate keyLen 1)
      (Block.replicate keyLen 2) [emptied, row] = .ok metas := by
    intro h
    exact emptied_not_legible _ _ ((exists_list_iff ..).mp h emptied List.mem_cons_self)
  cases hlist : RawTable.list .reference (Block.replicate keyLen 1) (Block.replicate keyLen 2)
      [emptied, row] with
  | ok metas => exact absurd ⟨metas, hlist⟩ hnone
  | error e =>
      have htext : trim "beef0000-0000-0000-0000-000000000000" =
          Primitives.reference.uuidText (password "GitHub" 0xbe 0xef).id := by decide +kernel
      have hfull : IsFullId .reference (password "GitHub" 0xbe 0xef).id
          "beef0000-0000-0000-0000-000000000000" :=
        ⟨by decide, by rw [htext]; exact Primitives.reference_lawful.uuid _⟩
      refine ⟨row, hrow, ⟨e, hlist⟩, hfull, cmdDelete_of_list_error hlist _ _, ?_⟩
      intro h
      obtain ⟨metas, hmetas, _⟩ := h.listed
      exact hnone ⟨metas, hmetas⟩

end Survival

end Sypherstore
