/-
# What an edit keeps

A stored secret is opened in the form and saved as it is. Whatever the form has no room for,
or tidies up on the way out, is not what it was: tags with commas, texts with space around
them, domains that are no bare host, notes that are blank or no text, and every extra field.
-/

import Sypherstore.App.Editor
import Sypherstore.Logic.Utf8

namespace Sypherstore

open Logic

namespace Editor

variable {m : SecretMeta} {payload : SecretPayload}

/-! ## Tags -/

/-- What can come out of the tag field. -/
def IsTag (t : String) : Prop := t ≠ "" ∧ trim t = t ∧ ',' ∉ t.toList

theorem isTag_of_mem_splitTags {text t : String} (h : t ∈ splitTags text) : IsTag t := by
  obtain ⟨hmem, hkept⟩ := List.mem_filter.mp h
  obtain ⟨piece, hpiece, rfl⟩ := List.mem_map.mp hmem
  refine ⟨?_, ?_, ?_⟩
  · intro hempty
    rw [hempty] at hkept
    cases hkept
  · rw [← String.toList_inj, toList_trim, toList_trim, trimChars_trimChars]
  · rw [toList_trim, String.toList_ofList]
    exact fun hcomma => not_mem_of_mem_splitOn piece hpiece (trimChars_subset _ hcomma)

/-- The tags in one text, each but the first behind a comma and a space. -/
theorem toList_joinTags (tag : String) (tags : List String) :
    (joinTags (tag :: tags)).toList =
      [','].intercalate (tag.toList :: tags.map fun t => ' ' :: t.toList) := by
  rw [joinTags, String.toList_ofList, List.map_cons]
  induction tags generalizing tag with
  | nil => rfl
  | cons next tags ih =>
      rw [List.map_cons, List.map_cons, List.intercalate_cons_cons, ih, List.intercalate_cons_cons,
        List.intercalate_cons_cons_left, List.append_assoc, List.append_assoc]
      rfl

theorem trim_ofList_cons_space {t : String} (h : trim t = t) :
    trim (String.ofList (' ' :: t.toList)) = t := by
  rw [← String.toList_inj, toList_trim, String.toList_ofList,
    trimChars_cons_of_whitespace (by decide), ← toList_trim, h]

theorem splitTags_joinTags {tags : List String} (h : ∀ t ∈ tags, IsTag t) :
    splitTags (joinTags tags) = tags := by
  cases tags with
  | nil => decide
  | cons tag tags =>
      obtain ⟨htag, htags⟩ := List.forall_mem_cons.mp h
      have hcommas : ∀ piece ∈ tag.toList :: tags.map fun t => ' ' :: t.toList, ',' ∉ piece := by
        rw [List.forall_mem_cons, List.forall_mem_map]
        refine ⟨htag.2.2, fun t ht hcomma => ?_⟩
        rcases List.mem_cons.mp hcomma with hspace | hcomma
        · exact absurd hspace (by decide)
        · exact (htags t ht).2.2 hcomma
      have htrimmed : (tags.map fun t => ' ' :: t.toList).map (fun t => trim (String.ofList t)) =
          tags := by
        rw [List.map_map]
        conv_rhs => rw [← List.map_id tags]
        exact List.map_congr_left fun t ht => trim_ofList_cons_space (htags t ht).2.1
      rw [splitTags, toList_joinTags, List.splitOn_intercalate ',' hcommas (by simp), List.map_cons,
        htrimmed, String.ofList_toList, htag.2.1, List.filter_eq_self]
      intro t ht
      simpa using (h t ht).1

/-- **Tags come back** exactly when each of them is one that the field can hold. -/
theorem splitTags_joinTags_iff (tags : List String) :
    splitTags (joinTags tags) = tags ↔ ∀ t ∈ tags, IsTag t := by
  refine ⟨fun h t ht => ?_, splitTags_joinTags⟩
  rw [← h] at ht
  exact isTag_of_mem_splitTags ht

/-! ## The other fields -/

theorem getD_normalizeHost_iff (domain : String) :
    (normalizeHost domain).getD "" = domain ↔
      domain = "" ∨ normalizeHost domain = some domain := by
  cases h : normalizeHost domain with
  | none => simp [eq_comm]
  | some host =>
      rw [Option.getD_some, Option.some.injEq]
      refine ⟨.inr, ?_⟩
      rintro (rfl | hhost)
      · cases h
      · exact hhost

/-- The fields that are tidied up on the way out. -/
theorem builtMeta_fromExisting_iff (now : Int64) (fresh : Uuid) :
    { (fromExisting m payload).builtMeta now fresh with updatedAt := m.updatedAt } = m ↔
      trim m.name = m.name ∧ (normalizeHost m.domain).getD "" = m.domain ∧
        trim m.application = m.application ∧ trim m.username = m.username ∧
        splitTags (joinTags m.tags) = m.tags := by
  cases m
  simp only [builtMeta, fromExisting, Option.getD_some, SecretMeta.mk.injEq, true_and, and_true]

/-- Notes come back where there are none, or some that are text and not blank. -/
theorem builtPayload_notes_iff :
    (fromExisting m payload).builtPayload.notes = payload.notes ↔
      payload.notes = none ∨
        ∃ text, payload.notes = some (Cbor.utf8 text) ∧ trim text ≠ "" := by
  have hbuilt : (fromExisting m payload).builtPayload.notes =
      if trim ((payload.notes.bind Cbor.ofUtf8).getD "") = "" then none
      else some (Cbor.utf8 ((payload.notes.bind Cbor.ofUtf8).getD "")) := by
    simp [builtPayload, fromExisting, String.isEmpty_iff]
  rw [hbuilt]
  cases hnotes : payload.notes with
  | none => exact iff_of_true (if_pos (by decide)) (.inl rfl)
  | some bytes =>
      rw [Option.bind_some]
      cases htext : Cbor.ofUtf8 bytes with
      | none =>
          refine iff_of_false (by rw [if_pos (by decide)]; exact nofun) ?_
          rintro (hnone | ⟨text, hbytes, _⟩)
          · cases hnone
          · rw [(Cbor.ofUtf8_eq_some_iff bytes text).mpr (Option.some.inj hbytes)] at htext
            cases htext
      | some text =>
          obtain rfl := (Cbor.ofUtf8_eq_some_iff bytes text).mp htext
          rw [Option.getD_some]
          by_cases hblank : trim text = ""
          · refine iff_of_false (by rw [if_pos hblank]; exact nofun) ?_
            rintro (hnone | ⟨other, hbytes, hother⟩)
            · cases hnone
            · rw [Option.some.inj hbytes, Cbor.ofUtf8_utf8] at htext
              cases htext
              exact hother hblank
          · exact iff_of_true (if_neg hblank) (.inr ⟨text, rfl, hblank⟩)

theorem builtPayload_eq_iff (editor : Editor) :
    editor.builtPayload = payload ↔ Cbor.utf8 editor.value = payload.value ∧
      editor.builtPayload.notes = payload.notes ∧ payload.extra = [] := by
  cases payload
  simp only [builtPayload, SecretPayload.mk.injEq, eq_comm]

/-! ## What an edit keeps -/

/-- Opening the secret in the form and saving it gives it back, but for the time of the
change. -/
def UnchangedByEditing (m : SecretMeta) (payload : SecretPayload) : Prop :=
  ∀ now fresh, ∃ m' payload', ((fromExisting m payload).build now fresh).1 = .ok (m', payload') ∧
    { m' with updatedAt := m.updatedAt } = m ∧ payload' = payload

/-- The form can hold the whole secret, in the shape in which it saves it. -/
structure FitsTheForm (m : SecretMeta) (payload : SecretPayload) : Prop where
  name_ne : m.name ≠ ""
  name : trim m.name = m.name
  username : trim m.username = m.username
  application : trim m.application = m.application
  domain : m.domain = "" ∨ normalizeHost m.domain = some m.domain
  tags : ∀ t ∈ m.tags, IsTag t
  notes : payload.notes = none ∨
    ∃ text, payload.notes = some (Cbor.utf8 text) ∧ trim text ≠ ""
  extra : payload.extra = []

/-- **Editing changes nothing** exactly when the form can hold the whole secret. -/
theorem unchangedByEditing_iff (m : SecretMeta) {payload : SecretPayload} {text : String}
    (hvalue : payload.value = Cbor.utf8 text) (hne : text ≠ "") :
    UnchangedByEditing m payload ↔ FitsTheForm m payload := by
  have hshown : (fromExisting m payload).value = text := by
    simp [fromExisting, hvalue, Cbor.ofUtf8_utf8]
  constructor
  · intro h
    obtain ⟨m', payload', hbuild, hmeta, hpayload⟩ := h 0 m.id
    obtain ⟨hname, _, hbuilt⟩ := build_eq_ok_iff.mp hbuild
    obtain ⟨rfl, rfl⟩ := Prod.mk.inj hbuilt
    obtain ⟨htrimmed, hdomain, happlication, husername, htags⟩ :=
      (builtMeta_fromExisting_iff 0 m.id).mp hmeta
    obtain ⟨_, hnotes, hextra⟩ := (builtPayload_eq_iff _).mp hpayload
    exact {
      name_ne := htrimmed ▸ hname
      name := htrimmed
      username := husername
      application := happlication
      domain := (getD_normalizeHost_iff m.domain).mp hdomain
      tags := (splitTags_joinTags_iff m.tags).mp htags
      notes := builtPayload_notes_iff.mp hnotes
      extra := hextra }
  · intro h now fresh
    have hname : trim (fromExisting m payload).name ≠ "" := h.name.trans_ne h.name_ne
    have hvalued : (fromExisting m payload).value ≠ "" := hshown.trans_ne hne
    refine ⟨_, _, build_eq_ok_iff.mpr ⟨hname, hvalued, rfl⟩, ?_, ?_⟩
    · exact (builtMeta_fromExisting_iff now fresh).mpr ⟨h.name,
        (getD_normalizeHost_iff m.domain).mpr h.domain, h.application, h.username,
        (splitTags_joinTags_iff m.tags).mpr h.tags⟩
    · refine (builtPayload_eq_iff _).mpr ⟨?_, builtPayload_notes_iff.mpr h.notes, h.extra⟩
      rw [hshown, hvalue]

/-- A card with some tags. -/
def card (tags : List String) : SecretMeta where
  id := Block.replicate 16 1
  name := "Card"
  domain := "bank.example"
  application := ""
  secretType := .password
  username := "alice"
  tags := tags
  createdAt := 1
  updatedAt := 1

theorem a_plain_card_is_unchanged :
    UnchangedByEditing (card ["work", "home"])
      ⟨Cbor.utf8 "4111", some (Cbor.utf8 "valid to 30"), []⟩ :=
  (unchangedByEditing_iff _ rfl (by decide)).mpr {
    name_ne := by decide
    name := by decide
    username := by decide
    application := by decide
    domain := by decide
    tags := by
      intro t ht
      rcases List.mem_pair.mp ht with rfl | rfl
      · exact ⟨by decide, by decide, by decide⟩
      · exact ⟨by decide, by decide, by decide⟩
    notes := .inr ⟨_, rfl, by decide⟩
    extra := rfl }

/-- A tag with a comma becomes two tags, and the number on the back of the card is gone. -/
theorem a_card_loses_its_extra_field :
    ((fromExisting (card ["work,home"]) ⟨Cbor.utf8 "4111", none, [("cvv", [1, 2, 3])]⟩).build 2
        (Block.replicate 16 0)).1.toOption.map (fun built => (built.1.tags, built.2.extra)) =
      some (["work", "home"], []) ∧
    ¬ UnchangedByEditing (card ["work,home"]) ⟨Cbor.utf8 "4111", none, [("cvv", [1, 2, 3])]⟩ := by
  have hbuilt : ((fromExisting (card ["work,home"])
      ⟨Cbor.utf8 "4111", none, [("cvv", [1, 2, 3])]⟩).build 2
        (Block.replicate 16 0)).1.toOption.map (fun built => (built.1.tags, built.2.extra)) =
      some (["work", "home"], []) := by decide
  refine ⟨hbuilt, fun h => ?_⟩
  obtain ⟨m', payload', hbuild, hmeta, rfl⟩ := h 2 (Block.replicate 16 0)
  rw [hbuild] at hbuilt
  cases congrArg Prod.snd (Option.some.inj hbuilt)

end Editor

end Sypherstore
