/-
# Naming a secret on the command line

A command takes the id of a secret, the beginning of an id, or a name, and acts on the secret
that it resolves to (`resolve_target`). Two secrets of one name, or with the same beginning,
are refused. The three ways are not held against each other: an id hides a name, and a name
hides the beginning of an id.
-/

import Sypherstore.Core.Domain
import Sypherstore.Core.Model
import Sypherstore.Core.Reference
import Sypherstore.Logic.Keyed

namespace Sypherstore

open Logic

inductive TargetError where
  /-- "no secret specified" -/
  | unspecified
  /-- "no secret with id {id}" -/
  | unknownId (id : Uuid)
  /-- "no secret matching {target:?}. Try `sypherstore list`." -/
  | unmatched (target : String)
  /-- "{target:?} is ambiguous, matching {n} secrets: {}. Use a full id." -/
  | ambiguous (target : String) (n : ℕ) (names : String)
  deriving DecidableEq

section Targets

variable (P : Primitives)

/-- The first eight characters of an id. -/
def shortId (id : Uuid) : String := String.ofList ((P.uuidText id).toList.take 8)

/-- The id of the secret starts with the text, in lower case. -/
def idStartsWith (target : String) (m : SecretMeta) : Bool :=
  (target.toList.map asciiLowercase).isPrefixOf (P.uuidText m.id).toList

/-- The text is the name of the secret, but for the case of ASCII letters. -/
def isNamed (target : String) (m : SecretMeta) : Bool :=
  eqIgnoreAsciiCase m.name.toList target.toList

/-- The first five of several candidates, as the error lists them. -/
def describe (found : List SecretMeta) : String :=
  String.intercalate ", " ((found.take 5).map fun m => m.name ++ " (" ++ shortId P m.id ++ ")")

/-- Finds a secret by id, by the beginning of its id, or by its name. -/
def resolveTarget (secrets : List SecretMeta) (target : String) : Except TargetError SecretMeta :=
  let target := trim target
  if target.isEmpty then .error .unspecified
  else
    match P.uuidParse target with
    | some id =>
        match secrets.find? fun m => m.id = id with
        | some m => .ok m
        | none => .error (.unknownId id)
    | none =>
        let byPrefix := secrets.filter (idStartsWith P target)
        let byName := secrets.filter (isNamed target)
        match if byName.isEmpty then byPrefix else byName with
        | [] => .error (.unmatched target)
        | [m] => .ok m
        | found => .error (.ambiguous target found.length (describe P found))

end Targets

variable {P : Primitives} {secrets : List SecretMeta} {target : String} {m : SecretMeta}

/-! ## What is found -/

theorem eq_of_id_eq (hids : (secrets.map SecretMeta.id).Nodup) {m m' : SecretMeta}
    (hm : m ∈ secrets) (hm' : m' ∈ secrets) (h : m.id = m'.id) : m = m' :=
  List.inj_on_of_nodup_map hids hm hm' h

theorem resolveTarget_of_blank (h : trim target = "") :
    resolveTarget P secrets target = .error .unspecified := by
  simp [resolveTarget, h]

/-- A text that is an id is only looked for among the ids. -/
theorem resolveTarget_of_id {id : Uuid} (hids : (secrets.map SecretMeta.id).Nodup)
    (htext : trim target ≠ "") (hparse : P.uuidParse (trim target) = some id) :
    resolveTarget P secrets target = .ok m ↔ m ∈ secrets ∧ m.id = id := by
  have hnotEmpty : ¬ (trim target).isEmpty = true := by rwa [String.isEmpty_iff]
  rw [← find_key_eq_some_iff hids]
  simp only [resolveTarget, if_neg hnotEmpty, hparse]
  cases secrets.find? fun m => m.id = id with
  | none => exact iff_of_false nofun nofun
  | some found => rw [Option.some.injEq, Except.ok.injEq]

/-- Any other text is a name, and if nothing is named so, the beginning of an id. -/
theorem resolveTarget_of_text (hids : (secrets.map SecretMeta.id).Nodup)
    (htext : trim target ≠ "") (hparse : P.uuidParse (trim target) = none) :
    resolveTarget P secrets target = .ok m ↔ m ∈ secrets ∧
      ((isNamed (trim target) m = true ∧
          ∀ m' ∈ secrets, isNamed (trim target) m' = true → m' = m) ∨
        (∀ m' ∈ secrets, ¬ isNamed (trim target) m' = true) ∧
          idStartsWith P (trim target) m = true ∧
          ∀ m' ∈ secrets, idStartsWith P (trim target) m' = true → m' = m) := by
  have hnodup : secrets.Nodup := hids.of_map
  have hnotEmpty : ¬ (trim target).isEmpty = true := by rwa [String.isEmpty_iff]
  have hpick : resolveTarget P secrets target = .ok m ↔
      (if (secrets.filter (isNamed (trim target))).isEmpty then
        secrets.filter (idStartsWith P (trim target))
        else secrets.filter (isNamed (trim target))) = [m] := by
    simp only [resolveTarget, if_neg hnotEmpty, hparse]
    generalize (if (secrets.filter (isNamed (trim target))).isEmpty then
      secrets.filter (idStartsWith P (trim target))
      else secrets.filter (isNamed (trim target))) = candidates
    match candidates with
    | [] => exact iff_of_false nofun nofun
    | [found] => simp
    | _ :: _ :: _ => simp
  rw [hpick]
  split
  · rename_i hnone
    have hunnamed : ∀ m' ∈ secrets, ¬ isNamed (trim target) m' = true :=
      List.filter_eq_nil_iff.mp (List.isEmpty_iff.mp hnone)
    rw [filter_eq_singleton_iff hnodup]
    constructor
    · rintro ⟨hm, hprefix, honly⟩
      exact ⟨hm, .inr ⟨hunnamed, hprefix, honly⟩⟩
    · rintro ⟨hm, ⟨hnamed, _⟩ | ⟨_, hprefix, honly⟩⟩
      · exact absurd hnamed (hunnamed m hm)
      · exact ⟨hm, hprefix, honly⟩
  · rename_i hsome
    rw [filter_eq_singleton_iff hnodup]
    constructor
    · rintro ⟨hm, hnamed, honly⟩
      exact ⟨hm, .inl ⟨hnamed, honly⟩⟩
    · rintro ⟨hm, ⟨hnamed, honly⟩ | ⟨hunnamed, _⟩⟩
      · exact ⟨hm, hnamed, honly⟩
      · exact absurd (List.isEmpty_iff.mpr (List.filter_eq_nil_iff.mpr hunnamed)) hsome

/-! ## What a text stands for -/

/-- The text stands for the secret in one of the three ways: as its id, as the beginning of its
id, or as its name. -/
def Designates (P : Primitives) (target : String) (m : SecretMeta) : Prop :=
  P.uuidParse (trim target) = some m.id ∨ idStartsWith P (trim target) m = true ∨
    isNamed (trim target) m = true

/-- What is resolved is the only secret that the text stands for, and a text that stands for
several is refused. -/
structure NeverPicks (P : Primitives) (secrets : List SecretMeta) (target : String) : Prop where
  only : ∀ m, resolveTarget P secrets target = .ok m →
    m ∈ secrets ∧ Designates P target m ∧ ∀ m' ∈ secrets, Designates P target m' → m' = m
  refused : ∀ m ∈ secrets, ∀ m' ∈ secrets, m ≠ m' → Designates P target m →
    Designates P target m' → ∃ e, resolveTarget P secrets target = .error e

/-- Where the text is the id of a secret, it is no other's name or beginning of an id; and where
it is no id and the name of one secret only, no other's id begins with it. -/
def Unambiguous (P : Primitives) (secrets : List SecretMeta) (target : String) : Prop :=
  trim target = "" ∨
    (∀ m ∈ secrets, P.uuidParse (trim target) = some m.id → ∀ m' ∈ secrets,
      idStartsWith P (trim target) m' = true ∨ isNamed (trim target) m' = true → m' = m) ∧
    (P.uuidParse (trim target) = none → ∀ m ∈ secrets, isNamed (trim target) m = true →
      (∀ m' ∈ secrets, isNamed (trim target) m' = true → m' = m) →
      ∀ m' ∈ secrets, idStartsWith P (trim target) m' = true → m' = m)

instance (P : Primitives) (secrets : List SecretMeta) (target : String) :
    Decidable (Unambiguous P secrets target) := inferInstanceAs (Decidable (_ ∨ _ ∧ _))

/-- A resolved secret is one that the text stands for. -/
theorem designates_of_resolve (hids : (secrets.map SecretMeta.id).Nodup)
    (h : resolveTarget P secrets target = .ok m) : m ∈ secrets ∧ Designates P target m := by
  by_cases htext : trim target = ""
  · rw [resolveTarget_of_blank htext] at h
    cases h
  cases hparse : P.uuidParse (trim target) with
  | some id =>
      obtain ⟨hm, rfl⟩ := (resolveTarget_of_id hids htext hparse).mp h
      exact ⟨hm, .inl hparse⟩
  | none =>
      obtain ⟨hm, ⟨hnamed, _⟩ | ⟨_, hprefix, _⟩⟩ := (resolveTarget_of_text hids htext hparse).mp h
      · exact ⟨hm, .inr (.inr hnamed)⟩
      · exact ⟨hm, .inr (.inl hprefix)⟩

/-- A text is refused where it stands for several secrets, if what is resolved is always the
only one. -/
theorem neverPicks_of_only (hids : (secrets.map SecretMeta.id).Nodup)
    (honly : ∀ m, resolveTarget P secrets target = .ok m →
      ∀ m' ∈ secrets, Designates P target m' → m' = m) : NeverPicks P secrets target where
  only m h := ⟨(designates_of_resolve hids h).1, (designates_of_resolve hids h).2, honly m h⟩
  refused m hm m' hm' hne hdesignates hdesignates' := by
    cases hresolve : resolveTarget P secrets target with
    | error e => exact ⟨e, rfl⟩
    | ok found =>
        have hfound := honly found hresolve
        exact absurd ((hfound m hm hdesignates).trans (hfound m' hm' hdesignates').symm) hne

/-- **A target is never picked among several candidates** exactly when none of the three ways
hides another. -/
theorem neverPicks_iff (P : Primitives) {secrets : List SecretMeta}
    (hids : (secrets.map SecretMeta.id).Nodup) (target : String) :
    NeverPicks P secrets target ↔ Unambiguous P secrets target := by
  by_cases htext : trim target = ""
  · refine iff_of_true (neverPicks_of_only hids ?_) (.inl htext)
    intro m h
    rw [resolveTarget_of_blank htext] at h
    cases h
  constructor
  · intro h
    refine .inr ⟨?_, ?_⟩
    · intro m hm hparse m' hm' hother
      have hresolve := (resolveTarget_of_id hids htext hparse).mpr ⟨hm, rfl⟩
      exact (h.only m hresolve).2.2 m' hm' (.inr hother)
    · intro hparse m hm hnamed honly m' hm' hprefix
      have hresolve :=
        (resolveTarget_of_text hids htext hparse).mpr ⟨hm, .inl ⟨hnamed, honly⟩⟩
      exact (h.only m hresolve).2.2 m' hm' (.inr (.inl hprefix))
  · rintro (hblank | ⟨hid, hname⟩)
    · exact absurd hblank htext
    refine neverPicks_of_only hids ?_
    intro m h m' hm' hdesignates
    cases hparse : P.uuidParse (trim target) with
    | some id =>
        obtain ⟨hm, rfl⟩ := (resolveTarget_of_id hids htext hparse).mp h
        rcases hdesignates with hparse' | hother
        · rw [hparse] at hparse'
          exact eq_of_id_eq hids hm' hm (Option.some.inj hparse').symm
        · exact hid m hm hparse m' hm' hother
    | none =>
        obtain ⟨hm, hfound⟩ := (resolveTarget_of_text hids htext hparse).mp h
        rcases hdesignates with hparse' | hprefix | hnamed
        · cases hparse.symm.trans hparse'
        · rcases hfound with ⟨hnamed, honly⟩ | ⟨_, _, honly⟩
          · exact hname hparse m hm hnamed honly m' hm' hprefix
          · exact honly m' hm' hprefix
        · rcases hfound with ⟨_, honly⟩ | ⟨hunnamed, _⟩
          · exact honly m' hm' hnamed
          · exact absurd hnamed (hunnamed m' hm')

/-- A stored password of this name, whose id begins with these two bytes. -/
def password (name : String) (first second : UInt8) : SecretMeta where
  id := ⟨first :: second :: List.replicate 14 0, rfl⟩
  name := name
  domain := ""
  application := ""
  secretType := .password
  username := ""
  tags := []
  createdAt := 0
  updatedAt := 0

theorem a_shared_name_is_refused :
    NeverPicks .reference [password "GitHub" 0xaa 0xaa, password "github" 0xbe 0xef] " GITHUB" :=
  (neverPicks_iff .reference (by decide) _).mpr (by decide)

/-- A secret named like the beginning of another one's id hides it. -/
theorem a_name_hides_an_id :
    resolveTarget .reference [password "beef" 0xaa 0xaa, password "GitHub" 0xbe 0xef] "beef" =
        .ok (password "beef" 0xaa 0xaa) ∧
      ¬ NeverPicks .reference [password "beef" 0xaa 0xaa, password "GitHub" 0xbe 0xef]
        "beef" := by
  have hresolve :
      resolveTarget .reference [password "beef" 0xaa 0xaa, password "GitHub" 0xbe 0xef] "beef" =
        .ok (password "beef" 0xaa 0xaa) := by decide
  refine ⟨hresolve, fun h => ?_⟩
  have hother : Designates .reference "beef" (password "GitHub" 0xbe 0xef) :=
    .inr (.inl (by decide))
  have hsame := (h.only _ hresolve).2.2 (password "GitHub" 0xbe 0xef) (by decide) hother
  exact absurd hsame (by decide)

end Sypherstore
