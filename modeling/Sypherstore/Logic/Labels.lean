/-
# Names made of labels

A name is a list cut into labels by a separator, as a hostname is by its dots. A suffix is
aligned when it starts at a label. Some names are public, and the registrable part of a name
is the longest public suffix with one more label in front of it. It is unique, and it stays
the same when labels further in front are dropped.
-/

import Mathlib.Data.List.Basic

namespace Sypherstore.Logic

variable {α : Type} {sep : α} {a b c : List α} {isPublic : List α → Prop}

/-! ## Aligned suffixes -/

/-- The second name is the first one, or the first one behind more labels. -/
def AlignedSuffix (sep : α) (a b : List α) : Prop := a = b ∨ ∃ front, b = front ++ sep :: a

namespace AlignedSuffix

theorem refl (sep : α) (a : List α) : AlignedSuffix sep a a := .inl rfl

theorem behind (sep : α) (front a : List α) : AlignedSuffix sep a (front ++ sep :: a) :=
  .inr ⟨front, rfl⟩

theorem trans (h : AlignedSuffix sep a b) (h' : AlignedSuffix sep b c) :
    AlignedSuffix sep a c := by
  obtain rfl | ⟨front, rfl⟩ := h
  · exact h'
  · obtain rfl | ⟨front', rfl⟩ := h'
    · exact behind sep front a
    · refine .inr ⟨front' ++ sep :: front, ?_⟩
      simp

theorem length_le (h : AlignedSuffix sep a b) : a.length ≤ b.length := by
  obtain rfl | ⟨front, rfl⟩ := h
  · exact Nat.le_refl _
  · simp
    omega

/-- Of two aligned suffixes of one name, the shorter is one of the longer. -/
theorem of_length_le (h : AlignedSuffix sep a c) (h' : AlignedSuffix sep b c)
    (hle : a.length ≤ b.length) : AlignedSuffix sep a b := by
  obtain rfl | ⟨front', hc'⟩ := h'
  · exact h
  · obtain rfl | ⟨front, hc⟩ := h
    · rw [hc'] at hle
      simp at hle
      omega
    · have hjoin : front ++ sep :: a = front' ++ sep :: b := hc.symm.trans hc'
      obtain ⟨rest, hfront, htail⟩ | ⟨rest, hfront, htail⟩ :=
        List.append_eq_append_iff.mp hjoin
      · -- the longer suffix would start behind the shorter one
        cases rest with
        | nil =>
            obtain ⟨_, rfl⟩ := List.cons.inj htail
            exact refl sep a
        | cons first rest =>
            obtain ⟨_, rfl⟩ := List.cons.inj htail
            simp at hle
            omega
      · cases rest with
        | nil =>
            obtain ⟨_, rfl⟩ := List.cons.inj htail
            exact refl sep b
        | cons first rest =>
            obtain ⟨_, rfl⟩ := List.cons.inj htail
            exact behind sep rest a

theorem eq_of_length (h : AlignedSuffix sep a c) (h' : AlignedSuffix sep b c)
    (hlen : a.length = b.length) : a = b := by
  obtain rfl | ⟨front, rfl⟩ := h.of_length_le h' (Nat.le_of_eq hlen)
  · rfl
  · simp at hlen
    omega

end AlignedSuffix

/-! ## Lists of labels -/

theorem intercalate_append {xs ys : List (List α)} (hxs : xs ≠ []) (hys : ys ≠ []) :
    [sep].intercalate (xs ++ ys) = [sep].intercalate xs ++ sep :: [sep].intercalate ys := by
  induction xs with
  | nil => exact absurd rfl hxs
  | cons x xs ih =>
      cases xs with
      | nil =>
          obtain ⟨y, ys, rfl⟩ := List.exists_cons_of_ne_nil hys
          simp
      | cons x' xs =>
          have hrest := ih (List.cons_ne_nil _ _)
          rw [List.cons_append, List.cons_append, List.intercalate_cons_cons,
            ← List.cons_append, hrest, List.intercalate_cons_cons]
          simp

section Splitting

variable [BEq α] [LawfulBEq α]

theorem splitOn_inj : a.splitOn sep = b.splitOn sep ↔ a = b := by
  refine ⟨fun h => ?_, fun h => h ▸ rfl⟩
  have hjoin := congrArg [sep].intercalate h
  rwa [List.intercalate_splitOn, List.intercalate_splitOn] at hjoin

/-- **Aligned suffixes are those of the lists of labels.** -/
theorem splitOn_suffix_iff : a.splitOn sep <:+ b.splitOn sep ↔ AlignedSuffix sep a b := by
  constructor
  · rintro ⟨labels, hlabels⟩
    by_cases hnone : labels = []
    · left
      rwa [hnone, List.nil_append, splitOn_inj] at hlabels
    · right
      refine ⟨[sep].intercalate labels, ?_⟩
      have hjoin := congrArg [sep].intercalate hlabels
      rw [intercalate_append hnone (List.splitOn_ne_nil sep a), List.intercalate_splitOn,
        List.intercalate_splitOn] at hjoin
      exact hjoin.symm
  · rintro (rfl | ⟨front, rfl⟩)
    · exact List.suffix_rfl
    · rw [List.splitOn_append_cons_self]
      exact List.suffix_append _ _

end Splitting

/-! ## One more label -/

/-- The second name is the first one with one label in front. -/
def OneLabelLonger (sep : α) (a b : List α) : Prop := ∃ label, sep ∉ label ∧ b = label ++ sep :: a

theorem OneLabelLonger.aligned (h : OneLabelLonger sep a b) : AlignedSuffix sep a b := by
  obtain ⟨label, _, rfl⟩ := h
  exact .behind sep label a

/-- Nothing lies between a name and one with a single label more. -/
theorem OneLabelLonger.eq_or_aligned (h : OneLabelLonger sep a b)
    (hc : AlignedSuffix sep c b) : c = b ∨ AlignedSuffix sep c a := by
  obtain ⟨label, hlabel, hb⟩ := h
  obtain rfl | ⟨front, hfront⟩ := hc
  · exact .inl rfl
  · right
    obtain ⟨rest, hlong, htail⟩ | ⟨rest, hlong, htail⟩ :=
      List.append_eq_append_iff.mp (hb.symm.trans hfront)
    · cases rest with
      | nil =>
          obtain ⟨_, rfl⟩ := List.cons.inj htail
          exact .refl sep _
      | cons first rest =>
          obtain ⟨_, rfl⟩ := List.cons.inj htail
          exact .behind sep rest c
    · cases rest with
      | nil =>
          obtain ⟨_, rfl⟩ := List.cons.inj htail
          exact .refl sep _
      | cons first rest =>
          obtain ⟨rfl, _⟩ := List.cons.inj htail
          exact absurd (by simp [hlong]) hlabel

theorem OneLabelLonger.unique (h : OneLabelLonger sep a b) (h' : OneLabelLonger sep a c)
    {name : List α} (hb : AlignedSuffix sep b name) (hc : AlignedSuffix sep c name) : b = c := by
  have hshort : ∀ {b c : List α}, OneLabelLonger sep a b → OneLabelLonger sep a c →
      AlignedSuffix sep b c → b = c := by
    intro b c h h' hbc
    rcases h'.eq_or_aligned hbc with rfl | hba
    · rfl
    · have hlonger := hba.length_le
      obtain ⟨label, _, rfl⟩ := h
      simp at hlonger
      omega
  rcases Nat.le_total b.length c.length with hle | hle
  · exact hshort h h' (hb.of_length_le hc hle)
  · exact (hshort h' h (hc.of_length_le hb hle)).symm

/-! ## Registrable parts -/

/-- The longest public name that a name ends with. -/
structure LongestPublic (sep : α) (isPublic : List α → Prop) (suffix name : List α) : Prop where
  listed : isPublic suffix
  aligned : AlignedSuffix sep suffix name
  longest : ∀ other, isPublic other → AlignedSuffix sep other name → other.length ≤ suffix.length

/-- The part of a name that is one label longer than its longest public suffix. -/
def IsRegistrable (sep : α) (isPublic : List α → Prop) (domain name : List α) : Prop :=
  ∃ suffix, LongestPublic sep isPublic suffix name ∧ OneLabelLonger sep suffix domain ∧
    AlignedSuffix sep domain name

theorem LongestPublic.unique {suffix suffix' name : List α}
    (h : LongestPublic sep isPublic suffix name) (h' : LongestPublic sep isPublic suffix' name) :
    suffix = suffix' :=
  h.aligned.eq_of_length h'.aligned <| Nat.le_antisymm (h'.longest _ h.listed h.aligned)
    (h.longest _ h'.listed h'.aligned)

namespace IsRegistrable

variable {domain domain' name : List α}

theorem aligned (h : IsRegistrable sep isPublic domain name) : AlignedSuffix sep domain name := by
  obtain ⟨_, _, _, haligned⟩ := h
  exact haligned

theorem unique (h : IsRegistrable sep isPublic domain name)
    (h' : IsRegistrable sep isPublic domain' name) : domain = domain' := by
  obtain ⟨suffix, hsuffix, hlonger, haligned⟩ := h
  obtain ⟨suffix', hsuffix', hlonger', haligned'⟩ := h'
  obtain rfl := hsuffix.unique hsuffix'
  exact hlonger.unique hlonger' haligned haligned'

/-- Labels in front of the registrable part can be dropped. -/
theorem of_aligned (h : IsRegistrable sep isPublic domain c) (ha : AlignedSuffix sep a c)
    (hle : domain.length ≤ a.length) : IsRegistrable sep isPublic domain a := by
  obtain ⟨suffix, hsuffix, hlonger, haligned⟩ := h
  have hdomain := haligned.of_length_le ha hle
  exact ⟨suffix, ⟨hsuffix.listed, hlonger.aligned.trans hdomain,
    fun other hother hends => hsuffix.longest other hother (hends.trans ha)⟩, hlonger, hdomain⟩

end IsRegistrable

/-! ## Finding the registrable part -/

section Search

variable [DecidableEq α] (sep)

/-- The proper aligned suffixes, longest first. -/
def labelTails : List α → List (List α)
  | [] => []
  | first :: rest => if first = sep then rest :: labelTails rest else labelTails rest

/-- The name before the first public one. -/
def beforePublic (isPublic : List α → Bool) : List α → List (List α) → Option (List α)
  | _, [] => none
  | last, suffix :: rest =>
      if isPublic suffix then some last else beforePublic isPublic suffix rest

/-- The registrable part of a name, found from its longest suffix on. -/
def registrablePart (isPublic : List α → Bool) (name : List α) : Option (List α) :=
  if isPublic name then none else beforePublic isPublic name (labelTails sep name)

variable {sep}

theorem labelTails_eq_cons {name suffix : List α} {rest : List (List α)}
    (h : labelTails sep name = suffix :: rest) :
    OneLabelLonger sep suffix name ∧ rest = labelTails sep suffix := by
  induction name with
  | nil => cases h
  | cons first name ih =>
      rw [labelTails] at h
      split at h
      · rename_i hfirst
        obtain ⟨rfl, rfl⟩ := List.cons.inj h
        exact ⟨⟨[], List.not_mem_nil, by simp [hfirst]⟩, rfl⟩
      · rename_i hfirst
        obtain ⟨⟨label, hlabel, rfl⟩, hrest⟩ := ih h
        refine ⟨⟨first :: label, ?_, rfl⟩, hrest⟩
        simpa [Ne.symm hfirst] using hlabel

/-- **What the search finds is the registrable part.** -/
theorem isRegistrable_of_registrablePart {isPublic : List α → Bool} {name domain : List α}
    (h : registrablePart sep isPublic name = some domain) :
    IsRegistrable sep (fun suffix => isPublic suffix) domain name := by
  unfold registrablePart at h
  split at h
  · cases h
  · rename_i hname
    generalize htails : labelTails sep name = tails at h
    induction tails generalizing name with
    | nil => cases h
    | cons suffix rest ih =>
        obtain ⟨hlonger, hrest⟩ := labelTails_eq_cons htails
        rw [beforePublic] at h
        split at h
        · rename_i hsuffix
          cases h
          refine ⟨suffix, ⟨hsuffix, hlonger.aligned, ?_⟩, hlonger, .refl sep _⟩
          intro other hother hends
          rcases hlonger.eq_or_aligned hends with rfl | hshorter
          · exact absurd hother hname
          · exact hshorter.length_le
        · rename_i hsuffix
          obtain ⟨found, hfound, hone, haligned⟩ := ih hsuffix hrest.symm h
          refine ⟨found, ⟨hfound.listed, hfound.aligned.trans hlonger.aligned, ?_⟩, hone,
            haligned.trans hlonger.aligned⟩
          intro other hother hends
          rcases hlonger.eq_or_aligned hends with rfl | hshorter
          · exact absurd hother hname
          · exact hfound.longest other hother hshorter

end Search

end Sypherstore.Logic
