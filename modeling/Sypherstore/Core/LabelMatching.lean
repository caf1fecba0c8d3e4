/-
# Matching by whole labels

A match is decided on the bytes of two hostnames, by a suffix and the byte in front of it. It
means what it should about their lists of labels, and the index of that byte is always in
bounds.
-/

import Sypherstore.Core.SiteMatching

namespace Sypherstore

open Logic

/-- The labels of a hostname. -/
def labels (host : String) : List (List Char) := host.toList.splitOn '.'

theorem labels_inj {a b : String} : labels a = labels b ↔ a = b := by
  rw [labels, labels, splitOn_inj, String.toList_inj]

/-! ## The index of the boundary -/

/-- `a - b` on `usize`: panics below zero. -/
def usizeSub (a b : ℕ) : Fallible Unit ℕ := if b ≤ a then .ok (a - b) else Fallible.panic

/-- `isParentDomain` with the steps that could panic. -/
def indexesParentDomain (secret current : Bytes) : Fallible Unit Bool :=
  if secret.isSuffixOf current && secret.length < current.length then do
    let rest ← usizeSub current.length secret.length
    let boundary ← usizeSub rest 1
    let byte ← byteAt current boundary
    return byte = dot
  else return false

/-- `matchDomain` with the steps that could panic. -/
def matchDomainIndexing (psl : Bytes → Option Bytes) (secretDomain host : String) :
    Fallible Unit DomainMatch :=
  match normalizeHost secretDomain, normalizeHost host with
  | some secret, some current =>
      if secret = current then return .exact
      else do
        if ← indexesParentDomain (Cbor.utf8 secret) (Cbor.utf8 current) then return .parentDomain
        else
          match registrableDomain psl secret, registrableDomain psl current with
          | some a, some b => if a = b then return .registrableDomain else return .none
          | _, _ => return .none
  | _, _ => return .none

theorem indexesParentDomain_eq (secret current : Bytes) :
    indexesParentDomain secret current = .ok (isParentDomain secret current) := by
  unfold indexesParentDomain isParentDomain
  split
  · rename_i hlonger
    have hlt : secret.length < current.length := by
      rw [Bool.and_eq_true, decide_eq_true_eq] at hlonger
      exact hlonger.2
    have hindex : current.length - secret.length - 1 < current.length := by omega
    have hrest : usizeSub current.length secret.length =
        .ok (current.length - secret.length) := if_pos (by omega)
    have hboundary : usizeSub (current.length - secret.length) 1 =
        .ok (current.length - secret.length - 1) := if_pos (by omega)
    have hbyte : byteAt (ε := Unit) current (current.length - secret.length - 1) =
        .ok current[current.length - secret.length - 1] := by
      rw [byteAt, List.getElem?_eq_getElem hindex]
    rw [hrest, Fallible.ok_bind, hboundary, Fallible.ok_bind, hbyte, Fallible.ok_bind, hlonger,
      List.getElem?_eq_getElem hindex]
    simp
    rfl
  · rename_i hother
    rw [Bool.not_eq_true] at hother
    rw [hother]
    rfl

/-- No index is out of bounds. -/
theorem matchDomainIndexing_eq (psl : Bytes → Option Bytes) (secretDomain host : String) :
    matchDomainIndexing psl secretDomain host = .ok (matchDomain psl secretDomain host) := by
  unfold matchDomainIndexing matchDomain
  cases normalizeHost secretDomain with
  | none => rfl
  | some secret =>
      cases normalizeHost host with
      | none => rfl
      | some current =>
          dsimp only
          split
          · rfl
          · rw [indexesParentDomain_eq, Fallible.ok_bind]
            split
            · rfl
            · cases registrableDomain psl secret with
              | none => rfl
              | some a =>
                  cases registrableDomain psl current with
                  | none => rfl
                  | some b =>
                      dsimp only
                      split <;> rfl

/-! ## Labels -/

/-- The bytes end with those of a hostname behind a dot exactly when the characters do. -/
theorem isParentDomain_utf8_iff (secret current : String) :
    isParentDomain (Cbor.utf8 secret) (Cbor.utf8 current) ↔
      ∃ front, current.toList = front ++ '.' :: secret.toList := by
  have hbytes : ∀ text : String, Cbor.utf8 text = text.toList.flatMap String.utf8EncodeChar := by
    intro text
    rw [← Cbor.utf8_ofList, String.ofList_toList]
  have hdot : String.utf8EncodeChar '.' = [dot] := by decide
  rw [isParentDomain_iff]
  constructor
  · rintro ⟨front, hfront⟩
    rw [hbytes current] at hfront
    obtain ⟨before, after, hchars, hafter⟩ :=
      Cbor.exists_of_utf8_eq_append (a := '.') (by decide) hfront
    refine ⟨before, ?_⟩
    have hsame : Cbor.utf8 (String.ofList after) = Cbor.utf8 secret := by
      rw [Cbor.utf8_ofList, hafter]
    have hread := (Cbor.ofUtf8_eq_some_iff _ _).mpr hsame
    rw [Cbor.ofUtf8_utf8] at hread
    rw [hchars, ← Option.some.inj hread, String.toList_ofList]
  · rintro ⟨front, hfront⟩
    refine ⟨front.flatMap String.utf8EncodeChar, ?_⟩
    rw [hbytes current, hfront, List.flatMap_append, List.flatMap_cons, hdot, ← hbytes]
    rfl

/-- **A parent's labels are the last ones.** -/
theorem isParentDomain_iff_labels (secret current : String) :
    isParentDomain (Cbor.utf8 secret) (Cbor.utf8 current) ↔
      labels secret <:+ labels current ∧ labels secret ≠ labels current := by
  rw [isParentDomain_utf8_iff, labels, labels, splitOn_suffix_iff, Ne, splitOn_inj]
  constructor
  · rintro ⟨front, hfront⟩
    refine ⟨.inr ⟨front, hfront⟩, fun hsame => ?_⟩
    have hlength := congrArg List.length (hsame.trans hfront)
    simp at hlength
    omega
  · rintro ⟨hsame | hfront, hne⟩
    · exact absurd hsame hne
    · exact hfront

/-! ## What a match says -/

/-- The two hostnames are alike label for label. -/
def SameLabels (secretDomain host : String) : Prop :=
  ∃ secret current, normalizeHost secretDomain = some secret ∧ normalizeHost host = some current ∧
    labels secret = labels current

/-- The labels of the secret's domain are the last ones of the host, which has more. -/
def LastLabels (secretDomain host : String) : Prop :=
  ∃ secret current, normalizeHost secretDomain = some secret ∧ normalizeHost host = some current ∧
    labels secret <:+ labels current ∧ labels secret ≠ labels current

/-- The two hostnames have one registrable domain. -/
def SameRegistrable (psl : Bytes → Option Bytes) (secretDomain host : String) : Prop :=
  ∃ secret current, normalizeHost secretDomain = some secret ∧ normalizeHost host = some current ∧
    ∃ domain, registrableDomain psl secret = some domain ∧
      registrableDomain psl current = some domain

section Normalized

variable {psl : Bytes → Option Bytes} {secretDomain host secret current : String}

theorem sameLabels_iff (hsecret : normalizeHost secretDomain = some secret)
    (hcurrent : normalizeHost host = some current) :
    SameLabels secretDomain host ↔ secret = current := by
  simp only [SameLabels, hsecret, hcurrent, Option.some.injEq, exists_and_left, exists_eq_left',
    labels_inj]

theorem lastLabels_iff (hsecret : normalizeHost secretDomain = some secret)
    (hcurrent : normalizeHost host = some current) :
    LastLabels secretDomain host ↔ isParentDomain (Cbor.utf8 secret) (Cbor.utf8 current) := by
  simp only [LastLabels, hsecret, hcurrent, Option.some.injEq, exists_and_left, exists_eq_left',
    isParentDomain_iff_labels]

theorem sameRegistrable_iff (hsecret : normalizeHost secretDomain = some secret)
    (hcurrent : normalizeHost host = some current) :
    SameRegistrable psl secretDomain host ↔
      ∃ domain, registrableDomain psl secret = some domain ∧
        registrableDomain psl current = some domain := by
  simp only [SameRegistrable, hsecret, hcurrent, Option.some.injEq, exists_and_left,
    exists_eq_left']

/-- What a match is, decided by the labels. -/
theorem matchDomain_by_labels (psl : Bytes → Option Bytes) (secretDomain host : String) :
    (SameLabels secretDomain host ∧ matchDomain psl secretDomain host = .exact) ∨
      (¬ SameLabels secretDomain host ∧ LastLabels secretDomain host ∧
        matchDomain psl secretDomain host = .parentDomain) ∨
      (¬ SameLabels secretDomain host ∧ ¬ LastLabels secretDomain host ∧
        SameRegistrable psl secretDomain host ∧
        matchDomain psl secretDomain host = .registrableDomain) ∨
      (¬ SameLabels secretDomain host ∧ ¬ LastLabels secretDomain host ∧
        ¬ SameRegistrable psl secretDomain host ∧
        matchDomain psl secretDomain host = .none) := by
  cases hsecret : normalizeHost secretDomain with
  | none => simp [SameLabels, LastLabels, SameRegistrable, matchDomain, hsecret]
  | some secret =>
      cases hcurrent : normalizeHost host with
      | none => simp [SameLabels, LastLabels, SameRegistrable, matchDomain, hcurrent]
      | some current =>
          rw [sameLabels_iff hsecret hcurrent, lastLabels_iff hsecret hcurrent,
            sameRegistrable_iff hsecret hcurrent]
          simp only [matchDomain, hsecret, hcurrent]
          by_cases hexact : secret = current
          · exact .inl ⟨hexact, if_pos hexact⟩
          · rw [if_neg hexact]
            by_cases hparent : isParentDomain (Cbor.utf8 secret) (Cbor.utf8 current)
            · exact .inr (.inl ⟨hexact, hparent, if_pos hparent⟩)
            · rw [if_neg hparent]
              refine .inr (.inr ?_)
              cases registrableDomain psl secret with
              | none => simp [hexact, hparent]
              | some a =>
                  cases registrableDomain psl current with
                  | none => simp [hexact, hparent]
                  | some b =>
                      by_cases hab : a = b
                      · simp [hexact, hparent, hab]
                      · simp [hexact, hparent, hab, Ne.symm hab]

end Normalized

theorem LastLabels.not_sameLabels {secretDomain host : String} (h : LastLabels secretDomain host) :
    ¬ SameLabels secretDomain host := by
  obtain ⟨secret, current, hsecret, hcurrent, _, hne⟩ := h
  rw [sameLabels_iff hsecret hcurrent]
  exact fun hsame => hne (labels_inj.mpr hsame)

/-- **Matching goes by whole labels.** No index is out of bounds, each kind of match says what
it does about the labels of the two hostnames, and a host that merely ends with the
characters of the secret's domain has no parent in it. -/
theorem match_goes_by_labels (psl : Bytes → Option Bytes) (secretDomain host : String) :
    matchDomainIndexing psl secretDomain host = .ok (matchDomain psl secretDomain host) ∧
      (matchDomain psl secretDomain host = .exact ↔ SameLabels secretDomain host) ∧
      (matchDomain psl secretDomain host = .parentDomain ↔ LastLabels secretDomain host) ∧
      (matchDomain psl secretDomain host = .registrableDomain ↔
        ¬ SameLabels secretDomain host ∧ ¬ LastLabels secretDomain host ∧
          SameRegistrable psl secretDomain host) ∧
      (matchDomain psl secretDomain host = .none ↔
        ¬ SameLabels secretDomain host ∧ ¬ LastLabels secretDomain host ∧
          ¬ SameRegistrable psl secretDomain host) ∧
      ∀ secret current : String, normalizeHost secretDomain = some secret →
        normalizeHost host = some current →
        (∃ front c, c ≠ '.' ∧ current.toList = front ++ c :: secret.toList) →
        matchDomain psl secretDomain host ≠ .parentDomain := by
  have hparent : matchDomain psl secretDomain host = .parentDomain ↔
      LastLabels secretDomain host := by
    rcases matchDomain_by_labels psl secretDomain host with ⟨hsame, h⟩ | h | h | h
    · have hnot : ¬ LastLabels secretDomain host := fun hlast => hlast.not_sameLabels hsame
      simp [h, hnot]
    · simp [h]
    · simp [h]
    · simp [h]
  refine ⟨matchDomainIndexing_eq psl secretDomain host, ?_, hparent, ?_, ?_, ?_⟩
  · rcases matchDomain_by_labels psl secretDomain host with h | h | h | h <;> simp [h]
  · rcases matchDomain_by_labels psl secretDomain host with h | h | h | h <;> simp [h]
  · rcases matchDomain_by_labels psl secretDomain host with h | h | h | h <;> simp [h]
  · rintro secret current hsecret hcurrent ⟨front, c, hc, hfront⟩ hmatch
    obtain ⟨front', hfront'⟩ := (isParentDomain_utf8_iff secret current).mp
      ((lastLabels_iff hsecret hcurrent).mp (hparent.mp hmatch))
    have hlast := List.append_inj' (hfront.symm.trans hfront') rfl
    exact hc (List.cons.inj hlast.2).1

/-- The bytes of a lookalike end with those of the secret's domain, and the byte in front of
them is no dot. -/
example : matchDomain (fun _ => none) "github.com" "notgithub.com" = .none := by decide

end Sypherstore
