/-
# Matching a secret to its site

When a stored domain matches a host, the two should be of one site: the same hostname, or the
same registrable domain. The comparison of registrable domains is made last, though, and a
host that merely ends with the stored domain is matched before it.
-/

import Sypherstore.Core.Domain
import Sypherstore.Logic.Labels
import Sypherstore.Logic.Utf8

namespace Sypherstore

open Logic

/-- The separator of the labels of a hostname. -/
abbrev dot : UInt8 := '.'.toNat.toUInt8

/-- `psl::domain`, for the names that are public suffixes: what it returns is one label longer
than the longest public suffix of the name. -/
def FollowsSuffixes (isPublic : Bytes → Prop) (psl : Bytes → Option Bytes) : Prop :=
  ∀ name domain, psl name = some domain → IsRegistrable dot isPublic domain name

/-- `psl::domain` for a list of public suffixes. A last label is always one. -/
def suffixList (suffixes : List Bytes) : Bytes → Option Bytes :=
  registrablePart dot fun name => !name.contains dot || suffixes.contains name

theorem suffixList_follows (suffixes : List Bytes) :
    FollowsSuffixes (fun name => !name.contains dot || suffixes.contains name)
      (suffixList suffixes) :=
  fun _ _ h => isRegistrable_of_registrablePart h

/-! ## Parents -/

theorem isParentDomain_iff (secret current : Bytes) :
    isParentDomain secret current ↔ ∃ front, current = front ++ dot :: secret := by
  simp only [isParentDomain, Bool.and_eq_true, List.isSuffixOf_iff_suffix, decide_eq_true_eq]
  constructor
  · rintro ⟨⟨⟨front, rfl⟩, hlt⟩, hboundary⟩
    have hpos : 0 < front.length := by
      simp at hlt
      omega
    have hindex : (front ++ secret).length - secret.length - 1 = front.length - 1 := by
      simp
    rw [hindex, List.getElem?_append_left (by omega)] at hboundary
    refine ⟨front.dropLast, ?_⟩
    have hlast : front.getLast? = some dot := by
      rw [List.getLast?_eq_getElem?]
      exact hboundary
    have hfront := List.dropLast_append_getLast? dot hlast
    conv_lhs => rw [← hfront]
    simp
  · rintro ⟨front, rfl⟩
    refine ⟨⟨⟨front ++ [dot], by simp⟩, by simp; omega⟩, ?_⟩
    have hindex : (front ++ dot :: secret).length - secret.length - 1 = front.length := by
      simp
      omega
    rw [hindex, List.getElem?_append_right (Nat.le_refl _)]
    simp

/-! ## Registrable domains -/

theorem utf8Size_asciiLowercase (c : Char) : (asciiLowercase c).utf8Size = c.utf8Size := by
  unfold asciiLowercase
  split
  · rename_i hupper
    have hle : c.toNat ≤ 90 := hupper.2
    have hlower : (Char.ofNat (c.toNat + 32)).toNat = c.toNat + 32 :=
      Cbor.toNat_ofNat_of_lt (by omega)
    rw [Cbor.utf8Size_of_lt (by omega), Cbor.utf8Size_of_lt (by omega)]
  · rfl

/-- What the suffix list finds for a host is its registrable domain in other case. -/
theorem registrableDomain_eq_some {psl : Bytes → Option Bytes} {host domain : String}
    (h : registrableDomain psl host = some domain) :
    ∃ found, psl (Cbor.utf8 host) = some found ∧
      found.length = (Cbor.utf8 domain).length ∧
      domain = ((Cbor.ofUtf8 found).map fun text =>
        String.ofList (text.toList.map asciiLowercase)).getD "" := by
  unfold registrableDomain at h
  split at h
  · cases h
  · obtain ⟨found, hfound, htext⟩ := Option.bind_eq_some_iff.mp h
    obtain ⟨text, hread, rfl⟩ := Option.map_eq_some_iff.mp htext
    refine ⟨found, hfound, ?_, by simp [hread]⟩
    rw [(Cbor.ofUtf8_eq_some_iff found text).mp hread, Cbor.length_utf8, Cbor.length_utf8]
    simp [Function.comp_def, utf8Size_asciiLowercase]

/-- A host and a parent of it have one registrable domain if each has one and that of the
host is no longer than the parent. -/
theorem registrableDomain_of_parent {isPublic : Bytes → Prop} {psl : Bytes → Option Bytes}
    (hpsl : FollowsSuffixes isPublic psl) {secret current a b : String}
    (hparent : isParentDomain (Cbor.utf8 secret) (Cbor.utf8 current))
    (ha : registrableDomain psl secret = some a) (hb : registrableDomain psl current = some b)
    (hle : (Cbor.utf8 b).length ≤ (Cbor.utf8 secret).length) : a = b := by
  obtain ⟨front, hfront⟩ := (isParentDomain_iff _ _).mp hparent
  have haligned : AlignedSuffix dot (Cbor.utf8 secret) (Cbor.utf8 current) := .inr ⟨front, hfront⟩
  obtain ⟨found, hfound, _, rfl⟩ := registrableDomain_eq_some ha
  obtain ⟨found', hfound', hlength, hb⟩ := registrableDomain_eq_some hb
  have hsame : found = found' := by
    apply (hpsl _ _ hfound).unique
    exact (hpsl _ _ hfound').of_aligned haligned (hlength ▸ hle)
  rw [hb, hsame]

/-! ## Matches -/

/-- The two are one hostname, or have one registrable domain. -/
def SameSite (psl : Bytes → Option Bytes) (secretDomain host : String) : Prop :=
  ∃ secret current, normalizeHost secretDomain = some secret ∧
    normalizeHost host = some current ∧
    (secret = current ∨
      ∃ domain, registrableDomain psl secret = some domain ∧
        registrableDomain psl current = some domain)

/-- Where the host ends with the secret's domain, both have a registrable domain, and that
of the host is part of the secret's domain. -/
def ParentIsSite (psl : Bytes → Option Bytes) (secretDomain host : String) : Prop :=
  ∀ secret current, normalizeHost secretDomain = some secret → normalizeHost host = some current →
    isParentDomain (Cbor.utf8 secret) (Cbor.utf8 current) →
    ∃ a b, registrableDomain psl secret = some a ∧ registrableDomain psl current = some b ∧
      (Cbor.utf8 b).length ≤ (Cbor.utf8 secret).length

theorem length_registrableDomain {isPublic : Bytes → Prop} {psl : Bytes → Option Bytes}
    (hpsl : FollowsSuffixes isPublic psl) {host domain : String}
    (h : registrableDomain psl host = some domain) :
    (Cbor.utf8 domain).length ≤ (Cbor.utf8 host).length := by
  obtain ⟨found, hfound, hlength, _⟩ := registrableDomain_eq_some h
  rw [← hlength]
  exact (hpsl _ _ hfound).aligned.length_le

theorem not_isParentDomain_self (name : Bytes) : isParentDomain name name = false := by
  by_contra h
  obtain ⟨front, hfront⟩ := (isParentDomain_iff _ _).mp (by simpa using h)
  have hlength := congrArg List.length hfront
  simp at hlength
  omega

/-- A host below the secret's domain is of its site exactly when the registrable domain of
the host is found in the secret's. -/
theorem parent_same_site_iff {isPublic : Bytes → Prop} {psl : Bytes → Option Bytes}
    (hpsl : FollowsSuffixes isPublic psl) {secret current : String}
    (hparent : isParentDomain (Cbor.utf8 secret) (Cbor.utf8 current)) :
    (∃ domain, registrableDomain psl secret = some domain ∧
        registrableDomain psl current = some domain) ↔
      ∃ a b, registrableDomain psl secret = some a ∧ registrableDomain psl current = some b ∧
        (Cbor.utf8 b).length ≤ (Cbor.utf8 secret).length := by
  constructor
  · rintro ⟨domain, hsecret, hcurrent⟩
    exact ⟨domain, domain, hsecret, hcurrent, length_registrableDomain hpsl hsecret⟩
  · rintro ⟨a, b, ha, hb, hle⟩
    obtain rfl := registrableDomain_of_parent hpsl hparent ha hb hle
    exact ⟨a, ha, hb⟩

/-- The three ways to match. -/
theorem isMatch_matchDomain_iff {psl : Bytes → Option Bytes}
    {secretDomain host secret current : String} (hsecret : normalizeHost secretDomain = some secret)
    (hcurrent : normalizeHost host = some current) :
    (matchDomain psl secretDomain host).isMatch ↔
      secret = current ∨ isParentDomain (Cbor.utf8 secret) (Cbor.utf8 current) ∨
        ∃ domain, registrableDomain psl secret = some domain ∧
          registrableDomain psl current = some domain := by
  simp only [matchDomain, hsecret, hcurrent]
  split
  · rename_i hexact
    exact iff_of_true rfl (.inl hexact)
  · rename_i hexact
    split
    · rename_i hparent
      exact iff_of_true rfl (.inr (.inl hparent))
    · rename_i hparent
      cases registrableDomain psl secret with
      | none => simp [DomainMatch.isMatch, hexact, hparent]
      | some a =>
          cases registrableDomain psl current with
          | none => simp [DomainMatch.isMatch, hexact, hparent]
          | some b =>
              by_cases hab : a = b
              · simp [DomainMatch.isMatch, hab]
              · simp [DomainMatch.isMatch, hexact, hparent, hab, Ne.symm hab]

/-- **A match is a match of sites** exactly when a host that ends with the secret's domain
does so at or above its registrable domain. -/
theorem match_is_same_site_iff (isPublic : Bytes → Prop) (psl : Bytes → Option Bytes)
    (hpsl : FollowsSuffixes isPublic psl) (secretDomain host : String) :
    ((matchDomain psl secretDomain host).isMatch → SameSite psl secretDomain host) ↔
      ParentIsSite psl secretDomain host := by
  cases hsecret : normalizeHost secretDomain with
  | none => simp [matchDomain, ParentIsSite, hsecret, DomainMatch.isMatch]
  | some secret =>
      cases hcurrent : normalizeHost host with
      | none => simp [matchDomain, ParentIsSite, hsecret, hcurrent, DomainMatch.isMatch]
      | some current =>
          rw [isMatch_matchDomain_iff hsecret hcurrent]
          constructor
          · intro hsite secret' current' hsecret' hcurrent' hparent
            obtain rfl := Option.some.inj (hsecret.symm.trans hsecret')
            obtain rfl := Option.some.inj (hcurrent.symm.trans hcurrent')
            obtain ⟨_, _, hs, hc, hsame⟩ := hsite (.inr (.inl hparent))
            obtain rfl := Option.some.inj (hsecret.symm.trans hs)
            obtain rfl := Option.some.inj (hcurrent.symm.trans hc)
            rcases hsame with rfl | hdomain
            · simp [not_isParentDomain_self] at hparent
            · exact (parent_same_site_iff hpsl hparent).mp hdomain
          · intro hsite hmatch
            refine ⟨secret, current, hsecret, hcurrent, ?_⟩
            rcases hmatch with hexact | hparent | hdomain
            · exact .inl hexact
            · exact .inr ((parent_same_site_iff hpsl hparent).mpr
                (hsite secret current hsecret hcurrent hparent))
            · exact .inr hdomain

/-- The suffixes of the examples. -/
def sampleSuffixes : List Bytes := [ascii "co.uk", ascii "com"]

/-- A secret of a site matches on a host below it. -/
theorem a_parent_is_of_the_site :
    matchDomain (suffixList sampleSuffixes) "bbc.co.uk" "news.bbc.co.uk" = .parentDomain ∧
      SameSite (suffixList sampleSuffixes) "bbc.co.uk" "news.bbc.co.uk" := by
  have hmatch : matchDomain (suffixList sampleSuffixes) "bbc.co.uk" "news.bbc.co.uk" =
      .parentDomain := by decide
  refine ⟨hmatch, (match_is_same_site_iff _ _ (suffixList_follows sampleSuffixes) _ _).mpr ?_
    (by rw [hmatch]; rfl)⟩
  intro secret current hsecret hcurrent _
  have hsecret' : normalizeHost "bbc.co.uk" = some "bbc.co.uk" := by decide
  have hcurrent' : normalizeHost "news.bbc.co.uk" = some "news.bbc.co.uk" := by decide
  obtain rfl := Option.some.inj (hsecret.symm.trans hsecret')
  obtain rfl := Option.some.inj (hcurrent.symm.trans hcurrent')
  exact ⟨"bbc.co.uk", "bbc.co.uk", by decide, by decide, by decide⟩

/-- A secret filed under a public suffix matches on every site below it. -/
theorem a_public_suffix_matches_a_site :
    FollowsSuffixes (fun name => !name.contains dot || sampleSuffixes.contains name)
        (suffixList sampleSuffixes) ∧
      matchDomain (suffixList sampleSuffixes) "co.uk" "bbc.co.uk" = .parentDomain ∧
      ¬ SameSite (suffixList sampleSuffixes) "co.uk" "bbc.co.uk" := by
  refine ⟨suffixList_follows sampleSuffixes, by decide, ?_⟩
  rintro ⟨secret, current, hsecret, hcurrent, hsite⟩
  have hsecret' : normalizeHost "co.uk" = some "co.uk" := by decide
  have hcurrent' : normalizeHost "bbc.co.uk" = some "bbc.co.uk" := by decide
  obtain rfl := Option.some.inj (hsecret.symm.trans hsecret')
  obtain rfl := Option.some.inj (hcurrent.symm.trans hcurrent')
  have hnone : registrableDomain (suffixList sampleSuffixes) "co.uk" = none := by decide
  rcases hsite with hsame | ⟨domain, hdomain, _⟩
  · exact absurd hsame (by decide)
  · rw [hnone] at hdomain
    cases hdomain

end Sypherstore
