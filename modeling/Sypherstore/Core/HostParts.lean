/-
# Normalizing a normalized host

What stands in the host's place of an input is cut out in steps, and a step can expose what an
earlier one would have removed: a space behind the scheme, a second `www.`, text behind a
bracket. Where none does, the host that comes out is one that stays.
-/

import Sypherstore.Core.HostTails
import Sypherstore.Logic.Utf8

namespace Sypherstore

open Logic

/-! ## Lower case -/

theorem toNat_asciiLowercase (c : Char) :
    (asciiLowercase c).toNat = if 65 ≤ c.toNat ∧ c.toNat ≤ 90 then c.toNat + 32 else c.toNat := by
  have hcases : ('A' ≤ c ∧ c ≤ 'Z') ↔ 65 ≤ c.toNat ∧ c.toNat ≤ 90 := Iff.rfl
  rw [asciiLowercase, apply_ite Char.toNat]
  simp only [hcases]
  split
  · exact Cbor.toNat_ofNat_of_lt (by omega)
  · rfl

theorem isAsciiAlphanumeric_iff (c : Char) :
    isAsciiAlphanumeric c ↔ (48 ≤ c.toNat ∧ c.toNat ≤ 57) ∨ (97 ≤ c.toNat ∧ c.toNat ≤ 122) ∨
      (65 ≤ c.toNat ∧ c.toNat ≤ 90) := by
  simp only [isAsciiAlphanumeric, Bool.or_eq_true, Bool.and_eq_true, decide_eq_true_eq, or_assoc]
  exact Iff.rfl

/-- Only letters are changed, and into letters. -/
theorem asciiLowercase_eq_iff {c p : Char} (hp : isAsciiAlphanumeric p = false) :
    asciiLowercase c = p ↔ c = p := by
  have hp' := mt (isAsciiAlphanumeric_iff p).mpr (by simp [hp])
  rw [← Char.toNat_inj, ← Char.toNat_inj, toNat_asciiLowercase]
  split <;> omega

@[simp] theorem isWhitespace_asciiLowercase (c : Char) :
    isWhitespace (asciiLowercase c) = isWhitespace c := by
  rw [Bool.eq_iff_iff]
  simp only [isWhitespace, Bool.or_eq_true, Bool.and_eq_true, decide_eq_true_eq,
    toNat_asciiLowercase]
  split <;> omega

@[simp] theorem asciiLowercase_asciiLowercase (c : Char) :
    asciiLowercase (asciiLowercase c) = asciiLowercase c := by
  rw [← Char.toNat_inj, toNat_asciiLowercase (asciiLowercase c), toNat_asciiLowercase c]
  by_cases hupper : 65 ≤ c.toNat ∧ c.toNat ≤ 90
  · rw [if_pos hupper, if_neg (by omega)]
  · rw [if_neg hupper, if_neg hupper]

@[simp] theorem isAsciiAlphanumeric_asciiLowercase (c : Char) :
    isAsciiAlphanumeric (asciiLowercase c) = isAsciiAlphanumeric c := by
  rw [Bool.eq_iff_iff, isAsciiAlphanumeric_iff, isAsciiAlphanumeric_iff, toNat_asciiLowercase]
  split <;> omega

/-- A text in lower case. -/
def lower (text : List Char) : List Char := text.map asciiLowercase

@[simp] theorem length_lower (text : List Char) : (lower text).length = text.length := by
  simp [lower]

@[simp] theorem lower_lower (text : List Char) : lower (lower text) = lower text := by
  simp [lower]

theorem mem_lower_iff {text : List Char} {p : Char} (hp : isAsciiAlphanumeric p = false) :
    p ∈ lower text ↔ p ∈ text := by
  simp [lower, asciiLowercase_eq_iff hp]

theorem head?_lower_iff {text : List Char} {p : Char} (hp : isAsciiAlphanumeric p = false) :
    (lower text).head? = some p ↔ text.head? = some p := by
  cases text with
  | nil => simp [lower]
  | cons c text => simp [lower, asciiLowercase_eq_iff hp]

theorem trimChars_lower (text : List Char) : trimChars (lower text) = lower (trimChars text) := by
  have hsame : isWhitespace ∘ asciiLowercase = isWhitespace :=
    funext isWhitespace_asciiLowercase
  simp only [trimChars, lower, List.rdropWhile, List.dropWhile_map, ← List.map_reverse, hsame]

/-! ## The steps -/

/-- What follows a pattern stands behind it. -/
theorem eq_append_of_afterFirst {pattern text rest : List Char}
    (h : afterFirst pattern text = some rest) : ∃ front, text = front ++ pattern ++ rest := by
  induction text with
  | nil =>
      rw [afterFirst] at h
      split at h
      · rename_i hempty
        cases h
        exact ⟨[], by simp [List.isEmpty_iff.mp hempty]⟩
      · cases h
  | cons c text ih =>
      rw [afterFirst] at h
      split at h
      · rename_i hkeeps
        cases h
        obtain ⟨rest, hrest⟩ := List.isPrefixOf_iff_prefix.mp hkeeps
        exact ⟨[], by rw [← hrest]; simp⟩
      · obtain ⟨front, rfl⟩ := ih h
        exact ⟨c :: front, by simp⟩

theorem afterFirst_eq_none {pattern text : List Char} {c : Char} (hc : c ∈ pattern)
    (htext : c ∉ text) : afterFirst pattern text = none := by
  rw [Option.eq_none_iff_forall_ne_some]
  intro rest h
  obtain ⟨front, rfl⟩ := eq_append_of_afterFirst h
  simp [hc] at htext

/-- The authority of a text that has no scheme and no tail is the text. -/
theorem authorityOf_eq_self {text : List Char} (h : ∀ c ∈ text, startsTail c = false) :
    authorityOf text = text := by
  have hslash : '/' ∉ text := fun hmem => by simpa [startsTail] using h '/' hmem
  rw [authorityOf, afterFirst_eq_none (c := '/') (by decide) hslash, Option.getD_none,
    List.takeWhile_eq_self_iff]
  exact fun c hc => by simpa [startsTail] using h c hc

theorem startsTail_of_mem_authorityOf {text : List Char} {c : Char} (h : c ∈ authorityOf text) :
    startsTail c = false := by
  have hkept := List.mem_takeWhile_imp h
  simpa [startsTail] using hkept

theorem authorityOf_sublist (text : List Char) : (authorityOf text).Sublist text := by
  refine (List.takeWhile_sublist _).trans ?_
  cases hafter : afterFirst "://".toList text with
  | none => exact List.Sublist.refl text
  | some rest =>
      obtain ⟨front, rfl⟩ := eq_append_of_afterFirst hafter
      exact List.sublist_append_right _ _

theorem withoutUserInfo_eq (text : List Char) :
    withoutUserInfo text = text.rtakeWhile (· ≠ '@') := rfl

theorem withoutUserInfo_sublist (text : List Char) : (withoutUserInfo text).Sublist text :=
  (List.rtakeWhile_suffix _ _).sublist

theorem not_mem_withoutUserInfo (text : List Char) : '@' ∉ withoutUserInfo text := by
  intro h
  rw [withoutUserInfo, List.mem_reverse] at h
  simpa using List.mem_takeWhile_imp h

/-- What follows the last `@`. -/
theorem withoutUserInfo_append {front back : List Char} (h : '@' ∉ back) :
    withoutUserInfo (front ++ '@' :: back) = back := by
  have hkept : ∀ c ∈ back.reverse, decide (c ≠ '@') = true := by
    intro c hc
    have hne : c ≠ '@' := ne_of_mem_of_not_mem (List.mem_reverse.mp hc) h
    simpa using hne
  rw [withoutUserInfo, List.reverse_append, List.reverse_cons, List.append_assoc,
    List.takeWhile_append_of_pos hkept]
  simp

theorem withoutUserInfo_eq_self {text : List Char} (h : '@' ∉ text) :
    withoutUserInfo text = text := by
  rw [withoutUserInfo_eq, List.rtakeWhile_eq_self_iff]
  intro c hc
  have hne : c ≠ '@' := ne_of_mem_of_not_mem hc h
  simpa using hne

/-- A bracketed literal keeps its colons, and loses what follows it. -/
theorem withoutPort_literal {literal : List Char} (h : ']' ∉ literal) (rest : List Char) :
    withoutPort ('[' :: literal ++ ']' :: rest) = '[' :: literal ++ [']'] := by
  have hkept : ∀ c ∈ '[' :: literal, decide (c ≠ ']') = true := by
    rw [List.forall_mem_cons]
    refine ⟨by decide, fun c hc => ?_⟩
    have hne : c ≠ ']' := ne_of_mem_of_not_mem hc h
    simpa using hne
  have hcut : ('[' :: literal ++ ']' :: rest).takeWhile (· ≠ ']') = '[' :: literal := by
    rw [List.takeWhile_append_of_pos hkept]
    simp
  have hclosed : ('[' :: literal ++ ']' :: rest).contains ']' := by simp
  calc withoutPort ('[' :: literal ++ ']' :: rest)
      = ('[' :: literal ++ ']' :: rest).takeWhile (· ≠ ']') ++ [']'] := if_pos hclosed
    _ = '[' :: literal ++ [']'] := by rw [hcut]

/-- The brackets of a literal are the first characters of their kind, or there is no literal and
no port. -/
theorem withoutPort_cases (text : List Char) :
    (text.head? = some '[' ∧ ']' ∉ text ∧ withoutPort text = text) ∨
      (∃ literal rest, ']' ∉ literal ∧ text = '[' :: literal ++ ']' :: rest ∧
        withoutPort text = '[' :: literal ++ [']']) ∨
      (text.head? ≠ some '[' ∧ withoutPort text = text.takeWhile (· ≠ ':')) := by
  unfold withoutPort
  split
  · rename_i rest
    by_cases hclosed : ']' ∈ rest
    · right
      left
      obtain ⟨literal, behind, rfl, hliteral⟩ := List.eq_append_cons_of_mem hclosed
      refine ⟨literal, behind, hliteral, rfl, ?_⟩
      exact withoutPort_literal hliteral behind
    · left
      have hnone : ']' ∉ '[' :: rest := by simpa using hclosed
      refine ⟨rfl, hnone, if_neg ?_⟩
      simpa using hclosed
  · rename_i hother
    right
    right
    refine ⟨fun h => ?_, rfl⟩
    obtain ⟨rest, hrest⟩ := List.head?_eq_some_iff.mp h
    exact hother rest hrest

theorem withoutPort_sublist (text : List Char) : (withoutPort text).Sublist text := by
  obtain ⟨_, _, h⟩ | ⟨literal, rest, _, rfl, h⟩ | ⟨_, h⟩ := withoutPort_cases text
  · rw [h]
  · rw [h]
    exact List.Sublist.append_left (by simp) _
  · rw [h]
    exact List.takeWhile_sublist _

theorem trimEndMatches_eq (c : Char) (text : List Char) :
    trimEndMatches c text = text.rdropWhile (· = c) := rfl

theorem trimEndMatches_sublist (c : Char) (text : List Char) :
    (trimEndMatches c text).Sublist text :=
  (List.rdropWhile_prefix _ _).sublist

/-- A port is cut off, and what follows a bracket, where there is one. -/
theorem withoutPort_eq_self_iff {text : List Char} :
    withoutPort text = text ↔
      (text.head? = some '[' → ']' ∉ text.dropLast) ∧ (text.head? = some '[' ∨ ':' ∉ text) := by
  obtain ⟨hhead, hopen, h⟩ | ⟨literal, rest, hliteral, rfl, h⟩ | ⟨hhead, h⟩ :=
    withoutPort_cases text
  · refine iff_of_true h ⟨fun _ hmem => hopen (List.dropLast_subset _ hmem), .inl hhead⟩
  · rw [h]
    constructor
    · intro hsame
      have hrest : rest = [] := by
        simpa using congrArg List.length hsame
      refine ⟨fun _ => ?_, .inl rfl⟩
      rw [hrest, List.dropLast_concat]
      simpa using hliteral
    · rintro ⟨hclosed, _⟩
      cases rest with
      | nil => rfl
      | cons c rest =>
          refine absurd ?_ (hclosed rfl)
          rw [List.dropLast_append_cons, List.dropLast_cons_cons]
          simp
  · rw [h, List.takeWhile_eq_self_iff]
    constructor
    · refine fun hkept => ⟨fun hopen => absurd hopen hhead, .inr fun hmem => ?_⟩
      simpa using hkept ':' hmem
    · rintro ⟨_, hnone⟩ c hc
      have hne : c ≠ ':' := ne_of_mem_of_not_mem hc (hnone.resolve_left hhead)
      simpa using hne

/-- The text begins with `www.`, in any case. -/
def startsWww (text : List Char) : Bool := "www.".toList.isPrefixOf (lower text)

/-- The text behind one `www.`. -/
def afterWww (text : List Char) : List Char := if startsWww text then text.drop 4 else text

theorem withoutWww_lower (text : List Char) : withoutWww (lower text) = lower (afterWww text) := by
  unfold withoutWww afterWww startsWww
  split
  · exact List.map_drop.symm
  · rfl

theorem afterWww_suffix (text : List Char) : afterWww text <:+ text := by
  unfold afterWww
  split
  · exact List.drop_suffix _ _
  · exact List.suffix_rfl

theorem afterWww_eq_self_iff {text : List Char} :
    afterWww text = text ↔ startsWww text = false := by
  unfold afterWww
  split
  · rename_i hwww
    have hlength := (List.isPrefixOf_iff_prefix.mp hwww).length_le
    rw [length_lower] at hlength
    refine iff_of_false (fun hsame => ?_) (by simp [hwww])
    have hshort := congrArg List.length hsame
    rw [List.length_drop] at hshort
    have hfour : "www.".toList.length = 4 := by decide
    omega
  · rename_i hother
    exact iff_of_true rfl (by simpa using hother)

theorem startsWww_lower (text : List Char) : startsWww (lower text) = startsWww text := by
  rw [startsWww, lower_lower, startsWww]

/-- A text that begins with `www.` begins with no bracket. -/
theorem head?_ne_of_startsWww {text : List Char} (h : startsWww text) :
    text.head? ≠ some '[' := by
  rw [Ne, ← head?_lower_iff (by decide)]
  obtain ⟨rest, hrest⟩ := List.isPrefixOf_iff_prefix.mp h
  rw [← hrest]
  simp

/-! ## The host's place -/

/-- What stands in the host's place: the authority without user info, port and the dots at the
end. -/
def hostPart (text : List Char) : List Char :=
  trimEndMatches '.' (withoutPort (withoutUserInfo (authorityOf text)))

theorem hostPart_sublist (text : List Char) : (hostPart text).Sublist text :=
  (trimEndMatches_sublist _ _).trans <| (withoutPort_sublist _).trans <|
    (withoutUserInfo_sublist _).trans (authorityOf_sublist text)

/-- The steps of `normalize_host` on a text without a hostless scheme. -/
theorem normalizeHost_eq_ite {input : String}
    (h : hasHostlessScheme (trimChars input.toList) = false) :
    normalizeHost input =
      if (lower (afterWww (hostPart (trimChars input.toList)))).any isAsciiAlphanumeric then
        some (String.ofList (lower (afterWww (hostPart (trimChars input.toList)))))
      else none := by
  rw [normalizeHost_eq h, ← withoutWww_lower]
  rfl

theorem normalizeHost_eq_some_iff {input name : String} :
    normalizeHost input = some name ↔
      hasHostlessScheme (trimChars input.toList) = false ∧
        String.ofList (lower (afterWww (hostPart (trimChars input.toList)))) = name ∧
        (lower (afterWww (hostPart (trimChars input.toList)))).any isAsciiAlphanumeric := by
  cases hscheme : hasHostlessScheme (trimChars input.toList) with
  | false => simp [normalizeHost_eq_ite hscheme, and_comm]
  | true =>
      have hnone : normalizeHost input = none := by
        unfold normalizeHost
        simp [toList_trim, hscheme]
      simp [hnone]

/-- A text as it stands in the host's place. -/
structure IsHostText (text : List Char) : Prop where
  tail : ∀ c ∈ text, startsTail c = false
  userInfo : '@' ∉ text
  port : text.head? = some '[' ∨ ':' ∉ text
  dot : text.getLast? ≠ some '.'

theorem isHostText_hostPart (text : List Char) : IsHostText (hostPart text) := by
  have hkeeps : hostPart text <+: withoutPort (withoutUserInfo (authorityOf text)) :=
    List.rdropWhile_prefix _ _
  have hsub : ∀ c ∈ hostPart text, c ∈ withoutUserInfo (authorityOf text) := fun c hc =>
    (withoutPort_sublist _).subset (hkeeps.subset hc)
  refine ⟨fun c hc => ?_, fun hmem => not_mem_withoutUserInfo _ (hsub _ hmem), ?_, fun hlast => ?_⟩
  · exact startsTail_of_mem_authorityOf ((withoutUserInfo_sublist _).subset (hsub c hc))
  · have ⟨rest, hrest⟩ := hkeeps
    obtain ⟨hhead, _, h⟩ | ⟨literal, behind, _, _, h⟩ | ⟨_, h⟩ :=
      withoutPort_cases (withoutUserInfo (authorityOf text))
    · cases hpart : hostPart text with
      | nil => simp
      | cons c part =>
          rw [h, hpart] at hrest
          rw [← hrest] at hhead
          exact .inl hhead
    · cases hpart : hostPart text with
      | nil => simp
      | cons c part =>
          rw [h, hpart] at hrest
          exact .inl (congrArg some (List.cons.inj hrest).1)
    · right
      intro hmem
      have hkept := hkeeps.subset hmem
      rw [h] at hkept
      simpa using List.mem_takeWhile_imp hkept
  · have hne : hostPart text ≠ [] := by
      rintro hnil
      simp [hnil] at hlast
    have hstop := List.rdropWhile_last_not (fun c => decide (c = '.'))
      (withoutPort (withoutUserInfo (authorityOf text))) hne
    rw [List.getLast?_eq_some_getLast hne] at hlast
    have hdot := Option.some.inj hlast
    exact hstop (decide_eq_true hdot)

namespace IsHostText

variable {text : List Char}

/-- Case does not matter to the host's place. -/
theorem lower (h : IsHostText text) : IsHostText (lower text) where
  tail := by
    intro c hc
    obtain ⟨d, hd, rfl⟩ := List.mem_map.mp hc
    have hplain := h.tail d hd
    simp only [startsTail, Bool.or_eq_false_iff, decide_eq_false_iff_not] at hplain ⊢
    rwa [asciiLowercase_eq_iff (by decide), asciiLowercase_eq_iff (by decide),
      asciiLowercase_eq_iff (by decide)]
  userInfo := by
    rw [mem_lower_iff (by decide)]
    exact h.userInfo
  port := by
    rw [head?_lower_iff (by decide), mem_lower_iff (by decide)]
    exact h.port
  dot := by
    rw [Sypherstore.lower, List.getLast?_map]
    intro hlast
    obtain ⟨c, hc, hdot⟩ := Option.map_eq_some_iff.mp hlast
    rw [asciiLowercase_eq_iff (by decide)] at hdot
    exact h.dot (hdot ▸ hc)

/-- Nor does a `www.` in front. -/
theorem afterWww (h : IsHostText text) : IsHostText (afterWww text) where
  tail c hc := h.tail c ((afterWww_suffix text).subset hc)
  userInfo hmem := h.userInfo ((afterWww_suffix text).subset hmem)
  port := by
    by_cases hwww : startsWww text
    · have hnone := h.port.resolve_left (head?_ne_of_startsWww hwww)
      exact .inr fun hmem => hnone ((afterWww_suffix text).subset hmem)
    · rw [afterWww_eq_self_iff.mpr (by simpa using hwww)]
      exact h.port
  dot := by
    intro hlast
    obtain ⟨front, hfront⟩ := afterWww_suffix text
    apply h.dot
    rw [← hfront, List.getLast?_append, hlast]
    rfl

/-- A bracket at the front names no scheme, and without one there is no colon. -/
theorem not_hostlessScheme (h : IsHostText text) : hasHostlessScheme text = false := by
  rcases h.port with hopen | hcolon
  · obtain ⟨rest, rfl⟩ := List.head?_eq_some_iff.mp hopen
    have hcut : ('[' :: rest).takeWhile (· ≠ ':') = '[' :: rest.takeWhile (· ≠ ':') := by simp
    have hlower : asciiLowercase '[' = '[' := by decide
    rw [hasHostlessScheme, hcut, Bool.and_eq_false_iff, List.any_eq_false]
    right
    intro scheme hscheme hequal
    have hmem : '[' ∈ scheme.toList.map asciiLowercase := by
      rw [← of_decide_eq_true hequal, List.map_cons, hlower]
      exact List.mem_cons_self
    have hnone : hostlessSchemes.all fun scheme =>
        !(scheme.toList.map asciiLowercase).contains '[' := by decide
    simpa [hmem] using List.all_eq_true.mp hnone scheme hscheme
  · simp [hasHostlessScheme, hcolon]

/-- Such a text is its own host's place, unless something follows a bracket. -/
theorem hostPart_eq_self_iff (h : IsHostText text) :
    hostPart text = text ↔ (text.head? = some '[' → ']' ∉ text.dropLast) := by
  rw [hostPart, authorityOf_eq_self h.tail, withoutUserInfo_eq_self h.userInfo]
  constructor
  · intro hsame
    have hlength := congrArg List.length hsame
    have htrim := (trimEndMatches_sublist '.' (withoutPort text)).length_le
    have hport : withoutPort text = text :=
      (withoutPort_sublist text).eq_of_length_le (hlength ▸ htrim)
    exact (withoutPort_eq_self_iff.mp hport).1
  · intro hclosed
    rw [withoutPort_eq_self_iff.mpr ⟨hclosed, h.port⟩, trimEndMatches_eq,
      List.rdropWhile_eq_self_iff]
    intro hne hdot
    apply h.dot
    rw [List.getLast?_eq_some_getLast hne]
    exact congrArg some (by simpa using hdot)

end IsHostText

/-! ## Normalizing again -/

/-- Behind at most one `www.`, no step has anything to remove: no space at the ends, no other
`www.`, and nothing behind a bracket. -/
structure Settled (text : List Char) : Prop where
  trimmed : trimChars (afterWww text) = afterWww text
  single : startsWww (afterWww text) = false
  closed : (afterWww text).head? = some '[' → ']' ∉ (afterWww text).dropLast

instance (text : List Char) : Decidable (Settled text) :=
  decidable_of_iff
    (trimChars (afterWww text) = afterWww text ∧ startsWww (afterWww text) = false ∧
      ((afterWww text).head? = some '[' → ']' ∉ (afterWww text).dropLast))
    ⟨fun ⟨h, h', h''⟩ => ⟨h, h', h''⟩, fun h => ⟨h.trimmed, h.single, h.closed⟩⟩

theorem trimChars_sublist (text : List Char) : (trimChars text).Sublist text :=
  (List.rdropWhile_prefix _ _).sublist.trans (List.dropWhile_suffix _).sublist

/-- A text that is normalized to itself is not changed by any step. -/
theorem steps_of_lower_eq {text : List Char}
    (h : lower (afterWww (hostPart (trimChars text))) = text) :
    trimChars text = text ∧ hostPart text = text ∧ afterWww text = text := by
  have hlength := congrArg List.length h
  rw [length_lower] at hlength
  have hwww := (afterWww_suffix (hostPart (trimChars text))).length_le
  have hpart := (hostPart_sublist (trimChars text)).length_le
  have htrim := (trimChars_sublist text).length_le
  have htrimmed : trimChars text = text := (trimChars_sublist text).eq_of_length (by omega)
  rw [htrimmed] at hlength hwww hpart
  have hhost : hostPart text = text := (hostPart_sublist text).eq_of_length (by omega)
  rw [hhost] at hlength
  exact ⟨htrimmed, hhost, (afterWww_suffix text).eq_of_length hlength⟩

/-- Case does not matter to what follows a bracket. -/
theorem closed_lower_iff {text : List Char} :
    ((lower text).head? = some '[' → ']' ∉ (lower text).dropLast) ↔
      (text.head? = some '[' → ']' ∉ text.dropLast) := by
  have hdropLast : (lower text).dropLast = lower text.dropLast := List.map_dropLast.symm
  rw [head?_lower_iff (by decide), hdropLast, mem_lower_iff (by decide)]

/-- **A normalized host stays as it is** exactly when no step exposes anything that an earlier
one removes. -/
theorem normalized_host_stays_iff (input name : String) (h : normalizeHost input = some name) :
    normalizeHost name = some name ↔ Settled (hostPart (trim input).toList) := by
  rw [toList_trim]
  obtain ⟨-, rfl, halnum⟩ := normalizeHost_eq_some_iff.mp h
  have htext := (isHostText_hostPart (trimChars input.toList)).afterWww.lower
  generalize hostPart (trimChars input.toList) = part at h halnum htext ⊢
  constructor
  · intro hagain
    obtain ⟨-, hsame, -⟩ := normalizeHost_eq_some_iff.mp hagain
    rw [String.toList_ofList] at hsame
    obtain ⟨htrim, hhost, hwww⟩ := steps_of_lower_eq (String.ofList_injective hsame)
    have hclosed := htext.hostPart_eq_self_iff.mp hhost
    rw [afterWww_eq_self_iff, startsWww_lower] at hwww
    rw [trimChars_lower] at htrim
    have hlength := congrArg List.length htrim
    rw [length_lower, length_lower] at hlength
    exact ⟨(trimChars_sublist _).eq_of_length hlength, hwww, closed_lower_iff.mp hclosed⟩
  · rintro ⟨htrim, hsingle, hclosed⟩
    have hhost := htext.hostPart_eq_self_iff.mpr (closed_lower_iff.mpr hclosed)
    have hwww : afterWww (lower (afterWww part)) = lower (afterWww part) := by
      rw [afterWww_eq_self_iff, startsWww_lower]
      exact hsingle
    have hplain : trimChars (lower (afterWww part)) = lower (afterWww part) := by
      rw [trimChars_lower, htrim]
    rw [normalizeHost_eq_some_iff, String.toList_ofList, hplain, hhost, hwww, lower_lower]
    exact ⟨htext.not_hostlessScheme, rfl, halnum⟩

/-- The host of an ordinary page. -/
theorem an_ordinary_host_stays :
    normalizeHost "https://WWW.GitHub.com:8443/login" = some "github.com" ∧
      normalizeHost "github.com" = some "github.com" := by
  have hname : normalizeHost "https://WWW.GitHub.com:8443/login" = some "github.com" := by decide
  exact ⟨hname, (normalized_host_stays_iff _ _ hname).mpr (by decide)⟩

/-- A second `www.` comes off with the second pass, a space behind the scheme too, and so does
what follows a bracket. -/
theorem a_second_pass_changes_hosts :
    (normalizeHost "www.www.example.com" = some "www.example.com" ∧
        normalizeHost "www.example.com" = some "example.com") ∧
      (normalizeHost "http:// example.com" = some " example.com" ∧
        normalizeHost " example.com" = some "example.com") ∧
      (normalizeHost "www.[1]x" = some "[1]x" ∧ normalizeHost "[1]x" = some "[1]") ∧
      ¬ ∀ input name : String, normalizeHost input = some name →
        normalizeHost name = some name := by
  refine ⟨by decide, by decide, by decide, fun hall => ?_⟩
  have hagain := hall "www.www.example.com" "www.example.com" (by decide)
  exact absurd hagain (by decide)

end Sypherstore
