/-
# What follows a hostname

A hostname that is typed without a scheme, and a path, a query or a fragment behind it. These
should not decide the host, and they do not unless they hold `://` themselves: the scheme is
looked for in the whole text, before the authority is cut off.
-/

import Sypherstore.Core.Domain

namespace Sypherstore

open Logic

/-- A path, a query or a fragment starts here. -/
def startsTail (c : Char) : Bool := c = '/' || c = '?' || c = '#'

/-- A character of a bare hostname: none that means something around one. The letters, the
digits, the hyphen and the dot are all such. -/
def isHostCharacter (c : Char) : Bool :=
  !isWhitespace c && !startsTail c && c ≠ ':' && c ≠ '@' && c ≠ '['

example : "AZaz09-.".toList.all isHostCharacter := by decide

/-- The steps of `normalize_host` once the scheme is gone. -/
def hostOfAuthority (text : List Char) : Option String :=
  let host := withoutPort (withoutUserInfo (text.takeWhile fun c => !startsTail c))
  let host := withoutWww ((trimEndMatches '.' host).map asciiLowercase)
  if host.any isAsciiAlphanumeric then some (String.ofList host) else none

/-- A text without a hostless scheme names what stands behind its first `://`. -/
theorem normalizeHost_eq {input : String} (h : hasHostlessScheme (trimChars input.toList) = false) :
    normalizeHost input = hostOfAuthority
      ((afterFirst "://".toList (trimChars input.toList)).getD (trimChars input.toList)) := by
  have hunfold : normalizeHost input =
      if (trimChars input.toList).isEmpty then none
      else if hasHostlessScheme (trimChars input.toList) then none
      else hostOfAuthority
        ((afterFirst "://".toList (trimChars input.toList)).getD (trimChars input.toList)) := by
    rw [← toList_trim]
    rfl
  rw [hunfold, h]
  cases hempty : trimChars input.toList with
  | nil =>
      have hnothing : hostOfAuthority [] = none := by decide
      exact hnothing.symm
  | cons c rest => simp

/-- A pattern is not found where its first character is missing. -/
theorem afterFirst_append {first : Char} {pattern front : List Char} (h : first ∉ front)
    (back : List Char) :
    afterFirst (first :: pattern) (front ++ back) = afterFirst (first :: pattern) back := by
  induction front with
  | nil => rfl
  | cons c front ih =>
      have hne : first ≠ c := fun heq => h (heq ▸ List.mem_cons_self)
      rw [List.cons_append, afterFirst]
      simp only [List.isPrefixOf, beq_eq_false_iff_ne.mpr hne, Bool.false_and,
        Bool.false_eq_true, if_false]
      exact ih fun hmem => h (List.mem_cons_of_mem _ hmem)

/-! ## Hostless schemes -/

theorem asciiLowercase_of_startsTail {c : Char} (h : startsTail c) : asciiLowercase c = c := by
  simp only [startsTail, Bool.or_eq_true, decide_eq_true_eq] at h
  obtain (rfl | rfl) | rfl := h <;> decide

/-- No hostless scheme has a character that starts a tail. -/
theorem hostlessSchemes_not_startsTail : ∀ scheme ∈ hostlessSchemes,
    ∀ c ∈ scheme.toList.map asciiLowercase, startsTail c = false := by
  have hnone : ∀ scheme ∈ hostlessSchemes,
      (scheme.toList.map asciiLowercase).any startsTail = false := by decide
  intro scheme hscheme c hc
  exact Bool.eq_false_iff.mpr (List.any_eq_false.mp (hnone scheme hscheme) c hc)

theorem not_hostlessScheme_of_startsTail {scheme : List Char} {c : Char} (hc : c ∈ scheme)
    (htail : startsTail c) :
    (hostlessSchemes.any fun name => eqIgnoreAsciiCase scheme name.toList) = false := by
  rw [List.any_eq_false]
  intro name hname hequal
  have hlower : c ∈ name.toList.map asciiLowercase := by
    rw [← of_decide_eq_true hequal, ← asciiLowercase_of_startsTail htail]
    exact List.mem_map_of_mem hc
  simp [hostlessSchemes_not_startsTail name hname c hlower] at htail

/-! ## Bare hostnames -/

/-- The text could be a hostname, and nothing else. -/
def IsBareHost (host : List Char) : Prop := ∀ c ∈ host, isHostCharacter c

/-- A tail is empty, or starts as one does. -/
def IsTail (tail : List Char) : Prop := ∀ c ∈ tail.head?, startsTail c

instance (host : List Char) : Decidable (IsBareHost host) :=
  List.decidableBAll (fun c => isHostCharacter c = true) host

instance (tail : List Char) : Decidable (IsTail tail) :=
  Option.decidableForallMem tail.head?

namespace IsBareHost

variable {host tail : List Char}

theorem not_mem (h : IsBareHost host) {c : Char} (hc : isHostCharacter c = false) : c ∉ host := by
  intro hmem
  simp [h c hmem] at hc

theorem not_whitespace (h : IsBareHost host) : ∀ c ∈ host, isWhitespace c = false := by
  intro c hc
  have hbare := h c hc
  simp only [isHostCharacter, Bool.and_eq_true, Bool.not_eq_true'] at hbare
  exact hbare.1.1.1.1

theorem not_startsTail (h : IsBareHost host) : ∀ c ∈ host, startsTail c = false := by
  intro c hc
  have hbare := h c hc
  simp only [isHostCharacter, Bool.and_eq_true, Bool.not_eq_true'] at hbare
  exact hbare.1.1.1.2

/-- A colon in the tail ends no scheme: the tail's first character stands before it. -/
theorem not_hostlessScheme (h : IsBareHost host) (htail : IsTail tail) :
    hasHostlessScheme (host ++ tail) = false := by
  have hcolon : ':' ∉ host := h.not_mem (by decide)
  cases tail with
  | nil => simp [hasHostlessScheme, hcolon]
  | cons d rest =>
      have hd : startsTail d := htail d rfl
      have hne : d ≠ ':' := by
        rintro rfl
        cases hd
      have hbefore : d ∈ (host ++ d :: rest).takeWhile (· ≠ ':') := by
        rw [List.takeWhile_append_of_pos]
        · simp [hne]
        · intro c hc
          have hother : c ≠ ':' := ne_of_mem_of_not_mem hc hcolon
          simpa using hother
      rw [hasHostlessScheme, not_hostlessScheme_of_startsTail hbefore hd, Bool.and_false]

/-- The authority ends where the tail starts. -/
theorem hostOfAuthority_append (h : IsBareHost host) (htail : IsTail tail) :
    hostOfAuthority (host ++ tail) = hostOfAuthority host := by
  have hcut : (host ++ tail).takeWhile (fun c => !startsTail c) =
      host.takeWhile fun c => !startsTail c := by
    have hhost : host.takeWhile (fun c => !startsTail c) = host := by
      rw [List.takeWhile_eq_self_iff]
      intro c hc
      simp [h.not_startsTail c hc]
    have hnone : tail.takeWhile (fun c => !startsTail c) = [] := by
      cases tail with
      | nil => rfl
      | cons d rest => simp [htail d rfl]
    rw [hhost, List.takeWhile_append_of_pos, hnone, List.append_nil]
    intro c hc
    simp [h.not_startsTail c hc]
  rw [hostOfAuthority, hostOfAuthority, hcut]

end IsBareHost

theorem not_whitespace_of_startsTail {c : Char} (h : startsTail c) : isWhitespace c = false := by
  simp only [startsTail, Bool.or_eq_true, decide_eq_true_eq] at h
  obtain (rfl | rfl) | rfl := h <;> decide

theorem IsTail.not_whitespace {tail : List Char} (h : IsTail tail) :
    ∀ c ∈ tail.head?, isWhitespace c = false :=
  fun c hc => not_whitespace_of_startsTail (h c hc)

/-- What is trimmed of a tail is at its end. -/
theorem IsTail.trimChars {tail : List Char} (h : IsTail tail) : IsTail (trimChars tail) := by
  obtain ⟨rest, hrest⟩ := trimChars_prefix_of_head h.not_whitespace
  intro c hc
  apply h c
  rw [← hrest, List.head?_append, Option.mem_def.mp hc]
  rfl

/-! ## The host is decided by the hostname -/

theorem IsBareHost.normalizeHost_append {host tail : String} (hhost : IsBareHost host.toList)
    (htail : IsTail tail.toList) :
    normalizeHost (host ++ tail) = hostOfAuthority
      ((afterFirst "://".toList (Logic.trimChars tail.toList)).getD host.toList) := by
  have htrim : Logic.trimChars (host ++ tail).toList =
      host.toList ++ Logic.trimChars tail.toList := by
    rw [String.toList_append]
    exact trimChars_append hhost.not_whitespace htail.not_whitespace
  have hscheme : hasHostlessScheme (Logic.trimChars (host ++ tail).toList) = false := by
    rw [htrim]
    exact hhost.not_hostlessScheme htail.trimChars
  have hafter : afterFirst "://".toList (host.toList ++ Logic.trimChars tail.toList) =
      afterFirst "://".toList (Logic.trimChars tail.toList) :=
    afterFirst_append (hhost.not_mem (by decide)) _
  rw [normalizeHost_eq hscheme, htrim, hafter]
  cases afterFirst "://".toList (Logic.trimChars tail.toList) with
  | none => exact hhost.hostOfAuthority_append htail.trimChars
  | some rest => rfl

/-- **The tail leaves the host alone** exactly when it holds no `://`, or the same host
again behind the first one. -/
theorem tail_keeps_host_iff (host tail : String) (hhost : IsBareHost host.toList)
    (htail : IsTail tail.toList) :
    normalizeHost (host ++ tail) = normalizeHost host ↔
      ∀ rest, afterFirst "://".toList (trim tail).toList = some rest →
        hostOfAuthority rest = hostOfAuthority host.toList := by
  have halone : normalizeHost host = hostOfAuthority host.toList := by
    have hnone : IsTail "".toList := fun _ hc => nomatch hc
    have hempty := hhost.normalizeHost_append hnone
    rwa [String.append_empty] at hempty
  rw [hhost.normalizeHost_append htail, halone, toList_trim]
  cases afterFirst "://".toList (Logic.trimChars tail.toList) with
  | none => simp
  | some rest => simp

/-- A path, a query and a fragment are cut off. -/
theorem a_path_keeps_the_host :
    normalizeHost ("GitHub.com" ++ "/login?a=b#c:d@e") = normalizeHost "GitHub.com" :=
  (tail_keeps_host_iff "GitHub.com" "/login?a=b#c:d@e" (by decide) (by decide)).mpr fun rest h =>
    nomatch h.symm.trans
      (by decide : afterFirst "://".toList (trim "/login?a=b#c:d@e").toList = none)

/-- The query of a login page names the page to go on to, and that becomes the host. -/
theorem a_query_decides_the_host :
    IsBareHost "github.com".toList ∧ IsTail "/login?next=https://evil.example/".toList ∧
      normalizeHost "github.com" = some "github.com" ∧
      normalizeHost ("github.com" ++ "/login?next=https://evil.example/") =
        some "evil.example" := by
  decide

end Sypherstore
