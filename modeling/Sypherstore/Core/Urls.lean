/-
# The host of a URL

An absolute URL written out of its parts, whatever these hold that looks like a delimiter of
another one, and the host that is read off it.
-/

import Sypherstore.Core.HostParts

namespace Sypherstore

open Logic

/-! ## The parts -/

/-- `char::is_ascii_alphabetic`. -/
def isAsciiAlphabetic (c : Char) : Bool := ('a' ≤ c && c ≤ 'z') || ('A' ≤ c && c ≤ 'Z')

/-- A letter, and then letters, digits and three other characters. -/
structure IsScheme (scheme : List Char) : Prop where
  first : ∃ c, scheme.head? = some c ∧ isAsciiAlphabetic c
  characters : ∀ c ∈ scheme, isAsciiAlphanumeric c ∨ c ∈ ['+', '-', '.']
  named : (hostlessSchemes.any fun name => eqIgnoreAsciiCase scheme name.toList) = false

/-- Letters, digits, hyphens and dots, and not only the last two. -/
structure IsHostname (name : List Char) : Prop where
  characters : ∀ c ∈ name, isAsciiAlphanumeric c ∨ c ∈ ['-', '.']
  named : ∃ c ∈ name, isAsciiAlphanumeric c

/-- Hexadecimal digits, colons and dots, and not only the last two. -/
structure IsLiteral (literal : List Char) : Prop where
  characters : ∀ c ∈ literal, (Hex.digitValue c).isSome ∨ c ∈ [':', '.']
  numbered : ∃ c ∈ literal, (Hex.digitValue c).isSome

/-- The host of a URL. -/
inductive UrlHost where
  | name (text : List Char) (isHostname : IsHostname text)
  | literal (text : List Char) (isLiteral : IsLiteral text)

namespace UrlHost

/-- The host as it is written in a URL. -/
def text : UrlHost → List Char
  | .name text _ => text
  | .literal text _ => '[' :: text ++ [']']

/-- The host to compare: a name without the dots at its end and one `www.`, if that leaves
anything, and a literal as it is, both in lower case. -/
def normalized : UrlHost → Option String
  | .name text _ =>
      let bare := withoutWww (lower (trimEndMatches '.' text))
      if bare.any isAsciiAlphanumeric then some (String.ofList bare) else none
  | .literal text _ => some (String.ofList (lower ('[' :: text ++ [']'])))

end UrlHost

/-- An absolute URL. -/
structure Url where
  scheme : List Char
  userInfo : Option (List Char)
  host : UrlHost
  port : Option (List Char)
  tail : List Char
  isScheme : IsScheme scheme
  isUserInfo : ∀ info ∈ userInfo, ∀ c ∈ info, startsTail c = false
  isPort : ∀ digits ∈ port, ∀ c ∈ digits, '0' ≤ c ∧ c ≤ '9'
  isTail : IsTail tail

namespace Url

variable (u : Url)

/-- The user info with its `@`. -/
def credentials : List Char := (u.userInfo.map (· ++ ['@'])).getD []

/-- The host and the port with its colon. -/
def hostPort : List Char := u.host.text ++ (u.port.map (':' :: ·)).getD []

/-- The URL in one line. -/
def text : String :=
  String.ofList (u.scheme ++ "://".toList ++ u.credentials ++ u.hostPort ++ u.tail)

end Url

/-! ## Characters of a host and a port -/

/-- A character that neither is cut off nor cuts anything in front of a port. -/
def isPlain (c : Char) : Bool := !isWhitespace c && !startsTail c && c ≠ '@'

theorem isPlain_of_isAsciiAlphanumeric {c : Char} (h : isAsciiAlphanumeric c) : isPlain c := by
  rw [isAsciiAlphanumeric_iff] at h
  simp only [isPlain, isWhitespace, startsTail, Bool.and_eq_true, Bool.not_eq_true',
    Bool.or_eq_false_iff, Bool.and_eq_false_iff, decide_eq_false_iff_not, decide_eq_true_eq,
    ne_eq, ← Char.toNat_inj]
  have hslash : '/'.toNat = 47 := rfl
  have hquery : '?'.toNat = 63 := rfl
  have hfragment : '#'.toNat = 35 := rfl
  have hat : '@'.toNat = 64 := rfl
  omega

theorem isAsciiAlphanumeric_of_digitValue {c : Char} (h : (Hex.digitValue c).isSome) :
    isAsciiAlphanumeric c := by
  rw [isAsciiAlphanumeric_iff]
  unfold Hex.digitValue at h
  split at h
  · rename_i hdigit
    exact .inl hdigit
  · split at h
    · rename_i hlower
      have hle : c.toNat ≤ 102 := hlower.2
      exact .inr (.inl ⟨hlower.1, by omega⟩)
    · split at h
      · rename_i hupper
        have hle : c.toNat ≤ 70 := hupper.2
        exact .inr (.inr ⟨hupper.1, by omega⟩)
      · cases h

namespace UrlHost

variable (host : UrlHost)

theorem isPlain_of_mem {c : Char} (hc : c ∈ host.text) : isPlain c := by
  cases host with
  | name text isHostname =>
      rcases isHostname.characters c hc with halnum | hother
      · exact isPlain_of_isAsciiAlphanumeric halnum
      · have hall : ['-', '.'].all isPlain := by decide
        exact List.all_eq_true.mp hall c hother
  | literal text isLiteral =>
      have hall : ['[', ']', ':', '.'].all isPlain := by decide
      have hplain := List.all_eq_true.mp hall
      simp only [UrlHost.text, List.cons_append, List.mem_cons, List.mem_append,
        List.not_mem_nil, or_false] at hc
      rcases hc with rfl | hc | rfl
      · exact hplain _ (by simp)
      · rcases isLiteral.characters c hc with hdigit | hother
        · exact isPlain_of_isAsciiAlphanumeric (isAsciiAlphanumeric_of_digitValue hdigit)
        · exact hplain c (List.mem_cons_of_mem _ (List.mem_cons_of_mem _ hother))
      · exact hplain _ (by simp)

theorem text_ne_nil : host.text ≠ [] := by
  cases host with
  | name text isHostname =>
      obtain ⟨c, hc, _⟩ := isHostname.named
      exact List.ne_nil_of_mem hc
  | literal text _ => exact List.cons_ne_nil _ _

/-- Behind a name the colon begins the port. -/
theorem withoutPort_name {text port : List Char} (isHostname : IsHostname text)
    (hport : ∀ c ∈ port.head?, c = ':') : withoutPort (text ++ port) = text := by
  have hother : ∀ c ∈ text, c ≠ ':' ∧ c ≠ '[' := by
    intro c hc
    rcases isHostname.characters c hc with halnum | hmark
    · refine ⟨?_, ?_⟩
      · rintro rfl
        cases halnum
      · rintro rfl
        cases halnum
    · have hall : ['-', '.'].all fun c => c ≠ ':' ∧ c ≠ '[' := by decide
      simpa using List.all_eq_true.mp hall c hmark
  have hhead : (text ++ port).head? ≠ some '[' := by
    obtain ⟨d, hd, _⟩ := isHostname.named
    obtain ⟨c, rest, rfl⟩ := List.exists_cons_of_ne_nil (List.ne_nil_of_mem hd)
    intro hopen
    exact (hother c List.mem_cons_self).2 (Option.some.inj hopen)
  have hkept : ∀ c ∈ text, decide (c ≠ ':') = true := fun c hc => decide_eq_true (hother c hc).1
  have hcut : port.takeWhile (· ≠ ':') = [] := by
    cases port with
    | nil => rfl
    | cons c port => simp [hport c rfl]
  obtain ⟨hopen, _⟩ | ⟨literal, rest, _, hopen, _⟩ | ⟨_, h⟩ := withoutPort_cases (text ++ port)
  · exact absurd hopen hhead
  · exact absurd (congrArg List.head? hopen) hhead
  · rw [h, List.takeWhile_append_of_pos hkept, hcut, List.append_nil]

/-- A port is cut off, and the colons of a literal are not. -/
theorem withoutPort_append {port : List Char} (hport : ∀ c ∈ port.head?, c = ':') :
    withoutPort (host.text ++ port) = host.text := by
  cases host with
  | name text isHostname => exact withoutPort_name isHostname hport
  | literal text isLiteral =>
      have hclosed : ']' ∉ text := by
        intro hmem
        rcases isLiteral.characters _ hmem with hdigit | hmark
        · cases hdigit
        · simp at hmark
      have hrest := withoutPort_literal hclosed port
      rw [UrlHost.text, List.append_assoc]
      exact hrest

/-- The host in its place is normalized to what it should be. -/
theorem normalized_eq :
    (if (lower (afterWww (trimEndMatches '.' host.text))).any isAsciiAlphanumeric then
        some (String.ofList (lower (afterWww (trimEndMatches '.' host.text))))
      else none) = host.normalized := by
  cases host with
  | name text _ =>
      rw [← withoutWww_lower]
      rfl
  | literal text isLiteral =>
      have hdots : trimEndMatches '.' ('[' :: text ++ [']']) = '[' :: text ++ [']'] := by
        rw [trimEndMatches_eq]
        exact List.rdropWhile_concat_neg _ _ _ (by decide)
      have hwww : afterWww ('[' :: text ++ [']']) = '[' :: text ++ [']'] := by
        rw [afterWww_eq_self_iff, ← Bool.not_eq_true]
        exact fun hwww => head?_ne_of_startsWww hwww rfl
      have hnumbered : (lower ('[' :: text ++ [']'])).any isAsciiAlphanumeric := by
        obtain ⟨c, hc, hdigit⟩ := isLiteral.numbered
        refine List.any_eq_true.mpr ⟨asciiLowercase c, List.mem_map_of_mem (by simp [hc]), ?_⟩
        rw [isAsciiAlphanumeric_asciiLowercase]
        exact isAsciiAlphanumeric_of_digitValue hdigit
      rw [UrlHost.text, hdots, hwww, if_pos hnumbered]
      rfl

end UrlHost

/-! ## Cutting a URL -/

namespace Url

variable (u : Url)

theorem isPlain_of_mem_hostPort {c : Char} (hc : c ∈ u.hostPort) : isPlain c := by
  rcases List.mem_append.mp hc with hhost | hport
  · exact u.host.isPlain_of_mem hhost
  · cases hdigits : u.port with
    | none => simp [hdigits] at hport
    | some digits =>
        rw [hdigits, Option.map_some, Option.getD_some] at hport
        rcases List.mem_cons.mp hport with rfl | hdigit
        · decide
        · apply isPlain_of_isAsciiAlphanumeric
          rw [isAsciiAlphanumeric_iff]
          exact .inl (u.isPort digits hdigits c hdigit)

theorem colon_not_mem_scheme : ':' ∉ u.scheme := by
  intro hmem
  rcases u.isScheme.characters _ hmem with halnum | hmark
  · cases halnum
  · simp at hmark

/-- What is trimmed of a URL is at the end of its tail. -/
theorem trimChars_text : trimChars u.text.toList =
    u.scheme ++ ("://".toList ++ (u.credentials ++ (u.hostPort ++ trimChars u.tail))) := by
  have hplain : ∀ c ∈ u.hostPort, isWhitespace c = false := by
    intro c hc
    have hc := u.isPlain_of_mem_hostPort hc
    simp only [isPlain, Bool.and_eq_true, Bool.not_eq_true'] at hc
    exact hc.1.1
  obtain ⟨letter, hfirst, hletter⟩ := u.isScheme.first
  have hvisible : isWhitespace letter = false := by
    have halnum : isAsciiAlphanumeric letter := by
      simp only [isAsciiAlphabetic, isAsciiAlphanumeric, Bool.or_eq_true] at hletter ⊢
      tauto
    have hletter := isPlain_of_isAsciiAlphanumeric halnum
    simp only [isPlain, Bool.and_eq_true, Bool.not_eq_true'] at hletter
    exact hletter.1.1
  obtain ⟨d, rest, hhost⟩ := List.exists_cons_of_ne_nil
    (List.append_ne_nil_of_left_ne_nil u.host.text_ne_nil ((u.port.map (':' :: ·)).getD []))
  have hd : u.hostPort.head? = some d := by rw [hostPort, hhost, List.head?_cons]
  have hback : (u.hostPort ++ u.tail).head? = some d := by
    rw [List.head?_append, hd, Option.some_or]
  have hfront : (u.scheme ++ "://".toList ++ u.credentials).head? = some letter := by
    rw [List.append_assoc, List.head?_append, hfirst, Option.some_or]
  rw [text, String.toList_ofList, List.append_assoc _ u.hostPort,
    trimChars_append_of_head hfront hvisible hback (hplain d (List.mem_of_head? hd)),
    trimChars_append hplain u.isTail.not_whitespace]
  simp only [List.append_assoc]

theorem not_hostlessScheme (rest : List Char) :
    hasHostlessScheme (u.scheme ++ ("://".toList ++ rest)) = false := by
  have hkept : ∀ c ∈ u.scheme, decide (c ≠ ':') = true := fun c hc =>
    decide_eq_true (ne_of_mem_of_not_mem hc u.colon_not_mem_scheme)
  have hcut : (u.scheme ++ ("://".toList ++ rest)).takeWhile (· ≠ ':') = u.scheme := by
    rw [List.takeWhile_append_of_pos hkept]
    simp
  rw [hasHostlessScheme, hcut, u.isScheme.named, Bool.and_false]

/-- The line goes on behind the scheme. -/
theorem afterFirst_scheme (rest : List Char) :
    afterFirst "://".toList (u.scheme ++ ("://".toList ++ rest)) = some rest := by
  have hcolon : afterFirst "://".toList (u.scheme ++ ("://".toList ++ rest)) =
      afterFirst "://".toList ("://".toList ++ rest) :=
    afterFirst_append u.colon_not_mem_scheme _
  rw [hcolon]
  simp [afterFirst, List.isPrefixOf]

theorem plain_of_mem_hostPort {c : Char} (hc : c ∈ u.hostPort) :
    startsTail c = false ∧ c ≠ '@' := by
  have hplain := u.isPlain_of_mem_hostPort hc
  simp only [isPlain, Bool.and_eq_true, Bool.not_eq_true', decide_eq_true_eq] at hplain
  exact ⟨hplain.1.2, hplain.2⟩

/-- No tail begins before the port has ended. -/
theorem startsTail_of_mem_authority {c : Char} (hc : c ∈ u.credentials ++ u.hostPort) :
    startsTail c = false := by
  rcases List.mem_append.mp hc with hc | hc
  · cases hinfo : u.userInfo with
    | none => simp [credentials, hinfo] at hc
    | some info =>
        rw [credentials, hinfo, Option.map_some, Option.getD_some] at hc
        rcases List.mem_append.mp hc with hc | hc
        · exact u.isUserInfo info hinfo c hc
        · rw [List.mem_singleton.mp hc]
          decide
  · exact (u.plain_of_mem_hostPort hc).1

/-- The tail is cut off. -/
theorem authorityOf_text (tail : List Char) (htail : IsTail tail) :
    authorityOf (u.scheme ++ ("://".toList ++ (u.credentials ++ (u.hostPort ++ tail)))) =
      u.credentials ++ u.hostPort := by
  have hkept : ∀ c ∈ u.credentials ++ u.hostPort, (!startsTail c) = true := by
    intro c hc
    simp [u.startsTail_of_mem_authority hc]
  have hend : tail.takeWhile (fun c => !startsTail c) = [] := by
    cases tail with
    | nil => rfl
    | cons d rest => simp [htail d rfl]
  rw [authorityOf, u.afterFirst_scheme, Option.getD_some, ← List.append_assoc]
  exact (List.takeWhile_append_of_pos hkept).trans (by rw [hend, List.append_nil])

/-- The user info is cut off. -/
theorem withoutUserInfo_authority : withoutUserInfo (u.credentials ++ u.hostPort) = u.hostPort := by
  have hat : '@' ∉ u.hostPort := fun hmem => (u.plain_of_mem_hostPort hmem).2 rfl
  rw [credentials]
  cases u.userInfo with
  | none => exact withoutUserInfo_eq_self hat
  | some info =>
      rw [Option.map_some, Option.getD_some, List.append_assoc]
      exact withoutUserInfo_append hat

/-- The host's place in the line is the host. -/
theorem hostPart_text (tail : List Char) (htail : IsTail tail) :
    hostPart (u.scheme ++ ("://".toList ++ (u.credentials ++ (u.hostPort ++ tail)))) =
      trimEndMatches '.' u.host.text := by
  have hport : withoutPort u.hostPort = u.host.text := by
    apply UrlHost.withoutPort_append
    cases u.port with
    | none => simp
    | some digits => simp
  rw [hostPart, u.authorityOf_text tail htail, u.withoutUserInfo_authority, hport]

end Url

/-- **The host of an absolute URL** is read off it, whatever its other parts hold. -/
theorem normalizeHost_url (u : Url) : normalizeHost u.text = u.host.normalized := by
  have hscheme : hasHostlessScheme (trimChars u.text.toList) = false := by
    rw [u.trimChars_text]
    exact u.not_hostlessScheme _
  rw [normalizeHost_eq_ite hscheme, u.trimChars_text, u.hostPart_text _ u.isTail.trimChars]
  exact u.host.normalized_eq

/-- A page with user info, a port and another URL in its query. -/
private def page : Url where
  scheme := "https".toList
  userInfo := some "me@home:1".toList
  host := .name "WWW.Example.com.".toList
    ⟨by simp [isAsciiAlphanumeric], 'W', by simp, by decide⟩
  port := some "8443".toList
  tail := "/?next=http://other.example/".toList
  isScheme := ⟨⟨'h', by simp, by decide⟩, by simp [isAsciiAlphanumeric], by decide⟩
  isUserInfo := by simp [startsTail]
  isPort := by simp
  isTail := by simp [IsTail, startsTail]

theorem host_of_a_page :
    normalizeHost "https://me@home:1@WWW.Example.com.:8443/?next=http://other.example/" =
      some "example.com" := by
  have htext : page.text =
    "https://me@home:1@WWW.Example.com.:8443/?next=http://other.example/" := rfl
  rw [← htext, normalizeHost_url]
  decide

end Sypherstore
