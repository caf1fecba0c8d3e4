/-
# What the decoder makes of a text

The decoder cuts a text every two bytes. On a text of an even number of bytes this cuts a
character in half exactly when the digits stop, for the first time, in front of a character
that does not end where the pair does. What it accepts are pairs of digits, of which the
first may also be a plus sign.
-/

import Sypherstore.Logic.Text
import Sypherstore.Logic.Utf8

namespace Sypherstore.Logic

namespace Hex

variable {chars : List Char}

/-! ## Where a character is cut -/

/-- The second byte of the text is not the last one of a character. -/
def Straddles : List Char → Prop
  | [] => False
  | c :: rest => 2 < c.utf8Size ∨ c.utf8Size = 1 ∧ ∃ d ∈ rest.head?, d.utf8Size ≠ 1

/-- Behind some pairs of digits the text goes on with a pair of bytes that ends inside a
character. -/
def CutsCharacter (chars : List Char) : Prop :=
  ∃ (pairs : List (Char × Char)) (rest : List Char),
    chars = pairs.flatMap (fun pair => [pair.1, pair.2]) ++ rest ∧
      (∀ pair ∈ pairs, (pairValue pair.1 pair.2).isSome) ∧ Straddles rest

theorem toNat_lt_of_digitValue {c : Char} (h : (digitValue c).isSome) : c.toNat < 103 := by
  unfold digitValue at h
  split at h
  · rename_i hdigit
    exact Nat.lt_of_le_of_lt hdigit.2 (by decide)
  · split at h
    · rename_i hlower
      exact Nat.lt_of_le_of_lt hlower.2 (by decide)
    · split at h
      · rename_i hupper
        exact Nat.lt_of_le_of_lt hupper.2 (by decide)
      · cases h

theorem utf8Size_of_digitValue {c : Char} (h : (digitValue c).isSome) : c.utf8Size = 1 :=
  Cbor.utf8Size_of_lt (Nat.lt_trans (toNat_lt_of_digitValue h) (by decide))

/-- A pair of digits is a pair of bytes. -/
theorem utf8Size_of_pairValue {c1 c2 : Char} (h : (pairValue c1 c2).isSome) :
    c1.utf8Size = 1 ∧ c2.utf8Size = 1 := by
  unfold pairValue at h
  split at h
  · rename_i hplus
    rw [Option.isSome_map] at h
    exact ⟨by rw [hplus]; decide, utf8Size_of_digitValue h⟩
  · rw [Option.isSome_bind] at h
    cases hhigh : digitValue c1 with
    | none => simp [hhigh] at h
    | some high =>
        simp only [hhigh, Option.any_some, Option.isSome_map] at h
        exact ⟨utf8Size_of_digitValue (by simp [hhigh]), utf8Size_of_digitValue h⟩

theorem not_cutsCharacter_nil : ¬ CutsCharacter [] := by
  rintro ⟨pairs, rest, hchars, _, hrest⟩
  obtain ⟨_, rfl⟩ := List.append_eq_nil_iff.mp hchars.symm
  exact hrest

/-- A character is cut in the first pair, or behind it. -/
theorem cutsCharacter_cons_iff (c1 : Char) (chars : List Char) :
    CutsCharacter (c1 :: chars) ↔ Straddles (c1 :: chars) ∨
      ∃ c2 rest, chars = c2 :: rest ∧ (pairValue c1 c2).isSome ∧ CutsCharacter rest := by
  constructor
  · rintro ⟨pairs, rest, hchars, hpairs, hrest⟩
    cases pairs with
    | nil =>
        left
        rwa [hchars]
    | cons pair pairs =>
        right
        obtain ⟨rfl, rfl⟩ := List.cons.inj hchars
        exact ⟨pair.2, _, rfl, hpairs pair List.mem_cons_self, pairs, rest, rfl,
          fun other hother => hpairs other (List.mem_cons_of_mem _ hother), hrest⟩
  · rintro (hstraddles | ⟨c2, rest, rfl, hpair, pairs, rest, rfl, hpairs, hrest⟩)
    · exact ⟨[], c1 :: chars, rfl, fun _ h => (nomatch h), hstraddles⟩
    · refine ⟨(c1, c2) :: pairs, rest, rfl, ?_, hrest⟩
      intro pair hmem
      rcases List.mem_cons.mp hmem with rfl | hmem
      · exact hpair
      · exact hpairs pair hmem

/-- Two one-byte characters in front are read as digits, or nothing behind them is read. -/
theorem cutsCharacter_pair_iff {c1 c2 : Char} (h1 : c1.utf8Size = 1) (h2 : c2.utf8Size = 1)
    (rest : List Char) :
    CutsCharacter (c1 :: c2 :: rest) ↔ (pairValue c1 c2).isSome ∧ CutsCharacter rest := by
  have hwhole : ¬ Straddles (c1 :: c2 :: rest) := by simp [Straddles, h1, h2]
  rw [cutsCharacter_cons_iff, or_iff_right hwhole]
  constructor
  · rintro ⟨_, _, hcons, hvalue, hcut⟩
    obtain ⟨rfl, rfl⟩ := List.cons.inj hcons
    exact ⟨hvalue, hcut⟩
  · rintro ⟨hvalue, hcut⟩
    exact ⟨c2, rest, rfl, hvalue, hcut⟩

/-- **What makes the decoder panic**, on a text of an even number of bytes. -/
theorem decodeChars_reports_iff (heven : byteLength chars % 2 = 0) :
    (decodeChars chars).Reports ↔ ¬ CutsCharacter chars := by
  fun_induction decodeChars chars with
  | case1 => exact iff_of_true (.ok []) not_cutsCharacter_nil
  | case2 c1 h1 c2 rest h2 ih =>
      -- two bytes that are two characters: whether they are digits decides if the rest is read
      have hrest : byteLength rest % 2 = 0 := by
        simp only [byteLength, List.map_cons, List.sum_cons, h1, h2] at heven ⊢
        omega
      rw [cutsCharacter_pair_iff h1 h2]
      cases hpair : pairValue c1 c2 with
      | none => exact iff_of_true (.raise ()) (by simp)
      | some byte =>
          rw [Option.isSome_some, and_iff_right rfl, ← ih hrest]
          rcases decodeChars rest with (_ | _) | bytes
          · exact Iff.rfl
          · exact Iff.rfl
          · exact iff_of_true (.ok _) (.ok _)
  | case3 c1 h1 c2 rest h2 =>
      refine iff_of_false (fun h => h rfl) ?_
      rw [not_not, cutsCharacter_cons_iff]
      exact .inl (.inr ⟨h1, c2, rfl, h2⟩)
  | case4 c1 h1 =>
      simp [byteLength, h1] at heven
  | case5 c1 rest h1 h2 =>
      refine iff_of_true (.raise ()) ?_
      rw [cutsCharacter_cons_iff]
      rintro (hstraddles | ⟨c2, _, _, hvalue, _⟩)
      · simp [Straddles, h2] at hstraddles
      · exact h1 (utf8Size_of_pairValue hvalue).1
  | case6 c1 rest h1 h2 =>
      refine iff_of_false (fun h => h rfl) ?_
      rw [not_not, cutsCharacter_cons_iff]
      have hpos := c1.utf8Size_pos
      exact .inl (.inl (by omega))

theorem decode_reports_iff (text : String) :
    (decode text).Reports ↔ ¬ (byteLength text.toList % 2 = 0 ∧ CutsCharacter text.toList) := by
  unfold decode
  split
  · rename_i hodd
    exact iff_of_true (.raise ()) fun h => hodd h.1
  · rename_i heven
    have heven' : byteLength text.toList % 2 = 0 := by simpa using heven
    rw [decodeChars_reports_iff heven']
    simp [heven']

/-! ## What is accepted -/

/-- An even number of digits, in either case. -/
def IsHex (chars : List Char) : Prop :=
  chars.length % 2 = 0 ∧ ∀ c ∈ chars, (digitValue c).isSome

/-- Pairs of digits, but at least one of the pairs has a plus sign in front of its second
digit. -/
def ReadsSign (chars : List Char) : Prop :=
  ∃ pairs : List (Char × Char), chars = pairs.flatMap (fun pair => [pair.1, pair.2]) ∧
    (∀ pair ∈ pairs, (pair.1 = '+' ∨ (digitValue pair.1).isSome) ∧ (digitValue pair.2).isSome) ∧
      ∃ pair ∈ pairs, pair.1 = '+'

theorem isSome_pairValue_iff (c1 c2 : Char) : (pairValue c1 c2).isSome ↔
    (c1 = '+' ∨ (digitValue c1).isSome) ∧ (digitValue c2).isSome := by
  unfold pairValue
  split
  · rename_i hplus
    simp [hplus]
  · rename_i hplus
    cases digitValue c1 <;> simp [hplus]

/-- What is accepted is read pair by pair. -/
theorem decodeChars_eq_ok_iff {bytes : Bytes} : decodeChars chars = .ok bytes ↔
    ∃ pairs : List (Char × Char), chars = pairs.flatMap (fun pair => [pair.1, pair.2]) ∧
      pairs.map (fun pair => pairValue pair.1 pair.2) = bytes.map some := by
  constructor
  · intro h
    fun_induction decodeChars chars generalizing bytes with
    | case1 =>
        cases h
        exact ⟨[], rfl, rfl⟩
    | case2 c1 h1 c2 rest h2 ih =>
        obtain ⟨byte, hbyte, hrest⟩ := (Fallible.bind_eq_ok_iff _ _ _).mp h
        obtain ⟨tail, htail, hcons⟩ := (Fallible.bind_eq_ok_iff _ _ _).mp hrest
        cases hcons
        obtain ⟨pairs, rfl, hpairs⟩ := ih htail
        refine ⟨(c1, c2) :: pairs, rfl, ?_⟩
        rw [List.map_cons, List.map_cons, hpairs, (Fallible.ofOption_eq_ok_iff _ _ _).mp hbyte]
    | _ => cases h
  · rintro ⟨pairs, rfl, hpairs⟩
    induction pairs generalizing bytes with
    | nil =>
        obtain rfl := List.map_eq_nil_iff.mp hpairs.symm
        rfl
    | cons pair pairs ih =>
        obtain ⟨byte, bytes, rfl, hbyte, hbytes⟩ := List.map_eq_cons_iff.mp hpairs.symm
        obtain ⟨h1, h2⟩ := utf8Size_of_pairValue (Option.isSome_of_eq_some hbyte.symm)
        rw [List.flatMap_cons, List.cons_append, List.singleton_append, decodeChars, if_pos h1]
        simp only [if_pos h2, ← hbyte, Fallible.ofOption_some, Fallible.ok_bind, ih hbytes.symm]
        rfl

/-- Pairs of digits are pairs of bytes. -/
theorem byteLength_pairs {pairs : List (Char × Char)}
    (h : ∀ pair ∈ pairs, (pairValue pair.1 pair.2).isSome) :
    byteLength (pairs.flatMap fun pair => [pair.1, pair.2]) = 2 * pairs.length := by
  induction pairs with
  | nil => rfl
  | cons pair pairs ih =>
      obtain ⟨hpair, hpairs⟩ := List.forall_mem_cons.mp h
      obtain ⟨h1, h2⟩ := utf8Size_of_pairValue hpair
      have ih := ih hpairs
      simp only [byteLength, List.flatMap_cons, List.cons_append, List.nil_append, List.map_cons,
        List.sum_cons, List.length_cons, h1, h2] at ih ⊢
      omega

theorem decode_eq_ok_iff {text : String} {bytes : Bytes} : decode text = .ok bytes ↔
    ∃ pairs : List (Char × Char), text.toList = pairs.flatMap (fun pair => [pair.1, pair.2]) ∧
      (∀ pair ∈ pairs, (pairValue pair.1 pair.2).isSome) ∧
      pairs.map (fun pair => pairValue pair.1 pair.2) = bytes.map some := by
  have hsome : ∀ pairs : List (Char × Char),
      pairs.map (fun pair => pairValue pair.1 pair.2) = bytes.map some →
      ∀ pair ∈ pairs, (pairValue pair.1 pair.2).isSome := by
    intro pairs hread pair hmem
    have hvalue := List.mem_map_of_mem (f := fun pair => pairValue pair.1 pair.2) hmem
    rw [hread] at hvalue
    obtain ⟨byte, _, hbyte⟩ := List.mem_map.mp hvalue
    exact Option.isSome_of_eq_some hbyte.symm
  unfold decode
  split
  · rename_i hodd
    refine iff_of_false (by simp [Fallible.raise]) ?_
    rintro ⟨pairs, hchars, hpairs, _⟩
    rw [hchars, byteLength_pairs hpairs] at hodd
    omega
  · rw [decodeChars_eq_ok_iff]
    constructor
    · rintro ⟨pairs, hchars, hread⟩
      exact ⟨pairs, hchars, hsome pairs hread, hread⟩
    · rintro ⟨pairs, hchars, _, hread⟩
      exact ⟨pairs, hchars, hread⟩

/-- The digit of a value is the lower-case one. -/
theorem digit_of_digitValue {c : Char} {n : ℕ} (h : digitValue c = some n) :
    n < 16 ∧ digit n = c.toLower := by
  have hall : ∀ k < 103, ∀ m ∈ digitValue (Char.ofNat k),
      m < 16 ∧ digit m = (Char.ofNat k).toLower := by decide
  have hlt := toNat_lt_of_digitValue (Option.isSome_of_eq_some h)
  rw [← Char.ofNat_toNat c] at h ⊢
  exact hall _ hlt n h

/-- A byte is written with the digits it was read from, in lower case. -/
theorem pair_of_pairValue {c1 c2 : Char} {byte : UInt8} (h : pairValue c1 c2 = some byte)
    (hplus : c1 ≠ '+') : pair byte = [c1.toLower, c2.toLower] := by
  rw [pairValue, if_neg hplus] at h
  obtain ⟨high, hhigh, h⟩ := Option.bind_eq_some_iff.mp h
  obtain ⟨low, hlow, rfl⟩ := Option.map_eq_some_iff.mp h
  obtain ⟨hhighlt, hhigh⟩ := digit_of_digitValue hhigh
  obtain ⟨hlowlt, hlow⟩ := digit_of_digitValue hlow
  have hvalue : (UInt8.ofNat (16 * high + low)).toNat = 16 * high + low := by
    rw [UInt8.toNat_ofNat']
    omega
  rw [pair, hvalue, ← hhigh, ← hlow, show (16 * high + low) / 16 = high by omega,
    show (16 * high + low) % 16 = low by omega]

theorem encode_injective : Function.Injective encode := by
  intro bytes bytes' h
  have hread := decode_encode bytes
  rw [h, decode_encode] at hread
  exact (Except.ok.inj hread).symm

/-- An even number of characters are pairs. -/
theorem exists_pairs (h : chars.length % 2 = 0) :
    ∃ pairs : List (Char × Char), chars = pairs.flatMap (fun pair => [pair.1, pair.2]) := by
  induction chars using List.twoStepInduction with
  | nil => exact ⟨[], rfl⟩
  | singleton c => cases h
  | cons_cons c1 c2 rest ih _ =>
      obtain ⟨pairs, rfl⟩ := ih (by simpa [Nat.add_assoc] using h)
      exact ⟨(c1, c2) :: pairs, rfl⟩

/-- A text of pairs of digits is read. -/
theorem exists_decode_of_pairs {text : String} {pairs : List (Char × Char)}
    (htext : text.toList = pairs.flatMap fun pair => [pair.1, pair.2])
    (hpairs : ∀ pair ∈ pairs, (pairValue pair.1 pair.2).isSome) :
    ∃ bytes, decode text = .ok bytes := by
  refine ⟨pairs.map fun pair => (pairValue pair.1 pair.2).getD 0, ?_⟩
  refine decode_eq_ok_iff.mpr ⟨pairs, htext, hpairs, ?_⟩
  rw [List.map_map]
  apply List.map_congr_left
  intro pair hmem
  obtain ⟨byte, hbyte⟩ := Option.isSome_iff_exists.mp (hpairs pair hmem)
  simp [hbyte]

/-- Pairs of which no first character is a plus sign are pairs of digits. -/
theorem isHex_of_pairs {pairs : List (Char × Char)}
    (hpairs : ∀ pair ∈ pairs, (pairValue pair.1 pair.2).isSome)
    (hsign : ∀ pair ∈ pairs, pair.1 ≠ '+') :
    IsHex (pairs.flatMap fun pair => [pair.1, pair.2]) := by
  refine ⟨by simp, fun c hc => ?_⟩
  obtain ⟨pair, hmem, hc⟩ := List.mem_flatMap.mp hc
  obtain ⟨hfirst, hsecond⟩ := (isSome_pairValue_iff ..).mp (hpairs pair hmem)
  rcases List.mem_pair.mp hc with rfl | rfl
  · exact hfirst.resolve_left (hsign pair hmem)
  · exact hsecond

theorem exists_pairs_of_isHex (h : IsHex chars) :
    ∃ pairs : List (Char × Char), chars = pairs.flatMap (fun pair => [pair.1, pair.2]) ∧
      ∀ pair ∈ pairs, (pairValue pair.1 pair.2).isSome := by
  obtain ⟨pairs, rfl⟩ := exists_pairs h.1
  refine ⟨pairs, rfl, fun pair hmem => (isSome_pairValue_iff ..).mpr ⟨.inr ?_, ?_⟩⟩
  · exact h.2 _ (List.mem_flatMap.mpr ⟨pair, hmem, by simp⟩)
  · exact h.2 _ (List.mem_flatMap.mpr ⟨pair, hmem, by simp⟩)

theorem not_readsSign_of_isHex (h : IsHex chars) : ¬ ReadsSign chars := by
  rintro ⟨pairs, rfl, _, pair, hmem, hplus⟩
  have hdigit := h.2 '+' (List.mem_flatMap.mpr ⟨pair, hmem, by simp [hplus]⟩)
  revert hdigit
  decide

/-- Where no sign is read, the digits that are read are those that would be written, but for
their case. -/
theorem isHex_of_decode {text : String} {bytes : Bytes} (h : decode text = .ok bytes)
    (hsign : ¬ ReadsSign text.toList) : IsHex text.toList ∧ encode bytes = text.toLower := by
  obtain ⟨pairs, hchars, hpairs, hread⟩ := decode_eq_ok_iff.mp h
  have hplus : ∀ pair ∈ pairs, pair.1 ≠ '+' := by
    intro pair hmem hplus
    refine hsign ⟨pairs, hchars, fun other hother => ?_, pair, hmem, hplus⟩
    exact (isSome_pairValue_iff ..).mp (hpairs other hother)
  refine ⟨hchars ▸ isHex_of_pairs hpairs hplus, ?_⟩
  have hlower : text.toLower.toList = text.toList.map Char.toLower := String.toList_map
  rw [encode, ← String.toList_inj, String.toList_ofList, hlower, hchars]
  clear h hchars hpairs
  induction pairs generalizing bytes with
  | nil =>
      obtain rfl := List.map_eq_nil_iff.mp hread.symm
      rfl
  | cons first pairs ih =>
      obtain ⟨byte, bytes, rfl, hbyte, hbytes⟩ := List.map_eq_cons_iff.mp hread.symm
      obtain ⟨hfirst, hplus⟩ := List.forall_mem_cons.mp hplus
      have ih := ih hbytes.symm hplus
      rw [encodeChars] at ih ⊢
      rw [List.flatMap_cons, pair_of_pairValue hbyte.symm hfirst, ih]
      rfl

/-- A text without a sign that is read is decoded to the bytes whose digits it holds. -/
theorem decode_eq_ok_iff_isHex {text : String} (hsign : ¬ ReadsSign text.toList) (bytes : Bytes) :
    decode text = .ok bytes ↔ IsHex text.toList ∧ encode bytes = text.toLower := by
  refine ⟨fun h => isHex_of_decode h hsign, ?_⟩
  rintro ⟨hhex, hencode⟩
  obtain ⟨pairs, hchars, hpairs⟩ := exists_pairs_of_isHex hhex
  obtain ⟨bytes', hdecode⟩ := exists_decode_of_pairs hchars hpairs
  have hsame := (isHex_of_decode hdecode hsign).2
  rw [encode_injective (hencode.trans hsame.symm), hdecode]

end Hex

end Sypherstore.Logic
