/-
# Text

Trimming, and hexadecimal text: bytes as lower-case digit pairs, and a decoder
that takes a text two *bytes* at a time. Such a decoder is partial in two ways: a
pair that is not a number is refused, and a pair that would cut a character in
half panics. Both are kept apart here, so that the round trip at the end also
says the panic is out of reach on encoded text.
-/

import Mathlib.Algebra.GroupWithZero.Nat
import Mathlib.Data.List.DropRight
import Sypherstore.Logic.Bytes

namespace Sypherstore.Logic

/-- `char::is_whitespace`: the Unicode property `White_Space`. -/
def isWhitespace (c : Char) : Bool :=
  (0x09 ≤ c.toNat && c.toNat ≤ 0x0d) || c.toNat = 0x20 || c.toNat = 0x85 ||
    c.toNat = 0xa0 || c.toNat = 0x1680 || (0x2000 ≤ c.toNat && c.toNat ≤ 0x200a) ||
    c.toNat = 0x2028 || c.toNat = 0x2029 || c.toNat = 0x202f || c.toNat = 0x205f ||
    c.toNat = 0x3000

/-- `char::is_control`. -/
def isControl (c : Char) : Bool := c.toNat < 0x20 || 0x7f ≤ c.toNat && c.toNat < 0xa0

/-- `str::trim`. -/
def trim (text : String) : String :=
  String.ofList ((text.toList.dropWhile isWhitespace).reverse.dropWhile isWhitespace).reverse

/-! ## Trimming -/

/-- The characters of a trimmed text. -/
def trimChars (chars : List Char) : List Char :=
  (chars.dropWhile isWhitespace).rdropWhile isWhitespace

theorem toList_trim (text : String) : (trim text).toList = trimChars text.toList := by
  simp [trim, trimChars, List.rdropWhile]

theorem dropWhile_of_head {chars : List Char} (h : ∀ c ∈ chars.head?, isWhitespace c = false) :
    chars.dropWhile isWhitespace = chars := by
  cases chars with
  | nil => rfl
  | cons c chars => exact List.dropWhile_cons_of_neg (by simpa using h c rfl)

/-- A front without whitespace stays, if none follows it either. -/
theorem trimChars_append {front back : List Char}
    (hfront : ∀ c ∈ front, isWhitespace c = false)
    (hback : ∀ c ∈ back.head?, isWhitespace c = false) :
    trimChars (front ++ back) = front ++ trimChars back := by
  have hboth : (front ++ back).dropWhile isWhitespace = front ++ back := by
    apply dropWhile_of_head
    cases front with
    | nil => exact hback
    | cons c front => simpa using hfront c List.mem_cons_self
  have hreverse : front.reverse.dropWhile isWhitespace = front.reverse := by
    apply dropWhile_of_head
    intro c hc
    exact hfront c (List.mem_reverse.mp (List.mem_of_head? hc))
  rw [trimChars, trimChars, hboth, dropWhile_of_head hback, List.rdropWhile, List.rdropWhile,
    List.reverse_append, List.dropWhile_append]
  split
  · rename_i hnil
    rw [hreverse, List.isEmpty_iff.mp hnil]
    simp
  · simp

/-- A front stays if it begins without whitespace and what follows it does. -/
theorem trimChars_append_of_head {front back : List Char} {c d : Char}
    (hc : front.head? = some c) (hfront : isWhitespace c = false)
    (hd : back.head? = some d) (hback : isWhitespace d = false) :
    trimChars (front ++ back) = front ++ trimChars back := by
  have hboth : (front ++ back).dropWhile isWhitespace = front ++ back := by
    apply dropWhile_of_head
    rw [List.head?_append, hc]
    simpa using hfront
  have halone : back.dropWhile isWhitespace = back := by
    apply dropWhile_of_head
    rw [hd]
    simpa using hback
  have hkept : back.reverse.dropWhile isWhitespace ≠ [] := by
    rw [Ne, List.dropWhile_eq_nil_iff]
    intro hall
    have hmem := List.mem_reverse.mpr (List.mem_of_head? hd)
    simp [hall d hmem] at hback
  rw [trimChars, trimChars, hboth, halone, List.rdropWhile, List.rdropWhile, List.reverse_append,
    List.dropWhile_append, if_neg (by simpa using hkept), List.reverse_append,
    List.reverse_reverse]

theorem trimChars_prefix_of_head {chars : List Char}
    (h : ∀ c ∈ chars.head?, isWhitespace c = false) : trimChars chars <+: chars := by
  rw [trimChars, dropWhile_of_head h]
  exact List.rdropWhile_prefix _ _

theorem trimChars_subset (chars : List Char) : trimChars chars ⊆ chars :=
  fun _ h => (List.dropWhile_suffix _).subset ((List.rdropWhile_prefix _ _).subset h)

theorem trimChars_trimChars (chars : List Char) :
    trimChars (trimChars chars) = trimChars chars := by
  have hhead : (trimChars chars).dropWhile isWhitespace = trimChars chars := by
    apply dropWhile_of_head
    intro c hc
    obtain ⟨rest, hrest⟩ : trimChars chars <+: chars.dropWhile isWhitespace :=
      List.rdropWhile_prefix _ _
    have hfirst : (chars.dropWhile isWhitespace).head? = some c := by
      rw [← hrest, List.head?_append, Option.mem_def.mp hc]
      rfl
    have hstop := List.head?_dropWhile_not isWhitespace chars
    rw [hfirst] at hstop
    exact hstop
  conv_lhs => rw [trimChars, hhead]
  exact List.rdropWhile_idempotent _ _

theorem trimChars_cons_of_whitespace {c : Char} (h : isWhitespace c) (chars : List Char) :
    trimChars (c :: chars) = trimChars chars := by
  rw [trimChars, List.dropWhile_cons_of_pos h]
  rfl

/-! ## Splitting -/

/-- No piece contains what the list was split at. -/
theorem not_mem_of_mem_splitOn {α : Type} [BEq α] [LawfulBEq α] {a : α} {xs : List α} :
    ∀ piece ∈ xs.splitOn a, a ∉ piece := by
  induction xs with
  | nil =>
      rw [List.splitOn_nil]
      simp
  | cons x xs ih =>
      rw [List.splitOn_cons_eq_if_modifyHead]
      split
      · rw [List.forall_mem_cons]
        exact ⟨List.not_mem_nil, ih⟩
      · rename_i hx
        obtain ⟨piece, pieces, hpieces⟩ := List.exists_cons_of_ne_nil (List.splitOn_ne_nil a xs)
        rw [hpieces, List.forall_mem_cons] at ih
        rw [hpieces, List.modifyHead_cons, List.forall_mem_cons]
        refine ⟨?_, ih.2⟩
        intro hmem
        rcases List.mem_cons.mp hmem with rfl | hmem
        · exact hx (beq_self_eq_true _)
        · exact ih.1 hmem

namespace Hex

/-! ## Hexadecimal digits -/

/-- A digit of base sixteen. -/
def digit (n : ℕ) : Char :=
  if n < 10 then Char.ofNat ('0'.toNat + n) else Char.ofNat ('a'.toNat + (n - 10))

/-- The value of a digit in either case, as `char::to_digit(16)`. -/
def digitValue (c : Char) : Option ℕ :=
  if '0' ≤ c ∧ c ≤ '9' then some (c.toNat - '0'.toNat)
  else if 'a' ≤ c ∧ c ≤ 'f' then some (c.toNat - 'a'.toNat + 10)
  else if 'A' ≤ c ∧ c ≤ 'F' then some (c.toNat - 'A'.toNat + 10)
  else none

/-- `u8::from_str_radix(pair, 16)` on a pair of characters, which may also be a
plus sign and one digit. -/
def pairValue (c1 c2 : Char) : Option UInt8 :=
  if c1 = '+' then (digitValue c2).map UInt8.ofNat
  else (digitValue c1).bind fun high => (digitValue c2).map fun low =>
    UInt8.ofNat (16 * high + low)

/-- The two digits of one byte. -/
def pair (byte : UInt8) : List Char := [digit (byte.toNat / 16), digit (byte.toNat % 16)]

def encodeChars (bytes : Bytes) : List Char := bytes.flatMap pair

/-- `{b:02x}` for each byte. -/
def encode (bytes : Bytes) : String := String.ofList (encodeChars bytes)

/-- Decode the text two bytes at a time. A character of one byte has to be
followed by another one; a character of two bytes is no digit; a longer one is
cut in half. -/
def decodeChars : List Char → Fallible Unit Bytes
  | [] => .ok []
  | c1 :: rest =>
      if c1.utf8Size = 1 then
        match rest with
        | c2 :: rest =>
            if c2.utf8Size = 1 then do
              let byte ← Fallible.ofOption () (pairValue c1 c2)
              let bytes ← decodeChars rest
              return byte :: bytes
            else Fallible.panic
        | [] => Fallible.panic
      else if c1.utf8Size = 2 then Fallible.raise ()
      else Fallible.panic

/-- The length of a text in bytes. -/
def byteLength (chars : List Char) : ℕ := (chars.map Char.utf8Size).sum

def decode (text : String) : Fallible Unit Bytes :=
  if byteLength text.toList % 2 ≠ 0 then Fallible.raise () else decodeChars text.toList

/-! ## The round trip -/

theorem digitValue_digit : ∀ n < 16, digitValue (digit n) = some n := by decide

theorem digit_ne_plus : ∀ n < 16, digit n ≠ '+' := by decide

theorem utf8Size_digit : ∀ n < 16, (digit n).utf8Size = 1 := by decide

/-- Every digit is written by one of sixteen characters, none of them a hyphen. -/
theorem digit_ne_hyphen : ∀ n < 16, digit n ≠ '-' := by decide

private theorem halves_lt (byte : UInt8) : byte.toNat / 16 < 16 ∧ byte.toNat % 16 < 16 := by
  have hbyte := byte.toNat_lt
  omega

theorem pairValue_pair (byte : UInt8) :
    pairValue (digit (byte.toNat / 16)) (digit (byte.toNat % 16)) = some byte := by
  obtain ⟨hhigh, hlow⟩ := halves_lt byte
  have hsum : 16 * (byte.toNat / 16) + byte.toNat % 16 = byte.toNat := Nat.div_add_mod _ _
  rw [pairValue, if_neg (digit_ne_plus _ hhigh), digitValue_digit _ hhigh,
    digitValue_digit _ hlow]
  simp only [Option.bind_some, Option.map_some, hsum, UInt8.ofNat_toNat]

theorem decodeChars_encodeChars (bytes : Bytes) :
    decodeChars (encodeChars bytes) = .ok bytes := by
  induction bytes with
  | nil => rfl
  | cons byte bytes ih =>
      obtain ⟨hhigh, hlow⟩ := halves_lt byte
      have hcons : encodeChars (byte :: bytes) =
          digit (byte.toNat / 16) :: digit (byte.toNat % 16) :: encodeChars bytes := rfl
      rw [hcons, decodeChars, if_pos (utf8Size_digit _ hhigh)]
      simp only [if_pos (utf8Size_digit _ hlow), pairValue_pair, Fallible.ofOption_some,
        Fallible.ok_bind, ih]
      rfl

theorem byteLength_encodeChars (bytes : Bytes) :
    byteLength (encodeChars bytes) = 2 * bytes.length := by
  induction bytes with
  | nil => rfl
  | cons byte bytes ih =>
      obtain ⟨hhigh, hlow⟩ := halves_lt byte
      have hcons : byteLength (encodeChars (byte :: bytes)) =
          (digit (byte.toNat / 16)).utf8Size + ((digit (byte.toNat % 16)).utf8Size +
            byteLength (encodeChars bytes)) := rfl
      rw [hcons, utf8Size_digit _ hhigh, utf8Size_digit _ hlow, ih, List.length_cons]
      omega

/-- Encoded bytes are decoded, without a panic, to themselves. -/
@[simp] theorem decode_encode (bytes : Bytes) : decode (encode bytes) = .ok bytes := by
  have heven : byteLength (encode bytes).toList % 2 = 0 := by
    rw [encode, String.toList_ofList, byteLength_encodeChars]
    omega
  rw [decode, if_neg (by omega), encode, String.toList_ofList, decodeChars_encodeChars]

end Hex

end Sypherstore.Logic
