/-
# UTF-8

The bytes of a text, character by character. A character below 128 is its own byte, and every
other one starts with a byte from 128 on, so that a text can be read off its bytes wherever
these stay below 128.
-/

import Sypherstore.Logic.CborBytes

namespace Sypherstore.Logic

namespace Cbor

theorem utf8_ofList (chars : List Char) :
    utf8 (String.ofList chars) = chars.flatMap String.utf8EncodeChar := by
  simp [utf8, List.utf8Encode]

theorem ofUtf8_eq_some_iff (bytes : Bytes) (value : String) :
    ofUtf8 bytes = some value ↔ bytes = utf8 value := by
  constructor
  · intro h
    unfold ofUtf8 String.fromUTF8? at h
    split at h
    · cases h
      simp [utf8, String.fromUTF8]
    · cases h
  · rintro rfl
    exact ofUtf8_utf8 value

/-- The length of a text in bytes. -/
theorem length_utf8 (value : String) :
    (utf8 value).length = (value.toList.map Char.utf8Size).sum := by
  conv_lhs => rw [← String.ofList_toList (s := value), utf8_ofList]
  simp [List.length_flatMap]

/-- The bytes of an ASCII character. -/
theorem utf8EncodeChar_of_lt {c : Char} (h : c.toNat < 128) :
    String.utf8EncodeChar c = [UInt8.ofNat c.toNat] := by
  have hle : c.val.toNat ≤ 0x7f := Nat.le_of_lt_succ h
  simp only [String.utf8EncodeChar, hle, if_true]
  rfl

theorem utf8Size_of_lt {c : Char} (h : c.toNat < 128) : c.utf8Size = 1 := by
  rw [← String.length_utf8EncodeChar, utf8EncodeChar_of_lt h]
  rfl

theorem toNat_ofNat_of_lt {n : ℕ} (h : n < 128) : (Char.ofNat n).toNat = n := by
  have hvalid : n.isValidChar := .inl (by omega)
  rw [Char.ofNat, dif_pos hvalid]
  rfl

/-- Every other character is made of bytes that no ASCII character has. -/
theorem le_of_mem_utf8EncodeChar {c : Char} (h : 128 ≤ c.toNat) :
    ∀ byte ∈ String.utf8EncodeChar c, 128 ≤ byte.toNat := by
  have hle : ¬ c.val.toNat ≤ 0x7f := Nat.not_le_of_lt h
  simp only [String.utf8EncodeChar, hle, if_false]
  split
  · simp only [List.forall_mem_cons, UInt8.toNat_ofNat', List.not_mem_nil, false_imp_iff,
      implies_true, and_true]
    omega
  · split
    · simp only [List.forall_mem_cons, UInt8.toNat_ofNat', List.not_mem_nil, false_imp_iff,
        implies_true, and_true]
      omega
    · simp only [List.forall_mem_cons, UInt8.toNat_ofNat', List.not_mem_nil, false_imp_iff,
        implies_true, and_true]
      omega

theorem exists_utf8EncodeChar_of_le {c : Char} (h : 128 ≤ c.toNat) :
    ∃ first rest, String.utf8EncodeChar c = first :: rest ∧ 128 ≤ first.toNat := by
  cases hbytes : String.utf8EncodeChar c with
  | nil =>
      have hpos := Char.utf8Size_pos c
      have hlength := congrArg List.length hbytes
      rw [String.length_utf8EncodeChar, List.length_nil] at hlength
      omega
  | cons first rest =>
      refine ⟨first, rest, rfl, le_of_mem_utf8EncodeChar h first ?_⟩
      rw [hbytes]
      exact List.mem_cons_self

/-- Where the bytes of a text have that of an ASCII character, the text has the character. -/
theorem exists_of_utf8_eq_append {a : Char} (ha : a.toNat < 128) {chars : List Char}
    {front back : Bytes}
    (h : chars.flatMap String.utf8EncodeChar = front ++ UInt8.ofNat a.toNat :: back) :
    ∃ before after, chars = before ++ a :: after ∧ after.flatMap String.utf8EncodeChar = back := by
  induction chars generalizing front with
  | nil => simp at h
  | cons c chars ih =>
      rw [List.flatMap_cons, List.append_eq_append_iff] at h
      obtain ⟨rest, hfront, htail⟩ | ⟨rest, hfirst, htail⟩ := h
      · obtain ⟨before, after, rfl, hafter⟩ := ih htail
        exact ⟨c :: before, after, rfl, hafter⟩
      · cases rest with
        | nil =>
            have htail : chars.flatMap String.utf8EncodeChar =
                [] ++ UInt8.ofNat a.toNat :: back := htail.symm
            obtain ⟨before, after, rfl, hafter⟩ := ih htail
            exact ⟨c :: before, after, rfl, hafter⟩
        | cons byte rest =>
            obtain ⟨rfl, hback⟩ := List.cons.inj htail
            have hmem : UInt8.ofNat a.toNat ∈ String.utf8EncodeChar c := by simp [hfirst]
            have hbyte : (UInt8.ofNat a.toNat).toNat = a.toNat := by
              rw [UInt8.toNat_ofNat']
              omega
            -- the character is ASCII, and so its own byte
            have hc : c.toNat < 128 := by
              by_contra hlarge
              have hle := le_of_mem_utf8EncodeChar (Nat.le_of_not_lt hlarge) _ hmem
              omega
            rw [utf8EncodeChar_of_lt hc, List.mem_singleton] at hmem
            have hsame : c = a := by
              have hnat := congrArg UInt8.toNat hmem
              rw [hbyte, UInt8.toNat_ofNat'] at hnat
              apply Char.toNat_inj.mp
              omega
            rw [utf8EncodeChar_of_lt hc] at hfirst
            have hnone : rest = [] := by
              have hlength := congrArg List.length hfirst
              simp at hlength
              exact List.length_eq_zero_iff.mp (by omega)
            refine ⟨[], chars, by rw [hsame]; rfl, ?_⟩
            rw [hback, hnone]
            rfl

/-- A text whose bytes are all ASCII is read off them. -/
theorem eq_map_of_utf8_lt {chars : List Char}
    (h : ∀ byte ∈ utf8 (String.ofList chars), byte.toNat < 128) :
    chars.map (fun c => UInt8.ofNat c.toNat) = utf8 (String.ofList chars) ∧
      ∀ c ∈ chars, c.toNat < 128 := by
  rw [utf8_ofList] at h ⊢
  have hascii : ∀ c ∈ chars, c.toNat < 128 := by
    intro c hc
    by_contra hlarge
    obtain ⟨first, rest, hbytes, hfirst⟩ := exists_utf8EncodeChar_of_le (Nat.le_of_not_lt hlarge)
    have hmem : first ∈ chars.flatMap String.utf8EncodeChar :=
      List.mem_flatMap.mpr ⟨c, hc, by simp [hbytes]⟩
    exact absurd (h first hmem) (Nat.not_lt.mpr hfirst)
  refine ⟨?_, hascii⟩
  induction chars with
  | nil => rfl
  | cons c chars ih =>
      have htail := ih (fun byte hbyte => h byte (by simp [hbyte]))
        fun c hc => hascii c (List.mem_cons_of_mem _ hc)
      simp [utf8EncodeChar_of_lt (hascii c List.mem_cons_self), htail]

end Cbor

end Sypherstore.Logic
