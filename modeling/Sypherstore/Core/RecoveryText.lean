/-
# Which texts are recovery keys

The decoder accepts a text exactly when, without spaces and dashes and in upper case, it is
the prefix followed by the encoding of forty bytes of which the first thirty-six are a key
and its checksum. The other four are never looked at: where they are not zero the text is
accepted although no key is written like that.
-/

import Sypherstore.Core.Base32
import Sypherstore.Logic.Utf8

namespace Sypherstore

open Logic

namespace Recovery

variable {sha256 : Bytes → Block 32} {key : Key} {s : String}

/-! ## Bytes and characters -/

/-- The text of some ASCII bytes. -/
def characters (bytes : Bytes) : List Char := bytes.map fun c => Char.ofNat c.toNat

theorem toNat_character_lt {d : ℕ} (h : d < 32) : (character d).toNat < 128 := by
  revert d
  decide

theorem toNat_lt_of_mem_base32Encode {data : Bytes} {c : UInt8} (h : c ∈ base32Encode data) :
    c.toNat < 128 := by
  obtain ⟨d, hd, rfl⟩ := mem_base32Encode h
  exact toNat_character_lt hd

/-- Going through the characters and back changes no ASCII byte. -/
theorem utf8_characters {bytes : Bytes} (h : ∀ c ∈ bytes, c.toNat < 128) :
    Cbor.utf8 (String.ofList (characters bytes)) = bytes := by
  rw [Cbor.utf8_ofList, characters, List.flatMap_map]
  induction bytes with
  | nil => rfl
  | cons c bytes ih =>
      rw [List.forall_mem_cons] at h
      have hback := Cbor.toNat_ofNat_of_lt h.1
      rw [List.flatMap_cons, ih h.2, Cbor.utf8EncodeChar_of_lt (by rw [hback]; exact h.1), hback]
      simp

theorem characters_utf8 {chars : List Char}
    (h : ∀ byte ∈ Cbor.utf8 (String.ofList chars), byte.toNat < 128) :
    characters (Cbor.utf8 (String.ofList chars)) = chars := by
  obtain ⟨hbytes, hascii⟩ := Cbor.eq_map_of_utf8_lt h
  rw [← hbytes, characters, List.map_map]
  conv_rhs => rw [← List.map_id chars]
  apply List.map_congr_left
  intro c hc
  have hlt := hascii c hc
  simp only [Function.comp_apply, id_eq, UInt8.toNat_ofNat']
  rw [Nat.mod_eq_of_lt (by omega)]
  exact Char.ofNat_toNat c

theorem characters_injective_of_lt {xs ys : Bytes} (hxs : ∀ c ∈ xs, c.toNat < 128)
    (hys : ∀ c ∈ ys, c.toNat < 128) : characters xs = characters ys ↔ xs = ys := by
  refine ⟨fun h => ?_, congrArg characters⟩
  rw [← utf8_characters hxs, h, utf8_characters hys]

/-! ## Acceptance -/

/-- A key and its checksum. -/
def payload (sha256 : Bytes → Block 32) (key : Key) : Bytes :=
  key.bytes ++ checksum sha256 key.bytes

theorem length_checksum (bytes : Bytes) : (checksum sha256 bytes).length = checksumLen := by
  rw [checksum, List.length_take, Block.length_eq]
  rfl

theorem length_payload : (payload sha256 key).length = keyLen + checksumLen := by
  rw [payload, List.length_append, key.length_eq, length_checksum]

/-- What the decoder does with the bytes behind the prefix. -/
def decodeBody (sha256 : Bytes → Block 32) (body : Bytes) : Fallible RecoveryError Key :=
  let expectedChars := base32Len (keyLen + checksumLen)
  if body.length ≠ expectedChars then Fallible.raise (.badLength expectedChars body.length)
  else do
    let decoded ← base32Decode body
    if decoded.length < keyLen + checksumLen then
      Fallible.raise (.badLength expectedChars body.length)
    else
      let keyBytes := decoded.take keyLen
      let provided := (decoded.take (keyLen + checksumLen)).drop keyLen
      if checksum sha256 keyBytes ≠ provided then Fallible.raise .badChecksum
      else (Key.takeFrom keyBytes).mapError .key

theorem decode_of_cleaned {chars : List Char} (h : cleaned s = formatPrefix ++ chars) :
    decode sha256 s = decodeBody sha256 (Cbor.utf8 (String.ofList chars)) := by
  have hprefix : formatPrefix.isPrefixOf (formatPrefix ++ chars) = true :=
    List.isPrefixOf_iff_prefix.mpr (List.prefix_append _ _)
  simp only [decode, h, hprefix, if_true, List.drop_left]
  rfl

theorem exists_cleaned_of_decode (h : decode sha256 s = .ok key) :
    ∃ chars, cleaned s = formatPrefix ++ chars := by
  unfold decode at h
  dsimp only at h
  split at h
  · rename_i hprefix
    obtain ⟨chars, hchars⟩ := List.isPrefixOf_iff_prefix.mp hprefix
    exact ⟨chars, hchars.symm⟩
  · cases h

theorem base32Decode_base32Encode_whole {data : Bytes} (h : data.length = 40) :
    base32Decode (base32Encode data) = .ok data := by
  rw [base32Decode_base32Encode, h]
  simp [padding]

/-- The body is the encoding of forty bytes that start with a key and its checksum. -/
theorem decodeBody_eq_ok_iff {body : Bytes} :
    decodeBody sha256 body = .ok key ↔ ∃ data : Bytes, data.length = 40 ∧
      base32Encode data = body ∧ data.take (keyLen + checksumLen) = payload sha256 key := by
  constructor
  · intro h
    unfold decodeBody at h
    dsimp only at h
    split at h
    · cases h
    · rename_i hlength
      rw [not_not] at hlength
      obtain ⟨data, hdata, h⟩ := (Fallible.bind_eq_ok_iff _ _ _).mp h
      refine ⟨data, ?_, base32Encode_of_base32Decode ?_ hdata, ?_⟩
      · rw [length_base32Decode hdata, hlength]
        rfl
      · rw [hlength]
        exact Nat.dvd_mul_left 8 _
      split at h
      · cases h
      · split at h
        · cases h
        · rename_i hchecksum
          rw [Fallible.mapError_eq_ok_iff, Key.takeFrom_eq_ok_iff] at h
          rw [not_not, h] at hchecksum
          have hkey : (data.take (keyLen + checksumLen)).take keyLen = key.bytes := by
            rw [List.take_take, Nat.min_eq_left (Nat.le_add_right _ _), h]
          rw [payload, hchecksum, ← hkey, List.take_append_drop]
  · rintro ⟨data, hforty, rfl, hpayload⟩
    have hlength : (base32Encode data).length = base32Len (keyLen + checksumLen) := by
      rw [length_base32Encode, hforty]
      rfl
    have hkey : data.take keyLen = key.bytes := by
      have htake : data.take keyLen = (data.take (keyLen + checksumLen)).take keyLen := by
        rw [List.take_take, Nat.min_eq_left (Nat.le_add_right _ _)]
      rw [htake, hpayload, payload, List.take_left' key.length_eq]
    have hprovided : (data.take (keyLen + checksumLen)).drop keyLen =
        checksum sha256 key.bytes := by
      rw [hpayload, payload, List.drop_left' key.length_eq]
    have hlong : ¬ data.length < keyLen + checksumLen := by
      rw [hforty]
      decide
    simp only [decodeBody, hlength, ne_eq, not_true_eq_false, if_false,
      base32Decode_base32Encode_whole hforty, Fallible.ok_bind, hlong, hkey, hprovided,
      Key.takeFrom_bytes, Fallible.mapError_ok]

/-- **What the decoder accepts.** -/
theorem decode_eq_ok_iff :
    decode sha256 s = .ok key ↔ ∃ data : Bytes, data.length = 40 ∧
      cleaned s = formatPrefix ++ characters (base32Encode data) ∧
      data.take (keyLen + checksumLen) = payload sha256 key := by
  constructor
  · intro h
    obtain ⟨chars, hcleaned⟩ := exists_cleaned_of_decode h
    rw [decode_of_cleaned hcleaned, decodeBody_eq_ok_iff] at h
    obtain ⟨data, hforty, hbody, hpayload⟩ := h
    refine ⟨data, hforty, ?_, hpayload⟩
    have hascii : ∀ byte ∈ Cbor.utf8 (String.ofList chars), byte.toNat < 128 := by
      rw [← hbody]
      exact fun byte => toNat_lt_of_mem_base32Encode
    rw [hcleaned, hbody, characters_utf8 hascii]
  · rintro ⟨data, hforty, hcleaned, hpayload⟩
    have hbody : Cbor.utf8 (String.ofList (characters (base32Encode data))) = base32Encode data :=
      utf8_characters fun c => toNat_lt_of_mem_base32Encode
    rw [decode_of_cleaned hcleaned, hbody, decodeBody_eq_ok_iff]
    exact ⟨data, hforty, rfl, hpayload⟩

/-! ## What a key is written like -/

/-- The characters that cleaning neither drops nor changes. -/
def IsPlain (c : Char) : Prop :=
  isWhitespace c = false ∧ c ≠ '-' ∧ toAsciiUppercase c = c

instance (c : Char) : Decidable (IsPlain c) := inferInstanceAs (Decidable (_ ∧ _ ∧ _))

/-- The letter or number of a digit. -/
def digitChar (d : ℕ) : Char := Char.ofNat (character d).toNat

theorem isPlain_digitChar {d : ℕ} (h : d < 32) : IsPlain (digitChar d) := by
  revert d
  decide

theorem isPlain_of_mem_characters {data : Bytes} {c : Char}
    (h : c ∈ characters (base32Encode data)) : IsPlain c := by
  obtain ⟨byte, hbyte, rfl⟩ := List.mem_map.mp h
  obtain ⟨d, hd, rfl⟩ := mem_base32Encode hbyte
  exact isPlain_digitChar hd

theorem isPlain_of_mem_formatPrefix {c : Char} (h : c ∈ formatPrefix) : IsPlain c := by
  have hprefix : (formatPrefix.all fun c => decide (IsPlain c)) = true := by decide
  exact of_decide_eq_true (List.all_eq_true.mp hprefix c h)

theorem isPlain_of_mem {data : Bytes} {c : Char}
    (h : c ∈ formatPrefix ++ characters (base32Encode data)) : IsPlain c := by
  rcases List.mem_append.mp h with h | h
  · exact isPlain_of_mem_formatPrefix h
  · exact isPlain_of_mem_characters h

theorem toList_encode (sha256 : Bytes → Block 32) (key : Key) :
    (encode sha256 key).toList = formatPrefix ++
      (chunks 8 (base32Encode (payload sha256 key))).flatMap fun group =>
        '-' :: characters group := by
  simp only [encode, String.toList_ofList, List.flatMap_map]
  rfl

/-- Whatever drops the dashes and keeps the other characters leaves the prefix and the
encoding. -/
theorem filter_encode {keep : Char → Bool} (hdash : keep '-' = false)
    (hplain : ∀ c, IsPlain c → keep c = true) :
    (encode sha256 key).toList.filter keep =
      formatPrefix ++ characters (base32Encode (payload sha256 key)) := by
  have hgroups : ∀ groups : List Bytes, (∀ c ∈ characters groups.flatten, IsPlain c) →
      (groups.flatMap fun group => '-' :: characters group).filter keep =
        characters groups.flatten := by
    intro groups h
    induction groups with
    | nil => rfl
    | cons group groups ih =>
        have hsplit : characters (group :: groups).flatten =
            characters group ++ characters groups.flatten := List.map_append
        rw [hsplit, List.forall_mem_append] at h
        rw [List.flatMap_cons, List.filter_append, ih h.2,
          List.filter_cons_of_neg (by simp [hdash]),
          List.filter_eq_self.mpr fun c hc => hplain c (h.1 c hc), hsplit]
  have hjoin := flatten_chunks (n := 8) (by omega) (base32Encode (payload sha256 key))
  rw [toList_encode, List.filter_append, hgroups _ (by
      rw [hjoin]
      exact fun c => isPlain_of_mem_characters), hjoin,
    List.filter_eq_self.mpr fun c hc => hplain c (isPlain_of_mem_formatPrefix hc)]

/-- The characters of a written key without its dashes. -/
theorem undashed_encode (sha256 : Bytes → Block 32) (key : Key) :
    (encode sha256 key).toList.filter (· ≠ '-') =
      formatPrefix ++ characters (base32Encode (payload sha256 key)) :=
  filter_encode (by decide) fun c hc => by simpa using hc.2.1

theorem cleaned_encode (sha256 : Bytes → Block 32) (key : Key) :
    cleaned (encode sha256 key) =
      formatPrefix ++ characters (base32Encode (payload sha256 key)) := by
  rw [cleaned, filter_encode (by decide) fun c hc => by simp [hc.1, hc.2.1]]
  conv_rhs => rw [← List.map_id (_ ++ _)]
  apply List.map_congr_left
  exact fun c hc => (isPlain_of_mem hc).2.2

/-- Four more bytes make the payload a whole number of pieces. -/
theorem base32Encode_payload (sha256 : Bytes → Block 32) (key : Key) :
    base32Encode (payload sha256 key ++ List.replicate 4 0) =
      base32Encode (payload sha256 key) := by
  have hpadded := base32Encode_padded (payload sha256 key)
  rwa [length_payload] at hpadded

/-- Whatever is cleaned to the same text is read as the same key. -/
theorem decode_of_cleaned_eq (h : cleaned s = cleaned (encode sha256 key)) :
    decode sha256 s = .ok key := by
  rw [decode_eq_ok_iff]
  refine ⟨payload sha256 key ++ List.replicate 4 0, ?_, ?_, ?_⟩
  · rw [List.length_append, length_payload]
    rfl
  · rw [h, cleaned_encode, base32Encode_payload]
  · rw [List.take_left' length_payload]

/-! ## Retyping -/

/-- The two characters are the same, or the same letter in upper and lower case. -/
def SameLetter (c d : Char) : Prop := toAsciiUppercase c = toAsciiUppercase d

instance (c d : Char) : Decidable (SameLetter c d) := inferInstanceAs (Decidable (_ = _))

/-- The second text is the first one without some of its dashes, with more dashes and spaces
in it, and with letters in the other case. -/
inductive Retyped : List Char → List Char → Prop where
  | done : Retyped [] []
  | keep {c d s t} (h : SameLetter c d) (rest : Retyped s t) : Retyped (c :: s) (d :: t)
  | dropDash {s t} (rest : Retyped s t) : Retyped ('-' :: s) t
  | insert {d s t} (h : d = '-' ∨ isWhitespace d = true) (rest : Retyped s t) : Retyped s (d :: t)

/-- A letter is neither a space nor a dash. -/
theorem kept_of_letter {c : Char} (hlow : 65 ≤ c.toNat) (hhigh : c.toNat ≤ 122) :
    (!isWhitespace c && c ≠ '-') = true := by
  have hspace : isWhitespace c = false := by
    simp only [isWhitespace, Bool.or_eq_false_iff, Bool.and_eq_false_iff, decide_eq_false_iff_not]
    omega
  have hdash : c ≠ '-' := by
    rintro rfl
    exact absurd hlow (by decide)
  simp [hspace, hdash]

theorem kept_toAsciiUppercase (c : Char) :
    (!isWhitespace (toAsciiUppercase c) && toAsciiUppercase c ≠ '-') =
      (!isWhitespace c && c ≠ '-') := by
  unfold toAsciiUppercase
  split
  · rename_i hlower
    have hlow : 97 ≤ c.toNat := hlower.1
    have hhigh : c.toNat ≤ 122 := hlower.2
    have hupper : (Char.ofNat (c.toNat - 32)).toNat = c.toNat - 32 :=
      Cbor.toNat_ofNat_of_lt (by omega)
    rw [kept_of_letter (by omega) (by omega), kept_of_letter (by omega) hhigh]
  · rfl

/-- Changing the case of a character does not hide it. -/
theorem SameLetter.kept {c d : Char} (h : SameLetter c d) :
    (!isWhitespace c && c ≠ '-') = (!isWhitespace d && d ≠ '-') := by
  rw [← kept_toAsciiUppercase c, h, kept_toAsciiUppercase]

theorem Retyped.cleaned_eq {s t : List Char} (h : Retyped s t) :
    cleaned (String.ofList s) = cleaned (String.ofList t) := by
  simp only [cleaned, String.toList_ofList]
  induction h with
  | done => rfl
  | keep hsame _ ih =>
      rw [List.filter_cons, List.filter_cons, hsame.kept]
      split
      · rw [List.map_cons, List.map_cons, ih, hsame]
      · exact ih
  | dropDash _ ih => rwa [List.filter_cons_of_neg (by decide)]
  | insert hspacing _ ih =>
      rw [List.filter_cons_of_neg (by rcases hspacing with rfl | h <;> simp_all)]
      exact ih

/-- **Recovery keys survive retyping**, and under it base32 is decoded to what was encoded,
filled up with zeros to the next multiple of five. -/
theorem decode_retyped (sha256 : Bytes → Block 32) (key : Key) {s : String}
    (h : Retyped (encode sha256 key).toList s.toList) (data : Bytes) :
    decode sha256 s = .ok key ∧
      (∃ zeros < 5, 5 ∣ data.length + zeros ∧
        base32Decode (base32Encode data) = .ok (data ++ List.replicate zeros 0)) ∧
      (base32Encode data).length = base32Len data.length := by
  refine ⟨decode_of_cleaned_eq ?_, ⟨padding 5 data.length, ?_, ?_, ?_⟩, ?_⟩
  · simpa using h.cleaned_eq.symm
  · exact Nat.mod_lt _ (by omega)
  · unfold padding
    omega
  · exact base32Decode_base32Encode data
  · exact length_base32Encode data

theorem Retyped.refl : ∀ s : List Char, Retyped s s
  | [] => .done
  | _ :: s => .keep rfl (.refl s)

/-- A key typed in lower case, without the first dash and with a space in front. -/
theorem a_retyped_key_is_read :
    decode (fun _ => Block.replicate 32 0)
        " syph1 00000000-00000000-00000000-00000000-00000000-00000000-00000000-00000000" =
      .ok (Block.replicate keyLen 0) := by
  let groups := "00000000-00000000-00000000-00000000-00000000-00000000-00000000-00000000".toList
  have hencode : (encode (fun _ => Block.replicate 32 0) (Block.replicate keyLen 0)).toList =
      'S' :: 'Y' :: 'P' :: 'H' :: '1' :: '-' :: groups := by decide
  have htyped :
      " syph1 00000000-00000000-00000000-00000000-00000000-00000000-00000000-00000000".toList =
        ' ' :: 's' :: 'y' :: 'p' :: 'h' :: '1' :: ' ' :: groups := by decide
  refine (decode_retyped _ _ ?_ []).1
  rw [hencode, htyped]
  have hspace : ' ' = '-' ∨ isWhitespace ' ' = true := .inr (by decide)
  exact .insert hspace (.keep (by decide) (.keep (by decide) (.keep (by decide)
    (.keep (by decide) (.keep rfl (.insert hspace (.dropDash (.refl groups))))))))

/-! ## The four bytes that are not looked at -/

/-- The last thirty-two bits of the text are zero: the last six characters, and the lower two
bits of the one in front of them. -/
def PaddingIsZero (s : String) : Prop :=
  ∃ front c, cleaned s = front ++ c :: List.replicate 6 '0' ∧
    c ∈ ['0', '4', '8', 'C', 'G', 'M', 'R', 'W']

/-- Digits are all zero where what they are written as is all zero. -/
theorem map_eq_replicate_iff {α : Type} {write : ℕ → α} {zero : α} {ds : List ℕ} {n : ℕ}
    (h : ∀ d ∈ ds, write d = zero ↔ d = 0) :
    ds.map write = List.replicate n zero ↔ ds = List.replicate n 0 := by
  rw [List.eq_replicate_iff, List.eq_replicate_iff, List.length_map, List.forall_mem_map]
  exact and_congr_right fun _ => forall₂_congr h

theorem zero_bytes_iff (bits : ℕ) :
    (bytesOfBits bits).drop 1 = List.replicate 4 0 ↔ bits % 2 ^ 32 = 0 := by
  have hzero : ∀ d ∈ Digits.toDigits 256 4 bits, UInt8.ofNat d = 0 ↔ d = 0 := by
    intro d hd
    have hlt := Digits.lt_of_mem_toDigits (b := 256) (by omega) hd
    rw [← UInt8.toNat_inj, UInt8.toNat_ofNat_of_lt' hlt]
    rfl
  rw [bytesOfBits_eq, Digits.toDigits_add 256 1 4, List.map_append, List.drop_left' (by simp),
    map_eq_replicate_iff hzero, Digits.toDigits_eq_replicate_iff (by omega)]
  exact Iff.rfl

theorem digitChar_eq_zero_iff {d : ℕ} (h : d < 32) : digitChar d = '0' ↔ d = 0 := by
  revert d
  decide

theorem digitChar_mem_iff {d : ℕ} (h : d < 32) :
    digitChar d ∈ ['0', '4', '8', 'C', 'G', 'M', 'R', 'W'] ↔ d % 4 = 0 := by
  revert d
  decide

/-- The last eight characters: the first two carry ten bits, and the others thirty. -/
theorem characters_charactersOfBits (bits : ℕ) :
    characters (charactersOfBits bits) =
      digitChar (bits / 2 ^ 35 % 32) :: digitChar (bits / 2 ^ 30 % 32) ::
        (Digits.toDigits 32 6 bits).map digitChar := by
  have htwo : Digits.toDigits 32 2 (bits / 32 ^ 6) = [bits / 2 ^ 35 % 32, bits / 2 ^ 30 % 32] := by
    simp [Digits.toDigits, List.range_succ, Nat.div_div_eq_div_mul]
  rw [characters, charactersOfBits, Digits.toDigits_add 32 2 6, htwo, List.map_map]
  rfl

theorem zero_characters_iff (bits : ℕ) (front : List Char) :
    (∃ front' c, front ++ characters (charactersOfBits bits) =
        front' ++ c :: List.replicate 6 '0' ∧ c ∈ ['0', '4', '8', 'C', 'G', 'M', 'R', 'W']) ↔
      bits % 2 ^ 32 = 0 := by
  have hzero : (Digits.toDigits 32 6 bits).map digitChar = List.replicate 6 '0' ↔
      bits % 2 ^ 30 = 0 := by
    rw [map_eq_replicate_iff fun d hd => digitChar_eq_zero_iff
      (Digits.lt_of_mem_toDigits (by omega) hd), Digits.toDigits_eq_replicate_iff (by omega)]
    exact Iff.rfl
  have hlast := digitChar_mem_iff (Nat.mod_lt (bits / 2 ^ 30) (by omega : 0 < 32))
  rw [characters_charactersOfBits]
  constructor
  · rintro ⟨front', c, hsplit, hc⟩
    rw [List.append_cons] at hsplit
    obtain ⟨_, hback⟩ := List.append_inj' hsplit (by simp)
    obtain ⟨rfl, hrest⟩ := List.cons.inj hback
    have hlow := hzero.mp hrest
    have hhigh := hlast.mp hc
    omega
  · intro h
    refine ⟨front ++ [digitChar (bits / 2 ^ 35 % 32)], _, ?_, hlast.mpr (by omega)⟩
    rw [hzero.mpr (by omega), List.append_assoc]
    rfl

/-- The four bytes behind the checksum are zero exactly when the last characters say so. -/
theorem paddingIsZero_iff {data : Bytes} (hforty : data.length = 40)
    (hcleaned : cleaned s = formatPrefix ++ characters (base32Encode data)) :
    PaddingIsZero s ↔ data.drop (keyLen + checksumLen) = List.replicate 4 0 := by
  obtain ⟨front, last, rfl, hfront, hlast⟩ : ∃ front last : Bytes, data = front ++ last ∧
      front.length = 35 ∧ last.length = 5 :=
    ⟨data.take 35, data.drop 35, (List.take_append_drop _ _).symm, by simp [hforty],
      by simp [hforty]⟩
  have hpiece : base32Encode last = charactersOfBits (bitsOfBytes last) := by
    have hchunks := chunks_append (n := 5) (by omega) hlast []
    rw [List.append_nil, chunks_nil] at hchunks
    rw [base32Encode_eq, hchunks, List.flatMap_cons, List.flatMap_nil, List.append_nil]
  have hbytes : bytesOfBits (bitsOfBytes last) = last := by
    have h := bytesOfBits_bitsOfBytes hlast.le
    rwa [hlast, Nat.sub_self, List.replicate_zero, List.append_nil] at h
  have hdrop : (front ++ last).drop (keyLen + checksumLen) = last.drop 1 := by
    rw [List.drop_append, hfront, List.drop_eq_nil_of_le (by rw [hfront]; decide)]
    rfl
  rw [hdrop, ← hbytes, zero_bytes_iff, PaddingIsZero, hcleaned,
    base32Encode_append (by rw [hfront]; decide), hpiece, characters, List.map_append,
    ← List.append_assoc]
  exact zero_characters_iff _ _

theorem base32Encode_inj {data data' : Bytes} (h : data.length = 40) (h' : data'.length = 40) :
    base32Encode data = base32Encode data' ↔ data = data' := by
  refine ⟨fun hsame => ?_, congrArg base32Encode⟩
  have hdecoded := base32Decode_base32Encode_whole h
  rw [hsame, base32Decode_base32Encode_whole h'] at hdecoded
  exact (Except.ok.inj hdecoded).symm

theorem written_iff_paddingIsZero (h : decode sha256 s = .ok key) :
    cleaned s = (encode sha256 key).toList.filter (· ≠ '-') ↔ PaddingIsZero s := by
  obtain ⟨data, hforty, hcleaned, hpayload⟩ := decode_eq_ok_iff.mp h
  have hwritten : (payload sha256 key ++ List.replicate 4 0).length = 40 := by
    rw [List.length_append, length_payload]
    rfl
  have hascii : ∀ data : Bytes, ∀ c ∈ base32Encode data, c.toNat < 128 :=
    fun _ _ => toNat_lt_of_mem_base32Encode
  rw [paddingIsZero_iff hforty hcleaned, hcleaned, undashed_encode, List.append_cancel_left_eq,
    characters_injective_of_lt (hascii _) (hascii _), ← base32Encode_payload,
    base32Encode_inj hforty hwritten, ← hpayload]
  conv_lhs => lhs; rw [← List.take_append_drop (keyLen + checksumLen) data]
  exact List.append_right_inj _

/-- **The decoder accepts a key as it is written** exactly when the padding is zero; and where
it is, no other text of that kind is accepted for the same key. -/
theorem accepts_written_key_iff (sha256 : Bytes → Block 32) {s : String} {key : Key}
    (h : decode sha256 s = .ok key) :
    (cleaned s = (encode sha256 key).toList.filter (· ≠ '-') ↔ PaddingIsZero s) ∧
      ∀ s', cleaned s' ≠ cleaned s → PaddingIsZero s → PaddingIsZero s' →
        decode sha256 s' ≠ .ok key := by
  refine ⟨written_iff_paddingIsZero h, ?_⟩
  intro s' hother hs hs' hdecode
  rw [← written_iff_paddingIsZero h] at hs
  rw [← written_iff_paddingIsZero hdecode, ← hs] at hs'
  exact hother hs'

theorem a_written_key_is_accepted :
    cleaned (encode (fun _ => Block.replicate 32 7) (Block.replicate keyLen 1)) =
        (encode (fun _ => Block.replicate 32 7) (Block.replicate keyLen 1)).toList.filter
          (· ≠ '-') ↔
      PaddingIsZero (encode (fun _ => Block.replicate 32 7) (Block.replicate keyLen 1)) :=
  (accepts_written_key_iff _ (decode_of_cleaned_eq rfl)).1

/-- The last character of a written key may be replaced by another one: only bits that are
cut off change. -/
theorem a_changed_key_is_accepted :
    decode (fun _ => Block.replicate 32 0)
        "SYPH1-00000000-00000000-00000000-00000000-00000000-00000000-00000000-00000001" =
      .ok (Block.replicate keyLen 0) ∧
    ¬ cleaned "SYPH1-00000000-00000000-00000000-00000000-00000000-00000000-00000000-00000001" =
      (encode (fun _ => Block.replicate 32 0) (Block.replicate keyLen 0)).toList.filter
        (· ≠ '-') := by
  constructor
  · rw [decode_eq_ok_iff]
    exact ⟨List.replicate 39 0 ++ [1], by decide, by decide, by decide⟩
  · decide

end Recovery

end Sypherstore
