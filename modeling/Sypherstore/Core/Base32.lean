/-
# Base32 and back

Five bytes and eight characters are the digits of the same forty bits. A piece of the data
that is shorter is filled up with zero bytes, which the decoder returns with the rest.
-/

import Mathlib.Data.List.GetD
import Sypherstore.Core.Recovery
import Sypherstore.Logic.Digits

namespace Sypherstore

open Logic

namespace Recovery

/-! ## Pieces -/

section Chunks

variable {α β : Type} {n : ℕ}

theorem chunks_nil (n : ℕ) : chunks n ([] : List α) = [] := rfl

/-- More fuel than there are elements makes no difference. -/
theorem chunksUpTo_eq (hn : 0 < n) {fuel : ℕ} {xs : List α} (h : xs.length ≤ fuel) :
    chunksUpTo n fuel xs = chunks n xs := by
  induction fuel using Nat.strongRecOn generalizing xs with
  | ind fuel ih =>
      cases xs with
      | nil => cases fuel <;> rfl
      | cons x xs =>
          obtain ⟨fuel, rfl⟩ : ∃ k, fuel = k + 1 := ⟨fuel - 1, by simp at h; omega⟩
          rw [List.length_cons] at h
          have hdrop : ((x :: xs).drop n).length ≤ xs.length := by
            rw [List.length_drop, List.length_cons]
            omega
          have hleft : chunksUpTo n fuel ((x :: xs).drop n) = chunks n ((x :: xs).drop n) :=
            ih fuel (by omega) (by omega)
          have hright := ih xs.length (by omega) hdrop
          rw [chunks, chunksUpTo, List.length_cons, chunksUpTo, hleft, hright]
          · simp
          · simp

theorem chunks_of_ne_nil (hn : 0 < n) {xs : List α} (h : xs ≠ []) :
    chunks n xs = xs.take n :: chunks n (xs.drop n) := by
  cases xs with
  | nil => exact absurd rfl h
  | cons x xs =>
      have hdrop : ((x :: xs).drop n).length ≤ xs.length := by
        rw [List.length_drop, List.length_cons]
        omega
      rw [← chunksUpTo_eq hn hdrop, chunks, List.length_cons, chunksUpTo]
      simp

/-- **Induction on pieces**: from what is left behind the first piece to the whole list. -/
@[elab_as_elim]
theorem pieces_induction (hn : 0 < n) {motive : List α → Prop} (nil : motive [])
    (piece : ∀ xs, xs ≠ [] → motive (xs.drop n) → motive xs) (xs : List α) : motive xs := by
  induction hlength : xs.length using Nat.strongRecOn generalizing xs with
  | ind length ih =>
      by_cases hne : xs = []
      · rw [hne]
        exact nil
      · have hpos := List.length_pos_iff.mpr hne
        exact piece xs hne (ih (length - n) (by omega) _ (by simp [hlength]))

/-- A whole piece in front is the first piece. -/
theorem chunks_append (hn : 0 < n) {piece : List α} (hpiece : piece.length = n) (xs : List α) :
    chunks n (piece ++ xs) = piece :: chunks n xs := by
  have hne : piece ++ xs ≠ [] := by
    intro h
    rw [List.append_eq_nil_iff] at h
    simp [h.1] at hpiece
    omega
  rw [chunks_of_ne_nil hn hne, ← hpiece, List.take_left, List.drop_left]

/-- **Cutting undoes joining**, where all the pieces are whole. -/
theorem chunks_flatMap (hn : 0 < n) {f : β → List α} {ys : List β}
    (h : ∀ y ∈ ys, (f y).length = n) : chunks n (ys.flatMap f) = ys.map f := by
  induction ys with
  | nil => rfl
  | cons y ys ih =>
      rw [List.flatMap_cons, chunks_append hn (h y List.mem_cons_self),
        ih fun y hy => h y (List.mem_cons_of_mem _ hy), List.map_cons]

theorem chunks_append_of_dvd (hn : 0 < n) {front : List α} (h : n ∣ front.length)
    (back : List α) : chunks n (front ++ back) = chunks n front ++ chunks n back := by
  induction front using pieces_induction hn with
  | nil => rfl
  | piece front hne ih =>
      have hle : n ≤ front.length := Nat.le_of_dvd (List.length_pos_iff.mpr hne) h
      have hrest : n ∣ (front.drop n).length := by
        rw [List.length_drop]
        exact Nat.dvd_sub h (Nat.dvd_refl n)
      have hfirst : (front.take n).length = n := by simpa using hle
      conv_lhs => rw [← List.take_append_drop n front, List.append_assoc,
        chunks_append hn hfirst, ih hrest]
      rw [chunks_of_ne_nil hn hne, List.cons_append]

theorem length_chunks (hn : 0 < n) (xs : List α) :
    (chunks n xs).length = (xs.length + (n - 1)) / n := by
  induction xs using pieces_induction hn with
  | nil => exact (Nat.div_eq_of_lt (by simp; omega)).symm
  | piece xs hne ih =>
      have hpos := List.length_pos_iff.mpr hne
      rw [chunks_of_ne_nil hn hne, List.length_cons, ih, List.length_drop]
      by_cases hle : n ≤ xs.length
      · rw [show xs.length + (n - 1) = (xs.length - n + (n - 1)) + n by omega,
          Nat.add_div_right _ hn]
      · rw [show xs.length - n = 0 by omega, Nat.div_eq_of_lt (by omega : 0 + (n - 1) < n)]
        symm
        rw [Nat.div_eq_iff hn]
        omega

theorem length_le_of_mem_chunks (hn : 0 < n) (xs : List α) :
    ∀ piece ∈ chunks n xs, piece.length ≤ n := by
  induction xs using pieces_induction hn with
  | nil => exact fun _ h => nomatch h
  | piece xs hne ih =>
      rw [chunks_of_ne_nil hn hne]
      intro piece h
      rcases List.mem_cons.mp h with rfl | h
      · exact List.length_take_le n _
      · exact ih piece h

/-- Where a list is cut without a rest, every piece is whole. -/
theorem length_eq_of_mem_chunks (hn : 0 < n) (xs : List α) (h : n ∣ xs.length) :
    ∀ piece ∈ chunks n xs, piece.length = n := by
  induction xs using pieces_induction hn with
  | nil => exact fun _ h => nomatch h
  | piece xs hne ih =>
      have hle : n ≤ xs.length := Nat.le_of_dvd (List.length_pos_iff.mpr hne) h
      rw [chunks_of_ne_nil hn hne]
      intro piece hmem
      rcases List.mem_cons.mp hmem with rfl | hmem
      · simpa using hle
      · exact ih (by rw [List.length_drop]; exact Nat.dvd_sub h (Nat.dvd_refl n)) piece hmem

/-- Joining undoes cutting. -/
theorem flatten_chunks (hn : 0 < n) (xs : List α) : (chunks n xs).flatten = xs := by
  induction xs using pieces_induction hn with
  | nil => rfl
  | piece xs hne ih =>
      rw [chunks_of_ne_nil hn hne, List.flatten_cons, ih, List.take_append_drop]

/-- How many elements are missing from the last piece. -/
def padding (n length : ℕ) : ℕ := (n - length % n) % n

/-- Filling up every piece fills up the list. -/
theorem flatMap_chunks_padded (hn : 0 < n) (zero : α) (xs : List α) :
    (chunks n xs).flatMap (fun piece => piece ++ List.replicate (n - piece.length) zero) =
      xs ++ List.replicate (padding n xs.length) zero := by
  induction xs using pieces_induction hn with
  | nil => simp [chunks_nil, padding]
  | piece xs hne ih =>
      have hpos := List.length_pos_iff.mpr hne
      rw [chunks_of_ne_nil hn hne, List.flatMap_cons, ih, List.length_drop]
      by_cases hle : n ≤ xs.length
      · -- only the last piece has room
        have hmod : padding n (xs.length - n) = padding n xs.length := by
          rw [padding, padding, ← Nat.mod_eq_sub_mod hle]
        have hfull : n - (xs.take n).length = 0 := by
          rw [List.length_take]
          omega
        rw [hmod, hfull, List.replicate_zero, List.append_nil, ← List.append_assoc,
          List.take_append_drop]
      · have hlt : xs.length < n := by omega
        have hmissing : padding n xs.length = n - xs.length := by
          rw [padding, Nat.mod_eq_of_lt hlt, Nat.mod_eq_of_lt (by omega)]
        have hnone : padding n (xs.length - n) = 0 := by
          rw [show xs.length - n = 0 by omega, padding, Nat.zero_mod, Nat.sub_zero, Nat.mod_self]
        rw [List.take_of_length_le (by omega), List.drop_eq_nil_of_le (by omega), hmissing, hnone,
          List.replicate_zero, List.append_nil, List.append_nil]

end Chunks

/-! ## One piece -/

/-- Reading with a default fills up the list. -/
theorem map_range_getD {α : Type} {n : ℕ} (zero : α) {xs : List α} (h : xs.length ≤ n) :
    (List.range n).map (fun i => xs.getD i zero) =
      xs ++ List.replicate (n - xs.length) zero := by
  apply List.ext_getElem
  · simp
    omega
  · intro i hi _
    simp only [List.length_map, List.length_range] at hi
    simp only [List.getElem_map, List.getElem_range, List.getElem_append, List.getElem_replicate]
    split
    · rename_i hlt
      exact List.getD_eq_getElem _ zero hlt
    · rename_i hge
      exact List.getD_eq_default _ zero (by omega)

/-- The character of a digit. -/
def character (d : ℕ) : UInt8 := alphabet.getD d 0

/-- The eight characters of forty bits. -/
def charactersOfBits (bits : ℕ) : Bytes := (Digits.toDigits 32 8 bits).map character

theorem base32Encode_eq (data : Bytes) :
    base32Encode data =
      (chunks 5 data).flatMap fun chunk => charactersOfBits (bitsOfBytes chunk) := by
  simp only [base32Encode, charactersOfBits, Digits.toDigits, List.map_map]
  rfl

theorem bitsOfBytes_eq {chunk : Bytes} (h : chunk.length ≤ 5) :
    bitsOfBytes chunk = Digits.ofDigits 256
      ((chunk ++ List.replicate (5 - chunk.length) 0).map UInt8.toNat) := by
  rw [← map_range_getD 0 h, List.map_map, Digits.ofDigits, List.foldl_map]
  rfl

theorem bytesOfBits_eq (bits : ℕ) :
    bytesOfBits bits = (Digits.toDigits 256 5 bits).map UInt8.ofNat := by
  rw [Digits.toDigits, List.map_map]
  apply List.map_congr_left
  intro i _
  apply UInt8.toNat_inj.mp
  simp [UInt8.toNat_ofNat']

theorem lt_of_mem_map_toNat (bytes : Bytes) : ∀ d ∈ bytes.map UInt8.toNat, d < 256 := by
  intro d hd
  obtain ⟨byte, _, rfl⟩ := List.mem_map.mp hd
  exact byte.toNat_lt

theorem bitsOfBytes_lt {chunk : Bytes} (h : chunk.length ≤ 5) : bitsOfBytes chunk < 32 ^ 8 := by
  rw [bitsOfBytes_eq h]
  refine (Digits.ofDigits_lt (by omega) (lt_of_mem_map_toNat _)).trans_le ?_
  rw [List.length_map, List.length_append, List.length_replicate,
    Nat.add_sub_cancel' h]
  decide

/-- Five bytes are read back, and a shorter piece filled up. -/
theorem bytesOfBits_bitsOfBytes {chunk : Bytes} (h : chunk.length ≤ 5) :
    bytesOfBits (bitsOfBytes chunk) = chunk ++ List.replicate (5 - chunk.length) 0 := by
  rw [bytesOfBits_eq, bitsOfBytes_eq h, Digits.toDigits_ofDigits (by omega)
    (by simp; omega) (lt_of_mem_map_toNat _)]
  simp [List.map_map, Function.comp_def]

theorem bitsOfBytes_bytesOfBits {bits : ℕ} (h : bits < 32 ^ 8) :
    bitsOfBytes (bytesOfBits bits) = bits := by
  have hlength : (bytesOfBits bits).length = 5 := by simp [bytesOfBits]
  have hdigits : (bytesOfBits bits).map UInt8.toNat = Digits.toDigits 256 5 bits := by
    rw [bytesOfBits_eq, List.map_map]
    conv_rhs => rw [← List.map_id (Digits.toDigits 256 5 bits)]
    apply List.map_congr_left
    intro d hd
    exact UInt8.toNat_ofNat_of_lt' (Digits.lt_of_mem_toDigits (b := 256) (by omega) hd)
  rw [bitsOfBytes_eq hlength.le, hlength, Nat.sub_self, List.replicate_zero, List.append_nil,
    hdigits, Digits.ofDigits_toDigits]
  exact Nat.mod_eq_of_lt (h.trans_eq (by decide))

theorem length_alphabet : alphabet.length = 32 := by decide

theorem nodup_alphabet : alphabet.Nodup := by decide

theorem characterValue_eq_ok_iff {c : UInt8} {d : ℕ} :
    characterValue c = .ok d ↔ d < 32 ∧ c = character d := by
  rw [characterValue, Fallible.ofOption_eq_ok_iff, List.idxOf?,
    List.findIdx?_eq_some_iff_getElem]
  constructor
  · rintro ⟨hlt, hfound, _⟩
    refine ⟨length_alphabet ▸ hlt, ?_⟩
    rw [character, List.getD_eq_getElem _ _ hlt]
    exact (beq_iff_eq.mp hfound).symm
  · rintro ⟨hlt, rfl⟩
    have hlt' : d < alphabet.length := by rwa [length_alphabet]
    rw [character, List.getD_eq_getElem _ _ hlt']
    refine ⟨hlt', beq_self_eq_true _, ?_⟩
    -- no character stands twice in the alphabet
    intro j hj hsame
    have hindex := (List.Nodup.getElem_inj_iff nodup_alphabet).mp (beq_iff_eq.mp hsame)
    omega

/-- Reading the digits one after the other. -/
theorem foldlM_values_eq_ok_iff {chunk : Bytes} {init bits : ℕ} :
    (chunk.foldlM (fun bits c => do return bits * 32 + (← characterValue c)) init :
        Fallible RecoveryError ℕ) = .ok bits ↔
      ∃ ds : List ℕ, (∀ d ∈ ds, d < 32) ∧ chunk = ds.map character ∧
        bits = ds.foldl (fun bits d => bits * 32 + d) init := by
  induction chunk generalizing init with
  | nil =>
      constructor
      · intro h
        exact ⟨[], by simp, rfl, (Except.ok.inj h).symm⟩
      · rintro ⟨ds, _, hnil, rfl⟩
        rw [List.map_eq_nil_iff.mp hnil.symm]
        rfl
  | cons c chunk ih =>
      rw [List.foldlM_cons, Fallible.bind_eq_ok_iff]
      constructor
      · rintro ⟨next, hstep, hrest⟩
        obtain ⟨d, hvalue, hnext⟩ := (Fallible.bind_eq_ok_iff _ _ _).mp hstep
        obtain ⟨hd, rfl⟩ := characterValue_eq_ok_iff.mp hvalue
        obtain ⟨ds, hds, rfl, rfl⟩ := ih.mp hrest
        cases hnext
        exact ⟨d :: ds, List.forall_mem_cons.mpr ⟨hd, hds⟩, rfl, rfl⟩
      · rintro ⟨ds, hds, hchunk, rfl⟩
        cases ds with
        | nil => cases hchunk
        | cons d ds =>
            obtain ⟨hd, hds⟩ := List.forall_mem_cons.mp hds
            obtain ⟨rfl, rfl⟩ := List.cons.inj hchunk
            refine ⟨init * 32 + d, ?_, ih.mpr ⟨ds, hds, rfl, rfl⟩⟩
            rw [characterValue_eq_ok_iff.mpr ⟨hd, rfl⟩]
            rfl

/-- A piece of eight characters is read digit by digit. -/
theorem bitsOfCharacters_eq_ok_iff {chunk : Bytes} (h : chunk.length = 8) {bits : ℕ} :
    bitsOfCharacters chunk = .ok bits ↔ bits < 32 ^ 8 ∧ chunk = charactersOfBits bits := by
  have hread : bitsOfCharacters chunk =
      chunk.foldlM (fun bits c => do return bits * 32 + (← characterValue c)) 0 := by
    have hrange := map_range_getD (UInt8.ofNat '0'.toNat) h.le
    rw [h, Nat.sub_self, List.replicate_zero, List.append_nil] at hrange
    conv_rhs => rw [← hrange, List.foldlM_map]
    rfl
  rw [hread, foldlM_values_eq_ok_iff]
  constructor
  · rintro ⟨ds, hds, rfl, rfl⟩
    have hlength : ds.length = 8 := by simpa using h
    have hlt := Digits.ofDigits_lt (b := 32) (by omega) hds
    rw [hlength] at hlt
    refine ⟨hlt, ?_⟩
    rw [charactersOfBits, ← Digits.ofDigits, Digits.toDigits_ofDigits (by omega) hlength hds]
  · rintro ⟨hlt, rfl⟩
    refine ⟨_, fun d hd => Digits.lt_of_mem_toDigits (by omega) hd, rfl, ?_⟩
    have hvalue := Digits.ofDigits_toDigits 32 8 bits
    rw [Nat.mod_eq_of_lt hlt] at hvalue
    exact hvalue.symm

@[simp] theorem length_charactersOfBits (bits : ℕ) : (charactersOfBits bits).length = 8 := by
  simp [charactersOfBits]

/-! ## The whole text -/

theorem chunks_base32Encode (data : Bytes) :
    chunks 8 (base32Encode data) =
      (chunks 5 data).map fun chunk => charactersOfBits (bitsOfBytes chunk) := by
  rw [base32Encode_eq, chunks_flatMap (by omega) fun _ _ => length_charactersOfBits _]

theorem length_base32Encode (data : Bytes) :
    (base32Encode data).length = base32Len data.length := by
  rw [base32Encode_eq, List.length_flatMap]
  simp [base32Len, length_chunks]

/-- **Decoding undoes encoding**, up to the zeros that fill up the last five bytes. -/
theorem base32Decode_base32Encode (data : Bytes) :
    base32Decode (base32Encode data) =
      .ok (data ++ List.replicate (padding 5 data.length) 0) := by
  have hpieces : (chunks 8 (base32Encode data)).mapM bitsOfCharacters =
      .ok ((chunks 5 data).map bitsOfBytes) := by
    rw [chunks_base32Encode, List.mapM_map]
    apply Fallible.mapM_eq_ok_map
    intro chunk hchunk
    have hlt := bitsOfBytes_lt (length_le_of_mem_chunks (by omega) data chunk hchunk)
    exact (bitsOfCharacters_eq_ok_iff (length_charactersOfBits _)).mpr ⟨hlt, rfl⟩
  rw [base32Decode, hpieces, Fallible.ok_bind, List.flatMap_map,
    ← flatMap_chunks_padded (by omega) 0 data]
  congr 1
  apply List.flatMap_congr
  intro chunk hchunk
  exact bytesOfBits_bitsOfBytes (length_le_of_mem_chunks (by omega) data chunk hchunk)

theorem read_whole_pieces {chunks : List Bytes} {pieces : List ℕ}
    (hwhole : ∀ chunk ∈ chunks, chunk.length = 8)
    (h : chunks.mapM bitsOfCharacters = .ok pieces) :
    (∀ bits ∈ pieces, bits < 32 ^ 8) ∧ chunks = pieces.map charactersOfBits := by
  induction Fallible.mapM_eq_ok_iff.mp h with
  | nil => simp
  | @cons chunk bits chunks pieces hchunk hchunks ih =>
      rw [List.forall_mem_cons] at hwhole
      obtain ⟨hlt, rfl⟩ := (bitsOfCharacters_eq_ok_iff hwhole.1).mp hchunk
      obtain ⟨hlts, rfl⟩ := ih hwhole.2 (Fallible.mapM_eq_ok_iff.mpr hchunks)
      exact ⟨List.forall_mem_cons.mpr ⟨hlt, hlts⟩, rfl⟩

theorem base32Encode_append {front : Bytes} (h : 5 ∣ front.length) (back : Bytes) :
    base32Encode (front ++ back) = base32Encode front ++ base32Encode back := by
  simp only [base32Encode_eq, chunks_append_of_dvd (by omega) h, List.flatMap_append]

theorem mem_base32Encode {data : Bytes} {c : UInt8} (h : c ∈ base32Encode data) :
    ∃ d < 32, c = character d := by
  rw [base32Encode_eq, List.mem_flatMap] at h
  obtain ⟨chunk, _, hc⟩ := h
  obtain ⟨d, hd, rfl⟩ := List.mem_map.mp hc
  exact ⟨d, Digits.lt_of_mem_toDigits (by omega) hd, rfl⟩

/-- **Encoding undoes decoding** of a text in whole pieces. -/
theorem base32Encode_of_base32Decode {text data : Bytes} (hwhole : 8 ∣ text.length)
    (h : base32Decode text = .ok data) : base32Encode data = text := by
  obtain ⟨pieces, hpieces, hdata⟩ := (Fallible.bind_eq_ok_iff _ _ _).mp h
  cases hdata
  obtain ⟨hlt, hchunks⟩ :=
    read_whole_pieces (length_eq_of_mem_chunks (by omega) text hwhole) hpieces
  rw [base32Encode_eq, chunks_flatMap (by omega) (fun _ _ => by simp [bytesOfBits]),
    List.flatMap_map, ← flatten_chunks (n := 8) (by omega) text, hchunks, List.flatMap_def]
  congr 1
  apply List.map_congr_left
  intro bits hbits
  rw [bitsOfBytes_bytesOfBits (hlt bits hbits)]

theorem length_base32Decode {text data : Bytes} (h : base32Decode text = .ok data) :
    data.length = (text.length + 7) / 8 * 5 := by
  obtain ⟨pieces, hpieces, hdata⟩ := (Fallible.bind_eq_ok_iff _ _ _).mp h
  cases hdata
  have hlength := (Fallible.mapM_eq_ok_iff.mp hpieces).length_eq
  rw [length_chunks (by omega)] at hlength
  rw [List.length_flatMap, hlength]
  simp [bytesOfBits]

/-- Filling up the data does not change the text. -/
theorem base32Encode_padded (data : Bytes) :
    base32Encode (data ++ List.replicate (padding 5 data.length) 0) = base32Encode data := by
  refine base32Encode_of_base32Decode ?_ (base32Decode_base32Encode data)
  rw [length_base32Encode]
  exact Nat.dvd_mul_left 8 _

end Recovery

end Sypherstore
