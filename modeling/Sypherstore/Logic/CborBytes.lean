/-
# CBOR on bytes

The byte format of the values in `Logic.Cbor`: each data item starts with a head,
whose first byte has the major type of the item in its three high bits, so that a
text, an array and a map can be told apart before anything else of them is read.
What is written can be read back.
-/

import Mathlib.Algebra.Group.Int.Defs
import Mathlib.Algebra.GroupWithZero.Nat
import Sypherstore.Logic.Cbor

namespace Sypherstore.Logic

namespace Cbor

/-! ## Heads -/

/-- The major type that the first byte of a data item announces. -/
def majorType (initial : UInt8) : ℕ := initial.toNat / 32

/-- A reader that takes a data item for a map only where one starts, behind whatever
tags there are. -/
def ReadsMapsAsMaps (read : Bytes → Option Cbor) : Prop :=
  ∀ initial rest entries, read (initial :: rest) = some (.map entries) →
    majorType initial = 5 ∨ majorType initial = 6

/-- The first byte of a head. -/
def initialByte (major info : ℕ) : UInt8 := UInt8.ofNat (32 * major + info)

/-- A number in `count` bytes, the most significant first. -/
def bigEndian : ℕ → ℕ → Bytes
  | 0, _ => []
  | count + 1, n => bigEndian count (n / 256) ++ [UInt8.ofNat n]

def ofBigEndian (bytes : Bytes) : ℕ := bytes.foldl (fun n byte => 256 * n + byte.toNat) 0

/-- The major type and the argument of an item, in the shortest form that holds it. -/
def head (major n : ℕ) : Bytes :=
  if n < 24 then [initialByte major n]
  else if n < 256 then initialByte major 24 :: bigEndian 1 n
  else if n < 256 ^ 2 then initialByte major 25 :: bigEndian 2 n
  else if n < 256 ^ 4 then initialByte major 26 :: bigEndian 4 n
  else initialByte major 27 :: bigEndian 8 n

/-- What ends an item whose length its head does not announce. -/
def breakByte : UInt8 := 0xff

/-- The first `count` bytes and the rest. -/
def takeBytes (count : ℕ) (input : Bytes) : Option (Bytes × Bytes) :=
  if count ≤ input.length then some (input.take count, input.drop count) else none

def readBigEndian (count : ℕ) (input : Bytes) : Option (ℕ × Bytes) :=
  (takeBytes count input).map fun (bytes, rest) => (ofBigEndian bytes, rest)

/-- The argument, from the five low bits of the first byte and what follows it. An item
that goes on until a break has none. -/
def readArgument (info : ℕ) (input : Bytes) : Option (Option ℕ × Bytes) :=
  match info with
  | 24 => (readBigEndian 1 input).map fun (n, rest) => (some n, rest)
  | 25 => (readBigEndian 2 input).map fun (n, rest) => (some n, rest)
  | 26 => (readBigEndian 4 input).map fun (n, rest) => (some n, rest)
  | 27 => (readBigEndian 8 input).map fun (n, rest) => (some n, rest)
  | 28 | 29 | 30 => none
  | 31 => some (none, input)
  | n => some (some n, input)

/-- The major type, the argument and the rest. -/
def readHead : Bytes → Option (ℕ × Option ℕ × Bytes)
  | [] => none
  | initial :: input =>
      (readArgument (initial.toNat % 32) input).map fun (n, rest) =>
        (majorType initial, n, rest)

theorem toNat_initialByte {major info : ℕ} (hmajor : major < 8) (hinfo : info < 32) :
    (initialByte major info).toNat = 32 * major + info := by
  rw [initialByte, UInt8.toNat_ofNat']
  omega

@[simp] theorem length_bigEndian (count n : ℕ) : (bigEndian count n).length = count := by
  induction count generalizing n with
  | zero => rfl
  | succ count ih => simp [bigEndian, ih]

theorem ofBigEndian_bigEndian (count n : ℕ) (hn : n < 256 ^ count) :
    ofBigEndian (bigEndian count n) = n := by
  induction count generalizing n with
  | zero =>
      have hzero : n = 0 := by simpa using hn
      rw [hzero]
      rfl
  | succ count ih =>
      have hquotient : n / 256 < 256 ^ count := by
        rw [Nat.div_lt_iff_lt_mul (by decide), ← Nat.pow_succ]
        exact hn
      have hlast : (UInt8.ofNat n).toNat = n % 256 := UInt8.toNat_ofNat'
      have hstep : ofBigEndian (bigEndian (count + 1) n) =
          256 * ofBigEndian (bigEndian count (n / 256)) + (UInt8.ofNat n).toNat := by
        simp [ofBigEndian, bigEndian]
      rw [hstep, ih _ hquotient, hlast]
      omega

theorem takeBytes_append {front : Bytes} {count : ℕ} (hcount : front.length = count)
    (rest : Bytes) : takeBytes count (front ++ rest) = some (front, rest) := by
  simp [takeBytes, ← hcount]

theorem readBigEndian_append (count n : ℕ) (hn : n < 256 ^ count) (rest : Bytes) :
    readBigEndian count (bigEndian count n ++ rest) = some (n, rest) := by
  rw [readBigEndian, takeBytes_append (length_bigEndian count n)]
  simp [ofBigEndian_bigEndian count n hn]

/-- A first byte is read as what it was made of. -/
theorem readHead_cons {major info : ℕ} (hmajor : major < 8) (hinfo : info < 32)
    (input : Bytes) :
    readHead (initialByte major info :: input) =
      (readArgument info input).map fun (n, rest) => (major, n, rest) := by
  have hbyte := toNat_initialByte hmajor hinfo
  have hmod : (initialByte major info).toNat % 32 = info := by omega
  have hdiv : majorType (initialByte major info) = major := by
    rw [majorType]
    omega
  rw [readHead, hmod, hdiv]

theorem readHead_head {major n : ℕ} (hmajor : major < 8) (hn : n < 256 ^ 8) (rest : Bytes) :
    readHead (head major n ++ rest) = some (major, some n, rest) := by
  unfold head
  split_ifs with h0 h1 h2 h4
  · rw [List.cons_append, readHead_cons hmajor (by omega), List.nil_append]
    have hsmall : readArgument n rest = some (some n, rest) := by
      unfold readArgument
      split <;> first | omega | rfl
    rw [hsmall]
    rfl
  · rw [List.cons_append, readHead_cons hmajor (by omega)]
    simp [readArgument, readBigEndian_append 1 n (by simpa using h1)]
  · rw [List.cons_append, readHead_cons hmajor (by omega)]
    simp [readArgument, readBigEndian_append 2 n h2]
  · rw [List.cons_append, readHead_cons hmajor (by omega)]
    simp [readArgument, readBigEndian_append 4 n h4]
  · rw [List.cons_append, readHead_cons hmajor (by omega)]
    simp [readArgument, readBigEndian_append 8 n hn]

/-- The first byte is that of an item, and not a break. -/
def StartsItem (bytes : Bytes) : Prop :=
  ∃ initial rest, bytes = initial :: rest ∧ initial ≠ breakByte

theorem StartsItem.append {front : Bytes} (h : StartsItem front) (rest : Bytes) :
    StartsItem (front ++ rest) := by
  obtain ⟨initial, after, rfl, hinitial⟩ := h
  exact ⟨initial, after ++ rest, rfl, hinitial⟩

theorem StartsItem.length_pos {bytes : Bytes} (h : StartsItem bytes) : 0 < bytes.length := by
  obtain ⟨_, _, rfl, _⟩ := h
  simp

theorem startsItem_cons {major info : ℕ} (hmajor : major < 8) (hinfo : info < 32)
    (hbreak : 32 * major + info ≠ 255) (rest : Bytes) :
    StartsItem (initialByte major info :: rest) := by
  refine ⟨_, _, rfl, fun h => hbreak ?_⟩
  rw [← toNat_initialByte hmajor hinfo, h]
  rfl

theorem startsItem_head {major : ℕ} (hmajor : major < 8) (n : ℕ) :
    StartsItem (head major n) := by
  unfold head
  split_ifs <;> exact startsItem_cons hmajor (by omega) (by omega) _

/-! ## Sequences -/

section Sequences

variable {α β : Type}

/-- Read `n` items one after the other. -/
def readTimes (item : Bytes → Option (α × Bytes)) : ℕ → Bytes → Option (List α × Bytes)
  | 0, rest => some ([], rest)
  | n + 1, input =>
      (item input).bind fun (head, middle) =>
        (readTimes item n middle).map fun (tail, rest) => (head :: tail, rest)

/-- Read items one after the other until there is a break. -/
def readUntilBreak (item : Bytes → Option (α × Bytes)) : ℕ → Bytes → Option (List α × Bytes)
  | 0, _ => none
  | fuel + 1, input =>
      if input.head? = some breakByte then some ([], input.tail)
      else
        (item input).bind fun (head, middle) =>
          (readUntilBreak item fuel middle).map fun (tail, rest) => (head :: tail, rest)

/-- Read as many items as were announced, or those in front of the break. -/
def readSequence (item : Bytes → Option (α × Bytes)) (count : Option ℕ) (input : Bytes) :
    Option (List α × Bytes) :=
  match count with
  | some n => readTimes item n input
  | none => readUntilBreak item input.length input

/-- Items behind their number, or in front of a break where no head holds the number. -/
def encodeSequence (major count : ℕ) (body : Bytes) : Bytes :=
  if count < 256 ^ 8 then head major count ++ body
  else initialByte major 31 :: (body ++ [breakByte])

/-- The encoding of a member is no longer than that of the list. -/
theorem length_le_length_flatMap (write : β → Bytes) {b : β} {items : List β} (hb : b ∈ items) :
    (write b).length ≤ (items.flatMap write).length := by
  induction items with
  | nil => simp at hb
  | cons c items ih =>
      rw [List.flatMap_cons, List.length_append]
      rcases List.mem_cons.mp hb with rfl | hb
      · omega
      · have := ih hb
        omega

theorem length_lt_length_encodeSequence (major count : ℕ) (body : Bytes) (hmajor : major < 8) :
    body.length < (encodeSequence major count body).length := by
  have hpos := (startsItem_head hmajor count).length_pos
  unfold encodeSequence
  split_ifs
  · rw [List.length_append]
    omega
  · rw [List.length_cons, List.length_append]
    omega

theorem startsItem_encodeSequence {major : ℕ} (hmajor : major < 7) (count : ℕ) (body : Bytes) :
    StartsItem (encodeSequence major count body) := by
  unfold encodeSequence
  split_ifs
  · exact (startsItem_head (by omega) count).append body
  · exact startsItem_cons (by omega) (by omega) (by omega) _

variable {item : Bytes → Option (α × Bytes)} {write : β → Bytes} {value : β → α} {items : List β}

/-- Reading in turn what was written in turn. -/
theorem readTimes_flatMap
    (hitem : ∀ b ∈ items, ∀ rest, item (write b ++ rest) = some (value b, rest)) (rest : Bytes) :
    readTimes item items.length (items.flatMap write ++ rest) =
      some (items.map value, rest) := by
  induction items with
  | nil => rfl
  | cons b items ih =>
      have hhead := hitem b (by simp) (items.flatMap write ++ rest)
      have htail := ih fun c hc => hitem c (by simp [hc])
      simp [readTimes, hhead, htail]

/-- The same in front of a break, which none of the items looks like. -/
theorem readUntilBreak_flatMap
    (hitem : ∀ b ∈ items, ∀ rest, item (write b ++ rest) = some (value b, rest))
    (hstarts : ∀ b ∈ items, StartsItem (write b)) (rest : Bytes) (fuel : ℕ)
    (hfuel : (items.flatMap write).length < fuel) :
    readUntilBreak item fuel (items.flatMap write ++ breakByte :: rest) =
      some (items.map value, rest) := by
  induction items generalizing fuel with
  | nil =>
      obtain ⟨fuel, rfl⟩ := Nat.exists_eq_succ_of_ne_zero (Nat.ne_of_gt (Nat.zero_lt_of_lt hfuel))
      simp [readUntilBreak]
  | cons b items ih =>
      have hstart := hstarts b (by simp)
      have hpos := hstart.length_pos
      rw [List.flatMap_cons, List.length_append] at hfuel
      obtain ⟨fuel, rfl⟩ := Nat.exists_eq_succ_of_ne_zero (Nat.ne_of_gt (Nat.zero_lt_of_lt hfuel))
      have hhead := hitem b (by simp) (items.flatMap write ++ breakByte :: rest)
      have htail := ih (fun c hc => hitem c (by simp [hc])) (fun c hc => hstarts c (by simp [hc]))
        fuel (by omega)
      have hbreak : ((b :: items).flatMap write ++ breakByte :: rest).head? ≠ some breakByte := by
        obtain ⟨initial, after, hwrite, hinitial⟩ := hstart
        simp [hwrite, hinitial]
      rw [readUntilBreak, if_neg hbreak, List.flatMap_cons, List.append_assoc, hhead]
      simp [htail]

/-- A sequence is read back whether or not its head announces its length. -/
theorem exists_readSequence (major : ℕ) (hmajor : major < 8)
    (hitem : ∀ b ∈ items, ∀ rest, item (write b ++ rest) = some (value b, rest))
    (hstarts : ∀ b ∈ items, StartsItem (write b)) (rest : Bytes) :
    ∃ count middle,
      readHead (encodeSequence major items.length (items.flatMap write) ++ rest) =
        some (major, count, middle) ∧
      readSequence item count middle = some (items.map value, rest) := by
  unfold encodeSequence
  split_ifs with hcount
  · refine ⟨some items.length, items.flatMap write ++ rest, ?_, readTimes_flatMap hitem rest⟩
    rw [List.append_assoc, readHead_head hmajor hcount]
  · refine ⟨none, items.flatMap write ++ breakByte :: rest, ?_, ?_⟩
    · simp [readHead_cons hmajor, readArgument]
    · exact readUntilBreak_flatMap hitem hstarts rest _ (by simp)

end Sequences

/-! ## Texts -/

/-- The UTF-8 bytes of a text. -/
def utf8 (value : String) : Bytes := value.toUTF8.data.toList

def ofUtf8 (bytes : Bytes) : Option String := String.fromUTF8? ⟨bytes.toArray⟩

theorem ofUtf8_utf8 (value : String) : ofUtf8 (utf8 value) = some value := by
  have hbytes : ofUtf8 (utf8 value) = String.fromUTF8? value.toByteArray := by
    simp [ofUtf8, utf8]
  rw [hbytes, String.fromUTF8?, dif_pos value.isValidUTF8]
  rfl

/-- The text whose head announced this many bytes. -/
def readUtf8 (count : ℕ) (input : Bytes) : Option (String × Bytes) :=
  (takeBytes count input).bind fun (bytes, rest) =>
    (ofUtf8 bytes).map fun value => (value, rest)

/-- A piece of a text, behind its length. -/
def encodeChunk (value : String) : Bytes := head 3 (utf8 value).length ++ utf8 value

def decodeChunk (input : Bytes) : Option (String × Bytes) :=
  (readHead input).bind fun (major, count, rest) =>
    match major, count with
    | 3, some n => readUtf8 n rest
    | _, _ => none

/-- A text in one piece, or one character after the other where no head holds its
length. -/
def encodeText (value : String) : Bytes :=
  if (utf8 value).length < 256 ^ 8 then encodeChunk value
  else
    initialByte 3 31 :: (value.toList.flatMap (fun c => encodeChunk (.singleton c)) ++ [breakByte])

/-- The text behind a head with this argument. -/
def readText (count : Option ℕ) (input : Bytes) : Option (String × Bytes) :=
  match count with
  | some n => readUtf8 n input
  | none =>
      (readUntilBreak decodeChunk input.length input).map fun (chunks, rest) =>
        (String.join chunks, rest)

def decodeText (input : Bytes) : Option (String × Bytes) :=
  (readHead input).bind fun (major, count, rest) =>
    if major = 3 then readText count rest else none

theorem readUtf8_append (value : String) (rest : Bytes) :
    readUtf8 (utf8 value).length (utf8 value ++ rest) = some (value, rest) := by
  simp [readUtf8, takeBytes_append, ofUtf8_utf8]

theorem decodeChunk_encodeChunk {value : String} (hlength : (utf8 value).length < 256 ^ 8)
    (rest : Bytes) : decodeChunk (encodeChunk value ++ rest) = some (value, rest) := by
  simp [decodeChunk, encodeChunk, readHead_head _ hlength, readUtf8_append]

theorem length_utf8_singleton (c : Char) : (utf8 (.singleton c)).length = c.utf8Size := by
  have hsize : (utf8 (.singleton c)).length = (String.singleton c).utf8ByteSize := by
    simp [utf8, String.utf8ByteSize]
  rw [hsize, String.utf8ByteSize_singleton]

/-- A text is read back whether or not its head announces its length. -/
theorem exists_readText (value : String) (rest : Bytes) :
    ∃ count middle, readHead (encodeText value ++ rest) = some (3, count, middle) ∧
      readText count middle = some (value, rest) := by
  unfold encodeText
  split_ifs with hlength
  · refine ⟨some (utf8 value).length, utf8 value ++ rest, ?_, readUtf8_append value rest⟩
    rw [encodeChunk, List.append_assoc, readHead_head (by omega) hlength]
  · refine ⟨none, value.toList.flatMap (fun c => encodeChunk (.singleton c)) ++ breakByte :: rest,
      by simp [readHead_cons, readArgument], ?_⟩
    have hchunk : ∀ c ∈ value.toList, ∀ rest,
        decodeChunk (encodeChunk (.singleton c) ++ rest) = some (String.singleton c, rest) := by
      intro c _ rest
      refine decodeChunk_encodeChunk ?_ rest
      have hsize := c.utf8Size_le_four
      rw [length_utf8_singleton]
      omega
    have hread : readUntilBreak decodeChunk
        (value.toList.flatMap (fun c => encodeChunk (.singleton c)) ++ breakByte :: rest).length
        (value.toList.flatMap (fun c => encodeChunk (.singleton c)) ++ breakByte :: rest) =
          some (value.toList.map String.singleton, rest) := readUntilBreak_flatMap hchunk
      (fun c _ => (startsItem_head (by omega) _).append _) rest _ (by simp)
    have hjoin : String.join (value.toList.map String.singleton) = value := by
      apply String.toList_injective
      simp [String.toList_join, List.flatMap_map]
    simp only [readText, hread, Option.map_some, hjoin]

theorem decodeText_encodeText (value : String) (rest : Bytes) :
    decodeText (encodeText value ++ rest) = some (value, rest) := by
  obtain ⟨count, middle, hhead, hread⟩ := exists_readText value rest
  simp [decodeText, hhead, hread]

theorem startsItem_encodeText (value : String) : StartsItem (encodeText value) := by
  unfold encodeText
  split_ifs
  · exact (startsItem_head (by omega) _).append _
  · exact startsItem_cons (by omega) (by omega) (by omega) _

/-! ## Values -/

/-- Every integer in the value is one that a head holds. -/
inductive Fits : Cbor → Prop where
  | null : Fits .null
  | int {value : ℤ} (hlow : -256 ^ 8 ≤ value) (hhigh : value < 256 ^ 8) : Fits (.int value)
  | text (value : String) : Fits (.text value)
  | array {items : List Cbor} (hitems : ∀ item ∈ items, Fits item) : Fits (.array items)
  | map {entries : List (String × Cbor)} (hentries : ∀ entry ∈ entries, Fits entry.2) :
      Fits (.map entries)

theorem fits_int64 (value : Int64) : Fits (.int value.toInt) :=
  .int (by have := Int64.minValue_le_toInt value; rw [Int64.toInt_minValue] at this; omega)
    (by have := Int64.toInt_le value; rw [Int64.toInt_maxValue] at this; omega)

theorem fits_array_map {α : Type} {write : α → Cbor} (hwrite : ∀ a, (write a).Fits)
    {items : List α} : Fits (.array (items.map write)) := by
  refine .array fun item hitem => ?_
  obtain ⟨a, _, rfl⟩ := List.mem_map.mp hitem
  exact hwrite a

theorem fits_ofBytes (bytes : Bytes) : Fits (ofBytes bytes) :=
  fits_array_map fun byte => .int (by omega) (by have := byte.toNat_lt; omega)

theorem fits_ofPair {α β : Type} {first : α → Cbor} {second : β → Cbor} {pair : α × β}
    (hfirst : (first pair.1).Fits) (hsecond : (second pair.2).Fits) :
    Fits (ofPair first second pair) := by
  refine .array ?_
  simp [hfirst, hsecond]

theorem fits_ofOption {α : Type} {write : α → Cbor} (hwrite : ∀ a, (write a).Fits)
    (value : Option α) : Fits (ofOption write value) := by
  cases value with
  | none => exact .null
  | some a => exact hwrite a

mutual

def encode : Cbor → Bytes
  | .null => head 7 22
  | .int (.ofNat value) => head 0 value
  | .int (.negSucc value) => head 1 value
  | .text value => encodeText value
  | .array items => encodeSequence 4 items.length (encodeItems items)
  | .map entries => encodeSequence 5 entries.length (encodeEntries entries)

def encodeItems : List Cbor → Bytes
  | [] => []
  | item :: items => encode item ++ encodeItems items

def encodeEntries : List (String × Cbor) → Bytes
  | [] => []
  | (name, value) :: entries => encodeText name ++ (encode value ++ encodeEntries entries)

end

/-- Read a map entry, given how to read its value. -/
def decodeEntry (value : Bytes → Option (Cbor × Bytes)) (input : Bytes) :
    Option ((String × Cbor) × Bytes) :=
  (decodeText input).bind fun (name, rest) =>
    (value rest).map fun (value, rest) => ((name, value), rest)

/-- Read one value, nested at most `depth` deep. -/
def decodeValue : ℕ → Bytes → Option (Cbor × Bytes)
  | 0, _ => none
  | depth + 1, input =>
      match readHead input with
      | some (0, some n, rest) => some (.int (.ofNat n), rest)
      | some (1, some n, rest) => some (.int (.negSucc n), rest)
      | some (3, count, rest) => (readText count rest).map fun (value, rest) => (.text value, rest)
      | some (4, count, rest) =>
          (readSequence (decodeValue depth) count rest).map fun (items, rest) =>
            (.array items, rest)
      | some (5, count, rest) =>
          (readSequence (decodeEntry (decodeValue depth)) count rest).map fun (entries, rest) =>
            (.map entries, rest)
      | some (7, some 22, rest) => some (.null, rest)
      | _ => none

/-- Read the value that an input starts with. -/
def decode (input : Bytes) : Option Cbor := (decodeValue input.length input).map Prod.fst

theorem encodeItems_eq (items : List Cbor) : encodeItems items = items.flatMap encode := by
  induction items with
  | nil => rfl
  | cons item items ih => simp [encodeItems, ih]

/-- One map entry, as `encodeEntries` writes it. -/
def encodeEntry (entry : String × Cbor) : Bytes := encodeText entry.1 ++ encode entry.2

theorem encodeEntries_eq (entries : List (String × Cbor)) :
    encodeEntries entries = entries.flatMap encodeEntry := by
  induction entries with
  | nil => rfl
  | cons entry entries ih => simp [encodeEntries, encodeEntry, ih]

theorem startsItem_encode (value : Cbor) : StartsItem (encode value) := by
  cases value with
  | null => exact startsItem_cons (by omega) (by omega) (by omega) []
  | int value => cases value <;> exact startsItem_head (by omega) _
  | text value => exact startsItem_encodeText value
  | array items => exact startsItem_encodeSequence (by omega) _ _
  | map entries => exact startsItem_encodeSequence (by omega) _ _

/-- The induction is on the depth; a container spends its head on itself, which is what
leaves its members within the smaller depth. -/
theorem decodeValue_encode (depth : ℕ) {value : Cbor} (hfits : value.Fits) (rest : Bytes)
    (hdepth : (encode value).length ≤ depth) :
    decodeValue depth (encode value ++ rest) = some (value, rest) := by
  induction depth generalizing value rest with
  | zero =>
      have hpos := (startsItem_encode value).length_pos
      omega
  | succ depth ih =>
      cases hfits with
      | null => simp [encode, decodeValue, readHead_head]
      | @int value hlow hhigh =>
          cases value with
          | ofNat n =>
              have hn : (n : ℤ) < 256 ^ 8 := hhigh
              simp [encode, decodeValue, readHead_head _ (show n < 256 ^ 8 by omega)]
          | negSucc n =>
              have hn : n < 256 ^ 8 := by omega
              simp [encode, decodeValue, readHead_head _ hn]
      | text value =>
          obtain ⟨count, middle, hhead, hread⟩ := exists_readText value rest
          simp [encode, decodeValue, hhead, hread]
      | @array items hfit =>
          have hlonger :=
            length_lt_length_encodeSequence 4 items.length (encodeItems items) (by omega)
          have hitems : ∀ item ∈ items, ∀ rest,
              decodeValue depth (encode item ++ rest) = some (item, rest) := by
            intro item hitem rest
            have hle := length_le_length_flatMap encode hitem
            rw [encodeItems_eq] at hlonger
            simp only [encode, encodeItems_eq] at hdepth
            exact ih (hfit item hitem) rest (by omega)
          obtain ⟨count, middle, hhead, hread⟩ := exists_readSequence 4 (by omega)
            hitems (fun item _ => startsItem_encode item) rest
          simp [encode, decodeValue, encodeItems_eq, hhead, hread]
      | @map entries hfit =>
          have hlonger :=
            length_lt_length_encodeSequence 5 entries.length (encodeEntries entries) (by omega)
          have hentries : ∀ entry ∈ entries, ∀ rest,
              decodeEntry (decodeValue depth) (encodeEntry entry ++ rest) = some (entry, rest) := by
            intro entry hentry rest
            have hle := length_le_length_flatMap encodeEntry hentry
            have hentryLength : (encodeEntry entry).length =
                (encodeText entry.1).length + (encode entry.2).length := List.length_append
            rw [encodeEntries_eq] at hlonger
            simp only [encode, encodeEntries_eq] at hdepth
            have hvalue := ih (hfit entry hentry) rest (by omega)
            simp [decodeEntry, encodeEntry, decodeText_encodeText, hvalue]
          obtain ⟨count, middle, hhead, hread⟩ := exists_readSequence 5 (by omega)
            hentries (fun entry _ => (startsItem_encodeText entry.1).append _) rest
          simp [encode, decodeValue, encodeEntries_eq, hhead, hread]

/-- **What is written can be read back.** -/
theorem decode_encode {value : Cbor} (h : value.Fits) : decode (encode value) = some value := by
  have hvalue := decodeValue_encode (encode value).length h [] (Nat.le_refl _)
  rw [List.append_nil] at hvalue
  simp [decode, hvalue]

theorem decode_readsMapsAsMaps : ReadsMapsAsMaps decode := by
  intro initial rest entries hread
  left
  have hvalue : ∃ after, decodeValue (rest.length + 1) (initial :: rest) =
      some (.map entries, after) := by
    simpa [decode] using hread
  obtain ⟨after, hvalue⟩ := hvalue
  have hhead : ∀ major n input, readHead (initial :: rest) = some (major, n, input) →
      majorType initial = major := by
    intro major n input h
    simp only [readHead, Option.map_eq_some_iff] at h
    obtain ⟨_, _, h⟩ := h
    cases h
    rfl
  rw [decodeValue] at hvalue
  split at hvalue
  · cases hvalue
  · cases hvalue
  · simp at hvalue
  · simp at hvalue
  · rename_i hread
    exact hhead _ _ _ hread
  · cases hvalue
  · cases hvalue

example : encode (.map [("v", .array [.int 24])]) = [0xa1, 0x61, 0x76, 0x81, 0x18, 0x18] := by
  decide

end Cbor

end Sypherstore.Logic
