/-
# Byte strings, fixed-size blocks and checked slices

Slicing and indexing a byte string are the places where a decoder can panic, so
they return a `Fallible` here: an index past the end is the outcome `panic`, not
a default byte. A decoder built from these operations that is shown never to
panic is shown never to slice out of range.
-/

import Sypherstore.Logic.Stateful

namespace Sypherstore.Logic

/-- A byte string. -/
abbrev Bytes : Type := List UInt8

/-- The bytes of an ASCII string literal. -/
def ascii (text : String) : Bytes := text.toList.map fun c => c.toNat.toUInt8

/-- A byte string of exactly `n` bytes, as the array type `[u8; n]`. -/
structure Block (n : ℕ) where
  /-- The bytes themselves. -/
  bytes : Bytes
  /-- There are exactly `n` of them. -/
  length_eq : bytes.length = n
  deriving DecidableEq

namespace Block

variable {n : ℕ}

@[ext] theorem ext {a b : Block n} (h : a.bytes = b.bytes) : a = b := by
  cases a
  cases b
  cases h
  rfl

@[simp] theorem length_bytes (a : Block n) : a.bytes.length = n := a.length_eq

/-- The block holding one byte `n` times. -/
def replicate (n : ℕ) (byte : UInt8) : Block n := ⟨List.replicate n byte, by simp⟩

instance : Inhabited (Block n) := ⟨replicate n 0⟩

/-- Change every byte of a block. -/
def map (f : UInt8 → UInt8) (a : Block n) : Block n := ⟨a.bytes.map f, by simp⟩

end Block

/-- A long enough byte string starts with a block. -/
theorem exists_block_append {n : ℕ} {b : Bytes} (h : n ≤ b.length) :
    ∃ (a : Block n) (rest : Bytes), b = a.bytes ++ rest :=
  ⟨⟨b.take n, by simp [h]⟩, b.drop n, (List.take_append_drop n b).symm⟩

section Slices

variable {ε : Type}

/-- `&b[lo..hi]`: panics unless `lo ≤ hi ≤ b.len()`. -/
def slice (b : Bytes) (lo hi : ℕ) : Fallible ε Bytes :=
  if lo ≤ hi ∧ hi ≤ b.length then .ok ((b.drop lo).take (hi - lo)) else .error .panic

/-- `&b[lo..]`: panics when `lo` is past the end. -/
def sliceFrom (b : Bytes) (lo : ℕ) : Fallible ε Bytes := slice b lo b.length

/-- `b[i]`: panics when `i` is not an index. -/
def byteAt (b : Bytes) (i : ℕ) : Fallible ε UInt8 :=
  match b[i]? with
  | some byte => .ok byte
  | none => .error .panic

/-- `b.split_at(mid)`: panics when `mid` is past the end. -/
def splitAt (b : Bytes) (mid : ℕ) : Fallible ε (Bytes × Bytes) :=
  if mid ≤ b.length then .ok (b.take mid, b.drop mid) else .error .panic

/-- Read a slice as a fixed-size array, as `copy_from_slice` and
`from_slice` do: panics when the lengths differ. -/
def toBlock (n : ℕ) (b : Bytes) : Fallible ε (Block n) :=
  if h : b.length = n then .ok ⟨b, h⟩ else .error .panic

theorem slice_of_le {b : Bytes} {lo hi : ℕ} (hlo : lo ≤ hi) (hhi : hi ≤ b.length) :
    slice (ε := ε) b lo hi = .ok ((b.drop lo).take (hi - lo)) := by
  simp [slice, hlo, hhi]

theorem sliceFrom_of_le {b : Bytes} {lo : ℕ} (hlo : lo ≤ b.length) :
    sliceFrom (ε := ε) b lo = .ok (b.drop lo) := by
  rw [sliceFrom, slice_of_le hlo (Nat.le_refl _), ← List.length_drop, List.take_length]

theorem splitAt_of_le {b : Bytes} {mid : ℕ} (hmid : mid ≤ b.length) :
    splitAt (ε := ε) b mid = .ok (b.take mid, b.drop mid) := by
  simp [splitAt, hmid]

@[simp] theorem splitAt_block_append {n : ℕ} (a : Block n) (rest : Bytes) :
    splitAt (ε := ε) (a.bytes ++ rest) n = .ok (a.bytes, rest) := by
  rw [splitAt_of_le (by simp), List.take_left' a.length_eq, List.drop_left' a.length_eq]

theorem toBlock_of_length {n : ℕ} {b : Bytes} (h : b.length = n) :
    toBlock (ε := ε) n b = .ok ⟨b, h⟩ := by
  simp [toBlock, h]

@[simp] theorem toBlock_bytes {n : ℕ} (a : Block n) :
    toBlock (ε := ε) n a.bytes = .ok a :=
  toBlock_of_length a.length_eq

end Slices

end Sypherstore.Logic
