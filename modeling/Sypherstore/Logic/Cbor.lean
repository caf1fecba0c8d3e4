/-
# CBOR values and the struct encoding over them

The values a self-describing encoder writes, and the way a derived struct
decoder reads a map of named fields: unknown names are skipped, a repeated name
is an error, a required name must be there, and a missing optional one takes its
default. The bytes are the matter of `Logic.CborBytes`.
-/

import Mathlib.Data.Int.Notation
import Sypherstore.Logic.Bytes

namespace Sypherstore.Logic

/-- A CBOR value with text keys in its maps. -/
inductive Cbor where
  | null
  | int (value : ℤ)
  | text (value : String)
  | array (items : List Cbor)
  | map (entries : List (String × Cbor))

namespace Cbor

variable {α : Type}

/-- Read an integer of the 64-bit signed range. -/
def asInt64 : Cbor → Option Int64
  | .int value =>
      if Int64.minValue.toInt ≤ value ∧ value ≤ Int64.maxValue.toInt then
        some (Int64.ofInt value)
      else none
  | _ => none

/-- Read an integer of the byte range. -/
def asByte : Cbor → Option UInt8
  | .int value => if 0 ≤ value ∧ value < 256 then some (UInt8.ofNat value.toNat) else none
  | _ => none

/-- Read a text. -/
def asText : Cbor → Option String
  | .text value => some value
  | _ => none

/-- Read every item of an array. -/
def asArray (item : Cbor → Option α) : Cbor → Option (List α)
  | .array items => items.mapM item
  | _ => none

/-- Read a byte vector, which is written as an array of integers. -/
def asBytes : Cbor → Option Bytes := asArray asByte

/-- Write a byte vector. -/
def ofBytes (bytes : Bytes) : Cbor := .array (bytes.map fun byte => .int byte.toNat)

/-- Read an optional value, which is written as null when there is none. -/
def asOption (read : Cbor → Option α) : Cbor → Option (Option α)
  | .null => some none
  | value => (read value).map some

/-- Write an optional value. -/
def ofOption (write : α → Cbor) : Option α → Cbor
  | none => .null
  | some a => write a

/-- Read a pair, which is written as an array of two. -/
def asPair {β : Type} (first : Cbor → Option α) (second : Cbor → Option β) :
    Cbor → Option (α × β)
  | .array [a, b] => (first a).bind fun a => (second b).map fun b => (a, b)
  | _ => none

/-- Write a pair. -/
def ofPair {β : Type} (first : α → Cbor) (second : β → Cbor) (pair : α × β) : Cbor :=
  .array [first pair.1, second pair.2]

/-- The entries of a map. -/
def asMap : Cbor → Option (List (String × Cbor))
  | .map entries => some entries
  | _ => none

/-- The value under a name, if any. Fails when the name is repeated. -/
def field (entries : List (String × Cbor)) (name : String) : Option (Option Cbor) :=
  match entries.filter fun entry => entry.1 = name with
  | [] => some none
  | [entry] => some (some entry.2)
  | _ => none

/-- A field without a default. -/
def required (entries : List (String × Cbor)) (name : String)
    (read : Cbor → Option α) : Option α :=
  (field entries name).bind fun value => value.bind read

/-- A field with a default. -/
def optional (entries : List (String × Cbor)) (name : String)
    (read : Cbor → Option α) (default : α) : Option α :=
  (field entries name).bind fun value =>
    match value with
    | some value => read value
    | none => some default

/-- An entry that is left out when `skip` holds. -/
def entryUnless (skip : Bool) (name : String) (value : Cbor) : List (String × Cbor) :=
  if skip then [] else [(name, value)]

theorem mem_entryUnless {skip : Bool} {name : String} {value : Cbor} {entry : String × Cbor} :
    entry ∈ entryUnless skip name value ↔ skip = false ∧ entry = (name, value) := by
  cases skip <;> simp [entryUnless]

theorem mapM_some_of_forall {β : Type} (write : α → β) (read : β → Option α)
    (hread : ∀ a, read (write a) = some a) (items : List α) :
    (items.map write).mapM read = some items := by
  induction items with
  | nil => rfl
  | cons a items ih => simp [hread, ih]

@[simp] theorem asText_text (value : String) : asText (.text value) = some value := rfl

@[simp] theorem asMap_map (entries : List (String × Cbor)) :
    asMap (.map entries) = some entries := rfl

@[simp] theorem asInt64_int (value : Int64) : asInt64 (.int value.toInt) = some value := by
  rw [asInt64, if_pos ⟨Int64.minValue_le_toInt value, Int64.toInt_le value⟩,
    Int64.ofInt_toInt]

theorem asByte_int (byte : UInt8) : asByte (.int byte.toNat) = some byte := by
  have hbyte := byte.toNat_lt
  simp [asByte]
  omega

@[simp] theorem asBytes_ofBytes (bytes : Bytes) : asBytes (ofBytes bytes) = some bytes :=
  mapM_some_of_forall _ asByte asByte_int bytes

@[simp] theorem asArray_map (write : α → Cbor) (read : Cbor → Option α)
    (hread : ∀ a, read (write a) = some a) (items : List α) :
    asArray read (.array (items.map write)) = some items :=
  mapM_some_of_forall write read hread items

@[simp] theorem asOption_ofBytes (bytes : Bytes) :
    asOption asBytes (ofBytes bytes) = some (some bytes) := by
  have hread : asOption asBytes (ofBytes bytes) = (asBytes (ofBytes bytes)).map some := rfl
  rw [hread, asBytes_ofBytes]
  rfl

theorem asPair_ofPair {β : Type} {write : α → Cbor} {read : Cbor → Option α}
    {write' : β → Cbor} {read' : Cbor → Option β} (hread : ∀ a, read (write a) = some a)
    (hread' : ∀ b, read' (write' b) = some b) (pair : α × β) :
    asPair read read' (ofPair write write' pair) = some pair := by
  simp [asPair, ofPair, hread, hread']

/-! ### Reading fields back

A struct decoder only looks at the entries under one name at a time, so each
field is read back from the entries that carry its name. -/

/-- The entries of a map that carry a given name. -/
abbrev named (entries : List (String × Cbor)) (name : String) : List (String × Cbor) :=
  entries.filter fun entry => entry.1 = name

@[simp] theorem filter_entryUnless (skip : Bool) (name name' : String) (value : Cbor) :
    ((entryUnless skip name value).filter fun entry => entry.1 = name') =
      if name = name' then entryUnless skip name value else [] := by
  cases skip <;> by_cases h : name = name' <;> simp [entryUnless, h]

theorem required_of_named {entries : List (String × Cbor)} {name : String} {value : Cbor}
    {read : Cbor → Option α} {a : α} (hnamed : named entries name = [(name, value)])
    (hread : read value = some a) : required entries name read = some a := by
  simp [required, field, hnamed, hread]

/-- A required field that no entry carries fails the whole record. -/
theorem required_of_absent {entries : List (String × Cbor)} {name : String}
    {read : Cbor → Option α} (hnamed : named entries name = []) :
    required entries name read = none := by
  simp [required, field, hnamed]

/-- A field that is left out exactly when it holds its default reads back. -/
theorem optional_of_named {entries : List (String × Cbor)} {name : String} {value : Cbor}
    {skip : Bool} {read : Cbor → Option α} {default a : α}
    (hnamed : named entries name = entryUnless skip name value)
    (hskip : skip = true → default = a) (hread : skip = false → read value = some a) :
    optional entries name read default = some a := by
  cases skip with
  | true => simp [optional, field, hnamed, entryUnless, hskip rfl]
  | false => simp [optional, field, hnamed, entryUnless, hread rfl]

end Cbor

end Sypherstore.Logic
