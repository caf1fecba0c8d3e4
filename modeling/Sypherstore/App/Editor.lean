/-
# The form

Adding and editing a secret (`ui/editor.rs`). The form holds a secret as plain text for as
long as it is open. What it asks of the clock and of the random source is passed to it.
-/

import Sypherstore.Core.Domain
import Sypherstore.Core.Model

namespace Sypherstore

open Logic

/-- The text fields of the form. -/
inductive Field where
  | name
  | value
  | username
  | domain
  | application
  | tags
  | notes
  deriving DecidableEq, Repr

/-- `Field::ORDER`, the tab order. -/
def Field.order : List Field := [.name, .value, .username, .domain, .application, .tags, .notes]

/-- The form while it is open. -/
structure Editor where
  /-- None when a secret is added. -/
  id : Option Uuid
  name : String
  secretType : SecretType
  /-- The secret in plain text. -/
  value : String
  username : String
  domain : String
  application : String
  /-- Separated by commas. -/
  tags : String
  notes : String
  reveal : Bool
  createdAt : Int64
  focus : Field
  focusDirty : Bool
  error : Option String
  deriving DecidableEq

namespace Editor

/-- An empty form, opened at a Unix time. -/
def new (now : Int64) : Editor where
  id := none
  name := ""
  secretType := .password
  value := ""
  username := ""
  domain := ""
  application := ""
  tags := ""
  notes := ""
  reveal := false
  createdAt := now
  focus := .name
  focusDirty := true
  error := none

/-- `tags.join(", ")`. -/
def joinTags (tags : List String) : String :=
  String.ofList (List.intercalate ", ".toList (tags.map String.toList))

/-- The tags of the form: split at commas, trimmed, and the empty ones dropped. -/
def splitTags (tags : String) : List String :=
  ((tags.toList.splitOn ',').map fun t => trim (String.ofList t)).filter fun t => !t.isEmpty

/-- A form populated from a stored secret. Bytes that are no text show as nothing. -/
def fromExisting (m : SecretMeta) (payload : SecretPayload) : Editor where
  id := some m.id
  name := m.name
  secretType := m.secretType
  value := (Cbor.ofUtf8 payload.value).getD ""
  username := m.username
  domain := m.domain
  application := m.application
  tags := joinTags m.tags
  notes := (payload.notes.bind Cbor.ofUtf8).getD ""
  reveal := false
  createdAt := m.createdAt
  focus := .name
  focusDirty := true
  error := none

def isNew (editor : Editor) : Bool := editor.id.isNone

def title (editor : Editor) : String := if editor.isNew then "New secret" else "Edit secret"

/-- Moves the focus to the next or the previous field, around the end. -/
def cycleFocus (backwards : Bool) (editor : Editor) : Editor :=
  let current := Field.order.findIdx (· = editor.focus)
  let next :=
    if backwards then (current + Field.order.length - 1) % Field.order.length
    else (current + 1) % Field.order.length
  { editor with focus := Field.order.getD next .name, focusDirty := true }

/-- The metadata that the form stands for. -/
def builtMeta (now : Int64) (fresh : Uuid) (editor : Editor) : SecretMeta where
  id := editor.id.getD fresh
  name := trim editor.name
  domain := (normalizeHost editor.domain).getD ""
  application := trim editor.application
  secretType := editor.secretType
  username := trim editor.username
  tags := splitTags editor.tags
  createdAt := editor.createdAt
  updatedAt := now

/-- The payload that the form stands for. -/
def builtPayload (editor : Editor) : SecretPayload where
  value := Cbor.utf8 editor.value
  notes := if (trim editor.notes).isEmpty then none else some (Cbor.utf8 editor.notes)
  extra := []

/-- The form with the texts that went into the payload wiped. -/
def wiped (editor : Editor) : Editor :=
  { editor with
    value := ""
    notes := if (trim editor.notes).isEmpty then editor.notes else "" }

/-- Validates the form and converts it, together with the form as it is left. -/
def build (now : Int64) (fresh : Uuid) (editor : Editor) :
    Except String (SecretMeta × SecretPayload) × Editor :=
  if (trim editor.name).isEmpty then (.error "A name is required.", editor)
  else if editor.value.isEmpty then (.error "The secret cannot be empty.", editor)
  else (.ok (editor.builtMeta now fresh, editor.builtPayload), editor.wiped)

/-- A form builds when it has a name and a value. -/
theorem build_eq_ok_iff {now : Int64} {fresh : Uuid} {editor : Editor}
    {built : SecretMeta × SecretPayload} :
    (editor.build now fresh).1 = .ok built ↔ trim editor.name ≠ "" ∧ editor.value ≠ "" ∧
      (editor.builtMeta now fresh, editor.builtPayload) = built := by
  unfold build
  simp only [String.isEmpty_iff]
  split
  · rename_i hname
    exact iff_of_false nofun fun h => h.1 hname
  · rename_i hname
    split
    · rename_i hvalue
      exact iff_of_false nofun fun h => h.2.1 hvalue
    · rename_i hvalue
      simp [hname, hvalue]

end Editor

end Sypherstore
