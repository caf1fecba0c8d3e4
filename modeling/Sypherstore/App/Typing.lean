/-
# Typing a secret

`paste.rs` sends a secret to the focused window key by key. Every character becomes the press
and the release of one keysym, and upper-case ASCII letters are held between a press and a
release of Shift. The portal that takes the keys may refuse any of them. Nothing that is typed
is ambiguous, and no refusal leaves Shift down without an attempt to release it.
-/

import Sypherstore.Logic.Text
import Sypherstore.Logic.Utf8

namespace Sypherstore

open Logic

namespace Typist

/-! ## Keys -/

inductive KeyState where
  | pressed
  | released
  deriving DecidableEq, Repr

/-- A state change of one key. -/
structure Stroke where
  keysym : ℕ
  state : KeyState
  deriving DecidableEq, Repr

/-- A call to the portal, and whether it went through. -/
structure Notification where
  stroke : Stroke
  sent : Bool
  deriving DecidableEq, Repr

/-- `XK_Shift_L`. -/
def keysymShiftL : ℕ := 0xFFE1

/-- The character is typed with Shift explicitly held: `char::is_ascii_uppercase`. -/
def needsExplicitShift (c : Char) : Bool := 'A' ≤ c && c ≤ 'Z'

/-- Maps a character to an X11 keysym. -/
def charToKeysym (c : Char) : Option ℕ :=
  if c = '\t' then some 0xFF09
  else if c = '\n' ∨ c = '\r' then some 0xFF0D
  else if isControl c then none
  else if c.toNat ≤ 0xFF then some c.toNat
  else some (c.toNat + 0x01000000)

inductive TypingError where
  /-- "the secret is not valid UTF-8 and cannot be typed" -/
  | notUtf8
  /-- "sending a key press" -/
  | keyPress (cause : String)
  /-- "sending a key release" -/
  | keyRelease (cause : String)
  /-- "pressing Shift" -/
  | pressingShift (cause : String)
  /-- "releasing Shift" -/
  | releasingShift (cause : String)
  deriving DecidableEq, Repr

/-! ## Typing

The portal tells of its n-th call why it refuses it, if it does. -/

section Typing

variable (portal : ℕ → Option String)

/-- Sends a single keysym state change. -/
def send (stroke : Stroke) : Stateful (List Notification) String Unit := fun calls =>
  match portal calls.length with
  | none => (.ok (), calls ++ [⟨stroke, true⟩])
  | some cause => (.error (.error cause), calls ++ [⟨stroke, false⟩])

/-- Presses and releases one keysym. -/
def tap (keysym : ℕ) : Stateful (List Notification) TypingError Unit := do
  (send portal ⟨keysym, .pressed⟩).mapError .keyPress
  (send portal ⟨keysym, .released⟩).mapError .keyRelease

/-- Presses and releases one keysym while holding Left Shift. Shift is released even when the
tap failed. -/
def shiftedTap (keysym : ℕ) : Stateful (List Notification) TypingError Unit := do
  (send portal ⟨keysymShiftL, .pressed⟩).mapError .pressingShift
  let tapped ← (tap portal keysym).outcome
  let released ← ((send portal ⟨keysymShiftL, .released⟩).mapError .releasingShift).outcome
  Stateful.lift tapped
  Stateful.lift released

/-- One turn of the loop. A character with no keysym is skipped. -/
def typeChar (c : Char) : Stateful (List Notification) TypingError Unit :=
  match charToKeysym c with
  | none => pure ()
  | some keysym =>
      if needsExplicitShift c then shiftedTap portal keysym else tap portal keysym

def typeChars : List Char → Stateful (List Notification) TypingError Unit
  | [] => pure ()
  | c :: rest => do
      typeChar portal c
      typeChars rest

/-- Types the contents of a secret into the focused window. -/
def typeSecret (secret : Bytes) : Stateful (List Notification) TypingError Unit :=
  match Cbor.ofUtf8 secret with
  | none => Stateful.raise .notUtf8
  | some text => typeChars portal text.toList

end Typing

/-! ## Keysyms -/

theorem charToKeysym_eq_none_iff (c : Char) :
    charToKeysym c = none ↔ isControl c = true ∧ c ∉ ['\t', '\n', '\r'] := by
  unfold charToKeysym
  split
  · rename_i htab
    simp [htab]
  · split
    · rename_i hline
      rcases hline with rfl | rfl <;> simp
    · split
      · simp_all
      · split <;> simp_all

/-- The character behind a keysym, which is a line feed for Return. -/
def keysymToChar (keysym : ℕ) : Char :=
  if keysym = 0xFF09 then '\t'
  else if keysym = 0xFF0D then '\n'
  else if keysym ≤ 0xFF then Char.ofNat keysym
  else Char.ofNat (keysym - 0x01000000)

/-- Carriage returns are typed as line feeds. -/
def typedChar (c : Char) : Char := if c = '\r' then '\n' else c

theorem toNat_lt (c : Char) : c.toNat < 0x110000 := by
  rcases c.valid with h | h
  · exact Nat.lt_trans h (by decide)
  · exact h.2

/-- A keysym is read back as the character it was made from. -/
theorem keysymToChar_of_charToKeysym {c : Char} {keysym : ℕ} (h : charToKeysym c = some keysym) :
    keysymToChar keysym = typedChar c ∧ keysym ≠ keysymShiftL := by
  unfold charToKeysym at h
  split at h
  · rename_i htab
    cases h
    subst htab
    decide
  · split at h
    · rename_i hline
      cases h
      rcases hline with rfl | rfl <;> decide
    · rename_i hline
      have hother : typedChar c = c := if_neg fun hreturn => hline (.inr hreturn)
      have hlt := toNat_lt c
      split at h
      · cases h
      · split at h
        · cases h
          unfold keysymToChar keysymShiftL
          rw [if_neg (by omega), if_neg (by omega), if_pos (by assumption), Char.ofNat_toNat,
            hother]
          exact ⟨rfl, by omega⟩
        · cases h
          unfold keysymToChar keysymShiftL
          rw [if_neg (by omega), if_neg (by omega), if_neg (by omega), Nat.add_sub_cancel,
            Char.ofNat_toNat, hother]
          exact ⟨rfl, by omega⟩

/-- Only line feed and carriage return share a keysym. -/
theorem typedChar_eq_of_keysym {c c' : Char} {keysym : ℕ} (h : charToKeysym c = some keysym)
    (h' : charToKeysym c' = some keysym) : typedChar c = typedChar c' :=
  (keysymToChar_of_charToKeysym h).1.symm.trans (keysymToChar_of_charToKeysym h').1

/-! ## The trace of a text -/

/-- The strokes of a character. -/
def strokes (c : Char) : List Stroke :=
  match charToKeysym c with
  | none => []
  | some keysym =>
      if needsExplicitShift c then
        [⟨keysymShiftL, .pressed⟩, ⟨keysym, .pressed⟩, ⟨keysym, .released⟩,
          ⟨keysymShiftL, .released⟩]
      else [⟨keysym, .pressed⟩, ⟨keysym, .released⟩]

/-- The strokes of a text, character by character. -/
def trace (text : String) : List Stroke := text.toList.flatMap strokes

/-- The characters of a text that are typed, as they arrive. -/
def typedText (text : String) : List Char :=
  (text.toList.filter fun c => (charToKeysym c).isSome).map typedChar

/-- What is read off a trace: every press but that of Shift is a character. -/
def readBack (strokes : List Stroke) : List Char :=
  (strokes.filter fun stroke => stroke.state = .pressed ∧ stroke.keysym ≠ keysymShiftL).map
    fun stroke => keysymToChar stroke.keysym

theorem readBack_strokes (c : Char) :
    readBack (strokes c) = if (charToKeysym c).isSome then [typedChar c] else [] := by
  unfold strokes
  cases hkeysym : charToKeysym c with
  | none => rfl
  | some keysym =>
      obtain ⟨hchar, hshift⟩ := keysymToChar_of_charToKeysym hkeysym
      simp only [Option.isSome_some, if_true]
      split <;> simp [readBack, hshift, hchar]

/-- **The text is read off its trace**, but for what is not typed. -/
theorem readBack_trace (text : String) : readBack (trace text) = typedText text := by
  unfold trace typedText
  induction text.toList with
  | nil => rfl
  | cons c rest ih =>
      rw [List.flatMap_cons, readBack, List.filter_append, List.map_append, ← readBack,
        ← readBack, readBack_strokes, ih]
      cases hkeysym : (charToKeysym c).isSome <;> simp [hkeysym]

/-! ## Typing without a refusal -/

/-- A portal that refuses nothing. -/
def willing (_ : ℕ) : Option String := none

theorem send_willing (stroke : Stroke) (calls : List Notification) :
    send willing stroke calls = (.ok (), calls ++ [⟨stroke, true⟩]) := rfl

theorem typeChar_willing (c : Char) (calls : List Notification) :
    typeChar willing c calls = (.ok (), calls ++ (strokes c).map (⟨·, true⟩)) := by
  unfold typeChar strokes
  cases charToKeysym c with
  | none => simp
  | some keysym =>
      dsimp only
      split
      · simp [shiftedTap, tap, Stateful.bind_apply, send_willing]
      · simp [tap, Stateful.bind_apply, send_willing]

theorem typeChars_willing (chars : List Char) (calls : List Notification) :
    typeChars willing chars calls = (.ok (), calls ++ (chars.flatMap strokes).map (⟨·, true⟩)) := by
  induction chars generalizing calls with
  | nil => simp [typeChars]
  | cons c rest ih =>
      rw [typeChars, Stateful.bind_of_ok (typeChar_willing c calls), ih]
      simp

/-! ## Shift is released -/

/-- After every press of Shift that went through, a release was sent or attempted. -/
def ReleasesShift (calls : List Notification) : Prop :=
  ∀ front back, calls = front ++ ⟨⟨keysymShiftL, .pressed⟩, true⟩ :: back →
    ∃ call ∈ back, call.stroke = ⟨keysymShiftL, .released⟩

theorem releasesShift_of_not_mem {calls : List Notification}
    (h : ⟨⟨keysymShiftL, .pressed⟩, true⟩ ∉ calls) : ReleasesShift calls := by
  rintro front back rfl
  exact absurd (by simp) h

/-- An attempt to release Shift is enough, if it comes last. -/
theorem releasesShift_concat (calls : List Notification) (sent : Bool) :
    ReleasesShift (calls ++ [⟨⟨keysymShiftL, .released⟩, sent⟩]) := by
  intro front back hsplit
  rcases List.append_eq_append_iff.mp hsplit with ⟨rest, _, hlast⟩ | ⟨rest, _, hback⟩
  · -- the last notification is no press
    cases rest with
    | nil => cases hlast
    | cons first rest =>
        have hlength := congrArg List.length hlast
        simp at hlength
  · cases rest with
    | nil => cases hback
    | cons first rest =>
        obtain ⟨_, rfl⟩ := List.cons.inj hback
        exact ⟨_, List.mem_append_right _ List.mem_cons_self, rfl⟩

theorem ReleasesShift.append {calls more : List Notification} (h : ReleasesShift calls)
    (h' : ReleasesShift more) : ReleasesShift (calls ++ more) := by
  intro front back hsplit
  rcases List.append_eq_append_iff.mp hsplit with ⟨rest, _, hmore⟩ | ⟨rest, hcalls, hback⟩
  · exact h' rest back hmore
  · cases rest with
    | nil => exact h' [] back hback.symm
    | cons first rest =>
        obtain ⟨rfl, rfl⟩ := List.cons.inj hback
        obtain ⟨call, hcall, hstroke⟩ := h front rest hcalls
        exact ⟨call, List.mem_append_left _ hcall, hstroke⟩

/-- The call adds notifications with this property to those before, also when it fails. -/
def Adds {ε α : Type} (property : List Notification → Prop)
    (x : Stateful (List Notification) ε α) : Prop :=
  ∀ calls, ∃ added, (x calls).2 = calls ++ added ∧ property added

/-- A property of two traces that holds of both together is one of sequences. -/
theorem Adds.bind {ε α β : Type} {property : List Notification → Prop}
    {x : Stateful (List Notification) ε α} {f : α → Stateful (List Notification) ε β}
    (happend : ∀ calls more, property calls → property more → property (calls ++ more))
    (hx : Adds property x) (hf : ∀ a, Adds property (f a)) : Adds property (x >>= f) := by
  intro calls
  obtain ⟨added, hadded, hproperty⟩ := hx calls
  rw [Stateful.bind_apply]
  rcases hrun : x calls with ⟨outcome, mid⟩
  rw [hrun] at hadded
  cases outcome with
  | error e => exact ⟨added, hadded, hproperty⟩
  | ok a =>
      obtain ⟨more, hmore, hproperty'⟩ := hf a mid
      refine ⟨added ++ more, ?_, happend _ _ hproperty hproperty'⟩
      rw [← List.append_assoc, ← hadded]
      exact hmore

section Refusals

variable (portal : ℕ → Option String)

theorem send_eq (stroke : Stroke) (calls : List Notification) :
    (send portal stroke calls).2 = calls ++ [⟨stroke, (portal calls.length).isNone⟩] := by
  unfold send
  cases portal calls.length <;> rfl

theorem adds_send (stroke : Stroke) :
    Adds (fun added => ∀ call ∈ added, call.stroke.keysym = stroke.keysym)
      (send portal stroke) :=
  fun calls => ⟨_, send_eq portal stroke calls, by simp⟩

/-- A tap has to do with its own key only. -/
theorem adds_tap (keysym : ℕ) :
    Adds (fun added => ∀ call ∈ added, call.stroke.keysym = keysym) (tap portal keysym) := by
  have happend : ∀ calls more : List Notification, (∀ call ∈ calls, call.stroke.keysym = keysym) →
      (∀ call ∈ more, call.stroke.keysym = keysym) →
      ∀ call ∈ calls ++ more, call.stroke.keysym = keysym :=
    fun _ _ h h' => List.forall_mem_append.mpr ⟨h, h'⟩
  exact Adds.bind happend (adds_send portal ⟨keysym, .pressed⟩)
    fun _ => adds_send portal ⟨keysym, .released⟩

theorem adds_tap_releasesShift {keysym : ℕ} (h : keysym ≠ keysymShiftL) :
    Adds ReleasesShift (tap portal keysym) := by
  intro calls
  obtain ⟨added, hadded, hkeysym⟩ := adds_tap portal keysym calls
  refine ⟨added, hadded, releasesShift_of_not_mem fun hmem => h ?_⟩
  exact (hkeysym _ hmem).symm

/-- Shift is released, or its press did not go through. -/
theorem adds_shiftedTap (keysym : ℕ) : Adds ReleasesShift (shiftedTap portal keysym) := by
  intro calls
  cases hpress : portal calls.length with
  | some cause =>
      refine ⟨[⟨⟨keysymShiftL, .pressed⟩, false⟩], ?_, releasesShift_of_not_mem (by simp)⟩
      simp [shiftedTap, Stateful.bind_apply, send, hpress, Fallible.mapError]
  | none =>
      obtain ⟨added, hadded, _⟩ :=
        adds_tap portal keysym (calls ++ [⟨⟨keysymShiftL, .pressed⟩, true⟩])
      have hsent : send portal ⟨keysymShiftL, .pressed⟩ calls =
          (.ok (), calls ++ [⟨⟨keysymShiftL, .pressed⟩, true⟩]) := by simp [send, hpress]
      -- whatever the tap does, the release is the last call
      have hstate : (shiftedTap portal keysym calls).2 =
          (send portal ⟨keysymShiftL, .released⟩
            (tap portal keysym (calls ++ [⟨⟨keysymShiftL, .pressed⟩, true⟩])).2).2 := by
        simp only [shiftedTap, Stateful.bind_apply, Stateful.mapError_apply, hsent,
          Fallible.mapError_ok, Stateful.outcome_apply, Stateful.lift_apply]
        split
        · rename_i hlift
          exact (congrArg Prod.snd hlift).symm
        · rename_i hlift
          exact (congrArg Prod.snd hlift).symm
      rw [hstate, send_eq, hadded]
      refine ⟨_, by rw [List.append_assoc, List.append_assoc], ?_⟩
      rw [← List.append_assoc]
      exact releasesShift_concat _ _

/-- A character leaves Shift up, or an attempt to release it behind. -/
theorem adds_typeChar (c : Char) : Adds ReleasesShift (typeChar portal c) := by
  unfold typeChar
  split
  · exact fun calls => ⟨[], by simp, releasesShift_of_not_mem List.not_mem_nil⟩
  · rename_i keysym hkeysym
    split
    · exact adds_shiftedTap portal keysym
    · exact adds_tap_releasesShift portal (keysymToChar_of_charToKeysym hkeysym).2

theorem adds_typeChars (chars : List Char) : Adds ReleasesShift (typeChars portal chars) := by
  induction chars with
  | nil => exact fun calls => ⟨[], by simp [typeChars], releasesShift_of_not_mem List.not_mem_nil⟩
  | cons c rest ih =>
      exact Adds.bind (fun _ _ => ReleasesShift.append) (adds_typeChar portal c) fun _ => ih

theorem releasesShift_typeSecret (secret : Bytes) :
    ReleasesShift (typeSecret portal secret []).2 := by
  unfold typeSecret
  cases Cbor.ofUtf8 secret with
  | none => exact releasesShift_of_not_mem List.not_mem_nil
  | some text =>
      obtain ⟨added, hadded, hreleases⟩ := adds_typeChars portal text.toList []
      dsimp only
      rw [hadded]
      exact hreleases

end Refusals

/-! ## What typing does -/

/-- **Typing reproduces the secret.** If nothing is refused, the calls are the trace of the
text, and everything but skipped control characters is read off it, up to the two ends of a
line: no two other characters share a keysym, and none has that of Shift. Whatever is refused,
Shift is released, or an attempt is made, after every press that went through. -/
theorem typing_reproduces_the_secret :
    (∀ text, typeSecret willing (Cbor.utf8 text) [] = (.ok (), (trace text).map (⟨·, true⟩))) ∧
      (∀ text, readBack (trace text) = typedText text) ∧
      (∀ c, charToKeysym c = none ↔ isControl c = true ∧ c ∉ ['\t', '\n', '\r']) ∧
      (∀ c keysym, charToKeysym c = some keysym → keysym ≠ keysymShiftL ∧
        ∀ c', charToKeysym c' = some keysym → typedChar c' = typedChar c) ∧
      ∀ portal secret, ReleasesShift (typeSecret portal secret []).2 := by
  refine ⟨fun text => ?_, readBack_trace, charToKeysym_eq_none_iff, ?_, releasesShift_typeSecret⟩
  · simp only [typeSecret, Cbor.ofUtf8_utf8, typeChars_willing, List.nil_append, trace]
  · intro c keysym h
    exact ⟨(keysymToChar_of_charToKeysym h).2, fun c' h' => typedChar_eq_of_keysym h' h⟩

example : trace "aB\u0000" = [⟨0x61, .pressed⟩, ⟨0x61, .released⟩, ⟨keysymShiftL, .pressed⟩,
    ⟨0x42, .pressed⟩, ⟨0x42, .released⟩, ⟨keysymShiftL, .released⟩] := by decide

end Typist

end Sypherstore
