/-
# Authenticated encryption with associated data

The operations of an AEAD and the laws a verification may ask of one. The laws
are separate propositions because they are of very different strength: every
deterministic AEAD meets `Exact` and `Tagged` outright, while `BindsKey`, that a
wrong key fails the tag, is the usual idealization.

None of the laws fixes the length of a ciphertext. An idealized AEAD whose
ciphertexts were exactly one tag longer than their plaintexts could not exist,
since there are more keys than tags, and results about it would be empty. The
`framed` AEAD at the end shows that the laws as stated are satisfied together.
-/

import Sypherstore.Logic.Bytes

namespace Sypherstore.Logic

/-- An AEAD over keys `κ` and nonces `ν`. -/
structure Aead (κ ν : Type) where
  /-- `enc key nonce aad msg`, or `none` when the message is refused. -/
  enc : κ → ν → Bytes → Bytes → Option Bytes
  /-- `dec key nonce aad ct`, or `none` when the tag does not verify. -/
  dec : κ → ν → Bytes → Bytes → Option Bytes

namespace Aead

variable {κ ν : Type}

/-- Decryption succeeds exactly on the outputs of encryption under the same key,
nonce and associated data. -/
def Exact (A : Aead κ ν) : Prop :=
  ∀ key nonce aad msg ct, A.dec key nonce aad ct = some msg ↔ A.enc key nonce aad msg = some ct

/-- A ciphertext carries at least a tag of `tag` bytes. -/
def Tagged (A : Aead κ ν) (tag : ℕ) : Prop :=
  ∀ key nonce aad msg ct, A.enc key nonce aad msg = some ct → tag ≤ ct.length

/-- A wrong key fails the tag. -/
def BindsKey (A : Aead κ ν) : Prop :=
  ∀ key key' nonce aad msg msg' ct, A.enc key nonce aad msg = some ct →
    A.dec key' nonce aad ct = some msg' → key' = key

variable {A : Aead κ ν}

/-- What was encrypted decrypts to itself. -/
theorem Exact.dec_enc (hA : A.Exact) {key : κ} {nonce : ν} {aad msg ct : Bytes}
    (henc : A.enc key nonce aad msg = some ct) : A.dec key nonce aad ct = some msg :=
  (hA key nonce aad msg ct).mpr henc

/-- When a wrong key fails the tag, whoever opens a ciphertext finds the message
it was made from. -/
theorem BindsKey.msg_eq (hbinds : A.BindsKey) (hA : A.Exact) {key key' : κ} {nonce : ν}
    {aad msg msg' ct : Bytes} (henc : A.enc key nonce aad msg = some ct)
    (hdec : A.dec key' nonce aad ct = some msg') : msg' = msg := by
  obtain rfl := hbinds _ _ _ _ _ _ _ henc hdec
  have hself := hA.dec_enc henc
  rw [hself] at hdec
  exact (Option.some.inj hdec).symm

/-! ## An AEAD that meets every law -/

section Framed

variable {k n : ℕ}

/-- Everything a framed ciphertext shows in front of its message: the key, the
nonce, and the associated data behind its length in unary. -/
def frame (key : Block k) (nonce : Block n) (aad : Bytes) : Bytes :=
  key.bytes ++ (nonce.bytes ++ (List.replicate aad.length 1 ++ 0 :: aad))

/-- The AEAD that hides nothing and forgets nothing. It is no cipher; it is the
consistency proof of the laws. -/
def framed (k n : ℕ) : Aead (Block k) (Block n) where
  enc key nonce aad msg := some (frame key nonce aad ++ msg)
  dec key nonce aad ct :=
    if ct.take (frame key nonce aad).length = frame key nonce aad then
      some (ct.drop (frame key nonce aad).length)
    else none

theorem framed_dec_eq_some_iff (key : Block k) (nonce : Block n) (aad msg ct : Bytes) :
    (framed k n).dec key nonce aad ct = some msg ↔ ct = frame key nonce aad ++ msg := by
  simp only [framed, Option.ite_none_right_eq_some, Option.some.injEq]
  constructor
  · rintro ⟨htake, hdrop⟩
    rw [← List.take_append_drop (frame key nonce aad).length ct, htake, hdrop]
  · rintro rfl
    simp

theorem framed_exact : (framed k n).Exact := by
  intro key nonce aad msg ct
  rw [framed_dec_eq_some_iff]
  simp [framed, eq_comm]

theorem framed_tagged : (framed k n).Tagged (k + n) := by
  intro key nonce aad msg ct henc
  have hct : frame key nonce aad ++ msg = ct := by simpa [framed] using henc
  rw [← hct]
  simp [frame]

/-- The key can be read back from a frame and whatever follows it. -/
theorem frame_append_inj {key key' : Block k} {nonce nonce' : Block n}
    {aad aad' msg msg' : Bytes}
    (h : frame key nonce aad ++ msg = frame key' nonce' aad' ++ msg') : key = key' := by
  simp only [frame, List.append_assoc] at h
  exact Block.ext (List.append_inj h (by simp)).1

theorem framed_bindsKey : (framed k n).BindsKey := by
  intro key key' nonce aad msg msg' ct henc hdec
  have hct := (framed_dec_eq_some_iff ..).mp (framed_exact.dec_enc henc)
  have hct' := (framed_dec_eq_some_iff ..).mp hdec
  exact frame_append_inj (hct'.symm.trans hct)

end Framed

end Aead

end Sypherstore.Logic
