/-
# The three kinds of envelope

Payloads, metadata and the verification text are sealed by one function, under subkeys
that depend only on the id. An attacker who rewrites the id columns can therefore have
any blob opened as any kind, and the AEAD does not object. What keeps the kinds apart
is what is inside: the two records have required fields that the other lacks, and the
verification text is no record at all.
-/

import Sypherstore.Core.Laws

namespace Sypherstore

open Logic

variable {P : Primitives}

/-- When a wrong key fails the tag, an envelope opens only under the id that it names, and
to the bytes it was made from, whatever the keys. -/
theorem Sealed.eq_of_openBytes (hP : P.Lawful) (hbinds : P.aead.BindsKey) {id id' : Uuid}
    {innerKek innerKek' outerKek outerKek' : Key} {plaintext plaintext' blob : Bytes}
    (h : Sealed P id innerKek outerKek plaintext blob)
    (hopen : openBytes P id' innerKek' outerKek' blob = .ok plaintext') :
    id' = id ∧ plaintext' = plaintext := by
  have hsealed := (openBytes_eq_ok_iff hP.exact hP.tagged ..).mp hopen
  obtain rfl := hsealed.id_eq h
  obtain ⟨n1, n2, c1, c2, hinner, houter, rfl⟩ := h
  obtain ⟨n1', n2', c1', c2', hinner', houter', hblob⟩ := hsealed
  obtain ⟨hnonce, rfl⟩ := List.append_inj (List.append_cancel_left hblob) (by simp)
  obtain rfl := Block.ext hnonce
  -- The outer layer is the same ciphertext, so it hides the same inner layer.
  have hframed := hbinds.msg_eq hP.exact houter (hP.exact.dec_enc houter')
  obtain ⟨hnonce', rfl⟩ := List.append_inj hframed (by simp)
  obtain rfl := Block.ext hnonce'
  exact ⟨rfl, hbinds.msg_eq hP.exact hinner (hP.exact.dec_enc hinner')⟩

/-! ## What each kind takes -/

theorem exists_of_openMeta {metaId id : Uuid} {innerKek outerKek : Key} {blob : Bytes}
    {m : SecretMeta} (h : openMeta P metaId id innerKek outerKek blob = .ok m) :
    ∃ plaintext value wire, openBytes P metaId innerKek outerKek blob = .ok plaintext ∧
      P.cborRead plaintext = some value ∧ MetaWire.ofCbor value = some wire := by
  simp only [openMeta, readWire, Fallible.bind_eq_ok_iff, Fallible.ofOption_eq_ok_iff,
    Option.bind_eq_some_iff] at h
  obtain ⟨plaintext, hplain, wire, ⟨value, hread, hwire⟩, _⟩ := h
  exact ⟨plaintext, value, wire, hplain, hread, hwire⟩

theorem exists_of_openPayload {id : Uuid} {innerKek outerKek : Key} {blob : Bytes}
    {p : SecretPayload} (h : openPayload P id innerKek outerKek blob = .ok p) :
    ∃ plaintext value wire, openBytes P id innerKek outerKek blob = .ok plaintext ∧
      P.cborRead plaintext = some value ∧ PayloadWire.ofCbor value = some wire := by
  simp only [openPayload, readWire, Fallible.bind_eq_ok_iff, Fallible.ofOption_eq_ok_iff,
    Option.bind_eq_some_iff] at h
  obtain ⟨plaintext, hplain, wire, ⟨value, hread, hwire⟩, _⟩ := h
  exact ⟨plaintext, value, wire, hplain, hread, hwire⟩

theorem openBytes_of_verifyKeys {id : Uuid} {innerKek outerKek : Key} {blob : Bytes}
    (h : verifyKeys P id innerKek outerKek blob = .ok true) :
    openBytes P id innerKek outerKek blob = .ok verificationPlaintext := by
  simp only [verifyKeys, Fallible.bind_eq_ok_iff] at h
  obtain ⟨plaintext, hplain, htrue⟩ := h
  have hsame : plaintext = verificationPlaintext := by simpa using Except.ok.inj htrue
  rwa [hsame] at hplain

/-- Both records are maps. -/
theorem MetaWire.exists_map {value : Cbor} {wire : MetaWire}
    (h : MetaWire.ofCbor value = some wire) : ∃ entries, value = .map entries := by
  cases value with
  | map entries => exact ⟨entries, rfl⟩
  | _ => cases h

theorem PayloadWire.exists_map {value : Cbor} {wire : PayloadWire}
    (h : PayloadWire.ofCbor value = some wire) : ∃ entries, value = .map entries := by
  cases value with
  | map entries => exact ⟨entries, rfl⟩
  | _ => cases h

/-- The verification text starts like a CBOR text of 19 bytes, so it is not read as a
map. -/
theorem verificationPlaintext_not_map (hmaps : Cbor.ReadsMapsAsMaps P.cborRead)
    (entries : List (String × Cbor)) :
    P.cborRead verificationPlaintext ≠ some (.map entries) := by
  intro hread
  have hmajor := hmaps 0x73 (ascii "ypherstore-verify") entries hread
  revert hmajor
  decide

/-- A record is never the verification text. -/
theorem cborWrite_ne_verificationPlaintext (hP : P.Lawful)
    (hmaps : Cbor.ReadsMapsAsMaps P.cborRead) {entries : List (String × Cbor)}
    (hrecord : WireRecord (.map entries)) : P.cborWrite (.map entries) ≠ verificationPlaintext := by
  intro hwrite
  have hread := hP.cbor _ hrecord
  rw [hwrite] at hread
  exact verificationPlaintext_not_map hmaps entries hread

/-! ## Separation -/

/-- **The kinds of envelope cannot be confused.** Whatever the keys and ids under which
they are opened, a payload does not open as metadata and does not pass for the
verification blob, metadata does not open as a payload and does not pass for it either,
and the verification blob opens as neither. -/
theorem envelope_kinds_are_separate (hP : P.Lawful) (hbinds : P.aead.BindsKey)
    (hmaps : Cbor.ReadsMapsAsMaps P.cborRead) (nonces : Nonces) (id : Uuid)
    (innerKek outerKek : Key) (blob : Bytes) :
    (∀ p, sealPayload P nonces id innerKek outerKek p = .ok blob →
      (∀ metaId rowId inner outer m, openMeta P metaId rowId inner outer blob ≠ .ok m) ∧
      ∀ id' inner outer, verifyKeys P id' inner outer blob ≠ .ok true) ∧
    (∀ m, sealMeta P nonces id innerKek outerKek m = .ok blob →
      (∀ id' inner outer p, openPayload P id' inner outer blob ≠ .ok p) ∧
      ∀ id' inner outer, verifyKeys P id' inner outer blob ≠ .ok true) ∧
    (sealVerification P nonces id innerKek outerKek = .ok blob →
      (∀ metaId rowId inner outer m, openMeta P metaId rowId inner outer blob ≠ .ok m) ∧
      ∀ id' inner outer p, openPayload P id' inner outer blob ≠ .ok p) := by
  refine ⟨fun p hseal => ⟨?_, ?_⟩, fun m hseal => ⟨?_, ?_⟩, fun hseal => ⟨?_, ?_⟩⟩
  · intro metaId rowId inner outer m hopen
    obtain ⟨plaintext, value, wire, hplain, hread, hwire⟩ := exists_of_openMeta hopen
    obtain ⟨_, rfl⟩ := (Sealed.of_sealBytes hseal).eq_of_openBytes hP hbinds hplain
    rw [hP.cbor _ (.payload _)] at hread
    cases hread
    rw [MetaWire.ofCbor_payload] at hwire
    cases hwire
  · intro id' inner outer hverify
    obtain ⟨_, hplain⟩ := (Sealed.of_sealBytes hseal).eq_of_openBytes hP hbinds
      (openBytes_of_verifyKeys hverify)
    exact cborWrite_ne_verificationPlaintext hP hmaps (.payload _) hplain.symm
  · intro id' inner outer p hopen
    obtain ⟨plaintext, value, wire, hplain, hread, hwire⟩ := exists_of_openPayload hopen
    obtain ⟨_, rfl⟩ := (Sealed.of_sealBytes hseal).eq_of_openBytes hP hbinds hplain
    rw [hP.cbor _ (.metadata _)] at hread
    cases hread
    rw [PayloadWire.ofCbor_meta] at hwire
    cases hwire
  · intro id' inner outer hverify
    obtain ⟨_, hplain⟩ := (Sealed.of_sealBytes hseal).eq_of_openBytes hP hbinds
      (openBytes_of_verifyKeys hverify)
    exact cborWrite_ne_verificationPlaintext hP hmaps (.metadata _) hplain.symm
  · intro metaId rowId inner outer m hopen
    obtain ⟨plaintext, value, wire, hplain, hread, hwire⟩ := exists_of_openMeta hopen
    obtain ⟨_, rfl⟩ := (Sealed.of_sealBytes hseal).eq_of_openBytes hP hbinds hplain
    obtain ⟨entries, rfl⟩ := MetaWire.exists_map hwire
    exact verificationPlaintext_not_map hmaps entries hread
  · intro id' inner outer p hopen
    obtain ⟨plaintext, value, wire, hplain, hread, hwire⟩ := exists_of_openPayload hopen
    obtain ⟨_, rfl⟩ := (Sealed.of_sealBytes hseal).eq_of_openBytes hP hbinds hplain
    obtain ⟨entries, rfl⟩ := PayloadWire.exists_map hwire
    exact verificationPlaintext_not_map hmaps entries hread

/-- A payload and a verification blob sealed to one id do not open in each other's
place. -/
theorem payload_and_verification_of_one_id_are_separate :
    ∃ payloadBlob verifyBlob,
      sealPayload Primitives.reference ⟨.ok (Block.replicate 24 1), .ok (Block.replicate 24 2)⟩
        (Block.replicate 16 3) (Block.replicate keyLen 4) (Block.replicate keyLen 5)
        ⟨[6, 7], none, []⟩ = .ok payloadBlob ∧
      sealVerification Primitives.reference
        ⟨.ok (Block.replicate 24 1), .ok (Block.replicate 24 2)⟩ (Block.replicate 16 3)
        (Block.replicate keyLen 4) (Block.replicate keyLen 5) = .ok verifyBlob ∧
      verifyKeys Primitives.reference (Block.replicate 16 3) (Block.replicate keyLen 4)
        (Block.replicate keyLen 5) payloadBlob ≠ .ok true ∧
      ∀ p, openPayload Primitives.reference (Block.replicate 16 3) (Block.replicate keyLen 4)
        (Block.replicate keyLen 5) verifyBlob ≠ .ok p := by
  obtain ⟨payloadBlob, hpayload⟩ : ∃ blob, sealPayload Primitives.reference
      ⟨.ok (Block.replicate 24 1), .ok (Block.replicate 24 2)⟩ (Block.replicate 16 3)
      (Block.replicate keyLen 4) (Block.replicate keyLen 5) ⟨[6, 7], none, []⟩ = .ok blob :=
    ⟨_, rfl⟩
  obtain ⟨verifyBlob, hverify⟩ : ∃ blob, sealVerification Primitives.reference
      ⟨.ok (Block.replicate 24 1), .ok (Block.replicate 24 2)⟩ (Block.replicate 16 3)
      (Block.replicate keyLen 4) (Block.replicate keyLen 5) = .ok blob := ⟨_, rfl⟩
  have hseparate := envelope_kinds_are_separate Primitives.reference_lawful
    Primitives.reference_bindsKey Cbor.decode_readsMapsAsMaps
    ⟨.ok (Block.replicate 24 1), .ok (Block.replicate 24 2)⟩ (Block.replicate 16 3)
    (Block.replicate keyLen 4) (Block.replicate keyLen 5)
  exact ⟨payloadBlob, verifyBlob, hpayload, hverify,
    ((hseparate payloadBlob).1 _ hpayload).2 _ _ _, ((hseparate verifyBlob).2.2 hverify).2 _ _ _⟩

end Sypherstore
