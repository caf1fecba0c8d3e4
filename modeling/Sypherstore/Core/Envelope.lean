/-
# The double-encryption envelope

Sealing and opening byte strings, payloads, metadata, the verification blob and
the wrapped inner key (`crypto/envelope.rs`).

The decoder is written with checked slices, so "never slices out of range" is
the statement that it never panics. What an envelope *is* is stated apart from
both directions of the code, as the relation `Sealed`; sealing produces exactly
its members and opening accepts exactly them.
-/

import Sypherstore.Core.Model

namespace Sypherstore

open Logic

inductive EnvelopeError where
  /-- "Not a sypherstore envelope (bad magic)" -/
  | badMagic
  /-- "Unsupported envelope version {0}, this build understands {VERSION}" -/
  | unsupportedVersion (version : UInt8)
  /-- "Unsupported cipher id {0}" -/
  | unsupportedCipher (cipher : UInt8)
  /-- "Envelope is truncated: {0} bytes is too short" -/
  | truncated (length : ℕ)
  /-- "Envelope belongs to secret {found}, not {expected}" -/
  | idMismatch (expected found : Uuid)
  /-- "Decryption failed: wrong key or corrupt data" -/
  | decrypt
  /-- "Payload decoding failed: {0}" -/
  | decode (detail : String)
  | key (e : KeyError)
  /-- "Failed to gather randomness: {0}" -/
  | random (e : RandomError)
  deriving DecidableEq

/-! ## Layout -/

/-- File magic. -/
def magic : Bytes := ascii "SYPH"

/-- Envelope format version. -/
def version : UInt8 := 1

/-- Cipher identifier: XChaCha20-Poly1305 in both layers. -/
def cipherXChaCha20Poly1305 : UInt8 := 1

abbrev nonceLen : ℕ := 24

abbrev tagLen : ℕ := 16

abbrev headerLen : ℕ := 4 + 1 + 1 + 16

/-- Plaintext of the verification blob. -/
def verificationPlaintext : Bytes := ascii "sypherstore-verify"

/-- Associated data of a wrapped inner key. -/
def wrapAad : Bytes := ascii "sypherstore/v1/inner-kek-wrap"

/-- Builds the 22-byte authenticated header for a secret. -/
def buildHeader (id : Uuid) : Bytes :=
  magic ++ ([version, cipherXChaCha20Poly1305] ++ id.bytes)

/-- Validates a header and returns the UUID it claims. -/
def parseHeader (blob : Bytes) : Fallible EnvelopeError Uuid := do
  if blob.length < headerLen + nonceLen + tagLen then
    Fallible.raise (.truncated blob.length)
  else
    let found ← slice blob 0 4
    if found ≠ magic then Fallible.raise .badMagic
    else
      let foundVersion ← byteAt blob 4
      if foundVersion ≠ version then Fallible.raise (.unsupportedVersion foundVersion)
      else
        let cipher ← byteAt blob 5
        if cipher ≠ cipherXChaCha20Poly1305 then Fallible.raise (.unsupportedCipher cipher)
        else
          let idBytes ← slice blob 6 22
          toBlock 16 idBytes

/-! ## Sealing and opening bytes -/

/-- The two nonces one seal draws from the random source. -/
structure Nonces where
  inner : Except RandomError Nonce
  outer : Except RandomError Nonce
  deriving DecidableEq

/-- Draw random bytes. -/
def drawNonce (draw : Except RandomError Nonce) : Fallible EnvelopeError Nonce :=
  (Fallible.ofExcept draw).mapError .random

section Envelope

variable (P : Primitives)

/-- Encrypts bytes through both layers, bound to `id`. -/
def sealBytes (nonces : Nonces) (id : Uuid) (innerKek outerKek : Key) (plaintext : Bytes) :
    Fallible EnvelopeError Bytes := do
  let header := buildHeader id
  let kInner := deriveSecretInnerKey P innerKek id
  let kOuter := deriveSecretOuterKey P outerKek id
  let n1 ← drawNonce nonces.inner
  let c1 ← Fallible.ofOption .decrypt (P.aead.enc kInner n1 header plaintext)
  let innerFramed := n1.bytes ++ c1
  let n2 ← drawNonce nonces.outer
  let c2 ← Fallible.ofOption .decrypt (P.aead.enc kOuter n2 header innerFramed)
  return header ++ (n2.bytes ++ c2)

/-- Decrypts a blob produced by `sealBytes`, checking it belongs to `id`. -/
def openBytes (id : Uuid) (innerKek outerKek : Key) (blob : Bytes) :
    Fallible EnvelopeError Bytes := do
  let found ← parseHeader blob
  if found ≠ id then Fallible.raise (.idMismatch id found)
  else
    let header ← slice blob 0 headerLen
    let n2Bytes ← slice blob headerLen (headerLen + nonceLen)
    let n2 ← toBlock nonceLen n2Bytes
    let c2 ← sliceFrom blob (headerLen + nonceLen)
    let kOuter := deriveSecretOuterKey P outerKek id
    let innerFramed ← Fallible.ofOption .decrypt (P.aead.dec kOuter n2 header c2)
    if innerFramed.length < nonceLen + tagLen then
      Fallible.raise (.truncated innerFramed.length)
    else
      let (n1Bytes, c1) ← splitAt innerFramed nonceLen
      let kInner := deriveSecretInnerKey P innerKek id
      let n1 ← toBlock nonceLen n1Bytes
      Fallible.ofOption .decrypt (P.aead.dec kInner n1 header c1)

/-! ## Structured contents -/

/-- Read bytes as a wire record. -/
def readWire {α : Type} (record : String) (ofCbor : Cbor → Option α) (bytes : Bytes) :
    Fallible EnvelopeError α :=
  Fallible.ofOption (.decode (P.cborError record bytes)) ((P.cborRead bytes).bind ofCbor)

/-- Encrypts a structured payload into a storable blob. -/
def sealPayload (nonces : Nonces) (id : Uuid) (innerKek outerKek : Key)
    (payload : SecretPayload) : Fallible EnvelopeError Bytes :=
  sealBytes P nonces id innerKek outerKek
    (P.cborWrite (PayloadWire.fromPayload payload).toCbor)

/-- Decrypts a blob back into a structured payload. -/
def openPayload (id : Uuid) (innerKek outerKek : Key) (blob : Bytes) :
    Fallible EnvelopeError SecretPayload := do
  let cbor ← openBytes P id innerKek outerKek blob
  let wire ← readWire P "PayloadWire" PayloadWire.ofCbor cbor
  return wire.intoPayload

/-- Encrypts a secret's metadata, sealed to `metaId` rather than to its own id. -/
def sealMeta (nonces : Nonces) (metaId : Uuid) (innerKek outerKek : Key) (m : SecretMeta) :
    Fallible EnvelopeError Bytes :=
  sealBytes P nonces metaId innerKek outerKek (P.cborWrite (MetaWire.fromMeta m).toCbor)

/-- Decrypts a metadata blob, reattaching the plaintext row `id`. -/
def openMeta (metaId id : Uuid) (innerKek outerKek : Key) (blob : Bytes) :
    Fallible EnvelopeError SecretMeta := do
  let cbor ← openBytes P metaId innerKek outerKek blob
  let wire ← readWire P "MetaWire" MetaWire.ofCbor cbor
  return wire.intoMeta id

/-- Builds the vault's verification blob. -/
def sealVerification (nonces : Nonces) (id : Uuid) (innerKek outerKek : Key) :
    Fallible EnvelopeError Bytes :=
  sealBytes P nonces id innerKek outerKek verificationPlaintext

/-- Confirms both keys by decrypting the verification blob. -/
def verifyKeys (id : Uuid) (innerKek outerKek : Key) (blob : Bytes) :
    Fallible EnvelopeError Bool := do
  let plaintext ← openBytes P id innerKek outerKek blob
  return plaintext = verificationPlaintext

/-! ## Wrapping the inner key -/

/-- Encrypts `innerKek` under an authenticator's wrap key. -/
def wrapKey (nonce : Except RandomError Nonce) (wrap innerKek : Key) :
    Fallible EnvelopeError Bytes := do
  let nonce ← drawNonce nonce
  let ct ← Fallible.ofOption .decrypt (P.aead.enc wrap nonce wrapAad innerKek.bytes)
  return nonce.bytes ++ ct

/-- Recovers the inner key from a blob produced by `wrapKey`. -/
def unwrapKey (wrap : Key) (blob : Bytes) : Fallible EnvelopeError Key := do
  if blob.length < nonceLen + tagLen then Fallible.raise (.truncated blob.length)
  else
    let (nonceBytes, ct) ← splitAt blob nonceLen
    let nonce ← toBlock nonceLen nonceBytes
    let plaintext ← Fallible.ofOption .decrypt (P.aead.dec wrap nonce wrapAad ct)
    (Key.takeFrom plaintext).mapError .key

end Envelope

/-! ## The header -/

/-- The lengths as numbers, for arithmetic on slices. -/
theorem layout_lengths : headerLen = 22 ∧ nonceLen = 24 ∧ tagLen = 16 := ⟨rfl, rfl, rfl⟩

@[simp] theorem length_magic : magic.length = 4 := by decide

@[simp] theorem length_buildHeader (id : Uuid) : (buildHeader id).length = headerLen := by
  simp [buildHeader]

theorem buildHeader_inj {id id' : Uuid} : buildHeader id = buildHeader id' ↔ id = id' := by
  constructor
  · intro h
    simp only [buildHeader, List.append_cancel_left_eq] at h
    exact Block.ext h
  · exact congrArg buildHeader

/-- A byte string long enough for a header splits into the header's fields. -/
theorem exists_header_fields (blob : Bytes) (hlen : headerLen ≤ blob.length) :
    ∃ (mark : Bytes) (v c : UInt8) (id : Uuid) (rest : Bytes),
      mark.length = 4 ∧ blob = mark ++ ([v, c] ++ (id.bytes ++ rest)) := by
  have hlengths := layout_lengths
  have hv : 4 < blob.length := by omega
  have hc : 5 < blob.length := by omega
  refine ⟨blob.take 4, blob[4], blob[5], ⟨(blob.drop 6).take 16, ?_⟩, blob.drop 22, ?_, ?_⟩
  · rw [List.length_take, List.length_drop]
    omega
  · rw [List.length_take]
    omega
  · have hdrop : blob.drop 22 = (blob.drop 6).drop 16 := by simp
    rw [hdrop, List.take_append_drop]
    conv_lhs => rw [← List.take_append_drop 4 blob]
    rw [List.drop_eq_getElem_cons hv, List.drop_eq_getElem_cons hc]
    rfl

theorem length_header_fields {mark : Bytes} (hmark : mark.length = 4) (v c : UInt8)
    (id : Uuid) (rest : Bytes) :
    (mark ++ ([v, c] ++ (id.bytes ++ rest))).length = headerLen + rest.length := by
  have hlengths := layout_lengths
  simp only [List.length_append, List.length_cons, List.length_nil, Block.length_bytes, hmark]
  omega

/-- What the parser does once the length check has passed: no slice is out of
range, and the checks come in the order of the fields. -/
theorem parseHeader_fields {mark rest : Bytes} (hmark : mark.length = 4) (v c : UInt8)
    (id : Uuid) (hrest : nonceLen + tagLen ≤ rest.length) :
    parseHeader (mark ++ ([v, c] ++ (id.bytes ++ rest))) =
      if mark ≠ magic then Fallible.raise .badMagic
      else if v ≠ version then Fallible.raise (.unsupportedVersion v)
      else if c ≠ cipherXChaCha20Poly1305 then Fallible.raise (.unsupportedCipher c)
      else .ok id := by
  have hlengths := layout_lengths
  have hlen := length_header_fields hmark v c id rest
  have hmagic : slice (ε := EnvelopeError) (mark ++ ([v, c] ++ (id.bytes ++ rest))) 0 4 =
      .ok mark := by
    rw [slice_of_le (by omega) (by omega)]
    simp [← hmark]
  have hv : byteAt (ε := EnvelopeError) (mark ++ ([v, c] ++ (id.bytes ++ rest))) 4 = .ok v := by
    simp [byteAt, ← hmark]
  have hc : byteAt (ε := EnvelopeError) (mark ++ ([v, c] ++ (id.bytes ++ rest))) 5 = .ok c := by
    simp [byteAt, List.getElem?_append_right, hmark]
  have hid : slice (ε := EnvelopeError) (mark ++ ([v, c] ++ (id.bytes ++ rest))) 6 22 =
      .ok id.bytes := by
    rw [slice_of_le (by omega) (by omega)]
    simp [List.drop_append, hmark, List.take_append]
  simp only [parseHeader, hmagic, hv, hc, hid, Fallible.ok_bind, toBlock_bytes]
  rw [if_neg (by omega)]

theorem parseHeader_ne_panic (blob : Bytes) : parseHeader blob ≠ .error .panic := by
  have hlengths := layout_lengths
  by_cases hshort : blob.length < headerLen + nonceLen + tagLen
  · simp [parseHeader, hshort, Fallible.raise]
  · obtain ⟨mark, v, c, id, rest, hmark, rfl⟩ :=
      exists_header_fields blob (by omega)
    have hrest : nonceLen + tagLen ≤ rest.length := by
      rw [length_header_fields hmark] at hshort
      omega
    rw [parseHeader_fields hmark v c id hrest]
    split_ifs <;> simp [Fallible.raise]

/-- The parser accepts exactly the byte strings that start with a header and
have room for a nonce and a tag behind it. -/
theorem parseHeader_eq_ok_iff (blob : Bytes) (id : Uuid) :
    parseHeader blob = .ok id ↔
      ∃ rest : Bytes, nonceLen + tagLen ≤ rest.length ∧ blob = buildHeader id ++ rest := by
  have hlengths := layout_lengths
  constructor
  · intro h
    by_cases hshort : blob.length < headerLen + nonceLen + tagLen
    · simp [parseHeader, hshort, Fallible.raise] at h
    · obtain ⟨mark, v, c, id', rest, hmark, rfl⟩ :=
        exists_header_fields blob (by omega)
      have hrest : nonceLen + tagLen ≤ rest.length := by
        rw [length_header_fields hmark] at hshort
        omega
      rw [parseHeader_fields hmark v c id' hrest] at h
      split_ifs at h with hbad hver hcip
      · cases h
      · cases h
      · cases h
      · cases h
        refine ⟨rest, hrest, ?_⟩
        simp_all [buildHeader]
  · rintro ⟨rest, hrest, rfl⟩
    have hfields : buildHeader id ++ rest = magic ++ ([version, cipherXChaCha20Poly1305] ++
        (id.bytes ++ rest)) := by
      simp [buildHeader]
    rw [hfields, parseHeader_fields length_magic _ _ _ hrest]
    simp

/-! ## What an envelope is -/

section Sealed

variable {P : Primitives}

/-- `blob` is an envelope of `plaintext` for `id` under the two keys: the header
in the clear, then a nonce and what the outer layer makes of the inner one. -/
def Sealed (P : Primitives) (id : Uuid) (innerKek outerKek : Key) (plaintext blob : Bytes) :
    Prop :=
  ∃ (n1 n2 : Nonce) (c1 c2 : Bytes),
    P.aead.enc (deriveSecretInnerKey P innerKek id) n1 (buildHeader id) plaintext = some c1 ∧
    P.aead.enc (deriveSecretOuterKey P outerKek id) n2 (buildHeader id) (n1.bytes ++ c1) =
      some c2 ∧
    blob = buildHeader id ++ (n2.bytes ++ c2)

/-- `blob` carries `innerKek` wrapped under an authenticator's wrap key. -/
def Wrapped (P : Primitives) (wrap innerKek : Key) (blob : Bytes) : Prop :=
  ∃ (nonce : Nonce) (ct : Bytes),
    P.aead.enc wrap nonce wrapAad innerKek.bytes = some ct ∧ blob = nonce.bytes ++ ct

theorem drawNonce_eq_ok_iff (draw : Except RandomError Nonce) (nonce : Nonce) :
    drawNonce draw = .ok nonce ↔ draw = .ok nonce := by
  simp [drawNonce]

/-- Sealing produces an envelope, from the two nonces it drew. -/
theorem sealBytes_eq_ok_iff (nonces : Nonces) (id : Uuid) (innerKek outerKek : Key)
    (plaintext blob : Bytes) :
    sealBytes P nonces id innerKek outerKek plaintext = .ok blob ↔
      ∃ (n1 n2 : Nonce) (c1 c2 : Bytes), nonces.inner = .ok n1 ∧ nonces.outer = .ok n2 ∧
        P.aead.enc (deriveSecretInnerKey P innerKek id) n1 (buildHeader id) plaintext = some c1 ∧
        P.aead.enc (deriveSecretOuterKey P outerKek id) n2 (buildHeader id) (n1.bytes ++ c1) =
          some c2 ∧
        blob = buildHeader id ++ (n2.bytes ++ c2) := by
  simp only [sealBytes, Fallible.bind_eq_ok_iff, drawNonce_eq_ok_iff, Fallible.ofOption_eq_ok_iff]
  constructor
  · rintro ⟨n1, hn1, c1, hc1, n2, hn2, c2, hc2, hblob⟩
    cases hblob
    exact ⟨n1, n2, c1, c2, hn1, hn2, hc1, hc2, rfl⟩
  · rintro ⟨n1, n2, c1, c2, hn1, hn2, hc1, hc2, rfl⟩
    exact ⟨n1, hn1, c1, hc1, n2, hn2, c2, hc2, rfl⟩

theorem Sealed.of_sealBytes {nonces : Nonces} {id : Uuid} {innerKek outerKek : Key}
    {plaintext blob : Bytes}
    (h : sealBytes P nonces id innerKek outerKek plaintext = .ok blob) :
    Sealed P id innerKek outerKek plaintext blob := by
  obtain ⟨n1, n2, c1, c2, _, _, hc1, hc2, hblob⟩ := (sealBytes_eq_ok_iff ..).mp h
  exact ⟨n1, n2, c1, c2, hc1, hc2, hblob⟩

/-- Every envelope is what sealing makes of some pair of nonces. -/
theorem sealed_iff_exists_nonces (id : Uuid) (innerKek outerKek : Key)
    (plaintext blob : Bytes) :
    Sealed P id innerKek outerKek plaintext blob ↔
      ∃ n1 n2 : Nonce,
        sealBytes P ⟨.ok n1, .ok n2⟩ id innerKek outerKek plaintext = .ok blob := by
  constructor
  · rintro ⟨n1, n2, c1, c2, hc1, hc2, hblob⟩
    exact ⟨n1, n2, (sealBytes_eq_ok_iff ..).mpr ⟨n1, n2, c1, c2, rfl, rfl, hc1, hc2, hblob⟩⟩
  · rintro ⟨n1, n2, h⟩
    exact Sealed.of_sealBytes h

theorem Sealed.id_eq {id id' : Uuid} {innerKek innerKek' outerKek outerKek' : Key}
    {plaintext plaintext' blob : Bytes} (h : Sealed P id innerKek outerKek plaintext blob)
    (h' : Sealed P id' innerKek' outerKek' plaintext' blob) : id = id' := by
  obtain ⟨n1, n2, c1, c2, _, _, hblob⟩ := h
  obtain ⟨n1', n2', c1', c2', _, _, hblob'⟩ := h'
  rw [hblob] at hblob'
  exact buildHeader_inj.mp (List.append_inj hblob' (by simp)).1

/-- What opening does with a byte string that carries the right header: every
slice is in range. -/
theorem openBytes_framed (id : Uuid) (innerKek outerKek : Key) (n2 : Nonce) {c2 : Bytes}
    (hc2 : tagLen ≤ c2.length) :
    openBytes P id innerKek outerKek (buildHeader id ++ (n2.bytes ++ c2)) =
      (Fallible.ofOption .decrypt (P.aead.dec (deriveSecretOuterKey P outerKek id) n2
          (buildHeader id) c2) >>= fun innerFramed =>
        if innerFramed.length < nonceLen + tagLen then
          Fallible.raise (.truncated innerFramed.length)
        else do
          let (n1Bytes, c1) ← splitAt innerFramed nonceLen
          let n1 ← toBlock nonceLen n1Bytes
          Fallible.ofOption .decrypt (P.aead.dec (deriveSecretInnerKey P innerKek id) n1
            (buildHeader id) c1)) := by
  have hlen : (buildHeader id ++ (n2.bytes ++ c2)).length = headerLen + nonceLen + c2.length := by
    simp only [List.length_append, length_buildHeader, Block.length_bytes, Nat.add_assoc]
  have hparse : parseHeader (buildHeader id ++ (n2.bytes ++ c2)) = .ok id :=
    (parseHeader_eq_ok_iff ..).mpr ⟨n2.bytes ++ c2, by simp [hc2], rfl⟩
  have hheader : slice (ε := EnvelopeError) (buildHeader id ++ (n2.bytes ++ c2)) 0 headerLen =
      .ok (buildHeader id) := by
    rw [slice_of_le (by omega) (by omega)]
    simp
  have hnonce : slice (ε := EnvelopeError) (buildHeader id ++ (n2.bytes ++ c2)) headerLen
      (headerLen + nonceLen) = .ok n2.bytes := by
    rw [slice_of_le (by omega) (by omega), List.drop_left' (length_buildHeader id)]
    simp
  have htail : sliceFrom (ε := EnvelopeError) (buildHeader id ++ (n2.bytes ++ c2))
      (headerLen + nonceLen) = .ok c2 := by
    rw [sliceFrom_of_le (by omega), ← List.append_assoc,
      List.drop_left' (by simp)]
  simp [openBytes, hparse, hheader, hnonce, htail]

/-- The inner layer, once the outer one has come off. -/
theorem openBytes_of_outer {id : Uuid} {innerKek outerKek : Key} {n1 n2 : Nonce}
    {c1 c2 : Bytes} (hc2 : tagLen ≤ c2.length) (hc1 : tagLen ≤ c1.length)
    (houter : P.aead.dec (deriveSecretOuterKey P outerKek id) n2 (buildHeader id) c2 =
      some (n1.bytes ++ c1)) :
    openBytes P id innerKek outerKek (buildHeader id ++ (n2.bytes ++ c2)) =
      Fallible.ofOption .decrypt (P.aead.dec (deriveSecretInnerKey P innerKek id) n1
        (buildHeader id) c1) := by
  rw [openBytes_framed id innerKek outerKek n2 hc2, houter]
  simp only [Fallible.ofOption_some, Fallible.ok_bind, splitAt_block_append, toBlock_bytes]
  rw [if_neg]
  have hlengths := layout_lengths
  rw [List.length_append, Block.length_bytes]
  omega

/-- How opening a byte string can go: it is refused outright, or it is framed as
an envelope of this id and both layers come to be decrypted. -/
theorem openBytes_cases (id : Uuid) (innerKek outerKek : Key) (blob : Bytes) :
    (∃ e, openBytes P id innerKek outerKek blob = .error (.error e)) ∨
    ∃ (n1 n2 : Nonce) (c1 c2 : Bytes),
      blob = buildHeader id ++ (n2.bytes ++ c2) ∧
      P.aead.dec (deriveSecretOuterKey P outerKek id) n2 (buildHeader id) c2 =
        some (n1.bytes ++ c1) ∧
      openBytes P id innerKek outerKek blob =
        Fallible.ofOption .decrypt (P.aead.dec (deriveSecretInnerKey P innerKek id) n1
          (buildHeader id) c1) := by
  rcases hparse : parseHeader blob with fault | found
  · cases fault with
    | error e => exact .inl ⟨e, by simp [openBytes, hparse]⟩
    | panic => exact absurd hparse (parseHeader_ne_panic blob)
  by_cases hid : found = id
  · subst hid
    obtain ⟨rest, hrest, rfl⟩ := (parseHeader_eq_ok_iff ..).mp hparse
    obtain ⟨n2, c2, rfl⟩ := exists_block_append (n := nonceLen) (b := rest) (by omega)
    have hc2 : tagLen ≤ c2.length := by
      rw [List.length_append, Block.length_bytes] at hrest
      omega
    rcases houter : P.aead.dec (deriveSecretOuterKey P outerKek found) n2 (buildHeader found) c2
      with _ | innerFramed
    · exact .inl ⟨.decrypt, by rw [openBytes_framed _ _ _ _ hc2, houter]; rfl⟩
    by_cases hshort : innerFramed.length < nonceLen + tagLen
    · refine .inl ⟨.truncated innerFramed.length, ?_⟩
      rw [openBytes_framed _ _ _ _ hc2, houter]
      simp only [Fallible.ofOption_some, Fallible.ok_bind]
      rw [if_pos hshort]
      rfl
    · obtain ⟨n1, c1, rfl⟩ := exists_block_append (n := nonceLen) (b := innerFramed) (by omega)
      have hc1 : tagLen ≤ c1.length := by
        rw [List.length_append, Block.length_bytes] at hshort
        omega
      exact .inr ⟨n1, n2, c1, c2, rfl, houter, openBytes_of_outer hc2 hc1 houter⟩
  · exact .inl ⟨.idMismatch id found, by simp [openBytes, hparse, hid, Fallible.raise]⟩

/-- No byte string makes the decoder slice out of range. -/
theorem openBytes_ne_panic (id : Uuid) (innerKek outerKek : Key) (blob : Bytes) :
    openBytes P id innerKek outerKek blob ≠ .error .panic := by
  rcases openBytes_cases (P := P) id innerKek outerKek blob with
    ⟨e, he⟩ | ⟨n1, n2, c1, c2, _, _, hopen⟩
  · rw [he]
    simp
  · rw [hopen]
    cases P.aead.dec (deriveSecretInnerKey P innerKek id) n1 (buildHeader id) c1 <;> simp

/-- Opening accepts exactly the envelopes. -/
theorem openBytes_eq_ok_iff (hexact : P.aead.Exact) (htagged : P.aead.Tagged tagLen)
    (id : Uuid) (innerKek outerKek : Key) (plaintext blob : Bytes) :
    openBytes P id innerKek outerKek blob = .ok plaintext ↔
      Sealed P id innerKek outerKek plaintext blob := by
  constructor
  · intro h
    rcases openBytes_cases (P := P) id innerKek outerKek blob with
      ⟨e, he⟩ | ⟨n1, n2, c1, c2, hblob, houter, hopen⟩
    · rw [he] at h
      cases h
    · rw [hopen, Fallible.ofOption_eq_ok_iff] at h
      exact ⟨n1, n2, c1, c2, (hexact ..).mp h, (hexact ..).mp houter, hblob⟩
  · rintro ⟨n1, n2, c1, c2, hinner, houter, rfl⟩
    rw [openBytes_of_outer (htagged _ _ _ _ _ houter) (htagged _ _ _ _ _ hinner)
      (hexact.dec_enc houter), hexact.dec_enc hinner]
    rfl

/-- **`open` accepts exactly what `seal` produces.** The decoder never slices
out of range; it returns a plaintext exactly when two nonces exist under which
the encoder makes this very byte string of it; and it rejects every other byte
string with an error. -/
theorem openBytes_accepts_exactly_sealBytes (P : Primitives) (hexact : P.aead.Exact)
    (htagged : P.aead.Tagged tagLen) (id : Uuid) (innerKek outerKek : Key) (blob : Bytes) :
    openBytes P id innerKek outerKek blob ≠ .error .panic ∧
    (∀ plaintext, openBytes P id innerKek outerKek blob = .ok plaintext ↔
      ∃ n1 n2 : Nonce,
        sealBytes P ⟨.ok n1, .ok n2⟩ id innerKek outerKek plaintext = .ok blob) ∧
    ((∀ plaintext, ∀ n1 n2 : Nonce,
        sealBytes P ⟨.ok n1, .ok n2⟩ id innerKek outerKek plaintext ≠ .ok blob) →
      ∃ e, openBytes P id innerKek outerKek blob = .error (.error e)) := by
  have haccepts : ∀ plaintext, openBytes P id innerKek outerKek blob = .ok plaintext ↔
      ∃ n1 n2 : Nonce,
        sealBytes P ⟨.ok n1, .ok n2⟩ id innerKek outerKek plaintext = .ok blob := by
    intro plaintext
    rw [openBytes_eq_ok_iff hexact htagged, sealed_iff_exists_nonces]
  refine ⟨openBytes_ne_panic id innerKek outerKek blob, haccepts, ?_⟩
  intro hnone
  rcases hopen : openBytes P id innerKek outerKek blob with fault | plaintext
  · cases fault with
    | error e => exact ⟨e, rfl⟩
    | panic => exact absurd hopen (openBytes_ne_panic id innerKek outerKek blob)
  · obtain ⟨n1, n2, hseal⟩ := (haccepts plaintext).mp hopen
    exact absurd hseal (hnone plaintext n1 n2)

/-- The envelope of two bytes opens to them; the empty byte string is rejected. -/
theorem openBytes_accepts_exactly_reference :
    ∃ blob, sealBytes Primitives.reference
        ⟨.ok (Block.replicate 24 1), .ok (Block.replicate 24 2)⟩ (Block.replicate 16 3)
        (Block.replicate keyLen 4) (Block.replicate keyLen 5) [6, 7] = .ok blob ∧
      openBytes Primitives.reference (Block.replicate 16 3) (Block.replicate keyLen 4)
        (Block.replicate keyLen 5) blob = .ok [6, 7] ∧
      openBytes Primitives.reference (Block.replicate 16 3) (Block.replicate keyLen 4)
        (Block.replicate keyLen 5) [] = .error (.error (.truncated 0)) := by
  obtain ⟨blob, hseal⟩ : ∃ blob, sealBytes Primitives.reference
      ⟨.ok (Block.replicate 24 1), .ok (Block.replicate 24 2)⟩ (Block.replicate 16 3)
      (Block.replicate keyLen 4) (Block.replicate keyLen 5) [6, 7] = .ok blob := ⟨_, rfl⟩
  have hopen := (openBytes_accepts_exactly_sealBytes Primitives.reference
    Aead.framed_exact Primitives.reference_tagged (Block.replicate 16 3)
    (Block.replicate keyLen 4) (Block.replicate keyLen 5) blob).2.1 [6, 7]
  exact ⟨blob, hseal, hopen.mpr ⟨_, _, hseal⟩, rfl⟩

end Sealed

end Sypherstore
