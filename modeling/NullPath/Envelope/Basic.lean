import NullPath.Crypto.Primitives

/-!
# Message envelopes

An envelope is 1024 bytes: nonce, ciphertext and tag. The plaintext under the
ciphertext is 996 bytes: version, flags, a big-endian payload length, the
payload and padding. `seal` fills both buffers offset by offset and `open`
cuts them at the same offsets; `plaintextBuffer_eq` and `packEnvelope_eq` say
that the filled buffers are the concatenations of their parts.

The random bytes that `seal` draws are passed in as `SealCoins`.
-/

namespace NullPath

abbrev envelopeTotalLen : ℕ := 1024

abbrev maxPayloadSize : ℕ := 992

abbrev nonceLen : ℕ := 12

abbrev ciphertextLen : ℕ := 996

abbrev Envelope := Bytes envelopeTotalLen

/-- The bytes that one `seal` draws from the random generator. -/
structure SealCoins where
  nonceBytes : Bytes 12
  padding : Bytes 992

/-- Version, flags, length, payload and padding, written at their offsets. -/
def plaintextBuffer (payload padding : List UInt8) : List UInt8 :=
  let plaintext := List.replicate plaintextLen 0
  let plaintext := overwrite plaintext 0 [0x01]
  let plaintext := overwrite plaintext 1 [0x00]
  let plaintext := overwrite plaintext 2 (beBytes 2 payload.length)
  let plaintext := overwrite plaintext 4 payload
  if 4 + payload.length < plaintextLen then
    overwrite plaintext (4 + payload.length)
      (padding.take (plaintextLen - (4 + payload.length)))
  else
    plaintext

theorem plaintextBuffer_eq {payload padding : List UInt8}
    (h : payload.length ≤ maxPayloadSize) (hpadding : padding.length = 992) :
    plaintextBuffer payload padding =
      [0x01, 0x00] ++ beBytes 2 payload.length ++ payload ++
        padding.take (992 - payload.length) := by
  simp only [maxPayloadSize] at h
  unfold plaintextBuffer
  simp only [plaintextLen]
  rw [overwrite_zeros_start, overwrite_zeros (by rfl), overwrite_zeros (by rfl),
    overwrite_zeros (by simp)]
  simp only [List.length_cons, List.length_nil, length_beBytes]
  split_ifs with hroom
  · rw [overwrite_zeros (by simp; omega), List.length_take, hpadding,
      show 996 - (0 + 1) - (0 + 1) - 2 - payload.length -
        min (996 - (4 + payload.length)) 992 = 0 by omega,
      show 996 - (4 + payload.length) = 992 - payload.length by omega]
    simp
  · have hfull : 992 - payload.length = 0 := by omega
    rw [hfull]
    simp

theorem length_plaintextBuffer {payload padding : List UInt8}
    (h : payload.length ≤ maxPayloadSize) (hpadding : padding.length = 992) :
    (plaintextBuffer payload padding).length = plaintextLen := by
  rw [plaintextBuffer_eq h hpadding]
  simp only [List.length_append, List.length_cons, List.length_nil, length_beBytes,
    List.length_take, hpadding, plaintextLen]
  simp only [maxPayloadSize] at h
  omega

/-- Nonce, ciphertext and tag, written at their offsets. -/
def packEnvelope (nonceBytes : Bytes 12) (ciphertext : Bytes plaintextLen) (tag : Bytes 16) :
    List UInt8 :=
  let envelope := List.replicate envelopeTotalLen 0
  let envelope := overwrite envelope 0 nonceBytes.toList
  let envelope := overwrite envelope nonceLen ciphertext.toList
  overwrite envelope (nonceLen + ciphertextLen) tag.toList

theorem packEnvelope_eq (nonceBytes : Bytes 12) (ciphertext : Bytes plaintextLen)
    (tag : Bytes 16) :
    packEnvelope nonceBytes ciphertext tag =
      nonceBytes.toList ++ ciphertext.toList ++ tag.toList := by
  simp only [packEnvelope]
  rw [overwrite_zeros_start, overwrite_zeros (by simp), overwrite_zeros (by simp)]
  simp [envelopeTotalLen, plaintextLen]

theorem length_packEnvelope (nonceBytes : Bytes 12) (ciphertext : Bytes plaintextLen)
    (tag : Bytes 16) :
    (packEnvelope nonceBytes ciphertext tag).length = envelopeTotalLen := by
  rw [packEnvelope_eq]
  simp [envelopeTotalLen, plaintextLen]

/-- Seal a payload into an envelope. -/
def Envelope.seal (P : Primitives) (coins : SealCoins) (key : Bytes 32)
    (payload aad : List UInt8) : Except EnvelopeError Envelope :=
  if h : payload.length > maxPayloadSize then
    .error .PayloadTooLarge
  else
    let plaintext : Bytes plaintextLen := ⟨plaintextBuffer payload coins.padding.toList,
      length_plaintextBuffer (Nat.le_of_not_gt h) coins.padding.toList_length⟩
    match P.encryptInPlaceDetached key coins.nonceBytes aad plaintext with
    | none => .error .EncryptionFailure
    | some (ciphertext, tag) =>
        .ok ⟨packEnvelope coins.nonceBytes ciphertext tag, length_packEnvelope _ _ _⟩

/-- Authenticate an envelope and return its payload. -/
def Envelope.open (P : Primitives) (key : Bytes 32) (envelope : Envelope) (aad : List UInt8) :
    Except EnvelopeError (List UInt8) :=
  let nonceBytes : Bytes 12 := envelope.slice 0 nonceLen (by decide)
  let ciphertextBytes : Bytes plaintextLen :=
    envelope.slice nonceLen (nonceLen + ciphertextLen) (by decide)
  let tagBytes : Bytes 16 :=
    envelope.slice (nonceLen + ciphertextLen) envelopeTotalLen (by decide)
  match P.decryptInPlaceDetached key nonceBytes aad ciphertextBytes tagBytes with
  | none => .error .DecryptionFailure
  | some buffer =>
      if buffer.head ≠ 0x01 then
        .error .InvalidFormat
      else
        let payloadLen := ofBeBytes (buffer.toList.extract 2 4)
        if payloadLen > maxPayloadSize then
          .error .InvalidFormat
        else
          .ok (buffer.toList.extract 4 (4 + payloadLen))

/-- The envelope authenticates, and `buffer` is the plaintext inside. -/
def Decrypts (P : Primitives) (key : Bytes 32) (aad : List UInt8) (envelope : Envelope)
    (buffer : Bytes plaintextLen) : Prop :=
  P.decryptInPlaceDetached key (envelope.slice 0 nonceLen (by decide)) aad
    (envelope.slice nonceLen (nonceLen + ciphertextLen) (by decide))
    (envelope.slice (nonceLen + ciphertextLen) envelopeTotalLen (by decide)) = some buffer

end NullPath
