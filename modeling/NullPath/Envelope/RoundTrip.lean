import NullPath.Envelope.Basic

/-!
# Opening a sealed envelope

`open` under the key and associated data of a `seal` returns the payload that
was sealed, whatever the nonce and the padding were. The argument follows the
two layouts: the envelope splits back into nonce, ciphertext and tag, and the
decrypted buffer splits back into header, payload and padding.
-/

namespace NullPath

/-- What a successful `seal` returns: the payload fits, and the envelope packs
the encryption of the plaintext buffer. -/
theorem seal_eq_ok {P : Primitives} {coins : SealCoins} {key : Bytes 32}
    {payload aad : List UInt8} {envelope : Envelope}
    (h : Envelope.seal P coins key payload aad = .ok envelope) :
    payload.length ≤ maxPayloadSize ∧
      ∃ (plaintext : Bytes plaintextLen) (ciphertext : Bytes plaintextLen) (tag : Bytes 16),
        plaintext.toList = plaintextBuffer payload coins.padding.toList ∧
          P.encryptInPlaceDetached key coins.nonceBytes aad plaintext = some (ciphertext, tag) ∧
            envelope.toList = packEnvelope coins.nonceBytes ciphertext tag := by
  unfold Envelope.seal at h
  split_ifs at h with hlen
  refine ⟨Nat.le_of_not_gt hlen, ?_⟩
  simp only at h
  split at h
  · cases h
  · rename_i ciphertext tag hencrypt
    cases h
    exact ⟨_, ciphertext, tag, rfl, hencrypt, rfl⟩

theorem exists_seal {P : Primitives} {aad : List UInt8} (hencrypt : P.EncryptsWith aad)
    (coins : SealCoins) (key : Bytes 32) (payload : List UInt8)
    (h : payload.length ≤ maxPayloadSize) :
    ∃ envelope, Envelope.seal P coins key payload aad = .ok envelope := by
  unfold Envelope.seal
  rw [dif_neg (Nat.not_lt.2 h)]
  simp only
  split
  · rename_i hnone
    have hsome := hencrypt key coins.nonceBytes
      ⟨plaintextBuffer payload coins.padding.toList,
        length_plaintextBuffer h coins.padding.toList_length⟩
    rw [hnone] at hsome
    cases hsome
  · exact ⟨_, rfl⟩

theorem head_eq_iff {n : ℕ} {v : Bytes (n + 1)} {x : UInt8} :
    v.head = x ↔ v.toList[0]? = some x := by
  obtain ⟨bytes, hbytes⟩ := v
  cases bytes with
  | nil => cases hbytes
  | cons first rest =>
      change first = x ↔ some first = some x
      rw [Option.some.injEq]

theorem open_of_decrypts {P : Primitives} {key : Bytes 32} {envelope : Envelope}
    {payload padding aad : List UInt8} {buffer : Bytes plaintextLen}
    (hlen : payload.length ≤ maxPayloadSize) (hpadding : padding.length = 992)
    (hbuffer : buffer.toList = plaintextBuffer payload padding)
    (hdecrypts : Decrypts P key aad envelope buffer) :
    Envelope.open P key envelope aad = .ok payload := by
  rw [plaintextBuffer_eq hlen hpadding] at hbuffer
  have hversion : buffer.head = 0x01 := head_eq_iff.2 (by rw [hbuffer]; rfl)
  have hlength : buffer.toList.extract 2 4 = beBytes 2 payload.length := by
    rw [hbuffer, List.append_assoc]
    exact extract_append_middle rfl (by simp)
  have hpayload : buffer.toList.extract 4 (4 + payload.length) = payload := by
    rw [hbuffer]
    exact extract_append_middle (by simp) rfl
  have hvalue : ofBeBytes (beBytes 2 payload.length) = payload.length := by
    apply ofBeBytes_beBytes
    exact lt_of_le_of_lt hlen (by decide)
  rw [Decrypts] at hdecrypts
  unfold Envelope.open
  simp only [hdecrypts, hversion, hlength, hvalue, hpayload]
  simp only [ne_eq, not_true_eq_false, if_false, if_neg (Nat.not_lt.2 hlen)]

theorem slices_of_packEnvelope {envelope : Envelope} {nonceBytes : Bytes 12}
    {ciphertext : Bytes plaintextLen} {tag : Bytes 16}
    (h : envelope.toList = packEnvelope nonceBytes ciphertext tag) :
    envelope.slice 0 nonceLen (by decide) = nonceBytes ∧
      envelope.slice nonceLen (nonceLen + ciphertextLen) (by decide) = ciphertext ∧
      envelope.slice (nonceLen + ciphertextLen) envelopeTotalLen (by decide) = tag := by
  rw [packEnvelope_eq] at h
  constructor
  · apply List.Vector.toList_injective
    rw [Bytes.toList_slice, h, List.append_assoc]
    exact @extract_append_middle _ [] _ _ _ _ rfl (by simp)
  constructor
  · apply List.Vector.toList_injective
    rw [Bytes.toList_slice, h]
    exact extract_append_middle (by simp) (by simp)
  · apply List.Vector.toList_injective
    rw [Bytes.toList_slice, h,
      ← List.append_nil (nonceBytes.toList ++ ciphertext.toList ++ tag.toList)]
    exact extract_append_middle (by simp)
      (congrArg (nonceLen + ciphertextLen + ·) tag.toList_length)

theorem decrypts_of_seal {P : Primitives} (hdecrypt : P.DecryptUndoes) {coins : SealCoins}
    {key : Bytes 32} {payload aad : List UInt8} {envelope : Envelope}
    (h : Envelope.seal P coins key payload aad = .ok envelope) :
    payload.length ≤ maxPayloadSize ∧
      ∃ buffer, buffer.toList = plaintextBuffer payload coins.padding.toList ∧
        Decrypts P key aad envelope buffer := by
  obtain ⟨hlen, plaintext, ciphertext, tag, hplaintext, hencrypt, henvelope⟩ := seal_eq_ok h
  obtain ⟨hnonce, hciphertext, htag⟩ := slices_of_packEnvelope henvelope
  refine ⟨hlen, plaintext, hplaintext, ?_⟩
  rw [Decrypts, hnonce, hciphertext, htag]
  exact hdecrypt _ _ _ _ _ _ hencrypt

/-- Opening what was sealed, under the same key and associated data, returns
the payload. -/
theorem open_seal {P : Primitives} (hdecrypt : P.DecryptUndoes) {coins : SealCoins}
    {key : Bytes 32} {payload aad : List UInt8} {envelope : Envelope}
    (h : Envelope.seal P coins key payload aad = .ok envelope) :
    Envelope.open P key envelope aad = .ok payload := by
  obtain ⟨hlen, buffer, hbuffer, hdecrypts⟩ := decrypts_of_seal hdecrypt h
  exact open_of_decrypts hlen coins.padding.toList_length hbuffer hdecrypts

end NullPath
