import NullPath.Channel.Counter

/-!
# Atomic sends

`send` advances the ratchet before its last fallible call. It is atomic all the
same: what it refuses is refused before the advance (`send_of_refused`), and
what passes is never refused afterwards (`send_of_sendable`), because the
selected slot is a path and the payload of a decoy fits.
-/

namespace NullPath

variable {κ : Type*} {K : KeyOps κ} {P : Primitives}

/-- What `send` accepts: a short message id, at least one path, and a payload
that fits. -/
structure Sendable (channel : SecureChannel κ) (payload messageId : List UInt8) : Prop where
  messageId_le : messageId.length ≤ maxMessageIdLen
  nPaths_ne_zero : channel.nPaths ≠ 0
  payload_le : payload.length ≤ maxPayloadSize

theorem not_sendable_iff {channel : SecureChannel κ} {payload messageId : List UInt8} :
    ¬ Sendable channel payload messageId ↔
      messageId.length > maxMessageIdLen ∨ channel.nPaths = 0 ∨
        payload.length > maxPayloadSize := by
  constructor
  · intro h
    by_contra hnone
    simp only [not_or, not_lt] at hnone
    exact h ⟨hnone.1, hnone.2.1, hnone.2.2⟩
  · rintro (hmessageId | hzero | hpayload) h
    · exact absurd h.messageId_le (Nat.not_le.2 hmessageId)
    · exact h.nPaths_ne_zero hzero
    · exact absurd h.payload_le (Nat.not_le.2 hpayload)

theorem length_constructAad (seq : UInt64) (messageId : List UInt8) :
    (constructAad seq messageId).length = 29 + messageId.length := by
  simp [constructAad, ascii]
  omega

theorem send_of_refused (channel : SecureChannel κ) (coins : SendCoins)
    {payload messageId : List UInt8} (h : ¬ Sendable channel payload messageId) :
    ∃ e, channel.send P K coins payload messageId = (.error e, channel) := by
  unfold SecureChannel.send
  by_cases hmessageId : messageId.length > maxMessageIdLen
  · exact ⟨_, by rw [if_pos hmessageId]⟩
  rw [if_neg hmessageId]
  cases hslot : selectSlot P (K.bytes channel.currentKey).toList messageId channel.nPaths with
  | error e => exact ⟨_, rfl⟩
  | ok validSlot =>
      have hpaths : channel.nPaths ≠ 0 := Nat.ne_zero_of_lt (selectSlot_lt hslot)
      have hpayload : payload.length > maxPayloadSize := by
        rcases not_sendable_iff.1 h with hlong | hzero | hlong
        · exact absurd hlong hmessageId
        · exact absurd hzero hpaths
        · exact hlong
      refine ⟨.AuthenticationFailed, ?_⟩
      simp only [Envelope.seal, hpayload, dite_true]

/-- What is accepted is sealed and distributed, and the channel moves on. -/
theorem send_of_sendable (hencrypt : P.EncryptTotalUpTo 285) (hmac : P.HmacTotal)
    {channel : SecureChannel κ} (coins : SendCoins) {payload messageId : List UInt8}
    (h : Sendable channel payload messageId) :
    ∃ slots, Sends P (K.bytes channel.currentKey) (nextSendSeq channel.sendSeq)
        channel.nPaths coins payload messageId slots ∧
      channel.send P K coins payload messageId = (.ok slots, advanceSender K channel) := by
  have hencrypts : P.EncryptsWith (constructAad (nextSendSeq channel.sendSeq) messageId) := by
    apply hencrypt
    rw [length_constructAad]
    have hmessageId := h.messageId_le
    simp only [maxMessageIdLen] at hmessageId
    omega
  obtain ⟨validSlot, hslot⟩ := exists_selectSlot hmac (K.bytes channel.currentKey) messageId
    h.nPaths_ne_zero
  obtain ⟨realEnvelope, hseal⟩ := exists_seal hencrypts coins.realCoins
    (K.bytes channel.currentKey) payload h.payload_le
  have hexists : ∃ slots, generateMultiPathSlots P coins.decoyCoins realEnvelope validSlot
      channel.nPaths (constructAad (nextSendSeq channel.sendSeq) messageId) = .ok slots :=
    exists_slots hencrypts (selectSlot_lt hslot)
  obtain ⟨slots, hslots⟩ := hexists
  refine ⟨slots, ⟨h.messageId_le, validSlot, realEnvelope, hslot, hseal, hslots⟩, ?_⟩
  unfold SecureChannel.send
  rw [if_neg (Nat.not_lt.2 h.messageId_le)]
  simp only [hslot, hseal, hslots, advanceSender]

/-- **Atomic send.** A `send` fails exactly for a message id over 256 bytes,
without paths, or for a payload over 992 bytes, and a `send` that fails leaves
every field of the channel as it was. -/
theorem send_atomic {P : Primitives} (hencrypt : P.EncryptTotalUpTo 285) (hmac : P.HmacTotal)
    (channel : SecureChannel RatchetKey) (coins : SendCoins) (payload messageId : List UInt8) :
    let result := channel.send P (RatchetKey.ops P) coins payload messageId
    ((∃ e, result.1 = .error e) ↔
      messageId.length > maxMessageIdLen ∨ channel.nPaths = 0 ∨
        payload.length > maxPayloadSize) ∧
    ((∃ e, result.1 = .error e) → result.2 = channel) := by
  intro result
  by_cases hsendable : Sendable channel payload messageId
  · obtain ⟨slots, _, hsend⟩ := send_of_sendable (K := RatchetKey.ops P) hencrypt hmac coins
      hsendable
    have hok : ¬ ∃ e, result.1 = .error e := by
      rintro ⟨e, herror⟩
      rw [show result = _ from hsend] at herror
      cases herror
    exact ⟨iff_of_false hok fun h => not_sendable_iff.2 h hsendable, fun h => absurd h hok⟩
  · obtain ⟨e, hsend⟩ := send_of_refused (P := P) (K := RatchetKey.ops P) channel coins hsendable
    have hresult : result = (.error e, channel) := hsend
    rw [hresult]
    exact ⟨iff_of_true ⟨e, rfl⟩ (not_sendable_iff.1 hsendable), fun _ => rfl⟩

/-- A message id of 257 bytes is refused and leaves a channel that has already
sent a message as it was. -/
theorem long_message_id_unsent :
    let channel := runChannel counterPrimitives (RatchetKey.ops counterPrimitives)
      (counterKey 0) 2 [.send (counterSend [10] [1])]
    let args := counterSend [11] (List.replicate 257 0)
    (channel.send counterPrimitives (RatchetKey.ops counterPrimitives) args.coins args.payload
      args.messageId).2 = channel := by
  intro channel args
  obtain ⟨hfails, hunchanged⟩ := send_atomic (counter_encryptTotalUpTo 285) counter_hmacTotal
    channel args.coins args.payload args.messageId
  have hlong : maxMessageIdLen < (List.replicate 257 (0 : UInt8)).length := by
    rw [List.length_replicate]
    decide
  exact hunchanged (hfails.2 (Or.inl hlong))

end NullPath
