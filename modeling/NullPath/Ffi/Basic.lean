import NullPath.Channel.Atomic

/-!
# The channel calls of the C ABI

A call across the boundary takes raw pointers. A pointer is an `Option`, `none`
when it is null; a byte buffer is its bytes, and the caller's output buffer comes
with the length that the caller declares for it. A call returns a code and may
write to the channel, to the output buffer and to the declared length.

`channelSend` and `channelReceive` are the two calls behind their null checks.
Both run the channel first and look at the declared length afterwards.
-/

namespace NullPath

abbrev maxNPaths : ℕ := 64

/-- A raw pointer: `none` is null. -/
abbrev Ptr (α : Type*) := Option α

/-- The return codes of the C ABI. -/
inductive ReturnCode
  | OK
  | NULL_POINTER
  | INVALID_PAYLOAD
  | AUTHENTICATION_FAILED
  | CRYPTO_FAILURE
  | BUFFER_TOO_SMALL
  | INVALID_SEQUENCE
  | REPLAYED_SEQUENCE
  | SKIPPED_KEY_EXPIRED
  | INVALID_MESSAGE_ID
  | PANIC
  deriving DecidableEq, Repr

namespace ReturnCode

/-- The number that the host sees. -/
def toInt : ReturnCode → ℤ
  | OK => 0
  | NULL_POINTER => -1
  | INVALID_PAYLOAD => -2
  | AUTHENTICATION_FAILED => -3
  | CRYPTO_FAILURE => -4
  | BUFFER_TOO_SMALL => -5
  | INVALID_SEQUENCE => -6
  | REPLAYED_SEQUENCE => -7
  | SKIPPED_KEY_EXPIRED => -8
  | INVALID_MESSAGE_ID => -9
  | PANIC => -99

theorem toInt_injective : Function.Injective toInt := by
  intro a b h
  cases a <;> cases b <;> first | rfl | cases h

/-- How an error of `send` is reported. -/
def ofSendError : ChannelError → ReturnCode
  | .InvalidMessageId => INVALID_MESSAGE_ID
  | .InvalidSequence => INVALID_SEQUENCE
  | _ => CRYPTO_FAILURE

/-- How an error of `receive` is reported. -/
def ofReceiveError : ChannelError → ReturnCode
  | .ReplayedSequence => REPLAYED_SEQUENCE
  | .SkippedKeyExpired => SKIPPED_KEY_EXPIRED
  | .InvalidSequence => INVALID_SEQUENCE
  | .InvalidMessageId => INVALID_MESSAGE_ID
  | .AuthenticationFailed => AUTHENTICATION_FAILED
  | _ => CRYPTO_FAILURE

@[simp] theorem ofSendError_ne_ok (e : ChannelError) : ofSendError e ≠ OK := by
  cases e <;> simp [ofSendError]

@[simp] theorem ofReceiveError_ne_ok (e : ChannelError) : ofReceiveError e ≠ OK := by
  cases e <;> simp [ofReceiveError]

@[simp] theorem ofReceiveError_ne_bufferTooSmall (e : ChannelError) :
    ofReceiveError e ≠ BUFFER_TOO_SMALL := by
  cases e <;> simp [ofReceiveError]

end ReturnCode

/-- What a call leaves behind: its code, the channel, the output buffer and the
length it declares. -/
structure AbiResult (κ : Type*) where
  code : ReturnCode
  channel : SecureChannel κ
  out : List UInt8
  outLen : ℕ

/-- The copy loop of `decoypath_channel_send`: envelope `i` goes to offset
`i * ENVELOPE_TOTAL_LEN`. -/
def copyEnvelopes (out : List UInt8) : ℕ → List Envelope → List UInt8
  | _, [] => out
  | i, env :: rest =>
      copyEnvelopes (overwrite out (i * envelopeTotalLen) env.toList) (i + 1) rest

/-- The chunking loop of `decoypath_channel_receive`: chunk `i` is read at offset
`i * ENVELOPE_TOTAL_LEN`. -/
def chunkEnvelopes (envelopes : List UInt8) : List Envelope :=
  List.ofFn fun i : Fin (envelopes.length / envelopeTotalLen) =>
    ⟨envelopes.extract (i * envelopeTotalLen) (i * envelopeTotalLen + envelopeTotalLen), by
      have hi : (i : ℕ) + 1 ≤ envelopes.length / envelopeTotalLen := i.isLt
      have hend : ((i : ℕ) + 1) * envelopeTotalLen ≤ envelopes.length :=
        (Nat.mul_le_mul_right _ hi).trans (Nat.div_mul_le_self _ _)
      rw [List.extract_eq_take_drop, List.length_take, List.length_drop]
      simp only [envelopeTotalLen] at hend ⊢
      omega⟩

section Calls

variable {κ : Type*} (P : Primitives) (K : KeyOps κ)

/-- `decoypath_channel_send` behind its null checks. -/
def channelSend (channel : SecureChannel κ) (coins : SendCoins)
    (payload messageId out : List UInt8) (outLen : ℕ) : AbiResult κ :=
  if payload.length > maxPayloadSize then
    { code := .INVALID_PAYLOAD, channel := channel, out := out, outLen := outLen }
  else if messageId.length > maxMessageIdLen then
    { code := .INVALID_MESSAGE_ID, channel := channel, out := out, outLen := outLen }
  else
    match channel.send P K coins payload messageId with
    | (.error e, channel') =>
        { code := .ofSendError e, channel := channel', out := out, outLen := outLen }
    | (.ok envelopes, channel') =>
        let requiredLen := envelopes.length * envelopeTotalLen
        if outLen < requiredLen then
          -- The channel has already moved on.
          { code := .BUFFER_TOO_SMALL, channel := channel', out := out, outLen := requiredLen }
        else
          { code := .OK, channel := channel', out := copyEnvelopes out 0 envelopes,
            outLen := requiredLen }

/-- The lengths of an envelope buffer that `decoypath_channel_receive` refuses. -/
def InvalidBufferLen (len : ℕ) : Prop :=
  len = 0 ∨ len % envelopeTotalLen ≠ 0 ∨ len > maxNPaths * envelopeTotalLen

instance decidableInvalidBufferLen (len : ℕ) : Decidable (InvalidBufferLen len) :=
  inferInstanceAs (Decidable (_ ∨ _ ∨ _))

/-- `decoypath_channel_receive` behind its null checks. -/
def channelReceive (channel : SecureChannel κ) (now : Instant) (envelopes : List UInt8)
    (seq : UInt64) (messageId out : List UInt8) (outLen : ℕ) : AbiResult κ :=
  if messageId.length > maxMessageIdLen then
    { code := .INVALID_MESSAGE_ID, channel := channel, out := out, outLen := outLen }
  else if InvalidBufferLen envelopes.length then
    { code := .INVALID_PAYLOAD, channel := channel, out := out, outLen := outLen }
  else
    match channel.receive P K now (chunkEnvelopes envelopes) seq messageId with
    | (.error e, channel') =>
        { code := .ofReceiveError e, channel := channel', out := out, outLen := outLen }
    | (.ok decrypted, channel') =>
        if outLen < decrypted.length then
          -- The packet has already been accepted.
          { code := .BUFFER_TOO_SMALL, channel := channel', out := out,
            outLen := decrypted.length }
        else
          { code := .OK, channel := channel', out := overwrite out 0 decrypted,
            outLen := decrypted.length }

/-- The null checks of `decoypath_channel_send`: nothing is written when a pointer
is null. -/
def decoypathChannelSend (channel : Ptr (SecureChannel κ)) (coins : SendCoins)
    (payload messageId outEnvelopes : Ptr (List UInt8)) (outEnvelopesLen : Ptr ℕ) :
    ReturnCode × Option (AbiResult κ) :=
  match channel, payload, messageId, outEnvelopes, outEnvelopesLen with
  | some channel, some payload, some messageId, some out, some outLen =>
      let result := channelSend P K channel coins payload messageId out outLen
      (result.code, some result)
  | _, _, _, _, _ => (.NULL_POINTER, none)

/-- The null checks of `decoypath_channel_receive`. -/
def decoypathChannelReceive (channel : Ptr (SecureChannel κ)) (now : Instant)
    (envelopes : Ptr (List UInt8)) (seq : UInt64) (messageId outPayload : Ptr (List UInt8))
    (outPayloadLen : Ptr ℕ) : ReturnCode × Option (AbiResult κ) :=
  match channel, envelopes, messageId, outPayload, outPayloadLen with
  | some channel, some envelopes, some messageId, some out, some outLen =>
      let result := channelReceive P K channel now envelopes seq messageId out outLen
      (result.code, some result)
  | _, _, _, _, _ => (.NULL_POINTER, none)

end Calls

end NullPath
