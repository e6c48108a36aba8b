import NullPath.Ffi.Basic
import NullPath.Transition.Trace

/-!
# Numbering sends by counting

The C ABI never returns the number of a message, so a host counts the calls that
return `OK`. The count is right as long as every call that sends also returns
`OK`. `decoypath_channel_send` compares the declared length with the length it
needs after the channel has sent, so a call with a short buffer uses up a number.
`numbered_iff` says that these calls are the only ones that break the count.
-/

namespace NullPath

open Transition

variable {κ : Type*} {P : Primitives} {K : KeyOps κ}

/-! ## The output buffer -/

theorem copyEnvelopes_append {filled rest : List UInt8} {i : ℕ} (envelopes : List Envelope)
    (h : filled.length = i * envelopeTotalLen) :
    copyEnvelopes (filled ++ rest) i envelopes =
      filled ++ envelopes.flatMap List.Vector.toList ++
        rest.drop (envelopes.length * envelopeTotalLen) := by
  induction envelopes generalizing filled rest i with
  | nil => simp [copyEnvelopes]
  | cons env envelopes ih =>
      have hfilled : (filled ++ env.toList).length = (i + 1) * envelopeTotalLen := by
        rw [List.length_append, h, env.toList_length, Nat.succ_mul]
      rw [copyEnvelopes, overwrite_append h, ih hfilled, List.drop_drop, env.toList_length,
        List.length_cons, Nat.succ_mul, Nat.add_comm envelopeTotalLen]
      simp

theorem copyEnvelopes_eq (out : List UInt8) (envelopes : List Envelope) :
    copyEnvelopes out 0 envelopes = envelopes.flatMap List.Vector.toList ++
      out.drop (envelopes.length * envelopeTotalLen) := by
  have hcopy := @copyEnvelopes_append [] out 0 envelopes rfl
  simpa using hcopy

theorem length_flatMap_toList (envelopes : List Envelope) :
    (envelopes.flatMap List.Vector.toList).length = envelopes.length * envelopeTotalLen := by
  induction envelopes with
  | nil => simp
  | cons env envelopes ih =>
      rw [List.flatMap_cons, List.length_append, ih, env.toList_length, List.length_cons,
        Nat.succ_mul, Nat.add_comm]

/-! ## One call -/

theorem Sends.length_slots {key : Bytes 32} {seq : UInt64} {nPaths : ℕ} {coins : SendCoins}
    {payload messageId : List UInt8} {slots : List Envelope}
    (h : Sends P key seq nPaths coins payload messageId slots) : slots.length = nPaths := by
  obtain ⟨validSlot, realEnvelope, _, _, hslots⟩ := h.seals
  exact slots_length hslots

section Send

variable {channel : SecureChannel κ} {payload messageId : List UInt8}

theorem channelSend_of_refused (coins : SendCoins) (out : List UInt8) (outLen : ℕ)
    (h : ¬ Sendable channel payload messageId) :
    let result := channelSend P K channel coins payload messageId out outLen
    result.code ≠ .OK ∧ result.channel = channel := by
  unfold channelSend
  by_cases hpayload : payload.length > maxPayloadSize
  · simp [hpayload]
  by_cases hmessageId : messageId.length > maxMessageIdLen
  · simp [hpayload, hmessageId]
  obtain ⟨e, hsend⟩ := send_of_refused (P := P) (K := K) channel coins h
  simp [hpayload, hmessageId, hsend]

theorem channelSend_of_sendable (hencrypt : P.EncryptTotalUpTo 285) (hmac : P.HmacTotal)
    (coins : SendCoins) (out : List UInt8) (outLen : ℕ)
    (h : Sendable channel payload messageId) :
    ∃ slots, Sends P (K.bytes channel.currentKey) (nextSendSeq channel.sendSeq)
        channel.nPaths coins payload messageId slots ∧
      channelSend P K channel coins payload messageId out outLen =
        if outLen < channel.nPaths * envelopeTotalLen then
          ⟨.BUFFER_TOO_SMALL, advanceSender K channel, out, channel.nPaths * envelopeTotalLen⟩
        else ⟨.OK, advanceSender K channel, copyEnvelopes out 0 slots,
          channel.nPaths * envelopeTotalLen⟩ := by
  obtain ⟨slots, hsends, hsend⟩ := send_of_sendable (K := K) hencrypt hmac coins h
  refine ⟨slots, hsends, ?_⟩
  unfold channelSend
  rw [if_neg (Nat.not_lt.2 h.payload_le), if_neg (Nat.not_lt.2 h.messageId_le), hsend]
  simp only [hsends.length_slots]

theorem advanceSender_ne (channel : SecureChannel κ) : advanceSender K channel ≠ channel := by
  intro heq
  have hsendSeq := congrArg SecureChannel.sendSeq heq
  simp only [advanceSender] at hsendSeq
  cases hnone : channel.sendSeq with
  | none =>
      rw [hnone] at hsendSeq
      cases hsendSeq
  | some s =>
      rw [hnone, nextSendSeq, Option.some.injEq] at hsendSeq
      simp at hsendSeq

end Send

/-! ## Runs of sends -/

/-- The arguments of one `decoypath_channel_send`. -/
structure AbiSendArgs extends SendArgs where
  out : List UInt8
  outLen : ℕ

def abiSendStep (P : Primitives) (K : KeyOps κ) (channel : SecureChannel κ)
    (args : AbiSendArgs) : AbiResult κ × SecureChannel κ :=
  let result := channelSend P K channel args.coins args.payload args.messageId args.out
    args.outLen
  (result, result.channel)

abbrev AbiSendEvent (κ : Type*) := Event (SecureChannel κ) AbiSendArgs (AbiResult κ)

/-- The calls that the host counts. -/
def counted (events : List (AbiSendEvent κ)) : List (AbiSendEvent κ) :=
  events.filter fun event => event.output.code = .OK

theorem counted_concat_of_ok (events : List (AbiSendEvent κ)) {e : AbiSendEvent κ}
    (h : e.output.code = .OK) : counted (events ++ [e]) = counted events ++ [e] := by
  simp [counted, h]

theorem counted_concat_of_not_ok (events : List (AbiSendEvent κ)) {e : AbiSendEvent κ}
    (h : e.output.code ≠ .OK) : counted (events ++ [e]) = counted events := by
  simp [counted, h]

/-- The call emitted the envelopes of a send under this number. -/
def Emits (P : Primitives) (K : KeyOps κ) (event : AbiSendEvent κ) (seq : UInt64) : Prop :=
  ∃ slots, Sends P (K.bytes event.before.currentKey) seq event.before.nPaths
      event.input.coins event.input.payload event.input.messageId slots ∧
    event.output.out.take event.output.outLen = slots.flatMap List.Vector.toList

/-- Counting gives the numbers: the calls that return `OK` emit envelopes under the
numbers 0, 1, 2 and so on, and every other call leaves the channel as it was. -/
structure NumberedByCounting (P : Primitives) (K : KeyOps κ)
    (events : List (AbiSendEvent κ)) : Prop where
  emits : ∀ (i : ℕ) event, (counted events)[i]? = some event →
    Emits P K event (UInt64.ofNat i)
  unchanged : ∀ event ∈ events, event.output.code ≠ .OK →
    event.output.channel = event.before

/-- A call that cannot use up a number: the channel would refuse it, or the declared
length suffices. -/
def KeepsCount (nPaths : ℕ) (args : AbiSendArgs) : Prop :=
  args.payload.length > maxPayloadSize ∨ args.messageId.length > maxMessageIdLen ∨
    nPaths = 0 ∨ nPaths * envelopeTotalLen ≤ args.outLen

theorem abiSendStep_nPaths (hencrypt : P.EncryptTotalUpTo 285) (hmac : P.HmacTotal)
    (channel : SecureChannel κ) (args : AbiSendArgs) :
    (abiSendStep P K channel args).2.nPaths = channel.nPaths := by
  unfold abiSendStep
  by_cases hsendable : Sendable channel args.payload args.messageId
  · obtain ⟨slots, _, hresult⟩ := channelSend_of_sendable (K := K) hencrypt hmac args.coins
      args.out args.outLen hsendable
    rw [hresult]
    split_ifs <;> rfl
  · exact congrArg SecureChannel.nPaths
      (channelSend_of_refused args.coins args.out args.outLen hsendable).2

theorem abiSendStep_of_keepsCount (hencrypt : P.EncryptTotalUpTo 285) (hmac : P.HmacTotal)
    (channel : SecureChannel κ) {args : AbiSendArgs} (h : KeepsCount channel.nPaths args) :
    let result := abiSendStep P K channel args
    (result.1.code ≠ .OK ∧ result.2 = channel) ∨
      (result.1.code = .OK ∧ result.2 = advanceSender K channel ∧
        Emits P K (event (abiSendStep P K) channel args) (nextSendSeq channel.sendSeq)) := by
  intro result
  by_cases hsendable : Sendable channel args.payload args.messageId
  · obtain ⟨slots, hsends, hresult⟩ := channelSend_of_sendable (K := K) hencrypt hmac args.coins
      args.out args.outLen hsendable
    have hlength : channel.nPaths * envelopeTotalLen ≤ args.outLen := by
      rcases h with hpayload | hmessageId | hzero | hlength
      · exact absurd hsendable.payload_le (Nat.not_le.2 hpayload)
      · exact absurd hsendable.messageId_le (Nat.not_le.2 hmessageId)
      · exact absurd hzero hsendable.nPaths_ne_zero
      · exact hlength
    rw [if_neg (Nat.not_lt.2 hlength)] at hresult
    refine Or.inr ⟨congrArg AbiResult.code hresult, congrArg AbiResult.channel hresult,
      slots, hsends, ?_⟩
    have hout : (event (abiSendStep P K) channel args).output = _ := hresult
    rw [hout, copyEnvelopes_eq, ← hsends.length_slots, ← length_flatMap_toList,
      List.take_left]
  · exact Or.inl (channelSend_of_refused args.coins args.out args.outLen hsendable)

theorem abiSendStep_of_not_keepsCount (hencrypt : P.EncryptTotalUpTo 285) (hmac : P.HmacTotal)
    (channel : SecureChannel κ) {args : AbiSendArgs} (h : ¬ KeepsCount channel.nPaths args) :
    (abiSendStep P K channel args).1.code = .BUFFER_TOO_SMALL ∧
      (abiSendStep P K channel args).1.channel ≠ channel := by
  simp only [KeepsCount, not_or, not_lt, not_le] at h
  obtain ⟨hpayload, hmessageId, hzero, hlength⟩ := h
  obtain ⟨slots, _, hresult⟩ := channelSend_of_sendable (K := K) hencrypt hmac args.coins
    args.out args.outLen ⟨hmessageId, hzero, hpayload⟩
  rw [if_pos hlength] at hresult
  unfold abiSendStep
  rw [hresult]
  exact ⟨rfl, advanceSender_ne channel⟩

/-- While every call keeps the count, the counter of the channel is the count of the
host. -/
theorem numbered_of_keepsCount (hencrypt : P.EncryptTotalUpTo 285) (hmac : P.HmacTotal)
    (rootKey : κ) (nPaths : ℕ) (calls : List AbiSendArgs)
    (h : ∀ args ∈ calls, KeepsCount nPaths args) :
    let events := trace (abiSendStep P K) (SecureChannel.new rootKey nPaths) calls
    let channel := final (abiSendStep P K) (SecureChannel.new rootKey nPaths) calls
    NumberedByCounting P K events ∧ channel.nPaths = nPaths ∧
      nextSendSeq channel.sendSeq = UInt64.ofNat (counted events).length := by
  have hfollows : Follows (abiSendStep P K) (fun _ => KeepsCount nPaths)
      (SecureChannel.new rootKey nPaths) calls := follows_of_forall _ _ h
  refine follows_induction (abiSendStep P K)
    (motive := fun events channel => NumberedByCounting P K events ∧
      channel.nPaths = nPaths ∧
        nextSendSeq channel.sendSeq = UInt64.ofNat (counted events).length)
    _ ⟨⟨by simp [counted], by simp⟩, rfl, rfl⟩ ?_ calls hfollows
  rintro past channel args ⟨hnumbered, hpaths, hnext⟩ hkeeps
  subst hpaths
  rcases abiSendStep_of_keepsCount (K := K) hencrypt hmac channel hkeeps with
    ⟨hcode, hsame⟩ | ⟨hcode, hadvanced, hemits⟩
  · have hskipped : counted (past ++ [event (abiSendStep P K) channel args]) =
        counted past := counted_concat_of_not_ok past hcode
    refine ⟨⟨?_, ?_⟩, by rw [hsame], by rw [hskipped, hsame, hnext]⟩
    · rw [hskipped]
      exact hnumbered.emits
    · exact forall_mem_concat.2 ⟨hnumbered.unchanged, fun _ => hsame⟩
  · have hcounted : counted (past ++ [event (abiSendStep P K) channel args]) =
        counted past ++ [event (abiSendStep P K) channel args] :=
      counted_concat_of_ok past hcode
    refine ⟨⟨?_, ?_⟩, by rw [hadvanced]; rfl, ?_⟩
    · rw [hcounted]
      intro i e hget
      rcases getElem?_concat_cases hget with hold | ⟨rfl, rfl⟩
      · exact hnumbered.emits i e hold
      · rw [← hnext]
        exact hemits
    · exact forall_mem_concat.2 ⟨hnumbered.unchanged, fun hne => absurd hcode hne⟩
    · rw [hcounted, hadvanced, List.length_append, List.length_singleton, UInt64.ofNat_add,
        ← hnext]
      rfl

/-- **When counting numbers the sends.** In every run of `decoypath_channel_send` on
a fresh channel, the calls that return `OK` emit envelopes under the numbers 0, 1,
2 and so on and every other call leaves the channel as it was, if and only if every
call either is one the channel refuses or declares a length for all paths. -/
theorem numbered_iff {P : Primitives} (hencrypt : P.EncryptTotalUpTo 285) (hmac : P.HmacTotal)
    (rootKey : RatchetKey) (nPaths : ℕ) (calls : List AbiSendArgs) :
    let K := RatchetKey.ops P
    NumberedByCounting P K
        (trace (abiSendStep P K) (SecureChannel.new rootKey nPaths) calls) ↔
      ∀ args ∈ calls, KeepsCount nPaths args := by
  intro K
  constructor
  · intro hnumbered args hargs
    by_contra hnot
    rw [← trace_inputs (abiSendStep P K) (SecureChannel.new rootKey nPaths) calls] at hargs
    obtain ⟨e, hmem, rfl⟩ := List.mem_map.1 hargs
    have hpaths : e.before.nPaths = nPaths :=
      before_of_mem_trace (abiSendStep P K) (p := fun channel => channel.nPaths = nPaths) rfl
        (fun channel args h => (abiSendStep_nPaths hencrypt hmac channel args).trans h) hmem
    rw [← hpaths] at hnot
    obtain ⟨hcode, hchanged⟩ := abiSendStep_of_not_keepsCount (K := K) hencrypt hmac e.before hnot
    have hevent := eq_event_of_mem_trace (abiSendStep P K) hmem
    have houtput : e.output = (abiSendStep P K e.before e.input).1 := congrArg Event.output hevent
    rw [← houtput] at hcode hchanged
    exact hchanged (hnumbered.unchanged e hmem (by simp [hcode]))
  · intro h
    exact (numbered_of_keepsCount hencrypt hmac rootKey nPaths calls h).1

/-- A first call with a short buffer, then one with room for the two paths: the host
counts the second as number 0, and the channel has sent it as number 1. -/
theorem short_buffer_skips_number :
    let K := RatchetKey.ops counterPrimitives
    let start := SecureChannel.new (counterKey 0) 2
    let calls : List AbiSendArgs := [⟨counterSend [10] [1], [], 0⟩,
      ⟨counterSend [11] [2], List.replicate 2048 0, 2048⟩]
    let events := trace (abiSendStep counterPrimitives K) start calls
    (events.map fun event => event.output.code) = [.BUFFER_TOO_SMALL, .OK] ∧
      (final (abiSendStep counterPrimitives K) start calls).sendSeq = some 1 ∧
        ¬ NumberedByCounting counterPrimitives K events := by
  intro K start calls events
  refine ⟨by decide +kernel, by decide +kernel, fun h => ?_⟩
  have hfirst := h.unchanged (event (abiSendStep counterPrimitives K) start
    ⟨counterSend [10] [1], [], 0⟩) List.mem_cons_self (by decide +kernel)
  have hsent : (abiSendStep counterPrimitives K start
      ⟨counterSend [10] [1], [], 0⟩).1.channel.sendSeq = some 0 := by
    decide +kernel
  have hunsent := congrArg SecureChannel.sendSeq hfirst
  rw [show (event (abiSendStep counterPrimitives K) start
    ⟨counterSend [10] [1], [], 0⟩).output.channel.sendSeq = some 0 from hsent] at hunsent
  cases hunsent

/-- A refused message id in between does not disturb the count. -/
theorem refused_id_keeps_count :
    NumberedByCounting counterPrimitives (RatchetKey.ops counterPrimitives)
      (trace (abiSendStep counterPrimitives (RatchetKey.ops counterPrimitives))
        (SecureChannel.new (counterKey 0) 2)
        [⟨counterSend [10] [1], List.replicate 2048 0, 2048⟩,
          ⟨counterSend [11] (List.replicate 257 0), [], 0⟩,
          ⟨counterSend [12] [3], List.replicate 4096 0, 4096⟩]) := by
  apply (numbered_iff (counter_encryptTotalUpTo 285) counter_hmacTotal (counterKey 0) 2 _).2
  have hlong : maxMessageIdLen < (List.replicate 257 (0 : UInt8)).length := by
    rw [List.length_replicate]
    decide
  simp only [List.forall_mem_cons]
  refine ⟨Or.inr (Or.inr (Or.inr (by decide))), Or.inr (Or.inl hlong),
    Or.inr (Or.inr (Or.inr (by decide))), by simp⟩

end NullPath
