import NullPath.Envelope.Format
import NullPath.Ffi.Numbering
import NullPath.Ffi.Retry

/-!
# The channel calls and the channel

With room for the results, the two channel calls of the C ABI do what `send` and
`receive` do: they succeed on the same arguments, with the same bytes and the same
state, and their codes tell the errors of `receive` apart (`abi_agrees`).

The flat envelope buffer is the concatenation of the envelopes. Cutting it into
chunks gives the envelopes back (`chunkEnvelopes_flatMap`), and every buffer of a
multiple of 1024 bytes is such a concatenation (`flatMap_chunkEnvelopes`).
-/

namespace NullPath

variable {κ : Type*} {P : Primitives} {K : KeyOps κ}

/-! ## The envelope buffer -/

theorem length_chunkEnvelopes (buffer : List UInt8) :
    (chunkEnvelopes buffer).length = buffer.length / envelopeTotalLen :=
  List.length_ofFn

theorem getElem_chunkEnvelopes (buffer : List UInt8) (i : ℕ)
    (h : i < (chunkEnvelopes buffer).length) :
    (chunkEnvelopes buffer)[i].toList =
      buffer.extract (i * envelopeTotalLen) (i * envelopeTotalLen + envelopeTotalLen) :=
  congrArg List.Vector.toList (List.getElem_ofFn h)

/-- The chunks of concatenated envelopes are the envelopes. -/
theorem chunkEnvelopes_flatMap (envelopes : List Envelope) :
    chunkEnvelopes (envelopes.flatMap List.Vector.toList) = envelopes := by
  apply List.ext_getElem
  · rw [length_chunkEnvelopes, length_flatMap_toList]
    exact Nat.mul_div_cancel _ (by decide)
  · intro i hchunk hi
    have hsplit : envelopes.flatMap List.Vector.toList =
        (envelopes.take i).flatMap List.Vector.toList ++ envelopes[i].toList ++
          (envelopes.drop (i + 1)).flatMap List.Vector.toList := by
      rw [List.append_assoc, ← List.flatMap_cons, ← List.flatMap_append,
        ← List.drop_eq_getElem_cons, List.take_append_drop]
    have hbefore : ((envelopes.take i).flatMap List.Vector.toList).length =
        i * envelopeTotalLen := by
      rw [length_flatMap_toList, List.length_take, Nat.min_eq_left hi.le]
    apply List.Vector.toList_injective
    rw [getElem_chunkEnvelopes, hsplit]
    exact extract_append_middle hbefore (by rw [envelopes[i].toList_length])

theorem exists_flatMap_eq {buffer : List UInt8} {n : ℕ}
    (h : buffer.length = n * envelopeTotalLen) :
    ∃ envelopes : List Envelope, envelopes.flatMap List.Vector.toList = buffer := by
  induction n generalizing buffer with
  | zero => exact ⟨[], (List.length_eq_zero_iff.1 (by simpa using h)).symm⟩
  | succ n ih =>
      rw [Nat.succ_mul] at h
      have hfirst : (buffer.take envelopeTotalLen).length = envelopeTotalLen := by
        rw [List.length_take, h]
        exact Nat.min_eq_left (Nat.le_add_left _ _)
      have hrest : (buffer.drop envelopeTotalLen).length = n * envelopeTotalLen := by
        rw [List.length_drop, h, Nat.add_sub_cancel]
      obtain ⟨envelopes, henvelopes⟩ := ih hrest
      refine ⟨Bytes.ofList (buffer.take envelopeTotalLen) hfirst :: envelopes, ?_⟩
      rw [List.flatMap_cons, henvelopes, Bytes.toList_ofList, List.take_append_drop]

theorem flatMap_chunkEnvelopes {buffer : List UInt8}
    (h : buffer.length % envelopeTotalLen = 0) :
    (chunkEnvelopes buffer).flatMap List.Vector.toList = buffer := by
  have hlength : buffer.length = buffer.length / envelopeTotalLen * envelopeTotalLen :=
    (Nat.div_mul_cancel (Nat.dvd_of_mod_eq_zero h)).symm
  obtain ⟨envelopes, rfl⟩ := exists_flatMap_eq hlength
  rw [chunkEnvelopes_flatMap]

theorem not_invalidBufferLen_iff {len : ℕ} :
    ¬ InvalidBufferLen len ↔ len ≠ 0 ∧ len % 1024 = 0 ∧ len ≤ 65536 := by
  simp [InvalidBufferLen, envelopeTotalLen, maxNPaths]

/-! ## Sending -/

section Send

variable {channel channel' : SecureChannel κ} {coins : SendCoins}
  {payload messageId out : List UInt8} {outLen : ℕ} {envelopes : List Envelope}

variable (out outLen) in
theorem channelSend_of_error {e : ChannelError}
    (h : channel.send P K coins payload messageId = (.error e, channel')) :
    let result := channelSend P K channel coins payload messageId out outLen
    result.code ≠ .OK ∧ result.channel = channel' := by
  by_cases hsendable : Sendable channel payload messageId
  · unfold channelSend
    rw [if_neg (Nat.not_lt.2 hsendable.payload_le), if_neg (Nat.not_lt.2 hsendable.messageId_le),
      h]
    simp
  · obtain ⟨e', hsend⟩ := send_of_refused (P := P) (K := K) channel coins hsendable
    rw [h] at hsend
    have hchannel : channel' = channel := congrArg Prod.snd hsend
    rw [hchannel]
    exact channelSend_of_refused coins out outLen hsendable

theorem length_of_send_ok
    (h : channel.send P K coins payload messageId = (.ok envelopes, channel')) :
    Sendable channel payload messageId ∧ envelopes.length = channel.nPaths := by
  constructor
  · by_contra hsendable
    obtain ⟨e, hsend⟩ := send_of_refused (P := P) (K := K) channel coins hsendable
    rw [h] at hsend
    cases hsend
  · rcases send_cases (P := P) (K := K) channel coins payload messageId with
      ⟨e, hsend⟩ | ⟨hsend, _⟩ | ⟨slots, hsends, hsend⟩
    · rw [h] at hsend
      cases hsend
    · rw [h] at hsend
      cases hsend
    · rw [h] at hsend
      cases hsend
      exact hsends.length_slots

theorem channelSend_of_ok (hroom : channel.nPaths * envelopeTotalLen ≤ outLen)
    (h : channel.send P K coins payload messageId = (.ok envelopes, channel')) :
    channelSend P K channel coins payload messageId out outLen =
      ⟨.OK, channel', envelopes.flatMap List.Vector.toList ++
        out.drop (channel.nPaths * envelopeTotalLen), channel.nPaths * envelopeTotalLen⟩ := by
  obtain ⟨hsendable, hlength⟩ := length_of_send_ok h
  unfold channelSend
  rw [if_neg (Nat.not_lt.2 hsendable.payload_le), if_neg (Nat.not_lt.2 hsendable.messageId_le), h]
  simp only [hlength]
  rw [if_neg (Nat.not_lt.2 hroom), copyEnvelopes_eq, hlength]

variable (P K coins payload messageId out) in
theorem abi_send_agrees (hroom : channel.nPaths * envelopeTotalLen ≤ outLen) :
    let result := channelSend P K channel coins payload messageId out outLen
    let sent := channel.send P K coins payload messageId
    result.channel = sent.2 ∧ (result.code = .OK ↔ ∃ envelopes, sent.1 = .ok envelopes) ∧
      (∀ envelopes, sent.1 = .ok envelopes →
        result.outLen = channel.nPaths * envelopeTotalLen ∧
          result.out.take result.outLen = envelopes.flatMap List.Vector.toList) := by
  intro result sent
  cases hsend : channel.send P K coins payload messageId with
  | mk outcome channel' =>
      have hsent : sent = (outcome, channel') := hsend
      cases outcome with
      | error e =>
          obtain ⟨hcode, hchannel⟩ := channelSend_of_error out outLen hsend
          rw [hsent]
          exact ⟨hchannel, iff_of_false hcode (by simp), by simp⟩
      | ok envelopes =>
          have hlength : channel.nPaths * envelopeTotalLen =
              (envelopes.flatMap List.Vector.toList).length := by
            rw [length_flatMap_toList, (length_of_send_ok hsend).2]
          have hresult : result = _ := channelSend_of_ok hroom hsend
          rw [hsent, hresult]
          refine ⟨rfl, iff_of_true rfl ⟨envelopes, rfl⟩, ?_⟩
          intro envelopes' henvelopes
          cases henvelopes
          refine ⟨rfl, ?_⟩
          simp only [hlength, List.take_left]

end Send

/-! ## Receiving -/

theorem length_of_receive_ok {channel : SecureChannel κ} {now : Instant}
    {envelopes : List Envelope} {seq : UInt64} {messageId payload : List UInt8}
    (h : (channel.receive P K now envelopes seq messageId).1 = .ok payload) :
    payload.length ≤ maxPayloadSize := by
  obtain ⟨target, hsteps⟩ := authenticates_of_receive h
  obtain ⟨slotIdx, envelope, _, _, hopen⟩ := hsteps.opens
  obtain ⟨buffer, _, haccepted, rfl⟩ := open_eq_ok_iff.1 hopen
  have hlen := haccepted.payloadLen
  rw [List.extract_eq_take_drop, List.length_take]
  omega

theorem abi_receive_agrees {channel : SecureChannel κ} {now : Instant}
    {buffer messageId out : List UInt8} {seq : UInt64} {outLen : ℕ}
    (hlength : ¬ InvalidBufferLen buffer.length) (hmessageId : messageId.length ≤ maxMessageIdLen)
    (hroom : maxPayloadSize ≤ outLen) :
    let result := channelReceive P K channel now buffer seq messageId out outLen
    let received := channel.receive P K now (chunkEnvelopes buffer) seq messageId
    result.channel = received.2 ∧
      (∀ payload, (result.code = .OK ∧ result.out.take result.outLen = payload) ↔
        received.1 = .ok payload) ∧
      (∀ e, received.1 = .error e → result.code = .ofReceiveError e) := by
  intro result received
  cases hreceive : channel.receive P K now (chunkEnvelopes buffer) seq messageId with
  | mk outcome channel' =>
      have hreceived : received = (outcome, channel') := hreceive
      cases outcome with
      | error e =>
          have hresult : result = _ := channelReceive_of_error hmessageId hlength hreceive
          rw [hreceived, hresult]
          refine ⟨rfl, fun payload => iff_of_false (by simp) (by simp), ?_⟩
          intro e' he
          cases he
          rfl
      | ok decrypted =>
          have hfits : decrypted.length ≤ outLen :=
            (length_of_receive_ok (congrArg Prod.fst hreceive)).trans hroom
          have hresult : result = _ := channelReceive_of_ok hmessageId hlength hreceive
          rw [if_neg (Nat.not_lt.2 hfits)] at hresult
          have hout : (overwrite out 0 decrypted).take decrypted.length = decrypted := by
            simp [overwrite]
          rw [hreceived, hresult]
          refine ⟨rfl, ?_, by simp⟩
          intro payload
          simp only [hout, true_and, Except.ok.injEq]

/-- The errors of `receive` that have a code of their own. -/
def distinguishedErrors : List ChannelError :=
  [.ReplayedSequence, .SkippedKeyExpired, .InvalidSequence, .InvalidMessageId,
    .AuthenticationFailed]

theorem ofReceiveError_eq_iff {e : ChannelError} (h : e ∈ distinguishedErrors)
    (e' : ChannelError) : ReturnCode.ofReceiveError e' = ReturnCode.ofReceiveError e ↔ e' = e := by
  revert e'
  simp only [distinguishedErrors, List.mem_cons, List.not_mem_nil, or_false] at h
  rcases h with rfl | rfl | rfl | rfl | rfl <;> intro e' <;> cases e' <;> decide

/-- **The ABI agrees with the channel.** On a channel with 1 to 64 paths and with room
for the results, `decoypath_channel_send` and `decoypath_channel_receive` succeed when
`send` and `receive` do, with the same bytes and the same new state. Every error of
`receive` is reported by its code, and five of them have a code of their own. The
buffer that was sent is a buffer that can be received, and its chunks are the envelopes. -/
theorem abi_agrees (P : Primitives) (channel : SecureChannel RatchetKey)
    (hpaths : 1 ≤ channel.nPaths ∧ channel.nPaths ≤ 64) :
    let K := RatchetKey.ops P
    (∀ coins payload messageId out outLen, channel.nPaths * 1024 ≤ outLen →
      let sent := channel.send P K coins payload messageId
      ∃ result, decoypathChannelSend P K (some channel) coins (some payload) (some messageId)
          (some out) (some outLen) = (result.code, some result) ∧
        result.channel = sent.2 ∧
        (result.code = .OK ↔ ∃ envelopes, sent.1 = .ok envelopes) ∧
        (∀ envelopes, sent.1 = .ok envelopes →
          result.outLen = channel.nPaths * 1024 ∧
          result.out.take result.outLen = envelopes.flatMap List.Vector.toList ∧
          ¬ InvalidBufferLen result.outLen ∧
          chunkEnvelopes (result.out.take result.outLen) = envelopes)) ∧
    (∀ now buffer seq messageId out outLen, buffer.length ≠ 0 → buffer.length % 1024 = 0 →
      buffer.length ≤ 65536 → messageId.length ≤ 256 → 992 ≤ outLen →
      let received := channel.receive P K now (chunkEnvelopes buffer) seq messageId
      (chunkEnvelopes buffer).flatMap List.Vector.toList = buffer ∧
      ∃ result, decoypathChannelReceive P K (some channel) now (some buffer) seq
          (some messageId) (some out) (some outLen) = (result.code, some result) ∧
        result.channel = received.2 ∧
        (∀ payload, (result.code = .OK ∧ result.out.take result.outLen = payload) ↔
          received.1 = .ok payload) ∧
        (∀ e, received.1 = .error e → result.code = .ofReceiveError e)) ∧
    (∀ e ∈ distinguishedErrors, ∀ e', (ReturnCode.ofReceiveError e').toInt =
      (ReturnCode.ofReceiveError e).toInt → e' = e) := by
  intro K
  refine ⟨?_, ?_, ?_⟩
  · intro coins payload messageId out outLen hroom sent
    obtain ⟨hchannel, hcode, hbytes⟩ := abi_send_agrees P K coins payload messageId out
      hroom
    refine ⟨_, rfl, hchannel, hcode, ?_⟩
    intro envelopes hsent
    obtain ⟨hlength, hout⟩ := hbytes envelopes hsent
    refine ⟨hlength, hout, ?_, by rw [hout, chunkEnvelopes_flatMap]⟩
    rw [hlength, not_invalidBufferLen_iff]
    exact ⟨Nat.mul_ne_zero (Nat.one_le_iff_ne_zero.1 hpaths.1) (by decide), Nat.mul_mod_left _ _,
      Nat.mul_le_mul_right 1024 hpaths.2⟩
  · intro now buffer seq messageId out outLen hzero hmultiple hlong hmessageId hroom received
    have hlength := not_invalidBufferLen_iff.2 ⟨hzero, hmultiple, hlong⟩
    exact ⟨flatMap_chunkEnvelopes hmultiple, _, rfl,
      abi_receive_agrees hlength hmessageId hroom⟩
  · intro e he e' hcode
    exact (ofReceiveError_eq_iff he e').1 (ReturnCode.toInt_injective hcode)

/-- A message on two paths, through a buffer that is longer than needed, and back. -/
theorem two_paths_agree :
    let K := RatchetKey.ops counterPrimitives
    let channel := SecureChannel.new (counterKey 0) 2
    let args := counterSend [10] [1]
    ∃ sent received : AbiResult RatchetKey,
      decoypathChannelSend counterPrimitives K (some channel) args.coins (some args.payload)
          (some args.messageId) (some (List.replicate 4096 9)) (some 4096) =
        (.OK, some sent) ∧
      decoypathChannelReceive counterPrimitives K (some channel) 0
          (some (sent.out.take sent.outLen)) 0 (some args.messageId)
          (some (List.replicate 992 9)) (some 992) = (.OK, some received) ∧
      received.out.take received.outLen = args.payload := by
  intro K channel args
  obtain ⟨hsend, hreceive, -⟩ := abi_agrees counterPrimitives channel (by decide)
  obtain ⟨sent, hsent, -, hok, hbytes⟩ := hsend args.coins args.payload args.messageId
    (List.replicate 4096 9) 4096 (by decide)
  have hpacket : (channel.send counterPrimitives K args.coins args.payload
      args.messageId).1.toOption.isSome = true ∧
        ∀ envelopes ∈ (channel.send counterPrimitives K args.coins args.payload
          args.messageId).1.toOption, envelopes.length = 2 ∧
            (channel.receive counterPrimitives K 0 envelopes 0 args.messageId).1 =
              .ok args.payload := by
    decide +kernel
  cases henvelopes : (channel.send counterPrimitives K args.coins args.payload
      args.messageId).1 with
  | error e =>
      rw [henvelopes] at hpacket
      cases hpacket.1
  | ok envelopes =>
      rw [henvelopes] at hpacket
      obtain ⟨hlength, haccepted⟩ := hpacket.2 envelopes rfl
      obtain ⟨-, hout, -, hchunks⟩ := hbytes envelopes henvelopes
      have hbuffer : (sent.out.take sent.outLen).length = 2 * 1024 := by
        rw [hout, length_flatMap_toList, hlength]
      obtain ⟨-, received, hreceived, -, hpayload, -⟩ := hreceive 0 (sent.out.take sent.outLen) 0
        args.messageId (List.replicate 992 9) 992 (by rw [hbuffer]; decide)
        (by rw [hbuffer]) (by rw [hbuffer]; decide) (by decide) (by decide)
      rw [hchunks] at hpayload
      obtain ⟨hreceivedOk, hwritten⟩ := (hpayload args.payload).2 haccepted
      rw [hok.2 ⟨envelopes, henvelopes⟩] at hsent
      rw [hreceivedOk] at hreceived
      exact ⟨sent, received, hsent, hreceived, hwritten⟩

end NullPath
