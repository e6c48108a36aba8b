import NullPath.Ffi.Delivery
import NullPath.World.Peers

/-!
# When a host is handed out a payload

`decoypath_channel_receive` adds two length checks before the crate's `receive` and the
check of the capacity behind it. So which payload a handle hands out is decided by these
and by which packets get through on the channel behind the handle, which depends on the
calls on the peer's handle only (`handed_out_iff_gets_through`).
-/

namespace NullPath

open Transition

variable {H : HandshakePrimitives} {P : Primitives}

/-- A live handle hands out what its channel accepts, if the lengths are valid and the
payload fits. -/
theorem handedOut_iff_receive {world : AbiWorld H} {handle : ℕ} {box : SecureChannel RatchetKey}
    (hbox : world.channels.boxes handle = some box) (now : Instant) (envelopes : List UInt8)
    (seq : UInt64) (messageId out : List UInt8) (outLen : ℕ) (payload : List UInt8) :
    handedOut? handle (event (abiStep P) world (.channelReceive (some handle) now (some envelopes)
        seq (some messageId) (some out) (some outLen))) = some ⟨seq, messageId, payload⟩ ↔
      messageId.length ≤ maxMessageIdLen ∧ ¬ InvalidBufferLen envelopes.length ∧
        payload.length ≤ outLen ∧
          (box.receive P (RatchetKey.ops P) now (chunkEnvelopes envelopes) seq messageId).1 =
            .ok payload := by
  simp only [handedOut?, event, abiStep, onChannel, hbox, decoypathChannelReceive, deliver]
  constructor
  · intro h
    obtain ⟨⟨-, hok⟩, hletter⟩ := Option.ite_none_right_eq_some.1 h
    obtain ⟨hmessageId, hlength, payload', channel', hreceive, hpayload⟩ := channelReceive_ok hok
    rw [hpayload] at hletter
    cases hletter
    have hfits : payload.length ≤ outLen := by
      rw [channelReceive_of_ok (Nat.not_lt.1 hmessageId) hlength hreceive] at hok
      split_ifs at hok with hshort
      exact Nat.not_lt.1 hshort
    exact ⟨Nat.not_lt.1 hmessageId, hlength, hfits, congrArg Prod.fst hreceive⟩
  · rintro ⟨hmessageId, hlength, hfits, hreceive⟩
    rw [channelReceive_of_ok hmessageId hlength (Prod.ext hreceive rfl),
      if_neg (Nat.not_lt.2 hfits)]
    simp [overwrite]

theorem crateCall?_receive {world : AbiWorld H} {handle : ℕ} {box : SecureChannel RatchetKey}
    (hbox : world.channels.boxes handle = some box) (now : Instant) {envelopes : List UInt8}
    (seq : UInt64) {messageId : List UInt8} (out : List UInt8) (outLen : ℕ)
    (hmessageId : messageId.length ≤ maxMessageIdLen)
    (hlength : ¬ InvalidBufferLen envelopes.length) :
    (AbiCall.channelReceive (some handle) now (some envelopes) seq (some messageId) (some out)
        (some outLen)).crateCall? world =
      some (.channel handle (.receive ⟨⟨chunkEnvelopes envelopes, seq, messageId⟩, now⟩)) := by
  simp only [AbiCall.crateCall?, Option.bind_eq_bind, Option.bind_some, hbox,
    if_neg (Nat.not_lt.2 hmessageId), if_neg hlength]

theorem event_mem_worldTrace {past rest : List AbiCall} {call : AbiCall} {wcall : WorldCall H}
    (h : call.crateCall? (final (abiStep P) (AbiWorld.new H) past) = some wcall) :
    event (worldStep P) (runWorld P (crateCalls H P past)) wcall ∈
      worldTrace P (crateCalls H P (past ++ call :: rest)) := by
  have hcalls : crateCalls H P (past ++ call :: rest) = crateCalls H P past ++ wcall ::
      answers (abiStep P) AbiCall.crateCall?
        (abiStep P (final (abiStep P) (AbiWorld.new H) past) call).2 rest := by
    rw [crateCalls, answers_append, answers_cons, h]
    rfl
  rw [hcalls, worldTrace, trace_append, trace]
  exact List.mem_append_right _ List.mem_cons_self

/-- **When a handle hands out a payload.** Hosts hold the handles of any number of parties and
the adversary chooses all payloads, packets and the order of all calls. On a live handle of
honest parties whose channel has a peer with the same number of paths, a call of
`decoypath_channel_receive` hands out a payload if and only if its id and its buffer have
valid lengths, the payload fits the capacity, and the packet gets through: it carries the
message of its number and that payload sent behind the peer's handle, the number is open,
and the message has crossed none sent behind the handle itself. -/
theorem handed_out_iff_gets_through (hencrypt : P.EncryptTotal) (hdecrypt : P.DecryptUndoes)
    (honest : VerifyingKey H.toKeyFormat → Prop) (run : HostRun H P) (past rest : List AbiCall)
    (call : AbiCall) (hcalls : run.calls = past ++ call :: rest)
    (horizon : ℕ) (hnumbers : horizon ≤ 2 ^ 64)
    (hwithin : WithinHorizon P horizon (runWorld P (crateCalls H P run.calls)))
    (hideal : Follows (worldStep P) (IdealDelivery P honest horizon) World.empty
      (crateCalls H P run.calls))
    (handle peer : ℕ) (c d : OpenChannel H)
    (hc : (runWorld P (crateCalls H P run.calls)).channels[handle]? = some c)
    (hprotected : c.Protected honest)
    (hpeer : PeerOf (runWorld P (crateCalls H P run.calls)) handle c peer d)
    (hpaths : d.nPaths = c.nPaths) (now : Instant) (envelopes : List UInt8) (seq : UInt64)
    (messageId out : List UInt8) (outLen : ℕ)
    (hcall : call = .channelReceive (some handle) now (some envelopes) seq (some messageId)
      (some out) (some outLen))
    (hlive : (final (abiStep P) (AbiWorld.new H) past).channels.boxes handle ≠ none)
    (payload : List UInt8) :
    handedOut? handle (event (abiStep P) (final (abiStep P) (AbiWorld.new H) past) call) =
        some ⟨seq, messageId, payload⟩ ↔
      messageId.length ≤ maxMessageIdLen ∧ ¬ InvalidBufferLen envelopes.length ∧
        payload.length ≤ outLen ∧
          ∃ message expected, GetsThrough P (RatchetKey.ops P) c.key c.nPaths
            ((runWorld P (crateCalls H P past)).pair c.key c.nPaths handle peer) .a
            ⟨⟨chunkEnvelopes envelopes, seq, messageId⟩, now⟩ message expected ∧
              message.1.payload = payload := by
  obtain ⟨box, hbox⟩ := Option.ne_none_iff_exists'.1 hlive
  rw [hcalls] at hwithin hideal hc hpeer
  rw [hcall, handedOut_iff_receive hbox]
  refine and_congr_right fun hmessageId => and_congr_right fun hlength =>
    and_congr_right fun _ => ?_
  have hcrate := crateCall?_receive hbox now seq out outLen hmessageId hlength
  rw [← hcall] at hcrate
  have habstracts : Abstracts _ (runWorld P (crateCalls H P past)) :=
    (abi_simulates H P).final (Abstracts.new H) past
  obtain ⟨c₀, hc₀, hchannel⟩ := habstracts.channel hbox
  have hthrough := (PairAt.of_peerOf hwithin hc hprotected hpeer hpaths).received_iff_run hencrypt
    hdecrypt hpeer.ne.symm hnumbers
    (hwithin.distinct.chainDistinct ⟨c, List.mem_of_getElem? hc, rfl⟩) _ hideal _
    (event_mem_worldTrace hcrate) _ rfl c₀ hc₀ payload
  have hreply : (worldStep P (runWorld P (crateCalls H P past)) (.channel handle (.receive
      ⟨⟨chunkEnvelopes envelopes, seq, messageId⟩, now⟩))).1 = .channel (.received
        (box.receive P (RatchetKey.ops P) now (chunkEnvelopes envelopes) seq messageId).1) := by
    rw [← hchannel, worldStep, hc₀]
    rfl
  refine Iff.trans ?_ hthrough
  rw [event, hreply, WorldReply.channel.injEq, Reply.received.injEq]

/-- What the initiator has posted reaches the responder's handle, which hands it out. -/
theorem handed_out_iff_gets_through_host :
    let send := AbiCall.channelSend (some 1) (counterSend [10] [1]).coins (some [10]) (some [1])
      (some (List.replicate (2 * envelopeTotalLen) 0)) (some (2 * envelopeTotalLen))
    let opened := final (abiStep (H := modularPrimitives) counterPrimitives)
      (AbiWorld.new modularPrimitives) hostHandshake
    let buffer := (abiStep counterPrimitives opened send).1.written
    let past := hostHandshake ++ [send]
    let calls := crateCalls modularPrimitives counterPrimitives past
    ∃ (c : OpenChannel modularPrimitives) (message : SendArgs × List Envelope) (expected : ℕ),
      GetsThrough counterPrimitives (RatchetKey.ops counterPrimitives) c.key c.nPaths
        ((runWorld counterPrimitives calls).pair c.key c.nPaths 0 1) .a
        ⟨⟨chunkEnvelopes buffer, 0, [1]⟩, 0⟩ message expected ∧ message.1.payload = [10] := by
  intro send opened buffer past calls
  let receive := AbiCall.channelReceive (some 0) 0 (some buffer) 0 (some [1])
    (some (List.replicate maxPayloadSize 0)) (some maxPayloadSize)
  have hhanded : handedOut? 0 (event (abiStep counterPrimitives) (final (abiStep counterPrimitives)
      (AbiWorld.new modularPrimitives) past) receive) = some ⟨0, [1], [10]⟩ := by
    decide +kernel
  obtain ⟨c, hc⟩ : ∃ c, (runWorld counterPrimitives (crateCalls modularPrimitives
      counterPrimitives (past ++ [receive]))).channels[0]? = some c :=
    Option.isSome_iff_exists.1 (by decide +kernel)
  obtain ⟨d, hd⟩ : ∃ d, (runWorld counterPrimitives (crateCalls modularPrimitives
      counterPrimitives (past ++ [receive]))).channels[1]? = some d :=
    Option.isSome_iff_exists.1 (by decide +kernel)
  have hsame : ∀ c ∈ (runWorld counterPrimitives (crateCalls modularPrimitives
      counterPrimitives (past ++ [receive]))).channels[0]?,
        ∀ d ∈ (runWorld counterPrimitives (crateCalls modularPrimitives
          counterPrimitives (past ++ [receive]))).channels[1]?,
            d.rootKey = c.rootKey ∧ d.nPaths = c.nPaths := by
    decide +kernel
  obtain ⟨hkey, hpaths⟩ := hsame c hc d hd
  have hpeer := peerOf_of_rootKey (collisionFree_of_forall (by decide +kernel))
    (by unfold FreshCoins; decide +kernel) (by unfold FreshAnswers; decide +kernel)
    (by decide) hc hd hkey
  obtain ⟨-, -, -, hthrough⟩ := (handed_out_iff_gets_through counter_encryptTotal
    counter_decryptUndoes (fun _ => True) ⟨past ++ [receive], by decide +kernel⟩ past [] receive
    rfl 2 (by decide)
    (withinHorizon_of_forall (by decide +kernel) (by decide +kernel)) (by decide +kernel) 0 1 c d
    hc ⟨trivial, trivial⟩ hpeer hpaths 0 buffer 0 [1] _ _ rfl (by decide +kernel) [10]).1 hhanded
  exact ⟨c, hthrough⟩

end NullPath
