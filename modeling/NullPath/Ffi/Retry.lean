import NullPath.Channel.AtMostOnce
import NullPath.Ffi.Basic

/-!
# Retrying a receive

A host that is told `BUFFER_TOO_SMALL` learns the length it should have declared
and calls again. For the handshake calls this works, since they look at the
declared length before they do anything. `decoypath_channel_receive` looks at it
after the channel has accepted the packet, and the payload is gone: the state has
changed (`commit_ne`), and the second call is refused (`payload_lost`).

`receive_retryable_iff` says exactly which calls can be repeated.
-/

namespace NullPath

variable {κ : Type*} {P : Primitives} {K : KeyOps κ}

/-- An accepted packet always changes the channel: the last number moves, or a
stored key is gone. -/
theorem commit_ne {channel : SecureChannel κ} {seq : UInt64} {messageId : List UInt8}
    {target : Target κ} (htarget : channel.computeTargetKey K seq messageId = .ok target)
    (antiReplay : AntiReplayStore) :
    { channel with antiReplay := antiReplay }.commit seq target ≠ channel := by
  intro heq
  rcases computeTargetKey_cases htarget with hforward | hlate
  · rw [commit_forward _ seq hforward.isForward hforward.nextRatchetKey] at heq
    have hlast := congrArg SecureChannel.lastSeq heq
    have hexpected := hforward.expected_le
    simp only at hlast
    rw [← hlast, expectedSeq_some] at hexpected
    exact absurd hexpected (Nat.not_succ_le_self _)
  · rw [commit_late _ seq hlate.isForward] at heq
    have hskipped := congrArg SecureChannel.skippedKeys heq
    simp only at hskipped
    have hget := hlate.targetKey
    rw [← hskipped, SortedMap.get?_erase, if_pos rfl] at hget
    cases hget

theorem Authenticates.payload_unique {channel : SecureChannel κ} {envelopes : List Envelope}
    {seq : UInt64} {messageId payload payload' : List UInt8} {target target' : Target κ}
    (h : Authenticates P K channel envelopes seq messageId target payload)
    (h' : Authenticates P K channel envelopes seq messageId target' payload') :
    payload = payload' := by
  have hsame := authenticate_eq_ok_iff.2 h
  rw [authenticate_eq_ok_iff.2 h'] at hsame
  cases hsame
  rfl

theorem receive_of_steps {channel : SecureChannel κ} (now : Instant) {envelopes : List Envelope}
    {seq : UInt64} {messageId payload : List UInt8} {target : Target κ}
    (h : Authenticates P K channel envelopes seq messageId target payload) :
    channel.receive P K now envelopes seq messageId =
      if (seq, messageId) ∈ (channel.antiReplay.prune now).entries then
        (.error .ReplayedSequence,
          { channel with antiReplay := channel.antiReplay.prune now })
      else (.ok payload,
        { channel with
          antiReplay := (channel.antiReplay.checkAndInsert now seq messageId).2 }.commit seq
            target) := by
  have hauth := authenticate_eq_ok_iff.2 h
  split_ifs with hduplicate
  · simp [SecureChannel.receive, hauth, AntiReplayStore.checkAndInsert_duplicate hduplicate]
  · simp [SecureChannel.receive, hauth, AntiReplayStore.checkAndInsert_pruned hduplicate]

theorem receive_of_no_steps {channel : SecureChannel κ} (now : Instant)
    {envelopes : List Envelope} {seq : UInt64} {messageId : List UInt8}
    (h : ¬ ∃ target payload, Authenticates P K channel envelopes seq messageId target payload) :
    ∃ e, channel.receive P K now envelopes seq messageId = (.error e, channel) := by
  cases hauth : channel.authenticate P K envelopes seq messageId with
  | error e => exact ⟨e, by simp [SecureChannel.receive, hauth]⟩
  | ok result => exact absurd ⟨result.1, result.2, authenticate_eq_ok_iff.1 hauth⟩ h

section Receive

variable {channel channel' : SecureChannel κ} {now : Instant} {envelopes messageId : List UInt8}
  {seq : UInt64} {out : List UInt8} {outLen : ℕ}

theorem channelReceive_of_error {e : ChannelError} (hmessageId : messageId.length ≤ maxMessageIdLen)
    (hlength : ¬ InvalidBufferLen envelopes.length)
    (hreceive : channel.receive P K now (chunkEnvelopes envelopes) seq messageId =
      (.error e, channel')) :
    channelReceive P K channel now envelopes seq messageId out outLen =
      ⟨.ofReceiveError e, channel', out, outLen⟩ := by
  unfold channelReceive
  rw [if_neg (Nat.not_lt.2 hmessageId), if_neg hlength, hreceive]

theorem channelReceive_of_ok {payload : List UInt8}
    (hmessageId : messageId.length ≤ maxMessageIdLen)
    (hlength : ¬ InvalidBufferLen envelopes.length)
    (hreceive : channel.receive P K now (chunkEnvelopes envelopes) seq messageId =
      (.ok payload, channel')) :
    channelReceive P K channel now envelopes seq messageId out outLen =
      if outLen < payload.length then ⟨.BUFFER_TOO_SMALL, channel', out, payload.length⟩
      else ⟨.OK, channel', overwrite out 0 payload, payload.length⟩ := by
  unfold channelReceive
  rw [if_neg (Nat.not_lt.2 hmessageId), if_neg hlength, hreceive]

variable (P K channel now seq out outLen) in
theorem channelReceive_refused
    (h : messageId.length > maxMessageIdLen ∨ InvalidBufferLen envelopes.length) :
    let result := channelReceive P K channel now envelopes seq messageId out outLen
    result.code ≠ .OK ∧ result.code ≠ .BUFFER_TOO_SMALL ∧ result.channel = channel := by
  unfold channelReceive
  by_cases hmessageId : messageId.length > maxMessageIdLen
  · simp [hmessageId]
  · simp [hmessageId, h.resolve_left hmessageId]

theorem receive_ok_of_code
    (h : (channelReceive P K channel now envelopes seq messageId out outLen).code = .OK ∨
      (channelReceive P K channel now envelopes seq messageId out outLen).code =
        .BUFFER_TOO_SMALL) :
    ∃ payload, channel.receive P K now (chunkEnvelopes envelopes) seq messageId =
      (.ok payload,
        (channelReceive P K channel now envelopes seq messageId out outLen).channel) := by
  by_cases hrefused : messageId.length > maxMessageIdLen ∨ InvalidBufferLen envelopes.length
  · obtain ⟨hok, hshort, _⟩ := channelReceive_refused P K channel now seq out outLen hrefused
    exact absurd h (not_or.2 ⟨hok, hshort⟩)
  rw [not_or, not_lt] at hrefused
  cases hreceive : channel.receive P K now (chunkEnvelopes envelopes) seq messageId with
  | mk result channel' =>
      cases result with
      | error e =>
          rw [channelReceive_of_error hrefused.1 hrefused.2 hreceive] at h
          simp at h
      | ok payload =>
          rw [channelReceive_of_ok hrefused.1 hrefused.2 hreceive]
          refine ⟨payload, ?_⟩
          split_ifs <;> rfl

/-- After `BUFFER_TOO_SMALL` the payload is lost: on a channel with its bookkeeping
in order, no call returns `OK` for that number any more. -/
theorem payload_lost {accepted : List UInt64} (hbooks : Bookkeeping accepted channel)
    (hshort : (channelReceive P K channel now envelopes seq messageId out outLen).code =
      .BUFFER_TOO_SMALL) (later : Instant) (envelopes' messageId' out' : List UInt8)
    (outLen' : ℕ) :
    (channelReceive P K (channelReceive P K channel now envelopes seq messageId out
      outLen).channel later envelopes' seq messageId' out' outLen').code ≠ .OK := by
  intro hok
  obtain ⟨payload, hfirst⟩ := receive_ok_of_code (Or.inr hshort)
  obtain ⟨payload', hsecond⟩ := receive_ok_of_code (Or.inl hok)
  obtain ⟨target, hsteps⟩ := authenticates_of_receive (congrArg Prod.fst hfirst)
  obtain ⟨target', hsteps'⟩ := authenticates_of_receive (congrArg Prod.fst hsecond)
  have hbooks' := hbooks.preserved (CallEffect.opened
    (ReceiveArgs.mk ⟨chunkEnvelopes envelopes, seq, messageId⟩ now) target payload hsteps)
  rw [receive_of_authenticates hbooks now hsteps] at hfirst
  rw [← (Prod.mk.inj hfirst).2] at hsteps'
  exact hbooks'.fresh_of_target hsteps'.computeTargetKey (by simp [acceptedSeq?])

end Receive

/-- The calls that leave nothing behind unless they return `OK`: what passes Steps
1 to 3 either fits the declared length, or is a recorded duplicate in a store that
has nothing to prune. -/
def LeavesNothing (P : Primitives) (K : KeyOps κ) (channel : SecureChannel κ) (now : Instant)
    (envelopes : List UInt8) (seq : UInt64) (messageId : List UInt8) (outLen : ℕ) : Prop :=
  ¬ InvalidBufferLen envelopes.length → ∀ target payload,
    Authenticates P K channel (chunkEnvelopes envelopes) seq messageId target payload →
      if (seq, messageId) ∈ (channel.antiReplay.prune now).entries then
        channel.antiReplay.prune now = channel.antiReplay
      else payload.length ≤ outLen

/-- **When a receive can be retried.** For every channel and all arguments: a call
that does not return `OK` leaves the channel as it was, and after
`BUFFER_TOO_SMALL` the call with the length it asked for delivers the payload, if
and only if the packet, should it pass Steps 1 to 3, is fresh and fits the declared
length, or is a duplicate at which nothing is pruned. -/
theorem receive_retryable_iff (P : Primitives) (channel : SecureChannel RatchetKey)
    (now later : Instant) (envelopes : List UInt8) (seq : UInt64) (messageId : List UInt8)
    (out : List UInt8) (outLen : ℕ) :
    let K := RatchetKey.ops P
    let first := channelReceive P K channel now envelopes seq messageId out outLen
    let second := channelReceive P K first.channel later envelopes seq messageId out
      first.outLen
    ((first.code ≠ .OK → first.channel = channel) ∧
        (first.code = .BUFFER_TOO_SMALL → second.code = .OK ∧
          ∃ target payload,
            Authenticates P K channel (chunkEnvelopes envelopes) seq messageId target payload ∧
              second.out = overwrite out 0 payload ∧ second.outLen = payload.length)) ↔
      LeavesNothing P K channel now envelopes seq messageId outLen := by
  intro K first second
  -- The length checks, then Steps 1 to 3, then the anti-replay store, then the length.
  by_cases hrefused : messageId.length > maxMessageIdLen ∨ InvalidBufferLen envelopes.length
  · obtain ⟨_, hcode, hchannel⟩ := channelReceive_refused P K channel now seq out outLen hrefused
    refine iff_of_true ⟨fun _ => hchannel, fun h => absurd h hcode⟩ ?_
    intro hlength target payload hsteps
    rcases hrefused with hlong | hinvalid
    · exact absurd hsteps.messageId_le (Nat.not_le.2 hlong)
    · exact absurd hinvalid hlength
  rw [not_or, not_lt] at hrefused
  obtain ⟨hmessageId, hlength⟩ := hrefused
  by_cases hsteps : ∃ target payload,
      Authenticates P K channel (chunkEnvelopes envelopes) seq messageId target payload
  · obtain ⟨target, payload, hsteps⟩ := hsteps
    have hreceive := receive_of_steps now hsteps
    by_cases hduplicate : (seq, messageId) ∈ (channel.antiReplay.prune now).entries
    · rw [if_pos hduplicate] at hreceive
      have hfirst : first = _ := channelReceive_of_error hmessageId hlength hreceive
      constructor
      · rintro ⟨hunchanged, _⟩ _ target' payload' hsteps'
        rw [if_pos hduplicate]
        have hchannel := hunchanged (by simp [hfirst])
        rw [hfirst] at hchannel
        exact congrArg SecureChannel.antiReplay hchannel
      · intro h
        have hpruned := h hlength target payload hsteps
        rw [if_pos hduplicate] at hpruned
        rw [hfirst, hpruned]
        exact ⟨fun _ => rfl, fun hcode => absurd hcode (by simp)⟩
    · rw [if_neg hduplicate] at hreceive
      have hfirst : first = _ := channelReceive_of_ok hmessageId hlength hreceive
      by_cases hfits : payload.length ≤ outLen
      · rw [if_neg (Nat.not_lt.2 hfits)] at hfirst
        rw [hfirst]
        refine iff_of_true ⟨fun h => absurd rfl h, fun h => absurd h (by simp)⟩ ?_
        intro _ target' payload' hsteps'
        rw [if_neg hduplicate, hsteps'.payload_unique hsteps]
        exact hfits
      · -- The packet has been accepted, so the channel cannot be as it was.
        rw [if_pos (Nat.lt_of_not_le hfits)] at hfirst
        constructor
        · rintro ⟨hunchanged, _⟩
          have hchannel := hunchanged (by simp [hfirst])
          rw [hfirst] at hchannel
          exact absurd hchannel (commit_ne hsteps.computeTargetKey _)
        · intro h
          have hfits' := h hlength target payload hsteps
          rw [if_neg hduplicate] at hfits'
          exact absurd hfits' hfits
  · obtain ⟨e, hreceive⟩ := receive_of_no_steps now hsteps
    have hfirst : first = _ := channelReceive_of_error hmessageId hlength hreceive
    rw [hfirst]
    refine iff_of_true ⟨fun _ => rfl, fun h => absurd h (by simp)⟩ ?_
    intro _ target payload hsteps'
    exact absurd ⟨target, payload, hsteps'⟩ hsteps

/-- A genuine first packet, received with a declared length of 0: the call asks for
1 byte, the channel has moved on, and the call with that length is refused as a
replay. -/
theorem short_buffer_consumes :
    let K := RatchetKey.ops counterPrimitives
    let channel := SecureChannel.new (counterKey 0) 2
    let envelopes := (counterPackets 2 [counterSend [10] [1]]).flatMap fun packet =>
      packet.envelopes.flatMap List.Vector.toList
    let first := channelReceive counterPrimitives K channel 0 envelopes 0 [1] [0] 0
    let second := channelReceive counterPrimitives K first.channel 0 envelopes 0 [1] [0]
      first.outLen
    (first.code = .BUFFER_TOO_SMALL ∧ first.outLen = 1 ∧ first.channel.lastSeq = some 0 ∧
        second.code = .REPLAYED_SEQUENCE) ∧
      ¬ ((first.code ≠ .OK → first.channel = channel) ∧
        (first.code = .BUFFER_TOO_SMALL → second.code = .OK)) := by
  intro K channel envelopes first second
  have hrun : first.code = .BUFFER_TOO_SMALL ∧ first.outLen = 1 ∧
      first.channel.lastSeq = some 0 ∧ second.code = .REPLAYED_SEQUENCE := by
    decide +kernel
  refine ⟨hrun, ?_⟩
  obtain ⟨hcode, -, hlast, -⟩ := hrun
  rintro ⟨hunchanged, _⟩
  rw [hunchanged (by simp [hcode])] at hlast
  cases hlast

end NullPath
