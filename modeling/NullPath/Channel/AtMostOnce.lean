import NullPath.Channel.Counter

/-!
# At-most-once acceptance and untouched rejections

The anti-replay store forgets entries by age and by capacity, so it cannot be
what keeps a number from being accepted twice. What does is kept by
`Bookkeeping`: an accepted number lies below the expected one and has no
skipped key, so neither a forward nor a late arrival can serve it again; and
the store records accepted numbers only, so its check never fails once a packet
has authenticated.

Nothing is assumed about the cipher, the clock readings or the arguments of the
calls.
-/

namespace NullPath

open Transition

variable {κ : Type*} {P : Primitives} {K : KeyOps κ}

/-- How the accepted numbers, the expected number, the skipped keys and the
anti-replay store of a channel fit together. -/
structure Bookkeeping (accepted : List UInt64) (channel : SecureChannel κ) : Prop where
  nodup : accepted.Nodup
  accepted_lt : ∀ s ∈ accepted, s.toNat < expectedSeq channel.lastSeq
  accepted_not_skipped : ∀ s ∈ accepted, channel.skippedKeys.get? s = none
  skipped_lt : ∀ s key, channel.skippedKeys.get? s = some key →
    s.toNat < expectedSeq channel.lastSeq
  recorded_accepted : ∀ s messageId, (s, messageId) ∈ channel.antiReplay.entries →
    s ∈ accepted

namespace Bookkeeping

variable {accepted : List UInt64} {channel : SecureChannel κ} {seq : UInt64}
  {messageId : List UInt8} {target : Target κ}

theorem new (rootKey : κ) (nPaths : ℕ) :
    Bookkeeping [] (SecureChannel.new rootKey nPaths) where
  nodup := List.nodup_nil
  accepted_lt _ h := absurd h List.not_mem_nil
  accepted_not_skipped _ h := absurd h List.not_mem_nil
  skipped_lt s key h := by
    rw [SecureChannel.new, SortedMap.get?_empty] at h
    cases h
  recorded_accepted s messageId h := absurd h Finmap.notMem_empty

/-- A number that Step 1 serves was not accepted before. -/
theorem fresh_of_target (h : Bookkeeping accepted channel)
    (htarget : channel.computeTargetKey K seq messageId = .ok target) :
    seq ∉ accepted := by
  intro hmem
  rcases computeTargetKey_cases htarget with hforward | hlate
  · exact absurd (h.accepted_lt seq hmem) (Nat.not_lt.2 hforward.expected_le)
  · have hnone := h.accepted_not_skipped seq hmem
    rw [hlate.targetKey] at hnone
    cases hnone

theorem checkAndInsert_of_target (h : Bookkeeping accepted channel) (now : Instant)
    (htarget : channel.computeTargetKey K seq messageId = .ok target) :
    (channel.antiReplay.checkAndInsert now seq messageId).1 = true :=
  AntiReplayStore.checkAndInsert_fresh fun hmem =>
    h.fresh_of_target htarget (h.recorded_accepted seq messageId hmem)

theorem advanceSender (h : Bookkeeping accepted channel) :
    Bookkeeping accepted (advanceSender K channel) :=
  ⟨h.nodup, h.accepted_lt, h.accepted_not_skipped, h.skipped_lt, h.recorded_accepted⟩

theorem recorded_after_check (h : Bookkeeping accepted channel) (now : Instant)
    {s : UInt64} {id : List UInt8}
    (hmem : (s, id) ∈ (channel.antiReplay.checkAndInsert now seq messageId).2.entries) :
    s ∈ accepted ++ [seq] := by
  rcases AntiReplayStore.mem_checkAndInsert hmem with heq | hold
  · rw [(Prod.mk.inj heq).1]
    exact List.mem_append_right _ (List.mem_singleton_self seq)
  · exact List.mem_append_left _ (h.recorded_accepted s id hold)

theorem merged_fresh (h : Bookkeeping accepted channel)
    (hforward : ForwardTarget K channel seq target) {s : UInt64} {key : κ}
    (hget : (channel.skippedKeys.insertAll target.localSkipped).get? s = some key) :
    s.toNat < seq.toNat ∧ s ∉ accepted := by
  rw [hforward.get?_merged] at hget
  split_ifs at hget with hrange
  · refine ⟨hrange.2, fun hmem => ?_⟩
    exact absurd (h.accepted_lt s hmem) (Nat.not_lt.2 hrange.1)
  · refine ⟨(h.skipped_lt s key hget).trans_le hforward.expected_le, fun hmem => ?_⟩
    rw [h.accepted_not_skipped s hmem] at hget
    cases hget

/-- A forward arrival keeps the bookkeeping: its number lies above everything
accepted, and what it parks lies between. -/
theorem forward (h : Bookkeeping accepted channel) (hfresh : seq ∉ accepted) (now : Instant)
    (messageId : List UInt8) (hforward : ForwardTarget K channel seq target) :
    Bookkeeping (accepted ++ [seq])
      ({ channel with
        antiReplay := (channel.antiReplay.checkAndInsert now seq messageId).2 }.commit seq
          target) := by
  rw [commit_forward _ seq hforward.isForward hforward.nextRatchetKey]
  have hexpected := hforward.expected_le
  have hskipped : ∀ s key, ((channel.skippedKeys.insertAll target.localSkipped).evict
      maxSkippedKeys).get? s = some key → s.toNat < seq.toNat ∧ s ∉ accepted :=
    fun s key hget => h.merged_fresh hforward (SortedMap.get?_of_get?_evict hget)
  refine ⟨?_, ?_, ?_, ?_, ?_⟩
  · rw [← List.concat_eq_append]
    exact List.Nodup.concat hfresh h.nodup
  · intro s hs
    rcases List.mem_append.1 hs with hs | hs
    · exact ((h.accepted_lt s hs).trans_le hexpected).trans (Nat.lt_succ_self _)
    · rw [List.mem_singleton.1 hs]
      exact Nat.lt_succ_self _
  · intro s hs
    rcases hget : ((channel.skippedKeys.insertAll target.localSkipped).evict
        maxSkippedKeys).get? s with _ | key
    · rfl
    · obtain ⟨hlt, hnot⟩ := hskipped s key hget
      rcases List.mem_append.1 hs with hs | hs
      · exact absurd hs hnot
      · rw [List.mem_singleton.1 hs] at hlt
        exact absurd hlt (Nat.lt_irrefl _)
  · intro s key hget
    exact (hskipped s key hget).1.trans (Nat.lt_succ_self _)
  · intro s id hmem
    exact h.recorded_after_check now hmem

theorem late (h : Bookkeeping accepted channel) (hfresh : seq ∉ accepted) (now : Instant)
    (messageId : List UInt8) (hlate : LateTarget channel seq target) :
    Bookkeeping (accepted ++ [seq])
      ({ channel with
        antiReplay := (channel.antiReplay.checkAndInsert now seq messageId).2 }.commit seq
          target) := by
  rw [commit_late _ seq hlate.isForward]
  refine ⟨?_, ?_, ?_, ?_, ?_⟩
  · rw [← List.concat_eq_append]
    exact List.Nodup.concat hfresh h.nodup
  · intro s hs
    rcases List.mem_append.1 hs with hs | hs
    · exact h.accepted_lt s hs
    · rw [List.mem_singleton.1 hs]
      exact hlate.lt_expected
  · intro s hs
    rw [SortedMap.get?_erase]
    split_ifs with heq
    · rfl
    · rcases List.mem_append.1 hs with hs | hs
      · exact h.accepted_not_skipped s hs
      · exact absurd (List.mem_singleton.1 hs) heq
  · intro s key hget
    rw [SortedMap.get?_erase] at hget
    split_ifs at hget
    exact h.skipped_lt s key hget
  · intro s id hmem
    exact h.recorded_after_check now hmem

/-- Every effect of a call keeps the bookkeeping. -/
theorem preserved {call : Call} {reply : Reply} {channel' : SecureChannel κ}
    (h : Bookkeeping accepted channel) (heffect : CallEffect P K channel call reply channel') :
    Bookkeeping (accepted ++ (acceptedSeq? ⟨channel, call, reply⟩).toList) channel' := by
  cases heffect with
  | notSent => simpa [acceptedSeq?] using h
  | lost => simpa [acceptedSeq?] using h.advanceSender
  | sent => simpa [acceptedSeq?] using h.advanceSender
  | refused => simpa [acceptedSeq?] using h
  | stale args target payload hsteps hstale =>
      rw [h.checkAndInsert_of_target args.now hsteps.computeTargetKey] at hstale
      cases hstale
  | opened args target payload hsteps =>
      have hfresh := h.fresh_of_target hsteps.computeTargetKey
      rcases computeTargetKey_cases hsteps.computeTargetKey with hforward | hlate
      · exact h.forward hfresh args.now args.messageId hforward
      · exact h.late hfresh args.now args.messageId hlate

/-- The bookkeeping holds after every run. -/
theorem run (P : Primitives) (K : KeyOps κ) (rootKey : κ) (nPaths : ℕ) (calls : List Call) :
    Bookkeeping (acceptedSeqs (runTrace P K rootKey nPaths calls))
      (runChannel P K rootKey nPaths calls) := by
  refine run_induction (fun _ => True)
    (motive := fun past channel => Bookkeeping (acceptedSeqs past) channel)
    (Bookkeeping.new rootKey nPaths) ?_ calls fun _ _ => trivial
  intro past channel call reply channel' _ h heffect
  rw [acceptedSeqs_concat]
  exact h.preserved heffect

end Bookkeeping

/-- **At-most-once acceptance.** No run of calls on a fresh channel accepts two
packets with the same sequence number, whatever the calls are and whatever the
anti-replay store has forgotten. -/
theorem accepted_at_most_once (P : Primitives) (rootKey : RatchetKey) (nPaths : ℕ)
    (calls : List Call) :
    (acceptedSeqs (runTrace P (RatchetKey.ops P) rootKey nPaths calls)).Nodup :=
  (Bookkeeping.run P (RatchetKey.ops P) rootKey nPaths calls).nodup

/-- A `receive` on a channel with its bookkeeping in order either accepts or
leaves the whole channel as it was. -/
theorem receive_error_unchanged {accepted : List UInt64} {channel : SecureChannel κ}
    (h : Bookkeeping accepted channel) (now : Instant) (envelopes : List Envelope)
    (seq : UInt64) (messageId : List UInt8) {e : ChannelError}
    (herror : (channel.receive P K now envelopes seq messageId).1 = .error e) :
    (channel.receive P K now envelopes seq messageId).2 = channel := by
  rcases receive_cases (P := P) (K := K) channel now envelopes seq messageId with
    ⟨e', hreceive⟩ | ⟨target, payload, hsteps, hstale, _⟩ | ⟨target, payload, _, _, hreceive⟩
  · rw [hreceive]
  · rw [h.checkAndInsert_of_target now hsteps.computeTargetKey] at hstale
    cases hstale
  · rw [hreceive] at herror
    cases herror

/-- A packet that passes Steps 1 to 3 on such a channel is accepted. -/
theorem receive_of_authenticates {accepted : List UInt64} {channel : SecureChannel κ}
    (h : Bookkeeping accepted channel) (now : Instant) {envelopes : List Envelope}
    {seq : UInt64} {messageId payload : List UInt8} {target : Target κ}
    (hsteps : Authenticates P K channel envelopes seq messageId target payload) :
    channel.receive P K now envelopes seq messageId = (.ok payload,
      { channel with
        antiReplay := (channel.antiReplay.checkAndInsert now seq messageId).2 }.commit seq
          target) := by
  have hauth := authenticate_eq_ok_iff.2 hsteps
  have hfresh := h.checkAndInsert_of_target now hsteps.computeTargetKey
  simp [SecureChannel.receive, hauth, hfresh]

/-- **Zero mutation on rejection.** After any run, a `receive` that returns an
error leaves the channel exactly as it was, and the rejection of Step 4 is never
taken: what passes Steps 1 to 3 passes the anti-replay store. -/
theorem rejection_leaves_channel (P : Primitives) (rootKey : RatchetKey) (nPaths : ℕ)
    (calls : List Call) (now : Instant) (envelopes : List Envelope) (seq : UInt64)
    (messageId : List UInt8) :
    let K := RatchetKey.ops P
    let channel := runChannel P K rootKey nPaths calls
    (∀ e, (channel.receive P K now envelopes seq messageId).1 = .error e →
      (channel.receive P K now envelopes seq messageId).2 = channel) ∧
    ∀ target payload, channel.authenticate P K envelopes seq messageId = .ok (target, payload) →
      (channel.antiReplay.checkAndInsert now seq messageId).1 = true := by
  intro K channel
  have hbooks := Bookkeeping.run P K rootKey nPaths calls
  refine ⟨fun e herror => ?_, fun target payload hauth => ?_⟩
  · exact receive_error_unchanged hbooks now envelopes seq messageId herror
  · exact hbooks.checkAndInsert_of_target now
      (authenticate_eq_ok_iff.1 hauth).computeTargetKey

/-- A replayed packet is refused and leaves the channel as it was, and the next
packet, which authenticates, passes the store. -/
theorem replay_leaves_channel :
    let K := RatchetKey.ops counterPrimitives
    let packets := counterPackets 2 [counterSend [10] [1], counterSend [11] [2]]
    let channel := runChannel counterPrimitives K (counterKey 0) 2
      ((arrivals (packets.take 1)).map Call.receive)
    (channel.receive counterPrimitives K 5 ((packets.take 1).flatMap Packet.envelopes)
        0 [1]).2 = channel ∧
      (channel.antiReplay.checkAndInsert 5 1 [2]).1 = true := by
  intro K packets channel
  refine ⟨(rejection_leaves_channel counterPrimitives (counterKey 0) 2 _ 5 _ 0 [1]).1
    .ReplayedSequence (by decide +kernel), ?_⟩
  have hauth : (channel.authenticate counterPrimitives K
      ((packets.drop 1).flatMap Packet.envelopes) 1 [2]).toOption.isSome = true := by
    decide +kernel
  cases hresult : channel.authenticate counterPrimitives K
      ((packets.drop 1).flatMap Packet.envelopes) 1 [2] with
  | error e =>
      rw [hresult] at hauth
      cases hauth
  | ok result =>
      exact (rejection_leaves_channel counterPrimitives (counterKey 0) 2 _ 5 _ 1 [2]).2
        result.1 result.2 hresult

end NullPath
