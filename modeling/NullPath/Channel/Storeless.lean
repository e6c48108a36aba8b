import NullPath.Channel.AtMostOnce
import NullPath.Transition.Refinement

/-!
# The channel without its store

Acceptance does not rest on the anti-replay store: an accepted number has left the window,
so a packet that authenticates is never recorded. A channel whose store is wiped before each
call and whose clock stands still gives the same replies and holds the same keys; only why
a late number is refused may read differently. So neither the clock nor the capacity and the
time window of the store decide what is accepted (`store_decides_no_acceptance`).
-/

namespace NullPath

open Transition

variable {κ : Type*} {P : Primitives} {K : KeyOps κ}

/-- The reasons for which a late number is refused read alike. -/
def ChannelError.unlabelled : ChannelError → ChannelError
  | .SkippedKeyExpired => .ReplayedSequence
  | e => e

/-- A reply up to the reason for which a late number is refused. -/
def Reply.unlabelled : Reply → Reply
  | .received result => .received (result.mapError ChannelError.unlabelled)
  | .sent result => .sent result

/-- A call whose clock stands still. -/
def Call.unclocked : Call → Call
  | .send args => .send args
  | .receive args => .receive { args with now := 0 }

namespace SecureChannel

/-- A channel with another store. -/
def withStore (channel : SecureChannel κ) (store : AntiReplayStore) : SecureChannel κ :=
  { channel with antiReplay := store }

variable (channel : SecureChannel κ) (store : AntiReplayStore)

theorem computeTargetKey_withStore (seq : UInt64) (messageId : List UInt8) :
    ((channel.withStore store).computeTargetKey K seq messageId).mapError
        ChannelError.unlabelled =
      (channel.computeTargetKey K seq messageId).mapError ChannelError.unlabelled := by
  unfold computeTargetKey withStore
  cases channel.lastSeq with
  | none => rfl
  | some last =>
      dsimp only
      by_cases hforward : seq > last
      · rw [if_pos hforward, if_pos hforward]
      · rw [if_neg hforward, if_neg hforward]
        cases channel.skippedKeys.get? seq with
        | some key => rfl
        | none =>
            dsimp only
            split_ifs <;> rfl

theorem authenticate_withStore (envelopes : List Envelope) (seq : UInt64)
    (messageId : List UInt8) :
    ((channel.withStore store).authenticate P K envelopes seq messageId).mapError
        ChannelError.unlabelled =
      (channel.authenticate P K envelopes seq messageId).mapError ChannelError.unlabelled := by
  have htarget := channel.computeTargetKey_withStore (K := K) store seq messageId
  have hpaths : (channel.withStore store).nPaths = channel.nPaths := rfl
  unfold authenticate
  rw [hpaths]
  split_ifs
  · rfl
  · rfl
  · cases hwith : (channel.withStore store).computeTargetKey K seq messageId with
    | error e =>
        cases hown : channel.computeTargetKey K seq messageId with
        | error e' =>
            rw [hwith, hown] at htarget
            exact congrArg Except.error (Except.error.inj htarget)
        | ok target =>
            rw [hwith, hown] at htarget
            cases htarget
    | ok target =>
        cases hown : channel.computeTargetKey K seq messageId with
        | error e =>
            rw [hwith, hown] at htarget
            cases htarget
        | ok target' =>
            rw [hwith, hown] at htarget
            rw [Except.ok.inj htarget]

theorem send_withStore (coins : SendCoins) (payload messageId : List UInt8) :
    (channel.withStore store).send P K coins payload messageId =
      ((channel.send P K coins payload messageId).1,
        (channel.send P K coins payload messageId).2.withStore store) := by
  unfold send withStore
  dsimp only
  split_ifs
  · rfl
  · cases selectSlot P (K.bytes channel.currentKey).toList messageId channel.nPaths with
    | error e => rfl
    | ok validSlot =>
        dsimp only
        cases Envelope.seal P coins.realCoins (K.bytes channel.currentKey) payload
            (constructAad (nextSendSeq channel.sendSeq) messageId) with
        | error e => rfl
        | ok realEnvelope =>
            dsimp only
            cases generateMultiPathSlots P coins.decoyCoins realEnvelope validSlot
              channel.nPaths (constructAad (nextSendSeq channel.sendSeq) messageId) <;> rfl

theorem commit_withStore (seq : UInt64) (target : Target κ) :
    (channel.withStore store).commit seq target = (channel.commit seq target).withStore store := by
  unfold commit evictOldestSkippedKeys withStore
  split_ifs <;> rfl

end SecureChannel

theorem Bookkeeping.withStore {accepted : List UInt64} {channel : SecureChannel κ}
    (h : Bookkeeping accepted channel) {store : AntiReplayStore} (hstore : store.entries = ∅) :
    Bookkeeping accepted (channel.withStore store) where
  nodup := h.nodup
  accepted_lt := h.accepted_lt
  accepted_not_skipped := h.accepted_not_skipped
  skipped_lt := h.skipped_lt
  recorded_accepted s messageId hmem := by
    change _ ∈ store.entries at hmem
    rw [hstore] at hmem
    exact absurd hmem Finmap.notMem_empty

/-- With its bookkeeping in order a channel receives by its keys alone: whether a packet is
accepted, and what it leaves, does not depend on the store and the clock. -/
theorem receive_of_books {accepted : List UInt64} {channel : SecureChannel κ}
    (h : Bookkeeping accepted channel) (now : Instant) (envelopes : List Envelope) (seq : UInt64)
    (messageId : List UInt8) :
    channel.receive P K now envelopes seq messageId =
      match channel.authenticate P K envelopes seq messageId with
      | .error e => (.error e, channel)
      | .ok (target, payload) => (.ok payload, (channel.commit seq target).withStore
          (channel.antiReplay.checkAndInsert now seq messageId).2) := by
  unfold SecureChannel.receive
  cases hauth : channel.authenticate P K envelopes seq messageId with
  | error e => rfl
  | ok opened =>
      obtain ⟨target, payload⟩ := opened
      have hfresh := h.checkAndInsert_of_target now
        (authenticate_eq_ok_iff.1 hauth).computeTargetKey
      simp only [hfresh, if_true]
      rw [← SecureChannel.commit_withStore]
      rfl

/-- One call on a channel whose store is wiped and whose clock stands still. -/
def wipedStep (P : Primitives) (K : KeyOps κ) (channel : SecureChannel κ) (call : Call) :
    Reply × SecureChannel κ :=
  let result := callStep P K (channel.withStore .new) call.unclocked
  (result.1.unlabelled, result.2.withStore .new)

theorem wipedStep_withStore {accepted : List UInt64} {channel : SecureChannel κ}
    (hbooks : Bookkeeping accepted channel) (call : Call) :
    wipedStep P K (channel.withStore .new) call.unclocked =
      ((callStep P K channel call).1.unlabelled,
        (callStep P K channel call).2.withStore .new) := by
  unfold wipedStep
  cases call with
  | send args =>
      change (Reply.unlabelled (.sent ((channel.withStore .new).send P K args.coins args.payload
        args.messageId).1), ((channel.withStore .new).send P K args.coins args.payload
          args.messageId).2.withStore .new) = _
      rw [channel.send_withStore]
      rfl
  | receive args =>
      have hauth := channel.authenticate_withStore (P := P) (K := K) .new args.envelopes args.seq
        args.messageId
      have hwiped : Bookkeeping accepted (channel.withStore .new) := hbooks.withStore rfl
      change (Reply.unlabelled (.received ((channel.withStore .new).receive P K 0 args.envelopes
        args.seq args.messageId).1), ((channel.withStore .new).receive P K 0 args.envelopes
          args.seq args.messageId).2.withStore .new) = _
      rw [receive_of_books hwiped, callStep, receive_of_books hbooks]
      cases hown : channel.authenticate P K args.envelopes args.seq args.messageId with
      | error e =>
          cases hwith : (channel.withStore .new).authenticate P K args.envelopes args.seq
              args.messageId with
          | error e' =>
              rw [hown, hwith] at hauth
              have herror : e'.unlabelled = e.unlabelled := Except.error.inj hauth
              dsimp only [Reply.unlabelled, Except.mapError]
              rw [herror]
              rfl
          | ok opened =>
              rw [hown, hwith] at hauth
              cases hauth
      | ok opened =>
          cases hwith : (channel.withStore .new).authenticate P K args.envelopes args.seq
              args.messageId with
          | error e' =>
              rw [hown, hwith] at hauth
              cases hauth
          | ok opened' =>
              rw [hown, hwith] at hauth
              rw [Except.ok.inj hauth]
              dsimp only
              rw [SecureChannel.commit_withStore]
              rfl

/-- A run from a channel in order is a run of the wiped channel. -/
theorem trace_wiped {channel : SecureChannel κ} (h : Bookkeeping [] channel)
    (calls : List Call) :
    (trace (wipedStep P K) (channel.withStore .new) (calls.map Call.unclocked)).map Event.output =
        (trace (callStep P K) channel calls).map (fun e => e.output.unlabelled) ∧
      final (wipedStep P K) (channel.withStore .new) (calls.map Call.unclocked) =
        (final (callStep P K) channel calls).withStore .new := by
  have hbooks : ∀ e ∈ trace (callStep P K) channel calls,
      ∃ accepted, Bookkeeping accepted e.before := by
    intro e he
    have hstep : ∀ (channel : SecureChannel κ) (call : Call),
        (∃ accepted, Bookkeeping accepted channel) →
          ∃ accepted, Bookkeeping accepted (callStep P K channel call).2 := by
      rintro channel call ⟨accepted, hchannel⟩
      exact ⟨_, hchannel.preserved (callStep_effect P K channel call)⟩
    exact before_of_mem_trace (callStep P K)
      (p := fun channel => ∃ accepted, Bookkeeping accepted channel) ⟨[], h⟩ hstep he
  have hinputs : (trace (callStep P K) channel calls).map (fun e => e.input.unclocked) =
      calls.map Call.unclocked := by
    conv_rhs => rw [← trace_inputs (callStep P K) channel calls, List.map_map]
    rfl
  have hrefines : ∀ e ∈ trace (callStep P K) channel calls,
      e.Refines (callStep P K) (wipedStep P K) (SecureChannel.withStore · .new)
        (fun e => e.input.unclocked) (fun e => e.output.unlabelled) := by
    intro e he
    obtain ⟨accepted, hbefore⟩ := hbooks e he
    have hstep := wipedStep_withStore (P := P) (K := K) hbefore e.input
    have houtput : e.output = (callStep P K e.before e.input).1 :=
      congrArg Event.output (eq_event_of_mem_trace (callStep P K) he)
    rw [← houtput] at hstep
    exact hstep
  rw [← hinputs]
  exact trace_refines hrefines

/-- **The store decides no acceptance.** Two channels over one root key whose stores have any
capacity and any time window, and two runs of the same calls at any readings of the clock:
the replies agree, up to the reason for which a late number is refused, and so do the
channels at the end in all but the store. -/
theorem store_decides_no_acceptance (P : Primitives) (rootKey : RatchetKey)
    (nPaths capacity windowSecs capacity' windowSecs' : ℕ) (calls calls' : List Call)
    (hcalls : calls.map Call.unclocked = calls'.map Call.unclocked) :
    let step := callStep P (RatchetKey.ops P)
    let channel := (SecureChannel.new rootKey nPaths).withStore
      (.withCapacityAndWindow capacity windowSecs)
    let channel' := (SecureChannel.new rootKey nPaths).withStore
      (.withCapacityAndWindow capacity' windowSecs')
    (trace step channel calls).map (fun e => e.output.unlabelled) =
        (trace step channel' calls').map (fun e => e.output.unlabelled) ∧
      (final step channel calls).withStore .new = (final step channel' calls').withStore .new := by
  intro step channel channel'
  have hbooks : Bookkeeping [] channel := (Bookkeeping.new rootKey nPaths).withStore rfl
  have hbooks' : Bookkeeping [] channel' := (Bookkeeping.new rootKey nPaths).withStore rfl
  obtain ⟨houtputs, hfinal⟩ := trace_wiped (P := P) (K := RatchetKey.ops P) hbooks calls
  obtain ⟨houtputs', hfinal'⟩ := trace_wiped (P := P) (K := RatchetKey.ops P) hbooks' calls'
  rw [hcalls] at houtputs hfinal
  exact ⟨houtputs.symm.trans houtputs', hfinal.symm.trans hfinal'⟩

/-- A replay of number 0 after number 1: a store for one entry has forgotten it, one that is
large enough has not, and the replies differ in the reason of the refusal only. -/
theorem store_decides_no_acceptance_replay :
    let step := callStep counterPrimitives (RatchetKey.ops counterPrimitives)
    let packets := counterPackets 2 [counterSend [10] [1], counterSend [11] [2]]
    let calls (now : Instant) := (packets ++ packets.take 1).map fun packet =>
      Call.receive (packet.arrive now)
    let small := (SecureChannel.new (counterKey 0) 2).withStore (.withCapacityAndWindow 1 300)
    let large := (SecureChannel.new (counterKey 0) 2).withStore (.withCapacityAndWindow 10 300)
    (trace step small (calls 0)).map Event.output =
        [.received (.ok [10]), .received (.ok [11]), .received (.error .SkippedKeyExpired)] ∧
      (trace step large (calls 5)).map Event.output =
        [.received (.ok [10]), .received (.ok [11]), .received (.error .ReplayedSequence)] ∧
      (trace step small (calls 0)).map (fun e => e.output.unlabelled) =
        (trace step large (calls 5)).map (fun e => e.output.unlabelled) := by
  intro step packets calls small large
  have hcalls : (calls 0).map Call.unclocked = (calls 5).map Call.unclocked := by
    rw [List.map_map, List.map_map]
    rfl
  have hreplies := (store_decides_no_acceptance counterPrimitives (counterKey 0) 2 1 300 10 300
    (calls 0) (calls 5) hcalls).1
  exact ⟨by decide +kernel, by decide +kernel, hreplies⟩

end NullPath
