import NullPath.AntiReplay.Cost
import NullPath.Channel.Checked
import NullPath.Channel.Opening

/-!
# What receiving costs

A packet can make `receive` step the ratchet as far as the skip window reaches, merge as
many keys into the table and pop as many from it, whether or not it is accepted. The work
on accepted packets is paid by the progress of the window: three for each number that the
ratchet passes, since a number is derived, stored and evicted once. Only a refused packet
wastes its derivations (`receive_work_amortized`).
-/

namespace NullPath

open Transition

/-- The reply of a `receive` that fails. -/
def Reply.isRefused : Reply → Bool
  | .received (.error _) => true
  | _ => false

namespace SecureChannel

/-- The rounds of the loops of Step 5: one for each key merged, and one for each key popped
over capacity. -/
def commitRounds (channel : SecureChannel RatchetKey) (target : Target RatchetKey) : ℕ :=
  if target.isForward then
    target.localSkipped.len +
      ((channel.skippedKeys.insertAll target.localSkipped).len - maxSkippedKeys)
  else 0

/-- The work of a `receive`: the keys it derives, and the rounds of all loops of the store
and of Step 5. -/
def receiveWork (P : Primitives) (channel : SecureChannel RatchetKey) (args : ReceiveArgs) : ℕ :=
  channel.derivations args.envelopes args.seq args.messageId +
    match channel.authenticate P (RatchetKey.ops P) args.envelopes args.seq args.messageId with
    | .error _ => 0
    | .ok (target, _) =>
        channel.antiReplay.checkRounds args.now args.seq args.messageId +
          if (channel.antiReplay.checkAndInsert args.now args.seq args.messageId).1 then
            channel.commitRounds target
          else 0

/-- What a channel has stored. -/
def stored (channel : SecureChannel RatchetKey) : ℕ :=
  channel.antiReplay.queue.length + channel.skippedKeys.len

variable {P : Primitives} {channel : SecureChannel RatchetKey} {seq : UInt64}
  {messageId : List UInt8} {target : Target RatchetKey}

theorem targetDerivations_le (lastSeq : Option UInt64) (seq : UInt64) :
    targetDerivations lastSeq seq ≤ maxSkipWindow + 1 := by
  unfold targetDerivations
  cases lastSeq with
  | none =>
      dsimp only
      split_ifs with hwindow
      · exact Nat.zero_le _
      · exact Nat.succ_le_succ (Nat.le_of_not_gt hwindow)
  | some last =>
      dsimp only
      split_ifs with hwindow
      · exact hwindow.2.trans (Nat.le_succ _)
      · exact Nat.zero_le _

theorem derivations_le (channel : SecureChannel RatchetKey) (envelopes : List Envelope)
    (seq : UInt64) (messageId : List UInt8) :
    channel.derivations envelopes seq messageId ≤ 1001 := by
  unfold derivations
  split_ifs
  · exact Nat.zero_le _
  · exact Nat.zero_le _
  · exact targetDerivations_le _ _

theorem targetDerivations_of_late (hlate : seq.toNat < expectedSeq channel.lastSeq) :
    targetDerivations channel.lastSeq seq = 0 := by
  unfold targetDerivations
  cases hlast : channel.lastSeq with
  | none =>
      rw [hlast] at hlate
      exact absurd hlate (Nat.not_lt_zero _)
  | some last =>
      rw [hlast, expectedSeq_some] at hlate
      exact if_neg fun h => absurd h.1 (Nat.not_lt.2 (Nat.le_of_lt_succ hlate))

/-- A forward arrival derives as many keys as numbers are passed, and each of these is
stored and popped once at most. -/
theorem commit_forward_work (hforward : ForwardTarget (RatchetKey.ops P) channel seq target)
    (htarget : channel.computeTargetKey (RatchetKey.ops P) seq messageId = .ok target)
    (store : AntiReplayStore) :
    targetDerivations channel.lastSeq seq + channel.commitRounds target +
        ({ channel with antiReplay := store }.commit seq target).skippedKeys.len +
          3 * expectedSeq channel.lastSeq + 2 ≤
      channel.skippedKeys.len +
        3 * expectedSeq (({ channel with antiReplay := store }.commit seq target).lastSeq) := by
  have hderived := targetDerivations_of_servable (servable_of_computeTargetKey htarget)
    hforward.expected_le
  have hlocal : target.localSkipped.len ≤ seq.toNat - expectedSeq channel.lastSeq := by
    refine SortedMap.len_le_of_keys_mem UInt64.strictMono_toNat fun s key hget => ?_
    rw [hforward.localSkipped] at hget
    split_ifs at hget with hrange
    exact hrange
  have hmerged : (channel.skippedKeys.insertAll target.localSkipped).len ≤
      channel.skippedKeys.len + (seq.toNat - expectedSeq channel.lastSeq) := by
    refine SortedMap.len_le_add_of_keys_mem UInt64.strictMono_toNat fun s key hget => ?_
    rw [hforward.get?_merged] at hget
    split_ifs at hget with hrange
    · exact Or.inr hrange
    · exact Or.inl ⟨key, hget⟩
  have hexpected := hforward.expected_le
  rw [commit_forward _ seq hforward.isForward hforward.nextRatchetKey, expectedSeq_some]
  simp only [commitRounds, hforward.isForward, if_true, SortedMap.len_evict]
  omega

theorem commit_late_work (hlate : LateTarget channel seq target) (store : AntiReplayStore) :
    targetDerivations channel.lastSeq seq + channel.commitRounds target +
        ({ channel with antiReplay := store }.commit seq target).skippedKeys.len +
          3 * expectedSeq channel.lastSeq ≤
      channel.skippedKeys.len +
        3 * expectedSeq (({ channel with antiReplay := store }.commit seq target).lastSeq) := by
  have hlen := channel.skippedKeys.len_erase_le seq
  rw [targetDerivations_of_late hlate.lt_expected, commit_late _ seq hlate.isForward]
  simp only [commitRounds, hlate.isForward, Bool.false_eq_true, if_false]
  omega

theorem antiReplay_commit (channel : SecureChannel RatchetKey) (seq : UInt64)
    (target : Target RatchetKey) : (channel.commit seq target).antiReplay = channel.antiReplay := by
  unfold commit
  split_ifs <;> rfl

theorem accepted_work {args : ReceiveArgs} {payload : List UInt8}
    (hsteps : Authenticates P (RatchetKey.ops P) channel args.envelopes args.seq args.messageId
      target payload)
    (hfresh : (channel.antiReplay.checkAndInsert args.now args.seq args.messageId).1 = true) :
    let store := (channel.antiReplay.checkAndInsert args.now args.seq args.messageId).2
    let after := { channel with antiReplay := store }.commit args.seq target
    channel.receiveWork P args + after.stored + 3 * expectedSeq channel.lastSeq ≤
      channel.stored + 3 * expectedSeq after.lastSeq + 2 := by
  intro store after
  have hcheck : channel.antiReplay.checkRounds args.now args.seq args.messageId +
      store.queue.length ≤ channel.antiReplay.queue.length + 2 :=
    channel.antiReplay.checkRounds_add_length_le args.now args.seq args.messageId
  have hcommit : targetDerivations channel.lastSeq args.seq + channel.commitRounds target +
      after.skippedKeys.len + 3 * expectedSeq channel.lastSeq ≤
        channel.skippedKeys.len + 3 * expectedSeq after.lastSeq := by
    rcases computeTargetKey_cases hsteps.computeTargetKey with hforward | hlate
    · exact (Nat.le_add_right _ 2).trans
        (commit_forward_work hforward hsteps.computeTargetKey store)
    · exact commit_late_work hlate store
  have hqueue : after.antiReplay.queue = store.queue :=
    congrArg AntiReplayStore.queue (antiReplay_commit _ _ _)
  rw [receiveWork, authenticate_eq_ok_iff.2 hsteps, derivations,
    if_neg (Nat.not_lt.2 hsteps.messageId_le), if_neg (Nat.not_lt.2 hsteps.nPaths_le)]
  simp only [stored, hfresh, hqueue, if_true]
  omega

/-- What a `receive` does beyond its two rounds at the store is paid by the progress of the
window, or its packet is refused after at most 1001 derivations. -/
theorem receiveWork_add_stored_le (channel : SecureChannel RatchetKey) (args : ReceiveArgs) :
    let result := callStep P (RatchetKey.ops P) channel (.receive args)
    channel.receiveWork P args + result.2.stored + 3 * expectedSeq channel.lastSeq ≤
      channel.stored + 3 * expectedSeq result.2.lastSeq +
        (2 + if result.1.isRefused then 1001 else 0) := by
  intro result
  have hcheck := channel.antiReplay.checkRounds_add_length_le args.now args.seq args.messageId
  have hderived := channel.derivations_le args.envelopes args.seq args.messageId
  cases hauth : channel.authenticate P (RatchetKey.ops P) args.envelopes args.seq
      args.messageId with
  | error e =>
      have hresult : result = (.received (.error e), channel) := by
        simp only [result, callStep, receive, hauth]
      rw [hresult, receiveWork, hauth]
      simp only [Reply.isRefused, if_true]
      omega
  | ok opened =>
      obtain ⟨target, payload⟩ := opened
      cases hfresh : (channel.antiReplay.checkAndInsert args.now args.seq args.messageId).1 with
      | false =>
          have hresult : result = (.received (.error .ReplayedSequence), { channel with
              antiReplay :=
                (channel.antiReplay.checkAndInsert args.now args.seq args.messageId).2 }) := by
            simp only [result, callStep, receive, hauth, hfresh, Bool.false_eq_true, if_false]
          rw [hresult, receiveWork, hauth]
          simp only [Reply.isRefused, stored, hfresh, Bool.false_eq_true, if_true, if_false]
          omega
      | true =>
          have hresult : result = (.received (.ok payload), { channel with
              antiReplay :=
                (channel.antiReplay.checkAndInsert args.now args.seq args.messageId).2 }.commit
              args.seq target) := by
            simp only [result, callStep, receive, hauth, hfresh, if_true]
          have hwork := accepted_work (authenticate_eq_ok_iff.1 hauth) hfresh
          rw [hresult]
          exact hwork

end SecureChannel

/-- The work of a call; only receiving has loops that depend on the state. -/
def callWork (P : Primitives) (e : ChannelEvent RatchetKey) : ℕ :=
  match e.input with
  | .send _ => 0
  | .receive args => e.before.receiveWork P args

/-- **Receiving costs what it makes progress by.** Over any calls from any state of a
channel, all `receive` calls together derive keys and go through the loops of the store and
of Step 5 at most three times for each number that the channel passes, twice for each call,
1001 times for each refused packet, and once for each entry that the store and the table
held before and lost. -/
theorem receive_work_amortized (P : Primitives) (channel : SecureChannel RatchetKey)
    (calls : List Call) :
    let K := RatchetKey.ops P
    let after := final (callStep P K) channel calls
    let refused := (trace (callStep P K) channel calls).countP fun e => e.output.isRefused
    total (callStep P K) (callWork P) channel calls + after.stored +
        3 * expectedSeq channel.lastSeq ≤
      channel.stored + 3 * expectedSeq after.lastSeq + (2 * calls.length + 1001 * refused) := by
  intro K after refused
  have hbudget : total (callStep P K) (fun e => 2 + if e.output.isRefused then 1001 else 0)
      channel calls = 2 * calls.length + 1001 * refused := by
    rw [total_add, total_const, total_if (fun e : ChannelEvent RatchetKey => e.output.isRefused)
      1001]
  rw [← hbudget]
  refine total_add_potential_le SecureChannel.stored
    (fun channel => 3 * expectedSeq channel.lastSeq) ?_ channel calls
  intro channel call
  cases call with
  | send args =>
      have heffect := callStep_effect P K channel (.send args)
      rw [event]
      generalize callStep P K channel (.send args) = result at heffect ⊢
      obtain ⟨reply, channel'⟩ := result
      have hsame : channel'.stored = channel.stored ∧ channel'.lastSeq = channel.lastSeq := by
        cases heffect with
        | _ => exact ⟨rfl, rfl⟩
      dsimp only [callWork]
      rw [hsame.1, hsame.2]
      omega
  | receive args => exact channel.receiveWork_add_stored_le args

end NullPath
