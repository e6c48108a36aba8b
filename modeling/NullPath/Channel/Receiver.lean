import NullPath.Channel.AtMostOnce

/-!
# A channel that only receives

On such a channel the number of a message and its chain position agree, and the
table of skipped keys is determined by which numbers were accepted, except for
what eviction has cut off. `ReceiverState` says so with a low-water mark: the
table holds the keys of exactly the unaccepted numbers between the mark and the
expected number, and the mark stays a full window behind the last number.

The bound on the mark is a counting argument. When eviction cuts at a number,
the thousand keys it keeps lie above the cut and below the last number.
-/

namespace NullPath

open Transition

variable {κ : Type*} {P : Primitives} {K : KeyOps κ}

/-- The table of skipped keys is complete above the mark `low`. -/
structure CompleteAbove (K : KeyOps κ) (rootKey : κ) (accepted : List UInt64)
    (channel : SecureChannel κ) (low : ℕ) : Prop where
  low_le : low ≤ expectedSeq channel.lastSeq - 1 - maxSkipWindow
  get? : ∀ s, channel.skippedKeys.get? s =
    if low ≤ s.toNat ∧ s.toNat < expectedSeq channel.lastSeq ∧ s ∉ accepted then
      some (chain K rootKey s.toNat)
    else none

structure ReceiverState (K : KeyOps κ) (rootKey : κ) (accepted : List UInt64)
    (channel : SecureChannel κ) : Prop where
  books : Bookkeeping accepted channel
  last_accepted : ∀ last, channel.lastSeq = some last → last ∈ accepted
  currentKey : channel.currentKey = chain K rootKey (expectedSeq channel.lastSeq)
  complete : ∃ low, CompleteAbove K rootKey accepted channel low
  len_le : channel.skippedKeys.len ≤ maxSkippedKeys

namespace ReceiverState

variable {rootKey : κ} {accepted : List UInt64} {channel : SecureChannel κ}
  {seq : UInt64} {messageId : List UInt8} {target : Target κ}

theorem new (rootKey : κ) (nPaths : ℕ) :
    ReceiverState K rootKey [] (SecureChannel.new rootKey nPaths) where
  books := Bookkeeping.new rootKey nPaths
  last_accepted last h := by cases h
  currentKey := rfl
  complete := by
    refine ⟨0, Nat.zero_le _, fun s => ?_⟩
    rw [if_neg fun h => Nat.not_lt_zero _ h.2.1]
    rfl
  len_le := Nat.zero_le _

theorem targetKey_eq (h : ReceiverState K rootKey accepted channel)
    (htarget : channel.computeTargetKey K seq messageId = .ok target) :
    target.targetKey = chain K rootKey seq.toNat := by
  rcases computeTargetKey_cases htarget with hforward | hlate
  · have hkey := (hforward.keys_of_chain (n := 0) (by rw [h.currentKey, Nat.zero_add])).1
    rwa [Nat.zero_add] at hkey
  · obtain ⟨low, hcomplete⟩ := h.complete
    have hget := hlate.targetKey
    rw [hcomplete.get?] at hget
    split_ifs at hget
    exact (Option.some.inj hget).symm

theorem get?_merged {low : ℕ} (h : ReceiverState K rootKey accepted channel)
    (hcomplete : CompleteAbove K rootKey accepted channel low)
    (hforward : ForwardTarget K channel seq target) (s : UInt64) :
    (channel.skippedKeys.insertAll target.localSkipped).get? s =
      if low ≤ s.toNat ∧ s.toNat < seq.toNat ∧ s ∉ accepted then
        some (chain K rootKey s.toNat)
      else none := by
  have hexpected := hforward.expected_le
  have hlow := hcomplete.low_le
  rw [hforward.get?_merged, hcomplete.get? s]
  by_cases hold : s.toNat < expectedSeq channel.lastSeq
  · rw [if_neg fun hrange => Nat.not_le.2 hold hrange.1]
    have hbelow : s.toNat < seq.toNat := hold.trans_le hexpected
    simp only [hold, hbelow, true_and]
  · have hfresh : s ∉ accepted := fun hmem => hold (h.books.accepted_lt s hmem)
    have hfrom := Nat.le_of_not_lt hold
    by_cases hnew : s.toNat < seq.toNat
    · have hrange : low ≤ s.toNat ∧ s.toNat < seq.toNat ∧ s ∉ accepted :=
        ⟨by omega, hnew, hfresh⟩
      rw [if_pos ⟨hfrom, hnew⟩, if_pos hrange, h.currentKey, iterate_deriveNext_chain,
        Nat.add_sub_cancel' hfrom]
    · rw [if_neg fun hrange => hnew hrange.2, if_neg fun hrange => hold hrange.2.1,
        if_neg fun hrange => hnew hrange.2.1]

theorem range_concat_iff {low : ℕ} (s : UInt64) :
    (low ≤ s.toNat ∧ s.toNat < seq.toNat + 1 ∧ s ∉ accepted ++ [seq]) ↔
      (low ≤ s.toNat ∧ s.toNat < seq.toNat ∧ s ∉ accepted) := by
  have hne : s.toNat ≠ seq.toNat ↔ s ≠ seq := not_congr UInt64.toNat_inj
  rw [List.mem_append, List.mem_singleton, not_or]
  constructor
  · rintro ⟨hlow, hlt, hnot, hseq⟩
    exact ⟨hlow, Nat.lt_of_le_of_ne (Nat.le_of_lt_succ hlt) (hne.2 hseq), hnot⟩
  · rintro ⟨hlow, hlt, hnot⟩
    exact ⟨hlow, hlt.trans (Nat.lt_succ_self _), hnot, hne.1 (Nat.ne_of_lt hlt)⟩

/-- Eviction moves the mark to just above its cut, and no further than a window
behind the new number: the keys it keeps fill the numbers in between. -/
theorem exists_mark_evict {low : ℕ} {merged : SortedMap UInt64 κ}
    (hmerged : ∀ s, merged.get? s =
      if low ≤ s.toNat ∧ s.toNat < seq.toNat ∧ s ∉ accepted then
        some (chain K rootKey s.toNat)
      else none)
    (hlow : low ≤ seq.toNat - maxSkipWindow) :
    ∃ low' ≤ seq.toNat - maxSkipWindow, ∀ s, (merged.evict maxSkippedKeys).get? s =
      if low' ≤ s.toNat ∧ s.toNat < seq.toNat ∧ s ∉ accepted then
        some (chain K rootKey s.toNat)
      else none := by
  by_cases hfull : merged.len ≤ maxSkippedKeys
  · rw [SortedMap.evict_of_len_le hfull]
    exact ⟨low, hlow, hmerged⟩
  obtain ⟨cut, key, hcut, hevict⟩ := SortedMap.get?_evict (Nat.lt_of_not_le hfull)
  have hcutlow : low ≤ cut.toNat := by
    rw [hmerged cut] at hcut
    split_ifs at hcut with hrange
    exact hrange.1
  have hget : ∀ s, (merged.evict maxSkippedKeys).get? s =
      if cut.toNat + 1 ≤ s.toNat ∧ s.toNat < seq.toNat ∧ s ∉ accepted then
        some (chain K rootKey s.toNat)
      else none := by
    intro s
    rw [hevict s, hmerged s]
    by_cases habove : cut < s
    · have hle : cut.toNat + 1 ≤ s.toNat := UInt64.lt_iff_toNat_lt.1 habove
      have hlow' : low ≤ s.toNat := by omega
      simp only [habove, if_true, hle, hlow', true_and]
    · have hle : ¬ cut.toNat + 1 ≤ s.toNat := fun h => habove (UInt64.lt_iff_toNat_lt.2 h)
      rw [if_neg habove, if_neg fun hrange => hle hrange.1]
  -- The keys kept are as many as the table holds, and they lie in an interval.
  have hkept : maxSkippedKeys ≤ seq.toNat - (cut.toNat + 1) := by
    have hlen := SortedMap.len_evict maxSkippedKeys merged
    rw [min_eq_right (Nat.le_of_not_le hfull)] at hlen
    rw [← hlen]
    refine SortedMap.len_le_of_keys_mem UInt64.strictMono_toNat fun s key' hkey => ?_
    rw [hget s] at hkey
    split_ifs at hkey with hrange
    exact ⟨hrange.1, hrange.2.1⟩
  refine ⟨cut.toNat + 1, ?_, hget⟩
  simp only [maxSkippedKeys] at hkept
  simp only [maxSkipWindow]
  omega

theorem forward (h : ReceiverState K rootKey accepted channel) (now : Instant)
    (htarget : channel.computeTargetKey K seq messageId = .ok target)
    (hforward : ForwardTarget K channel seq target) :
    ReceiverState K rootKey (accepted ++ [seq])
      ({ channel with
        antiReplay := (channel.antiReplay.checkAndInsert now seq messageId).2 }.commit seq
          target) := by
  have hbooks := h.books.forward (h.books.fresh_of_target htarget) now messageId hforward
  have hkeys := hforward.keys_of_chain (n := 0) (by rw [h.currentKey, Nat.zero_add])
  obtain ⟨low, hcomplete⟩ := h.complete
  have hlow : low ≤ seq.toNat - maxSkipWindow :=
    hcomplete.low_le.trans
      (Nat.sub_le_sub_right ((Nat.sub_le _ 1).trans hforward.expected_le) _)
  obtain ⟨low', hlow', hget⟩ :=
    exists_mark_evict (h.get?_merged hcomplete hforward) hlow
  rw [commit_forward _ seq hforward.isForward hkeys.2] at hbooks ⊢
  refine ⟨hbooks, ?_, ?_, ⟨low', hlow', fun s => ?_⟩, ?_⟩
  · intro last hlast
    rw [Option.some.inj hlast]
    exact List.mem_append_right _ (List.mem_singleton_self _)
  · rw [Nat.zero_add]
    rfl
  · change ((channel.skippedKeys.insertAll target.localSkipped).evict
      maxSkippedKeys).get? s = _
    rw [hget s]
    simp only [expectedSeq_some, range_concat_iff]
  · change ((channel.skippedKeys.insertAll target.localSkipped).evict
      maxSkippedKeys).len ≤ _
    rw [SortedMap.len_evict]
    exact min_le_right _ _

theorem late (h : ReceiverState K rootKey accepted channel) (now : Instant)
    (htarget : channel.computeTargetKey K seq messageId = .ok target)
    (hlate : LateTarget channel seq target) :
    ReceiverState K rootKey (accepted ++ [seq])
      ({ channel with
        antiReplay := (channel.antiReplay.checkAndInsert now seq messageId).2 }.commit seq
          target) := by
  have hbooks := h.books.late (h.books.fresh_of_target htarget) now messageId hlate
  obtain ⟨low, hcomplete⟩ := h.complete
  rw [commit_late _ seq hlate.isForward] at hbooks ⊢
  refine ⟨hbooks, fun last hlast => List.mem_append_left _ (h.last_accepted last hlast),
    h.currentKey, ⟨low, hcomplete.low_le, fun s => ?_⟩,
    (SortedMap.len_erase_le _ seq).trans h.len_le⟩
  change (channel.skippedKeys.erase seq).get? s = _
  rw [SortedMap.get?_erase, hcomplete.get? s]
  by_cases hs : s = seq
  · simp [hs]
  · simp [hs]

/-- Every effect of a `receive` keeps the receiver state. -/
theorem preserved {args : ReceiveArgs} {reply : Reply} {channel' : SecureChannel κ}
    (h : ReceiverState K rootKey accepted channel)
    (heffect : CallEffect P K channel (.receive args) reply channel') :
    ReceiverState K rootKey
      (accepted ++ (acceptedSeq? ⟨channel, .receive args, reply⟩).toList) channel' := by
  cases heffect with
  | refused => simpa [acceptedSeq?] using h
  | stale _ target payload hsteps hstale =>
      rw [h.books.checkAndInsert_of_target args.now hsteps.computeTargetKey] at hstale
      cases hstale
  | opened _ target payload hsteps =>
      rcases computeTargetKey_cases hsteps.computeTargetKey with hforward | hlate
      · exact h.forward args.now hsteps.computeTargetKey hforward
      · exact h.late args.now hsteps.computeTargetKey hlate

theorem run (P : Primitives) (K : KeyOps κ) (rootKey : κ) (nPaths : ℕ)
    (receives : List ReceiveArgs) :
    ReceiverState K rootKey
      (acceptedSeqs (runTrace P K rootKey nPaths (receives.map Call.receive)))
      (runChannel P K rootKey nPaths (receives.map Call.receive)) := by
  refine run_induction (fun call => ∃ args, call = .receive args)
    (motive := fun past channel => ReceiverState K rootKey (acceptedSeqs past) channel)
    (ReceiverState.new rootKey nPaths) ?_ _ ?_
  · rintro past channel _ reply channel' ⟨args, rfl⟩ h heffect
    rw [acceptedSeqs_concat]
    exact h.preserved heffect
  · intro call hcall
    obtain ⟨args, _, rfl⟩ := List.mem_map.1 hcall
    exact ⟨args, rfl⟩

end ReceiverState

/-- What a receive-only channel holds after accepting `accepted`: the next chain
key, and the keys of the numbers it skipped since a low-water mark. -/
def ReceiverInvariant (K : KeyOps κ) (rootKey : κ) (accepted : List UInt64)
    (channel : SecureChannel κ) : Prop :=
  match channel.lastSeq with
  | none => channel.currentKey = chain K rootKey 0 ∧ channel.skippedKeys = ∅
  | some last =>
      channel.currentKey = chain K rootKey (last.toNat + 1) ∧
        channel.skippedKeys.len ≤ 1000 ∧
          ∃ low ≤ last.toNat - 1000, ∀ s, channel.skippedKeys.get? s =
            if low ≤ s.toNat ∧ s.toNat < last.toNat ∧ s ∉ accepted then
              some (chain K rootKey s.toNat)
            else none

/-- **The receiver's ratchet.** After any run of `receive` calls, whatever they
were given and whichever of them were accepted, the channel holds what the
receiver invariant says. -/
theorem receiver_invariant (P : Primitives) (rootKey : RatchetKey) (nPaths : ℕ)
    (receives : List ReceiveArgs) :
    let K := RatchetKey.ops P
    ReceiverInvariant K rootKey
      (acceptedSeqs (runTrace P K rootKey nPaths (receives.map Call.receive)))
      (runChannel P K rootKey nPaths (receives.map Call.receive)) := by
  intro K
  have h := ReceiverState.run P K rootKey nPaths receives
  obtain ⟨low, hcomplete⟩ := h.complete
  have hlow := hcomplete.low_le
  have hget := hcomplete.get?
  have hkey := h.currentKey
  unfold ReceiverInvariant
  split
  · rename_i hlast
    rw [hlast] at hkey hget
    refine ⟨hkey, SortedMap.ext_get? fun s => ?_⟩
    rw [hget s, if_neg fun hrange => Nat.not_lt_zero _ hrange.2.1]
    rfl
  · rename_i last hlast
    have hmem := h.last_accepted last hlast
    rw [hlast] at hkey hget hlow
    refine ⟨hkey, h.len_le, low, hlow, fun s => ?_⟩
    rw [hget s]
    refine if_congr ?_ rfl rfl
    -- The last number itself is accepted, so the two upper bounds agree.
    have hne : s ∉ acceptedSeqs _ → s.toNat ≠ last.toNat := fun hnot heq =>
      hnot (UInt64.toNat_inj.1 heq ▸ hmem)
    rw [expectedSeq_some]
    constructor
    · rintro ⟨hle, hlt, hnot⟩
      exact ⟨hle, Nat.lt_of_le_of_ne (Nat.le_of_lt_succ hlt) (hne hnot), hnot⟩
    · rintro ⟨hle, hlt, hnot⟩
      exact ⟨hle, hlt.trans (Nat.lt_succ_self _), hnot⟩

end NullPath
