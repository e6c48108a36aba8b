import NullPath.AntiReplay.Window
import NullPath.Channel.AtMostOnce

/-!
# How a late packet without a key is diagnosed

Every number below the expected one has one of three fates: it was accepted, its
key is stored, or its key was evicted. A late packet without a stored key is one
of the first or the third kind, and the channel tells them apart by asking the
anti-replay store.

The store forgets, and it is keyed by the id that the packet claims. So the
answer is right for an evicted number, and for an accepted one exactly as long
as the packet claims the id it was accepted under and the store remembers it
(`diagnosis_accurate_iff`).
-/

namespace NullPath

open Transition

variable {κ : Type*} {P : Primitives} {K : KeyOps κ}

/-- Whether an event evicted the skipped key of `s`: the table that the arrival
merged held it, and the table after eviction does not. -/
def evicts (K : KeyOps κ) (event : ChannelEvent κ) (s : UInt64) : Bool :=
  match event.input, event.output with
  | .receive args, .received (.ok _) =>
      match event.before.computeTargetKey K args.seq args.messageId with
      | .ok target =>
          let merged := event.before.skippedKeys.insertAll target.localSkipped
          target.isForward && (merged.get? s).isSome &&
            ((merged.evict maxSkippedKeys).get? s).isNone
      | .error _ => false
  | _, _ => false

/-- The skipped key of `s` was evicted in the course of a run. -/
def Evicted (K : KeyOps κ) (events : List (ChannelEvent κ)) (s : UInt64) : Prop :=
  ∃ e ∈ events, evicts K e s = true

theorem evicted_concat_iff {events : List (ChannelEvent κ)} {e : ChannelEvent κ} {s : UInt64} :
    Evicted K (events ++ [e]) s ↔ Evicted K events s ∨ evicts K e s = true := by
  simp [Evicted, or_and_right, exists_or]

/-- The check that an accepted packet passed at the anti-replay store. -/
def acceptedCheck? (event : ChannelEvent κ) : Option CheckCall :=
  match event.input, event.output with
  | .receive args, .received (.ok _) => some ⟨args.now, args.seq, args.messageId⟩
  | _, _ => none

/-- The packets accepted in a run, as the store has seen them. -/
def acceptedChecks (events : List (ChannelEvent κ)) : List CheckCall :=
  events.filterMap acceptedCheck?

theorem acceptedChecks_concat (events : List (ChannelEvent κ)) (e : ChannelEvent κ) :
    acceptedChecks (events ++ [e]) = acceptedChecks events ++ (acceptedCheck? e).toList :=
  filterMap_concat _ events e

/-- What the store would be asked if a call were accepted. -/
def Call.check? : Call → Option CheckCall
  | .send _ => none
  | .receive args => some ⟨args.now, args.seq, args.messageId⟩

/-- The clock does not run backwards over the packets that arrive. -/
def ClockOrdered (calls : List Call) : Prop := InClockOrder (calls.filterMap Call.check?)

theorem acceptedSeq?_eq (e : ChannelEvent κ) :
    acceptedSeq? e = (acceptedCheck? e).map CheckCall.seq := by
  obtain ⟨before, call, reply⟩ := e
  cases call with
  | send args => rfl
  | receive args =>
      cases reply with
      | sent result => rfl
      | received result => cases result <;> rfl

theorem evicts_of_not_accepted {e : ChannelEvent κ} (h : acceptedCheck? e = none)
    (s : UInt64) : evicts K e s = false := by
  obtain ⟨before, call, reply⟩ := e
  cases call with
  | send args => rfl
  | receive args =>
      cases reply with
      | sent result => rfl
      | received result =>
          cases result with
          | error e => rfl
          | ok payload => cases h

/-- The fate of every number below the expected one, and the store as the run of
the checks it has seen. -/
structure Fates (K : KeyOps κ) (past : List (ChannelEvent κ)) (channel : SecureChannel κ) :
    Prop where
  books : Bookkeeping (acceptedSeqs past) channel
  covered : ∀ s : UInt64, s.toNat < expectedSeq channel.lastSeq →
    s ∈ acceptedSeqs past ∨ (∃ key, channel.skippedKeys.get? s = some key) ∨ Evicted K past s
  evicted_lt : ∀ s, Evicted K past s → s.toNat < expectedSeq channel.lastSeq
  evicted_gone : ∀ s, Evicted K past s → channel.skippedKeys.get? s = none
  evicted_unused : ∀ s, Evicted K past s → s ∉ acceptedSeqs past
  store_eq : channel.antiReplay =
    final checkStep AntiReplayStore.new (acceptedChecks past)
  all_fresh : ∀ e ∈ trace checkStep AntiReplayStore.new (acceptedChecks past),
    e.output = true

namespace Fates

variable {past : List (ChannelEvent κ)} {channel channel' : SecureChannel κ}
  {args : ReceiveArgs} {payload : List UInt8} {target : Target κ}

theorem new (rootKey : κ) (nPaths : ℕ) : Fates K [] (SecureChannel.new rootKey nPaths) where
  books := Bookkeeping.new rootKey nPaths
  covered s h := by simp [SecureChannel.new] at h
  evicted_lt s h := by simp [Evicted] at h
  evicted_gone s h := by simp [Evicted] at h
  evicted_unused s h := by simp [Evicted] at h
  store_eq := rfl
  all_fresh e he := by simp [acceptedChecks, trace] at he

/-- Frame rule: an event that accepts nothing changes no fate, as long as it leaves
what the fates are about. -/
theorem frame (h : Fates K past channel) {e : ChannelEvent κ}
    (hbooks : Bookkeeping (acceptedSeqs past) channel') (hnone : acceptedCheck? e = none)
    (hlast : channel'.lastSeq = channel.lastSeq)
    (hskipped : channel'.skippedKeys = channel.skippedKeys)
    (hstore : channel'.antiReplay = channel.antiReplay) :
    Fates K (past ++ [e]) channel' := by
  have hseqs : acceptedSeqs (past ++ [e]) = acceptedSeqs past := by
    simp [acceptedSeqs_concat, acceptedSeq?_eq, hnone]
  have hchecks : acceptedChecks (past ++ [e]) = acceptedChecks past := by
    simp [acceptedChecks_concat, hnone]
  have hevicted : ∀ s, Evicted K (past ++ [e]) s ↔ Evicted K past s := by
    intro s
    simp [evicted_concat_iff, evicts_of_not_accepted hnone]
  constructor
  · rwa [hseqs]
  · intro s hs
    rw [hseqs, hskipped, hevicted]
    exact h.covered s (hlast ▸ hs)
  · intro s hs
    rw [hlast]
    exact h.evicted_lt s ((hevicted s).1 hs)
  · intro s hs
    rw [hskipped]
    exact h.evicted_gone s ((hevicted s).1 hs)
  · intro s hs
    rw [hseqs]
    exact h.evicted_unused s ((hevicted s).1 hs)
  · rw [hchecks, hstore, h.store_eq]
  · rw [hchecks]
    exact h.all_fresh

theorem store_concat (h : Fates K past channel) (payload : List UInt8)
    (htarget : channel.computeTargetKey K args.seq args.messageId = .ok target) :
    let checks := acceptedChecks (past ++ [⟨channel, .receive args, .received (.ok payload)⟩])
    (channel.antiReplay.checkAndInsert args.now args.seq args.messageId).2 =
        final checkStep AntiReplayStore.new checks ∧
      ∀ e ∈ trace checkStep AntiReplayStore.new checks, e.output = true := by
  intro checks
  have hchecks : checks = acceptedChecks past ++ [⟨args.now, args.seq, args.messageId⟩] := by
    simp [checks, acceptedChecks_concat, acceptedCheck?]
  have hfresh := h.books.checkAndInsert_of_target args.now htarget
  rw [hchecks, final_concat, trace_concat, forall_mem_concat, ← h.store_eq]
  refine ⟨rfl, h.all_fresh, ?_⟩
  exact hfresh

theorem acceptedSeqs_received (s : UInt64) :
    s ∈ acceptedSeqs (past ++ [⟨channel, .receive args, .received (.ok payload)⟩]) ↔
      s ∈ acceptedSeqs past ∨ s = args.seq := by
  simp [acceptedSeqs_concat, acceptedSeq?]

theorem evicts_forward_iff
    (htarget : channel.computeTargetKey K args.seq args.messageId = .ok target)
    (hforward : ForwardTarget K channel args.seq target) (s : UInt64) :
    evicts K ⟨channel, .receive args, .received (.ok payload)⟩ s = true ↔
      (∃ key, (channel.skippedKeys.insertAll target.localSkipped).get? s = some key) ∧
        ((channel.skippedKeys.insertAll target.localSkipped).evict maxSkippedKeys).get? s =
          none := by
  simp [evicts, htarget, hforward.isForward, Option.isSome_iff_exists]

/-- Behind a forward arrival, a number below its own is stored, was just evicted, or
keeps the fate it had. -/
theorem covered_forward (h : Fates K past channel)
    (hforward : ForwardTarget K channel args.seq target) {s : UInt64}
    (hs : s.toNat < args.seq.toNat) :
    let merged := channel.skippedKeys.insertAll target.localSkipped
    (∃ key, (merged.evict maxSkippedKeys).get? s = some key) ∨
      ((∃ key, merged.get? s = some key) ∧ (merged.evict maxSkippedKeys).get? s = none) ∨
        s ∈ acceptedSeqs past ∨ Evicted K past s := by
  intro merged
  cases hkept : (merged.evict maxSkippedKeys).get? s with
  | some key => exact Or.inl ⟨key, rfl⟩
  | none =>
      cases hkey : merged.get? s with
      | some key => exact Or.inr (Or.inl ⟨⟨key, rfl⟩, rfl⟩)
      | none =>
          rw [hforward.get?_merged] at hkey
          split_ifs at hkey with hrange
          have hold : s.toNat < expectedSeq channel.lastSeq :=
            Nat.lt_of_not_le fun hle => hrange ⟨hle, hs⟩
          rcases h.covered s hold with haccepted | ⟨key, hstored⟩ | hevicted
          · exact Or.inr (Or.inr (Or.inl haccepted))
          · rw [hkey] at hstored
            cases hstored
          · exact Or.inr (Or.inr (Or.inr hevicted))

theorem evicted_not_merged (h : Fates K past channel)
    (hforward : ForwardTarget K channel args.seq target) {s : UInt64}
    (hevicted : Evicted K past s) :
    (channel.skippedKeys.insertAll target.localSkipped).get? s = none := by
  have hlt := h.evicted_lt s hevicted
  rw [hforward.get?_merged, if_neg fun hrange => Nat.not_le.2 hlt hrange.1]
  exact h.evicted_gone s hevicted

theorem forward (h : Fates K past channel)
    (hsteps : Authenticates P K channel args.envelopes args.seq args.messageId target payload)
    (hforward : ForwardTarget K channel args.seq target) :
    Fates K (past ++ [⟨channel, .receive args, .received (.ok payload)⟩])
      ({ channel with
        antiReplay :=
          (channel.antiReplay.checkAndInsert args.now args.seq args.messageId).2 }.commit
        args.seq target) := by
  have hbooks := h.books.preserved (CallEffect.opened args target payload hsteps)
  rw [← acceptedSeqs_concat] at hbooks
  obtain ⟨hstore, hall⟩ := h.store_concat payload hsteps.computeTargetKey
  have hevicts := @evicts_forward_iff _ _ _ _ payload _ hsteps.computeTargetKey hforward
  rw [commit_forward _ args.seq hforward.isForward hforward.nextRatchetKey] at hbooks ⊢
  have hexpected := hforward.expected_le
  constructor
  · exact hbooks
  · intro s hs
    rw [expectedSeq_some, Nat.lt_succ_iff] at hs
    rw [acceptedSeqs_received, evicted_concat_iff, hevicts]
    by_cases hseq : s = args.seq
    · exact Or.inl (Or.inr hseq)
    have hlt : s.toNat < args.seq.toNat :=
      Nat.lt_of_le_of_ne hs fun heq => hseq (UInt64.toNat_inj.1 heq)
    rcases h.covered_forward hforward hlt with hkept | hnew | haccepted | hevicted
    · exact Or.inr (Or.inl hkept)
    · exact Or.inr (Or.inr (Or.inr hnew))
    · exact Or.inl (Or.inl haccepted)
    · exact Or.inr (Or.inr (Or.inl hevicted))
  · intro s hs
    rw [expectedSeq_some]
    rcases evicted_concat_iff.1 hs with hold | hnew
    · exact ((h.evicted_lt s hold).trans_le hexpected).trans (Nat.lt_succ_self _)
    · obtain ⟨⟨key, hkey⟩, -⟩ := (hevicts s).1 hnew
      exact (h.books.merged_fresh hforward hkey).1.trans (Nat.lt_succ_self _)
  · intro s hs
    rcases evicted_concat_iff.1 hs with hold | hnew
    · have hgone := h.evicted_not_merged hforward hold
      refine Option.eq_none_iff_forall_ne_some.2 fun key hkept => ?_
      rw [SortedMap.get?_of_get?_evict hkept] at hgone
      cases hgone
    · exact ((hevicts s).1 hnew).2
  · intro s hs haccepted
    rcases evicted_concat_iff.1 hs with hold | hnew
    · rcases (acceptedSeqs_received s).1 haccepted with hbefore | rfl
      · exact h.evicted_unused s hold hbefore
      · exact absurd (h.evicted_lt _ hold) (Nat.not_lt.2 hexpected)
    · obtain ⟨⟨key, hkey⟩, -⟩ := (hevicts s).1 hnew
      obtain ⟨hlt, hunused⟩ := h.books.merged_fresh hforward hkey
      rcases (acceptedSeqs_received s).1 haccepted with hbefore | rfl
      · exact hunused hbefore
      · exact Nat.lt_irrefl _ hlt
  · exact hstore
  · exact hall

theorem late (h : Fates K past channel)
    (hsteps : Authenticates P K channel args.envelopes args.seq args.messageId target payload)
    (hlate : LateTarget channel args.seq target) :
    Fates K (past ++ [⟨channel, .receive args, .received (.ok payload)⟩])
      ({ channel with
        antiReplay :=
          (channel.antiReplay.checkAndInsert args.now args.seq args.messageId).2 }.commit
        args.seq target) := by
  have hbooks := h.books.preserved (CallEffect.opened args target payload hsteps)
  rw [← acceptedSeqs_concat] at hbooks
  obtain ⟨hstore, hall⟩ := h.store_concat payload hsteps.computeTargetKey
  have hevicted : ∀ s, Evicted K (past ++ [⟨channel, .receive args, .received (.ok payload)⟩]) s ↔
      Evicted K past s := by
    intro s
    simp [evicted_concat_iff, evicts, hsteps.computeTargetKey, hlate.isForward]
  rw [commit_late _ args.seq hlate.isForward] at hbooks ⊢
  constructor
  · exact hbooks
  · intro s hs
    rw [acceptedSeqs_received, hevicted, SortedMap.get?_erase]
    by_cases hseq : s = args.seq
    · exact Or.inl (Or.inr hseq)
    · rw [if_neg hseq]
      exact (h.covered s hs).imp_left Or.inl
  · intro s hs
    exact h.evicted_lt s ((hevicted s).1 hs)
  · intro s hs
    rw [SortedMap.get?_erase, h.evicted_gone s ((hevicted s).1 hs), ite_self]
  · intro s hs haccepted
    have hold := (hevicted s).1 hs
    rcases (acceptedSeqs_received s).1 haccepted with hbefore | rfl
    · exact h.evicted_unused s hold hbefore
    · have hgone := h.evicted_gone _ hold
      rw [hlate.targetKey] at hgone
      cases hgone
  · exact hstore
  · exact hall

/-- Every effect of a call keeps the fates. -/
theorem preserved {call : Call} {reply : Reply} (h : Fates K past channel)
    (heffect : CallEffect P K channel call reply channel') :
    Fates K (past ++ [⟨channel, call, reply⟩]) channel' := by
  cases heffect with
  | notSent args e => exact h.frame h.books rfl rfl rfl rfl
  | lost args => exact h.frame h.books.advanceSender rfl rfl rfl rfl
  | sent args slots => exact h.frame h.books.advanceSender rfl rfl rfl rfl
  | refused args e => exact h.frame h.books rfl rfl rfl rfl
  | stale args target payload hsteps hstale =>
      rw [h.books.checkAndInsert_of_target args.now hsteps.computeTargetKey] at hstale
      cases hstale
  | opened args target payload hsteps =>
      rcases computeTargetKey_cases hsteps.computeTargetKey with hforward | hlate
      · exact h.forward hsteps hforward
      · exact h.late hsteps hlate

/-- After every run each number has its fate. -/
theorem run (P : Primitives) (K : KeyOps κ) (rootKey : κ) (nPaths : ℕ) (calls : List Call) :
    Fates K (runTrace P K rootKey nPaths calls) (runChannel P K rootKey nPaths calls) := by
  apply run_induction (fun _ => True) (motive := Fates K) (Fates.new rootKey nPaths)
  · intro past channel call reply channel' _ h heffect
    exact h.preserved heffect
  · intro call _
    trivial

end Fates

theorem ClockOrdered.acceptedChecks {calls : List Call} (h : ClockOrdered calls)
    (P : Primitives) (K : KeyOps κ) (rootKey : κ) (nPaths : ℕ) :
    InClockOrder (acceptedChecks (runTrace P K rootKey nPaths calls)) := by
  refine List.Pairwise.sublist (filterMap_trace_sublist _ ?_ _ calls) h
  intro e check hcheck
  obtain ⟨before, call, reply⟩ := e
  unfold acceptedCheck? at hcheck
  split at hcheck
  · rename_i args payload hcall _
    simp only at hcall
    rw [hcall]
    exact hcheck
  · cases hcheck

theorem receive_without_key {channel : SecureChannel κ} (now : Instant)
    {envelopes : List Envelope} {seq last : UInt64} {messageId : List UInt8}
    (hmessageId : messageId.length ≤ maxMessageIdLen)
    (hpaths : channel.nPaths ≤ envelopes.length) (hlast : channel.lastSeq = some last)
    (hlate : seq ≤ last) (hkey : channel.skippedKeys.get? seq = none) :
    channel.receive P K now envelopes seq messageId =
      (.error (if channel.antiReplay.contains seq messageId then .ReplayedSequence
        else .SkippedKeyExpired), channel) := by
  have htarget : channel.computeTargetKey K seq messageId =
      .error (if channel.antiReplay.contains seq messageId then .ReplayedSequence
        else .SkippedKeyExpired) := by
    unfold SecureChannel.computeTargetKey
    simp only [hlast, if_neg (not_lt.2 hlate), hkey]
    split_ifs <;> rfl
  unfold SecureChannel.receive SecureChannel.authenticate
  rw [if_neg (Nat.not_lt.2 hmessageId), if_neg (Nat.not_lt.2 hpaths), htarget]

/-- **When the diagnosis is right.** After any run, a late packet without a stored
key is told `ReplayedSequence` exactly for an accepted number and
`SkippedKeyExpired` exactly for an evicted one, if and only if an accepted number
comes with the id it was accepted under, no packet was accepted later than the
time window after it, and fewer packets than the capacity of the store were
accepted since. -/
theorem diagnosis_accurate_iff (P : Primitives) (rootKey : RatchetKey) (nPaths : ℕ)
    (calls : List Call) (hclock : ClockOrdered calls) (now : Instant)
    (envelopes : List Envelope) (seq : UInt64) (messageId : List UInt8) :
    let K := RatchetKey.ops P
    let events := runTrace P K rootKey nPaths calls
    let channel := runChannel P K rootKey nPaths calls
    let result := (channel.receive P K now envelopes seq messageId).1
    messageId.length ≤ maxMessageIdLen → channel.nPaths ≤ envelopes.length →
      (∃ last, channel.lastSeq = some last ∧ seq ≤ last) →
        channel.skippedKeys.get? seq = none →
          (((result = .error .ReplayedSequence ↔ seq ∈ acceptedSeqs events) ∧
              (result = .error .SkippedKeyExpired ↔ Evicted K events seq)) ↔
            (seq ∈ acceptedSeqs events →
              Remembers antiReplayCapacity antiReplayTimeWindow (acceptedChecks events)
                (seq, messageId))) := by
  intro K events channel result hmessageId hpaths hlate hkey
  obtain ⟨last, hlast, hle⟩ := hlate
  have hfates := Fates.run P K rootKey nPaths calls
  have hresult : result = .error (if channel.antiReplay.contains seq messageId then
      .ReplayedSequence else .SkippedKeyExpired) :=
    congrArg Prod.fst (receive_without_key now hmessageId hpaths hlast hle hkey)
  -- Without a key the number was accepted or evicted, and never both.
  have hfate : Evicted K events seq ↔ seq ∉ acceptedSeqs events := by
    constructor
    · exact hfates.evicted_unused seq
    · intro hunused
      have hbelow : seq.toNat < expectedSeq channel.lastSeq := by
        rw [hlast, expectedSeq_some]
        exact Nat.lt_succ_of_le (UInt64.le_iff_toNat_le.1 hle)
      rcases hfates.covered seq hbelow with haccepted | ⟨key, hstored⟩ | hevicted
      · exact absurd haccepted hunused
      · rw [show channel.skippedKeys.get? seq = _ from hstored] at hkey
        cases hkey
      · exact hevicted
  have hcontains : channel.antiReplay.contains seq messageId = true ↔
      Remembers antiReplayCapacity antiReplayTimeWindow (acceptedChecks events)
        (seq, messageId) := by
    rw [show channel.antiReplay = _ from hfates.store_eq]
    exact contains_iff_remembers antiReplayCapacity 300
      (hclock.acceptedChecks P K rootKey nPaths) hfates.all_fresh seq messageId
  have hrecorded : channel.antiReplay.contains seq messageId = true →
      seq ∈ acceptedSeqs events := by
    intro h
    exact hfates.books.recorded_accepted seq messageId (decide_eq_true_iff.1 h)
  rw [hresult, hfate, ← hcontains]
  by_cases hstored : channel.antiReplay.contains seq messageId = true
  · simp [hstored, hrecorded hstored]
  · by_cases haccepted : seq ∈ acceptedSeqs events <;> simp [hstored, haccepted]

/-- A number that was accepted under one id is reported as evicted when the packet
is replayed under another. -/
theorem replay_under_other_id :
    let K := RatchetKey.ops counterPrimitives
    let packets := counterPackets 2 [counterSend [10] [1]]
    let calls := (arrivals packets).map Call.receive
    let events := runTrace counterPrimitives K (counterKey 0) 2 calls
    let channel := runChannel counterPrimitives K (counterKey 0) 2 calls
    let envelopes := packets.flatMap Packet.envelopes
    let result := (channel.receive counterPrimitives K 0 envelopes 0 [2]).1
    channel.nPaths ≤ envelopes.length ∧ channel.lastSeq = some 0 ∧
      channel.skippedKeys.get? 0 = none ∧
        ¬ ((result = .error .ReplayedSequence ↔ 0 ∈ acceptedSeqs events) ∧
          (result = .error .SkippedKeyExpired ↔ Evicted K events 0)) := by
  intro K packets calls events channel envelopes result
  have hrun : (channel.nPaths ≤ envelopes.length ∧ channel.lastSeq = some 0 ∧
      channel.skippedKeys.get? 0 = none) ∧ 0 ∈ acceptedSeqs events ∧
        result = .error .SkippedKeyExpired := by
    decide +kernel
  obtain ⟨⟨hpaths, hlast, hnone⟩, haccepted, hresult⟩ := hrun
  refine ⟨hpaths, hlast, hnone, fun h => ?_⟩
  have hreplayed := h.1.2 haccepted
  rw [hresult] at hreplayed
  cases hreplayed

/-- A replay under the id of the accepted packet is recognised. -/
theorem replay_under_same_id :
    let K := RatchetKey.ops counterPrimitives
    let packets := counterPackets 2 [counterSend [10] [1]]
    let calls := (arrivals packets).map Call.receive
    let channel := runChannel counterPrimitives K (counterKey 0) 2 calls
    (channel.receive counterPrimitives K 0 (packets.flatMap Packet.envelopes) 0 [1]).1 =
      .error .ReplayedSequence := by
  intro K packets calls channel
  have haccepted : (0 : UInt64) ∈
      acceptedSeqs (runTrace counterPrimitives K (counterKey 0) 2 calls) := by
    decide +kernel
  have hchecks : acceptedChecks (runTrace counterPrimitives K (counterKey 0) 2 calls) =
      [⟨0, 0, [1]⟩] := by
    decide +kernel
  have hclock : ClockOrdered calls := by
    have harrives : calls.filterMap Call.check? = [⟨0, 0, [1]⟩] := by decide +kernel
    rw [ClockOrdered, harrives]
    exact List.pairwise_singleton _ _
  refine ((diagnosis_accurate_iff counterPrimitives (counterKey 0) 2 calls hclock 0
    (packets.flatMap Packet.envelopes) 0 [1] (by decide) (by decide +kernel)
    ⟨0, by decide +kernel, by decide⟩ (by decide +kernel)).2 fun _ => ?_).1.2 haccepted
  exact ⟨[], ⟨0, 0, [1]⟩, [], hchecks, rfl, by decide, by simp⟩

end NullPath
