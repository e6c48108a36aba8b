import NullPath.Channel.Counter
import NullPath.Channel.Endpoint
import NullPath.Data.NumberWindow

/-!
# The window of a channel

Which numbers a channel can still accept depends on its expected number and on the
numbers in its table of skipped keys, not on the keys: it is a `NumberWindow`, an
accepted number is taken from it, and no other call touches it
(`CallEffect.window_eq`). So what holds of windows holds of every channel, whether or
not it also sends.

What sending does is to move the keys: a number's key stands as many positions past it
as messages were sent before the ratchet passed the number (`targetKey_eq_passed`).
-/

namespace NullPath

open Transition

variable {κ : Type*} {P : Primitives} {K : KeyOps κ} {rootKey : κ} {nPaths : ℕ}

namespace SecureChannel

/-- The numbers that a channel can still accept. -/
def window (channel : SecureChannel κ) : NumberWindow :=
  ⟨expectedSeq channel.lastSeq, channel.skippedKeys.keySet.image UInt64.toNat⟩

variable {channel : SecureChannel κ} {seq : UInt64} {messageId : List UInt8} {target : Target κ}

theorem toNat_mem_waiting :
    seq.toNat ∈ channel.window.waiting ↔ ∃ key, channel.skippedKeys.get? seq = some key := by
  rw [← SortedMap.mem_keySet, window, Finset.mem_image]
  constructor
  · rintro ⟨s, hs, heq⟩
    exact UInt64.toNat_inj.1 heq ▸ hs
  · exact fun hs => ⟨seq, hs, rfl⟩

theorem window_commit_forward (store : AntiReplayStore)
    (hforward : ForwardTarget K channel seq target) :
    (({ channel with antiReplay := store }.commit seq target).window) =
      channel.window.take maxSkippedKeys seq.toNat := by
  have hmerged : (channel.skippedKeys.insertAll target.localSkipped).keySet.image UInt64.toNat =
      channel.window.waiting ∪ Finset.Ico (expectedSeq channel.lastSeq) seq.toNat := by
    apply Finset.ext
    intro n
    rw [Finset.mem_image, Finset.mem_union, Finset.mem_Ico]
    constructor
    · rintro ⟨s, hs, rfl⟩
      rw [SortedMap.mem_keySet] at hs
      obtain ⟨key, hget⟩ := hs
      rw [hforward.get?_merged] at hget
      split_ifs at hget with hrange
      · exact Or.inr hrange
      · exact Or.inl (toNat_mem_waiting.2 ⟨key, hget⟩)
    · intro hn
      have hlt : n < 2 ^ 64 := by
        rcases hn with hold | hnew
        · obtain ⟨s, -, rfl⟩ := Finset.mem_image.1 hold
          exact s.toNat_lt
        · exact hnew.2.trans seq.toNat_lt
      have hs : (UInt64.ofNat n).toNat = n := Nat.mod_eq_of_lt hlt
      refine ⟨UInt64.ofNat n, SortedMap.mem_keySet.2 ?_, hs⟩
      rw [hforward.get?_merged, hs]
      split_ifs with hrange
      · exact ⟨_, rfl⟩
      · have hold := hn.resolve_right hrange
        rw [← hs] at hold
        exact toNat_mem_waiting.1 hold
  rw [NumberWindow.take_forward hforward.expected_le,
    commit_forward _ seq hforward.isForward hforward.nextRatchetKey]
  simp only [window, expectedSeq_some, SortedMap.keySet_evict]
  rw [← Finset.newest_image UInt64.strictMono_toNat, hmerged]
  rfl

theorem window_commit_late (store : AntiReplayStore) (hlate : LateTarget channel seq target) :
    (({ channel with antiReplay := store }.commit seq target).window) =
      channel.window.take maxSkippedKeys seq.toNat := by
  have hinj : Function.Injective UInt64.toNat := fun _ _ => UInt64.toNat_inj.1
  rw [NumberWindow.take_late hlate.lt_expected, commit_late _ seq hlate.isForward]
  simp only [window, SortedMap.keySet_erase, Finset.image_erase hinj]

theorem window_commit (store : AntiReplayStore)
    (htarget : channel.computeTargetKey K seq messageId = .ok target) :
    (({ channel with antiReplay := store }.commit seq target).window) =
      channel.window.take maxSkippedKeys seq.toNat := by
  rcases computeTargetKey_cases htarget with hforward | hlate
  · exact window_commit_forward store hforward
  · exact window_commit_late store hlate

/-- Step 1 serves the open numbers. -/
theorem servable_iff_open (hbelow : ∀ n ∈ channel.window.waiting, n < channel.window.next) :
    Servable channel seq ↔ channel.window.Open maxSkipWindow seq.toNat := by
  unfold Servable NumberWindow.Open
  rw [toNat_mem_waiting]
  cases hlast : channel.lastSeq with
  | none =>
      have hnext : channel.window.next = 0 := congrArg expectedSeq hlast
      rw [hnext]
      constructor
      · exact fun hle => Or.inl ⟨Nat.zero_le _, by rwa [Nat.zero_sub, Nat.zero_add]⟩
      · rintro (⟨-, hle⟩ | hwaiting)
        · rwa [Nat.zero_sub, Nat.zero_add] at hle
        · have hlt := hbelow _ (toNat_mem_waiting.2 hwaiting)
          rw [hnext] at hlt
          exact absurd hlt (Nat.not_lt_zero _)
  | some last =>
      have hnext : channel.window.next = last.toNat + 1 := congrArg expectedSeq hlast
      rw [hnext, Nat.add_sub_cancel]
      refine or_congr Iff.rfl ⟨And.right, fun hwaiting => ⟨?_, hwaiting⟩⟩
      have hlt := hbelow _ (toNat_mem_waiting.2 hwaiting)
      rw [hnext] at hlt
      exact Nat.le_of_lt_succ hlt

end SecureChannel

/-- An accepted packet takes its number, and no other call touches the window. -/
theorem CallEffect.window_eq {channel channel' : SecureChannel κ} {call : Call} {reply : Reply}
    (h : CallEffect P K channel call reply channel') :
    channel'.window = match acceptedSeq? ⟨channel, call, reply⟩ with
      | none => channel.window
      | some seq => channel.window.take maxSkippedKeys seq.toNat := by
  cases h with
  | opened args target payload hsteps =>
      exact SecureChannel.window_commit _ hsteps.computeTargetKey
  | _ => rfl

/-- The numbers accepted in a run, as they are taken from the window. -/
def takenNumbers (events : List (ChannelEvent κ)) : List ℕ :=
  (acceptedSeqs events).map UInt64.toNat

theorem toNat_mem_takenNumbers {events : List (ChannelEvent κ)} {seq : UInt64} :
    seq.toNat ∈ takenNumbers events ↔ seq ∈ acceptedSeqs events := by
  rw [takenNumbers, List.mem_map]
  constructor
  · rintro ⟨s, hs, heq⟩
    exact UInt64.toNat_inj.1 heq ▸ hs
  · exact fun hs => ⟨seq, hs, rfl⟩

theorem takenNumbers_concat (events : List (ChannelEvent κ)) (e : ChannelEvent κ) :
    takenNumbers (events ++ [e]) =
      takenNumbers events ++ ((acceptedSeq? e).map UInt64.toNat).toList := by
  rw [takenNumbers, takenNumbers, acceptedSeqs_concat, List.map_append]
  cases acceptedSeq? e <;> rfl

/-- After every run the window fits the numbers accepted. -/
theorem takenState_run (P : Primitives) (K : KeyOps κ) (rootKey : κ) (nPaths : ℕ)
    (calls : List Call) :
    NumberWindow.TakenState maxSkippedKeys (takenNumbers (runTrace P K rootKey nPaths calls))
      (runChannel P K rootKey nPaths calls).window := by
  refine run_induction (fun _ => True)
    (motive := fun past channel =>
      NumberWindow.TakenState maxSkippedKeys (takenNumbers past) channel.window)
    (NumberWindow.TakenState.empty maxSkippedKeys) ?_ calls fun _ _ => trivial
  intro past channel call reply channel' _ h heffect
  rw [takenNumbers_concat, heffect.window_eq]
  cases heffect with
  | opened args target payload hsteps =>
      exact h.take ((SecureChannel.servable_iff_open h.waiting_lt).1
        (servable_of_computeTargetKey hsteps.computeTargetKey))
  | _ =>
      rw [show Option.toList _ = [] from rfl, List.append_nil]
      exact h

/-! ## Keys behind the window -/

/-- The number of messages that were sent before the ratchet passed number `n`. -/
def sentBefore (events : List (ChannelEvent κ)) (n : ℕ) : ℕ :=
  (expectedWhenSent events).countP fun expected => expected ≤ n

theorem sentBefore_concat (events : List (ChannelEvent κ)) (e : ChannelEvent κ) (n : ℕ) :
    sentBefore (events ++ [e]) n = sentBefore events n +
      (((sentMessage? e).map fun _ => expectedSeq e.before.lastSeq).toList.countP
        fun expected => expected ≤ n) := by
  rw [sentBefore, expectedWhenSent_concat, List.countP_append, sentBefore]

theorem sentBefore_of_expected_le {past : List (ChannelEvent κ)} {channel : SecureChannel κ}
    (h : SentState P K rootKey nPaths past channel) {n : ℕ}
    (hn : expectedSeq channel.lastSeq ≤ n) : sentBefore past n = (sentMessages past).length := by
  rw [← length_expectedWhenSent past, sentBefore, List.countP_eq_length]
  intro expected hmem
  exact decide_eq_true ((h.expected_le expected hmem).trans hn)

/-- The skipped keys of an endpoint stand where its ratchet passed their numbers. -/
structure PassedKeys (P : Primitives) (K : KeyOps κ) (rootKey : κ) (nPaths : ℕ)
    (past : List (ChannelEvent κ)) (channel : SecureChannel κ) : Prop where
  sent : SentState P K rootKey nPaths past channel
  parked : ∀ s key, channel.skippedKeys.get? s = some key →
    key = chain K rootKey (sentBefore past s.toNat + s.toNat)

namespace PassedKeys

variable {past : List (ChannelEvent κ)} {channel channel' : SecureChannel κ} {seq : UInt64}
  {messageId : List UInt8} {target : Target κ}

/-- The key for a packet stands as many positions past its number as messages were sent
before the ratchet passed it, or were sent so far. -/
theorem targetKey_eq (h : PassedKeys P K rootKey nPaths past channel)
    (htarget : channel.computeTargetKey K seq messageId = .ok target) :
    target.targetKey = chain K rootKey (sentBefore past seq.toNat + seq.toNat) := by
  rcases computeTargetKey_cases htarget with hforward | hlate
  · rw [(hforward.keys_of_chain h.sent.endpoint.currentKey).1,
      sentBefore_of_expected_le h.sent hforward.expected_le]
  · exact h.parked seq _ hlate.targetKey

theorem parked_commit (h : PassedKeys P K rootKey nPaths past channel) (store : AntiReplayStore)
    (htarget : channel.computeTargetKey K seq messageId = .ok target) (s : UInt64) (key : κ)
    (hget : (({ channel with antiReplay := store }.commit seq target).skippedKeys).get? s =
      some key) :
    key = chain K rootKey (sentBefore past s.toNat + s.toNat) := by
  rcases computeTargetKey_cases htarget with hforward | hlate
  · rw [commit_forward _ seq hforward.isForward hforward.nextRatchetKey] at hget
    have hmerged := SortedMap.get?_of_get?_evict hget
    rw [hforward.get?_merged] at hmerged
    split_ifs at hmerged with hrange
    · rw [← Option.some.inj hmerged, h.sent.endpoint.currentKey, iterate_deriveNext_chain,
        sentBefore_of_expected_le h.sent hrange.1, Nat.add_assoc, Nat.add_sub_cancel' hrange.1]
    · exact h.parked s key hmerged
  · rw [commit_late _ seq hlate.isForward] at hget
    change (channel.skippedKeys.erase seq).get? s = _ at hget
    rw [SortedMap.get?_erase] at hget
    split_ifs at hget
    exact h.parked s key hget

theorem preserved (hencrypt : P.EncryptTotal) (h : PassedKeys P K rootKey nPaths past channel)
    {call : Call} {reply : Reply} (heffect : CallEffect P K channel call reply channel') :
    PassedKeys P K rootKey nPaths (past ++ [⟨channel, call, reply⟩]) channel' := by
  refine ⟨h.sent.preserved hencrypt heffect, fun s key hget => ?_⟩
  rw [sentBefore_concat]
  cases heffect with
  | opened args target payload hsteps => exact h.parked_commit _ hsteps.computeTargetKey s key hget
  | lost _ hlost => exact absurd hencrypt hlost
  | sent args slots hsends =>
      -- The message was sent after the ratchet had passed what is parked.
      have hpassed := h.sent.endpoint.books.skipped_lt s key hget
      change key = chain K rootKey (sentBefore past s.toNat +
        [expectedSeq channel.lastSeq].countP (· ≤ s.toNat) + s.toNat)
      rw [List.countP_singleton, if_neg (by simpa using hpassed)]
      exact h.parked s key hget
  | _ => exact h.parked s key hget

theorem run (hencrypt : P.EncryptTotal) (K : KeyOps κ) (rootKey : κ) (nPaths : ℕ)
    (calls : List Call) :
    PassedKeys P K rootKey nPaths (runTrace P K rootKey nPaths calls)
      (runChannel P K rootKey nPaths calls) := by
  refine run_induction (fun _ => True) (motive := PassedKeys P K rootKey nPaths)
    ⟨SentState.new P K rootKey nPaths, fun s key hget => by cases hget⟩ ?_ calls
      fun _ _ => trivial
  intro past channel call reply channel' _ h heffect
  exact h.preserved hencrypt heffect

end PassedKeys

/-- **The state of an endpoint.** After any run of sends and receives, of whatever
packets, the current key stands as many positions along the chain as messages were sent
and numbers are expected. The table of skipped keys holds exactly the numbers above a
mark that were passed and not accepted, each with the key that stands as many positions
past it as messages were sent before it was passed; the mark lies a full window behind
the last number, and the table has at most 1000 entries. -/
theorem endpoint_state {P : Primitives} (hencrypt : P.EncryptTotal) (rootKey : RatchetKey)
    (nPaths : ℕ) (calls : List Call) :
    let K := RatchetKey.ops P
    let events := runTrace P K rootKey nPaths calls
    let channel := runChannel P K rootKey nPaths calls
    channel.currentKey =
        chain K rootKey ((sentMessages events).length + expectedSeq channel.lastSeq) ∧
      (∃ low ≤ expectedSeq channel.lastSeq - 1 - 1000, ∀ s, channel.skippedKeys.get? s =
        if low ≤ s.toNat ∧ s.toNat < expectedSeq channel.lastSeq ∧ s ∉ acceptedSeqs events then
          some (chain K rootKey (sentBefore events s.toNat + s.toNat))
        else none) ∧
      channel.skippedKeys.len ≤ 1000 := by
  intro K events channel
  have hkeys := PassedKeys.run hencrypt K rootKey nPaths calls
  have hwindow := takenState_run P K rootKey nPaths calls
  obtain ⟨low, hlow, hwaiting⟩ := hwindow.exists_mark
  refine ⟨hkeys.sent.endpoint.currentKey, ⟨low, hlow, fun s => ?_⟩, ?_⟩
  · have hiff := hwaiting s.toNat
    rw [SecureChannel.toNat_mem_waiting, toNat_mem_takenNumbers] at hiff
    change (∃ key, channel.skippedKeys.get? s = some key) ↔ low ≤ s.toNat ∧
      s.toNat < expectedSeq channel.lastSeq ∧ s ∉ acceptedSeqs events at hiff
    cases hget : channel.skippedKeys.get? s with
    | none =>
        rw [if_neg fun hrange => ?_]
        obtain ⟨key, hkey⟩ := hiff.2 hrange
        rw [hget] at hkey
        cases hkey
    | some key =>
        rw [if_pos (hiff.1 ⟨key, hget⟩), hkeys.parked s key hget]
  · have hcard := hwindow.card_le
    have hinj : Function.Injective UInt64.toNat := fun _ _ => UInt64.toNat_inj.1
    rwa [SecureChannel.window, Finset.card_image_of_injective _ hinj,
      SortedMap.card_keySet] at hcard

/-- Number 1 arrives first and a message is sent: the current key stands at position 3. -/
theorem endpoint_state_after_skip :
    let K := RatchetKey.ops counterPrimitives
    let packets := counterPackets 2 [counterSend [10] [1], counterSend [11] [2]]
    let calls := (arrivals (packets.drop 1)).map Call.receive ++ [.send (counterSend [12] [3])]
    (runChannel counterPrimitives K (counterKey 0) 2 calls).currentKey =
      chain K (counterKey 0) 3 := by
  intro K packets calls
  refine (endpoint_state counter_encryptTotal (counterKey 0) 2 calls).1.trans ?_
  exact congrArg (chain K (counterKey 0)) (by decide +kernel)

end NullPath
