import NullPath.Channel.Run

/-!
# One code, two kinds of keys

The code of the channel is the same for every key type. A map of keys that
respects stepping and reading bytes (`KeyOps.Hom`) therefore carries each call,
and each run, over the one key type to the same call over the other, with the
same replies.

The map used later is `chain K rootKey`, from chain positions to keys: it makes
the run over positions a record of which chain key stands where in the run over
keys.
-/

namespace NullPath

open Transition

variable {κ κ' : Type*}

/-- A map of keys that respects the key operations. -/
structure KeyOps.Hom (K : KeyOps κ) (K' : KeyOps κ') (f : κ → κ') : Prop where
  map_deriveNext : ∀ key, f (K.deriveNext key) = K'.deriveNext (f key)
  map_bytes : ∀ key, K'.bytes (f key) = K.bytes key

theorem chain_hom (K : KeyOps κ) (rootKey : κ) :
    KeyOps.Hom (positionOps K rootKey) K (chain K rootKey) where
  map_deriveNext n := chain_succ K rootKey n
  map_bytes _ := rfl

/-- Rename the keys of a channel. -/
def SecureChannel.map (f : κ → κ') (channel : SecureChannel κ) : SecureChannel κ' :=
  { lastSeq := channel.lastSeq, sendSeq := channel.sendSeq,
    currentKey := f channel.currentKey, skippedKeys := channel.skippedKeys.map f,
    antiReplay := channel.antiReplay, nPaths := channel.nPaths }

/-- Rename the keys of a target. -/
def Target.map (f : κ → κ') (target : Target κ) : Target κ' :=
  { targetKey := f target.targetKey, nextRatchetKey := target.nextRatchetKey.map f,
    localSkipped := target.localSkipped.map f, isForward := target.isForward }

namespace KeyOps.Hom

variable {P : Primitives} {K : KeyOps κ} {K' : KeyOps κ'} {f : κ → κ'}

theorem map_skipLoop (h : K.Hom K' f) (count : ℕ) (s : UInt64) (runner : κ)
    (localSkipped : SortedMap UInt64 κ) :
    skipLoop K' count s (f runner) (localSkipped.map f) =
      (f (skipLoop K count s runner localSkipped).1,
        (skipLoop K count s runner localSkipped).2.map f) := by
  induction count generalizing s runner localSkipped with
  | zero => rfl
  | succ count ih =>
      rw [skipLoop, ← h.map_deriveNext, ← SortedMap.map_insert, ih]
      rfl

theorem map_skipLoop_empty (h : K.Hom K' f) (count : ℕ) (s : UInt64) (runner : κ) :
    skipLoop K' count s (f runner) ∅ =
      (f (skipLoop K count s runner ∅).1, (skipLoop K count s runner ∅).2.map f) := by
  rw [← h.map_skipLoop, SortedMap.map_empty]

theorem map_computeTargetKey (h : K.Hom K' f) (channel : SecureChannel κ) (seq : UInt64)
    (messageId : List UInt8) :
    (channel.map f).computeTargetKey K' seq messageId =
      (channel.computeTargetKey K seq messageId).map (Target.map f) := by
  unfold SecureChannel.computeTargetKey
  cases hlast : channel.lastSeq with
  | none =>
      simp only [SecureChannel.map, hlast, h.map_skipLoop_empty, ← h.map_deriveNext]
      split_ifs <;> rfl
  | some last =>
      simp only [SecureChannel.map, hlast, h.map_skipLoop_empty, ← h.map_deriveNext,
        SortedMap.get?_map]
      by_cases hforward : seq > last
      · rw [if_pos hforward, if_pos hforward]
        split_ifs <;> rfl
      · rw [if_neg hforward, if_neg hforward]
        cases channel.skippedKeys.get? seq with
        | some key => rfl
        | none =>
            simp only [Option.map_none]
            split_ifs <;> rfl

theorem map_authenticate (h : K.Hom K' f) (channel : SecureChannel κ)
    (envelopes : List Envelope) (seq : UInt64) (messageId : List UInt8) :
    (channel.map f).authenticate P K' envelopes seq messageId =
      (channel.authenticate P K envelopes seq messageId).map
        (fun result => (result.1.map f, result.2)) := by
  unfold SecureChannel.authenticate
  rw [h.map_computeTargetKey]
  have hpaths : (channel.map f).nPaths = channel.nPaths := rfl
  rw [hpaths]
  split_ifs
  · rfl
  · rfl
  cases channel.computeTargetKey K seq messageId with
  | error e => rfl
  | ok target =>
      simp only [Except.map, Target.map, h.map_bytes]
      cases selectSlot P (K.bytes target.targetKey).toList messageId channel.nPaths with
      | error e => rfl
      | ok slotIdx =>
          simp only
          cases envelopes[slotIdx]? with
          | none => rfl
          | some envelope =>
              simp only
              cases Envelope.open P (K.bytes target.targetKey) envelope
                (constructAad seq messageId) <;> rfl

theorem map_commit (f : κ → κ') (channel : SecureChannel κ) (seq : UInt64)
    (target : Target κ) :
    (channel.map f).commit seq (target.map f) = (channel.commit seq target).map f := by
  unfold SecureChannel.commit SecureChannel.evictOldestSkippedKeys
  simp only [SecureChannel.map, Target.map, ← SortedMap.map_insertAll,
    ← SortedMap.map_evict, ← SortedMap.map_erase]
  cases target.isForward with
  | false => rfl
  | true => cases target.nextRatchetKey <;> rfl

theorem map_receive (h : K.Hom K' f) (channel : SecureChannel κ) (now : Instant)
    (envelopes : List Envelope) (seq : UInt64) (messageId : List UInt8) :
    (channel.map f).receive P K' now envelopes seq messageId =
      ((channel.receive P K now envelopes seq messageId).1,
        (channel.receive P K now envelopes seq messageId).2.map f) := by
  unfold SecureChannel.receive
  rw [h.map_authenticate]
  cases channel.authenticate P K envelopes seq messageId with
  | error e => rfl
  | ok result =>
      simp only [Except.map]
      have hstore : (channel.map f).antiReplay = channel.antiReplay := rfl
      rw [hstore]
      split_ifs
      · rw [← map_commit]
        rfl
      · rfl

theorem map_send (h : K.Hom K' f) (channel : SecureChannel κ) (coins : SendCoins)
    (payload messageId : List UInt8) :
    (channel.map f).send P K' coins payload messageId =
      ((channel.send P K coins payload messageId).1,
        (channel.send P K coins payload messageId).2.map f) := by
  unfold SecureChannel.send
  simp only [SecureChannel.map, h.map_bytes, ← h.map_deriveNext]
  split_ifs
  · rfl
  cases selectSlot P (K.bytes channel.currentKey).toList messageId channel.nPaths with
  | error e => rfl
  | ok validSlot =>
      simp only
      cases Envelope.seal P coins.realCoins (K.bytes channel.currentKey) payload
          (constructAad (nextSendSeq channel.sendSeq) messageId) with
      | error e => rfl
      | ok realEnvelope =>
          simp only
          cases generateMultiPathSlots P coins.decoyCoins realEnvelope validSlot
            channel.nPaths (constructAad (nextSendSeq channel.sendSeq) messageId) <;> rfl

theorem map_callStep (h : K.Hom K' f) (channel : SecureChannel κ) (call : Call) :
    callStep P K' (channel.map f) call =
      ((callStep P K channel call).1, (callStep P K channel call).2.map f) := by
  cases call with
  | send args => rw [callStep, h.map_send, callStep]
  | receive args => rw [callStep, h.map_receive, callStep]

/-- A run over renamed keys is the renamed run. -/
theorem map_runChannel (h : K.Hom K' f) (rootKey : κ) (nPaths : ℕ) (calls : List Call) :
    runChannel P K' (f rootKey) nPaths calls =
      (runChannel P K rootKey nPaths calls).map f :=
  final_map h.map_callStep (SecureChannel.new rootKey nPaths) calls

theorem map_runTrace (h : K.Hom K' f) (rootKey : κ) (nPaths : ℕ) (calls : List Call) :
    runTrace P K' (f rootKey) nPaths calls =
      (runTrace P K rootKey nPaths calls).map (Event.map (SecureChannel.map f)) :=
  trace_map h.map_callStep (SecureChannel.new rootKey nPaths) calls

theorem map_consumedKey? (h : K.Hom K' f) (e : ChannelEvent κ) :
    consumedKey? K' (e.map (SecureChannel.map f)) = (consumedKey? K e).map f := by
  obtain ⟨before, input, output⟩ := e
  cases input with
  | send args =>
      cases output with
      | sent result => cases result <;> rfl
      | received result => rfl
  | receive args =>
      cases output with
      | sent result => rfl
      | received result =>
          cases result with
          | error e => rfl
          | ok payload =>
              simp only [consumedKey?, Event.map, h.map_computeTargetKey]
              cases before.computeTargetKey K args.seq args.messageId <;> rfl

theorem map_consumedKeys (h : K.Hom K' f) (events : List (ChannelEvent κ)) :
    consumedKeys K' (events.map (Event.map (SecureChannel.map f))) =
      (consumedKeys K events).map f := by
  rw [consumedKeys, List.filterMap_map, consumedKeys, List.map_filterMap]
  congr 1
  funext e
  exact h.map_consumedKey? e

end KeyOps.Hom

end NullPath
