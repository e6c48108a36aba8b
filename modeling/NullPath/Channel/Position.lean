import NullPath.Channel.AtMostOnce
import NullPath.Channel.Counter
import NullPath.Channel.Transport

/-!
# Chain positions

Over positions a key is a number and stepping it adds one. The position run of a
list of calls is the run of the same code over positions from 0, and renaming
each position to the chain key at it gives the run over keys
(`chain_hom`, `KeyOps.Hom.map_runTrace`).

`Positions` keeps three kinds of positions apart: those consumed by successful
calls, those parked in the table of skipped keys, and those from the current
key on. Parked positions are stored under sequence numbers, which drift from
positions once both directions are used; what holds is that distinct numbers
park distinct positions.
-/

namespace NullPath

open Transition

variable {κ : Type*} {P : Primitives} {K : KeyOps κ} {rootKey : κ}

/-- The channel after a run over positions. -/
def positionRun (P : Primitives) (K : KeyOps κ) (rootKey : κ) (nPaths : ℕ)
    (calls : List Call) : SecureChannel ℕ :=
  runChannel P (positionOps K rootKey) 0 nPaths calls

/-- The chain positions that a run consumes, in order: those of the sealing keys
of successful sends and of the opening keys of accepted packets. -/
def consumedPositions (P : Primitives) (K : KeyOps κ) (rootKey : κ) (nPaths : ℕ)
    (calls : List Call) : List ℕ :=
  consumedKeys (positionOps K rootKey)
    (runTrace P (positionOps K rootKey) 0 nPaths calls)

theorem runChannel_eq_map_positionRun (P : Primitives) (K : KeyOps κ) (rootKey : κ)
    (nPaths : ℕ) (calls : List Call) :
    runChannel P K rootKey nPaths calls =
      (positionRun P K rootKey nPaths calls).map (chain K rootKey) :=
  (chain_hom K rootKey).map_runChannel 0 nPaths calls

/-- Event by event, the run over keys is the run over positions with every position
replaced by the chain key at it. -/
theorem runTrace_eq_map_positions (P : Primitives) (K : KeyOps κ) (rootKey : κ) (nPaths : ℕ)
    (calls : List Call) :
    runTrace P K rootKey nPaths calls =
      (runTrace P (positionOps K rootKey) 0 nPaths calls).map
        (Event.map (SecureChannel.map (chain K rootKey))) :=
  (chain_hom K rootKey).map_runTrace 0 nPaths calls

/-- The keys that a run consumes are the chain keys at the consumed positions. -/
theorem consumedKeys_eq_map (P : Primitives) (K : KeyOps κ) (rootKey : κ) (nPaths : ℕ)
    (calls : List Call) :
    consumedKeys K (runTrace P K rootKey nPaths calls) =
      (consumedPositions P K rootKey nPaths calls).map (chain K rootKey) := by
  rw [runTrace_eq_map_positions, (chain_hom K rootKey).map_consumedKeys]
  rfl

theorem iterate_deriveNext_position (n p : ℕ) :
    (positionOps K rootKey).deriveNext^[n] p = p + n := chain_positionOps K rootKey p n

/-- Consumed positions, parked positions and the positions still to come are
pairwise disjoint. -/
structure Positions (consumed : List ℕ) (channel : SecureChannel ℕ) : Prop where
  nodup : consumed.Nodup
  consumed_lt : ∀ p ∈ consumed, p < channel.currentKey
  parked_lt : ∀ s p, channel.skippedKeys.get? s = some p → p < channel.currentKey
  parked_not_consumed : ∀ s p, channel.skippedKeys.get? s = some p → p ∉ consumed
  parked_injective : ∀ s s' p, channel.skippedKeys.get? s = some p →
    channel.skippedKeys.get? s' = some p → s = s'

namespace Positions

variable {consumed : List ℕ} {channel : SecureChannel ℕ} {seq : UInt64}
  {messageId : List UInt8} {target : Target ℕ}

theorem new (nPaths : ℕ) : Positions [] (SecureChannel.new 0 nPaths) where
  nodup := List.nodup_nil
  consumed_lt _ h := absurd h List.not_mem_nil
  parked_lt _ _ h := by cases h
  parked_not_consumed _ _ h := by cases h
  parked_injective _ _ _ h := by cases h

theorem step (h : Positions consumed channel) :
    Positions consumed (advanceSender (positionOps K rootKey) channel) :=
  ⟨h.nodup, fun p hp => (h.consumed_lt p hp).trans (Nat.lt_succ_self _),
    fun s p hget => (h.parked_lt s p hget).trans (Nat.lt_succ_self _),
    h.parked_not_consumed, h.parked_injective⟩

theorem sent (h : Positions consumed channel) :
    Positions (consumed ++ [channel.currentKey])
      (advanceSender (positionOps K rootKey) channel) := by
  refine ⟨?_, ?_, h.step.parked_lt, ?_, h.parked_injective⟩
  · rw [← List.concat_eq_append]
    exact List.Nodup.concat (fun hmem => Nat.lt_irrefl _ (h.consumed_lt _ hmem)) h.nodup
  · intro p hp
    rcases List.mem_append.1 hp with hp | hp
    · exact (h.consumed_lt p hp).trans (Nat.lt_succ_self _)
    · rw [List.mem_singleton.1 hp]
      exact Nat.lt_succ_self _
  · intro s p hget hp
    rcases List.mem_append.1 hp with hp | hp
    · exact h.parked_not_consumed s p hget hp
    · exact Nat.ne_of_lt (h.parked_lt s p hget) (List.mem_singleton.1 hp)

theorem forward (h : Positions consumed channel) (store : AntiReplayStore)
    (hforward : ForwardTarget (positionOps K rootKey) channel seq target) :
    Positions (consumed ++ [target.targetKey])
      ({ channel with antiReplay := store }.commit seq target) := by
  have htarget : target.targetKey =
      channel.currentKey + (seq.toNat - expectedSeq channel.lastSeq) := by
    rw [hforward.targetKey, iterate_deriveNext_position]
  have hcurrent : channel.currentKey ≤ target.targetKey := htarget ▸ Nat.le_add_right _ _
  rw [commit_forward _ seq hforward.isForward hforward.nextRatchetKey]
  -- A parked position was parked before, or was passed just now.
  have hparked : ∀ s p, ((channel.skippedKeys.insertAll target.localSkipped).evict
      maxSkippedKeys).get? s = some p →
        (expectedSeq channel.lastSeq ≤ s.toNat ∧
          p = channel.currentKey + (s.toNat - expectedSeq channel.lastSeq) ∧
            p < target.targetKey) ∨
          channel.skippedKeys.get? s = some p := by
    intro s p hget
    have hmerged := SortedMap.get?_of_get?_evict hget
    rw [hforward.get?_merged, iterate_deriveNext_position] at hmerged
    split_ifs at hmerged with hrange
    · have heq := Option.some.inj hmerged
      exact Or.inl ⟨hrange.1, heq.symm, by omega⟩
    · exact Or.inr hmerged
  refine ⟨?_, ?_, ?_, ?_, ?_⟩
  · rw [← List.concat_eq_append]
    exact List.Nodup.concat (fun hmem => Nat.not_lt.2 hcurrent (h.consumed_lt _ hmem)) h.nodup
  · intro p hp
    rcases List.mem_append.1 hp with hp | hp
    · exact ((h.consumed_lt p hp).trans_le hcurrent).trans (Nat.lt_succ_self _)
    · rw [List.mem_singleton.1 hp]
      exact Nat.lt_succ_self _
  · intro s p hget
    rcases hparked s p hget with ⟨_, _, hlt⟩ | hold
    · exact hlt.trans (Nat.lt_succ_self _)
    · exact ((h.parked_lt s p hold).trans_le hcurrent).trans (Nat.lt_succ_self _)
  · intro s p hget hp
    rcases hparked s p hget with ⟨_, heq, hlt⟩ | hold
    · rcases List.mem_append.1 hp with hp | hp
      · have := h.consumed_lt p hp
        omega
      · exact Nat.ne_of_lt hlt (List.mem_singleton.1 hp)
    · rcases List.mem_append.1 hp with hp | hp
      · exact h.parked_not_consumed s p hold hp
      · have := h.parked_lt s p hold
        rw [List.mem_singleton.1 hp] at this
        exact Nat.not_lt.2 hcurrent this
  · intro s s' p hget hget'
    rcases hparked s p hget with ⟨hle, heq, _⟩ | hold
    · rcases hparked s' p hget' with ⟨hle', heq', _⟩ | hold'
      · exact UInt64.toNat_inj.1 (by omega)
      · have := h.parked_lt s' p hold'
        omega
    · rcases hparked s' p hget' with ⟨_, heq', _⟩ | hold'
      · have := h.parked_lt s p hold
        omega
      · exact h.parked_injective s s' p hold hold'

theorem late (h : Positions consumed channel) (store : AntiReplayStore)
    (hlate : LateTarget channel seq target) :
    Positions (consumed ++ [target.targetKey])
      ({ channel with antiReplay := store }.commit seq target) := by
  have hkey := hlate.targetKey
  rw [commit_late _ seq hlate.isForward]
  have hkept : ∀ s p, (channel.skippedKeys.erase seq).get? s = some p →
      s ≠ seq ∧ channel.skippedKeys.get? s = some p := by
    intro s p hget
    rw [SortedMap.get?_erase] at hget
    split_ifs at hget with hs
    exact ⟨hs, hget⟩
  refine ⟨?_, ?_, ?_, ?_, ?_⟩
  · rw [← List.concat_eq_append]
    exact List.Nodup.concat (h.parked_not_consumed seq _ hkey) h.nodup
  · intro p hp
    rcases List.mem_append.1 hp with hp | hp
    · exact h.consumed_lt p hp
    · rw [List.mem_singleton.1 hp]
      exact h.parked_lt seq _ hkey
  · intro s p hget
    exact h.parked_lt s p (hkept s p hget).2
  · intro s p hget hp
    obtain ⟨hs, hold⟩ := hkept s p hget
    rcases List.mem_append.1 hp with hp | hp
    · exact h.parked_not_consumed s p hold hp
    · rw [List.mem_singleton.1 hp] at hold
      exact hs (h.parked_injective s seq _ hold hkey)
  · intro s s' p hget hget'
    exact h.parked_injective s s' p (hkept s p hget).2 (hkept s' p hget').2

/-- Every effect of a call keeps the positions apart. -/
theorem preserved {call : Call} {reply : Reply} {channel' : SecureChannel ℕ}
    (h : Positions consumed channel)
    (heffect : CallEffect P (positionOps K rootKey) channel call reply channel') :
    Positions (consumed ++
        (consumedKey? (positionOps K rootKey) ⟨channel, call, reply⟩).toList) channel' := by
  cases heffect with
  | notSent => simpa [consumedKey?] using h
  | lost => simpa [consumedKey?] using h.step
  | sent => exact h.sent
  | refused => simpa [consumedKey?] using h
  | stale =>
      simp only [consumedKey?, Option.toList_none, List.append_nil]
      exact ⟨h.nodup, h.consumed_lt, h.parked_lt, h.parked_not_consumed, h.parked_injective⟩
  | opened args target payload hsteps =>
      simp only [consumedKey?, hsteps.computeTargetKey, Option.toList_some]
      rcases computeTargetKey_cases hsteps.computeTargetKey with hforward | hlate
      · exact h.forward _ hforward
      · exact h.late _ hlate

theorem run (P : Primitives) (K : KeyOps κ) (rootKey : κ) (nPaths : ℕ)
    (calls : List Call) :
    Positions (consumedPositions P K rootKey nPaths calls)
      (positionRun P K rootKey nPaths calls) := by
  refine run_induction (fun _ => True)
    (motive := fun past channel =>
      Positions (consumedKeys (positionOps K rootKey) past) channel)
    (Positions.new nPaths) ?_ calls fun _ _ => trivial
  intro past channel call reply channel' _ h heffect
  rw [consumedKeys_concat]
  exact h.preserved heffect

end Positions

/-- **Single use of positions.** The keys that a run consumes are the chain keys
at pairwise distinct positions, whatever the calls are. -/
theorem positions_consumed_once (P : Primitives) (rootKey : RatchetKey) (nPaths : ℕ)
    (calls : List Call) :
    let K := RatchetKey.ops P
    consumedKeys K (runTrace P K rootKey nPaths calls) =
        (consumedPositions P K rootKey nPaths calls).map (chain K rootKey) ∧
      (consumedPositions P K rootKey nPaths calls).Nodup :=
  ⟨consumedKeys_eq_map P (RatchetKey.ops P) rootKey nPaths calls,
    (Positions.run P (RatchetKey.ops P) rootKey nPaths calls).nodup⟩

/-- **Forward secrecy, up to skipped keys.** Let `n` be the position of the
current key after a run and let the chain be free of repetitions for `horizon`
steps past it. Within that horizon the current key yields no consumed key. A
skipped key is not a consumed key itself, but it stands at a position `p` of the
chain and yields exactly the consumed keys at positions above `p`. -/
theorem held_keys_yield {P : Primitives} (rootKey : RatchetKey) (nPaths : ℕ)
    (calls : List Call) (horizon : ℕ)
    (hdistinct : ChainDistinct (RatchetKey.ops P) rootKey
      ((positionRun P (RatchetKey.ops P) rootKey nPaths calls).currentKey + horizon)) :
    let K := RatchetKey.ops P
    let channel := runChannel P K rootKey nPaths calls
    let consumed := consumedPositions P K rootKey nPaths calls
    (∀ i ∈ consumed, ∀ steps ≤ horizon,
        K.deriveNext^[steps] channel.currentKey ≠ chain K rootKey i) ∧
      ∀ s key, channel.skippedKeys.get? s = some key →
        ∃ p, key = chain K rootKey p ∧
          ∀ i ∈ consumed, p ≠ i ∧ ∀ steps ≤ horizon,
            (K.deriveNext^[steps] key = chain K rootKey i ↔ p + steps = i) := by
  intro K channel consumed
  have hpositions := Positions.run P K rootKey nPaths calls
  have hchannel : channel = (positionRun P K rootKey nPaths calls).map (chain K rootKey) :=
    runChannel_eq_map_positionRun P K rootKey nPaths calls
  set position := positionRun P K rootKey nPaths calls
  refine ⟨?_, ?_⟩
  · intro i hi steps hsteps heq
    have hlt : i < position.currentKey := hpositions.consumed_lt i hi
    have hcurrent : channel.currentKey = chain K rootKey position.currentKey := by
      rw [hchannel]
      rfl
    rw [hcurrent, iterate_deriveNext_chain] at heq
    have := hdistinct.index_eq (Nat.add_le_add_left hsteps _)
      (hlt.le.trans (Nat.le_add_right _ _)) heq
    omega
  · intro s key hkey
    rw [hchannel] at hkey
    change (position.skippedKeys.map (chain K rootKey)).get? s = some key at hkey
    rw [SortedMap.get?_map] at hkey
    obtain ⟨p, hp, rfl⟩ := Option.map_eq_some_iff.1 hkey
    refine ⟨p, rfl, fun i hi => ⟨fun heq => ?_, fun steps hsteps => ?_⟩⟩
    · exact hpositions.parked_not_consumed s p hp (heq ▸ hi)
    · have hplt := hpositions.parked_lt s p hp
      have hilt : i < position.currentKey := hpositions.consumed_lt i hi
      rw [iterate_deriveNext_chain]
      constructor
      · intro heq
        exact hdistinct.index_eq (by omega) (by omega) heq
      · intro heq
        rw [heq]

/-- After message 1 arrived first, the current key does not lead back to the key
that opened it. -/
theorem held_keys_yield_after_skip :
    let K := RatchetKey.ops counterPrimitives
    let packets := counterPackets 2 [counterSend [10] [1], counterSend [11] [2]]
    let calls := (arrivals (packets.drop 1)).map Call.receive
    K.deriveNext^[3] (runChannel counterPrimitives K (counterKey 0) 2 calls).currentKey ≠
      chain K (counterKey 0) 1 :=
  (held_keys_yield (counterKey 0) 2 _ 5 (counter_chainDistinct (by decide +kernel))).1 1
    (by decide +kernel) 3 (by decide)

/-- A packet that skips a number leaves a key from which its own key is one step
away: number 1 arrives first, key 0 is stored and key 1 is consumed. -/
theorem skipped_key_yields_consumed :
    let K := RatchetKey.ops counterPrimitives
    let packets := counterPackets 2 [counterSend [10] [1], counterSend [11] [2]]
    let calls := (arrivals (packets.drop 1)).map Call.receive
    let channel := runChannel counterPrimitives K (counterKey 0) 2 calls
    ChainDistinct K (counterKey 0) (256 ^ 32 - 1) ∧
      consumedKeys K (runTrace counterPrimitives K (counterKey 0) 2 calls) =
          [chain K (counterKey 0) 1] ∧
        ∃ key, channel.skippedKeys.get? 0 = some key ∧
          K.deriveNext^[1] key = chain K (counterKey 0) 1 :=
  ⟨counter_chainDistinct (by decide), by decide +kernel, counterKey 0, by decide +kernel, rfl⟩

end NullPath
