import NullPath.AntiReplay.Window
import NullPath.Transition.Cost

/-!
# What the store costs

A check may have to prune the whole queue, so it has no constant bound of its own. But
each entry is popped once, and one check pushes one entry: over a run the loops of
`prune` and `evict_oldest` together take two rounds for each check, besides those that
pop what the store held before (`checks_amortized`). This does not depend on the
readings of the clock, nor on the state the store is in.
-/

namespace NullPath

open Transition

namespace AntiReplayStore

/-- The rounds of the loop of `prune`: one for each entry popped, and one that stops at an
entry that is young enough. -/
def pruneRounds (window now : ℕ) : List (ReplayKey × Instant) → ℕ
  | [] => 0
  | (_, timestamp) :: rest =>
      if now - timestamp > window then pruneRounds window now rest + 1 else 1

/-- The rounds of the loop of `evict_oldest`: one for each entry popped. -/
def evictRounds (entries : Finmap (fun _ : ReplayKey => Instant)) :
    List (ReplayKey × Instant) → ℕ
  | [] => 0
  | (oldestKey, _) :: rest => if oldestKey ∈ entries then 1 else evictRounds entries rest + 1

/-- The rounds of both loops in a check. -/
def checkRounds (store : AntiReplayStore) (now : Instant) (seq : UInt64)
    (messageId : List UInt8) : ℕ :=
  let pruned := store.prune now
  pruneRounds store.timeWindow now store.queue +
    if (seq, messageId) ∈ pruned.entries then 0
    else if pruned.len ≥ pruned.capacity then evictRounds pruned.entries pruned.queue
    else 0

theorem pruneRounds_add_length_le (window now : ℕ)
    (entries : Finmap (fun _ : ReplayKey => Instant)) (queue : List (ReplayKey × Instant)) :
    pruneRounds window now queue + (pruneQueue window now entries queue).1.length ≤
      queue.length + 1 := by
  induction queue generalizing entries with
  | nil => simp [pruneRounds, pruneQueue]
  | cons e rest ih =>
      rw [pruneRounds, pruneQueue]
      split_ifs
      · have hrest := ih (entries.erase e.1)
        rw [List.length_cons]
        omega
      · rw [Nat.add_comm]

theorem evictRounds_add_length (entries : Finmap (fun _ : ReplayKey => Instant))
    (queue : List (ReplayKey × Instant)) :
    evictRounds entries queue + (evictQueue entries queue).1.length = queue.length := by
  induction queue with
  | nil => rfl
  | cons e rest ih =>
      rw [evictRounds, evictQueue]
      split_ifs
      · exact Nat.add_comm _ _
      · rw [List.length_cons, ← ih, Nat.add_right_comm]

/-- A check takes at most two rounds more than it shortens the queue. -/
theorem checkRounds_add_length_le (store : AntiReplayStore) (now : Instant) (seq : UInt64)
    (messageId : List UInt8) :
    store.checkRounds now seq messageId +
        (store.checkAndInsert now seq messageId).2.queue.length ≤ store.queue.length + 2 := by
  have hprune : pruneRounds store.timeWindow now store.queue + (store.prune now).queue.length ≤
      store.queue.length + 1 := pruneRounds_add_length_le _ _ _ _
  have hevict : evictRounds (store.prune now).entries (store.prune now).queue +
      (store.prune now).evictOldest.queue.length = (store.prune now).queue.length :=
    evictRounds_add_length _ _
  unfold checkRounds checkAndInsert
  simp only
  split_ifs
  · change _ + (store.prune now).queue.length ≤ _
    omega
  · rw [List.length_append, List.length_singleton]
    omega
  · rw [List.length_append, List.length_singleton]
    omega

end AntiReplayStore

/-- **Checks take constant time on average.** Over a run of checks on any store, at any
readings of the clock, the loops of `prune` and `evict_oldest` take no more rounds than two
for each check and one for each entry that was in the queue before and is gone. -/
theorem checks_amortized (store : AntiReplayStore) (calls : List CheckCall) :
    total checkStep (fun e => e.before.checkRounds e.input.now e.input.seq e.input.messageId)
        store calls + (final checkStep store calls).queue.length ≤
      store.queue.length + 2 * calls.length := by
  have hbudget : total checkStep (fun _ => 2) store calls = 2 * calls.length :=
    total_const 2 store calls
  rw [← hbudget]
  refine total_add_potential_le (fun store => store.queue.length) (fun _ => 0) ?_ store calls
  intro store call
  exact store.checkRounds_add_length_le call.now call.seq call.messageId

end NullPath
