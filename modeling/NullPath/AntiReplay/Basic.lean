import Mathlib.Data.Finmap

/-!
# The anti-replay store

The store records processed pairs of sequence number and message id twice: in a
hash map, which answers membership, and in a queue in order of arrival, from
whose head entries leave by age (`prune`) or by capacity (`evictOldest`).
Instants are nanoseconds of the monotonic clock, and the age of an entry
saturates at zero as `Instant::duration_since` does.
-/

namespace NullPath

/-- A reading of the monotonic clock, in nanoseconds. -/
abbrev Instant := ℕ

/-- What the store is keyed by: a sequence number and a message id. -/
abbrev ReplayKey := UInt64 × List UInt8

abbrev antiReplayCapacity : ℕ := 10000

/-- 300 seconds, in nanoseconds. -/
abbrev antiReplayTimeWindow : ℕ := 300 * 1000000000

structure AntiReplayStore where
  entries : Finmap (fun _ : ReplayKey => Instant)
  queue : List (ReplayKey × Instant)
  capacity : ℕ
  timeWindow : ℕ

namespace AntiReplayStore

def new : AntiReplayStore :=
  { entries := ∅, queue := [], capacity := antiReplayCapacity,
    timeWindow := antiReplayTimeWindow }

/-- A store with its own capacity and window, the latter in seconds. -/
def withCapacityAndWindow (capacity windowSecs : ℕ) : AntiReplayStore :=
  { entries := ∅, queue := [], capacity := capacity,
    timeWindow := windowSecs * 1000000000 }

/-- Whether the pair is recorded; a read-only check. -/
def contains (store : AntiReplayStore) (seq : UInt64) (messageId : List UInt8) : Bool :=
  decide ((seq, messageId) ∈ store.entries)

/-- The loop of `prune`: pop the queue head while it is older than the window. -/
def pruneQueue (window now : ℕ) (entries : Finmap (fun _ : ReplayKey => Instant)) :
    List (ReplayKey × Instant) →
      List (ReplayKey × Instant) × Finmap (fun _ : ReplayKey => Instant)
  | [] => ([], entries)
  | (key, timestamp) :: rest =>
      if now - timestamp > window then pruneQueue window now (entries.erase key) rest
      else ((key, timestamp) :: rest, entries)

/-- Drop expired entries from the queue head. -/
def prune (store : AntiReplayStore) (now : Instant) : AntiReplayStore :=
  let (queue, entries) := pruneQueue store.timeWindow now store.entries store.queue
  { store with queue := queue, entries := entries }

/-- The loop of `evictOldest`: pop until an entry was really removed. -/
def evictQueue (entries : Finmap (fun _ : ReplayKey => Instant)) :
    List (ReplayKey × Instant) →
      List (ReplayKey × Instant) × Finmap (fun _ : ReplayKey => Instant)
  | [] => ([], entries)
  | (oldestKey, _) :: rest =>
      if oldestKey ∈ entries then (rest, entries.erase oldestKey)
      else evictQueue entries rest

/-- Drop the single oldest entry. -/
def evictOldest (store : AntiReplayStore) : AntiReplayStore :=
  let (queue, entries) := evictQueue store.entries store.queue
  { store with queue := queue, entries := entries }

/-- The current count of tracked entries. -/
def len (store : AntiReplayStore) : ℕ := store.entries.keys.card

/-- Record a fresh pair and answer `true`, or answer `false` for one that is
already recorded. The store is pruned before it answers. -/
def checkAndInsert (store : AntiReplayStore) (now : Instant) (seq : UInt64)
    (messageId : List UInt8) : Bool × AntiReplayStore :=
  let store := store.prune now
  let key := (seq, messageId)
  if key ∈ store.entries then
    (false, store)
  else
    let store := if store.len ≥ store.capacity then store.evictOldest else store
    (true, { store with
      entries := store.entries.insert key now, queue := store.queue ++ [(key, now)] })

/-! ## What a check may record -/

theorem mem_pruneQueue {window now : ℕ} {entries : Finmap (fun _ : ReplayKey => Instant)}
    {queue : List (ReplayKey × Instant)} {key : ReplayKey}
    (h : key ∈ (pruneQueue window now entries queue).2) : key ∈ entries := by
  induction queue generalizing entries with
  | nil => exact h
  | cons e rest ih =>
      rw [pruneQueue] at h
      split_ifs at h with hold
      · exact (Finmap.mem_erase.1 (ih h)).2
      · exact h

theorem mem_evictQueue {entries : Finmap (fun _ : ReplayKey => Instant)}
    {queue : List (ReplayKey × Instant)} {key : ReplayKey}
    (h : key ∈ (evictQueue entries queue).2) : key ∈ entries := by
  induction queue with
  | nil => exact h
  | cons e rest ih =>
      rw [evictQueue] at h
      split_ifs at h with hmem
      · exact (Finmap.mem_erase.1 h).2
      · exact ih h

theorem mem_prune {store : AntiReplayStore} {now : Instant} {key : ReplayKey}
    (h : key ∈ (store.prune now).entries) : key ∈ store.entries :=
  mem_pruneQueue h

theorem mem_evictOldest {store : AntiReplayStore} {key : ReplayKey}
    (h : key ∈ store.evictOldest.entries) : key ∈ store.entries :=
  mem_evictQueue h

theorem checkAndInsert_duplicate {store : AntiReplayStore} {now : Instant} {seq : UInt64}
    {messageId : List UInt8} (h : (seq, messageId) ∈ (store.prune now).entries) :
    store.checkAndInsert now seq messageId = (false, store.prune now) := by
  unfold checkAndInsert
  simp only
  rw [if_pos h]

theorem checkAndInsert_pruned {store : AntiReplayStore} {now : Instant} {seq : UInt64}
    {messageId : List UInt8} (h : (seq, messageId) ∉ (store.prune now).entries) :
    (store.checkAndInsert now seq messageId).1 = true := by
  unfold checkAndInsert
  simp only
  rw [if_neg h]

theorem checkAndInsert_fresh {store : AntiReplayStore} {now : Instant} {seq : UInt64}
    {messageId : List UInt8} (h : (seq, messageId) ∉ store.entries) :
    (store.checkAndInsert now seq messageId).1 = true :=
  checkAndInsert_pruned fun hmem => h (mem_prune hmem)

/-- A check records at most the pair it was asked about. -/
theorem mem_checkAndInsert {store : AntiReplayStore} {now : Instant} {seq : UInt64}
    {messageId : List UInt8} {key : ReplayKey}
    (h : key ∈ (store.checkAndInsert now seq messageId).2.entries) :
    key = (seq, messageId) ∨ key ∈ store.entries := by
  unfold checkAndInsert at h
  simp only at h
  split_ifs at h with hdup hfull
  · exact Or.inr (mem_prune h)
  · exact (Finmap.mem_insert.1 h).imp_right fun hmem => mem_prune (mem_evictOldest hmem)
  · exact (Finmap.mem_insert.1 h).imp_right mem_prune

end AntiReplayStore

end NullPath
