import NullPath.AntiReplay.Basic
import NullPath.Data.SlidingWindow
import NullPath.Transition.Trace

/-!
# The store as a sliding window

The store keeps its pairs twice, in a map and in a queue. `Mirrors` says that
the two agree, and each loop of the store preserves it. `Tracks log now store`
adds what the queue is for: it is the sliding window, at the last reading of the
clock, over the log of the pairs recorded so far.

From this follow what a check answers (`check_answers_window`), and how far the
read-only `contains` agrees with it (`contains_iff_check`).
-/

namespace NullPath

open Transition SlidingWindow

namespace AntiReplayStore

/-! ## The map and the queue -/

/-- The map and the queue hold the same pairs, each once. -/
structure Mirrors (entries : Finmap (fun _ : ReplayKey => Instant))
    (queue : List (ReplayKey × Instant)) : Prop where
  nodup : (queue.map Prod.fst).Nodup
  lookup_iff : ∀ key timestamp,
    entries.lookup key = some timestamp ↔ (key, timestamp) ∈ queue

namespace Mirrors

variable {entries : Finmap (fun _ : ReplayKey => Instant)}
  {queue : List (ReplayKey × Instant)}

theorem mem_iff (h : Mirrors entries queue) (key : ReplayKey) :
    key ∈ entries ↔ key ∈ queue.map Prod.fst := by
  rw [Finmap.mem_iff]
  simp [h.lookup_iff]

theorem card_keys (h : Mirrors entries queue) : entries.keys.card = queue.length := by
  have hkeys : entries.keys = (queue.map Prod.fst).toFinset := by
    ext key
    rw [Finmap.mem_keys, h.mem_iff, List.mem_toFinset]
  rw [hkeys, List.toFinset_card_of_nodup h.nodup, List.length_map]

theorem pop {e : ReplayKey × Instant} (h : Mirrors entries (e :: queue)) :
    Mirrors (entries.erase e.1) queue := by
  obtain ⟨hhead, hrest⟩ := List.nodup_cons.1 h.nodup
  constructor
  · exact hrest
  · intro key timestamp
    by_cases hkey : key = e.1
    · subst hkey
      rw [Finmap.lookup_erase]
      constructor
      · intro hnone
        cases hnone
      · intro hmem
        exact absurd (List.mem_map_of_mem (f := Prod.fst) hmem) hhead
    · have hne : (key, timestamp) ≠ e := fun heq => hkey (congrArg Prod.fst heq)
      rw [Finmap.lookup_erase_ne hkey, h.lookup_iff]
      simp [hne]

theorem push (h : Mirrors entries queue) {key : ReplayKey} (hkey : key ∉ entries)
    (now : Instant) : Mirrors (entries.insert key now) (queue ++ [(key, now)]) := by
  have hqueue : key ∉ queue.map Prod.fst := fun hmem => hkey ((h.mem_iff key).2 hmem)
  constructor
  · rw [List.map_append, List.map_singleton, ← List.concat_eq_append]
    exact List.Nodup.concat hqueue h.nodup
  · intro key' timestamp
    by_cases heq : key' = key
    · subst heq
      have hnone : (key', timestamp) ∉ queue := fun hmem =>
        hqueue (List.mem_map_of_mem (f := Prod.fst) hmem)
      simp [Finmap.lookup_insert, hnone, eq_comm]
    · rw [Finmap.lookup_insert_of_ne _ heq, h.lookup_iff]
      simp [heq]

theorem pruneQueue (h : Mirrors entries queue) (window now : ℕ) :
    (pruneQueue window now entries queue).1 =
        queue.dropWhile (fun e => now - e.2 > window) ∧
      Mirrors (pruneQueue window now entries queue).2
        (pruneQueue window now entries queue).1 := by
  induction queue generalizing entries with
  | nil => exact ⟨rfl, h⟩
  | cons e rest ih =>
      rw [AntiReplayStore.pruneQueue, List.dropWhile_cons]
      by_cases hold : now - e.2 > window
      · rw [if_pos hold, if_pos (decide_eq_true hold)]
        exact ih h.pop
      · rw [if_neg hold, if_neg (by simpa using hold)]
        exact ⟨rfl, h⟩

/-- `evict_oldest` pops one pair from both: the head of the queue is always
recorded. -/
theorem evictQueue (h : Mirrors entries queue) :
    (evictQueue entries queue).1 = queue.tail ∧
      Mirrors (evictQueue entries queue).2 (evictQueue entries queue).1 := by
  cases queue with
  | nil => exact ⟨rfl, h⟩
  | cons e rest =>
      have hhead : e.1 ∈ entries := (h.mem_iff e.1).2 (by simp)
      rw [AntiReplayStore.evictQueue, if_pos hhead]
      exact ⟨rfl, h.pop⟩

end Mirrors

/-! ## The queue and the log -/

/-- How many pairs the store holds when it is full: one in a store of capacity 0,
since a check evicts before it records. -/
def limit (store : AntiReplayStore) : ℕ := max 1 store.capacity

/-- The store holds the window over the log of what it recorded, in its map and
in its queue. -/
structure Tracks (log : List (ReplayKey × Instant)) (now : Instant)
    (store : AntiReplayStore) : Prop where
  isLog : IsLog log now
  queue_eq : store.queue = window store.limit store.timeWindow now log
  mirrors : Mirrors store.entries store.queue

namespace Tracks

variable {log : List (ReplayKey × Instant)} {last now : Instant} {store : AntiReplayStore}

theorem withCapacityAndWindow (capacity windowSecs : ℕ) :
    Tracks [] 0 (withCapacityAndWindow capacity windowSecs) where
  isLog := IsLog.nil 0
  queue_eq := by simp [AntiReplayStore.withCapacityAndWindow, window]
  mirrors :=
    { nodup := List.nodup_nil
      lookup_iff := by simp [AntiReplayStore.withCapacityAndWindow] }

theorem len_eq (h : Tracks log now store) : store.len = store.queue.length :=
  h.mirrors.card_keys

theorem prune (h : Tracks log last store) (hle : last ≤ now) :
    Tracks log now (store.prune now) := by
  obtain ⟨hqueue, hmirrors⟩ := h.mirrors.pruneQueue store.timeWindow now
  constructor
  · exact h.isLog.mono hle
  · change (pruneQueue store.timeWindow now store.entries store.queue).1 = _
    rw [hqueue, h.queue_eq, dropWhile_window h.isLog hle]
    rfl
  · exact hmirrors

theorem room (h : Tracks log now store) :
    let roomy := if store.len ≥ store.capacity then store.evictOldest else store
    (roomy.queue = if store.queue.length ≥ store.limit then store.queue.tail
      else store.queue) ∧ Mirrors roomy.entries roomy.queue := by
  intro roomy
  by_cases hfull : store.len ≥ store.capacity
  · have htail : (if store.queue.length ≥ store.limit then store.queue.tail
        else store.queue) = store.queue.tail := by
      rw [h.len_eq] at hfull
      cases hqueue : store.queue with
      | nil => simp
      | cons e rest =>
          rw [hqueue] at hfull
          rw [if_pos (by simpa [limit] using hfull)]
    rw [htail]
    simp only [roomy, if_pos hfull]
    exact h.mirrors.evictQueue
  · have hroom : ¬ store.queue.length ≥ store.limit := by
      rw [← h.len_eq, limit]
      omega
    simp only [roomy, if_neg hfull, if_neg hroom]
    exact ⟨trivial, h.mirrors⟩

/-- A check answers from the window at its time, and a fresh pair is logged. -/
theorem checkAndInsert (h : Tracks log last store) (hle : last ≤ now) (seq : UInt64)
    (messageId : List UInt8) :
    let key := (seq, messageId)
    let result := store.checkAndInsert now seq messageId
    (result.1 = false ↔
        key ∈ (window store.limit store.timeWindow now log).map Prod.fst) ∧
      Tracks (if result.1 then log ++ [(key, now)] else log) now result.2 := by
  intro key result
  have hpruned := h.prune hle
  have hanswer : key ∈ (store.prune now).entries ↔
      key ∈ (window store.limit store.timeWindow now log).map Prod.fst := by
    rw [hpruned.mirrors.mem_iff, hpruned.queue_eq]
    rfl
  by_cases hdup : key ∈ (store.prune now).entries
  · have hresult : result = (false, store.prune now) := if_pos hdup
    rw [hresult]
    exact ⟨iff_of_true rfl (hanswer.1 hdup), hpruned⟩
  · set roomy := if (store.prune now).len ≥ (store.prune now).capacity then
      (store.prune now).evictOldest else store.prune now with hroomy
    have hresult : result = (true, { roomy with
        entries := roomy.entries.insert key now, queue := roomy.queue ++ [(key, now)] }) :=
      if_neg hdup
    obtain ⟨hqueue, hmirrors⟩ := hpruned.room
    rw [← hroomy] at hqueue hmirrors
    have hlimits : roomy.capacity = store.capacity ∧ roomy.timeWindow = store.timeWindow := by
      rw [hroomy]
      split_ifs <;> exact ⟨rfl, rfl⟩
    have hkey : key ∉ roomy.entries := by
      rw [hroomy]
      split_ifs
      · exact fun hmem => hdup (mem_evictOldest hmem)
      · exact hdup
    rw [hresult]
    refine ⟨iff_of_false (by simp) fun hmem => hdup (hanswer.2 hmem), ?_⟩
    constructor
    · exact hpruned.isLog.concat key
    · have hwindow := window_concat (c := store.limit) (w := store.timeWindow)
        (le_max_left _ _) hpruned.isLog key
      rw [if_pos rfl]
      simp only [limit, hlimits]
      rw [hqueue, hpruned.queue_eq]
      exact hwindow.symm
    · exact hmirrors.push hkey now

end Tracks

end AntiReplayStore

/-! ## Runs of checks -/

/-- A call of `check_and_insert` at a reading of the clock. -/
structure CheckCall where
  now : Instant
  seq : UInt64
  messageId : List UInt8
  deriving DecidableEq

def CheckCall.key (call : CheckCall) : ReplayKey := (call.seq, call.messageId)

def checkStep (store : AntiReplayStore) (call : CheckCall) : Bool × AntiReplayStore :=
  store.checkAndInsert call.now call.seq call.messageId

abbrev CheckEvent := Event AntiReplayStore CheckCall Bool

/-- The pair a call recorded, with the time. -/
def recorded? (event : CheckEvent) : Option (ReplayKey × Instant) :=
  if event.output then some (event.input.key, event.input.now) else none

/-- The pairs recorded in a run, in order. -/
def recorded (events : List CheckEvent) : List (ReplayKey × Instant) :=
  events.filterMap recorded?

theorem recorded_concat (events : List CheckEvent) (e : CheckEvent) :
    recorded (events ++ [e]) = recorded events ++ (recorded? e).toList :=
  filterMap_concat _ events e

theorem recorded?_eq_some_iff {event : CheckEvent} {e : ReplayKey × Instant} :
    recorded? event = some e ↔
      event.output = true ∧ event.input.key = e.1 ∧ event.input.now = e.2 := by
  unfold recorded?
  cases event.output <;> simp [Prod.ext_iff]

theorem checkStep_limits (store : AntiReplayStore) (call : CheckCall) :
    (checkStep store call).2.capacity = store.capacity ∧
      (checkStep store call).2.timeWindow = store.timeWindow := by
  unfold checkStep AntiReplayStore.checkAndInsert
  simp only
  split_ifs <;> exact ⟨rfl, rfl⟩

/-- The last reading of the clock in a run, zero before any. -/
def lastReading (calls : List CheckCall) : Instant := (calls.getLast?.map CheckCall.now).getD 0

theorem lastReading_concat (calls : List CheckCall) (call : CheckCall) :
    lastReading (calls ++ [call]) = call.now := by
  simp [lastReading]

theorem lastReading_le {calls : List CheckCall} {now : Instant}
    (h : ∀ call ∈ calls, call.now ≤ now) : lastReading calls ≤ now := by
  cases hlast : calls.getLast? with
  | none => simp [lastReading, hlast]
  | some call =>
      simpa [lastReading, hlast] using h call (List.mem_of_getLast? hlast)

/-- The readings of a run do not decrease. -/
def InClockOrder (calls : List CheckCall) : Prop := calls.Pairwise fun c c' => c.now ≤ c'.now

theorem inClockOrder_concat_iff {calls : List CheckCall} {call : CheckCall} :
    InClockOrder (calls ++ [call]) ↔
      InClockOrder calls ∧ ∀ c ∈ calls, c.now ≤ call.now := by
  simp [InClockOrder, List.pairwise_append]

/-- A run at non-decreasing times leaves the window over what it recorded. -/
theorem tracks_run (capacity windowSecs : ℕ) (calls : List CheckCall)
    (hclock : InClockOrder calls) :
    let start := AntiReplayStore.withCapacityAndWindow capacity windowSecs
    let store := final checkStep start calls
    store.capacity = capacity ∧ store.timeWindow = windowSecs * 1000000000 ∧
      AntiReplayStore.Tracks (recorded (trace checkStep start calls)) (lastReading calls)
        store := by
  intro start
  induction calls using List.reverseRecOn with
  | nil =>
      exact ⟨rfl, rfl, AntiReplayStore.Tracks.withCapacityAndWindow capacity windowSecs⟩
  | append_singleton calls call ih =>
      obtain ⟨hbefore, hlast⟩ := inClockOrder_concat_iff.1 hclock
      obtain ⟨hcapacity, hwindow, htracks⟩ := ih hbefore
      obtain ⟨hcapacity', hwindow'⟩ := checkStep_limits (final checkStep start calls) call
      rw [final_concat, trace_concat, recorded_concat, lastReading_concat]
      refine ⟨hcapacity'.trans hcapacity, hwindow'.trans hwindow, ?_⟩
      have hstep : AntiReplayStore.Tracks
          (if (checkStep (final checkStep start calls) call).1
            then recorded (trace checkStep start calls) ++ [(call.key, call.now)]
            else recorded (trace checkStep start calls)) call.now
          (checkStep (final checkStep start calls) call).2 :=
        (htracks.checkAndInsert (lastReading_le hlast) call.seq call.messageId).2
      cases hanswer : (checkStep (final checkStep start calls) call).1 with
      | false => simpa [recorded?, event, hanswer] using hstep
      | true => simpa [recorded?, event, hanswer] using hstep

theorem recorded_split {events : List CheckEvent} {e : ReplayKey × Instant} {n : ℕ} :
    (∃ before after, recorded events = before ++ e :: after ∧ after.length < n) ↔
      ∃ before event after, events = before ++ event :: after ∧ recorded? event = some e ∧
        after.countP (fun event => event.output) < n := by
  have hcount : ∀ events : List CheckEvent,
      (recorded events).length = events.countP fun event => event.output := by
    intro events
    rw [recorded, List.length_filterMap_eq_countP]
    apply List.countP_congr
    intro event _
    unfold recorded?
    cases event.output <;> simp
  constructor
  · rintro ⟨before, after, hsplit, hshort⟩
    obtain ⟨front, back, hevents, _, hback⟩ := List.filterMap_eq_append_iff.1 hsplit
    obtain ⟨skipped, event, rest, hrest, _, hevent, hafter⟩ :=
      List.filterMap_eq_cons_iff.1 hback
    refine ⟨front ++ skipped, event, rest, by simp [hevents, hrest], hevent, ?_⟩
    rw [← hcount, recorded, hafter]
    exact hshort
  · rintro ⟨before, event, after, hsplit, hevent, hshort⟩
    refine ⟨recorded before, recorded after, ?_, by rw [hcount]; exact hshort⟩
    rw [hsplit, recorded, List.filterMap_append, List.filterMap_cons_some hevent]
    rfl

/-- **The store is a sliding window.** In a run of checks at non-decreasing
times, a check answers `false` exactly when an earlier check on the same pair
answered `true` no longer ago than the window and with fewer than `capacity`
checks that answered `true` since; and after it the map and the queue hold the
same pairs, each once and in the order of their times, at most `capacity` of
them. -/
theorem check_answers_window (capacity windowSecs : ℕ) (hcapacity : 1 ≤ capacity)
    (calls : List CheckCall) (call : CheckCall)
    (hclock : InClockOrder (calls ++ [call])) :
    let start := AntiReplayStore.withCapacityAndWindow capacity windowSecs
    let result := checkStep (final checkStep start calls) call
    (result.1 = false ↔
      ∃ before earlier after, trace checkStep start calls = before ++ earlier :: after ∧
        earlier.input.key = call.key ∧ earlier.output = true ∧
          call.now - earlier.input.now ≤ windowSecs * 1000000000 ∧
            after.countP (fun event => event.output) < capacity) ∧
      (result.2.queue.map Prod.fst).Nodup ∧
        (∀ key timestamp, result.2.entries.lookup key = some timestamp ↔
          (key, timestamp) ∈ result.2.queue) ∧
          result.2.queue.Pairwise (fun e e' => e.2 ≤ e'.2) ∧ result.2.len ≤ capacity := by
  intro start result
  obtain ⟨hbefore, hlast⟩ := inClockOrder_concat_iff.1 hclock
  obtain ⟨hcap, hwindow, htracks⟩ := tracks_run capacity windowSecs calls hbefore
  have hnow : lastReading calls ≤ call.now := lastReading_le hlast
  have hlimit : (final checkStep start calls).limit = capacity := by
    rw [AntiReplayStore.limit, hcap]
    exact max_eq_right hcapacity
  obtain ⟨hanswer, htracks'⟩ := htracks.checkAndInsert hnow call.seq call.messageId
  have hlimit' : result.2.limit = capacity := by
    rw [AntiReplayStore.limit, (checkStep_limits _ call).1]
    exact hlimit
  have hqueue := htracks'.queue_eq
  refine ⟨?_, htracks'.mirrors.nodup, htracks'.mirrors.lookup_iff, ?_, ?_⟩
  · rw [hlimit, hwindow] at hanswer
    refine hanswer.trans ?_
    constructor
    · intro hmem
      obtain ⟨e, he, hkey⟩ := List.mem_map.1 hmem
      obtain ⟨hage, hsplit⟩ := mem_window_iff.1 he
      obtain ⟨before, earlier, after, htrace, hrecorded, hcount⟩ := recorded_split.1 hsplit
      obtain ⟨houtput, hinput, htime⟩ := recorded?_eq_some_iff.1 hrecorded
      exact ⟨before, earlier, after, htrace, hinput.trans hkey, houtput,
        by rw [htime]; exact hage, hcount⟩
    · rintro ⟨before, earlier, after, htrace, hkey, houtput, hage, hcount⟩
      refine List.mem_map.2 ⟨(earlier.input.key, earlier.input.now), ?_, hkey⟩
      refine mem_window_iff.2 ⟨hage, recorded_split.2 ?_⟩
      exact ⟨before, earlier, after, htrace, recorded?_eq_some_iff.2 ⟨houtput, rfl, rfl⟩, hcount⟩
  · rw [show result.2.queue = _ from hqueue]
    exact htracks'.isLog.sorted.sublist (window_sublist _ _ _ _)
  · have hlen : result.2.len ≤ result.2.limit := by
      rw [show result.2.len = _ from htracks'.len_eq, hqueue]
      exact length_window_le _ _ _ _
    exact hlen.trans_eq hlimit'

/-- A pair is a duplicate up to the last nanosecond of the window, with one pair
fewer after it than the store holds. -/
theorem duplicate_on_the_boundary :
    let calls : List CheckCall := [⟨0, 0, [7]⟩, ⟨5, 1, [8]⟩]
    (checkStep (final checkStep (AntiReplayStore.withCapacityAndWindow 2 300) calls)
      ⟨300 * 1000000000, 0, [7]⟩).1 = false := by
  intro calls
  apply (check_answers_window 2 300 (by decide) calls ⟨300 * 1000000000, 0, [7]⟩
    (by simp [calls, InClockOrder])).1.2
  exact ⟨[], _, _, rfl, rfl, by decide, by decide, by decide⟩

/-! ## The read-only check -/

/-- **What `contains` answers.** At a time not before the checks of a run, the
read-only check answers `true` exactly when the mutating one would answer
`false`, or when the pair is still recorded although it has outlived the window:
`contains` does not prune. -/
theorem contains_iff_check (capacity windowSecs : ℕ) (calls : List CheckCall)
    (call : CheckCall)
    (hclock : InClockOrder (calls ++ [call])) :
    let store := final checkStep (AntiReplayStore.withCapacityAndWindow capacity windowSecs)
      calls
    store.contains call.seq call.messageId = true ↔
      (store.checkAndInsert call.now call.seq call.messageId).1 = false ∨
        ∃ timestamp, store.entries.lookup call.key = some timestamp ∧
          call.now - timestamp > windowSecs * 1000000000 := by
  intro store
  obtain ⟨hbefore, hlast⟩ := inClockOrder_concat_iff.1 hclock
  obtain ⟨_, hwindow, htracks⟩ := tracks_run capacity windowSecs calls hbefore
  have hnow : lastReading calls ≤ call.now := lastReading_le hlast
  have hanswer := (htracks.checkAndInsert hnow call.seq call.messageId).1
  rw [← filter_window hnow, ← htracks.queue_eq, hwindow] at hanswer
  have hcontains : store.contains call.seq call.messageId = true ↔ call.key ∈ store.entries :=
    decide_eq_true_iff
  rw [hcontains, hanswer, Finmap.mem_iff]
  constructor
  · rintro ⟨timestamp, hlookup⟩
    by_cases hold : call.now - timestamp > windowSecs * 1000000000
    · exact Or.inr ⟨timestamp, hlookup, hold⟩
    · refine Or.inl (List.mem_map.2 ⟨(call.key, timestamp), List.mem_filter.2 ⟨?_, ?_⟩, rfl⟩)
      · exact (htracks.mirrors.lookup_iff _ _).1 hlookup
      · simpa using hold
  · rintro (hfresh | ⟨timestamp, hlookup, _⟩)
    · obtain ⟨e, he, hkey⟩ := List.mem_map.1 hfresh
      refine ⟨e.2, (htracks.mirrors.lookup_iff _ _).2 ?_⟩
      rw [← show e.1 = call.key from hkey]
      exact List.mem_of_mem_filter he
    · exact ⟨timestamp, hlookup⟩

/-- What a run of fresh pairs still holds: a pair that came no longer before the
last reading than the window, with fewer than `limit` pairs after it. -/
def Remembers (limit window : ℕ) (calls : List CheckCall) (key : ReplayKey) : Prop :=
  ∃ before call after, calls = before ++ call :: after ∧ call.key = key ∧
    after.length < limit ∧ ∀ later ∈ after, later.now - call.now ≤ window

theorem recorded_of_fresh {calls : List CheckCall} {start : AntiReplayStore}
    (hfresh : ∀ e ∈ trace checkStep start calls, e.output = true) :
    recorded (trace checkStep start calls) = calls.map fun call => (call.key, call.now) := by
  have hall : ∀ events : List CheckEvent, (∀ e ∈ events, e.output = true) →
      recorded events = (events.map Event.input).map fun call => (call.key, call.now) := by
    intro events h
    induction events with
    | nil => rfl
    | cons e rest ih =>
        obtain ⟨he, hrest⟩ := List.forall_mem_cons.1 h
        have hrecorded : recorded? e = some (e.input.key, e.input.now) := if_pos he
        rw [recorded, List.filterMap_cons_some hrecorded, List.map_cons, List.map_cons,
          ← ih hrest]
        rfl
  rw [hall _ hfresh, trace_inputs]

theorem lastReading_sub_le_iff {before after : List CheckCall} {call : CheckCall} {window : ℕ}
    (hclock : InClockOrder (before ++ call :: after)) :
    lastReading (before ++ call :: after) - call.now ≤ window ↔
      ∀ later ∈ after, later.now - call.now ≤ window := by
  rcases List.eq_nil_or_concat after with rfl | ⟨after, last, rfl⟩
  · simp [lastReading_concat]
  · have hlast : lastReading (before ++ call :: after.concat last) = last.now := by
      rw [List.concat_eq_append, ← List.cons_append, ← List.append_assoc, lastReading_concat]
    rw [hlast]
    constructor
    · intro h later hlater
      have hle : later.now ≤ last.now := by
        rw [List.concat_eq_append, List.mem_append, List.mem_singleton] at hlater
        rcases hlater with hmem | rfl
        · rw [List.concat_eq_append, ← List.cons_append, ← List.append_assoc] at hclock
          exact (inClockOrder_concat_iff.1 hclock).2 later (by simp [hmem])
        · exact Nat.le_refl _
      exact (Nat.sub_le_sub_right hle call.now).trans h
    · intro h
      exact h last (by simp)

/-- After checks that all recorded, `contains` answers from their history. -/
theorem contains_iff_remembers (capacity windowSecs : ℕ) {calls : List CheckCall}
    (hclock : InClockOrder calls)
    (hfresh : ∀ e ∈ trace checkStep
      (AntiReplayStore.withCapacityAndWindow capacity windowSecs) calls, e.output = true)
    (seq : UInt64) (messageId : List UInt8) :
    (final checkStep (AntiReplayStore.withCapacityAndWindow capacity windowSecs)
        calls).contains seq messageId = true ↔
      Remembers (max 1 capacity) (windowSecs * 1000000000) calls (seq, messageId) := by
  obtain ⟨hcapacity, hwindow, htracks⟩ := tracks_run capacity windowSecs calls hclock
  rw [AntiReplayStore.contains, decide_eq_true_iff, htracks.mirrors.mem_iff, htracks.queue_eq,
    AntiReplayStore.limit, hcapacity, hwindow, recorded_of_fresh hfresh]
  constructor
  · intro hmem
    obtain ⟨e, he, hkey⟩ := List.mem_map.1 hmem
    obtain ⟨hage, front, back, hsplit, hshort⟩ := mem_window_iff.1 he
    obtain ⟨before, rest, rfl, _, hrest⟩ := List.map_eq_append_iff.1 hsplit
    obtain ⟨call, after, rfl, rfl, rfl⟩ := List.map_eq_cons_iff.1 hrest
    rw [List.length_map] at hshort
    exact ⟨before, call, after, rfl, hkey, hshort, (lastReading_sub_le_iff hclock).1 hage⟩
  · rintro ⟨before, call, after, rfl, hkey, hshort, hage⟩
    refine List.mem_map.2 ⟨(call.key, call.now), mem_window_iff.2 ⟨?_, ?_⟩, hkey⟩
    · exact (lastReading_sub_le_iff hclock).2 hage
    · exact ⟨_, _, by rw [List.map_append, List.map_cons], by simpa using hshort⟩

/-- A second after the window has closed, an idle store still contains a pair
that it would record anew. -/
theorem idle_store_contains :
    ¬ ∀ (calls : List CheckCall) (call : CheckCall),
      InClockOrder (calls ++ [call]) →
        ((final checkStep AntiReplayStore.new calls).contains call.seq call.messageId = true ↔
          ((final checkStep AntiReplayStore.new calls).checkAndInsert call.now call.seq
            call.messageId).1 = false) := by
  intro h
  have hclaim := h [⟨0, 0, [7]⟩] ⟨301 * 1000000000, 0, [7]⟩ (by simp [InClockOrder])
  revert hclaim
  decide

/-- Within the window the two checks agree. -/
theorem contains_within_window :
    let store := final checkStep (AntiReplayStore.withCapacityAndWindow 2 300) [⟨0, 0, [7]⟩]
    store.contains 0 [7] = true ∧ (store.checkAndInsert 1000 0 [7]).1 = false := by
  intro store
  have hduplicate : (store.checkAndInsert 1000 0 [7]).1 = false := by decide
  exact ⟨(contains_iff_check 2 300 [⟨0, 0, [7]⟩] ⟨1000, 0, [7]⟩ (by simp [InClockOrder])).2
    (Or.inl hduplicate), hduplicate⟩

end NullPath
