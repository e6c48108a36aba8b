import NullPath.Channel.Window
import NullPath.Channel.Position

/-!
# What a seized channel gives away

Who takes a channel in some state can step the keys in it, but not back. So the keys of the
messages still to come are lost, and with them those of past messages that lie behind a
skipped key. Along the chain the keys keep the order of the peer's numbers: a key that
waits for number `s` lies behind the key of a past message exactly when the ratchet had
passed `s` before it came to the message (`ChainOrder`). Nothing is assumed about the
cipher, and the calls before and after the seizure are arbitrary.
-/

namespace NullPath

open Transition

variable {κ κ' : Type*} {P : Primitives} {K : KeyOps κ} {rootKey : κ} {nPaths : ℕ}

namespace SecureChannel

/-- The keys in the state of a channel. -/
def Holds (channel : SecureChannel κ) (key : κ) : Prop :=
  channel.currentKey = key ∨ ∃ s, channel.skippedKeys.get? s = some key

/-- A key in the state of a channel leads to a key in at most so many steps. -/
def Yields (K : KeyOps κ) (channel : SecureChannel κ) (steps : ℕ) (key : κ) : Prop :=
  ∃ held, channel.Holds held ∧ ∃ n ≤ steps, K.deriveNext^[n] held = key

theorem window_map (f : κ → κ') (channel : SecureChannel κ) :
    (channel.map f).window = channel.window := by
  rw [window, window, SecureChannel.map, SortedMap.keySet_map]

end SecureChannel

/-- Where a message stands among the numbers of the peer: one sent stands at the number
expected then, one received at its own. -/
def ChannelEvent.standsAt (e : ChannelEvent κ) : ℕ :=
  match e.input with
  | .send _ => expectedSeq e.before.lastSeq
  | .receive args => args.seq.toNat

theorem parked_of_forward {channel : SecureChannel ℕ} {seq : UInt64} {target : Target ℕ}
    (hforward : ForwardTarget (positionOps K rootKey) channel seq target) {s : UInt64} {p : ℕ}
    (hget : ((channel.skippedKeys.insertAll target.localSkipped).evict maxSkippedKeys).get? s =
      some p) :
    channel.skippedKeys.get? s = some p ∨
      expectedSeq channel.lastSeq ≤ s.toNat ∧ s.toNat < seq.toNat ∧
        p = channel.currentKey + (s.toNat - expectedSeq channel.lastSeq) := by
  have hmerged := SortedMap.get?_of_get?_evict hget
  rw [hforward.get?_merged, iterate_deriveNext_position] at hmerged
  split_ifs at hmerged with hrange
  · exact Or.inr ⟨hrange.1, hrange.2, (Option.some.inj hmerged).symm⟩
  · exact Or.inl hmerged

theorem ForwardTarget.currentKey_le {channel : SecureChannel ℕ} {seq : UInt64}
    {target : Target ℕ} (h : ForwardTarget (positionOps K rootKey) channel seq target) :
    channel.currentKey ≤ target.targetKey := by
  rw [h.targetKey, iterate_deriveNext_position]
  exact Nat.le_add_right _ _

theorem parked_of_late {channel : SecureChannel ℕ} {seq s : UInt64} {p : ℕ}
    (hget : (channel.skippedKeys.erase seq).get? s = some p) :
    s ≠ seq ∧ channel.skippedKeys.get? s = some p := by
  rw [SortedMap.get?_erase] at hget
  split_ifs at hget with hs
  exact ⟨hs, hget⟩

/-- A message at a position of the chain: the parked positions up to it are those of the
numbers that it stands past. -/
structure StandsPast (channel : SecureChannel ℕ) (position number : ℕ) : Prop where
  position_lt : position < channel.currentKey
  number_le : number ≤ expectedSeq channel.lastSeq
  parked_le_iff : ∀ s p, channel.skippedKeys.get? s = some p →
    (p ≤ position ↔ s.toNat < number)

/-- The parked positions are in the order of their numbers, and the messages of the past
stand among them. -/
structure ChainOrder (K : KeyOps ℕ) (past : List (ChannelEvent ℕ))
    (channel : SecureChannel ℕ) : Prop where
  positions : Positions (consumedKeys K past) channel
  books : Bookkeeping (acceptedSeqs past) channel
  parked_mono : ∀ s p s' p', channel.skippedKeys.get? s = some p →
    channel.skippedKeys.get? s' = some p' → s.toNat < s'.toNat → p < p'
  consumed : ∀ e ∈ past, ∀ p, consumedKey? K e = some p → StandsPast channel p e.standsAt

theorem StandsPast.step {channel : SecureChannel ℕ} {position number : ℕ}
    (h : StandsPast channel position number) :
    StandsPast (advanceSender (positionOps K rootKey) channel) position number :=
  ⟨h.position_lt.trans (Nat.lt_succ_self _), h.number_le, h.parked_le_iff⟩

namespace ChainOrder

variable {past : List (ChannelEvent ℕ)} {channel channel' : SecureChannel ℕ} {seq : UInt64}
  {target : Target ℕ}

theorem new (K : KeyOps ℕ) (nPaths : ℕ) : ChainOrder K [] (SecureChannel.new 0 nPaths) where
  positions := Positions.new nPaths
  books := Bookkeeping.new 0 nPaths
  parked_mono _ _ _ _ h := by cases h
  consumed _ h := absurd h List.not_mem_nil

theorem standsPast_sent (h : ChainOrder (positionOps K rootKey) past channel) :
    StandsPast (advanceSender (positionOps K rootKey) channel) channel.currentKey
      (expectedSeq channel.lastSeq) where
  position_lt := Nat.lt_succ_self _
  number_le := Nat.le_refl _
  parked_le_iff s p hget :=
    iff_of_true (h.positions.parked_lt s p hget).le (h.books.skipped_lt s p hget)

theorem forward (h : ChainOrder (positionOps K rootKey) past channel) (store : AntiReplayStore)
    (hforward : ForwardTarget (positionOps K rootKey) channel seq target) :
    let channel' := { channel with antiReplay := store }.commit seq target
    (∀ s p s' p', channel'.skippedKeys.get? s = some p → channel'.skippedKeys.get? s' = some p' →
        s.toNat < s'.toNat → p < p') ∧
      (∀ position number, StandsPast channel position number →
        StandsPast channel' position number) ∧
      StandsPast channel' target.targetKey seq.toNat := by
  have hexpected := hforward.expected_le
  have htarget : target.targetKey =
      channel.currentKey + (seq.toNat - expectedSeq channel.lastSeq) := by
    rw [hforward.targetKey, iterate_deriveNext_position]
  have hnext : (positionOps K rootKey).deriveNext target.targetKey = target.targetKey + 1 := rfl
  rw [commit_forward _ seq hforward.isForward hforward.nextRatchetKey, hnext]
  refine ⟨?_, ?_, ⟨Nat.lt_succ_self _, Nat.le_succ _, ?_⟩⟩
  · intro s p s' p' hget hget' hlt
    rcases parked_of_forward hforward hget with hold | ⟨hle, _, heq⟩
    · rcases parked_of_forward hforward hget' with hold' | ⟨_, _, heq'⟩
      · exact h.parked_mono s p s' p' hold hold' hlt
      · rw [heq']
        exact (h.positions.parked_lt s p hold).trans_le (Nat.le_add_right _ _)
    · rcases parked_of_forward hforward hget' with hold' | ⟨_, _, heq'⟩
      · have hpassed := h.books.skipped_lt s' p' hold'
        exact absurd (hle.trans_lt (hlt.trans hpassed)) (Nat.lt_irrefl _)
      · omega
  · intro position number hpast
    have hposition := hpast.position_lt
    have hnumber := hpast.number_le
    refine ⟨?_, hnumber.trans (hexpected.trans (Nat.le_succ _)), fun s p hget => ?_⟩
    · change position < target.targetKey + 1
      omega
    · rcases parked_of_forward hforward hget with hold | ⟨hle, _, heq⟩
      · exact hpast.parked_le_iff s p hold
      · exact iff_of_false (by omega) (by omega)
  · intro s p hget
    rcases parked_of_forward hforward hget with hold | ⟨_, hlt, heq⟩
    · have hparked := h.positions.parked_lt s p hold
      have hpassed := h.books.skipped_lt s p hold
      exact iff_of_true (by omega) (by omega)
    · exact iff_of_true (by omega) hlt

theorem late (h : ChainOrder (positionOps K rootKey) past channel) (store : AntiReplayStore)
    (hlate : LateTarget channel seq target) :
    let channel' := { channel with antiReplay := store }.commit seq target
    (∀ s p s' p', channel'.skippedKeys.get? s = some p → channel'.skippedKeys.get? s' = some p' →
        s.toNat < s'.toNat → p < p') ∧
      (∀ position number, StandsPast channel position number →
        StandsPast channel' position number) ∧
      StandsPast channel' target.targetKey seq.toNat := by
  have hkey := hlate.targetKey
  rw [commit_late _ seq hlate.isForward]
  refine ⟨?_, ?_, ⟨h.positions.parked_lt seq _ hkey, hlate.lt_expected.le, ?_⟩⟩
  · exact fun s p s' p' hget hget' =>
      h.parked_mono s p s' p' (parked_of_late hget).2 (parked_of_late hget').2
  · exact fun position number hpast => ⟨hpast.position_lt, hpast.number_le,
      fun s p hget => hpast.parked_le_iff s p (parked_of_late hget).2⟩
  · intro s p hget
    obtain ⟨hne, hold⟩ := parked_of_late hget
    rcases Nat.lt_or_ge s.toNat seq.toNat with hlt | hge
    · exact iff_of_true (h.parked_mono s p seq _ hold hkey hlt).le hlt
    · have hgt : seq.toNat < s.toNat :=
        Nat.lt_of_le_of_ne hge fun heq => hne (UInt64.toNat_inj.1 heq.symm)
      exact iff_of_false (Nat.not_le.2 (h.parked_mono seq _ s p hkey hold hgt))
        (Nat.not_lt.2 hge)

/-- Every effect of a call keeps the order. -/
theorem preserved (h : ChainOrder (positionOps K rootKey) past channel) {call : Call}
    {reply : Reply} (heffect : CallEffect P (positionOps K rootKey) channel call reply channel') :
    ChainOrder (positionOps K rootKey) (past ++ [⟨channel, call, reply⟩]) channel' := by
  have hpositions := h.positions.preserved heffect
  have hbooks := h.books.preserved heffect
  rw [← consumedKeys_concat] at hpositions
  rw [← acceptedSeqs_concat] at hbooks
  cases heffect with
  | notSent =>
      exact ⟨hpositions, hbooks, h.parked_mono, forall_mem_concat.2
        ⟨h.consumed, fun p hp => by cases hp⟩⟩
  | lost =>
      refine ⟨hpositions, hbooks, h.parked_mono, forall_mem_concat.2
        ⟨fun e he p hp => ?_, fun p hp => by cases hp⟩⟩
      exact (h.consumed e he p hp).step
  | sent =>
      refine ⟨hpositions, hbooks, h.parked_mono, forall_mem_concat.2
        ⟨fun e he p hp => ?_, fun p hp => ?_⟩⟩
      · exact (h.consumed e he p hp).step
      · exact Option.some.inj hp ▸ h.standsPast_sent
  | refused =>
      exact ⟨hpositions, hbooks, h.parked_mono, forall_mem_concat.2
        ⟨h.consumed, fun p hp => by cases hp⟩⟩
  | stale args target payload hsteps hstale =>
      rw [h.books.checkAndInsert_of_target args.now hsteps.computeTargetKey] at hstale
      cases hstale
  | opened args target payload hsteps =>
      have htarget : consumedKey? (positionOps K rootKey)
          ⟨channel, .receive args, .received (.ok payload)⟩ = some target.targetKey := by
        simp only [consumedKey?, hsteps.computeTargetKey]
      obtain ⟨hmono, hpast, hstands⟩ := (computeTargetKey_cases hsteps.computeTargetKey).elim
        (h.forward (channel.antiReplay.checkAndInsert args.now args.seq args.messageId).2)
        (h.late (channel.antiReplay.checkAndInsert args.now args.seq args.messageId).2)
      refine ⟨hpositions, hbooks, hmono, forall_mem_concat.2
        ⟨fun e he p hp => hpast _ _ (h.consumed e he p hp), fun p hp => ?_⟩⟩
      exact Option.some.inj (htarget.symm.trans hp) ▸ hstands

theorem run (P : Primitives) (K : KeyOps κ) (rootKey : κ) (nPaths : ℕ) (calls : List Call) :
    ChainOrder (positionOps K rootKey)
      (runTrace P (positionOps K rootKey) 0 nPaths calls)
      (positionRun P K rootKey nPaths calls) := by
  refine run_induction (fun _ => True) (motive := ChainOrder (positionOps K rootKey))
    (ChainOrder.new _ nPaths) ?_ calls fun _ _ => trivial
  intro past channel call reply channel' _ h heffect
  exact h.preserved heffect

/-- Something held lies at or before the position of a past message exactly when a number
that the message stands past still waits. -/
theorem exists_holds_le_iff (h : ChainOrder (positionOps K rootKey) past channel)
    {e : ChannelEvent ℕ} {position : ℕ} (he : e ∈ past)
    (hconsumed : consumedKey? (positionOps K rootKey) e = some position) :
    (∃ p, channel.Holds p ∧ p ≤ position) ↔ ∃ n ∈ channel.window.waiting, n < e.standsAt := by
  have hstands := h.consumed e he position hconsumed
  constructor
  · rintro ⟨p, hcurrent | ⟨s, hget⟩, hle⟩
    · exact absurd hstands.position_lt (Nat.not_lt.2 (hcurrent ▸ hle))
    · exact ⟨s.toNat, SecureChannel.toNat_mem_waiting.2 ⟨p, hget⟩,
        (hstands.parked_le_iff s p hget).1 hle⟩
  · rintro ⟨n, hn, hlt⟩
    obtain ⟨s, hs, rfl⟩ := Finset.mem_image.1 hn
    obtain ⟨p, hget⟩ := SortedMap.mem_keySet.1 hs
    exact ⟨p, Or.inr ⟨s, hget⟩, (hstands.parked_le_iff s p hget).2 hlt⟩

end ChainOrder

/-! ## After the seizure -/

theorem CallEffect.exists_holds_le {channel channel' : SecureChannel ℕ} {call : Call}
    {reply : Reply} (h : CallEffect P (positionOps K rootKey) channel call reply channel') :
    (∀ p', channel'.Holds p' → ∃ p, channel.Holds p ∧ p ≤ p') ∧
      ∀ position, consumedKey? (positionOps K rootKey) ⟨channel, call, reply⟩ = some position →
        ∃ p, channel.Holds p ∧ p ≤ position := by
  have hstep : ∀ p', (advanceSender (positionOps K rootKey) channel).Holds p' →
      ∃ p, channel.Holds p ∧ p ≤ p' := by
    rintro p' (hcurrent | hparked)
    · exact ⟨channel.currentKey, Or.inl rfl, (Nat.le_succ _).trans hcurrent.le⟩
    · exact ⟨p', Or.inr hparked, Nat.le_refl _⟩
  cases h with
  | notSent => exact ⟨fun p hp => ⟨p, hp, Nat.le_refl _⟩, fun p hp => by cases hp⟩
  | lost => exact ⟨hstep, fun p hp => by cases hp⟩
  | sent => exact ⟨hstep, fun p hp => ⟨p, Or.inl (Option.some.inj hp), Nat.le_refl _⟩⟩
  | refused => exact ⟨fun p hp => ⟨p, hp, Nat.le_refl _⟩, fun p hp => by cases hp⟩
  | stale => exact ⟨fun p hp => ⟨p, hp, Nat.le_refl _⟩, fun p hp => by cases hp⟩
  | opened args target payload hsteps =>
      have htarget : ∀ position, consumedKey? (positionOps K rootKey)
          ⟨channel, .receive args, .received (.ok payload)⟩ = some position →
            target.targetKey = position := by
        simp only [consumedKey?, hsteps.computeTargetKey]
        exact fun position => Option.some.inj
      rcases computeTargetKey_cases hsteps.computeTargetKey with hforward | hlate
      · have hkey := hforward.currentKey_le
        refine ⟨?_, fun position hp => ⟨_, Or.inl rfl, htarget position hp ▸ hkey⟩⟩
        rw [commit_forward _ args.seq hforward.isForward hforward.nextRatchetKey]
        rintro p' (hcurrent | ⟨s, hget⟩)
        · exact ⟨_, Or.inl rfl, (hkey.trans (Nat.le_succ _)).trans hcurrent.le⟩
        · rcases parked_of_forward hforward hget with hold | ⟨_, _, heq⟩
          · exact ⟨p', Or.inr ⟨s, hold⟩, Nat.le_refl _⟩
          · exact ⟨_, Or.inl rfl, heq ▸ Nat.le_add_right _ _⟩
      · refine ⟨?_, fun position hp =>
          ⟨position, Or.inr ⟨_, htarget position hp ▸ hlate.targetKey⟩, Nat.le_refl _⟩⟩
        rw [commit_late _ args.seq hlate.isForward]
        rintro p' (hcurrent | ⟨s, hget⟩)
        · exact ⟨_, Or.inl rfl, hcurrent.le⟩
        · exact ⟨p', Or.inr ⟨s, (parked_of_late hget).2⟩, Nat.le_refl _⟩

theorem exists_holds_le_later (channel : SecureChannel ℕ) (later : List Call) :
    ∀ e ∈ trace (callStep P (positionOps K rootKey)) channel later, ∀ position,
      consumedKey? (positionOps K rootKey) e = some position →
        ∃ p, channel.Holds p ∧ p ≤ position := by
  have hall : Follows (callStep P (positionOps K rootKey)) (fun _ _ => True) channel later :=
    follows_of_forall _ _ fun _ _ => trivial
  refine (follows_induction (callStep P (positionOps K rootKey))
    (motive := fun past channel' => (∀ p', channel'.Holds p' → ∃ p, channel.Holds p ∧ p ≤ p') ∧
      ∀ e ∈ past, ∀ position, consumedKey? (positionOps K rootKey) e = some position →
        ∃ p, channel.Holds p ∧ p ≤ position) channel
    ⟨fun p hp => ⟨p, hp, Nat.le_refl _⟩, fun e he => by cases he⟩ ?_ later hall).2
  rintro past channel' call ⟨hheld, hpast⟩ -
  have heffect := callStep_effect P (positionOps K rootKey) channel' call
  obtain ⟨hnext, hconsumed⟩ := heffect.exists_holds_le
  refine ⟨fun p' hp' => ?_, forall_mem_concat.2 ⟨hpast, fun position hp => ?_⟩⟩
  · obtain ⟨q, hq, hle⟩ := hnext p' hp'
    obtain ⟨p, hp, hle'⟩ := hheld q hq
    exact ⟨p, hp, hle'.trans hle⟩
  · obtain ⟨q, hq, hle⟩ := hconsumed position hp
    obtain ⟨p, hp, hle'⟩ := hheld q hq
    exact ⟨p, hp, hle'.trans hle⟩

theorem CallEffect.currentKey_le {channel channel' : SecureChannel ℕ} {call : Call}
    {reply : Reply} (h : CallEffect P (positionOps K rootKey) channel call reply channel') :
    channel.currentKey ≤ channel'.currentKey := by
  cases h with
  | notSent => exact Nat.le_refl _
  | lost => exact Nat.le_succ _
  | sent => exact Nat.le_succ _
  | refused => exact Nat.le_refl _
  | stale => exact Nat.le_refl _
  | opened args target payload hsteps =>
      rcases computeTargetKey_cases hsteps.computeTargetKey with hforward | hlate
      · rw [commit_forward _ args.seq hforward.isForward hforward.nextRatchetKey]
        exact hforward.currentKey_le.trans (Nat.le_succ _)
      · rw [commit_late _ args.seq hlate.isForward]

theorem currentKey_le_later (channel : SecureChannel ℕ) (later : List Call) :
    channel.currentKey ≤
      (final (callStep P (positionOps K rootKey)) channel later).currentKey := by
  have hall : Follows (callStep P (positionOps K rootKey)) (fun _ _ => True) channel later :=
    follows_of_forall _ _ fun _ _ => trivial
  refine follows_induction (callStep P (positionOps K rootKey))
    (motive := fun _ channel' => channel.currentKey ≤ channel'.currentKey) channel
    (Nat.le_refl _) ?_ later hall
  intro past channel' call hpast _
  exact hpast.trans (callStep_effect P (positionOps K rootKey) channel' call).currentKey_le

/-! ## Keys -/

/-- Along a chain without repetitions a channel yields the key at a position exactly when it
holds one at or before it. -/
theorem yields_map_chain_iff {channel : SecureChannel ℕ} {horizon position : ℕ}
    (hdistinct : ChainDistinct K rootKey (2 * horizon))
    (hheld : ∀ p, channel.Holds p → p ≤ horizon) (hposition : position ≤ horizon) :
    (channel.map (chain K rootKey)).Yields K horizon (chain K rootKey position) ↔
      ∃ p, channel.Holds p ∧ p ≤ position := by
  have hholds : ∀ key, (channel.map (chain K rootKey)).Holds key ↔
      ∃ p, channel.Holds p ∧ chain K rootKey p = key := by
    intro key
    constructor
    · rintro (hcurrent | ⟨s, hget⟩)
      · exact ⟨channel.currentKey, Or.inl rfl, hcurrent⟩
      · change (channel.skippedKeys.map (chain K rootKey)).get? s = _ at hget
        rw [SortedMap.get?_map] at hget
        obtain ⟨p, hp, hkey⟩ := Option.map_eq_some_iff.1 hget
        exact ⟨p, Or.inr ⟨s, hp⟩, hkey⟩
    · rintro ⟨p, hcurrent | ⟨s, hget⟩, rfl⟩
      · exact Or.inl (congrArg (chain K rootKey) hcurrent)
      · refine Or.inr ⟨s, ?_⟩
        change (channel.skippedKeys.map (chain K rootKey)).get? s = _
        rw [SortedMap.get?_map, hget, Option.map_some]
  constructor
  · rintro ⟨held, hkey, n, hn, heq⟩
    obtain ⟨p, hp, rfl⟩ := (hholds held).1 hkey
    rw [iterate_deriveNext_chain] at heq
    have hp_le := hheld p hp
    have hsame : p + n = position := hdistinct.index_eq (by omega) (by omega) heq
    exact ⟨p, hp, hsame ▸ Nat.le_add_right p n⟩
  · rintro ⟨p, hp, hle⟩
    refine ⟨chain K rootKey p, (hholds _).2 ⟨p, hp, rfl⟩, position - p,
      (Nat.sub_le _ _).trans hposition, ?_⟩
    rw [iterate_deriveNext_chain, Nat.add_sub_cancel' hle]

/-- **What a seized channel gives away.** Let a channel be seized after some calls, and let
the chain be free of repetitions beyond all it comes to. The key of a message sent or
accepted before follows from its state if and only if a number that the message stands past
still waits for its packet: one below the expected number for a message sent, one below its
own for a message accepted. The key of every message sent or accepted later follows. -/
theorem seized_channel_yields {P : Primitives} (rootKey : RatchetKey) (nPaths : ℕ)
    (calls later : List Call) (horizon : ℕ)
    (hreach : (positionRun P (RatchetKey.ops P) rootKey nPaths (calls ++ later)).currentKey ≤
      horizon)
    (hdistinct : ChainDistinct (RatchetKey.ops P) rootKey (2 * horizon)) :
    let K := RatchetKey.ops P
    let channel := runChannel P K rootKey nPaths calls
    (∀ e ∈ runTrace P K rootKey nPaths calls, ∀ key, consumedKey? K e = some key →
        (channel.Yields K horizon key ↔ ∃ n ∈ channel.window.waiting, n < e.standsAt)) ∧
      ∀ e ∈ trace (callStep P K) channel later, ∀ key, consumedKey? K e = some key →
        channel.Yields K horizon key := by
  intro K channel
  set position := positionRun P K rootKey nPaths calls with hposition
  have hchannel : channel = position.map (chain K rootKey) :=
    runChannel_eq_map_positionRun P K rootKey nPaths calls
  have hfinal : positionRun P K rootKey nPaths (calls ++ later) =
      final (callStep P (positionOps K rootKey)) position later := final_append _ _ _ _
  have hevents : runTrace P (positionOps K rootKey) 0 nPaths (calls ++ later) =
      runTrace P (positionOps K rootKey) 0 nPaths calls ++
        trace (callStep P (positionOps K rootKey)) position later := trace_append _ _ _ _
  have horder := ChainOrder.run P K rootKey nPaths calls
  have hheld : ∀ p, position.Holds p → p ≤ horizon := by
    have hcurrent : position.currentKey ≤ horizon :=
      (currentKey_le_later position later).trans (hfinal ▸ hreach)
    rintro p (rfl | ⟨s, hget⟩)
    · exact hcurrent
    · exact (horder.positions.parked_lt s p hget).le.trans hcurrent
  -- Every position consumed in either part of the run lies below the last one.
  have hconsumed : ∀ e ∈ runTrace P (positionOps K rootKey) 0 nPaths (calls ++ later), ∀ p,
      consumedKey? (positionOps K rootKey) e = some p → p ≤ horizon := by
    intro e he p hp
    have hlt := (Positions.run P K rootKey nPaths (calls ++ later)).consumed_lt p
      (List.mem_filterMap.2 ⟨e, he, hp⟩)
    exact hlt.le.trans hreach
  rw [hevents] at hconsumed
  have hyields : ∀ e : ChannelEvent ℕ, ∀ key,
      consumedKey? K (e.map (SecureChannel.map (chain K rootKey))) = some key →
        ∃ p, consumedKey? (positionOps K rootKey) e = some p ∧ key = chain K rootKey p := by
    intro e key hkey
    rw [(chain_hom K rootKey).map_consumedKey?] at hkey
    obtain ⟨p, hp, heq⟩ := Option.map_eq_some_iff.1 hkey
    exact ⟨p, hp, heq.symm⟩
  have hwindow : channel.window = position.window := by
    rw [hchannel]
    exact SecureChannel.window_map _ _
  rw [runTrace_eq_map_positions, hwindow, hchannel,
    trace_map (chain_hom K rootKey).map_callStep]
  constructor
  · intro e' he' key hkey
    obtain ⟨e, he, rfl⟩ := List.mem_map.1 he'
    obtain ⟨p, hp, rfl⟩ := hyields e key hkey
    rw [yields_map_chain_iff hdistinct hheld (hconsumed e (List.mem_append_left _ he) p hp)]
    exact horder.exists_holds_le_iff he hp
  · intro e' he' key hkey
    obtain ⟨e, he, rfl⟩ := List.mem_map.1 he'
    obtain ⟨p, hp, rfl⟩ := hyields e key hkey
    exact (yields_map_chain_iff hdistinct hheld
      (hconsumed e (List.mem_append_right _ he) p hp)).2
        (exists_holds_le_later position later e he p hp)

/-- Number 1 arrives first and number 0 still waits when the channel is seized: the key that
opened number 1 follows, and so does the key of number 0, which arrives later. -/
theorem seized_channel_yields_after_skip :
    let K := RatchetKey.ops counterPrimitives
    let packets := counterPackets 2 [counterSend [10] [1], counterSend [11] [2]]
    let calls := (arrivals (packets.drop 1)).map Call.receive
    let later := (arrivals (packets.take 1)).map Call.receive
    let channel := runChannel counterPrimitives K (counterKey 0) 2 calls
    acceptedSeqs (trace (callStep counterPrimitives K) channel later) = [0] ∧
      channel.Yields K 2 (counterKey 1) ∧ channel.Yields K 2 (counterKey 0) := by
  intro K packets calls later channel
  have hrun : (∃ e ∈ runTrace counterPrimitives K (counterKey 0) 2 calls,
        consumedKey? K e = some (counterKey 1) ∧ ∃ n ∈ channel.window.waiting, n < e.standsAt) ∧
      ∃ e ∈ trace (callStep counterPrimitives K) channel later,
        consumedKey? K e = some (counterKey 0) := by
    decide +kernel
  obtain ⟨⟨opened, hopened, hkey, hgap⟩, late, hlate, hkey'⟩ := hrun
  have hyields := seized_channel_yields (P := counterPrimitives) (counterKey 0) 2 calls later 2
    (by decide +kernel) (counter_chainDistinct (by decide))
  exact ⟨by decide +kernel, (hyields.1 opened hopened _ hkey).2 hgap,
    hyields.2 late hlate _ hkey'⟩

end NullPath
