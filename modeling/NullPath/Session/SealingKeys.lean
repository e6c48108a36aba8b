import NullPath.Session.Handover

/-!
# Which keys seal messages

Both parties start from one key and step it on their own schedule, so nothing in
the channel keeps them from sealing under the same key. They do not when every
message is sent in turn, by a party that has accepted the latest message of its
peer: then the keys that seal messages are the chain keys in order. Among runs
that accept only numbers the peer has used, no other run keeps the keys apart.
-/

namespace NullPath

open Transition

variable {κ : Type*} {P : Primitives} {K : KeyOps κ} {rootKey : κ} {nPaths : ℕ}

/-- The key that a successful `send` sealed its payload under. -/
def sealingKey? (e : SessionEvent κ) : Option κ :=
  match e.input.call, e.output with
  | .send _, .sent (.ok _) => some (e.before e.input.party).channel.currentKey
  | _, _ => none

/-- The sealing keys of a run, of both parties, in order. -/
def sealingKeys (events : List (SessionEvent κ)) : List κ := events.filterMap sealingKey?

theorem sealingKeys_concat (events : List (SessionEvent κ)) (e : SessionEvent κ) :
    sealingKeys (events ++ [e]) = sealingKeys events ++ (sealingKey? e).toList :=
  filterMap_concat _ events e

/-- The last number a party has accepted is that of its peer's latest message. -/
def InTurn (s : Session κ) (p : Party) : Prop :=
  expectedSeq (s p).channel.lastSeq = (s p.peer).sent.length

instance (s : Session κ) (p : Party) : Decidable (InTurn s p) :=
  inferInstanceAs (Decidable (_ = _))

/-- A message is sent in turn, if the event sends one. -/
def SealsInTurn (e : SessionEvent κ) : Prop :=
  sealingKey? e ≠ none → InTurn e.before e.input.party

instance (e : SessionEvent κ) : Decidable (SealsInTurn e) :=
  inferInstanceAs (Decidable (sealingKey? e ≠ none → _))

theorem total_record (s : Session κ) (p : Party) (call : Call) (reply : Reply)
    (channel' : SecureChannel κ) :
    (s.record p call reply channel').total =
      s.total + (sealingKey? ⟨s, ⟨p, call⟩, reply⟩).toList.length := by
  rw [Session.total_eq _ p, s.total_eq p, record_self, record_peer, Endpoint.sent,
    sentMessages_concat, List.length_append, Nat.add_right_comm]
  congr 1
  cases call with
  | send args =>
      cases reply with
      | sent result => cases result <;> rfl
      | received result => rfl
  | receive args => rfl

/-- The sealing keys so far are the first chain keys, one for each message. -/
def SealsInOrder (K : KeyOps κ) (rootKey : κ) (events : List (SessionEvent κ))
    (s : Session κ) : Prop :=
  sealingKeys events = (List.range s.total).map (chain K rootKey)

/-- A move that seals nothing, or seals under the next chain key, keeps the
order. -/
theorem SealsInOrder.record {events : List (SessionEvent κ)} {s : Session κ} {p : Party}
    {call : Call} {reply : Reply} (channel' : SecureChannel κ)
    (h : SealsInOrder K rootKey events s)
    (hkey : ∀ key, sealingKey? ⟨s, ⟨p, call⟩, reply⟩ = some key →
      key = chain K rootKey s.total) :
    SealsInOrder K rootKey (events ++ [⟨s, ⟨p, call⟩, reply⟩])
      (s.record p call reply channel') := by
  unfold SealsInOrder at h ⊢
  rw [sealingKeys_concat, h, total_record]
  cases hsealed : sealingKey? ⟨s, ⟨p, call⟩, reply⟩ with
  | none => simp
  | some key =>
      rw [hkey key hsealed, Option.toList_some, List.length_singleton, List.range_succ,
        List.map_append, List.map_singleton]

theorem sealingKey?_eq_some {s : Session κ} {p : Party} {call : Call} {reply : Reply}
    {key : κ} (h : sealingKey? ⟨s, ⟨p, call⟩, reply⟩ = some key) :
    key = (s p).channel.currentKey ∧ ∃ args, call = .send args := by
  unfold sealingKey? at h
  split at h
  · rename_i args slots hcall hreply
    exact ⟨(Option.some.inj h).symm, args, hcall⟩
  · cases h

/-- A successful `send` sealed its payload under the key read off it. -/
theorem sends_sealingKey {s : Session κ} {p : Party} {args : SendArgs} {slots : List Envelope}
    (hsent : (moveStep P K s ⟨p, .send args⟩).1 = .sent (.ok slots)) :
    ∃ key, sealingKey? (event (moveStep P K) s ⟨p, .send args⟩) = some key ∧
      Sends P (K.bytes key) (nextSendSeq (s p).channel.sendSeq) (s p).channel.nPaths args.coins
        args.payload args.messageId slots := by
  have hevent : event (callStep P K) (s p).channel (.send args) =
      ⟨(s p).channel, .send args, .sent (.ok slots)⟩ :=
    congrArg (Event.mk (s p).channel (Call.send args)) hsent
  obtain ⟨key, hkey, hsends⟩ := sends_consumedKey (congrArg sentMessage? hevent)
  rw [hevent] at hkey
  refine ⟨key, ?_, hsends⟩
  rw [event, hsent]
  exact hkey

theorem sealingKey_of_inTurn (hencrypt : P.EncryptTotal) {s : Session κ}
    (hruns : OwnRuns P K rootKey nPaths s) {p : Party} {call : Call} {reply : Reply}
    (hturn : SealsInTurn ⟨s, ⟨p, call⟩, reply⟩) (key : κ)
    (hkey : sealingKey? ⟨s, ⟨p, call⟩, reply⟩ = some key) : key = chain K rootKey s.total := by
  have hexpected : expectedSeq (s p).channel.lastSeq = (s p.peer).sent.length :=
    hturn (by rw [hkey]; exact Option.some_ne_none key)
  rw [(sealingKey?_eq_some hkey).1, (hruns.endpointState hencrypt p).currentKey, hexpected,
    s.total_eq p]

theorem sealsInOrder_of_inTurn (hencrypt : P.EncryptTotal) (moves : List Move)
    (hmoves : ∀ e ∈ sessionTrace P K rootKey nPaths moves, SealsInTurn e) :
    SealsInOrder K rootKey (sessionTrace P K rootKey nPaths moves)
      (runSession P K rootKey nPaths moves) := by
  have hkeeps : Keeps P K rootKey nPaths (fun _ _ => True) moves :=
    follows_of_forall _ _ fun _ _ => trivial
  refine session_induction
    (motive := fun past s => (∀ e ∈ past, SealsInTurn e) → SealsInOrder K rootKey past s)
    (fun _ => rfl) ?_ moves hkeeps hmoves
  intro past s p call reply channel' hruns horder _ _ _ hturns
  obtain ⟨hpast, hlast⟩ := forall_mem_concat.1 hturns
  exact (horder hpast).record channel' (sealingKey_of_inTurn hencrypt hruns hlast)

/-- In a run that accepts only numbers of the peer's messages, keys that are
pairwise distinct were used in order, each in turn. -/
theorem inTurn_of_nodup (hencrypt : P.EncryptTotal) (moves : List Move)
    (hmoves : Keeps P K rootKey nPaths Genuine moves)
    (hnodup : (sealingKeys (sessionTrace P K rootKey nPaths moves)).Nodup) :
    ∀ e ∈ sessionTrace P K rootKey nPaths moves, SealsInTurn e := by
  refine ((session_induction
    (motive := fun past s => GenuineState P K rootKey nPaths s ∧ ((sealingKeys past).Nodup →
      SealsInOrder K rootKey past s ∧ ∀ e ∈ past, SealsInTurn e))
    ⟨GenuineState.new P K rootKey nPaths, fun _ => ⟨rfl, ?_⟩⟩ ?_ moves hmoves).2 hnodup).2
  · intro e hmem
    cases hmem
  rintro past s p call reply channel' hruns ⟨hgenuine, horder⟩ hrule hstep heffect
  refine ⟨hgenuine.record hrule hstep heffect, fun hdistinct => ?_⟩
  rw [sealingKeys_concat] at hdistinct
  obtain ⟨hpast, hturns⟩ := horder (List.Nodup.of_append_left hdistinct)
  -- The key of a message out of turn stands at a position already used.
  have hturn : SealsInTurn ⟨s, ⟨p, call⟩, reply⟩ := by
    intro hsealed
    obtain ⟨key, hkey⟩ := Option.ne_none_iff_exists'.1 hsealed
    have hcurrent := (sealingKey?_eq_some hkey).1
    rw [hkey, Option.toList_some] at hdistinct
    refine Nat.le_antisymm (hgenuine.expectedSeq_le hencrypt p) (Nat.le_of_not_lt fun hlt => ?_)
    have hmem : key ∈ sealingKeys past := by
      rw [hpast, hcurrent, (hruns.endpointState hencrypt p).currentKey]
      refine List.mem_map_of_mem (List.mem_range.2 ?_)
      rw [s.total_eq p]
      exact Nat.add_lt_add_left hlt _
    exact (List.nodup_append.1 hdistinct).2.2 key hmem key (List.mem_singleton_self key) rfl
  exact ⟨hpast.record channel' (sealingKey_of_inTurn hencrypt hruns hturn),
    forall_mem_concat.2 ⟨hturns, hturn⟩⟩

/-- **When keys seal once.** Over a chain without repetitions, a run in which
every message is sent in turn seals them all under distinct keys. And in a run
that accepts only numbers of the peer's messages, distinct sealing keys mean that
every message was sent in turn. -/
theorem sealing_keys_distinct {P : Primitives} (hencrypt : P.EncryptTotal)
    (rootKey : RatchetKey) (nPaths : ℕ) (moves : List Move)
    (hdistinct : ChainDistinct (RatchetKey.ops P) rootKey moves.length) :
    let K := RatchetKey.ops P
    let events := sessionTrace P K rootKey nPaths moves
    ((∀ e ∈ events, SealsInTurn e) → (sealingKeys events).Nodup) ∧
      (Keeps P K rootKey nPaths Genuine moves → (sealingKeys events).Nodup →
        ∀ e ∈ events, SealsInTurn e) := by
  intro K events
  refine ⟨fun hmoves => ?_, fun hmoves => inTurn_of_nodup hencrypt moves hmoves⟩
  have horder := sealsInOrder_of_inTurn hencrypt moves hmoves
  have htotal : (runSession P K rootKey nPaths moves).total ≤ moves.length := by
    have hlength := congrArg List.length horder
    rw [List.length_map, List.length_range] at hlength
    rw [← hlength, ← length_trace (moveStep P K) (Session.new rootKey nPaths) moves]
    exact List.length_filterMap_le _ _
  change (sealingKeys _).Nodup
  rw [horder]
  refine List.Nodup.map_on (fun i hi j hj heq => ?_) List.nodup_range
  exact hdistinct.index_eq ((List.mem_range.1 hi).le.trans htotal)
    ((List.mem_range.1 hj).le.trans htotal) heq

/-- A message and its answer are sent in turn and sealed under different keys. -/
theorem sealing_keys_distinct_answer :
    let K := RatchetKey.ops counterPrimitives
    let moves := thenReceive [⟨.a, .send (counterSend [10] [1])⟩] .b 0 ++
      [⟨.b, .send (counterSend [11] [2])⟩]
    (sealingKeys (sessionTrace counterPrimitives K (counterKey 0) 2 moves)).Nodup :=
  (sealing_keys_distinct counter_encryptTotal (counterKey 0) 2 _
    (counter_chainDistinct (by decide +kernel))).1 (by decide +kernel)

/-- Both parties send before either receives: both messages are sealed under the
root key. -/
theorem crossing_messages_share_key :
    let K := RatchetKey.ops counterPrimitives
    let moves : List Move :=
      [⟨.a, .send (counterSend [10] [1])⟩, ⟨.b, .send (counterSend [11] [2])⟩]
    let keys := sealingKeys (sessionTrace counterPrimitives K (counterKey 0) 2 moves)
    ChainDistinct K (counterKey 0) (256 ^ 32 - 1) ∧
      keys = [counterKey 0, counterKey 0] ∧ ¬ keys.Nodup :=
  ⟨counter_chainDistinct (by decide), by decide +kernel, by decide +kernel⟩

end NullPath
