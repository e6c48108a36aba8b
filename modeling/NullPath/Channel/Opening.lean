import NullPath.Channel.Authenticity
import NullPath.Channel.Position

/-!
# What an endpoint opens

An endpoint may both send and receive, and whatever packets arrive, it opens a
packet with the key of one chain position. That position was not consumed before,
by its own messages in particular (`exists_target_position`), so a message that
comes back to its sender does not open.

`reach` bounds the positions that an endpoint has come to. It only grows, and past
an accepted packet it lies above the position that opened it.
-/

namespace NullPath

open Transition

variable {κ κ' : Type*} {P : Primitives} {K : KeyOps κ} {rootKey : κ} {nPaths : ℕ}

/-! ## What was sent and what was accepted -/

/-- A message as its sender knows it and as its receiver gets it: number, id and
payload. -/
structure Letter where
  seq : UInt64
  messageId : List UInt8
  payload : List UInt8
  deriving DecidableEq

/-- The letter of an accepted packet. -/
def acceptedLetter? (event : ChannelEvent κ) : Option Letter :=
  match event.input, event.output with
  | .receive args, .received (.ok payload) => some ⟨args.seq, args.messageId, payload⟩
  | _, _ => none

/-- The letters accepted in a run, in order of acceptance. -/
def acceptedLetters (events : List (ChannelEvent κ)) : List Letter :=
  events.filterMap acceptedLetter?

/-- The letters sent in a run, in order, under their numbers. -/
def sentLetters (events : List (ChannelEvent κ)) : List Letter :=
  (sentMessages events).mapIdx fun number message =>
    ⟨UInt64.ofNat number, message.1.messageId, message.1.payload⟩

theorem acceptedLetters_concat (events : List (ChannelEvent κ)) (e : ChannelEvent κ) :
    acceptedLetters (events ++ [e]) = acceptedLetters events ++ (acceptedLetter? e).toList :=
  filterMap_concat _ events e

theorem sentLetters_prefix_concat (events : List (ChannelEvent κ)) (e : ChannelEvent κ) :
    sentLetters events <+: sentLetters (events ++ [e]) := by
  rw [sentLetters, sentLetters, sentMessages_concat, List.mapIdx_append]
  exact List.prefix_append _ _

theorem map_seq_acceptedLetters (events : List (ChannelEvent κ)) :
    (acceptedLetters events).map Letter.seq = acceptedSeqs events := by
  rw [acceptedLetters, acceptedSeqs, List.map_filterMap]
  congr 1
  funext event
  obtain ⟨before, input, output⟩ := event
  cases input with
  | send args => cases output <;> rfl
  | receive args =>
      cases output with
      | sent result => rfl
      | received result => cases result <;> rfl

theorem mem_sentLetters {events : List (ChannelEvent κ)} {i : ℕ} {args : SendArgs}
    {slots : List Envelope} (h : (sentMessages events)[i]? = some (args, slots)) :
    ⟨UInt64.ofNat i, args.messageId, args.payload⟩ ∈ sentLetters events := by
  refine List.mem_of_getElem? (i := i) ?_
  rw [sentLetters, List.getElem?_mapIdx, h]
  rfl

/-! ## Own messages -/

theorem sentMessages_map (f : κ → κ') (events : List (ChannelEvent κ)) :
    sentMessages (events.map (Event.map (SecureChannel.map f))) = sentMessages events := by
  rw [sentMessages, List.filterMap_map]
  rfl

theorem expectedWhenSent_map (f : κ → κ') (events : List (ChannelEvent κ)) :
    expectedWhenSent (events.map (Event.map (SecureChannel.map f))) =
      expectedWhenSent events := by
  rw [expectedWhenSent, List.filterMap_map]
  rfl

theorem sentMessages_positions (P : Primitives) (K : KeyOps κ) (rootKey : κ) (nPaths : ℕ)
    (calls : List Call) :
    sentMessages (runTrace P (positionOps K rootKey) 0 nPaths calls) =
      sentMessages (runTrace P K rootKey nPaths calls) := by
  rw [runTrace_eq_map_positions P K rootKey nPaths calls, sentMessages_map]

theorem currentKey_positionRun (hencrypt : P.EncryptTotal) (K : KeyOps κ) (rootKey : κ) (nPaths : ℕ)
    (calls : List Call) :
    (positionRun P K rootKey nPaths calls).currentKey =
      (sentMessages (runTrace P K rootKey nPaths calls)).length +
        expectedSeq (positionRun P K rootKey nPaths calls).lastSeq := by
  have h := EndpointState.run hencrypt (positionOps K rootKey) 0 nPaths calls
  rw [sentMessages_positions] at h
  exact h.currentKey.trans ((chain_positionOps K rootKey 0 _).trans (Nat.zero_add _))

/-- Message `i`, sent when number `expected` was expected, consumed the position
`i + expected`. -/
theorem sealed_position_consumed (hencrypt : P.EncryptTotal) (K : KeyOps κ) (rootKey : κ)
    (nPaths : ℕ) (calls : List Call) {i expected : ℕ}
    (h : (expectedWhenSent (runTrace P K rootKey nPaths calls))[i]? = some expected) :
    i + expected ∈ consumedPositions P K rootKey nPaths calls := by
  rw [runTrace_eq_map_positions P K rootKey nPaths calls, expectedWhenSent_map] at h
  revert h
  refine (run_induction (P := P) (K := positionOps K rootKey) (fun _ => True)
    (motive := fun past channel => EndpointState (positionOps K rootKey) 0 nPaths
        (sentMessages past).length (acceptedSeqs past) channel ∧
      ((expectedWhenSent past)[i]? = some expected →
        i + expected ∈ consumedKeys (positionOps K rootKey) past))
    ⟨EndpointState.new 0 nPaths, fun h => by cases h⟩ ?_ calls fun _ _ => trivial).2
  rintro past channel call reply channel' _ ⟨hstate, hpast⟩ heffect
  have hnext := hstate.preserved hencrypt heffect
  rw [← List.length_append, ← sentMessages_concat, ← acceptedSeqs_concat] at hnext
  refine ⟨hnext, fun h => ?_⟩
  rw [expectedWhenSent_concat] at h
  rw [consumedKeys_concat]
  cases heffect with
  | sent args slots hsends =>
      rcases getElem?_concat_cases h with hold | ⟨rfl, heq⟩
      · exact List.mem_append_left _ (hpast hold)
      · have hexpected : expectedSeq channel.lastSeq = expected := heq
        have hcurrent := hstate.currentKey
        rw [chain_positionOps, Nat.zero_add, hexpected, ← length_expectedWhenSent] at hcurrent
        exact List.mem_append_right _ (List.mem_singleton.2 hcurrent.symm)
  | _ =>
      rw [show Option.toList _ = [] from rfl, List.append_nil] at h
      exact List.mem_append_left _ (hpast h)

/-! ## The position that opens a packet -/

theorem Positions.target_not_consumed {consumed : List ℕ} {channel : SecureChannel ℕ}
    (h : Positions consumed channel) {seq : UInt64} {messageId : List UInt8} {target : Target ℕ}
    (htarget : channel.computeTargetKey (positionOps K rootKey) seq messageId = .ok target) :
    target.targetKey ∉ consumed := by
  rcases computeTargetKey_cases htarget with hforward | hlate
  · intro hmem
    have hkey := hforward.targetKey
    rw [iterate_deriveNext_position] at hkey
    have hlt := h.consumed_lt _ hmem
    rw [hkey] at hlt
    exact absurd hlt (Nat.not_lt.2 (Nat.le_add_right _ _))
  · exact h.parked_not_consumed seq _ hlate.targetKey

/-- The key for a packet stands at a position that was not consumed before, below what
the endpoint reaches if it accepts the packet. -/
theorem exists_target_position (hencrypt : P.EncryptTotal) (calls : List Call) {seq : UInt64}
    {messageId : List UInt8} {target : Target κ}
    (h : (runChannel P K rootKey nPaths calls).computeTargetKey K seq messageId = .ok target) :
    ∃ position, target.targetKey = chain K rootKey position ∧
      position ∉ consumedPositions P K rootKey nPaths calls ∧
        position < (sentMessages (runTrace P K rootKey nPaths calls)).length +
          max (expectedSeq (runChannel P K rootKey nPaths calls).lastSeq) (seq.toNat + 1) := by
  have hpositions := Positions.run P K rootKey nPaths calls
  have hcurrent := currentKey_positionRun hencrypt K rootKey nPaths calls
  rw [runChannel_eq_map_positionRun, (chain_hom K rootKey).map_computeTargetKey] at h
  rw [runChannel_eq_map_positionRun]
  cases htarget : (positionRun P K rootKey nPaths calls).computeTargetKey
      (positionOps K rootKey) seq messageId with
  | error e =>
      rw [htarget] at h
      cases h
  | ok found =>
      rw [htarget] at h
      cases h
      refine ⟨found.targetKey, rfl, hpositions.target_not_consumed htarget, ?_⟩
      change _ < _ + max (expectedSeq (positionRun P K rootKey nPaths calls).lastSeq) _
      rcases computeTargetKey_cases htarget with hforward | hlate
      · have hexpected := hforward.expected_le
        rw [hforward.targetKey, iterate_deriveNext_position, hcurrent]
        omega
      · have hparked := hpositions.parked_lt seq _ hlate.targetKey
        rw [hcurrent] at hparked
        exact hparked.trans_le (Nat.add_le_add_left (le_max_left _ _) _)

theorem expectedSeq_commit {channel : SecureChannel κ} {seq : UInt64} {messageId : List UInt8}
    {target : Target κ} (store : AntiReplayStore)
    (htarget : channel.computeTargetKey K seq messageId = .ok target) :
    expectedSeq (({ channel with antiReplay := store }.commit seq target).lastSeq) =
      max (expectedSeq channel.lastSeq) (seq.toNat + 1) := by
  rcases computeTargetKey_cases htarget with hforward | hlate
  · have hexpected := hforward.expected_le
    rw [commit_forward _ seq hforward.isForward hforward.nextRatchetKey, expectedSeq_some,
      max_eq_right (hexpected.trans (Nat.le_succ _))]
  · rw [commit_late _ seq hlate.isForward, max_eq_left hlate.lt_expected]

theorem SealsMessage.message_of_open (hdecrypt : P.DecryptUndoes)
    {events : List (ChannelEvent κ)} {call : SealCall} {i expected : ℕ} {args : SendArgs}
    {slots : List Envelope} (h : SealsMessage P K rootKey nPaths events call i expected args slots)
    {seq : UInt64} {messageId payload : List UInt8} (haad : call.aad = constructAad seq messageId)
    (hopen : Envelope.open P call.key call.envelope call.aad = .ok payload) :
    seq = UInt64.ofNat i ∧ args.messageId = messageId ∧ args.payload = payload := by
  have hsame := h.aad.symm.trans haad
  have hpayload := open_seal hdecrypt h.sealed
  rw [hopen] at hpayload
  obtain ⟨hseq, hmessageId⟩ := constructAad_inj.1 hsame
  exact ⟨hseq.symm, hmessageId, (Except.ok.inj hpayload).symm⟩

/-! ## Packets that carry a message -/

/-- A packet carries a message that was sealed under `key`: it has the message's id, an
envelope for each path, and in the slot selected under the key the message's own. What
stands in the other slots does not matter. -/
def Carries (P : Primitives) (key : Bytes 32) (nPaths : ℕ) (message : SendArgs × List Envelope)
    (packet : Packet) : Prop :=
  packet.messageId = message.1.messageId ∧ nPaths ≤ packet.envelopes.length ∧
    match selectSlot P key.toList packet.messageId nPaths with
    | .error _ => False
    | .ok slot => packet.envelopes[slot]? = message.2[slot]?

instance Carries.decidable (P : Primitives) (key : Bytes 32) (nPaths : ℕ)
    (message : SendArgs × List Envelope) (packet : Packet) :
    Decidable (Carries P key nPaths message packet) := by
  unfold Carries
  cases selectSlot P key.toList packet.messageId nPaths <;> infer_instance

theorem Carries.envelope_eq {key : Bytes 32} {message : SendArgs × List Envelope}
    {packet : Packet} (h : Carries P key nPaths message packet) {slot : ℕ}
    (hslot : selectSlot P key.toList packet.messageId nPaths = .ok slot) :
    packet.envelopes[slot]? = message.2[slot]? := by
  have hmatch := h.2.2
  rwa [hslot] at hmatch

theorem carries_of_slot {key : Bytes 32} {message : SendArgs × List Envelope} {packet : Packet}
    {slot : ℕ} (hmessageId : packet.messageId = message.1.messageId)
    (hlength : nPaths ≤ packet.envelopes.length)
    (hslot : selectSlot P key.toList packet.messageId nPaths = .ok slot)
    (henvelope : packet.envelopes[slot]? = message.2[slot]?) :
    Carries P key nPaths message packet := by
  refine ⟨hmessageId, hlength, ?_⟩
  rw [hslot]
  exact henvelope

/-- A channel that looks for the number of a packet under the key that the carried
message was sealed with returns its payload. -/
theorem receive_of_carries (hdecrypt : P.DecryptUndoes) {channel : SecureChannel κ}
    {accepted : List UInt64} (hbooks : Bookkeeping accepted channel) {target : Target κ}
    {key : Bytes 32} {message : SendArgs × List Envelope} {packet : Packet}
    (hsends : Sends P key packet.seq channel.nPaths message.1.coins message.1.payload
      message.1.messageId message.2)
    (hcarries : Carries P key channel.nPaths message packet)
    (htarget : channel.computeTargetKey K packet.seq packet.messageId = .ok target)
    (hkey : K.bytes target.targetKey = key) (now : Instant) :
    (channel.receive P K now packet.envelopes packet.seq packet.messageId).1 =
      .ok message.1.payload := by
  have hmessageId := hcarries.1
  rw [← hmessageId] at hsends
  exact receive_of_sends hdecrypt hbooks hsends htarget hkey now hcarries.2.1
    fun slot hslot => hcarries.envelope_eq hslot

end NullPath
