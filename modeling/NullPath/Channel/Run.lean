import NullPath.Channel.Step
import NullPath.Transition.Trace

/-!
# Runs of a channel

A call is a `send` or a `receive` with all its arguments: payloads, ids,
envelopes, sequence numbers, clock readings and the random bytes drawn. A run
is any list of calls on a channel, and its trace records each call with the
channel it was made on and its reply.

From the trace are read the accepted sequence numbers, the messages sent, and
the key each successful call consumed.
-/

namespace NullPath

open Transition

structure SendArgs where
  coins : SendCoins
  payload : List UInt8
  messageId : List UInt8

/-- What travels to the peer: the envelopes, the number and the message id. -/
structure Packet where
  envelopes : List Envelope
  seq : UInt64
  messageId : List UInt8
  deriving DecidableEq

structure ReceiveArgs extends Packet where
  now : Instant

inductive Call
  | send (args : SendArgs)
  | receive (args : ReceiveArgs)

inductive Reply
  | sent (result : Except ChannelError (List Envelope))
  | received (result : Except ChannelError (List UInt8))
  deriving DecidableEq

variable {κ : Type*}

/-- One call on a channel. -/
def callStep (P : Primitives) (K : KeyOps κ) (channel : SecureChannel κ) :
    Call → Reply × SecureChannel κ
  | .send args =>
      let (result, channel') := channel.send P K args.coins args.payload args.messageId
      (.sent result, channel')
  | .receive args =>
      let (result, channel') :=
        channel.receive P K args.now args.envelopes args.seq args.messageId
      (.received result, channel')

/-- The channel after a list of calls on a fresh one. -/
def runChannel (P : Primitives) (K : KeyOps κ) (rootKey : κ) (nPaths : ℕ)
    (calls : List Call) : SecureChannel κ :=
  final (callStep P K) (SecureChannel.new rootKey nPaths) calls

abbrev ChannelEvent (κ : Type*) := Event (SecureChannel κ) Call Reply

/-- The events of a list of calls on a fresh channel. -/
def runTrace (P : Primitives) (K : KeyOps κ) (rootKey : κ) (nPaths : ℕ)
    (calls : List Call) : List (ChannelEvent κ) :=
  trace (callStep P K) (SecureChannel.new rootKey nPaths) calls

/-- The sequence number of an accepted `receive`. -/
def acceptedSeq? (event : ChannelEvent κ) : Option UInt64 :=
  match event.input, event.output with
  | .receive args, .received (.ok _) => some args.seq
  | _, _ => none

/-- The sequence numbers accepted in a run, in order of acceptance. -/
def acceptedSeqs (events : List (ChannelEvent κ)) : List UInt64 :=
  events.filterMap acceptedSeq?

/-- The message and the envelopes of a successful `send`. -/
def sentMessage? (event : ChannelEvent κ) : Option (SendArgs × List Envelope) :=
  match event.input, event.output with
  | .send args, .sent (.ok slots) => some (args, slots)
  | _, _ => none

/-- The messages sent in a run, in order. -/
def sentMessages (events : List (ChannelEvent κ)) : List (SendArgs × List Envelope) :=
  events.filterMap sentMessage?

/-- For each message sent in a run, the number its sender expected next from the
peer when it sent the message. -/
def expectedWhenSent (events : List (ChannelEvent κ)) : List ℕ :=
  events.filterMap fun event =>
    (sentMessage? event).map fun _ => expectedSeq event.before.lastSeq

/-- The packets of the messages sent in a run, each under its number. -/
def outbox (events : List (ChannelEvent κ)) : List Packet :=
  (sentMessages events).mapIdx fun number message =>
    { envelopes := message.2, seq := UInt64.ofNat number, messageId := message.1.messageId }

/-- The arrival of a packet at a reading of the clock. -/
def Packet.arrive (packet : Packet) (now : Instant) : ReceiveArgs :=
  { packet with now := now }

/-- The key that a successful call consumed: the sealing key of a `send`, the
opening key of a `receive`. -/
def consumedKey? (K : KeyOps κ) (event : ChannelEvent κ) : Option κ :=
  match event.input, event.output with
  | .send _, .sent (.ok _) => some event.before.currentKey
  | .receive args, .received (.ok _) =>
      match event.before.computeTargetKey K args.seq args.messageId with
      | .ok target => some target.targetKey
      | .error _ => none
  | _, _ => none

/-- The keys consumed in a run, in order. -/
def consumedKeys (K : KeyOps κ) (events : List (ChannelEvent κ)) : List κ :=
  events.filterMap (consumedKey? K)

/-! ## What a call does -/

/-- The possible effects of a call on a channel: the reply and the state left
behind. -/
inductive CallEffect (P : Primitives) (K : KeyOps κ) (channel : SecureChannel κ) :
    Call → Reply → SecureChannel κ → Prop
  /-- A `send` is refused and writes nothing. -/
  | notSent (args : SendArgs) (e : ChannelError) :
      CallEffect P K channel (.send args) (.sent (.error e)) channel
  /-- A `send` loses its decoys after the ratchet has been advanced. -/
  | lost (args : SendArgs) (hlost : ¬ P.EncryptTotal) :
      CallEffect P K channel (.send args) (.sent (.error .DecoyFailure))
        (advanceSender K channel)
  /-- A `send` succeeds. -/
  | sent (args : SendArgs) (slots : List Envelope)
      (hsends : Sends P (K.bytes channel.currentKey) (nextSendSeq channel.sendSeq)
        channel.nPaths args.coins args.payload args.messageId slots) :
      CallEffect P K channel (.send args) (.sent (.ok slots)) (advanceSender K channel)
  /-- A packet is refused in Steps 1 to 3. -/
  | refused (args : ReceiveArgs) (e : ChannelError) :
      CallEffect P K channel (.receive args) (.received (.error e)) channel
  /-- An authenticated packet is refused by the anti-replay store. -/
  | stale (args : ReceiveArgs) (target : Target κ) (payload : List UInt8)
      (hsteps : Authenticates P K channel args.envelopes args.seq args.messageId target payload)
      (hstale : (channel.antiReplay.checkAndInsert args.now args.seq args.messageId).1 = false) :
      CallEffect P K channel (.receive args) (.received (.error .ReplayedSequence))
        { channel with
          antiReplay := (channel.antiReplay.checkAndInsert args.now args.seq args.messageId).2 }
  /-- A packet is accepted. -/
  | opened (args : ReceiveArgs) (target : Target κ) (payload : List UInt8)
      (hsteps : Authenticates P K channel args.envelopes args.seq args.messageId target payload) :
      CallEffect P K channel (.receive args) (.received (.ok payload))
        ({ channel with
          antiReplay :=
            (channel.antiReplay.checkAndInsert args.now args.seq args.messageId).2 }.commit
          args.seq target)

/-- Every call has one of these effects. -/
theorem callStep_effect (P : Primitives) (K : KeyOps κ) (channel : SecureChannel κ)
    (call : Call) :
    CallEffect P K channel call (callStep P K channel call).1 (callStep P K channel call).2 := by
  cases call with
  | send args =>
      rcases send_cases (P := P) (K := K) channel args.coins args.payload args.messageId with
        ⟨e, hsend⟩ | ⟨hsend, validSlot, realEnvelope, e, hlt, hdecoys⟩ | ⟨slots, hsends, hsend⟩
      · rw [callStep, hsend]
        exact CallEffect.notSent args e
      · rw [callStep, hsend]
        refine CallEffect.lost args fun hencrypt => ?_
        obtain ⟨slots, hslots⟩ := exists_slots (hencrypt.encryptsWith _) hlt
        rw [hslots] at hdecoys
        cases hdecoys
      · rw [callStep, hsend]
        exact CallEffect.sent args slots hsends
  | receive args =>
      rcases receive_cases (P := P) (K := K) channel args.now args.envelopes args.seq
          args.messageId with
        ⟨e, hreceive⟩ | ⟨target, payload, hsteps, hstale, hreceive⟩ |
          ⟨target, payload, hsteps, _, hreceive⟩
      · rw [callStep, hreceive]
        exact CallEffect.refused args e
      · rw [callStep, hreceive]
        exact CallEffect.stale args target payload hsteps hstale
      · rw [callStep, hreceive]
        exact CallEffect.opened args target payload hsteps

/-- A successful `send` sealed its payload under the key read off it. -/
theorem sends_consumedKey {channel : SecureChannel κ} {call : Call} {args : SendArgs}
    {slots : List Envelope}
    (hsent : sentMessage? (event (callStep P K) channel call) = some (args, slots)) :
    ∃ key, consumedKey? K (event (callStep P K) channel call) = some key ∧
      Sends P (K.bytes key) (nextSendSeq channel.sendSeq) channel.nPaths args.coins args.payload
        args.messageId slots := by
  have heffect := callStep_effect P K channel call
  rw [event] at hsent ⊢
  generalize callStep P K channel call = result at heffect hsent ⊢
  obtain ⟨reply, channel'⟩ := result
  cases heffect with
  | sent _ _ hsends =>
      cases hsent
      exact ⟨channel.currentKey, rfl, hsends⟩
  | _ => cases hsent

/-- An accepted packet was opened with the key read off its `receive`. -/
theorem opens_consumedKey {channel : SecureChannel κ} {args : ReceiveArgs} {payload : List UInt8}
    (hreceived : (callStep P K channel (.receive args)).1 = .received (.ok payload)) :
    ∃ key, consumedKey? K (event (callStep P K) channel (.receive args)) = some key ∧
      ∃ slotIdx envelope,
        selectSlot P (K.bytes key).toList args.messageId channel.nPaths = .ok slotIdx ∧
          args.envelopes[slotIdx]? = some envelope ∧
            Envelope.open P (K.bytes key) envelope (constructAad args.seq args.messageId) =
              .ok payload := by
  obtain ⟨target, hsteps⟩ := authenticates_of_receive (Reply.received.inj hreceived)
  refine ⟨target.targetKey, ?_, hsteps.opens⟩
  rw [event, hreceived]
  simp only [consumedKey?, hsteps.computeTargetKey]

/-- An invariant of a channel and its past holds of every run over allowed
calls once it holds of the fresh channel and every effect preserves it. -/
theorem run_induction {P : Primitives} {K : KeyOps κ} {rootKey : κ} {nPaths : ℕ}
    (allowed : Call → Prop) {motive : List (ChannelEvent κ) → SecureChannel κ → Prop}
    (init : motive [] (SecureChannel.new rootKey nPaths))
    (next : ∀ past channel call reply channel', allowed call → motive past channel →
      CallEffect P K channel call reply channel' →
        motive (past ++ [⟨channel, call, reply⟩]) channel')
    (calls : List Call) (hcalls : ∀ call ∈ calls, allowed call) :
    motive (runTrace P K rootKey nPaths calls) (runChannel P K rootKey nPaths calls) := by
  refine follows_induction (callStep P K) _ init ?_ calls (follows_of_forall _ _ hcalls)
  intro past channel call hpast hallowed
  exact next past channel call _ _ hallowed hpast (callStep_effect P K channel call)

/-! ## Reading the last event -/

theorem acceptedSeqs_concat (events : List (ChannelEvent κ)) (e : ChannelEvent κ) :
    acceptedSeqs (events ++ [e]) = acceptedSeqs events ++ (acceptedSeq? e).toList :=
  filterMap_concat _ events e

theorem sentMessages_concat (events : List (ChannelEvent κ)) (e : ChannelEvent κ) :
    sentMessages (events ++ [e]) = sentMessages events ++ (sentMessage? e).toList :=
  filterMap_concat _ events e

theorem expectedWhenSent_concat (events : List (ChannelEvent κ)) (e : ChannelEvent κ) :
    expectedWhenSent (events ++ [e]) = expectedWhenSent events ++
      ((sentMessage? e).map fun _ => expectedSeq e.before.lastSeq).toList :=
  filterMap_concat _ events e

theorem consumedKeys_concat (K : KeyOps κ) (events : List (ChannelEvent κ))
    (e : ChannelEvent κ) :
    consumedKeys K (events ++ [e]) = consumedKeys K events ++ (consumedKey? K e).toList :=
  filterMap_concat _ events e

/-! ## Messages and the calls that sent them -/

theorem length_expectedWhenSent (events : List (ChannelEvent κ)) :
    (expectedWhenSent events).length = (sentMessages events).length := by
  rw [expectedWhenSent, sentMessages, List.length_filterMap_eq_countP,
    List.length_filterMap_eq_countP]
  simp only [Option.isSome_map]

theorem exists_expectedWhenSent (events : List (ChannelEvent κ)) {i : ℕ}
    {message : SendArgs × List Envelope} (h : (sentMessages events)[i]? = some message) :
    ∃ expected, (expectedWhenSent events)[i]? = some expected := by
  have hlt := (List.getElem?_eq_some_iff.1 h).1
  rw [← length_expectedWhenSent events] at hlt
  exact ⟨_, List.getElem?_eq_getElem hlt⟩

theorem length_sentMessages_le (P : Primitives) (K : KeyOps κ) (rootKey : κ) (nPaths : ℕ)
    (calls : List Call) :
    (sentMessages (runTrace P K rootKey nPaths calls)).length ≤ calls.length := by
  rw [← length_trace (callStep P K) (SecureChannel.new rootKey nPaths) calls]
  exact List.length_filterMap_le _ _

theorem send_mem_of_sentMessages {P : Primitives} {K : KeyOps κ} {rootKey : κ} {nPaths : ℕ}
    {calls : List Call} {message : SendArgs × List Envelope}
    (h : message ∈ sentMessages (runTrace P K rootKey nPaths calls)) :
    Call.send message.1 ∈ calls := by
  obtain ⟨e, hmem, hsent⟩ := List.mem_filterMap.1 h
  have hinput := input_mem_of_mem_trace (callStep P K) hmem
  unfold sentMessage? at hsent
  split at hsent
  · rename_i args slots hcall _
    cases hsent
    rw [← hcall]
    exact hinput
  · cases hsent

end NullPath
