import NullPath.Channel.Authenticity
import NullPath.Session.Basic

/-!
# Delivery in both directions

Each direction is delivered in order, once and without loss. A packet opens when
the receiver's key is the one it was sealed under, and both keys move with every
message of either direction: message `i` of a party is sealed `i` steps past the
number it expected then, and its peer looks for it `i` steps past the messages it
has sent by now. So a packet is delivered when it has crossed no packet on its way
(`Uncrossed`), and under an ideal cipher only then.
-/

namespace NullPath

open Transition

variable {κ : Type*} {P : Primitives} {K : KeyOps κ} {rootKey : κ} {nPaths : ℕ}

/-- Whether an event is a call of `receive`. -/
def isReceive (event : ChannelEvent κ) : Bool :=
  match event.input with
  | .receive _ => true
  | .send _ => false

/-- The number of `receive` calls an endpoint has made. -/
def Endpoint.received (e : Endpoint κ) : ℕ := e.events.countP isReceive

/-- Each direction delivers the packets of the peer unmodified, in order, once
and without loss. -/
def InOrder (s : Session κ) (m : Move) : Prop :=
  match m.call with
  | .send _ => True
  | .receive args =>
      args.seq.toNat = (s m.party).received ∧
        (s m.party.peer).packets[args.seq.toNat]? = some args.toPacket

/-- The packet that arrives has crossed none: the number its sender expected when
it sent it is the number that the receiver would send next. -/
def Uncrossed (s : Session κ) (m : Move) : Prop :=
  match m.call with
  | .send _ => True
  | .receive args =>
      (expectedWhenSent (s m.party.peer).events)[args.seq.toNat]? =
        some (s m.party).sent.length

instance : ∀ (s : Session κ) (m : Move), Decidable (InOrder s m)
  | _, ⟨_, .send _⟩ => isTrue trivial
  | _, ⟨_, .receive _⟩ => inferInstanceAs (Decidable (_ ∧ _))

instance : ∀ (s : Session κ) (m : Move), Decidable (Uncrossed s m)
  | _, ⟨_, .send _⟩ => isTrue trivial
  | _, ⟨_, .receive _⟩ => inferInstanceAs (Decidable (_ = _))

/-- A `receive` returns the payload of the message it was given the packet of. -/
def Delivers (e : SessionEvent κ) : Prop :=
  match e.input.call with
  | .send _ => True
  | .receive args =>
      ((e.before e.input.party.peer).sent[args.seq.toNat]?).map
        (fun message => .received (.ok message.1.payload)) = some e.output

instance : ∀ e : SessionEvent κ, Decidable (Delivers e)
  | ⟨_, ⟨_, .send _⟩, _⟩ => isTrue trivial
  | ⟨_, ⟨_, .receive _⟩, _⟩ => inferInstanceAs (Decidable (_ = _))

/-- The `seal` calls of both parties so far. -/
def Session.sealLog (P : Primitives) (K : KeyOps κ) (s : Session κ) : List SealCall :=
  sealCalls P K (s .a).events ++ sealCalls P K (s .b).events

/-- The cipher is ideal for what arrives: decoys so far are not under one of the
first chain keys, and under one of these the envelopes open only if sealed so. -/
def IdealArrival (P : Primitives) (K : KeyOps κ) (rootKey : κ) (horizon nPaths : ℕ)
    (s : Session κ) (m : Move) : Prop :=
  match m.call with
  | .send _ => True
  | .receive args =>
      (∀ message ∈ (s .a).sent ++ (s .b).sent, FreshDecoys K rootKey horizon nPaths message.1) ∧
        OpensOnlySealed P K rootKey horizon (s.sealLog P K) args.envelopes
          (constructAad args.seq args.messageId)

instance (P : Primitives) (K : KeyOps κ) (rootKey : κ) (horizon nPaths : ℕ) :
    ∀ (s : Session κ) (m : Move), Decidable (IdealArrival P K rootKey horizon nPaths s m)
  | _, ⟨_, .send _⟩ => isTrue trivial
  | _, ⟨_, .receive _⟩ => @instDecidableAnd _ _ (List.decidableBAll _ _) inferInstance

theorem authenticates_of_delivers {s : Session κ} {p : Party} {args : ReceiveArgs}
    {reply : Reply} {channel' : SecureChannel κ}
    (hdelivers : Delivers ⟨s, ⟨p, .receive args⟩, reply⟩)
    (hstep : callStep P K (s p).channel (.receive args) = (reply, channel')) :
    ∃ target payload,
      Authenticates P K (s p).channel args.envelopes args.seq args.messageId target payload := by
  obtain ⟨message, _, houtput⟩ := Option.map_eq_some_iff.1 hdelivers
  have hreply : Reply.received ((s p).channel.receive P K args.now args.envelopes args.seq
      args.messageId).1 = reply := congrArg Prod.fst hstep
  obtain ⟨target, hsteps⟩ :=
    authenticates_of_receive (Reply.received.inj (hreply.trans houtput.symm))
  exact ⟨target, message.1.payload, hsteps⟩

theorem real_of_mem_sealLog {s : Session κ} (hencrypt : P.EncryptTotal)
    (hruns : OwnRuns P K rootKey nPaths s) {horizon position : ℕ} {call : SealCall}
    (hdecoys : ∀ message ∈ (s .a).sent ++ (s .b).sent,
      FreshDecoys K rootKey horizon nPaths message.1)
    (hposition : position ≤ horizon) (hkey : call.key = K.bytes (chain K rootKey position))
    (h : call ∈ s.sealLog P K) :
    ∃ p i expected args slots, (s p).sent[i]? = some (args, slots) ∧
      (expectedWhenSent (s p).events)[i]? = some expected ∧
        call.key = K.bytes (chain K rootKey (i + expected)) ∧
          call.aad = constructAad (UInt64.ofNat i) args.messageId := by
  obtain ⟨p, hp⟩ : ∃ p, call ∈ sealCalls P K (s p).events := by
    rcases List.mem_append.1 h with hmem | hmem
    · exact ⟨.a, hmem⟩
    · exact ⟨.b, hmem⟩
  obtain ⟨calls, hevents, _⟩ := hruns p
  have hsent : ∀ message ∈ (s p).sent, FreshDecoys K rootKey horizon nPaths message.1 := by
    intro message hmem
    cases p with
    | a => exact hdecoys message (List.mem_append_left _ hmem)
    | b => exact hdecoys message (List.mem_append_right _ hmem)
  rw [Endpoint.sent, hevents] at hsent
  rw [hevents] at hp
  obtain ⟨i, expected, args, slots, hi, hn, hsealed, haad, _⟩ :=
    real_of_mem_sealCalls hencrypt K rootKey nPaths calls hsent hposition hkey hp
  rw [← hevents] at hi hn
  exact ⟨p, i, expected, args, slots, hi, hn, hsealed, haad⟩

/-- Every packet received so far was accepted as the next one. -/
def InStep (s : Session κ) : Prop :=
  ∀ p, expectedSeq (s p).channel.lastSeq = (s p).received

namespace InStep

variable {s : Session κ} {p : Party}

theorem servable (h : InStep s) {args : ReceiveArgs} (horder : InOrder s ⟨p, .receive args⟩) :
    Servable (s p).channel args.seq := by
  have hexpected : args.seq.toNat = expectedSeq (s p).channel.lastSeq := by
    rw [h p]
    exact horder.1
  unfold Servable
  cases hlast : (s p).channel.lastSeq with
  | none =>
      rw [hlast, expectedSeq_none] at hexpected
      change args.seq.toNat ≤ maxSkipWindow
      rw [hexpected]
      exact Nat.zero_le _
  | some last =>
      rw [hlast, expectedSeq_some] at hexpected
      refine Or.inl ⟨by rw [hexpected]; exact Nat.lt_succ_self _, ?_⟩
      rw [hexpected]
      exact Nat.add_le_add_left (by decide) _

theorem targetKey_eq (hencrypt : P.EncryptTotal) (hruns : OwnRuns P K rootKey nPaths s)
    (h : InStep s) {args : ReceiveArgs} (horder : InOrder s ⟨p, .receive args⟩)
    {target : Target κ}
    (htarget : (s p).channel.computeTargetKey K args.seq args.messageId = .ok target) :
    target.targetKey = chain K rootKey ((s p).sent.length + args.seq.toNat) := by
  rcases computeTargetKey_cases htarget with hforward | hlate
  · exact (hforward.keys_of_chain (hruns.endpointState hencrypt p).currentKey).1
  · have hbelow := hlate.lt_expected
    rw [h p] at hbelow
    exact absurd horder.1 (Nat.ne_of_lt hbelow)

/-- A party finds the packet that crossed none sealed under the key it computes for
it, so it receives the payload. -/
theorem delivers (hencrypt : P.EncryptTotal) (hdecrypt : P.DecryptUndoes)
    (hruns : OwnRuns P K rootKey nPaths s) (h : InStep s) {call : Call} {reply : Reply}
    {channel' : SecureChannel κ} (horder : InOrder s ⟨p, call⟩)
    (huncrossed : Uncrossed s ⟨p, call⟩)
    (hstep : callStep P K (s p).channel call = (reply, channel')) :
    Delivers ⟨s, ⟨p, call⟩, reply⟩ := by
  cases call with
  | send args => trivial
  | receive args =>
      obtain ⟨⟨sendArgs, slots⟩, hsent, hargs⟩ := Endpoint.sent_of_packets horder.2
      have henvelopes : args.envelopes = slots := congrArg Packet.envelopes hargs
      have hmessageId : args.messageId = sendArgs.messageId := congrArg Packet.messageId hargs
      have hsends := (hruns.sentState hencrypt p.peer).sends args.seq.toNat _ sendArgs slots
        hsent huncrossed
      rw [UInt64.ofNat_toNat, ← hmessageId, Nat.add_comm,
        ← (hruns.endpointState hencrypt p).nPaths] at hsends
      obtain ⟨target, htarget⟩ := computeTargetKey_of_servable (K := K) (h.servable horder)
        args.messageId
      have hkey := h.targetKey_eq hencrypt hruns horder htarget
      have hreceive : ((s p).channel.receive P K args.now args.envelopes args.seq
          args.messageId).1 = .ok sendArgs.payload := by
        refine receive_of_sends hdecrypt (hruns.endpointState hencrypt p).books hsends htarget
          (congrArg K.bytes hkey) args.now ?_ fun slot _ => ?_
        · rw [henvelopes, hsends.selected.1]
        · rw [henvelopes]
      have hreply : Reply.received ((s p).channel.receive P K args.now args.envelopes args.seq
          args.messageId).1 = reply := congrArg Prod.fst hstep
      rw [hreceive] at hreply
      exact Option.map_eq_some_iff.2 ⟨_, hsent, hreply⟩

/-- A move that delivers keeps the parties in step. -/
theorem record (h : InStep s) {call : Call} {reply : Reply} {channel' : SecureChannel κ}
    (horder : InOrder s ⟨p, call⟩) (hdelivers : Delivers ⟨s, ⟨p, call⟩, reply⟩)
    (heffect : CallEffect P K (s p).channel call reply channel') :
    InStep (s.record p call reply channel') := by
  intro q
  rcases Party.eq_or_eq_peer q p with rfl | rfl
  · rw [record_self, Endpoint.received, List.countP_append]
    cases heffect with
    | notSent => exact h q
    | lost => exact h q
    | sent => exact h q
    | refused =>
        obtain ⟨message, _, hreply⟩ := Option.map_eq_some_iff.1 hdelivers
        cases hreply
    | stale =>
        obtain ⟨message, _, hreply⟩ := Option.map_eq_some_iff.1 hdelivers
        cases hreply
    | opened args target payload hsteps =>
        have hnumber : args.seq.toNat = (s q).received := horder.1
        rcases computeTargetKey_cases hsteps.computeTargetKey with hforward | hlate
        · rw [commit_forward _ args.seq hforward.isForward hforward.nextRatchetKey,
            expectedSeq_some, hnumber]
          rfl
        · have hbelow := hlate.lt_expected
          rw [h q] at hbelow
          exact absurd hnumber (Nat.ne_of_lt hbelow)
  · rw [record_peer]
    exact h p.peer

/-- Under an ideal cipher a packet that is delivered crossed none: what the
receiver opened was sealed under the key it computed, and of the messages sent so
far only the packet's own can have been. -/
theorem uncrossed (hencrypt : P.EncryptTotal) (hruns : OwnRuns P K rootKey nPaths s)
    (h : InStep s) {horizon : ℕ} (hbytes : Function.Injective K.bytes)
    (hdistinct : ChainDistinct K rootKey horizon)
    (hlength : ∀ q, 2 * (s q).events.length ≤ horizon)
    (hnumbers : ∀ q, (s q).events.length < 2 ^ 64) {call : Call} {reply : Reply}
    {channel' : SecureChannel κ} (hideal : IdealArrival P K rootKey horizon nPaths s ⟨p, call⟩)
    (horder : InOrder s ⟨p, call⟩) (hdelivers : Delivers ⟨s, ⟨p, call⟩, reply⟩)
    (hstep : callStep P K (s p).channel call = (reply, channel')) :
    Uncrossed s ⟨p, call⟩ := by
  cases call with
  | send args => trivial
  | receive args =>
      have hbound : ∀ q, (s q).sent.length + (s q).received ≤ horizon := by
        intro q
        have hsent : (s q).sent.length ≤ (s q).events.length := List.length_filterMap_le _ _
        have hreceived : (s q).received ≤ (s q).events.length := List.countP_le_length
        have := hlength q
        omega
      have hnumber : args.seq.toNat = (s p).received := horder.1
      have hposition : (s p).sent.length + args.seq.toNat ≤ horizon := by
        rw [hnumber]
        exact hbound p
      -- What was opened is in the log, so some party sealed it for a message `i`.
      obtain ⟨target, payload, hsteps⟩ := authenticates_of_delivers hdelivers hstep
      obtain ⟨slotIdx, envelope, _, henvelope, hopen⟩ := hsteps.opens
      rw [h.targetKey_eq hencrypt hruns horder hsteps.computeTargetKey] at hopen
      have hlogged := hideal.2 envelope (List.mem_of_getElem? henvelope) _ hposition
        (by rw [hopen]; rfl)
      obtain ⟨q, i, expected, sendArgs, slots, hi, hn, hsealed, haad⟩ :=
        real_of_mem_sealLog hencrypt hruns hideal.1 hposition rfl hlogged
      have hilt : i < (s q).sent.length := (List.getElem?_eq_some_iff.1 hi).1
      have hexpected := (hruns.sentState hencrypt q).expected_le expected
        (List.mem_of_getElem? hn)
      rw [h q] at hexpected
      have hindex : (s p).sent.length + args.seq.toNat = i + expected :=
        hdistinct.index_eq hposition ((Nat.add_le_add hilt.le hexpected).trans (hbound q))
          (hbytes hsealed)
      have hseq : args.seq.toNat = i := by
        rw [(constructAad_inj.1 haad).1]
        exact Nat.mod_eq_of_lt
          ((hilt.trans_le (List.length_filterMap_le _ _)).trans (hnumbers q))
      rcases Party.eq_or_eq_peer q p with rfl | rfl
      · -- The receiver's own message of this number was sealed at an earlier key.
        omega
      · have hcrossed : expected = (s p).sent.length := by omega
        change (expectedWhenSent (s p.peer).events)[args.seq.toNat]? = some (s p).sent.length
        rw [hseq, ← hcrossed]
        exact hn

end InStep

theorem delivers_of_uncrossed (hencrypt : P.EncryptTotal) (hdecrypt : P.DecryptUndoes)
    (moves : List Move) (hmoves : Keeps P K rootKey nPaths InOrder moves)
    (huncrossed : ∀ e ∈ sessionTrace P K rootKey nPaths moves, Uncrossed e.before e.input) :
    ∀ e ∈ sessionTrace P K rootKey nPaths moves, Delivers e := by
  refine (session_induction
    (motive := fun past s => (∀ e ∈ past, Uncrossed e.before e.input) →
      InStep s ∧ ∀ e ∈ past, Delivers e)
    (fun _ => ⟨fun _ => rfl, fun e hmem => by cases hmem⟩) ?_ moves hmoves huncrossed).2
  intro past s p call reply channel' hruns hpast horder hstep heffect hcrossed
  obtain ⟨hbefore, hlast⟩ := forall_mem_concat.1 hcrossed
  obtain ⟨h, hdelivered⟩ := hpast hbefore
  have hdelivers := h.delivers hencrypt hdecrypt hruns horder hlast hstep
  exact ⟨h.record horder hdelivers heffect, forall_mem_concat.2 ⟨hdelivered, hdelivers⟩⟩

theorem uncrossed_of_delivers (hencrypt : P.EncryptTotal) (hbytes : Function.Injective K.bytes)
    (moves : List Move) (hnumbers : moves.length < 2 ^ 64)
    (hdistinct : ChainDistinct K rootKey (2 * moves.length))
    (hmoves : Keeps P K rootKey nPaths InOrder moves)
    (hideal : ∀ e ∈ sessionTrace P K rootKey nPaths moves,
      IdealArrival P K rootKey (2 * moves.length) nPaths e.before e.input)
    (hdelivers : ∀ e ∈ sessionTrace P K rootKey nPaths moves, Delivers e) :
    ∀ e ∈ sessionTrace P K rootKey nPaths moves, Uncrossed e.before e.input := by
  refine (session_induction
    (motive := fun past s => past.length ≤ moves.length →
      (∀ e ∈ past, IdealArrival P K rootKey (2 * moves.length) nPaths e.before e.input) →
        (∀ e ∈ past, Delivers e) → InStep s ∧ (∀ q, (s q).events.length ≤ past.length) ∧
          ∀ e ∈ past, Uncrossed e.before e.input)
    (fun _ _ _ => ⟨fun _ => rfl, fun _ => Nat.le_refl 0, fun e hmem => by cases hmem⟩) ?_
    moves hmoves (length_trace _ _ _).le hideal hdelivers).2.2
  intro past s p call reply channel' hruns hpast horder hstep heffect hlength hideals hall
  obtain ⟨hideal, hlast⟩ := forall_mem_concat.1 hideals
  obtain ⟨hdelivered, hdelivers⟩ := forall_mem_concat.1 hall
  rw [List.length_append, List.length_singleton] at hlength
  obtain ⟨h, hevents, huncrossed⟩ := hpast (Nat.le_of_succ_le hlength) hideal hdelivered
  have hshort : ∀ q, (s q).events.length ≤ moves.length :=
    fun q => (hevents q).trans (Nat.le_of_succ_le hlength)
  refine ⟨h.record horder hdelivers heffect, fun q => ?_, forall_mem_concat.2 ⟨huncrossed, ?_⟩⟩
  · rw [List.length_append, List.length_singleton]
    rcases Party.eq_or_eq_peer q p with rfl | rfl
    · rw [record_self, List.length_append, List.length_singleton]
      exact Nat.succ_le_succ (hevents q)
    · rw [record_peer]
      exact (hevents p.peer).trans (Nat.le_succ _)
  · exact h.uncrossed hencrypt hruns hbytes hdistinct
      (fun q => Nat.mul_le_mul_left 2 (hshort q)) (fun q => (hshort q).trans_lt hnumbers) hlast
      horder hdelivers hstep

/-- **Delivery in both directions.** Each direction is delivered in order, once and
without loss. When no packet that arrives has crossed another, every `receive`
returns the payload that was sent; and over an ideal cipher and a chain without
repetitions, when every `receive` does, no packet that arrived had crossed
another. -/
theorem duplex_delivers {P : Primitives} (hencrypt : P.EncryptTotal)
    (hdecrypt : P.DecryptUndoes) (rootKey : RatchetKey) (nPaths : ℕ) (moves : List Move)
    (hmoves : Keeps P (RatchetKey.ops P) rootKey nPaths InOrder moves) :
    let K := RatchetKey.ops P
    let events := sessionTrace P K rootKey nPaths moves
    let horizon := 2 * moves.length
    ((∀ e ∈ events, Uncrossed e.before e.input) → ∀ e ∈ events, Delivers e) ∧
      (moves.length < 2 ^ 64 → ChainDistinct K rootKey horizon →
        (∀ e ∈ events, IdealArrival P K rootKey horizon nPaths e.before e.input) →
          (∀ e ∈ events, Delivers e) → ∀ e ∈ events, Uncrossed e.before e.input) := by
  intro K events horizon
  refine ⟨fun huncrossed => ?_, fun hnumbers hdistinct hideal hdelivers => ?_⟩
  · exact delivers_of_uncrossed hencrypt hdecrypt moves hmoves huncrossed
  · exact uncrossed_of_delivers hencrypt (fun _ _ => congrArg RatchetKey.mk) moves hnumbers
      hdistinct hmoves hideal hdelivers

/-- Two messages, both received, and an answer: every packet is delivered, and
none has crossed another. -/
theorem duplex_delivers_answer :
    let K := RatchetKey.ops counterPrimitives
    let burst : List Move :=
      [⟨.a, .send (counterSend [10] [1])⟩, ⟨.a, .send (counterSend [11] [2])⟩]
    let answer := thenReceive burst .b 0 ++ [⟨.b, .send (counterSend [12] [3])⟩]
    let moves := thenReceive answer .a 0
    let events := sessionTrace counterPrimitives K (counterKey 0) 2 moves
    (∀ e ∈ events, Delivers e) ∧ ∀ e ∈ events, Uncrossed e.before e.input := by
  intro K burst answer moves events
  -- The run is evaluated once, for the three facts about it.
  have hrun : Keeps counterPrimitives K (counterKey 0) 2 InOrder moves ∧
      (∀ e ∈ events, Uncrossed e.before e.input) ∧
        ∀ e ∈ events, IdealArrival counterPrimitives K (counterKey 0) (2 * moves.length) 2
          e.before e.input := by
    decide +kernel
  obtain ⟨hmoves, hturns, hideal⟩ := hrun
  obtain ⟨hdelivers, huncrossed⟩ := duplex_delivers counter_encryptTotal counter_decryptUndoes
    (counterKey 0) 2 moves hmoves
  have hall := hdelivers hturns
  exact ⟨hall, huncrossed (by decide +kernel) (counter_chainDistinct (by decide +kernel))
    hideal hall⟩

/-- Both parties send before either receives: each direction delivers its packet
in order, and neither packet opens. -/
theorem crossing_packets_fail :
    let K := RatchetKey.ops counterPrimitives
    let crossing : List Move :=
      [⟨.a, .send (counterSend [10] [1])⟩, ⟨.b, .send (counterSend [11] [2])⟩]
    let moves := thenReceive (thenReceive crossing .a 0) .b 0
    let events := sessionTrace counterPrimitives K (counterKey 0) 2 moves
    Keeps counterPrimitives K (counterKey 0) 2 InOrder moves ∧
      (events.map Event.output).drop 2 =
          [.received (.error .AuthenticationFailed), .received (.error .AuthenticationFailed)] ∧
        ¬ ∀ e ∈ events, Delivers e := by
  decide +kernel

end NullPath
