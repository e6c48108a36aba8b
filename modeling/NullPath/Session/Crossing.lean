import NullPath.Channel.Window
import NullPath.Session.Authenticity

/-!
# Which packets get through

Both parties of a session step one chain on their own schedule. A party looks for number
`q` of its peer as many positions past `q` as messages it had sent when its ratchet
passed the number (`sentBefore`), and the peer sealed its message `q` as many positions
past `q` as numbers it had accepted by then. A packet that carries message `q` gets
through when its number is open and these two counts agree, that is when the message
has crossed none of the receiver's. Under an ideal cipher nothing else gets through,
whatever the network does.
-/

namespace NullPath

open Transition

variable {κ : Type*} {P : Primitives} {K : KeyOps κ} {rootKey : κ} {nPaths : ℕ}

/-- A packet that arrives at a party gets through as a message that its peer sent when
it expected number `expected`. -/
structure GetsThrough (P : Primitives) (K : KeyOps κ) (rootKey : κ) (nPaths : ℕ)
    (s : Session κ) (p : Party) (args : ReceiveArgs) (message : SendArgs × List Envelope)
    (expected : ℕ) : Prop where
  sent : (s p.peer).sent[args.seq.toNat]? = some message
  whenSent : (expectedWhenSent (s p.peer).events)[args.seq.toNat]? = some expected
  carries : Carries P (K.bytes (chain K rootKey (args.seq.toNat + expected))) nPaths message
    args.toPacket
  isOpen : (s p).channel.window.Open maxSkipWindow args.seq.toNat
  uncrossed : sentBefore (s p).events args.seq.toNat = expected

namespace OwnRuns

variable {s : Session κ}

theorem passedKeys (hencrypt : P.EncryptTotal) (h : OwnRuns P K rootKey nPaths s) (p : Party) :
    PassedKeys P K rootKey nPaths (s p).events (s p).channel := by
  obtain ⟨calls, hevents, hchannel⟩ := h p
  rw [hevents, hchannel]
  exact PassedKeys.run hencrypt K rootKey nPaths calls

theorem takenState (h : OwnRuns P K rootKey nPaths s) (p : Party) :
    NumberWindow.TakenState maxSkippedKeys (takenNumbers (s p).events) (s p).channel.window := by
  obtain ⟨calls, hevents, hchannel⟩ := h p
  rw [hevents, hchannel]
  exact takenState_run P K rootKey nPaths calls

theorem receives (hencrypt : P.EncryptTotal) (hdecrypt : P.DecryptUndoes)
    (h : OwnRuns P K rootKey nPaths s) {p : Party} {args : ReceiveArgs}
    {message : SendArgs × List Envelope} {expected : ℕ}
    (hthrough : GetsThrough P K rootKey nPaths s p args message expected) :
    ((s p).channel.receive P K args.now args.envelopes args.seq args.messageId).1 =
      .ok message.1.payload := by
  have hstate := h.endpointState hencrypt p
  have hservable := (SecureChannel.servable_iff_open (h.takenState p).waiting_lt).2
    hthrough.isOpen
  obtain ⟨target, htarget⟩ := computeTargetKey_of_servable (K := K) hservable args.messageId
  have hkey := (h.passedKeys hencrypt p).targetKey_eq htarget
  rw [hthrough.uncrossed, Nat.add_comm] at hkey
  have hsends := (h.sentState hencrypt p.peer).sends args.seq.toNat expected message.1 message.2
    hthrough.sent hthrough.whenSent
  rw [UInt64.ofNat_toNat, ← hstate.nPaths] at hsends
  have hcarries := hthrough.carries
  rw [← hstate.nPaths] at hcarries
  have haccepted := receive_of_carries hdecrypt hstate.books hsends hcarries htarget
    (congrArg K.bytes hkey) args.now
  exact haccepted

theorem exists_getsThrough (hencrypt : P.EncryptTotal) (hdecrypt : P.DecryptUndoes)
    (hbytes : Function.Injective K.bytes) (h : OwnRuns P K rootKey nPaths s) {horizon : ℕ}
    (hnumbers : horizon ≤ 2 ^ 64) (hdistinct : ChainDistinct K rootKey horizon) {p : Party}
    {args : ReceiveArgs} {target : Target κ} {payload : List UInt8}
    (hreach : ∀ q, (s q).reach ≤ horizon)
    (hnext : (s p).sent.length + max (expectedSeq (s p).channel.lastSeq) (args.seq.toNat + 1) ≤
      horizon)
    (hideal : IdealArrival P K rootKey horizon nPaths s ⟨p, .receive args⟩)
    (hsteps : Authenticates P K (s p).channel args.envelopes args.seq args.messageId target
      payload) :
    ∃ message expected, GetsThrough P K rootKey nPaths s p args message expected ∧
      message.1.payload = payload := by
  obtain ⟨slotIdx, envelope, i, expected, sendArgs, slots, hselect, henvelope, hopen, hkey,
    hbound, hseals⟩ :=
    h.exists_peer_message hencrypt hbytes hdistinct hreach hnext hideal hsteps
  have hpaths := (h.endpointState hencrypt p).nPaths
  obtain ⟨hseq, hmessageId, hpayload⟩ := hseals.message_of_open hdecrypt rfl hopen
  have hbelow := Endpoint.OwnRun.sealed_lt_reach hencrypt (h p.peer) hseals
  have hnumber : args.seq.toNat = i := by
    rw [hseq]
    exact Nat.mod_eq_of_lt ((Nat.le_add_right i expected).trans_lt
      (hbelow.trans_le ((hreach p.peer).trans hnumbers)))
  -- The receiver found the key where its ratchet had passed the number.
  have hpassed := (h.passedKeys hencrypt p).targetKey_eq hsteps.computeTargetKey
  have hposition : sentBefore (s p).events args.seq.toNat + args.seq.toNat = i + expected := by
    refine hdistinct.index_eq (le_trans ?_ hnext) hbound (hpassed.symm.trans hkey)
    have hsent : sentBefore (s p).events args.seq.toNat ≤ (s p).sent.length :=
      List.countP_le_length.trans (length_expectedWhenSent _).le
    exact Nat.add_le_add hsent ((Nat.le_succ _).trans (le_max_right _ _))
  obtain ⟨slot, hslot, hreal⟩ := hseals.slot
  have hslots : slots[slotIdx]? = some envelope := by
    rw [hpaths, ← hmessageId] at hselect
    have hsame := hselect.symm.trans hslot
    rw [Except.ok.inj hsame]
    exact hreal
  rw [hkey, hpaths] at hselect
  refine ⟨(sendArgs, slots), expected, ⟨?_, ?_, ?_, ?_, ?_⟩, hpayload⟩
  · rw [hnumber]
    exact hseals.sent
  · rw [hnumber]
    exact hseals.whenSent
  · rw [hnumber]
    exact carries_of_slot hmessageId.symm (hpaths ▸ hsteps.nPaths_le) hselect
      (henvelope.trans hslots.symm)
  · exact (SecureChannel.servable_iff_open (h.takenState p).waiting_lt).1
      (servable_of_computeTargetKey hsteps.computeTargetKey)
  · omega

/-- Under an ideal cipher a packet is accepted if and only if it gets through. -/
theorem received_iff (hencrypt : P.EncryptTotal) (hdecrypt : P.DecryptUndoes)
    (hbytes : Function.Injective K.bytes) (h : OwnRuns P K rootKey nPaths s) {horizon : ℕ}
    (hnumbers : horizon ≤ 2 ^ 64) (hdistinct : ChainDistinct K rootKey horizon) {p : Party}
    {args : ReceiveArgs} {reply : Reply} {channel' : SecureChannel κ}
    (hafter : ∀ q, (s.record p (.receive args) reply channel' q).reach ≤ horizon)
    (hideal : IdealArrival P K rootKey horizon nPaths s ⟨p, .receive args⟩)
    (hstep : callStep P K (s p).channel (.receive args) = (reply, channel'))
    (heffect : CallEffect P K (s p).channel (.receive args) reply channel')
    (payload : List UInt8) :
    reply = .received (.ok payload) ↔
      ∃ message expected, GetsThrough P K rootKey nPaths s p args message expected ∧
        message.1.payload = payload := by
  have hbefore : ∀ q, (s q).reach ≤ horizon := fun q =>
    (reach_le_record heffect q).trans (hafter q)
  constructor
  · rintro rfl
    cases heffect with
    | opened _ target _ hsteps =>
        have hnext := hafter p
        rw [record_self] at hnext
        exact h.exists_getsThrough hencrypt hdecrypt hbytes hnumbers hdistinct hbefore
          ((Endpoint.reach_record_opened _ hsteps.computeTargetKey).symm.trans_le hnext)
          hideal hsteps
  · rintro ⟨message, expected, hthrough, rfl⟩
    have hreply : Reply.received ((s p).channel.receive P K args.now args.envelopes args.seq
        args.messageId).1 = reply := congrArg Prod.fst hstep
    rw [← hreply, h.receives hencrypt hdecrypt hthrough]

end OwnRuns

/-- **Which packets get through.** The parties send and receive in any interleaving and
any packets arrive. Under an ideal cipher and over a chain without repetitions as far as
the parties come, a packet is accepted with a payload if and only if it carries the
peer's message of its number and that payload, its number is open, and the message and
the receiver's own have not crossed. -/
theorem receives_iff_gets_through {P : Primitives} (hencrypt : P.EncryptTotal)
    (hdecrypt : P.DecryptUndoes) (rootKey : RatchetKey) (nPaths : ℕ) (moves : List Move)
    (horizon : ℕ) (hnumbers : horizon ≤ 2 ^ 64)
    (hdistinct : ChainDistinct (RatchetKey.ops P) rootKey horizon)
    (hreach : ∀ p, (runSession P (RatchetKey.ops P) rootKey nPaths moves p).reach ≤ horizon)
    (hideal : Keeps P (RatchetKey.ops P) rootKey nPaths
      (IdealArrival P (RatchetKey.ops P) rootKey horizon nPaths) moves) :
    ∀ e ∈ sessionTrace P (RatchetKey.ops P) rootKey nPaths moves, ∀ args,
      e.input.call = .receive args → ∀ payload, e.output = .received (.ok payload) ↔
        ∃ message expected, GetsThrough P (RatchetKey.ops P) rootKey nPaths e.before
          e.input.party args message expected ∧ message.1.payload = payload := by
  set K := RatchetKey.ops P
  refine session_induction
    (motive := fun past s => (∀ q, (s q).reach ≤ horizon) → ∀ e ∈ past, ∀ args,
      e.input.call = .receive args → ∀ payload, e.output = .received (.ok payload) ↔
        ∃ message expected, GetsThrough P K rootKey nPaths e.before e.input.party args message
          expected ∧ message.1.payload = payload)
    (fun _ e hmem => by cases hmem) ?_ moves hideal hreach
  intro past s p call reply channel' hruns hpast hrule hstep heffect hafter
  have hbefore : ∀ q, (s q).reach ≤ horizon := fun q =>
    (reach_le_record heffect q).trans (hafter q)
  refine forall_mem_concat.2 ⟨hpast hbefore, ?_⟩
  rintro args rfl payload
  exact hruns.received_iff hencrypt hdecrypt (fun _ _ => congrArg RatchetKey.mk) hnumbers
    hdistinct hafter hrule hstep heffect payload

/-- Party `b` answers a message while the next one is on its way: the two have crossed,
and neither gets through. -/
theorem receives_iff_gets_through_crossed :
    let K := RatchetKey.ops counterPrimitives
    let answer := thenReceive [⟨.a, .send (counterSend [10] [1])⟩] .b 0 ++
      [⟨.b, .send (counterSend [12] [3])⟩, ⟨.a, .send (counterSend [11] [2])⟩]
    let moves := thenReceive (thenReceive answer .b 1) .a 0
    let s := runSession counterPrimitives K (counterKey 0) 2 moves
    (acceptedLetters (s .b).events = [⟨0, [1], [10]⟩] ∧ acceptedLetters (s .a).events = []) ∧
      ∀ e ∈ sessionTrace counterPrimitives K (counterKey 0) 2 moves, ∀ args,
        e.input.call = .receive args → ∀ payload, e.output = .received (.ok payload) ↔
          ∃ message expected, GetsThrough counterPrimitives K (counterKey 0) 2 e.before
            e.input.party args message expected ∧ message.1.payload = payload := by
  intro K answer moves s
  refine ⟨by decide +kernel, ?_⟩
  exact receives_iff_gets_through counter_encryptTotal counter_decryptUndoes (counterKey 0) 2
    moves 6 (by decide) (counter_chainDistinct (by decide)) (fun p => by cases p <;> decide +kernel)
    (by decide +kernel)

end NullPath
