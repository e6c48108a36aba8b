import NullPath.Channel.Delivery

/-!
# Accepted packets are sent messages

The cipher is taken to be ideal for a packet: under a chain key and the packet's
associated data it opens only envelopes that some `seal` call made. The calls
are logged as the sender makes them (`sealCalls`), the real one and those of the
decoys. A receiver opens number `q` under the `q`-th chain key, decoys are not
under chain keys, and the chain keys are distinct, so what it accepts is the
sender's message `q`.
-/

namespace NullPath

open Transition

variable {κ : Type*} {P : Primitives} {K : KeyOps κ} {rootKey : κ} {nPaths : ℕ}

/-- A `seal` call that returned an envelope. -/
structure SealCall where
  key : Bytes 32
  aad : List UInt8
  envelope : Envelope
  deriving DecidableEq

/-- The `seal` calls behind the slots of one message: under the message's key in
the selected slot, under the decoy's own key in every other. -/
def slotSeals (P : Primitives) (key : Bytes 32) (seq : UInt64) (nPaths : ℕ)
    (args : SendArgs) (slots : List Envelope) : List SealCall :=
  match selectSlot P key.toList args.messageId nPaths with
  | .error _ => []
  | .ok validSlot =>
      slots.mapIdx fun slotIdx envelope =>
        { key := if slotIdx = validSlot then key else (args.coins.decoyCoins slotIdx).decoyKey,
          aad := constructAad seq args.messageId, envelope := envelope }

/-- The `seal` calls of a run. -/
def sealCalls (P : Primitives) (K : KeyOps κ) (events : List (ChannelEvent κ)) :
    List SealCall :=
  events.flatMap fun event =>
    match sentMessage? event with
    | none => []
    | some (args, slots) =>
        slotSeals P (K.bytes event.before.currentKey) (nextSendSeq event.before.sendSeq)
          event.before.nPaths args slots

theorem mem_slotSeals {key : Bytes 32} {seq : UInt64} {args : SendArgs}
    {slots : List Envelope} {call : SealCall}
    (h : call ∈ slotSeals P key seq nPaths args slots) :
    ∃ validSlot slotIdx, selectSlot P key.toList args.messageId nPaths = .ok validSlot ∧
      slots[slotIdx]? = some call.envelope ∧ call.aad = constructAad seq args.messageId ∧
        call.key =
          if slotIdx = validSlot then key else (args.coins.decoyCoins slotIdx).decoyKey := by
  unfold slotSeals at h
  split at h
  · cases h
  · rename_i validSlot hslot
    obtain ⟨slotIdx, hmem⟩ := List.getElem?_of_mem h
    rw [List.getElem?_mapIdx] at hmem
    obtain ⟨envelope, henvelope, rfl⟩ := Option.map_eq_some_iff.1 hmem
    exact ⟨validSlot, slotIdx, hslot, henvelope, rfl, rfl⟩

theorem seal_of_mem_slotSeals {key : Bytes 32} {seq : UInt64} {args : SendArgs}
    {slots : List Envelope} {call : SealCall}
    (hsends : Sends P key seq nPaths args.coins args.payload args.messageId slots)
    (h : call ∈ slotSeals P key seq nPaths args slots) :
    ∃ coins payload, Envelope.seal P coins call.key payload call.aad = .ok call.envelope := by
  obtain ⟨validSlot, slotIdx, hslot, henvelope, haad, hkey⟩ := mem_slotSeals h
  obtain ⟨validSlot', realEnvelope, hslot', hseal, hslots⟩ := hsends.seals
  rw [hslot] at hslot'
  cases hslot'
  rw [haad, hkey]
  split_ifs with hreal
  · have hget := slots_real hslots
    rw [← hreal, henvelope] at hget
    rw [Option.some.inj hget]
    exact ⟨_, _, hseal⟩
  · exact ⟨_, _, (slots_decoy hslots henvelope hreal).2⟩

theorem mem_sealCalls (hencrypt : P.EncryptTotal) (K : KeyOps κ) (rootKey : κ) (nPaths : ℕ)
    (calls : List Call) {call : SealCall}
    (h : call ∈ sealCalls P K (runTrace P K rootKey nPaths calls)) :
    ∃ i expected args slots,
      (sentMessages (runTrace P K rootKey nPaths calls))[i]? = some (args, slots) ∧
        (expectedWhenSent (runTrace P K rootKey nPaths calls))[i]? = some expected ∧
          call ∈ slotSeals P (K.bytes (chain K rootKey (i + expected))) (UInt64.ofNat i) nPaths
            args slots := by
  revert h
  refine (run_induction (fun _ => True)
    (motive := fun past channel => SentState P K rootKey nPaths past channel ∧
      (call ∈ sealCalls P K past → ∃ i expected args slots,
        (sentMessages past)[i]? = some (args, slots) ∧
          (expectedWhenSent past)[i]? = some expected ∧
            call ∈ slotSeals P (K.bytes (chain K rootKey (i + expected))) (UInt64.ofNat i)
              nPaths args slots))
    ⟨SentState.new P K rootKey nPaths, fun hmem => ?_⟩ ?_ calls fun _ _ => trivial).2
  · cases hmem
  rintro past channel c reply channel' _ ⟨hstate, hpast⟩ heffect
  refine ⟨hstate.preserved hencrypt heffect, fun hmem => ?_⟩
  rw [sealCalls, List.flatMap_append, List.mem_append] at hmem
  rw [sentMessages_concat, expectedWhenSent_concat]
  rcases hmem with hmem | hmem
  · obtain ⟨i, expected, args, slots, hi, hn, hcall⟩ := hpast hmem
    refine ⟨i, expected, args, slots, ?_, ?_, hcall⟩
    · rw [List.getElem?_append_left (List.getElem?_eq_some_iff.1 hi).1]
      exact hi
    · rw [List.getElem?_append_left (List.getElem?_eq_some_iff.1 hn).1]
      exact hn
  · rw [List.flatMap_singleton] at hmem
    cases hsent : sentMessage? ⟨channel, c, reply⟩ with
    | none =>
        rw [hsent] at hmem
        cases hmem
    | some message =>
        obtain ⟨args, slots⟩ := message
        rw [hsent] at hmem
        refine ⟨(sentMessages past).length, expectedSeq channel.lastSeq, args, slots, ?_, ?_, ?_⟩
        · rw [Option.toList_some, List.getElem?_concat_length]
        · rw [Option.map_some, Option.toList_some, ← length_expectedWhenSent past,
            List.getElem?_concat_length]
        · have hcall : call ∈ slotSeals P (K.bytes channel.currentKey)
              (nextSendSeq channel.sendSeq) channel.nPaths args slots := hmem
          rwa [hstate.endpoint.currentKey, hstate.endpoint.nextSendSeq,
            hstate.endpoint.nPaths] at hcall

/-- The decoys of a message are not under one of the first chain keys. -/
def FreshDecoys (K : KeyOps κ) (rootKey : κ) (horizon nPaths : ℕ) (args : SendArgs) : Prop :=
  ∀ slotIdx < nPaths, ∀ i ≤ horizon,
    (args.coins.decoyCoins slotIdx).decoyKey ≠ K.bytes (chain K rootKey i)

instance (K : KeyOps κ) (rootKey : κ) (horizon nPaths : ℕ) (args : SendArgs) :
    Decidable (FreshDecoys K rootKey horizon nPaths args) :=
  inferInstanceAs (Decidable (∀ slotIdx < nPaths, ∀ i ≤ horizon, _))

/-- A `seal` call made the real envelope of message `i` of a run, which was sent when
its sender expected number `expected`. -/
structure SealsMessage (P : Primitives) (K : KeyOps κ) (rootKey : κ) (nPaths : ℕ)
    (events : List (ChannelEvent κ)) (call : SealCall) (i expected : ℕ) (args : SendArgs)
    (slots : List Envelope) : Prop where
  sent : (sentMessages events)[i]? = some (args, slots)
  whenSent : (expectedWhenSent events)[i]? = some expected
  key : call.key = K.bytes (chain K rootKey (i + expected))
  aad : call.aad = constructAad (UInt64.ofNat i) args.messageId
  sealed : Envelope.seal P args.coins.realCoins call.key args.payload call.aad =
    .ok call.envelope
  slot : ∃ slot, selectSlot P call.key.toList args.messageId nPaths = .ok slot ∧
    slots[slot]? = some call.envelope

theorem exists_sealsMessage (hencrypt : P.EncryptTotal) (K : KeyOps κ) (rootKey : κ) (nPaths : ℕ)
    (calls : List Call) {call : SealCall}
    (hdecoys : ∀ message ∈ sentMessages (runTrace P K rootKey nPaths calls),
      ∀ slotIdx < nPaths, (message.1.coins.decoyCoins slotIdx).decoyKey ≠ call.key)
    (h : call ∈ sealCalls P K (runTrace P K rootKey nPaths calls)) :
    ∃ i expected args slots, SealsMessage P K rootKey nPaths
      (runTrace P K rootKey nPaths calls) call i expected args slots := by
  obtain ⟨i, expected, args, slots, hi, hn, hcall⟩ :=
    mem_sealCalls hencrypt K rootKey nPaths calls h
  obtain ⟨validSlot, slotIdx, hselect, hslot, haad, hsealed⟩ := mem_slotSeals hcall
  obtain ⟨hlength, validSlot', realEnvelope, hselect', hseal, hreal⟩ :=
    ((SentState.run hencrypt K rootKey nPaths calls).sends i expected args slots hi hn).selected
  rw [hselect] at hselect'
  cases hselect'
  by_cases hvalid : slotIdx = validSlot
  · rw [if_pos hvalid] at hsealed
    rw [hvalid] at hslot
    have hsame := hreal.symm.trans hslot
    rw [Option.some.inj hsame] at hseal
    rw [← hsealed] at hselect hseal
    rw [← haad] at hseal
    exact ⟨i, expected, args, slots, hi, hn, hsealed, haad, hseal, validSlot, hselect, hslot⟩
  · rw [if_neg hvalid] at hsealed
    have hslotIdx : slotIdx < nPaths := hlength ▸ (List.getElem?_eq_some_iff.1 hslot).1
    exact absurd hsealed.symm (hdecoys _ (List.mem_of_getElem? hi) slotIdx hslotIdx)

/-- Under a chain key only real envelopes are sealed: a call logged under one
sealed the payload of a message, under its number and id. -/
theorem real_of_mem_sealCalls (hencrypt : P.EncryptTotal) (K : KeyOps κ) (rootKey : κ) (nPaths : ℕ)
    (calls : List Call) {call : SealCall} {horizon position : ℕ}
    (hdecoys : ∀ message ∈ sentMessages (runTrace P K rootKey nPaths calls),
      FreshDecoys K rootKey horizon nPaths message.1)
    (hposition : position ≤ horizon) (hkey : call.key = K.bytes (chain K rootKey position))
    (h : call ∈ sealCalls P K (runTrace P K rootKey nPaths calls)) :
    ∃ i expected args slots,
      (sentMessages (runTrace P K rootKey nPaths calls))[i]? = some (args, slots) ∧
        (expectedWhenSent (runTrace P K rootKey nPaths calls))[i]? = some expected ∧
          call.key = K.bytes (chain K rootKey (i + expected)) ∧
            call.aad = constructAad (UInt64.ofNat i) args.messageId ∧
              Envelope.seal P args.coins.realCoins call.key args.payload call.aad =
                .ok call.envelope := by
  obtain ⟨i, expected, args, slots, hseals⟩ := exists_sealsMessage hencrypt K rootKey nPaths calls
    (fun message hmem slotIdx hlt => hkey ▸ hdecoys message hmem slotIdx hlt position hposition) h
  exact ⟨i, expected, args, slots, hseals.sent, hseals.whenSent, hseals.key, hseals.aad,
    hseals.sealed⟩

/-- The cipher is ideal for these envelopes: under one of the first chain keys and
the associated data it opens only what was sealed so. -/
def OpensOnlySealed (P : Primitives) (K : KeyOps κ) (rootKey : κ) (horizon : ℕ)
    (log : List SealCall) (envelopes : List Envelope) (aad : List UInt8) : Prop :=
  ∀ envelope ∈ envelopes, ∀ i ≤ horizon,
    (Envelope.open P (K.bytes (chain K rootKey i)) envelope aad).isOk = true →
      ⟨K.bytes (chain K rootKey i), aad, envelope⟩ ∈ log

instance (P : Primitives) (K : KeyOps κ) (rootKey : κ) (horizon : ℕ) (log : List SealCall)
    (envelopes : List Envelope) (aad : List UInt8) :
    Decidable (OpensOnlySealed P K rootKey horizon log envelopes aad) :=
  List.decidableBAll _ _

/-- **Authenticity.** A sender and a receiver start from one root key, the chain
keys up to `horizon` are distinct and no decoy is under one of them. Whatever
packets the receiver was given before, if it accepts number `q` with a payload and
the cipher is ideal for that packet, then the sender's message `q` has the
packet's id and that payload. -/
theorem accepted_was_sent {P : Primitives} (hencrypt : P.EncryptTotal)
    (hdecrypt : P.DecryptUndoes) (rootKey : RatchetKey) (nPaths : ℕ)
    (sends : List SendArgs) (receives : List ReceiveArgs) (args : ReceiveArgs)
    {payload : List UInt8} (horizon : ℕ)
    (hdistinct : ChainDistinct (RatchetKey.ops P) rootKey horizon)
    (hsends : sends.length ≤ horizon) (hseq : args.seq.toNat ≤ horizon)
    (hdecoys : ∀ sendArgs ∈ sends,
      FreshDecoys (RatchetKey.ops P) rootKey horizon nPaths sendArgs)
    (hideal : OpensOnlySealed P (RatchetKey.ops P) rootKey horizon
      (sealCalls P (RatchetKey.ops P)
        (runTrace P (RatchetKey.ops P) rootKey nPaths (sends.map Call.send)))
      args.envelopes (constructAad args.seq args.messageId))
    (haccept : ((runChannel P (RatchetKey.ops P) rootKey nPaths
      (receives.map Call.receive)).receive P (RatchetKey.ops P) args.now args.envelopes
        args.seq args.messageId).1 = .ok payload) :
    ∃ sendArgs slots,
      (sentMessages (runTrace P (RatchetKey.ops P) rootKey nPaths
          (sends.map Call.send)))[args.seq.toNat]? = some (sendArgs, slots) ∧
        sendArgs.messageId = args.messageId ∧ sendArgs.payload = payload := by
  set K := RatchetKey.ops P
  have hreceiver := ReceiverState.run P K rootKey nPaths receives
  have hsender := SenderState.run hencrypt K rootKey nPaths sends
  set channel := runChannel P K rootKey nPaths (receives.map Call.receive)
  -- The receiver opened an envelope under the chain key of the packet's number.
  obtain ⟨target, hsteps⟩ := authenticates_of_receive haccept
  have hkey := hreceiver.targetKey_eq hsteps.computeTargetKey
  obtain ⟨slotIdx, envelope, _, henvelope, hopen⟩ := hsteps.opens
  rw [hkey] at hopen
  have hlogged := hideal envelope (List.mem_of_getElem? henvelope) args.seq.toNat hseq
    (by rw [hopen]; rfl)
  -- So the sender sealed it for some message `i`.
  have hfresh : ∀ message ∈ sentMessages (runTrace P K rootKey nPaths (sends.map Call.send)),
      FreshDecoys K rootKey horizon nPaths message.1 := by
    intro message hmem
    obtain ⟨sendArgs, hargs, heq⟩ := List.mem_map.1 (send_mem_of_sentMessages hmem)
    cases heq
    exact hdecoys message.1 hargs
  obtain ⟨i, expected, sendArgs, slots, hsent, hn, hsealed, haad, hseal⟩ :=
    real_of_mem_sealCalls hencrypt K rootKey nPaths _ hfresh hseq rfl hlogged
  rw [hsender.expected_eq_zero hn, Nat.add_zero] at hsealed
  have hi : i ≤ horizon := by
    have hlt := (List.getElem?_eq_some_iff.1 hsent).1
    have hcount := length_sentMessages_le P K rootKey nPaths (sends.map Call.send)
    rw [List.length_map] at hcount
    exact hlt.le.trans (hcount.trans hsends)
  have hindex : args.seq.toNat = i :=
    hdistinct.index_eq hseq hi (congrArg RatchetKey.mk hsealed)
  subst hindex
  rw [UInt64.ofNat_toNat] at haad
  have hmessageId := (constructAad_inj.1 haad).2
  have hpayload := open_seal hdecrypt hseal
  rw [hopen] at hpayload
  exact ⟨sendArgs, slots, hsent, hmessageId.symm, (Except.ok.inj hpayload).symm⟩

/-- Number 1 arrives first, is accepted, and was sent. -/
theorem accepted_was_sent_first :
    let K := RatchetKey.ops counterPrimitives
    let sends := [counterSend [10] [1], counterSend [11] [2]]
    ∃ sendArgs slots,
      (sentMessages (runTrace counterPrimitives K (counterKey 0) 2 (sends.map Call.send)))[1]? =
          some (sendArgs, slots) ∧
        sendArgs.messageId = [2] ∧ sendArgs.payload = [11] :=
  accepted_was_sent counter_encryptTotal counter_decryptUndoes (counterKey 0) 2
    [counterSend [10] [1], counterSend [11] [2]] []
    ⟨⟨((counterPackets 2 [counterSend [10] [1], counterSend [11] [2]]).drop 1).flatMap
      Packet.envelopes, 1, [2]⟩, 0⟩ 2
    (counter_chainDistinct (by decide)) (by decide) (by decide) (by decide +kernel)
    (by decide +kernel) (by decide +kernel)

end NullPath
