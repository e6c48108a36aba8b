import NullPath.Session.Duplex
import NullPath.Session.Sealer

/-!
# Authenticity in both directions

Both parties of a session send and receive under the keys of one chain, in any
interleaving, and the network may hand them any packets. Under an ideal cipher a
party accepts number `q` only from its peer, as the peer's message `q` and once: its
own messages do not come back to it, since it does not open with a position it
sealed at, and the messages of the peer bring their numbers with them.
-/

namespace NullPath

open Transition

variable {κ : Type*} {P : Primitives} {K : KeyOps κ} {rootKey : κ} {nPaths : ℕ}

theorem reach_le_record {s : Session κ} {p : Party} {call : Call}
    {reply : Reply} {channel' : SecureChannel κ}
    (heffect : CallEffect P K (s p).channel call reply channel') (q : Party) :
    (s q).reach ≤ (s.record p call reply channel' q).reach := by
  rcases Party.eq_or_eq_peer q p with rfl | rfl
  · rw [record_self]
    exact Endpoint.reach_le heffect
  · rw [record_peer]

namespace OwnRuns

variable {s : Session κ}

/-- Under an ideal cipher, what opens was sealed by the peer, at the position that it
opens at. -/
theorem exists_peer_message (hencrypt : P.EncryptTotal) (hbytes : Function.Injective K.bytes)
    (h : OwnRuns P K rootKey nPaths s) {horizon : ℕ}
    (hdistinct : ChainDistinct K rootKey horizon) {p : Party} {args : ReceiveArgs}
    {target : Target κ} {payload : List UInt8} (hreach : ∀ q, (s q).reach ≤ horizon)
    (hnext : (s p).sent.length + max (expectedSeq (s p).channel.lastSeq) (args.seq.toNat + 1) ≤
      horizon)
    (hideal : IdealArrival P K rootKey horizon nPaths s ⟨p, .receive args⟩)
    (hsteps : Authenticates P K (s p).channel args.envelopes args.seq args.messageId target
      payload) :
    ∃ slotIdx envelope i expected sendArgs slots,
      selectSlot P (K.bytes target.targetKey).toList args.messageId (s p).channel.nPaths =
          .ok slotIdx ∧
        args.envelopes[slotIdx]? = some envelope ∧
          Envelope.open P (K.bytes target.targetKey) envelope
              (constructAad args.seq args.messageId) = .ok payload ∧
            target.targetKey = chain K rootKey (i + expected) ∧ i + expected ≤ horizon ∧
              SealsMessage P K rootKey nPaths (s p.peer).events
                ⟨K.bytes target.targetKey, constructAad args.seq args.messageId, envelope⟩
                i expected sendArgs slots := by
  have hchains : ChainsDistinct K (Set.range fun _ : Party => rootKey) horizon :=
    hdistinct.chainsDistinct fun r hr => hr.choose_spec.symm
  have hdecoys : ∀ q, ∀ message ∈ (s q).sent, FreshDecoys K rootKey horizon nPaths message.1 := by
    intro q message hmem
    refine hideal.1 message ?_
    cases q with
    | a => exact List.mem_append_left _ hmem
    | b => exact List.mem_append_right _ hmem
  have hlog : ∀ call ∈ s.sealLog P K, ∃ q, call ∈ sealCalls P K (s q).events := by
    intro call hmem
    rcases List.mem_append.1 hmem with hmem | hmem
    · exact ⟨.a, hmem⟩
    · exact ⟨.b, hmem⟩
  obtain ⟨q, hother, -, slotIdx, envelope, i, expected, sendArgs, slots, hsealer⟩ :=
    exists_sealer hencrypt hbytes h hchains hreach hnext hdecoys hlog hideal.2 hsteps
  rw [(Party.eq_or_eq_peer q p).resolve_left hother] at hsealer
  exact ⟨slotIdx, envelope, i, expected, sendArgs, slots, hsealer⟩

/-- What a party accepts under an ideal cipher is a message of its peer. -/
theorem authentic (hencrypt : P.EncryptTotal) (hdecrypt : P.DecryptUndoes)
    (hbytes : Function.Injective K.bytes) (h : OwnRuns P K rootKey nPaths s) {horizon : ℕ}
    (hdistinct : ChainDistinct K rootKey horizon) {p : Party} {args : ReceiveArgs}
    {target : Target κ} {payload : List UInt8} (hreach : ∀ q, (s q).reach ≤ horizon)
    (hnext : (s p).sent.length + max (expectedSeq (s p).channel.lastSeq) (args.seq.toNat + 1) ≤
      horizon)
    (hideal : IdealArrival P K rootKey horizon nPaths s ⟨p, .receive args⟩)
    (hsteps : Authenticates P K (s p).channel args.envelopes args.seq args.messageId target
      payload) :
    ⟨args.seq, args.messageId, payload⟩ ∈ sentLetters (s p.peer).events := by
  obtain ⟨slotIdx, envelope, i, expected, sendArgs, slots, -, -, hopen, -, -, hseals⟩ :=
    h.exists_peer_message hencrypt hbytes hdistinct hreach hnext hideal hsteps
  obtain ⟨hseq, hmessageId, hpayload⟩ := hseals.message_of_open hdecrypt rfl hopen
  have hmem := mem_sentLetters hseals.sent
  rwa [hmessageId, hpayload, ← hseq] at hmem

end OwnRuns

theorem OwnRuns.run (P : Primitives) (K : KeyOps κ) (rootKey : κ) (nPaths : ℕ)
    (moves : List Move) : OwnRuns P K rootKey nPaths (runSession P K rootKey nPaths moves) := by
  have hkeeps : Keeps P K rootKey nPaths (fun _ _ => True) moves :=
    follows_of_forall _ _ fun _ _ => trivial
  refine session_induction (motive := fun _ s => OwnRuns P K rootKey nPaths s)
    (OwnRuns.new P K rootKey nPaths) ?_ moves hkeeps
  intro past s p call reply channel' hruns _ _ hstep _
  exact hruns.record hstep

/-- In every state of a run under an ideal cipher, what a party has accepted its peer
has sent. -/
theorem acceptedLetters_subset (hencrypt : P.EncryptTotal) (hdecrypt : P.DecryptUndoes)
    (hbytes : Function.Injective K.bytes) {horizon : ℕ}
    (hdistinct : ChainDistinct K rootKey horizon) (moves : List Move)
    (hideal : Keeps P K rootKey nPaths (IdealArrival P K rootKey horizon nPaths) moves)
    (hreach : ∀ p, (runSession P K rootKey nPaths moves p).reach ≤ horizon) (p : Party) :
    acceptedLetters (runSession P K rootKey nPaths moves p).events ⊆
      sentLetters (runSession P K rootKey nPaths moves p.peer).events := by
  refine session_induction (motive := fun _ s => (∀ q, (s q).reach ≤ horizon) →
    ∀ q, acceptedLetters (s q).events ⊆ sentLetters (s q.peer).events) ?_ ?_ moves hideal hreach p
  · intro _ q letter hmem
    cases hmem
  intro past s p call reply channel' hruns hpast hrule _ heffect hreach q
  have hbefore : ∀ q, (s q).reach ≤ horizon := fun q =>
    (reach_le_record heffect q).trans (hreach q)
  have hold := hpast hbefore
  rcases Party.eq_or_eq_peer q p with rfl | rfl
  · rw [record_peer, record_self, acceptedLetters_concat]
    refine List.append_subset.2 ⟨hold q, ?_⟩
    cases heffect with
    | opened args target payload hsteps =>
        have hnext := hreach q
        rw [record_self] at hnext
        have hletter := hruns.authentic hencrypt hdecrypt hbytes hdistinct hbefore
          ((Endpoint.reach_record_opened _ hsteps.computeTargetKey).symm.trans_le hnext) hrule
          hsteps
        exact fun letter hmem => List.mem_singleton.1 hmem ▸ hletter
    | _ => exact List.nil_subset _
  · rw [record_peer, record_peer_peer]
    have hpeer := hold p.peer
    rw [Party.peer_peer] at hpeer
    exact List.Subset.trans hpeer (sentLetters_prefix_concat _ _).subset

/-- **Authenticity in both directions.** The parties send and receive in any
interleaving and any packets arrive. Under an ideal cipher and over a chain without
repetitions as far as the parties come, what a party has accepted is, in every state,
part of what its peer has sent, each message once. -/
theorem accepted_subperm_sent {P : Primitives} (hencrypt : P.EncryptTotal)
    (hdecrypt : P.DecryptUndoes) (rootKey : RatchetKey) (nPaths : ℕ) (moves : List Move)
    (horizon : ℕ) (hdistinct : ChainDistinct (RatchetKey.ops P) rootKey horizon)
    (hreach : ∀ p, (runSession P (RatchetKey.ops P) rootKey nPaths moves p).reach ≤ horizon)
    (hideal : Keeps P (RatchetKey.ops P) rootKey nPaths
      (IdealArrival P (RatchetKey.ops P) rootKey horizon nPaths) moves) (p : Party) :
    (acceptedLetters (runSession P (RatchetKey.ops P) rootKey nPaths moves p).events).Subperm
      (sentLetters (runSession P (RatchetKey.ops P) rootKey nPaths moves p.peer).events) := by
  set K := RatchetKey.ops P
  have hsubset := acceptedLetters_subset hencrypt hdecrypt
    (fun _ _ => congrArg RatchetKey.mk) hdistinct moves hideal hreach p
  refine List.subperm_of_subset (List.Nodup.of_map Letter.seq ?_) hsubset
  have hruns := OwnRuns.run P K rootKey nPaths moves
  rw [map_seq_acceptedLetters]
  exact (hruns.endpointState hencrypt p).books.nodup

/-- Two messages are answered; the first two packets arrive twice and the answer comes
back to its sender. -/
theorem accepted_subperm_sent_reflected :
    let K := RatchetKey.ops counterPrimitives
    let burst : List Move :=
      [⟨.a, .send (counterSend [10] [1])⟩, ⟨.a, .send (counterSend [11] [2])⟩]
    let answer := thenReceive burst .b 0 ++ [⟨.b, .send (counterSend [12] [3])⟩]
    let reflected := (runSession counterPrimitives K (counterKey 0) 2 answer .b).packets.map
      fun packet => ⟨.b, .receive (packet.arrive 0)⟩
    let moves := thenReceive answer .b 0 ++ reflected
    (acceptedLetters (runSession counterPrimitives K (counterKey 0) 2 moves .b).events).Subperm
      (sentLetters (runSession counterPrimitives K (counterKey 0) 2 moves .a).events) := by
  intro K burst answer reflected moves
  exact accepted_subperm_sent counter_encryptTotal counter_decryptUndoes (counterKey 0) 2 moves 4
    (counter_chainDistinct (by decide)) (fun p => by cases p <;> decide +kernel)
    (by decide +kernel) .b

end NullPath
