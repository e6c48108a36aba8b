import NullPath.World.Basic

/-!
# Authenticity from the handshake on

Any number of parties run any number of handshakes and use the channels that come out
of them, while the adversary chooses all payloads, all packets and the order of
everything. The cipher is taken to be ideal for the packets that reach a channel of two
honest parties: they open only if some channel of the run sealed them.

Then what such a channel accepts was sent on one other channel, the one whose session
played the other role over the same transcript (`letters_from_the_peer`): nothing
comes from another session, of these parties or of others, and nothing comes twice.
-/

namespace NullPath

open Transition

variable {H : HandshakePrimitives} {P : Primitives}

/-- Both parties of the session are honest. -/
def OpenChannel.Protected (honest : VerifyingKey H.toKeyFormat → Prop) (c : OpenChannel H) :
    Prop :=
  honest c.ending.transcript.initiatorIdentityPub ∧ honest c.ending.transcript.responderIdentityPub

instance (honest : VerifyingKey H.toKeyFormat → Prop) [DecidablePred honest]
    (c : OpenChannel H) : Decidable (c.Protected honest) :=
  inferInstanceAs (Decidable (_ ∧ _))

/-- The cipher is ideal for what reaches a channel of honest parties: decoys so far are
not under one of its first chain keys, and under one of these the envelopes open only if
sealed so. -/
def IdealDelivery (P : Primitives) (honest : VerifyingKey H.toKeyFormat → Prop) (horizon : ℕ)
    (w : World H) : WorldCall H → Prop
  | .handshake _ _ => True
  | .channel _ (.send _) => True
  | .channel index (.receive args) =>
      ∀ c ∈ w.channels[index]?, c.Protected honest →
        (∀ d ∈ w.channels, ∀ message ∈ d.endpoint.sent,
          FreshDecoys (RatchetKey.ops P) c.key horizon d.nPaths message.1) ∧
        OpensOnlySealed P (RatchetKey.ops P) c.key horizon (w.sealLog P) args.envelopes
          (constructAad args.seq args.messageId)

instance IdealDelivery.decidable (P : Primitives) (honest : VerifyingKey H.toKeyFormat → Prop)
    [DecidablePred honest] (horizon : ℕ) (w : World H) :
    ∀ call, Decidable (IdealDelivery P honest horizon w call)
  | .handshake _ _ => isTrue trivial
  | .channel _ (.send _) => isTrue trivial
  | .channel index (.receive _) =>
      inferInstanceAs (Decidable (∀ c ∈ w.channels[index]?, c.Protected honest → _ ∧ _))

/-- The first key of each chain. -/
def World.rootKeys (w : World H) : Set RatchetKey := {key | ∃ c ∈ w.channels, c.key = key}

/-- No channel has come past a position up to which the chains neither repeat nor
meet. -/
structure WithinHorizon (P : Primitives) (horizon : ℕ) (w : World H) : Prop where
  reach : ∀ c ∈ w.channels, c.endpoint.reach ≤ horizon
  distinct : ChainsDistinct (RatchetKey.ops P) w.rootKeys horizon

/-! ## What a call does to a channel -/

/-- The channels stay in their places, with their sessions and numbers of paths, their
records grow, and none goes back along its chain. -/
theorem WorldEffect.grows {w w' : World H} {call : WorldCall H} (heffect : WorldEffect P w call w')
    {j : ℕ} {d : OpenChannel H} (hd : w.channels[j]? = some d) :
    ∃ d', w'.channels[j]? = some d' ∧ d'.session = d.session ∧
      sentLetters d.endpoint.events ⊆ sentLetters d'.endpoint.events ∧
        d.endpoint.reach ≤ d'.endpoint.reach ∧ d'.nPaths = d.nPaths := by
  cases heffect with
  | handshake call nPaths =>
      refine ⟨d, ?_, rfl, List.Subset.refl _, Nat.le_refl _, rfl⟩
      rw [World.handshake, List.getElem?_append_left (List.getElem?_eq_some_iff.1 hd).1]
      exact hd
  | noChannel index call hindex => exact ⟨d, hd, rfl, List.Subset.refl _, Nat.le_refl _, rfl⟩
  | channel index call c reply channel' hindex hstep =>
      by_cases hj : index = j
      · subst hj
        rw [hindex] at hd
        cases hd
        have hcall := callStep_effect P (RatchetKey.ops P) d.endpoint.channel call
        rw [hstep] at hcall
        refine ⟨d.record call reply channel', ?_, rfl, ?_, Endpoint.reach_le hcall, rfl⟩
        · exact List.getElem?_set_self (List.getElem?_eq_some_iff.1 hindex).1
        · exact (sentLetters_prefix_concat _ _).subset
      · exact ⟨d, (List.getElem?_set_ne hj).trans hd, rfl, List.Subset.refl _, Nat.le_refl _, rfl⟩

theorem WorldEffect.accepted_cases {w w' : World H} {call : WorldCall H}
    (heffect : WorldEffect P w call w') {i : ℕ} {c' : OpenChannel H}
    (hc' : w'.channels[i]? = some c') {letter : Letter}
    (hletter : letter ∈ acceptedLetters c'.endpoint.events) :
    ∃ c, w.channels[i]? = some c ∧ c.session = c'.session ∧
      (letter ∈ acceptedLetters c.endpoint.events ∨
        ∃ args target payload, call = .channel i (.receive args) ∧
          letter = ⟨args.seq, args.messageId, payload⟩ ∧
            Authenticates P (RatchetKey.ops P) c.endpoint.channel args.envelopes args.seq
                args.messageId target payload ∧
              c'.endpoint.reach = c.endpoint.sent.length +
                max (expectedSeq c.endpoint.channel.lastSeq) (args.seq.toNat + 1)) := by
  cases heffect with
  | handshake call nPaths =>
      rw [World.handshake] at hc'
      cases hending : ending? (event handshakeStep w.handshakes call) with
      | none =>
          rw [hending, Option.map_none, Option.toList_none, List.append_nil] at hc'
          exact ⟨c', hc', rfl, Or.inl hletter⟩
      | some ending =>
          rw [hending, Option.map_some, Option.toList_some] at hc'
          rcases getElem?_concat_cases hc' with hold | ⟨-, rfl⟩
          · exact ⟨c', hold, rfl, Or.inl hletter⟩
          · cases hletter
  | noChannel index call hindex => exact ⟨c', hc', rfl, Or.inl hletter⟩
  | channel index call c reply channel' hindex hstep =>
      by_cases hi : index = i
      · subst hi
        have hlt := (List.getElem?_eq_some_iff.1 hindex).1
        rw [World.record, List.getElem?_set_self hlt] at hc'
        cases hc'
        refine ⟨c, hindex, rfl, ?_⟩
        have hcall := callStep_effect P (RatchetKey.ops P) c.endpoint.channel call
        rw [hstep] at hcall
        rw [OpenChannel.record, Endpoint.record, acceptedLetters_concat] at hletter
        rcases List.mem_append.1 hletter with hold | hnew
        · exact Or.inl hold
        · right
          cases hcall with
          | opened args target payload hsteps =>
              exact ⟨args, target, payload, rfl, List.mem_singleton.1 hnew, hsteps,
                Endpoint.reach_record_opened _ hsteps.computeTargetKey⟩
          | _ => cases hnew
      · exact ⟨c', (List.getElem?_set_ne hi).symm.trans hc', rfl, Or.inl hletter⟩

theorem OpenChannel.key_of_session {c d : OpenChannel H} (h : c.session = d.session) :
    c.key = d.key :=
  congrArg (fun session : LastCall H × RootKey => (⟨session.2.bytes⟩ : RatchetKey)) h

theorem WithinHorizon.before {horizon : ℕ} {w w' : World H} {call : WorldCall H}
    (heffect : WorldEffect P w call w') (h : WithinHorizon P horizon w') :
    WithinHorizon P horizon w := by
  have hkeys : w.rootKeys ⊆ w'.rootKeys := by
    rintro _ ⟨c, hc, rfl⟩
    obtain ⟨i, hi⟩ := List.getElem?_of_mem hc
    obtain ⟨c', hc', hsession, -⟩ := heffect.grows hi
    exact ⟨c', List.mem_of_getElem? hc', OpenChannel.key_of_session hsession⟩
  constructor
  · intro c hc
    obtain ⟨i, hi⟩ := List.getElem?_of_mem hc
    obtain ⟨c', hc', -, -, hreach, -⟩ := heffect.grows hi
    exact hreach.trans (h.reach c' (List.mem_of_getElem? hc'))
  · exact h.distinct.mono hkeys

/-! ## Where accepted letters come from -/

/-- What a channel of honest parties has accepted was sent on other channels with its
root key. -/
def LettersFromOthers (honest : VerifyingKey H.toKeyFormat → Prop) (w : World H) : Prop :=
  ∀ (i : ℕ) c, w.channels[i]? = some c → c.Protected honest →
    ∀ letter ∈ acceptedLetters c.endpoint.events, ∃ (j : ℕ) (d : OpenChannel H), j ≠ i ∧
      w.channels[j]? = some d ∧ d.rootKey = c.rootKey ∧
        letter ∈ sentLetters d.endpoint.events

/-- An arrival that a channel authenticates was sent on another channel with its root
key. -/
theorem sender_of_arrival (hencrypt : P.EncryptTotal) (hdecrypt : P.DecryptUndoes)
    {w : World H} (hruns : ∀ c ∈ w.channels, c.OwnRun P) {horizon : ℕ}
    (hwithin : WithinHorizon P horizon w) {i : ℕ} {c : OpenChannel H}
    (hc : w.channels[i]? = some c) {args : ReceiveArgs} {target : Target RatchetKey}
    {payload : List UInt8}
    (hnext : c.endpoint.sent.length +
      max (expectedSeq c.endpoint.channel.lastSeq) (args.seq.toNat + 1) ≤ horizon)
    (hdecoys : ∀ d ∈ w.channels, ∀ message ∈ d.endpoint.sent,
      FreshDecoys (RatchetKey.ops P) c.key horizon d.nPaths message.1)
    (hideal : OpensOnlySealed P (RatchetKey.ops P) c.key horizon (w.sealLog P) args.envelopes
      (constructAad args.seq args.messageId))
    (hsteps : Authenticates P (RatchetKey.ops P) c.endpoint.channel args.envelopes args.seq
      args.messageId target payload) :
    ∃ (j : ℕ) (d : OpenChannel H), j ≠ i ∧ w.channels[j]? = some d ∧ d.rootKey = c.rootKey ∧
      ⟨args.seq, args.messageId, payload⟩ ∈ sentLetters d.endpoint.events := by
  obtain ⟨hlt, rfl⟩ := List.getElem?_eq_some_iff.1 hc
  let channelAt : Fin w.channels.length → OpenChannel H := w.channels.get
  have hkeys : (Set.range fun k => (channelAt k).key) ⊆ w.rootKeys := by
    rintro _ ⟨k, rfl⟩
    exact ⟨channelAt k, List.get_mem _ _, rfl⟩
  have hlog : ∀ call ∈ w.sealLog P, ∃ k,
      call ∈ sealCalls P (RatchetKey.ops P) (channelAt k).endpoint.events := by
    intro call hcall
    obtain ⟨d, hd, hsealed⟩ := List.mem_flatMap.1 hcall
    obtain ⟨k, rfl⟩ := List.get_of_mem hd
    exact ⟨k, hsealed⟩
  have hrunsAt : ∀ k, (channelAt k).endpoint.OwnRun P (RatchetKey.ops P) (channelAt k).key
      (channelAt k).nPaths := fun k => hruns _ (List.get_mem _ k)
  obtain ⟨k, hother, hkey, slotIdx, envelope, number, expected, sendArgs, slots, -, -, hopen, -,
    -, hseals⟩ := exists_sealer hencrypt (fun _ _ => congrArg RatchetKey.mk) hrunsAt
      (hwithin.distinct.mono hkeys) (fun k => hwithin.reach _ (List.get_mem _ k))
      (i := ⟨i, hlt⟩) hnext (fun k => hdecoys _ (List.get_mem _ k)) hlog hideal hsteps
  obtain ⟨hseq, hmessageId, hpayload⟩ := hseals.message_of_open hdecrypt rfl hopen
  have hmem := mem_sentLetters hseals.sent
  rw [hmessageId, hpayload, ← hseq] at hmem
  have hroot : (channelAt k).rootKey = w.channels[i].rootKey :=
    congrArg (fun key : RatchetKey => (⟨key.bytes⟩ : RootKey)) hkey
  exact ⟨k, channelAt k, fun heq => hother (Fin.ext heq), List.getElem?_eq_getElem k.isLt, hroot,
    hmem⟩

/-- A call keeps it so when the cipher is ideal for it. -/
theorem LettersFromOthers.step (hencrypt : P.EncryptTotal) (hdecrypt : P.DecryptUndoes)
    {honest : VerifyingKey H.toKeyFormat → Prop} {w w' : World H} {call : WorldCall H}
    (heffect : WorldEffect P w call w') (hruns : ∀ c ∈ w.channels, c.OwnRun P) {horizon : ℕ}
    (hwithin : WithinHorizon P horizon w') (hideal : IdealDelivery P honest horizon w call)
    (h : LettersFromOthers honest w) : LettersFromOthers honest w' := by
  intro i c' hc' hprotected letter hletter
  obtain ⟨c, hc, hsession, hcases⟩ := heffect.accepted_cases hc' hletter
  have hending : c.ending = c'.ending := congrArg Prod.fst hsession
  have hroot : c.rootKey = c'.rootKey := congrArg Prod.snd hsession
  rw [OpenChannel.Protected, ← hending] at hprotected
  have hsender : ∃ (j : ℕ) (d : OpenChannel H), j ≠ i ∧ w.channels[j]? = some d ∧
      d.rootKey = c.rootKey ∧ letter ∈ sentLetters d.endpoint.events := by
    rcases hcases with hold | ⟨args, target, payload, rfl, rfl, hsteps, hreach⟩
    · exact h i c hc hprotected letter hold
    · obtain ⟨hdecoys, hopens⟩ := hideal c hc hprotected
      have hnext := hreach.symm.trans_le (hwithin.reach c' (List.mem_of_getElem? hc'))
      exact sender_of_arrival hencrypt hdecrypt hruns (hwithin.before heffect) hc hnext hdecoys
        hopens hsteps
  obtain ⟨j, d, hj, hd, hkey, hsent⟩ := hsender
  obtain ⟨d', hd', hsame, hgrows, -⟩ := heffect.grows hd
  exact ⟨j, d', hj, hd', (congrArg Prod.snd hsame).trans (hkey.trans hroot), hgrows hsent⟩

theorem lettersFromOthers_run (hencrypt : P.EncryptTotal) (hdecrypt : P.DecryptUndoes)
    {honest : VerifyingKey H.toKeyFormat → Prop} {calls : List (WorldCall H)} {horizon : ℕ}
    (hwithin : WithinHorizon P horizon (runWorld P calls))
    (hideal : Follows (worldStep P) (IdealDelivery P honest horizon) World.empty calls) :
    LettersFromOthers honest (runWorld P calls) := by
  refine (follows_induction (worldStep P) (motive := fun _ w =>
    (∀ c ∈ w.channels, c.OwnRun P) ∧ (WithinHorizon P horizon w → LettersFromOthers honest w))
    World.empty ⟨fun c hc => ?_, fun _ i c hc => ?_⟩ ?_ calls hideal).2 hwithin
  · cases hc
  · cases hc
  · intro past w call hpast hcall
    have heffect := worldStep_effect P w call
    refine ⟨own_runs_step heffect hpast.1, fun hafter => ?_⟩
    exact (hpast.2 (hafter.before heffect)).step hencrypt hdecrypt heffect hpast.1 hafter hcall

/-! ## The peer of a channel -/

/-- The peer of a channel, in the world: the one other channel with its root key. -/
structure PeerOf (w : World H) (i : ℕ) (c : OpenChannel H) (j : ℕ) (d : OpenChannel H) :
    Prop where
  ne : j ≠ i
  channel : w.channels[j]? = some d
  rootKey : d.rootKey = c.rootKey
  pairs : c.ending.Pairs d.ending
  only : ∀ (k : ℕ) e, w.channels[k]? = some e → e.rootKey = c.rootKey → k = i ∨ k = j

theorem session_of_channel {calls : List (WorldCall H)} {i : ℕ} {c : OpenChannel H}
    (hc : (runWorld P calls).channels[i]? = some c) :
    (endings (handshakeTrace (handshakeCalls calls)))[i]? = some c.session := by
  rw [← sessions_run P calls, List.getElem?_map, hc]
  rfl

theorem peerOf_of_rootKey {calls : List (WorldCall H)}
    (hkdf : H.CollisionFree {input | input ∈ derivedInputs (handshakeCalls calls)})
    (hfresh : FreshCoins (handshakeCalls calls)) (hanswers : FreshAnswers (handshakeCalls calls))
    {i j : ℕ} {c d : OpenChannel H} (hne : j ≠ i)
    (hc : (runWorld P calls).channels[i]? = some c)
    (hd : (runWorld P calls).channels[j]? = some d) (hkey : d.rootKey = c.rootKey) :
    PeerOf (runWorld P calls) i c j d := by
  have hpair : ∀ {k k' : ℕ} {e e' : OpenChannel H}, k ≠ k' →
      (runWorld P calls).channels[k]? = some e → (runWorld P calls).channels[k']? = some e' →
        e.rootKey = e'.rootKey → e.ending.Pairs e'.ending := by
    intro k k' e e' hk he he' hsame
    exact pair_of_endings hkdf hfresh hanswers hk (session_of_channel he)
      (session_of_channel he') hsame
  have hpeer : c.ending.Pairs d.ending := hpair hne.symm hc hd hkey.symm
  refine ⟨hne, hd, hkey, hpeer, fun k e he hroot => ?_⟩
  -- A third channel would share its role with one of the two.
  by_contra hother
  obtain ⟨hi, hj⟩ := not_or.1 hother
  exact hpeer.not_third (hpair hi he hc hroot) (hpair hj he hd (hroot.trans hkey.symm))

/-- The channel of an initiator has a peer, and so has a channel that has accepted
something. -/
theorem exists_peerOf (hdh : H.DhCommutes) {honest : VerifyingKey H.toKeyFormat → Prop}
    {calls : List (WorldCall H)}
    (hkdf : H.CollisionFree {input | input ∈ derivedInputs (handshakeCalls calls)})
    (hunforged : UnforgedRun honest (handshakeCalls calls))
    (hfresh : FreshCoins (handshakeCalls calls)) (hanswers : FreshAnswers (handshakeCalls calls))
    (hletters : LettersFromOthers honest (runWorld P calls)) {i : ℕ} {c : OpenChannel H}
    (hc : (runWorld P calls).channels[i]? = some c) (hprotected : c.Protected honest)
    (hused : c.ending.isRespond = false ∨ acceptedLetters c.endpoint.events ≠ []) :
    ∃ (j : ℕ) (d : OpenChannel H), PeerOf (runWorld P calls) i c j d := by
  rcases hused with hinitiator | haccepted
  · obtain ⟨j, call, hj, hending⟩ := answered_ending hdh hunforged (session_of_channel hc)
      hinitiator hprotected.2
    rw [← sessions_run P calls, List.getElem?_map] at hending
    obtain ⟨d, hd, hsession⟩ := Option.map_eq_some_iff.1 hending
    exact ⟨j, d, peerOf_of_rootKey hkdf hfresh hanswers (Nat.ne_of_lt hj) hc hd
      (congrArg Prod.snd hsession)⟩
  · obtain ⟨letter, hletter⟩ := List.exists_mem_of_ne_nil _ haccepted
    obtain ⟨j, d, hj, hd, hkey, -⟩ := hletters i c hc hprotected letter hletter
    exact ⟨j, d, peerOf_of_rootKey hkdf hfresh hanswers hj hc hd hkey⟩

theorem PeerOf.accepted_subperm (hencrypt : P.EncryptTotal)
    {honest : VerifyingKey H.toKeyFormat → Prop} {w : World H}
    (hruns : ∀ c ∈ w.channels, c.OwnRun P) (hletters : LettersFromOthers honest w) {i j : ℕ}
    {c d : OpenChannel H} (hpeer : PeerOf w i c j d) (hc : w.channels[i]? = some c)
    (hprotected : c.Protected honest) :
    (acceptedLetters c.endpoint.events).Subperm (sentLetters d.endpoint.events) := by
  refine List.subperm_of_subset ?_ fun letter hletter => ?_
  · refine List.Nodup.of_map Letter.seq ?_
    rw [map_seq_acceptedLetters]
    exact ((hruns c (List.mem_of_getElem? hc)).sentState hencrypt).endpoint.books.nodup
  · obtain ⟨k, e, hk, he, hroot, hsent⟩ := hletters i c hc hprotected letter hletter
    obtain rfl := (hpeer.only k e he hroot).resolve_left hk
    rw [hpeer.channel] at he
    cases he
    exact hsent

/-- **Authenticity from the handshake on.** The adversary chooses all payloads, packets
and the order of all calls. A channel of two honest parties that an initiator opened, or
that has accepted anything, has a peer: the channel of the session that played the other
role over the same transcript, and no third channel of the run has the root key. What the
channel has accepted its peer has sent, each message once. -/
theorem letters_from_the_peer (hencrypt : P.EncryptTotal) (hdecrypt : P.DecryptUndoes)
    (hdh : H.DhCommutes) (honest : VerifyingKey H.toKeyFormat → Prop) (calls : List (WorldCall H))
    (hkdf : H.CollisionFree {input | input ∈ derivedInputs (handshakeCalls calls)})
    (hunforged : UnforgedRun honest (handshakeCalls calls))
    (hfresh : FreshCoins (handshakeCalls calls)) (hanswers : FreshAnswers (handshakeCalls calls))
    (horizon : ℕ) (hwithin : WithinHorizon P horizon (runWorld P calls))
    (hideal : Follows (worldStep P) (IdealDelivery P honest horizon) World.empty calls)
    (i : ℕ) (c : OpenChannel H) (hc : (runWorld P calls).channels[i]? = some c)
    (hprotected : c.Protected honest)
    (hused : c.ending.isRespond = false ∨ acceptedLetters c.endpoint.events ≠ []) :
    ∃ (j : ℕ) (d : OpenChannel H), PeerOf (runWorld P calls) i c j d ∧
      (acceptedLetters c.endpoint.events).Subperm (sentLetters d.endpoint.events) := by
  have hletters := lettersFromOthers_run hencrypt hdecrypt hwithin hideal
  obtain ⟨j, d, hpeer⟩ := exists_peerOf hdh hkdf hunforged hfresh hanswers hletters hc hprotected
    hused
  exact ⟨j, d, hpeer,
    hpeer.accepted_subperm hencrypt (own_runs P calls) hletters hc hprotected⟩

/-! ## Two sessions of the same parties -/

/-- Two parties run two handshakes: channels 0 and 1 are the responder's, channels 2 and 3
the initiator's. -/
def twoSessions : List (WorldCall modularPrimitives) :=
  let initiator := modularKey 7
  let responder := modularKey 8
  let opening (coins : HandshakeCoins) :=
    (initiate modularPrimitives initiator (responder.verifyingKey modularPrimitives) coins).2
  let first := opening (modularCoins 3)
  let second := opening (modularCoins 4)
  [.handshake (.initiate initiator (responder.verifyingKey modularPrimitives)
      (modularCoins 3)) 0,
    .handshake (.initiate initiator (responder.verifyingKey modularPrimitives)
      (modularCoins 4)) 0,
    .handshake (.respond responder none first (modularCoins 5)) 2,
    .handshake (.respond responder none second (modularCoins 6)) 2,
    .handshake (.finalize 0 (responsePayload responder first (modularCoins 5))) 2,
    .handshake (.finalize 1 (responsePayload responder second (modularCoins 6))) 2]

/-- A message of the first session goes to every channel, and to its own a second time. -/
def misdeliveredCalls : List (WorldCall modularPrimitives) :=
  let sends := twoSessions ++ [.channel 2 (.send (counterSend [10] [1]))]
  let packets := (runWorld counterPrimitives sends).channels.flatMap fun c => c.endpoint.packets
  sends ++ [1, 2, 3, 0, 0].flatMap fun index =>
    packets.map fun packet => .channel index (.receive (packet.arrive 0))

theorem withinHorizon_of_forall {horizon : ℕ} {w : World H}
    (hreach : ∀ c ∈ w.channels, c.endpoint.reach ≤ horizon)
    (hdistinct : ∀ c ∈ w.channels, ∀ d ∈ w.channels, ∀ i ≤ horizon, ∀ j ≤ horizon,
      chain (RatchetKey.ops P) c.key i = chain (RatchetKey.ops P) d.key j →
        c.key = d.key ∧ i = j) :
    WithinHorizon P horizon w := by
  refine ⟨hreach, ?_⟩
  rintro _ ⟨c, hc, rfl⟩ _ ⟨d, hd, rfl⟩
  exact hdistinct c hc d hd

theorem misdelivered_withinHorizon :
    WithinHorizon counterPrimitives 2 (runWorld counterPrimitives misdeliveredCalls) :=
  withinHorizon_of_forall (by decide +kernel) (by decide +kernel)

theorem misdelivered_ideal : Follows (worldStep counterPrimitives)
    (IdealDelivery counterPrimitives (fun _ => True) 2) World.empty misdeliveredCalls := by
  decide +kernel

/-- The message is accepted on one channel, and its sender is the peer. -/
theorem letters_from_the_peer_misdelivered :
    ∃ (c d : OpenChannel modularPrimitives) (j : ℕ),
      (runWorld counterPrimitives misdeliveredCalls).channels[0]? = some c ∧
        PeerOf (runWorld counterPrimitives misdeliveredCalls) 0 c j d ∧
          acceptedLetters c.endpoint.events ≠ [] ∧
            (acceptedLetters c.endpoint.events).Subperm (sentLetters d.endpoint.events) := by
  obtain ⟨c, hc⟩ : ∃ c, (runWorld counterPrimitives misdeliveredCalls).channels[0]? = some c :=
    Option.isSome_iff_exists.1 (by decide +kernel)
  have haccepted : ∀ c ∈ (runWorld counterPrimitives misdeliveredCalls).channels[0]?,
      acceptedLetters c.endpoint.events ≠ [] := by
    decide +kernel
  obtain ⟨j, d, hpeer, hletters⟩ := letters_from_the_peer counter_encryptTotal
    counter_decryptUndoes modular_dhCommutes (fun _ => True) misdeliveredCalls
    (collisionFree_of_forall (by decide +kernel)) (by decide +kernel)
    (by unfold FreshCoins; decide +kernel) (by unfold FreshAnswers; decide +kernel) 2
    misdelivered_withinHorizon misdelivered_ideal 0 c hc ⟨trivial, trivial⟩
    (Or.inr (haccepted c hc))
  exact ⟨c, d, j, hc, hpeer, haccepted c hc, hletters⟩

end NullPath
