import NullPath.Session.Progress
import NullPath.Transition.Refinement
import NullPath.World.Authenticity

/-!
# Peers run a session

Two channels of the world with one root key and one number of paths are the endpoints of
a session (`World.pair`): the calls on them, in the order in which the world takes them,
are its moves (`pairMoves`), and the session they lead to is where the channels are. What
else happens in the world does not touch it.

When no third channel has the root key and the cipher is ideal for what reaches the two,
it is ideal for the session as well: what opens on one of them was sealed on one of them.
So what holds of every session holds of a channel and its peer.
-/

namespace NullPath

open Transition

variable {H : HandshakePrimitives} {P : Primitives} {key : RatchetKey} {nPaths i j : ℕ}

/-- The channel that a party of the pair uses. -/
def seat (i j : ℕ) : Party → ℕ
  | .a => i
  | .b => j

/-- The party of the pair that uses a channel. -/
def partyAt (i j index : ℕ) : Option Party :=
  if index = i then some .a else if index = j then some .b else none

theorem seat_of_partyAt {index : ℕ} {p : Party} (h : partyAt i j index = some p) :
    seat i j p = index := by
  unfold partyAt at h
  split_ifs at h with hi hj
  · cases h
    exact hi.symm
  · cases h
    exact hj.symm

theorem seat_ne_of_partyAt {index : ℕ} (h : partyAt i j index = none) (p : Party) :
    seat i j p ≠ index := by
  unfold partyAt at h
  split_ifs at h with hi hj
  cases p with
  | a => exact Ne.symm hi
  | b => exact Ne.symm hj

theorem partyAt_seat (hij : i ≠ j) (p : Party) : partyAt i j (seat i j p) = some p := by
  cases p with
  | a => exact if_pos rfl
  | b => exact (if_neg hij.symm).trans (if_pos rfl)

theorem seat_injective (hij : i ≠ j) : Function.Injective (seat i j) := by
  intro p q h
  have hp := partyAt_seat hij p
  rw [h, partyAt_seat hij q] at hp
  exact (Option.some.inj hp).symm

/-- The endpoint of a channel; before it is opened, that of a fresh one. -/
def World.endpointAt (key : RatchetKey) (nPaths : ℕ) (w : World H) (index : ℕ) :
    Endpoint RatchetKey :=
  (w.channels[index]?.map OpenChannel.endpoint).getD ⟨SecureChannel.new key nPaths, []⟩

/-- Two channels of the world as a session. -/
def World.pair (key : RatchetKey) (nPaths i j : ℕ) (w : World H) : Session RatchetKey :=
  fun p => w.endpointAt key nPaths (seat i j p)

/-- The move of the pair that a call is. -/
def pairMove? (i j : ℕ) (w : World H) : WorldCall H → Option Move
  | .handshake _ _ => none
  | .channel index call => do
      let _ ← w.channels[index]?
      let p ← partyAt i j index
      some ⟨p, call⟩

/-- The moves of the pair in a run of the world. -/
def pairMoves (P : Primitives) (i j : ℕ) (calls : List (WorldCall H)) : List Move :=
  answers (worldStep P) (pairMove? i j) World.empty calls

theorem World.endpointAt_of_some {w : World H} {index : ℕ} {c : OpenChannel H}
    (h : w.channels[index]? = some c) : w.endpointAt key nPaths index = c.endpoint := by
  rw [World.endpointAt, h]
  rfl

theorem World.endpointAt_of_none {w : World H} {index : ℕ} (h : w.channels[index]? = none) :
    w.endpointAt key nPaths index = ⟨SecureChannel.new key nPaths, []⟩ := by
  rw [World.endpointAt, h]
  rfl

theorem World.channel_of_endpointAt_sent {w : World H} {index : ℕ}
    {message : SendArgs × List Envelope} (h : message ∈ (w.endpointAt key nPaths index).sent) :
    ∃ c, w.channels[index]? = some c ∧ message ∈ c.endpoint.sent := by
  cases hindex : w.channels[index]? with
  | none =>
      rw [World.endpointAt_of_none hindex] at h
      cases h
  | some c =>
      rw [World.endpointAt_of_some hindex] at h
      exact ⟨c, rfl, h⟩

/-- The pair's channels, once they are opened, are over one first key and one number of
paths. -/
def Seated (key : RatchetKey) (nPaths i j : ℕ) (w : World H) : Prop :=
  ∀ p c, w.channels[seat i j p]? = some c → c.key = key ∧ c.nPaths = nPaths

theorem Seated.before {w w' : World H} {call : WorldCall H} (heffect : WorldEffect P w call w')
    (h : Seated key nPaths i j w') : Seated key nPaths i j w := by
  intro p c hc
  obtain ⟨c', hc', hsession, -, -, hpaths⟩ := heffect.grows hc
  obtain ⟨hkey, hnPaths⟩ := h p c' hc'
  exact ⟨(OpenChannel.key_of_session hsession).symm.trans hkey, hpaths.symm.trans hnPaths⟩

/-! ## The moves of the pair -/

theorem endpointAt_handshake {w : World H} {call : HandshakeCall H} {paths index : ℕ}
    (hseated : ∀ c, (w.handshake call paths).channels[index]? = some c →
      c.key = key ∧ c.nPaths = nPaths) :
    (w.handshake call paths).endpointAt key nPaths index = w.endpointAt key nPaths index := by
  rw [World.handshake] at hseated ⊢
  cases hending : ending? (event handshakeStep w.handshakes call) with
  | none =>
      rw [Option.map_none, Option.toList_none, List.append_nil]
      rfl
  | some ending =>
      rw [hending, Option.map_some, Option.toList_some] at hseated
      rw [Option.map_some, Option.toList_some]
      cases hindex : (w.channels ++ [OpenChannel.new paths ending])[index]? with
      | none =>
          have hlen := List.getElem?_eq_none_iff.1 hindex
          rw [List.length_append] at hlen
          rw [World.endpointAt_of_none hindex,
            World.endpointAt_of_none (List.getElem?_eq_none ((Nat.le_add_right _ _).trans hlen))]
      | some c =>
          obtain ⟨hkey, hpaths⟩ := hseated c hindex
          rw [World.endpointAt_of_some hindex]
          rcases getElem?_concat_cases hindex with hold | ⟨rfl, rfl⟩
          · rw [World.endpointAt_of_some hold]
          · rw [World.endpointAt_of_none (List.getElem?_eq_none (Nat.le_refl _)), ← hkey, ← hpaths]
            rfl

theorem pair_step (hij : i ≠ j) {w : World H} {call : WorldCall H}
    (hseated : Seated key nPaths i j (worldStep P w call).2) :
    (worldStep P w call).2.pair key nPaths i j =
      final (moveStep P (RatchetKey.ops P)) (w.pair key nPaths i j)
        (pairMove? i j w call).toList := by
  have heffect := worldStep_effect P w call
  generalize (worldStep P w call).2 = w' at heffect hseated ⊢
  cases heffect with
  | handshake call paths =>
      funext p
      exact endpointAt_handshake (hseated p)
  | noChannel index call hindex =>
      rw [pairMove?, hindex]
      rfl
  | channel index call c reply channel' hindex hstep =>
      have hlt := (List.getElem?_eq_some_iff.1 hindex).1
      have hother : ∀ k, k ≠ index →
          (w.record index c call reply channel').endpointAt key nPaths k =
            w.endpointAt key nPaths k := by
        intro k hk
        exact congrArg (fun found => (Option.map OpenChannel.endpoint found).getD _)
          (List.getElem?_set_ne hk.symm)
      rw [pairMove?, hindex]
      cases hparty : partyAt i j index with
      | none =>
          funext p
          exact hother _ (seat_ne_of_partyAt hparty p)
      | some p =>
          obtain rfl := seat_of_partyAt hparty
          have hself : w.pair key nPaths i j p = c.endpoint := World.endpointAt_of_some hindex
          change _ = (moveStep P (RatchetKey.ops P) (w.pair key nPaths i j) ⟨p, call⟩).2
          rw [← hself] at hstep
          rw [snd_moveStep hstep]
          funext q
          rcases Party.eq_or_eq_peer q p with rfl | rfl
          · have hset : (w.record (seat i j q) c call reply channel').channels[seat i j q]? =
                some (c.record call reply channel') := List.getElem?_set_self hlt
            rw [record_self, hself]
            exact World.endpointAt_of_some hset
          · rw [record_peer]
            exact hother _ fun heq => p.peer_ne (seat_injective hij heq)

/-- The channels of the pair are where its moves lead. -/
theorem pair_run (hij : i ≠ j) (calls : List (WorldCall H))
    (hseated : Seated key nPaths i j (runWorld P calls)) :
    (runWorld P calls).pair key nPaths i j =
      runSession P (RatchetKey.ops P) key nPaths (pairMoves P i j calls) := by
  induction calls using List.reverseRecOn with
  | nil =>
      funext p
      rfl
  | append_singleton calls call ih =>
      rw [runWorld, final_concat] at hseated ⊢
      have hbefore := ih (hseated.before (worldStep_effect P _ call))
      rw [runWorld] at hbefore
      rw [pair_step hij hseated, pairMoves, answers_concat, runSession, final_append, hbefore]
      rfl

/-! ## The cipher of the pair -/

/-- The pair as it stands in a world within the horizon: its channels belong to honest
parties, and no other channel is over its first key. -/
structure PairAt (P : Primitives) (honest : VerifyingKey H.toKeyFormat → Prop) (horizon : ℕ)
    (key : RatchetKey) (nPaths i j : ℕ) (w : World H) : Prop where
  within : WithinHorizon P horizon w
  seated : Seated key nPaths i j w
  guarded : ∀ p c, w.channels[seat i j p]? = some c → c.Protected honest
  only : ∀ (k : ℕ) e, w.channels[k]? = some e → e.key = key → k = i ∨ k = j

namespace PairAt

variable {honest : VerifyingKey H.toKeyFormat → Prop} {horizon : ℕ} {w w' : World H}

theorem before {call : WorldCall H} (heffect : WorldEffect P w call w')
    (h : PairAt P honest horizon key nPaths i j w') : PairAt P honest horizon key nPaths i j w := by
  refine ⟨h.within.before heffect, h.seated.before heffect, fun p c hc => ?_,
    fun k e he hkey => ?_⟩
  · obtain ⟨c', hc', hsession, -⟩ := heffect.grows hc
    have hending : c'.ending = c.ending := congrArg Prod.fst hsession
    have hprotected := h.guarded p c' hc'
    rwa [OpenChannel.Protected, hending] at hprotected
  · obtain ⟨e', he', hsession, -⟩ := heffect.grows he
    exact h.only k e' he' ((OpenChannel.key_of_session hsession).trans hkey)

theorem reach_le (h : PairAt P honest horizon key nPaths i j w) (p : Party) :
    (w.pair key nPaths i j p).reach ≤ horizon := by
  cases hc : w.channels[seat i j p]? with
  | none =>
      rw [World.pair, World.endpointAt_of_none hc]
      exact Nat.zero_le _
  | some c =>
      rw [World.pair, World.endpointAt_of_some hc]
      exact h.within.reach c (List.mem_of_getElem? hc)

theorem sealed_by_pair (hencrypt : P.EncryptTotal) (hruns : ∀ c ∈ w.channels, c.OwnRun P)
    (h : PairAt P honest horizon key nPaths i j w) {p : Party} {c : OpenChannel H}
    (hc : w.channels[seat i j p]? = some c)
    (hdecoys : ∀ d ∈ w.channels, ∀ message ∈ d.endpoint.sent,
      FreshDecoys (RatchetKey.ops P) c.key horizon d.nPaths message.1)
    {position : ℕ} (hposition : position ≤ horizon) {call : SealCall}
    (hkey : call.key = (RatchetKey.ops P).bytes (chain (RatchetKey.ops P) c.key position))
    (hsealed : call ∈ w.sealLog P) :
    call ∈ (w.pair key nPaths i j).sealLog P (RatchetKey.ops P) := by
  obtain ⟨rfl, -⟩ := h.seated p c hc
  obtain ⟨d, hd, hlogged⟩ := List.mem_flatMap.1 hsealed
  obtain ⟨calls, hevents, -⟩ := hruns d hd
  have hsent := hdecoys d hd
  have hseals := hlogged
  rw [hevents] at hseals
  rw [Endpoint.sent, hevents] at hsent
  obtain ⟨number, expected, args, slots, hmessage⟩ := exists_sealsMessage hencrypt _ _ _ calls
    (fun message hmem slotIdx hslot => hkey ▸ hsent message hmem slotIdx hslot position hposition)
    hseals
  rw [← hevents] at hmessage
  have hbelow := (hruns d hd).sealed_lt_reach hencrypt hmessage
  have hkeys : chain (RatchetKey.ops P) c.key position =
      chain (RatchetKey.ops P) d.key (number + expected) :=
    congrArg RatchetKey.mk (hkey.symm.trans hmessage.key)
  have hsame := (h.within.distinct _ ⟨c, List.mem_of_getElem? hc, rfl⟩ _ ⟨d, hd, rfl⟩ position
    hposition _ (hbelow.le.trans (h.within.reach d hd)) hkeys).1
  obtain ⟨k, hk⟩ := List.getElem?_of_mem hd
  have hlog : call ∈ sealCalls P (RatchetKey.ops P) (w.endpointAt c.key nPaths k).events := by
    rw [World.endpointAt_of_some hk]
    exact hlogged
  rcases h.only k d hk hsame.symm with rfl | rfl
  · exact List.mem_append_left _ hlog
  · exact List.mem_append_right _ hlog

/-- When the cipher is ideal for what reaches a channel of the pair, it is ideal for the
session. -/
theorem idealArrival (hencrypt : P.EncryptTotal) (hruns : ∀ c ∈ w.channels, c.OwnRun P)
    (h : PairAt P honest horizon key nPaths i j w) {p : Party} {call : Call} {c : OpenChannel H}
    (hc : w.channels[seat i j p]? = some c)
    (hideal : IdealDelivery P honest horizon w (.channel (seat i j p) call)) :
    IdealArrival P (RatchetKey.ops P) key horizon nPaths (w.pair key nPaths i j) ⟨p, call⟩ := by
  cases call with
  | send args => trivial
  | receive args =>
      obtain ⟨hdecoys, hopens⟩ := hideal c hc (h.guarded p c hc)
      obtain ⟨rfl, -⟩ := h.seated p c hc
      constructor
      · have hfresh : ∀ q, ∀ message ∈ (w.pair c.key nPaths i j q).sent,
            FreshDecoys (RatchetKey.ops P) c.key horizon nPaths message.1 := by
          intro q message hmem
          obtain ⟨d, hd, hsent⟩ := World.channel_of_endpointAt_sent hmem
          have hmessage := hdecoys d (List.mem_of_getElem? hd) message hsent
          rwa [(h.seated q d hd).2] at hmessage
        exact List.forall_mem_append.2 ⟨hfresh .a, hfresh .b⟩
      · intro envelope hmem position hposition hopen
        exact h.sealed_by_pair hencrypt hruns hc hdecoys hposition rfl
          (hopens envelope hmem position hposition hopen)

theorem keeps (hencrypt : P.EncryptTotal) (hij : i ≠ j) {calls : List (WorldCall H)}
    (h : PairAt P honest horizon key nPaths i j (runWorld P calls))
    (hideal : Follows (worldStep P) (IdealDelivery P honest horizon) World.empty calls) :
    Keeps P (RatchetKey.ops P) key nPaths
      (IdealArrival P (RatchetKey.ops P) key horizon nPaths) (pairMoves P i j calls) := by
  induction calls using List.reverseRecOn with
  | nil => trivial
  | append_singleton calls call ih =>
      obtain ⟨hpast, hlast⟩ := (follows_concat_iff _ _ _ _ _).1 hideal
      rw [runWorld, final_concat] at h
      have hbefore : PairAt P honest horizon key nPaths i j (runWorld P calls) :=
        h.before (worldStep_effect P (runWorld P calls) call)
      have hkept := ih hbefore hpast
      rw [pairMoves, answers_concat]
      cases hmove : pairMove? i j (final (worldStep P) World.empty calls) call with
      | none =>
          rw [Option.toList_none, List.append_nil]
          exact hkept
      | some m =>
          rw [Option.toList_some]
          refine (follows_concat_iff _ _ _ _ _).2 ⟨hkept, ?_⟩
          cases call with
          | handshake call paths => cases hmove
          | channel index call =>
              obtain ⟨c, hc, hrest⟩ := Option.bind_eq_some_iff.1 hmove
              obtain ⟨p, hparty, hm⟩ := Option.bind_eq_some_iff.1 hrest
              cases hm
              obtain rfl := seat_of_partyAt hparty
              have harrival := hbefore.idealArrival hencrypt (own_runs P calls) hc hlast
              rwa [pair_run hij calls hbefore.seated] at harrival

theorem of_peerOf (hwithin : WithinHorizon P horizon w) {c d : OpenChannel H}
    (hc : w.channels[i]? = some c) (hprotected : c.Protected honest) (hpeer : PeerOf w i c j d)
    (hpaths : d.nPaths = c.nPaths) : PairAt P honest horizon c.key c.nPaths i j w := by
  refine ⟨hwithin, fun p e he => ?_, fun p e he => ?_, fun k e he hkey => ?_⟩
  · cases p with
    | a =>
        cases hc.symm.trans he
        exact ⟨rfl, rfl⟩
    | b =>
        cases hpeer.channel.symm.trans he
        exact ⟨congrArg (fun root : RootKey => (⟨root.bytes⟩ : RatchetKey)) hpeer.rootKey, hpaths⟩
  · cases p with
    | a =>
        cases hc.symm.trans he
        exact hprotected
    | b =>
        cases hpeer.channel.symm.trans he
        rwa [OpenChannel.Protected, ← hpeer.pairs.transcript]
  · exact hpeer.only k e he (congrArg (fun key : RatchetKey => (⟨key.bytes⟩ : RootKey)) hkey)

theorem received_iff (hencrypt : P.EncryptTotal) (hdecrypt : P.DecryptUndoes) (hij : i ≠ j)
    {calls : List (WorldCall H)} {args : ReceiveArgs} (hnumbers : horizon ≤ 2 ^ 64)
    (hdistinct : ChainDistinct (RatchetKey.ops P) key horizon)
    (h : PairAt P honest horizon key nPaths i j
      (worldStep P (runWorld P calls) (.channel i (.receive args))).2)
    (hideal : IdealDelivery P honest horizon (runWorld P calls) (.channel i (.receive args)))
    {c : OpenChannel H} (hc : (runWorld P calls).channels[i]? = some c) (payload : List UInt8) :
    (worldStep P (runWorld P calls) (.channel i (.receive args))).1 =
        .channel (.received (.ok payload)) ↔
      ∃ message expected, GetsThrough P (RatchetKey.ops P) key nPaths
        ((runWorld P calls).pair key nPaths i j) .a args message expected ∧
          message.1.payload = payload := by
  set w := runWorld P calls
  have hbefore := h.before (worldStep_effect P w _)
  have hruns := OwnRuns.run P (RatchetKey.ops P) key nPaths (pairMoves P i j calls)
  rw [← pair_run hij calls hbefore.seated] at hruns
  have hself : w.pair key nPaths i j .a = c.endpoint := World.endpointAt_of_some hc
  have harrival := hbefore.idealArrival (p := .a) hencrypt (own_runs P calls) hc hideal
  generalize hstep : callStep P (RatchetKey.ops P) c.endpoint.channel (.receive args) = result
  obtain ⟨reply, channel'⟩ := result
  have hreply : (worldStep P w (.channel i (.receive args))).1 = .channel reply := by
    rw [worldStep, hc]
    exact congrArg (fun result => WorldReply.channel result.1) hstep
  rw [← hself] at hstep
  have heffect := callStep_effect P (RatchetKey.ops P) (w.pair key nPaths i j .a).channel
    (.receive args)
  rw [hstep] at heffect
  have hmove : pairMove? i j w (.channel i (.receive args)) = some ⟨.a, .receive args⟩ := by
    rw [pairMove?, hc, show partyAt i j i = some .a from partyAt_seat hij .a]
    rfl
  have hafter : ∀ q, ((w.pair key nPaths i j).record .a (.receive args) reply channel' q).reach ≤
      horizon := by
    have hreach := h.reach_le
    rw [pair_step hij h.seated, hmove, Option.toList_some] at hreach
    rw [← snd_moveStep hstep]
    exact hreach
  rw [hreply, WorldReply.channel.injEq]
  exact hruns.received_iff hencrypt hdecrypt (fun _ _ => congrArg RatchetKey.mk) hnumbers hdistinct
    hafter harrival hstep heffect payload

/-- Over a run, what arrives on the first channel of the pair is accepted if and only if it
gets through from the second. -/
theorem received_iff_run (hencrypt : P.EncryptTotal) (hdecrypt : P.DecryptUndoes) (hij : i ≠ j)
    (hnumbers : horizon ≤ 2 ^ 64) (hdistinct : ChainDistinct (RatchetKey.ops P) key horizon)
    (calls : List (WorldCall H)) (h : PairAt P honest horizon key nPaths i j (runWorld P calls))
    (hideal : Follows (worldStep P) (IdealDelivery P honest horizon) World.empty calls) :
    ∀ e ∈ worldTrace P calls, ∀ args, e.input = .channel i (.receive args) →
      ∀ c, e.before.channels[i]? = some c → ∀ payload,
        e.output = .channel (.received (.ok payload)) ↔
          ∃ message expected, GetsThrough P (RatchetKey.ops P) key nPaths
            (e.before.pair key nPaths i j) .a args message expected ∧
              message.1.payload = payload := by
  induction calls using List.reverseRecOn with
  | nil =>
      intro e he
      cases he
  | append_singleton calls call ih =>
      obtain ⟨hpast, hlast⟩ := (follows_concat_iff _ _ _ _ _).1 hideal
      rw [runWorld, final_concat] at h
      rw [worldTrace, trace_concat]
      refine forall_mem_concat.2 ⟨ih (h.before (worldStep_effect P _ call)) hpast, ?_⟩
      rintro args rfl c hc payload
      exact h.received_iff hencrypt hdecrypt hij hnumbers hdistinct hlast hc payload

end PairAt

/-- **Peers run a session.** The adversary chooses all payloads, packets and the order of
all calls. When a channel of honest parties has a peer with the same number of paths, the
calls on the two, in the order in which they were made, are the moves of a session that
leads to where both channels are, whatever else happened in the world; and an ideal cipher
for what reaches the channels is an ideal cipher for this session. -/
theorem peers_run_session (hencrypt : P.EncryptTotal)
    (honest : VerifyingKey H.toKeyFormat → Prop) (calls : List (WorldCall H)) (horizon : ℕ)
    (hwithin : WithinHorizon P horizon (runWorld P calls))
    (hideal : Follows (worldStep P) (IdealDelivery P honest horizon) World.empty calls)
    (i j : ℕ) (c d : OpenChannel H) (hc : (runWorld P calls).channels[i]? = some c)
    (hprotected : c.Protected honest) (hpeer : PeerOf (runWorld P calls) i c j d)
    (hpaths : d.nPaths = c.nPaths) :
    let K := RatchetKey.ops P
    let moves := pairMoves P i j calls
    let s := runSession P K c.key c.nPaths moves
    s .a = c.endpoint ∧ s .b = d.endpoint ∧
      Keeps P K c.key c.nPaths (IdealArrival P K c.key horizon c.nPaths) moves ∧
        ChainDistinct K c.key horizon ∧ ∀ p, (s p).reach ≤ horizon := by
  intro K moves s
  have hij : i ≠ j := hpeer.ne.symm
  have hpair := PairAt.of_peerOf hwithin hc hprotected hpeer hpaths
  have hs : (runWorld P calls).pair c.key c.nPaths i j = s := pair_run hij calls hpair.seated
  refine ⟨?_, ?_, hpair.keeps hencrypt hij hideal,
    hwithin.distinct.chainDistinct ⟨c, List.mem_of_getElem? hc, rfl⟩, fun p => ?_⟩
  · rw [← hs]
    exact World.endpointAt_of_some hc
  · rw [← hs]
    exact World.endpointAt_of_some hpeer.channel
  · rw [← hs]
    exact hpair.reach_le p

theorem misdelivered_peers :
    ∃ c d, (runWorld counterPrimitives misdeliveredCalls).channels[0]? = some c ∧
      PeerOf (runWorld counterPrimitives misdeliveredCalls) 0 c 2 d ∧ d.nPaths = c.nPaths := by
  obtain ⟨c, hc⟩ : ∃ c, (runWorld counterPrimitives misdeliveredCalls).channels[0]? = some c :=
    Option.isSome_iff_exists.1 (by decide +kernel)
  obtain ⟨d, hd⟩ : ∃ d, (runWorld counterPrimitives misdeliveredCalls).channels[2]? = some d :=
    Option.isSome_iff_exists.1 (by decide +kernel)
  have hsame : ∀ c ∈ (runWorld counterPrimitives misdeliveredCalls).channels[0]?,
      ∀ d ∈ (runWorld counterPrimitives misdeliveredCalls).channels[2]?,
        d.rootKey = c.rootKey ∧ d.nPaths = c.nPaths := by
    decide +kernel
  obtain ⟨hkey, hpaths⟩ := hsame c hc d hd
  exact ⟨c, d, hc, peerOf_of_rootKey (collisionFree_of_forall (by decide +kernel))
    (by unfold FreshCoins; decide +kernel) (by unfold FreshAnswers; decide +kernel)
    (by decide) hc hd hkey, hpaths⟩

/-- The three arrivals at channel 0 and the message sent on channel 2 are a session. -/
theorem peers_run_session_misdelivered :
    ∃ c d : OpenChannel modularPrimitives,
      (runWorld counterPrimitives misdeliveredCalls).channels[0]? = some c ∧
        (runWorld counterPrimitives misdeliveredCalls).channels[2]? = some d ∧
          runSession counterPrimitives (RatchetKey.ops counterPrimitives) c.key c.nPaths
            (pairMoves counterPrimitives 0 2 misdeliveredCalls) .a = c.endpoint ∧
            runSession counterPrimitives (RatchetKey.ops counterPrimitives) c.key c.nPaths
              (pairMoves counterPrimitives 0 2 misdeliveredCalls) .b = d.endpoint := by
  obtain ⟨c, d, hc, hpeer, hpaths⟩ := misdelivered_peers
  obtain ⟨ha, hb, -⟩ := peers_run_session counter_encryptTotal (fun _ => True) misdeliveredCalls 2
    misdelivered_withinHorizon misdelivered_ideal 0 2 c d hc ⟨trivial, trivial⟩ hpeer hpaths
  exact ⟨c, d, hc, hpeer.channel, ha, hb⟩

/-- **Which packets get through, from the handshake on.** Under the same assumptions, a
packet that arrives on the channel is accepted with a payload if and only if it carries the
message of its number and that payload, sent on the peer, its number is open, and the
message has crossed none sent on the channel. -/
theorem peer_packets_get_through (hencrypt : P.EncryptTotal) (hdecrypt : P.DecryptUndoes)
    (honest : VerifyingKey H.toKeyFormat → Prop) (calls : List (WorldCall H)) (horizon : ℕ)
    (hnumbers : horizon ≤ 2 ^ 64) (hwithin : WithinHorizon P horizon (runWorld P calls))
    (hideal : Follows (worldStep P) (IdealDelivery P honest horizon) World.empty calls)
    (i j : ℕ) (c d : OpenChannel H) (hc : (runWorld P calls).channels[i]? = some c)
    (hprotected : c.Protected honest) (hpeer : PeerOf (runWorld P calls) i c j d)
    (hpaths : d.nPaths = c.nPaths) :
    ∀ e ∈ worldTrace P calls, ∀ args, e.input = .channel i (.receive args) →
      e.before.channels[i]? ≠ none → ∀ payload,
        e.output = .channel (.received (.ok payload)) ↔
          ∃ message expected, GetsThrough P (RatchetKey.ops P) c.key c.nPaths
            (e.before.pair c.key c.nPaths i j) .a args message expected ∧
              message.1.payload = payload := by
  intro e he args hinput hopened
  obtain ⟨c₀, hc₀⟩ := Option.ne_none_iff_exists'.1 hopened
  exact (PairAt.of_peerOf hwithin hc hprotected hpeer hpaths).received_iff_run hencrypt hdecrypt
    hpeer.ne.symm hnumbers
    (hwithin.distinct.chainDistinct ⟨c, List.mem_of_getElem? hc, rfl⟩) calls hideal e he args
    hinput c₀ hc₀

/-- Of the packets that arrive at channel 0, those of channel 2 get through, once each. -/
theorem peer_packets_get_through_misdelivered :
    ∃ c : OpenChannel modularPrimitives,
      (runWorld counterPrimitives misdeliveredCalls).channels[0]? = some c ∧
        ∀ e ∈ worldTrace counterPrimitives misdeliveredCalls, ∀ args,
          e.input = .channel 0 (.receive args) → e.before.channels[0]? ≠ none → ∀ payload,
            e.output = .channel (.received (.ok payload)) ↔
              ∃ message expected, GetsThrough counterPrimitives
                (RatchetKey.ops counterPrimitives) c.key c.nPaths
                (e.before.pair c.key c.nPaths 0 2) .a args message expected ∧
                  message.1.payload = payload := by
  obtain ⟨c, d, hc, hpeer, hpaths⟩ := misdelivered_peers
  exact ⟨c, hc, peer_packets_get_through counter_encryptTotal counter_decryptUndoes
    (fun _ => True) misdeliveredCalls 2 (by decide) misdelivered_withinHorizon misdelivered_ideal
    0 2 c d hc ⟨trivial, trivial⟩ hpeer hpaths⟩

end NullPath
