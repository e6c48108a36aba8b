import NullPath.Channel.Atomic
import NullPath.Session.Crossing
import NullPath.Session.Handover

/-!
# When a session can go on

A party passes to a new number only by a message that its peer sent past all of the
party's own (`OwnRuns.forward`). So what a party is not past yet was sent when its sender
expected what it expects now (`Pending`), and two cases remain.

While one party is up to date, the other one can be served: the first message it is not
past gets through, or else the next one that is sent. Once neither party is up to date,
none of them passes to a new number any more, whatever they send and whatever arrives;
only what is already in their tables of skipped keys can still be accepted.
-/

namespace NullPath

open Transition

variable {κ : Type*} {P : Primitives} {K : KeyOps κ} {rootKey : κ} {nPaths : ℕ}

/-- Neither party has accepted the message that its peer sent last. -/
def Session.Crossed (s : Session κ) : Prop := ∀ p, ¬ UpToDate s p

/-- What the parties expect of each other, and when they sent the messages that the other
is not past yet. -/
structure Pending (s : Session κ) : Prop where
  expected_le : ∀ p, expectedSeq (s p).channel.lastSeq ≤ (s p.peer).sent.length
  current : ∀ p n expected, (expectedWhenSent (s p).events)[n]? = some expected →
    expectedSeq (s p.peer).channel.lastSeq ≤ n → expected = expectedSeq (s p).channel.lastSeq

/-- A party passes to a new number when its peer is past all of its own messages. -/
structure Forward (s : Session κ) (p : Party) (channel' : SecureChannel κ) : Prop where
  own_le : (s p).sent.length ≤ expectedSeq (s p.peer).channel.lastSeq
  expected_le : expectedSeq channel'.lastSeq ≤ (s p.peer).sent.length

namespace OwnRuns

variable {s : Session κ}

theorem forward_of_getsThrough (hencrypt : P.EncryptTotal) (h : OwnRuns P K rootKey nPaths s)
    {p : Party} {args : ReceiveArgs} {message : SendArgs × List Envelope} {expected : ℕ}
    (hthrough : GetsThrough P K rootKey nPaths s p args message expected)
    (hnew : expectedSeq (s p).channel.lastSeq ≤ args.seq.toNat) :
    (s p).sent.length ≤ expectedSeq (s p.peer).channel.lastSeq := by
  have hsent := sentBefore_of_expected_le (h.sentState hencrypt p) hnew
  rw [Endpoint.sent, ← hsent, hthrough.uncrossed]
  exact (h.sentState hencrypt p.peer).expected_le expected
    (List.mem_of_getElem? hthrough.whenSent)

theorem forward (hencrypt : P.EncryptTotal) (hdecrypt : P.DecryptUndoes)
    (hbytes : Function.Injective K.bytes) (h : OwnRuns P K rootKey nPaths s) {horizon : ℕ}
    (hnumbers : horizon ≤ 2 ^ 64) (hdistinct : ChainDistinct K rootKey horizon) {p : Party}
    {call : Call} {reply : Reply} {channel' : SecureChannel κ}
    (hafter : ∀ q, (s.record p call reply channel' q).reach ≤ horizon)
    (hideal : IdealArrival P K rootKey horizon nPaths s ⟨p, call⟩)
    (heffect : CallEffect P K (s p).channel call reply channel')
    (hnew : expectedSeq (s p).channel.lastSeq < expectedSeq channel'.lastSeq) :
    Forward s p channel' := by
  cases heffect with
  | opened args target payload hsteps =>
      have hnext := hafter p
      rw [record_self] at hnext
      obtain ⟨message, expected, hthrough, -⟩ := h.exists_getsThrough hencrypt hdecrypt hbytes
        hnumbers hdistinct (fun q => (reach_le_record (.opened args target payload hsteps)
          q).trans (hafter q))
        ((Endpoint.reach_record_opened _ hsteps.computeTargetKey).symm.trans_le hnext) hideal
        hsteps
      rw [expectedSeq_commit _ hsteps.computeTargetKey] at hnew
      have hseq : expectedSeq (s p).channel.lastSeq ≤ args.seq.toNat :=
        Nat.le_of_lt_succ ((lt_max_iff.1 hnew).resolve_left (Nat.lt_irrefl _))
      refine ⟨h.forward_of_getsThrough hencrypt hthrough hseq, ?_⟩
      rw [expectedSeq_commit _ hsteps.computeTargetKey, max_eq_right (hseq.trans (Nat.le_succ _))]
      exact (List.getElem?_eq_some_iff.1 hthrough.sent).1
  | _ => exact absurd hnew (Nat.lt_irrefl _)

end OwnRuns

namespace Pending

variable {s : Session κ}

theorem new (rootKey : κ) (nPaths : ℕ) : Pending (Session.new rootKey nPaths) where
  expected_le _ := Nat.zero_le _
  current _ _ _ h := by cases h

theorem record (h : Pending s) {p : Party} {call : Call} {reply : Reply}
    {channel' : SecureChannel κ} (heffect : CallEffect P K (s p).channel call reply channel')
    (hnew : expectedSeq (s p).channel.lastSeq < expectedSeq channel'.lastSeq →
      Forward s p channel') : Pending (s.record p call reply channel') := by
  have hexpected := heffect.expectedSeq_le
  constructor
  · intro q
    rcases Party.eq_or_eq_peer q p with rfl | rfl
    · rw [record_self, record_peer]
      rcases hexpected.eq_or_lt with hsame | hlt
      · exact hsame.symm.trans_le (h.expected_le q)
      · exact (hnew hlt).expected_le
    · have hold := h.expected_le p.peer
      rw [Party.peer_peer] at hold
      rw [record_peer, record_peer_peer, Endpoint.sent, sentMessages_concat, List.length_append]
      exact hold.trans (Nat.le_add_right _ _)
  · intro q n expected hwhen hn
    rcases Party.eq_or_eq_peer q p with rfl | rfl
    · rw [record_peer] at hn
      rw [record_self, expectedWhenSent_concat] at hwhen
      rw [record_self]
      rcases hexpected.eq_or_lt with hsame | hlt
      · rw [← hsame]
        cases hsent : sentMessage? ⟨(s q).channel, call, reply⟩ with
        | none =>
            rw [hsent, Option.map_none, Option.toList_none, List.append_nil] at hwhen
            exact h.current q n expected hwhen hn
        | some message =>
            rw [hsent, Option.map_some, Option.toList_some] at hwhen
            rcases getElem?_concat_cases hwhen with hold | ⟨-, heq⟩
            · exact h.current q n expected hold hn
            · exact heq.symm
      · -- The caller received, and its peer is past all it has sent.
        have hpast := (hnew hlt).own_le
        cases heffect with
        | opened args target payload hsteps =>
            rw [show Option.toList _ = [] from rfl, List.append_nil] at hwhen
            have hbelow := (List.getElem?_eq_some_iff.1 hwhen).1
            rw [length_expectedWhenSent] at hbelow
            exact absurd (hbelow.trans_le (hpast.trans hn)) (Nat.lt_irrefl n)
        | _ => exact absurd hlt (Nat.lt_irrefl _)
    · rw [record_peer_peer] at hn
      rw [record_peer] at hwhen ⊢
      refine h.current p.peer n expected hwhen ?_
      rw [Party.peer_peer]
      exact hexpected.trans hn

theorem run (hencrypt : P.EncryptTotal) (hdecrypt : P.DecryptUndoes)
    (hbytes : Function.Injective K.bytes) {horizon : ℕ} (hnumbers : horizon ≤ 2 ^ 64)
    (hdistinct : ChainDistinct K rootKey horizon) (moves : List Move)
    (hideal : Keeps P K rootKey nPaths (IdealArrival P K rootKey horizon nPaths) moves)
    (hreach : ∀ p, (runSession P K rootKey nPaths moves p).reach ≤ horizon) :
    Pending (runSession P K rootKey nPaths moves) := by
  refine session_induction (motive := fun _ s => (∀ q, (s q).reach ≤ horizon) → Pending s)
    (fun _ => Pending.new rootKey nPaths) ?_ moves hideal hreach
  intro past s p call reply channel' hruns hpast hrule _ heffect hafter
  exact (hpast fun q => (reach_le_record heffect q).trans (hafter q)).record heffect fun hnew =>
    hruns.forward hencrypt hdecrypt hbytes hnumbers hdistinct hafter hrule heffect hnew

theorem upToDate_iff (hencrypt : P.EncryptTotal) (hruns : OwnRuns P K rootKey nPaths s)
    (h : Pending s) (p : Party) :
    UpToDate s p ↔ (s p.peer).sent.length ≤ expectedSeq (s p).channel.lastSeq := by
  have hstate := hruns.endpointState hencrypt p
  constructor
  · rintro (hnone | ⟨seq, hmem, hlatest⟩)
    · exact hnone.trans_le (Nat.zero_le _)
    · rw [← hlatest]
      exact hstate.books.accepted_lt seq hmem
  · intro hle
    have heq := Nat.le_antisymm (h.expected_le p) hle
    cases hlast : (s p).channel.lastSeq with
    | none =>
        rw [hlast] at heq
        exact Or.inl heq.symm
    | some last =>
        rw [hlast] at heq
        exact Or.inr ⟨last, hstate.last_accepted last hlast, heq⟩

/-! ## The next number -/

/-- The first message that a party is not past gets through as it was sent, when its
sender is past all of the party's own. -/
theorem next_getsThrough (hencrypt : P.EncryptTotal) (hruns : OwnRuns P K rootKey nPaths s)
    (h : Pending s) {p : Party}
    (hown : (s p).sent.length ≤ expectedSeq (s p.peer).channel.lastSeq)
    (hwaits : expectedSeq (s p).channel.lastSeq < (s p.peer).sent.length)
    (hnumber : expectedSeq (s p).channel.lastSeq < 2 ^ 64) :
    ∃ (packet : Packet) (message : SendArgs × List Envelope) (expected : ℕ),
      Genuine s ⟨p, .receive (packet.arrive 0)⟩ ∧
        packet.seq = UInt64.ofNat (expectedSeq (s p).channel.lastSeq) ∧
          GetsThrough P K rootKey nPaths s p (packet.arrive 0) message expected := by
  set next := expectedSeq (s p).channel.lastSeq
  have hsent : (s p.peer).sent[next]? = some (s p.peer).sent[next] :=
    List.getElem?_eq_getElem hwaits
  generalize (s p.peer).sent[next] = message at hsent
  obtain ⟨expected, hwhen⟩ := exists_expectedWhenSent _ hsent
  have hnext : (UInt64.ofNat next).toNat = next := Nat.mod_eq_of_lt hnumber
  have hcurrent : expected = expectedSeq (s p.peer).channel.lastSeq := by
    refine h.current p.peer next expected hwhen ?_
    rw [Party.peer_peer]
  have hall : (s p).sent.length = expected := by
    have hpeer := h.expected_le p.peer
    rw [Party.peer_peer] at hpeer
    exact Nat.le_antisymm (hown.trans hcurrent.ge) (hcurrent.le.trans hpeer)
  have hsends := (hruns.sentState hencrypt p.peer).sends next expected message.1 message.2
    hsent hwhen
  obtain ⟨hlength, slot, -, hslot, -, -⟩ := hsends.selected
  let packet : Packet := ⟨message.2, UInt64.ofNat next, message.1.messageId⟩
  have hpackets : (s p.peer).packets[next]? = some packet := by
    rw [Endpoint.packets, outbox, List.getElem?_mapIdx]
    exact congrArg (Option.map _) hsent
  refine ⟨packet, message, expected, ?_, rfl, ?_⟩
  · rw [Genuine]
    change (s p.peer).packets[(UInt64.ofNat next).toNat]? = _
    rw [hnext]
    exact hpackets
  · have hseq : (packet.arrive 0).seq.toNat = next := hnext
    constructor
    · rw [hseq]
      exact hsent
    · rw [hseq]
      exact hwhen
    · rw [hseq]
      exact carries_of_slot rfl hlength.ge hslot rfl
    · rw [hseq]
      have hnear : next ≤ next - 1 + 1000 := by omega
      exact Or.inl ⟨Nat.le_refl _, hnear⟩
    · rw [hseq, ← hall]
      exact sentBefore_of_expected_le (hruns.sentState hencrypt p) (Nat.le_refl _)

theorem next_served (hencrypt : P.EncryptTotal) (hdecrypt : P.DecryptUndoes)
    (hruns : OwnRuns P K rootKey nPaths s) (h : Pending s) {p : Party}
    (hown : (s p).sent.length ≤ expectedSeq (s p.peer).channel.lastSeq)
    (hwaits : expectedSeq (s p).channel.lastSeq < (s p.peer).sent.length)
    (hnumber : expectedSeq (s p).channel.lastSeq < 2 ^ 64) :
    ∃ args, Genuine s ⟨p, .receive args⟩ ∧
      ((moveStep P K s ⟨p, .receive args⟩).2 p).accepted =
        (s p).accepted ++ [UInt64.ofNat (expectedSeq (s p).channel.lastSeq)] := by
  obtain ⟨packet, message, expected, hgenuine, hseq, hthrough⟩ :=
    h.next_getsThrough hencrypt hruns hown hwaits hnumber
  have hreply : (callStep P K (s p).channel (.receive (packet.arrive 0))).1 =
      .received (.ok message.1.payload) :=
    congrArg Reply.received (hruns.receives hencrypt hdecrypt hthrough)
  refine ⟨packet.arrive 0, hgenuine, ?_⟩
  rw [snd_moveStep (Prod.ext hreply rfl), record_self, Endpoint.accepted, acceptedSeqs_concat,
    ← hseq]
  rfl

theorem after_send (hencrypt : P.EncryptTotal) (hmac : P.HmacTotal) (hpaths : 0 < nPaths)
    (hruns : OwnRuns P K rootKey nPaths s) (h : Pending s) (p : Party) {args : SendArgs}
    (hmessageId : args.messageId.length ≤ maxMessageIdLen)
    (hpayload : args.payload.length ≤ maxPayloadSize) :
    ∃ s', (moveStep P K s ⟨p, .send args⟩).2 = s' ∧ OwnRuns P K rootKey nPaths s' ∧ Pending s' ∧
      s' p.peer = s p.peer ∧ (s' p).channel.lastSeq = (s p).channel.lastSeq ∧
        (s' p).sent.length = (s p).sent.length + 1 := by
  have hsendable : Sendable (s p).channel args.payload args.messageId := by
    refine ⟨hmessageId, ?_, hpayload⟩
    rw [(hruns.endpointState hencrypt p).nPaths]
    exact Nat.ne_of_gt hpaths
  obtain ⟨slots, hsends, hsend⟩ := send_of_sendable (P := P) (K := K)
    (fun aad _ => hencrypt.encryptsWith aad) hmac args.coins hsendable
  have hstep : callStep P K (s p).channel (.send args) =
      (.sent (.ok slots), advanceSender K (s p).channel) := by
    rw [callStep, hsend]
  have heffect := CallEffect.sent (K := K) args slots hsends
  refine ⟨_, snd_moveStep hstep, hruns.record hstep,
    h.record heffect fun hnew => absurd hnew (Nat.lt_irrefl _), record_peer s p _ _ _, ?_, ?_⟩
  · rw [record_self]
    rfl
  · rw [record_self, Endpoint.sent, sentMessages_concat, List.length_append]
    rfl

/-- While some party is up to date, one message and one arrival hand out the next number. -/
theorem goes_on (hencrypt : P.EncryptTotal) (hmac : P.HmacTotal) (hdecrypt : P.DecryptUndoes)
    (hpaths : 0 < nPaths) (hruns : OwnRuns P K rootKey nPaths s) (h : Pending s)
    (hnumbers : ∀ p, (s p).sent.length < 2 ^ 64) (huncrossed : ¬ s.Crossed) {args : SendArgs}
    (hmessageId : args.messageId.length ≤ maxMessageIdLen)
    (hpayload : args.payload.length ≤ maxPayloadSize) :
    ∃ p later, later.length ≤ 2 ∧ (∀ m ∈ later, ∀ args', m.call = .send args' → args' = args) ∧
      Follows (moveStep P K) Genuine s later ∧
        (final (moveStep P K) s later p).accepted =
          (s p).accepted ++ [UInt64.ofNat (expectedSeq (s p).channel.lastSeq)] := by
  obtain ⟨q, hq⟩ := not_forall.1 huncrossed
  have hown := (h.upToDate_iff hencrypt hruns q).1 (not_not.1 hq)
  obtain ⟨p, rfl⟩ : ∃ p : Party, q = p.peer := ⟨q.peer, q.peer_peer.symm⟩
  rw [Party.peer_peer] at hown
  have hnumber : expectedSeq (s p).channel.lastSeq < 2 ^ 64 :=
    (h.expected_le p).trans_lt (hnumbers p.peer)
  rcases (h.expected_le p).lt_or_eq with hwaits | hnone
  · obtain ⟨arrival, hgenuine, haccepted⟩ :=
      h.next_served hencrypt hdecrypt hruns hown hwaits hnumber
    exact ⟨p, [⟨p, .receive arrival⟩], Nat.le_succ 1, by simp, ⟨hgenuine, trivial⟩, haccepted⟩
  · -- Nothing is on its way, so the peer sends first.
    obtain ⟨s', hmove, hruns', h', hself, hlast, hsent⟩ :=
      h.after_send hencrypt hmac hpaths hruns p.peer hmessageId hpayload
    rw [Party.peer_peer] at hself
    obtain ⟨arrival, hgenuine, haccepted⟩ := h'.next_served (p := p) hencrypt hdecrypt hruns'
      (by rwa [hself, hlast]) (by rw [hself, hsent, hnone]; exact Nat.lt_succ_self _)
      (by rwa [hself])
    rw [hself] at haccepted
    refine ⟨p, [⟨p.peer, .send args⟩, ⟨p, .receive arrival⟩], Nat.le_refl 2, ?_,
      ⟨trivial, ?_, trivial⟩, ?_⟩
    · simp +contextual
    · rw [hmove]
      exact hgenuine
    · rw [final, hmove]
      exact haccepted

end Pending

/-! ## After a crossing -/

theorem CallEffect.takes_waiting {channel channel' : SecureChannel κ} {call : Call} {reply : Reply}
    (h : CallEffect P K channel call reply channel')
    (hsame : expectedSeq channel'.lastSeq = expectedSeq channel.lastSeq) :
    channel'.window.waiting ⊆ channel.window.waiting ∧
      ∀ letter ∈ acceptedLetter? ⟨channel, call, reply⟩,
        letter.seq.toNat ∈ channel.window.waiting := by
  cases h with
  | opened args target payload hsteps =>
      rcases computeTargetKey_cases hsteps.computeTargetKey with hforward | hlate
      · have hle := hforward.expected_le
        rw [expectedSeq_commit _ hsteps.computeTargetKey, max_eq_right (hle.trans (Nat.le_succ _))]
          at hsame
        exact absurd (hsame.trans_le hle) (Nat.lt_irrefl _)
      · constructor
        · rw [SecureChannel.window_commit_late _ hlate, NumberWindow.take_late hlate.lt_expected]
          exact Finset.erase_subset _ _
        · rintro letter hletter
          cases hletter
          exact SecureChannel.toNat_mem_waiting.2 ⟨_, hlate.targetKey⟩
  | _ => exact ⟨Finset.Subset.refl _, fun letter hletter => by cases hletter⟩

/-- What a party has in common with an earlier state in which it stalled. -/
structure Stalls (e₀ e : Endpoint κ) : Prop where
  expected : expectedSeq e.channel.lastSeq = expectedSeq e₀.channel.lastSeq
  waiting : e.channel.window.waiting ⊆ e₀.channel.window.waiting
  sent_le : e₀.sent.length ≤ e.sent.length
  letters : ∃ rest, acceptedLetters e.events = acceptedLetters e₀.events ++ rest ∧
    ∀ letter ∈ rest, letter.seq.toNat ∈ e₀.channel.window.waiting

namespace Stalls

variable {e₀ e : Endpoint κ}

theorem refl (e : Endpoint κ) : Stalls e e where
  expected := rfl
  waiting := Finset.Subset.refl _
  sent_le := Nat.le_refl _
  letters := ⟨[], (List.append_nil _).symm, fun letter hletter => by cases hletter⟩

theorem record (h : Stalls e₀ e) {call : Call} {reply : Reply} {channel' : SecureChannel κ}
    (heffect : CallEffect P K e.channel call reply channel')
    (hsame : expectedSeq channel'.lastSeq = expectedSeq e.channel.lastSeq) :
    Stalls e₀ (e.record call reply channel') := by
  obtain ⟨hwaiting, hletter⟩ := heffect.takes_waiting hsame
  obtain ⟨rest, hletters, hrest⟩ := h.letters
  constructor
  · exact hsame.trans h.expected
  · exact Finset.Subset.trans hwaiting h.waiting
  · rw [Endpoint.record, Endpoint.sent, Endpoint.sent, sentMessages_concat, List.length_append]
    exact h.sent_le.trans (Nat.le_add_right _ _)
  · refine ⟨rest ++ (acceptedLetter? ⟨e.channel, call, reply⟩).toList, ?_, fun letter hmem => ?_⟩
    · rw [Endpoint.record, acceptedLetters_concat, hletters, List.append_assoc]
    · rcases List.mem_append.1 hmem with hold | hnew
      · exact hrest letter hold
      · exact h.waiting (hletter letter (Option.mem_toList.1 hnew))

end Stalls

/-- Once neither party is past all messages of the other, a call under an ideal cipher
stalls both. -/
theorem OwnRuns.stalls (hencrypt : P.EncryptTotal) (hdecrypt : P.DecryptUndoes)
    (hbytes : Function.Injective K.bytes) {s₀ s : Session κ}
    (hruns : OwnRuns P K rootKey nPaths s) {horizon : ℕ} (hnumbers : horizon ≤ 2 ^ 64)
    (hdistinct : ChainDistinct K rootKey horizon) {p : Party} {call : Call} {reply : Reply}
    {channel' : SecureChannel κ}
    (hafter : ∀ q, (s.record p call reply channel' q).reach ≤ horizon)
    (hideal : IdealArrival P K rootKey horizon nPaths s ⟨p, call⟩)
    (heffect : CallEffect P K (s p).channel call reply channel')
    (hcrossed : ∀ q, expectedSeq (s₀ q).channel.lastSeq < (s₀ q.peer).sent.length)
    (h : ∀ q, Stalls (s₀ q) (s q)) (q : Party) :
    Stalls (s₀ q) (s.record p call reply channel' q) := by
  have hsame : expectedSeq channel'.lastSeq = expectedSeq (s p).channel.lastSeq := by
    rcases heffect.expectedSeq_le.eq_or_lt with hsame | hnew
    · exact hsame.symm
    · have hown := (hruns.forward hencrypt hdecrypt hbytes hnumbers hdistinct hafter hideal heffect
        hnew).own_le
      have hpeer := hcrossed p.peer
      rw [Party.peer_peer, ← (h p.peer).expected] at hpeer
      exact absurd (hown.trans_lt (hpeer.trans_le (h p).sent_le)) (Nat.lt_irrefl _)
  rcases Party.eq_or_eq_peer q p with rfl | rfl
  · rw [record_self]
    exact (h q).record heffect hsame
  · rw [record_peer]
    exact h p.peer

/-- From a crossing on both parties stall. -/
theorem stalls_run (hencrypt : P.EncryptTotal) (hdecrypt : P.DecryptUndoes)
    (hbytes : Function.Injective K.bytes) {horizon : ℕ} (hnumbers : horizon ≤ 2 ^ 64)
    (hdistinct : ChainDistinct K rootKey horizon) {moves : List Move}
    (hcrossed : (runSession P K rootKey nPaths moves).Crossed) (later : List Move)
    (hideal : Keeps P K rootKey nPaths (IdealArrival P K rootKey horizon nPaths)
      (moves ++ later))
    (hreach : ∀ p, (runSession P K rootKey nPaths (moves ++ later) p).reach ≤ horizon) :
    (∀ q, expectedSeq (runSession P K rootKey nPaths moves q).channel.lastSeq <
        (runSession P K rootKey nPaths moves q.peer).sent.length) ∧
      ∀ q, Stalls (runSession P K rootKey nPaths moves q)
        (runSession P K rootKey nPaths (moves ++ later) q) := by
  induction later using List.reverseRecOn with
  | nil =>
      rw [List.append_nil] at hideal hreach ⊢
      have hruns := OwnRuns.run P K rootKey nPaths moves
      have hpending := Pending.run hencrypt hdecrypt hbytes hnumbers hdistinct moves hideal hreach
      refine ⟨fun q => ?_, fun q => Stalls.refl _⟩
      exact Nat.lt_of_not_le ((hpending.upToDate_iff hencrypt hruns q).not.1 (hcrossed q))
  | append_singleton later m ih =>
      rw [← List.append_assoc] at hideal hreach ⊢
      obtain ⟨hbefore, hlast⟩ := (follows_concat_iff _ _ _ _ _).1 hideal
      have hruns := OwnRuns.run P K rootKey nPaths (moves ++ later)
      have heffect := callStep_effect P K
        (runSession P K rootKey nPaths (moves ++ later) m.party).channel m.call
      have hnext : runSession P K rootKey nPaths (moves ++ later ++ [m]) =
          (runSession P K rootKey nPaths (moves ++ later)).record m.party m.call _ _ :=
        (final_concat _ _ _ _).trans (snd_moveStep rfl)
      rw [hnext] at hreach ⊢
      obtain ⟨hnumber, hstalls⟩ := ih hbefore fun q => (reach_le_record heffect q).trans (hreach q)
      exact ⟨hnumber, hruns.stalls hencrypt hdecrypt hbytes hnumbers hdistinct hreach hlast heffect
        hnumber hstalls⟩

/-- **A crossing is final.** The parties send and receive in any interleaving and any
packets arrive. Under an ideal cipher and over a chain without repetitions as far as the
parties come, once neither party has accepted the message that its peer sent last, no
party ever accepts a new number, whatever they send: what a party still accepts, at most
1000 messages, had its key among the skipped keys then. -/
theorem crossing_is_final {P : Primitives} (hencrypt : P.EncryptTotal)
    (hdecrypt : P.DecryptUndoes) (rootKey : RatchetKey) (nPaths : ℕ) (moves later : List Move)
    (horizon : ℕ) (hnumbers : horizon ≤ 2 ^ 64)
    (hdistinct : ChainDistinct (RatchetKey.ops P) rootKey horizon)
    (hreach : ∀ p,
      (runSession P (RatchetKey.ops P) rootKey nPaths (moves ++ later) p).reach ≤ horizon)
    (hideal : Keeps P (RatchetKey.ops P) rootKey nPaths
      (IdealArrival P (RatchetKey.ops P) rootKey horizon nPaths) (moves ++ later))
    (hcrossed : (runSession P (RatchetKey.ops P) rootKey nPaths moves).Crossed) (p : Party) :
    let s := runSession P (RatchetKey.ops P) rootKey nPaths moves
    let s' := runSession P (RatchetKey.ops P) rootKey nPaths (moves ++ later)
    (s' p).channel.lastSeq = (s p).channel.lastSeq ∧
      ∃ rest, acceptedLetters (s' p).events = acceptedLetters (s p).events ++ rest ∧
        rest.length ≤ 1000 ∧
          ∀ letter ∈ rest, ∃ key, (s p).channel.skippedKeys.get? letter.seq = some key := by
  intro s s'
  obtain ⟨-, hstalls⟩ := stalls_run hencrypt hdecrypt (fun _ _ => congrArg RatchetKey.mk) hnumbers
    hdistinct hcrossed later hideal hreach
  obtain ⟨rest, hletters, hrest⟩ := (hstalls p).letters
  refine ⟨expectedSeq_injective (hstalls p).expected, rest, hletters, ?_, fun letter hmem =>
    SecureChannel.toNat_mem_waiting.1 (hrest letter hmem)⟩
  -- The letters have numbers of their own, all from the table of skipped keys.
  have hnodup : (rest.map fun letter => letter.seq.toNat).Nodup := by
    have haccepted := ((OwnRuns.run P (RatchetKey.ops P) rootKey nPaths
      (moves ++ later)).endpointState hencrypt p).books.nodup
    rw [Endpoint.accepted, ← map_seq_acceptedLetters, hletters, List.map_append] at haccepted
    have hseqs := haccepted.of_append_right.map fun _ _ => UInt64.toNat_inj.1
    rwa [List.map_map] at hseqs
  have hcard := ((OwnRuns.run P (RatchetKey.ops P) rootKey nPaths moves).takenState p).card_le
  rw [← List.length_map (fun letter : Letter => letter.seq.toNat),
    ← List.toFinset_card_of_nodup hnodup]
  refine (Finset.card_le_card fun n hn => ?_).trans hcard
  obtain ⟨letter, hmem, rfl⟩ := List.mem_map.1 (List.mem_toFinset.1 hn)
  exact hrest letter hmem

/-- Two messages arrive in the wrong order, and an answer crosses a third. The message that
was passed over still arrives, and nothing else does. -/
theorem crossing_is_final_with_skipped :
    let burst : List Move :=
      [⟨.a, .send (counterSend [10] [1])⟩, ⟨.a, .send (counterSend [11] [2])⟩]
    let moves := thenReceive burst .b 1 ++
      [⟨.b, .send (counterSend [20] [3])⟩, ⟨.a, .send (counterSend [12] [4])⟩]
    let later := (thenReceive (thenReceive moves .b 0) .a 0).drop moves.length
    acceptedLetters (runSession counterPrimitives (RatchetKey.ops counterPrimitives) (counterKey 0)
        2 (moves ++ later) .b).events = [⟨1, [2], [11]⟩, ⟨0, [1], [10]⟩] ∧
      (runSession counterPrimitives (RatchetKey.ops counterPrimitives) (counterKey 0) 2
          (moves ++ later) .b).channel.lastSeq =
        (runSession counterPrimitives (RatchetKey.ops counterPrimitives) (counterKey 0) 2
          moves .b).channel.lastSeq := by
  intro burst moves later
  obtain ⟨hlast, -⟩ := crossing_is_final counter_encryptTotal counter_decryptUndoes (counterKey 0)
    2 moves later 6 (by decide) (counter_chainDistinct (by decide))
    (fun p => by cases p <;> decide +kernel) (by decide +kernel)
    (fun p => by cases p <;> decide +kernel) .b
  exact ⟨by decide +kernel, hlast⟩

/-- **An uncrossed session goes on.** Under the same assumptions, while one of the parties
has accepted the message that its peer sent last, some party can be handed the next number:
its peer's first message that it is not past, unmodified, or else any message that `send`
accepts, once the peer has sent it. -/
theorem uncrossed_session_goes_on {P : Primitives} (hencrypt : P.EncryptTotal)
    (hmac : P.HmacTotal) (hdecrypt : P.DecryptUndoes) (rootKey : RatchetKey) (nPaths : ℕ)
    (hpaths : 0 < nPaths) (moves : List Move) (horizon : ℕ) (hnumbers : horizon < 2 ^ 64)
    (hdistinct : ChainDistinct (RatchetKey.ops P) rootKey horizon)
    (hreach : ∀ p, (runSession P (RatchetKey.ops P) rootKey nPaths moves p).reach ≤ horizon)
    (hideal : Keeps P (RatchetKey.ops P) rootKey nPaths
      (IdealArrival P (RatchetKey.ops P) rootKey horizon nPaths) moves)
    (huncrossed : ¬ (runSession P (RatchetKey.ops P) rootKey nPaths moves).Crossed)
    (args : SendArgs) (hmessageId : args.messageId.length ≤ 256)
    (hpayload : args.payload.length ≤ 992) :
    let K := RatchetKey.ops P
    let s := runSession P K rootKey nPaths moves
    ∃ p later, later.length ≤ 2 ∧ (∀ m ∈ later, ∀ args', m.call = .send args' → args' = args) ∧
      Follows (moveStep P K) Genuine s later ∧
        (runSession P K rootKey nPaths (moves ++ later) p).accepted =
          (s p).accepted ++ [UInt64.ofNat (expectedSeq (s p).channel.lastSeq)] := by
  intro K s
  have hruns := OwnRuns.run P K rootKey nPaths moves
  have hpending := Pending.run hencrypt hdecrypt (fun _ _ => congrArg RatchetKey.mk) hnumbers.le
    hdistinct moves hideal hreach
  have hsent : ∀ p, (s p).sent.length < 2 ^ 64 := fun p =>
    (Nat.le_add_right _ _).trans_lt ((hreach p).trans_lt hnumbers)
  obtain ⟨p, later, hlength, hsends, hgenuine, haccepted⟩ := hpending.goes_on hencrypt hmac
    hdecrypt hpaths hruns hsent huncrossed hmessageId hpayload
  refine ⟨p, later, hlength, hsends, hgenuine, ?_⟩
  rw [runSession, final_append]
  exact haccepted

/-- Two messages are on their way, and one of them can be handed out. -/
theorem uncrossed_session_goes_on_after_burst :
    let moves : List Move :=
      [⟨.a, .send (counterSend [10] [1])⟩, ⟨.a, .send (counterSend [11] [2])⟩]
    let s := runSession counterPrimitives (RatchetKey.ops counterPrimitives) (counterKey 0) 2 moves
    ∃ p later, later.length ≤ 2 ∧
      (runSession counterPrimitives (RatchetKey.ops counterPrimitives) (counterKey 0) 2
          (moves ++ later) p).accepted =
        (s p).accepted ++ [UInt64.ofNat (expectedSeq (s p).channel.lastSeq)] := by
  intro moves s
  have hup : UpToDate s .a := by decide +kernel
  obtain ⟨p, later, hlength, -, -, haccepted⟩ := uncrossed_session_goes_on counter_encryptTotal
    counter_hmacTotal counter_decryptUndoes (counterKey 0) 2 (by decide) moves 6 (by decide)
    (counter_chainDistinct (by decide)) (fun p => by cases p <;> decide +kernel)
    (by decide +kernel) (fun hcrossed => hcrossed .a hup) (counterSend [12] [3]) (by decide)
    (by decide)
  have hs : s = runSession counterPrimitives (RatchetKey.ops counterPrimitives) (counterKey 0) 2
    moves := rfl
  rw [hs]
  exact ⟨p, later, hlength, haccepted⟩

end NullPath
