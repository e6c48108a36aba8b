import NullPath.Channel.AtMostOnce

/-!
# Where an endpoint's ratchet stands

Both directions of a channel step one chain: a `send` steps it once, a forward
arrival as often as numbers are passed, a late arrival not at all. So after any
run the current key is as far along the chain as messages were sent plus
numbers expected, whatever the order of the calls was. It follows under which
chain key each message is sealed (`SentState`).
-/

namespace NullPath

open Transition

variable {κ : Type*} {P : Primitives} {K : KeyOps κ}

/-- What is known of an endpoint that has sent `sent` messages and accepted the
numbers `accepted`: its bookkeeping, the position of its current key and the
number of its next message. -/
structure EndpointState (K : KeyOps κ) (rootKey : κ) (nPaths sent : ℕ)
    (accepted : List UInt64) (channel : SecureChannel κ) : Prop where
  books : Bookkeeping accepted channel
  last_accepted : ∀ last, channel.lastSeq = some last → last ∈ accepted
  currentKey : channel.currentKey = chain K rootKey (sent + expectedSeq channel.lastSeq)
  nextSendSeq : nextSendSeq channel.sendSeq = UInt64.ofNat sent
  nPaths : channel.nPaths = nPaths

namespace EndpointState

variable {rootKey : κ} {nPaths sent : ℕ} {accepted : List UInt64}
  {channel channel' : SecureChannel κ}

theorem new (rootKey : κ) (nPaths : ℕ) :
    EndpointState K rootKey nPaths 0 [] (SecureChannel.new rootKey nPaths) where
  books := Bookkeeping.new rootKey nPaths
  last_accepted last h := by cases h
  currentKey := rfl
  nextSendSeq := rfl
  nPaths := rfl

theorem advance (h : EndpointState K rootKey nPaths sent accepted channel) :
    EndpointState K rootKey nPaths (sent + 1) accepted (advanceSender K channel) := by
  refine ⟨h.books.advanceSender, h.last_accepted, ?_, ?_, h.nPaths⟩
  · rw [Nat.add_right_comm, chain_succ]
    exact congrArg K.deriveNext h.currentKey
  · change NullPath.nextSendSeq channel.sendSeq + 1 = _
    rw [h.nextSendSeq, UInt64.ofNat_add]
    rfl

theorem opened (h : EndpointState K rootKey nPaths sent accepted channel) (args : ReceiveArgs)
    {target : Target κ}
    (htarget : channel.computeTargetKey K args.seq args.messageId = .ok target) :
    EndpointState K rootKey nPaths sent (accepted ++ [args.seq])
      ({ channel with
        antiReplay :=
          (channel.antiReplay.checkAndInsert args.now args.seq args.messageId).2 }.commit
        args.seq target) := by
  have hfresh := h.books.fresh_of_target htarget
  rcases computeTargetKey_cases htarget with hforward | hlate
  · have hbooks := h.books.forward hfresh args.now args.messageId hforward
    have hkeys := hforward.keys_of_chain h.currentKey
    rw [commit_forward _ args.seq hforward.isForward hkeys.2] at hbooks ⊢
    refine ⟨hbooks, fun last hlast => ?_, rfl, h.nextSendSeq, h.nPaths⟩
    rw [Option.some.inj hlast]
    exact List.mem_append_right _ (List.mem_singleton_self _)
  · have hbooks := h.books.late hfresh args.now args.messageId hlate
    rw [commit_late _ args.seq hlate.isForward] at hbooks ⊢
    exact ⟨hbooks, fun last hlast => List.mem_append_left _ (h.last_accepted last hlast),
      h.currentKey, h.nextSendSeq, h.nPaths⟩

theorem preserved (hencrypt : P.EncryptTotal) {call : Call} {reply : Reply}
    (h : EndpointState K rootKey nPaths sent accepted channel)
    (heffect : CallEffect P K channel call reply channel') :
    EndpointState K rootKey nPaths
      (sent + (sentMessage? ⟨channel, call, reply⟩).toList.length)
      (accepted ++ (acceptedSeq? ⟨channel, call, reply⟩).toList) channel' := by
  cases heffect with
  | notSent => simpa [sentMessage?, acceptedSeq?] using h
  | lost _ hlost => exact absurd hencrypt hlost
  | sent => simpa [sentMessage?, acceptedSeq?] using h.advance
  | refused => simpa [sentMessage?, acceptedSeq?] using h
  | stale args target payload hsteps hstale =>
      rw [h.books.checkAndInsert_of_target args.now hsteps.computeTargetKey] at hstale
      cases hstale
  | opened args target payload hsteps => exact h.opened args hsteps.computeTargetKey

theorem run (hencrypt : P.EncryptTotal) (K : KeyOps κ) (rootKey : κ) (nPaths : ℕ)
    (calls : List Call) :
    EndpointState K rootKey nPaths
      (sentMessages (runTrace P K rootKey nPaths calls)).length
      (acceptedSeqs (runTrace P K rootKey nPaths calls))
      (runChannel P K rootKey nPaths calls) := by
  refine run_induction (fun _ => True)
    (motive := fun past channel => EndpointState K rootKey nPaths (sentMessages past).length
      (acceptedSeqs past) channel)
    (EndpointState.new rootKey nPaths) ?_ calls fun _ _ => trivial
  intro past channel call reply channel' _ h heffect
  rw [sentMessages_concat, acceptedSeqs_concat, List.length_append]
  exact h.preserved hencrypt heffect

theorem expectedSeq_le (h : EndpointState K rootKey nPaths sent accepted channel) {n : ℕ}
    (hbound : ∀ s ∈ accepted, s.toNat < n) : expectedSeq channel.lastSeq ≤ n := by
  cases hlast : channel.lastSeq with
  | none => exact Nat.zero_le n
  | some last => exact hbound last (h.last_accepted last hlast)

end EndpointState

/-- What a successful `send` returned was sealed under the key and number the
channel had. -/
theorem CallEffect.sends {channel channel' : SecureChannel κ} {call : Call} {reply : Reply}
    {args : SendArgs} {slots : List Envelope} (h : CallEffect P K channel call reply channel')
    (hsent : sentMessage? ⟨channel, call, reply⟩ = some (args, slots)) :
    Sends P (K.bytes channel.currentKey) (NullPath.nextSendSeq channel.sendSeq) channel.nPaths
      args.coins args.payload args.messageId slots := by
  cases h with
  | sent _ _ hsends =>
      cases hsent
      exact hsends
  | _ => cases hsent

theorem CallEffect.expectedSeq_le {channel channel' : SecureChannel κ} {call : Call}
    {reply : Reply} (h : CallEffect P K channel call reply channel') :
    expectedSeq channel.lastSeq ≤ expectedSeq channel'.lastSeq := by
  cases h with
  | opened args target payload hsteps =>
      rcases computeTargetKey_cases hsteps.computeTargetKey with hforward | hlate
      · rw [commit_forward _ args.seq hforward.isForward hforward.nextRatchetKey,
          expectedSeq_some]
        exact hforward.expected_le.trans (Nat.le_succ _)
      · rw [commit_late _ args.seq hlate.isForward]
  | _ => exact Nat.le_refl _

/-- What an endpoint has sent: message `i`, sent when its sender expected number
`expected`, is sealed under chain key `i + expected` and number `i`. -/
structure SentState (P : Primitives) (K : KeyOps κ) (rootKey : κ) (nPaths : ℕ)
    (past : List (ChannelEvent κ)) (channel : SecureChannel κ) : Prop where
  endpoint : EndpointState K rootKey nPaths (sentMessages past).length (acceptedSeqs past)
    channel
  expected_le : ∀ expected ∈ expectedWhenSent past, expected ≤ expectedSeq channel.lastSeq
  sends : ∀ i expected args slots, (sentMessages past)[i]? = some (args, slots) →
    (expectedWhenSent past)[i]? = some expected →
      Sends P (K.bytes (chain K rootKey (i + expected))) (UInt64.ofNat i) nPaths args.coins
        args.payload args.messageId slots

namespace SentState

variable {rootKey : κ} {nPaths : ℕ} {past : List (ChannelEvent κ)}
  {channel channel' : SecureChannel κ}

theorem new (P : Primitives) (K : KeyOps κ) (rootKey : κ) (nPaths : ℕ) :
    SentState P K rootKey nPaths [] (SecureChannel.new rootKey nPaths) where
  endpoint := EndpointState.new rootKey nPaths
  expected_le _ h := by cases h
  sends _ _ _ _ h := by cases h

theorem preserved (hencrypt : P.EncryptTotal) {call : Call} {reply : Reply}
    (h : SentState P K rootKey nPaths past channel)
    (heffect : CallEffect P K channel call reply channel') :
    SentState P K rootKey nPaths (past ++ [⟨channel, call, reply⟩]) channel' := by
  have hendpoint := h.endpoint.preserved hencrypt heffect
  rw [← List.length_append, ← sentMessages_concat, ← acceptedSeqs_concat] at hendpoint
  have hexpected := heffect.expectedSeq_le
  have hmessages := sentMessages_concat past ⟨channel, call, reply⟩
  have hnumbers := expectedWhenSent_concat past ⟨channel, call, reply⟩
  cases hsent : sentMessage? ⟨channel, call, reply⟩ with
  | none =>
      rw [hsent, Option.toList_none, List.append_nil] at hmessages
      rw [hsent, Option.map_none, Option.toList_none, List.append_nil] at hnumbers
      refine ⟨hendpoint, ?_, ?_⟩
      · rw [hnumbers]
        exact fun expected hmem => (h.expected_le expected hmem).trans hexpected
      · rw [hmessages, hnumbers]
        exact h.sends
  | some message =>
      obtain ⟨args, slots⟩ := message
      have hsends := heffect.sends hsent
      rw [h.endpoint.currentKey, h.endpoint.nextSendSeq, h.endpoint.nPaths] at hsends
      rw [hsent, Option.toList_some] at hmessages
      rw [hsent, Option.map_some, Option.toList_some] at hnumbers
      refine ⟨hendpoint, ?_, ?_⟩
      · rw [hnumbers]
        intro expected hmem
        rcases List.mem_append.1 hmem with hmem | hmem
        · exact (h.expected_le expected hmem).trans hexpected
        · rw [List.mem_singleton.1 hmem]
          exact hexpected
      · rw [hmessages, hnumbers]
        intro i expected args' slots' hi hn
        have hlength := length_expectedWhenSent past
        rcases getElem?_concat_cases hi with hold | ⟨rfl, heq⟩
        · have hlt := (List.getElem?_eq_some_iff.1 hold).1
          rw [List.getElem?_append_left (hlength ▸ hlt)] at hn
          exact h.sends i expected args' slots' hold hn
        · rw [← hlength, List.getElem?_concat_length] at hn
          cases heq
          cases hn
          exact hsends

theorem run (hencrypt : P.EncryptTotal) (K : KeyOps κ) (rootKey : κ) (nPaths : ℕ)
    (calls : List Call) :
    SentState P K rootKey nPaths (runTrace P K rootKey nPaths calls)
      (runChannel P K rootKey nPaths calls) := by
  refine run_induction (fun _ => True) (motive := SentState P K rootKey nPaths)
    (SentState.new P K rootKey nPaths) ?_ calls fun _ _ => trivial
  intro past channel call reply channel' _ h heffect
  exact h.preserved hencrypt heffect

end SentState

end NullPath
