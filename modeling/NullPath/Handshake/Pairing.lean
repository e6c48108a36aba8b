import NullPath.Handshake.Agreement
import NullPath.Handshake.Encoding

/-!
# Root keys pair sessions

A session ends with a root key at a successful `finalize` or at a successful
`respond` (`ending?`). When the calls draw fresh coins and HKDF does not collide on
what the run feeds to it, no key ends two sessions of one role, whatever payloads
the adversary delivers: two sessions that end with one root key are a `finalize` and
a `respond` over one transcript (`pair_of_rootKey`), and so there is no third. With
an honest responder the other session is there
(`root_keys_pair_sessions`).
-/

namespace NullPath

open Transition

variable {H : HandshakePrimitives}

/-! ## Sessions that have ended -/

/-- The last call of a session that ended with a root key, and the key. -/
def ending? (e : HandshakeEvent H) : Option (LastCall H × RootKey) :=
  match e.input, e.output with
  | .respond priv expected initiation coins, .responded (.ok (_, rootKey)) =>
      some (.respond priv expected initiation coins, rootKey)
  | .finalize session response, .finalized (.ok rootKey) =>
      (e.before.openSession session).map fun state => (.finalize state response, rootKey)
  | _, _ => none

/-- The sessions that have ended in a run, in order. -/
def endings (past : List (HandshakeEvent H)) : List (LastCall H × RootKey) :=
  past.filterMap ending?

/-- What the ended sessions of a run fed to HKDF. -/
def derivedInputs (calls : List (HandshakeCall H)) : List HkdfInput :=
  (endings (handshakeTrace calls)).map fun ending => ending.1.hkdfInput

/-- The party of a session is its responder. -/
def LastCall.isRespond : LastCall H → Bool
  | .finalize _ _ => false
  | .respond _ _ _ _ => true

/-- Two sessions are an initiator's and a responder's, over one transcript. -/
structure LastCall.Pairs (call call' : LastCall H) : Prop where
  roles : call.isRespond ≠ call'.isRespond
  transcript : call.transcript = call'.transcript

theorem LastCall.Pairs.symm {call call' : LastCall H} (h : call.Pairs call') :
    call'.Pairs call :=
  ⟨h.roles.symm, h.transcript.symm⟩

theorem LastCall.Pairs.not_third {call call' third : LastCall H} (h : call.Pairs call')
    (hthird : third.Pairs call) : ¬ third.Pairs call' := by
  intro hthird'
  have hcall := Bool.eq_not_of_ne hthird.roles.symm
  have hcall' := Bool.eq_not_of_ne hthird'.roles.symm
  exact h.roles (hcall.trans hcall'.symm)

/-- The ephemeral key and the nonce that a responder drew. -/
def LastCall.answers : LastCall H → Option (Bytes 32 × Bytes 16)
  | .finalize _ _ => none
  | .respond _ _ _ coins => some (H.x25519PublicKey coins.ephemeralSecret, coins.nonce)

/-- No two successful `respond` calls draw the same ephemeral key and nonce. -/
def FreshAnswers (calls : List (HandshakeCall H)) : Prop :=
  ((handshakeTrace calls).filterMap fun e =>
    (ending? e).bind fun ending => ending.1.answers).Nodup

theorem endings_append (past next : List (HandshakeEvent H)) :
    endings (past ++ next) = endings past ++ endings next :=
  List.filterMap_append

theorem Finalizes.ending {e : HandshakeEvent H} {session : ℕ} {state : InitiatorState H}
    {response : HandshakeResponsePayload H.toKeyFormat} {rootKey : RootKey}
    (h : Finalizes e session state response rootKey) :
    ending? e = some (.finalize state response, rootKey) := by
  rw [ending?, h.input, h.output]
  exact congrArg (Option.map _) h.openSession

theorem ending_cases {e : HandshakeEvent H} {call : LastCall H} {rootKey : RootKey}
    (h : ending? e = some (call, rootKey)) :
    (∃ priv expected initiation coins sent, call = .respond priv expected initiation coins ∧
      e.input = .respond priv expected initiation coins ∧
        e.output = .responded (.ok (sent, rootKey))) ∨
    (∃ session state response, call = .finalize state response ∧
      Finalizes e session state response rootKey) := by
  obtain ⟨before, input, output⟩ := e
  unfold ending? at h
  dsimp only at h
  split at h
  · cases h
    exact Or.inl ⟨_, _, _, _, _, rfl, rfl, rfl⟩
  · obtain ⟨state, hopen, hstate⟩ := Option.map_eq_some_iff.1 h
    cases hstate
    exact Or.inr ⟨_, state, _, rfl, rfl, hopen, rfl⟩
  · cases h

/-- An entry of the list of ended sessions is that of an event, and the entries before it
are those of the events before. -/
theorem event_of_endings {past : List (HandshakeEvent H)} {i : ℕ} {ending : LastCall H × RootKey}
    (h : (endings past)[i]? = some ending) :
    ∃ (n : ℕ) (e : HandshakeEvent H), past[n]? = some e ∧ ending? e = some ending ∧
      (endings (past.take n)).length = i := by
  induction past using List.reverseRecOn with
  | nil => simp [endings] at h
  | append_singleton past e ih =>
      have hbefore : (endings past)[i]? = some ending → ∃ (n : ℕ) (e' : HandshakeEvent H),
          (past ++ [e])[n]? = some e' ∧ ending? e' = some ending ∧
            (endings ((past ++ [e]).take n)).length = i := by
        intro hold
        obtain ⟨n, e', he, hending, hcount⟩ := ih hold
        have hn := (List.getElem?_eq_some_iff.1 he).1
        refine ⟨n, e', ?_, hending, ?_⟩
        · rw [List.getElem?_append_left hn]
          exact he
        · rw [List.take_append_of_le_length hn.le]
          exact hcount
      rw [endings, filterMap_concat] at h
      cases hending : ending? e with
      | none =>
          rw [hending, Option.toList_none, List.append_nil] at h
          exact hbefore h
      | some found =>
          rw [hending, Option.toList_some] at h
          rcases getElem?_concat_cases h with hold | ⟨rfl, rfl⟩
          · exact hbefore hold
          · refine ⟨past.length, e, List.getElem?_concat_length, hending, ?_⟩
            rw [List.take_left]
            rfl

theorem unforged_of_none_honest (calls : List (HandshakeCall H)) :
    UnforgedRun (fun _ => False) calls := by
  unfold UnforgedRun
  generalize HandshakeWorld.empty = w
  induction calls generalizing w with
  | nil => trivial
  | cons call calls ih => exact ⟨fun _ _ hhonest => hhonest.elim, ih _⟩

section Run

variable {calls : List (HandshakeCall H)}

theorem rootKey_of_ending {n : ℕ} {e : HandshakeEvent H}
    (he : (handshakeTrace calls)[n]? = some e) {call : LastCall H} {rootKey : RootKey}
    (h : ending? e = some (call, rootKey)) : call.rootKey = .ok rootKey := by
  rcases ending_cases h with ⟨priv, expected, initiation, coins, sent, rfl, hinput, houtput⟩ |
    ⟨session, state, response, rfl, hfinalizes⟩
  · rw [output_eq he, hinput] at houtput
    exact LastCall.rootKey_respond (HandshakeReply.responded.inj houtput)
  · exact hfinalizes.finalize_eq he

theorem mem_derivedInputs {n : ℕ} {e : HandshakeEvent H}
    (he : (handshakeTrace calls)[n]? = some e) {ending : LastCall H × RootKey}
    (h : ending? e = some ending) : ending.1.hkdfInput ∈ derivedInputs calls :=
  List.mem_map.2 ⟨ending, List.mem_filterMap.2 ⟨e, List.mem_of_getElem? he, h⟩, rfl⟩

theorem FreshAnswers.not_again (h : FreshAnswers calls) {n n' : ℕ} (hn : n < n')
    {e e' : HandshakeEvent H} (he : (handshakeTrace calls)[n]? = some e)
    (he' : (handshakeTrace calls)[n']? = some e') {ending ending' : LastCall H × RootKey}
    (hending : ending? e = some ending) (hending' : ending? e' = some ending')
    {coins coins' : Bytes 32 × Bytes 16} (hcoins : ending.1.answers = some coins)
    (hcoins' : ending'.1.answers = some coins') : coins ≠ coins' := by
  obtain ⟨hlt, rfl⟩ := List.getElem?_eq_some_iff.1 he
  obtain ⟨hlt', rfl⟩ := List.getElem?_eq_some_iff.1 he'
  have hpairwise := List.pairwise_iff_getElem.1 (List.pairwise_filterMap.1 h)
  refine hpairwise n n' hlt hlt' hn coins ?_ coins' ?_
  · rw [hending]
    exact hcoins
  · rw [hending']
    exact hcoins'

/-- Two sessions that end with one root key have one transcript and different roles. -/
theorem pair_of_rootKey (hkdf : H.CollisionFree {input | input ∈ derivedInputs calls})
    (hfresh : FreshCoins calls) (hanswers : FreshAnswers calls) {n n' : ℕ} (hn : n < n')
    {e e' : HandshakeEvent H} (he : (handshakeTrace calls)[n]? = some e)
    (he' : (handshakeTrace calls)[n']? = some e') {call call' : LastCall H} {rootKey : RootKey}
    (hending : ending? e = some (call, rootKey))
    (hending' : ending? e' = some (call', rootKey)) : call.Pairs call' := by
  have hunforged := unforged_of_none_honest calls
  have htranscript := LastCall.transcript_eq hkdf (mem_derivedInputs he hending)
    (mem_derivedInputs he' hending') (rootKey_of_ending he hending)
    (rootKey_of_ending he' hending')
  refine ⟨?_, htranscript⟩
  rcases ending_cases hending with ⟨priv, expected, initiation, coins, sent, rfl, -⟩ |
    ⟨session, state, response, rfl, hfinalizes⟩
  · rcases ending_cases hending' with
      ⟨priv', expected', initiation', coins', sent', rfl, -⟩ |
      ⟨session', state', response', rfl, hfinalizes'⟩
    · -- Two responders would have drawn the same coins.
      exact absurd (Prod.ext (congrArg SessionTranscript.responderEphemeralPub htranscript)
        (congrArg SessionTranscript.responderNonce htranscript))
        (hanswers.not_again hn he he' hending hending' rfl rfl)
    · exact nofun
  · rcases ending_cases hending' with
      ⟨priv', expected', initiation', coins', sent', rfl, -⟩ |
      ⟨session', state', response', rfl, hfinalizes'⟩
    · exact nofun
    · -- Two initiators would be one session, which does not end twice.
      obtain rfl := session_unique hunforged hfresh he he' hfinalizes.openSession
        hfinalizes'.openSession
        (congrArg SessionTranscript.initiatorEphemeralPub htranscript)
        (congrArg SessionTranscript.initiatorNonce htranscript)
      exact absurd hfinalizes' (hfinalizes.not_again hunforged hn he he')

theorem pair_of_ne (hkdf : H.CollisionFree {input | input ∈ derivedInputs calls})
    (hfresh : FreshCoins calls) (hanswers : FreshAnswers calls) {n n' : ℕ} (hn : n ≠ n')
    {e e' : HandshakeEvent H} (he : (handshakeTrace calls)[n]? = some e)
    (he' : (handshakeTrace calls)[n']? = some e') {call call' : LastCall H} {rootKey : RootKey}
    (hending : ending? e = some (call, rootKey))
    (hending' : ending? e' = some (call', rootKey)) : call.Pairs call' := by
  rcases Nat.lt_or_gt_of_ne hn with hlt | hgt
  · exact pair_of_rootKey hkdf hfresh hanswers hlt he he' hending hending'
  · exact (pair_of_rootKey hkdf hfresh hanswers hgt he' he hending' hending).symm

theorem pair_of_endings (hkdf : H.CollisionFree {input | input ∈ derivedInputs calls})
    (hfresh : FreshCoins calls) (hanswers : FreshAnswers calls) {i j : ℕ} (hij : i ≠ j)
    {ending ending' : LastCall H × RootKey}
    (hi : (endings (handshakeTrace calls))[i]? = some ending)
    (hj : (endings (handshakeTrace calls))[j]? = some ending') (hkey : ending.2 = ending'.2) :
    ending.1.Pairs ending'.1 := by
  have hpairwise : (endings (handshakeTrace calls)).Pairwise fun ending ending' =>
      ending.2 = ending'.2 → ending.1.Pairs ending'.1 := by
    refine List.pairwise_filterMap.2 (List.pairwise_iff_getElem.2 ?_)
    intro n n' hn hn' hlt ending hending ending' hending' hkey
    have hending'' : ending? (handshakeTrace calls)[n'] = some (ending'.1, ending.2) := by
      rw [hkey]
      exact hending'
    exact pair_of_rootKey hkdf hfresh hanswers hlt (List.getElem?_eq_getElem hn)
      (List.getElem?_eq_getElem hn') hending hending''
  obtain ⟨hlt, rfl⟩ := List.getElem?_eq_some_iff.1 hi
  obtain ⟨hlt', rfl⟩ := List.getElem?_eq_some_iff.1 hj
  rcases Nat.lt_or_gt_of_ne hij with hbefore | hafter
  · exact List.pairwise_iff_getElem.1 hpairwise i j hlt hlt' hbefore hkey
  · exact (List.pairwise_iff_getElem.1 hpairwise j i hlt' hlt hafter hkey.symm).symm

theorem Answers.ending {e : HandshakeEvent H} {state : InitiatorState H}
    {response : HandshakeResponsePayload H.toKeyFormat} {rootKey : RootKey}
    (h : Answers e state response rootKey) :
    ∃ call : LastCall H, ending? e = some (call, rootKey) := by
  obtain ⟨priv, expected, initiation, coins, sent, hinput, houtput, -⟩ := h
  refine ⟨.respond priv expected initiation coins, ?_⟩
  rw [ending?, hinput, houtput]

/-- A session that an initiator ends with an honest responder is not the first to end with
its root key. -/
theorem answered_ending (hdh : H.DhCommutes) {honest : VerifyingKey H.toKeyFormat → Prop}
    (h : UnforgedRun honest calls) {i : ℕ} {call : LastCall H} {rootKey : RootKey}
    (hi : (endings (handshakeTrace calls))[i]? = some (call, rootKey))
    (hinitiator : call.isRespond = false) (hhonest : honest call.transcript.responderIdentityPub) :
    ∃ (j : ℕ) (call' : LastCall H), j < i ∧
      (endings (handshakeTrace calls))[j]? = some (call', rootKey) := by
  obtain ⟨n, e, he, hending, rfl⟩ := event_of_endings hi
  rcases ending_cases hending with ⟨priv, expected, initiation, coins, sent, rfl, -⟩ |
    ⟨session, state, response, rfl, hfinalizes⟩
  · cases hinitiator
  · obtain ⟨m, r, hm, hr, hanswer⟩ := answered_before hdh h he hfinalizes hhonest
    obtain ⟨call', hcall'⟩ := hanswer.ending
    have hmem : (call', rootKey) ∈ endings ((handshakeTrace calls).take n) := by
      refine List.mem_filterMap.2 ⟨r, ?_, hcall'⟩
      rw [← List.getElem?_take_of_lt hm] at hr
      exact List.mem_of_getElem? hr
    obtain ⟨j, hj⟩ := List.getElem?_of_mem hmem
    have hlt := (List.getElem?_eq_some_iff.1 hj).1
    refine ⟨j, call', hlt, ?_⟩
    rw [← List.take_append_drop n (handshakeTrace calls), endings_append,
      List.getElem?_append_left hlt]
    exact hj

end Run

/-- **Root keys pair sessions.** The adversary delivers any payloads in any order. Two
sessions that end with one root key are an initiator's and a responder's, over one
transcript. A session that an initiator ends with an honest responder shares its key
with an earlier session of that responder, and with no other. -/
theorem root_keys_pair_sessions (hdh : H.DhCommutes) (honest : VerifyingKey H.toKeyFormat → Prop)
    (calls : List (HandshakeCall H))
    (hkdf : H.CollisionFree {input | input ∈ derivedInputs calls})
    (h : UnforgedRun honest calls) (hfresh : FreshCoins calls) (hanswers : FreshAnswers calls) :
    (∀ (n n' : ℕ) e e' call call' rootKey, n ≠ n' → (handshakeTrace calls)[n]? = some e →
      (handshakeTrace calls)[n']? = some e' → ending? e = some (call, rootKey) →
        ending? e' = some (call', rootKey) → call.Pairs call') ∧
    (∀ (n : ℕ) f session state response rootKey, (handshakeTrace calls)[n]? = some f →
      Finalizes f session state response rootKey → honest state.expectedResponderPub →
        ∃ m r, m < n ∧ (handshakeTrace calls)[m]? = some r ∧
          Answers r state response rootKey ∧
            ∀ (n' : ℕ) e call, (handshakeTrace calls)[n']? = some e →
              ending? e = some (call, rootKey) → n' = n ∨ n' = m) := by
  constructor
  · intro n n' e e' call call' rootKey hn he he' hending hending'
    exact pair_of_ne hkdf hfresh hanswers hn he he' hending hending'
  · intro n f session state response rootKey hf hfinalizes hhonest
    obtain ⟨m, r, hm, hr, hanswer⟩ := answered_before hdh h hf hfinalizes hhonest
    obtain ⟨answered, hanswered⟩ := hanswer.ending
    refine ⟨m, r, hm, hr, hanswer, fun n' e call he hending => ?_⟩
    by_contra hother
    obtain ⟨hfinal, hmiddle⟩ := not_or.1 hother
    have hpair := pair_of_rootKey hkdf hfresh hanswers hm hr hf hanswered hfinalizes.ending
    exact hpair.symm.not_third
      (pair_of_ne hkdf hfresh hanswers hfinal he hf hending hfinalizes.ending)
      (pair_of_ne hkdf hfresh hanswers hmiddle he hr hending hanswered)

theorem collisionFree_of_forall {inputs : List HkdfInput}
    (h : ∀ a ∈ inputs, ∀ b ∈ inputs,
      H.hkdfSha256 a.salt a.inputKey a.info = H.hkdfSha256 b.salt b.inputKey b.info → a = b) :
    H.CollisionFree {input | input ∈ inputs} :=
  fun a ha b hb heq => h a ha b hb heq

theorem redirected_freshAnswers : FreshAnswers redirectedCalls := by
  unfold FreshAnswers
  decide +kernel

theorem redirected_finalizes :
    let state := (initiate modularPrimitives (modularKey 7)
      ((modularKey 8).verifyingKey modularPrimitives) (modularCoins 3)).1
    ∃ (f : HandshakeEvent modularPrimitives)
      (response : HandshakeResponsePayload modularPrimitives.toKeyFormat) (rootKey : RootKey),
      (handshakeTrace redirectedCalls)[4]? = some f ∧ Finalizes f 0 state response rootKey := by
  intro state
  let opening := (initiate modularPrimitives (modularKey 7)
    ((modularKey 8).verifyingKey modularPrimitives) (modularCoins 3)).2
  let response := responsePayload (modularKey 8) opening (modularCoins 6)
  have hverify := verify_responsePayload modular_verifiesSigned (modularKey 8) opening
    (modularCoins 6)
  obtain ⟨rootKey, hkey⟩ := exists_deriveRootKey modular_hkdfTotal
    (state.ephemeral.diffieHellman response.responderEphemeralPub) state.identityPub
    state.expectedResponderPub state.ephemeralPub response.responderEphemeralPub state.nonce
    response.nonce
  have hfinalize : state.finalize response = .ok rootKey :=
    finalize_eq_ok_iff.2 ⟨rfl, hverify, hkey⟩
  have hf := getElem?_trace handshakeStep HandshakeWorld.empty redirectedCalls 4
  exact ⟨_, response, rootKey, hf, rfl, rfl, congrArg HandshakeReply.finalized hfinalize⟩

/-- In the run with a redirected initiation the key of the session is held once more. -/
theorem root_keys_pair_sessions_redirected :
    ∃ (f : HandshakeEvent modularPrimitives) (ending : LastCall modularPrimitives × RootKey)
      (m : ℕ), (handshakeTrace redirectedCalls)[4]? = some f ∧ ending? f = some ending ∧
        m < 4 ∧ ∀ (n : ℕ) e call, (handshakeTrace redirectedCalls)[n]? = some e →
          ending? e = some (call, ending.2) → n = 4 ∨ n = m := by
  obtain ⟨f, response, rootKey, hf, hfinalizes⟩ := redirected_finalizes
  obtain ⟨m, r, hm, -, -, honly⟩ := (root_keys_pair_sessions modular_dhCommutes (fun _ => True)
    redirectedCalls (collisionFree_of_forall (by decide +kernel)) redirected_unforged
    redirected_freshCoins redirected_freshAnswers).2 4 f 0 _ response rootKey hf hfinalizes trivial
  exact ⟨f, _, m, hf, hfinalizes.ending, hm, honly⟩

end NullPath
