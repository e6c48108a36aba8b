import NullPath.Handshake.Completion
import NullPath.Handshake.Run

/-!
# Agreement of the two parties

In a run in which no signature of an honest party is forged, an initiator that
finalizes with an honest responder agrees with one call of that responder on the
identities, the ephemeral keys, the nonces and the root key, and no two of its
sessions agree with the same call (`initiator_agreement`). A responder accepts an
initiation of an honest initiator only when that initiator made it for this
responder (`responder_authentication`).

Both rest on what a signature pins: a signed response message stems from a `respond`
call with these parameters (`responds_of_signs`), a signed initiation message from
an `initiate` call (`initiates_of_signs`), and neither passes for the other.
-/

namespace NullPath

open Transition

variable {H : HandshakePrimitives}

/-! ## What a call did -/

/-- A successful `finalize` of an open session. -/
structure Finalizes (e : HandshakeEvent H) (session : ℕ) (state : InitiatorState H)
    (response : HandshakeResponsePayload H.toKeyFormat) (rootKey : RootKey) : Prop where
  input : e.input = .finalize session response
  openSession : e.before.openSession session = some state
  output : e.output = .finalized (.ok rootKey)

/-- A successful `respond` by the expected responder of a session. It processed an
initiation with the identity, ephemeral key and nonce of the session, produced the
ephemeral key and nonce of the response, and returned the root key. -/
def Answers (e : HandshakeEvent H) (state : InitiatorState H)
    (response : HandshakeResponsePayload H.toKeyFormat) (rootKey : RootKey) : Prop :=
  ∃ priv expected initiation coins sent,
    e.input = .respond priv expected initiation coins ∧
      e.output = .responded (.ok (sent, rootKey)) ∧
        priv.verifyingKey H = state.expectedResponderPub ∧
          initiation.initiatorIdentityPub = state.identityPub ∧
            initiation.initiatorEphemeralPub = state.ephemeralPub ∧
              initiation.nonce = state.nonce ∧
                sent.responderIdentityPub = response.responderIdentityPub ∧
                  sent.responderEphemeralPub = response.responderEphemeralPub ∧
                    sent.nonce = response.nonce

/-- An `initiate` by a party, with the given responder, ephemeral key and nonce. -/
def Initiates (e : HandshakeEvent H) (initiator responder : VerifyingKey H.toKeyFormat)
    (ephemeralPub : Bytes 32) (nonce : Bytes 16) : Prop :=
  ∃ priv coins payload, e.input = .initiate priv responder coins ∧
    e.output = .initiated payload ∧ priv.verifyingKey H = initiator ∧
      payload.initiatorEphemeralPub = ephemeralPub ∧ payload.nonce = nonce

/-- No two `initiate` calls draw the same ephemeral key and nonce. -/
def FreshCoins (calls : List (HandshakeCall H)) : Prop :=
  ((calls.filterMap HandshakeCall.opens).map fun state =>
    (state.ephemeralPub, state.nonce)).Nodup

/-! ## What a signature pins -/

theorem initiate_of_opens {call : HandshakeCall H} {state : InitiatorState H}
    (h : call.opens = some state) : ∃ priv expected coins,
      call = .initiate priv expected coins ∧ state = (initiate H priv expected coins).1 := by
  cases call with
  | initiate priv expected coins => exact ⟨priv, expected, coins, rfl, (Option.some.inj h).symm⟩
  | respond priv expected initiation coins => cases h
  | finalize session response => cases h

theorem signs_respond {priv : IdentityPrivateKey}
    {expected : Option (VerifyingKey H.toKeyFormat)}
    {initiation : HandshakeInitPayload H.toKeyFormat} {coins : HandshakeCoins}
    {signed : VerifyingKey H.toKeyFormat × List UInt8}
    (h : (HandshakeCall.respond priv expected initiation coins).signs = some signed) :
    (∀ peer ∈ expected, initiation.initiatorIdentityPub = peer) ∧
      H.verify initiation.initiatorIdentityPub
        (initiationMessage initiation.initiatorIdentityPub (priv.verifyingKey H)
          initiation.initiatorEphemeralPub initiation.nonce) initiation.signature = true ∧
        signed = (priv.verifyingKey H, responseMessage (priv.verifyingKey H)
          initiation.initiatorIdentityPub (H.x25519PublicKey coins.ephemeralSecret)
          initiation.initiatorEphemeralPub coins.nonce initiation.nonce) := by
  rw [← checkInitiator_eq_ok_iff, ← verifyInitiation_eq_ok_iff]
  simp only [HandshakeCall.signs] at h
  split at h
  · next hpeer hverify => exact ⟨hpeer, hverify, (Option.some.inj h).symm⟩
  · cases h

theorem responds_of_signs {call : HandshakeCall H}
    {key responder initiator : VerifyingKey H.toKeyFormat}
    {responderEphemeralPub initiatorEphemeralPub : Bytes 32}
    {responderNonce initiatorNonce : Bytes 16}
    (h : call.signs = some (key, responseMessage responder initiator responderEphemeralPub
      initiatorEphemeralPub responderNonce initiatorNonce)) :
    ∃ priv expected initiation coins, call = .respond priv expected initiation coins ∧
      (∀ peer ∈ expected, initiation.initiatorIdentityPub = peer) ∧
        H.verify initiation.initiatorIdentityPub
          (initiationMessage initiation.initiatorIdentityPub (priv.verifyingKey H)
            initiation.initiatorEphemeralPub initiation.nonce) initiation.signature = true ∧
          responder = priv.verifyingKey H ∧ initiator = initiation.initiatorIdentityPub ∧
            responderEphemeralPub = H.x25519PublicKey coins.ephemeralSecret ∧
              initiatorEphemeralPub = initiation.initiatorEphemeralPub ∧
                responderNonce = coins.nonce ∧ initiatorNonce = initiation.nonce := by
  cases call with
  | initiate priv expected coins =>
      have hmessage := (Prod.mk.inj (Option.some.inj h)).2
      exact absurd hmessage initiationMessage_ne_responseMessage
  | respond priv expected initiation coins =>
      obtain ⟨hpeer, hverify, hsigned⟩ := signs_respond h
      exact ⟨priv, expected, initiation, coins, rfl, hpeer, hverify,
        responseMessage_inj (Prod.mk.inj hsigned).2⟩
  | finalize session response => cases h

theorem initiates_of_signs {call : HandshakeCall H}
    {key initiator responder : VerifyingKey H.toKeyFormat} {ephemeralPub : Bytes 32}
    {nonce : Bytes 16}
    (h : call.signs = some (key, initiationMessage initiator responder ephemeralPub nonce)) :
    ∃ priv coins, call = .initiate priv responder coins ∧ priv.verifyingKey H = initiator ∧
      H.x25519PublicKey coins.ephemeralSecret = ephemeralPub ∧ coins.nonce = nonce := by
  cases call with
  | initiate priv expected coins =>
      have hmessage := (Prod.mk.inj (Option.some.inj h)).2
      obtain ⟨hinitiator, rfl, hephemeral, hnonce⟩ := initiationMessage_inj hmessage
      exact ⟨priv, coins, rfl, hinitiator, hephemeral, hnonce⟩
  | respond priv expected initiation coins =>
      obtain ⟨-, -, hsigned⟩ := signs_respond h
      exact absurd (Prod.mk.inj hsigned).2 initiationMessage_ne_responseMessage
  | finalize session response => cases h

/-! ## Events of an unforged run -/

section Run

variable {honest : VerifyingKey H.toKeyFormat → Prop} {calls : List (HandshakeCall H)}

theorem exists_of_mem_signedIn {past : List (HandshakeEvent H)}
    {signed : VerifyingKey H.toKeyFormat × List UInt8} (h : signed ∈ signedIn past) :
    ∃ (m : ℕ) (e : HandshakeEvent H), past[m]? = some e ∧ e.input.signs = some signed := by
  obtain ⟨e, he, hsigns⟩ := List.mem_filterMap.1 h
  obtain ⟨m, hm⟩ := List.mem_iff_getElem?.1 he
  exact ⟨m, e, hm, hsigns⟩

theorem output_eq {n : ℕ} {e : HandshakeEvent H} (he : (handshakeTrace calls)[n]? = some e) :
    e.output = (handshakeStep e.before e.input).1 :=
  congrArg Event.output (eq_event_of_mem_trace handshakeStep (List.mem_of_getElem? he))

/-- What a call checked under an honest key and found correct was signed in an
earlier event. -/
theorem signed_before (h : UnforgedRun honest calls) {n : ℕ} {e : HandshakeEvent H}
    (he : (handshakeTrace calls)[n]? = some e) {check : SignatureCheck H}
    (hcheck : e.before.checks e.input = some check) (hhonest : honest check.key)
    (hverify : H.verify check.key check.message check.signature = true) :
    ∃ m r, m < n ∧ (handshakeTrace calls)[m]? = some r ∧
      r.input.signs = some (check.key, check.message) := by
  have hsigned := allowed_of_getElem?_trace handshakeStep h he check hcheck hhonest hverify
  rw [(Records.at_event h he).signed_eq] at hsigned
  obtain ⟨m, r, hr, hsigns⟩ := exists_of_mem_signedIn hsigned
  rw [List.getElem?_take] at hr
  split at hr
  · next hm => exact ⟨m, r, hm, hr, hsigns⟩
  · cases hr

theorem initiated_before (h : UnforgedRun honest calls) {n : ℕ} {e : HandshakeEvent H}
    (he : (handshakeTrace calls)[n]? = some e) {priv : IdentityPrivateKey}
    {expected : Option (VerifyingKey H.toKeyFormat)}
    {initiation : HandshakeInitPayload H.toKeyFormat} {coins : HandshakeCoins}
    (hinput : e.input = .respond priv expected initiation coins)
    (hhonest : honest initiation.initiatorIdentityPub)
    (hverify : H.verify initiation.initiatorIdentityPub
      (initiationMessage initiation.initiatorIdentityPub (priv.verifyingKey H)
        initiation.initiatorEphemeralPub initiation.nonce) initiation.signature = true) :
    ∃ m r, m < n ∧ (handshakeTrace calls)[m]? = some r ∧
      Initiates r initiation.initiatorIdentityPub (priv.verifyingKey H)
        initiation.initiatorEphemeralPub initiation.nonce := by
  have hcheck : e.before.checks e.input = some ⟨initiation.initiatorIdentityPub,
      initiationMessage initiation.initiatorIdentityPub (priv.verifyingKey H)
        initiation.initiatorEphemeralPub initiation.nonce, initiation.signature⟩ := by
    rw [hinput]
    rfl
  obtain ⟨m, r, hm, hr, hsigns⟩ := signed_before h he hcheck hhonest hverify
  obtain ⟨initiatorPriv, initiatorCoins, hcall, hkey, hephemeral, hnonce⟩ :=
    initiates_of_signs hsigns
  have houtput : r.output = .initiated (initiate H initiatorPriv (priv.verifyingKey H)
      initiatorCoins).2 := by
    rw [output_eq hr, hcall]
    rfl
  exact ⟨m, r, hm, hr, initiatorPriv, initiatorCoins, _, hcall, houtput, hkey, hephemeral, hnonce⟩

theorem ephemeralPub_of_openSession (h : UnforgedRun honest calls) {n : ℕ}
    {e : HandshakeEvent H} (he : (handshakeTrace calls)[n]? = some e) {session : ℕ}
    {state : InitiatorState H} (hopen : e.before.openSession session = some state) :
    state.ephemeralPub = H.x25519PublicKey state.ephemeral.secret := by
  have hlive := (Records.at_event h he).live hopen
  obtain ⟨opening, -, hopens⟩ := List.mem_filterMap.1 (List.mem_of_getElem? hlive)
  obtain ⟨priv, expected, coins, -, rfl⟩ := initiate_of_opens hopens
  rfl

theorem Finalizes.finalize_eq {n : ℕ} {e : HandshakeEvent H}
    (he : (handshakeTrace calls)[n]? = some e) {session : ℕ} {state : InitiatorState H}
    {response : HandshakeResponsePayload H.toKeyFormat} {rootKey : RootKey}
    (h : Finalizes e session state response rootKey) :
    state.finalize response = .ok rootKey := by
  have houtput := output_eq he
  rw [h.output, h.input] at houtput
  obtain ⟨state', hopen, hfinalize, -⟩ := handshakeStep_finalize houtput.symm
  rw [h.openSession] at hopen
  cases hopen
  exact hfinalize

/-- A session that finalizes with an honest responder was answered by it. -/
theorem answered_before (hdh : H.DhCommutes) (h : UnforgedRun honest calls) {n : ℕ}
    {f : HandshakeEvent H} (hf : (handshakeTrace calls)[n]? = some f) {session : ℕ}
    {state : InitiatorState H} {response : HandshakeResponsePayload H.toKeyFormat}
    {rootKey : RootKey} (hfinalizes : Finalizes f session state response rootKey)
    (hhonest : honest state.expectedResponderPub) :
    ∃ m r, m < n ∧ (handshakeTrace calls)[m]? = some r ∧ Answers r state response rootKey := by
  obtain ⟨hidentity, hverify, hkey⟩ :=
    finalize_eq_ok_iff.1 (hfinalizes.finalize_eq hf)
  have hcheck : f.before.checks f.input = some ⟨state.expectedResponderPub,
      responseMessage state.expectedResponderPub state.identityPub
        response.responderEphemeralPub state.ephemeralPub response.nonce state.nonce,
      response.signature⟩ := by
    rw [hfinalizes.input, HandshakeWorld.checks, hfinalizes.openSession]
    rfl
  obtain ⟨m, r, hm, hr, hsigns⟩ := signed_before h hf hcheck hhonest hverify
  obtain ⟨priv, expected, initiation, coins, hcall, hpeer, hinitiation, hresponder, hinitiator,
    hresponderEphemeral, hinitiatorEphemeral, hresponderNonce, hinitiatorNonce⟩ :=
    responds_of_signs hsigns
  -- The two sides derive the root key from the same secret and the same transcript.
  have hephemeral := ephemeralPub_of_openSession h hf hfinalizes.openSession
  have hkey' : deriveRootKey H ⟨H.x25519DiffieHellman coins.ephemeralSecret
      initiation.initiatorEphemeralPub⟩ initiation.initiatorIdentityPub (priv.verifyingKey H)
      initiation.initiatorEphemeralPub (H.x25519PublicKey coins.ephemeralSecret)
      initiation.nonce coins.nonce = .ok rootKey := by
    rw [← hinitiatorEphemeral, hephemeral, hdh, ← hephemeral, ← hinitiator, ← hresponder,
      ← hresponderEphemeral, ← hinitiatorNonce, ← hresponderNonce]
    exact hkey
  refine ⟨m, r, hm, hr, priv, expected, initiation, coins, responsePayload priv initiation coins,
    hcall, ?_, hresponder.symm, hinitiator.symm, hinitiatorEphemeral.symm,
    hinitiatorNonce.symm, ?_, hresponderEphemeral.symm, hresponderNonce.symm⟩
  · rw [output_eq hr, hcall]
    exact congrArg HandshakeReply.responded
      (respond_eq_ok_iff.2 ⟨hpeer, hinitiation, rfl, hkey'⟩)
  · rw [hidentity, hresponder]
    rfl

theorem opens_of_opened_take {n i : ℕ} {state : InitiatorState H}
    (h : (opened ((handshakeTrace calls).take n))[i]? = some state) :
    (calls.filterMap HandshakeCall.opens)[i]? = some state := by
  have hall : calls.filterMap HandshakeCall.opens = opened (handshakeTrace calls) := by
    have hinputs := trace_inputs handshakeStep HandshakeWorld.empty calls
    calc calls.filterMap HandshakeCall.opens
        = ((handshakeTrace calls).map Event.input).filterMap HandshakeCall.opens :=
          congrArg (List.filterMap HandshakeCall.opens) hinputs.symm
      _ = opened (handshakeTrace calls) := List.filterMap_map
  have hsplit : opened (handshakeTrace calls) = opened ((handshakeTrace calls).take n) ++
      opened ((handshakeTrace calls).drop n) := by
    unfold opened
    rw [← List.filterMap_append, List.take_append_drop]
  rw [hall, hsplit, List.getElem?_append_left (List.getElem?_eq_some_iff.1 h).1]
  exact h

theorem Finalizes.not_again (h : UnforgedRun honest calls) {n n' : ℕ} (hn : n < n')
    {f f' : HandshakeEvent H} (hf : (handshakeTrace calls)[n]? = some f)
    (hf' : (handshakeTrace calls)[n']? = some f') {session : ℕ} {state state' : InitiatorState H}
    {response response' : HandshakeResponsePayload H.toKeyFormat} {rootKey rootKey' : RootKey}
    (hfinalizes : Finalizes f session state response rootKey) :
    ¬ Finalizes f' session state' response' rootKey' := by
  intro hagain
  have hpast : f ∈ (handshakeTrace calls).take n' := by
    rw [← List.getElem?_take_of_lt hn] at hf
    exact List.mem_of_getElem? hf
  have hclosed := (Records.at_event h hf').closed hpast hfinalizes.input hfinalizes.output
  have hopen := HandshakeWorld.openSession_eq_some_iff.1 hagain.openSession
  rw [hclosed] at hopen
  cases hopen

/-- Two sessions with the same ephemeral key and nonce are the same session. -/
theorem session_unique (h : UnforgedRun honest calls) (hfresh : FreshCoins calls) {n n' : ℕ}
    {f f' : HandshakeEvent H} (hf : (handshakeTrace calls)[n]? = some f)
    (hf' : (handshakeTrace calls)[n']? = some f') {session session' : ℕ}
    {state state' : InitiatorState H} (hopen : f.before.openSession session = some state)
    (hopen' : f'.before.openSession session' = some state')
    (hephemeral : state.ephemeralPub = state'.ephemeralPub) (hnonce : state.nonce = state'.nonce) :
    session = session' := by
  have hopened := opens_of_opened_take ((Records.at_event h hf).live hopen)
  have hopened' := opens_of_opened_take ((Records.at_event h hf').live hopen')
  have hsame : (((calls.filterMap HandshakeCall.opens).map fun state =>
      (state.ephemeralPub, state.nonce))[session]?) =
        ((calls.filterMap HandshakeCall.opens).map fun state =>
          (state.ephemeralPub, state.nonce))[session']? := by
    rw [List.getElem?_map, List.getElem?_map, hopened, hopened', Option.map_some,
      Option.map_some, hephemeral, hnonce]
  refine (List.getElem?_inj ?_ hfresh).1 hsame
  rw [List.length_map]
  exact (List.getElem?_eq_some_iff.1 hopened).1

end Run

/-! ## A run with a redirected initiation -/

/-- An initiator opens two sessions, with responders 8 and 9. Responder 8 is first
given the initiation that was made for responder 9. -/
def redirectedCalls : List (HandshakeCall modularPrimitives) :=
  let initiator := modularKey 7
  let responder := modularKey 8
  let other := modularKey 9
  let opening :=
    (initiate modularPrimitives initiator (responder.verifyingKey modularPrimitives)
      (modularCoins 3)).2
  let redirected :=
    (initiate modularPrimitives initiator (other.verifyingKey modularPrimitives)
      (modularCoins 4)).2
  [.initiate initiator (responder.verifyingKey modularPrimitives) (modularCoins 3),
    .initiate initiator (other.verifyingKey modularPrimitives) (modularCoins 4),
    .respond responder none redirected (modularCoins 5),
    .respond responder none opening (modularCoins 6),
    .finalize 0 (responsePayload responder opening (modularCoins 6))]

theorem redirected_unforged : UnforgedRun (fun _ => True) redirectedCalls := by
  decide +kernel

theorem redirected_freshCoins : FreshCoins redirectedCalls := by
  unfold FreshCoins
  decide +kernel

/-! ## The two guarantees -/

/-- An initiator that finalizes with an honest responder agrees with an earlier
`respond` call of that responder, and no two successful `finalize` calls agree with
the same call. -/
theorem initiator_agreement (hdh : H.DhCommutes) (honest : VerifyingKey H.toKeyFormat → Prop)
    (calls : List (HandshakeCall H)) (h : UnforgedRun honest calls) (hfresh : FreshCoins calls) :
    (∀ (n : ℕ) f session state response rootKey, (handshakeTrace calls)[n]? = some f →
      Finalizes f session state response rootKey → honest state.expectedResponderPub →
        ∃ m r, m < n ∧ (handshakeTrace calls)[m]? = some r ∧
          Answers r state response rootKey) ∧
    (∀ (m n n' : ℕ) r f f' session session' state state' response response' rootKey rootKey',
      (handshakeTrace calls)[m]? = some r → (handshakeTrace calls)[n]? = some f →
        (handshakeTrace calls)[n']? = some f' → Finalizes f session state response rootKey →
          Finalizes f' session' state' response' rootKey' →
            Answers r state response rootKey → Answers r state' response' rootKey' →
              n = n') := by
  constructor
  · intro n f session state response rootKey hf hfinalizes hhonest
    exact answered_before hdh h hf hfinalizes hhonest
  · intro m n n' r f f' session session' state state' response response' rootKey rootKey'
      hr hf hf' hfinalizes hfinalizes' hanswers hanswers'
    obtain ⟨priv, expected, initiation, coins, sent, hinput, -, -, -, hephemeral, hnonce, -⟩ :=
      hanswers
    obtain ⟨priv', expected', initiation', coins', sent', hinput', -, -, -, hephemeral',
      hnonce', -⟩ := hanswers'
    rw [hinput] at hinput'
    cases hinput'
    obtain rfl := session_unique h hfresh hf hf' hfinalizes.openSession hfinalizes'.openSession
      (hephemeral.symm.trans hephemeral') (hnonce.symm.trans hnonce')
    rcases Nat.lt_trichotomy n n' with hlt | heq | hgt
    · exact absurd hfinalizes' (hfinalizes.not_again h hlt hf hf')
    · exact heq
    · exact absurd hfinalizes (hfinalizes'.not_again h hgt hf' hf)

/-- The session with responder 8 agrees with one of the responder's calls. -/
theorem agreement_despite_redirection :
    let state := (initiate modularPrimitives (modularKey 7)
      ((modularKey 8).verifyingKey modularPrimitives) (modularCoins 3)).1
    ∃ (m : ℕ) (r : HandshakeEvent modularPrimitives)
      (response : HandshakeResponsePayload modularPrimitives.toKeyFormat) (rootKey : RootKey),
      m < 4 ∧ (handshakeTrace redirectedCalls)[m]? = some r ∧
        state.finalize response = .ok rootKey ∧ Answers r state response rootKey := by
  intro state
  let opening := (initiate modularPrimitives (modularKey 7)
    ((modularKey 8).verifyingKey modularPrimitives) (modularCoins 3)).2
  let response := responsePayload (modularKey 8) opening (modularCoins 6)
  have hverify := verify_responsePayload modular_verifiesSigned (modularKey 8) opening
    (modularCoins 6)
  obtain ⟨rootKey, hkey⟩ := exists_deriveRootKey modular_hkdfTotal
    (state.ephemeral.diffieHellman response.responderEphemeralPub) state.identityPub
    state.expectedResponderPub state.ephemeralPub response.responderEphemeralPub state.nonce
    response.nonce
  have hfinalize : state.finalize response = .ok rootKey :=
    finalize_eq_ok_iff.2 ⟨rfl, hverify, hkey⟩
  have hf := getElem?_trace handshakeStep HandshakeWorld.empty redirectedCalls 4
  obtain ⟨m, r, hm, hr, hanswers⟩ := (initiator_agreement modular_dhCommutes (fun _ => True)
    redirectedCalls redirected_unforged redirected_freshCoins).1 4 _ 0 state response rootKey hf
    ⟨rfl, rfl, congrArg HandshakeReply.finalized hfinalize⟩ trivial
  exact ⟨m, r, response, rootKey, hm, hr, hfinalize, hanswers⟩

/-- A responder that accepts an initiation under an honest identity was meant: that
initiator has called `initiate` for this responder, with the ephemeral key and the
nonce of the payload. Any other initiation under an honest identity is rejected. -/
theorem responder_authentication (honest : VerifyingKey H.toKeyFormat → Prop)
    (calls : List (HandshakeCall H)) (h : UnforgedRun honest calls) (n : ℕ)
    (e : HandshakeEvent H) (he : (handshakeTrace calls)[n]? = some e)
    (priv : IdentityPrivateKey) (expected : Option (VerifyingKey H.toKeyFormat))
    (initiation : HandshakeInitPayload H.toKeyFormat) (coins : HandshakeCoins)
    (hinput : e.input = .respond priv expected initiation coins)
    (hhonest : honest initiation.initiatorIdentityPub ∨ ∃ peer ∈ expected, honest peer) :
    let Made := ∃ m r, m < n ∧ (handshakeTrace calls)[m]? = some r ∧
      Initiates r initiation.initiatorIdentityPub (priv.verifyingKey H)
        initiation.initiatorEphemeralPub initiation.nonce
    (∀ response rootKey, e.output = .responded (.ok (response, rootKey)) → Made) ∧
      (¬ Made → e.output = .responded (.error .PeerIdentityMismatch) ∨
        e.output = .responded (.error .InvalidSignature)) := by
  intro Made
  have houtput : e.output = .responded (respond H priv expected initiation coins) := by
    rw [output_eq he, hinput]
    rfl
  have hinitiator (hpeer : ∀ peer ∈ expected, initiation.initiatorIdentityPub = peer) :
      honest initiation.initiatorIdentityPub := by
    rcases hhonest with hid | ⟨peer, hmem, hid⟩
    · exact hid
    · rw [hpeer peer hmem]
      exact hid
  constructor
  · intro response rootKey hok
    rw [houtput] at hok
    obtain ⟨hpeer, hverify, -⟩ := respond_eq_ok_iff.1 (HandshakeReply.responded.inj hok)
    exact initiated_before h he hinput (hinitiator hpeer) hverify
  · intro hmade
    by_cases hpeer : ∀ peer ∈ expected, initiation.initiatorIdentityPub = peer
    · right
      rw [houtput, respond_of_not_verify ?_ hpeer]
      rw [Bool.eq_false_iff]
      intro hverify
      exact hmade (initiated_before h he hinput (hinitiator hpeer) hverify)
    · left
      rw [houtput, respond_of_mismatch hpeer]

/-- The initiation that responder 8 accepts was made for it. -/
theorem authentication_despite_redirection :
    let opening := (initiate modularPrimitives (modularKey 7)
      ((modularKey 8).verifyingKey modularPrimitives) (modularCoins 3)).2
    ∃ (m : ℕ) (r : HandshakeEvent modularPrimitives), m < 3 ∧
      (handshakeTrace redirectedCalls)[m]? = some r ∧
        Initiates r opening.initiatorIdentityPub
          ((modularKey 8).verifyingKey modularPrimitives) opening.initiatorEphemeralPub
          opening.nonce := by
  intro opening
  have hverify := verify_initiate modular_verifiesSigned (modularKey 7)
    ((modularKey 8).verifyingKey modularPrimitives) (modularCoins 3)
  obtain ⟨rootKey, hkey⟩ := exists_deriveRootKey modular_hkdfTotal
    ⟨modularPrimitives.x25519DiffieHellman (modularCoins 6).ephemeralSecret
      opening.initiatorEphemeralPub⟩
    opening.initiatorIdentityPub ((modularKey 8).verifyingKey modularPrimitives)
    opening.initiatorEphemeralPub
    (modularPrimitives.x25519PublicKey (modularCoins 6).ephemeralSecret) opening.nonce
    (modularCoins 6).nonce
  have hrespond : respond modularPrimitives (modularKey 8) none opening (modularCoins 6) =
      .ok (responsePayload (modularKey 8) opening (modularCoins 6), rootKey) :=
    respond_eq_ok_iff.2 ⟨by simp, hverify, rfl, hkey⟩
  have he := getElem?_trace handshakeStep HandshakeWorld.empty redirectedCalls 3
  exact (responder_authentication (fun _ => True) redirectedCalls redirected_unforged 3 _ he
    (modularKey 8) none opening (modularCoins 6) rfl (Or.inl trivial)).1 _ _
    (congrArg HandshakeReply.responded hrespond)

end NullPath
