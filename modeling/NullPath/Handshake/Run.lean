import NullPath.Handshake.Basic
import NullPath.Transition.Trace

/-!
# Runs of many handshakes

A run is a list of calls, by any parties and with any payloads: an adversary that
reads, drops, replays, reorders and invents payloads chooses what each call is
given. The parties are told apart by their signing keys. The state of a run is the
list of sessions that `initiate` opened, each until a `finalize` consumes it, and
the list of messages signed so far, which are those that the payloads are signed
with (`signs_of_initiated`, `signs_of_responded`).

`Unforged honest` is the assumption on signatures: what verifies under the key of
an honest party was signed with it before, by `initiate` or by `respond`.
`Records` is the invariant of all runs, which reads the state off the events.
-/

namespace NullPath

open Transition

variable (H : HandshakePrimitives)

/-- The sessions in the order in which they were opened, `none` once consumed, and
the signed messages with the keys they were signed with. -/
structure HandshakeWorld where
  sessions : List (Option (InitiatorState H))
  signed : List (VerifyingKey H.toKeyFormat × List UInt8)

inductive HandshakeCall
  | initiate (identityPriv : IdentityPrivateKey)
      (expectedResponderPub : VerifyingKey H.toKeyFormat) (coins : HandshakeCoins)
  | respond (responderIdentityPriv : IdentityPrivateKey)
      (expectedInitiatorPub : Option (VerifyingKey H.toKeyFormat))
      (initiation : HandshakeInitPayload H.toKeyFormat) (coins : HandshakeCoins)
  | finalize (session : ℕ) (response : HandshakeResponsePayload H.toKeyFormat)

/-- What a call returns; there is nothing to finalize without an open session. -/
inductive HandshakeReply
  | initiated (payload : HandshakeInitPayload H.toKeyFormat)
  | responded (result : Except HandshakeError (HandshakeResponsePayload H.toKeyFormat × RootKey))
  | finalized (result : Except HandshakeError RootKey)
  | noSession
  deriving DecidableEq

abbrev HandshakeEvent := Event (HandshakeWorld H) (HandshakeCall H) (HandshakeReply H)

variable {H}

/-- The session that a call opens. -/
def HandshakeCall.opens : HandshakeCall H → Option (InitiatorState H)
  | .initiate identityPriv expectedResponderPub coins =>
      some (NullPath.initiate H identityPriv expectedResponderPub coins).1
  | .respond .. => none
  | .finalize .. => none

/-- The message that a call signs, with the key. A responder signs once the two checks
on the initiation have passed. -/
def HandshakeCall.signs : HandshakeCall H → Option (VerifyingKey H.toKeyFormat × List UInt8)
  | .initiate identityPriv expectedResponderPub coins =>
      some (identityPriv.verifyingKey H, initiationMessage (identityPriv.verifyingKey H)
        expectedResponderPub (H.x25519PublicKey coins.ephemeralSecret) coins.nonce)
  | .respond responderIdentityPriv expectedInitiatorPub initiation coins =>
      match checkInitiator expectedInitiatorPub initiation.initiatorIdentityPub,
        verifyInitiation H initiation.initiatorIdentityPub
          (responderIdentityPriv.verifyingKey H) initiation.initiatorEphemeralPub
          initiation.nonce initiation.signature with
      | .ok (), .ok () =>
          some (responderIdentityPriv.verifyingKey H,
            responseMessage (responderIdentityPriv.verifyingKey H)
              initiation.initiatorIdentityPub (H.x25519PublicKey coins.ephemeralSecret)
              initiation.initiatorEphemeralPub coins.nonce initiation.nonce)
      | _, _ => none
  | .finalize .. => none

namespace HandshakeWorld

/-- Before the first call. -/
def empty : HandshakeWorld H := ⟨[], []⟩

/-- The session that a number stands for, while it is open. -/
def openSession (w : HandshakeWorld H) (session : ℕ) : Option (InitiatorState H) :=
  w.sessions[session]?.join

theorem openSession_eq_some_iff {w : HandshakeWorld H} {session : ℕ} {state : InitiatorState H} :
    w.openSession session = some state ↔ w.sessions[session]? = some (some state) :=
  Option.join_eq_some_iff

end HandshakeWorld

/-- One call. `finalize` takes its session by move, so whatever it returns, the
session is gone. -/
def handshakeStep (w : HandshakeWorld H) (call : HandshakeCall H) :
    HandshakeReply H × HandshakeWorld H :=
  let signed := w.signed ++ call.signs.toList
  match call with
  | .initiate identityPriv expectedResponderPub coins =>
      let (state, payload) := initiate H identityPriv expectedResponderPub coins
      (.initiated payload, ⟨w.sessions ++ [some state], signed⟩)
  | .respond responderIdentityPriv expectedInitiatorPub initiation coins =>
      (.responded (respond H responderIdentityPriv expectedInitiatorPub initiation coins),
        ⟨w.sessions, signed⟩)
  | .finalize session response =>
      match w.openSession session with
      | none => (.noSession, ⟨w.sessions, signed⟩)
      | some state => (.finalized (state.finalize response), ⟨w.sessions.set session none, signed⟩)

/-- The events of a run. -/
def handshakeTrace (calls : List (HandshakeCall H)) : List (HandshakeEvent H) :=
  trace handshakeStep HandshakeWorld.empty calls

theorem signs_of_initiated {w : HandshakeWorld H} {call : HandshakeCall H}
    {payload : HandshakeInitPayload H.toKeyFormat}
    (h : (handshakeStep w call).1 = .initiated payload) :
    ∃ priv message, call.signs = some (IdentityPrivateKey.verifyingKey H priv, message) ∧
      payload.signature = H.sign priv.bytes message := by
  cases call with
  | initiate priv expected coins =>
      cases h
      exact ⟨priv, _, rfl, signInitiation_eq priv expected _ _⟩
  | respond priv expected initiation coins => cases h
  | finalize session response =>
      rw [handshakeStep] at h
      cases hopen : w.openSession session <;> simp [hopen] at h

theorem signs_of_responded {w : HandshakeWorld H} {call : HandshakeCall H}
    {response : HandshakeResponsePayload H.toKeyFormat} {rootKey : RootKey}
    (h : (handshakeStep w call).1 = .responded (.ok (response, rootKey))) :
    ∃ priv message, call.signs = some (IdentityPrivateKey.verifyingKey H priv, message) ∧
      response.signature = H.sign priv.bytes message := by
  cases call with
  | initiate priv expected coins => cases h
  | respond priv expected initiation coins =>
      obtain ⟨hpeer, hverify, rfl, -⟩ := respond_eq_ok_iff.1 (HandshakeReply.responded.inj h)
      refine ⟨priv, _, ?_, signResponse_eq priv _ _ _ _ _⟩
      rw [HandshakeCall.signs, checkInitiator_eq_ok_iff.2 hpeer,
        verifyInitiation_eq_ok_iff.2 hverify]
  | finalize session response =>
      rw [handshakeStep] at h
      cases hopen : w.openSession session <;> simp [hopen] at h

/-! ## The assumption on signatures -/

variable (H) in
/-- A signature that a call checks. -/
structure SignatureCheck where
  key : VerifyingKey H.toKeyFormat
  message : List UInt8
  signature : Bytes 64

/-- The signature that a call checks in a state. -/
def HandshakeWorld.checks (w : HandshakeWorld H) : HandshakeCall H → Option (SignatureCheck H)
  | .initiate .. => none
  | .respond responderIdentityPriv _ initiation _ =>
      some ⟨initiation.initiatorIdentityPub,
        initiationMessage initiation.initiatorIdentityPub (responderIdentityPriv.verifyingKey H)
          initiation.initiatorEphemeralPub initiation.nonce, initiation.signature⟩
  | .finalize session response =>
      (w.openSession session).map fun state =>
        ⟨state.expectedResponderPub,
          responseMessage state.expectedResponderPub state.identityPub
            response.responderEphemeralPub state.ephemeralPub response.nonce state.nonce,
          response.signature⟩

/-- What verifies under an honest key was signed with it before. -/
def Unforged (honest : VerifyingKey H.toKeyFormat → Prop) (w : HandshakeWorld H)
    (call : HandshakeCall H) : Prop :=
  ∀ check ∈ w.checks call, honest check.key →
    H.verify check.key check.message check.signature = true →
      (check.key, check.message) ∈ w.signed

instance Unforged.decidable (honest : VerifyingKey H.toKeyFormat → Prop) [DecidablePred honest]
    (w : HandshakeWorld H) (call : HandshakeCall H) : Decidable (Unforged honest w call) :=
  inferInstanceAs (Decidable (∀ check ∈ w.checks call, _))

/-- The runs in which no signature of an honest party is forged. -/
def UnforgedRun (honest : VerifyingKey H.toKeyFormat → Prop) (calls : List (HandshakeCall H)) :
    Prop :=
  Follows handshakeStep (Unforged honest) HandshakeWorld.empty calls

instance UnforgedRun.decidable (honest : VerifyingKey H.toKeyFormat → Prop)
    [DecidablePred honest] (calls : List (HandshakeCall H)) :
    Decidable (UnforgedRun honest calls) :=
  inferInstanceAs (Decidable (Follows _ _ _ _))

/-! ## The invariant of a run -/

/-- The sessions that the events of a run opened. -/
def opened (past : List (HandshakeEvent H)) : List (InitiatorState H) :=
  past.filterMap fun e => e.input.opens

/-- The messages that were signed in the events of a run. -/
def signedIn (past : List (HandshakeEvent H)) :
    List (VerifyingKey H.toKeyFormat × List UInt8) :=
  past.filterMap fun e => e.input.signs

/-- The state of a run is what its events make of it: the log lists what they
signed, an open session is the one opened under its number, and a session that was
finalized is not open again. -/
structure Records (past : List (HandshakeEvent H)) (w : HandshakeWorld H) : Prop where
  signed_eq : w.signed = signedIn past
  length_eq : w.sessions.length = (opened past).length
  live : ∀ {i state}, w.openSession i = some state → (opened past)[i]? = some state
  closed : ∀ {e}, e ∈ past → ∀ {i response result}, e.input = .finalize i response →
    e.output = .finalized result → w.sessions[i]? = some none

theorem opened_concat (past : List (HandshakeEvent H)) (e : HandshakeEvent H) :
    opened (past ++ [e]) = opened past ++ e.input.opens.toList :=
  filterMap_concat ..

theorem signedIn_concat (past : List (HandshakeEvent H)) (e : HandshakeEvent H) :
    signedIn (past ++ [e]) = signedIn past ++ e.input.signs.toList :=
  filterMap_concat ..

theorem handshakeStep_signed (w : HandshakeWorld H) (call : HandshakeCall H) :
    (handshakeStep w call).2.signed = w.signed ++ call.signs.toList := by
  cases call with
  | initiate identityPriv expectedResponderPub coins => rfl
  | respond responderIdentityPriv expectedInitiatorPub initiation coins => rfl
  | finalize session response =>
      rw [handshakeStep]
      cases w.openSession session <;> rfl

/-- A call opens a session behind the others, or consumes an open one, or leaves the
sessions as they are. -/
theorem handshakeStep_sessions (w : HandshakeWorld H) (call : HandshakeCall H) :
    (∃ state, call.opens = some state ∧
      (handshakeStep w call).2.sessions = w.sessions ++ [some state]) ∨
    (call.opens = none ∧ ∃ session state, w.openSession session = some state ∧
      (handshakeStep w call).2.sessions = w.sessions.set session none) ∨
    (call.opens = none ∧ (handshakeStep w call).2.sessions = w.sessions) := by
  cases call with
  | initiate identityPriv expectedResponderPub coins => exact Or.inl ⟨_, rfl, rfl⟩
  | respond responderIdentityPriv expectedInitiatorPub initiation coins =>
      exact Or.inr (Or.inr ⟨rfl, rfl⟩)
  | finalize session response =>
      cases hopen : w.openSession session with
      | none => exact Or.inr (Or.inr ⟨rfl, by simp [handshakeStep, hopen]⟩)
      | some state =>
          exact Or.inr (Or.inl ⟨rfl, session, state, hopen, by simp [handshakeStep, hopen]⟩)

theorem handshakeStep_finalize {w : HandshakeWorld H} {session : ℕ}
    {response : HandshakeResponsePayload H.toKeyFormat} {result : Except HandshakeError RootKey}
    (h : (handshakeStep w (.finalize session response)).1 = .finalized result) :
    ∃ state, w.openSession session = some state ∧ state.finalize response = result ∧
      (handshakeStep w (.finalize session response)).2.sessions = w.sessions.set session none := by
  cases hopen : w.openSession session with
  | none => simp [handshakeStep, hopen] at h
  | some state =>
      rw [handshakeStep, hopen] at h
      cases h
      exact ⟨state, rfl, rfl, by simp [handshakeStep, hopen]⟩

theorem handshakeStep_consumed {w : HandshakeWorld H} {i : ℕ} (h : w.sessions[i]? = some none)
    (call : HandshakeCall H) : (handshakeStep w call).2.sessions[i]? = some none := by
  have hi := (List.getElem?_eq_some_iff.1 h).1
  rcases handshakeStep_sessions w call with ⟨state, -, hsessions⟩ |
    ⟨-, session, state, -, hsessions⟩ | ⟨-, hsessions⟩
  · rw [hsessions, List.getElem?_append_left hi]
    exact h
  · rw [hsessions, List.getElem?_set]
    split
    · simp_all
    · exact h
  · rw [hsessions]
    exact h

namespace Records

theorem empty : Records [] (HandshakeWorld.empty : HandshakeWorld H) where
  signed_eq := rfl
  length_eq := rfl
  live h := by simp [HandshakeWorld.openSession, HandshakeWorld.empty] at h
  closed he := by cases he

variable {past : List (HandshakeEvent H)} {w : HandshakeWorld H}

theorem length_step (h : Records past w) (call : HandshakeCall H) :
    (handshakeStep w call).2.sessions.length =
      (opened (past ++ [event handshakeStep w call])).length := by
  rw [opened_concat, List.length_append, ← h.length_eq]
  change _ = _ + call.opens.toList.length
  rcases handshakeStep_sessions w call with ⟨state, hopens, hsessions⟩ |
    ⟨hopens, session, state, -, hsessions⟩ | ⟨hopens, hsessions⟩
  · simp [hopens, hsessions]
  · simp [hopens, hsessions]
  · simp [hopens, hsessions]

theorem live_step (h : Records past w) (call : HandshakeCall H) {i : ℕ}
    {state : InitiatorState H} (hlive : (handshakeStep w call).2.openSession i = some state) :
    (opened (past ++ [event handshakeStep w call]))[i]? = some state := by
  rw [HandshakeWorld.openSession_eq_some_iff] at hlive
  rw [opened_concat]
  change (_ ++ call.opens.toList)[i]? = _
  rcases handshakeStep_sessions w call with ⟨new, hopens, hsessions⟩ |
    ⟨hopens, session, consumed, -, hsessions⟩ | ⟨hopens, hsessions⟩
  · rw [hsessions] at hlive
    rw [hopens, Option.toList_some]
    rcases getElem?_concat_cases hlive with hold | ⟨rfl, hnew⟩
    · have hsome := h.live (HandshakeWorld.openSession_eq_some_iff.2 hold)
      rw [List.getElem?_append_left (List.getElem?_eq_some_iff.1 hsome).1]
      exact hsome
    · cases hnew
      rw [h.length_eq]
      exact List.getElem?_concat_length
  · rw [hsessions, List.getElem?_set] at hlive
    rw [hopens, Option.toList_none, List.append_nil]
    split at hlive
    · simp at hlive
    · exact h.live (HandshakeWorld.openSession_eq_some_iff.2 hlive)
  · rw [hsessions] at hlive
    rw [hopens, Option.toList_none, List.append_nil]
    exact h.live (HandshakeWorld.openSession_eq_some_iff.2 hlive)

theorem closed_step (h : Records past w) (call : HandshakeCall H) {e : HandshakeEvent H}
    (he : e ∈ past ++ [event handshakeStep w call]) {i : ℕ}
    {response : HandshakeResponsePayload H.toKeyFormat} {result : Except HandshakeError RootKey}
    (hinput : e.input = .finalize i response) (houtput : e.output = .finalized result) :
    (handshakeStep w call).2.sessions[i]? = some none := by
  rcases List.mem_append.1 he with hold | hnew
  · exact handshakeStep_consumed (h.closed hold hinput houtput) call
  · rw [List.mem_singleton] at hnew
    subst hnew
    change call = _ at hinput
    subst hinput
    obtain ⟨state, hopen, -, hsessions⟩ := handshakeStep_finalize houtput
    rw [HandshakeWorld.openSession_eq_some_iff] at hopen
    rw [hsessions, List.getElem?_set_self (List.getElem?_eq_some_iff.1 hopen).1]

/-- One call keeps the invariant. -/
theorem step (h : Records past w) (call : HandshakeCall H) :
    Records (past ++ [event handshakeStep w call]) (handshakeStep w call).2 where
  signed_eq := by
    rw [handshakeStep_signed, signedIn_concat, h.signed_eq]
    rfl
  length_eq := h.length_step call
  live := h.live_step call
  closed he _ _ _ := h.closed_step call he

/-- The invariant at an event of an unforged run. -/
theorem at_event {honest : VerifyingKey H.toKeyFormat → Prop} {calls : List (HandshakeCall H)}
    (h : UnforgedRun honest calls) {n : ℕ} {e : HandshakeEvent H}
    (he : (handshakeTrace calls)[n]? = some e) :
    Records ((handshakeTrace calls).take n) e.before :=
  follows_induction_at handshakeStep HandshakeWorld.empty empty
    (fun _ _ call hpast _ => hpast.step call) h he

end Records

end NullPath
