import NullPath.Handshake.Crypto

/-!
# The three calls of a handshake

`initiate` opens a session and signs an initiation, `respond` answers an initiation
with a signed response and derives the root key, and `finalize` closes the session
with a response and derives it too. The random bytes a call draws are an argument,
`HandshakeCoins`.

`respond_eq_ok_iff` and `finalize_eq_ok_iff` say when the two checking calls succeed
and with what result.
-/

namespace NullPath

variable (H : HandshakePrimitives)

/-- The random bytes that `initiate` or `respond` draws. -/
structure HandshakeCoins where
  ephemeralSecret : Bytes 32
  nonce : Bytes 16
  deriving DecidableEq

/-- The state of an initiator between its two calls. -/
structure InitiatorState where
  identityPub : VerifyingKey H.toKeyFormat
  expectedResponderPub : VerifyingKey H.toKeyFormat
  ephemeral : EphemeralKeyPair H
  ephemeralPub : Bytes 32
  nonce : Bytes 16

/-- Open a session and build the initiation payload. -/
def initiate (identityPriv : IdentityPrivateKey)
    (expectedResponderPub : VerifyingKey H.toKeyFormat) (coins : HandshakeCoins) :
    InitiatorState H × HandshakeInitPayload H.toKeyFormat :=
  let identityPub := identityPriv.verifyingKey H
  let ephemeral := EphemeralKeyPair.generate H coins.ephemeralSecret
  let ephemeralPub := ephemeral.publicKey
  let nonce := coins.nonce
  let signature := signInitiation H identityPriv expectedResponderPub ephemeralPub nonce
  ({ identityPub := identityPub
     expectedResponderPub := expectedResponderPub
     ephemeral := ephemeral
     ephemeralPub := ephemeralPub
     nonce := nonce },
   { initiatorIdentityPub := identityPub
     initiatorEphemeralPub := ephemeralPub
     nonce := nonce
     signature := signature })

/-- Close a session with a response. -/
def InitiatorState.finalize {H : HandshakePrimitives} (self : InitiatorState H)
    (response : HandshakeResponsePayload H.toKeyFormat) : Except HandshakeError RootKey :=
  if response.responderIdentityPub ≠ self.expectedResponderPub then
    .error .PeerIdentityMismatch
  else do
    verifyResponse H self.expectedResponderPub self.identityPub response.responderEphemeralPub
      self.ephemeralPub response.nonce self.nonce response.signature
    let rawDh := self.ephemeral.diffieHellman response.responderEphemeralPub
    deriveRootKey H rawDh self.identityPub self.expectedResponderPub self.ephemeralPub
      response.responderEphemeralPub self.nonce response.nonce

/-- The identity check of `respond`: without an expected initiator there is none. -/
def checkInitiator {H : HandshakePrimitives}
    (expectedInitiatorPub : Option (VerifyingKey H.toKeyFormat))
    (initiatorIdentityPub : VerifyingKey H.toKeyFormat) : Except HandshakeError Unit :=
  match expectedInitiatorPub with
  | none => .ok ()
  | some expected =>
      if initiatorIdentityPub ≠ expected then .error .PeerIdentityMismatch else .ok ()

/-- Answer an initiation. -/
def respond (responderIdentityPriv : IdentityPrivateKey)
    (expectedInitiatorPub : Option (VerifyingKey H.toKeyFormat))
    (initiation : HandshakeInitPayload H.toKeyFormat) (coins : HandshakeCoins) :
    Except HandshakeError (HandshakeResponsePayload H.toKeyFormat × RootKey) := do
  let responderIdentityPub := responderIdentityPriv.verifyingKey H
  checkInitiator expectedInitiatorPub initiation.initiatorIdentityPub
  verifyInitiation H initiation.initiatorIdentityPub responderIdentityPub
    initiation.initiatorEphemeralPub initiation.nonce initiation.signature
  let responderEphemeral := EphemeralKeyPair.generate H coins.ephemeralSecret
  let responderEphemeralPub := responderEphemeral.publicKey
  let responderNonce := coins.nonce
  let signature := signResponse H responderIdentityPriv initiation.initiatorIdentityPub
    responderEphemeralPub initiation.initiatorEphemeralPub responderNonce initiation.nonce
  let responsePayload : HandshakeResponsePayload H.toKeyFormat :=
    { responderIdentityPub := responderIdentityPub
      responderEphemeralPub := responderEphemeralPub
      nonce := responderNonce
      signature := signature }
  let rawDh := responderEphemeral.diffieHellman initiation.initiatorEphemeralPub
  let rootKey ← deriveRootKey H rawDh initiation.initiatorIdentityPub responderIdentityPub
    initiation.initiatorEphemeralPub responderEphemeralPub initiation.nonce responderNonce
  .ok (responsePayload, rootKey)

/-! ## When the calls succeed -/

variable {H}

/-- The response that `respond` builds. -/
def responsePayload (responderIdentityPriv : IdentityPrivateKey)
    (initiation : HandshakeInitPayload H.toKeyFormat) (coins : HandshakeCoins) :
    HandshakeResponsePayload H.toKeyFormat :=
  { responderIdentityPub := responderIdentityPriv.verifyingKey H
    responderEphemeralPub := H.x25519PublicKey coins.ephemeralSecret
    nonce := coins.nonce
    signature := signResponse H responderIdentityPriv initiation.initiatorIdentityPub
      (H.x25519PublicKey coins.ephemeralSecret) initiation.initiatorEphemeralPub coins.nonce
      initiation.nonce }

theorem exists_of_bind_eq_ok {ε α β : Type*} {x : Except ε α} {f : α → Except ε β} {b : β}
    (h : x.bind f = .ok b) : ∃ a, x = .ok a ∧ f a = .ok b := by
  cases x with
  | error e => cases h
  | ok a => exact ⟨a, rfl, h⟩

theorem checkInitiator_eq_ok_iff {expected : Option (VerifyingKey H.toKeyFormat)}
    {initiator : VerifyingKey H.toKeyFormat} :
    checkInitiator expected initiator = .ok () ↔ ∀ peer ∈ expected, initiator = peer := by
  cases expected <;> simp [checkInitiator]

theorem checkInitiator_error {expected : Option (VerifyingKey H.toKeyFormat)}
    {initiator : VerifyingKey H.toKeyFormat}
    (h : ¬ ∀ peer ∈ expected, initiator = peer) :
    checkInitiator expected initiator = .error .PeerIdentityMismatch := by
  cases expected with
  | none => simp at h
  | some peer => simpa [checkInitiator] using h

/-- A response succeeds when the initiator is the expected one, its signature
verifies and the key derivation does not fail. -/
theorem respond_eq_ok_iff {priv : IdentityPrivateKey}
    {expected : Option (VerifyingKey H.toKeyFormat)}
    {initiation : HandshakeInitPayload H.toKeyFormat} {coins : HandshakeCoins}
    {response : HandshakeResponsePayload H.toKeyFormat} {rootKey : RootKey} :
    respond H priv expected initiation coins = .ok (response, rootKey) ↔
      (∀ peer ∈ expected, initiation.initiatorIdentityPub = peer) ∧
        H.verify initiation.initiatorIdentityPub
          (initiationMessage initiation.initiatorIdentityPub (priv.verifyingKey H)
            initiation.initiatorEphemeralPub initiation.nonce) initiation.signature = true ∧
          response = responsePayload priv initiation coins ∧
            deriveRootKey H ⟨H.x25519DiffieHellman coins.ephemeralSecret
                initiation.initiatorEphemeralPub⟩
              initiation.initiatorIdentityPub (priv.verifyingKey H)
              initiation.initiatorEphemeralPub (H.x25519PublicKey coins.ephemeralSecret)
              initiation.nonce coins.nonce = .ok rootKey := by
  rw [← checkInitiator_eq_ok_iff, ← verifyInitiation_eq_ok_iff]
  constructor
  · intro h
    obtain ⟨⟨⟩, hpeer, h⟩ := exists_of_bind_eq_ok h
    obtain ⟨⟨⟩, hverify, h⟩ := exists_of_bind_eq_ok h
    obtain ⟨key, hkey, h⟩ := exists_of_bind_eq_ok h
    cases h
    exact ⟨hpeer, hverify, rfl, hkey⟩
  · rintro ⟨hpeer, hverify, rfl, hkey⟩
    simp only [respond, hpeer, hverify]
    exact congrArg (· >>= fun key => .ok (responsePayload priv initiation coins, key)) hkey

theorem respond_of_not_verify {priv : IdentityPrivateKey}
    {expected : Option (VerifyingKey H.toKeyFormat)}
    {initiation : HandshakeInitPayload H.toKeyFormat}
    (h : H.verify initiation.initiatorIdentityPub
      (initiationMessage initiation.initiatorIdentityPub (priv.verifyingKey H)
        initiation.initiatorEphemeralPub initiation.nonce) initiation.signature = false)
    (hpeer : ∀ peer ∈ expected, initiation.initiatorIdentityPub = peer) (coins : HandshakeCoins) :
    respond H priv expected initiation coins = .error .InvalidSignature := by
  have hverify : verifyInitiation H initiation.initiatorIdentityPub (priv.verifyingKey H)
      initiation.initiatorEphemeralPub initiation.nonce initiation.signature =
        .error .InvalidSignature := by
    simpa [verifyInitiation, initiationMessage] using h
  simp only [respond, checkInitiator_eq_ok_iff.2 hpeer, hverify]
  rfl

theorem respond_of_mismatch {priv : IdentityPrivateKey}
    {expected : Option (VerifyingKey H.toKeyFormat)}
    {initiation : HandshakeInitPayload H.toKeyFormat}
    (h : ¬ ∀ peer ∈ expected, initiation.initiatorIdentityPub = peer) (coins : HandshakeCoins) :
    respond H priv expected initiation coins = .error .PeerIdentityMismatch := by
  simp only [respond, checkInitiator_error h]
  rfl

/-- A session is closed with a key when the response is from the expected responder,
its signature verifies and the key derivation does not fail. -/
theorem finalize_eq_ok_iff {self : InitiatorState H}
    {response : HandshakeResponsePayload H.toKeyFormat} {rootKey : RootKey} :
    self.finalize response = .ok rootKey ↔
      response.responderIdentityPub = self.expectedResponderPub ∧
        H.verify self.expectedResponderPub
          (responseMessage self.expectedResponderPub self.identityPub
            response.responderEphemeralPub self.ephemeralPub response.nonce self.nonce)
          response.signature = true ∧
          deriveRootKey H ⟨H.x25519DiffieHellman self.ephemeral.secret
              response.responderEphemeralPub⟩
            self.identityPub self.expectedResponderPub self.ephemeralPub
            response.responderEphemeralPub self.nonce response.nonce = .ok rootKey := by
  rw [← verifyResponse_eq_ok_iff]
  unfold InitiatorState.finalize
  split_ifs with hidentity
  · simp [hidentity]
  · have hsame := not_not.1 hidentity
    constructor
    · intro h
      obtain ⟨⟨⟩, hverify, hkey⟩ := exists_of_bind_eq_ok h
      exact ⟨hsame, hverify, hkey⟩
    · rintro ⟨-, hverify, hkey⟩
      rw [hverify]
      exact hkey

end NullPath
