import NullPath.Handshake.Types

/-!
# Handshake signatures and key derivation

The initiator signs its identity, the responder it expects, its ephemeral key and
its nonce. The responder signs the identities, ephemeral keys and nonces of both
sides. Signer and verifier build the signed bytes separately; `initiationMessage`
and `responseMessage` are what both of them build.

The two messages determine what they were built from (`initiationMessage_inj`,
`responseMessage_inj`), and no initiation message is a response message
(`initiationMessage_ne_responseMessage`).
-/

namespace NullPath

variable (H : HandshakePrimitives)

/-- A single-use X25519 key pair. -/
structure EphemeralKeyPair where
  secret : Bytes 32
  publicKey : Bytes 32
  publicKey_eq : publicKey = H.x25519PublicKey secret

/-- A key pair from the random bytes of its secret. -/
def EphemeralKeyPair.generate (secret : Bytes 32) : EphemeralKeyPair H :=
  { secret := secret, publicKey := H.x25519PublicKey secret, publicKey_eq := rfl }

def EphemeralKeyPair.diffieHellman {H : HandshakePrimitives} (pair : EphemeralKeyPair H)
    (peerPublic : Bytes 32) : RawDhSecret :=
  ⟨H.x25519DiffieHellman pair.secret peerPublic⟩

/-- Sign an initiation. -/
def signInitiation (identityPriv : IdentityPrivateKey)
    (expectedResponderPub : VerifyingKey H.toKeyFormat) (ephemeralPub : Bytes 32)
    (nonce : Bytes 16) : Bytes 64 :=
  let identityPub := identityPriv.verifyingKey H
  let msg := ascii "decoypath-v1-init-sig:" ++ identityPub.asBytes.toList ++
    expectedResponderPub.asBytes.toList ++ ephemeralPub.toList ++ nonce.toList
  H.sign identityPriv.bytes msg

/-- Verify the signature of an initiation. -/
def verifyInitiation (initiatorIdentityPub expectedResponderPub : VerifyingKey H.toKeyFormat)
    (ephemeralPub : Bytes 32) (nonce : Bytes 16) (signature : Bytes 64) :
    Except HandshakeError Unit :=
  let msg := ascii "decoypath-v1-init-sig:" ++ initiatorIdentityPub.asBytes.toList ++
    expectedResponderPub.asBytes.toList ++ ephemeralPub.toList ++ nonce.toList
  if H.verify initiatorIdentityPub msg signature then .ok () else .error .InvalidSignature

/-- Sign a response. -/
def signResponse (identityPriv : IdentityPrivateKey)
    (initiatorIdentityPub : VerifyingKey H.toKeyFormat)
    (responderEphemeralPub initiatorEphemeralPub : Bytes 32)
    (responderNonce initiatorNonce : Bytes 16) : Bytes 64 :=
  let responderIdentityPub := identityPriv.verifyingKey H
  let msg := ascii "decoypath-v1-resp-sig:" ++ responderIdentityPub.asBytes.toList ++
    initiatorIdentityPub.asBytes.toList ++ responderEphemeralPub.toList ++
      initiatorEphemeralPub.toList ++ responderNonce.toList ++ initiatorNonce.toList
  H.sign identityPriv.bytes msg

/-- Verify the signature of a response. -/
def verifyResponse (responderIdentityPub initiatorIdentityPub : VerifyingKey H.toKeyFormat)
    (responderEphemeralPub initiatorEphemeralPub : Bytes 32)
    (responderNonce initiatorNonce : Bytes 16) (signature : Bytes 64) :
    Except HandshakeError Unit :=
  let msg := ascii "decoypath-v1-resp-sig:" ++ responderIdentityPub.asBytes.toList ++
    initiatorIdentityPub.asBytes.toList ++ responderEphemeralPub.toList ++
      initiatorEphemeralPub.toList ++ responderNonce.toList ++ initiatorNonce.toList
  if H.verify responderIdentityPub msg signature then .ok () else .error .InvalidSignature

/-- The root key, bound to the whole transcript. -/
def deriveRootKey (rawDh : RawDhSecret)
    (initiatorIdentityPub responderIdentityPub : VerifyingKey H.toKeyFormat)
    (initiatorEphemeralPub responderEphemeralPub : Bytes 32)
    (initiatorNonce responderNonce : Bytes 16) : Except HandshakeError RootKey :=
  let salt := initiatorNonce.toList ++ responderNonce.toList
  let info := ascii "decoypath-v1-transcript-binding:" ++ initiatorIdentityPub.asBytes.toList ++
    responderIdentityPub.asBytes.toList ++ initiatorEphemeralPub.toList ++
      responderEphemeralPub.toList
  match H.hkdfSha256 salt rawDh.bytes info with
  | none => .error .CryptoFailure
  | some rootKeyBytes => .ok ⟨rootKeyBytes⟩

/-! ## The signed messages -/

variable {H}

/-- What an initiation signs. -/
def initiationMessage (initiator expectedResponder : VerifyingKey H.toKeyFormat)
    (ephemeralPub : Bytes 32) (nonce : Bytes 16) : List UInt8 :=
  ascii "decoypath-v1-init-sig:" ++ initiator.asBytes.toList ++
    expectedResponder.asBytes.toList ++ ephemeralPub.toList ++ nonce.toList

/-- What a response signs. -/
def responseMessage (responder initiator : VerifyingKey H.toKeyFormat)
    (responderEphemeralPub initiatorEphemeralPub : Bytes 32)
    (responderNonce initiatorNonce : Bytes 16) : List UInt8 :=
  ascii "decoypath-v1-resp-sig:" ++ responder.asBytes.toList ++ initiator.asBytes.toList ++
    responderEphemeralPub.toList ++ initiatorEphemeralPub.toList ++ responderNonce.toList ++
      initiatorNonce.toList

theorem signInitiation_eq (identityPriv : IdentityPrivateKey)
    (expectedResponderPub : VerifyingKey H.toKeyFormat) (ephemeralPub : Bytes 32)
    (nonce : Bytes 16) :
    signInitiation H identityPriv expectedResponderPub ephemeralPub nonce =
      H.sign identityPriv.bytes (initiationMessage (identityPriv.verifyingKey H)
        expectedResponderPub ephemeralPub nonce) := rfl

theorem verifyInitiation_eq_ok_iff
    {initiatorIdentityPub expectedResponderPub : VerifyingKey H.toKeyFormat}
    {ephemeralPub : Bytes 32} {nonce : Bytes 16} {signature : Bytes 64} :
    verifyInitiation H initiatorIdentityPub expectedResponderPub ephemeralPub nonce signature =
        .ok () ↔
      H.verify initiatorIdentityPub (initiationMessage initiatorIdentityPub
        expectedResponderPub ephemeralPub nonce) signature = true := by
  simp [verifyInitiation, initiationMessage]

theorem signResponse_eq (identityPriv : IdentityPrivateKey)
    (initiatorIdentityPub : VerifyingKey H.toKeyFormat)
    (responderEphemeralPub initiatorEphemeralPub : Bytes 32)
    (responderNonce initiatorNonce : Bytes 16) :
    signResponse H identityPriv initiatorIdentityPub responderEphemeralPub
        initiatorEphemeralPub responderNonce initiatorNonce =
      H.sign identityPriv.bytes (responseMessage (identityPriv.verifyingKey H)
        initiatorIdentityPub responderEphemeralPub initiatorEphemeralPub responderNonce
        initiatorNonce) := rfl

theorem verifyResponse_eq_ok_iff
    {responderIdentityPub initiatorIdentityPub : VerifyingKey H.toKeyFormat}
    {responderEphemeralPub initiatorEphemeralPub : Bytes 32}
    {responderNonce initiatorNonce : Bytes 16} {signature : Bytes 64} :
    verifyResponse H responderIdentityPub initiatorIdentityPub responderEphemeralPub
        initiatorEphemeralPub responderNonce initiatorNonce signature = .ok () ↔
      H.verify responderIdentityPub (responseMessage responderIdentityPub
        initiatorIdentityPub responderEphemeralPub initiatorEphemeralPub responderNonce
        initiatorNonce) signature = true := by
  simp [verifyResponse, responseMessage]

theorem initiationMessage_inj
    {initiator initiator' expectedResponder expectedResponder' : VerifyingKey H.toKeyFormat}
    {ephemeralPub ephemeralPub' : Bytes 32} {nonce nonce' : Bytes 16}
    (h : initiationMessage initiator expectedResponder ephemeralPub nonce =
      initiationMessage initiator' expectedResponder' ephemeralPub' nonce') :
    initiator = initiator' ∧ expectedResponder = expectedResponder' ∧
      ephemeralPub = ephemeralPub' ∧ nonce = nonce' := by
  simp only [initiationMessage, List.append_assoc, List.append_cancel_left_eq,
    Bytes.append_inj] at h
  obtain ⟨hinitiator, hresponder, hephemeral, hnonce⟩ := h
  exact ⟨VerifyingKey.asBytes_injective hinitiator, VerifyingKey.asBytes_injective hresponder,
    hephemeral, List.Vector.toList_injective hnonce⟩

theorem responseMessage_inj
    {responder responder' initiator initiator' : VerifyingKey H.toKeyFormat}
    {responderEphemeralPub responderEphemeralPub' initiatorEphemeralPub
      initiatorEphemeralPub' : Bytes 32}
    {responderNonce responderNonce' initiatorNonce initiatorNonce' : Bytes 16}
    (h : responseMessage responder initiator responderEphemeralPub initiatorEphemeralPub
        responderNonce initiatorNonce =
      responseMessage responder' initiator' responderEphemeralPub' initiatorEphemeralPub'
        responderNonce' initiatorNonce') :
    responder = responder' ∧ initiator = initiator' ∧
      responderEphemeralPub = responderEphemeralPub' ∧
        initiatorEphemeralPub = initiatorEphemeralPub' ∧
          responderNonce = responderNonce' ∧ initiatorNonce = initiatorNonce' := by
  simp only [responseMessage, List.append_assoc, List.append_cancel_left_eq,
    Bytes.append_inj] at h
  obtain ⟨hresponder, hinitiator, hephemeral, hephemeral', hnonce, hnonce'⟩ := h
  exact ⟨VerifyingKey.asBytes_injective hresponder, VerifyingKey.asBytes_injective hinitiator,
    hephemeral, hephemeral', hnonce, List.Vector.toList_injective hnonce'⟩

/-- The two kinds of messages start differently. -/
theorem initiationMessage_ne_responseMessage
    {initiator expectedResponder : VerifyingKey H.toKeyFormat} {ephemeralPub : Bytes 32}
    {nonce : Bytes 16} {responder initiator' : VerifyingKey H.toKeyFormat}
    {responderEphemeralPub initiatorEphemeralPub : Bytes 32}
    {responderNonce initiatorNonce : Bytes 16} :
    initiationMessage initiator expectedResponder ephemeralPub nonce ≠
      responseMessage responder initiator' responderEphemeralPub initiatorEphemeralPub
        responderNonce initiatorNonce := by
  intro h
  simp only [initiationMessage, responseMessage, List.append_assoc] at h
  have hprefix := (List.append_inj h (by decide)).1
  revert hprefix
  decide

end NullPath
