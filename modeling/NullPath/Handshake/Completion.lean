import NullPath.Handshake.Basic

/-!
# An undisturbed handshake

When both payloads arrive as they were sent, `respond` accepts what `initiate`
built, `finalize` accepts what `respond` built, and both parties hold the same
root key (`handshake_completes`). The payloads go through their wire encoding.

`modularPrimitives` is an instance of the primitives, with modular exponentiation
as the key exchange; it shows that the assumptions are consistent and serves to
run the code on examples.
-/

namespace NullPath

variable {H : HandshakePrimitives}

theorem exists_deriveRootKey (hhkdf : H.HkdfTotal) (rawDh : RawDhSecret)
    (initiatorIdentityPub responderIdentityPub : VerifyingKey H.toKeyFormat)
    (initiatorEphemeralPub responderEphemeralPub : Bytes 32)
    (initiatorNonce responderNonce : Bytes 16) :
    ∃ rootKey, deriveRootKey H rawDh initiatorIdentityPub responderIdentityPub
      initiatorEphemeralPub responderEphemeralPub initiatorNonce responderNonce =
        .ok rootKey := by
  obtain ⟨bytes, hbytes⟩ := Option.isSome_iff_exists.1 (hhkdf
    (initiatorNonce.toList ++ responderNonce.toList) rawDh.bytes
    (ascii "decoypath-v1-transcript-binding:" ++ initiatorIdentityPub.asBytes.toList ++
      responderIdentityPub.asBytes.toList ++ initiatorEphemeralPub.toList ++
        responderEphemeralPub.toList))
  exact ⟨⟨bytes⟩, by simp only [deriveRootKey, hbytes]⟩

theorem verify_initiate (hsign : H.VerifiesSigned) (priv : IdentityPrivateKey)
    (responder : VerifyingKey H.toKeyFormat) (coins : HandshakeCoins) :
    let initiation := (initiate H priv responder coins).2
    H.verify initiation.initiatorIdentityPub
      (initiationMessage initiation.initiatorIdentityPub responder
        initiation.initiatorEphemeralPub initiation.nonce) initiation.signature = true := by
  intro initiation
  have hsignature : initiation.signature = H.sign priv.bytes
      (initiationMessage (priv.verifyingKey H) responder initiation.initiatorEphemeralPub
        initiation.nonce) := signInitiation_eq priv responder _ _
  rw [hsignature]
  exact hsign priv.bytes _

theorem verify_responsePayload (hsign : H.VerifiesSigned) (priv : IdentityPrivateKey)
    (initiation : HandshakeInitPayload H.toKeyFormat) (coins : HandshakeCoins) :
    let response := responsePayload priv initiation coins
    H.verify (priv.verifyingKey H)
      (responseMessage (priv.verifyingKey H) initiation.initiatorIdentityPub
        response.responderEphemeralPub initiation.initiatorEphemeralPub response.nonce
        initiation.nonce) response.signature = true := by
  intro response
  have hsignature : response.signature = H.sign priv.bytes
      (responseMessage (priv.verifyingKey H) initiation.initiatorIdentityPub
        response.responderEphemeralPub initiation.initiatorEphemeralPub response.nonce
        initiation.nonce) := signResponse_eq priv _ _ _ _ _
  rw [hsignature]
  exact hsign priv.bytes _

/-- The responder accepts what `initiate` built, the initiator accepts the response,
and both derive one root key. -/
theorem exists_rootKey (hsign : H.VerifiesSigned) (hdh : H.DhCommutes) (hhkdf : H.HkdfTotal)
    (initiatorPriv responderPriv : IdentityPrivateKey)
    (initiatorCoins responderCoins : HandshakeCoins)
    (expected : Option (VerifyingKey H.toKeyFormat))
    (hexpected : expected = none ∨ expected = some (initiatorPriv.verifyingKey H)) :
    let opened := initiate H initiatorPriv (responderPriv.verifyingKey H) initiatorCoins
    let response := responsePayload responderPriv opened.2 responderCoins
    ∃ rootKey, respond H responderPriv expected opened.2 responderCoins =
        .ok (response, rootKey) ∧ opened.1.finalize response = .ok rootKey := by
  intro opened response
  obtain ⟨rootKey, hkey⟩ := exists_deriveRootKey hhkdf
    ⟨H.x25519DiffieHellman responderCoins.ephemeralSecret
      (H.x25519PublicKey initiatorCoins.ephemeralSecret)⟩
    (initiatorPriv.verifyingKey H) (responderPriv.verifyingKey H)
    (H.x25519PublicKey initiatorCoins.ephemeralSecret)
    (H.x25519PublicKey responderCoins.ephemeralSecret) initiatorCoins.nonce responderCoins.nonce
  have hpeer : ∀ peer ∈ expected, opened.2.initiatorIdentityPub = peer := by
    rintro peer hmem
    rcases hexpected with rfl | rfl
    · cases hmem
    · exact Option.some.inj hmem
  refine ⟨rootKey, ?_, ?_⟩
  · exact respond_eq_ok_iff.2
      ⟨hpeer, verify_initiate hsign initiatorPriv _ initiatorCoins, rfl, hkey⟩
  · rw [hdh] at hkey
    exact finalize_eq_ok_iff.2
      ⟨rfl, verify_responsePayload hsign responderPriv opened.2 responderCoins, hkey⟩

/-- An undisturbed handshake completes at both parties, with one root key, whether
or not the responder expects the initiator. -/
theorem handshake_completes (hsign : H.VerifiesSigned) (hdh : H.DhCommutes)
    (hhkdf : H.HkdfTotal) (initiatorPriv responderPriv : IdentityPrivateKey)
    (initiatorCoins responderCoins : HandshakeCoins)
    (expected : Option (VerifyingKey H.toKeyFormat))
    (hexpected : expected = none ∨ expected = some (initiatorPriv.verifyingKey H)) :
    let opened := initiate H initiatorPriv (responderPriv.verifyingKey H) initiatorCoins
    ∃ initiation response received rootKey,
      HandshakeInitPayload.fromBytes H.toKeyFormat opened.2.toBytes.toList = .ok initiation ∧
        respond H responderPriv expected initiation responderCoins = .ok (response, rootKey) ∧
          HandshakeResponsePayload.fromBytes H.toKeyFormat response.toBytes.toList =
            .ok received ∧
            opened.1.finalize received = .ok rootKey := by
  intro opened
  obtain ⟨rootKey, hrespond, hfinalize⟩ := exists_rootKey hsign hdh hhkdf initiatorPriv
    responderPriv initiatorCoins responderCoins expected hexpected
  exact ⟨opened.2, responsePayload responderPriv opened.2 responderCoins,
    responsePayload responderPriv opened.2 responderCoins, rootKey,
    HandshakeInitPayload.fromBytes_toBytes _, hrespond,
    HandshakeResponsePayload.fromBytes_toBytes _, hfinalize⟩

/-! ## An instance of the primitives -/

/-- The modulus of the instance. -/
def modulus : ℕ := 2 ^ 255 - 19

/-- A number modulo `modulus` in 32 bytes. -/
def reduced (n : ℕ) : Bytes 32 := ⟨beBytes 32 (n % modulus), length_beBytes _ _⟩

theorem ofBeBytes_reduced (n : ℕ) : ofBeBytes (reduced n).toList = n % modulus :=
  ofBeBytes_beBytes ((Nat.mod_lt n (by decide)).trans (by decide))

/-- The key with the message modulo `modulus`. -/
def modularSignature (key : Bytes 32) (message : List UInt8) : Bytes 64 :=
  Bytes.ofList (key.toList ++ (reduced (ofBeBytes message)).toList) (by simp)

/-- Signing keys are their own public keys, and the key exchange is exponentiation. -/
def modularPrimitives : HandshakePrimitives where
  isVerifyingKey _ := true
  verifyingKey key := ⟨key, rfl⟩
  sign key message := modularSignature key message
  verify key message signature :=
    decide (signature = modularSignature key.asBytes message)
  x25519PublicKey secret := reduced (2 ^ ofBeBytes secret.toList)
  x25519DiffieHellman secret peer := reduced (ofBeBytes peer.toList ^ ofBeBytes secret.toList)
  hkdfSha256 salt key info := some (reduced (ofBeBytes (salt ++ key.toList ++ info)))

theorem modular_verifiesSigned : modularPrimitives.VerifiesSigned :=
  fun _ _ => decide_eq_true rfl

theorem modular_dhCommutes : modularPrimitives.DhCommutes := by
  intro a b
  apply congrArg (fun n => (⟨beBytes 32 n, length_beBytes _ _⟩ : Bytes 32))
  change ofBeBytes (reduced _).toList ^ _ % modulus = ofBeBytes (reduced _).toList ^ _ % modulus
  rw [ofBeBytes_reduced, ofBeBytes_reduced, ← Nat.pow_mod, ← Nat.pow_mod, ← Nat.pow_mul,
    ← Nat.pow_mul, Nat.mul_comm]

theorem modular_hkdfTotal : modularPrimitives.HkdfTotal := fun _ _ _ => rfl

/-- The number `n` as a signing key. -/
def modularKey (n : ℕ) : IdentityPrivateKey := ⟨reduced n⟩

/-- The number `n` as the secret and the nonce of a call. -/
def modularCoins (n : ℕ) : HandshakeCoins := ⟨reduced n, ⟨beBytes 16 n, length_beBytes _ _⟩⟩

/-- A responder that expects the initiator. -/
theorem expected_handshake_completes :
    let opened := initiate modularPrimitives (modularKey 7)
      ((modularKey 8).verifyingKey modularPrimitives) (modularCoins 3)
    ∃ initiation response received rootKey,
      HandshakeInitPayload.fromBytes modularPrimitives.toKeyFormat
          opened.2.toBytes.toList = .ok initiation ∧
        respond modularPrimitives (modularKey 8)
            (some ((modularKey 7).verifyingKey modularPrimitives)) initiation
            (modularCoins 5) = .ok (response, rootKey) ∧
          HandshakeResponsePayload.fromBytes modularPrimitives.toKeyFormat
              response.toBytes.toList = .ok received ∧
            opened.1.finalize received = .ok rootKey :=
  handshake_completes modular_verifiesSigned modular_dhCommutes modular_hkdfTotal
    (modularKey 7) (modularKey 8) (modularCoins 3) (modularCoins 5) _ (Or.inr rfl)

end NullPath
