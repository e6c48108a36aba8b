import NullPath.Data.Bytes

/-!
# Handshake keys and payloads

The signature scheme, the key exchange and the key derivation come from published
crates, so they are parameters: `HandshakePrimitives` lists the functions that the
handshake calls. An Ed25519 public key is the 32 bytes it is encoded in, together
with the fact that the crate accepts them; X25519 public keys, signatures, secrets
and nonces are any bytes of their length.

Both payloads are 144 bytes on the wire, in the same layout: identity key,
ephemeral key, nonce, signature.
-/

namespace NullPath

/-- Which byte strings `VerifyingKey::from_bytes` accepts. -/
structure KeyFormat where
  isVerifyingKey : Bytes 32 → Bool

/-- An Ed25519 public key. -/
structure VerifyingKey (F : KeyFormat) where
  asBytes : Bytes 32
  valid : F.isVerifyingKey asBytes = true
  deriving DecidableEq

/-- `VerifyingKey::from_bytes`. -/
def VerifyingKey.fromBytes (F : KeyFormat) (bytes : Bytes 32) : Option (VerifyingKey F) :=
  if h : F.isVerifyingKey bytes = true then some ⟨bytes, h⟩ else none

theorem VerifyingKey.asBytes_injective {F : KeyFormat} :
    Function.Injective (VerifyingKey.asBytes (F := F)) := by
  rintro ⟨a, ha⟩ ⟨b, hb⟩ h
  cases h
  rfl

@[simp] theorem VerifyingKey.fromBytes_asBytes {F : KeyFormat} (key : VerifyingKey F) :
    VerifyingKey.fromBytes F key.asBytes = some key := by
  simp [VerifyingKey.fromBytes, key.valid]

/-- The functions that the handshake takes from the crates. -/
structure HandshakePrimitives extends KeyFormat where
  /-- The public key of an Ed25519 signing key. -/
  verifyingKey : Bytes 32 → VerifyingKey toKeyFormat
  /-- Ed25519 signing: signing key and message. -/
  sign : Bytes 32 → List UInt8 → Bytes 64
  /-- Whether a signature verifies. -/
  verify : VerifyingKey toKeyFormat → List UInt8 → Bytes 64 → Bool
  /-- The public key of an X25519 secret. -/
  x25519PublicKey : Bytes 32 → Bytes 32
  /-- The X25519 shared secret of a secret and a public key. -/
  x25519DiffieHellman : Bytes 32 → Bytes 32 → Bytes 32
  /-- HKDF-SHA256 to 32 bytes: salt, input key and info; `none` when the length is
  refused. -/
  hkdfSha256 : List UInt8 → Bytes 32 → List UInt8 → Option (Bytes 32)

/-- A signature that was made verifies. -/
def HandshakePrimitives.VerifiesSigned (H : HandshakePrimitives) : Prop :=
  ∀ key message, H.verify (H.verifyingKey key) message (H.sign key message) = true

/-- Both sides of a key exchange compute one secret. -/
def HandshakePrimitives.DhCommutes (H : HandshakePrimitives) : Prop :=
  ∀ a b, H.x25519DiffieHellman a (H.x25519PublicKey b) =
    H.x25519DiffieHellman b (H.x25519PublicKey a)

/-- HKDF-SHA256 does not refuse 32 bytes of output. -/
def HandshakePrimitives.HkdfTotal (H : HandshakePrimitives) : Prop :=
  ∀ salt key info, (H.hkdfSha256 salt key info).isSome = true

/-- Errors of the handshake. -/
inductive HandshakeError
  | InvalidSignature
  | PeerIdentityMismatch
  | InvalidPayloadFormat
  | CryptoFailure
  deriving DecidableEq, Repr

/-- The symmetric root key that both parties derive. -/
structure RootKey where
  bytes : Bytes 32
  deriving DecidableEq

/-- The raw Diffie-Hellman output. -/
structure RawDhSecret where
  bytes : Bytes 32

/-- A long-term Ed25519 signing key. -/
structure IdentityPrivateKey where
  bytes : Bytes 32
  deriving DecidableEq

def IdentityPrivateKey.verifyingKey (H : HandshakePrimitives) (key : IdentityPrivateKey) :
    VerifyingKey H.toKeyFormat :=
  H.verifyingKey key.bytes

abbrev initPayloadLen : ℕ := 144

abbrev respPayloadLen : ℕ := 144

/-! ## The wire layout -/

/-- The four fields of a payload as they stand on the wire. -/
structure WireFields where
  identity : Bytes 32
  ephemeral : Bytes 32
  nonce : Bytes 16
  signature : Bytes 64

/-- A zero buffer, with the fields written to it at their offsets. -/
def WireFields.buffer (fields : WireFields) : List UInt8 :=
  let out := List.replicate initPayloadLen 0
  let out := overwrite out 0 fields.identity.toList
  let out := overwrite out 32 fields.ephemeral.toList
  let out := overwrite out 64 fields.nonce.toList
  overwrite out 80 fields.signature.toList

theorem WireFields.buffer_eq (fields : WireFields) :
    fields.buffer = fields.identity.toList ++ fields.ephemeral.toList ++ fields.nonce.toList ++
      fields.signature.toList := by
  simp only [buffer]
  rw [overwrite_zeros_start, overwrite_zeros (by simp), overwrite_zeros (by simp),
    overwrite_zeros (by simp)]
  simp [initPayloadLen]

/-- The fields on the wire. -/
def WireFields.pack (fields : WireFields) : Bytes initPayloadLen :=
  Bytes.ofList fields.buffer (by simp [buffer_eq, initPayloadLen])

/-- The fields cut out at their offsets. -/
def WireFields.unpack (bytes : Bytes initPayloadLen) : WireFields :=
  { identity := bytes.slice 0 32 (by decide)
    ephemeral := bytes.slice 32 64 (by decide)
    nonce := bytes.slice 64 80 (by decide)
    signature := bytes.slice 80 144 (by decide) }

theorem WireFields.unpack_eq {bytes : Bytes initPayloadLen} {fields : WireFields}
    (h : bytes.toList = fields.buffer) : unpack bytes = fields := by
  rw [buffer_eq] at h
  obtain ⟨identity, ephemeral, nonce, signature⟩ := fields
  simp only at h
  unfold unpack
  congr 1
  · apply List.Vector.toList_injective
    rw [Bytes.toList_slice, h, List.append_assoc, List.append_assoc]
    exact @extract_append_middle _ [] _ _ _ _ rfl (by simp)
  · apply List.Vector.toList_injective
    rw [Bytes.toList_slice, h, List.append_assoc]
    exact extract_append_middle (by simp) (by simp)
  · apply List.Vector.toList_injective
    rw [Bytes.toList_slice, h]
    exact extract_append_middle (by simp) (by simp)
  · apply List.Vector.toList_injective
    rw [Bytes.toList_slice, h, ← List.append_nil (identity.toList ++ ephemeral.toList ++
      nonce.toList ++ signature.toList)]
    exact extract_append_middle (by simp) (by simp)

/-! ## The payloads -/

/-- The initiation message. -/
structure HandshakeInitPayload (F : KeyFormat) where
  initiatorIdentityPub : VerifyingKey F
  initiatorEphemeralPub : Bytes 32
  nonce : Bytes 16
  signature : Bytes 64
  deriving DecidableEq

/-- The response message. -/
structure HandshakeResponsePayload (F : KeyFormat) where
  responderIdentityPub : VerifyingKey F
  responderEphemeralPub : Bytes 32
  nonce : Bytes 16
  signature : Bytes 64
  deriving DecidableEq

namespace HandshakeInitPayload

variable {F : KeyFormat}

def toBytes (payload : HandshakeInitPayload F) : Bytes initPayloadLen :=
  WireFields.pack
    { identity := payload.initiatorIdentityPub.asBytes
      ephemeral := payload.initiatorEphemeralPub
      nonce := payload.nonce
      signature := payload.signature }

def fromBytes (F : KeyFormat) (bytes : List UInt8) :
    Except HandshakeError (HandshakeInitPayload F) :=
  if h : bytes.length = initPayloadLen then
    let fields := WireFields.unpack (Bytes.ofList bytes h)
    match VerifyingKey.fromBytes F fields.identity with
    | none => .error .InvalidPayloadFormat
    | some initiatorIdentityPub =>
        .ok { initiatorIdentityPub := initiatorIdentityPub
              initiatorEphemeralPub := fields.ephemeral
              nonce := fields.nonce
              signature := fields.signature }
  else .error .InvalidPayloadFormat

/-- A payload survives the wire. -/
theorem fromBytes_toBytes (payload : HandshakeInitPayload F) :
    fromBytes F payload.toBytes.toList = .ok payload := by
  have hlength : payload.toBytes.toList.length = initPayloadLen := payload.toBytes.toList_length
  have hfields : WireFields.unpack (Bytes.ofList payload.toBytes.toList hlength) = _ :=
    WireFields.unpack_eq rfl
  unfold fromBytes
  rw [dif_pos hlength, hfields]
  simp

end HandshakeInitPayload

namespace HandshakeResponsePayload

variable {F : KeyFormat}

def toBytes (payload : HandshakeResponsePayload F) : Bytes respPayloadLen :=
  WireFields.pack
    { identity := payload.responderIdentityPub.asBytes
      ephemeral := payload.responderEphemeralPub
      nonce := payload.nonce
      signature := payload.signature }

def fromBytes (F : KeyFormat) (bytes : List UInt8) :
    Except HandshakeError (HandshakeResponsePayload F) :=
  if h : bytes.length = respPayloadLen then
    let fields := WireFields.unpack (Bytes.ofList bytes h)
    match VerifyingKey.fromBytes F fields.identity with
    | none => .error .InvalidPayloadFormat
    | some responderIdentityPub =>
        .ok { responderIdentityPub := responderIdentityPub
              responderEphemeralPub := fields.ephemeral
              nonce := fields.nonce
              signature := fields.signature }
  else .error .InvalidPayloadFormat

theorem fromBytes_toBytes (payload : HandshakeResponsePayload F) :
    fromBytes F payload.toBytes.toList = .ok payload := by
  have hlength : payload.toBytes.toList.length = initPayloadLen := payload.toBytes.toList_length
  have hfields : WireFields.unpack (Bytes.ofList payload.toBytes.toList hlength) = _ :=
    WireFields.unpack_eq rfl
  unfold fromBytes
  rw [dif_pos hlength, hfields]
  simp

end HandshakeResponsePayload

end NullPath
