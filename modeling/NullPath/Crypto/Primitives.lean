import NullPath.Data.Bytes

/-!
# Primitives and error values

The hash, the MAC and the AEAD come from published crates, so they are
parameters: `Primitives` lists the functions the crate calls, with the results
they return. A call that the crate's interface allows to fail returns an
`Option`.

What the callers rely on is stated separately, one predicate for each fact:
`EncryptTotal` says that encryption does not fail, `HmacTotal` that the MAC takes
the ratchet keys, `DecryptUndoes` that decryption under the same key, nonce and
associated data gives back what was encrypted, and `EncryptUndoes` the converse.
-/

namespace NullPath

/-- The length of the AEAD plaintext and of its ciphertext. -/
abbrev plaintextLen : ℕ := 996

/-- The functions taken from the cryptographic crates. -/
structure Primitives where
  /-- SHA-256 of a byte string. -/
  sha256 : List UInt8 → Bytes 32
  /-- HMAC-SHA256 of a message; `none` when the key length is refused. -/
  hmacSha256 : List UInt8 → List UInt8 → Option (Bytes 32)
  /-- ChaCha20-Poly1305 with a detached tag: key, nonce, associated data and
  plaintext buffer give the ciphertext and the tag. -/
  encryptInPlaceDetached : Bytes 32 → Bytes 12 → List UInt8 → Bytes plaintextLen →
    Option (Bytes plaintextLen × Bytes 16)
  /-- The inverse operation; `none` when the tag does not authenticate. -/
  decryptInPlaceDetached : Bytes 32 → Bytes 12 → List UInt8 → Bytes plaintextLen → Bytes 16 →
    Option (Bytes plaintextLen)

namespace Primitives

/-- Encryption of a full plaintext buffer never fails: the cipher only refuses
buffers beyond its block counter. -/
def EncryptTotal (P : Primitives) : Prop :=
  ∀ key nonce aad plaintext,
    (P.encryptInPlaceDetached key nonce aad plaintext).isSome = true

/-- Encryption with this associated data never fails. -/
def EncryptsWith (P : Primitives) (aad : List UInt8) : Prop :=
  ∀ key nonce plaintext,
    (P.encryptInPlaceDetached key nonce aad plaintext).isSome = true

/-- Encryption never fails for associated data of at most `n` bytes. -/
def EncryptTotalUpTo (P : Primitives) (n : ℕ) : Prop :=
  ∀ aad, aad.length ≤ n → P.EncryptsWith aad

theorem EncryptTotal.encryptsWith {P : Primitives} (hencrypt : P.EncryptTotal)
    (aad : List UInt8) : P.EncryptsWith aad :=
  fun key nonce plaintext => hencrypt key nonce aad plaintext

/-- HMAC accepts keys of the length of a ratchet key: it accepts every length. -/
def HmacTotal (P : Primitives) : Prop :=
  ∀ (key : Bytes 32) message, (P.hmacSha256 key.toList message).isSome = true

/-- Decryption under the same key, nonce and associated data undoes
encryption. -/
def DecryptUndoes (P : Primitives) : Prop :=
  ∀ key nonce aad plaintext ciphertext tag,
    P.encryptInPlaceDetached key nonce aad plaintext = some (ciphertext, tag) →
      P.decryptInPlaceDetached key nonce aad ciphertext tag = some plaintext

/-- Every plaintext that decryption returns can be encrypted again, and
encrypting it under the same key, nonce and associated data gives back the
ciphertext and the tag. -/
def EncryptUndoes (P : Primitives) : Prop :=
  ∀ key nonce aad ciphertext tag plaintext,
    P.decryptInPlaceDetached key nonce aad ciphertext tag = some plaintext →
      P.encryptInPlaceDetached key nonce aad plaintext = some (ciphertext, tag)

end Primitives

/-- Errors of the path selection engine. -/
inductive PathEngineError
  | InvalidPathCount
  | HmacFailure
  deriving DecidableEq, Repr

/-- Errors of envelope sealing and opening. -/
inductive EnvelopeError
  | PayloadTooLarge
  | EncryptionFailure
  | DecryptionFailure
  | InvalidFormat
  deriving DecidableEq, Repr

/-- Errors of decoy generation and slot distribution. -/
inductive DecoyError
  | InvalidPathCount
  | InvalidSlotIndex
  | SealFailure
  deriving DecidableEq, Repr

/-- Errors of the secure channel. -/
inductive ChannelError
  | HandshakeRequired
  | ReplayedSequence
  | SkippedKeyExpired
  | InvalidSequence
  | InvalidMessageId
  | OutofWindow
  | AuthenticationFailed
  | DecoyFailure
  deriving DecidableEq, Repr

end NullPath
