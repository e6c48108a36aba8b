import NullPath.Handshake.Completion
import Mathlib.Data.Set.Function

/-!
# What the handshake encodings determine

The wire codecs of both payloads are mutually inverse (`payload_codecs`): a byte
string decodes exactly if it is the encoding of the payload it decodes to.

The byte strings that the handshake signs, and the salt and info of the key
derivation, determine the parameters they were built from. Where HKDF does not
collide, two sessions with one root key therefore agree on the whole transcript
(`transcripts_unambiguous`).
-/

namespace NullPath

/-! ## The wire codecs -/

section Codecs

variable {F : KeyFormat}

theorem WireFields.pack_unpack (bytes : Bytes initPayloadLen) :
    (WireFields.unpack bytes).pack = bytes := by
  apply List.Vector.toList_injective
  rw [WireFields.pack, Bytes.toList_ofList, WireFields.buffer_eq]
  simp only [WireFields.unpack, Bytes.toList_slice]
  rw [extract_append_extract (by decide) (by decide),
    extract_append_extract (by decide) (by decide),
    extract_append_extract (by decide) (by decide), extract_all bytes.toList_length]

theorem WireFields.take_pack (fields : WireFields) :
    fields.pack.toList.take 32 = fields.identity.toList := by
  rw [WireFields.pack, Bytes.toList_ofList, WireFields.buffer_eq, List.append_assoc,
    List.append_assoc]
  exact List.take_left' fields.identity.toList_length

/-- The fields of a payload: a valid public key stands at the identity. -/
abbrev ValidFields (F : KeyFormat) : Type :=
  {fields : WireFields // F.isVerifyingKey fields.identity = true}

namespace ValidFields

def encode (fields : ValidFields F) : List UInt8 := fields.1.pack.toList

def decode (F : KeyFormat) (bytes : List UInt8) : Except HandshakeError (ValidFields F) :=
  if h : bytes.length = initPayloadLen then
    if hvalid : F.isVerifyingKey (WireFields.unpack (Bytes.ofList bytes h)).identity = true then
      .ok ⟨WireFields.unpack (Bytes.ofList bytes h), hvalid⟩
    else .error .InvalidPayloadFormat
  else .error .InvalidPayloadFormat

theorem isCodec (F : KeyFormat) : IsCodec encode (decode F) := by
  intro fields bytes
  constructor
  · intro h
    unfold decode at h
    split_ifs at h with hlength hvalid
    cases h
    exact congrArg List.Vector.toList (WireFields.pack_unpack (Bytes.ofList bytes hlength))
  · rintro rfl
    have hlength : fields.encode.length = initPayloadLen := fields.1.pack.toList_length
    have hfields : WireFields.unpack (Bytes.ofList fields.encode hlength) = fields.1 :=
      WireFields.unpack_eq rfl
    have hvalid : F.isVerifyingKey
        (WireFields.unpack (Bytes.ofList fields.encode hlength)).identity = true := by
      rw [hfields]
      exact fields.2
    unfold decode
    rw [dif_pos hlength, dif_pos hvalid]
    exact congrArg Except.ok (Subtype.ext hfields)

end ValidFields

/-- A wire message as the specification has it: 144 bytes that start with a
valid public key. -/
def IsWireMessage (F : KeyFormat) (bytes : List UInt8) : Prop :=
  bytes.length = 144 ∧
    ∃ key : Bytes 32, key.toList = bytes.take 32 ∧ F.isVerifyingKey key = true

/-- The wire messages are the encodings of valid fields. -/
theorem isWireMessage_iff {bytes : List UInt8} :
    IsWireMessage F bytes ↔ ∃ fields : ValidFields F, fields.encode = bytes := by
  constructor
  · rintro ⟨hlength, key, hkey, hvalid⟩
    have hpack := WireFields.pack_unpack (Bytes.ofList bytes hlength)
    have hidentity : (WireFields.unpack (Bytes.ofList bytes hlength)).identity = key := by
      apply List.Vector.toList_injective
      rw [← WireFields.take_pack, hpack, Bytes.toList_ofList, hkey]
    refine ⟨⟨WireFields.unpack (Bytes.ofList bytes hlength), by rw [hidentity]; exact hvalid⟩, ?_⟩
    rw [ValidFields.encode, hpack, Bytes.toList_ofList]
  · rintro ⟨fields, rfl⟩
    exact ⟨fields.1.pack.toList_length, fields.1.identity, fields.1.take_pack.symm, fields.2⟩

theorem exists_decode_iff_isWireMessage {α : Type*} (e : ValidFields F ≃ α) {bytes : List UInt8} :
    (∃ a, (e.symm a).encode = bytes) ↔ IsWireMessage F bytes := by
  rw [isWireMessage_iff]
  exact (e.symm.surjective.exists (p := fun fields => fields.encode = bytes)).symm

namespace HandshakeInitPayload

/-- An initiation is its fields. -/
def ofFields : ValidFields F ≃ HandshakeInitPayload F where
  toFun fields :=
    ⟨⟨fields.1.identity, fields.2⟩, fields.1.ephemeral, fields.1.nonce, fields.1.signature⟩
  invFun payload :=
    ⟨⟨payload.initiatorIdentityPub.asBytes, payload.initiatorEphemeralPub, payload.nonce,
      payload.signature⟩, payload.initiatorIdentityPub.valid⟩
  left_inv _ := rfl
  right_inv _ := rfl

theorem fromBytes_eq (bytes : List UInt8) :
    fromBytes F bytes = (ValidFields.decode F bytes).map ofFields := by
  unfold fromBytes ValidFields.decode VerifyingKey.fromBytes
  dsimp only
  split_ifs
  · rfl
  · rfl
  · rfl

theorem isCodec (F : KeyFormat) : IsCodec (fun p : HandshakeInitPayload F => p.toBytes.toList)
    (fromBytes F) := by
  intro payload bytes
  rw [fromBytes_eq]
  exact (ValidFields.isCodec F).map ofFields payload bytes

end HandshakeInitPayload

namespace HandshakeResponsePayload

/-- A response is its fields. -/
def ofFields : ValidFields F ≃ HandshakeResponsePayload F where
  toFun fields :=
    ⟨⟨fields.1.identity, fields.2⟩, fields.1.ephemeral, fields.1.nonce, fields.1.signature⟩
  invFun payload :=
    ⟨⟨payload.responderIdentityPub.asBytes, payload.responderEphemeralPub, payload.nonce,
      payload.signature⟩, payload.responderIdentityPub.valid⟩
  left_inv _ := rfl
  right_inv _ := rfl

theorem fromBytes_eq (bytes : List UInt8) :
    fromBytes F bytes = (ValidFields.decode F bytes).map ofFields := by
  unfold fromBytes ValidFields.decode VerifyingKey.fromBytes
  dsimp only
  split_ifs
  · rfl
  · rfl
  · rfl

theorem isCodec (F : KeyFormat) :
    IsCodec (fun p : HandshakeResponsePayload F => p.toBytes.toList) (fromBytes F) := by
  intro payload bytes
  rw [fromBytes_eq]
  exact (ValidFields.isCodec F).map ofFields payload bytes

end HandshakeResponsePayload

/-- **Wire codecs.** Every payload is decoded from its encoding. A byte string
decodes exactly if it has 144 bytes and starts with a valid public key, and then
it is the encoding of the result, so no two byte strings decode to one payload. -/
theorem payload_codecs (F : KeyFormat) :
    ((∀ payload : HandshakeInitPayload F,
        HandshakeInitPayload.fromBytes F payload.toBytes.toList = .ok payload) ∧
      (∀ bytes, (∃ payload, HandshakeInitPayload.fromBytes F bytes = .ok payload) ↔
        IsWireMessage F bytes) ∧
      (∀ bytes payload, HandshakeInitPayload.fromBytes F bytes = .ok payload →
        payload.toBytes.toList = bytes) ∧
      (∀ bytes bytes' payload, HandshakeInitPayload.fromBytes F bytes = .ok payload →
        HandshakeInitPayload.fromBytes F bytes' = .ok payload → bytes = bytes')) ∧
    ((∀ payload : HandshakeResponsePayload F,
        HandshakeResponsePayload.fromBytes F payload.toBytes.toList = .ok payload) ∧
      (∀ bytes, (∃ payload, HandshakeResponsePayload.fromBytes F bytes = .ok payload) ↔
        IsWireMessage F bytes) ∧
      (∀ bytes payload, HandshakeResponsePayload.fromBytes F bytes = .ok payload →
        payload.toBytes.toList = bytes) ∧
      (∀ bytes bytes' payload, HandshakeResponsePayload.fromBytes F bytes = .ok payload →
        HandshakeResponsePayload.fromBytes F bytes' = .ok payload → bytes = bytes')) := by
  have hinit := HandshakeInitPayload.isCodec F
  have hresp := HandshakeResponsePayload.isCodec F
  constructor
  · exact ⟨hinit.decode_encode,
      fun bytes => hinit.exists_decode_iff.trans
        (exists_decode_iff_isWireMessage HandshakeInitPayload.ofFields),
      fun bytes payload => (hinit payload bytes).1,
      fun bytes bytes' payload => hinit.decode_injective⟩
  · exact ⟨hresp.decode_encode,
      fun bytes => hresp.exists_decode_iff.trans
        (exists_decode_iff_isWireMessage HandshakeResponsePayload.ofFields),
      fun bytes payload => (hresp payload bytes).1,
      fun bytes bytes' payload => hresp.decode_injective⟩

end Codecs

/-! ## The transcript -/

/-- The parameters of a session, with their roles. -/
structure SessionTranscript (F : KeyFormat) where
  initiatorIdentityPub : VerifyingKey F
  responderIdentityPub : VerifyingKey F
  initiatorEphemeralPub : Bytes 32
  responderEphemeralPub : Bytes 32
  initiatorNonce : Bytes 16
  responderNonce : Bytes 16
  deriving DecidableEq

namespace SessionTranscript

variable {F : KeyFormat}

/-- The salt of the key derivation. -/
def salt (transcript : SessionTranscript F) : List UInt8 :=
  transcript.initiatorNonce.toList ++ transcript.responderNonce.toList

/-- The info of the key derivation. -/
def info (transcript : SessionTranscript F) : List UInt8 :=
  ascii "decoypath-v1-transcript-binding:" ++ transcript.initiatorIdentityPub.asBytes.toList ++
    transcript.responderIdentityPub.asBytes.toList ++ transcript.initiatorEphemeralPub.toList ++
      transcript.responderEphemeralPub.toList

theorem eq_of_salt_info {transcript transcript' : SessionTranscript F}
    (hsalt : transcript.salt = transcript'.salt) (hinfo : transcript.info = transcript'.info) :
    transcript = transcript' := by
  obtain ⟨initiator, responder, initiatorEphemeral, responderEphemeral, nonce, nonce'⟩ :=
    transcript
  simp only [salt, Bytes.append_inj] at hsalt
  simp only [info, List.append_assoc, List.append_cancel_left_eq, Bytes.append_inj] at hinfo
  obtain ⟨hnonce, hnonce'⟩ := hsalt
  obtain ⟨hinitiator, hresponder, hephemeral, hephemeral'⟩ := hinfo
  rw [VerifyingKey.asBytes_injective hinitiator, VerifyingKey.asBytes_injective hresponder,
    hephemeral, List.Vector.toList_injective hephemeral', hnonce,
    List.Vector.toList_injective hnonce']

end SessionTranscript

variable {H : HandshakePrimitives}

theorem deriveRootKey_eq_ok_iff {rawDh : RawDhSecret}
    {transcript : SessionTranscript H.toKeyFormat} {rootKey : RootKey} :
    deriveRootKey H rawDh transcript.initiatorIdentityPub transcript.responderIdentityPub
        transcript.initiatorEphemeralPub transcript.responderEphemeralPub
        transcript.initiatorNonce transcript.responderNonce = .ok rootKey ↔
      H.hkdfSha256 transcript.salt rawDh.bytes transcript.info = some rootKey.bytes := by
  unfold deriveRootKey
  dsimp only
  split
  · rename_i hnone
    have hkdf : H.hkdfSha256 transcript.salt rawDh.bytes transcript.info = none := hnone
    rw [hkdf]
    simp
  · rename_i rootKeyBytes hsome
    have hkdf : H.hkdfSha256 transcript.salt rawDh.bytes transcript.info =
      some rootKeyBytes := hsome
    rw [hkdf]
    simp only [Except.ok.injEq, Option.some.injEq]
    exact ⟨fun h => by rw [← h], fun h => by rw [h]⟩

/-! ## Sessions that end with a root key -/

/-- The last call of a party's session: `finalize` at an initiator, or `respond`
at a responder. -/
inductive LastCall (H : HandshakePrimitives)
  | finalize (self : InitiatorState H) (response : HandshakeResponsePayload H.toKeyFormat)
  | respond (responderIdentityPriv : IdentityPrivateKey)
      (expectedInitiatorPub : Option (VerifyingKey H.toKeyFormat))
      (initiation : HandshakeInitPayload H.toKeyFormat) (coins : HandshakeCoins)

namespace LastCall

/-- The root key that the call returns. -/
def rootKey : LastCall H → Except HandshakeError RootKey
  | finalize self response => self.finalize response
  | respond priv expected initiation coins =>
      (NullPath.respond H priv expected initiation coins).map Prod.snd

theorem rootKey_respond {priv : IdentityPrivateKey}
    {expected : Option (VerifyingKey H.toKeyFormat)}
    {initiation : HandshakeInitPayload H.toKeyFormat} {coins : HandshakeCoins}
    {response : HandshakeResponsePayload H.toKeyFormat} {rootKey : RootKey}
    (h : NullPath.respond H priv expected initiation coins = .ok (response, rootKey)) :
    (respond priv expected initiation coins).rootKey = .ok rootKey := by
  rw [LastCall.rootKey, h]
  rfl

/-- The session parameters as the party has them. -/
def transcript : LastCall H → SessionTranscript H.toKeyFormat
  | finalize self response =>
      { initiatorIdentityPub := self.identityPub
        responderIdentityPub := self.expectedResponderPub
        initiatorEphemeralPub := self.ephemeralPub
        responderEphemeralPub := response.responderEphemeralPub
        initiatorNonce := self.nonce
        responderNonce := response.nonce }
  | respond priv _ initiation coins =>
      { initiatorIdentityPub := initiation.initiatorIdentityPub
        responderIdentityPub := priv.verifyingKey H
        initiatorEphemeralPub := initiation.initiatorEphemeralPub
        responderEphemeralPub := H.x25519PublicKey coins.ephemeralSecret
        initiatorNonce := initiation.nonce
        responderNonce := coins.nonce }

/-- The Diffie-Hellman secret that the party computes. -/
def rawDh : LastCall H → RawDhSecret
  | finalize self response =>
      ⟨H.x25519DiffieHellman self.ephemeral.secret response.responderEphemeralPub⟩
  | respond _ _ initiation coins =>
      ⟨H.x25519DiffieHellman coins.ephemeralSecret initiation.initiatorEphemeralPub⟩

end LastCall

/-- The arguments of one HKDF call. -/
@[ext]
structure HkdfInput where
  salt : List UInt8
  inputKey : Bytes 32
  info : List UInt8
  deriving DecidableEq

/-- HKDF takes no two inputs of `inputs` to the same output. -/
def HandshakePrimitives.CollisionFree (H : HandshakePrimitives) (inputs : Set HkdfInput) : Prop :=
  inputs.InjOn fun input => H.hkdfSha256 input.salt input.inputKey input.info

/-- What a session feeds to HKDF. -/
def LastCall.hkdfInput (call : LastCall H) : HkdfInput :=
  { salt := call.transcript.salt
    inputKey := call.rawDh.bytes
    info := call.transcript.info }

theorem LastCall.hkdf_of_rootKey {call : LastCall H} {rootKey : RootKey}
    (h : call.rootKey = .ok rootKey) :
    H.hkdfSha256 call.hkdfInput.salt call.hkdfInput.inputKey call.hkdfInput.info =
      some rootKey.bytes := by
  apply deriveRootKey_eq_ok_iff.1
  cases call with
  | finalize self response => exact (finalize_eq_ok_iff.1 h).2.2
  | respond priv expected initiation coins =>
      simp only [LastCall.rootKey] at h
      cases hrespond : NullPath.respond H priv expected initiation coins with
      | error e =>
          rw [hrespond] at h
          cases h
      | ok result =>
          rw [hrespond] at h
          cases h
          exact (respond_eq_ok_iff.1 hrespond).2.2.2

/-- Sessions with one root key have one transcript, unless HKDF collides. -/
theorem LastCall.transcript_eq {inputs : Set HkdfInput} (hkdf : H.CollisionFree inputs)
    {call call' : LastCall H} {rootKey : RootKey} (hinput : call.hkdfInput ∈ inputs)
    (hinput' : call'.hkdfInput ∈ inputs) (h : call.rootKey = .ok rootKey)
    (h' : call'.rootKey = .ok rootKey) : call.transcript = call'.transcript := by
  have houtput := (hkdf_of_rootKey h).trans (hkdf_of_rootKey h').symm
  have hsame : call.hkdfInput = call'.hkdfInput := hkdf hinput hinput' houtput
  exact SessionTranscript.eq_of_salt_info (congrArg HkdfInput.salt hsame)
    (congrArg HkdfInput.info hsame)

/-- **Unambiguous transcripts.** The signed messages determine their parameters and
the two kinds of messages are disjoint. Salt and info determine the session
parameters, so sessions that end with one root key, at initiators or responders,
agree on all of them unless HKDF collides on their inputs. -/
theorem transcripts_unambiguous (H : HandshakePrimitives) (inputs : Set HkdfInput)
    (hkdf : H.CollisionFree inputs) :
    (∀ (initiator initiator' responder responder' : VerifyingKey H.toKeyFormat)
        (ephemeralPub ephemeralPub' : Bytes 32) (nonce nonce' : Bytes 16),
      initiationMessage initiator responder ephemeralPub nonce =
          initiationMessage initiator' responder' ephemeralPub' nonce' →
        initiator = initiator' ∧ responder = responder' ∧ ephemeralPub = ephemeralPub' ∧
          nonce = nonce') ∧
    (∀ transcript transcript' : SessionTranscript H.toKeyFormat,
      responseMessage transcript.responderIdentityPub transcript.initiatorIdentityPub
          transcript.responderEphemeralPub transcript.initiatorEphemeralPub
          transcript.responderNonce transcript.initiatorNonce =
        responseMessage transcript'.responderIdentityPub transcript'.initiatorIdentityPub
          transcript'.responderEphemeralPub transcript'.initiatorEphemeralPub
          transcript'.responderNonce transcript'.initiatorNonce →
        transcript = transcript') ∧
    (∀ (initiator responder : VerifyingKey H.toKeyFormat) (ephemeralPub : Bytes 32)
        (nonce : Bytes 16) (transcript : SessionTranscript H.toKeyFormat),
      initiationMessage initiator responder ephemeralPub nonce ≠
        responseMessage transcript.responderIdentityPub transcript.initiatorIdentityPub
          transcript.responderEphemeralPub transcript.initiatorEphemeralPub
          transcript.responderNonce transcript.initiatorNonce) ∧
    (∀ transcript transcript' : SessionTranscript H.toKeyFormat,
      transcript.salt = transcript'.salt → transcript.info = transcript'.info →
        transcript = transcript') ∧
    (∀ (call call' : LastCall H) (rootKey : RootKey), call.hkdfInput ∈ inputs →
      call'.hkdfInput ∈ inputs → call.rootKey = .ok rootKey → call'.rootKey = .ok rootKey →
        call.transcript = call'.transcript) := by
  refine ⟨fun _ _ _ _ _ _ _ _ => initiationMessage_inj, ?_,
    fun _ _ _ _ _ => initiationMessage_ne_responseMessage,
    fun _ _ => SessionTranscript.eq_of_salt_info,
    fun _ _ _ => LastCall.transcript_eq hkdf⟩
  rintro ⟨initiator, responder, _, _, _, _⟩ ⟨initiator', responder', _, _, _, _⟩ h
  obtain ⟨rfl, rfl, rfl, rfl, rfl, rfl⟩ := responseMessage_inj h
  rfl

theorem exists_both_ends (hsign : H.VerifiesSigned) (hdh : H.DhCommutes) (hhkdf : H.HkdfTotal)
    (initiatorPriv responderPriv : IdentityPrivateKey)
    (initiatorCoins responderCoins : HandshakeCoins) :
    let answered := LastCall.respond responderPriv none
      (initiate H initiatorPriv (responderPriv.verifyingKey H) initiatorCoins).2 responderCoins
    ∃ (closed : LastCall H) (rootKey : RootKey), closed.rootKey = .ok rootKey ∧
      answered.rootKey = .ok rootKey ∧ closed.hkdfInput = answered.hkdfInput := by
  intro answered
  obtain ⟨rootKey, hrespond, hfinalize⟩ := exists_rootKey hsign hdh hhkdf initiatorPriv
    responderPriv initiatorCoins responderCoins none (Or.inl rfl)
  refine ⟨.finalize _ _, rootKey, hfinalize, LastCall.rootKey_respond hrespond, ?_⟩
  apply HkdfInput.ext
  · rfl
  · exact (hdh _ _).symm
  · rfl

/-- How party 8 ends an undisturbed handshake that party 7 opened. -/
def modularAnswer (initiatorCoins responderCoins : ℕ) : LastCall modularPrimitives :=
  .respond (modularKey 8) none
    (initiate modularPrimitives (modularKey 7) ((modularKey 8).verifyingKey modularPrimitives)
      (modularCoins initiatorCoins)).2
    (modularCoins responderCoins)

/-- Among the sessions of two handshakes, the two ends of one hold one root key and agree. -/
theorem ends_agree :
    (modularAnswer 3 5).hkdfInput ≠ (modularAnswer 4 6).hkdfInput ∧
      ∃ (closed : LastCall modularPrimitives) (rootKey : RootKey),
        closed.rootKey = .ok rootKey ∧ (modularAnswer 3 5).rootKey = .ok rootKey ∧
          closed.transcript = (modularAnswer 3 5).transcript := by
  have hkdf : modularPrimitives.CollisionFree
      {(modularAnswer 3 5).hkdfInput, (modularAnswer 4 6).hkdfInput} :=
    Set.injOn_pair.2 fun h => absurd h (by decide +kernel)
  obtain ⟨closed, rootKey, hclosed, hanswered, hinput⟩ := exists_both_ends
    modular_verifiesSigned modular_dhCommutes modular_hkdfTotal (modularKey 7) (modularKey 8)
    (modularCoins 3) (modularCoins 5)
  refine ⟨by decide +kernel, closed, rootKey, hclosed, hanswered, ?_⟩
  exact (transcripts_unambiguous modularPrimitives _ hkdf).2.2.2.2 closed (modularAnswer 3 5)
    rootKey (Or.inl hinput) (Or.inl rfl) hclosed hanswered

end NullPath
