import NullPath.Crypto.Counter
import NullPath.Envelope.RoundTrip

/-!
# The envelope format

What `seal` writes, `open` reads back (`seal_round_trip`). The converse needs
every header byte to be checked. `open` checks the version and the length of an
authenticated plaintext, but not the flags, so it accepts exactly the documented
format as long as the flags are zero (`open_documented_iff`).
-/

namespace NullPath

variable {P : Primitives} {key : Bytes 32} {aad : List UInt8} {envelope : Envelope}
  {buffer : Bytes plaintextLen}

/-- **Round trip.** `seal` refuses exactly the payloads over 992 bytes, and every
other payload comes back from `open`, whatever nonce and padding were drawn. -/
theorem seal_round_trip (hencrypt : P.EncryptTotal) (hdecrypt : P.DecryptUndoes) (key : Bytes 32)
    (payload aad : List UInt8) (coins : SealCoins) :
    (Envelope.seal P coins key payload aad = .error .PayloadTooLarge ↔
      payload.length > maxPayloadSize) ∧
    (¬ payload.length > maxPayloadSize →
      ∃ envelope, Envelope.seal P coins key payload aad = .ok envelope ∧
        Envelope.open P key envelope aad = .ok payload) := by
  by_cases hlong : payload.length > maxPayloadSize
  · have hrefused : Envelope.seal P coins key payload aad = .error .PayloadTooLarge := by
      rw [Envelope.seal, dif_pos hlong]
    exact ⟨iff_of_true hrefused hlong, fun hfits => absurd hlong hfits⟩
  · obtain ⟨envelope, hseal⟩ := exists_seal (hencrypt.encryptsWith aad) coins key payload
      (Nat.le_of_not_gt hlong)
    refine ⟨iff_of_false ?_ hlong, fun _ => ⟨envelope, hseal, open_seal hdecrypt hseal⟩⟩
    rw [hseal]
    intro herror
    cases herror

/-- A payload that fills the envelope leaves no padding and is read back. -/
theorem full_payload_round_trip :
    ∃ envelope, Envelope.seal counterPrimitives
        ⟨List.Vector.replicate 12 7, List.Vector.replicate 992 9⟩ (List.Vector.replicate 32 1)
        (List.replicate 992 5) [1, 2, 3] = .ok envelope ∧
      Envelope.open counterPrimitives (List.Vector.replicate 32 1) envelope [1, 2, 3] =
        .ok (List.replicate 992 5) := by
  refine (seal_round_trip counter_encryptTotal counter_decryptUndoes _ _ _ _).2 ?_
  rw [List.length_replicate]
  decide

/-! ## What `open` accepts -/

/-- The length field of a plaintext. -/
def payloadLenField (buffer : Bytes plaintextLen) : ℕ := ofBeBytes (buffer.toList.extract 2 4)

/-- The documented header: version 1, flags 0 and a length of at most 992. -/
structure DocumentedFormat (buffer : Bytes plaintextLen) : Prop where
  version : buffer.toList[0]? = some 0x01
  flags : buffer.toList[1]? = some 0x00
  payloadLen : payloadLenField buffer ≤ maxPayloadSize

/-- The header bytes that `open` checks. -/
structure AcceptedFormat (buffer : Bytes plaintextLen) : Prop where
  version : buffer.toList[0]? = some 0x01
  payloadLen : payloadLenField buffer ≤ maxPayloadSize

theorem open_of_accepted (hdecrypts : Decrypts P key aad envelope buffer)
    (haccepted : AcceptedFormat buffer) :
    Envelope.open P key envelope aad =
      .ok (buffer.toList.extract 4 (4 + payloadLenField buffer)) := by
  have hversion : buffer.head = 0x01 := head_eq_iff.2 haccepted.version
  have hlength := Nat.not_lt.2 haccepted.payloadLen
  rw [Decrypts] at hdecrypts
  unfold Envelope.open
  simp only [hdecrypts, hversion, ne_eq, not_true_eq_false, if_false]
  rw [payloadLenField] at hlength ⊢
  exact if_neg hlength

theorem open_of_not_accepted (hdecrypts : Decrypts P key aad envelope buffer)
    (hrefused : ¬ AcceptedFormat buffer) :
    Envelope.open P key envelope aad = .error .InvalidFormat := by
  rw [Decrypts] at hdecrypts
  unfold Envelope.open
  simp only [hdecrypts]
  by_cases hversion : buffer.head = 0x01
  · have hlong : payloadLenField buffer > maxPayloadSize := by
      by_contra hshort
      exact hrefused ⟨head_eq_iff.1 hversion, Nat.le_of_not_gt hshort⟩
    rw [if_neg (not_not.2 hversion)]
    exact if_pos hlong
  · exact if_pos hversion

/-- `open` succeeds on the accepted plaintexts. -/
theorem open_eq_ok_iff {payload : List UInt8} :
    Envelope.open P key envelope aad = .ok payload ↔
      ∃ buffer, Decrypts P key aad envelope buffer ∧ AcceptedFormat buffer ∧
        payload = buffer.toList.extract 4 (4 + payloadLenField buffer) := by
  constructor
  · intro hopen
    cases hdecrypt : P.decryptInPlaceDetached key (envelope.slice 0 nonceLen (by decide)) aad
        (envelope.slice nonceLen (nonceLen + ciphertextLen) (by decide))
        (envelope.slice (nonceLen + ciphertextLen) envelopeTotalLen (by decide)) with
    | none => simp [Envelope.open, hdecrypt] at hopen
    | some buffer =>
        have hdecrypts : Decrypts P key aad envelope buffer := hdecrypt
        by_cases haccepted : AcceptedFormat buffer
        · rw [open_of_accepted hdecrypts haccepted] at hopen
          exact ⟨buffer, hdecrypts, haccepted, (Except.ok.inj hopen).symm⟩
        · rw [open_of_not_accepted hdecrypts haccepted] at hopen
          cases hopen
  · rintro ⟨buffer, hdecrypts, haccepted, rfl⟩
    exact open_of_accepted hdecrypts haccepted

/-! ## What `seal` produces -/

theorem documentedFormat_of_eq {payload padding : List UInt8}
    (hlen : payload.length ≤ maxPayloadSize) (hpadding : padding.length = 992)
    (h : buffer.toList = plaintextBuffer payload padding) : DocumentedFormat buffer := by
  rw [plaintextBuffer_eq hlen hpadding] at h
  have hfield : buffer.toList.extract 2 4 = beBytes 2 payload.length := by
    rw [h, List.append_assoc]
    exact extract_append_middle rfl (by simp)
  refine ⟨by rw [h]; rfl, by rw [h]; rfl, ?_⟩
  rw [payloadLenField, hfield, ofBeBytes_beBytes (lt_of_le_of_lt hlen (by decide))]
  exact hlen

namespace DocumentedFormat

theorem header (h : DocumentedFormat buffer) : buffer.toList.extract 0 2 = [0x01, 0x00] := by
  have hversion := h.version
  have hflags := h.flags
  cases hbuffer : buffer.toList with
  | nil => simp [hbuffer] at hversion
  | cons version tail =>
      cases tail with
      | nil => simp [hbuffer] at hflags
      | cons flags rest =>
          simp only [hbuffer, List.getElem?_cons_zero, Option.some.injEq] at hversion
          simp only [hbuffer, List.getElem?_cons_succ, List.getElem?_cons_zero,
            Option.some.injEq] at hflags
          simp [hversion, hflags]

theorem eq_plaintextBuffer (h : DocumentedFormat buffer) :
    ∃ payload, payload = buffer.toList.extract 4 (4 + payloadLenField buffer) ∧
      payload.length ≤ maxPayloadSize ∧
        ∃ padding : Bytes 992, plaintextBuffer payload padding.toList = buffer.toList := by
  have hlength : buffer.toList.length = 996 := buffer.toList_length
  have hshort := h.payloadLen
  simp only [maxPayloadSize] at hshort
  have hpayload : (buffer.toList.extract 4 (4 + payloadLenField buffer)).length =
      payloadLenField buffer := by
    rw [length_extract_of_le hlength (by omega)]
    omega
  have hrest : (buffer.toList.extract (4 + payloadLenField buffer) 996).length =
      992 - payloadLenField buffer := by
    rw [length_extract_of_le hlength (by decide)]
    omega
  have hfield : beBytes 2 (payloadLenField buffer) = buffer.toList.extract 2 4 :=
    beBytes_ofBeBytes (length_extract_of_le hlength (by decide))
  refine ⟨_, rfl, by rw [hpayload]; exact h.payloadLen,
    Bytes.ofList (buffer.toList.extract (4 + payloadLenField buffer) 996 ++
      List.replicate (payloadLenField buffer) 0) ?_, ?_⟩
  · rw [List.length_append, hrest, List.length_replicate]
    omega
  · -- The parts lie next to each other, from the header to the end of the buffer.
    rw [plaintextBuffer_eq (by rw [hpayload]; exact h.payloadLen) (List.Vector.toList_length _),
      hpayload, hfield,
      Bytes.toList_ofList, List.take_left' hrest, ← h.header,
      extract_append_extract (by decide) (by decide),
      extract_append_extract (by decide) (Nat.le_add_right _ _),
      extract_append_extract (Nat.zero_le _) (Nat.add_le_add_left hshort 4),
      extract_all hlength]

end DocumentedFormat

theorem packEnvelope_slices (envelope : Envelope) :
    packEnvelope (envelope.slice 0 nonceLen (by decide))
      (envelope.slice nonceLen (nonceLen + ciphertextLen) (by decide))
      (envelope.slice (nonceLen + ciphertextLen) envelopeTotalLen (by decide)) =
        envelope.toList := by
  rw [packEnvelope_eq]
  simp only [Bytes.toList_slice]
  rw [extract_append_extract (by decide) (by decide),
    extract_append_extract (by decide) (by decide), extract_all envelope.toList_length]

/-- An envelope whose plaintext is in the documented format is a seal of the
payload that `open` returns. -/
theorem DocumentedFormat.exists_seal (hundo : P.EncryptUndoes)
    (hdecrypts : Decrypts P key aad envelope buffer) (h : DocumentedFormat buffer) :
    ∃ coins, Envelope.seal P coins key
      (buffer.toList.extract 4 (4 + payloadLenField buffer)) aad = .ok envelope := by
  obtain ⟨payload, hpayload, hlen, padding, hbuffer⟩ := h.eq_plaintextBuffer
  have hplaintext : (⟨plaintextBuffer payload padding.toList,
      length_plaintextBuffer hlen padding.toList_length⟩ : Bytes plaintextLen) = buffer :=
    List.Vector.toList_injective hbuffer
  refine ⟨⟨envelope.slice 0 nonceLen (by decide), padding⟩, ?_⟩
  rw [← hpayload, Envelope.seal, dif_neg (Nat.not_lt.2 hlen)]
  simp only [hplaintext, hundo _ _ _ _ _ _ hdecrypts]
  exact congrArg Except.ok (List.Vector.toList_injective (packEnvelope_slices envelope))

/-- **Accepted formats.** `open` accepts only what `seal` produces, and rejects
every other authenticated plaintext, exactly if the flags of the plaintext are
zero wherever version and length pass. -/
theorem open_documented_iff (hundo : P.EncryptUndoes) (key : Bytes 32) (aad : List UInt8)
    (envelope : Envelope) :
    ((∀ payload, Envelope.open P key envelope aad = .ok payload →
        ∃ coins, Envelope.seal P coins key payload aad = .ok envelope) ∧
      (∀ buffer, Decrypts P key aad envelope buffer → ¬ DocumentedFormat buffer →
        Envelope.open P key envelope aad = .error .InvalidFormat)) ↔
    ∀ buffer, Decrypts P key aad envelope buffer → AcceptedFormat buffer →
      buffer.toList[1]? = some 0x00 := by
  constructor
  · rintro ⟨_, hrejects⟩ buffer hdecrypts haccepted
    by_contra hflags
    have herror := hrejects buffer hdecrypts fun hdocumented => hflags hdocumented.flags
    rw [open_of_accepted hdecrypts haccepted] at herror
    cases herror
  · intro hflags
    constructor
    · intro payload hopen
      obtain ⟨buffer, hdecrypts, haccepted, rfl⟩ := open_eq_ok_iff.1 hopen
      have hdocumented : DocumentedFormat buffer :=
        ⟨haccepted.version, hflags buffer hdecrypts haccepted, haccepted.payloadLen⟩
      exact hdocumented.exists_seal hundo hdecrypts
    · intro buffer hdecrypts hdeviates
      apply open_of_not_accepted hdecrypts
      intro haccepted
      exact hdeviates ⟨haccepted.version, hflags buffer hdecrypts haccepted,
        haccepted.payloadLen⟩

/-- A plaintext with version 1, flags 1 and length 0. -/
def flaggedPlaintext : Bytes plaintextLen :=
  Bytes.ofList ([0x01, 0x01] ++ List.replicate 994 0)
    (by rw [List.length_append, List.length_replicate, List.length_cons, List.length_singleton])

/-- The envelope that `flaggedPlaintext` is encrypted to under the zero key and
nonce. -/
def flaggedEnvelope : Envelope :=
  ⟨packEnvelope (List.Vector.replicate 12 0) flaggedPlaintext (List.Vector.replicate 16 0),
    length_packEnvelope _ _ _⟩

theorem decrypts_flaggedEnvelope :
    Decrypts counterPrimitives (List.Vector.replicate 32 0) [] flaggedEnvelope
      flaggedPlaintext := by
  have hpacked : flaggedEnvelope.toList = packEnvelope (List.Vector.replicate 12 0)
      flaggedPlaintext (List.Vector.replicate 16 0) := rfl
  obtain ⟨hnonce, hciphertext, htag⟩ := slices_of_packEnvelope hpacked
  rw [Decrypts, hnonce, hciphertext, htag]
  simp only [counterPrimitives]
  exact if_pos (by decide)

theorem accepted_flaggedPlaintext : AcceptedFormat flaggedPlaintext := by
  have hfield : payloadLenField flaggedPlaintext = 0 := by decide
  exact ⟨rfl, by rw [hfield]; exact Nat.zero_le _⟩

/-- The condition fails for this envelope, and with it the correspondence. -/
theorem flagged_not_documented :
    ¬ ((∀ payload, Envelope.open counterPrimitives (List.Vector.replicate 32 0) flaggedEnvelope
          [] = .ok payload →
        ∃ coins, Envelope.seal counterPrimitives coins (List.Vector.replicate 32 0) payload [] =
          .ok flaggedEnvelope) ∧
      (∀ buffer, Decrypts counterPrimitives (List.Vector.replicate 32 0) [] flaggedEnvelope
          buffer → ¬ DocumentedFormat buffer →
        Envelope.open counterPrimitives (List.Vector.replicate 32 0) flaggedEnvelope [] =
          .error .InvalidFormat)) := by
  rw [open_documented_iff counter_encryptUndoes]
  intro hflags
  have hzero := hflags flaggedPlaintext decrypts_flaggedEnvelope accepted_flaggedPlaintext
  revert hzero
  decide

/-- An envelope with flags 1 is opened, although no `seal` produces it. -/
theorem flags_unchecked :
    counterPrimitives.EncryptUndoes ∧ counterPrimitives.EncryptTotal ∧
    Envelope.open counterPrimitives (List.Vector.replicate 32 0) flaggedEnvelope [] = .ok [] ∧
    ∀ coins, Envelope.seal counterPrimitives coins (List.Vector.replicate 32 0) [] [] ≠
      .ok flaggedEnvelope := by
  refine ⟨counter_encryptUndoes, counter_encryptTotal, ?_, ?_⟩
  · rw [open_of_accepted decrypts_flaggedEnvelope accepted_flaggedPlaintext]
    rfl
  · intro coins hseal
    obtain ⟨hlen, buffer, hbuffer, hdecrypts⟩ := decrypts_of_seal counter_decryptUndoes hseal
    have hflagged : buffer = flaggedPlaintext := by
      rw [Decrypts, decrypts_flaggedEnvelope] at hdecrypts
      exact (Option.some.inj hdecrypts).symm
    have hflags := (documentedFormat_of_eq hlen coins.padding.toList_length hbuffer).flags
    rw [hflagged] at hflags
    revert hflags
    decide

end NullPath
