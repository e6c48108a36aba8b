import NullPath.Channel.Atomic
import Mathlib.Data.Set.Basic

/-!
# The slots of a send

A message goes into the slot that the current key and the message id select, and
every other slot holds a decoy under a key of its own. In an ideal cipher an
envelope opens only under the key it was sealed with; `OpensOnlyUnder` states
this of the seals and keys that occur. Then exactly one slot of a send opens
under the key of the message (`one_slot_opens`).
-/

namespace NullPath

/-- The arguments of one `seal`. -/
structure SealArgs where
  coins : SealCoins
  key : Bytes 32
  payload : List UInt8
  aad : List UInt8

/-- An envelope of one of `seals` opens under one of `keys` only if it was sealed
with that key. -/
def Primitives.OpensOnlyUnder (P : Primitives) (seals : Set SealArgs)
    (keys : Set (Bytes 32)) : Prop :=
  ∀ args ∈ seals, ∀ key ∈ keys, ∀ envelope aad payload,
    Envelope.seal P args.coins args.key args.payload args.aad = .ok envelope →
      Envelope.open P key envelope aad = .ok payload → key = args.key

/-- The seal of the decoy in a slot. -/
def SendCoins.decoySeal (coins : SendCoins) (aad : List UInt8) (slotIdx : ℕ) : SealArgs where
  coins := (coins.decoyCoins slotIdx).sealCoins
  key := (coins.decoyCoins slotIdx).decoyKey
  payload := (coins.decoyCoins slotIdx).decoyPayload.toList
  aad := aad

/-- The decoys of a `send` are sealed with other keys than the message. -/
def SendCoins.FreshFor (coins : SendCoins) (key : Bytes 32) (nPaths : ℕ) : Prop :=
  ∀ slotIdx < nPaths, (coins.decoyCoins slotIdx).decoyKey ≠ key

variable {P : Primitives} {key : Bytes 32} {seq : UInt64} {nPaths : ℕ} {coins : SendCoins}
  {payload messageId : List UInt8} {slots : List Envelope}

/-- A decoy slot does not open under the key of the message. -/
theorem decoy_not_opened {seals : Set SealArgs} {keys : Set (Bytes 32)}
    (hideal : P.OpensOnlyUnder seals keys) (hkey : key ∈ keys)
    (hfresh : coins.FreshFor key nPaths) {aad : List UInt8} {slotIdx : ℕ} {envelope : Envelope}
    (hslot : slotIdx < nPaths) (hseals : coins.decoySeal aad slotIdx ∈ seals)
    (hseal : Envelope.seal P (coins.decoyCoins slotIdx).sealCoins
      (coins.decoyCoins slotIdx).decoyKey (coins.decoyCoins slotIdx).decoyPayload.toList aad =
        .ok envelope) :
    ∃ e, Envelope.open P key envelope aad = .error e := by
  cases hopen : Envelope.open P key envelope aad with
  | error e => exact ⟨e, rfl⟩
  | ok opened =>
      have hsame := hideal _ hseals key hkey envelope aad opened hseal hopen
      exact absurd hsame.symm (hfresh slotIdx hslot)

/-- **Exactly one slot opens.** A send returns one envelope for each path. With the key
before the send and the number of the send, the slot that the key selects opens to the
payload, and every other slot is a seal of its decoy under a key of its own and fails. -/
theorem one_slot_opens {P : Primitives} (hencrypt : P.EncryptTotalUpTo 285) (hmac : P.HmacTotal)
    (hdecrypt : P.DecryptUndoes) {seals : Set SealArgs} {keys : Set (Bytes 32)}
    (hideal : P.OpensOnlyUnder seals keys) (channel : SecureChannel RatchetKey)
    (coins : SendCoins) (payload messageId : List UInt8) (hpaths : 1 ≤ channel.nPaths)
    (hpayload : payload.length ≤ maxPayloadSize)
    (hmessageId : messageId.length ≤ maxMessageIdLen)
    (hkey : channel.currentKey.bytes ∈ keys)
    (hseals : ∀ slotIdx < channel.nPaths,
      coins.decoySeal (constructAad (nextSendSeq channel.sendSeq) messageId) slotIdx ∈ seals)
    (hfresh : coins.FreshFor channel.currentKey.bytes channel.nPaths) :
    let result := channel.send P (RatchetKey.ops P) coins payload messageId
    let key := channel.currentKey.bytes
    let seq := nextSendSeq channel.sendSeq
    let aad := constructAad seq messageId
    ∃ slots slot,
      result.1 = .ok slots ∧ result.2.sendSeq = some seq ∧ slots.length = channel.nPaths ∧
      selectSlot P key.toList messageId channel.nPaths = .ok slot ∧
      (∃ envelope, slots[slot]? = some envelope ∧
        Envelope.open P key envelope aad = .ok payload) ∧
      (∀ slotIdx envelope, slots[slotIdx]? = some envelope → slotIdx ≠ slot →
        (∃ e, Envelope.open P key envelope aad = .error e) ∧
        (coins.decoyCoins slotIdx).decoyKey ≠ key ∧
        Envelope.seal P (coins.decoyCoins slotIdx).sealCoins (coins.decoyCoins slotIdx).decoyKey
          (coins.decoyCoins slotIdx).decoyPayload.toList aad = .ok envelope) := by
  intro result key seq aad
  have hsendable : Sendable channel payload messageId :=
    ⟨hmessageId, Nat.ne_of_gt hpaths, hpayload⟩
  obtain ⟨slots, hsends, hsend⟩ := send_of_sendable (K := RatchetKey.ops P) hencrypt hmac coins
    hsendable
  obtain ⟨-, slot, realEnvelope, hslot, hseal, hslots⟩ := hsends
  refine ⟨slots, slot, congrArg Prod.fst hsend, ?_, slots_length hslots, hslot,
    ⟨realEnvelope, slots_real hslots, open_seal hdecrypt hseal⟩, ?_⟩
  · rw [show result = _ from hsend]
    rfl
  · intro slotIdx envelope henvelope hne
    obtain ⟨hlt, hdecoy⟩ := slots_decoy hslots henvelope hne
    exact ⟨decoy_not_opened hideal hkey hfresh hlt (hseals slotIdx hlt) hdecoy,
      hfresh slotIdx hlt, hdecoy⟩

/-! ## An instance -/

theorem counter_opensOnlyUnder {seals : Set SealArgs} {keys : Set (Bytes 32)}
    (h : ∀ args ∈ seals, ∀ key ∈ keys, key.toList.drop 16 = args.key.toList.drop 16 →
      key = args.key) : counterPrimitives.OpensOnlyUnder seals keys := by
  intro args hargs key hkey envelope aad payload hseal hopen
  obtain ⟨-, plaintext, ciphertext, tag, -, hencrypt, henvelope⟩ := seal_eq_ok hseal
  obtain ⟨-, -, htag⟩ := slices_of_packEnvelope henvelope
  have hsealed : tag.toList = args.key.toList.drop 16 := by
    obtain ⟨-, rfl⟩ := Prod.mk.inj (Option.some.inj hencrypt)
    rfl
  apply h args hargs key hkey
  by_contra hne
  have hnone : counterPrimitives.decryptInPlaceDetached key
      (envelope.slice 0 nonceLen (by decide)) aad
      (envelope.slice nonceLen (nonceLen + ciphertextLen) (by decide))
      (envelope.slice (nonceLen + ciphertextLen) envelopeTotalLen (by decide)) = none := by
    rw [htag]
    exact if_neg fun heq => hne (heq.symm.trans hsealed)
  rw [Envelope.open] at hopen
  simp only [hnone] at hopen
  cases hopen

/-- The first message on three paths. -/
theorem one_of_three_opens :
    let channel := SecureChannel.new (counterKey 0) 3
    let args := counterSend [10] [1]
    ∃ (slots : List Envelope) (slot : ℕ),
      (channel.send counterPrimitives (RatchetKey.ops counterPrimitives) args.coins args.payload
        args.messageId).1 = .ok slots ∧ slots.length = 3 ∧
      (∃ envelope, slots[slot]? = some envelope ∧
        Envelope.open counterPrimitives (counterKey 0).bytes envelope (constructAad 0 [1]) =
          .ok [10]) ∧
      ∀ (slotIdx : ℕ) envelope, slots[slotIdx]? = some envelope → slotIdx ≠ slot →
        ∃ e, Envelope.open counterPrimitives (counterKey 0).bytes envelope
          (constructAad 0 [1]) = .error e := by
  intro channel args
  have hideal : counterPrimitives.OpensOnlyUnder
      {sealed | sealed.key = List.Vector.replicate 32 255} {(counterKey 0).bytes} := by
    apply counter_opensOnlyUnder
    have hhalves : (counterKey 0).bytes.toList.drop 16 ≠
        (List.Vector.replicate 32 255 : Bytes 32).toList.drop 16 := by decide
    rintro ⟨sealCoins, sealKey, sealed, aad⟩ rfl key rfl hhalf
    exact absurd hhalf hhalves
  have hfresh : args.coins.FreshFor channel.currentKey.bytes channel.nPaths := by
    have hne : List.Vector.replicate 32 255 ≠ (counterKey 0).bytes := by decide
    exact fun slotIdx _ => hne
  obtain ⟨slots, slot, hok, _, hlength, _, hopens, hdecoys⟩ := one_slot_opens
    (counter_encryptTotalUpTo 285) counter_hmacTotal counter_decryptUndoes hideal channel
    args.coins args.payload args.messageId (by decide) (by decide) (by decide) rfl
    (fun slotIdx _ => rfl) hfresh
  exact ⟨slots, slot, hok, hlength, hopens,
    fun slotIdx envelope henvelope hne => (hdecoys slotIdx envelope henvelope hne).1⟩

end NullPath
