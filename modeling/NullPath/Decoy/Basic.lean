import NullPath.Envelope.RoundTrip

/-!
# Decoys and slot distribution

A decoy is a seal of a random payload under a fresh random key.
`generateMultiPathSlots` puts the real envelope into its slot and a fresh decoy
into every other slot; `slots_eq_ok` reads a successful distribution slot by
slot.
-/

namespace NullPath

/-- The random bytes of one decoy: its key, its payload and its seal. -/
structure DecoyCoins where
  decoyKey : Bytes 32
  decoyPayload : Bytes 128
  sealCoins : SealCoins

/-- A decoy envelope under a fresh key. -/
def generateDecoy (P : Primitives) (coins : DecoyCoins) (aad : List UInt8) :
    Except DecoyError Envelope :=
  match Envelope.seal P coins.sealCoins coins.decoyKey coins.decoyPayload.toList aad with
  | .error _ => .error .SealFailure
  | .ok envelope => .ok envelope

/-- The loop of `generateMultiPathSlots` over the slot indices that are left. -/
def fillSlots (P : Primitives) (coins : ℕ → DecoyCoins) (realEnvelope : Envelope)
    (validSlot : ℕ) (aad : List UInt8) : List ℕ → Except DecoyError (List Envelope)
  | [] => .ok []
  | slotIdx :: rest =>
      match if slotIdx = validSlot then .ok realEnvelope
          else generateDecoy P (coins slotIdx) aad with
      | .error e => .error e
      | .ok envelope =>
          match fillSlots P coins realEnvelope validSlot aad rest with
          | .error e => .error e
          | .ok slots => .ok (envelope :: slots)

/-- One real envelope at `validSlot` and fresh decoys at all other slots. -/
def generateMultiPathSlots (P : Primitives) (coins : ℕ → DecoyCoins) (realEnvelope : Envelope)
    (validSlot nPaths : ℕ) (aad : List UInt8) : Except DecoyError (List Envelope) :=
  if nPaths = 0 then
    .error .InvalidPathCount
  else if validSlot ≥ nPaths then
    .error .InvalidSlotIndex
  else
    fillSlots P coins realEnvelope validSlot aad (List.range nPaths)

section Slots

variable {P : Primitives} {coins : ℕ → DecoyCoins} {realEnvelope : Envelope}
  {validSlot nPaths : ℕ} {aad : List UInt8}

/-- A filled slot holds the real envelope or a decoy made for that slot. -/
def IsSlot (P : Primitives) (coins : ℕ → DecoyCoins) (realEnvelope : Envelope)
    (validSlot : ℕ) (aad : List UInt8) (slotIdx : ℕ) (envelope : Envelope) : Prop :=
  if slotIdx = validSlot then envelope = realEnvelope
  else generateDecoy P (coins slotIdx) aad = .ok envelope

theorem fillSlots_eq_ok {indices : List ℕ} {slots : List Envelope}
    (h : fillSlots P coins realEnvelope validSlot aad indices = .ok slots) :
    List.Forall₂ (IsSlot P coins realEnvelope validSlot aad) indices slots := by
  induction indices generalizing slots with
  | nil =>
      cases h
      exact List.Forall₂.nil
  | cons slotIdx rest ih =>
      rw [fillSlots] at h
      split at h
      · cases h
      · rename_i envelope henvelope
        split at h
        · cases h
        · rename_i tail htail
          cases h
          refine List.Forall₂.cons ?_ (ih htail)
          unfold IsSlot
          split_ifs at henvelope ⊢ with hslot
          · exact (Except.ok.inj henvelope).symm
          · exact henvelope

theorem slots_eq_ok {slots : List Envelope}
    (h : generateMultiPathSlots P coins realEnvelope validSlot nPaths aad = .ok slots) :
    validSlot < nPaths ∧
      List.Forall₂ (IsSlot P coins realEnvelope validSlot aad) (List.range nPaths) slots := by
  unfold generateMultiPathSlots at h
  split_ifs at h with hzero hslot
  exact ⟨Nat.lt_of_not_ge hslot, fillSlots_eq_ok h⟩

theorem slots_length {slots : List Envelope}
    (h : generateMultiPathSlots P coins realEnvelope validSlot nPaths aad = .ok slots) :
    slots.length = nPaths := by
  rw [← (slots_eq_ok h).2.length_eq, List.length_range]

theorem slots_getElem? {slots : List Envelope} {slotIdx : ℕ} {envelope : Envelope}
    (h : generateMultiPathSlots P coins realEnvelope validSlot nPaths aad = .ok slots)
    (henvelope : slots[slotIdx]? = some envelope) :
    slotIdx < nPaths ∧ IsSlot P coins realEnvelope validSlot aad slotIdx envelope := by
  obtain ⟨hlength, hget⟩ := List.getElem?_eq_some_iff.1 henvelope
  have hlt : slotIdx < nPaths := by rwa [slots_length h] at hlength
  have hslot := (slots_eq_ok h).2.get (i := slotIdx) (by simpa using hlt) hlength
  rw [List.get_eq_getElem, List.getElem_range, List.get_eq_getElem, hget] at hslot
  exact ⟨hlt, hslot⟩

theorem slots_real {slots : List Envelope}
    (h : generateMultiPathSlots P coins realEnvelope validSlot nPaths aad = .ok slots) :
    slots[validSlot]? = some realEnvelope := by
  have hlength : validSlot < slots.length := by
    rw [slots_length h]
    exact (slots_eq_ok h).1
  have hget := List.getElem?_eq_getElem hlength
  have hslot := (slots_getElem? h hget).2
  rw [IsSlot, if_pos rfl] at hslot
  rw [hget, hslot]

theorem slots_decoy {slots : List Envelope} {slotIdx : ℕ} {envelope : Envelope}
    (h : generateMultiPathSlots P coins realEnvelope validSlot nPaths aad = .ok slots)
    (henvelope : slots[slotIdx]? = some envelope) (hne : slotIdx ≠ validSlot) :
    slotIdx < nPaths ∧
      Envelope.seal P (coins slotIdx).sealCoins (coins slotIdx).decoyKey
        (coins slotIdx).decoyPayload.toList aad = .ok envelope := by
  obtain ⟨hlt, hslot⟩ := slots_getElem? h henvelope
  rw [IsSlot, if_neg hne, generateDecoy] at hslot
  refine ⟨hlt, ?_⟩
  cases hseal : Envelope.seal P (coins slotIdx).sealCoins (coins slotIdx).decoyKey
      (coins slotIdx).decoyPayload.toList aad with
  | error e =>
      rw [hseal] at hslot
      cases hslot
  | ok sealed =>
      rw [hseal] at hslot
      cases hslot
      rfl

theorem exists_generateDecoy (hencrypt : P.EncryptsWith aad) (coins : DecoyCoins) :
    ∃ envelope, generateDecoy P coins aad = .ok envelope := by
  -- A decoy fits its envelope, so only the cipher could refuse it.
  obtain ⟨envelope, henvelope⟩ := exists_seal hencrypt coins.sealCoins coins.decoyKey
    coins.decoyPayload.toList
    (by rw [coins.decoyPayload.toList_length]; decide)
  exact ⟨envelope, by rw [generateDecoy, henvelope]⟩

theorem exists_fillSlots (hencrypt : P.EncryptsWith aad) (indices : List ℕ) :
    ∃ slots, fillSlots P coins realEnvelope validSlot aad indices = .ok slots := by
  induction indices with
  | nil => exact ⟨[], rfl⟩
  | cons slotIdx rest ih =>
      obtain ⟨slots, hslots⟩ := ih
      rw [fillSlots, hslots]
      by_cases hslot : slotIdx = validSlot
      · rw [if_pos hslot]
        exact ⟨_, rfl⟩
      · obtain ⟨envelope, henvelope⟩ := exists_generateDecoy hencrypt (coins slotIdx)
        rw [if_neg hslot, henvelope]
        exact ⟨_, rfl⟩

/-- The distribution over the paths cannot fail once a slot was selected. -/
theorem exists_slots (hencrypt : P.EncryptsWith aad) (h : validSlot < nPaths) :
    ∃ slots,
      generateMultiPathSlots P coins realEnvelope validSlot nPaths aad = .ok slots := by
  unfold generateMultiPathSlots
  rw [if_neg (Nat.ne_zero_of_lt h), if_neg (Nat.not_le.2 h)]
  exact exists_fillSlots hencrypt _

end Slots

end NullPath
