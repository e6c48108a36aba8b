import NullPath.Channel.Counter
import NullPath.Data.Checked

/-!
# Receiving, operation by operation

`receiveChecked` is `receive` once more, with every slice, index, array
conversion, unwrap and integer addition, subtraction and remainder of the code
as an operation that may panic, and one charged step for each key derivation.

No call reaches a failing operation: `receiveChecked` returns the result of
`receive` from every channel and for all arguments (`receive_never_panics`). It
charges as many steps as Step 1 derives keys, which are at most
`MAX_SKIP_WINDOW` in all cases but one (`derivations_bounded_iff`).
-/

namespace NullPath

open Checked

/-- `next_bytes.copy_from_slice(&digest)` behind the hash; one charged step. -/
def RatchetKey.deriveNextChecked (P : Primitives) (key : RatchetKey) : Checked RatchetKey := do
  charge
  let digest := P.sha256 (ascii "decoypath-v1-ratchet-advance:" ++ key.bytes.toList)
  let nextBytes ← toArray 32 digest.toList
  pure ⟨nextBytes⟩

/-- `selectSlot`. The conversion of the first eight bytes is the fallible one, so
it gives an error and no panic. The cast of the path count keeps its value. -/
def selectSlotChecked (P : Primitives) (key messageId : List UInt8) (nPaths : ℕ) :
    Checked (Except PathEngineError ℕ) :=
  if nPaths = 0 then
    pure (.error .InvalidPathCount)
  else
    match P.hmacSha256 key messageId with
    | none => pure (.error .HmacFailure)
    | some codeBytes => do
        let valueBytes ← slice codeBytes.toList 0 8
        if valueBytes.length ≠ 8 then
          pure (.error .HmacFailure)
        else do
          let slot ← rem (ofBeBytes valueBytes) nPaths
          pure (.ok slot)

/-- `Envelope.open`. -/
def Envelope.openChecked (P : Primitives) (key : Bytes 32) (envelope : Envelope)
    (aad : List UInt8) : Checked (Except EnvelopeError (List UInt8)) := do
  let ciphertextStop ← addUsize nonceLen ciphertextLen
  let nonceBytes ← slice envelope.toList 0 nonceLen
  let ciphertextBytes ← slice envelope.toList nonceLen ciphertextStop
  let tagBytes ← slice envelope.toList ciphertextStop envelopeTotalLen
  let nonce ← toArray 12 nonceBytes
  let tag ← toArray 16 tagBytes
  let ciphertext ← toArray plaintextLen ciphertextBytes
  match P.decryptInPlaceDetached key nonce aad ciphertext tag with
  | none => pure (.error .DecryptionFailure)
  | some buffer => do
      let version ← index buffer.toList 0
      if version ≠ 0x01 then
        pure (.error .InvalidFormat)
      else do
        let lenSlice ← slice buffer.toList 2 4
        let lenBytes ← toArray 2 lenSlice
        let payloadLen := ofBeBytes lenBytes.toList
        if payloadLen > maxPayloadSize then
          pure (.error .InvalidFormat)
        else do
          let stop ← addUsize 4 payloadLen
          let payload ← slice buffer.toList 4 stop
          pure (.ok payload)

/-- `constructAad`, with the capacity it reserves. -/
def constructAadChecked (seq : UInt64) (messageId : List UInt8) : Checked (List UInt8) := do
  let _capacity ← addUsize (21 + 8) messageId.length
  pure (constructAad seq messageId)

/-- `skipLoop`, with the counter of the range incremented once a round. -/
def skipLoopChecked (P : Primitives) : ℕ → UInt64 → RatchetKey → SortedMap UInt64 RatchetKey →
    Checked (RatchetKey × SortedMap UInt64 RatchetKey)
  | 0, _, runner, localSkipped => pure (runner, localSkipped)
  | count + 1, s, runner, localSkipped => do
      let next ← runner.deriveNextChecked P
      let s' ← addU64 s 1
      skipLoopChecked P count s' next (localSkipped.insert s runner)

namespace SecureChannel

/-- Step 1. -/
def computeTargetKeyChecked (P : Primitives) (channel : SecureChannel RatchetKey)
    (seq : UInt64) (messageId : List UInt8) :
    Checked (Except ChannelError (Target RatchetKey)) :=
  match channel.lastSeq with
  | none =>
      if seq = 0 then do
        let next ← channel.currentKey.deriveNextChecked P
        pure (.ok { targetKey := channel.currentKey, nextRatchetKey := some next,
                    localSkipped := ∅, isForward := true })
      else if seq.toNat > maxSkipWindow then
        pure (.error .InvalidSequence)
      else do
        let (runner, localSkipped) ← skipLoopChecked P seq.toNat 0 channel.currentKey ∅
        let next ← runner.deriveNextChecked P
        pure (.ok { targetKey := runner, nextRatchetKey := some next,
                    localSkipped := localSkipped, isForward := true })
  | some last =>
      if seq > last then do
        let skipCount ← subU64 seq last
        if skipCount.toNat > maxSkipWindow then
          pure (.error .InvalidSequence)
        else do
          let start ← addU64 last 1
          let (runner, localSkipped) ←
            skipLoopChecked P (seq.toNat - start.toNat) start channel.currentKey ∅
          let next ← runner.deriveNextChecked P
          pure (.ok { targetKey := runner, nextRatchetKey := some next,
                      localSkipped := localSkipped, isForward := true })
      else
        match channel.skippedKeys.get? seq with
        | some key =>
            pure (.ok { targetKey := key, nextRatchetKey := none, localSkipped := ∅,
                        isForward := false })
        | none =>
            if channel.antiReplay.contains seq messageId then pure (.error .ReplayedSequence)
            else pure (.error .SkippedKeyExpired)

/-- The length checks and Steps 1 to 3. -/
def authenticateChecked (P : Primitives) (channel : SecureChannel RatchetKey)
    (envelopes : List Envelope) (seq : UInt64) (messageId : List UInt8) :
    Checked (Except ChannelError (Target RatchetKey × List UInt8)) :=
  if messageId.length > maxMessageIdLen then
    pure (.error .InvalidMessageId)
  else if envelopes.length < channel.nPaths then
    pure (.error .DecoyFailure)
  else do
    match ← channel.computeTargetKeyChecked P seq messageId with
    | .error e => pure (.error e)
    | .ok target => do
        match ← selectSlotChecked P target.targetKey.bytes.toList messageId channel.nPaths with
        | .error _ => pure (.error .DecoyFailure)
        | .ok slotIdx =>
            if slotIdx ≥ envelopes.length then
              pure (.error .DecoyFailure)
            else do
              let aad ← constructAadChecked seq messageId
              let envelope ← index envelopes slotIdx
              match ← envelope.openChecked P target.targetKey.bytes aad with
              | .error _ => pure (.error .AuthenticationFailed)
              | .ok payload => pure (.ok (target, payload))

/-- Step 5. -/
def commitChecked (channel : SecureChannel RatchetKey) (seq : UInt64)
    (target : Target RatchetKey) : Checked (SecureChannel RatchetKey) :=
  if target.isForward then do
    let merged := { channel with
      skippedKeys := channel.skippedKeys.insertAll target.localSkipped }
    let nextKey ← unwrap target.nextRatchetKey
    pure { merged.evictOldestSkippedKeys with lastSeq := some seq, currentKey := nextKey }
  else
    pure { channel with skippedKeys := channel.skippedKeys.erase seq }

/-- `receive`, operation by operation. -/
def receiveChecked (P : Primitives) (channel : SecureChannel RatchetKey) (now : Instant)
    (envelopes : List Envelope) (seq : UInt64) (messageId : List UInt8) :
    Checked (Except ChannelError (List UInt8) × SecureChannel RatchetKey) := do
  match ← channel.authenticateChecked P envelopes seq messageId with
  | .error e => pure (.error e, channel)
  | .ok (target, payload) => do
      let (fresh, antiReplay) := channel.antiReplay.checkAndInsert now seq messageId
      let channel' := { channel with antiReplay := antiReplay }
      if fresh then do
        let committed ← channel'.commitChecked seq target
        pure (.ok payload, committed)
      else
        pure (.error .ReplayedSequence, channel')

end SecureChannel

/-! ## No operation fails -/

variable {P : Primitives}

theorem RatchetKey.deriveNextChecked_returns (key : RatchetKey) :
    Returns (key.deriveNextChecked P) (key.deriveNext P) 1 := by
  unfold RatchetKey.deriveNextChecked
  apply Returns.charge.bind (m := 0)
  exact (Returns.toArray (List.Vector.toList_length _)).free_bind (Returns.pure _)

theorem selectSlotChecked_returns (key messageId : List UInt8) (nPaths : ℕ) :
    Returns (selectSlotChecked P key messageId nPaths) (selectSlot P key messageId nPaths) 0 := by
  unfold selectSlotChecked selectSlot
  by_cases hzero : nPaths = 0
  · rw [if_pos hzero, if_pos hzero]
    exact Returns.pure _
  rw [if_neg hzero, if_neg hzero]
  cases P.hmacSha256 key messageId with
  | none => exact Returns.pure _
  | some codeBytes =>
      have hlength : (codeBytes.toList.extract 0 8).length = 8 :=
        length_extract_of_le codeBytes.toList_length (by decide)
      have hbounds : 8 ≤ codeBytes.toList.length := by rw [codeBytes.toList_length]; decide
      apply (Returns.slice (Nat.zero_le 8) hbounds).free_bind
      rw [if_neg (not_not.2 hlength)]
      exact (Returns.rem hzero).free_bind (Returns.pure _)

theorem Envelope.openChecked_returns (key : Bytes 32) (envelope : Envelope)
    (aad : List UInt8) :
    Returns (envelope.openChecked P key aad) (Envelope.open P key envelope aad) 0 := by
  have henvelope : envelope.toList.length = 1024 := envelope.toList_length
  have hnonce : Returns (toArray 12 (envelope.toList.extract 0 nonceLen))
      (envelope.slice 0 nonceLen (by decide)) 0 := Returns.toArray _
  have htag : Returns (toArray 16 (envelope.toList.extract (nonceLen + ciphertextLen)
      envelopeTotalLen)) (envelope.slice (nonceLen + ciphertextLen) envelopeTotalLen
        (by decide)) 0 := Returns.toArray _
  have hciphertext : Returns (toArray plaintextLen (envelope.toList.extract nonceLen
      (nonceLen + ciphertextLen))) (envelope.slice nonceLen (nonceLen + ciphertextLen)
        (by decide)) 0 := Returns.toArray _
  unfold Envelope.openChecked
  apply (Returns.addUsize (by decide)).free_bind
  apply (Returns.slice (Nat.zero_le _) (by rw [henvelope]; decide)).free_bind
  apply (Returns.slice (by decide) (by rw [henvelope]; decide)).free_bind
  apply (Returns.slice (by decide) (by rw [henvelope])).free_bind
  apply hnonce.free_bind
  apply htag.free_bind
  apply hciphertext.free_bind
  unfold Envelope.open
  cases hdecrypt : P.decryptInPlaceDetached key (envelope.slice 0 nonceLen (by decide)) aad
      (envelope.slice nonceLen (nonceLen + ciphertextLen) (by decide))
      (envelope.slice (nonceLen + ciphertextLen) envelopeTotalLen (by decide)) with
  | none =>
      simp only [hdecrypt]
      exact Returns.pure _
  | some buffer =>
      simp only [hdecrypt]
      have hbuffer : buffer.toList.length = 996 := buffer.toList_length
      have hversion : Returns (index buffer.toList 0) buffer.head 0 :=
        Returns.index (head_eq_iff.1 rfl)
      have hfield : Returns (toArray 2 (buffer.toList.extract 2 4))
          (buffer.slice 2 4 (by decide)) 0 := Returns.toArray _
      apply hversion.free_bind
      by_cases hone : buffer.head ≠ 0x01
      · rw [if_pos hone, if_pos hone]
        exact Returns.pure _
      rw [if_neg hone, if_neg hone]
      apply (Returns.slice (by decide) (by rw [hbuffer]; decide)).free_bind
      apply hfield.free_bind
      by_cases hlong : ofBeBytes (buffer.slice 2 4 (by decide)).toList > maxPayloadSize
      · rw [if_pos hlong]
        rw [Bytes.toList_slice] at hlong
        rw [if_pos hlong]
        exact Returns.pure _
      rw [if_neg hlong]
      rw [Bytes.toList_slice] at hlong ⊢
      rw [if_neg hlong]
      have hfits : 4 + ofBeBytes (buffer.toList.extract 2 4) ≤ 996 :=
        Nat.add_le_add_left (Nat.le_of_not_gt hlong) 4
      apply (Returns.addUsize (hfits.trans_lt (by decide))).free_bind
      apply (Returns.slice (Nat.le_add_right _ _) (by rw [hbuffer]; exact hfits)).free_bind
      exact Returns.pure _

theorem constructAadChecked_returns (seq : UInt64) {messageId : List UInt8}
    (h : messageId.length ≤ maxMessageIdLen) :
    Returns (constructAadChecked seq messageId) (constructAad seq messageId) 0 := by
  have hcapacity : 21 + 8 + messageId.length ≤ 285 := Nat.add_le_add_left h 29
  exact (Returns.addUsize (hcapacity.trans_lt (by decide))).free_bind (Returns.pure _)

theorem skipLoopChecked_returns (count : ℕ) (start : UInt64) (runner : RatchetKey)
    (localSkipped : SortedMap UInt64 RatchetKey) (h : start.toNat + count < 2 ^ 64) :
    Returns (skipLoopChecked P count start runner localSkipped)
      (skipLoop (RatchetKey.ops P) count start runner localSkipped) count := by
  induction count generalizing start runner localSkipped with
  | zero => exact Returns.pure _
  | succ count ih =>
      -- The counter of the loop stays below the end of its range.
      have hnext : start.toNat + (1 : UInt64).toNat < 2 ^ 64 := by
        rw [UInt64.toNat_one]
        omega
      have hstart : (start + 1).toNat = start.toNat + 1 :=
        UInt64.toNat_add_one_of_lt (n := 2 ^ 64 - 1) (by omega) (by decide)
      rw [skipLoopChecked, skipLoop, Nat.add_comm count 1]
      apply (RatchetKey.deriveNextChecked_returns runner).bind
      apply (Returns.addU64 hnext).free_bind
      exact ih (start + 1) _ _ (by omega)

/-! ## Steps 1 to 5 -/

/-- How many keys Step 1 derives: none for a number beyond the skip window and for
a late one, otherwise one for each key up to the key behind the target. -/
def targetDerivations (lastSeq : Option UInt64) (seq : UInt64) : ℕ :=
  match lastSeq with
  | none => if seq.toNat > maxSkipWindow then 0 else seq.toNat + 1
  | some last =>
      if last.toNat < seq.toNat ∧ seq.toNat - last.toNat ≤ maxSkipWindow then
        seq.toNat - last.toNat
      else 0

namespace SecureChannel

variable (channel : SecureChannel RatchetKey) (seq : UInt64) (messageId : List UInt8)

theorem computeTargetKeyChecked_returns :
    Returns (channel.computeTargetKeyChecked P seq messageId)
      (channel.computeTargetKey (RatchetKey.ops P) seq messageId)
      (targetDerivations channel.lastSeq seq) := by
  have hseq : seq.toNat < 2 ^ 64 := seq.toNat_lt
  unfold computeTargetKeyChecked computeTargetKey targetDerivations
  cases channel.lastSeq with
  | none =>
      simp only
      by_cases hzero : seq = 0
      · subst hzero
        rw [if_pos rfl, if_pos rfl, if_neg (by decide)]
        apply (RatchetKey.deriveNextChecked_returns _).bind (m := 0)
        exact Returns.pure _
      rw [if_neg hzero, if_neg hzero]
      by_cases hwindow : seq.toNat > maxSkipWindow
      · rw [if_pos hwindow, if_pos hwindow, if_pos hwindow]
        exact Returns.pure _
      rw [if_neg hwindow, if_neg hwindow, if_neg hwindow]
      apply (skipLoopChecked_returns seq.toNat 0 _ _ (by simpa using hseq)).bind (m := 1)
      apply (RatchetKey.deriveNextChecked_returns _).bind (m := 0)
      exact Returns.pure _
  | some last =>
      simp only
      by_cases hforward : seq > last
      · have hlt : last.toNat < seq.toNat := UInt64.lt_iff_toNat_lt.1 hforward
        have hcount : (seq - last).toNat = seq.toNat - last.toNat :=
          UInt64.toNat_sub_of_le _ _ hforward.le
        rw [if_pos hforward, if_pos hforward]
        apply (Returns.subU64 hforward.le).free_bind
        by_cases hwindow : (seq - last).toNat > maxSkipWindow
        · rw [if_pos hwindow, if_pos hwindow, if_neg (by omega)]
          exact Returns.pure _
        · have hnext : last.toNat + (1 : UInt64).toNat < 2 ^ 64 := by
            rw [UInt64.toNat_one]
            omega
          have hstart : (last + 1).toNat = last.toNat + 1 :=
            UInt64.toNat_add_one_of_lt hlt hseq
          -- The loop leaves out the last of the `seq - last` derivations.
          have hrounds : seq.toNat - last.toNat = seq.toNat - (last + 1).toNat + 1 := by omega
          rw [if_neg hwindow, if_neg hwindow, if_pos ⟨hlt, by omega⟩, hrounds]
          apply (Returns.addU64 hnext).free_bind
          apply (skipLoopChecked_returns _ (last + 1) _ _ (by omega)).bind (m := 1)
          apply (RatchetKey.deriveNextChecked_returns _).bind (m := 0)
          exact Returns.pure _
      · have hlate : ¬ (last.toNat < seq.toNat ∧ seq.toNat - last.toNat ≤ maxSkipWindow) :=
          fun h => hforward (UInt64.lt_iff_toNat_lt.2 h.1)
        rw [if_neg hforward, if_neg hforward, if_neg hlate]
        cases channel.skippedKeys.get? seq with
        | some key => exact Returns.pure _
        | none =>
            simp only
            by_cases hseen : channel.antiReplay.contains seq messageId = true
            · rw [if_pos hseen, if_pos hseen]
              exact Returns.pure _
            · rw [if_neg hseen, if_neg hseen]
              exact Returns.pure _

variable (envelopes : List Envelope)

/-- How many keys a `receive` derives: the length checks come before Step 1. -/
def derivations (channel : SecureChannel RatchetKey) (envelopes : List Envelope) (seq : UInt64)
    (messageId : List UInt8) : ℕ :=
  if messageId.length > maxMessageIdLen then 0
  else if envelopes.length < channel.nPaths then 0
  else targetDerivations channel.lastSeq seq

theorem authenticateChecked_returns :
    Returns (channel.authenticateChecked P envelopes seq messageId)
      (channel.authenticate P (RatchetKey.ops P) envelopes seq messageId)
      (channel.derivations envelopes seq messageId) := by
  unfold authenticateChecked authenticate derivations
  by_cases hmessageId : messageId.length > maxMessageIdLen
  · rw [if_pos hmessageId, if_pos hmessageId, if_pos hmessageId]
    exact Returns.pure _
  rw [if_neg hmessageId, if_neg hmessageId, if_neg hmessageId]
  by_cases hpaths : envelopes.length < channel.nPaths
  · rw [if_pos hpaths, if_pos hpaths, if_pos hpaths]
    exact Returns.pure _
  rw [if_neg hpaths, if_neg hpaths, if_neg hpaths]
  apply (channel.computeTargetKeyChecked_returns seq messageId).bind (m := 0)
  cases channel.computeTargetKey (RatchetKey.ops P) seq messageId with
  | error e => exact Returns.pure _
  | ok target =>
      apply (selectSlotChecked_returns _ _ _).free_bind
      cases hslot : selectSlot P target.targetKey.bytes.toList messageId channel.nPaths with
      | error e =>
          simp only [RatchetKey.ops, hslot]
          exact Returns.pure _
      | ok slotIdx =>
          have hindex : slotIdx < envelopes.length :=
            (selectSlot_lt hslot).trans_le (Nat.le_of_not_lt hpaths)
          simp only [RatchetKey.ops, hslot, List.getElem?_eq_getElem hindex]
          rw [if_neg (Nat.not_le.2 hindex)]
          apply (constructAadChecked_returns seq (Nat.le_of_not_gt hmessageId)).free_bind
          apply (Returns.index (List.getElem?_eq_getElem hindex)).free_bind
          apply (Envelope.openChecked_returns _ _ _).free_bind
          cases Envelope.open P target.targetKey.bytes envelopes[slotIdx]
              (constructAad seq messageId) with
          | error e => exact Returns.pure _
          | ok payload => exact Returns.pure _

theorem commitChecked_returns {target : Target RatchetKey}
    (h : target.isForward = true → ∃ next, target.nextRatchetKey = some next) :
    Returns (channel.commitChecked seq target) (channel.commit seq target) 0 := by
  unfold commitChecked
  cases hforward : target.isForward with
  | false =>
      rw [commit_late channel seq hforward]
      exact Returns.pure _
  | true =>
      obtain ⟨next, hnext⟩ := h hforward
      rw [commit_forward channel seq hforward hnext, hnext]
      exact (Returns.unwrap next).free_bind (Returns.pure _)

theorem receiveChecked_returns (now : Instant) :
    Returns (channel.receiveChecked P now envelopes seq messageId)
      (channel.receive P (RatchetKey.ops P) now envelopes seq messageId)
      (channel.derivations envelopes seq messageId) := by
  unfold receiveChecked receive
  apply (channel.authenticateChecked_returns seq messageId envelopes).bind (m := 0)
  cases hauth : channel.authenticate P (RatchetKey.ops P) envelopes seq messageId with
  | error e => exact Returns.pure _
  | ok result =>
      obtain ⟨target, payload⟩ := result
      have hsteps := authenticate_eq_ok_iff.1 hauth
      have hnext : target.isForward = true → ∃ next, target.nextRatchetKey = some next := by
        intro hforward
        rcases computeTargetKey_cases hsteps.computeTargetKey with hcase | hcase
        · exact ⟨_, hcase.nextRatchetKey⟩
        · rw [hcase.isForward] at hforward
          cases hforward
      simp only
      cases (channel.antiReplay.checkAndInsert now seq messageId).1 with
      | false => exact Returns.pure _
      | true =>
          apply (commitChecked_returns _ seq hnext).free_bind
          exact Returns.pure _

end SecureChannel

/-- **No packet panics the receiver.** From every channel and for all arguments,
`receive` reaches no failing operation, and the result is that of `receive`. -/
theorem receive_never_panics (P : Primitives) (channel : SecureChannel RatchetKey)
    (now : Instant) (envelopes : List Envelope) (seq : UInt64) (messageId : List UInt8) :
    ∃ steps, (channel.receiveChecked P now envelopes seq messageId).run 0 =
      .ok (channel.receive P (RatchetKey.ops P) now envelopes seq messageId, steps) :=
  ⟨_, channel.receiveChecked_returns seq messageId envelopes now 0⟩

/-! ## The number of derivations -/

/-- Step 1 stays within the skip window except at its edge before any message,
where the key behind the target comes on top of the skipped ones. -/
theorem targetDerivations_le_iff (lastSeq : Option UInt64) (seq : UInt64) :
    targetDerivations lastSeq seq ≤ maxSkipWindow ↔ ¬ (lastSeq = none ∧ seq = 1000) := by
  have hedge : seq = 1000 ↔ seq.toNat = 1000 := UInt64.toNat_inj.symm
  unfold targetDerivations
  rw [hedge]
  simp only [maxSkipWindow]
  cases lastSeq with
  | none =>
      simp only [true_and]
      split_ifs with hwindow
      · exact iff_of_true (Nat.zero_le _) (Nat.ne_of_gt hwindow)
      · constructor
        · intro h heq
          omega
        · intro h
          omega
  | some last =>
      simp only [reduceCtorEq, false_and, not_false_eq_true, iff_true]
      split_ifs with hwindow
      · exact hwindow.2
      · exact Nat.zero_le _

theorem derivations_le_iff (channel : SecureChannel RatchetKey) (envelopes : List Envelope)
    (seq : UInt64) (messageId : List UInt8) :
    channel.derivations envelopes seq messageId ≤ maxSkipWindow ↔
      ¬ (messageId.length ≤ maxMessageIdLen ∧ channel.nPaths ≤ envelopes.length ∧
        channel.lastSeq = none ∧ seq = 1000) := by
  unfold SecureChannel.derivations
  split_ifs with hmessageId hpaths
  · exact iff_of_true (Nat.zero_le _) fun h => absurd h.1 (Nat.not_le.2 hmessageId)
  · exact iff_of_true (Nat.zero_le _) fun h => absurd h.2.1 (Nat.not_le.2 hpaths)
  · rw [targetDerivations_le_iff]
    constructor
    · exact fun h hall => h hall.2.2
    · exact fun h hedge => h ⟨Nat.le_of_not_gt hmessageId, Nat.le_of_not_lt hpaths, hedge⟩

theorem targetDerivations_of_servable {channel : SecureChannel RatchetKey} {seq : UInt64}
    (h : Servable channel seq) (hforward : expectedSeq channel.lastSeq ≤ seq.toNat) :
    targetDerivations channel.lastSeq seq =
      seq.toNat - expectedSeq channel.lastSeq + 1 := by
  unfold Servable at h
  unfold targetDerivations
  cases hlast : channel.lastSeq with
  | none =>
      rw [hlast] at h
      exact if_neg (Nat.not_lt.2 h)
  | some last =>
      rw [hlast] at h hforward
      rw [expectedSeq_some] at hforward ⊢
      simp only at h ⊢
      rcases h with ⟨hlt, hle⟩ | ⟨hle, _⟩
      · rw [if_pos ⟨hlt, by omega⟩]
        omega
      · omega

theorem currentKey_receive {P : Primitives} {channel : SecureChannel RatchetKey}
    {now : Instant} {envelopes : List Envelope} {seq : UInt64} {messageId payload : List UInt8}
    (h : (channel.receive P (RatchetKey.ops P) now envelopes seq messageId).1 = .ok payload)
    (hforward : expectedSeq channel.lastSeq ≤ seq.toNat) :
    (channel.receive P (RatchetKey.ops P) now envelopes seq messageId).2.currentKey =
      (RatchetKey.deriveNext P)^[channel.derivations envelopes seq messageId]
        channel.currentKey := by
  rcases receive_cases (P := P) (K := RatchetKey.ops P) channel now envelopes seq messageId with
    ⟨e, hreceive⟩ | ⟨target, payload', _, _, hreceive⟩ | ⟨target, payload', hsteps, _, hreceive⟩
  · rw [hreceive] at h
    cases h
  · rw [hreceive] at h
    cases h
  · rcases computeTargetKey_cases hsteps.computeTargetKey with htarget | htarget
    · have hcount : channel.derivations envelopes seq messageId =
          seq.toNat - expectedSeq channel.lastSeq + 1 := by
        rw [SecureChannel.derivations, if_neg (Nat.not_lt.2 hsteps.messageId_le),
          if_neg (Nat.not_lt.2 hsteps.nPaths_le)]
        exact targetDerivations_of_servable
          (servable_of_computeTargetKey hsteps.computeTargetKey) hforward
      rw [hreceive, commit_forward _ seq htarget.isForward htarget.nextRatchetKey, hcount,
        Function.iterate_succ_apply', htarget.targetKey]
      rfl
    · exact absurd htarget.lt_expected (Nat.not_lt.2 hforward)

/-- **Ratcheting per packet.** A `receive` derives at most `MAX_SKIP_WINDOW` keys,
unless it is number 1000 and no message was accepted before. An accepted forward
arrival moves the ratchet by as many steps as it derived keys. -/
theorem derivations_bounded_iff (P : Primitives) (channel : SecureChannel RatchetKey)
    (now : Instant) (envelopes : List Envelope) (seq : UInt64) (messageId : List UInt8) :
    ∃ result channel' steps,
      (channel.receiveChecked P now envelopes seq messageId).run 0 =
        .ok ((result, channel'), steps) ∧
      (steps ≤ maxSkipWindow ↔
        ¬ (messageId.length ≤ maxMessageIdLen ∧ channel.nPaths ≤ envelopes.length ∧
          channel.lastSeq = none ∧ seq = 1000)) ∧
      (∀ payload, result = .ok payload → expectedSeq channel.lastSeq ≤ seq.toNat →
        channel'.currentKey = (RatchetKey.deriveNext P)^[steps] channel.currentKey) := by
  have hreturns := channel.receiveChecked_returns (P := P) seq messageId envelopes now 0
  rw [Nat.zero_add] at hreturns
  exact ⟨_, _, _, hreturns, derivations_le_iff channel envelopes seq messageId,
    fun payload => currentKey_receive⟩

/-- A first packet with number 1000 costs 1001 derivations. -/
theorem first_packet_beyond_window :
    ∃ outcome, ((SecureChannel.new (counterKey 0) 2).receiveChecked counterPrimitives 0
      (List.replicate 2 (List.Vector.replicate 1024 0)) 1000 [7]).run 0 = .ok (outcome, 1001) ∧
        1001 > maxSkipWindow := by
  have hreturns := (SecureChannel.new (counterKey 0) 2).receiveChecked_returns
    (P := counterPrimitives) 1000 [7] (List.replicate 2 (List.Vector.replicate 1024 0)) 0 0
  exact ⟨_, hreturns, by decide⟩

end NullPath
