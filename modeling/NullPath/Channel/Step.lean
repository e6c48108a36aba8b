import NullPath.Channel.Basic
import NullPath.Envelope.RoundTrip

/-!
# What one call does

One inversion lemma for each operation of the channel: `send_cases`,
`receive_cases`, and below them `computeTargetKey_cases` for Step 1 and
`authenticate_eq_ok_iff` for Steps 1 to 3. Everything later argues from these
and never unfolds the code.

`expectedSeq` is the number the channel expects next from its peer: 0 before
any message, and one past the highest accepted number afterwards. In this
reading Step 1 has two cases only, a forward arrival at or past the expected
number and a late arrival below it.
-/

namespace NullPath

/-- The next in-order number: one past the highest accepted one. -/
def expectedSeq : Option UInt64 → ℕ
  | none => 0
  | some last => last.toNat + 1

@[simp] theorem expectedSeq_none : expectedSeq none = 0 := rfl

@[simp] theorem expectedSeq_some (last : UInt64) :
    expectedSeq (some last) = last.toNat + 1 := rfl

theorem expectedSeq_injective : Function.Injective expectedSeq := by
  intro a b h
  cases a with
  | none =>
      cases b with
      | none => rfl
      | some b => simp at h
  | some a =>
      cases b with
      | none => simp at h
      | some b =>
          simp only [expectedSeq_some, Nat.add_right_cancel_iff] at h
          rw [UInt64.toNat_inj.1 h]

variable {κ : Type*} {K : KeyOps κ} {P : Primitives}

theorem constructAad_inj {seq seq' : UInt64} {messageId messageId' : List UInt8} :
    constructAad seq messageId = constructAad seq' messageId' ↔
      seq = seq' ∧ messageId = messageId' := by
  constructor
  · intro h
    have hlength : (ascii "decoypath-v1-msg-aad:" ++ beBytes 8 seq.toNat).length =
        (ascii "decoypath-v1-msg-aad:" ++ beBytes 8 seq'.toNat).length := by
      simp
    obtain ⟨hnumber, hmessageId⟩ := List.append_inj h hlength
    have hbytes := List.append_cancel_left hnumber
    exact ⟨UInt64.toNat_inj.1 (beBytes_injective seq.toNat_lt seq'.toNat_lt hbytes), hmessageId⟩
  · rintro ⟨rfl, rfl⟩
    rfl

/-! ## The skip loop -/

/-- The skip loop steps the key once a round and stores the key it had at each
number of the range. -/
theorem skipLoop_spec (count : ℕ) (start : UInt64) (runner : κ)
    (localSkipped : SortedMap UInt64 κ) (h : start.toNat + count < 2 ^ 64) :
    (skipLoop K count start runner localSkipped).1 = K.deriveNext^[count] runner ∧
      ∀ s, (skipLoop K count start runner localSkipped).2.get? s =
        if start.toNat ≤ s.toNat ∧ s.toNat < start.toNat + count then
          some (K.deriveNext^[s.toNat - start.toNat] runner)
        else localSkipped.get? s := by
  induction count generalizing start runner localSkipped with
  | zero =>
      refine ⟨rfl, fun s => ?_⟩
      rw [if_neg (by omega)]
      rfl
  | succ count ih =>
      have hstart : (start + 1).toNat = start.toNat + 1 :=
        UInt64.toNat_add_one_of_lt (n := 2 ^ 64 - 1) (by omega) (by decide)
      obtain ⟨hrunner, hskipped⟩ := ih (start + 1) (K.deriveNext runner)
        (localSkipped.insert start runner) (by omega)
      refine ⟨by rw [skipLoop, hrunner, Function.iterate_succ_apply], fun s => ?_⟩
      rw [skipLoop, hskipped s, hstart, SortedMap.get?_insert]
      by_cases hs : s = start
      · subst hs
        rw [if_neg (by omega), if_pos rfl, if_pos (by omega), Nat.sub_self]
        rfl
      · have hne : s.toNat ≠ start.toNat := fun heq => hs (UInt64.toNat_inj.1 heq)
        rw [if_neg hs]
        by_cases hrange : start.toNat + 1 ≤ s.toNat ∧ s.toNat < start.toNat + 1 + count
        · rw [if_pos hrange, if_pos (by omega), ← Function.iterate_succ_apply,
            show (s.toNat - (start.toNat + 1)).succ = s.toNat - start.toNat by omega]
        · rw [if_neg hrange, if_neg (by omega)]

/-! ## Step 1 -/

/-- A target for a number at or past the expected one: its key lies as many
steps ahead of the current key as numbers are skipped, and the skipped keys are
those in between. -/
structure ForwardTarget (K : KeyOps κ) (channel : SecureChannel κ) (seq : UInt64)
    (target : Target κ) : Prop where
  expected_le : expectedSeq channel.lastSeq ≤ seq.toNat
  isForward : target.isForward = true
  targetKey : target.targetKey =
    K.deriveNext^[seq.toNat - expectedSeq channel.lastSeq] channel.currentKey
  nextRatchetKey : target.nextRatchetKey = some (K.deriveNext target.targetKey)
  localSkipped : ∀ s, target.localSkipped.get? s =
    if expectedSeq channel.lastSeq ≤ s.toNat ∧ s.toNat < seq.toNat then
      some (K.deriveNext^[s.toNat - expectedSeq channel.lastSeq] channel.currentKey)
    else none

/-- A target for a number below the expected one: its key is a stored skipped
key. -/
structure LateTarget (channel : SecureChannel κ) (seq : UInt64) (target : Target κ) :
    Prop where
  lt_expected : seq.toNat < expectedSeq channel.lastSeq
  isForward : target.isForward = false
  targetKey : channel.skippedKeys.get? seq = some target.targetKey

theorem ForwardTarget.keys_of_chain {channel : SecureChannel κ} {seq : UInt64}
    {target : Target κ} {rootKey : κ} {n : ℕ} (h : ForwardTarget K channel seq target)
    (hkey : channel.currentKey = chain K rootKey (n + expectedSeq channel.lastSeq)) :
    target.targetKey = chain K rootKey (n + seq.toNat) ∧
      target.nextRatchetKey = some (chain K rootKey (n + (seq.toNat + 1))) := by
  have hexpected := h.expected_le
  have htarget : target.targetKey = chain K rootKey (n + seq.toNat) := by
    rw [h.targetKey, hkey, iterate_deriveNext_chain, Nat.add_assoc,
      Nat.add_sub_cancel' hexpected]
  refine ⟨htarget, ?_⟩
  rw [h.nextRatchetKey, htarget, ← chain_succ, Nat.add_assoc]

/-- The table a forward arrival merges: the numbers it skips are new, everything
else is as it was. -/
theorem ForwardTarget.get?_merged {channel : SecureChannel κ} {seq : UInt64}
    {target : Target κ} (h : ForwardTarget K channel seq target) (s : UInt64) :
    (channel.skippedKeys.insertAll target.localSkipped).get? s =
      if expectedSeq channel.lastSeq ≤ s.toNat ∧ s.toNat < seq.toNat then
        some (K.deriveNext^[s.toNat - expectedSeq channel.lastSeq] channel.currentKey)
      else channel.skippedKeys.get? s := by
  rw [SortedMap.get?_insertAll, h.localSkipped s]
  split_ifs <;> simp

theorem computeTargetKey_cases {channel : SecureChannel κ} {seq : UInt64}
    {messageId : List UInt8} {target : Target κ}
    (h : channel.computeTargetKey K seq messageId = .ok target) :
    ForwardTarget K channel seq target ∨ LateTarget channel seq target := by
  unfold SecureChannel.computeTargetKey at h
  have hseq : seq.toNat < 2 ^ 64 := seq.toNat_lt
  split at h
  · rename_i hlast
    split_ifs at h with hzero hwindow
    · cases h
      subst hzero
      refine Or.inl ⟨by simp [hlast], rfl, by simp [hlast], rfl, fun s => ?_⟩
      rw [if_neg (by simp)]
      rfl
    · cases h
      obtain ⟨hrunner, hskipped⟩ := skipLoop_spec (K := K) seq.toNat 0 channel.currentKey ∅
        (by simpa using hseq)
      refine Or.inl ⟨by simp [hlast], rfl, by simpa [hlast] using hrunner, rfl, fun s => ?_⟩
      simpa [hlast] using hskipped s
  · rename_i last hlast
    by_cases hforward : seq > last
    · rw [if_pos hforward] at h
      by_cases hwindow : (seq - last).toNat > maxSkipWindow
      · rw [if_pos hwindow] at h
        cases h
      · rw [if_neg hwindow] at h
        cases h
        have hlt : last.toNat < seq.toNat := UInt64.lt_iff_toNat_lt.1 hforward
        have hstart : (last + 1).toNat = last.toNat + 1 :=
          UInt64.toNat_add_one_of_lt hlt hseq
        obtain ⟨hrunner, hskipped⟩ := skipLoop_spec (K := K)
          (seq.toNat - (last + 1).toNat) (last + 1) channel.currentKey ∅ (by omega)
        have hend : (last + 1).toNat + (seq.toNat - (last + 1).toNat) = seq.toNat := by omega
        rw [hend] at hskipped
        refine Or.inl ⟨by rw [hlast]; exact hlt, rfl, ?_, rfl, ?_⟩
        · rw [hlast, expectedSeq_some, ← hstart]
          exact hrunner
        · rw [hlast, expectedSeq_some, ← hstart]
          exact hskipped
    · rw [if_neg hforward] at h
      have hle : seq.toNat ≤ last.toNat := UInt64.le_iff_toNat_le.1 (not_lt.1 hforward)
      split at h
      · rename_i key hkey
        cases h
        refine Or.inr ⟨?_, rfl, hkey⟩
        rw [hlast, expectedSeq_some]
        omega
      · split_ifs at h

/-- The arrivals Step 1 can serve: a forward one within the skip window, or a
late one whose key is stored. -/
def Servable (channel : SecureChannel κ) (seq : UInt64) : Prop :=
  match channel.lastSeq with
  | none => seq.toNat ≤ maxSkipWindow
  | some last =>
      (last.toNat < seq.toNat ∧ seq.toNat ≤ last.toNat + maxSkipWindow) ∨
        (seq.toNat ≤ last.toNat ∧ ∃ key, channel.skippedKeys.get? seq = some key)

theorem computeTargetKey_of_servable {channel : SecureChannel κ} {seq : UInt64}
    (h : Servable channel seq) (messageId : List UInt8) :
    ∃ target, channel.computeTargetKey K seq messageId = .ok target := by
  unfold Servable at h
  unfold SecureChannel.computeTargetKey
  cases hlast : channel.lastSeq with
  | none =>
      rw [hlast] at h
      simp only
      split_ifs with hzero hwindow
      · exact ⟨_, rfl⟩
      · exact absurd h (Nat.not_le.2 hwindow)
      · exact ⟨_, rfl⟩
  | some last =>
      rw [hlast] at h
      simp only
      rcases h with ⟨hlt, hle⟩ | ⟨hle, key, hkey⟩
      · have hforward : seq > last := UInt64.lt_iff_toNat_lt.2 hlt
        have hcount : (seq - last).toNat = seq.toNat - last.toNat :=
          UInt64.toNat_sub_of_le _ _ hforward.le
        rw [if_pos hforward, if_neg (by omega)]
        exact ⟨_, rfl⟩
      · have hlate : ¬ seq > last := not_lt.2 (UInt64.le_iff_toNat_le.2 hle)
        rw [if_neg hlate, hkey]
        exact ⟨_, rfl⟩

theorem servable_of_computeTargetKey {channel : SecureChannel κ} {seq : UInt64}
    {messageId : List UInt8} {target : Target κ}
    (h : channel.computeTargetKey K seq messageId = .ok target) : Servable channel seq := by
  unfold SecureChannel.computeTargetKey at h
  unfold Servable
  cases hlast : channel.lastSeq with
  | none =>
      rw [hlast] at h
      simp only at h ⊢
      split_ifs at h with hzero hwindow
      · rw [hzero]
        exact Nat.zero_le _
      · exact Nat.le_of_not_gt hwindow
  | some last =>
      rw [hlast] at h
      simp only at h ⊢
      by_cases hforward : seq > last
      · have hlt : last.toNat < seq.toNat := UInt64.lt_iff_toNat_lt.1 hforward
        have hcount : (seq - last).toNat = seq.toNat - last.toNat :=
          UInt64.toNat_sub_of_le _ _ hforward.le
        rw [if_pos hforward] at h
        split_ifs at h with hwindow
        exact Or.inl ⟨hlt, by omega⟩
      · rw [if_neg hforward] at h
        split at h
        · rename_i key hkey
          exact Or.inr ⟨UInt64.le_iff_toNat_le.1 (not_lt.1 hforward), key, hkey⟩
        · split_ifs at h

/-! ## Steps 1 to 3 -/

/-- What has to hold for a packet to pass Steps 1 to 3 with this target and
payload. -/
structure Authenticates (P : Primitives) (K : KeyOps κ) (channel : SecureChannel κ)
    (envelopes : List Envelope) (seq : UInt64) (messageId : List UInt8) (target : Target κ)
    (payload : List UInt8) : Prop where
  messageId_le : messageId.length ≤ maxMessageIdLen
  nPaths_le : channel.nPaths ≤ envelopes.length
  computeTargetKey : channel.computeTargetKey K seq messageId = .ok target
  opens : ∃ slotIdx envelope,
    selectSlot P (K.bytes target.targetKey).toList messageId channel.nPaths = .ok slotIdx ∧
      envelopes[slotIdx]? = some envelope ∧
        Envelope.open P (K.bytes target.targetKey) envelope (constructAad seq messageId) =
          .ok payload

theorem authenticate_eq_ok_iff {channel : SecureChannel κ} {envelopes : List Envelope}
    {seq : UInt64} {messageId : List UInt8} {target : Target κ} {payload : List UInt8} :
    channel.authenticate P K envelopes seq messageId = .ok (target, payload) ↔
      Authenticates P K channel envelopes seq messageId target payload := by
  unfold SecureChannel.authenticate
  constructor
  · intro h
    split_ifs at h with hmessageId hpaths
    split at h
    · cases h
    rename_i target' htarget
    split at h
    · cases h
    rename_i slotIdx hslot
    split at h
    · cases h
    rename_i envelope henvelope
    split at h
    · cases h
    rename_i payload' hopen
    cases h
    exact ⟨Nat.le_of_not_gt hmessageId, Nat.le_of_not_lt hpaths, htarget,
      slotIdx, envelope, hslot, henvelope, hopen⟩
  · intro h
    obtain ⟨slotIdx, envelope, hslot, henvelope, hopen⟩ := h.opens
    rw [if_neg (Nat.not_lt.2 h.messageId_le), if_neg (Nat.not_lt.2 h.nPaths_le)]
    simp only [h.computeTargetKey, hslot, henvelope, hopen]

/-! ## Step 5 -/

section Commit

variable (channel : SecureChannel κ) (seq : UInt64) {target : Target κ}

theorem commit_forward {next : κ} (h : target.isForward = true)
    (hnext : target.nextRatchetKey = some next) :
    channel.commit seq target =
      { channel with
        lastSeq := some seq
        currentKey := next
        skippedKeys :=
          (channel.skippedKeys.insertAll target.localSkipped).evict maxSkippedKeys } := by
  unfold SecureChannel.commit
  rw [if_pos h, hnext]
  rfl

theorem commit_late (h : target.isForward = false) :
    channel.commit seq target =
      { channel with skippedKeys := channel.skippedKeys.erase seq } := by
  unfold SecureChannel.commit
  rw [h]
  rfl

end Commit

/-! ## The calls -/

/-- A `receive` ends in one of three ways: it is refused in Steps 1 to 3 and
writes nothing; it is refused by the anti-replay store, which may have pruned;
or it is accepted and committed. -/
theorem receive_cases (channel : SecureChannel κ) (now : Instant)
    (envelopes : List Envelope) (seq : UInt64) (messageId : List UInt8) :
    (∃ e, channel.receive P K now envelopes seq messageId = (.error e, channel)) ∨
      (∃ target payload,
        Authenticates P K channel envelopes seq messageId target payload ∧
          (channel.antiReplay.checkAndInsert now seq messageId).1 = false ∧
            channel.receive P K now envelopes seq messageId = (.error .ReplayedSequence,
              { channel with
                antiReplay := (channel.antiReplay.checkAndInsert now seq messageId).2 })) ∨
        ∃ target payload,
          Authenticates P K channel envelopes seq messageId target payload ∧
            (channel.antiReplay.checkAndInsert now seq messageId).1 = true ∧
              channel.receive P K now envelopes seq messageId = (.ok payload,
                { channel with
                  antiReplay :=
                    (channel.antiReplay.checkAndInsert now seq messageId).2 }.commit seq
                      target) := by
  unfold SecureChannel.receive
  cases hauth : channel.authenticate P K envelopes seq messageId with
  | error e => exact Or.inl ⟨e, rfl⟩
  | ok result =>
      obtain ⟨target, payload⟩ := result
      have hsteps := authenticate_eq_ok_iff.1 hauth
      refine Or.inr ?_
      cases hfresh : (channel.antiReplay.checkAndInsert now seq messageId).1 with
      | false => exact Or.inl ⟨target, payload, hsteps, rfl, by simp [hfresh]⟩
      | true => exact Or.inr ⟨target, payload, hsteps, rfl, by simp [hfresh]⟩

theorem authenticates_of_receive {channel : SecureChannel κ} {now : Instant}
    {envelopes : List Envelope} {seq : UInt64} {messageId payload : List UInt8}
    (h : (channel.receive P K now envelopes seq messageId).1 = .ok payload) :
    ∃ target, Authenticates P K channel envelopes seq messageId target payload := by
  rcases receive_cases (P := P) (K := K) channel now envelopes seq messageId with
    ⟨e, hreceive⟩ | ⟨target, payload', _, _, hreceive⟩ | ⟨target, payload', hsteps, _, hreceive⟩
  · rw [hreceive] at h
    cases h
  · rw [hreceive] at h
    cases h
  · rw [hreceive] at h
    cases h
    exact ⟨target, hsteps⟩

/-- The channel after the ratchet advance of a `send`. -/
def advanceSender (K : KeyOps κ) (channel : SecureChannel κ) : SecureChannel κ :=
  { channel with
    currentKey := K.deriveNext channel.currentKey
    sendSeq := some (nextSendSeq channel.sendSeq) }

/-- What a successful `send` returned: the seal of the payload under the current
key and number, in the slot selected for the message id. -/
structure Sends (P : Primitives) (key : Bytes 32) (seq : UInt64) (nPaths : ℕ)
    (coins : SendCoins) (payload messageId : List UInt8) (slots : List Envelope) : Prop where
  messageId_le : messageId.length ≤ maxMessageIdLen
  seals : ∃ validSlot realEnvelope,
    selectSlot P key.toList messageId nPaths = .ok validSlot ∧
      Envelope.seal P coins.realCoins key payload (constructAad seq messageId) =
          .ok realEnvelope ∧
        generateMultiPathSlots P coins.decoyCoins realEnvelope validSlot nPaths
          (constructAad seq messageId) = .ok slots

/-- A `send` ends in one of three ways: it is refused and writes nothing; it
loses its decoys after the ratchet has been advanced; or it succeeds. -/
theorem send_cases (channel : SecureChannel κ) (coins : SendCoins)
    (payload messageId : List UInt8) :
    (∃ e, channel.send P K coins payload messageId = (.error e, channel)) ∨
      (channel.send P K coins payload messageId =
          (.error .DecoyFailure, advanceSender K channel) ∧
        ∃ validSlot realEnvelope e, validSlot < channel.nPaths ∧
          generateMultiPathSlots P coins.decoyCoins realEnvelope validSlot channel.nPaths
            (constructAad (nextSendSeq channel.sendSeq) messageId) = .error e) ∨
        ∃ slots, Sends P (K.bytes channel.currentKey) (nextSendSeq channel.sendSeq)
            channel.nPaths coins payload messageId slots ∧
          channel.send P K coins payload messageId =
            (.ok slots, advanceSender K channel) := by
  unfold SecureChannel.send
  split_ifs with hmessageId
  · exact Or.inl ⟨_, rfl⟩
  simp only
  split
  · exact Or.inl ⟨_, rfl⟩
  rename_i validSlot hslot
  split
  · exact Or.inl ⟨_, rfl⟩
  rename_i realEnvelope hseal
  split
  · rename_i e hdecoys
    exact Or.inr (Or.inl ⟨rfl, validSlot, realEnvelope, e, selectSlot_lt hslot, hdecoys⟩)
  · rename_i slots hslots
    exact Or.inr (Or.inr ⟨slots,
      ⟨Nat.le_of_not_gt hmessageId, validSlot, realEnvelope, hslot, hseal, hslots⟩, rfl⟩)

end NullPath
