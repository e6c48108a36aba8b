import NullPath.Channel.Endpoint
import NullPath.Channel.Receiver

/-!
# Delivery in any order

A sender reaches the key of message `q` by stepping once a message; a receiver
reaches it by a bootstrap skip, a forward skip or a stored key. Both land on the
`q`-th chain key (`SenderState`, `ReceiverState.targetKey_eq`), so both select
the same slot and the receiver opens what the sender sealed, whatever the other
slots hold.
-/

namespace NullPath

open Transition

variable {κ : Type*} {P : Primitives} {K : KeyOps κ}

theorem Sends.selected {key : Bytes 32} {seq : UInt64} {nPaths : ℕ} {coins : SendCoins}
    {payload messageId : List UInt8} {slots : List Envelope}
    (h : Sends P key seq nPaths coins payload messageId slots) :
    slots.length = nPaths ∧
      ∃ validSlot realEnvelope,
        selectSlot P key.toList messageId nPaths = .ok validSlot ∧
          Envelope.seal P coins.realCoins key payload (constructAad seq messageId) =
              .ok realEnvelope ∧
            slots[validSlot]? = some realEnvelope := by
  obtain ⟨validSlot, realEnvelope, hslot, hseal, hslots⟩ := h.seals
  exact ⟨slots_length hslots, validSlot, realEnvelope, hslot, hseal, slots_real hslots⟩

/-- A channel whose target key for `seq` is the key a message was sealed under
returns its payload, from any envelopes that agree with the sent ones in the
selected slot. -/
theorem receive_of_sends (hdecrypt : P.DecryptUndoes) {channel : SecureChannel κ}
    {accepted : List UInt64} {target : Target κ} {key : Bytes 32} {seq : UInt64}
    {coins : SendCoins} {payload messageId : List UInt8} {slots : List Envelope}
    (hbooks : Bookkeeping accepted channel)
    (hsends : Sends P key seq channel.nPaths coins payload messageId slots)
    (htarget : channel.computeTargetKey K seq messageId = .ok target)
    (hkey : K.bytes target.targetKey = key) (now : Instant) {envelopes : List Envelope}
    (hlength : channel.nPaths ≤ envelopes.length)
    (hagree : ∀ slot, selectSlot P key.toList messageId channel.nPaths = .ok slot →
      envelopes[slot]? = slots[slot]?) :
    (channel.receive P K now envelopes seq messageId).1 = .ok payload := by
  obtain ⟨_, validSlot, realEnvelope, hslot, hseal, hreal⟩ := hsends.selected
  have hopen := open_seal hdecrypt hseal
  have hsteps : Authenticates P K channel envelopes seq messageId target payload := by
    refine ⟨hsends.messageId_le, hlength, htarget, validSlot, realEnvelope, ?_, ?_, ?_⟩
    · rw [hkey]
      exact hslot
    · rw [hagree validSlot hslot]
      exact hreal
    · rw [hkey]
      exact hopen
  have hfresh := hbooks.checkAndInsert_of_target now htarget
  unfold SecureChannel.receive
  simp only [authenticate_eq_ok_iff.2 hsteps, hfresh, if_true]

/-- A channel that only sends never expects a number other than the first. -/
structure SenderState (P : Primitives) (K : KeyOps κ) (rootKey : κ) (nPaths : ℕ)
    (past : List (ChannelEvent κ)) (channel : SecureChannel κ) : Prop where
  sent : SentState P K rootKey nPaths past channel
  lastSeq : channel.lastSeq = none

namespace SenderState

variable {rootKey : κ} {nPaths : ℕ} {past : List (ChannelEvent κ)} {channel : SecureChannel κ}

theorem run (hencrypt : P.EncryptTotal) (K : KeyOps κ) (rootKey : κ) (nPaths : ℕ)
    (sends : List SendArgs) :
    SenderState P K rootKey nPaths (runTrace P K rootKey nPaths (sends.map Call.send))
      (runChannel P K rootKey nPaths (sends.map Call.send)) := by
  refine run_induction (fun call => ∃ args, call = .send args)
    (motive := SenderState P K rootKey nPaths)
    ⟨SentState.new P K rootKey nPaths, rfl⟩ ?_ _ ?_
  · rintro past channel _ reply channel' ⟨args, rfl⟩ h heffect
    refine ⟨h.sent.preserved hencrypt heffect, ?_⟩
    cases heffect with
    | _ => exact h.lastSeq
  · intro call hcall
    obtain ⟨args, _, rfl⟩ := List.mem_map.1 hcall
    exact ⟨args, rfl⟩

theorem expected_eq_zero (h : SenderState P K rootKey nPaths past channel) {i expected : ℕ}
    (hn : (expectedWhenSent past)[i]? = some expected) : expected = 0 := by
  have hle := h.sent.expected_le expected (List.mem_of_getElem? hn)
  rw [h.lastSeq] at hle
  exact Nat.le_zero.1 hle

theorem sends (h : SenderState P K rootKey nPaths past channel) {i : ℕ} {args : SendArgs}
    {slots : List Envelope} (hi : (sentMessages past)[i]? = some (args, slots)) :
    Sends P (K.bytes (chain K rootKey i)) (UInt64.ofNat i) nPaths args.coins args.payload
      args.messageId slots := by
  obtain ⟨expected, hn⟩ := exists_expectedWhenSent past hi
  have hsends := h.sent.sends i expected args slots hi hn
  rwa [h.expected_eq_zero hn, Nat.add_zero] at hsends

end SenderState

/-- The numbers within a window of 1000 of the last accepted one. -/
def InWindow (lastSeq : Option UInt64) (q : UInt64) : Prop :=
  match lastSeq with
  | none => q.toNat ≤ 1000
  | some last =>
      (last.toNat < q.toNat ∧ q.toNat ≤ last.toNat + 1000) ∨
        (q.toNat < last.toNat ∧ last.toNat - q.toNat ≤ 1000)

instance : ∀ lastSeq q, Decidable (InWindow lastSeq q)
  | none, q => inferInstanceAs (Decidable (q.toNat ≤ 1000))
  | some _, _ => inferInstanceAs (Decidable (_ ∨ _))

/-- A receiver serves every unaccepted number in its window: a late one still
has its key, because the low-water mark lies behind the window. -/
theorem ReceiverState.servable {rootKey : κ} {accepted : List UInt64}
    {channel : SecureChannel κ} (h : ReceiverState K rootKey accepted channel) {q : UInt64}
    (hnew : q ∉ accepted) (hwindow : InWindow channel.lastSeq q) : Servable channel q := by
  obtain ⟨low, hcomplete⟩ := h.complete
  have hlow := hcomplete.low_le
  have hget := hcomplete.get? q
  unfold InWindow at hwindow
  unfold Servable
  cases hlast : channel.lastSeq with
  | none =>
      rw [hlast] at hwindow
      exact hwindow
  | some last =>
      rw [hlast] at hwindow
      rw [hlast, expectedSeq_some] at hlow hget
      rcases hwindow with hforward | ⟨hlt, hwindow⟩
      · exact Or.inl hforward
      · have hmark : low ≤ q.toNat := by
          simp only [maxSkipWindow] at hlow
          omega
        refine Or.inr ⟨hlt.le, chain K rootKey q.toNat, ?_⟩
        rw [hget, if_pos ⟨hmark, hlt.trans (Nat.lt_succ_self _), hnew⟩]

/-- **In-window delivery.** A sender and a receiver start from one root key; the
sender's run may contain failing sends and the receiver's any forged packets. If
the receiver has not accepted number `q` and it is in the window, then it
returns the payload of the sender's message `q` from any envelopes that agree
with the sent ones in the slot selected under the `q`-th chain key. -/
theorem delivered_in_window {P : Primitives} (hencrypt : P.EncryptTotal)
    (hdecrypt : P.DecryptUndoes) (rootKey : RatchetKey) (nPaths : ℕ)
    (sends : List SendArgs) (receives : List ReceiveArgs) {q : UInt64} {args : SendArgs}
    {slots envelopes : List Envelope}
    (hsent : (sentMessages (runTrace P (RatchetKey.ops P) rootKey nPaths
      (sends.map Call.send)))[q.toNat]? = some (args, slots))
    (hnew : q ∉ acceptedSeqs (runTrace P (RatchetKey.ops P) rootKey nPaths
      (receives.map Call.receive)))
    (hwindow : InWindow (runChannel P (RatchetKey.ops P) rootKey nPaths
      (receives.map Call.receive)).lastSeq q)
    (hlength : nPaths ≤ envelopes.length)
    (hagree : ∀ slot, selectSlot P (chain (RatchetKey.ops P) rootKey q.toNat).bytes.toList
      args.messageId nPaths = .ok slot → envelopes[slot]? = slots[slot]?) (now : Instant) :
    ((runChannel P (RatchetKey.ops P) rootKey nPaths (receives.map Call.receive)).receive P
      (RatchetKey.ops P) now envelopes q args.messageId).1 = .ok args.payload := by
  set K := RatchetKey.ops P
  have hsender := SenderState.run hencrypt K rootKey nPaths sends
  have hreceiver := ReceiverState.run P K rootKey nPaths receives
  set channel := runChannel P K rootKey nPaths (receives.map Call.receive)
  have hpaths : channel.nPaths = nPaths :=
    (EndpointState.run hencrypt K rootKey nPaths (receives.map Call.receive)).nPaths
  have hsends := hsender.sends hsent
  rw [UInt64.ofNat_toNat, ← hpaths] at hsends
  rw [← hpaths] at hlength hagree
  obtain ⟨target, htarget⟩ := computeTargetKey_of_servable (K := K)
    (hreceiver.servable hnew hwindow) args.messageId
  have hkey : K.bytes target.targetKey = K.bytes (chain K rootKey q.toNat) :=
    congrArg K.bytes (hreceiver.targetKey_eq htarget)
  exact receive_of_sends hdecrypt hreceiver.books hsends htarget hkey now hlength hagree

/-- Message 2 arrives first; message 1 is then delivered from its stored key. -/
theorem delivered_in_window_late :
    let K := RatchetKey.ops counterPrimitives
    let sends := [counterSend [10] [1], counterSend [11] [2], counterSend [12] [3]]
    let receives := arrivals ((counterPackets 2 sends).drop 2)
    ∃ args slots,
      (sentMessages (runTrace counterPrimitives K (counterKey 0) 2
          (sends.map Call.send)))[1]? = some (args, slots) ∧
        args.payload = [11] ∧
          ((runChannel counterPrimitives K (counterKey 0) 2 (receives.map Call.receive)).receive
            counterPrimitives K 0 slots 1 args.messageId).1 = .ok args.payload := by
  intro K sends receives
  have hmessage : ((sentMessages (runTrace counterPrimitives K (counterKey 0) 2
      (sends.map Call.send)))[1]?).map
        (fun message => (message.1.payload, message.2.length)) = some ([11], 2) := by
    decide +kernel
  obtain ⟨⟨args, slots⟩, hsent, hdata⟩ := Option.map_eq_some_iff.1 hmessage
  obtain ⟨hpayload, hlength⟩ := Prod.mk.inj hdata
  refine ⟨args, slots, hsent, hpayload, ?_⟩
  exact delivered_in_window counter_encryptTotal counter_decryptUndoes (counterKey 0) 2 sends
    receives (q := 1) hsent (by decide +kernel) (by decide +kernel) hlength.ge
    (fun _ _ => rfl) 0

end NullPath
