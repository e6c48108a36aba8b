import NullPath.Channel.Opening
import NullPath.Session.Basic

/-!
# Who sealed what opens

Any number of endpoints run side by side, each over a root key and a number of paths
of its own. The network may hand any packets to any of them. When the cipher is ideal
for a packet and the chains of the endpoints neither repeat nor meet as far as the
endpoints come, a packet that opens was sealed by another endpoint over the same root
key, at the position that it opens at (`exists_sealer`).
-/

namespace NullPath

open Transition

variable {κ : Type*} {P : Primitives} {K : KeyOps κ} {rootKey : κ} {nPaths : ℕ}

/-- The chains from these root keys neither repeat nor meet up to a position. -/
def ChainsDistinct (K : KeyOps κ) (rootKeys : Set κ) (horizon : ℕ) : Prop :=
  ∀ r ∈ rootKeys, ∀ r' ∈ rootKeys, ∀ i ≤ horizon, ∀ j ≤ horizon,
    chain K r i = chain K r' j → r = r' ∧ i = j

theorem ChainsDistinct.mono {rootKeys rootKeys' : Set κ} {horizon : ℕ}
    (h : ChainsDistinct K rootKeys' horizon) (hsubset : rootKeys ⊆ rootKeys') :
    ChainsDistinct K rootKeys horizon :=
  fun r hr r' hr' => h r (hsubset hr) r' (hsubset hr')

theorem ChainDistinct.chainsDistinct {horizon : ℕ} (h : ChainDistinct K rootKey horizon)
    {rootKeys : Set κ} (hroot : ∀ r ∈ rootKeys, r = rootKey) :
    ChainsDistinct K rootKeys horizon := by
  intro r hr r' hr' i hi j hj heq
  rw [hroot r hr, hroot r' hr'] at heq
  exact ⟨(hroot r hr).trans (hroot r' hr').symm, h.index_eq hi hj heq⟩

theorem ChainsDistinct.chainDistinct {rootKeys : Set κ} {horizon : ℕ}
    (h : ChainsDistinct K rootKeys horizon) (hroot : rootKey ∈ rootKeys) :
    ChainDistinct K rootKey horizon := by
  intro i j hij hj heq
  exact Nat.ne_of_lt hij (h rootKey hroot rootKey hroot i (hij.le.trans hj) j hj heq).2

namespace Endpoint

/-- An endpoint is where its own calls lead. -/
def OwnRun (P : Primitives) (K : KeyOps κ) (rootKey : κ) (nPaths : ℕ) (e : Endpoint κ) : Prop :=
  ∃ calls, e.events = runTrace P K rootKey nPaths calls ∧
    e.channel = runChannel P K rootKey nPaths calls

/-- How far along the chain an endpoint has come. -/
def reach (e : Endpoint κ) : ℕ := e.sent.length + expectedSeq e.channel.lastSeq

/-- An endpoint after a call. -/
def record (e : Endpoint κ) (call : Call) (reply : Reply) (channel' : SecureChannel κ) :
    Endpoint κ :=
  ⟨channel', e.events ++ [⟨e.channel, call, reply⟩]⟩

theorem reach_le {e : Endpoint κ} {call : Call} {reply : Reply}
    {channel' : SecureChannel κ} (heffect : CallEffect P K e.channel call reply channel') :
    e.reach ≤ (e.record call reply channel').reach := by
  rw [reach, reach, sent, sent, record, sentMessages_concat, List.length_append]
  exact Nat.add_le_add (Nat.le_add_right _ _) heffect.expectedSeq_le

theorem reach_record_opened {e : Endpoint κ} {args : ReceiveArgs} {payload : List UInt8}
    {target : Target κ} (store : AntiReplayStore)
    (htarget : e.channel.computeTargetKey K args.seq args.messageId = .ok target) :
    (e.record (.receive args) (.received (.ok payload))
      ({ e.channel with antiReplay := store }.commit args.seq target)).reach =
        e.sent.length + max (expectedSeq e.channel.lastSeq) (args.seq.toNat + 1) := by
  rw [reach, sent, record, sentMessages_concat, show sentMessage? _ = none from rfl,
    Option.toList_none, List.append_nil, expectedSeq_commit _ htarget]
  rfl

namespace OwnRun

variable {e : Endpoint κ}

theorem new (P : Primitives) (K : KeyOps κ) (rootKey : κ) (nPaths : ℕ) :
    OwnRun P K rootKey nPaths ⟨SecureChannel.new rootKey nPaths, []⟩ :=
  ⟨[], rfl, rfl⟩

theorem record (h : e.OwnRun P K rootKey nPaths) {call : Call} {reply : Reply}
    {channel' : SecureChannel κ} (hstep : callStep P K e.channel call = (reply, channel')) :
    (e.record call reply channel').OwnRun P K rootKey nPaths := by
  obtain ⟨calls, hevents, hchannel⟩ := h
  have hlast : event (callStep P K) (runChannel P K rootKey nPaths calls) call =
      ⟨e.channel, call, reply⟩ := by
    rw [event, ← hchannel, hstep]
  refine ⟨calls ++ [call], ?_, ?_⟩
  · rw [Endpoint.record, hevents, ← hlast]
    exact (trace_concat _ _ _ _).symm
  · rw [hchannel] at hstep
    exact ((final_concat _ _ _ _).trans (congrArg Prod.snd hstep)).symm

theorem sentState (hencrypt : P.EncryptTotal) (h : e.OwnRun P K rootKey nPaths) :
    SentState P K rootKey nPaths e.events e.channel := by
  obtain ⟨calls, hevents, hchannel⟩ := h
  rw [hevents, hchannel]
  exact SentState.run hencrypt K rootKey nPaths calls

theorem sealed_lt_reach (hencrypt : P.EncryptTotal) (h : e.OwnRun P K rootKey nPaths)
    {call : SealCall} {i expected : ℕ} {args : SendArgs} {slots : List Envelope}
    (hseals : SealsMessage P K rootKey nPaths e.events call i expected args slots) :
    i + expected < e.reach := by
  have hlt : i < e.sent.length := (List.getElem?_eq_some_iff.1 hseals.sent).1
  have hexpected := (h.sentState hencrypt).expected_le expected
    (List.mem_of_getElem? hseals.whenSent)
  exact Nat.add_lt_add_of_lt_of_le hlt hexpected

end OwnRun

end Endpoint

/-- **Who sealed what opens.** Under an ideal cipher, what an endpoint opens was sealed by
another endpoint over the same root key, at the position that it opens at. -/
theorem exists_sealer (hencrypt : P.EncryptTotal) (hbytes : Function.Injective K.bytes)
    {ι : Type*} {endpoints : ι → Endpoint κ} {rootKeys : ι → κ} {paths : ι → ℕ}
    (h : ∀ i, (endpoints i).OwnRun P K (rootKeys i) (paths i)) {horizon : ℕ}
    (hdistinct : ChainsDistinct K (Set.range rootKeys) horizon)
    (hreach : ∀ i, (endpoints i).reach ≤ horizon) {i : ι} {args : ReceiveArgs}
    {target : Target κ} {payload : List UInt8}
    (hnext : (endpoints i).sent.length +
      max (expectedSeq (endpoints i).channel.lastSeq) (args.seq.toNat + 1) ≤ horizon)
    (hdecoys : ∀ j, ∀ message ∈ (endpoints j).sent,
      FreshDecoys K (rootKeys i) horizon (paths j) message.1)
    {log : List SealCall} (hlog : ∀ call ∈ log, ∃ j, call ∈ sealCalls P K (endpoints j).events)
    (hideal : OpensOnlySealed P K (rootKeys i) horizon log args.envelopes
      (constructAad args.seq args.messageId))
    (hsteps : Authenticates P K (endpoints i).channel args.envelopes args.seq args.messageId
      target payload) :
    ∃ j, j ≠ i ∧ rootKeys j = rootKeys i ∧ ∃ slotIdx envelope number expected sendArgs slots,
      selectSlot P (K.bytes target.targetKey).toList args.messageId
          (endpoints i).channel.nPaths = .ok slotIdx ∧
        args.envelopes[slotIdx]? = some envelope ∧
          Envelope.open P (K.bytes target.targetKey) envelope
              (constructAad args.seq args.messageId) = .ok payload ∧
            target.targetKey = chain K (rootKeys i) (number + expected) ∧
              number + expected ≤ horizon ∧
                SealsMessage P K (rootKeys j) (paths j) (endpoints j).events
                  ⟨K.bytes target.targetKey, constructAad args.seq args.messageId, envelope⟩
                  number expected sendArgs slots := by
  obtain ⟨calls, hevents, hchannel⟩ := h i
  have htarget := hsteps.computeTargetKey
  rw [hchannel] at htarget
  obtain ⟨position, hkey, hfresh, hlt⟩ := exists_target_position hencrypt calls htarget
  rw [← hchannel, ← hevents] at hlt
  have hposition : position ≤ horizon := hlt.le.trans hnext
  -- What was opened is in the log, so some endpoint sealed it for a message of its own.
  obtain ⟨slotIdx, envelope, hslot, henvelope, hopen⟩ := hsteps.opens
  have hlogged := hideal envelope (List.mem_of_getElem? henvelope) position hposition
    (by rw [← hkey, hopen]; rfl)
  obtain ⟨j, hsealed⟩ := hlog _ hlogged
  obtain ⟨calls', hevents', -⟩ := h j
  have hsent := hdecoys j
  rw [Endpoint.sent, hevents'] at hsent
  rw [hevents'] at hsealed
  obtain ⟨number, expected, sendArgs, slots, hseals⟩ := exists_sealsMessage hencrypt K
    (rootKeys j) (paths j) calls' (fun message hmessage slotIdx hslot =>
      hsent message hmessage slotIdx hslot position hposition) hsealed
  rw [← hevents'] at hseals
  have hbelow := (h j).sealed_lt_reach hencrypt hseals
  obtain ⟨hroot, hindex⟩ := hdistinct _ (Set.mem_range_self i) _ (Set.mem_range_self j) position
    hposition (number + expected) (hbelow.le.trans (hreach j)) (hbytes hseals.key)
  have hother : j ≠ i := by
    rintro rfl
    -- An endpoint does not open with a position that it sealed at.
    have hown := hseals.whenSent
    rw [hevents] at hown
    exact hfresh (hindex ▸ sealed_position_consumed hencrypt K _ _ calls hown)
  rw [← hkey] at hseals
  exact ⟨j, hother, hroot.symm, slotIdx, envelope, number, expected, sendArgs, slots, hslot,
    henvelope, hopen, hindex ▸ hkey, hindex ▸ hposition, hseals⟩

end NullPath
