import NullPath.Session.Basic

/-!
# Keys at handover

Each endpoint's current key is as far along the chain as it has sent messages
and expects numbers. When both have accepted the other's latest message, each
expects as many numbers as the other has sent, so both keys stand at the total
number of messages, whatever was lost or overtaken on the way.
-/

namespace NullPath

open Transition

variable {κ : Type*} {P : Primitives} {K : KeyOps κ} {rootKey : κ} {nPaths : ℕ}

/-- A party has accepted the message its peer sent last, or the peer has sent
none. -/
def UpToDate (s : Session κ) (p : Party) : Prop :=
  (s p.peer).sent.length = 0 ∨
    ∃ seq ∈ (s p).accepted, seq.toNat + 1 = (s p.peer).sent.length

instance (s : Session κ) (p : Party) : Decidable (UpToDate s p) :=
  @instDecidableOr _ _ _ (List.decidableBEx _ _)

/-- Accepted numbers are numbers of messages that the peer has sent. -/
structure GenuineState (P : Primitives) (K : KeyOps κ) (rootKey : κ) (nPaths : ℕ)
    (s : Session κ) : Prop where
  runs : OwnRuns P K rootKey nPaths s
  accepted_lt : ∀ p, ∀ seq ∈ (s p).accepted, seq.toNat < (s p.peer).sent.length

namespace GenuineState

variable {s : Session κ}

theorem new (P : Primitives) (K : KeyOps κ) (rootKey : κ) (nPaths : ℕ) :
    GenuineState P K rootKey nPaths (Session.new rootKey nPaths) where
  runs := OwnRuns.new P K rootKey nPaths
  accepted_lt p seq hmem := by cases hmem

theorem expectedSeq_le (hencrypt : P.EncryptTotal) (h : GenuineState P K rootKey nPaths s)
    (p : Party) : expectedSeq (s p).channel.lastSeq ≤ (s p.peer).sent.length :=
  (h.runs.endpointState hencrypt p).expectedSeq_le (h.accepted_lt p)

theorem expectedSeq_eq (hencrypt : P.EncryptTotal) (h : GenuineState P K rootKey nPaths s)
    {p : Party} (hp : UpToDate s p) :
    expectedSeq (s p).channel.lastSeq = (s p.peer).sent.length := by
  refine Nat.le_antisymm (h.expectedSeq_le hencrypt p) ?_
  rcases hp with hnone | ⟨seq, hmem, hlatest⟩
  · rw [hnone]
    exact Nat.zero_le _
  · rw [← hlatest]
    exact (h.runs.endpointState hencrypt p).books.accepted_lt seq hmem

theorem record (h : GenuineState P K rootKey nPaths s) {p : Party} {call : Call}
    {reply : Reply} {channel' : SecureChannel κ} (hgenuine : Genuine s ⟨p, call⟩)
    (hstep : callStep P K (s p).channel call = (reply, channel'))
    (heffect : CallEffect P K (s p).channel call reply channel') :
    GenuineState P K rootKey nPaths (s.record p call reply channel') := by
  refine ⟨h.runs.record hstep, fun q seq hmem => ?_⟩
  rcases Party.eq_or_eq_peer q p with rfl | rfl
  · rw [record_peer]
    rw [record_self, Endpoint.accepted, acceptedSeqs_concat] at hmem
    rcases List.mem_append.1 hmem with hmem | hmem
    · exact h.accepted_lt q seq hmem
    · cases heffect with
      | opened args =>
          rw [show acceptedSeq? _ = some args.seq from rfl, Option.toList_some,
            List.mem_singleton] at hmem
          obtain ⟨message, hmessage, _⟩ := Endpoint.sent_of_packets hgenuine
          rw [hmem]
          exact (List.getElem?_eq_some_iff.1 hmessage).1
      | _ => cases hmem
  · rw [record_peer_peer, Endpoint.sent, sentMessages_concat, List.length_append]
    rw [record_peer] at hmem
    have hold := h.accepted_lt p.peer seq hmem
    rw [Party.peer_peer] at hold
    exact Nat.lt_add_right _ hold

theorem run (P : Primitives) (K : KeyOps κ) (rootKey : κ) (nPaths : ℕ) (moves : List Move)
    (hmoves : Keeps P K rootKey nPaths Genuine moves) :
    GenuineState P K rootKey nPaths (runSession P K rootKey nPaths moves) := by
  refine session_induction (motive := fun _ s => GenuineState P K rootKey nPaths s)
    (GenuineState.new P K rootKey nPaths) ?_ moves hmoves
  intro past s p call reply channel' _ h hgenuine hstep heffect
  exact h.record hgenuine hstep heffect

end GenuineState

/-- **Resynchronisation at handover.** In a run that delivers unmodified packets
only, in any order, with losses and repetitions, the two current keys are equal
whenever each party has accepted the message its peer sent last. When the parties
send is not restricted. -/
theorem keys_equal_at_handover {P : Primitives} (hencrypt : P.EncryptTotal)
    (rootKey : RatchetKey) (nPaths : ℕ) (moves : List Move)
    (hmoves : Keeps P (RatchetKey.ops P) rootKey nPaths Genuine moves)
    (ha : UpToDate (runSession P (RatchetKey.ops P) rootKey nPaths moves) .a)
    (hb : UpToDate (runSession P (RatchetKey.ops P) rootKey nPaths moves) .b) :
    (runSession P (RatchetKey.ops P) rootKey nPaths moves .a).channel.currentKey =
      (runSession P (RatchetKey.ops P) rootKey nPaths moves .b).channel.currentKey := by
  set K := RatchetKey.ops P
  have h := GenuineState.run P K rootKey nPaths moves hmoves
  set s := runSession P K rootKey nPaths moves
  have hkey : ∀ p, UpToDate s p → (s p).channel.currentKey = chain K rootKey s.total := by
    intro p hp
    rw [(h.runs.endpointState hencrypt p).currentKey, h.expectedSeq_eq hencrypt hp,
      s.total_eq p]
  rw [hkey .a ha, hkey .b hb]

/-- Party `a` sends twice, its first message is lost, and `b` answers. -/
theorem keys_equal_after_loss :
    let K := RatchetKey.ops counterPrimitives
    let burst : List Move :=
      [⟨.a, .send (counterSend [10] [1])⟩, ⟨.a, .send (counterSend [11] [2])⟩]
    let answer := thenReceive burst .b 1 ++ [⟨.b, .send (counterSend [12] [3])⟩]
    let moves := thenReceive answer .a 0
    (runSession counterPrimitives K (counterKey 0) 2 moves .a).channel.currentKey =
      (runSession counterPrimitives K (counterKey 0) 2 moves .b).channel.currentKey :=
  keys_equal_at_handover counter_encryptTotal (counterKey 0) 2 _ (by decide +kernel)
    (by decide +kernel) (by decide +kernel)

end NullPath
