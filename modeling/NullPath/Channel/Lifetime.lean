import NullPath.Channel.Atomic
import NullPath.Channel.Endpoint

/-!
# The numbers of a channel's lifetime

The `n`-th successful send of a run carries the number `n`, in 64 bits. Nothing
checks the counter, so the numbers are unique as long as a run makes at most
`2 ^ 64` sends that pass the checks (`unique_numbers_iff`), and the next one
starts over with 0 (`number_reused`).
-/

namespace NullPath

open Transition

variable {κ : Type*} {P : Primitives} {K : KeyOps κ}

/-- The largest sequence number. -/
def maxSeq : UInt64 := UInt64.ofNat (2 ^ 64 - 1)

/-- The number that a successful `send` binds into its associated data. -/
def sentSeq? (event : ChannelEvent κ) : Option UInt64 :=
  (sentMessage? event).map fun _ => nextSendSeq event.before.sendSeq

/-- The numbers of the successful sends of a run, in order. -/
def sentSeqs (events : List (ChannelEvent κ)) : List UInt64 := events.filterMap sentSeq?

/-- The numbers of the sends increase, and once the largest number is used up every
`send` returns an error. -/
structure UniqueNumbers (events : List (ChannelEvent κ)) : Prop where
  increasing : (sentSeqs events).Pairwise (· < ·)
  exhausted : ∀ past event later, events = past ++ event :: later → maxSeq ∈ sentSeqs past →
    ∀ args, event.input = .send args → ∃ e, event.output = .sent (.error e)

/-- The calls that a channel with `nPaths` paths seals and sends. -/
def Call.Sent (nPaths : ℕ) : Call → Prop
  | .send args => args.messageId.length ≤ maxMessageIdLen ∧ nPaths ≠ 0 ∧
      args.payload.length ≤ maxPayloadSize
  | .receive _ => False

instance Call.decidableSent (nPaths : ℕ) : DecidablePred (Call.Sent nPaths)
  | .send args => inferInstanceAs (Decidable (args.messageId.length ≤ maxMessageIdLen ∧
      nPaths ≠ 0 ∧ args.payload.length ≤ maxPayloadSize))
  | .receive _ => inferInstanceAs (Decidable False)

/-! ## What a run numbers -/

/-- A successful `send` of a run made its envelopes with the number read off it. -/
theorem sends_sentSeq {rootKey : κ} {nPaths : ℕ} {calls : List Call} {event : ChannelEvent κ}
    {args : SendArgs} {slots : List Envelope} (h : event ∈ runTrace P K rootKey nPaths calls)
    (hsent : sentMessage? event = some (args, slots)) :
    ∃ seq, sentSeq? event = some seq ∧
      Sends P (K.bytes event.before.currentKey) seq event.before.nPaths args.coins args.payload
        args.messageId slots := by
  refine ⟨nextSendSeq event.before.sendSeq, by rw [sentSeq?, hsent]; rfl, ?_⟩
  rw [eq_event_of_mem_trace (callStep P K) h] at hsent
  exact (callStep_effect P K event.before event.input).sends hsent

theorem sentSeqs_concat (events : List (ChannelEvent κ)) (e : ChannelEvent κ) :
    sentSeqs (events ++ [e]) = sentSeqs events ++ (sentSeq? e).toList :=
  filterMap_concat _ events e

theorem sentSeqs_eq (hencrypt : P.EncryptTotal) (K : KeyOps κ) (rootKey : κ) (nPaths : ℕ)
    (calls : List Call) :
    sentSeqs (runTrace P K rootKey nPaths calls) =
      (List.range (sentMessages (runTrace P K rootKey nPaths calls)).length).map
        UInt64.ofNat := by
  refine (run_induction (P := P) (K := K) (fun _ => True)
    (motive := fun past channel =>
      EndpointState K rootKey nPaths (sentMessages past).length (acceptedSeqs past) channel ∧
        sentSeqs past = (List.range (sentMessages past).length).map UInt64.ofNat)
    ⟨EndpointState.new rootKey nPaths, rfl⟩ ?_ calls fun _ _ => trivial).2
  rintro past channel call reply channel' - ⟨hstate, hnumbers⟩ heffect
  rw [sentMessages_concat, acceptedSeqs_concat, sentSeqs_concat, List.length_append]
  refine ⟨hstate.preserved hencrypt heffect, ?_⟩
  rw [hnumbers, sentSeq?]
  cases sentMessage? ⟨channel, call, reply⟩ with
  | none => simp
  | some message => simp [List.range_succ, hstate.nextSendSeq]

theorem callStep_send (P : Primitives) (K : KeyOps κ) (channel : SecureChannel κ)
    (args : SendArgs) :
    (∃ e, (event (callStep P K) channel (.send args)).output = .sent (.error e)) ∨
      ∃ slots, sentMessage? (event (callStep P K) channel (.send args)) = some (args, slots) := by
  simp only [event, callStep, sentMessage?]
  cases (channel.send P K args.coins args.payload args.messageId).1 with
  | error e => exact Or.inl ⟨e, rfl⟩
  | ok slots => exact Or.inr ⟨slots, rfl⟩

theorem CallEffect.nPaths_eq {channel channel' : SecureChannel κ} {call : Call} {reply : Reply}
    (h : CallEffect P K channel call reply channel') : channel'.nPaths = channel.nPaths := by
  cases h with
  | opened args target payload hsteps =>
      unfold SecureChannel.commit
      split_ifs
      · rfl
      · rfl
  | _ => rfl

theorem isSome_sentMessage? (hencrypt : P.EncryptTotal) (hmac : P.HmacTotal)
    (channel : SecureChannel κ) (call : Call) :
    (sentMessage? (event (callStep P K) channel call)).isSome = true ↔
      call.Sent channel.nPaths := by
  cases call with
  | receive args => exact iff_of_false (by simp [event, sentMessage?]) id
  | send args =>
      by_cases hsendable : Sendable channel args.payload args.messageId
      · obtain ⟨slots, _, hsend⟩ := send_of_sendable (K := K)
          (fun aad _ => hencrypt.encryptsWith aad) hmac args.coins hsendable
        refine iff_of_true ?_ ⟨hsendable.messageId_le, hsendable.nPaths_ne_zero,
          hsendable.payload_le⟩
        simp [event, callStep, hsend, sentMessage?]
      · obtain ⟨e, hsend⟩ := send_of_refused (P := P) (K := K) channel args.coins hsendable
        refine iff_of_false ?_ fun h => hsendable ⟨h.1, h.2.1, h.2.2⟩
        simp [event, callStep, hsend, sentMessage?]

theorem length_sentMessages (hencrypt : P.EncryptTotal) (hmac : P.HmacTotal) (rootKey : κ)
    (nPaths : ℕ) (calls : List Call) :
    (sentMessages (runTrace P K rootKey nPaths calls)).length =
      calls.countP (Call.Sent nPaths) := by
  have hinputs := trace_inputs (callStep P K) (SecureChannel.new rootKey nPaths) calls
  have hcalls := congrArg (List.countP fun call => decide (call.Sent nPaths)) hinputs
  rw [List.countP_map] at hcalls
  rw [sentMessages, List.length_filterMap_eq_countP, ← hcalls]
  apply List.countP_congr
  intro e hmem
  have hpaths : e.before.nPaths = nPaths :=
    before_of_mem_trace (callStep P K) (p := fun channel => channel.nPaths = nPaths) rfl
      (fun channel call h => (callStep_effect P K channel call).nPaths_eq.trans h) hmem
  have hsent := isSome_sentMessage? (K := K) hencrypt hmac e.before e.input
  rw [← eq_event_of_mem_trace (callStep P K) hmem, hpaths] at hsent
  rw [hsent, Function.comp_apply, decide_eq_true_iff]

/-! ## When the numbers are unique -/

theorem pairwise_lt_ofNat_iff (n : ℕ) :
    ((List.range n).map UInt64.ofNat).Pairwise (· < ·) ↔ n ≤ 2 ^ 64 := by
  rw [List.pairwise_map]
  constructor
  · intro h
    by_contra hlong
    have hwrapped := List.pairwise_iff_getElem.1 h 0 (2 ^ 64) (by rw [List.length_range]; omega)
      (by rw [List.length_range]; omega) (by decide)
    rw [List.getElem_range, List.getElem_range] at hwrapped
    revert hwrapped
    decide
  · intro hn
    refine List.pairwise_lt_range.imp_of_mem fun {i j} hi hj hlt => ?_
    have hi' := (List.mem_range.1 hi).trans_le hn
    have hj' := (List.mem_range.1 hj).trans_le hn
    rw [UInt64.lt_iff_toNat_lt, UInt64.toNat_ofNat_of_lt' hi', UInt64.toNat_ofNat_of_lt' hj']
    exact hlt

theorem mem_ofNat_range {n : ℕ} (hn : n ≤ 2 ^ 64)
    (h : maxSeq ∈ (List.range n).map UInt64.ofNat) : n = 2 ^ 64 := by
  obtain ⟨i, hi, hmax⟩ := List.mem_map.1 h
  have hi' := List.mem_range.1 hi
  have hvalue : i = 2 ^ 64 - 1 := by
    rw [← UInt64.toNat_ofNat_of_lt' (hi'.trans_le hn), hmax]
    exact UInt64.toNat_ofNat_of_lt' (by decide)
  omega

/-- **Unique numbers.** The numbers of the sends increase and are refused once they
are used up, exactly in the runs that make at most `2 ^ 64` sends of a short message
id and a payload that fits. -/
theorem unique_numbers_iff {P : Primitives} (hencrypt : P.EncryptTotal) (hmac : P.HmacTotal)
    (rootKey : RatchetKey) (nPaths : ℕ) (calls : List Call) :
    UniqueNumbers (runTrace P (RatchetKey.ops P) rootKey nPaths calls) ↔
      calls.countP (Call.Sent nPaths) ≤ 2 ^ 64 := by
  rw [← length_sentMessages (K := RatchetKey.ops P) hencrypt hmac rootKey nPaths calls,
    ← pairwise_lt_ofNat_iff, ← sentSeqs_eq hencrypt (RatchetKey.ops P) rootKey nPaths calls]
  constructor
  · exact UniqueNumbers.increasing
  · intro hincreasing
    refine ⟨hincreasing, ?_⟩
    intro past event later hevents hmax args hargs
    have hbound := hincreasing
    rw [sentSeqs_eq hencrypt, pairwise_lt_ofNat_iff] at hbound
    have hmem : event ∈ runTrace P (RatchetKey.ops P) rootKey nPaths calls := by
      rw [hevents]
      exact List.mem_append_right _ List.mem_cons_self
    have hcount : (sentMessages past).length + (sentMessage? event).toList.length ≤ 2 ^ 64 := by
      rw [hevents, sentMessages, List.filterMap_append, List.length_append] at hbound
      refine le_trans (Nat.add_le_add_left ?_ _) hbound
      cases hsent : sentMessage? event with
      | none => exact Nat.zero_le _
      | some message => simp [hsent]
    have hpast : past = runTrace P (RatchetKey.ops P) rootKey nPaths
        (calls.take past.length) := by
      rw [runTrace, ← take_trace]
      change past = (runTrace P (RatchetKey.ops P) rootKey nPaths calls).take past.length
      rw [hevents, List.take_left]
    rw [hpast, sentSeqs_eq hencrypt, ← hpast] at hmax
    have hfull := mem_ofNat_range ((Nat.le_add_right _ _).trans hcount) hmax
    rw [eq_event_of_mem_trace (callStep P (RatchetKey.ops P)) hmem] at hcount ⊢
    rw [hargs] at hcount ⊢
    rcases callStep_send P (RatchetKey.ops P) event.before args with hfails | ⟨slots, hsent⟩
    · exact hfails
    · rw [hsent, hfull, Option.toList_some, List.length_singleton] at hcount
      exact absurd hcount (by decide)

/-- A run of two sends with a forged packet in between. -/
theorem short_run_unique :
    UniqueNumbers (runTrace counterPrimitives (RatchetKey.ops counterPrimitives) (counterKey 0) 2
      [.send (counterSend [10] [1]), .receive ⟨⟨[], 5, [3]⟩, 0⟩,
        .send (counterSend [12] [2])]) :=
  (unique_numbers_iff counter_encryptTotal counter_hmacTotal (counterKey 0) 2 _).2 (by decide)

/-- With one send more than there are numbers, the first number is used again. -/
theorem number_reused :
    let seqs := sentSeqs (runTrace counterPrimitives (RatchetKey.ops counterPrimitives)
      (counterKey 0) 2 (List.replicate (2 ^ 64 + 1) (.send (counterSend [10] [1]))))
    seqs[0]? = some 0 ∧ seqs[2 ^ 64]? = some 0 ∧ ¬ seqs.Pairwise (· < ·) := by
  have hcount : (List.replicate (2 ^ 64 + 1) (Call.send (counterSend [10] [1]))).countP
      (Call.Sent 2) = 2 ^ 64 + 1 := by
    rw [List.countP_replicate]
    exact if_pos (by decide)
  intro seqs
  have hseqs : seqs = (List.range (2 ^ 64 + 1)).map UInt64.ofNat := by
    rw [← hcount, ← length_sentMessages counter_encryptTotal counter_hmacTotal (counterKey 0)]
    exact sentSeqs_eq counter_encryptTotal _ (counterKey 0) 2 _
  rw [hseqs]
  refine ⟨?_, ?_, ?_⟩
  · rw [List.getElem?_map, List.getElem?_range (by decide)]
    rfl
  · rw [List.getElem?_map, List.getElem?_range (by decide)]
    rfl
  · rw [pairwise_lt_ofNat_iff]
    decide

end NullPath
