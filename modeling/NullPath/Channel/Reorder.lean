import NullPath.Channel.AtMostOnce

/-!
# The order of delivery

Packets that are delivered to a channel may take different ways in different
orders: one that arrives ahead of its predecessors takes the forward path, and
they find their keys in the table, while in the order of their numbers no key is
ever stored. Neither the payloads nor the state at the end depend on it.

The reason is a description of the state that does not mention the order.
`keyFor start s` is the key for number `s`, seen from the channel before the
deliveries, and `Delivered start seqs channel` says that the table of `channel`
holds exactly these keys for the numbers below the expected one, except for the
delivered ones. It rests on the table having room for everything that is skipped,
so that nothing is evicted on the way.
-/

namespace NullPath

open Transition

variable {κ : Type*} {P : Primitives} {K : KeyOps κ}

/-! ## What a key opens -/

/-- A packet opens under a key: the checks of `receive` that do not concern the
key, and Steps 2 and 3. -/
structure OpensUnder (P : Primitives) (K : KeyOps κ) (nPaths : ℕ) (key : κ) (packet : Packet)
    (payload : List UInt8) : Prop where
  messageId_le : packet.messageId.length ≤ maxMessageIdLen
  nPaths_le : nPaths ≤ packet.envelopes.length
  opens : ∃ slotIdx envelope,
    selectSlot P (K.bytes key).toList packet.messageId nPaths = .ok slotIdx ∧
      packet.envelopes[slotIdx]? = some envelope ∧
        Envelope.open P (K.bytes key) envelope (constructAad packet.seq packet.messageId) =
          .ok payload

theorem OpensUnder.payload_unique {nPaths : ℕ} {key : κ} {packet : Packet}
    {payload payload' : List UInt8} (h : OpensUnder P K nPaths key packet payload)
    (h' : OpensUnder P K nPaths key packet payload') : payload = payload' := by
  obtain ⟨slotIdx, envelope, hslot, henvelope, hopen⟩ := h.opens
  obtain ⟨slotIdx', envelope', hslot', henvelope', hopen'⟩ := h'.opens
  rw [hslot, Except.ok.injEq] at hslot'
  subst hslot'
  rw [henvelope, Option.some.injEq] at henvelope'
  subst henvelope'
  rw [hopen, Except.ok.injEq] at hopen'
  exact hopen'

theorem authenticates_iff (packet : Packet) {channel : SecureChannel κ} {target : Target κ}
    {payload : List UInt8} :
    Authenticates P K channel packet.envelopes packet.seq packet.messageId target payload ↔
      channel.computeTargetKey K packet.seq packet.messageId = .ok target ∧
        OpensUnder P K channel.nPaths target.targetKey packet payload := by
  constructor
  · intro h
    exact ⟨h.computeTargetKey, h.messageId_le, h.nPaths_le, h.opens⟩
  · rintro ⟨htarget, h⟩
    exact ⟨h.messageId_le, h.nPaths_le, htarget, h.opens⟩

/-! ## The state, whatever the order -/

/-- The key for number `s`: a stored one below the expected number, and from there
on the chain ahead of the current key. -/
def keyFor (K : KeyOps κ) (start : SecureChannel κ) (s : UInt64) : Option κ :=
  if s.toNat < expectedSeq start.lastSeq then start.skippedKeys.get? s
  else some (K.deriveNext^[s.toNat - expectedSeq start.lastSeq] start.currentKey)

/-- The state after the numbers `seqs` were delivered, in whatever order. -/
structure Delivered (K : KeyOps κ) (start : SecureChannel κ) (seqs : List UInt64)
    (channel : SecureChannel κ) : Prop where
  books : ∃ accepted, Bookkeeping accepted channel
  nPaths_eq : channel.nPaths = start.nPaths
  start_le : expectedSeq start.lastSeq ≤ expectedSeq channel.lastSeq
  seqs_lt : ∀ s ∈ seqs, s.toNat < expectedSeq channel.lastSeq
  attained : expectedSeq channel.lastSeq = expectedSeq start.lastSeq ∨
    ∃ s ∈ seqs, expectedSeq channel.lastSeq = s.toNat + 1
  currentKey : channel.currentKey =
    K.deriveNext^[expectedSeq channel.lastSeq - expectedSeq start.lastSeq] start.currentKey
  get? : ∀ s, channel.skippedKeys.get? s =
    if s ∉ seqs ∧ s.toNat < expectedSeq channel.lastSeq then keyFor K start s else none

/-- There is room for everything that number `s` skips. -/
def HasRoom (start : SecureChannel κ) (s : UInt64) : Prop :=
  start.skippedKeys.len + (s.toNat + 1 - expectedSeq start.lastSeq) ≤ maxSkippedKeys

namespace Delivered

variable {start channel : SecureChannel κ} {seqs : List UInt64} {seq : UInt64}
  {messageId payload : List UInt8} {target : Target κ}

theorem refl {accepted : List UInt64} (h : Bookkeeping accepted start) :
    Delivered K start [] start where
  books := ⟨accepted, h⟩
  nPaths_eq := rfl
  start_le := Nat.le_refl _
  seqs_lt s hs := by simp at hs
  attained := Or.inl rfl
  currentKey := by simp
  get? s := by
    by_cases hlt : s.toNat < expectedSeq start.lastSeq
    · simp [keyFor, hlt]
    · cases hget : start.skippedKeys.get? s with
      | none => simp [hlt]
      | some key => exact absurd (h.skipped_lt s key hget) hlt

theorem iterate_currentKey (h : Delivered K start seqs channel) {n : ℕ}
    (hn : expectedSeq channel.lastSeq ≤ n) :
    K.deriveNext^[n - expectedSeq channel.lastSeq] channel.currentKey =
      K.deriveNext^[n - expectedSeq start.lastSeq] start.currentKey := by
  have hstart := h.start_le
  rw [h.currentKey, ← Function.iterate_add_apply]
  congr 2
  omega

theorem keyFor_of_target (h : Delivered K start seqs channel)
    (htarget : channel.computeTargetKey K seq messageId = .ok target) :
    keyFor K start seq = some target.targetKey := by
  rcases computeTargetKey_cases htarget with hforward | hlate
  · have hexpected := hforward.expected_le
    have hstart := h.start_le
    rw [keyFor, if_neg (by omega), hforward.targetKey, h.iterate_currentKey hexpected]
  · have hget := hlate.targetKey
    rw [h.get?] at hget
    split_ifs at hget
    exact hget

theorem exists_target (h : Delivered K start seqs channel) (hseq : seq ∉ seqs) {key : κ}
    (hkey : keyFor K start seq = some key) (hroom : HasRoom start seq)
    (messageId : List UInt8) :
    ∃ target, channel.computeTargetKey K seq messageId = .ok target := by
  apply computeTargetKey_of_servable
  have hstart := h.start_le
  have hget := h.get? seq
  unfold HasRoom at hroom
  unfold Servable
  cases hlast : channel.lastSeq with
  | none =>
      rw [hlast, expectedSeq_none] at hstart
      simp only [maxSkippedKeys] at hroom
      simp only [maxSkipWindow]
      omega
  | some last =>
      rw [hlast, expectedSeq_some] at hstart hget
      simp only [maxSkippedKeys] at hroom
      by_cases hforward : last.toNat < seq.toNat
      · exact Or.inl ⟨hforward, by simp only [maxSkipWindow]; omega⟩
      · rw [if_pos ⟨hseq, by omega⟩, hkey] at hget
        exact Or.inr ⟨by omega, key, hget⟩

theorem len_merged_le (h : Delivered K start seqs channel) (hroom : HasRoom start seq)
    (hforward : ForwardTarget K channel seq target) :
    (channel.skippedKeys.insertAll target.localSkipped).len ≤ maxSkippedKeys := by
  have hexpected := hforward.expected_le
  have hstart := h.start_le
  -- What the table holds was stored at the start or lies in the gap since.
  have hlen : (channel.skippedKeys.insertAll target.localSkipped).len ≤
      start.skippedKeys.len + (seq.toNat - expectedSeq start.lastSeq) := by
    apply SortedMap.len_le_add_of_keys_mem UInt64.strictMono_toNat
    intro s key hget
    rw [hforward.get?_merged, h.get?] at hget
    split_ifs at hget with hskipped hstored
    · exact Or.inr (by omega)
    · by_cases hold : s.toNat < expectedSeq start.lastSeq
      · rw [keyFor, if_pos hold] at hget
        exact Or.inl ⟨key, hget⟩
      · exact Or.inr (by omega)
  unfold HasRoom at hroom
  omega

theorem forward (h : Delivered K start seqs channel) (hroom : HasRoom start seq)
    (hforward : ForwardTarget K channel seq target) (antiReplay : AntiReplayStore)
    (hbooks : ∃ accepted,
      Bookkeeping accepted ({ channel with antiReplay := antiReplay }.commit seq target)) :
    Delivered K start (seqs ++ [seq])
      ({ channel with antiReplay := antiReplay }.commit seq target) := by
  rw [commit_forward _ seq hforward.isForward hforward.nextRatchetKey] at hbooks ⊢
  have hexpected := hforward.expected_le
  have hstart := h.start_le
  have hnext : K.deriveNext target.targetKey =
      K.deriveNext^[seq.toNat + 1 - expectedSeq start.lastSeq] start.currentKey := by
    rw [hforward.targetKey, h.iterate_currentKey hexpected,
      ← Function.iterate_succ_apply' K.deriveNext]
    congr 2
    omega
  constructor
  · exact hbooks
  · exact h.nPaths_eq
  · rw [expectedSeq_some]
    omega
  · intro s hs
    rw [expectedSeq_some]
    rcases List.mem_append.1 hs with hold | hnew
    · have hlt := h.seqs_lt s hold
      omega
    · rw [List.mem_singleton.1 hnew]
      exact Nat.lt_succ_self _
  · exact Or.inr ⟨seq, by simp, rfl⟩
  · exact hnext
  · intro s
    rw [SortedMap.evict_of_len_le (h.len_merged_le hroom hforward), hforward.get?_merged,
      h.get?, expectedSeq_some]
    by_cases hskipped : expectedSeq channel.lastSeq ≤ s.toNat ∧ s.toNat < seq.toNat
    · -- A number that this arrival skips.
      have hnot : s ∉ seqs := fun hmem => absurd (h.seqs_lt s hmem) (Nat.not_lt.2 hskipped.1)
      have hne : s ≠ seq := fun heq => by simp [heq] at hskipped
      rw [if_pos hskipped, if_pos ⟨by simp [hnot, hne], by omega⟩, keyFor,
        if_neg (by omega), h.iterate_currentKey hskipped.1]
    · rw [if_neg hskipped]
      by_cases hold : s.toNat < expectedSeq channel.lastSeq
      · have hne : s ≠ seq := fun heq => by
          rw [heq] at hold
          omega
        have hlt : s.toNat < seq.toNat + 1 := by omega
        simp [hold, hlt, hne]
      · rw [if_neg fun hrange => hold hrange.2, if_neg]
        rintro ⟨hnot, hlt⟩
        have hseq : s = seq := UInt64.toNat_inj.1 (by omega)
        exact hnot (by simp [hseq])

theorem late (h : Delivered K start seqs channel) (hlate : LateTarget channel seq target)
    (antiReplay : AntiReplayStore)
    (hbooks : ∃ accepted,
      Bookkeeping accepted ({ channel with antiReplay := antiReplay }.commit seq target)) :
    Delivered K start (seqs ++ [seq])
      ({ channel with antiReplay := antiReplay }.commit seq target) := by
  rw [commit_late _ seq hlate.isForward] at hbooks ⊢
  constructor
  · exact hbooks
  · exact h.nPaths_eq
  · exact h.start_le
  · intro s hs
    rcases List.mem_append.1 hs with hold | hnew
    · exact h.seqs_lt s hold
    · rw [List.mem_singleton.1 hnew]
      exact hlate.lt_expected
  · exact h.attained.imp_right fun ⟨s, hs, heq⟩ => ⟨s, List.mem_append_left _ hs, heq⟩
  · exact h.currentKey
  · intro s
    rw [SortedMap.get?_erase, h.get?]
    by_cases hseq : s = seq <;> simp [hseq]

end Delivered

/-! ## Arrivals -/

/-- One packet arrives. -/
def arriveStep (P : Primitives) (K : KeyOps κ) (channel : SecureChannel κ)
    (args : ReceiveArgs) : Except ChannelError (List UInt8) × SecureChannel κ :=
  channel.receive P K args.now args.envelopes args.seq args.messageId

abbrev Arrival (κ : Type*) :=
  Event (SecureChannel κ) ReceiveArgs (Except ChannelError (List UInt8))

/-- What an arrival delivered: the packet and its payload. -/
def delivery? (arrival : Arrival κ) : Option (Packet × List UInt8) :=
  match arrival.output with
  | .ok payload => some (arrival.input.toPacket, payload)
  | .error _ => none

/-- What was delivered, in order. -/
def deliveries (arrivals : List (Arrival κ)) : List (Packet × List UInt8) :=
  arrivals.filterMap delivery?

/-- `calls` are the packets in their order, interleaved with packets that are
rejected where they arrive. -/
inductive Interleaves (P : Primitives) (K : KeyOps κ) :
    SecureChannel κ → List ReceiveArgs → List ReceiveArgs → Prop
  | nil (channel : SecureChannel κ) : Interleaves P K channel [] []
  | packet {channel : SecureChannel κ} {packets calls : List ReceiveArgs} (args : ReceiveArgs)
      (h : Interleaves P K (arriveStep P K channel args).2 packets calls) :
      Interleaves P K channel (args :: packets) (args :: calls)
  | rejected {channel : SecureChannel κ} {packets calls : List ReceiveArgs}
      (args : ReceiveArgs) (hrejected : (arriveStep P K channel args).1.isOk = false)
      (h : Interleaves P K (arriveStep P K channel args).2 packets calls) :
      Interleaves P K channel packets (args :: calls)

theorem Interleaves.refl (P : Primitives) (K : KeyOps κ) (channel : SecureChannel κ)
    (packets : List ReceiveArgs) : Interleaves P K channel packets packets := by
  induction packets generalizing channel with
  | nil => exact Interleaves.nil channel
  | cons args rest ih => exact Interleaves.packet args (ih _)

/-- A packet opens under the key that the channel before the deliveries has for its
number. -/
def Opening (P : Primitives) (K : KeyOps κ) (start : SecureChannel κ) (packet : Packet)
    (payload : List UInt8) : Prop :=
  ∃ key, keyFor K start packet.seq = some key ∧
    OpensUnder P K start.nPaths key packet payload

namespace Delivered

variable {start channel : SecureChannel κ} {seqs : List UInt64} {args : ReceiveArgs}
  {payload : List UInt8}

theorem accept (h : Delivered K start seqs channel) (hroom : HasRoom start args.seq)
    {target : Target κ}
    (hsteps : Authenticates P K channel args.envelopes args.seq args.messageId target payload) :
    Opening P K start args.toPacket payload ∧
      (arriveStep P K channel args).1 = .ok payload ∧
        Delivered K start (seqs ++ [args.seq]) (arriveStep P K channel args).2 := by
  obtain ⟨accepted, hbooks⟩ := h.books
  have hreceive := receive_of_authenticates hbooks args.now hsteps
  have hbooks' := hbooks.preserved (CallEffect.opened args target payload hsteps)
  obtain ⟨htarget, hopens⟩ := (authenticates_iff args.toPacket).1 hsteps
  rw [h.nPaths_eq] at hopens
  unfold arriveStep
  rw [hreceive]
  refine ⟨⟨target.targetKey, h.keyFor_of_target htarget, hopens⟩, rfl, ?_⟩
  rcases computeTargetKey_cases htarget with hforward | hlate
  · exact h.forward hroom hforward _ ⟨_, hbooks'⟩
  · exact h.late hlate _ ⟨_, hbooks'⟩

theorem accept_of_opening (h : Delivered K start seqs channel)
    (hopening : Opening P K start args.toPacket payload) (hseq : args.seq ∉ seqs)
    (hroom : HasRoom start args.seq) :
    (arriveStep P K channel args).1 = .ok payload ∧
      Delivered K start (seqs ++ [args.seq]) (arriveStep P K channel args).2 := by
  obtain ⟨key, hkey, hopens⟩ := hopening
  obtain ⟨target, htarget⟩ := h.exists_target hseq hkey hroom args.messageId
  have hsame : target.targetKey = key := by
    have hkey' := h.keyFor_of_target htarget
    rw [hkey] at hkey'
    exact (Option.some.inj hkey').symm
  rw [← h.nPaths_eq, ← hsame] at hopens
  exact (h.accept hroom ((authenticates_iff args.toPacket).2 ⟨htarget, hopens⟩)).2

theorem arrive_rejected (h : Delivered K start seqs channel)
    (hrejected : (arriveStep P K channel args).1.isOk = false) :
    (arriveStep P K channel args).2 = channel := by
  obtain ⟨accepted, hbooks⟩ := h.books
  cases hresult : (arriveStep P K channel args).1 with
  | error e => exact receive_error_unchanged hbooks _ _ _ _ hresult
  | ok payload =>
      rw [hresult] at hrejected
      cases hrejected

theorem openings {arrivals : List ReceiveArgs} (h : Delivered K start seqs channel)
    (hroom : ∀ args ∈ arrivals, HasRoom start args.seq)
    (hok : ∀ e ∈ trace (arriveStep P K) channel arrivals, e.output.isOk = true) :
    ∀ args ∈ arrivals, ∃ payload, Opening P K start args.toPacket payload := by
  induction arrivals generalizing channel seqs with
  | nil => simp
  | cons args rest ih =>
      obtain ⟨hfirst, hrest⟩ := List.forall_mem_cons.1 hok
      obtain ⟨hroomFirst, hroomRest⟩ := List.forall_mem_cons.1 hroom
      cases hresult : (arriveStep P K channel args).1 with
      | error e =>
          rw [event, hresult] at hfirst
          cases hfirst
      | ok payload =>
          obtain ⟨target, hsteps⟩ := authenticates_of_receive hresult
          obtain ⟨hopening, _, hdelivered⟩ := h.accept hroomFirst hsteps
          exact List.forall_mem_cons.2
            ⟨⟨payload, hopening⟩, ih hdelivered hroomRest hrest⟩

/-- Packets that open are delivered in any order, whatever rejected packets come in
between. -/
theorem deliver {packets calls : List ReceiveArgs}
    (hmixed : Interleaves P K channel packets calls) (h : Delivered K start seqs channel)
    (payloadOf : Packet → List UInt8)
    (hnodup : (seqs ++ packets.map (fun args => args.seq)).Nodup)
    (hroom : ∀ args ∈ packets, HasRoom start args.seq)
    (hopenings : ∀ args ∈ packets,
      Opening P K start args.toPacket (payloadOf args.toPacket)) :
    deliveries (trace (arriveStep P K) channel calls) =
        packets.map (fun args => (args.toPacket, payloadOf args.toPacket)) ∧
      Delivered K start (seqs ++ packets.map (fun args => args.seq))
        (final (arriveStep P K) channel calls) := by
  induction hmixed generalizing seqs with
  | nil channel => exact ⟨rfl, by simpa [final] using h⟩
  | @packet channel packets calls args hrest ih =>
      obtain ⟨hroomFirst, hroomRest⟩ := List.forall_mem_cons.1 hroom
      obtain ⟨hopening, hopeningsRest⟩ := List.forall_mem_cons.1 hopenings
      have hseqs : seqs ++ (args :: packets).map (fun args => args.seq) =
          (seqs ++ [args.seq]) ++ packets.map (fun args => args.seq) := by
        simp
      rw [hseqs] at hnodup ⊢
      have hseq : args.seq ∉ seqs := by
        intro hmem
        have hprefix := (List.nodup_append.1 hnodup).1
        exact (List.nodup_append.1 hprefix).2.2 _ hmem _ (by simp) rfl
      obtain ⟨haccepted, hdelivered⟩ := h.accept_of_opening hopening hseq hroomFirst
      obtain ⟨hdeliveries, hfinal⟩ := ih hdelivered hnodup hroomRest hopeningsRest
      constructor
      · rw [trace, deliveries, List.filterMap_cons_some (b := (args.toPacket,
          payloadOf args.toPacket)) (by simp [delivery?, event, haccepted]), List.map_cons]
        exact congrArg _ hdeliveries
      · exact hfinal
  | @rejected channel packets calls args hrejected hrest ih =>
      have hsame := h.arrive_rejected hrejected
      rw [hsame] at ih
      obtain ⟨hdeliveries, hfinal⟩ := ih h hnodup hroom hopenings
      constructor
      · rw [trace, deliveries, List.filterMap_cons_none, hsame]
        · exact hdeliveries
        · cases hresult : (arriveStep P K channel args).1 with
          | error e => simp [delivery?, event, hresult]
          | ok payload =>
              rw [hresult] at hrejected
              cases hrejected
      · rw [final, hsame]
        exact hfinal

/-- The description determines the state from which numbers were delivered. -/
theorem state_eq {seqs' : List UInt64} {channel' : SecureChannel κ}
    (h : Delivered K start seqs channel) (h' : Delivered K start seqs' channel')
    (hsame : ∀ s, s ∈ seqs ↔ s ∈ seqs') :
    channel.lastSeq = channel'.lastSeq ∧ channel.currentKey = channel'.currentKey ∧
      channel.skippedKeys = channel'.skippedKeys := by
  have hexpected : expectedSeq channel.lastSeq = expectedSeq channel'.lastSeq := by
    have hstart := h.start_le
    have hstart' := h'.start_le
    rcases h.attained with heq | ⟨s, hs, heq⟩
    · rcases h'.attained with heq' | ⟨s, hs, heq'⟩
      · omega
      · have hlt := h.seqs_lt s ((hsame s).2 hs)
        omega
    · have hlt := h'.seqs_lt s ((hsame s).1 hs)
      rcases h'.attained with heq' | ⟨s', hs', heq'⟩
      · omega
      · have hlt' := h.seqs_lt s' ((hsame s').2 hs')
        omega
  refine ⟨expectedSeq_injective hexpected, ?_, ?_⟩
  · rw [h.currentKey, h'.currentKey, hexpected]
  · apply SortedMap.ext_get?
    intro s
    simp only [h.get?, h'.get?, hexpected, hsame s]

end Delivered

/-- **Order independence of delivery.** After any run, take packets with distinct
numbers for all of which the table has room. If they are all accepted in one order,
then in every other order, at any readings of the clock and with any rejected
packets in between, they are all accepted with the same payloads, and the last
number, the current key and the skipped keys are the same at the end. -/
theorem delivery_order_independent (P : Primitives) (rootKey : RatchetKey) (nPaths : ℕ)
    (calls : List Call) (first second mixed : List ReceiveArgs) :
    let K := RatchetKey.ops P
    let channel := runChannel P K rootKey nPaths calls
    (first.map fun args => args.seq).Nodup →
      (∀ args ∈ first, channel.skippedKeys.len +
        (args.seq.toNat + 1 - expectedSeq channel.lastSeq) ≤ maxSkippedKeys) →
        (∀ e ∈ trace (arriveStep P K) channel first, e.output.isOk = true) →
          (second.map ReceiveArgs.toPacket).Perm (first.map ReceiveArgs.toPacket) →
            Interleaves P K channel second mixed →
              let delivered := deliveries (trace (arriveStep P K) channel first)
              let delivered' := deliveries (trace (arriveStep P K) channel mixed)
              let channel₁ := final (arriveStep P K) channel first
              let channel₂ := final (arriveStep P K) channel mixed
              delivered'.map Prod.fst = second.map ReceiveArgs.toPacket ∧
                delivered'.Perm delivered ∧ channel₂.lastSeq = channel₁.lastSeq ∧
                  channel₂.currentKey = channel₁.currentKey ∧
                    channel₂.skippedKeys = channel₁.skippedKeys := by
  intro K channel hnodup hroom hok hperm hmixed delivered delivered' channel₁ channel₂
  have hstart : Delivered K channel [] channel :=
    Delivered.refl (Bookkeeping.run P K rootKey nPaths calls)
  -- What opens does not depend on the order, so the payloads can be read off the first.
  have hopens : ∀ packet ∈ first.map ReceiveArgs.toPacket,
      ∃ payload, Opening P K channel packet payload := by
    intro packet hpacket
    obtain ⟨args, hargs, rfl⟩ := List.mem_map.1 hpacket
    exact hstart.openings hroom hok args hargs
  choose! payloadOf hopenings using hopens
  have hmem : ∀ args ∈ second, args.toPacket ∈ first.map ReceiveArgs.toPacket :=
    fun args hargs => hperm.subset (List.mem_map_of_mem hargs)
  have hseqs : (second.map fun args => args.seq).Perm (first.map fun args => args.seq) := by
    have hmap := hperm.map Packet.seq
    rwa [List.map_map, List.map_map] at hmap
  obtain ⟨hdelivered, hfinal⟩ := hstart.deliver (Interleaves.refl P K channel first) payloadOf
    hnodup hroom fun args hargs => hopenings _ (List.mem_map_of_mem hargs)
  obtain ⟨hdelivered', hfinal'⟩ := hstart.deliver hmixed payloadOf
    (hseqs.nodup_iff.2 hnodup)
    (fun args hargs => by
      obtain ⟨args', hargs', heq⟩ := List.mem_map.1 (hmem args hargs)
      have hroom' : HasRoom channel args'.toPacket.seq := hroom args' hargs'
      rwa [heq] at hroom')
    fun args hargs => hopenings _ (hmem args hargs)
  obtain ⟨hlast, hcurrent, hskipped⟩ := hfinal'.state_eq hfinal fun s => hseqs.mem_iff
  refine ⟨?_, ?_, hlast, hcurrent, hskipped⟩
  · rw [show delivered' = _ from hdelivered', List.map_map]
    rfl
  · have hpairs := hperm.map fun packet => (packet, payloadOf packet)
    rw [List.map_map, List.map_map] at hpairs
    rw [show delivered' = _ from hdelivered', show delivered = _ from hdelivered]
    exact hpairs

/-- Three packets arrive backwards, after a forged one, instead of in order. -/
theorem backwards_after_forgery :
    let K := RatchetKey.ops counterPrimitives
    let channel := runChannel counterPrimitives K (counterKey 0) 2 []
    let packets := counterPackets 2
      [counterSend [10] [1], counterSend [11] [2], counterSend [12] [3]]
    let forged : ReceiveArgs := ⟨⟨(packets.take 1).flatMap Packet.envelopes, 1, [2]⟩, 0⟩
    let inOrder := arrivals packets
    (deliveries (trace (arriveStep counterPrimitives K) channel
        (forged :: inOrder.reverse))).Perm
      (deliveries (trace (arriveStep counterPrimitives K) channel inOrder)) := by
  intro K channel packets forged inOrder
  have hmixed : Interleaves counterPrimitives K channel inOrder.reverse
      (forged :: inOrder.reverse) :=
    Interleaves.rejected forged (by decide +kernel) (Interleaves.refl _ _ _ _)
  exact (delivery_order_independent counterPrimitives (counterKey 0) 2 [] inOrder
    inOrder.reverse (forged :: inOrder.reverse) (by decide +kernel) (by decide +kernel)
    (by decide +kernel) ((List.reverse_perm inOrder).map _) hmixed).2.1

end NullPath
