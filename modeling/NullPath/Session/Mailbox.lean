import NullPath.Session.Crossing
import NullPath.Transition.Refinement

/-!
# One direction is a mailbox

What the channel is for, without keys, envelopes or slots: a mailbox in which one party
posts items and from which the network makes the other take them, by number, in any
order, each at most once and none that was not posted. The numbers that can still be
taken are a `NumberWindow`, so an item that is overtaken by too many others expires.

A session in which one party sends and the other receives refines the mailbox, under an
ideal cipher and whatever packets arrive (`one_way_refines_mailbox`): a packet that
carries a message asks for its number, and any other packet does nothing.
-/

namespace NullPath

open Transition

/-! ## The mailbox -/

structure Mailbox (α : Type*) where
  posted : List α
  window : NumberWindow

/-- A move at the mailbox. -/
inductive Mail (α : Type*)
  | post (item : α)
  | ask (number : ℕ)
  | nothing

namespace Mailbox

variable {α : Type*}

def empty : Mailbox α := ⟨[], NumberWindow.empty⟩

/-- One move, and the item that it hands out. -/
def step (skip capacity : ℕ) (m : Mailbox α) : Mail α → Option α × Mailbox α
  | .post item => (none, { m with posted := m.posted ++ [item] })
  | .ask number =>
      match m.posted[number]? with
      | none => (none, m)
      | some item =>
          if m.window.Open skip number then
            (some item, { m with window := m.window.take capacity number })
          else (none, m)
  | .nothing => (none, m)

end Mailbox

/-! ## A session as a mailbox -/

variable {κ : Type*} {P : Primitives} {K : KeyOps κ} {rootKey : κ} {nPaths : ℕ}

/-- Party `a` only sends and party `b` only receives. -/
def OneWay (_ : Session κ) (m : Move) : Prop :=
  match m.call with
  | .send _ => m.party = .a
  | .receive _ => m.party = .b

instance : ∀ (s : Session κ) (m : Move), Decidable (OneWay s m)
  | _, ⟨_, .send _⟩ => inferInstanceAs (Decidable (_ = _))
  | _, ⟨_, .receive _⟩ => inferInstanceAs (Decidable (_ = _))

/-- The messages posted, with their ids, and the numbers that `b` can still accept. -/
def mailbox (s : Session κ) : Mailbox (List UInt8 × List UInt8) :=
  { posted := (s .a).sent.map fun message => (message.1.messageId, message.1.payload)
    window := (s .b).channel.window }

/-- A packet carries the message of its number, sealed under the chain key of the
number. -/
def CarriesNumber (P : Primitives) (K : KeyOps κ) (rootKey : κ) (nPaths : ℕ) (s : Session κ)
    (args : ReceiveArgs) : Prop :=
  ∃ message ∈ (s .a).sent[args.seq.toNat]?,
    Carries P (K.bytes (chain K rootKey args.seq.toNat)) nPaths message args.toPacket

instance (P : Primitives) (K : KeyOps κ) (rootKey : κ) (nPaths : ℕ) (s : Session κ)
    (args : ReceiveArgs) : Decidable (CarriesNumber P K rootKey nPaths s args) := by
  unfold CarriesNumber
  infer_instance

/-- The move at the mailbox that an event stands for. -/
def mail (P : Primitives) (K : KeyOps κ) (rootKey : κ) (nPaths : ℕ) (e : SessionEvent κ) :
    Mail (List UInt8 × List UInt8) :=
  match e.input.call with
  | .send args =>
      match e.output with
      | .sent (.ok _) => .post (args.messageId, args.payload)
      | _ => .nothing
  | .receive args =>
      if CarriesNumber P K rootKey nPaths e.before args then .ask args.seq.toNat else .nothing

/-- The id and payload that an event hands out. -/
def handedOut (e : SessionEvent κ) : Option (List UInt8 × List UInt8) :=
  match e.input.call, e.output with
  | .receive args, .received (.ok payload) => some (args.messageId, payload)
  | _, _ => none

/-- A `send` posts its message, if it succeeds. -/
theorem refines_send (hencrypt : P.EncryptTotal) {s : Session κ} {args : SendArgs} {reply : Reply}
    {channel' : SecureChannel κ}
    (hstep : callStep P K (s .a).channel (.send args) = (reply, channel'))
    (heffect : CallEffect P K (s .a).channel (.send args) reply channel') :
    Event.Refines (moveStep P K) (Mailbox.step maxSkipWindow maxSkippedKeys) mailbox
      (mail P K rootKey nPaths) handedOut ⟨s, ⟨.a, .send args⟩, reply⟩ := by
  have hnext : (moveStep P K s ⟨.a, .send args⟩).2 = s.record .a (.send args) reply channel' := by
    rw [moveStep, hstep]
  have hb : s.record .a (.send args) reply channel' .b = s .b := record_peer s .a _ _ _
  have hposted : (mailbox (s.record .a (.send args) reply channel')).posted =
      (mailbox s).posted ++ (sentMessage? ⟨(s .a).channel, .send args, reply⟩).toList.map
        fun message => (message.1.messageId, message.1.payload) := by
    rw [mailbox, record_self, Endpoint.sent, sentMessages_concat, List.map_append]
    rfl
  unfold Event.Refines
  rw [hnext]
  have hmailbox : mailbox (s.record .a (.send args) reply channel') =
      ⟨(mailbox s).posted ++ (sentMessage? ⟨(s .a).channel, .send args, reply⟩).toList.map
        fun message => (message.1.messageId, message.1.payload), (mailbox s).window⟩ := by
    rw [← hposted, ← show (s.record .a (.send args) reply channel' .b).channel.window =
      (mailbox s).window from congrArg (fun e => e.channel.window) hb]
    rfl
  rw [hmailbox]
  cases heffect with
  | notSent =>
      rw [show Option.toList _ = [] from rfl, List.map_nil, List.append_nil]
      rfl
  | lost _ hlost => exact absurd hencrypt hlost
  | sent => rfl

/-- Party `a` has accepted nothing and party `b` has sent nothing. -/
structure OneWayState (s : Session κ) : Prop where
  lastSeq : (s .a).channel.lastSeq = none
  sent : (s .b).sent = []

namespace OneWayState

variable {s : Session κ}

theorem record (h : OneWayState s) {p : Party} {call : Call} {reply : Reply}
    {channel' : SecureChannel κ} (hrule : OneWay s ⟨p, call⟩)
    (heffect : CallEffect P K (s p).channel call reply channel') :
    OneWayState (s.record p call reply channel') := by
  cases call with
  | send args =>
      obtain rfl : p = .a := hrule
      refine ⟨?_, (congrArg Endpoint.sent (record_peer s .a _ _ _)).trans h.sent⟩
      rw [record_self]
      cases heffect with
      | _ => exact h.lastSeq
  | receive args =>
      obtain rfl : p = .b := hrule
      refine ⟨(congrArg (fun e => e.channel.lastSeq) (record_peer s .b _ _ _)).trans h.lastSeq, ?_⟩
      rw [record_self, Endpoint.sent, sentMessages_concat]
      exact List.append_eq_nil_iff.2 ⟨h.sent, rfl⟩

theorem getsThrough_iff (hencrypt : P.EncryptTotal) (h : OneWayState s)
    (hruns : OwnRuns P K rootKey nPaths s) {args : ReceiveArgs}
    {message : SendArgs × List Envelope} :
    (∃ expected, GetsThrough P K rootKey nPaths s .b args message expected) ↔
      (s .a).sent[args.seq.toNat]? = some message ∧
        Carries P (K.bytes (chain K rootKey args.seq.toNat)) nPaths message args.toPacket ∧
          (s .b).channel.window.Open maxSkipWindow args.seq.toNat := by
  -- In one direction nothing crosses: the sender never expects a number past 0.
  have hzero : ∀ {expected}, (expectedWhenSent (s .a).events)[args.seq.toNat]? = some expected →
      expected = 0 := by
    intro expected hn
    have hle := (hruns.sentState hencrypt .a).expected_le expected (List.mem_of_getElem? hn)
    rw [h.lastSeq] at hle
    exact Nat.le_zero.1 hle
  constructor
  · rintro ⟨expected, hthrough⟩
    have hcarries := hthrough.carries
    rw [hzero hthrough.whenSent, Nat.add_zero] at hcarries
    exact ⟨hthrough.sent, hcarries, hthrough.isOpen⟩
  · rintro ⟨hsent, hcarries, hopen⟩
    obtain ⟨expected, hn⟩ := exists_expectedWhenSent _ hsent
    obtain rfl := hzero hn
    refine ⟨0, hsent, hn, hcarries, hopen, Nat.le_zero.1 ?_⟩
    have hnone : (expectedWhenSent (s .b).events).length = 0 :=
      (length_expectedWhenSent _).trans (congrArg List.length h.sent)
    exact List.countP_le_length.trans hnone.le

/-- A packet takes the message that it carries, if its number is open, and otherwise
does nothing. -/
theorem refines_receive (hencrypt : P.EncryptTotal) (hdecrypt : P.DecryptUndoes)
    (hbytes : Function.Injective K.bytes) (h : OneWayState s)
    (hruns : OwnRuns P K rootKey nPaths s) {horizon : ℕ} (hnumbers : horizon ≤ 2 ^ 64)
    (hdistinct : ChainDistinct K rootKey horizon) {args : ReceiveArgs} {reply : Reply}
    {channel' : SecureChannel κ}
    (hafter : ∀ q, (s.record .b (.receive args) reply channel' q).reach ≤ horizon)
    (hideal : IdealArrival P K rootKey horizon nPaths s ⟨.b, .receive args⟩)
    (hstep : callStep P K (s .b).channel (.receive args) = (reply, channel'))
    (heffect : CallEffect P K (s .b).channel (.receive args) reply channel') :
    Event.Refines (moveStep P K) (Mailbox.step maxSkipWindow maxSkippedKeys) mailbox
      (mail P K rootKey nPaths) handedOut ⟨s, ⟨.b, .receive args⟩, reply⟩ := by
  have hnext : (moveStep P K s ⟨.b, .receive args⟩).2 =
      s.record .b (.receive args) reply channel' := by
    rw [moveStep, hstep]
  have hmailbox : mailbox (s.record .b (.receive args) reply channel') =
      ⟨(mailbox s).posted, channel'.window⟩ := by
    rw [mailbox, record_self, show s.record .b (.receive args) reply channel' .a = s .a from
      record_peer s .b _ _ _]
    rfl
  have hposted : (mailbox s).posted[args.seq.toNat]? = ((s .a).sent[args.seq.toNat]?).map
      fun message => (message.1.messageId, message.1.payload) := List.getElem?_map ..
  have hmail : mail P K rootKey nPaths ⟨s, ⟨.b, .receive args⟩, reply⟩ =
      if CarriesNumber P K rootKey nPaths s args then .ask args.seq.toNat else .nothing := rfl
  have hwindow := heffect.window_eq
  have hreceived := hruns.received_iff hencrypt hdecrypt hbytes hnumbers hdistinct hafter hideal
    hstep heffect
  have hrefused (hnone : ∀ payload, reply ≠ .received (.ok payload)) :
      handedOut ⟨s, ⟨.b, .receive args⟩, reply⟩ = none ∧
        channel'.window = (mailbox s).window := by
    cases heffect with
    | opened _ _ payload => exact absurd rfl (hnone payload)
    | _ => exact ⟨rfl, rfl⟩
  unfold Event.Refines
  rw [hnext, hmailbox, hmail]
  by_cases hcarries : CarriesNumber P K rootKey nPaths s args
  · rw [if_pos hcarries]
    obtain ⟨message, hsent, hpacket⟩ := hcarries
    dsimp only [Mailbox.step]
    rw [hposted, Option.mem_def.1 hsent, Option.map_some]
    dsimp only
    by_cases hopen : (mailbox s).window.Open maxSkipWindow args.seq.toNat
    · obtain ⟨expected, hthrough⟩ := (h.getsThrough_iff hencrypt hruns).2 ⟨hsent, hpacket, hopen⟩
      have hreply := (hreceived message.1.payload).2 ⟨message, expected, hthrough, rfl⟩
      subst hreply
      rw [if_pos hopen, hwindow, handedOut, ← hpacket.1]
      rfl
    · obtain ⟨hnone, hsame⟩ := hrefused fun payload hreply => by
        obtain ⟨_, _, hthrough, _⟩ := (hreceived payload).1 hreply
        exact hopen hthrough.isOpen
      rw [if_neg hopen, hnone, hsame]
  · obtain ⟨hnone, hsame⟩ := hrefused fun payload hreply => by
      obtain ⟨message, expected, hthrough, _⟩ := (hreceived payload).1 hreply
      obtain ⟨hsent, hpacket, _⟩ := (h.getsThrough_iff hencrypt hruns).1 ⟨expected, hthrough⟩
      exact hcarries ⟨message, hsent, hpacket⟩
    rw [if_neg hcarries, hnone, hsame]
    rfl

end OneWayState

/-- **One direction is a mailbox.** Party `a` sends, party `b` receives, and any packets
arrive. Under an ideal cipher and over a chain without repetitions as far as the parties
come, the run hands out what the mailbox hands out, move by move, and ends in the
mailbox's state. -/
theorem one_way_refines_mailbox {P : Primitives} (hencrypt : P.EncryptTotal)
    (hdecrypt : P.DecryptUndoes) (rootKey : RatchetKey) (nPaths : ℕ) (moves : List Move)
    (horizon : ℕ) (hnumbers : horizon ≤ 2 ^ 64)
    (hdistinct : ChainDistinct (RatchetKey.ops P) rootKey horizon)
    (hreach : ∀ p, (runSession P (RatchetKey.ops P) rootKey nPaths moves p).reach ≤ horizon)
    (hmoves : Keeps P (RatchetKey.ops P) rootKey nPaths
      (fun s m => OneWay s m ∧ IdealArrival P (RatchetKey.ops P) rootKey horizon nPaths s m)
      moves) :
    let K := RatchetKey.ops P
    let events := sessionTrace P K rootKey nPaths moves
    let mails := events.map (mail P K rootKey nPaths)
    let box := Mailbox.step 1000 1000
    (trace box Mailbox.empty mails).map Event.output = events.map handedOut ∧
      final box Mailbox.empty mails = mailbox (runSession P K rootKey nPaths moves) := by
  intro K events mails box
  have hrefines : ∀ e ∈ events, e.Refines (moveStep P K)
      (Mailbox.step maxSkipWindow maxSkippedKeys) mailbox (mail P K rootKey nPaths) handedOut := by
    refine (session_induction (motive := fun past s => (∀ q, (s q).reach ≤ horizon) →
      OneWayState s ∧ ∀ e ∈ past, e.Refines (moveStep P K)
        (Mailbox.step maxSkipWindow maxSkippedKeys) mailbox (mail P K rootKey nPaths) handedOut)
      (fun _ => ⟨⟨rfl, rfl⟩, fun e hmem => by cases hmem⟩) ?_ moves hmoves hreach).2
    rintro past s p call reply channel' hruns hpast ⟨hrule, hideal⟩ hstep heffect hafter
    obtain ⟨hstate, hevents⟩ := hpast fun q => (reach_le_record heffect q).trans (hafter q)
    refine ⟨hstate.record hrule heffect, forall_mem_concat.2 ⟨hevents, ?_⟩⟩
    cases call with
    | send args =>
        obtain rfl : p = .a := hrule
        exact refines_send hencrypt hstep heffect
    | receive args =>
        obtain rfl : p = .b := hrule
        exact hstate.refines_receive hencrypt hdecrypt (fun _ _ => congrArg RatchetKey.mk) hruns
          hnumbers hdistinct hafter hideal hstep heffect
  exact trace_refines hrefines

/-- Two messages arrive in the wrong order and the first one twice. -/
theorem one_way_refines_mailbox_reordered :
    let K := RatchetKey.ops counterPrimitives
    let burst : List Move :=
      [⟨.a, .send (counterSend [10] [1])⟩, ⟨.a, .send (counterSend [11] [2])⟩]
    let moves := thenReceive (thenReceive burst .b 1) .b 0
    let events := sessionTrace counterPrimitives K (counterKey 0) 2 moves
    let mails := events.map (mail counterPrimitives K (counterKey 0) 2)
    mails.length = 5 ∧ (trace (Mailbox.step 1000 1000) Mailbox.empty mails).map Event.output =
      events.map handedOut := by
  intro K burst moves events mails
  exact ⟨by decide +kernel, (one_way_refines_mailbox counter_encryptTotal counter_decryptUndoes
    (counterKey 0) 2 moves 4 (by decide) (counter_chainDistinct (by decide))
    (fun p => by cases p <;> decide +kernel) (by decide +kernel)).1⟩

end NullPath
