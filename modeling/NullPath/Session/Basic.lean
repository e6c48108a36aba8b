import NullPath.Channel.Counter
import NullPath.Channel.Endpoint

/-!
# Two endpoints of one handshake

A handshake gives both parties a channel over the same root key. A session is
the two channels, each with the record of its own calls, and a move is a call by
one of the parties; a run is any list of moves, so both parties may send and
receive in any interleaving.

What the network does is a rule on moves, read with `Follows`: `Genuine` lets a
packet be lost, repeated or reordered but not altered.
-/

namespace NullPath

open Transition

inductive Party
  | a
  | b
  deriving DecidableEq

def Party.peer : Party → Party
  | .a => .b
  | .b => .a

@[simp] theorem Party.peer_peer (p : Party) : p.peer.peer = p := by
  cases p <;> rfl

theorem Party.peer_ne (p : Party) : p.peer ≠ p := by
  cases p <;> decide

theorem Party.eq_or_eq_peer (p q : Party) : p = q ∨ p = q.peer := by
  cases p <;> cases q <;> decide

/-- A channel with the record of the calls made on it. -/
structure Endpoint (κ : Type*) where
  channel : SecureChannel κ
  events : List (ChannelEvent κ)

abbrev Session (κ : Type*) := Party → Endpoint κ

structure Move where
  party : Party
  call : Call

variable {κ : Type*}

namespace Endpoint

/-- The messages an endpoint has sent. -/
def sent (e : Endpoint κ) : List (SendArgs × List Envelope) := sentMessages e.events

/-- The numbers of its peer that an endpoint has accepted. -/
def accepted (e : Endpoint κ) : List UInt64 := acceptedSeqs e.events

/-- The packets an endpoint has handed to the network. -/
def packets (e : Endpoint κ) : List Packet := outbox e.events

theorem sent_of_packets {e : Endpoint κ} {number : ℕ} {packet : Packet}
    (h : e.packets[number]? = some packet) :
    ∃ message, e.sent[number]? = some message ∧
      packet = { envelopes := message.2, seq := UInt64.ofNat number,
                 messageId := message.1.messageId } := by
  rw [packets, outbox, List.getElem?_mapIdx] at h
  obtain ⟨message, hmessage, hpacket⟩ := Option.map_eq_some_iff.1 h
  exact ⟨message, hmessage, hpacket.symm⟩

end Endpoint

/-- The session after a handshake. -/
def Session.new (rootKey : κ) (nPaths : ℕ) : Session κ :=
  fun _ => ⟨SecureChannel.new rootKey nPaths, []⟩

/-- The session after one party's call: its channel moves on and its record
grows, and the peer is as before. -/
def Session.record (s : Session κ) (p : Party) (call : Call) (reply : Reply)
    (channel' : SecureChannel κ) : Session κ :=
  Function.update s p ⟨channel', (s p).events ++ [⟨(s p).channel, call, reply⟩]⟩

section Record

variable (s : Session κ) (p : Party) (call : Call) (reply : Reply)
  (channel' : SecureChannel κ)

@[simp] theorem record_self : s.record p call reply channel' p =
    ⟨channel', (s p).events ++ [⟨(s p).channel, call, reply⟩]⟩ :=
  Function.update_self ..

@[simp] theorem record_peer : s.record p call reply channel' p.peer = s p.peer :=
  Function.update_of_ne p.peer_ne ..

theorem record_peer_peer : s.record p call reply channel' p.peer.peer =
    ⟨channel', (s p).events ++ [⟨(s p).channel, call, reply⟩]⟩ := by
  rw [Party.peer_peer, record_self]

end Record

/-- One move of a session. -/
def moveStep (P : Primitives) (K : KeyOps κ) (s : Session κ) (m : Move) :
    Reply × Session κ :=
  let (reply, channel') := callStep P K (s m.party).channel m.call
  (reply, s.record m.party m.call reply channel')

theorem snd_moveStep {P : Primitives} {K : KeyOps κ} {s : Session κ} {p : Party} {call : Call}
    {reply : Reply} {channel' : SecureChannel κ}
    (hstep : callStep P K (s p).channel call = (reply, channel')) :
    (moveStep P K s ⟨p, call⟩).2 = s.record p call reply channel' := by
  rw [moveStep, hstep]

/-- The session after a list of moves. -/
def runSession (P : Primitives) (K : KeyOps κ) (rootKey : κ) (nPaths : ℕ)
    (moves : List Move) : Session κ :=
  final (moveStep P K) (Session.new rootKey nPaths) moves

abbrev SessionEvent (κ : Type*) := Event (Session κ) Move Reply

/-- The events of a list of moves. -/
def sessionTrace (P : Primitives) (K : KeyOps κ) (rootKey : κ) (nPaths : ℕ)
    (moves : List Move) : List (SessionEvent κ) :=
  trace (moveStep P K) (Session.new rootKey nPaths) moves

/-- The moves of a session keep to a rule, each in the state where it is made. -/
def Keeps (P : Primitives) (K : KeyOps κ) (rootKey : κ) (nPaths : ℕ)
    (rule : Session κ → Move → Prop) (moves : List Move) : Prop :=
  Follows (moveStep P K) rule (Session.new rootKey nPaths) moves

instance (P : Primitives) (K : KeyOps κ) (rootKey : κ) (nPaths : ℕ)
    (rule : Session κ → Move → Prop) [∀ s m, Decidable (rule s m)] (moves : List Move) :
    Decidable (Keeps P K rootKey nPaths rule moves) :=
  inferInstanceAs (Decidable (Follows _ _ _ _))

/-- Each endpoint is where its own calls lead. -/
def OwnRuns (P : Primitives) (K : KeyOps κ) (rootKey : κ) (nPaths : ℕ) (s : Session κ) : Prop :=
  ∀ p, ∃ calls, (s p).events = runTrace P K rootKey nPaths calls ∧
    (s p).channel = runChannel P K rootKey nPaths calls

namespace OwnRuns

variable {P : Primitives} {K : KeyOps κ} {rootKey : κ} {nPaths : ℕ} {s : Session κ}

theorem new (P : Primitives) (K : KeyOps κ) (rootKey : κ) (nPaths : ℕ) :
    OwnRuns P K rootKey nPaths (Session.new rootKey nPaths) :=
  fun _ => ⟨[], rfl, rfl⟩

theorem record (h : OwnRuns P K rootKey nPaths s) {p : Party} {call : Call} {reply : Reply}
    {channel' : SecureChannel κ} (hstep : callStep P K (s p).channel call = (reply, channel')) :
    OwnRuns P K rootKey nPaths (s.record p call reply channel') := by
  intro q
  rcases Party.eq_or_eq_peer q p with rfl | rfl
  · obtain ⟨calls, hevents, hchannel⟩ := h q
    rw [hchannel] at hstep
    refine ⟨calls ++ [call], ?_, ?_⟩
    · have hlast : event (callStep P K) (runChannel P K rootKey nPaths calls) call =
          ⟨(s q).channel, call, reply⟩ := by
        rw [event, hstep, hchannel]
      rw [record_self, hevents, ← hlast]
      exact (trace_concat _ _ _ _).symm
    · rw [record_self]
      exact ((final_concat _ _ _ _).trans (congrArg Prod.snd hstep)).symm
  · rw [record_peer]
    exact h p.peer

/-- What holds of a channel and its events after any calls holds of an endpoint. -/
theorem sentState (hencrypt : P.EncryptTotal) (h : OwnRuns P K rootKey nPaths s) (p : Party) :
    SentState P K rootKey nPaths (s p).events (s p).channel := by
  obtain ⟨calls, hevents, hchannel⟩ := h p
  rw [hevents, hchannel]
  exact SentState.run hencrypt K rootKey nPaths calls

theorem endpointState (hencrypt : P.EncryptTotal) (h : OwnRuns P K rootKey nPaths s) (p : Party) :
    EndpointState K rootKey nPaths (s p).sent.length (s p).accepted (s p).channel :=
  (h.sentState hencrypt p).endpoint

end OwnRuns

/-- An invariant of a session and its past holds of every run that keeps to a
rule, once it holds after the handshake and every effect of a call that the rule
allows preserves it. -/
theorem session_induction {P : Primitives} {K : KeyOps κ} {rootKey : κ} {nPaths : ℕ}
    {rule : Session κ → Move → Prop} {motive : List (SessionEvent κ) → Session κ → Prop}
    (init : motive [] (Session.new rootKey nPaths))
    (next : ∀ past s p call reply channel', OwnRuns P K rootKey nPaths s → motive past s →
      rule s ⟨p, call⟩ → callStep P K (s p).channel call = (reply, channel') →
        CallEffect P K (s p).channel call reply channel' →
          motive (past ++ [⟨s, ⟨p, call⟩, reply⟩]) (s.record p call reply channel'))
    (moves : List Move) (h : Keeps P K rootKey nPaths rule moves) :
    motive (sessionTrace P K rootKey nPaths moves) (runSession P K rootKey nPaths moves) := by
  refine (follows_induction (moveStep P K)
    (motive := fun past s => OwnRuns P K rootKey nPaths s ∧ motive past s) _
    ⟨OwnRuns.new P K rootKey nPaths, init⟩ ?_ moves h).2
  rintro past s m ⟨hruns, hpast⟩ hrule
  exact ⟨hruns.record rfl, next past s m.party m.call _ _ hruns hpast hrule rfl
    (callStep_effect P K (s m.party).channel m.call)⟩

/-! ## What the network may do -/

/-- Every packet that arrives was handed out by the peer under its number; it may
be late, lost or repeated. Sending is not restricted. -/
def Genuine (s : Session κ) (m : Move) : Prop :=
  match m.call with
  | .send _ => True
  | .receive args => (s m.party.peer).packets[args.seq.toNat]? = some args.toPacket

instance : ∀ (s : Session κ) (m : Move), Decidable (Genuine s m)
  | _, ⟨_, .send _⟩ => isTrue trivial
  | _, ⟨_, .receive _⟩ => inferInstanceAs (Decidable (_ = _))

/-- The number of messages sent by both parties. -/
def Session.total (s : Session κ) : ℕ := (s .a).sent.length + (s .b).sent.length

theorem Session.total_eq (s : Session κ) (p : Party) :
    s.total = (s p).sent.length + (s p.peer).sent.length := by
  cases p with
  | a => rfl
  | b => exact Nat.add_comm _ _

/-- Continue a run over the counting primitives: `p` receives what its peer has
handed out, from the packet with index `start` on. -/
def thenReceive (moves : List Move) (p : Party) (start : ℕ) : List Move :=
  let s := runSession counterPrimitives (RatchetKey.ops counterPrimitives) (counterKey 0) 2 moves
  moves ++ ((s p.peer).packets.drop start).map fun packet => ⟨p, .receive (packet.arrive 0)⟩

end NullPath
