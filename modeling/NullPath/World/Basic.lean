import NullPath.Handshake.Pairing
import NullPath.Session.Sealer

/-!
# Handshakes and the channels they open

The world holds the handshakes of any number of parties together with the channels
that they opened: every `respond` and every `finalize` that succeeds hands its root
key over to a new channel, whose number of paths its owner chooses. A run is any list
of handshake calls and channel calls, so an adversary chooses every payload, every
packet and the order of all of them.

A run of the world has two projections. Its handshake calls alone run as they do
without channels, and the channels are those of the ended sessions
(`handshakes_run`, `sessions_run`). Each channel is where its own calls lead
(`own_runs`).
-/

namespace NullPath

open Transition

variable {H : HandshakePrimitives}

/-- A channel, with the last call of the session that opened it. -/
structure OpenChannel (H : HandshakePrimitives) where
  ending : LastCall H
  rootKey : RootKey
  nPaths : ℕ
  endpoint : Endpoint RatchetKey

namespace OpenChannel

/-- The first key of the chain. -/
def key (c : OpenChannel H) : RatchetKey := ⟨c.rootKey.bytes⟩

/-- The channel of an ended session. -/
def new (nPaths : ℕ) (ending : LastCall H × RootKey) : OpenChannel H where
  ending := ending.1
  rootKey := ending.2
  nPaths := nPaths
  endpoint := ⟨SecureChannel.new ⟨ending.2.bytes⟩ nPaths, []⟩

/-- A channel after a call. -/
def record (c : OpenChannel H) (call : Call) (reply : Reply)
    (channel' : SecureChannel RatchetKey) : OpenChannel H :=
  { c with endpoint := c.endpoint.record call reply channel' }

/-- The ended session that a channel belongs to. -/
def session (c : OpenChannel H) : LastCall H × RootKey := (c.ending, c.rootKey)

/-- A channel is where its own calls lead. -/
def OwnRun (P : Primitives) (c : OpenChannel H) : Prop :=
  c.endpoint.OwnRun P (RatchetKey.ops P) c.key c.nPaths

end OpenChannel

/-- The handshakes of all parties and the channels they opened, in order. -/
structure World (H : HandshakePrimitives) where
  handshakes : HandshakeWorld H
  channels : List (OpenChannel H)

/-- A handshake call comes with the number of paths for the channel that it may open. -/
inductive WorldCall (H : HandshakePrimitives)
  | handshake (call : HandshakeCall H) (nPaths : ℕ)
  | channel (index : ℕ) (call : Call)

inductive WorldReply (H : HandshakePrimitives)
  | handshake (reply : HandshakeReply H)
  | channel (reply : Reply)
  | noChannel

abbrev WorldEvent (H : HandshakePrimitives) := Event (World H) (WorldCall H) (WorldReply H)

namespace World

/-- Before the first call. -/
def empty : World H := ⟨HandshakeWorld.empty, []⟩

/-- The world after a handshake call. -/
def handshake (w : World H) (call : HandshakeCall H) (nPaths : ℕ) : World H where
  handshakes := (handshakeStep w.handshakes call).2
  channels := w.channels ++
    ((ending? (event handshakeStep w.handshakes call)).map (OpenChannel.new nPaths)).toList

/-- The world after a call on a channel. -/
def record (w : World H) (index : ℕ) (c : OpenChannel H) (call : Call) (reply : Reply)
    (channel' : SecureChannel RatchetKey) : World H :=
  { w with channels := w.channels.set index (c.record call reply channel') }

/-- The `seal` calls on all channels. -/
def sealLog (P : Primitives) (w : World H) : List SealCall :=
  w.channels.flatMap fun c => sealCalls P (RatchetKey.ops P) c.endpoint.events

end World

/-- One call. -/
def worldStep (P : Primitives) (w : World H) : WorldCall H → WorldReply H × World H
  | .handshake call nPaths =>
      (.handshake (handshakeStep w.handshakes call).1, w.handshake call nPaths)
  | .channel index call =>
      match w.channels[index]? with
      | none => (.noChannel, w)
      | some c =>
          let (reply, channel') := callStep P (RatchetKey.ops P) c.endpoint.channel call
          (.channel reply, w.record index c call reply channel')

/-- The world after a list of calls. -/
def runWorld (P : Primitives) (calls : List (WorldCall H)) : World H :=
  final (worldStep P) World.empty calls

/-- The events of a list of calls. -/
def worldTrace (P : Primitives) (calls : List (WorldCall H)) : List (WorldEvent H) :=
  trace (worldStep P) World.empty calls

/-- What a call does to the world. -/
inductive WorldEffect (P : Primitives) (w : World H) : WorldCall H → World H → Prop
  | handshake (call : HandshakeCall H) (nPaths : ℕ) :
      WorldEffect P w (.handshake call nPaths) (w.handshake call nPaths)
  | noChannel (index : ℕ) (call : Call) (hindex : w.channels[index]? = none) :
      WorldEffect P w (.channel index call) w
  | channel (index : ℕ) (call : Call) (c : OpenChannel H) (reply : Reply)
      (channel' : SecureChannel RatchetKey) (hindex : w.channels[index]? = some c)
      (hstep : callStep P (RatchetKey.ops P) c.endpoint.channel call = (reply, channel')) :
      WorldEffect P w (.channel index call) (w.record index c call reply channel')

theorem worldStep_effect (P : Primitives) (w : World H) (call : WorldCall H) :
    WorldEffect P w call (worldStep P w call).2 := by
  cases call with
  | handshake call nPaths => exact .handshake call nPaths
  | channel index call =>
      rw [worldStep]
      cases hindex : w.channels[index]? with
      | none => exact .noChannel index call hindex
      | some c => exact .channel index call c _ _ hindex rfl

theorem own_runs_step {P : Primitives} {w w' : World H} {call : WorldCall H}
    (heffect : WorldEffect P w call w') (h : ∀ c ∈ w.channels, c.OwnRun P) :
    ∀ c ∈ w'.channels, c.OwnRun P := by
  cases heffect with
  | handshake call nPaths =>
      intro c hc
      rcases List.mem_append.1 hc with hold | hnew
      · exact h c hold
      · obtain ⟨ending, -, rfl⟩ := Option.map_eq_some_iff.1 (Option.mem_toList.1 hnew)
        exact Endpoint.OwnRun.new P _ _ _
  | noChannel index call hindex => exact h
  | channel index call c reply channel' hindex hstep =>
      intro d hd
      rcases List.mem_or_eq_of_mem_set hd with hold | rfl
      · exact h d hold
      · exact (h c (List.mem_of_getElem? hindex)).record hstep

/-! ## The two projections -/

/-- The handshake call of a call. -/
def WorldCall.handshake? : WorldCall H → Option (HandshakeCall H)
  | .handshake call _ => some call
  | .channel _ _ => none

/-- The handshake calls of a run. -/
def handshakeCalls (calls : List (WorldCall H)) : List (HandshakeCall H) :=
  calls.filterMap WorldCall.handshake?

theorem handshakes_step (P : Primitives) (w : World H) (call : WorldCall H) :
    (worldStep P w call).2.handshakes =
      final handshakeStep w.handshakes call.handshake?.toList := by
  have heffect := worldStep_effect P w call
  generalize (worldStep P w call).2 = w' at heffect ⊢
  cases heffect with
  | handshake call nPaths => rfl
  | noChannel index call hindex => rfl
  | channel index call c reply channel' hindex hstep => rfl

theorem sessions_step (P : Primitives) (w : World H) (call : WorldCall H) :
    (worldStep P w call).2.channels.map OpenChannel.session =
      w.channels.map OpenChannel.session ++
        endings (trace handshakeStep w.handshakes call.handshake?.toList) := by
  have heffect := worldStep_effect P w call
  generalize (worldStep P w call).2 = w' at heffect ⊢
  cases heffect with
  | handshake call nPaths =>
      rw [World.handshake, List.map_append]
      congr 1
      change _ = ([event handshakeStep w.handshakes call] : List _).filterMap ending?
      cases hending : ending? (event handshakeStep w.handshakes call) with
      | none => rw [List.filterMap_cons_none hending]; rfl
      | some ending => rw [List.filterMap_cons_some hending]; rfl
  | noChannel index call hindex => exact (List.append_nil _).symm
  | channel index call c reply channel' hindex hstep =>
      obtain ⟨hlt, rfl⟩ := List.getElem?_eq_some_iff.1 hindex
      have hlt' : index < (w.channels.map OpenChannel.session).length := by
        rwa [List.length_map]
      have hself : (w.channels.map OpenChannel.session).set index
          (w.channels.map OpenChannel.session)[index] =
            w.channels.map OpenChannel.session := List.set_getElem_self hlt'
      rw [List.getElem_map] at hself
      rw [World.record, List.map_set]
      exact hself.trans (List.append_nil _).symm

theorem handshakes_run (P : Primitives) (calls : List (WorldCall H)) :
    (runWorld P calls).handshakes =
      final handshakeStep HandshakeWorld.empty (handshakeCalls calls) := by
  induction calls using List.reverseRecOn with
  | nil => rfl
  | append_singleton calls call ih =>
      rw [runWorld, final_concat, handshakes_step, handshakeCalls, filterMap_concat, final_append]
      exact congrArg (final handshakeStep · call.handshake?.toList) ih

/-- The channels are those of the sessions that have ended. -/
theorem sessions_run (P : Primitives) (calls : List (WorldCall H)) :
    (runWorld P calls).channels.map OpenChannel.session =
      endings (handshakeTrace (handshakeCalls calls)) := by
  induction calls using List.reverseRecOn with
  | nil => rfl
  | append_singleton calls call ih =>
      have hhandshakes := handshakes_run P calls
      rw [runWorld] at hhandshakes
      rw [runWorld, final_concat, sessions_step, handshakeCalls, filterMap_concat,
        handshakeTrace, trace_append, endings_append, hhandshakes]
      exact congrArg (· ++ _) ih

/-- Each channel is where its own calls lead. -/
theorem own_runs (P : Primitives) (calls : List (WorldCall H)) :
    ∀ c ∈ (runWorld P calls).channels, c.OwnRun P := by
  induction calls using List.reverseRecOn with
  | nil => exact fun c hc => absurd hc List.not_mem_nil
  | append_singleton calls call ih =>
      rw [runWorld, final_concat]
      exact own_runs_step (worldStep_effect P (runWorld P calls) call) ih

/-! ## The events of a channel -/

/-- The record of a channel; it is empty before the channel is opened. -/
def World.eventsAt (w : World H) (index : ℕ) : List (ChannelEvent RatchetKey) :=
  (w.channels[index]?.map fun c => c.endpoint.events).getD []

/-- What an event of the world is at a channel. -/
def channelEvent? (P : Primitives) (index : ℕ) (e : WorldEvent H) :
    Option (ChannelEvent RatchetKey) :=
  match e.input with
  | .handshake _ _ => none
  | .channel i call =>
      if i = index then
        e.before.channels[index]?.map fun c =>
          event (callStep P (RatchetKey.ops P)) c.endpoint.channel call
      else none

theorem World.eventsAt_eq {w : World H} {index : ℕ} {c : OpenChannel H}
    (h : w.channels[index]? = some c) : w.eventsAt index = c.endpoint.events := by
  rw [World.eventsAt, h]
  rfl

theorem eventsAt_step (P : Primitives) (w : World H) (call : WorldCall H) (index : ℕ) :
    (worldStep P w call).2.eventsAt index =
      w.eventsAt index ++ (channelEvent? P index (event (worldStep P) w call)).toList := by
  cases call with
  | handshake call nPaths =>
      -- A channel that is opened has no record yet.
      rw [channelEvent?, event, Option.toList_none, List.append_nil, World.eventsAt,
        World.eventsAt]
      change (Option.map _ (w.handshake call nPaths).channels[index]?).getD [] = _
      rw [World.handshake]
      cases ending? (event handshakeStep w.handshakes call) with
      | none => rw [Option.map_none, Option.toList_none, List.append_nil]
      | some ending =>
          rw [Option.map_some, Option.toList_some, List.getElem?_append]
          split_ifs with hlt
          · rfl
          · rw [List.getElem?_eq_none (Nat.le_of_not_lt hlt)]
            cases h : [OpenChannel.new nPaths ending][index - w.channels.length]? with
            | none => rfl
            | some c =>
                rw [List.mem_singleton.1 (List.mem_of_getElem? h)]
                rfl
  | channel i call =>
      rw [channelEvent?, event]
      dsimp only
      rw [worldStep]
      split_ifs with hi
      · subst hi
        cases hindex : w.channels[i]? with
        | none => rw [Option.map_none, Option.toList_none, List.append_nil]
        | some c =>
            have hlt := (List.getElem?_eq_some_iff.1 hindex).1
            rw [World.eventsAt_eq hindex, World.eventsAt_eq (List.getElem?_set_self hlt)]
            rfl
      · rw [Option.toList_none, List.append_nil]
        cases hindex : w.channels[i]? with
        | none => rfl
        | some c =>
            rw [World.eventsAt, World.eventsAt]
            exact congrArg (fun found => (Option.map _ found).getD []) (List.getElem?_set_ne hi)

/-- The record of a channel is read off the run. -/
theorem eventsAt_run (P : Primitives) (calls : List (WorldCall H)) (index : ℕ) :
    (runWorld P calls).eventsAt index =
      (worldTrace P calls).filterMap (channelEvent? P index) := by
  induction calls using List.reverseRecOn with
  | nil => rfl
  | append_singleton calls call ih =>
      rw [runWorld, final_concat, eventsAt_step, worldTrace, trace_concat, filterMap_concat]
      exact congrArg (· ++ _) ih

end NullPath
