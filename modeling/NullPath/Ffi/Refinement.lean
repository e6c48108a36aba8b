import NullPath.Ffi.Handles
import NullPath.Transition.Refinement
import NullPath.World.Basic

/-!
# A run of the C ABI is a run of the crate

Behind its own checks, a call of the ABI makes one call of the crate or none
(`AbiCall.crateCall?`). An initiator handle stands for the session under its number and a
channel handle for the channel under its number (`Abstracts`), as long as the box is live;
the crate's world keeps what the host has freed. Answering every call of the ABI with the
call of the crate behind it keeps this relation (`abi_simulates`). No call of the crate is
behind the use of a dead pointer: such a use is undefined, and what the relation says of the
source is about the runs without one (`HostRun`).
-/

namespace NullPath

open Transition

variable {H : HandshakePrimitives} {P : Primitives}

/-- The call of the crate that a call makes behind its own checks. -/
def AbiCall.crateCall? (world : AbiWorld H) : AbiCall → Option (WorldCall H)
  | .abiVersion => none
  | .generateIdentityKeypair _ _ _ => none
  | .initiatorInitiate coins initPriv respPub outState outPayload outPayloadLen => do
      let privBytes ← initPriv
      let pubBytes ← respPub
      let _ ← outState
      let _ ← outPayload
      let len ← outPayloadLen
      if len < initPayloadLen then none
      else
        let pubKey ← VerifyingKey.fromBytes H.toKeyFormat pubBytes
        some (.handshake (.initiate ⟨privBytes⟩ pubKey coins) 0)
  | .responderRespond coins respPriv expectedInitPub initPayload outPayload outPayloadLen
      outChannel nPaths => do
      let privBytes ← respPriv
      let initPayload ← initPayload
      let _ ← outPayload
      let len ← outPayloadLen
      let _ ← outChannel
      if initPayload.length ≠ initPayloadLen then none
      else if len < respPayloadLen then none
      else if nPaths = 0 ∨ nPaths > maxNPaths then none
      else
        let expected ← expectedPub H.toKeyFormat expectedInitPub
        let initiation ← (HandshakeInitPayload.fromBytes H.toKeyFormat initPayload).toOption
        some (.handshake (.respond ⟨privBytes⟩ expected initiation coins) nPaths)
  | .initiatorFinalize state respPayload outChannel nPaths => do
      let handle ← state
      let respPayload ← respPayload
      let _ ← outChannel
      let _ ← world.initiators.boxes handle
      if respPayload.length ≠ respPayloadLen then none
      else if nPaths = 0 ∨ nPaths > maxNPaths then none
      else
        let response ← (HandshakeResponsePayload.fromBytes H.toKeyFormat respPayload).toOption
        some (.handshake (.finalize handle response) nPaths)
  | .channelSend channel coins payload messageId outEnvelopes outEnvelopesLen => do
      let handle ← channel
      let _ ← world.channels.boxes handle
      let payload ← payload
      let messageId ← messageId
      let _ ← outEnvelopes
      let _ ← outEnvelopesLen
      if payload.length > maxPayloadSize then none
      else if messageId.length > maxMessageIdLen then none
      else some (.channel handle (.send ⟨coins, payload, messageId⟩))
  | .channelReceive channel now envelopes seq messageId outPayload outPayloadLen => do
      let handle ← channel
      let _ ← world.channels.boxes handle
      let envelopes ← envelopes
      let messageId ← messageId
      let _ ← outPayload
      let _ ← outPayloadLen
      if messageId.length > maxMessageIdLen then none
      else if InvalidBufferLen envelopes.length then none
      else some (.channel handle (.receive ⟨⟨chunkEnvelopes envelopes, seq, messageId⟩, now⟩))
  | .initiatorStateFree _ => none
  | .channelFree _ => none

/-- Behind its length checks, `decoypath_channel_send` leaves the channel where `send`
leaves it. -/
theorem channel_channelSend {κ : Type*} {K : KeyOps κ} (channel : SecureChannel κ)
    (coins : SendCoins) (payload messageId out : List UInt8) (outLen : ℕ) :
    (channelSend P K channel coins payload messageId out outLen).channel =
      if payload.length > maxPayloadSize then channel
      else if messageId.length > maxMessageIdLen then channel
      else (callStep P K channel (.send ⟨coins, payload, messageId⟩)).2 := by
  unfold channelSend
  split_ifs
  · rfl
  · rfl
  · rw [callStep]
    cases channel.send P K coins payload messageId with
    | mk result channel' =>
        cases result with
        | error e => rfl
        | ok envelopes =>
            dsimp only
            split_ifs <;> rfl

theorem channel_channelReceive {κ : Type*} {K : KeyOps κ} (channel : SecureChannel κ)
    (now : Instant) (envelopes : List UInt8) (seq : UInt64) (messageId out : List UInt8)
    (outLen : ℕ) :
    (channelReceive P K channel now envelopes seq messageId out outLen).channel =
      if messageId.length > maxMessageIdLen then channel
      else if InvalidBufferLen envelopes.length then channel
      else (callStep P K channel
        (.receive ⟨⟨chunkEnvelopes envelopes, seq, messageId⟩, now⟩)).2 := by
  unfold channelReceive
  split_ifs
  · rfl
  · rfl
  · rw [callStep]
    cases channel.receive P K now (chunkEnvelopes envelopes) seq messageId with
    | mk result channel' =>
        cases result with
        | error e => rfl
        | ok payload =>
            dsimp only
            split_ifs <;> rfl

/-- The calls of the crate behind the calls of a host. -/
def crateCalls (H : HandshakePrimitives) (P : Primitives) (calls : List AbiCall) :
    List (WorldCall H) :=
  answers (abiStep P) AbiCall.crateCall? (AbiWorld.new H) calls

/-- The live boxes are the sessions and the channels under their numbers. -/
structure Abstracts (world : AbiWorld H) (w : World H) : Prop where
  sessions_length : world.initiators.allocated = w.handshakes.sessions.length
  channels_length : world.channels.allocated = w.channels.length
  session : ∀ {handle state}, world.initiators.boxes handle = some state →
    w.handshakes.openSession handle = some state
  channel : ∀ {handle box}, world.channels.boxes handle = some box →
    ∃ c, w.channels[handle]? = some c ∧ c.endpoint.channel = box

namespace Abstracts

variable {world : AbiWorld H} {w : World H}

theorem new (H : HandshakePrimitives) : Abstracts (AbiWorld.new H) World.empty where
  sessions_length := rfl
  channels_length := rfl
  session h := by cases h
  channel h := by cases h

theorem releaseInitiator (h : Abstracts world w) (handle : ℕ) :
    Abstracts (world.releaseInitiator handle) w := by
  refine ⟨h.sessions_length, h.channels_length, fun {handle' state} hbox => ?_, h.channel⟩
  change Function.update world.initiators.boxes handle none handle' = some state at hbox
  by_cases heq : handle' = handle
  · rw [heq, Function.update_self] at hbox
    cases hbox
  · rw [Function.update_of_ne heq] at hbox
    exact h.session hbox

theorem releaseChannel (h : Abstracts world w) (handle : ℕ) :
    Abstracts (world.releaseChannel handle) w := by
  refine ⟨h.sessions_length, h.channels_length, h.session, fun {handle' box} hbox => ?_⟩
  change Function.update world.channels.boxes handle none handle' = some box at hbox
  by_cases heq : handle' = handle
  · rw [heq, Function.update_self] at hbox
    cases hbox
  · rw [Function.update_of_ne heq] at hbox
    exact h.channel hbox

theorem boxInitiator (h : Abstracts world w) (priv : IdentityPrivateKey)
    (responder : VerifyingKey H.toKeyFormat) (coins : HandshakeCoins) (nPaths : ℕ) :
    Abstracts (world.boxInitiator (initiate H priv responder coins).1)
      (w.handshake (.initiate priv responder coins) nPaths) := by
  have hchannels : (w.handshake (.initiate priv responder coins) nPaths).channels = w.channels :=
    List.append_nil _
  refine ⟨?_, h.channels_length.trans (congrArg List.length hchannels).symm,
    fun {handle state} hbox => ?_, fun {handle box} hbox => ?_⟩
  · change world.initiators.allocated + 1 = (w.handshakes.sessions ++ [some _]).length
    rw [List.length_append, h.sessions_length]
    rfl
  · change Function.update world.initiators.boxes world.initiators.allocated _ handle =
      some state at hbox
    rw [HandshakeWorld.openSession_eq_some_iff]
    change (w.handshakes.sessions ++ [some _])[handle]? = some (some state)
    by_cases heq : handle = world.initiators.allocated
    · rw [heq, Function.update_self] at hbox
      cases hbox
      rw [heq, h.sessions_length]
      exact List.getElem?_concat_length
    · rw [Function.update_of_ne heq] at hbox
      have hopen := HandshakeWorld.openSession_eq_some_iff.1 (h.session hbox)
      rw [List.getElem?_append_left (List.getElem?_eq_some_iff.1 hopen).1]
      exact hopen
  · rw [hchannels]
    exact h.channel hbox

theorem boxChannel (h : Abstracts world w) {w' : World H} (ending : LastCall H × RootKey)
    (nPaths : ℕ) (hsessions : w'.handshakes.sessions.length = w.handshakes.sessions.length)
    (hopen : ∀ {handle state}, world.initiators.boxes handle = some state →
      w'.handshakes.openSession handle = some state)
    (hchannels : w'.channels = w.channels ++ [OpenChannel.new nPaths ending]) :
    Abstracts (world.boxChannel ending.2 nPaths) w' := by
  refine ⟨h.sessions_length.trans hsessions.symm, ?_, hopen, fun {handle box} hbox => ?_⟩
  · rw [hchannels, List.length_append]
    exact congrArg (· + 1) h.channels_length
  · change Function.update world.channels.boxes world.channels.allocated _ handle = some box at hbox
    rw [hchannels]
    by_cases heq : handle = world.channels.allocated
    · rw [heq, Function.update_self] at hbox
      cases hbox
      rw [heq, h.channels_length]
      exact ⟨_, List.getElem?_concat_length, rfl⟩
    · rw [Function.update_of_ne heq] at hbox
      obtain ⟨c, hc, hchannel⟩ := h.channel hbox
      rw [List.getElem?_append_left (List.getElem?_eq_some_iff.1 hc).1]
      exact ⟨c, hc, hchannel⟩

theorem setChannel (h : Abstracts world w) {handle : ℕ} {box : SecureChannel RatchetKey}
    (hbox : world.channels.boxes handle = some box) (call : Call) :
    Abstracts (world.setChannel handle (callStep P (RatchetKey.ops P) box call).2)
      (worldStep P w (.channel handle call)).2 := by
  obtain ⟨c, hc, rfl⟩ := h.channel hbox
  rw [worldStep, hc]
  refine ⟨h.sessions_length, ?_, h.session, fun {handle' box'} hbox' => ?_⟩
  · exact h.channels_length.trans (List.length_set).symm
  · change Function.update world.channels.boxes handle _ handle' = some box' at hbox'
    change ∃ d, (w.channels.set handle _)[handle']? = some d ∧ _
    by_cases heq : handle' = handle
    · subst heq
      rw [Function.update_self] at hbox'
      cases hbox'
      exact ⟨_, List.getElem?_set_self (List.getElem?_eq_some_iff.1 hc).1, rfl⟩
    · rw [Function.update_of_ne heq] at hbox'
      rw [List.getElem?_set_ne (Ne.symm heq)]
      exact h.channel hbox'

theorem setChannel_same (h : Abstracts world w) {handle : ℕ} {box : SecureChannel RatchetKey}
    (hbox : world.channels.boxes handle = some box) :
    Abstracts (world.setChannel handle box) w := by
  have hboxes : Function.update world.channels.boxes handle (some box) = world.channels.boxes :=
    hbox ▸ Function.update_eq_self handle world.channels.boxes
  refine ⟨h.sessions_length, h.channels_length, h.session, fun {handle' box'} hbox' => ?_⟩
  change Function.update world.channels.boxes handle (some box) handle' = some box' at hbox'
  rw [hboxes] at hbox'
  exact h.channel hbox'

theorem consume (h : Abstracts world w) (handle : ℕ) {handle' : ℕ} {state : InitiatorState H}
    (hbox : (world.releaseInitiator handle).initiators.boxes handle' = some state) :
    (w.handshakes.sessions.set handle none)[handle']? = some (some state) := by
  change Function.update world.initiators.boxes handle none handle' = some state at hbox
  by_cases heq : handle' = handle
  · rw [heq, Function.update_self] at hbox
    cases hbox
  · rw [Function.update_of_ne heq] at hbox
    rw [List.getElem?_set_ne (Ne.symm heq)]
    exact HandshakeWorld.openSession_eq_some_iff.1 (h.session hbox)

theorem refused (h : Abstracts world w) {priv : IdentityPrivateKey}
    {expected : Option (VerifyingKey H.toKeyFormat)}
    {initiation : HandshakeInitPayload H.toKeyFormat} {coins : HandshakeCoins}
    {e : HandshakeError} (hrespond : respond H priv expected initiation coins = .error e)
    (nPaths : ℕ) :
    Abstracts world (w.handshake (.respond priv expected initiation coins) nPaths) := by
  have hending : ending? (event handshakeStep w.handshakes
      (.respond priv expected initiation coins)) = none := by
    simp only [ending?, event, handshakeStep, hrespond]
  have hchannels : (w.handshake (.respond priv expected initiation coins) nPaths).channels =
      w.channels := by
    rw [World.handshake, hending]
    exact List.append_nil _
  refine ⟨h.sessions_length, h.channels_length.trans (congrArg List.length hchannels).symm,
    h.session, ?_⟩
  rw [hchannels]
  exact h.channel

theorem answered (h : Abstracts world w) {priv : IdentityPrivateKey}
    {expected : Option (VerifyingKey H.toKeyFormat)}
    {initiation : HandshakeInitPayload H.toKeyFormat} {coins : HandshakeCoins}
    {result : HandshakeResponsePayload H.toKeyFormat × RootKey}
    (hrespond : respond H priv expected initiation coins = .ok result) (nPaths : ℕ) :
    Abstracts (world.boxChannel result.2 nPaths)
      (w.handshake (.respond priv expected initiation coins) nPaths) := by
  have hending : ending? (event handshakeStep w.handshakes
      (.respond priv expected initiation coins)) =
        some (.respond priv expected initiation coins, result.2) := by
    simp only [ending?, event, handshakeStep, hrespond]
  refine h.boxChannel (.respond priv expected initiation coins, result.2) nPaths rfl h.session ?_
  rw [World.handshake, hending]
  rfl

theorem handshakeStep_open {w : HandshakeWorld H} {handle : ℕ} {self : InitiatorState H}
    (hopen : w.openSession handle = some self)
    (response : HandshakeResponsePayload H.toKeyFormat) :
    handshakeStep w (.finalize handle response) =
      (.finalized (self.finalize response), ⟨w.sessions.set handle none, w.signed ++ []⟩) := by
  rw [handshakeStep, hopen]
  rfl

theorem notFinalized (h : Abstracts world w) {handle : ℕ} {self : InitiatorState H}
    (hbox : world.initiators.boxes handle = some self)
    {response : HandshakeResponsePayload H.toKeyFormat} {e : HandshakeError}
    (hfinalize : self.finalize response = .error e) (nPaths : ℕ) :
    Abstracts (world.releaseInitiator handle)
      (w.handshake (.finalize handle response) nPaths) := by
  have hstep := handshakeStep_open (h.session hbox) response
  rw [hfinalize] at hstep
  have hchannels : (w.handshake (.finalize handle response) nPaths).channels = w.channels := by
    rw [World.handshake, event, hstep]
    exact List.append_nil _
  have hsessions : (w.handshake (.finalize handle response) nPaths).handshakes.sessions =
      w.handshakes.sessions.set handle none := by
    rw [World.handshake, hstep]
  refine ⟨?_, h.channels_length.trans (congrArg List.length hchannels).symm,
    fun {handle' state} hbox' => ?_, ?_⟩
  · rw [hsessions, List.length_set]
    exact h.sessions_length
  · rw [HandshakeWorld.openSession_eq_some_iff, hsessions]
    exact h.consume handle hbox'
  · rw [hchannels]
    exact h.channel

theorem finalized (h : Abstracts world w) {handle : ℕ} {self : InitiatorState H}
    (hbox : world.initiators.boxes handle = some self)
    {response : HandshakeResponsePayload H.toKeyFormat} {rootKey : RootKey}
    (hfinalize : self.finalize response = .ok rootKey) (nPaths : ℕ) :
    Abstracts ((world.releaseInitiator handle).boxChannel rootKey nPaths)
      (w.handshake (.finalize handle response) nPaths) := by
  have hstep := handshakeStep_open (h.session hbox) response
  rw [hfinalize] at hstep
  have hsessions : (w.handshake (.finalize handle response) nPaths).handshakes.sessions =
      w.handshakes.sessions.set handle none := by
    rw [World.handshake, hstep]
  have hending : ending? (event handshakeStep w.handshakes (.finalize handle response)) =
      some (.finalize self response, rootKey) :=
    Finalizes.ending ⟨rfl, h.session hbox, congrArg Prod.fst hstep⟩
  refine (h.releaseInitiator handle).boxChannel (.finalize self response, rootKey) nPaths ?_
    (fun {handle' state} hbox' => ?_) ?_
  · rw [hsessions, List.length_set]
  · rw [HandshakeWorld.openSession_eq_some_iff, hsessions]
    exact h.consume handle hbox'
  · rw [World.handshake, hending]
    rfl

theorem stepInitiate (h : Abstracts world w) (coins : HandshakeCoins)
    (initPriv respPub : Ptr (Bytes 32)) (outState outPayload : Ptr Unit)
    (outPayloadLen : Ptr ℕ) :
    let call := AbiCall.initiatorInitiate coins initPriv respPub outState outPayload outPayloadLen
    Abstracts (abiStep P world call).2
      (final (worldStep P) w (call.crateCall? world).toList) := by
  intro call
  cases initPriv with
  | none => exact h
  | some privBytes =>
  cases respPub with
  | none => exact h
  | some pubBytes =>
  cases outState with
  | none => exact h
  | some _ =>
  cases outPayload with
  | none => exact h
  | some _ =>
  cases outPayloadLen with
  | none => exact h
  | some len =>
  simp only [call, abiStep, decoypathInitiatorInitiate, AbiCall.crateCall?, Option.bind_eq_bind,
    Option.bind_some]
  split_ifs
  · exact h
  · cases VerifyingKey.fromBytes H.toKeyFormat pubBytes with
    | none => exact h
    | some pubKey => exact h.boxInitiator ⟨privBytes⟩ pubKey coins 0

theorem stepRespond (h : Abstracts world w) (coins : HandshakeCoins)
    (respPriv expectedInitPub : Ptr (Bytes 32)) (initPayload : Ptr (List UInt8))
    (outPayload : Ptr Unit) (outPayloadLen : Ptr ℕ) (outChannel : Ptr Unit) (nPaths : ℕ) :
    let call := AbiCall.responderRespond coins respPriv expectedInitPub initPayload outPayload
      outPayloadLen outChannel nPaths
    Abstracts (abiStep P world call).2
      (final (worldStep P) w (call.crateCall? world).toList) := by
  intro call
  cases respPriv with
  | none => exact h
  | some privBytes =>
  cases initPayload with
  | none => exact h
  | some initPayload =>
  cases outPayload with
  | none => exact h
  | some _ =>
  cases outPayloadLen with
  | none => exact h
  | some len =>
  cases outChannel with
  | none => exact h
  | some _ =>
  simp only [call, abiStep, decoypathResponderRespond, AbiCall.crateCall?, Option.bind_eq_bind,
    Option.bind_some]
  split_ifs
  · exact h
  · exact h
  · exact h
  · cases expectedPub H.toKeyFormat expectedInitPub with
    | none => exact h
    | some expected =>
        cases HandshakeInitPayload.fromBytes H.toKeyFormat initPayload with
        | error e => exact h
        | ok initiation =>
            simp only [Except.toOption, Option.bind_some, Option.toList_some]
            cases hrespond : respond H ⟨privBytes⟩ expected initiation coins with
            | error e => exact h.refused hrespond nPaths
            | ok result => exact h.answered hrespond nPaths

theorem stepFinalize (h : Abstracts world w) (state : Ptr ℕ) (respPayload : Ptr (List UInt8))
    (outChannel : Ptr Unit) (nPaths : ℕ) :
    let call := AbiCall.initiatorFinalize state respPayload outChannel nPaths
    Abstracts (abiStep P world call).2
      (final (worldStep P) w (call.crateCall? world).toList) := by
  intro call
  cases state with
  | none => exact h
  | some handle =>
  cases respPayload with
  | none => exact h
  | some respPayload =>
  cases outChannel with
  | none => exact h
  | some _ =>
  simp only [call, abiStep, decoypathInitiatorFinalize, AbiCall.crateCall?, Option.bind_eq_bind,
    Option.bind_some]
  cases hbox : world.initiators.boxes handle with
  | none => exact h.releaseInitiator handle
  | some self =>
      simp only [Option.bind_some]
      split_ifs
      · exact h.releaseInitiator handle
      · exact h.releaseInitiator handle
      · cases HandshakeResponsePayload.fromBytes H.toKeyFormat respPayload with
        | error e => exact h.releaseInitiator handle
        | ok response =>
            simp only [Except.toOption, Option.bind_some, Option.toList_some]
            cases hfinalize : self.finalize response with
            | error e => exact h.notFinalized hbox hfinalize nPaths
            | ok rootKey => exact h.finalized hbox hfinalize nPaths

theorem stepSend (h : Abstracts world w) (channel : Ptr ℕ) (coins : SendCoins)
    (payload messageId outEnvelopes : Ptr (List UInt8)) (outEnvelopesLen : Ptr ℕ) :
    let call := AbiCall.channelSend channel coins payload messageId outEnvelopes outEnvelopesLen
    Abstracts (abiStep P world call).2
      (final (worldStep P) w (call.crateCall? world).toList) := by
  intro call
  cases channel with
  | none => exact h
  | some handle =>
  simp only [call, abiStep, onChannel, AbiCall.crateCall?, Option.bind_eq_bind, Option.bind_some]
  cases hbox : world.channels.boxes handle with
  | none => exact h
  | some box =>
  cases payload with
  | none => exact h
  | some payload =>
  cases messageId with
  | none => exact h
  | some messageId =>
  cases outEnvelopes with
  | none => exact h
  | some out =>
  cases outEnvelopesLen with
  | none => exact h
  | some outLen =>
  simp only [Option.bind_some, decoypathChannelSend, deliver, channel_channelSend]
  split_ifs
  · exact h.setChannel_same hbox
  · exact h.setChannel_same hbox
  · exact h.setChannel hbox _

theorem stepReceive (h : Abstracts world w) (channel : Ptr ℕ) (now : Instant)
    (envelopes : Ptr (List UInt8)) (seq : UInt64) (messageId outPayload : Ptr (List UInt8))
    (outPayloadLen : Ptr ℕ) :
    let call := AbiCall.channelReceive channel now envelopes seq messageId outPayload
      outPayloadLen
    Abstracts (abiStep P world call).2
      (final (worldStep P) w (call.crateCall? world).toList) := by
  intro call
  cases channel with
  | none => exact h
  | some handle =>
  simp only [call, abiStep, onChannel, AbiCall.crateCall?, Option.bind_eq_bind, Option.bind_some]
  cases hbox : world.channels.boxes handle with
  | none => exact h
  | some box =>
  cases envelopes with
  | none => exact h
  | some envelopes =>
  cases messageId with
  | none => exact h
  | some messageId =>
  cases outPayload with
  | none => exact h
  | some out =>
  cases outPayloadLen with
  | none => exact h
  | some outLen =>
  simp only [Option.bind_some, decoypathChannelReceive, deliver, channel_channelReceive]
  split_ifs
  · exact h.setChannel_same hbox
  · exact h.setChannel_same hbox
  · exact h.setChannel hbox _

end Abstracts

/-- Every call of the ABI is answered by the call of the crate behind it. -/
theorem abi_simulates (H : HandshakePrimitives) (P : Primitives) :
    Simulation (abiStep P) (worldStep P) (Abstracts (H := H)) AbiCall.crateCall? := by
  intro world w call h
  cases call with
  | abiVersion => exact h
  | generateIdentityKeypair secret outPriv outPub => exact h
  | initiatorInitiate coins initPriv respPub outState outPayload outPayloadLen =>
      exact h.stepInitiate coins initPriv respPub outState outPayload outPayloadLen
  | responderRespond coins respPriv expectedInitPub initPayload outPayload outPayloadLen
      outChannel nPaths =>
      exact h.stepRespond coins respPriv expectedInitPub initPayload outPayload outPayloadLen
        outChannel nPaths
  | initiatorFinalize state respPayload outChannel nPaths =>
      exact h.stepFinalize state respPayload outChannel nPaths
  | channelSend channel coins payload messageId outEnvelopes outEnvelopesLen =>
      exact h.stepSend channel coins payload messageId outEnvelopes outEnvelopesLen
  | channelReceive channel now envelopes seq messageId outPayload outPayloadLen =>
      exact h.stepReceive channel now envelopes seq messageId outPayload outPayloadLen
  | initiatorStateFree state =>
      cases state with
      | none => exact h
      | some handle =>
          simp only [abiStep, decoypathInitiatorStateFree]
          cases world.initiators.boxes handle with
          | none => exact h.releaseInitiator handle
          | some state => exact h.releaseInitiator handle
  | channelFree channel =>
      cases channel with
      | none => exact h
      | some handle =>
          simp only [abiStep, decoypathChannelFree]
          cases world.channels.boxes handle with
          | none => exact h.releaseChannel handle
          | some channel => exact h.releaseChannel handle

end NullPath
