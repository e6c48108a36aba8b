import NullPath.Ffi.Basic
import NullPath.Handshake.Completion
import NullPath.Transition.Ownership

/-!
# The handles of the C ABI

The host holds initiator states and channels as opaque pointers. A pointer that
`Box::into_raw` returned is the number of its box; numbers are not used again, so
a handle names one box for good.

`abiStep` runs one of the nine functions. A host that follows the header gives each
initiator handle to one `decoypath_initiator_finalize` or
`decoypath_initiator_state_free` and does not use it again. The header says that
`finalize` always consumes the handle, but its null checks come before it takes
ownership: `handles_released_iff` says that the handles are released exactly once
in the runs in which no null pointer goes with a handle into `finalize`. No run uses
a dead pointer (`replies_defined`).
-/

namespace NullPath

open Transition

variable {H : HandshakePrimitives}

/-- The boxes behind the opaque pointers. -/
structure AbiWorld (H : HandshakePrimitives) where
  initiators : Heap (InitiatorState H)
  channels : Heap (SecureChannel RatchetKey)

namespace AbiWorld

/-- The world before the first call. -/
def new (H : HandshakePrimitives) : AbiWorld H :=
  { initiators := Heap.empty _, channels := Heap.empty _ }

/-- `Box::into_raw` of a new initiator state. -/
def boxInitiator (world : AbiWorld H) (state : InitiatorState H) : AbiWorld H :=
  { world with initiators := world.initiators.alloc state }

/-- `Box::from_raw` of an initiator handle, with the drop at the end of the call. -/
def releaseInitiator (world : AbiWorld H) (handle : ℕ) : AbiWorld H :=
  { world with initiators := world.initiators.free handle }

/-- `Box::into_raw` of a new channel. -/
def boxChannel (world : AbiWorld H) (rootKey : RootKey) (nPaths : ℕ) : AbiWorld H :=
  { world with
    channels := world.channels.alloc (SecureChannel.new ⟨rootKey.bytes⟩ nPaths) }

/-- A channel call leaves its channel in its box. -/
def setChannel (world : AbiWorld H) (handle : ℕ) (channel : SecureChannel RatchetKey) :
    AbiWorld H :=
  { world with channels := world.channels.set handle channel }

/-- `Box::from_raw` of a channel. -/
def releaseChannel (world : AbiWorld H) (handle : ℕ) : AbiWorld H :=
  { world with channels := world.channels.free handle }

end AbiWorld

/-- What a call returns and writes. `undefined` stands for the use of a pointer that
is not live. -/
inductive AbiReply
  | version (n : ℤ)
  | keypair (code : ReturnCode) (keys : Option (Bytes 32 × Bytes 32))
  | initiated (code : ReturnCode) (outPayloadLen : Ptr ℕ)
      (opened : Option (ℕ × Bytes initPayloadLen))
  | responded (code : ReturnCode) (outPayloadLen : Ptr ℕ)
      (answered : Option (ℕ × Bytes respPayloadLen))
  | finalized (code : ReturnCode) (channel : Option ℕ)
  | delivered (code : ReturnCode) (written : Option (List UInt8 × ℕ))
  | freed
  | undefined
  deriving DecidableEq

/-! ## The functions -/

/-- `decoypath_abi_version`. -/
def decoypathAbiVersion : AbiReply := .version 1

/-- `decoypath_generate_identity_keypair`, with the random bytes of the key. -/
def decoypathGenerateIdentityKeypair (H : HandshakePrimitives) (secret : Bytes 32)
    (outPriv outPub : Ptr Unit) : AbiReply :=
  match outPriv, outPub with
  | some _, some _ => .keypair .OK (some (secret, (H.verifyingKey secret).asBytes))
  | _, _ => .keypair .NULL_POINTER none

/-- `decoypath_initiator_initiate`. -/
def decoypathInitiatorInitiate (world : AbiWorld H) (coins : HandshakeCoins)
    (initPriv respPub : Ptr (Bytes 32)) (outState outPayload : Ptr Unit)
    (outPayloadLen : Ptr ℕ) : AbiReply × AbiWorld H :=
  match initPriv, respPub, outState, outPayload, outPayloadLen with
  | some privBytes, some pubBytes, some _, some _, some len =>
      if len < initPayloadLen then
        (.initiated .BUFFER_TOO_SMALL (some initPayloadLen) none, world)
      else
        match VerifyingKey.fromBytes H.toKeyFormat pubBytes with
        | none => (.initiated .INVALID_PAYLOAD (some len) none, world)
        | some pubKey =>
            let (state, payload) := initiate H ⟨privBytes⟩ pubKey coins
            (.initiated .OK (some initPayloadLen)
                (some (world.initiators.allocated, payload.toBytes)),
              world.boxInitiator state)
  | _, _, _, _, _ => (.initiated .NULL_POINTER outPayloadLen none, world)

/-- The expected initiator of `decoypath_responder_respond`: null expects nobody. -/
def expectedPub (F : KeyFormat) (expectedInitPub : Ptr (Bytes 32)) :
    Option (Option (VerifyingKey F)) :=
  match expectedInitPub with
  | none => some none
  | some bytes => (VerifyingKey.fromBytes F bytes).map some

/-- `decoypath_responder_respond`. -/
def decoypathResponderRespond (world : AbiWorld H) (coins : HandshakeCoins)
    (respPriv expectedInitPub : Ptr (Bytes 32)) (initPayload : Ptr (List UInt8))
    (outPayload : Ptr Unit) (outPayloadLen : Ptr ℕ) (outChannel : Ptr Unit) (nPaths : ℕ) :
    AbiReply × AbiWorld H :=
  match respPriv, initPayload, outPayload, outPayloadLen, outChannel with
  | some privBytes, some initPayload, some _, some len, some _ =>
      if initPayload.length ≠ initPayloadLen then
        (.responded .INVALID_PAYLOAD (some len) none, world)
      else if len < respPayloadLen then
        (.responded .BUFFER_TOO_SMALL (some respPayloadLen) none, world)
      else if nPaths = 0 ∨ nPaths > maxNPaths then
        (.responded .INVALID_PAYLOAD (some len) none, world)
      else
        match expectedPub H.toKeyFormat expectedInitPub with
        | none => (.responded .INVALID_PAYLOAD (some len) none, world)
        | some expected =>
            match HandshakeInitPayload.fromBytes H.toKeyFormat initPayload with
            | .error _ => (.responded .INVALID_PAYLOAD (some len) none, world)
            | .ok initiation =>
                match respond H ⟨privBytes⟩ expected initiation coins with
                | .error _ => (.responded .AUTHENTICATION_FAILED (some len) none, world)
                | .ok (response, rootKey) =>
                    (.responded .OK (some respPayloadLen)
                        (some (world.channels.allocated, response.toBytes)),
                      world.boxChannel rootKey nPaths)
  | _, _, _, _, _ => (.responded .NULL_POINTER outPayloadLen none, world)

/-- `decoypath_initiator_finalize`. -/
def decoypathInitiatorFinalize (world : AbiWorld H) (state : Ptr ℕ)
    (respPayload : Ptr (List UInt8)) (outChannel : Ptr Unit) (nPaths : ℕ) :
    AbiReply × AbiWorld H :=
  match state, respPayload, outChannel with
  | some handle, some respPayload, some _ =>
      -- Ownership is taken here, behind the null checks; the box is dropped on every path.
      let world' := world.releaseInitiator handle
      match world.initiators.boxes handle with
      | none => (.undefined, world')
      | some self =>
          if respPayload.length ≠ respPayloadLen then
            (.finalized .INVALID_PAYLOAD none, world')
          else if nPaths = 0 ∨ nPaths > maxNPaths then
            (.finalized .INVALID_PAYLOAD none, world')
          else
            match HandshakeResponsePayload.fromBytes H.toKeyFormat respPayload with
            | .error _ => (.finalized .INVALID_PAYLOAD none, world')
            | .ok response =>
                match self.finalize response with
                | .error _ => (.finalized .AUTHENTICATION_FAILED none, world')
                | .ok rootKey =>
                    (.finalized .OK (some world'.channels.allocated),
                      world'.boxChannel rootKey nPaths)
  | _, _, _ => (.finalized .NULL_POINTER none, world)

/-- What a call on a channel leaves in its box and in the buffers of the host. -/
def deliver (world : AbiWorld H) (handle : ℕ) :
    ReturnCode × Option (AbiResult RatchetKey) → AbiReply × AbiWorld H
  | (code, some result) =>
      (.delivered code (some (result.out, result.outLen)),
        world.setChannel handle result.channel)
  | (code, none) => (.delivered code none, world)

/-- The checks that `decoypath_channel_send` makes before it follows the channel pointer. -/
def sendChecks (payload messageId outEnvelopes : Ptr (List UInt8)) (outEnvelopesLen : Ptr ℕ) :
    Option AbiReply :=
  match payload, messageId, outEnvelopes, outEnvelopesLen with
  | some payload, some messageId, some out, some outLen =>
      if payload.length > maxPayloadSize then
        some (.delivered .INVALID_PAYLOAD (some (out, outLen)))
      else if messageId.length > maxMessageIdLen then
        some (.delivered .INVALID_MESSAGE_ID (some (out, outLen)))
      else none
  | _, _, _, _ => some (.delivered .NULL_POINTER none)

/-- The checks that `decoypath_channel_receive` makes before it follows the channel pointer. -/
def receiveChecks (envelopes messageId outPayload : Ptr (List UInt8)) (outPayloadLen : Ptr ℕ) :
    Option AbiReply :=
  match envelopes, messageId, outPayload, outPayloadLen with
  | some envelopes, some messageId, some out, some outLen =>
      if messageId.length > maxMessageIdLen then
        some (.delivered .INVALID_MESSAGE_ID (some (out, outLen)))
      else if InvalidBufferLen envelopes.length then
        some (.delivered .INVALID_PAYLOAD (some (out, outLen)))
      else none
  | _, _, _, _ => some (.delivered .NULL_POINTER none)

/-- A call on the channel behind a pointer. A dead pointer is not followed when `checks`
has an answer. -/
def onChannel (world : AbiWorld H) (channel : Ptr ℕ) (checks : Option AbiReply)
    (call : Ptr (SecureChannel RatchetKey) → ReturnCode × Option (AbiResult RatchetKey)) :
    AbiReply × AbiWorld H :=
  match channel with
  | none => (.delivered (call none).1 none, world)
  | some handle =>
      match world.channels.boxes handle with
      | none => (checks.getD .undefined, world)
      | some box => deliver world handle (call (some box))

/-- `decoypath_initiator_state_free`. -/
def decoypathInitiatorStateFree (world : AbiWorld H) (state : Ptr ℕ) : AbiReply × AbiWorld H :=
  match state with
  | none => (.freed, world)
  | some handle =>
      match world.initiators.boxes handle with
      | none => (.undefined, world.releaseInitiator handle)
      | some _ => (.freed, world.releaseInitiator handle)

/-- `decoypath_channel_free`. -/
def decoypathChannelFree (world : AbiWorld H) (channel : Ptr ℕ) : AbiReply × AbiWorld H :=
  match channel with
  | none => (.freed, world)
  | some handle =>
      match world.channels.boxes handle with
      | none => (.undefined, world.releaseChannel handle)
      | some _ => (.freed, world.releaseChannel handle)

/-! ## Calls of a host -/

/-- One call with all its arguments and the random bytes it draws. -/
inductive AbiCall
  | abiVersion
  | generateIdentityKeypair (secret : Bytes 32) (outPriv outPub : Ptr Unit)
  | initiatorInitiate (coins : HandshakeCoins) (initPriv respPub : Ptr (Bytes 32))
      (outState outPayload : Ptr Unit) (outPayloadLen : Ptr ℕ)
  | responderRespond (coins : HandshakeCoins) (respPriv expectedInitPub : Ptr (Bytes 32))
      (initPayload : Ptr (List UInt8)) (outPayload : Ptr Unit) (outPayloadLen : Ptr ℕ)
      (outChannel : Ptr Unit) (nPaths : ℕ)
  | initiatorFinalize (state : Ptr ℕ) (respPayload : Ptr (List UInt8)) (outChannel : Ptr Unit)
      (nPaths : ℕ)
  | channelSend (channel : Ptr ℕ) (coins : SendCoins)
      (payload messageId outEnvelopes : Ptr (List UInt8)) (outEnvelopesLen : Ptr ℕ)
  | channelReceive (channel : Ptr ℕ) (now : Instant) (envelopes : Ptr (List UInt8))
      (seq : UInt64) (messageId outPayload : Ptr (List UInt8)) (outPayloadLen : Ptr ℕ)
  | initiatorStateFree (state : Ptr ℕ)
  | channelFree (channel : Ptr ℕ)

/-- One call across the boundary. -/
def abiStep (P : Primitives) (world : AbiWorld H) : AbiCall → AbiReply × AbiWorld H
  | .abiVersion => (decoypathAbiVersion, world)
  | .generateIdentityKeypair secret outPriv outPub =>
      (decoypathGenerateIdentityKeypair H secret outPriv outPub, world)
  | .initiatorInitiate coins initPriv respPub outState outPayload outPayloadLen =>
      decoypathInitiatorInitiate world coins initPriv respPub outState outPayload outPayloadLen
  | .responderRespond coins respPriv expectedInitPub initPayload outPayload outPayloadLen
      outChannel nPaths =>
      decoypathResponderRespond world coins respPriv expectedInitPub initPayload outPayload
        outPayloadLen outChannel nPaths
  | .initiatorFinalize state respPayload outChannel nPaths =>
      decoypathInitiatorFinalize world state respPayload outChannel nPaths
  | .channelSend channel coins payload messageId outEnvelopes outEnvelopesLen =>
      onChannel world channel (sendChecks payload messageId outEnvelopes outEnvelopesLen)
        fun box => decoypathChannelSend P (RatchetKey.ops P) box coins payload messageId
          outEnvelopes outEnvelopesLen
  | .channelReceive channel now envelopes seq messageId outPayload outPayloadLen =>
      onChannel world channel (receiveChecks envelopes messageId outPayload outPayloadLen)
        fun box => decoypathChannelReceive P (RatchetKey.ops P) box now envelopes seq messageId
          outPayload outPayloadLen
  | .initiatorStateFree state => decoypathInitiatorStateFree world state
  | .channelFree channel => decoypathChannelFree world channel

/-- The initiator handle that a call is given. -/
def AbiCall.passes : AbiCall → Option ℕ
  | .initiatorFinalize state _ _ _ => state
  | .initiatorStateFree state => state
  | _ => none

/-- The channel that a call is given. -/
def AbiCall.channel : AbiCall → Option ℕ
  | .channelSend channel _ _ _ _ _ => channel
  | .channelReceive channel _ _ _ _ _ _ => channel
  | .channelFree channel => channel
  | _ => none

/-- No null pointer goes with a handle into `decoypath_initiator_finalize`. -/
def AbiCall.ConsumesState : AbiCall → Prop
  | .initiatorFinalize (some _) respPayload outChannel _ =>
      respPayload.isSome ∧ outChannel.isSome
  | _ => True

instance AbiCall.decidableConsumesState : ∀ call : AbiCall, Decidable call.ConsumesState
  | .initiatorFinalize (some _) _ _ _ => inferInstanceAs (Decidable (_ ∧ _))
  | .initiatorFinalize none _ _ _ => isTrue trivial
  | .abiVersion => isTrue trivial
  | .generateIdentityKeypair _ _ _ => isTrue trivial
  | .initiatorInitiate _ _ _ _ _ _ => isTrue trivial
  | .responderRespond _ _ _ _ _ _ _ _ => isTrue trivial
  | .channelSend _ _ _ _ _ _ => isTrue trivial
  | .channelReceive _ _ _ _ _ _ _ => isTrue trivial
  | .initiatorStateFree _ => isTrue trivial
  | .channelFree _ => isTrue trivial

/-! ## What a call does to the initiators -/

theorem initiate_effect (world : AbiWorld H) (coins : HandshakeCoins)
    (initPriv respPub : Ptr (Bytes 32)) (outState outPayload : Ptr Unit)
    (outPayloadLen : Ptr ℕ) :
    let result := decoypathInitiatorInitiate world coins initPriv respPub outState outPayload
      outPayloadLen
    result.1 ≠ .undefined ∧ ∃ m, m.givenBack = none ∧ Ledger.Taken m ∧
      world.initiators.Moved m result.2.initiators := by
  unfold decoypathInitiatorInitiate
  split
  · split_ifs
    · exact ⟨nofun, .idle, rfl, trivial, .idle⟩
    · split
      · exact ⟨nofun, .idle, rfl, trivial, .idle⟩
      · exact ⟨nofun, .issue world.initiators.allocated, rfl, trivial, .alloc _⟩
  · exact ⟨nofun, .idle, rfl, trivial, .idle⟩

theorem respond_effect (world : AbiWorld H) (coins : HandshakeCoins)
    (respPriv expectedInitPub : Ptr (Bytes 32)) (initPayload : Ptr (List UInt8))
    (outPayload : Ptr Unit) (outPayloadLen : Ptr ℕ) (outChannel : Ptr Unit) (nPaths : ℕ) :
    let result := decoypathResponderRespond world coins respPriv expectedInitPub initPayload
      outPayload outPayloadLen outChannel nPaths
    result.1 ≠ .undefined ∧ result.2.initiators = world.initiators := by
  unfold decoypathResponderRespond
  split
  · split_ifs
    · exact ⟨nofun, rfl⟩
    · exact ⟨nofun, rfl⟩
    · exact ⟨nofun, rfl⟩
    · split
      · exact ⟨nofun, rfl⟩
      · split
        · exact ⟨nofun, rfl⟩
        · split
          · exact ⟨nofun, rfl⟩
          · exact ⟨nofun, rfl⟩
  · exact ⟨nofun, rfl⟩

theorem onChannel_effect (world : AbiWorld H) (channel : Ptr ℕ) (checks : Option AbiReply)
    (call : Ptr (SecureChannel RatchetKey) → ReturnCode × Option (AbiResult RatchetKey)) :
    let result := onChannel world channel checks call
    ((∀ c ∈ channel, (world.channels.boxes c).isSome) → result.1 ≠ .undefined) ∧
      result.2.initiators = world.initiators := by
  cases channel with
  | none => exact ⟨nofun, rfl⟩
  | some handle =>
      unfold onChannel
      dsimp only
      cases hbox : world.channels.boxes handle with
      | none => exact ⟨fun h => absurd (h handle rfl) (by simp [hbox]), rfl⟩
      | some box =>
          dsimp only
          unfold deliver
          split
          · exact ⟨nofun, rfl⟩
          · exact ⟨nofun, rfl⟩

theorem channelFree_effect (world : AbiWorld H) (channel : Ptr ℕ) :
    let result := decoypathChannelFree world channel
    ((∀ c ∈ channel, (world.channels.boxes c).isSome) → result.1 ≠ .undefined) ∧
      result.2.initiators = world.initiators := by
  cases channel with
  | none => exact ⟨nofun, rfl⟩
  | some handle =>
      unfold decoypathChannelFree
      dsimp only
      cases hbox : world.channels.boxes handle with
      | none => exact ⟨fun h => absurd (h handle rfl) (by simp [hbox]), rfl⟩
      | some box => exact ⟨nofun, rfl⟩

theorem stateFree_effect (world : AbiWorld H) (handle : ℕ) :
    let result := decoypathInitiatorStateFree world (some handle)
    ((world.initiators.boxes handle).isSome → result.1 ≠ .undefined) ∧
      result.2.initiators = world.initiators.free handle := by
  unfold decoypathInitiatorStateFree
  dsimp only
  cases world.initiators.boxes handle with
  | none => exact ⟨nofun, rfl⟩
  | some state => exact ⟨nofun, rfl⟩

theorem finalize_effect (world : AbiWorld H) (handle : ℕ) (respPayload : List UInt8)
    (nPaths : ℕ) :
    let result := decoypathInitiatorFinalize world (some handle) (some respPayload) (some ())
      nPaths
    ((world.initiators.boxes handle).isSome → result.1 ≠ .undefined) ∧
      result.2.initiators = world.initiators.free handle := by
  unfold decoypathInitiatorFinalize
  dsimp only
  cases world.initiators.boxes handle with
  | none => exact ⟨nofun, rfl⟩
  | some self =>
      dsimp only
      split_ifs
      · exact ⟨nofun, rfl⟩
      · exact ⟨nofun, rfl⟩
      · split
        · exact ⟨nofun, rfl⟩
        · split
          · exact ⟨nofun, rfl⟩
          · exact ⟨nofun, rfl⟩

theorem finalize_null (world : AbiWorld H) (handle : ℕ) {respPayload : Ptr (List UInt8)}
    {outChannel : Ptr Unit} (nPaths : ℕ) (h : ¬ (respPayload.isSome ∧ outChannel.isSome)) :
    decoypathInitiatorFinalize world (some handle) respPayload outChannel nPaths =
      (.finalized .NULL_POINTER none, world) := by
  cases respPayload with
  | none => rfl
  | some respPayload =>
      cases outChannel with
      | none => rfl
      | some out => exact absurd ⟨rfl, rfl⟩ h

/-- The pointers that a call is given are live. -/
def AbiCall.Live (world : AbiWorld H) (call : AbiCall) : Prop :=
  (∀ h ∈ call.passes, (world.initiators.boxes h).isSome) ∧
    ∀ c ∈ call.channel, (world.channels.boxes c).isSome

/-- A call with live pointers is defined. It takes the handle it is given, or none, or
opens a new one; the handle is not taken in the one case that `ConsumesState` excludes. -/
theorem abiStep_effect (P : Primitives) (world : AbiWorld H) (call : AbiCall) :
    let result := abiStep P world call
    (call.Live world → result.1 ≠ .undefined) ∧
      ∃ m : Transition.Move ℕ, m.givenBack = call.passes ∧
        (Ledger.Taken m ↔ call.ConsumesState) ∧ world.initiators.Moved m result.2.initiators := by
  have hidle : ∀ {heap : Heap (InitiatorState H)}, heap = world.initiators →
      world.initiators.Moved .idle heap := fun h => h ▸ .idle
  have hfree : ∀ {heap : Heap (InitiatorState H)} {handle : ℕ},
      heap = world.initiators.free handle → world.initiators.Moved (.giveBack handle true) heap :=
    fun h => h ▸ .free _
  cases call with
  | abiVersion => exact ⟨nofun, .idle, rfl, Iff.rfl, .idle⟩
  | generateIdentityKeypair secret outPriv outPub =>
      refine ⟨fun _ => ?_, .idle, rfl, Iff.rfl, .idle⟩
      simp only [abiStep, decoypathGenerateIdentityKeypair]
      split
      · nofun
      · nofun
  | initiatorInitiate coins initPriv respPub outState outPayload outPayloadLen =>
      obtain ⟨hdefined, m, hgiven, htaken, hmoved⟩ := initiate_effect world coins initPriv respPub
        outState outPayload outPayloadLen
      exact ⟨fun _ => hdefined, m, hgiven, iff_of_true htaken trivial, hmoved⟩
  | responderRespond coins respPriv expectedInitPub initPayload outPayload outPayloadLen
      outChannel nPaths =>
      obtain ⟨hdefined, hsame⟩ := respond_effect world coins respPriv expectedInitPub initPayload
        outPayload outPayloadLen outChannel nPaths
      exact ⟨fun _ => hdefined, .idle, rfl, Iff.rfl, hidle hsame⟩
  | channelSend channel coins payload messageId outEnvelopes outEnvelopesLen =>
      obtain ⟨hdefined, hsame⟩ := onChannel_effect world channel _ _
      exact ⟨fun hlive => hdefined hlive.2, .idle, rfl, Iff.rfl, hidle hsame⟩
  | channelReceive channel now envelopes seq messageId outPayload outPayloadLen =>
      obtain ⟨hdefined, hsame⟩ := onChannel_effect world channel _ _
      exact ⟨fun hlive => hdefined hlive.2, .idle, rfl, Iff.rfl, hidle hsame⟩
  | channelFree channel =>
      obtain ⟨hdefined, hsame⟩ := channelFree_effect world channel
      exact ⟨fun hlive => hdefined hlive.2, .idle, rfl, Iff.rfl, hidle hsame⟩
  | initiatorStateFree state =>
      cases state with
      | none => exact ⟨nofun, .idle, rfl, Iff.rfl, .idle⟩
      | some handle =>
          obtain ⟨hdefined, hdropped⟩ := stateFree_effect world handle
          exact ⟨fun hlive => hdefined (hlive.1 handle rfl), .giveBack handle true, rfl,
            iff_of_true rfl trivial, hfree hdropped⟩
  | initiatorFinalize state respPayload outChannel nPaths =>
      cases state with
      | none => exact ⟨nofun, .idle, rfl, Iff.rfl, .idle⟩
      | some handle =>
          by_cases hnull : respPayload.isSome ∧ outChannel.isSome
          · obtain ⟨hresp, hout⟩ := hnull
            obtain ⟨respPayload, rfl⟩ := Option.isSome_iff_exists.1 hresp
            obtain ⟨⟨⟩, rfl⟩ := Option.isSome_iff_exists.1 hout
            obtain ⟨hdefined, hdropped⟩ := finalize_effect world handle respPayload nPaths
            exact ⟨fun hlive => hdefined (hlive.1 handle rfl), .giveBack handle true, rfl,
              iff_of_true rfl ⟨rfl, rfl⟩, hfree hdropped⟩
          · rw [abiStep, finalize_null world handle nPaths hnull]
            exact ⟨nofun, .giveBack handle false, rfl, iff_of_false Bool.false_ne_true hnull,
              .keep handle⟩

/-! ## The checks before the channel pointer -/

/-- What the checks of `decoypath_channel_send` refuse, they refuse on live and on dead
handles. -/
theorem reply_of_sendChecks (P : Primitives) (world : AbiWorld H) (handle : ℕ) (coins : SendCoins)
    {payload messageId outEnvelopes : Ptr (List UInt8)} {outEnvelopesLen : Ptr ℕ}
    {reply : AbiReply}
    (h : sendChecks payload messageId outEnvelopes outEnvelopesLen = some reply) :
    (abiStep P world (.channelSend (some handle) coins payload messageId outEnvelopes
      outEnvelopesLen)).1 = reply := by
  simp only [abiStep, onChannel]
  cases world.channels.boxes handle with
  | none => simp only [h, Option.getD_some]
  | some box =>
      cases payload with
      | none => exact Option.some.inj h
      | some payload =>
      cases messageId with
      | none => exact Option.some.inj h
      | some messageId =>
      cases outEnvelopes with
      | none => exact Option.some.inj h
      | some out =>
      cases outEnvelopesLen with
      | none => exact Option.some.inj h
      | some outLen =>
      simp only [sendChecks] at h
      simp only [decoypathChannelSend, channelSend, deliver]
      split_ifs at h ⊢
      · exact Option.some.inj h
      · exact Option.some.inj h

theorem reply_of_receiveChecks (P : Primitives) (world : AbiWorld H) (handle : ℕ) (now : Instant)
    (seq : UInt64) {envelopes messageId outPayload : Ptr (List UInt8)} {outPayloadLen : Ptr ℕ}
    {reply : AbiReply}
    (h : receiveChecks envelopes messageId outPayload outPayloadLen = some reply) :
    (abiStep P world (.channelReceive (some handle) now envelopes seq messageId outPayload
      outPayloadLen)).1 = reply := by
  simp only [abiStep, onChannel]
  cases world.channels.boxes handle with
  | none => simp only [h, Option.getD_some]
  | some box =>
      cases envelopes with
      | none => exact Option.some.inj h
      | some envelopes =>
      cases messageId with
      | none => exact Option.some.inj h
      | some messageId =>
      cases outPayload with
      | none => exact Option.some.inj h
      | some out =>
      cases outPayloadLen with
      | none => exact Option.some.inj h
      | some outLen =>
      simp only [receiveChecks] at h
      simp only [decoypathChannelReceive, channelReceive, deliver]
      split_ifs at h ⊢
      · exact Option.some.inj h
      · exact Option.some.inj h

theorem sendChecks_getD {payload messageId outEnvelopes : Ptr (List UInt8)}
    {outEnvelopesLen : Ptr ℕ} {code : ReturnCode} {written : Option (List UInt8 × ℕ)}
    (h : (sendChecks payload messageId outEnvelopes outEnvelopesLen).getD .undefined =
      .delivered code written) : code ≠ .OK ∧ code ≠ .BUFFER_TOO_SMALL := by
  unfold sendChecks at h
  split at h
  · split_ifs at h
    · cases h
      decide
    · cases h
      decide
    · cases h
  · cases h
    decide

theorem receiveChecks_getD {envelopes messageId outPayload : Ptr (List UInt8)}
    {outPayloadLen : Ptr ℕ} {code : ReturnCode} {written : Option (List UInt8 × ℕ)}
    (h : (receiveChecks envelopes messageId outPayload outPayloadLen).getD .undefined =
      .delivered code written) : code ≠ .OK := by
  unfold receiveChecks at h
  split at h
  · split_ifs at h
    · cases h
      decide
    · cases h
      decide
    · cases h
  · cases h
    decide

/-! ## Runs of a host -/

/-- The world, with the initiator handles that the host has given to `finalize` or
`state_free` so far. -/
structure HostState (H : HandshakePrimitives) where
  world : AbiWorld H
  passed : List ℕ

namespace HostState

def start (H : HandshakePrimitives) : HostState H := ⟨AbiWorld.new H, []⟩

/-- One call of a host. -/
def step (P : Primitives) (s : HostState H) (call : AbiCall) : AbiReply × HostState H :=
  let (reply, world) := abiStep P s.world call
  (reply, ⟨world, s.passed ++ call.passes.toList⟩)

/-- What the header asks of a host: an initiator handle comes from a successful
`decoypath_initiator_initiate` and is given back once, and a channel is live. -/
structure Obeys (s : HostState H) (call : AbiCall) : Prop where
  handle : ∀ h ∈ call.passes, h < s.world.initiators.allocated ∧ h ∉ s.passed
  channel : ∀ c ∈ call.channel, (s.world.channels.boxes c).isSome

/-- The handles of a host that keeps to the header are in order. -/
def Owned (s : HostState H) : Prop := s.world.initiators.Owned s.passed

def ledger (s : HostState H) : Ledger ℕ := s.world.initiators.ledger s.passed

/-- Every handle that was given back is dead and was released exactly once, and no
handle was released twice. -/
def HandlesReleased (s : HostState H) : Prop :=
  (∀ h ∈ s.passed, s.world.initiators.boxes h = none ∧
    s.world.initiators.released.count h = 1) ∧ s.world.initiators.released.Nodup

variable {P : Primitives} {s : HostState H} {call : AbiCall}

theorem owned_start (H : HandshakePrimitives) : (start H).Owned := Heap.owned_empty

/-- What one call does to the ledger. -/
theorem exists_move (P : Primitives) (hobeys : s.Obeys call) :
    ∃ m : Transition.Move ℕ, s.ledger.Allows m ∧ (Ledger.Taken m ↔ call.ConsumesState) ∧
      (step P s call).2.ledger = s.ledger.move m ∧ (s.Owned → (step P s call).2.Owned) := by
  obtain ⟨-, m, hgiven, htaken, hmoved⟩ := abiStep_effect P s.world call
  have hallowed : s.ledger.Allows m := hmoved.allows (hgiven ▸ hobeys.handle)
  refine ⟨m, hallowed, htaken, ?_, ?_⟩
  · have hledger := hmoved.ledger_move s.passed
    rw [hgiven] at hledger
    exact hledger
  · intro howned
    have hnext := Heap.Owned.moved howned hmoved hallowed
    rw [hgiven] at hnext
    exact hnext

/-- Along a run the handles stay in order, and they are settled as long as `finalize`
has taken what it was given. -/
theorem owned_final (P : Primitives) {calls : List AbiCall}
    (hhost : Follows (step P) Obeys (start H) calls) :
    (final (step P) (start H) calls).Owned ∧
      ((∀ call ∈ calls, call.ConsumesState) →
        (final (step P) (start H) calls).ledger.Settled) := by
  have h := follows_induction (step P)
    (motive := fun past t => t.Owned ∧
      ((∀ e ∈ past, e.input.ConsumesState) → t.ledger.Settled))
    (start H) ⟨owned_start H, fun _ r hr => absurd hr List.not_mem_nil⟩ ?_ calls hhost
  · refine ⟨h.1, fun hconsumes => h.2 fun e he => ?_⟩
    exact hconsumes _ (input_mem_of_mem_trace (step P) he)
  · intro past t call ih hobeys
    obtain ⟨howned, hsettled⟩ := ih
    obtain ⟨m, hallowed, htaken, hledger, hnext⟩ := exists_move P hobeys
    refine ⟨hnext howned, fun hconsumes => ?_⟩
    obtain ⟨hpast, hcall⟩ := forall_mem_concat.1 hconsumes
    rw [hledger]
    exact (hsettled hpast).move howned.tracked hallowed (htaken.2 hcall)

/-- A host that keeps to the header never makes a call use a dead pointer. -/
theorem replies_defined (P : Primitives) {calls : List AbiCall}
    (hhost : Follows (step P) Obeys (start H) calls) :
    ∀ e ∈ trace (step P) (start H) calls, e.output ≠ .undefined := by
  refine (follows_induction (step P)
    (motive := fun past t => t.Owned ∧ ∀ e ∈ past, e.output ≠ AbiReply.undefined)
    (start H) ⟨owned_start H, fun _ he => absurd he List.not_mem_nil⟩ ?_ calls hhost).2
  intro past t call ih hobeys
  obtain ⟨howned, hpast⟩ := ih
  obtain ⟨m, hallowed, -, -, hnext⟩ := exists_move P hobeys
  refine ⟨hnext howned, forall_mem_concat.2 ⟨hpast, ?_⟩⟩
  apply (abiStep_effect P t.world call).1
  refine ⟨?_, hobeys.channel⟩
  intro h hgiven
  obtain ⟨hissued, hfresh⟩ := hobeys.handle h hgiven
  exact (howned.boxed h).2 ⟨List.mem_range.2 hissued, howned.tracked.not_released hfresh⟩

end HostState

open HostState

/-- **When the handles are released.** In every run of a host that keeps to the header,
the handles it gave to `finalize` or `state_free` are released exactly once, after that
call and from then on, if and only if no null pointer goes with a handle into
`finalize`. -/
theorem handles_released_iff (P : Primitives) (H : HandshakePrimitives) (calls : List AbiCall)
    (hhost : Follows (HostState.step P) HostState.Obeys (HostState.start H) calls) :
    (∀ n, (final (HostState.step P) (HostState.start H) (calls.take n)).HandlesReleased) ↔
      ∀ call ∈ calls, call.ConsumesState := by
  constructor
  · intro hreleased call hcall
    by_contra hnull
    obtain ⟨n, hn⟩ := List.getElem?_of_mem hcall
    have htake : calls.take (n + 1) = calls.take n ++ [call] := by
      rw [List.take_add_one, hn]
      rfl
    -- The call was met where the calls before it led, and leaves its handle live.
    have hfollows := follows_take (HostState.step P) hhost (n + 1)
    rw [htake] at hfollows
    obtain ⟨hbefore, hobeys⟩ := (follows_concat_iff _ _ _ _ _).1 hfollows
    obtain ⟨howned, _⟩ := owned_final P hbefore
    obtain ⟨m, hallowed, htaken, hledger, hnext⟩ := exists_move P hobeys
    have hkept : ¬ (HostState.ledger _).Settled :=
      hledger ▸ Ledger.not_settled_of_not_taken howned.tracked hallowed (mt htaken.1 hnull)
    apply hkept
    have hafter := (hreleased (n + 1)).1
    rw [htake, final_concat] at hafter
    exact (hnext howned).settled_iff.2 hafter
  · intro hconsumes n
    obtain ⟨howned, hsettled⟩ := owned_final P (follows_take _ hhost n)
    have hledger := hsettled fun call hcall => hconsumes call (List.mem_of_mem_take hcall)
    exact ⟨howned.settled_iff.1 hledger, hledger.nodup_released howned.tracked⟩

/-- A call that opens a handshake between two numbered parties. -/
def modularInitiate : AbiCall :=
  .initiatorInitiate (modularCoins 3) (some (reduced 7)) (some (reduced 8)) (some ()) (some ())
    (some initPayloadLen)

/-- The host opens a handshake and finalizes it with a forged response. -/
theorem forged_response_released :
    let calls := [modularInitiate,
      .initiatorFinalize (some 0) (some (List.replicate respPayloadLen 0)) (some ()) 2]
    ∀ n, (final (HostState.step counterPrimitives) (HostState.start modularPrimitives)
      (calls.take n)).HandlesReleased := by
  intro calls
  have hobeys : Follows (HostState.step counterPrimitives) HostState.Obeys
      (HostState.start modularPrimitives) calls := by
    refine ⟨⟨by rintro h ⟨⟩, by rintro c ⟨⟩⟩, ⟨?_, by rintro c ⟨⟩⟩, trivial⟩
    rintro h ⟨⟩
    exact ⟨Nat.one_pos, List.not_mem_nil⟩
  exact (handles_released_iff counterPrimitives modularPrimitives calls hobeys).2 (by decide)

/-- With a null pointer for the channel, `finalize` returns `NULL_POINTER` and the handle
that it was given stays live. -/
theorem null_channel_keeps_handle :
    let step := HostState.step (H := modularPrimitives) counterPrimitives
    let finalize := AbiCall.initiatorFinalize (some 0) (some (List.replicate respPayloadLen 0))
      none 2
    let opened := final step (HostState.start modularPrimitives) [modularInitiate]
    let s := final step (HostState.start modularPrimitives) [modularInitiate, finalize]
    (Follows step HostState.Obeys (HostState.start modularPrimitives)
          [modularInitiate, finalize] ∧
        (step opened finalize).1 = .finalized .NULL_POINTER none ∧ s.passed = [0] ∧
        (s.world.initiators.boxes 0).isSome ∧ s.world.initiators.released = []) ∧
      ¬ ∀ n, (final step (HostState.start modularPrimitives)
        ([modularInitiate, finalize].take n)).HandlesReleased := by
  intro step finalize opened s
  have hobeys : Follows step HostState.Obeys (HostState.start modularPrimitives)
      [modularInitiate, finalize] := by
    refine ⟨⟨by rintro h ⟨⟩, by rintro c ⟨⟩⟩, ⟨?_, by rintro c ⟨⟩⟩, trivial⟩
    rintro h ⟨⟩
    exact ⟨Nat.one_pos, List.not_mem_nil⟩
  refine ⟨⟨hobeys, rfl, rfl, rfl, rfl⟩, fun hreleased => ?_⟩
  have hcount := ((hreleased 2).1 0 List.mem_cons_self).2
  cases hcount

end NullPath
