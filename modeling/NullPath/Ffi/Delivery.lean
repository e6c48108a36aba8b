import NullPath.Ffi.Agreement
import NullPath.Ffi.Refinement
import NullPath.Ffi.Retry
import NullPath.World.Authenticity

/-!
# What a host hands in and what it is handed out

On a channel handle a host posts messages with `decoypath_channel_send` and is handed out
letters by `decoypath_channel_receive`. Read off a run of the ABI, the posted messages are
those that the channel under the handle has sent, and the letters are part of those that it
has accepted (`posted_eq`, `handedOut_sublist`): a payload that did not fit the buffer is
missing. So what holds of the crate's channels holds of the handles, and in particular
letters come from the peer's handle (`handed_out_from_the_peer`).
-/

namespace NullPath

open Transition

variable {H : HandshakePrimitives} {P : Primitives}

abbrev AbiEvent (H : HandshakePrimitives) := Event (AbiWorld H) AbiCall AbiReply

/-- The events of a host's calls. -/
def abiTrace (H : HandshakePrimitives) (P : Primitives) (calls : List AbiCall) :
    List (AbiEvent H) :=
  trace (abiStep P) (AbiWorld.new H) calls

/-- A run of a host in which no call uses a pointer that is not live. -/
structure HostRun (H : HandshakePrimitives) (P : Primitives) where
  calls : List AbiCall
  defined : ∀ e ∈ abiTrace H P calls, e.output ≠ .undefined

/-- The run of a host that keeps to the header. -/
def HostRun.ofObeys {calls : List AbiCall}
    (hhost : Follows (HostState.step P) HostState.Obeys (HostState.start H) calls) :
    HostRun H P where
  calls := calls
  defined := by
    have htrace : abiTrace H P calls =
        (trace (HostState.step P) (HostState.start H) calls).map (Event.map HostState.world) :=
      trace_map (f := HostState.world) (fun _ _ => rfl) (HostState.start H) calls
    rw [htrace, List.forall_mem_map]
    exact HostState.replies_defined P hhost

/-- The letter that a call hands out on a channel handle. -/
def handedOut? (handle : ℕ) (e : AbiEvent H) : Option Letter :=
  match e.input, e.output with
  | .channelReceive (some channel) _ _ seq (some messageId) _ _,
      .delivered code (some (out, outLen)) =>
      if channel = handle ∧ code = .OK then some ⟨seq, messageId, out.take outLen⟩ else none
  | _, _ => none

/-- The letters that a host was handed out on a channel handle. -/
def handedOutAt (handle : ℕ) (events : List (AbiEvent H)) : List Letter :=
  events.filterMap (handedOut? handle)

/-- The id and the payload that a call posts on a channel handle. With `BUFFER_TOO_SMALL`
the message has been sent, but its envelopes are lost. -/
def posted? (handle : ℕ) (e : AbiEvent H) : Option (List UInt8 × List UInt8) :=
  match e.input, e.output with
  | .channelSend (some channel) _ (some payload) (some messageId) _ _,
      .delivered code (some _) =>
      if channel = handle ∧ (code = .OK ∨ code = .BUFFER_TOO_SMALL) then
        some (messageId, payload)
      else none
  | _, _ => none

/-- The letters that a host has posted on a channel handle, under their numbers. -/
def postedAt (handle : ℕ) (events : List (AbiEvent H)) : List Letter :=
  (events.filterMap (posted? handle)).mapIdx fun number message =>
    ⟨UInt64.ofNat number, message.1, message.2⟩

/-! ## One call -/

theorem channelEvent_of_abstracts {world : AbiWorld H} {w : World H} (h : Abstracts world w)
    {channel : ℕ} {box : SecureChannel RatchetKey}
    (hbox : world.channels.boxes channel = some box) (call : Call) (handle : ℕ) :
    channelEvent? P handle (event (worldStep P) w (.channel channel call)) =
      if channel = handle then some (event (callStep P (RatchetKey.ops P)) box call)
      else none := by
  obtain ⟨c, hc, rfl⟩ := h.channel hbox
  rw [channelEvent?, event]
  dsimp only
  split_ifs with heq
  · rw [← heq, hc]
    rfl
  · rfl

theorem channelReceive_ok {κ : Type*} {K : KeyOps κ} {channel : SecureChannel κ} {now : Instant}
    {envelopes messageId out : List UInt8} {seq : UInt64} {outLen : ℕ}
    (hok : (channelReceive P K channel now envelopes seq messageId out outLen).code = .OK) :
    ¬ messageId.length > maxMessageIdLen ∧ ¬ InvalidBufferLen envelopes.length ∧
      ∃ payload channel', channel.receive P K now (chunkEnvelopes envelopes) seq messageId =
          (.ok payload, channel') ∧
        (channelReceive P K channel now envelopes seq messageId out outLen).out.take
          (channelReceive P K channel now envelopes seq messageId out outLen).outLen =
            payload := by
  by_cases hrefused : messageId.length > maxMessageIdLen ∨ InvalidBufferLen envelopes.length
  · exact absurd hok (channelReceive_refused P K channel now seq out outLen hrefused).1
  obtain ⟨hmessageId, hlength⟩ := not_or.1 hrefused
  obtain ⟨payload, hreceive⟩ := receive_ok_of_code (Or.inl hok)
  refine ⟨hmessageId, hlength, payload, _, hreceive, ?_⟩
  have hresult : channelReceive P K channel now envelopes seq messageId out outLen = _ :=
    channelReceive_of_ok (Nat.not_lt.1 hmessageId) hlength hreceive
  rw [hresult] at hok ⊢
  split_ifs at hok ⊢
  simp [overwrite]

theorem handedOut_dead {world : AbiWorld H} {channel : ℕ}
    (hdead : world.channels.boxes channel = none) (handle : ℕ) (now : Instant)
    (envelopes : Ptr (List UInt8)) (seq : UInt64) (messageId outPayload : Ptr (List UInt8))
    (outPayloadLen : Ptr ℕ) :
    handedOut? handle (event (abiStep P) world (.channelReceive (some channel) now envelopes seq
      messageId outPayload outPayloadLen)) = none := by
  cases messageId with
  | none => rfl
  | some messageId =>
      simp only [handedOut?, event, abiStep, onChannel, hdead]
      split
      · next hreply =>
          exact if_neg fun h => receiveChecks_getD hreply h.2
      · rfl

/-- A letter that is handed out was accepted by the channel under the handle. -/
theorem accepted_of_handedOut {world : AbiWorld H} {call : AbiCall} {handle : ℕ} {letter : Letter}
    (h : handedOut? handle (event (abiStep P) world call) = some letter) :
    ∃ box args, world.channels.boxes handle = some box ∧
      call.crateCall? world = some (.channel handle (.receive args)) ∧
        acceptedLetter? (event (callStep P (RatchetKey.ops P)) box (.receive args)) =
          some letter := by
  cases call with
  | channelReceive channel now envelopes seq messageId outPayload outPayloadLen =>
      cases channel with
      | none => cases h
      | some channel =>
      cases messageId with
      | none => cases h
      | some messageId =>
      cases hbox : world.channels.boxes channel with
      | none =>
          rw [handedOut_dead hbox] at h
          cases h
      | some box =>
      simp only [handedOut?, event, abiStep, onChannel, hbox] at h
      cases envelopes with
      | none => cases h
      | some envelopes =>
      cases outPayload with
      | none => cases h
      | some out =>
      cases outPayloadLen with
      | none => cases h
      | some outLen =>
      obtain ⟨⟨rfl, hok⟩, hletter⟩ := Option.ite_none_right_eq_some.1 h
      obtain ⟨hmessageId, hlength, payload, channel', hreceive, hpayload⟩ := channelReceive_ok hok
      refine ⟨box, ⟨⟨chunkEnvelopes envelopes, seq, messageId⟩, now⟩, hbox, ?_, ?_⟩
      · simp only [AbiCall.crateCall?, Option.bind_eq_bind, Option.bind_some, hbox,
          if_neg hmessageId, if_neg hlength]
      · rw [acceptedLetter?, event]
        simp only [callStep, hreceive]
        rw [← hletter, ← hpayload]
  | _ => cases h

theorem code_channelSend {κ : Type*} {K : KeyOps κ} (channel : SecureChannel κ)
    (coins : SendCoins) (payload messageId out : List UInt8) (outLen : ℕ) :
    ((channelSend P K channel coins payload messageId out outLen).code = .OK ∨
        (channelSend P K channel coins payload messageId out outLen).code = .BUFFER_TOO_SMALL) ↔
      ¬ payload.length > maxPayloadSize ∧ ¬ messageId.length > maxMessageIdLen ∧
        ∃ envelopes, (channel.send P K coins payload messageId).1 = .ok envelopes := by
  unfold channelSend
  split_ifs with hpayload hmessageId
  · exact iff_of_false (by simp) fun h => h.1 hpayload
  · exact iff_of_false (by simp) fun h => h.2.1 hmessageId
  · cases channel.send P K coins payload messageId with
    | mk result channel' =>
        cases result with
        | error e =>
            exact iff_of_false (by cases e <;> simp [ReturnCode.ofSendError]) (by simp)
        | ok envelopes =>
            dsimp only
            split_ifs
            · exact iff_of_true (Or.inr rfl) ⟨hpayload, hmessageId, envelopes, rfl⟩
            · exact iff_of_true (Or.inl rfl) ⟨hpayload, hmessageId, envelopes, rfl⟩

/-- The id and the payload of a message that an event of a channel sends. -/
def sentContent? (e : ChannelEvent RatchetKey) : Option (List UInt8 × List UInt8) :=
  (sentMessage? e).map fun message => (message.1.messageId, message.1.payload)

theorem posted_dead {world : AbiWorld H} {channel : ℕ}
    (hdead : world.channels.boxes channel = none) (handle : ℕ) (coins : SendCoins)
    (payload messageId outEnvelopes : Ptr (List UInt8)) (outEnvelopesLen : Ptr ℕ) :
    posted? handle (event (abiStep P) world (.channelSend (some channel) coins payload messageId
      outEnvelopes outEnvelopesLen)) = none := by
  cases payload with
  | none => rfl
  | some payload =>
  cases messageId with
  | none => rfl
  | some messageId =>
      simp only [posted?, event, abiStep, onChannel, hdead]
      split
      · next hreply =>
          obtain ⟨hok, hshort⟩ := sendChecks_getD hreply
          exact if_neg fun h => h.2.elim hok hshort
      · rfl

theorem sent_of_posted {world : AbiWorld H} {call : AbiCall} {handle : ℕ}
    {content : List UInt8 × List UInt8}
    (h : posted? handle (event (abiStep P) world call) = some content) :
    ∃ box args, world.channels.boxes handle = some box ∧
      call.crateCall? world = some (.channel handle (.send args)) ∧
        sentContent? (event (callStep P (RatchetKey.ops P)) box (.send args)) =
          some content := by
  cases call with
  | channelSend channel coins payload messageId outEnvelopes outEnvelopesLen =>
      cases channel with
      | none => cases h
      | some channel =>
      cases payload with
      | none => cases h
      | some payload =>
      cases messageId with
      | none => cases h
      | some messageId =>
      cases hbox : world.channels.boxes channel with
      | none =>
          rw [posted_dead hbox] at h
          cases h
      | some box =>
      simp only [posted?, event, abiStep, onChannel, hbox] at h
      cases outEnvelopes with
      | none => cases h
      | some out =>
      cases outEnvelopesLen with
      | none => cases h
      | some outLen =>
      obtain ⟨⟨rfl, hcode⟩, hcontent⟩ := Option.ite_none_right_eq_some.1 h
      obtain ⟨hpayload, hmessageId, envelopes, hsend⟩ := (code_channelSend ..).1 hcode
      refine ⟨box, ⟨coins, payload, messageId⟩, hbox, ?_, ?_⟩
      · simp only [AbiCall.crateCall?, Option.bind_eq_bind, Option.bind_some, hbox,
          if_neg hpayload, if_neg hmessageId]
      · rw [sentContent?, sentMessage?, event]
        simp only [callStep, hsend]
        exact hcontent
  | _ => cases h

theorem send_of_crateCall {world : AbiWorld H} {call : AbiCall} {channel : ℕ} {args : SendArgs}
    (h : call.crateCall? world = some (.channel channel (.send args))) :
    ∃ box out outLen, world.channels.boxes channel = some box ∧
      ¬ args.payload.length > maxPayloadSize ∧ ¬ args.messageId.length > maxMessageIdLen ∧
        call = .channelSend (some channel) args.coins (some args.payload) (some args.messageId)
          (some out) (some outLen) := by
  cases call with
  | channelSend handle coins payload messageId outEnvelopes outEnvelopesLen =>
      simp only [AbiCall.crateCall?, Option.bind_eq_bind, Option.bind_eq_some_iff,
        Option.ite_none_left_eq_some, Option.some.injEq, WorldCall.channel.injEq,
        Call.send.injEq] at h
      obtain ⟨handle, rfl, box, hbox, payload, rfl, messageId, rfl, out, rfl, outLen, rfl,
        hpayload, hmessageId, rfl, rfl⟩ := h
      exact ⟨box, out, outLen, hbox, hpayload, hmessageId, rfl⟩
  | _ => simp [AbiCall.crateCall?, Option.bind_eq_some_iff] at h

/-- A message that the channel under a handle sends is posted. -/
theorem posted_of_sent {world : AbiWorld H} {call : AbiCall} {handle : ℕ} {args : SendArgs}
    (hcall : call.crateCall? world = some (.channel handle (.send args)))
    {box : SecureChannel RatchetKey} (hbox : world.channels.boxes handle = some box)
    {content : List UInt8 × List UInt8}
    (hsent : sentContent? (event (callStep P (RatchetKey.ops P)) box (.send args)) =
      some content) :
    posted? handle (event (abiStep P) world call) = some content := by
  obtain ⟨box', out, outLen, hbox', hpayload, hmessageId, rfl⟩ := send_of_crateCall hcall
  rw [hbox] at hbox'
  cases hbox'
  have hcode := (code_channelSend (P := P) (K := RatchetKey.ops P) box args.coins args.payload
    args.messageId out outLen).2
  simp only [posted?, event, abiStep, onChannel, hbox, decoypathChannelSend, deliver]
  simp only [sentContent?, sentMessage?, event, callStep] at hsent
  cases hsend : box.send P (RatchetKey.ops P) args.coins args.payload args.messageId with
  | mk result box' =>
      rw [hsend] at hsent hcode
      cases result with
      | error e => cases hsent
      | ok envelopes =>
          cases hsent
          exact if_pos ⟨trivial, hcode ⟨hpayload, hmessageId, envelopes, rfl⟩⟩

/-! ## Runs -/

theorem sentContent_of_receive (w : World H) (channel handle : ℕ) (args : ReceiveArgs) :
    (channelEvent? P handle (event (worldStep P) w (.channel channel (.receive args)))).bind
      sentContent? = none := by
  rw [channelEvent?, event]
  dsimp only
  split_ifs
  · cases w.channels[handle]? <;> rfl
  · rfl

theorem sentLetters_eq_contents (events : List (ChannelEvent RatchetKey)) :
    sentLetters events = (events.filterMap sentContent?).mapIdx fun number message =>
      ⟨UInt64.ofNat number, message.1, message.2⟩ := by
  have hcontents : events.filterMap sentContent? =
      (sentMessages events).map fun message => (message.1.messageId, message.1.payload) := by
    rw [sentMessages, List.map_filterMap]
    rfl
  refine List.ext_getElem? fun number => ?_
  rw [hcontents, sentLetters, List.getElem?_mapIdx, List.getElem?_mapIdx, List.getElem?_map,
    Option.map_map]
  rfl

/-- The letters handed out on a handle are part of those that its channel has accepted. -/
theorem handedOut_sublist (H : HandshakePrimitives) (P : Primitives) (calls : List AbiCall)
    (handle : ℕ) :
    (handedOutAt handle (abiTrace H P calls)).Sublist
      (acceptedLetters ((runWorld P (crateCalls H P calls)).eventsAt handle)) := by
  rw [eventsAt_run, acceptedLetters, List.filterMap_filterMap]
  refine (abi_simulates H P).filterMap_trace_sublist (Abstracts.new H) ?_ calls
  intro world w call letter h hletter
  obtain ⟨box, args, hbox, hcall, haccepted⟩ := accepted_of_handedOut hletter
  rw [hcall, Option.bind_some, channelEvent_of_abstracts h hbox, if_pos rfl]
  exact haccepted

/-- The messages posted on a handle are those that its channel has sent. -/
theorem postedAt_eq (H : HandshakePrimitives) (P : Primitives) (calls : List AbiCall)
    (handle : ℕ) :
    postedAt handle (abiTrace H P calls) =
      sentLetters ((runWorld P (crateCalls H P calls)).eventsAt handle) := by
  have hcontents : (abiTrace H P calls).filterMap (posted? handle) =
      ((runWorld P (crateCalls H P calls)).eventsAt handle).filterMap sentContent? := by
    rw [eventsAt_run, List.filterMap_filterMap]
    refine (abi_simulates H P).filterMap_trace (Abstracts.new H) ?_ calls
    intro world w call h
    ext content
    constructor
    · intro hposted
      obtain ⟨box, args, hbox, hcall, hsent⟩ := sent_of_posted hposted
      rw [hcall, Option.bind_some, channelEvent_of_abstracts h hbox, if_pos rfl]
      exact hsent
    · intro hsent
      obtain ⟨wcall, hcall, hevent⟩ := Option.bind_eq_some_iff.1 hsent
      cases wcall with
      | handshake hcall nPaths => cases hevent
      | channel channel ccall =>
          cases ccall with
          | receive args =>
              rw [sentContent_of_receive] at hevent
              cases hevent
          | send args =>
              obtain ⟨box, -, -, hbox, -⟩ := send_of_crateCall hcall
              rw [channelEvent_of_abstracts h hbox] at hevent
              split_ifs at hevent with heq
              · subst heq
                exact posted_of_sent hcall hbox hevent
              · cases hevent
  rw [sentLetters_eq_contents, ← hcontents]
  rfl

/-! ## A host that runs both parties -/

/-- The bytes that a call has written. -/
def AbiReply.written : AbiReply → List UInt8
  | .delivered _ (some (out, outLen)) => out.take outLen
  | _ => []

/-- A handshake across the ABI: channel 0 is the responder's, channel 1 the initiator's. -/
def hostHandshake : List AbiCall :=
  let opening := (initiate modularPrimitives (modularKey 7)
    ((modularKey 8).verifyingKey modularPrimitives) (modularCoins 3)).2
  let response := responsePayload (modularKey 8) opening (modularCoins 5)
  [modularInitiate,
    .responderRespond (modularCoins 5) (some (reduced 8)) none (some opening.toBytes.toList)
      (some ()) (some respPayloadLen) (some ()) 2,
    .initiatorFinalize (some 0) (some response.toBytes.toList) (some ()) 2]

/-- The initiator posts a message, and what its call has written reaches the responder
twice. -/
def hostCalls : List AbiCall :=
  let coins := (counterSend [10] [1]).coins
  let send := AbiCall.channelSend (some 1) coins (some [10]) (some [1])
    (some (List.replicate (2 * envelopeTotalLen) 0)) (some (2 * envelopeTotalLen))
  let opened := final (abiStep (H := modularPrimitives) counterPrimitives)
    (AbiWorld.new modularPrimitives) hostHandshake
  let buffer := (abiStep counterPrimitives opened send).1.written
  let receive := AbiCall.channelReceive (some 0) 0 (some buffer) 0 (some [1])
    (some (List.replicate maxPayloadSize 0)) (some maxPayloadSize)
  hostHandshake ++ [send, receive, receive]

/-- No call of that host uses a dead pointer. -/
def hostRun : HostRun modularPrimitives counterPrimitives := ⟨hostCalls, by decide +kernel⟩

/-- **The ABI runs the crate.** In every run of a host, with any arguments and null or
live pointers, the live initiator handles stand for the open sessions and the live channel
handles for the channels that the crate's calls behind the run lead to. What is posted on a
channel handle is what its channel has sent; what is handed out on it is part of what its
channel has accepted, and no number is handed out twice. -/
theorem abi_runs_crate (hencrypt : P.EncryptTotal) (H : HandshakePrimitives)
    (run : HostRun H P) :
    Abstracts (final (abiStep P) (AbiWorld.new H) run.calls)
        (runWorld P (crateCalls H P run.calls)) ∧
      ∀ handle : ℕ, postedAt handle (abiTrace H P run.calls) =
          sentLetters ((runWorld P (crateCalls H P run.calls)).eventsAt handle) ∧
        (handedOutAt handle (abiTrace H P run.calls)).Sublist
          (acceptedLetters ((runWorld P (crateCalls H P run.calls)).eventsAt handle)) ∧
            ((handedOutAt handle (abiTrace H P run.calls)).map Letter.seq).Nodup := by
  refine ⟨(abi_simulates H P).final (Abstracts.new H) run.calls, fun handle => ?_⟩
  have hsublist := handedOut_sublist H P run.calls handle
  refine ⟨postedAt_eq H P run.calls handle, hsublist, (hsublist.map Letter.seq).nodup ?_⟩
  rw [map_seq_acceptedLetters]
  cases hindex : (runWorld P (crateCalls H P run.calls)).channels[handle]? with
  | none =>
      rw [World.eventsAt, hindex]
      exact List.nodup_nil
  | some c =>
      rw [World.eventsAt_eq hindex]
      exact ((own_runs P _ c (List.mem_of_getElem? hindex)).sentState hencrypt).endpoint.books.nodup

theorem abi_runs_crate_host :
    let calls := crateCalls modularPrimitives counterPrimitives hostCalls
    Abstracts (final (abiStep counterPrimitives) (AbiWorld.new modularPrimitives) hostCalls)
        (runWorld counterPrimitives calls) ∧
      postedAt 1 (abiTrace modularPrimitives counterPrimitives hostCalls) =
        sentLetters ((runWorld counterPrimitives calls).eventsAt 1) :=
  have h := abi_runs_crate counter_encryptTotal modularPrimitives hostRun
  ⟨h.1, (h.2 1).1⟩

/-- **Authenticity across the ABI.** Hosts hold the handles of any number of parties and
the adversary chooses all payloads, packets and the order of all calls. A channel handle of
a session between two honest parties that an initiator opened, or on which anything was
handed out, has a peer: the handle of the session that played the other role over the same
transcript. What was handed out on the handle was posted on its peer, each message once. -/
theorem handed_out_from_the_peer (hencrypt : P.EncryptTotal) (hdecrypt : P.DecryptUndoes)
    (hdh : H.DhCommutes) (honest : VerifyingKey H.toKeyFormat → Prop) (calls : List AbiCall)
    (hkdf : H.CollisionFree {input | input ∈ derivedInputs (handshakeCalls (crateCalls H P calls))})
    (hunforged : UnforgedRun honest (handshakeCalls (crateCalls H P calls)))
    (hfresh : FreshCoins (handshakeCalls (crateCalls H P calls)))
    (hanswers : FreshAnswers (handshakeCalls (crateCalls H P calls))) (horizon : ℕ)
    (hwithin : WithinHorizon P horizon (runWorld P (crateCalls H P calls)))
    (hideal : Follows (worldStep P) (IdealDelivery P honest horizon) World.empty
      (crateCalls H P calls))
    (handle : ℕ) (c : OpenChannel H)
    (hc : (runWorld P (crateCalls H P calls)).channels[handle]? = some c)
    (hprotected : c.Protected honest)
    (hused : c.ending.isRespond = false ∨ handedOutAt handle (abiTrace H P calls) ≠ []) :
    ∃ (peer : ℕ) (d : OpenChannel H),
      PeerOf (runWorld P (crateCalls H P calls)) handle c peer d ∧
        (handedOutAt handle (abiTrace H P calls)).Subperm
          (postedAt peer (abiTrace H P calls)) := by
  have hletters := lettersFromOthers_run hencrypt hdecrypt hwithin hideal
  have hhanded := handedOut_sublist H P calls handle
  rw [World.eventsAt_eq hc] at hhanded
  have haccepted : c.ending.isRespond = false ∨ acceptedLetters c.endpoint.events ≠ [] := by
    refine hused.imp_right fun hne hnil => hne ?_
    rw [hnil] at hhanded
    exact List.sublist_nil.1 hhanded
  obtain ⟨peer, d, hpeer⟩ := exists_peerOf hdh hkdf hunforged hfresh hanswers hletters hc
    hprotected haccepted
  refine ⟨peer, d, hpeer, hhanded.subperm.trans ?_⟩
  rw [postedAt_eq, World.eventsAt_eq hpeer.channel]
  exact hpeer.accepted_subperm hencrypt (own_runs P _) hletters hc hprotected

/-- What the responder is handed out, the initiator has posted. -/
theorem handed_out_from_the_peer_host :
    handedOutAt 0 (abiTrace modularPrimitives counterPrimitives hostCalls) ≠ [] ∧
      ∃ (c d : OpenChannel modularPrimitives) (peer : ℕ),
        PeerOf (runWorld counterPrimitives
          (crateCalls modularPrimitives counterPrimitives hostCalls)) 0 c peer d ∧
        (handedOutAt 0 (abiTrace modularPrimitives counterPrimitives hostCalls)).Subperm
          (postedAt peer (abiTrace modularPrimitives counterPrimitives hostCalls)) := by
  have hhanded : handedOutAt 0 (abiTrace modularPrimitives counterPrimitives hostCalls) ≠ [] := by
    decide +kernel
  obtain ⟨c, hc⟩ : ∃ c, (runWorld counterPrimitives
      (crateCalls modularPrimitives counterPrimitives hostCalls)).channels[0]? = some c :=
    Option.isSome_iff_exists.1 (by decide +kernel)
  obtain ⟨peer, d, hpeer, hletters⟩ := handed_out_from_the_peer counter_encryptTotal
    counter_decryptUndoes modular_dhCommutes (fun _ => True) hostCalls
    (collisionFree_of_forall (by decide +kernel)) (by decide +kernel)
    (by unfold FreshCoins; decide +kernel) (by unfold FreshAnswers; decide +kernel) 2
    (withinHorizon_of_forall (by decide +kernel) (by decide +kernel)) (by decide +kernel) 0 c hc
    ⟨trivial, trivial⟩ (Or.inr hhanded)
  exact ⟨hhanded, c, d, peer, hpeer, hletters⟩

end NullPath
