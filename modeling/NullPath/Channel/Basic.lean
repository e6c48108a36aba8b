import NullPath.AntiReplay.Basic
import NullPath.Data.SortedMap
import NullPath.Decoy.Basic
import NullPath.PathEngine.Basic

/-!
# The secure channel

The channel holds the next chain key, the skipped keys by sequence number, one
counter for each direction and the anti-replay store. `send` and `receive`
return their result together with the state they leave behind, since a call
that fails may already have written to the channel.

`receive` runs in five steps. Steps 1 to 3 only read the channel, so they are
one function `authenticate`; Step 4 asks the anti-replay store, which may write
even when it rejects; Step 5 is `commit`. Sequence numbers are 64-bit and wrap
as release builds do.
-/

namespace NullPath

abbrev maxSkipWindow : ℕ := 1000

abbrev maxSkippedKeys : ℕ := 1000

abbrev maxMessageIdLen : ℕ := 256

structure SecureChannel (κ : Type*) where
  lastSeq : Option UInt64
  sendSeq : Option UInt64
  currentKey : κ
  skippedKeys : SortedMap UInt64 κ
  antiReplay : AntiReplayStore
  nPaths : ℕ

/-- `b"decoypath-v1-msg-aad:" || seq.to_be_bytes() || message_id`. -/
def constructAad (seq : UInt64) (messageId : List UInt8) : List UInt8 :=
  ascii "decoypath-v1-msg-aad:" ++ beBytes 8 seq.toNat ++ messageId

/-- The random bytes of one `send`: those of the real envelope, and those of
the decoy in each slot. -/
structure SendCoins where
  realCoins : SealCoins
  decoyCoins : ℕ → DecoyCoins

/-- The sequence number of the next `send`: the first is 0, and the counter
wraps. -/
def nextSendSeq : Option UInt64 → UInt64
  | none => 0
  | some s => s + 1

/-- What Step 1 of `receive` hands on: the key to open with, and what a forward
arrival commits. -/
structure Target (κ : Type*) where
  targetKey : κ
  nextRatchetKey : Option κ
  localSkipped : SortedMap UInt64 κ
  isForward : Bool

/-- The skip loop `for s in start..`: store a copy of the running key under
each sequence number and step the key, `count` times. -/
def skipLoop {κ : Type*} (K : KeyOps κ) :
    ℕ → UInt64 → κ → SortedMap UInt64 κ → κ × SortedMap UInt64 κ
  | 0, _, runner, localSkipped => (runner, localSkipped)
  | count + 1, s, runner, localSkipped =>
      skipLoop K count (s + 1) (K.deriveNext runner) (localSkipped.insert s runner)

namespace SecureChannel

variable {κ : Type*}

/-- A channel over a shared root key, before any message. -/
def new (rootKey : κ) (nPaths : ℕ) : SecureChannel κ :=
  { lastSeq := none, sendSeq := none, currentKey := rootKey, skippedKeys := ∅,
    antiReplay := AntiReplayStore.new, nPaths := nPaths }

/-- Encrypt a payload and distribute it over the path slots. -/
def send (P : Primitives) (K : KeyOps κ) (channel : SecureChannel κ) (coins : SendCoins)
    (payload messageId : List UInt8) :
    Except ChannelError (List Envelope) × SecureChannel κ :=
  if messageId.length > maxMessageIdLen then
    (.error .InvalidMessageId, channel)
  else
    let seq := nextSendSeq channel.sendSeq
    match selectSlot P (K.bytes channel.currentKey).toList messageId channel.nPaths with
    | .error _ => (.error .DecoyFailure, channel)
    | .ok validSlot =>
        let aad := constructAad seq messageId
        match Envelope.seal P coins.realCoins (K.bytes channel.currentKey) payload aad with
        | .error _ => (.error .AuthenticationFailed, channel)
        | .ok realEnvelope =>
            -- The ratchet is advanced before the last fallible call.
            let channel' := { channel with
              currentKey := K.deriveNext channel.currentKey, sendSeq := some seq }
            match generateMultiPathSlots P coins.decoyCoins realEnvelope validSlot
                channel.nPaths aad with
            | .error _ => (.error .DecoyFailure, channel')
            | .ok slots => (.ok slots, channel')

/-- Step 1: compute or borrow the key for `seq`, without writing to the
channel. -/
def computeTargetKey (K : KeyOps κ) (channel : SecureChannel κ) (seq : UInt64)
    (messageId : List UInt8) : Except ChannelError (Target κ) :=
  match channel.lastSeq with
  | none =>
      if seq = 0 then
        .ok { targetKey := channel.currentKey,
              nextRatchetKey := some (K.deriveNext channel.currentKey),
              localSkipped := ∅, isForward := true }
      else if seq.toNat > maxSkipWindow then
        .error .InvalidSequence
      else
        let (runner, localSkipped) := skipLoop K seq.toNat 0 channel.currentKey ∅
        .ok { targetKey := runner, nextRatchetKey := some (K.deriveNext runner),
              localSkipped := localSkipped, isForward := true }
  | some last =>
      if seq > last then
        let skipCount := seq - last
        if skipCount.toNat > maxSkipWindow then
          .error .InvalidSequence
        else
          let start := last + 1
          let (runner, localSkipped) :=
            skipLoop K (seq.toNat - start.toNat) start channel.currentKey ∅
          .ok { targetKey := runner, nextRatchetKey := some (K.deriveNext runner),
                localSkipped := localSkipped, isForward := true }
      else
        match channel.skippedKeys.get? seq with
        | some key =>
            .ok { targetKey := key, nextRatchetKey := none, localSkipped := ∅,
                  isForward := false }
        | none =>
            if channel.antiReplay.contains seq messageId then .error .ReplayedSequence
            else .error .SkippedKeyExpired

/-- Steps 1 to 3 behind the length checks: find the key, select the slot and
open its envelope. Nothing is written. -/
def authenticate (P : Primitives) (K : KeyOps κ) (channel : SecureChannel κ)
    (envelopes : List Envelope) (seq : UInt64) (messageId : List UInt8) :
    Except ChannelError (Target κ × List UInt8) :=
  if messageId.length > maxMessageIdLen then
    .error .InvalidMessageId
  else if envelopes.length < channel.nPaths then
    .error .DecoyFailure
  else
    match computeTargetKey K channel seq messageId with
    | .error e => .error e
    | .ok target =>
        match selectSlot P (K.bytes target.targetKey).toList messageId channel.nPaths with
        | .error _ => .error .DecoyFailure
        | .ok slotIdx =>
            match envelopes[slotIdx]? with
            | none => .error .DecoyFailure
            | some envelope =>
                match Envelope.open P (K.bytes target.targetKey) envelope
                    (constructAad seq messageId) with
                | .error _ => .error .AuthenticationFailed
                | .ok payload => .ok (target, payload)

/-- Pop the smallest sequence numbers while the table is over capacity. -/
def evictOldestSkippedKeys (channel : SecureChannel κ) : SecureChannel κ :=
  { channel with skippedKeys := channel.skippedKeys.evict maxSkippedKeys }

/-- Step 5: write the outcome of an authenticated packet. A forward arrival
merges the skipped keys and moves the ratchet; an out-of-order arrival only
removes its consumed key. -/
def commit (channel : SecureChannel κ) (seq : UInt64) (target : Target κ) : SecureChannel κ :=
  if target.isForward then
    -- `nextRatchetKey` is unwrapped here; a forward target always has one.
    let merged := { channel with
      skippedKeys := channel.skippedKeys.insertAll target.localSkipped }
    { merged.evictOldestSkippedKeys with
      lastSeq := some seq, currentKey := target.nextRatchetKey.getD channel.currentKey }
  else
    { channel with skippedKeys := channel.skippedKeys.erase seq }

/-- Authenticate a packet and, if it is fresh, commit it. -/
def receive (P : Primitives) (K : KeyOps κ) (channel : SecureChannel κ) (now : Instant)
    (envelopes : List Envelope) (seq : UInt64) (messageId : List UInt8) :
    Except ChannelError (List UInt8) × SecureChannel κ :=
  match authenticate P K channel envelopes seq messageId with
  | .error e => (.error e, channel)
  | .ok (target, payload) =>
      let (fresh, antiReplay) := channel.antiReplay.checkAndInsert now seq messageId
      let channel' := { channel with antiReplay := antiReplay }
      if fresh then (.ok payload, channel'.commit seq target)
      else (.error .ReplayedSequence, channel')

end SecureChannel

end NullPath
