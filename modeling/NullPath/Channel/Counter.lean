import NullPath.Channel.Run
import NullPath.Crypto.Counter

/-!
# Runs with counting keys

With the keys of `counterPrimitives` the chain from zero does not repeat before
the numbers of 32 bytes run out, and runs of the channel can be evaluated.
-/

namespace NullPath

/-- The key that is the number `n`. -/
def counterKey (n : ℕ) : RatchetKey := ⟨⟨beBytes 32 n, length_beBytes _ _⟩⟩

theorem deriveNext_counterKey {n : ℕ} (h : n < 256 ^ 32) :
    RatchetKey.deriveNext counterPrimitives (counterKey n) = counterKey (n + 1) := by
  have hbytes : (ascii "decoypath-v1-ratchet-advance:" ++ beBytes 32 n).drop 29 =
      beBytes 32 n := List.drop_left' (by decide)
  apply congrArg RatchetKey.mk
  apply List.Vector.toList_injective
  change beBytes 32 (ofBeBytes
    ((ascii "decoypath-v1-ratchet-advance:" ++ beBytes 32 n).drop 29) + 1) = beBytes 32 (n + 1)
  rw [hbytes, ofBeBytes_beBytes h]

theorem chain_counter {n : ℕ} (h : n < 256 ^ 32) :
    chain (RatchetKey.ops counterPrimitives) (counterKey 0) n = counterKey n := by
  induction n with
  | zero => rfl
  | succ n ih =>
      have hn : n < 256 ^ 32 := Nat.lt_of_succ_lt h
      rw [chain_succ, ih hn]
      exact deriveNext_counterKey hn

theorem counterKey_injective {m n : ℕ} (hm : m < 256 ^ 32) (hn : n < 256 ^ 32)
    (h : counterKey m = counterKey n) : m = n := by
  have hbytes := congrArg (fun key : RatchetKey => key.bytes.toList) h
  exact beBytes_injective hm hn hbytes

theorem counter_chainDistinct {n : ℕ} (h : n < 256 ^ 32) :
    ChainDistinct (RatchetKey.ops counterPrimitives) (counterKey 0) n := by
  intro i j hij hj heq
  have hj' := Nat.lt_of_le_of_lt hj h
  have hi' := Nat.lt_trans hij hj'
  rw [chain_counter hi', chain_counter hj'] at heq
  exact Nat.ne_of_lt hij (counterKey_injective hi' hj' heq)

/-- A message sent with all random bytes zero, and the decoy keys beyond every
number the chain reaches in practice. -/
def counterSend (payload messageId : List UInt8) : SendArgs where
  coins :=
    { realCoins := ⟨List.Vector.replicate 12 0, List.Vector.replicate 992 0⟩
      decoyCoins := fun _ => ⟨List.Vector.replicate 32 255, List.Vector.replicate 128 0,
        List.Vector.replicate 12 0, List.Vector.replicate 992 0⟩ }
  payload := payload
  messageId := messageId

/-- The packets of a sender's run, in the order of their numbers. -/
def counterPackets (nPaths : ℕ) (sends : List SendArgs) : List Packet :=
  outbox (runTrace counterPrimitives (RatchetKey.ops counterPrimitives) (counterKey 0) nPaths
    (sends.map Call.send))

/-- The arrivals of packets, all at one reading of the clock. -/
def arrivals (packets : List Packet) : List ReceiveArgs :=
  packets.map fun packet => packet.arrive 0

end NullPath
