import NullPath.Crypto.Primitives
import Mathlib.Logic.Function.Iterate

/-!
# Ratchet keys and slot selection

A ratchet key is 32 bytes; `deriveNext` moves it one step along a hash chain,
and `selectSlot` picks a path from the MAC of a message id under the key.

The channel handles keys only through these two readings, so its code is
written for any key type with the operations `KeyOps`. At `RatchetKey.ops` it
is the code of the crate. At `positionOps` a key is its position on the chain,
the number of `deriveNext` steps from the root key, and the same code then
tracks which chain key is used where.
-/

namespace NullPath

/-- A 256-bit symmetric ratchet key. -/
structure RatchetKey where
  bytes : Bytes 32
  deriving DecidableEq

namespace RatchetKey

/-- `next_key = SHA256(b"decoypath-v1-ratchet-advance:" || current_key)`. -/
def deriveNext (P : Primitives) (key : RatchetKey) : RatchetKey :=
  ⟨P.sha256 (ascii "decoypath-v1-ratchet-advance:" ++ key.bytes.toList)⟩

end RatchetKey

/-- What the channel does with a key: step it forward, or use its bytes. The
sanctioned copy `duplicate_for_target_use` is the identity on values. -/
structure KeyOps (κ : Type*) where
  deriveNext : κ → κ
  bytes : κ → Bytes 32

/-- The operations of the crate's own keys. -/
def RatchetKey.ops (P : Primitives) : KeyOps RatchetKey where
  deriveNext := RatchetKey.deriveNext P
  bytes := RatchetKey.bytes

/-- The `n`-th key of the chain that starts at `root`. -/
def chain {κ : Type*} (K : KeyOps κ) (root : κ) (n : ℕ) : κ := K.deriveNext^[n] root

/-- The operations of chain positions: a step adds one, and the bytes are read
off the chain. -/
def positionOps {κ : Type*} (K : KeyOps κ) (root : κ) : KeyOps ℕ where
  deriveNext := Nat.succ
  bytes n := K.bytes (chain K root n)

section Chain

variable {κ : Type*} (K : KeyOps κ) (root : κ)

theorem chain_succ (n : ℕ) : chain K root (n + 1) = K.deriveNext (chain K root n) :=
  Function.iterate_succ_apply' K.deriveNext n root

theorem iterate_deriveNext_chain (t n : ℕ) :
    K.deriveNext^[t] (chain K root n) = chain K root (n + t) := by
  rw [chain, chain, ← Function.iterate_add_apply, Nat.add_comm]

/-- The chain of positions counts. -/
theorem chain_positionOps (p n : ℕ) : chain (positionOps K root) p n = p + n := by
  induction n with
  | zero => rfl
  | succ n ih =>
      rw [chain_succ, ih]
      rfl

/-- The first `n + 1` chain keys are pairwise distinct. -/
def ChainDistinct (n : ℕ) : Prop :=
  ∀ i j, i < j → j ≤ n → chain K root i ≠ chain K root j

variable {K root}

theorem ChainDistinct.index_eq {n i j : ℕ} (h : ChainDistinct K root n)
    (hi : i ≤ n) (hj : j ≤ n) (heq : chain K root i = chain K root j) : i = j := by
  rcases Nat.lt_trichotomy i j with hlt | rfl | hgt
  · exact (h i j hlt hj heq).elim
  · rfl
  · exact (h j i hgt hi heq.symm).elim

end Chain

/-- Select a path slot in `[0, n_paths)` from the MAC of the message id. The
first eight bytes of the MAC, read big-endian, are reduced modulo the path
count. -/
def selectSlot (P : Primitives) (key messageId : List UInt8) (nPaths : ℕ) :
    Except PathEngineError ℕ :=
  if nPaths = 0 then
    .error .InvalidPathCount
  else
    match P.hmacSha256 key messageId with
    | none => .error .HmacFailure
    | some codeBytes =>
        let rawVal := ofBeBytes (codeBytes.toList.extract 0 8)
        .ok (rawVal % nPaths)

theorem selectSlot_lt {P : Primitives} {key messageId : List UInt8} {nPaths slot : ℕ}
    (h : selectSlot P key messageId nPaths = .ok slot) : slot < nPaths := by
  unfold selectSlot at h
  split_ifs at h with hzero
  cases hmac : P.hmacSha256 key messageId with
  | none => simp [hmac] at h
  | some codeBytes =>
      simp only [hmac, Except.ok.injEq] at h
      rw [← h]
      exact Nat.mod_lt _ (Nat.pos_of_ne_zero hzero)

theorem exists_selectSlot {P : Primitives} (hmac : P.HmacTotal) (key : Bytes 32)
    (messageId : List UInt8) {nPaths : ℕ} (h : nPaths ≠ 0) :
    ∃ slot, selectSlot P key.toList messageId nPaths = .ok slot := by
  obtain ⟨codeBytes, hcode⟩ := Option.isSome_iff_exists.1 (hmac key messageId)
  simp [selectSlot, h, hcode]

end NullPath
