import NullPath.Data.Bytes

/-!
# Checked computations with a cost

A `Checked` computation counts the steps it is charged for and stops with a
`Panic` at an operation that has no result: an index or a slice out of bounds,
an array conversion of the wrong length, an unwrapped `none`, or arithmetic
out of range. `usize` has 64 bits.

`Returns x a k` says that `x` reaches no such operation, returns `a` and charges
`k` steps. Each operation has one rule, and the rules compose along `bind`.
-/

/-- The operations that have no result. -/
inductive Panic
  | arithmeticOverflow
  | divisionByZero
  | indexOutOfBounds
  | lengthMismatch
  | unwrapNone
  deriving DecidableEq, Repr

/-- A computation that counts its charged steps and may panic. -/
abbrev Checked := StateT ℕ (Except Panic)

namespace Checked

variable {α β : Type}

/-- Charge one step. -/
def charge : Checked Unit := fun n => .ok ((), n + 1)

/-- Stop the computation. -/
def abort (panic : Panic) : Checked α := fun _ => .error panic

def addU64 (a b : UInt64) : Checked UInt64 :=
  if a.toNat + b.toNat < 2 ^ 64 then pure (a + b) else abort .arithmeticOverflow

def subU64 (a b : UInt64) : Checked UInt64 :=
  if b ≤ a then pure (a - b) else abort .arithmeticOverflow

def addUsize (a b : ℕ) : Checked ℕ :=
  if a + b < 2 ^ 64 then pure (a + b) else abort .arithmeticOverflow

def rem (a b : ℕ) : Checked ℕ :=
  if b = 0 then abort .divisionByZero else pure (a % b)

/-- The element at an index, `l[i]`. -/
def index (l : List α) (i : ℕ) : Checked α :=
  match l[i]? with
  | some a => pure a
  | none => abort .indexOutOfBounds

/-- The elements in a range, `l[start..stop]`. -/
def slice (l : List α) (start stop : ℕ) : Checked (List α) :=
  if start ≤ stop ∧ stop ≤ l.length then pure (l.extract start stop)
  else abort .indexOutOfBounds

/-- A slice as an array of `n` bytes. -/
def toArray (n : ℕ) (l : List UInt8) : Checked (Bytes n) :=
  if h : l.length = n then pure (Bytes.ofList l h) else abort .lengthMismatch

def unwrap (o : Option α) : Checked α :=
  match o with
  | some a => pure a
  | none => abort .unwrapNone

/-- The computation reaches no failing operation, returns `a` and charges `k`
steps. -/
def Returns (x : Checked α) (a : α) (k : ℕ) : Prop := ∀ n, x n = .ok (a, n + k)

namespace Returns

theorem pure (a : α) : Returns (Pure.pure a) a 0 := fun _ => rfl

theorem bind {x : Checked α} {f : α → Checked β} {a : α} {b : β} {k m : ℕ}
    (hx : Returns x a k) (hf : Returns (f a) b m) : Returns (x >>= f) b (k + m) := by
  intro n
  change (x n).bind (fun result => f result.1 result.2) = _
  rw [hx n]
  change f a (n + k) = _
  rw [hf, Nat.add_assoc]

theorem free_bind {x : Checked α} {f : α → Checked β} {a : α} {b : β} {k : ℕ}
    (hx : Returns x a 0) (hf : Returns (f a) b k) : Returns (x >>= f) b k := by
  have h := bind hx hf
  rwa [Nat.zero_add] at h

theorem charge : Returns charge () 1 := fun _ => rfl

theorem addU64 {a b : UInt64} (h : a.toNat + b.toNat < 2 ^ 64) :
    Returns (addU64 a b) (a + b) 0 := by
  rw [Checked.addU64, if_pos h]
  exact pure _

theorem subU64 {a b : UInt64} (h : b ≤ a) : Returns (subU64 a b) (a - b) 0 := by
  rw [Checked.subU64, if_pos h]
  exact pure _

theorem addUsize {a b : ℕ} (h : a + b < 2 ^ 64) : Returns (addUsize a b) (a + b) 0 := by
  rw [Checked.addUsize, if_pos h]
  exact pure _

theorem rem {a b : ℕ} (h : b ≠ 0) : Returns (rem a b) (a % b) 0 := by
  rw [Checked.rem, if_neg h]
  exact pure _

theorem index {l : List α} {i : ℕ} {a : α} (h : l[i]? = some a) :
    Returns (index l i) a 0 := by
  rw [Checked.index, h]
  exact pure a

theorem slice {l : List α} {start stop : ℕ} (hstart : start ≤ stop) (hstop : stop ≤ l.length) :
    Returns (slice l start stop) (l.extract start stop) 0 := by
  rw [Checked.slice, if_pos ⟨hstart, hstop⟩]
  exact pure _

theorem toArray {n : ℕ} {l : List UInt8} (h : l.length = n) :
    Returns (toArray n l) (Bytes.ofList l h) 0 := by
  rw [Checked.toArray, dif_pos h]
  exact pure _

theorem unwrap (a : α) : Returns (unwrap (some a)) a 0 := pure a

end Returns

end Checked
