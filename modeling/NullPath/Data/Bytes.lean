import Mathlib.Data.Vector.Basic
import Mathlib.Order.Defs.LinearOrder
import Mathlib.Order.Monotone.Defs

/-!
# Byte strings and machine integers

Fixed-size byte arrays are lists that carry their length. Buffers are filled
by copying byte strings to offsets (`overwrite`) and read by cutting slices
(`Bytes.slice`); `overwrite_append` turns a buffer that is filled from left to
right into a concatenation of its parts.

`beBytes w n` is the big-endian encoding of `n` in `w` bytes and `ofBeBytes`
reads it back. A decoder that accepts the encodings and nothing else makes a
codec (`IsCodec`). The order on 64-bit integers is the order of their values.
-/

/-- A byte array of fixed size. -/
abbrev Bytes (n : ℕ) := List.Vector UInt8 n

/-- The bytes of an ASCII byte-string literal. -/
def ascii (s : String) : List UInt8 := s.toList.map (fun c => UInt8.ofNat c.toNat)

/-! ## Buffers -/

/-- Copy `src` into a buffer, starting at offset `start`. -/
def overwrite {α : Type*} (buf : List α) (start : ℕ) (src : List α) : List α :=
  buf.take start ++ src ++ buf.drop (start + src.length)

theorem overwrite_append {α : Type*} {filled rest src : List α} {start : ℕ}
    (h : filled.length = start) :
    overwrite (filled ++ rest) start src = (filled ++ src) ++ rest.drop src.length := by
  subst h
  rw [overwrite, List.take_left, List.drop_append, Nat.add_sub_cancel_left,
    List.drop_eq_nil_of_le (Nat.le_add_right _ _), List.nil_append]

theorem overwrite_zeros {filled src : List UInt8} {start n : ℕ} (h : filled.length = start) :
    overwrite (filled ++ List.replicate n 0) start src =
      (filled ++ src) ++ List.replicate (n - src.length) 0 := by
  rw [overwrite_append h, List.drop_replicate]

theorem overwrite_zeros_start {src : List UInt8} {n : ℕ} :
    overwrite (List.replicate n 0) 0 src = src ++ List.replicate (n - src.length) 0 :=
  @overwrite_zeros [] src 0 n rfl

theorem extract_append_middle {α : Type*} {before part after : List α} {start stop : ℕ}
    (hstart : before.length = start) (hstop : start + part.length = stop) :
    (before ++ part ++ after).extract start stop = part := by
  subst hstart
  subst hstop
  rw [List.extract_eq_take_drop, List.append_assoc, List.drop_left,
    Nat.add_sub_cancel_left, List.take_left]

theorem extract_append_extract {α : Type*} {l : List α} {i j k : ℕ} (hij : i ≤ j) (hjk : j ≤ k) :
    l.extract i j ++ l.extract j k = l.extract i k := by
  simp only [List.extract_eq_take_drop]
  rw [← Nat.sub_add_sub_cancel hjk hij, Nat.add_comm, List.take_add, List.drop_drop,
    Nat.add_sub_cancel' hij]

theorem length_extract_of_le {α : Type*} {l : List α} {i j n : ℕ} (h : l.length = n)
    (hj : j ≤ n) : (l.extract i j).length = j - i := by
  rw [List.extract_eq_take_drop, List.length_take, List.length_drop, h]
  omega

theorem extract_all {α : Type*} {l : List α} {n : ℕ} (h : l.length = n) : l.extract 0 n = l := by
  simp [← h]

namespace Bytes

/-- The bytes from offset `start` up to `stop`. -/
def slice {n : ℕ} (b : Bytes n) (start stop : ℕ) (h : stop ≤ n) : Bytes (stop - start) :=
  ⟨b.toList.extract start stop, length_extract_of_le b.toList_length h⟩

/-- A byte string of the right length as an array. -/
def ofList {n : ℕ} (l : List UInt8) (h : l.length = n) : Bytes n := ⟨l, h⟩

@[simp] theorem toList_ofList {n : ℕ} (l : List UInt8) (h : l.length = n) :
    (ofList l h).toList = l := rfl

theorem append_inj {n : ℕ} {a b : Bytes n} {l m : List UInt8} :
    a.toList ++ l = b.toList ++ m ↔ a = b ∧ l = m := by
  constructor
  · intro h
    obtain ⟨hbytes, hrest⟩ := List.append_inj h (by simp)
    exact ⟨List.Vector.toList_injective hbytes, hrest⟩
  · rintro ⟨rfl, rfl⟩
    rfl

@[simp] theorem toList_slice {n : ℕ} (b : Bytes n) (start stop : ℕ) (h : stop ≤ n) :
    (b.slice start stop h).toList = b.toList.extract start stop := rfl

end Bytes

/-! ## Big-endian numbers -/

/-- The big-endian encoding of `n` in `w` bytes, which keeps `n` modulo
`256 ^ w`. -/
def beBytes : ℕ → ℕ → List UInt8
  | 0, _ => []
  | w + 1, n => beBytes w (n / 256) ++ [UInt8.ofNat n]

/-- The number that a byte string encodes in big-endian order. -/
def ofBeBytes (l : List UInt8) : ℕ := l.foldl (fun acc b => acc * 256 + b.toNat) 0

@[simp] theorem length_beBytes (w n : ℕ) : (beBytes w n).length = w := by
  induction w generalizing n with
  | zero => rfl
  | succ w ih => rw [beBytes, List.length_append, ih, List.length_singleton]

theorem ofBeBytes_beBytes {w n : ℕ} (h : n < 256 ^ w) : ofBeBytes (beBytes w n) = n := by
  induction w generalizing n with
  | zero =>
      rw [Nat.pow_zero, Nat.lt_one_iff] at h
      rw [h]
      rfl
  | succ w ih =>
      have hdiv : n / 256 < 256 ^ w := by
        rw [Nat.div_lt_iff_lt_mul (by decide), ← Nat.pow_succ]
        exact h
      have hprefix := ih hdiv
      rw [ofBeBytes] at hprefix
      rw [ofBeBytes, beBytes, List.foldl_append, hprefix]
      change n / 256 * 256 + (UInt8.ofNat n).toNat = n
      rw [UInt8.toNat_ofNat']
      omega

theorem beBytes_ofBeBytes {w : ℕ} {l : List UInt8} (h : l.length = w) :
    beBytes w (ofBeBytes l) = l := by
  induction w generalizing l with
  | zero => rw [List.length_eq_zero_iff.1 h, beBytes]
  | succ w ih =>
      have hne : l ≠ [] := List.ne_nil_of_length_eq_add_one h
      obtain ⟨front, last, rfl⟩ := (List.eq_nil_or_concat' l).resolve_left hne
      have hfront : front.length = w := by simpa using h
      have hvalue : ofBeBytes (front ++ [last]) = ofBeBytes front * 256 + last.toNat := by
        simp [ofBeBytes]
      have hlast := last.toNat_lt
      have hlow : UInt8.ofNat (ofBeBytes front * 256 + last.toNat) = last := by
        rw [← UInt8.toNat_inj, UInt8.toNat_ofNat']
        omega
      rw [beBytes, hvalue, hlow, show (ofBeBytes front * 256 + last.toNat) / 256 =
        ofBeBytes front by omega, ih hfront]

theorem beBytes_injective {w n n' : ℕ} (hn : n < 256 ^ w) (hn' : n' < 256 ^ w)
    (h : beBytes w n = beBytes w n') : n = n' := by
  rw [← ofBeBytes_beBytes hn, ← ofBeBytes_beBytes hn', h]

/-! ## Codecs -/

/-- `decode` accepts the encodings and nothing else, and returns what was
encoded. -/
def IsCodec {α β ε : Type*} (encode : α → List β) (decode : List β → Except ε α) : Prop :=
  ∀ a l, decode l = .ok a ↔ encode a = l

namespace IsCodec

variable {α β ε : Type*} {encode : α → List β} {decode : List β → Except ε α}

theorem decode_encode (h : IsCodec encode decode) (a : α) : decode (encode a) = .ok a :=
  (h a (encode a)).2 rfl

theorem decode_injective (h : IsCodec encode decode) {a : α} {l m : List β}
    (hl : decode l = .ok a) (hm : decode m = .ok a) : l = m :=
  ((h a l).1 hl).symm.trans ((h a m).1 hm)

theorem exists_decode_iff (h : IsCodec encode decode) {l : List β} :
    (∃ a, decode l = .ok a) ↔ ∃ a, encode a = l :=
  exists_congr fun a => h a l

theorem map {γ : Type*} (h : IsCodec encode decode) (e : α ≃ γ) :
    IsCodec (fun c => encode (e.symm c)) (fun l => (decode l).map e) := by
  intro c l
  change (decode l).map e = .ok c ↔ encode (e.symm c) = l
  rw [← h (e.symm c) l]
  cases decode l with
  | error err => simp [Except.map]
  | ok a =>
      simp only [Except.map, Except.ok.injEq]
      exact (Equiv.eq_symm_apply e).symm

end IsCodec

/-! ## The order of 64-bit integers -/

instance UInt64.instLinearOrder : LinearOrder UInt64 where
  le_refl := UInt64.le_refl
  le_trans _ _ _ := UInt64.le_trans
  le_antisymm _ _ := UInt64.le_antisymm
  le_total := UInt64.le_total
  lt_iff_le_not_ge a b := by
    rw [UInt64.lt_iff_toNat_lt, UInt64.le_iff_toNat_le, UInt64.le_iff_toNat_le]
    omega
  toDecidableLE := inferInstance
  toDecidableLT := inferInstance
  toDecidableEq := inferInstance

namespace UInt64

theorem strictMono_toNat : StrictMono UInt64.toNat := fun _ _ h =>
  UInt64.lt_iff_toNat_lt.1 h

theorem toNat_add_one_of_lt {a : UInt64} {n : ℕ} (h : a.toNat < n) (hn : n < 2 ^ 64) :
    (a + 1).toNat = a.toNat + 1 := by
  rw [UInt64.toNat_add, UInt64.toNat_one]
  exact Nat.mod_eq_of_lt (by omega)

end UInt64
