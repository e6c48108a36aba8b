import NullPath.Transition.Trace
import Mathlib.Data.List.Nodup
import Mathlib.Data.Set.Basic
import Mathlib.Logic.Function.Basic

/-!
# Ownership of issued handles

A component issues resources under fresh handles, and their owner gives every
handle back at most once. The ledger records what was issued, what was given back
and what the component has released; a handle is live while it is issued and not
released.

If the component takes every handle it is given, each of them has been released
exactly once (`Settled.move`). A handle that it does not take stays live for good,
because the owner must not give it back again (`not_settled_of_not_taken`).

A heap keeps the issued resources in boxes. What happens to its boxes is a move of
its ledger (`Moved.ledger_move`), and its boxes are those of the live handles
(`Owned`).
-/

namespace Transition

/-- The history of the handles. -/
structure Ledger (ρ : Type*) where
  issued : List ρ
  passed : List ρ
  released : List ρ

/-- What a call can do to the handles. -/
inductive Move (ρ : Type*)
  | issue (r : ρ)
  | giveBack (r : ρ) (taken : Bool)
  | idle

/-- The handle that a call is given back. -/
def Move.givenBack {ρ : Type*} : Move ρ → Option ρ
  | .giveBack r _ => some r
  | _ => none

namespace Ledger

variable {ρ : Type*}

def live (ledger : Ledger ρ) : Set ρ := {r | r ∈ ledger.issued ∧ r ∉ ledger.released}

theorem mem_live {ledger : Ledger ρ} {r : ρ} :
    r ∈ ledger.live ↔ r ∈ ledger.issued ∧ r ∉ ledger.released := Iff.rfl

def move (ledger : Ledger ρ) : Move ρ → Ledger ρ
  | .issue r => { ledger with issued := ledger.issued ++ [r] }
  | .giveBack r true =>
      { ledger with passed := ledger.passed ++ [r], released := ledger.released ++ [r] }
  | .giveBack r false => { ledger with passed := ledger.passed ++ [r] }
  | .idle => ledger

/-- The component issues fresh handles, and the owner gives back what it was issued
and has not given back before. -/
def Allows (ledger : Ledger ρ) : Move ρ → Prop
  | .issue r => r ∉ ledger.issued
  | .giveBack r _ => r ∈ ledger.issued ∧ r ∉ ledger.passed
  | .idle => True

/-- Every handle that is given back is taken. -/
def Taken : Move ρ → Prop
  | .giveBack _ taken => taken = true
  | _ => True

/-- Handles are released after they were given back, and given back after they were
issued. -/
structure Tracked (ledger : Ledger ρ) : Prop where
  issued_of_passed : ∀ r ∈ ledger.passed, r ∈ ledger.issued
  passed_of_released : ∀ r ∈ ledger.released, r ∈ ledger.passed

theorem Tracked.move {ledger : Ledger ρ} (h : Tracked ledger) {m : Move ρ}
    (hallowed : ledger.Allows m) : Tracked (ledger.move m) := by
  cases m with
  | idle => exact h
  | issue r =>
      exact ⟨fun q hq => List.mem_append_left _ (h.issued_of_passed q hq), h.passed_of_released⟩
  | giveBack r taken =>
      have hissued : ∀ q ∈ ledger.passed ++ [r], q ∈ ledger.issued :=
        forall_mem_concat.2 ⟨h.issued_of_passed, hallowed.1⟩
      have hreleased : ∀ q ∈ ledger.released, q ∈ ledger.passed ++ [r] :=
        fun q hq => List.mem_append_left _ (h.passed_of_released q hq)
      cases taken with
      | false => exact ⟨hissued, hreleased⟩
      | true =>
          exact ⟨hissued, forall_mem_concat.2
            ⟨hreleased, List.mem_append_right _ List.mem_cons_self⟩⟩

theorem Tracked.not_released {ledger : Ledger ρ} (h : Tracked ledger) {r : ρ}
    (hr : r ∉ ledger.passed) : r ∉ ledger.released :=
  fun hreleased => hr (h.passed_of_released r hreleased)

variable [DecidableEq ρ]

/-- Every handle that was given back has been released exactly once. -/
def Settled (ledger : Ledger ρ) : Prop :=
  ∀ r ∈ ledger.passed, r ∉ ledger.live ∧ ledger.released.count r = 1

theorem settled_iff {ledger : Ledger ρ} :
    ledger.Settled ↔ ∀ r ∈ ledger.passed, ledger.released.count r = 1 := by
  constructor
  · exact fun h r hr => (h r hr).2
  · intro h r hr
    have hmem : r ∈ ledger.released := List.count_pos_iff.1 (by rw [h r hr]; exact Nat.one_pos)
    exact ⟨fun hlive => hlive.2 hmem, h r hr⟩

theorem Settled.nodup_released {ledger : Ledger ρ} (hsettled : ledger.Settled)
    (h : Tracked ledger) : ledger.released.Nodup := by
  rw [List.nodup_iff_count_le_one]
  intro r
  by_cases hr : r ∈ ledger.released
  · exact (hsettled r (h.passed_of_released r hr)).2.le
  · rw [List.count_eq_zero.2 hr]
    exact Nat.zero_le 1

/-- What is taken is settled. -/
theorem Settled.move {ledger : Ledger ρ} (hsettled : ledger.Settled) (h : Tracked ledger)
    {m : Move ρ} (hallowed : ledger.Allows m) (htaken : Taken m) : (ledger.move m).Settled := by
  rw [settled_iff] at hsettled ⊢
  cases m with
  | idle => exact hsettled
  | issue r => exact hsettled
  | giveBack r taken =>
      have htrue : taken = true := htaken
      subst htrue
      change ∀ q ∈ ledger.passed ++ [r], (ledger.released ++ [r]).count q = 1
      rw [forall_mem_concat]
      constructor
      · intro q hq
        have hne : r ≠ q := fun heq => hallowed.2 (heq ▸ hq)
        rw [List.count_append, hsettled q hq, List.count_singleton, beq_false_of_ne hne]
        rfl
      · rw [List.count_append, List.count_eq_zero.2 (h.not_released hallowed.2),
          List.count_singleton_self]

/-- What is given back and not taken is not released. -/
theorem not_settled_of_not_taken {ledger : Ledger ρ} (h : Tracked ledger) {m : Move ρ}
    (hallowed : ledger.Allows m) (hkept : ¬ Taken m) : ¬ (ledger.move m).Settled := by
  rw [settled_iff]
  cases m with
  | idle => exact absurd trivial hkept
  | issue r => exact absurd trivial hkept
  | giveBack r taken =>
      cases taken with
      | true => exact absurd rfl hkept
      | false =>
          intro hsettled
          have hcount : ledger.released.count r = 1 :=
            hsettled r (List.mem_append_right _ List.mem_cons_self)
          rw [List.count_eq_zero.2 (h.not_released hallowed.2)] at hcount
          cases hcount

end Ledger

/-! ## Heaps -/

/-- Boxes under numbers that are not used again, with a log of the released ones. -/
structure Heap (α : Type*) where
  boxes : ℕ → Option α
  allocated : ℕ
  released : List ℕ

namespace Heap

variable {α : Type*}

def empty (α : Type*) : Heap α := ⟨fun _ => none, 0, []⟩

/-- A new box; its handle is `allocated`. -/
def alloc (heap : Heap α) (a : α) : Heap α :=
  { heap with
    boxes := Function.update heap.boxes heap.allocated (some a)
    allocated := heap.allocated + 1 }

/-- Another value in a box. -/
def set (heap : Heap α) (handle : ℕ) (a : α) : Heap α :=
  { heap with boxes := Function.update heap.boxes handle (some a) }

/-- The box of a handle is dropped. -/
def free (heap : Heap α) (handle : ℕ) : Heap α :=
  { heap with
    boxes := Function.update heap.boxes handle none
    released := heap.released ++ [handle] }

/-- The ledger of a heap, with what the owner gave back. -/
def ledger (heap : Heap α) (passed : List ℕ) : Ledger ℕ :=
  ⟨List.range heap.allocated, passed, heap.released⟩

/-- What happens to a heap in one move. -/
inductive Moved (heap : Heap α) : Move ℕ → Heap α → Prop
  | idle : Moved heap .idle heap
  | alloc (a : α) : Moved heap (.issue heap.allocated) (heap.alloc a)
  | free (handle : ℕ) : Moved heap (.giveBack handle true) (heap.free handle)
  | keep (handle : ℕ) : Moved heap (.giveBack handle false) heap

theorem Moved.ledger_move {heap heap' : Heap α} {m : Move ℕ} (h : heap.Moved m heap')
    (passed : List ℕ) :
    heap'.ledger (passed ++ m.givenBack.toList) = (heap.ledger passed).move m := by
  cases h with
  | idle => exact congrArg heap.ledger (List.append_nil passed)
  | alloc a =>
      change Ledger.mk (List.range (heap.allocated + 1)) (passed ++ []) heap.released = _
      rw [List.range_succ, List.append_nil]
      rfl
  | free handle => rfl
  | keep handle => rfl

theorem Moved.allows {heap heap' : Heap α} {m : Move ℕ} (h : heap.Moved m heap')
    {passed : List ℕ} (howner : ∀ r ∈ m.givenBack, r < heap.allocated ∧ r ∉ passed) :
    (heap.ledger passed).Allows m := by
  cases h with
  | idle => trivial
  -- A new handle is fresh; only what is given back asks something of the owner.
  | alloc a => exact fun hmem => absurd (List.mem_range.1 hmem) (Nat.lt_irrefl _)
  | free handle =>
      obtain ⟨hissued, hpassed⟩ := howner handle rfl
      exact ⟨List.mem_range.2 hissued, hpassed⟩
  | keep handle =>
      obtain ⟨hissued, hpassed⟩ := howner handle rfl
      exact ⟨List.mem_range.2 hissued, hpassed⟩

/-- The ledger is in order, and the live handles are those with a box. -/
structure Owned (heap : Heap α) (passed : List ℕ) : Prop where
  tracked : (heap.ledger passed).Tracked
  boxed : ∀ r, (heap.boxes r).isSome ↔ r ∈ (heap.ledger passed).live

theorem owned_empty : Owned (empty α) [] := by
  constructor
  · exact ⟨fun _ hr => absurd hr List.not_mem_nil, fun _ hr => absurd hr List.not_mem_nil⟩
  · intro r
    exact iff_of_false Bool.false_ne_true fun hlive => absurd hlive.1 List.not_mem_nil

theorem Owned.allocated_not_released {heap : Heap α} {passed : List ℕ}
    (h : heap.Owned passed) : heap.allocated ∉ heap.released := by
  intro hmem
  have hissued := h.tracked.issued_of_passed _ (h.tracked.passed_of_released _ hmem)
  exact absurd (List.mem_range.1 hissued) (Nat.lt_irrefl _)

theorem Owned.boxed_alloc {heap : Heap α} {passed : List ℕ} (h : heap.Owned passed) (a : α)
    (r : ℕ) : ((heap.alloc a).boxes r).isSome ↔
      r < heap.allocated + 1 ∧ r ∉ heap.released := by
  by_cases hr : r = heap.allocated
  · subst hr
    have hbox : (heap.alloc a).boxes heap.allocated = some a := Function.update_self _ _ _
    rw [hbox]
    exact iff_of_true rfl ⟨Nat.lt_succ_self _, h.allocated_not_released⟩
  · have hbox : (heap.alloc a).boxes r = heap.boxes r := Function.update_of_ne hr _ _
    have hlt : r < heap.allocated + 1 ↔ r < heap.allocated :=
      Nat.lt_succ_iff_lt_or_eq.trans (or_iff_left hr)
    rw [hbox, hlt, ← List.mem_range]
    exact h.boxed r

theorem Owned.boxed_free {heap : Heap α} {passed : List ℕ} (h : heap.Owned passed)
    (handle r : ℕ) : ((heap.free handle).boxes r).isSome ↔
      r < heap.allocated ∧ r ∉ heap.released ++ [handle] := by
  by_cases hr : r = handle
  · subst hr
    have hbox : (heap.free r).boxes r = none := Function.update_self _ _ _
    rw [hbox]
    exact iff_of_false Bool.false_ne_true
      fun hlive => hlive.2 (List.mem_append_right _ List.mem_cons_self)
  · have hbox : (heap.free handle).boxes r = heap.boxes r := Function.update_of_ne hr _ _
    have hmem : r ∈ heap.released ++ [handle] ↔ r ∈ heap.released := by
      rw [List.mem_append, List.mem_singleton, or_iff_left hr]
    rw [hbox, hmem, ← List.mem_range]
    exact h.boxed r

/-- An allowed move keeps the heap in order. -/
theorem Owned.moved {heap heap' : Heap α} {passed : List ℕ} {m : Move ℕ}
    (h : heap.Owned passed) (hmoved : heap.Moved m heap')
    (hallowed : (heap.ledger passed).Allows m) :
    heap'.Owned (passed ++ m.givenBack.toList) := by
  constructor
  · rw [hmoved.ledger_move]
    exact h.tracked.move hallowed
  · intro r
    cases hmoved with
    | idle => exact h.boxed r
    | keep handle => exact h.boxed r
    | alloc a =>
        rw [Ledger.mem_live]
        exact (h.boxed_alloc a r).trans (and_congr_left' List.mem_range.symm)
    | free handle =>
        rw [Ledger.mem_live]
        exact (h.boxed_free handle r).trans (and_congr_left' List.mem_range.symm)

theorem Owned.settled_iff {heap : Heap α} {passed : List ℕ} (h : heap.Owned passed) :
    (heap.ledger passed).Settled ↔
      ∀ r ∈ passed, heap.boxes r = none ∧ heap.released.count r = 1 := by
  have hgone : ∀ r, r ∉ (heap.ledger passed).live ↔ heap.boxes r = none := fun r => by
    rw [← h.boxed r, Option.not_isSome_iff_eq_none]
  exact forall₂_congr fun r _ => and_congr_left' (hgone r)

end Heap

end Transition
