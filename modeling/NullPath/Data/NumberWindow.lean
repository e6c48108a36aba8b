import NullPath.Data.Newest
import Mathlib.Order.Interval.Finset.Nat

/-!
# Taking numbers once, within a window

Numbers are taken in any order, each at most once. A window remembers which may still
be taken: the next in-order number and those after it, as far as `skip` reaches, and of
the earlier ones the newest `capacity` that were passed over (`waiting`).

`TakenState` is what holds once a list of numbers was taken. No number is taken twice,
no more than `capacity` are waiting, and a number that was passed over waits for as long
as it lies within `capacity` of the latest one; beyond that, the oldest give way first.
-/

/-- Which numbers may still be taken. -/
structure NumberWindow where
  next : ℕ
  waiting : Finset ℕ
  deriving DecidableEq

namespace NumberWindow

/-- Nothing was taken. -/
def empty : NumberWindow := ⟨0, ∅⟩

/-- The numbers that may be taken: forward ones that skip at most `skip` past the
latest, and the waiting ones. -/
def Open (skip : ℕ) (w : NumberWindow) (n : ℕ) : Prop :=
  (w.next ≤ n ∧ n ≤ w.next - 1 + skip) ∨ n ∈ w.waiting

instance (skip : ℕ) (w : NumberWindow) (n : ℕ) : Decidable (w.Open skip n) :=
  inferInstanceAs (Decidable (_ ∨ _))

/-- Take a number: a forward one leaves those it passes over waiting. -/
def take (capacity : ℕ) (w : NumberWindow) (n : ℕ) : NumberWindow :=
  if w.next ≤ n then ⟨n + 1, (w.waiting ∪ Finset.Ico w.next n).newest capacity⟩
  else ⟨w.next, w.waiting.erase n⟩

variable {skip capacity : ℕ} {w : NumberWindow} {n : ℕ}

theorem take_forward (h : w.next ≤ n) :
    w.take capacity n = ⟨n + 1, (w.waiting ∪ Finset.Ico w.next n).newest capacity⟩ :=
  if_pos h

theorem take_late (h : n < w.next) : w.take capacity n = ⟨w.next, w.waiting.erase n⟩ :=
  if_neg (Nat.not_le.2 h)

/-- How a window fits the numbers taken so far. -/
structure TakenState (capacity : ℕ) (taken : List ℕ) (w : NumberWindow) : Prop where
  nodup : taken.Nodup
  taken_lt : ∀ n ∈ taken, n < w.next
  waiting_lt : ∀ n ∈ w.waiting, n < w.next
  waiting_not_taken : ∀ n ∈ w.waiting, n ∉ taken
  card_le : w.waiting.card ≤ capacity
  newer_waits : ∀ n ∈ w.waiting, ∀ m, n ≤ m → m < w.next → m ∉ taken → m ∈ w.waiting
  near_waits : ∀ n < w.next, w.next ≤ n + capacity + 1 → n ∉ taken → n ∈ w.waiting

namespace TakenState

variable {taken : List ℕ}

theorem empty (capacity : ℕ) : TakenState capacity [] NumberWindow.empty where
  nodup := List.nodup_nil
  taken_lt _ h := absurd h List.not_mem_nil
  waiting_lt _ h := absurd h (Finset.notMem_empty _)
  waiting_not_taken _ h := absurd h (Finset.notMem_empty _)
  card_le := Nat.zero_le _
  newer_waits _ h := absurd h (Finset.notMem_empty _)
  near_waits _ h := absurd h (Nat.not_lt_zero _)

theorem mem_passed (h : TakenState capacity taken w) {m : ℕ} (hforward : w.next ≤ n)
    (hm : m ∈ w.waiting ∪ Finset.Ico w.next n) : m < n ∧ m ∉ taken := by
  rcases Finset.mem_union.1 hm with hold | hnew
  · exact ⟨(h.waiting_lt m hold).trans_le hforward, h.waiting_not_taken m hold⟩
  · obtain ⟨hle, hlt⟩ := Finset.mem_Ico.1 hnew
    exact ⟨hlt, fun hmem => absurd (h.taken_lt m hmem) (Nat.not_lt.2 hle)⟩

theorem forward (h : TakenState capacity taken w) (hforward : w.next ≤ n) :
    TakenState capacity (taken ++ [n]) (w.take capacity n) := by
  rw [take_forward hforward]
  have hfresh : n ∉ taken := fun hmem => absurd (h.taken_lt n hmem) (Nat.not_lt.2 hforward)
  have hpassed := fun m (hm : m ∈ (w.waiting ∪ Finset.Ico w.next n).newest capacity) =>
    h.mem_passed hforward (Finset.newest_subset _ _ hm)
  have hbelow : ∀ m < n + 1, m ∉ taken ++ [n] → m < n ∧ m ∉ taken := by
    intro m hlt hnot
    rw [List.mem_append, List.mem_singleton, not_or] at hnot
    exact ⟨Nat.lt_of_le_of_ne (Nat.le_of_lt_succ hlt) hnot.2, hnot.1⟩
  refine ⟨?_, ?_, ?_, ?_, Finset.card_newest_le _ _, ?_, ?_⟩
  · rw [← List.concat_eq_append]
    exact List.Nodup.concat hfresh h.nodup
  · intro m hm
    rcases List.mem_append.1 hm with hold | hnew
    · exact ((h.taken_lt m hold).trans_le hforward).trans (Nat.lt_succ_self n)
    · exact List.mem_singleton.1 hnew ▸ Nat.lt_succ_self n
  · exact fun m hm => (hpassed m hm).1.trans (Nat.lt_succ_self n)
  · intro m hm hmem
    rcases List.mem_append.1 hmem with hold | hnew
    · exact (hpassed m hm).2 hold
    · exact Nat.ne_of_lt (hpassed m hm).1 (List.mem_singleton.1 hnew)
  · intro a ha m hle hlt hnot
    obtain ⟨hmlt, hmnot⟩ := hbelow m hlt hnot
    refine Finset.mem_newest_of_le ha (Finset.mem_union.2 ?_) hle
    by_cases hold : m < w.next
    · rcases Finset.mem_union.1 (Finset.newest_subset _ _ ha) with haold | hanew
      · exact Or.inl (h.newer_waits a haold m hle hold hmnot)
      · exact absurd ((Finset.mem_Ico.1 hanew).1.trans hle) (Nat.not_le.2 hold)
    · exact Or.inr (Finset.mem_Ico.2 ⟨Nat.le_of_not_lt hold, hmlt⟩)
  · intro m hlt hnear hnot
    change n + 1 ≤ m + capacity + 1 at hnear
    obtain ⟨hmlt, hmnot⟩ := hbelow m hlt hnot
    refine Finset.mem_newest.2 ⟨Finset.mem_union.2 ?_, ?_⟩
    · by_cases hold : m < w.next
      · exact Or.inl (h.near_waits m hold (by omega) hmnot)
      · exact Or.inr (Finset.mem_Ico.2 ⟨Nat.le_of_not_lt hold, hmlt⟩)
    · -- What waits above `m` lies strictly between `m` and `n`.
      refine lt_of_le_of_lt (Finset.card_le_card (t := Finset.Ioo m n) fun a ha => ?_) ?_
      · obtain ⟨hmem, habove⟩ := Finset.mem_filter.1 ha
        exact Finset.mem_Ioo.2 ⟨habove, (h.mem_passed hforward hmem).1⟩
      · rw [Nat.card_Ioo]
        omega

theorem late (h : TakenState capacity taken w) (hwaiting : n ∈ w.waiting) :
    TakenState capacity (taken ++ [n]) (w.take capacity n) := by
  have hlt := h.waiting_lt n hwaiting
  rw [take_late hlt]
  have hkept : ∀ m, m ∈ w.waiting → m ∉ taken ++ [n] → m ∈ w.waiting.erase n := by
    intro m hm hnot
    rw [List.mem_append, List.mem_singleton, not_or] at hnot
    exact Finset.mem_erase.2 ⟨hnot.2, hm⟩
  have hold : ∀ m, m ∉ taken ++ [n] → m ∉ taken := fun m hnot hm =>
    hnot (List.mem_append_left _ hm)
  refine ⟨?_, ?_, fun m hm => h.waiting_lt m (Finset.mem_of_mem_erase hm), ?_,
    (Finset.card_erase_le).trans h.card_le, ?_, ?_⟩
  · rw [← List.concat_eq_append]
    exact List.Nodup.concat (h.waiting_not_taken n hwaiting) h.nodup
  · intro m hm
    rcases List.mem_append.1 hm with hm | hm
    · exact h.taken_lt m hm
    · exact List.mem_singleton.1 hm ▸ hlt
  · intro m hm hmem
    obtain ⟨hne, hm⟩ := Finset.mem_erase.1 hm
    rcases List.mem_append.1 hmem with hmem | hmem
    · exact h.waiting_not_taken m hm hmem
    · exact hne (List.mem_singleton.1 hmem)
  · intro a ha m hle hmlt hnot
    exact hkept m (h.newer_waits a (Finset.mem_of_mem_erase ha) m hle hmlt (hold m hnot)) hnot
  · intro m hmlt hnear hnot
    exact hkept m (h.near_waits m hmlt hnear (hold m hnot)) hnot

/-- Taking an open number keeps the window in order. -/
theorem take (h : TakenState capacity taken w) (hopen : w.Open skip n) :
    TakenState capacity (taken ++ [n]) (w.take capacity n) := by
  rcases hopen with ⟨hforward, _⟩ | hwaiting
  · exact h.forward hforward
  · exact h.late hwaiting

/-- The waiting numbers are those above a mark that were passed over, and the mark lies
`capacity` behind the latest number. -/
theorem exists_mark (h : TakenState capacity taken w) :
    ∃ low ≤ w.next - 1 - capacity,
      ∀ n, n ∈ w.waiting ↔ low ≤ n ∧ n < w.next ∧ n ∉ taken := by
  have hnear : ∀ n, w.next - 1 - capacity ≤ n → n < w.next → n ∉ taken → n ∈ w.waiting :=
    fun n hle hlt hnot => h.near_waits n hlt (by omega) hnot
  rcases w.waiting.eq_empty_or_nonempty with hempty | hne
  · refine ⟨w.next - 1 - capacity, Nat.le_refl _, fun n => ⟨fun hn => ?_, fun hn => ?_⟩⟩
    · rw [hempty] at hn
      exact absurd hn (Finset.notMem_empty n)
    · exact hnear n hn.1 hn.2.1 hn.2.2
  · refine ⟨min (w.waiting.min' hne) (w.next - 1 - capacity), min_le_right _ _,
      fun n => ⟨fun hn => ?_, fun ⟨hle, hlt, hnot⟩ => ?_⟩⟩
    · exact ⟨(min_le_left _ _).trans (Finset.min'_le _ n hn), h.waiting_lt n hn,
        h.waiting_not_taken n hn⟩
    · rcases min_le_iff.1 hle with hleast | hclose
      · exact h.newer_waits _ (Finset.min'_mem _ hne) n hleast hlt hnot
      · exact hnear n hclose hlt hnot

end TakenState

end NumberWindow
