import NullPath.Data.SortedMap
import Mathlib.Data.Finset.Image
import Mathlib.Data.Finset.Max

/-!
# The newest elements of a set

`newest capacity s` keeps the largest `capacity` elements of `s`: those with fewer
than `capacity` elements above them. This is what eviction leaves of the keys of an
ordered map (`keySet_evict`).
-/

namespace Finset

variable {α β : Type*} [LinearOrder α] [LinearOrder β]

/-- The largest `capacity` elements. -/
def newest (capacity : ℕ) (s : Finset α) : Finset α :=
  s.filter fun a => (s.filter (a < ·)).card < capacity

theorem mem_newest {capacity : ℕ} {s : Finset α} {a : α} :
    a ∈ s.newest capacity ↔ a ∈ s ∧ (s.filter (a < ·)).card < capacity :=
  mem_filter

theorem newest_subset (capacity : ℕ) (s : Finset α) : s.newest capacity ⊆ s :=
  filter_subset _ _

theorem mem_newest_of_le {capacity : ℕ} {s : Finset α} {a b : α} (ha : a ∈ s.newest capacity)
    (hb : b ∈ s) (hle : a ≤ b) : b ∈ s.newest capacity := by
  refine mem_newest.2 ⟨hb, lt_of_le_of_lt (card_le_card ?_) (mem_newest.1 ha).2⟩
  intro c hc
  obtain ⟨hmem, hlt⟩ := mem_filter.1 hc
  exact mem_filter.2 ⟨hmem, hle.trans_lt hlt⟩

/-- At most `capacity` elements are kept: of those above the smallest kept one there are
fewer. -/
theorem card_newest_le (capacity : ℕ) (s : Finset α) : (s.newest capacity).card ≤ capacity := by
  rcases (s.newest capacity).eq_empty_or_nonempty with hempty | hne
  · rw [hempty, card_empty]
    exact Nat.zero_le _
  · set least := (s.newest capacity).min' hne
    have hleast : least ∈ s.newest capacity := min'_mem _ hne
    have hsub : s.newest capacity ⊆ insert least (s.filter (least < ·)) := by
      intro a ha
      rcases eq_or_lt_of_le (min'_le _ a ha) with heq | hlt
      · exact mem_insert.2 (Or.inl heq.symm)
      · exact mem_insert_of_mem (mem_filter.2 ⟨newest_subset _ _ ha, hlt⟩)
    calc (s.newest capacity).card ≤ (insert least (s.filter (least < ·))).card :=
          card_le_card hsub
      _ ≤ (s.filter (least < ·)).card + 1 := card_insert_le _ _
      _ ≤ capacity := (mem_newest.1 hleast).2

theorem newest_image {f : α → β} (hf : StrictMono f) (capacity : ℕ) (s : Finset α) :
    (s.image f).newest capacity = (s.newest capacity).image f := by
  have habove : ∀ a, ((s.image f).filter (f a < ·)).card = (s.filter (a < ·)).card := by
    intro a
    rw [filter_image, card_image_of_injective _ hf.injective]
    simp only [hf.lt_iff_lt]
  apply ext
  intro b
  rw [mem_newest, mem_image, mem_image]
  constructor
  · rintro ⟨⟨a, ha, rfl⟩, hcard⟩
    rw [habove] at hcard
    exact ⟨a, mem_newest.2 ⟨ha, hcard⟩, rfl⟩
  · rintro ⟨a, ha, rfl⟩
    obtain ⟨hmem, hcard⟩ := mem_newest.1 ha
    rw [habove]
    exact ⟨⟨a, hmem, rfl⟩, hcard⟩

end Finset

namespace SortedMap

variable {κ ν : Type*} [LinearOrder κ]

/-- The keys of a map. -/
def keySet (m : SortedMap κ ν) : Finset κ := (m.entries.map Prod.fst).toFinset

theorem mem_keySet {m : SortedMap κ ν} {k : κ} : k ∈ m.keySet ↔ ∃ v, m.get? k = some v := by
  rw [keySet, List.mem_toFinset, List.mem_map]
  constructor
  · rintro ⟨⟨k', v⟩, hmem, rfl⟩
    exact ⟨v, (m.get?_eq_some_iff k' v).2 hmem⟩
  · rintro ⟨v, hget⟩
    exact ⟨(k, v), (m.get?_eq_some_iff k v).1 hget, rfl⟩

theorem card_keySet (m : SortedMap κ ν) : m.keySet.card = m.len := by
  have hnodup : (m.entries.map Prod.fst).Nodup := by
    rw [List.nodup_iff_pairwise_ne, List.pairwise_map]
    exact m.sorted.imp fun hlt => ne_of_lt hlt
  rw [keySet, List.toFinset_card_of_nodup hnodup, List.length_map, len]

theorem keySet_map {ν' : Type*} (f : ν → ν') (m : SortedMap κ ν) :
    (m.map f).keySet = m.keySet := by
  rw [keySet, keySet, map, List.map_map]
  rfl

theorem keySet_erase (m : SortedMap κ ν) (k : κ) : (m.erase k).keySet = m.keySet.erase k := by
  apply Finset.ext
  intro k'
  rw [mem_keySet, Finset.mem_erase, mem_keySet, get?_erase]
  by_cases hk : k' = k
  · simp [hk]
  · simp [hk]

/-- Eviction leaves the newest keys. -/
theorem keySet_evict (cap : ℕ) (m : SortedMap κ ν) :
    (m.evict cap).keySet = m.keySet.newest cap := by
  by_cases hfull : cap < m.len
  · obtain ⟨cut, v, hcut, hevict⟩ := get?_evict hfull
    have hkept : (m.evict cap).keySet = m.keySet.filter (cut < ·) := by
      apply Finset.ext
      intro k
      rw [mem_keySet, Finset.mem_filter, mem_keySet, hevict k]
      by_cases hk : cut < k
      · simp [hk]
      · simp [hk]
    have hcard : (m.keySet.filter (cut < ·)).card = cap := by
      rw [← hkept, card_keySet, len_evict, min_eq_right hfull.le]
    rw [hkept]
    apply Finset.ext
    intro k
    rw [Finset.mem_filter, Finset.mem_newest, and_congr_right_iff]
    intro hmem
    constructor
    · intro hlt
      -- `k` itself is above the cut, so fewer are above `k`.
      refine lt_of_lt_of_eq (Finset.card_lt_card ?_) hcard
      refine (Finset.ssubset_iff_of_subset ?_).2 ⟨k, Finset.mem_filter.2 ⟨hmem, hlt⟩, ?_⟩
      · exact fun a ha => Finset.mem_filter.2
          ⟨(Finset.mem_filter.1 ha).1, hlt.trans (Finset.mem_filter.1 ha).2⟩
      · exact fun hself => lt_irrefl k (Finset.mem_filter.1 hself).2
    · intro hfew
      by_contra hle
      refine absurd hfew (not_lt.2 (hcard ▸ Finset.card_le_card fun a ha => ?_))
      exact Finset.mem_filter.2
        ⟨(Finset.mem_filter.1 ha).1, (not_lt.1 hle).trans_lt (Finset.mem_filter.1 ha).2⟩
  · have hle := not_lt.1 hfull
    rw [evict_of_len_le hle]
    apply Finset.ext
    intro k
    rw [Finset.mem_newest]
    refine ⟨fun hmem => ⟨hmem, ?_⟩, And.left⟩
    refine lt_of_lt_of_le (Finset.card_lt_card ?_) ((card_keySet m).le.trans hle)
    exact (Finset.ssubset_iff_of_subset (Finset.filter_subset _ _)).2
      ⟨k, hmem, fun hself => lt_irrefl k (Finset.mem_filter.1 hself).2⟩

end SortedMap
