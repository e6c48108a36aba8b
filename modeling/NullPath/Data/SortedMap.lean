import Mathlib.Order.Defs.LinearOrder
import Mathlib.Data.List.Basic
import Mathlib.Data.List.Nodup
import Mathlib.Data.List.Pairwise
import Mathlib.Data.Finset.Card
import Mathlib.Order.Interval.Finset.Nat

/-!
# Ordered maps as strictly sorted entry lists

`SortedMap κ ν` is an ordered map: a list of entries whose keys increase
strictly, carried together with the proof that they do. The order is what
makes the map a function of its entries (`ext_get?`) and what makes the first
entry the one with the smallest key.

Every operation is described by what `get?` reads afterwards. `evict cap`
pops first entries while more than `cap` are left; `get?_evict` says that it
cuts the map at one key and leaves everything above the cut alone.
-/

/-- An ordered map, as the list of its entries in strictly increasing order of
keys. -/
structure SortedMap (κ ν : Type*) [LinearOrder κ] where
  entries : List (κ × ν)
  sorted : entries.Pairwise (fun x y => x.1 < y.1)

namespace SortedMap

variable {κ ν ν' : Type*} [LinearOrder κ]

/-- The map without entries. -/
def empty : SortedMap κ ν := ⟨[], List.Pairwise.nil⟩

instance : EmptyCollection (SortedMap κ ν) := ⟨empty⟩

/-- The value stored under a key. -/
def get? (m : SortedMap κ ν) (k : κ) : Option ν :=
  (m.entries.find? (fun e => e.1 = k)).map Prod.snd

/-- The number of entries. -/
def len (m : SortedMap κ ν) : ℕ := m.entries.length

@[simp] theorem get?_empty (k : κ) : (∅ : SortedMap κ ν).get? k = none := rfl

theorem ext_entries {m m' : SortedMap κ ν} (h : m.entries = m'.entries) :
    m = m' := by
  cases m
  cases m'
  cases h
  rfl

theorem value_unique (m : SortedMap κ ν) {k : κ} {v w : ν}
    (hv : (k, v) ∈ m.entries) (hw : (k, w) ∈ m.entries) : v = w := by
  by_contra hne
  have hdistinct : m.entries.Pairwise (fun x y => x.1 ≠ y.1) :=
    m.sorted.imp fun hlt => ne_of_lt hlt
  have hpair : (k, v) ≠ (k, w) := fun h => hne (Prod.mk.inj h).2
  have : Std.Symm (fun x y : κ × ν => x.1 ≠ y.1) := ⟨fun _ _ h => h.symm⟩
  exact hdistinct.forall hv hw hpair rfl

theorem get?_eq_some_iff (m : SortedMap κ ν) (k : κ) (v : ν) :
    m.get? k = some v ↔ (k, v) ∈ m.entries := by
  constructor
  · intro h
    obtain ⟨e, he, rfl⟩ := Option.map_eq_some_iff.1 h
    have hkey : e.1 = k := by simpa using List.find?_some he
    have hmem : e ∈ m.entries := List.mem_of_find?_eq_some he
    rw [← hkey]
    exact hmem
  · intro h
    cases hfind : m.entries.find? (fun e => e.1 = k) with
    | none =>
        have hall := List.find?_eq_none.1 hfind (k, v) h
        simp at hall
    | some e =>
        have hkey : e.1 = k := by simpa using List.find?_some hfind
        have hmem : (k, e.2) ∈ m.entries := by
          rw [← hkey]
          exact List.mem_of_find?_eq_some hfind
        rw [get?, hfind, Option.map_some, m.value_unique hmem h]

/-- Two maps with the same reading are equal: their entry lists hold the same
entries and both are sorted. -/
theorem ext_get? {m m' : SortedMap κ ν} (h : ∀ k, m.get? k = m'.get? k) :
    m = m' := by
  have hmem : ∀ e, e ∈ m.entries ↔ e ∈ m'.entries := by
    rintro ⟨k, v⟩
    rw [← get?_eq_some_iff, ← get?_eq_some_iff, h k]
  have hnodup : ∀ m : SortedMap κ ν, m.entries.Nodup := fun m =>
    m.sorted.imp fun hlt heq => (ne_of_lt hlt) (congrArg Prod.fst heq)
  have hperm : m.entries.Perm m'.entries :=
    (List.perm_ext_iff_of_nodup (hnodup m) (hnodup m')).2 hmem
  apply ext_entries
  exact hperm.eq_of_pairwise
    (fun _ _ _ _ hab hba => absurd hab (not_lt.2 hba.le)) m.sorted m'.sorted

/-! ## Insertion and removal -/

/-- Insert an entry at its place, replacing an entry with the same key. -/
def insertEntry (k : κ) (v : ν) : List (κ × ν) → List (κ × ν)
  | [] => [(k, v)]
  | e :: rest =>
      if k < e.1 then (k, v) :: e :: rest
      else if e.1 < k then e :: insertEntry k v rest
      else (k, v) :: rest

theorem key_of_mem_insertEntry {k : κ} {v : ν} {l : List (κ × ν)}
    {e : κ × ν} (h : e ∈ insertEntry k v l) : e = (k, v) ∨ e ∈ l := by
  induction l with
  | nil => simpa [insertEntry] using h
  | cons x rest ih =>
      simp only [insertEntry] at h
      split_ifs at h with hlt hgt
      · simpa using h
      · rcases List.mem_cons.1 h with rfl | hrest
        · exact Or.inr List.mem_cons_self
        · exact (ih hrest).imp_right (List.mem_cons_of_mem _)
      · rcases List.mem_cons.1 h with rfl | hrest
        · exact Or.inl rfl
        · exact Or.inr (List.mem_cons_of_mem _ hrest)

theorem sorted_insertEntry (k : κ) (v : ν) {l : List (κ × ν)}
    (h : l.Pairwise (fun x y => x.1 < y.1)) :
    (insertEntry k v l).Pairwise (fun x y => x.1 < y.1) := by
  induction l with
  | nil => exact List.pairwise_singleton _ _
  | cons x rest ih =>
      obtain ⟨hx, hrest⟩ := List.pairwise_cons.1 h
      simp only [insertEntry]
      split_ifs with hlt hgt
      · refine List.pairwise_cons.2 ⟨fun e he => ?_, h⟩
        rcases List.mem_cons.1 he with rfl | he
        · exact hlt
        · exact hlt.trans (hx e he)
      · refine List.pairwise_cons.2 ⟨fun e he => ?_, ih hrest⟩
        rcases key_of_mem_insertEntry he with rfl | he
        · exact hgt
        · exact hx e he
      · have hkey : k = x.1 := le_antisymm (not_lt.1 hgt) (not_lt.1 hlt)
        refine List.pairwise_cons.2 ⟨fun e he => ?_, hrest⟩
        rw [hkey]
        exact hx e he

/-- Insert an entry, replacing the one with the same key. -/
def insert (m : SortedMap κ ν) (k : κ) (v : ν) : SortedMap κ ν :=
  ⟨insertEntry k v m.entries, sorted_insertEntry k v m.sorted⟩

theorem find?_insertEntry (k : κ) (v : ν) (l : List (κ × ν)) (k' : κ) :
    (insertEntry k v l).find? (fun e => e.1 = k') =
      if k' = k then some (k, v) else l.find? (fun e => e.1 = k') := by
  induction l with
  | nil =>
      by_cases hk : k' = k
      · simp [insertEntry, hk]
      · simp [insertEntry, hk, Ne.symm hk]
  | cons x rest ih =>
      by_cases hk : k' = k
      · subst hk
        simp only [insertEntry]
        split_ifs with hlt hgt
        · simp
        · rw [List.find?_cons_of_neg (by simpa using ne_of_lt hgt), ih, if_pos rfl]
        · simp
      · simp only [insertEntry]
        rw [if_neg hk] at ih ⊢
        split_ifs with hlt hgt
        · rw [List.find?_cons_of_neg (by simpa using Ne.symm hk)]
        · rw [List.find?_cons, List.find?_cons, ih]
        · have hkey : x.1 = k := le_antisymm (not_lt.1 hlt) (not_lt.1 hgt)
          rw [List.find?_cons_of_neg (by simpa using Ne.symm hk),
            List.find?_cons_of_neg (by simpa [hkey] using Ne.symm hk)]

theorem get?_insert (m : SortedMap κ ν) (k : κ) (v : ν) (k' : κ) :
    (m.insert k v).get? k' = if k' = k then some v else m.get? k' := by
  rw [get?, insert, find?_insertEntry]
  split_ifs with hk
  · rfl
  · rfl

/-- Remove the entry with a given key. -/
def erase (m : SortedMap κ ν) (k : κ) : SortedMap κ ν :=
  ⟨m.entries.filter (fun e => e.1 ≠ k), m.sorted.filter _⟩

theorem get?_erase (m : SortedMap κ ν) (k k' : κ) :
    (m.erase k).get? k' = if k' = k then none else m.get? k' := by
  apply Option.ext
  intro v
  rw [get?_eq_some_iff]
  by_cases hk : k' = k
  · simp [erase, hk]
  · simp [erase, hk, get?_eq_some_iff]

theorem len_erase_le (m : SortedMap κ ν) (k : κ) : (m.erase k).len ≤ m.len :=
  List.length_filter_le _ _

/-- Insert every entry of `l` into `m`, in increasing order of keys. -/
def insertAll (m l : SortedMap κ ν) : SortedMap κ ν :=
  l.entries.foldl (fun acc e => acc.insert e.1 e.2) m

theorem get?_foldl_insert (l : List (κ × ν)) (m : SortedMap κ ν) (k : κ)
    (h : l.Pairwise (fun x y => x.1 < y.1)) :
    (l.foldl (fun acc e => acc.insert e.1 e.2) m).get? k =
      ((l.find? (fun e => e.1 = k)).map Prod.snd).or (m.get? k) := by
  induction l generalizing m with
  | nil => simp
  | cons e rest ih =>
      obtain ⟨he, hrest⟩ := List.pairwise_cons.1 h
      rw [List.foldl_cons, ih _ hrest, get?_insert]
      by_cases hk : k = e.1
      · have hnone : rest.find? (fun x => x.1 = k) = none := by
          rw [List.find?_eq_none]
          intro x hx
          simpa [hk] using Ne.symm (ne_of_lt (he x hx))
        rw [hnone, if_pos hk, List.find?_cons_of_pos (by simpa using hk.symm)]
        rfl
      · rw [if_neg hk, List.find?_cons_of_neg (by simpa using Ne.symm hk)]

theorem get?_insertAll (m l : SortedMap κ ν) (k : κ) :
    (m.insertAll l).get? k = (l.get? k).or (m.get? k) :=
  get?_foldl_insert l.entries m k l.sorted

/-! ## The first entry and eviction -/

/-- Remove and return the entry with the smallest key. -/
def popFirst (m : SortedMap κ ν) : Option ((κ × ν) × SortedMap κ ν) :=
  match m with
  | ⟨[], _⟩ => none
  | ⟨e :: rest, h⟩ => some (e, ⟨rest, h.of_cons⟩)

/-- Drop first entries while more than `cap` are left. -/
def evictEntries (cap : ℕ) : List (κ × ν) → List (κ × ν)
  | [] => []
  | e :: rest =>
      if cap < (e :: rest).length then evictEntries cap rest else e :: rest

omit [LinearOrder κ] in
theorem evictEntries_eq_drop (cap : ℕ) (l : List (κ × ν)) :
    evictEntries cap l = l.drop (l.length - cap) := by
  induction l with
  | nil => simp [evictEntries]
  | cons e rest ih =>
      rw [evictEntries]
      split_ifs with hcap
      · have hlen : (e :: rest).length - cap = (rest.length - cap) + 1 := by
          rw [List.length_cons] at hcap ⊢
          omega
        rw [ih, hlen, List.drop_succ_cons]
      · have hlen : (e :: rest).length - cap = 0 := by omega
        rw [hlen, List.drop_zero]

/-- Pop first entries while more than `cap` are left. -/
def evict (cap : ℕ) (m : SortedMap κ ν) : SortedMap κ ν :=
  ⟨evictEntries cap m.entries, by
    rw [evictEntries_eq_drop]
    exact m.sorted.sublist (List.drop_sublist _ _)⟩

theorem evict_eq_popFirst (cap : ℕ) (m : SortedMap κ ν) :
    m.evict cap =
      match m.popFirst with
      | none => m
      | some (_, rest) => if cap < m.len then rest.evict cap else m := by
  obtain ⟨entries, sorted⟩ := m
  cases entries with
  | nil => rfl
  | cons e rest =>
      apply ext_entries
      by_cases hcap : cap < (e :: rest).length
      · have hlen : cap < len ⟨e :: rest, sorted⟩ := hcap
        simp only [popFirst, if_pos hlen, evict, evictEntries, if_pos hcap]
      · have hlen : ¬ cap < len ⟨e :: rest, sorted⟩ := hcap
        simp only [popFirst, if_neg hlen, evict, evictEntries, if_neg hcap]

theorem len_evict (cap : ℕ) (m : SortedMap κ ν) :
    (m.evict cap).len = min m.len cap := by
  simp only [len, evict, evictEntries_eq_drop, List.length_drop]
  omega

theorem mem_of_mem_evict {cap : ℕ} {m : SortedMap κ ν} {e : κ × ν}
    (h : e ∈ (m.evict cap).entries) : e ∈ m.entries := by
  simp only [evict, evictEntries_eq_drop] at h
  exact List.mem_of_mem_drop h

theorem get?_of_get?_evict {cap : ℕ} {m : SortedMap κ ν} {k : κ} {v : ν}
    (h : (m.evict cap).get? k = some v) : m.get? k = some v :=
  (m.get?_eq_some_iff k v).2 (mem_of_mem_evict (((m.evict cap).get?_eq_some_iff k v).1 h))

theorem evict_of_len_le {cap : ℕ} {m : SortedMap κ ν} (h : m.len ≤ cap) :
    m.evict cap = m := by
  apply ext_entries
  simp only [len] at h
  simp only [evict, evictEntries_eq_drop, Nat.sub_eq_zero_of_le h, List.drop_zero]

/-- A map over capacity is cut at the last key popped: what lies above that
key is kept, everything else is gone. -/
theorem get?_evict {cap : ℕ} {m : SortedMap κ ν} (h : cap < m.len) :
    ∃ cut v, m.get? cut = some v ∧
      ∀ k, (m.evict cap).get? k = if cut < k then m.get? k else none := by
  have hpos : m.len - cap - 1 < m.entries.length := by
    simp only [len] at h ⊢
    omega
  set e := m.entries[m.len - cap - 1]
  set front := m.entries.take (m.len - cap - 1)
  -- The entries split at the last popped one.
  have hsplit : m.entries = front ++ e :: (m.evict cap).entries := by
    have hdrop : (m.evict cap).entries = m.entries.drop (m.len - cap - 1 + 1) := by
      simp only [evict, evictEntries_eq_drop]
      congr 1
      simp only [len] at h ⊢
      omega
    rw [hdrop, List.getElem_cons_drop hpos, List.take_append_drop]
  have hsorted := m.sorted
  rw [hsplit] at hsorted
  obtain ⟨_, hback, hfront⟩ := List.pairwise_append.1 hsorted
  have habove := (List.pairwise_cons.1 hback).1
  refine ⟨e.1, e.2, (m.get?_eq_some_iff _ _).2 (List.getElem_mem hpos), fun k => ?_⟩
  apply Option.ext
  intro v
  split_ifs with hk
  · rw [get?_eq_some_iff, get?_eq_some_iff]
    refine ⟨mem_of_mem_evict, fun hmem => ?_⟩
    rw [hsplit] at hmem
    rcases List.mem_append.1 hmem with hmem | hmem
    · exact absurd (hfront _ hmem e List.mem_cons_self) (not_lt.2 hk.le)
    · rcases List.mem_cons.1 hmem with heq | hmem
      · exact absurd hk (by rw [← heq]; exact lt_irrefl k)
      · exact hmem
  · rw [get?_eq_some_iff]
    refine ⟨fun hmem => absurd (habove _ hmem) hk, fun hnone => ?_⟩
    cases hnone

theorem len_le_add_of_keys_mem {m : SortedMap κ ν} {m' : SortedMap κ ν'} {f : κ → ℕ}
    (hf : StrictMono f) {lo hi : ℕ}
    (h : ∀ k v, m.get? k = some v → (∃ w, m'.get? k = some w) ∨ (lo ≤ f k ∧ f k < hi)) :
    m.len ≤ m'.len + (hi - lo) := by
  have hnodup : (m.entries.map (fun e => f e.1)).Nodup := by
    rw [List.nodup_iff_pairwise_ne, List.pairwise_map]
    exact m.sorted.imp fun hlt => ne_of_lt (hf hlt)
  set old := (m'.entries.map (fun e => f e.1)).toFinset with hold
  have hsub : (m.entries.map (fun e => f e.1)).toFinset ⊆ old ∪ Finset.Ico lo hi := by
    intro n hn
    obtain ⟨e, he, rfl⟩ := List.mem_map.1 (List.mem_toFinset.1 hn)
    rcases h e.1 e.2 ((m.get?_eq_some_iff _ _).2 he) with ⟨w, hw⟩ | hrange
    · apply Finset.mem_union_left
      rw [hold, List.mem_toFinset]
      exact List.mem_map.2 ⟨(e.1, w), (m'.get?_eq_some_iff _ _).1 hw, rfl⟩
    · exact Finset.mem_union_right _ (Finset.mem_Ico.2 hrange)
  have hcard : old.card ≤ m'.len := by
    refine (List.toFinset_card_le _).trans ?_
    rw [List.length_map, len]
  calc m.len = (m.entries.map (fun e => f e.1)).toFinset.card := by
        rw [List.toFinset_card_of_nodup hnodup, List.length_map, len]
    _ ≤ (old ∪ Finset.Ico lo hi).card := Finset.card_le_card hsub
    _ ≤ old.card + (Finset.Ico lo hi).card := Finset.card_union_le _ _
    _ ≤ m'.len + (hi - lo) := by
        rw [Nat.card_Ico]
        exact Nat.add_le_add_right hcard _

theorem len_le_of_keys_mem {m : SortedMap κ ν} {f : κ → ℕ} (hf : StrictMono f)
    {lo hi : ℕ} (h : ∀ k v, m.get? k = some v → lo ≤ f k ∧ f k < hi) :
    m.len ≤ hi - lo := by
  have hlen : m.len ≤ (∅ : SortedMap κ ν).len + (hi - lo) :=
    len_le_add_of_keys_mem hf fun k v hget => Or.inr (h k v hget)
  rwa [show (∅ : SortedMap κ ν).len = 0 from rfl, Nat.zero_add] at hlen

/-! ## Mapping the values -/

/-- Apply a function to every value. -/
def map (f : ν → ν') (m : SortedMap κ ν) : SortedMap κ ν' :=
  ⟨m.entries.map (fun e => (e.1, f e.2)), m.sorted.map _ (fun _ _ h => h)⟩

@[simp] theorem map_empty (f : ν → ν') : (∅ : SortedMap κ ν).map f = ∅ := rfl

theorem get?_map (f : ν → ν') (m : SortedMap κ ν) (k : κ) :
    (m.map f).get? k = (m.get? k).map f := by
  rw [get?, get?, map, List.find?_map, Option.map_map, Option.map_map]
  rfl

theorem map_insert (f : ν → ν') (m : SortedMap κ ν) (k : κ) (v : ν) :
    (m.insert k v).map f = (m.map f).insert k (f v) := by
  apply ext_get?
  intro k'
  rw [get?_map, get?_insert, get?_insert, get?_map]
  split_ifs <;> rfl

theorem map_erase (f : ν → ν') (m : SortedMap κ ν) (k : κ) :
    (m.erase k).map f = (m.map f).erase k := by
  apply ext_get?
  intro k'
  rw [get?_map, get?_erase, get?_erase, get?_map]
  split_ifs <;> rfl

theorem map_insertAll (f : ν → ν') (m l : SortedMap κ ν) :
    (m.insertAll l).map f = (m.map f).insertAll (l.map f) := by
  apply ext_get?
  intro k'
  rw [get?_map, get?_insertAll, get?_insertAll, get?_map, get?_map]
  cases l.get? k' <;> rfl

theorem map_evict (f : ν → ν') (cap : ℕ) (m : SortedMap κ ν) :
    (m.evict cap).map f = (m.map f).evict cap := by
  apply ext_entries
  simp only [map, evict, evictEntries_eq_drop, List.map_drop, List.length_map]

end SortedMap
