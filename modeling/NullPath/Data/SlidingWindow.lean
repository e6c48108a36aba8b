import Mathlib.Data.List.Basic
import Mathlib.Data.List.DropRight

/-!
# Sliding windows over a log

A log lists entries with the time at which each was made, in order. Its window
at a time holds the entries that are among the last `c` and not older than `w`.

A queue that pops expired entries at its head, and one entry more when it is
full before it pushes, holds this window: popping at the head is filtering,
because the times of a log do not decrease (`dropWhile_expired`,
`filter_window`), and making room before a push keeps the last `c`
(`window_concat`).
-/

namespace SlidingWindow

variable {α : Type*}

/-- The entries among the last `c` of a log that are not older than `w`. -/
def window (c w now : ℕ) (log : List (α × ℕ)) : List (α × ℕ) :=
  (log.rtake c).filter fun e => now - e.2 ≤ w

/-- The times of a log do not decrease, and none lies after `now`. -/
structure IsLog (log : List (α × ℕ)) (now : ℕ) : Prop where
  sorted : log.Pairwise fun e e' => e.2 ≤ e'.2
  le_now : ∀ e ∈ log, e.2 ≤ now

theorem IsLog.nil (now : ℕ) : IsLog ([] : List (α × ℕ)) now where
  sorted := List.Pairwise.nil
  le_now := by simp

theorem IsLog.mono {log : List (α × ℕ)} {now now' : ℕ} (h : IsLog log now)
    (hle : now ≤ now') : IsLog log now' where
  sorted := h.sorted
  le_now e he := (h.le_now e he).trans hle

theorem IsLog.concat {log : List (α × ℕ)} {now : ℕ} (h : IsLog log now) (a : α) :
    IsLog (log ++ [(a, now)]) now where
  sorted := by
    rw [List.pairwise_append]
    refine ⟨h.sorted, List.pairwise_singleton _ _, fun e he e' he' => ?_⟩
    rw [List.mem_singleton.1 he']
    exact h.le_now e he
  le_now e he := by
    rcases List.mem_append.1 he with hold | hnew
    · exact h.le_now e hold
    · rw [List.mem_singleton.1 hnew]

/-! ## Expiry at the head -/

theorem dropWhile_expired {log : List (α × ℕ)} {w now : ℕ}
    (h : log.Pairwise fun e e' => e.2 ≤ e'.2) :
    log.dropWhile (fun e => now - e.2 > w) = log.filter fun e => now - e.2 ≤ w := by
  induction log with
  | nil => rfl
  | cons e rest ih =>
      obtain ⟨he, hrest⟩ := List.pairwise_cons.1 h
      by_cases hold : now - e.2 > w
      · rw [List.dropWhile_cons, if_pos (decide_eq_true hold), ih hrest,
          List.filter_cons_of_neg (by simpa using Nat.not_le.2 hold)]
      · have hkept : ∀ e' ∈ e :: rest, now - e'.2 ≤ w := by
          intro e' he'
          rcases List.mem_cons.1 he' with rfl | hmem
          · exact Nat.le_of_not_gt hold
          · have hle := he e' hmem
            omega
        rw [List.dropWhile_cons_of_neg (by simpa using hold),
          List.filter_eq_self.2 (by simpa using hkept)]

theorem window_sublist (c w now : ℕ) (log : List (α × ℕ)) :
    (window c w now log).Sublist log :=
  List.filter_sublist.trans (List.drop_sublist _ _)

theorem filter_window {c w now now' : ℕ} (hle : now ≤ now') (log : List (α × ℕ)) :
    (window c w now log).filter (fun e => now' - e.2 ≤ w) = window c w now' log := by
  rw [window, List.filter_filter]
  apply List.filter_congr
  intro e _
  simp
  omega

/-- Popping expired entries at the head moves a window forward in time. -/
theorem dropWhile_window {c w now now' : ℕ} {log : List (α × ℕ)} (h : IsLog log now)
    (hle : now ≤ now') :
    (window c w now log).dropWhile (fun e => now' - e.2 > w) = window c w now' log := by
  rw [dropWhile_expired (h.sorted.sublist (window_sublist c w now log)), filter_window hle]

/-! ## Room for one more -/

theorem length_window_le (c w now : ℕ) (log : List (α × ℕ)) :
    (window c w now log).length ≤ c := by
  refine (List.length_filter_le _ _).trans ?_
  rw [List.rtake, List.length_drop]
  omega

theorem rtake_succ {c : ℕ} {log : List (α × ℕ)} (h : c < log.length) :
    ∃ e, log.rtake (c + 1) = e :: log.rtake c := by
  have hpos : log.length - (c + 1) < log.length := by omega
  refine ⟨log[log.length - (c + 1)], ?_⟩
  rw [List.rtake, List.rtake, List.drop_eq_getElem_cons hpos,
    show log.length - (c + 1) + 1 = log.length - c by omega]

theorem window_concat {c w now : ℕ} {log : List (α × ℕ)} (hc : 1 ≤ c) (h : IsLog log now)
    (a : α) :
    window c w now (log ++ [(a, now)]) =
      (if (window c w now log).length ≥ c then (window c w now log).tail
        else window c w now log) ++ [(a, now)] := by
  obtain ⟨c, rfl⟩ : ∃ b, c = b + 1 := ⟨c - 1, by omega⟩
  have hpush : window (c + 1) w now (log ++ [(a, now)]) =
      window c w now log ++ [(a, now)] := by
    simp [window, List.rtake_concat_succ]
  rw [hpush]
  congr 1
  by_cases hlen : c < log.length
  · obtain ⟨e, he⟩ := rtake_succ hlen
    have hsuffix : (e :: log.rtake c).Pairwise fun e e' => e.2 ≤ e'.2 := by
      rw [← he]
      exact h.sorted.sublist (List.drop_sublist _ _)
    have hshort := length_window_le c w now log
    by_cases hold : now - e.2 ≤ w
    · -- Nothing younger than the oldest entry has expired either.
      have hall : ∀ e' ∈ log.rtake c, now - e'.2 ≤ w := by
        intro e' he'
        have hle := (List.pairwise_cons.1 hsuffix).1 e' he'
        omega
      have hkept : window c w now log = log.rtake c :=
        List.filter_eq_self.2 (by simpa using hall)
      have hfull : window (c + 1) w now log = e :: window c w now log := by
        rw [window, he, List.filter_cons_of_pos (by simpa using hold)]
        rfl
      have hcount : (window c w now log).length = c := by
        rw [hkept, List.rtake, List.length_drop]
        omega
      rw [if_pos (by simp [hfull, hcount]), hfull, List.tail_cons]
    · have hsame : window (c + 1) w now log = window c w now log := by
        rw [window, he, List.filter_cons_of_neg (by simpa using hold)]
        rfl
      rw [hsame, if_neg (by omega)]
  · -- The log is shorter than the window, so no entry has to go.
    have hwhole : ∀ n, log.length ≤ n → log.rtake n = log := by
      intro n hn
      rw [List.rtake, Nat.sub_eq_zero_of_le hn, List.drop_zero]
    have hsame : window (c + 1) w now log = window c w now log := by
      rw [window, window, hwhole (c + 1) (by omega), hwhole c (by omega)]
    have hshort := length_window_le c w now log
    rw [hsame, if_neg (by omega)]

/-! ## Membership -/

/-- An entry is in the window when it is young enough and fewer than `c` entries
were made after it. -/
theorem mem_window_iff {c w now : ℕ} {log : List (α × ℕ)} {e : α × ℕ} :
    e ∈ window c w now log ↔
      now - e.2 ≤ w ∧ ∃ before after, log = before ++ e :: after ∧ after.length < c := by
  constructor
  · intro h
    obtain ⟨hmem, hage⟩ := List.mem_filter.1 h
    obtain ⟨front, after, hsplit⟩ := List.append_of_mem hmem
    have hlength : (log.rtake c).length ≤ c := by
      rw [List.rtake, List.length_drop]
      omega
    refine ⟨by simpa using hage, log.rdrop c ++ front, after, ?_, ?_⟩
    · rw [List.append_assoc, ← hsplit, List.rdrop, List.rtake, List.take_append_drop]
    · rw [hsplit] at hlength
      simp at hlength
      omega
  · rintro ⟨hage, before, after, rfl, hlength⟩
    refine List.mem_filter.2 ⟨?_, by simpa using hage⟩
    rw [List.rtake, List.drop_append_of_le_length (by simp; omega)]
    simp

end SlidingWindow
