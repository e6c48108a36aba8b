import NullPath.Transition.Trace

/-!
# What a run costs

`total step f s is` adds up over a run what each of its events costs. A bound on the
total need not come from a bound on each event: by the potential method it is enough
that an event which costs more than its share draws on a potential that earlier events
have built up. Dually, an event may pay with the progress that it makes
(`total_add_potential_le`).
-/

namespace Transition

variable {σ ι ο : Type*} {step : σ → ι → ο × σ}

/-- The sum of a cost over the events of a run. -/
def total (step : σ → ι → ο × σ) (cost : Event σ ι ο → ℕ) (s : σ) : List ι → ℕ
  | [] => 0
  | i :: is => cost (event step s i) + total step cost (step s i).2 is

@[simp] theorem total_nil (cost : Event σ ι ο → ℕ) (s : σ) : total step cost s [] = 0 := rfl

@[simp] theorem total_cons (cost : Event σ ι ο → ℕ) (s : σ) (i : ι) (is : List ι) :
    total step cost s (i :: is) = cost (event step s i) + total step cost (step s i).2 is := rfl

/-- A run costs its budget, what is taken from the potential, and what is put on the
progress that it makes. -/
theorem total_add_potential_le (potential progress : σ → ℕ) {cost budget : Event σ ι ο → ℕ}
    (h : ∀ s i, cost (event step s i) + potential (step s i).2 + progress s ≤
      potential s + progress (step s i).2 + budget (event step s i)) (s : σ) (is : List ι) :
    total step cost s is + potential (final step s is) + progress s ≤
      potential s + progress (final step s is) + total step budget s is := by
  induction is generalizing s with
  | nil => simp [final]
  | cons i is ih =>
      have hfirst := h s i
      have hrest := ih (step s i).2
      rw [total_cons, total_cons, final]
      omega

theorem total_const (cost : ℕ) (s : σ) (is : List ι) :
    total step (fun _ => cost) s is = cost * is.length := by
  induction is generalizing s with
  | nil => simp
  | cons i is ih => simp [ih, Nat.mul_succ, Nat.add_comm]

theorem total_add (cost cost' : Event σ ι ο → ℕ) (s : σ) (is : List ι) :
    total step (fun e => cost e + cost' e) s is = total step cost s is + total step cost' s is := by
  induction is generalizing s with
  | nil => simp
  | cons i is ih => simp [ih, Nat.add_add_add_comm]

theorem total_if (p : Event σ ι ο → Bool) (cost : ℕ) (s : σ) (is : List ι) :
    total step (fun e => if p e then cost else 0) s is = cost * (trace step s is).countP p := by
  induction is generalizing s with
  | nil => simp [trace]
  | cons i is ih =>
      rw [total_cons, ih, trace, List.countP_cons, Nat.mul_add]
      split_ifs <;> simp [Nat.add_comm]

end Transition
