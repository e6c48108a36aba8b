import Mathlib.Data.List.Basic
import Mathlib.Data.List.Induction

/-!
# Runs of a deterministic machine

A machine is a step function `step : σ → ι → ο × σ`: in a state it takes an
input, answers with an output and moves on. `final step s is` is the state
after the inputs `is`, and `trace step s is` lists what happened on the way,
one event for each input, with the state in which the input was met.

`Follows` restricts a run to inputs that an environment may choose in the state
where they are given. `follows_induction` is the induction rule for such runs;
its invariants may speak about the past, that is about the events so far together
with the state they led to. A map between the
states of two machines that commutes with their steps carries the whole trace
of one to the trace of the other (`trace_map`).
-/

namespace Transition

variable {σ σ' ι ο : Type*}

/-- One step of a run: the state it was taken in, the input and the output. -/
structure Event (σ ι ο : Type*) where
  before : σ
  input : ι
  output : ο

/-- The state after a list of inputs. -/
def final (step : σ → ι → ο × σ) : σ → List ι → σ
  | s, [] => s
  | s, i :: is => final step (step s i).2 is

/-- The event of one input. -/
def event (step : σ → ι → ο × σ) (s : σ) (i : ι) : Event σ ι ο := ⟨s, i, (step s i).1⟩

/-- The events of a list of inputs, in order. -/
def trace (step : σ → ι → ο × σ) : σ → List ι → List (Event σ ι ο)
  | _, [] => []
  | s, i :: is => event step s i :: trace step (step s i).2 is

variable (step : σ → ι → ο × σ)

theorem final_append (s : σ) (is js : List ι) :
    final step s (is ++ js) = final step (final step s is) js := by
  induction is generalizing s with
  | nil => rfl
  | cons i is ih => exact ih (step s i).2

theorem trace_append (s : σ) (is js : List ι) :
    trace step s (is ++ js) = trace step s is ++ trace step (final step s is) js := by
  induction is generalizing s with
  | nil => rfl
  | cons i is ih =>
      rw [List.cons_append, trace, trace, ih, List.cons_append]
      rfl

theorem length_trace (s : σ) (is : List ι) : (trace step s is).length = is.length := by
  induction is generalizing s with
  | nil => rfl
  | cons i is ih => rw [trace, List.length_cons, ih, List.length_cons]

theorem trace_inputs (s : σ) (is : List ι) : (trace step s is).map Event.input = is := by
  induction is generalizing s with
  | nil => rfl
  | cons i is ih =>
      rw [trace, List.map_cons, ih]
      rfl

theorem input_mem_of_mem_trace {s : σ} {is : List ι} {e : Event σ ι ο}
    (h : e ∈ trace step s is) : e.input ∈ is := by
  induction is generalizing s with
  | nil => cases h
  | cons i is ih =>
      rcases List.mem_cons.1 h with rfl | hrest
      · exact List.mem_cons_self
      · exact List.mem_cons_of_mem i (ih hrest)

theorem eq_event_of_mem_trace {s : σ} {is : List ι} {e : Event σ ι ο}
    (h : e ∈ trace step s is) : e = event step e.before e.input := by
  induction is generalizing s with
  | nil => cases h
  | cons i is ih =>
      rcases List.mem_cons.1 h with rfl | hrest
      · rfl
      · exact ih hrest

/-- What every step preserves holds wherever an event was taken. -/
theorem before_of_mem_trace {p : σ → Prop} {s : σ} {is : List ι} {e : Event σ ι ο}
    (hs : p s) (hstep : ∀ s i, p s → p (step s i).2) (h : e ∈ trace step s is) :
    p e.before := by
  induction is generalizing s with
  | nil => cases h
  | cons i is ih =>
      rcases List.mem_cons.1 h with rfl | hrest
      · exact hs
      · exact ih (hstep s i hs) hrest

theorem final_concat (s : σ) (is : List ι) (i : ι) :
    final step s (is ++ [i]) = (step (final step s is) i).2 := by
  rw [final_append]
  rfl

theorem trace_concat (s : σ) (is : List ι) (i : ι) :
    trace step s (is ++ [i]) = trace step s is ++ [event step (final step s is) i] := by
  rw [trace_append]
  rfl

theorem getElem?_trace (s : σ) (is : List ι) (n : ℕ) :
    (trace step s is)[n]? = is[n]?.map (event step (final step s (is.take n))) := by
  induction is generalizing s n with
  | nil => simp [trace]
  | cons i is ih =>
      cases n with
      | zero => rfl
      | succ n => exact ih (step s i).2 n

theorem take_trace (s : σ) (is : List ι) (n : ℕ) :
    (trace step s is).take n = trace step s (is.take n) := by
  induction is generalizing s n with
  | nil => simp [trace]
  | cons i is ih =>
      cases n with
      | zero => rfl
      | succ n => exact congrArg (event step s i :: ·) (ih (step s i).2 n)

/-! ## Runs that an environment may choose -/

/-- Every input of the run is allowed in the state in which it is given. -/
def Follows (allowed : σ → ι → Prop) : σ → List ι → Prop
  | _, [] => True
  | s, i :: is => allowed s i ∧ Follows allowed (step s i).2 is

instance decidableFollows (allowed : σ → ι → Prop) [∀ s i, Decidable (allowed s i)] :
    ∀ s is, Decidable (Follows step allowed s is)
  | _, [] => isTrue trivial
  | s, i :: is =>
      have := decidableFollows allowed (step s i).2 is
      inferInstanceAs (Decidable (allowed s i ∧ Follows step allowed (step s i).2 is))

theorem follows_concat_iff (allowed : σ → ι → Prop) (s : σ) (is : List ι) (i : ι) :
    Follows step allowed s (is ++ [i]) ↔
      Follows step allowed s is ∧ allowed (final step s is) i := by
  induction is generalizing s with
  | nil => simp [Follows, final]
  | cons j is ih =>
      rw [List.cons_append, Follows, Follows, ih, and_assoc]
      rfl

theorem follows_of_forall {allowed : ι → Prop} (s : σ) {is : List ι}
    (h : ∀ i ∈ is, allowed i) : Follows step (fun _ i => allowed i) s is := by
  induction is generalizing s with
  | nil => trivial
  | cons i is ih =>
      exact ⟨h i List.mem_cons_self, ih _ fun j hj => h j (List.mem_cons_of_mem i hj)⟩

/-- A property of the events so far and the state they led to holds of every run
over allowed inputs once it holds of the empty run and every allowed step
preserves it. -/
theorem follows_induction {allowed : σ → ι → Prop}
    {motive : List (Event σ ι ο) → σ → Prop} (s : σ) (init : motive [] s)
    (next : ∀ past t i, motive past t → allowed t i →
      motive (past ++ [event step t i]) (step t i).2)
    (is : List ι) (h : Follows step allowed s is) :
    motive (trace step s is) (final step s is) := by
  induction is using List.reverseRecOn with
  | nil => exact init
  | append_singleton is i ih =>
      obtain ⟨hbefore, hlast⟩ := (follows_concat_iff step allowed s is i).1 h
      rw [trace_concat, final_concat]
      exact next _ _ i (ih hbefore) hlast

theorem follows_take {allowed : σ → ι → Prop} {s : σ} {is : List ι}
    (h : Follows step allowed s is) (n : ℕ) : Follows step allowed s (is.take n) := by
  induction is generalizing s n with
  | nil => simpa using h
  | cons i is ih =>
      cases n with
      | zero => trivial
      | succ n => exact ⟨h.1, ih h.2 n⟩

theorem allowed_of_getElem?_trace {allowed : σ → ι → Prop} {s : σ} {is : List ι}
    (h : Follows step allowed s is) {n : ℕ} {e : Event σ ι ο}
    (he : (trace step s is)[n]? = some e) : allowed e.before e.input := by
  induction is generalizing s n with
  | nil => simp [trace] at he
  | cons i is ih =>
      cases n with
      | zero =>
          cases he
          exact h.1
      | succ n => exact ih h.2 he

/-- The induction rule read at one event: the invariant held of the events before it
and the state it was taken in. -/
theorem follows_induction_at {allowed : σ → ι → Prop}
    {motive : List (Event σ ι ο) → σ → Prop} (s : σ) (init : motive [] s)
    (next : ∀ past t i, motive past t → allowed t i →
      motive (past ++ [event step t i]) (step t i).2)
    {is : List ι} (h : Follows step allowed s is) {n : ℕ} {e : Event σ ι ο}
    (he : (trace step s is)[n]? = some e) :
    motive ((trace step s is).take n) e.before := by
  have hbefore := follows_induction step s init next (is.take n) (follows_take step h n)
  rw [getElem?_trace] at he
  obtain ⟨i, -, rfl⟩ := Option.map_eq_some_iff.1 he
  rw [take_trace]
  exact hbefore

/-! ## What is read off a trace -/

theorem filterMap_concat {α β : Type*} (f : α → Option β) (l : List α) (a : α) :
    (l ++ [a]).filterMap f = l.filterMap f ++ (f a).toList := by
  rw [List.filterMap_append]
  cases h : f a <;> simp [h]

theorem forall_mem_concat {α : Type*} {p : α → Prop} {l : List α} {a : α} :
    (∀ b ∈ l ++ [a], p b) ↔ (∀ b ∈ l, p b) ∧ p a :=
  List.forall_mem_append.trans (and_congr_right' List.forall_mem_singleton)

theorem filterMap_trace_sublist {β : Type*} {f : Event σ ι ο → Option β} {g : ι → Option β}
    (h : ∀ e b, f e = some b → g e.input = some b) (s : σ) (is : List ι) :
    ((trace step s is).filterMap f).Sublist (is.filterMap g) := by
  induction is generalizing s with
  | nil => simp [trace]
  | cons i is ih =>
      rw [trace]
      cases hf : f (event step s i) with
      | none =>
          rw [List.filterMap_cons_none hf]
          refine (ih _).trans ?_
          cases hg : g i with
          | none => rw [List.filterMap_cons_none hg]
          | some b =>
              rw [List.filterMap_cons_some hg]
              exact List.sublist_cons_self b _
      | some b =>
          have hg : g i = some b := h (event step s i) b hf
          rw [List.filterMap_cons_some hf, List.filterMap_cons_some hg]
          exact (ih _).cons_cons b

theorem getElem?_concat_cases {α : Type*} {l : List α} {a b : α} {n : ℕ}
    (h : (l ++ [a])[n]? = some b) : l[n]? = some b ∨ (n = l.length ∧ a = b) := by
  rcases Nat.lt_trichotomy n l.length with hlt | rfl | hgt
  · rw [List.getElem?_append_left hlt] at h
    exact Or.inl h
  · rw [List.getElem?_concat_length] at h
    exact Or.inr ⟨rfl, Option.some.inj h⟩
  · rw [List.getElem?_eq_none (by rw [List.length_append]; exact hgt)] at h
    cases h

/-! ## Machines related by a map of states -/

/-- Rename the state of an event. -/
def Event.map (f : σ → σ') (e : Event σ ι ο) : Event σ' ι ο :=
  ⟨f e.before, e.input, e.output⟩

variable {step} {step' : σ' → ι → ο × σ'} {f : σ → σ'}

theorem final_map (h : ∀ s i, step' (f s) i = ((step s i).1, f (step s i).2))
    (s : σ) (is : List ι) : final step' (f s) is = f (final step s is) := by
  induction is generalizing s with
  | nil => rfl
  | cons i is ih => rw [final, final, h, ih]

theorem trace_map (h : ∀ s i, step' (f s) i = ((step s i).1, f (step s i).2))
    (s : σ) (is : List ι) :
    trace step' (f s) is = (trace step s is).map (Event.map f) := by
  induction is generalizing s with
  | nil => rfl
  | cons i is ih =>
      rw [trace, trace, List.map_cons, event, event, h, ih]
      rfl

end Transition
