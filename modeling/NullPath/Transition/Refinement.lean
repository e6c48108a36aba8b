import NullPath.Transition.Trace

/-!
# Refinement of runs

A run refines another machine when each of its events is a step of that machine between
the abstractions of its states: the abstract machine then makes the same run, event by
event, and ends in the abstraction of the last state (`trace_refines`). What the abstract
input of an event is may depend on the event.

A simulation is looser: it relates the states of two machines, and a step of the first is
answered by one step of the second or by none. The answers are a run of the second machine
that ends in a related state (`Simulation.final`), and what is read off the answers is
what is read off the steps (`Simulation.filterMap_trace`).
-/

namespace Transition

variable {σ σ' ι ι' ο ο' : Type*} {step : σ → ι → ο × σ} {step' : σ' → ι' → ο' × σ'}

/-- An event is a step of the abstract machine between the abstractions of its
states. -/
def Event.Refines (step : σ → ι → ο × σ) (step' : σ' → ι' → ο' × σ') (abs : σ → σ')
    (input : Event σ ι ο → ι') (output : Event σ ι ο → ο') (e : Event σ ι ο) : Prop :=
  step' (abs e.before) (input e) = (output e, abs (step e.before e.input).2)

variable {abs : σ → σ'} {input : Event σ ι ο → ι'} {output : Event σ ι ο → ο'}

/-- A run whose events refine the abstract machine refines it as a whole. -/
theorem trace_refines {s : σ} {is : List ι}
    (h : ∀ e ∈ trace step s is, e.Refines step step' abs input output) :
    (trace step' (abs s) ((trace step s is).map input)).map Event.output =
        (trace step s is).map output ∧
      final step' (abs s) ((trace step s is).map input) = abs (final step s is) := by
  induction is generalizing s with
  | nil => exact ⟨rfl, rfl⟩
  | cons i is ih =>
      have hfirst : step' (abs s) (input (event step s i)) =
          (output (event step s i), abs (step s i).2) := h _ List.mem_cons_self
      obtain ⟨houtputs, hfinal⟩ := ih fun e he => h e (List.mem_cons_of_mem _ he)
      constructor
      · rw [trace, List.map_cons, trace, List.map_cons, List.map_cons, ← houtputs, event, hfirst]
      · rw [trace, List.map_cons, final, final, hfirst]
        exact hfinal

/-! ## Simulations -/

/-- The inputs with which a second machine answers a run. -/
def answers (step : σ → ι → ο × σ) (answer : σ → ι → Option ι') (s : σ) (is : List ι) :
    List ι' :=
  (trace step s is).filterMap fun e => answer e.before e.input

theorem answers_cons (answer : σ → ι → Option ι') (s : σ) (i : ι) (is : List ι) :
    answers step answer s (i :: is) =
      (answer s i).toList ++ answers step answer (step s i).2 is := by
  rw [answers, answers, trace, List.filterMap_cons, event]
  cases answer s i <;> rfl

theorem answers_append (answer : σ → ι → Option ι') (s : σ) (is js : List ι) :
    answers step answer s (is ++ js) =
      answers step answer s is ++ answers step answer (final step s is) js := by
  rw [answers, trace_append, List.filterMap_append]
  rfl

theorem answers_concat (answer : σ → ι → Option ι') (s : σ) (is : List ι) (i : ι) :
    answers step answer s (is ++ [i]) =
      answers step answer s is ++ (answer (final step s is) i).toList := by
  rw [answers, trace_concat, filterMap_concat]
  rfl

/-- Related states stay related when a step is answered. -/
def Simulation (step : σ → ι → ο × σ) (step' : σ' → ι' → ο' × σ') (related : σ → σ' → Prop)
    (answer : σ → ι → Option ι') : Prop :=
  ∀ s s' i, related s s' → related (step s i).2 (final step' s' (answer s i).toList)

namespace Simulation

variable {related : σ → σ' → Prop} {answer : σ → ι → Option ι'}

/-- A run and its answers end in related states. -/
theorem final (h : Simulation step step' related answer) {s : σ} {s' : σ'}
    (hs : related s s') (is : List ι) :
    related (Transition.final step s is)
      (Transition.final step' s' (answers step answer s is)) := by
  induction is using List.reverseRecOn with
  | nil => exact hs
  | append_singleton is i ih =>
      rw [final_concat, answers_concat, final_append]
      exact h _ _ i ih

/-- A relation between what is read off a step and what is read off its answer carries
over to the runs, when it is kept by concatenation. -/
theorem filterMap_trace_rel (h : Simulation step step' related answer) {s : σ} {s' : σ'}
    (hs : related s s') {β β' : Type*} {R : List β → List β' → Prop} (hnil : R [] [])
    (happend : ∀ {k l k' l'}, R k k' → R l l' → R (k ++ l) (k' ++ l'))
    {f : Event σ ι ο → Option β} {g : Event σ' ι' ο' → Option β'}
    (hread : ∀ t t' i, related t t' → R (f (event step t i)).toList
      ((answer t i).bind fun i' => g (event step' t' i')).toList)
    (is : List ι) :
    R ((trace step s is).filterMap f)
      ((trace step' s' (answers step answer s is)).filterMap g) := by
  induction is using List.reverseRecOn with
  | nil => exact hnil
  | append_singleton is i ih =>
      have hlast := hread _ _ i (h.final hs is)
      rw [trace_concat, filterMap_concat, answers_concat]
      cases hanswer : answer (Transition.final step s is) i with
      | none =>
          rw [hanswer, Option.bind_none] at hlast
          rw [Option.toList_none, List.append_nil, ← List.append_nil (List.filterMap g _)]
          exact happend ih hlast
      | some i' =>
          rw [hanswer, Option.bind_some] at hlast
          rw [Option.toList_some, trace_concat, filterMap_concat]
          exact happend ih hlast

theorem filterMap_trace (h : Simulation step step' related answer) {s : σ} {s' : σ'}
    (hs : related s s') {β : Type*} {f : Event σ ι ο → Option β} {g : Event σ' ι' ο' → Option β}
    (hread : ∀ t t' i, related t t' →
      f (event step t i) = (answer t i).bind fun i' => g (event step' t' i'))
    (is : List ι) :
    (trace step s is).filterMap f =
      (trace step' s' (answers step answer s is)).filterMap g :=
  h.filterMap_trace_rel hs rfl (fun hk hl => congrArg₂ _ hk hl)
    (fun t t' i ht => congrArg Option.toList (hread t t' i ht)) is

theorem filterMap_trace_sublist (h : Simulation step step' related answer) {s : σ} {s' : σ'}
    (hs : related s s') {β : Type*} {f : Event σ ι ο → Option β} {g : Event σ' ι' ο' → Option β}
    (hread : ∀ t t' i b, related t t' → f (event step t i) = some b →
      ((answer t i).bind fun i' => g (event step' t' i')) = some b)
    (is : List ι) :
    ((trace step s is).filterMap f).Sublist
      ((trace step' s' (answers step answer s is)).filterMap g) := by
  refine h.filterMap_trace_rel hs (List.Sublist.refl _) List.Sublist.append ?_ is
  intro t t' i ht
  cases hf : f (event step t i) with
  | none => exact List.nil_sublist _
  | some b =>
      rw [hread t t' i b ht hf]

end Simulation

end Transition
