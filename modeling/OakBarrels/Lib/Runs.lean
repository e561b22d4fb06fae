import Mathlib.Tactic

/-!
# Runs of a machine

A machine takes inputs one after the other, each with an output. What one step preserves, with the
inputs and outputs so far in view, a whole run preserves.
-/

namespace Runs

variable {State Input Output : Type}

def final (step : State → Input → State × Output) (s : State) (inputs : List Input) : State :=
  inputs.foldl (fun s i => (step s i).1) s

def trace (step : State → Input → State × Output) : State → List Input → List (Input × Output)
  | _, [] => []
  | s, i :: rest => (i, (step s i).2) :: trace step (step s i).1 rest

variable (step : State → Input → State × Output)

@[simp] theorem final_nil (s : State) : final step s [] = s := rfl

@[simp] theorem final_cons (s : State) (i : Input) (rest : List Input) :
    final step s (i :: rest) = final step (step s i).1 rest := rfl

theorem final_append (s : State) (a b : List Input) :
    final step s (a ++ b) = final step (final step s a) b := List.foldl_append

theorem final_concat (s : State) (a : List Input) (i : Input) :
    final step s (a ++ [i]) = (step (final step s a) i).1 := by
  rw [final_append]
  rfl

theorem trace_append (s : State) (a b : List Input) :
    trace step s (a ++ b) = trace step s a ++ trace step (final step s a) b := by
  induction a generalizing s with
  | nil => rfl
  | cons i rest ih => simp [trace, ih]

theorem trace_concat (s : State) (a : List Input) (i : Input) :
    trace step s (a ++ [i]) = trace step s a ++ [(i, (step (final step s a) i).2)] := by
  rw [trace_append]
  rfl

theorem trace_inputs (s : State) (a : List Input) : (trace step s a).map Prod.fst = a := by
  induction a generalizing s with
  | nil => rfl
  | cons i rest ih => simp [trace, ih]

/-- What holds at the start and is kept by each step holds after every run. -/
theorem final_invariant (Inv : State → Prop) {s : State} (h0 : Inv s)
    (hstep : ∀ s i, Inv s → Inv (step s i).1) (inputs : List Input) :
    Inv (final step s inputs) := by
  induction inputs generalizing s with
  | nil => exact h0
  | cons i rest ih => exact ih (hstep s i h0)

/-- The same for what relates the state to the inputs and outputs so far. -/
theorem trace_invariant (Inv : List (Input × Output) → State → Prop) {s : State} (h0 : Inv [] s)
    (hstep : ∀ h s i, Inv h s → Inv (h ++ [(i, (step s i).2)]) (step s i).1)
    (inputs : List Input) : Inv (trace step s inputs) (final step s inputs) := by
  induction inputs using List.reverseRecOn with
  | nil => exact h0
  | append_singleton rest i ih =>
    rw [trace_concat, final_concat]
    exact hstep _ _ _ ih

/-- What each step leaves as it is, a fold of steps does. -/
theorem foldl_keeps {α : Type} {f : State → Input → State} {g : State → α}
    (h : ∀ s i, g (f s i) = g s) (inputs : List Input) (s : State) :
    g (inputs.foldl f s) = g s := by
  induction inputs generalizing s with
  | nil => rfl
  | cons i rest ih => rw [List.foldl_cons, ih, h]

/-! ## Steps that are not always possible -/

/-- What a machine can reach, where some inputs are no step. -/
inductive Reaches (step : State → Input → Option State) (s : State) : State → Prop
  | start : Reaches step s s
  | next {t u : State} (i : Input) (h : Reaches step s t) (hstep : step t i = some u) :
      Reaches step s u

theorem Reaches.trans {step : State → Input → Option State} {s t u : State}
    (h : Reaches step s t) (h' : Reaches step t u) : Reaches step s u := by
  induction h' with
  | start => exact h
  | next i _ hi ih => exact .next i ih hi

theorem Reaches.one {step : State → Input → Option State} {s t : State} (i : Input)
    (h : step s i = some t) : Reaches step s t := .next i .start h

theorem Reaches.invariant {step : State → Input → Option State} {Inv : State → Prop} {s t : State}
    (h : Reaches step s t) (h0 : Inv s) (hstep : ∀ s i t, Inv s → step s i = some t → Inv t) :
    Inv t := by
  induction h with
  | start => exact h0
  | next i _ hi ih => exact hstep _ i _ ih hi

theorem run_cons {step : State → Input → Option State} {s t : State} {i : Input}
    {rest : List Input} : (i :: rest).foldlM step s = some t ↔
      ∃ u, step s i = some u ∧ rest.foldlM step u = some t := by
  rw [List.foldlM_cons, Option.bind_eq_bind, Option.bind_eq_some_iff]

theorem run_invariant {step : State → Input → Option State} {Inv : State → Prop} {s t : State}
    {inputs : List Input} (hstep : ∀ s i t, i ∈ inputs → Inv s → step s i = some t → Inv t)
    (hrun : inputs.foldlM step s = some t) (h0 : Inv s) : Inv t := by
  induction inputs generalizing s with
  | nil =>
    obtain rfl : s = t := by simpa using hrun
    exact h0
  | cons i rest ih =>
    obtain ⟨u, hu, hrest⟩ := run_cons.mp hrun
    exact ih (fun s j t hj => hstep s j t (List.mem_cons_of_mem _ hj)) hrest
      (hstep s i u List.mem_cons_self h0 hu)

theorem reaches_of_run {step : State → Input → Option State} {s t : State} {inputs : List Input}
    (hrun : inputs.foldlM step s = some t) : Reaches step s t := by
  have hnext : ∀ u i v, i ∈ inputs → Reaches step s u → step u i = some v → Reaches step s v :=
    fun _ i _ _ h hstep => .next i h hstep
  exact run_invariant hnext hrun .start

/-- Every input of a run is taken where `P` holds of it. -/
def Along (step : State → Input → Option State) (P : State → Input → Prop) :
    State → List Input → Prop
  | _, [] => True
  | s, i :: rest => P s i ∧ ∀ t, step s i = some t → Along step P t rest

/-- What each step keeps exactly where `P` holds, a run keeps exactly where `P` holds along it. -/
theorem good_iff_along {step : State → Input → Option State} {Inv Good : State → Prop}
    {P : State → Input → Prop}
    (hstep : ∀ s i t, Inv s → step s i = some t → Inv t ∧ (Good t ↔ Good s ∧ P s i))
    {s t : State} {inputs : List Input} (hrun : inputs.foldlM step s = some t) (h0 : Inv s) :
    Good t ↔ Good s ∧ Along step P s inputs := by
  induction inputs generalizing s with
  | nil =>
    obtain rfl : s = t := by simpa using hrun
    simp [Along]
  | cons i rest ih =>
    obtain ⟨u, hu, hrest⟩ := run_cons.mp hrun
    obtain ⟨hinv, hgood⟩ := hstep s i u h0 hu
    have halong : Along step P s (i :: rest) ↔ P s i ∧ Along step P u rest := by
      rw [Along]
      simp [hu]
    rw [ih hrest hinv, hgood, halong, and_assoc]

end Runs
