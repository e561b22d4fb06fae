import OakBarrels.Lib.Runs

/-!
# Looking back along a run

What holds since something happened, and what holds until it does. A step is an input together with
the state in which it came.
-/

namespace Runs

variable {State Input Output α : Type}

/-- The inputs of a run, each with the state in which it came. -/
def visits (step : State → Input → State × Output) : State → List Input → List (State × Input)
  | _, [] => []
  | s, i :: rest => (s, i) :: visits step (step s i).1 rest

/-- There is an element with the first property, and all after it have the second. -/
def Since (p q : α → Prop) (l : List α) : Prop :=
  ∃ before a after, l = before ++ a :: after ∧ p a ∧ ∀ b ∈ after, q b

section

variable {p q : α → Prop} {l : List α} {a : α}

theorem since_last (h : p a) : Since p q (l ++ [a]) := ⟨l, a, [], rfl, h, by simp⟩

theorem Since.concat (h : Since p q l) (hq : q a) : Since p q (l ++ [a]) := by
  obtain ⟨before, b, after, rfl, hb, hafter⟩ := h
  refine ⟨before, b, after ++ [a], by simp, hb, ?_⟩
  intro d hd
  rcases List.mem_append.mp hd with hd | hd
  · exact hafter d hd
  · rw [List.mem_singleton.mp hd]
    exact hq

end

variable {step : State → Input → State × Output}

theorem visits_append (s : State) (a b : List Input) :
    visits step s (a ++ b) = visits step s a ++ visits step (final step s a) b := by
  induction a generalizing s with
  | nil => rfl
  | cons i rest ih => simp [visits, ih]

theorem visits_concat (s : State) (a : List Input) (i : Input) :
    visits step s (a ++ [i]) = visits step s a ++ [(final step s a, i)] := visits_append s a [i]

theorem visits_prefix {s : State} {a b : List Input} (h : a <+: b) {v : State × Input}
    (hv : v ∈ visits step s a) : v ∈ visits step s b := by
  obtain ⟨rest, rfl⟩ := h
  rw [visits_append]
  exact List.mem_append_left _ hv

theorem mem_visits {s : State} {inputs : List Input} {v : State × Input} :
    v ∈ visits step s inputs ↔
      ∃ before, before ++ [v.2] <+: inputs ∧ v.1 = final step s before := by
  constructor
  · intro h
    induction inputs generalizing s with
    | nil => cases h
    | cons i rest ih =>
      rcases List.mem_cons.mp h with rfl | h
      · exact ⟨[], by simp, rfl⟩
      · obtain ⟨before, hprefix, hstate⟩ := ih h
        exact ⟨i :: before, by simpa using hprefix, hstate⟩
  · rintro ⟨before, hprefix, hstate⟩
    apply visits_prefix hprefix
    rw [visits_concat, ← hstate]
    simp

/-- What is not so at the start, comes about only by steps of one kind and lasts only over steps of
another, is so only since a step of the first kind. -/
theorem since_of_final {P : State → Prop} {p q : State × Input → Prop} {s : State} (h0 : ¬ P s)
    (hstep : ∀ s i, P (step s i).1 → p (s, i) ∨ P s ∧ q (s, i)) (inputs : List Input)
    (h : P (final step s inputs)) : Since p q (visits step s inputs) := by
  induction inputs using List.reverseRecOn with
  | nil => exact absurd h h0
  | append_singleton rest i ih =>
    rw [final_concat] at h
    rw [visits_concat]
    rcases hstep _ _ h with hp | ⟨hbefore, hq⟩
    · exact since_last hp
    · exact (ih hbefore).concat hq

/-- What every step but those of one kind keeps lasts until a step of that kind. -/
theorem final_until {P : State → Prop} {p : State × Input → Prop}
    (hstep : ∀ s i, P s → ¬ p (s, i) → P (step s i).1) {s : State} (h : P s) (inputs : List Input)
    (hnone : ∀ v ∈ visits step s inputs, ¬ p v) : P (final step s inputs) := by
  induction inputs generalizing s with
  | nil => exact h
  | cons i rest ih =>
    rw [visits, List.forall_mem_cons] at hnone
    exact ih (hstep s i h hnone.1) hnone.2

end Runs
