import Mathlib.Logic.Function.Iterate
import Mathlib.Order.WellFounded

/-!
# What must come about

A system may take any step that is possible. A run that goes on as long as it can comes to a goal where
every step on the way keeps an invariant and lowers a measure, and some step is possible.
-/

namespace Runs

variable {State Measure : Type}

/-- A run that takes a step where there is one, and stays where there is none. -/
def Maximal (step : State → State → Prop) (run : Nat → State) : Prop :=
  ∀ n, step (run n) (run (n + 1)) ∨ (∀ t, ¬ step (run n) t) ∧ run (n + 1) = run n

variable {step : State → State → Prop} {run : Nat → State}

open Classical in
/-- Some step, where there is one. -/
noncomputable def next (step : State → State → Prop) (s : State) : State :=
  if h : ∃ t, step s t then h.choose else s

theorem next_spec (step : State → State → Prop) (s : State) :
    step s (next step s) ∨ (∀ t, ¬ step s t) ∧ next step s = s := by
  unfold next
  split
  · rename_i h
    exact .inl h.choose_spec
  · rename_i h
    exact .inr ⟨not_exists.mp h, rfl⟩

theorem exists_maximal (step : State → State → Prop) (start : State) :
    ∃ run, run 0 = start ∧ Maximal step run := by
  refine ⟨fun n => (next step)^[n] start, rfl, fun n => ?_⟩
  simp only [Function.iterate_succ_apply']
  exact next_spec step _

/-- What each step keeps holds along the run. -/
theorem Maximal.invariant {Inv : State → Prop} (hrun : Maximal step run) (h0 : Inv (run 0))
    (hstep : ∀ s t, Inv s → step s t → Inv t) (n : Nat) : Inv (run n) := by
  induction n with
  | zero => exact h0
  | succ n ih =>
    rcases hrun n with hnext | ⟨-, hsame⟩
    · exact hstep _ _ ih hnext
    · rw [hsame]
      exact ih

theorem Maximal.eventually [LT Measure] [WellFoundedLT Measure] {Inv Goal : State → Prop}
    (measure : State → Measure) (hrun : Maximal step run) (h0 : Inv (run 0))
    (hstep : ∀ s t, Inv s → step s t → Inv t)
    (hlower : ∀ s t, Inv s → ¬ Goal s → step s t → Goal t ∨ measure t < measure s)
    (hpossible : ∀ s, Inv s → ¬ Goal s → ∃ t, step s t) : ∃ n, Goal (run n) := by
  have hinv := hrun.invariant h0 hstep
  have hfrom : ∀ (m : Measure) (n : Nat), measure (run n) = m → ∃ k, Goal (run k) := by
    intro m
    induction m using WellFoundedLT.induction with
    | _ m ih =>
      intro n hm
      by_cases hgoal : Goal (run n)
      · exact ⟨n, hgoal⟩
      · rcases hrun n with hnext | ⟨hstuck, -⟩
        · rcases hlower _ _ (hinv n) hgoal hnext with hgoal' | hlt
          · exact ⟨n + 1, hgoal'⟩
          · exact ih _ (hm ▸ hlt) (n + 1) rfl
        · obtain ⟨t, ht⟩ := hpossible _ (hinv n) hgoal
          exact absurd ht (hstuck t)
  exact hfrom _ 0 rfl

end Runs
