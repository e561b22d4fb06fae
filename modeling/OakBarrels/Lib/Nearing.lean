import OakBarrels.Lib.Runs

/-!
# Steps that come nearer

Where several threads take turns, the steps of one bring it nearer to an end, and no step of another
takes it away again. So it is there after as many steps of its own as it was away, whatever the others
do in between.
-/

namespace Runs

variable {State Input : Type}

/-- `mine` are the steps that come nearer to `Done`, which stays once it is so. -/
structure Nears (step : State → Input → Option State) (Inv Done : State → Prop) (mine : Input → Bool)
    (distance : State → Nat) : Prop where
  inv : ∀ s i t, Inv s → step s i = some t → Inv t
  stays : ∀ s i t, Inv s → Done s → step s i = some t → Done t
  nears : ∀ s i t, Inv s → ¬ Done s → step s i = some t → ¬ Done t →
    distance t + (mine i).toNat ≤ distance s
  away : ∀ s, Inv s → ¬ Done s → 0 < distance s

variable {step : State → Input → Option State} {Inv Done : State → Prop} {mine : Input → Bool}
  {distance : State → Nat} {s t : State} {inputs : List Input}

theorem Nears.stays_run (h : Nears step Inv Done mine distance) (hrun : inputs.foldlM step s = some t)
    (h0 : Inv s) (hdone : Done s) : Done t := by
  have hkeeps : ∀ s i t, i ∈ inputs → Inv s ∧ Done s → step s i = some t → Inv t ∧ Done t :=
    fun s i t _ hs hstep => ⟨h.inv s i t hs.1 hstep, h.stays s i t hs.1 hs.2 hstep⟩
  exact (run_invariant hkeeps hrun ⟨h0, hdone⟩).2

/-- It is done after that many steps of its own. -/
theorem Nears.done (h : Nears step Inv Done mine distance) (hrun : inputs.foldlM step s = some t)
    (h0 : Inv s) (hsteps : distance s ≤ inputs.countP mine) : Done t := by
  induction inputs generalizing s with
  | nil =>
    obtain rfl : s = t := by simpa using hrun
    by_contra hdone
    have haway := h.away s h0 hdone
    rw [List.countP_nil] at hsteps
    omega
  | cons i rest ih =>
    by_cases hs : Done s
    · exact h.stays_run hrun h0 hs
    · obtain ⟨u, hu, hrest⟩ := run_cons.mp hrun
      have hinv := h.inv s i u h0 hu
      by_cases hdone : Done u
      · exact h.stays_run hrest hinv hdone
      · have hnears := h.nears s i u h0 hs hu hdone
        refine ih hrest hinv ?_
        rw [List.countP_cons] at hsteps
        cases hmine : mine i
        · simp only [hmine, Bool.toNat_false] at hnears
          simp only [hmine, Bool.false_eq_true, if_false] at hsteps
          omega
        · simp only [hmine, Bool.toNat_true] at hnears
          simp only [hmine, if_true] at hsteps
          omega

end Runs
