import Mathlib.Tactic

/-!
# Stateful operations that agree

Two operations over different states agree along a relation of the states when from related states
they give the same result and go to related states.
-/

namespace Agree

variable {σ τ υ α β : Type}

def On (R : σ → τ → Prop) (a : StateM σ α) (b : StateM τ α) : Prop :=
  ∀ s t, R s t → (a s).1 = (b t).1 ∧ R (a s).2 (b t).2

variable {R : σ → τ → Prop} {a : StateM σ α} {b : StateM τ α}

theorem On.pure (R : σ → τ → Prop) (x : α) : On R (pure x : StateM σ α) (pure x) :=
  fun _ _ h => ⟨rfl, h⟩

theorem On.bind (h : On R a b) {f : α → StateM σ β} {g : α → StateM τ β}
    (hfg : ∀ x, On R (f x) (g x)) : On R (a >>= f) (b >>= g) := by
  intro s t hst
  obtain ⟨hresult, hstate⟩ := h s t hst
  change (f (a s).1 (a s).2).1 = (g (b t).1 (b t).2).1 ∧
    R (f (a s).1 (a s).2).2 (g (b t).1 (b t).2).2
  rw [hresult]
  exact hfg (b t).1 _ _ hstate

/-- What agrees with a third agrees through it. -/
theorem On.through {S : υ → τ → Prop} {d : StateM υ α} (h : On R a b) (h' : On S d b) :
    On (fun s u => ∃ t, R s t ∧ S u t) a d := by
  rintro s u ⟨t, hst, hut⟩
  obtain ⟨hresult, hstate⟩ := h s t hst
  obtain ⟨hresult', hstate'⟩ := h' u t hut
  exact ⟨hresult.trans hresult'.symm, _, hstate, hstate'⟩

/-- One state, of which this holds: an invariant of an operation as agreement with itself. -/
def Kept (P : σ → Prop) (s t : σ) : Prop := s = t ∧ P s

theorem On.kept {P : σ → Prop} {a : StateM σ α} (h : ∀ s, P s → P (a s).2) : On (Kept P) a a := by
  rintro s _ ⟨rfl, hs⟩
  exact ⟨rfl, rfl, h s hs⟩

end Agree
