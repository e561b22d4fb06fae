import Mathlib.Tactic

/-!
# Computations that look into a memory

A computation keeps, beside its value, the indices that it looked at. Whether it stays within the
first cells is then settled load by load.
-/

namespace Loads

/-- A value, and the indices that were looked at for it, in order. -/
structure Load (α : Type) where
  value : α
  indices : List Nat

instance : Monad Load where
  pure a := ⟨a, []⟩
  bind x f := ⟨(f x.value).value, x.indices ++ (f x.value).indices⟩

def load {α : Type} (memory : Nat → α) (i : Nat) : Load α := ⟨memory i, [i]⟩

/-- Nothing behind the first `n` cells is looked at. -/
def Within {α : Type} (n : Nat) (x : Load α) : Prop := ∀ i ∈ x.indices, i < n

section

variable {α β : Type} {n : Nat}

@[simp] theorem value_pure (a : α) : (pure a : Load α).value = a := rfl

@[simp] theorem value_bind (x : Load α) (f : α → Load β) :
    (x >>= f).value = (f x.value).value := rfl

@[simp] theorem value_load (memory : Nat → α) (i : Nat) : (load memory i).value = memory i := rfl

@[simp] theorem value_ite {c : Prop} [Decidable c] (x y : Load α) :
    (if c then x else y).value = if c then x.value else y.value := by
  split <;> rfl

@[simp] theorem within_pure (a : α) : Within n (pure a) := by
  unfold Within
  exact nofun

@[simp] theorem within_load (memory : Nat → α) (i : Nat) : Within n (load memory i) ↔ i < n := by
  unfold Within load
  simp

@[simp] theorem within_bind (x : Load α) (f : α → Load β) :
    Within n (x >>= f) ↔ Within n x ∧ Within n (f x.value) := by
  change (∀ i ∈ x.indices ++ (f x.value).indices, i < n) ↔ _
  simp only [List.mem_append, or_imp, forall_and]
  rfl

theorem within_ite {c : Prop} [Decidable c] (x y : Load α) :
    Within n (if c then x else y) ↔ (c → Within n x) ∧ (¬ c → Within n y) := by
  split <;> simp_all

end

/-! ## Memories and lists -/

/-- The first `n` cells. -/
def cells {α : Type} (memory : Nat → α) (n : Nat) : List α := (List.range n).map memory

section

variable {α : Type} {memory : Nat → α} {n i : Nat}

@[simp] theorem cells_length : (cells memory n).length = n := by
  unfold cells
  simp

theorem drop_cells (h : i < n) :
    (cells memory n).drop i = memory i :: (cells memory n).drop (i + 1) := by
  have hi : i < (cells memory n).length := by rwa [cells_length]
  have hcell : (cells memory n)[i] = memory i := by simp [cells]
  rw [List.drop_eq_getElem_cons hi, hcell]

end

end Loads
