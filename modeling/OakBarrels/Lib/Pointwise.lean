import Mathlib.Data.List.Forall2

/-!
# Two lists, element by element

A partial function over a list, and a choice for each element of one.
-/

namespace Pointwise

variable {α β : Type*}

/-- A choice for each element is a choice of a list. -/
theorem exists_forall₂ {R : α → β → Prop} {l : List α} :
    (∃ l', List.Forall₂ R l l') ↔ ∀ a ∈ l, ∃ b, R a b := by
  induction l with
  | nil => exact iff_of_true ⟨[], .nil⟩ (by simp)
  | cons a l ih =>
    rw [List.forall_mem_cons, ← ih]
    constructor
    · rintro ⟨l', h⟩
      cases h with
      | cons hab hl => exact ⟨⟨_, hab⟩, _, hl⟩
    · rintro ⟨⟨b, hab⟩, l', hl⟩
      exact ⟨b :: l', .cons hab hl⟩

/-- Where it comes to the same for each pair, it does for the lists. -/
theorem forall_iff {R : α → β → Prop} {P : α → Prop} {Q : β → Prop} {l : List α} {l' : List β}
    (h : List.Forall₂ R l l') (hpair : ∀ a b, R a b → (P a ↔ Q b)) :
    (∀ a ∈ l, P a) ↔ ∀ b ∈ l', Q b := by
  induction h with
  | nil => exact iff_of_true nofun nofun
  | cons hab _ ih => rw [List.forall_mem_cons, List.forall_mem_cons, hpair _ _ hab, ih]

theorem mapM_eq_some {f : α → Option β} {l : List α} {l' : List β} :
    l.mapM f = some l' ↔ List.Forall₂ (fun a b => f a = some b) l l' := by
  induction l generalizing l' with
  | nil => simp [eq_comm]
  | cons a l ih =>
    rw [List.mapM_cons]
    constructor
    · intro h
      obtain ⟨b, hb, h⟩ := Option.bind_eq_some_iff.mp h
      obtain ⟨rest, hrest, h⟩ := Option.bind_eq_some_iff.mp h
      cases h
      exact .cons hb (ih.mp hrest)
    · rintro (_ | ⟨hb, hrest⟩)
      rw [hb, ih.mpr hrest]
      rfl

end Pointwise
