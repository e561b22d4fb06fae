import Mathlib.Data.List.Sort

/-!
# Sorting by a key

A list whose elements have keys of their own is sorted the same way in whatever order it comes.
-/

namespace Sorted

variable {α β κ : Type}

structure Order (le : κ → κ → Bool) : Prop where
  trans (a b c : κ) : le a b = true → le b c = true → le a c = true
  total (a b : κ) : (le a b || le b a) = true
  antisymm (a b : κ) : le a b = true → le b a = true → a = b

def sortBy (le : κ → κ → Bool) (key : α → κ) (l : List α) : List α :=
  l.mergeSort fun a b => le (key a) (key b)

variable {le : κ → κ → Bool} {key : α → κ}

theorem sortBy_perm (l : List α) : (sortBy le key l).Perm l := l.mergeSort_perm _

theorem mem_sortBy {l : List α} {a : α} : a ∈ sortBy le key l ↔ a ∈ l :=
  (sortBy_perm l).mem_iff

theorem sortBy_sorted (h : Order le) (l : List α) :
    (sortBy le key l).Pairwise fun a b => le (key a) (key b) = true :=
  List.pairwise_mergeSort (fun a b c => h.trans (key a) (key b) (key c))
    (fun a b => h.total (key a) (key b)) l

theorem eq_of_key {l : List α} (h : (l.map key).Nodup) {a b : α} (ha : a ∈ l) (hb : b ∈ l)
    (hkey : key a = key b) : a = b := List.inj_on_of_nodup_map h ha hb hkey

theorem sortBy_eq_of_perm (h : Order le) {l l' : List α} (hperm : l.Perm l')
    (hnodup : (l.map key).Nodup) : sortBy le key l = sortBy le key l' := by
  have hsame : (sortBy le key l).Perm (sortBy le key l') :=
    (sortBy_perm l).trans (hperm.trans (sortBy_perm l').symm)
  refine hsame.eq_of_pairwise ?_ (sortBy_sorted h l) (sortBy_sorted h l')
  intro a b ha hb hab hba
  refine eq_of_key hnodup (mem_sortBy.mp ha) ?_ (h.antisymm _ _ hab hba)
  exact hperm.mem_iff.mpr (mem_sortBy.mp hb)

theorem sortBy_map {key' : β → κ} (f : α → β) (hkey : ∀ a, key' (f a) = key a) (l : List α) :
    sortBy le key' (l.map f) = (sortBy le key l).map f := by
  unfold sortBy
  rw [List.map_mergeSort]
  intro a _ b _
  rw [hkey, hkey]

end Sorted
