import Mathlib.Data.List.Nodup
import Mathlib.Data.List.Perm.Subperm

/-!
# Lists of named values

A list of pairs without repeated names is a finite map. Two of them match when they are as long as
each other and each value of the one has its partner under the same name in the other.
-/

namespace Association

variable {κ α : Type*} {R S T : α → α → Prop} {a b c : List (κ × α)}

def Matches (R : α → α → Prop) (a b : List (κ × α)) : Prop :=
  a.length = b.length ∧ ∀ m ∈ a, ∃ w, (m.1, w) ∈ b ∧ R m.2 w

theorem eq_of_mem {k : κ} {v w : α} (hdup : (a.map Prod.fst).Nodup) (hv : (k, v) ∈ a)
    (hw : (k, w) ∈ a) : v = w :=
  (Prod.mk.inj (List.inj_on_of_nodup_map hdup hv hw rfl)).2

theorem matches_of_perm (h : a.Perm b) (hrefl : ∀ m ∈ a, R m.2 m.2) : Matches R a b :=
  ⟨h.length_eq, fun m hm => ⟨m.2, h.mem_iff.mp hm, hrefl m hm⟩⟩

theorem Matches.mono (h : Matches R a b) (himp : ∀ m ∈ a, ∀ n ∈ b, R m.2 n.2 → S m.2 n.2) :
    Matches S a b := by
  refine ⟨h.1, ?_⟩
  intro m hm
  obtain ⟨w, hw, hr⟩ := h.2 m hm
  exact ⟨w, hw, himp m hm _ hw hr⟩

theorem Matches.trans (h : Matches R a b) (h' : Matches S b c)
    (htrans : ∀ m ∈ a, ∀ n ∈ b, ∀ p ∈ c, R m.2 n.2 → S n.2 p.2 → T m.2 p.2) : Matches T a c := by
  refine ⟨h.1.trans h'.1, ?_⟩
  intro m hm
  obtain ⟨u, hu, hr⟩ := h.2 m hm
  obtain ⟨w, hw, hs⟩ := h'.2 _ hu
  exact ⟨w, hw, htrans m hm _ hu _ hw hr hs⟩

theorem Matches.names (h : Matches R a b) (ha : (a.map Prod.fst).Nodup) :
    (a.map Prod.fst).Perm (b.map Prod.fst) := by
  have hsub : a.map Prod.fst ⊆ b.map Prod.fst := by
    intro k hk
    obtain ⟨m, hm, rfl⟩ := List.mem_map.mp hk
    obtain ⟨w, hw, -⟩ := h.2 m hm
    exact List.mem_map.mpr ⟨_, hw, rfl⟩
  have hlength : (b.map Prod.fst).length ≤ (a.map Prod.fst).length := by simp [h.1]
  -- Distinct names, all found in a list that is no longer, are all the names of that list.
  exact (List.subperm_of_subset ha hsub).perm_of_length_le hlength

theorem Matches.flip (h : Matches R a b) (ha : (a.map Prod.fst).Nodup)
    (hb : (b.map Prod.fst).Nodup) : Matches (fun v w => R w v) b a := by
  refine ⟨h.1.symm, ?_⟩
  intro n hn
  obtain ⟨m, hm, hname⟩ : ∃ m ∈ a, m.1 = n.1 :=
    List.mem_map.mp ((h.names ha).mem_iff.mpr (List.mem_map_of_mem hn))
  obtain ⟨w, hw, hr⟩ := h.2 m hm
  rw [hname] at hw
  rw [eq_of_mem hb hw hn] at hr
  exact ⟨m.2, hname ▸ hm, hr⟩

end Association
