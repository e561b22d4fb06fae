import Mathlib.Tactic

/-!
# Who holds what

Holders that each hold one token or none. A token that is out is held by exactly one of them.
-/

namespace Owners

variable {Holder Token : Type}

/-- The tokens that are out are held, each by one holder, and no other is held. -/
def Owned (held : Holder → Option Token) (out : Token → Prop) : Prop :=
  ∀ token, (out token → ∃! holder, held holder = some token) ∧
    ((∃ holder, held holder = some token) → out token)

section

variable {held : Holder → Option Token} {out : Token → Prop} {holder source : Holder}
  {token : Token}

theorem owned_none : Owned (fun _ : Holder => (none : Option Token)) fun _ => False :=
  fun _ => ⟨False.elim, fun ⟨_, h⟩ => nomatch h⟩

theorem Owned.congr (h : Owned held out) {held' : Holder → Option Token} {out' : Token → Prop}
    (hheld : ∀ holder, held' holder = held holder) (hout : ∀ token, out' token ↔ out token) :
    Owned held' out' := by
  obtain rfl : held' = held := funext hheld
  obtain rfl : out' = out := funext fun token => propext (hout token)
  exact h

theorem Owned.unique (h : Owned held out) {a b : Holder} (ha : held a = some token)
    (hb : held b = some token) : a = b :=
  ((h token).1 ((h token).2 ⟨a, ha⟩)).unique ha hb

variable [DecidableEq Holder]

/-- A token that was not out is given to a holder of none. -/
theorem Owned.give (h : Owned held out) (hfree : held holder = none) (hnew : ¬ out token) :
    Owned (Function.update held holder (some token)) fun t => out t ∨ t = token := by
  have hunheld : ∀ a, held a ≠ some token := fun a ha => hnew ((h token).2 ⟨a, ha⟩)
  intro t
  by_cases ht : t = token
  · subst ht
    refine ⟨fun _ => ⟨holder, by simp, fun a ha => ?_⟩, fun _ => .inr rfl⟩
    by_contra hne
    apply hunheld a
    rw [← Function.update_of_ne hne (some t) held]
    exact ha
  · have hsame : ∀ a, Function.update held holder (some token) a = some t ↔ held a = some t := by
      intro a
      by_cases ha : a = holder
      · subst ha
        rw [Function.update_self, hfree]
        simp [Ne.symm ht]
      · rw [Function.update_of_ne ha]
    simp only [hsame, ht, or_false]
    exact h t

/-- A holder gives up its token, and the token is no longer out. -/
theorem Owned.drop (h : Owned held out) (hheld : held holder = some token) :
    Owned (Function.update held holder none) fun t => out t ∧ t ≠ token := by
  intro t
  by_cases ht : t = token
  · subst ht
    refine ⟨fun hout => absurd rfl hout.2, ?_⟩
    rintro ⟨a, ha⟩
    by_cases hne : a = holder
    · rw [hne, Function.update_self] at ha
      exact nomatch ha
    · rw [Function.update_of_ne hne] at ha
      exact absurd (h.unique ha hheld) hne
  · have hsame : ∀ a, Function.update held holder none a = some t ↔ held a = some t := by
      intro a
      by_cases ha : a = holder
      · subst ha
        rw [Function.update_self, hheld]
        simp [Ne.symm ht]
      · rw [Function.update_of_ne ha]
    simp only [hsame, ht, ne_eq, not_false_eq_true, and_true]
    exact h t

/-- What one holder has passes to another, which had none. -/
theorem Owned.pass (h : Owned held out) (hfree : held holder = none) (hne : holder ≠ source) :
    Owned (Function.update (Function.update held holder (held source)) source none) out := by
  cases hsource : held source with
  | none =>
    apply h.congr _ fun _ => Iff.rfl
    intro a
    by_cases ha : a = source
    · rw [ha, Function.update_self, hsource]
    · rw [Function.update_of_ne ha]
      by_cases ha' : a = holder
      · rw [ha', Function.update_self, hfree]
      · rw [Function.update_of_ne ha']
  | some token =>
    -- It is given up by the one and given to the other.
    have hdropped : Function.update held source none holder = none := by
      rw [Function.update_of_ne hne, hfree]
    have hgiven : Owned (Function.update (Function.update held source none) holder (some token))
        fun t => (out t ∧ t ≠ token) ∨ t = token :=
      (h.drop hsource).give hdropped fun hout => hout.2 rfl
    apply hgiven.congr
    · intro a
      rw [Function.update_comm hne]
    · intro t
      by_cases ht : t = token
      · subst ht
        simp [(h t).2 ⟨source, hsource⟩]
      · simp [ht]

end

end Owners
