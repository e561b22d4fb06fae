import OakBarrels.Json.RoundTrip

/-!
# The text of a value is its own

Values have the same text exactly when they are equal in order, numbers that are not finite standing
for `null`. So what is read back and written again does not change.
-/

open Octets Binary64

namespace OakBarrels.Json

/-! ## Numbers -/

theorem writeNumber_zero (s : Bool) : writeNumber (.finite s .zero) = ascii "0" := by
  cases s <;> decide +kernel

theorem signed_inj {s t : Bool} {p q : ℚ} (hp : 0 < p) (hq : 0 ≤ q) (h : signed s p = signed t q) :
    s = t ∧ p = q := by
  cases s <;> cases t <;> simp [signed] at h ⊢
  · exact h
  · linarith
  · linarith
  · exact h

/-- Equal numbers have one text, the two zeros among them. -/
theorem writeNumber_beq {x y : Double} (h : x.beq y = true) : writeNumber x = writeNumber y := by
  rcases (beq_iff x y).mp h with ⟨s, rfl, rfl⟩ | ⟨q, hx, hy⟩
  · rfl
  · cases x with
    | finite s a =>
      cases y with
      | finite t b =>
        have hsigned := (beq_finite s t a b).mp h
        have ha : 0 ≤ a.value := value_nonneg a
        rcases ha.eq_or_lt with hzero | hpos
        · have hzeros : ∀ c : Magnitude, c.value = 0 → c = .zero :=
            fun c hc => magnitude_ext (hc.trans (by simp [Magnitude.value, Magnitude.zero]))
          have hb : b.value = 0 := by
            rw [← hzero] at hsigned
            cases s <;> cases t <;> simpa [signed] using hsigned.symm
          rw [hzeros a hzero.symm, hzeros b hb, writeNumber_zero, writeNumber_zero]
        · obtain ⟨rfl, hvalue⟩ := signed_inj hpos (value_nonneg b) hsigned
          rw [magnitude_ext hvalue]
      | inf t => cases hy
      | nan => cases hy
    | inf s => cases hx
    | nan => cases hx

/-! ## Values -/

theorem itemsAlike_right {a b c : List Value} (hab : itemsAlike a b) (hac : itemsAlike a c)
    (h : ∀ v ∈ a, ∀ w u : Value, v.Alike w → v.Alike u → w.Alike u) : itemsAlike b c := by
  induction a generalizing b c with
  | nil =>
    cases b with
    | nil => exact hac
    | cons w b => cases hab
  | cons v a ih =>
    cases b with
    | nil => cases hab
    | cons w b =>
      cases c with
      | nil => cases hac
      | cons u c =>
        exact ⟨h v List.mem_cons_self w u hab.1 hac.1,
          ih hab.2 hac.2 fun v hv => h v (List.mem_cons_of_mem _ hv)⟩

theorem membersAlike_right {a b c : List (Bytes × Value)} (hab : membersAlike a b)
    (hac : membersAlike a c) (h : ∀ m ∈ a, ∀ w u : Value, m.2.Alike w → m.2.Alike u → w.Alike u) :
    membersAlike b c := by
  induction a generalizing b c with
  | nil =>
    cases b with
    | nil => exact hac
    | cons n b => cases hab
  | cons m a ih =>
    cases b with
    | nil => cases hab
    | cons n b =>
      cases c with
      | nil => cases hac
      | cons l c =>
        obtain ⟨hname, hvalue, hrest⟩ := hab
        obtain ⟨hname', hvalue', hrest'⟩ := hac
        exact ⟨hname.symm.trans hname', h m List.mem_cons_self _ _ hvalue hvalue',
          ih hrest hrest' fun m hm => h m (List.mem_cons_of_mem _ hm)⟩

/-- What a value is equal to in order is equal in order. -/
theorem Alike.right {v w u : Value} (hvw : v.Alike w) (hvu : v.Alike u) : w.Alike u := by
  induction v generalizing w u with
  | null => cases w <;> cases u <;> simp_all [Value.Alike]
  | boolean => cases w <;> cases u <;> simp_all [Value.Alike]
  | number x =>
    cases w with
    | number y =>
      cases u with
      | number z => exact beq_trans ((beq_comm y x).trans hvw) hvu
      | _ => cases hvu
    | _ => cases hvw
  | string => cases w <;> cases u <;> simp_all [Value.Alike]
  | array items ih =>
    cases w with
    | array ws =>
      cases u with
      | array us => exact itemsAlike_right hvw hvu fun v hv _ _ => ih v hv
      | _ => cases hvu
    | _ => cases hvw
  | object members ih =>
    cases w with
    | object ws =>
      cases u with
      | object us => exact membersAlike_right hvw hvu fun m hm _ _ => ih m hm
      | _ => cases hvu
    | _ => cases hvw

theorem writeItems_alike {a b : List Value} (h : itemsAlike a b)
    (hwrite : ∀ v ∈ a, ∀ w, v.Alike w → writeValue v = writeValue w) (first : Bool) :
    writeItems first a = writeItems first b := by
  induction a generalizing b first with
  | nil =>
    cases b with
    | nil => rfl
    | cons w b => cases h
  | cons v a ih =>
    cases b with
    | nil => cases h
    | cons w b =>
      unfold writeItems
      rw [hwrite v List.mem_cons_self w h.1, ih h.2 fun v hv => hwrite v (List.mem_cons_of_mem _ hv)]

theorem writeMembers_alike {a b : List (Bytes × Value)} (h : membersAlike a b)
    (hwrite : ∀ m ∈ a, ∀ w, m.2.Alike w → writeValue m.2 = writeValue w) (first : Bool) :
    writeMembers first a = writeMembers first b := by
  induction a generalizing b first with
  | nil =>
    cases b with
    | nil => rfl
    | cons n b => cases h
  | cons m a ih =>
    cases b with
    | nil => cases h
    | cons n b =>
      obtain ⟨hname, hvalue, hrest⟩ := h
      unfold writeMembers
      rw [hname, hwrite m List.mem_cons_self _ hvalue,
        ih hrest fun m hm => hwrite m (List.mem_cons_of_mem _ hm)]

/-- Equal in order, and so the same text. -/
theorem writeValue_alike {v w : Value} (h : v.Alike w) : writeValue v = writeValue w := by
  induction v generalizing w with
  | null => cases w <;> simp_all [Value.Alike]
  | boolean => cases w <;> simp_all [Value.Alike]
  | number x =>
    cases w with
    | number y => exact writeNumber_beq h
    | _ => cases h
  | string => cases w <;> simp_all [Value.Alike]
  | array items ih =>
    cases w with
    | array ws =>
      unfold writeValue
      rw [writeItems_alike h fun v hv _ => ih v hv]
    | _ => cases h
  | object members ih =>
    cases w with
    | object ws =>
      unfold writeValue
      rw [writeMembers_alike h fun m hm _ => ih m hm]
    | _ => cases h

theorem writeItems_map {items : List Value} {f : Value → Value}
    (h : ∀ v ∈ items, writeValue (f v) = writeValue v) (first : Bool) :
    writeItems first (items.map f) = writeItems first items := by
  induction items generalizing first with
  | nil => rfl
  | cons v rest ih =>
    rw [List.map_cons]
    unfold writeItems
    rw [h v List.mem_cons_self, ih fun v hv => h v (List.mem_cons_of_mem _ hv)]

theorem writeMembers_map {members : List (Bytes × Value)} {f : Value → Value}
    (h : ∀ m ∈ members, writeValue (f m.2) = writeValue m.2) (first : Bool) :
    writeMembers first (members.map fun m => (m.1, f m.2)) = writeMembers first members := by
  induction members generalizing first with
  | nil => rfl
  | cons m rest ih =>
    rw [List.map_cons]
    unfold writeMembers
    rw [h m List.mem_cons_self, ih fun m hm => h m (List.mem_cons_of_mem _ hm)]

/-- A number that is not finite is written as `null` is. -/
theorem dump_finiteOrNull (v : Value) : v.finiteOrNull.dump = v.dump := by
  unfold Value.dump
  induction v with
  | null | boolean | string => rfl
  | number x =>
    unfold Value.finiteOrNull
    split
    · rfl
    · rename_i hinfinite
      unfold writeValue writeNumber
      rw [if_pos hinfinite]
  | array items ih =>
    unfold Value.finiteOrNull writeValue
    rw [itemsFiniteOrNull_eq, writeItems_map ih]
  | object members ih =>
    unfold Value.finiteOrNull writeValue
    rw [membersFiniteOrNull_eq, writeMembers_map ih]

/-- **One text a value.** Two values of which no object has a name twice, nested at most 64 deep, have
the same text exactly when they are equal in order, with `null` for every number that is not finite. -/
theorem dump_eq_iff {v w : Value} (hv : v.Distinct) (hw : w.Distinct) (hvheight : v.height ≤ 64)
    (hwheight : w.height ≤ 64) : v.dump = w.dump ↔ v.finiteOrNull.Alike w.finiteOrNull := by
  constructor
  · intro htext
    obtain ⟨u, hparse, -, halike⟩ := parse_dump_alike hv hvheight
    obtain ⟨u', hparse', -, halike'⟩ := parse_dump_alike hw hwheight
    rw [htext, hparse', Option.some.injEq] at hparse
    rw [hparse] at halike'
    exact Alike.right halike halike'
  · intro halike
    rw [← dump_finiteOrNull v, ← dump_finiteOrNull w]
    exact writeValue_alike halike

/-- The two zeros have one text, and so have a number that is none and `null`. -/
theorem dump_eq_iff_zeros : (Value.array [.number (.finite true .zero), .number .nan]).dump
    = (Value.array [.number (.finite false .zero), .null]).dump :=
  (dump_eq_iff (.array (by simp [Value.Distinct.number])) (.array (by
    simp [Value.Distinct.number, Value.Distinct.null])) (by decide) (by decide)).mpr
      ⟨show Double.beq _ _ = true by decide, trivial, trivial⟩

/-- What is read back from the text of a value has that text. -/
theorem dump_parse_dump {v : Value} (hv : v.Distinct) (hheight : v.height ≤ 64) :
    (parse v.dump).map Value.dump = some v.dump := by
  obtain ⟨u, hparse, -, halike⟩ := parse_dump_alike hv hheight
  have hsame : u.dump = v.finiteOrNull.dump := writeValue_alike halike
  rw [hparse, Option.map_some, hsame, dump_finiteOrNull]

end OakBarrels.Json
