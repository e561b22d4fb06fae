import OakBarrels.Json.RoundTrip
import OakBarrels.Lib.Association

/-!
# Objects as maps

What the program has of values, with what was put into their objects, and `operator==` on them: an
equality up to the order of members.
-/

open Octets Binary64 Association

namespace OakBarrels.Json

/-! ## What was put into an object -/

inductive Doc.Within : Doc → Doc → Prop
  | root (d : Doc) : Within d d
  | item {e d : Doc} {items : List Doc} : d ∈ items → Within e d → Within e (.array items)
  | member {e : Doc} {m : Bytes × Doc} {members : List (Bytes × Doc)} : m ∈ members →
      Within e m.2 → Within e (.object members)

/-- The members of the outermost object, as they stand in the text. -/
def Doc.puts : Doc → List (Bytes × Value)
  | .object members => membersMeaning members
  | _ => []

/-- A value from a text, or made by the constructors and `set`. The list is what was put into it, in
order, if it is an object: the members that its text has, and what was set. -/
inductive Obtained : Value → List (Bytes × Value) → Prop
  | parse {t : Bytes} {d e : Doc} : IsText t d → parse t = some d.meaning → e.Within d →
      Obtained e.meaning e.puts
  | null : Obtained .null []
  | boolean (v : Bool) : Obtained (.boolean v) []
  | number (v : Double) : Obtained (.number v) []
  | integer (v : Int64) : Obtained (.integer v) []
  | string (v : Bytes) : Obtained (.string v) []
  | array {items : List Value} {puts : Value → List (Bytes × Value)} :
      (∀ v ∈ items, Obtained v (puts v)) → Obtained (.array items) []
  | object : Obtained (.object []) []
  | set {v w : Value} {puts puts' : List (Bytes × Value)} (key : Bytes) : Obtained v puts →
      Obtained w puts' → Obtained (v.set key w) (if v.isObject then puts ++ [(key, w)] else puts)

theorem obtained_of_parse {t : Bytes} {v : Value} (h : parse t = some v) :
    ∃ d, IsText t d ∧ d.meaning = v ∧ Obtained v d.puts := by
  obtain ⟨d, htext, -, rfl⟩ := parse_sound h
  exact ⟨d, htext, rfl, .parse htext h (.root d)⟩

theorem Obtained.lastWins {v : Value} {puts : List (Bytes × Value)} (h : Obtained v puts) :
    v = .object (lastWins puts) ∨ v.isObject = false ∧ puts = [] := by
  induction h with
  | @parse t d e htext hparse hwithin =>
    cases e with
    | object members => exact .inl (by rw [Doc.meaning, Doc.puts])
    | _ => exact .inr ⟨rfl, rfl⟩
  | object => exact .inl rfl
  | @set v w puts puts' key _ _ ihv _ =>
    rcases ihv with rfl | ⟨hkind, rfl⟩
    · refine .inl ?_
      rw [show (Value.object (Json.lastWins puts)).isObject = true from rfl, if_pos rfl,
        lastWins_append]
      rfl
    · refine .inr ?_
      cases v with
      | object members => exact absurd hkind Bool.true_eq_false_eq_False
      | _ => exact ⟨rfl, rfl⟩
  | _ => exact .inr ⟨rfl, rfl⟩

theorem Obtained.distinct {v : Value} {puts : List (Bytes × Value)} (h : Obtained v puts) :
    v.Distinct := by
  induction h with
  | @parse t d e htext hparse hwithin => exact meaning_distinct e
  | null => exact .null
  | boolean v => exact .boolean v
  | number v => exact .number v
  | integer v => exact .number _
  | string v => exact .string v
  | array _ ih => exact .array ih
  | object => exact .object (by simp) (by simp)
  | set key _ _ ihv ihw => exact ihv.set key ihw

theorem Obtained.members {v : Value} {puts : List (Bytes × Value)} (h : Obtained v puts) :
    v.members.map Prod.fst = (puts.map Prod.fst).eraseDups ∧
      ∀ key, v.find key = puts.reverse.lookup key := by
  rcases h.lastWins with rfl | ⟨hkind, rfl⟩
  · exact ⟨lastWins_names puts, lookup_lastWins puts⟩
  · cases v with
    | object members => exact absurd hkind Bool.true_eq_false_eq_False
    | _ => exact ⟨rfl, fun _ => rfl⟩

/-! ## Equality -/

/-- No number of the value is NaN. -/
inductive Value.NoNaN : Value → Prop
  | null : NoNaN .null
  | boolean (v : Bool) : NoNaN (.boolean v)
  | number {v : Double} : v ≠ .nan → NoNaN (.number v)
  | string (v : Bytes) : NoNaN (.string v)
  | array {items : List Value} : (∀ v ∈ items, v.NoNaN) → NoNaN (.array items)
  | object {members : List (Bytes × Value)} : (∀ m ∈ members, m.2.NoNaN) →
      NoNaN (.object members)

/-- The members of objects, at any level, are in another order. -/
inductive Value.Permuted : Value → Value → Prop
  | members {a b : List (Bytes × Value)} : a.Perm b → Permuted (.object a) (.object b)
  | item {v w : Value} (before after : List Value) : Permuted v w →
      Permuted (.array (before ++ v :: after)) (.array (before ++ w :: after))
  | member {v w : Value} (key : Bytes) (before after : List (Bytes × Value)) : Permuted v w →
      Permuted (.object (before ++ (key, v) :: after)) (.object (before ++ (key, w) :: after))
  | refl (v : Value) : Permuted v v
  | trans {u v w : Value} : Permuted u v → Permuted v w → Permuted u w

theorem mem_of_lookup {ms : List (Bytes × Value)} {key : Bytes} {v : Value}
    (h : ms.lookup key = some v) : (key, v) ∈ ms := by
  obtain ⟨before, after, rfl, -⟩ := List.lookup_eq_some_iff.mp h
  simp

theorem distinct_object {members : List (Bytes × Value)} : (Value.object members).Distinct ↔
    (members.map Prod.fst).Nodup ∧ ∀ m ∈ members, m.2.Distinct := by
  constructor
  · rintro (_ | _ | _ | _ | _ | ⟨hdup, hmembers⟩)
    exact ⟨hdup, hmembers⟩
  · exact fun h => .object h.1 h.2

theorem distinct_array {items : List Value} :
    (Value.array items).Distinct ↔ ∀ v ∈ items, v.Distinct := by
  constructor
  · rintro (_ | _ | _ | _ | h)
    exact h
  · exact .array

theorem noNaN_object {members : List (Bytes × Value)} :
    (Value.object members).NoNaN ↔ ∀ m ∈ members, m.2.NoNaN := by
  constructor
  · rintro (_ | _ | _ | _ | _ | h)
    exact h
  · exact .object

theorem noNaN_array {items : List Value} :
    (Value.array items).NoNaN ↔ ∀ v ∈ items, v.NoNaN := by
  constructor
  · rintro (_ | _ | _ | _ | h)
    exact h
  · exact .array

/-- Objects are equal when their members match by name. -/
theorem object_beq {a b : List (Bytes × Value)} (hb : (b.map Prod.fst).Nodup) :
    (Value.object a).beq (.object b) = true ↔ Matches (fun v w => w.beq v = true) a b := by
  rw [Value.beq, Bool.and_eq_true, beq_iff_eq]
  refine and_congr_right fun _ => ⟨fun h m hm => ?_, fun h => ?_⟩
  · obtain ⟨w, hw, hbeq⟩ := lookup_of_membersBeq h m hm
    exact ⟨w, mem_of_lookup hw, hbeq⟩
  · apply membersBeq_of_lookup
    intro m hm
    obtain ⟨w, hw, hbeq⟩ := h m hm
    exact ⟨w, lookup_of_mem hb hw, hbeq⟩

theorem array_beq {a b : List Value} : (Value.array a).beq (.array b) = true ↔
    List.Forall₂ (fun v w => v.beq w = true) a b := by
  rw [Value.beq]
  induction a generalizing b with
  | nil => cases b <;> simp [itemsBeq]
  | cons v a ih => cases b <;> simp [itemsBeq, ih]

theorem beq_refl_of {v : Value} (hv : v.Distinct) (hnan : v.NoNaN) : v.beq v = true := by
  induction v with
  | null => rw [Value.beq]
  | boolean v => simp [Value.beq]
  | number x =>
    cases hnan with
    | number h =>
      rw [Value.beq]
      exact Binary64.beq_refl h
  | string v => simp [Value.beq]
  | array items ih =>
    rw [distinct_array] at hv
    rw [noNaN_array] at hnan
    rw [array_beq, List.forall₂_same]
    exact fun v hmem => ih v hmem (hv v hmem) (hnan v hmem)
  | object members ih =>
    rw [distinct_object] at hv
    rw [noNaN_object] at hnan
    rw [object_beq hv.1]
    exact matches_of_perm (.refl _) fun m hm => ih m hm (hv.2 m hm) (hnan m hm)

theorem itemsBeq_comm {a b : List Value} (h : ∀ v ∈ a, ∀ w ∈ b, v.beq w = w.beq v) :
    itemsBeq a b = itemsBeq b a := by
  induction a generalizing b with
  | nil => cases b <;> simp [itemsBeq]
  | cons v a ih =>
    cases b with
    | nil => simp [itemsBeq]
    | cons w b =>
      have hrest : itemsBeq a b = itemsBeq b a :=
        ih fun v hv w hw => h v (List.mem_cons_of_mem _ hv) w (List.mem_cons_of_mem _ hw)
      rw [itemsBeq, itemsBeq, h v List.mem_cons_self w List.mem_cons_self, hrest]

theorem object_beq_flip {a b : List (Bytes × Value)} (ha : (a.map Prod.fst).Nodup)
    (hb : (b.map Prod.fst).Nodup) (hflip : ∀ m ∈ a, ∀ n ∈ b, n.2.beq m.2 = m.2.beq n.2)
    (h : (Value.object a).beq (.object b) = true) : (Value.object b).beq (.object a) = true := by
  rw [object_beq hb] at h
  rw [object_beq ha]
  apply (h.flip ha hb).mono
  intro n hn m hm hbeq
  rw [← hflip m hm n hn]
  exact hbeq

theorem value_beq_comm {v w : Value} (hv : v.Distinct) (hw : w.Distinct) :
    v.beq w = w.beq v := by
  induction v generalizing w with
  | array items ih =>
    cases w with
    | array others =>
      rw [distinct_array] at hv hw
      rw [Value.beq, Value.beq]
      exact itemsBeq_comm fun v hmem w hother => ih v hmem (hv v hmem) (hw w hother)
    | _ => rw [Value.beq, Value.beq] <;> simp
  | object members ih =>
    cases w with
    | object others =>
      rw [distinct_object] at hv hw
      have hcomm : ∀ m ∈ members, ∀ n ∈ others, m.2.beq n.2 = n.2.beq m.2 :=
        fun m hm n hn => ih m hm (hv.2 m hm) (hw.2 n hn)
      rw [Bool.eq_iff_iff]
      constructor
      · exact object_beq_flip hv.1 hw.1 fun m hm n hn => (hcomm m hm n hn).symm
      · exact object_beq_flip hw.1 hv.1 fun n hn m hm => hcomm m hm n hn
    | _ => rw [Value.beq, Value.beq] <;> simp
  | number x =>
    cases w with
    | number y =>
      rw [Value.beq, Value.beq]
      exact Binary64.beq_comm x y
    | _ => rw [Value.beq, Value.beq] <;> simp
  | _ => cases w <;> simp [Value.beq, Bool.beq_comm]

theorem array_beq_trans {a b c : List Value} (h : (Value.array a).beq (.array b) = true)
    (h' : (Value.array b).beq (.array c) = true)
    (htrans : ∀ u ∈ a, ∀ v ∈ b, ∀ w ∈ c, u.beq v = true → v.beq w = true → u.beq w = true) :
    (Value.array a).beq (.array c) = true := by
  rw [array_beq] at h h' ⊢
  induction h generalizing c with
  | nil =>
    cases h'
    exact .nil
  | @cons u v a b hfirst _ ih =>
    obtain _ | ⟨hsecond, hrest⟩ := h'
    refine .cons (htrans u List.mem_cons_self v List.mem_cons_self _ List.mem_cons_self hfirst
      hsecond) (ih hrest ?_)
    intro u hu v hv w hw
    exact htrans u (List.mem_cons_of_mem _ hu) v (List.mem_cons_of_mem _ hv) w
      (List.mem_cons_of_mem _ hw)

theorem value_beq_trans {u v w : Value} (hu : u.Distinct) (hv : v.Distinct) (hw : w.Distinct)
    (h : u.beq v = true) (h' : v.beq w = true) : u.beq w = true := by
  induction u generalizing v w with
  | array items ih =>
    cases v with
    | array others =>
      cases w with
      | array more =>
        rw [distinct_array] at hu hv hw
        exact array_beq_trans h h' fun x hx y hy z hz =>
          ih x hx (hu x hx) (hv y hy) (hw z hz)
      | _ => simp [Value.beq] at h'
    | _ => simp [Value.beq] at h
  | object members ih =>
    cases v with
    | object others =>
      cases w with
      | object more =>
        rw [distinct_object] at hu hv hw
        rw [object_beq hv.1] at h
        rw [object_beq hw.1] at h' ⊢
        apply h.trans h'
        intro m hm n hn p hp hnm hpn
        have hmn : m.2.beq n.2 = true := value_beq_comm (hv.2 n hn) (hu.2 m hm) ▸ hnm
        have hnp : n.2.beq p.2 = true := value_beq_comm (hw.2 p hp) (hv.2 n hn) ▸ hpn
        rw [value_beq_comm (hw.2 p hp) (hu.2 m hm)]
        exact ih m hm (hu.2 m hm) (hv.2 n hn) (hw.2 p hp) hmn hnp
      | _ => simp [Value.beq] at h'
    | _ => simp [Value.beq] at h
  | number x =>
    cases v with
    | number y =>
      cases w with
      | number z =>
        rw [Value.beq] at h h' ⊢
        exact Binary64.beq_trans h h'
      | _ => simp [Value.beq] at h'
    | _ => simp [Value.beq] at h
  | _ => cases v <;> cases w <;> simp_all [Value.beq]

/-! ## Other orders of members -/

theorem forall_replaced {α : Type} {P : α → Prop} {before after : List α} {x y : α}
    (h : ∀ z ∈ before ++ x :: after, P z) (hy : P y) : ∀ z ∈ before ++ y :: after, P z := by
  rw [List.forall_mem_append, List.forall_mem_cons] at h ⊢
  exact ⟨h.1, hy, h.2.2⟩

theorem array_replaced {before after : List Value} {v w : Value}
    (hitems : ∀ x ∈ before ++ v :: after, x.beq x = true) (hbeq : v.beq w = true) :
    (Value.array (before ++ v :: after)).beq (.array (before ++ w :: after)) = true := by
  rw [List.forall_mem_append, List.forall_mem_cons] at hitems
  rw [array_beq]
  apply List.rel_append (List.forall₂_same.mpr hitems.1)
  exact .cons hbeq (List.forall₂_same.mpr hitems.2.2)

theorem object_replaced {before after : List (Bytes × Value)} {key : Bytes} {v w : Value}
    (hdup : ((before ++ (key, w) :: after).map Prod.fst).Nodup)
    (hmembers : ∀ m ∈ before ++ (key, v) :: after, m.2.beq m.2 = true) (hbeq : w.beq v = true) :
    (Value.object (before ++ (key, v) :: after)).beq (.object (before ++ (key, w) :: after))
      = true := by
  rw [object_beq hdup]
  refine ⟨by simp, fun m hm => ?_⟩
  have hrefl := hmembers m hm
  rcases List.mem_append.mp hm with hm | hm
  · exact ⟨m.2, by simp [hm], hrefl⟩
  · rcases List.mem_cons.mp hm with rfl | hm
    · exact ⟨w, by simp, hbeq⟩
    · exact ⟨m.2, by simp [hm], hrefl⟩

/-- A value of another order has distinct names and no NaN as well, and is equal. -/
theorem Value.Permuted.equal {v w : Value} (h : v.Permuted w) (hv : v.Distinct)
    (hnan : v.NoNaN) : w.Distinct ∧ w.NoNaN ∧ v.beq w = true := by
  induction h with
  | @members a b hperm =>
    rw [distinct_object] at hv
    rw [noNaN_object] at hnan
    have hdup : (b.map Prod.fst).Nodup := (hperm.map Prod.fst).nodup_iff.mp hv.1
    refine ⟨distinct_object.mpr ⟨hdup, fun m hm => hv.2 m (hperm.mem_iff.mpr hm)⟩,
      noNaN_object.mpr fun m hm => hnan m (hperm.mem_iff.mpr hm), ?_⟩
    rw [object_beq hdup]
    exact matches_of_perm hperm fun m hm => beq_refl_of (hv.2 m hm) (hnan m hm)
  | @item v w before after _ ih =>
    rw [distinct_array] at hv
    rw [noNaN_array] at hnan
    obtain ⟨hw, hnanw, hbeq⟩ := ih (hv v (by simp)) (hnan v (by simp))
    refine ⟨distinct_array.mpr (forall_replaced hv hw),
      noNaN_array.mpr (forall_replaced hnan hnanw), ?_⟩
    exact array_replaced (fun x hx => beq_refl_of (hv x hx) (hnan x hx)) hbeq
  | @member v w key before after _ ih =>
    rw [distinct_object] at hv
    rw [noNaN_object] at hnan
    have hdistinct : v.Distinct := hv.2 (key, v) (by simp)
    obtain ⟨hw, hnanw, hbeq⟩ := ih hdistinct (hnan (key, v) (by simp))
    have hdup : ((before ++ (key, w) :: after).map Prod.fst).Nodup := by simpa using hv.1
    refine ⟨distinct_object.mpr ⟨hdup, forall_replaced hv.2 hw⟩,
      noNaN_object.mpr (forall_replaced hnan hnanw), ?_⟩
    rw [value_beq_comm hdistinct hw] at hbeq
    exact object_replaced hdup (fun m hm => beq_refl_of (hv.2 m hm) (hnan m hm)) hbeq
  | refl v => exact ⟨hv, hnan, beq_refl_of hv hnan⟩
  | trans _ _ ih ih' =>
    obtain ⟨hv', hnan', hbeq⟩ := ih hv hnan
    obtain ⟨hw, hnanw, hbeq'⟩ := ih' hv' hnan'
    exact ⟨hw, hnanw, value_beq_trans hv hv' hw hbeq hbeq'⟩

theorem permuted_beq {u u' v v' : Value} (hu : u.Distinct) (hv : v.Distinct) (hnanu : u.NoNaN)
    (hnanv : v.NoNaN) (hpu : u.Permuted u') (hpv : v.Permuted v') : u'.beq v' = u.beq v := by
  obtain ⟨hu', -, huu'⟩ := hpu.equal hu hnanu
  obtain ⟨hv', -, hvv'⟩ := hpv.equal hv hnanv
  have hu'u : u'.beq u = true := value_beq_comm hu hu' ▸ huu'
  have hv'v : v'.beq v = true := value_beq_comm hv hv' ▸ hvv'
  rw [Bool.eq_iff_iff]
  constructor
  · intro h
    exact value_beq_trans hu hv' hv (value_beq_trans hu hu' hv' huu' h) hv'v
  · intro h
    exact value_beq_trans hu' hv hv' (value_beq_trans hu' hu hv hu'u h) hvv'

/-- Objects are maps in the order of insertion, and `operator==` is an equality of maps. -/
theorem objects_are_maps {u v w : Value} {puts puts' puts'' : List (Bytes × Value)}
    (hu : Obtained u puts) (hv : Obtained v puts') (hw : Obtained w puts'') :
    (∀ t x, parse t = some x → ∃ d, IsText t d ∧ d.meaning = x ∧ Obtained x d.puts) ∧
    (u.Distinct ∧ u.members.map Prod.fst = (puts.map Prod.fst).eraseDups ∧
      ∀ key, u.find key = puts.reverse.lookup key) ∧
    (u.NoNaN → v.NoNaN → w.NoNaN →
      u.beq u = true ∧ u.beq v = v.beq u ∧
      (u.beq v = true → v.beq w = true → u.beq w = true) ∧
      ∀ u' v', u.Permuted u' → v.Permuted v' → u'.beq v' = u.beq v) := by
  refine ⟨fun _ _ => obtained_of_parse, ⟨hu.distinct, hu.members⟩,
    fun hnanu hnanv _ => ⟨?_, ?_, ?_, ?_⟩⟩
  · exact beq_refl_of hu.distinct hnanu
  · exact value_beq_comm hu.distinct hv.distinct
  · exact value_beq_trans hu.distinct hv.distinct hw.distinct
  · exact fun u' v' => permuted_beq hu.distinct hv.distinct hnanu hnanv

/-- A member that was set twice. -/
def setTwice : Value :=
  (((Value.object []).set [120] (.boolean true)).set [121] .null).set [120] .null

theorem objects_are_maps_setTwice :
    setTwice.members.map Prod.fst = [[120], [121]] ∧ setTwice.find [120] = some .null ∧
      setTwice.beq (.object [([121], .null), ([120], .null)]) = true := by
  have hobtained : Obtained setTwice
      [([120], .boolean true), ([121], .null), ([120], .null)] :=
    .set _ (.set _ (.set _ .object (.boolean true)) .null) .null
  have hnan : setTwice.NoNaN := by
    apply Value.NoNaN.object
    intro m hm
    have hnull : m.2 = .null := by
      rcases hm with _ | ⟨_, _ | ⟨_, hm⟩⟩
      · rfl
      · rfl
      · cases hm
    exact hnull ▸ .null
  obtain ⟨-, ⟨-, hnames, hfind⟩, hbeq⟩ := objects_are_maps hobtained hobtained hobtained
  obtain ⟨hrefl, -, -, hpermuted⟩ := hbeq hnan hnan hnan
  have hother : setTwice.Permuted (.object [([121], .null), ([120], .null)]) :=
    .members (.swap _ _ _)
  refine ⟨hnames.trans (by decide), hfind [120], ?_⟩
  rw [hpermuted _ _ (.refl _) hother, hrefl]

end OakBarrels.Json
