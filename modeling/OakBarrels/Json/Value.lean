import OakBarrels.Lib.Conversion

/-!
# JSON values

The value type of the protocol: its constructors and readers, and objects as member lists that
`set` keeps free of duplicate names.
-/

open Octets Binary64

namespace OakBarrels.Json

inductive Value
  | null
  | boolean (v : Bool)
  | number (v : Double)
  | string (v : Bytes)
  | array (items : List Value)
  | object (members : List (Bytes × Value))

/-- What `static_cast` leaves for a double outside the target's range. C++ does not say, so it is a
parameter wherever the code converts a number of the peer's. -/
abbrev Unrepresentable := Double → Int64

def toInt64 (unrepresentable : Unrepresentable) (x : Double) : Int64 :=
  if -2 ^ 63 ≤ x.truncate ∧ x.truncate < 2 ^ 63 then Int64.ofInt x.truncate
  else unrepresentable x

namespace Value

def integer (v : Int64) : Value := .number (.ofInt v.toInt)

def isNumber : Value → Bool
  | .number _ => true
  | _ => false

def isString : Value → Bool
  | .string _ => true
  | _ => false

def isBool : Value → Bool
  | .boolean _ => true
  | _ => false

def isArray : Value → Bool
  | .array _ => true
  | _ => false

def isObject : Value → Bool
  | .object _ => true
  | _ => false

def asBool (fallback : Bool) : Value → Bool
  | .boolean v => v
  | _ => fallback

def asNumber (fallback : Double) : Value → Double
  | .number v => v
  | _ => fallback

def asInt (unrepresentable : Unrepresentable) (fallback : Int64) : Value → Int64
  | .number v => if v.isFinite then toInt64 unrepresentable v else fallback
  | _ => fallback

def asString (fallback : Bytes) : Value → Bytes
  | .string v => v
  | _ => fallback

def asArray : Value → List Value
  | .array items => items
  | _ => []

def members : Value → List (Bytes × Value)
  | .object members => members
  | _ => []

def find (key : Bytes) : Value → Option Value
  | .object members => members.lookup key
  | _ => none

theorem eq_number {v : Value} {fallback : Double} (h : v.isNumber = true) :
    v = .number (v.asNumber fallback) := by
  unfold isNumber at h
  split at h
  · rfl
  · cases h

theorem eq_string {v : Value} {fallback : Bytes} (h : v.isString = true) :
    v = .string (v.asString fallback) := by
  unfold isString at h
  split at h
  · rfl
  · cases h

end Value

/-- A later occurrence of a name replaces the value and keeps the place. -/
def setMember (key : Bytes) (value : Value) : List (Bytes × Value) → List (Bytes × Value)
  | [] => [(key, value)]
  | m :: rest => if m.1 = key then (m.1, value) :: rest else m :: setMember key value rest

def Value.set (v : Value) (key : Bytes) (value : Value) : Value :=
  match v with
  | .object members => .object (setMember key value members)
  | v => v

/-! ## Nesting -/

mutual

def Value.height : Value → Nat
  | .array items => itemsHeight items
  | .object members => membersHeight members
  | _ => 0

def itemsHeight : List Value → Nat
  | [] => 0
  | v :: rest => max (v.height + 1) (itemsHeight rest)

def membersHeight : List (Bytes × Value) → Nat
  | [] => 0
  | (_, v) :: rest => max (v.height + 1) (membersHeight rest)

end

/-- Induction over a value, with the hypothesis for each value inside an array or an object. -/
@[elab_as_elim, induction_eliminator]
theorem Value.nested {P : Value → Prop} (null : P .null) (boolean : ∀ v, P (.boolean v))
    (number : ∀ v, P (.number v)) (string : ∀ v, P (.string v))
    (array : ∀ items, (∀ v ∈ items, P v) → P (.array items))
    (object : ∀ members, (∀ m ∈ members, P m.2) → P (.object members)) : ∀ v, P v
  | .null => null
  | .boolean v => boolean v
  | .number v => number v
  | .string v => string v
  | .array items => array items fun v _ => nested null boolean number string array object v
  | .object members =>
    object members fun m _ => nested null boolean number string array object m.2
termination_by v => sizeOf v
decreasing_by
  · rename_i h
    have := List.sizeOf_lt_of_mem h
    simp only [Value.array.sizeOf_spec]
    omega
  · rename_i h
    have := List.sizeOf_lt_of_mem h
    obtain ⟨k, v⟩ := m
    simp only [Value.object.sizeOf_spec, Prod.mk.sizeOf_spec] at *
    omega

/-! ## Equality -/

theorem sizeOf_lookup {b : List (Bytes × Value)} {key : Bytes} {v : Value}
    (h : b.lookup key = some v) : sizeOf v < sizeOf b := by
  induction b with
  | nil => simp at h
  | cons m rest ih =>
    obtain ⟨k, w⟩ := m
    simp only [List.lookup_cons] at h
    simp only [List.cons.sizeOf_spec, Prod.mk.sizeOf_spec]
    split at h
    · obtain rfl := Option.some.inj h
      omega
    · have := ih h
      omega

mutual

/-- `operator==`. The members of objects are compared by name, in any order. -/
def Value.beq : Value → Value → Bool
  | .null, .null => true
  | .boolean a, .boolean b => a == b
  | .number a, .number b => a.beq b
  | .string a, .string b => a == b
  | .array a, .array b => itemsBeq a b
  | .object a, .object b => a.length == b.length && membersBeq a b
  | _, _ => false
termination_by a b => sizeOf a + sizeOf b

def itemsBeq : List Value → List Value → Bool
  | [], [] => true
  | a :: as, b :: bs => a.beq b && itemsBeq as bs
  | _, _ => false
termination_by a b => sizeOf a + sizeOf b

def membersBeq : List (Bytes × Value) → List (Bytes × Value) → Bool
  | [], _ => true
  | (key, value) :: rest, other =>
    match _h : other.lookup key with
    | some mine => mine.beq value && membersBeq rest other
    | none => false
termination_by a b => sizeOf a + sizeOf b
decreasing_by
  · have := sizeOf_lookup _h
    simp only [List.cons.sizeOf_spec, Prod.mk.sizeOf_spec]
    omega
  · simp only [List.cons.sizeOf_spec]
    omega

end

/-! ## Values that the program can build -/

/-- The values that the public constructors and `set` make. -/
inductive Built : Value → Prop
  | null : Built .null
  | boolean (v : Bool) : Built (.boolean v)
  | number (v : Double) : Built (.number v)
  | integer (v : Int64) : Built (.integer v)
  | string (v : Bytes) : Built (.string v)
  | array {items : List Value} : (∀ v ∈ items, Built v) → Built (.array items)
  | object : Built (.object [])
  | set {v w : Value} (key : Bytes) : Built v → Built w → Built (v.set key w)

inductive Value.Distinct : Value → Prop
  | null : Distinct .null
  | boolean (v : Bool) : Distinct (.boolean v)
  | number (v : Double) : Distinct (.number v)
  | string (v : Bytes) : Distinct (.string v)
  | array {items : List Value} : (∀ v ∈ items, v.Distinct) → Distinct (.array items)
  | object {members : List (Bytes × Value)} : (members.map Prod.fst).Nodup →
      (∀ m ∈ members, m.2.Distinct) → Distinct (.object members)

theorem setMember_names (key : Bytes) (value : Value) (ms : List (Bytes × Value)) :
    (setMember key value ms).map Prod.fst =
      if key ∈ ms.map Prod.fst then ms.map Prod.fst else ms.map Prod.fst ++ [key] := by
  induction ms with
  | nil => simp [setMember]
  | cons m rest ih =>
    unfold setMember
    by_cases h : m.1 = key
    · simp [h]
    · have hmem : (key ∈ (m :: rest).map Prod.fst) ↔ key ∈ rest.map Prod.fst := by
        simp [Ne.symm h]
      rw [if_neg h, List.map_cons, ih, if_congr hmem rfl rfl]
      split <;> simp

theorem setMember_nodup (key : Bytes) (value : Value) (ms : List (Bytes × Value))
    (h : (ms.map Prod.fst).Nodup) : ((setMember key value ms).map Prod.fst).Nodup := by
  rw [setMember_names]
  split
  · exact h
  · rename_i hmem
    rw [List.nodup_append]
    refine ⟨h, by simp, ?_⟩
    intro a ha b hb
    rw [List.mem_singleton] at hb
    rintro rfl
    exact hmem (hb ▸ ha)

theorem mem_setMember {key : Bytes} {value : Value} {ms : List (Bytes × Value)}
    {m : Bytes × Value} (h : m ∈ setMember key value ms) : m ∈ ms ∨ m.2 = value := by
  induction ms with
  | nil =>
    simp only [setMember, List.mem_singleton] at h
    exact Or.inr (by rw [h])
  | cons n rest ih =>
    unfold setMember at h
    split at h
    · rcases List.mem_cons.mp h with rfl | h
      · exact Or.inr rfl
      · exact Or.inl (List.mem_cons_of_mem _ h)
    · rcases List.mem_cons.mp h with rfl | h
      · exact Or.inl List.mem_cons_self
      · exact (ih h).imp_left (List.mem_cons_of_mem _)

theorem setMember_absent (key : Bytes) (value : Value) (ms : List (Bytes × Value))
    (h : key ∉ ms.map Prod.fst) : setMember key value ms = ms ++ [(key, value)] := by
  induction ms with
  | nil => rfl
  | cons m rest ih =>
    rw [List.map_cons, List.mem_cons, not_or] at h
    rw [setMember, if_neg (Ne.symm h.1), ih h.2, List.cons_append]

theorem Value.Distinct.set {v w : Value} (key : Bytes) (hv : v.Distinct) (hw : w.Distinct) :
    (v.set key w).Distinct := by
  cases hv with
  | @object members hdup hmembers =>
    refine .object (setMember_nodup key w members hdup) ?_
    intro m hm
    rcases mem_setMember hm with h | h
    · exact hmembers m h
    · rw [h]
      exact hw
  | null => exact .null
  | boolean v => exact .boolean v
  | number v => exact .number v
  | string v => exact .string v
  | array h => exact .array h

theorem Built.distinct {v : Value} (h : Built v) : v.Distinct := by
  induction h with
  | null => exact .null
  | boolean v => exact .boolean v
  | number v => exact .number v
  | integer v => exact .number _
  | string v => exact .string v
  | array _ ih => exact .array ih
  | object => exact .object (by simp) (by simp)
  | set key _ _ ihv ihw => exact ihv.set key ihw

/-! ## Equality in order -/

mutual

/-- Equal, with the members of every object in the same order. -/
def Value.Alike : Value → Value → Prop
  | .null, .null => True
  | .boolean a, .boolean b => a = b
  | .number a, .number b => a.beq b = true
  | .string a, .string b => a = b
  | .array a, .array b => itemsAlike a b
  | .object a, .object b => membersAlike a b
  | _, _ => False

def itemsAlike : List Value → List Value → Prop
  | [], [] => True
  | a :: as, b :: bs => a.Alike b ∧ itemsAlike as bs
  | _, _ => False

def membersAlike : List (Bytes × Value) → List (Bytes × Value) → Prop
  | [], [] => True
  | (k, a) :: as, (l, b) :: bs => k = l ∧ a.Alike b ∧ membersAlike as bs
  | _, _ => False

end

end OakBarrels.Json
