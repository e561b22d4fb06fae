import OakBarrels.Json.RoundTrip
import OakBarrels.Lib.Utf8

/-!
# The encoding of a JSON text

Everything in a text but its strings is ASCII, and a string is spelled byte by byte, so that the text
of a value is UTF-8 exactly where the strings in the value are.
-/

open Octets Binary64 Decimal Conversion Utf8

namespace OakBarrels.Json

mutual

/-- Every string and every name in a value is UTF-8. -/
def Value.Utf8 : Value → Prop
  | .string s => ValidUtf8 s
  | .array items => itemsUtf8 items
  | .object members => membersUtf8 members
  | _ => True

def itemsUtf8 : List Value → Prop
  | [] => True
  | v :: rest => v.Utf8 ∧ itemsUtf8 rest

def membersUtf8 : List (Bytes × Value) → Prop
  | [] => True
  | (key, v) :: rest => ValidUtf8 key ∧ v.Utf8 ∧ membersUtf8 rest

end

/-! ## Strings -/

theorem escapeByte_ascii (b : Byte) : escapeByte b ≠ [] ∧
    (IsAscii b → ∀ c ∈ escapeByte b, IsAscii c) ∧ (¬ IsAscii b → escapeByte b = [b]) :=
  forall_byte (P := fun b => escapeByte b ≠ [] ∧ (IsAscii b → ∀ c ∈ escapeByte b, IsAscii c) ∧
    (¬ IsAscii b → escapeByte b = [b])) (by decide +kernel) b

theorem quote_ascii : IsAscii (ch '"') := by decide

theorem escapedString_utf8 (s rest : Bytes) :
    ValidUtf8 (writeEscapedString s ++ rest) ↔ ValidUtf8 s ∧ ValidUtf8 rest := by
  have hescape := validUtf8_flatMap (fun b => (escapeByte_ascii b).1)
    (fun b => (escapeByte_ascii b).2.1) (fun b => (escapeByte_ascii b).2.2) [] s
  rw [List.nil_append, List.nil_append] at hescape
  unfold writeEscapedString
  rw [List.append_assoc, List.cons_append, validUtf8_cons quote_ascii, List.singleton_append,
    validUtf8_append_cons quote_ascii, hescape]

/-! ## Numbers -/

/-- Neither a control character nor outside ASCII. -/
def Printable (b : Byte) : Prop := 0x20 ≤ b ∧ IsAscii b

instance (b : Byte) : Decidable (Printable b) := inferInstanceAs (Decidable (_ ∧ _))

instance (s : Bytes) : Decidable (∀ b ∈ s, Printable b) := s.decidableBAll Printable

theorem digit_printable {b : Byte} (h : isDigit b = true) : Printable b := by
  rw [isDigit_iff] at h
  unfold Printable
  rw [isAscii_iff, UInt8.le_iff_toNat_le]
  have hspace : (0x20 : Byte).toNat = 32 := rfl
  omega

theorem exponent_printable {x : Exponent} (h : x.Spelled) : ∀ b ∈ x.text, Printable b := by
  obtain ⟨hmarker, hsign, -, hdigits⟩ := h
  intro b hb
  simp only [Exponent.text, List.cons_append, List.mem_cons, List.mem_append] at hb
  rcases hb with rfl | hb | hb
  · rcases hmarker with h | h <;> · rw [h]; decide
  · rcases hsign with h | h | h <;> · rw [h] at hb; revert hb b; decide
  · exact digit_printable (hdigits b hb)

theorem numeral_printable {n : Numeral} (h : n.Spelled) : ∀ b ∈ n.text, Printable b := by
  obtain ⟨-, hwhole, hfraction, hexponent⟩ := h
  intro b hb
  simp only [Numeral.text, List.mem_append] at hb
  rcases hb with ((hb | hb) | hb) | hb
  · unfold Numeral.signText at hb
    split at hb
    · revert hb b
      decide
    · cases hb
  · exact digit_printable (hwhole b hb)
  · unfold Numeral.fractionText at hb
    split at hb
    · cases hb
    · rcases List.mem_cons.mp hb with rfl | hb
      · decide
      · exact digit_printable (hfraction b hb)
  · unfold Numeral.exponentText at hb
    cases hx : n.exponent with
    | none => simp [hx] at hb
    | some x =>
      rw [hx] at hb
      exact exponent_printable (hexponent x hx) b hb

theorem number_printable (x : Double) : ∀ b ∈ writeNumber x, Printable b := by
  cases x with
  | finite s a =>
    obtain ⟨n, hn, htext, -⟩ := writeNumber_reads s a
    rw [htext]
    exact numeral_printable hn.1
  | nan =>
    change ∀ b ∈ ascii "null", Printable b
    decide
  | inf s =>
    change ∀ b ∈ ascii "null", Printable b
    decide

theorem number_ascii (x : Double) : ∀ b ∈ writeNumber x, IsAscii b :=
  fun b hb => (number_printable x b hb).2

/-- An integer of less than sixteen digits is written as such. -/
theorem writeNumber_integer {k : Int} (h : k.natAbs < 10 ^ 15) :
    writeNumber (.ofInt k) = stdToString k := by
  have hexact := ofInt_exact k (by omega)
  have hvalue := ofInt_value k (by omega)
  rw [hexact, Double.value, Option.some.injEq] at hvalue
  have htruncate := truncate_of_int _ _ k hvalue
  have hfloor := floor_of_integer (k < 0) _ (ofNat_value k.natAbs (by omega))
  have hsmall : (Double.finite (k < 0) (.ofNat k.natAbs (by omega))).abs.lt (.ofInt (10 ^ 15))
      = true := by
    rw [ofInt_exact _ (by decide), Double.abs, lt_finite, ofNat_value]
    have hpos : decide (((10 : Int) ^ 15) < 0) = false := by decide
    simp only [signed, ofNat_value, hpos, Bool.false_eq_true, if_false]
    exact_mod_cast h
  have hsame := (beq_finite (k < 0) (k < 0) (.ofNat k.natAbs (by omega)) _).mpr rfl
  rw [hexact, writeNumber, if_neg (by simp [Double.isFinite]), hfloor, if_pos ⟨hsame, hsmall⟩,
    htruncate]

theorem integer_length {k : Int} (h : k.natAbs < 10 ^ 10) :
    (writeNumber (.ofInt k)).length ≤ 11 := by
  rw [writeNumber_integer (by omega)]
  have hdecimal := decimal_length_le (k := 9) h
  unfold stdToString
  split
  · rw [List.length_cons]
    omega
  · omega

/-! ## Values -/

/-- Behind whatever stands in front, each further item is cut off by its comma. -/
theorem writeItems_utf8 {items : List Value} (h : ∀ v ∈ items, ValidUtf8 (writeValue v) ↔ v.Utf8)
    (front : Bytes) :
    ValidUtf8 (front ++ writeItems false items) ↔ ValidUtf8 front ∧ itemsUtf8 items := by
  induction items generalizing front with
  | nil => simp [writeItems, itemsUtf8]
  | cons v rest ih =>
    rw [List.forall_mem_cons] at h
    have hcomma : IsAscii (ch ',') := by decide
    simp only [writeItems, itemsUtf8, Bool.false_eq_true, if_false, List.cons_append,
      List.nil_append]
    rw [validUtf8_append_cons hcomma, ih h.2, h.1]

theorem writeMembers_utf8 {members : List (Bytes × Value)}
    (h : ∀ m ∈ members, ValidUtf8 (writeValue m.2) ↔ m.2.Utf8) (front : Bytes) :
    ValidUtf8 (front ++ writeMembers false members) ↔ ValidUtf8 front ∧ membersUtf8 members := by
  induction members generalizing front with
  | nil => simp [writeMembers, membersUtf8]
  | cons m rest ih =>
    obtain ⟨key, v⟩ := m
    rw [List.forall_mem_cons] at h
    have hcomma : IsAscii (ch ',') := by decide
    have hcolon : IsAscii (ch ':') := by decide
    simp only [writeMembers, membersUtf8, Bool.false_eq_true, if_false, List.append_assoc,
      List.cons_append, List.nil_append]
    rw [validUtf8_append_cons hcomma, escapedString_utf8, validUtf8_cons hcolon, ih h.2, h.1]

theorem bracketed_utf8 {first last : Byte} (hfirst : IsAscii first) (hlast : IsAscii last)
    (s : Bytes) : ValidUtf8 (first :: s ++ [last]) ↔ ValidUtf8 s := by
  rw [validUtf8_append_cons hlast, validUtf8_cons hfirst, and_iff_left validUtf8_nil]

/-- The text of a value is UTF-8 exactly where its strings are. -/
theorem dump_utf8 (v : Value) : ValidUtf8 v.dump ↔ v.Utf8 := by
  unfold Value.dump
  induction v with
  | null => exact iff_of_true (validUtf8_ascii (by decide)) trivial
  | boolean b => exact iff_of_true (validUtf8_ascii (by cases b <;> decide)) trivial
  | number x => exact iff_of_true (validUtf8_ascii (number_ascii x)) trivial
  | string s =>
    have hstring := escapedString_utf8 s []
    rwa [List.append_nil, and_iff_left validUtf8_nil] at hstring
  | array items ih =>
    simp only [writeValue, Value.Utf8]
    rw [bracketed_utf8 (by decide) (by decide)]
    cases items with
    | nil => exact iff_of_true validUtf8_nil trivial
    | cons v rest =>
      rw [List.forall_mem_cons] at ih
      simp only [writeItems, if_true, List.nil_append, itemsUtf8]
      rw [writeItems_utf8 ih.2, ih.1]
  | object members ih =>
    simp only [writeValue, Value.Utf8]
    rw [bracketed_utf8 (by decide) (by decide)]
    cases members with
    | nil => exact iff_of_true validUtf8_nil trivial
    | cons m rest =>
      obtain ⟨key, v⟩ := m
      rw [List.forall_mem_cons] at ih
      have hcolon : IsAscii (ch ':') := by decide
      simp only [writeMembers, if_true, List.nil_append, membersUtf8, List.append_assoc,
        List.cons_append]
      rw [escapedString_utf8, validUtf8_cons hcolon, writeMembers_utf8 ih.2, ih.1]

/-! ## Control characters -/

theorem escapeByte_uncontrolled (b : Byte) : ∀ c ∈ escapeByte b, 0x20 ≤ c :=
  forall_byte (P := fun b => ∀ c ∈ escapeByte b, 0x20 ≤ c) (by decide +kernel) b

theorem escapedString_uncontrolled (s : Bytes) : ∀ c ∈ writeEscapedString s, 0x20 ≤ c := by
  have hquote : (0x20 : Byte) ≤ ch '"' := by decide
  have hescaped : ∀ c ∈ s.flatMap escapeByte, 0x20 ≤ c := by
    intro c hc
    obtain ⟨b, -, hb⟩ := List.mem_flatMap.mp hc
    exact escapeByte_uncontrolled b c hb
  unfold writeEscapedString
  rw [List.forall_mem_append, List.forall_mem_cons, List.forall_mem_singleton]
  exact ⟨⟨hquote, hescaped⟩, hquote⟩

theorem comma_uncontrolled (first : Bool) :
    ∀ c ∈ (if first then [] else [ch ',']), (0x20 : Byte) ≤ c := by
  have hcomma : (0x20 : Byte) ≤ ch ',' := by decide
  split
  · exact nofun
  · rwa [List.forall_mem_singleton]

theorem writeItems_uncontrolled {items : List Value} (h : ∀ v ∈ items, ∀ c ∈ writeValue v, 0x20 ≤ c)
    (first : Bool) : ∀ c ∈ writeItems first items, 0x20 ≤ c := by
  induction items generalizing first with
  | nil => exact nofun
  | cons v rest ih =>
    rw [List.forall_mem_cons] at h
    unfold writeItems
    rw [List.forall_mem_append, List.forall_mem_append]
    exact ⟨⟨comma_uncontrolled first, h.1⟩, ih h.2 false⟩

theorem writeMembers_uncontrolled {members : List (Bytes × Value)}
    (h : ∀ m ∈ members, ∀ c ∈ writeValue m.2, 0x20 ≤ c) (first : Bool) :
    ∀ c ∈ writeMembers first members, 0x20 ≤ c := by
  have hcolon : (0x20 : Byte) ≤ ch ':' := by decide
  induction members generalizing first with
  | nil => exact nofun
  | cons m rest ih =>
    obtain ⟨key, v⟩ := m
    rw [List.forall_mem_cons] at h
    unfold writeMembers
    rw [List.forall_mem_append, List.forall_mem_append, List.forall_mem_append,
      List.forall_mem_cons]
    exact ⟨⟨⟨comma_uncontrolled first, escapedString_uncontrolled key⟩, hcolon, h.1⟩,
      ih h.2 false⟩

theorem bracketed_uncontrolled {first last : Byte} {s : Bytes} (hfirst : 0x20 ≤ first)
    (hlast : 0x20 ≤ last) (hs : ∀ c ∈ s, 0x20 ≤ c) : ∀ c ∈ first :: s ++ [last], 0x20 ≤ c := by
  rw [List.forall_mem_append, List.forall_mem_cons, List.forall_mem_singleton]
  exact ⟨⟨hfirst, hs⟩, hlast⟩

/-- No control character is written, whatever is in the strings of a value. -/
theorem dump_uncontrolled (v : Value) : ∀ c ∈ v.dump, 0x20 ≤ c := by
  have hnull : ∀ c ∈ ascii "null", Printable c := by decide
  have hboolean : ∀ b : Bool, ∀ c ∈ if b then ascii "true" else ascii "false", Printable c := by
    rintro (_ | _)
    · exact (by decide : ∀ c ∈ ascii "false", Printable c)
    · exact (by decide : ∀ c ∈ ascii "true", Printable c)
  unfold Value.dump
  induction v with
  | null => exact fun c hc => (hnull c hc).1
  | boolean b => exact fun c hc => (hboolean b c hc).1
  | number x => exact fun c hc => (number_printable x c hc).1
  | string s => exact escapedString_uncontrolled s
  | array items ih =>
    unfold writeValue
    exact bracketed_uncontrolled (by decide) (by decide) (writeItems_uncontrolled ih true)
  | object members ih =>
    unfold writeValue
    exact bracketed_uncontrolled (by decide) (by decide) (writeMembers_uncontrolled ih true)

end OakBarrels.Json
