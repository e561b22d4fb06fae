import OakBarrels.Json.Dump
import OakBarrels.Json.ParserProofs

/-!
# Parsing what was dumped

`dump` writes a text of the grammar whose meaning is the value that was dumped, apart from numbers
that are not finite, so `parse` reads it back.
-/

open Octets Binary64 Decimal Conversion

namespace OakBarrels.Json

/-! ## Equality in order is equality -/

theorem lookup_of_mem {ms : List (Bytes × Value)} {key : Bytes} {v : Value}
    (hdup : (ms.map Prod.fst).Nodup) (h : (key, v) ∈ ms) : ms.lookup key = some v := by
  induction ms with
  | nil => simp at h
  | cons m rest ih =>
    obtain ⟨k, w⟩ := m
    obtain ⟨hk, hrest⟩ := List.nodup_cons.mp hdup
    rw [List.lookup_cons]
    rcases List.mem_cons.mp h with heq | hmem
    · obtain ⟨rfl, rfl⟩ := Prod.mk.inj heq
      simp
    · have hne : key ≠ k := by
        rintro rfl
        exact hk (List.mem_map.mpr ⟨_, hmem, rfl⟩)
      rw [beq_eq_false_iff_ne.mpr hne]
      exact ih hrest hmem

theorem membersAlike_names {a b : List (Bytes × Value)} (h : membersAlike a b) :
    a.map Prod.fst = b.map Prod.fst := by
  induction a generalizing b with
  | nil =>
    cases b with
    | nil => rfl
    | cons m b => simp [membersAlike] at h
  | cons m a ih =>
    cases b with
    | nil => simp [membersAlike] at h
    | cons n b =>
      obtain ⟨hname, -, hrest⟩ := h
      simp only [List.map_cons]
      rw [ih hrest, show m.1 = n.1 from hname]

theorem membersAlike_partner {a b : List (Bytes × Value)} (h : membersAlike a b) :
    (∀ m ∈ a, ∃ w, (m.1, w) ∈ b ∧ m.2.Alike w) ∧ ∀ m ∈ b, ∃ w, (m.1, w) ∈ a ∧ w.Alike m.2 := by
  induction a generalizing b with
  | nil =>
    cases b with
    | nil => simp
    | cons m b => simp [membersAlike] at h
  | cons m a ih =>
    cases b with
    | nil => simp [membersAlike] at h
    | cons n b =>
      obtain ⟨k, v⟩ := m
      obtain ⟨l, w⟩ := n
      obtain ⟨rfl, halike, hrest⟩ := h
      obtain ⟨h1, h2⟩ := ih hrest
      constructor
      · intro m hm
        rcases List.mem_cons.mp hm with rfl | hm
        · exact ⟨w, List.mem_cons_self, halike⟩
        · obtain ⟨w', hw', ha⟩ := h1 m hm
          exact ⟨w', List.mem_cons_of_mem _ hw', ha⟩
      · intro m hm
        rcases List.mem_cons.mp hm with rfl | hm
        · exact ⟨v, List.mem_cons_self, halike⟩
        · obtain ⟨w', hw', ha⟩ := h2 m hm
          exact ⟨w', List.mem_cons_of_mem _ hw', ha⟩

theorem membersBeq_of_lookup {a other : List (Bytes × Value)}
    (h : ∀ m ∈ a, ∃ mine, other.lookup m.1 = some mine ∧ mine.beq m.2 = true) :
    membersBeq a other = true := by
  induction a with
  | nil => rw [membersBeq]
  | cons m rest ih =>
    obtain ⟨k, v⟩ := m
    obtain ⟨mine, hlookup, hbeq⟩ := h (k, v) List.mem_cons_self
    have hrest := ih fun m hm => h m (List.mem_cons_of_mem _ hm)
    simp only at hlookup hbeq
    rw [membersBeq]
    split
    · rename_i mine' hlookup'
      rw [hlookup] at hlookup'
      obtain rfl := Option.some.inj hlookup'
      rw [hbeq, hrest]
      rfl
    · rename_i hnone
      rw [hlookup] at hnone
      simp at hnone

theorem lookup_of_membersBeq {a other : List (Bytes × Value)} (h : membersBeq a other = true) :
    ∀ m ∈ a, ∃ mine, other.lookup m.1 = some mine ∧ mine.beq m.2 = true := by
  induction a with
  | nil => simp
  | cons m rest ih =>
    obtain ⟨k, v⟩ := m
    rw [membersBeq] at h
    split at h
    · rename_i mine hlookup
      rw [Bool.and_eq_true] at h
      rw [List.forall_mem_cons]
      exact ⟨⟨mine, hlookup, h.1⟩, ih h.2⟩
    · simp at h

theorem itemsAlike_beq {a b : List Value} (h : itemsAlike a b)
    (hbeq : ∀ v ∈ a, ∀ w, v.Alike w → v.beq w = true ∧ w.beq v = true) :
    itemsBeq a b = true ∧ itemsBeq b a = true := by
  induction a generalizing b with
  | nil =>
    cases b with
    | nil => simp [itemsBeq]
    | cons w b => simp [itemsAlike] at h
  | cons v a ih =>
    cases b with
    | nil => simp [itemsAlike] at h
    | cons w b =>
      obtain ⟨halike, hrest⟩ := h
      obtain ⟨h1, h2⟩ := hbeq v List.mem_cons_self w halike
      obtain ⟨h3, h4⟩ := ih hrest fun v hv => hbeq v (List.mem_cons_of_mem _ hv)
      simp [itemsBeq, h1, h2, h3, h4]

theorem Alike.beq {v w : Value} (h : v.Alike w) (hv : v.Distinct) :
    v.beq w = true ∧ w.beq v = true := by
  induction v generalizing w with
  | null => cases w <;> simp_all [Value.Alike, Value.beq]
  | boolean => cases w <;> simp_all [Value.Alike, Value.beq]
  | number x =>
    cases w with
    | number y =>
      simp only [Value.Alike] at h
      rw [Value.beq, Value.beq, beq_comm y x]
      exact ⟨h, h⟩
    | _ => simp [Value.Alike] at h
  | string => cases w <;> simp_all [Value.Alike, Value.beq]
  | array items ih =>
    cases w with
    | array others =>
      have hitems : ∀ v ∈ items, v.Distinct := by
        cases hv with | array h => exact h
      rw [Value.beq, Value.beq]
      exact itemsAlike_beq h fun v hmem w hw => ih v hmem hw (hitems v hmem)
    | _ => simp [Value.Alike] at h
  | object members ih =>
    cases w with
    | object others =>
      obtain ⟨hdup, hmembers⟩ : (members.map Prod.fst).Nodup ∧ ∀ m ∈ members, m.2.Distinct := by
        cases hv with | object h1 h2 => exact ⟨h1, h2⟩
      have hnames := membersAlike_names h
      have hdup' : (others.map Prod.fst).Nodup := hnames ▸ hdup
      have hlen : members.length = others.length := by
        simpa using congrArg List.length hnames
      obtain ⟨h1, h2⟩ := membersAlike_partner h
      have hbeq : membersBeq members others = true := by
        apply membersBeq_of_lookup
        intro m hm
        obtain ⟨w, hw, halike⟩ := h1 m hm
        exact ⟨w, lookup_of_mem hdup' hw, (ih m hm halike (hmembers m hm)).2⟩
      have hbeq' : membersBeq others members = true := by
        apply membersBeq_of_lookup
        intro m hm
        obtain ⟨v, hv, halike⟩ := h2 m hm
        exact ⟨v, lookup_of_mem hdup hv, (ih (m.1, v) hv halike (hmembers _ hv)).1⟩
      rw [Value.beq, Value.beq, hbeq, hbeq', hlen]
      simp
    | _ => simp [Value.Alike] at h

/-! ## Strings -/

theorem hexByte_spec (b : Byte) : HexDigit (hexByte (b.toNat / 16)) (b.toNat / 16) ∧
    HexDigit (hexByte (b.toNat % 16)) (b.toNat % 16) :=
  forall_byte (P := fun b => HexDigit (hexByte (b.toNat / 16)) (b.toNat / 16) ∧
    HexDigit (hexByte (b.toNat % 16)) (b.toNat % 16)) (by decide +kernel) b

theorem hex4_spec (b : Byte) : Hex4 (hex4 b) b.toNat := by
  obtain ⟨h1, h2⟩ := hexByte_spec b
  have h0 : HexDigit (digit 0) 0 := by decide
  exact ⟨_, _, _, _, 0, 0, _, _, rfl, h0, h0, h1, h2, by omega⟩

theorem control_utf8 (b : Byte) : b < 0x20 →
    String.utf8EncodeChar (Char.ofNat b.toNat) = [b] ∧ (Char.ofNat b.toNat).toNat = b.toNat :=
  forall_byte (P := fun b => b < 0x20 → String.utf8EncodeChar (Char.ofNat b.toNat) = [b] ∧
    (Char.ofNat b.toNat).toNat = b.toNat) (by decide +kernel) b

theorem escapeByte_chars (b : Byte) {s v : Bytes} (h : Chars s v) :
    Chars (escapeByte b ++ s) (b :: v) := by
  unfold escapeByte
  split_ifs with h1 h2 h3 h4 h5 h6 h7 h8
  · rw [h1]
    exact Chars.escaped Escape.quote h
  · rw [h2]
    exact Chars.escaped Escape.backslash h
  · rw [h3]
    exact Chars.escaped Escape.backspace h
  · rw [h4]
    exact Chars.escaped Escape.formFeed h
  · rw [h5]
    exact Chars.escaped Escape.lineFeed h
  · rw [h6]
    exact Chars.escaped Escape.carriageReturn h
  · rw [h7]
    exact Chars.escaped Escape.tab h
  · obtain ⟨hutf8, hnat⟩ := control_utf8 b h8
    have hhex : Hex4 (hex4 b) (Char.ofNat b.toNat).toNat := by
      rw [hnat]
      exact hex4_spec b
    have := Chars.escaped (Escape.unicode (Char.ofNat b.toNat) hhex) h
    rw [hutf8] at this
    exact this
  · rw [UInt8.lt_iff_toNat_lt, not_lt] at h8
    exact Chars.unescaped h8 h1 h2 h

theorem writeEscapedString_isString (v : Bytes) : IsString (writeEscapedString v) v := by
  refine ⟨v.flatMap escapeByte, ?_, rfl⟩
  induction v with
  | nil => exact Chars.nil
  | cons b v ih =>
    rw [List.flatMap_cons]
    exact escapeByte_chars b ih

/-! ## Numbers -/

theorem toString_number (k : Int) (h : k.natAbs < 2 ^ 53) :
    ∃ n, IsNumber n ∧ stdToString k = n.text ∧ nearest n = .finite (k < 0) (.ofNat k.natAbs h) :=
  ⟨integral k, integral_spelled k, (integral_text k).symm, by
    rw [nearest_integral, ofInt_exact k h]⟩

theorem writeNumber_reads (s : Bool) (a : Magnitude) :
    ∃ n, IsNumber n ∧ writeNumber (.finite s a) = n.text ∧
      (nearest n).beq (.finite s a) = true := by
  unfold writeNumber
  rw [if_neg (by simp [Double.isFinite])]
  split
  · -- A small integer is written with all its digits.
    rename_i hint
    obtain ⟨hfloor, habs⟩ := hint
    have hvalue := integer_of_floor s a hfloor
    have hlt : a.truncate < 10 ^ 15 := by
      rw [ofInt_exact _ (by decide), Double.abs, lt_finite, ofNat_value] at habs
      have : a.value < (10 ^ 15 : Nat) := by simpa [signed] using habs
      rw [hvalue] at this
      exact_mod_cast this
    have hnat : (Double.finite s a).truncate.natAbs = a.truncate := by
      cases s <;> simp [Double.truncate]
    obtain ⟨n, hn, htext, hnearest⟩ := toString_number (Double.finite s a).truncate
      (by rw [hnat]; omega)
    refine ⟨n, hn, htext, ?_⟩
    rw [hnearest, beq_finite, ofNat_value, hnat, hvalue]
    cases s
    · simp [signed, Double.truncate]
    · rcases Nat.eq_zero_or_pos a.truncate with h0 | hpos
      · simp [signed, h0]
      · simp [signed, Double.truncate, hpos]
  · obtain ⟨n, htext, hspelled, hzero, hnearest⟩ := formatG17_numeral s a
    refine ⟨n, ⟨hspelled, hzero⟩, htext, ?_⟩
    rw [hnearest, beq_finite]

/-! ## Values -/

mutual

/-- A value with `null` for every number that is not finite. -/
def Value.finiteOrNull : Value → Value
  | .number v => if v.isFinite then .number v else .null
  | .array items => .array (itemsFiniteOrNull items)
  | .object members => .object (membersFiniteOrNull members)
  | v => v

def itemsFiniteOrNull : List Value → List Value
  | [] => []
  | v :: rest => v.finiteOrNull :: itemsFiniteOrNull rest

def membersFiniteOrNull : List (Bytes × Value) → List (Bytes × Value)
  | [] => []
  | (key, v) :: rest => (key, v.finiteOrNull) :: membersFiniteOrNull rest

end

theorem lastWins_nodup {ms : List (Bytes × Value)} (h : (ms.map Prod.fst).Nodup) :
    lastWins ms = ms := by
  induction ms using List.reverseRecOn with
  | nil => rfl
  | append_singleton ms m ih =>
    rw [List.map_append, List.nodup_append] at h
    rw [lastWins_append, ih h.1, setMember_absent]
    intro hmem
    exact h.2.2 _ hmem m.1 (by simp) rfl

/-- The text of a value is one of the grammar, and means the value. -/
def Dumps (v : Value) : Prop :=
  ∃ d, Reads (writeValue v) (.value d) ∧ d.height = v.height ∧ d.meaning.Alike v.finiteOrNull

theorem whitespace_nil : Whitespace [] := by simp [Whitespace]

theorem items_reads {items : List Value} (h : ∀ v ∈ items, Dumps v) (hne : items ≠ []) :
    ∃ ds, Reads (writeItems true items) (.items ds) ∧ itemsDepth ds = itemsHeight items ∧
      itemsAlike (itemsMeaning ds) (itemsFiniteOrNull items) := by
  induction items with
  | nil => exact absurd rfl hne
  | cons v rest ih =>
    obtain ⟨d, hd, hheight, halike⟩ := h v List.mem_cons_self
    cases rest with
    | nil =>
      refine ⟨[d], by simpa [writeItems] using Reads.item hd whitespace_nil, ?_, ?_⟩
      · simp [itemsDepth, itemsHeight, hheight]
      · exact ⟨halike, trivial⟩
    | cons w rest =>
      obtain ⟨ds, hds, hdepth, hitems⟩ := ih (fun v hv => h v (List.mem_cons_of_mem _ hv)) (by simp)
      refine ⟨d :: ds, ?_, ?_, ⟨halike, hitems⟩⟩
      · have := Reads.items hd whitespace_nil whitespace_nil hds
        simpa [writeItems, ch] using this
      · rw [itemsDepth, itemsHeight, hheight, hdepth]

theorem members_reads {members : List (Bytes × Value)} (h : ∀ m ∈ members, Dumps m.2)
    (hne : members ≠ []) :
    ∃ ms, Reads (writeMembers true members) (.members ms) ∧
      membersDepth ms = membersHeight members ∧
      membersAlike (membersMeaning ms) (membersFiniteOrNull members) := by
  induction members with
  | nil => exact absurd rfl hne
  | cons m rest ih =>
    obtain ⟨key, v⟩ := m
    obtain ⟨d, hd, hheight, halike⟩ := h (key, v) List.mem_cons_self
    have hname : IsName (writeEscapedString key ++ [ch ':']) key :=
      ⟨_, [], [], writeEscapedString_isString key, whitespace_nil, whitespace_nil, by simp [ch]⟩
    cases rest with
    | nil =>
      refine ⟨[(key, d)], ?_, ?_, ⟨rfl, halike, trivial⟩⟩
      · simpa [writeMembers] using Reads.member hname hd whitespace_nil
      · simpa [membersDepth, membersHeight] using hheight
    | cons w rest =>
      obtain ⟨ms, hms, hdepth, hmembers⟩ :=
        ih (fun m hm => h m (List.mem_cons_of_mem _ hm)) (by simp)
      refine ⟨(key, d) :: ms, ?_, ?_, ⟨rfl, halike, hmembers⟩⟩
      · have := Reads.members hname hd whitespace_nil whitespace_nil hms
        simpa [writeMembers, ch] using this
      · rw [membersDepth, membersHeight, hdepth]
        simp only at hheight
        rw [hheight]

theorem membersFiniteOrNull_names (ms : List (Bytes × Value)) :
    (membersFiniteOrNull ms).map Prod.fst = ms.map Prod.fst := by
  induction ms with
  | nil => rfl
  | cons m rest ih => simp [membersFiniteOrNull, ih]

theorem dumps {v : Value} (hv : v.Distinct) : Dumps v := by
  induction v with
  | null => exact ⟨.null, Reads.null, rfl, trivial⟩
  | boolean b =>
    cases b
    · exact ⟨.boolean false, Reads.false, rfl, rfl⟩
    · exact ⟨.boolean true, Reads.true, rfl, rfl⟩
  | number x =>
    cases x with
    | finite s a =>
      obtain ⟨n, hn, htext, hbeq⟩ := writeNumber_reads s a
      refine ⟨.number n, ?_, rfl, ?_⟩
      · rw [writeValue, htext]
        exact Reads.number hn
      · rw [Doc.meaning, strtod_text n hn.1]
        exact hbeq
    | _ => exact ⟨.null, Reads.null, rfl, trivial⟩
  | string s => exact ⟨.string s, Reads.string (writeEscapedString_isString s), rfl, rfl⟩
  | array items ih =>
    have hitems : ∀ v ∈ items, v.Distinct := by
      cases hv with | array h => exact h
    rcases eq_or_ne items [] with rfl | hne
    · exact ⟨.array [], Reads.emptyArray whitespace_nil, rfl, trivial⟩
    · obtain ⟨ds, hds, hdepth, halike⟩ := items_reads (fun v hmem => ih v hmem (hitems v hmem)) hne
      exact ⟨.array ds, Reads.array whitespace_nil hds, hdepth, halike⟩
  | object members ih =>
    obtain ⟨hdup, hmembers⟩ : (members.map Prod.fst).Nodup ∧ ∀ m ∈ members, m.2.Distinct := by
      cases hv with | object h1 h2 => exact ⟨h1, h2⟩
    rcases eq_or_ne members [] with rfl | hne
    · exact ⟨.object [], Reads.emptyObject whitespace_nil, rfl, trivial⟩
    · obtain ⟨ms, hms, hdepth, halike⟩ :=
        members_reads (fun m hmem => ih m hmem (hmembers m hmem)) hne
      refine ⟨.object ms, Reads.object whitespace_nil hms, hdepth, ?_⟩
      have hnames := membersAlike_names halike
      rw [membersFiniteOrNull_names] at hnames
      rw [Doc.meaning, lastWins_nodup (hnames ▸ hdup)]
      exact halike

theorem parse_dump_alike {v : Value} (hv : v.Distinct) (hheight : v.height ≤ 64) :
    ∃ w, parse v.dump = some w ∧ w.beq v.finiteOrNull = true ∧ w.Alike v.finiteOrNull := by
  obtain ⟨d, hd, hdheight, halike⟩ := dumps hv
  have htext : IsText v.dump d :=
    ⟨[], _, [], whitespace_nil, hd, whitespace_nil, by simp [Value.dump]⟩
  exact ⟨d.meaning, parse_complete htext (by rw [hdheight]; exact hheight),
    (Alike.beq halike (meaning_distinct d)).1, halike⟩

/-- **Dump, then parse.** The text of a value that the program can build, nested at most 64 deep,
is read back as that value in its order, with `null` for the numbers that are not finite. -/
theorem parse_dump (v : Value) (hv : Built v) (hheight : v.height ≤ 64) :
    ∃ w, parse v.dump = some w ∧ w.beq v.finiteOrNull = true ∧ w.Alike v.finiteOrNull :=
  parse_dump_alike hv.distinct hheight

theorem parse_dump_nested :
    ∃ w, parse (Value.array [(Value.object []).set (ascii "a\n") (.number .nan)]).dump = some w ∧
      w.beq (.array [.object [(ascii "a\n", .null)]]) = true ∧
      w.Alike (.array [.object [(ascii "a\n", .null)]]) := by
  have hbuilt : Built (.array [(Value.object []).set (ascii "a\n") (.number .nan)]) :=
    Built.array (by simpa using Built.set (ascii "a\n") Built.object (Built.number .nan))
  exact parse_dump _ hbuilt (by decide)

/-! ## Reading a text, and reading it again from its value -/

theorem itemsHeight_le {items : List Value} {n : Nat} :
    itemsHeight items ≤ n ↔ ∀ v ∈ items, v.height + 1 ≤ n := by
  induction items with
  | nil => simp [itemsHeight]
  | cons v rest ih => rw [itemsHeight, max_le_iff, ih, List.forall_mem_cons]

theorem membersHeight_le {ms : List (Bytes × Value)} {n : Nat} :
    membersHeight ms ≤ n ↔ ∀ m ∈ ms, m.2.height + 1 ≤ n := by
  induction ms with
  | nil => simp [membersHeight]
  | cons m rest ih => rw [membersHeight, max_le_iff, ih, List.forall_mem_cons]

theorem le_itemsDepth {ds : List Doc} : ∀ d ∈ ds, d.height + 1 ≤ itemsDepth ds := by
  induction ds with
  | nil => simp
  | cons d rest ih =>
    rw [itemsDepth, List.forall_mem_cons]
    exact ⟨le_max_left _ _, fun d hd => (ih d hd).trans (le_max_right _ _)⟩

theorem le_membersDepth {ms : List (Bytes × Doc)} :
    ∀ m ∈ ms, m.2.height + 1 ≤ membersDepth ms := by
  induction ms with
  | nil => simp
  | cons m rest ih =>
    rw [membersDepth, List.forall_mem_cons]
    exact ⟨le_max_left _ _, fun m hm => (ih m hm).trans (le_max_right _ _)⟩

/-- Repeated names can only make a value less deep than its document. -/
theorem meaning_height (d : Doc) : d.meaning.height ≤ d.height := by
  induction d using Doc.nested with
  | null | boolean | number | string => exact le_rfl
  | array items ih =>
    rw [Doc.meaning, Value.height, itemsHeight_le]
    intro v hv
    obtain ⟨d, hd, rfl⟩ := mem_itemsMeaning hv
    exact (Nat.succ_le_succ (ih d hd)).trans (le_itemsDepth d hd)
  | object members ih =>
    rw [Doc.meaning, Value.height, membersHeight_le]
    intro m hm
    obtain ⟨n, hn, heq⟩ := mem_lastWins hm
    obtain ⟨m', hm', heq'⟩ := mem_membersMeaning hn
    rw [← heq, ← heq']
    exact (Nat.succ_le_succ (ih m' hm')).trans (le_membersDepth m' hm')

/-- Every number of the value is finite. -/
inductive Value.Finite : Value → Prop
  | null : Finite .null
  | boolean (v : Bool) : Finite (.boolean v)
  | number {v : Double} : v.isFinite = true → Finite (.number v)
  | string (v : Bytes) : Finite (.string v)
  | array {items : List Value} : (∀ v ∈ items, v.Finite) → Finite (.array items)
  | object {members : List (Bytes × Value)} : (∀ m ∈ members, m.2.Finite) →
      Finite (.object members)

theorem itemsFiniteOrNull_eq (items : List Value) :
    itemsFiniteOrNull items = items.map Value.finiteOrNull := by
  induction items with
  | nil => rfl
  | cons v rest ih => rw [itemsFiniteOrNull, ih, List.map_cons]

theorem membersFiniteOrNull_eq (ms : List (Bytes × Value)) :
    membersFiniteOrNull ms = ms.map fun m => (m.1, m.2.finiteOrNull) := by
  induction ms with
  | nil => rfl
  | cons m rest ih => rw [membersFiniteOrNull, ih, List.map_cons]

theorem finiteOrNull_finite {v : Value} (h : v.Finite) : v.finiteOrNull = v := by
  induction h with
  | null | boolean | string => rfl
  | number h => rw [Value.finiteOrNull, if_pos h]
  | array _ ih => rw [Value.finiteOrNull, itemsFiniteOrNull_eq, List.map_congr_left ih, List.map_id']
  | @object members _ ih =>
    have hsame : ∀ m ∈ members, (m.1, m.2.finiteOrNull) = m := by
      intro m hm
      rw [ih m hm]
    rw [Value.finiteOrNull, membersFiniteOrNull_eq, List.map_congr_left hsame, List.map_id']

/-- Equal, on either side of `operator==`. -/
def Value.Either (v w : Value) : Prop := v.beq w = true ∨ w.beq v = true

theorem itemsAlike_either {items ws : List Value} (halike : itemsAlike ws (itemsFiniteOrNull items))
    (h : itemsBeq items ws = true ∨ itemsBeq ws items = true) :
    ∀ v ∈ items, ∃ w, w.Alike v.finiteOrNull ∧ v.Either w := by
  induction items generalizing ws with
  | nil => simp
  | cons v rest ih =>
    cases ws with
    | nil => simp [itemsFiniteOrNull, itemsAlike] at halike
    | cons w ws =>
      obtain ⟨hv, hrest⟩ := halike
      simp only [itemsBeq, Bool.and_eq_true] at h
      rw [List.forall_mem_cons]
      exact ⟨⟨w, hv, h.imp And.left And.left⟩, ih hrest (h.imp And.right And.right)⟩

theorem membersAlike_either {members ws : List (Bytes × Value)}
    (hdup : (members.map Prod.fst).Nodup)
    (halike : membersAlike ws (membersFiniteOrNull members))
    (h : membersBeq members ws = true ∨ membersBeq ws members = true) :
    ∀ m ∈ members, ∃ w, w.Alike m.2.finiteOrNull ∧ m.2.Either w := by
  have hnames : ws.map Prod.fst = members.map Prod.fst :=
    (membersAlike_names halike).trans (membersFiniteOrNull_names members)
  intro m hm
  have hm' : (m.1, m.2.finiteOrNull) ∈ membersFiniteOrNull members := by
    rw [membersFiniteOrNull_eq]
    exact List.mem_map.mpr ⟨m, hm, rfl⟩
  obtain ⟨w, hw, hmw⟩ := (membersAlike_partner halike).2 _ hm'
  refine ⟨w, hmw, ?_⟩
  rcases h with h | h
  · obtain ⟨mine, hlookup, hbeq⟩ := lookup_of_membersBeq h m hm
    rw [lookup_of_mem (hnames ▸ hdup) hw] at hlookup
    obtain rfl := Option.some.inj hlookup
    exact Or.inr hbeq
  · obtain ⟨mine, hlookup, hbeq⟩ := lookup_of_membersBeq h _ hw
    rw [lookup_of_mem hdup hm] at hlookup
    obtain rfl := Option.some.inj hlookup
    exact Or.inl hbeq

/-- A value that equals what its text is read as holds no number for which `null` was written. -/
theorem finite_of_either {v w : Value} (hv : v.Distinct) (halike : w.Alike v.finiteOrNull)
    (h : v.Either w) : v.Finite := by
  induction v generalizing w with
  | null => exact .null
  | boolean b => exact .boolean b
  | string s => exact .string s
  | number x =>
    rw [Value.finiteOrNull] at halike
    split at halike
    · rename_i hfinite
      exact .number hfinite
    · cases w with
      | null => simp [Value.Either, Value.beq] at h
      | _ => simp [Value.Alike] at halike
  | array items ih =>
    have hitems : ∀ v ∈ items, v.Distinct := by
      cases hv with | array h => exact h
    cases w with
    | array ws =>
      rw [Value.Either, Value.beq, Value.beq] at h
      refine .array fun v hv => ?_
      obtain ⟨w, hw, heither⟩ := itemsAlike_either halike h v hv
      exact ih v hv (hitems v hv) hw heither
    | _ => simp [Value.finiteOrNull, Value.Alike] at halike
  | object members ih =>
    obtain ⟨hdup, hmembers⟩ : (members.map Prod.fst).Nodup ∧ ∀ m ∈ members, m.2.Distinct := by
      cases hv with | object h1 h2 => exact ⟨h1, h2⟩
    cases w with
    | object ws =>
      rw [Value.Either, Value.beq, Value.beq, Bool.and_eq_true, Bool.and_eq_true] at h
      refine .object fun m hm => ?_
      obtain ⟨w, hw, heither⟩ :=
        membersAlike_either hdup halike (h.imp And.right And.right) m hm
      exact ih m hm (hmembers m hm) hw heither
    | _ => simp [Value.finiteOrNull, Value.Alike] at halike

theorem parse_distinct {t : Bytes} {v : Value} (h : parse t = some v) : v.Distinct := by
  obtain ⟨d, -, -, rfl⟩ := parse_sound h
  exact meaning_distinct d

theorem parse_height {t : Bytes} {v : Value} (h : parse t = some v) : v.height ≤ 64 := by
  obtain ⟨d, -, hheight, rfl⟩ := parse_sound h
  exact (meaning_height d).trans hheight

/-- **Parse, dump, then parse.** What was read from a text is written and read back: with `null` for
each number that was too large for a double, and so unchanged exactly if every number is finite. -/
theorem parse_dump_parse {t : Bytes} {v : Value} (h : parse t = some v) :
    ∃ w, parse v.dump = some w ∧ v.finiteOrNull.beq w = true ∧ (v.beq w = true ↔ v.Finite) := by
  obtain ⟨w, hw, -, halike⟩ := parse_dump_alike (parse_distinct h) (parse_height h)
  have hbeq : v.finiteOrNull.beq w = true := (Alike.beq halike (parse_distinct hw)).2
  refine ⟨w, hw, hbeq, fun heq => finite_of_either (parse_distinct h) halike (Or.inl heq), ?_⟩
  intro hfinite
  rw [finiteOrNull_finite hfinite] at hbeq
  exact hbeq

theorem parse_overflow : ((parse (ascii "[1e309]")).map fun v =>
    (v.dump, (parse v.dump).map fun w => v.beq w)) = some (ascii "[null]", some false) := by
  decide +kernel

/-- An overflowing literal is read as infinity, for which `null` is written. -/
theorem parse_dump_overflow : ¬ ∀ t v, parse t = some v →
    ∃ w, parse v.dump = some w ∧ v.beq w = true := by
  intro hall
  obtain ⟨v, hv, hpair⟩ := Option.map_eq_some_iff.mp parse_overflow
  obtain ⟨w, hw, hbeq⟩ := hall _ v hv
  simp [hw, hbeq] at hpair

theorem parse_dump_parse_overflow : ∃ v, parse (ascii "[1e309]") = some v ∧
    ∃ w, parse v.dump = some w ∧ v.finiteOrNull.beq w = true ∧ (v.beq w = true ↔ v.Finite) := by
  obtain ⟨v, hv, -⟩ := Option.map_eq_some_iff.mp parse_overflow
  exact ⟨v, hv, parse_dump_parse hv⟩

end OakBarrels.Json
