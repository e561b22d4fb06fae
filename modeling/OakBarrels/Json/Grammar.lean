import OakBarrels.Json.Value

/-!
# The JSON grammar

The grammar of RFC 8259 over bytes, and what a document means. A document is first read as a tree
that keeps its numbers as they are spelled and repeated member names; the tree has a nesting depth
and a value.
-/

open Octets Binary64 Decimal

namespace OakBarrels.Json

inductive Doc
  | null
  | boolean (v : Bool)
  | number (n : Numeral)
  | string (v : Bytes)
  | array (items : List Doc)
  | object (members : List (Bytes × Doc))

/-! ## Tokens -/

/-- `ws = *( %x20 / %x09 / %x0A / %x0D )` -/
def Whitespace (s : Bytes) : Prop := ∀ b ∈ s, b = 0x20 ∨ b = 0x09 ∨ b = 0x0a ∨ b = 0x0d

/-- `number = [ minus ] int [ frac ] [ exp ]`, where `int` has no leading zero. -/
def IsNumber (n : Numeral) : Prop := n.Spelled ∧ n.NoLeadingZero

/-- `%x30-39 / %x41-46 / %x61-66`, with the value of the digit. -/
def HexDigit (b : Byte) (n : Nat) : Prop :=
  (n < 10 ∧ b.toNat = 0x30 + n) ∨
    (10 ≤ n ∧ n < 16 ∧ (b.toNat = 0x41 + (n - 10) ∨ b.toNat = 0x61 + (n - 10)))

instance (b : Byte) (n : Nat) : Decidable (HexDigit b n) := by
  unfold HexDigit; infer_instance

def Hex4 (s : Bytes) (n : Nat) : Prop :=
  ∃ b₁ b₂ b₃ b₄ n₁ n₂ n₃ n₄, s = [b₁, b₂, b₃, b₄] ∧
    HexDigit b₁ n₁ ∧ HexDigit b₂ n₂ ∧ HexDigit b₃ n₃ ∧ HexDigit b₄ n₄ ∧
    n = n₁ * 16 ^ 3 + n₂ * 16 ^ 2 + n₃ * 16 + n₄

/-- What may stand behind a backslash, with the bytes that it means. A character outside the basic
plane is spelled as a high and a low surrogate. -/
inductive Escape : Bytes → Bytes → Prop
  | quote : Escape [0x22] [0x22]
  | backslash : Escape [0x5c] [0x5c]
  | slash : Escape [0x2f] [0x2f]
  | backspace : Escape [0x62] [0x08]
  | formFeed : Escape [0x66] [0x0c]
  | lineFeed : Escape [0x6e] [0x0a]
  | carriageReturn : Escape [0x72] [0x0d]
  | tab : Escape [0x74] [0x09]
  | unicode {h : Bytes} (c : Char) : Hex4 h c.toNat → Escape (0x75 :: h) (String.utf8EncodeChar c)
  | surrogates {h l : Bytes} {high low : Nat} (c : Char) :
      Hex4 h high → 0xd800 ≤ high → high ≤ 0xdbff → Hex4 l low → 0xdc00 ≤ low → low ≤ 0xdfff →
      c.toNat = 0x10000 + (high - 0xd800) * 0x400 + (low - 0xdc00) →
      Escape (0x75 :: h ++ 0x5c :: 0x75 :: l) (String.utf8EncodeChar c)

/-- What may stand between the quotes of a string, with the bytes that it means. -/
inductive Chars : Bytes → Bytes → Prop
  | nil : Chars [] []
  | unescaped {b : Byte} {s v : Bytes} : 0x20 ≤ b.toNat → b ≠ 0x22 → b ≠ 0x5c →
      Chars s v → Chars (b :: s) (b :: v)
  | escaped {e b s v : Bytes} : Escape e b → Chars s v → Chars (0x5c :: e ++ s) (b ++ v)

def IsString (s v : Bytes) : Prop := ∃ body, Chars body v ∧ s = 0x22 :: body ++ [0x22]

/-! ## Values -/

/-- What the grammar reads: a value, the values between brackets, the members between braces. -/
inductive Part
  | value (d : Doc)
  | items (ds : List Doc)
  | members (ms : List (Bytes × Doc))

def IsName (s key : Bytes) : Prop :=
  ∃ k w₁ w₂, IsString k key ∧ Whitespace w₁ ∧ Whitespace w₂ ∧ s = k ++ w₁ ++ 0x3a :: w₂

inductive Reads : Bytes → Part → Prop
  | null : Reads (ascii "null") (.value .null)
  | true : Reads (ascii "true") (.value (.boolean true))
  | false : Reads (ascii "false") (.value (.boolean false))
  | number {n : Numeral} : IsNumber n → Reads n.text (.value (.number n))
  | string {s v : Bytes} : IsString s v → Reads s (.value (.string v))
  | emptyArray {w : Bytes} : Whitespace w → Reads (0x5b :: w ++ [0x5d]) (.value (.array []))
  | array {w s : Bytes} {ds : List Doc} : Whitespace w → Reads s (.items ds) →
      Reads (0x5b :: w ++ s ++ [0x5d]) (.value (.array ds))
  | emptyObject {w : Bytes} : Whitespace w → Reads (0x7b :: w ++ [0x7d]) (.value (.object []))
  | object {w s : Bytes} {ms : List (Bytes × Doc)} : Whitespace w → Reads s (.members ms) →
      Reads (0x7b :: w ++ s ++ [0x7d]) (.value (.object ms))
  | item {s w : Bytes} {d : Doc} : Reads s (.value d) → Whitespace w → Reads (s ++ w) (.items [d])
  | items {s w₁ w₂ t : Bytes} {d : Doc} {ds : List Doc} : Reads s (.value d) →
      Whitespace w₁ → Whitespace w₂ → Reads t (.items ds) →
      Reads (s ++ w₁ ++ 0x2c :: w₂ ++ t) (.items (d :: ds))
  | member {n s w key : Bytes} {d : Doc} : IsName n key → Reads s (.value d) → Whitespace w →
      Reads (n ++ s ++ w) (.members [(key, d)])
  | members {n s w₁ w₂ t key : Bytes} {d : Doc} {ms : List (Bytes × Doc)} : IsName n key →
      Reads s (.value d) → Whitespace w₁ → Whitespace w₂ → Reads t (.members ms) →
      Reads (n ++ s ++ w₁ ++ 0x2c :: w₂ ++ t) (.members ((key, d) :: ms))

/-- `JSON-text = ws value ws` -/
def IsText (t : Bytes) (d : Doc) : Prop :=
  ∃ w₁ s w₂, Whitespace w₁ ∧ Reads s (.value d) ∧ Whitespace w₂ ∧ t = w₁ ++ s ++ w₂

/-! ## Meaning -/

/-- Repeated names: the place of the first occurrence, the value of the last. -/
def lastWins {α : Type} (members : List (Bytes × α)) : List (Bytes × α) :=
  (members.map Prod.fst).eraseDups.filterMap fun key =>
    (members.reverse.lookup key).map fun value => (key, value)

mutual

def Doc.meaning : Doc → Value
  | .null => .null
  | .boolean v => .boolean v
  | .number n => .number (Conversion.strtod n.text).1
  | .string v => .string v
  | .array items => .array (itemsMeaning items)
  | .object members => .object (lastWins (membersMeaning members))

def itemsMeaning : List Doc → List Value
  | [] => []
  | d :: rest => d.meaning :: itemsMeaning rest

def membersMeaning : List (Bytes × Doc) → List (Bytes × Value)
  | [] => []
  | (key, d) :: rest => (key, d.meaning) :: membersMeaning rest

end

mutual

/-- How deep the values of a document are nested, the root at zero. -/
def Doc.height : Doc → Nat
  | .array items => itemsDepth items
  | .object members => membersDepth members
  | _ => 0

def itemsDepth : List Doc → Nat
  | [] => 0
  | d :: rest => max (d.height + 1) (itemsDepth rest)

def membersDepth : List (Bytes × Doc) → Nat
  | [] => 0
  | (_, d) :: rest => max (d.height + 1) (membersDepth rest)

end

/-! ## Objects -/

theorem eraseDups_append_one (keys : List Bytes) (key : Bytes) :
    (keys ++ [key]).eraseDups =
      if key ∈ keys then keys.eraseDups else keys.eraseDups ++ [key] := by
  rw [List.eraseDups_append]
  by_cases h : key ∈ keys <;> simp [List.removeAll, List.eraseDups_cons, h]

theorem eraseDups_nodup (keys : List Bytes) : keys.eraseDups.Nodup := by
  induction keys using List.reverseRecOn with
  | nil => simp
  | append_singleton keys key ih =>
    rw [eraseDups_append_one]
    split
    · exact ih
    · rename_i h
      rw [List.nodup_append]
      refine ⟨ih, by simp, ?_⟩
      intro a ha b hb
      rw [List.mem_singleton] at hb
      rw [List.mem_eraseDups] at ha
      rintro rfl
      exact h (hb ▸ ha)

theorem lookup_cons_if {α : Type} (m : Bytes × α) (ms : List (Bytes × α)) (key : Bytes) :
    (m :: ms).lookup key = if key = m.1 then some m.2 else ms.lookup key := by
  rw [List.lookup_cons]
  by_cases h : key = m.1
  · simp [h]
  · simp [h, beq_eq_false_iff_ne.mpr h]

theorem lookup_reverse_append {α : Type} (ms : List (Bytes × α)) (key k : Bytes) (v : α) :
    (ms ++ [(key, v)]).reverse.lookup k = if k = key then some v else ms.reverse.lookup k := by
  rw [List.reverse_append, List.reverse_singleton, List.singleton_append, lookup_cons_if]

theorem lookup_setMember (key : Bytes) (value : Value) (ms : List (Bytes × Value)) (k : Bytes) :
    (setMember key value ms).lookup k = if k = key then some value else ms.lookup k := by
  induction ms with
  | nil => rw [setMember, lookup_cons_if]
  | cons m rest ih =>
    rw [setMember]
    split
    · rename_i hm
      rw [lookup_cons_if, lookup_cons_if, hm]
      split <;> rfl
    · rename_i hm
      rw [lookup_cons_if, lookup_cons_if, ih]
      by_cases h : k = key
      · rw [if_neg (by rw [h]; exact Ne.symm hm), if_pos h, if_pos h]
      · rw [if_neg h, if_neg h]

theorem lookup_reverse_isSome {α : Type} (ms : List (Bytes × α)) (key : Bytes)
    (h : key ∈ ms.map Prod.fst) : (ms.reverse.lookup key).isSome = true := by
  induction ms using List.reverseRecOn with
  | nil => simp at h
  | append_singleton ms m ih =>
    obtain ⟨k, v⟩ := m
    rw [lookup_reverse_append]
    split
    · rfl
    · rename_i hne
      apply ih
      simpa [hne] using h

/-- Setting a member of an object that is given by its names, in order, and the value of each. -/
theorem setMember_filterMap (val : Bytes → Option Value) (key : Bytes) (value : Value)
    (keys : List Bytes) (hdup : keys.Nodup) (hval : ∀ k ∈ keys, (val k).isSome = true) :
    setMember key value (keys.filterMap fun k => (val k).map fun v => (k, v)) =
      (if key ∈ keys then keys else keys ++ [key]).filterMap fun k =>
        (if k = key then some value else val k).map fun v => (k, v) := by
  induction keys with
  | nil => simp [setMember]
  | cons k rest ih =>
    obtain ⟨v, hv⟩ := Option.isSome_iff_exists.mp (hval k List.mem_cons_self)
    obtain ⟨hk, hrest⟩ := List.nodup_cons.mp hdup
    have hih := ih hrest fun k' hk' => hval k' (List.mem_cons_of_mem _ hk')
    by_cases heq : k = key
    · subst heq
      have hsame : ∀ k' ∈ rest, (if k' = k then some value else val k') = val k' := by
        intro k' hk'
        rw [if_neg]
        rintro rfl
        exact hk hk'
      simp only [List.mem_cons, true_or, if_true, List.filterMap_cons, hv, Option.map_some,
        setMember]
      congr 1
      apply List.filterMap_congr
      intro k' hk'
      rw [hsame k' hk']
    · have hmem : (key ∈ k :: rest) ↔ key ∈ rest := by simp [Ne.symm heq]
      have hsplit : (if key ∈ k :: rest then k :: rest else k :: rest ++ [key]) =
          k :: (if key ∈ rest then rest else rest ++ [key]) := by
        rw [if_congr hmem rfl rfl]
        split <;> rfl
      rw [hsplit]
      simp only [List.filterMap_cons, hv, Option.map_some, setMember, heq, if_false]
      rw [hih]

theorem lastWins_append (ms : List (Bytes × Value)) (key : Bytes) (value : Value) :
    lastWins (ms ++ [(key, value)]) = setMember key value (lastWins ms) := by
  unfold lastWins
  rw [setMember_filterMap _ _ _ _ (eraseDups_nodup _)
    fun k hk => lookup_reverse_isSome ms k (List.mem_eraseDups.mp hk)]
  simp only [lookup_reverse_append, List.map_append, List.map_cons, List.map_nil,
    eraseDups_append_one, List.mem_eraseDups]

theorem lastWins_foldl (ms : List (Bytes × Value)) :
    lastWins ms = ms.foldl (fun object m => setMember m.1 m.2 object) [] := by
  induction ms using List.reverseRecOn with
  | nil => rfl
  | append_singleton ms m ih => rw [lastWins_append, ih, List.foldl_append]; rfl

theorem lookup_lastWins (ms : List (Bytes × Value)) (key : Bytes) :
    (lastWins ms).lookup key = ms.reverse.lookup key := by
  induction ms using List.reverseRecOn with
  | nil => rfl
  | append_singleton ms m ih =>
    obtain ⟨k, v⟩ := m
    rw [lastWins_append, lookup_setMember, lookup_reverse_append, ih]

theorem lastWins_names (ms : List (Bytes × Value)) :
    (lastWins ms).map Prod.fst = (ms.map Prod.fst).eraseDups := by
  induction ms using List.reverseRecOn with
  | nil => rfl
  | append_singleton ms m ih =>
    rw [lastWins_append, setMember_names, ih, List.map_append, List.map_singleton,
      eraseDups_append_one]
    exact if_congr List.mem_eraseDups rfl rfl

theorem lastWins_nodup_names (ms : List (Bytes × Value)) :
    ((lastWins ms).map Prod.fst).Nodup := by
  rw [lastWins_names]
  exact eraseDups_nodup _

theorem mem_lastWins {ms : List (Bytes × Value)} {m : Bytes × Value} (h : m ∈ lastWins ms) :
    ∃ n ∈ ms, n.2 = m.2 := by
  induction ms using List.reverseRecOn with
  | nil => simp [lastWins] at h
  | append_singleton ms n ih =>
    rw [lastWins_append] at h
    rcases mem_setMember h with h | h
    · obtain ⟨n', hn', heq⟩ := ih h
      exact ⟨n', List.mem_append_left _ hn', heq⟩
    · exact ⟨n, by simp, h.symm⟩

@[elab_as_elim]
theorem Doc.nested {P : Doc → Prop} (null : P .null) (boolean : ∀ v, P (.boolean v))
    (number : ∀ n, P (.number n)) (string : ∀ v, P (.string v))
    (array : ∀ items, (∀ d ∈ items, P d) → P (.array items))
    (object : ∀ members, (∀ m ∈ members, P m.2) → P (.object members)) : ∀ d, P d
  | .null => null
  | .boolean v => boolean v
  | .number n => number n
  | .string v => string v
  | .array items => array items fun d _ => nested null boolean number string array object d
  | .object members =>
    object members fun m _ => nested null boolean number string array object m.2
termination_by d => sizeOf d
decreasing_by
  · rename_i h
    have := List.sizeOf_lt_of_mem h
    simp only [Doc.array.sizeOf_spec]
    omega
  · rename_i h
    have := List.sizeOf_lt_of_mem h
    obtain ⟨k, d⟩ := m
    simp only [Doc.object.sizeOf_spec, Prod.mk.sizeOf_spec] at *
    omega

theorem itemsMeaning_eq (items : List Doc) : itemsMeaning items = items.map Doc.meaning := by
  induction items with
  | nil => rfl
  | cons d rest ih => rw [itemsMeaning, ih, List.map_cons]

theorem membersMeaning_eq (ms : List (Bytes × Doc)) :
    membersMeaning ms = ms.map fun m => (m.1, m.2.meaning) := by
  induction ms with
  | nil => rfl
  | cons m rest ih => rw [membersMeaning, ih, List.map_cons]

theorem mem_itemsMeaning {ds : List Doc} {v : Value} (h : v ∈ itemsMeaning ds) :
    ∃ d ∈ ds, d.meaning = v := by
  rw [itemsMeaning_eq] at h
  exact List.mem_map.mp h

theorem mem_membersMeaning {ms : List (Bytes × Doc)} {m : Bytes × Value}
    (h : m ∈ membersMeaning ms) : ∃ n ∈ ms, n.2.meaning = m.2 := by
  rw [membersMeaning_eq] at h
  obtain ⟨n, hn, rfl⟩ := List.mem_map.mp h
  exact ⟨n, hn, rfl⟩

theorem meaning_distinct (d : Doc) : d.meaning.Distinct := by
  induction d using Doc.nested with
  | null => exact .null
  | boolean v => exact .boolean v
  | number n => exact .number _
  | string v => exact .string v
  | array items ih =>
    rw [Doc.meaning]
    refine .array fun v hv => ?_
    obtain ⟨d, hd, rfl⟩ := mem_itemsMeaning hv
    exact ih d hd
  | object members ih =>
    rw [Doc.meaning]
    refine .object (lastWins_nodup_names _) fun m hm => ?_
    obtain ⟨n, hn, heq⟩ := mem_lastWins hm
    obtain ⟨m', hm', heq'⟩ := mem_membersMeaning hn
    rw [← heq, ← heq']
    exact ih m' hm'

end OakBarrels.Json
