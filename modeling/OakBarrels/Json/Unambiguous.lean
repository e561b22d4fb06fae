import OakBarrels.Json.ParserProofs

/-!
# One document a text

The grammar is unambiguous, at any depth. Which kind of value is next is told by its first byte, and
where it ends by the byte behind it.
-/

open Octets Binary64 Decimal Conversion Cursor

namespace OakBarrels.Json

open OakBarrels.Json.Parser

/-! ## Tokens -/

theorem whitespace_unique {w w' s s' : Bytes} (hw : Whitespace w) (hw' : Whitespace w')
    (hs : Stops isJsonWhitespace s) (hs' : Stops isJsonWhitespace s') (heq : w ++ s = w' ++ s') :
    s = s' := by
  have htakes := takes_skipWhitespace hw hs
  rw [heq] at htakes
  exact (htakes.unique (takes_skipWhitespace hw' hs')).2

theorem string_unique {k k' v v' s s' : Bytes} (hk : IsString k v) (hk' : IsString k' v')
    (heq : k ++ s = k' ++ s') : v = v' ∧ s = s' := by
  have htakes := takes_parseString hk s
  rw [heq] at htakes
  exact htakes.unique (takes_parseString hk' s')

theorem number_unique {n n' : Numeral} {s s' : Bytes} (hn : IsNumber n) (hn' : IsNumber n')
    (hs : Delimits s) (hs' : Delimits s') (heq : n.text ++ s = n'.text ++ s') : n = n' ∧ s = s' := by
  have htakes := takes_parseNumber hn hs
  rw [heq] at htakes
  have hrest := (htakes.unique (takes_parseNumber hn' hs')).2
  refine ⟨?_, hrest⟩
  rw [hrest] at heq
  have hread := readNumeral_text n hn.1
  rw [List.append_cancel_right heq, readNumeral_text n' hn'.1] at hread
  cases hread
  rfl

/-- What separates two values or ends a list, behind whitespace. -/
theorem separator_unique {w w' s s' : Bytes} {c c' : Byte} (hw : Whitespace w) (hw' : Whitespace w')
    (hc : c = ch ',' ∨ c = ch ']' ∨ c = ch '}') (hc' : c' = ch ',' ∨ c' = ch ']' ∨ c' = ch '}')
    (heq : w ++ c :: s = w' ++ c' :: s') : c = c' ∧ s = s' :=
  List.cons_eq_cons.mp
    (whitespace_unique hw hw' (not_whitespace c s hc) (not_whitespace c' s' hc') heq)

theorem stops_value {s rest : Bytes} {d : Doc} (h : Reads s (.value d)) :
    Stops isJsonWhitespace (s ++ rest) := by
  obtain ⟨b, t, rfl, hspace, -⟩ := value_head h
  exact stops_cons _ hspace

theorem stops_items {s rest : Bytes} {ds : List Doc} (h : Reads s (.items ds)) :
    Stops isJsonWhitespace (s ++ rest) := by
  obtain ⟨b, t, rfl, hspace, -⟩ := items_head h
  exact stops_cons _ hspace

theorem stops_members {s rest : Bytes} {ms : List (Bytes × Doc)} (h : Reads s (.members ms)) :
    Stops isJsonWhitespace (s ++ rest) := by
  obtain ⟨t, rfl⟩ := members_head h
  exact stops_cons _ (by decide)

theorem name_unique {n n' key key' s s' : Bytes} (hn : IsName n key) (hn' : IsName n' key')
    (hs : Stops isJsonWhitespace s) (hs' : Stops isJsonWhitespace s') (heq : n ++ s = n' ++ s') :
    key = key' ∧ s = s' := by
  obtain ⟨k, w₁, w₂, hk, hw₁, hw₂, rfl⟩ := hn
  obtain ⟨k', w₁', w₂', hk', hw₁', hw₂', rfl⟩ := hn'
  simp only [List.append_assoc, List.cons_append] at heq
  obtain ⟨rfl, hrest⟩ := string_unique hk hk' heq
  have hcolon := whitespace_unique hw₁ hw₁' (stops_cons _ (by decide)) (stops_cons _ (by decide)) hrest
  exact ⟨rfl, whitespace_unique hw₂ hw₂' hs hs' (List.cons_eq_cons.mp hcolon).2⟩

/-! ## Values -/

inductive Kind
  | null
  | true
  | false
  | number
  | string
  | array
  | object

def Doc.kind : Doc → Kind
  | .null => .null
  | .boolean true => .true
  | .boolean false => .false
  | .number _ => .number
  | .string _ => .string
  | .array _ => .array
  | .object _ => .object

/-- The kind of a value, by its first byte. -/
def kindOf (b : Byte) : Kind :=
  if b = ch 'n' then .null
  else if b = ch 't' then .true
  else if b = ch 'f' then .false
  else if b = ch '"' then .string
  else if b = ch '[' then .array
  else if b = ch '\x7b' then .object
  else .number

theorem value_kind {s : Bytes} {d : Doc} (h : Reads s (.value d)) :
    ∃ b t, s = b :: t ∧ kindOf b = d.kind := by
  cases h with
  | number hn =>
    obtain ⟨b, t, hbt, hb⟩ := number_head hn
    refine ⟨b, t, hbt, ?_⟩
    rcases hb with rfl | hb
    · rfl
    · have hne : ∀ c, isDigit c = false → b ≠ c := fun c hc => digit_ne hb hc
      simp [kindOf, Doc.kind, hne (ch 'n') (by decide), hne (ch 't') (by decide),
        hne (ch 'f') (by decide), hne (ch '"') (by decide), hne (ch '[') (by decide),
        hne (ch '\x7b') (by decide)]
  | string hs =>
    obtain ⟨body, -, rfl⟩ := hs
    exact ⟨_, _, rfl, rfl⟩
  | _ => exact ⟨_, _, rfl, rfl⟩

theorem kind_unique {s s' rest rest' : Bytes} {d d' : Doc} (h : Reads s (.value d))
    (h' : Reads s' (.value d')) (heq : s ++ rest = s' ++ rest') : d.kind = d'.kind := by
  obtain ⟨b, t, rfl, hkind⟩ := value_kind h
  obtain ⟨b', t', rfl, hkind'⟩ := value_kind h'
  rw [List.cons_append, List.cons_append, List.cons.injEq] at heq
  rw [← hkind, ← hkind', heq.1]

/-- That a part of a text is the only one which can be read there. -/
def Sole (s : Bytes) : Part → Prop
  | .value d => ∀ s' d' rest rest', Reads s' (.value d') → Delimits rest → Delimits rest' →
      s ++ rest = s' ++ rest' → d = d' ∧ rest = rest'
  | .items ds => ∀ s' ds' rest rest', Reads s' (.items ds') →
      s ++ 0x5d :: rest = s' ++ 0x5d :: rest' → ds = ds' ∧ rest = rest'
  | .members ms => ∀ s' ms' rest rest', Reads s' (.members ms') →
      s ++ 0x7d :: rest = s' ++ 0x7d :: rest' → ms = ms' ∧ rest = rest'

/-- An array that is empty does not begin like one that is not. -/
theorem closed_ne {w w' s t rest : Bytes} {close : Byte} (hw : Whitespace w) (hw' : Whitespace w')
    (hclose : close = ch ',' ∨ close = ch ']' ∨ close = ch '}')
    (hstops : Stops isJsonWhitespace (s ++ rest)) (hhead : ∃ b u, s = b :: u ∧ b ≠ close) :
    w ++ close :: t ≠ w' ++ (s ++ rest) := by
  intro heq
  have hrest := whitespace_unique hw hw' (not_whitespace close t hclose) hstops heq
  obtain ⟨b, u, rfl, hne⟩ := hhead
  exact hne (List.cons_eq_cons.mp hrest).1.symm

/-- A value, and what separates it from the next. -/
theorem Sole.separated {s s' w w' rest rest' : Bytes} {d d' : Doc} {c c' : Byte}
    (hs : Sole s (.value d)) (hs' : Reads s' (.value d')) (hw : Whitespace w) (hw' : Whitespace w')
    (hc : c = ch ',' ∨ c = ch ']' ∨ c = ch '}') (hc' : c' = ch ',' ∨ c' = ch ']' ∨ c' = ch '}')
    (heq : s ++ (w ++ c :: rest) = s' ++ (w' ++ c' :: rest')) : d = d' ∧ c = c' ∧ rest = rest' := by
  obtain ⟨hvalue, hrest⟩ := hs s' d' _ _ hs' (delimits_after hw (delimits_before c rest hc))
    (delimits_after hw' (delimits_before c' rest' hc')) heq
  exact ⟨hvalue, separator_unique hw hw' hc hc' hrest⟩

theorem sole_item {s w : Bytes} {d : Doc} (hs : Sole s (.value d)) (hw : Whitespace w) :
    Sole (s ++ w) (.items [d]) := by
  intro s' ds' rest rest' h' heq
  cases h' with
  | item hd' hw' =>
    simp only [List.append_assoc] at heq
    obtain ⟨rfl, -, hend⟩ := hs.separated hd' hw hw' (.inr (.inl rfl)) (.inr (.inl rfl)) heq
    exact ⟨rfl, hend⟩
  | items hd' hw' _ _ =>
    simp only [List.append_assoc, List.cons_append] at heq
    have hcomma := (hs.separated hd' hw hw' (.inr (.inl rfl)) (.inl rfl) heq).2.1
    exact absurd hcomma (by decide)

theorem sole_items {s w₁ w₂ t : Bytes} {d : Doc} {ds : List Doc} (hs : Sole s (.value d))
    (hw₁ : Whitespace w₁) (hw₂ : Whitespace w₂) (ht : Reads t (.items ds)) (hts : Sole t (.items ds)) :
    Sole (s ++ w₁ ++ 0x2c :: w₂ ++ t) (.items (d :: ds)) := by
  intro s' ds' rest rest' h' heq
  cases h' with
  | item hd' hw' =>
    simp only [List.append_assoc, List.cons_append] at heq
    have hcomma := (hs.separated hd' hw₁ hw' (.inl rfl) (.inr (.inl rfl)) heq).2.1
    exact absurd hcomma (by decide)
  | @items u w' w₂' t' d' ds' hd' hw' hw₂' ht' =>
    simp only [List.append_assoc, List.cons_append] at heq
    obtain ⟨rfl, -, hafter⟩ := hs.separated hd' hw₁ hw' (.inl rfl) (.inl rfl) heq
    obtain ⟨rfl, hend⟩ := hts t' ds' rest rest' ht'
      (whitespace_unique hw₂ hw₂' (stops_items ht) (stops_items ht') hafter)
    exact ⟨rfl, hend⟩

theorem sole_member {n s w key : Bytes} {d : Doc} (hn : IsName n key) (h : Reads s (.value d))
    (hs : Sole s (.value d)) (hw : Whitespace w) : Sole (n ++ s ++ w) (.members [(key, d)]) := by
  intro s' ms' rest rest' h' heq
  cases h' with
  | member hn' hd' hw' =>
    simp only [List.append_assoc] at heq
    obtain ⟨rfl, hvalue⟩ := name_unique hn hn' (stops_value h) (stops_value hd') heq
    obtain ⟨rfl, -, hend⟩ := hs.separated hd' hw hw' (.inr (.inr rfl)) (.inr (.inr rfl)) hvalue
    exact ⟨rfl, hend⟩
  | members hn' hd' hw' _ _ =>
    simp only [List.append_assoc, List.cons_append] at heq
    obtain ⟨rfl, hvalue⟩ := name_unique hn hn' (stops_value h) (stops_value hd') heq
    have hcomma := (hs.separated hd' hw hw' (.inr (.inr rfl)) (.inl rfl) hvalue).2.1
    exact absurd hcomma (by decide)

theorem sole_members {n s w₁ w₂ t key : Bytes} {d : Doc} {ms : List (Bytes × Doc)} (hn : IsName n key)
    (h : Reads s (.value d)) (hs : Sole s (.value d)) (hw₁ : Whitespace w₁) (hw₂ : Whitespace w₂)
    (ht : Reads t (.members ms)) (hts : Sole t (.members ms)) :
    Sole (n ++ s ++ w₁ ++ 0x2c :: w₂ ++ t) (.members ((key, d) :: ms)) := by
  intro s' ms' rest rest' h' heq
  cases h' with
  | member hn' hd' hw' =>
    simp only [List.append_assoc, List.cons_append] at heq
    obtain ⟨rfl, hvalue⟩ := name_unique hn hn' (stops_value h) (stops_value hd') heq
    have hcomma := (hs.separated hd' hw₁ hw' (.inl rfl) (.inr (.inr rfl)) hvalue).2.1
    exact absurd hcomma (by decide)
  | @members n' u w' w₂' t' key' d' ms' hn' hd' hw' hw₂' ht' =>
    simp only [List.append_assoc, List.cons_append] at heq
    obtain ⟨rfl, hvalue⟩ := name_unique hn hn' (stops_value h) (stops_value hd') heq
    obtain ⟨rfl, -, hafter⟩ := hs.separated hd' hw₁ hw' (.inl rfl) (.inl rfl) hvalue
    obtain ⟨rfl, hend⟩ := hts t' ms' rest rest' ht'
      (whitespace_unique hw₂ hw₂' (stops_members ht) (stops_members ht') hafter)
    exact ⟨rfl, hend⟩

theorem sole_emptyArray {w : Bytes} (hw : Whitespace w) :
    Sole (0x5b :: w ++ [0x5d]) (.value (.array [])) := by
  intro s' d' rest rest' h' _ _ heq
  have hkind := kind_unique (.emptyArray hw) h' heq
  cases h' with
  | @emptyArray w' hw' =>
    simp only [List.cons_append, List.append_assoc, List.nil_append, List.cons.injEq, true_and] at heq
    exact ⟨rfl, (separator_unique hw hw' (.inr (.inl rfl)) (.inr (.inl rfl)) heq).2⟩
  | @array w' t ds hw' ht =>
    simp only [List.cons_append, List.append_assoc, List.nil_append, List.cons.injEq, true_and] at heq
    obtain ⟨b, u, hbu, -, hne⟩ := items_head ht
    exact absurd heq (closed_ne hw hw' (.inr (.inl rfl)) (stops_items ht) ⟨b, u, hbu, hne⟩)
  | _ => cases hkind

theorem sole_array {w s : Bytes} {ds : List Doc} (hw : Whitespace w) (hs : Reads s (.items ds))
    (ih : Sole s (.items ds)) : Sole (0x5b :: w ++ s ++ [0x5d]) (.value (.array ds)) := by
  intro s' d' rest rest' h' _ _ heq
  have hkind := kind_unique (.array hw hs) h' heq
  cases h' with
  | @emptyArray w' hw' =>
    simp only [List.cons_append, List.append_assoc, List.nil_append, List.cons.injEq, true_and] at heq
    obtain ⟨b, u, hbu, -, hne⟩ := items_head hs
    exact absurd heq.symm (closed_ne hw' hw (.inr (.inl rfl)) (stops_items hs) ⟨b, u, hbu, hne⟩)
  | @array w' t ds' hw' ht =>
    simp only [List.cons_append, List.append_assoc, List.nil_append, List.cons.injEq, true_and] at heq
    obtain ⟨rfl, hend⟩ := ih t ds' rest rest' ht
      (whitespace_unique hw hw' (stops_items hs) (stops_items ht) heq)
    exact ⟨rfl, hend⟩
  | _ => cases hkind

theorem sole_emptyObject {w : Bytes} (hw : Whitespace w) :
    Sole (0x7b :: w ++ [0x7d]) (.value (.object [])) := by
  intro s' d' rest rest' h' _ _ heq
  have hkind := kind_unique (.emptyObject hw) h' heq
  cases h' with
  | @emptyObject w' hw' =>
    simp only [List.cons_append, List.append_assoc, List.nil_append, List.cons.injEq, true_and] at heq
    exact ⟨rfl, (separator_unique hw hw' (.inr (.inr rfl)) (.inr (.inr rfl)) heq).2⟩
  | @object w' t ms hw' ht =>
    simp only [List.cons_append, List.append_assoc, List.nil_append, List.cons.injEq, true_and] at heq
    obtain ⟨u, hu⟩ := members_head ht
    exact absurd heq
      (closed_ne hw hw' (.inr (.inr rfl)) (stops_members ht) ⟨_, u, hu, by decide⟩)
  | _ => cases hkind

theorem sole_object {w s : Bytes} {ms : List (Bytes × Doc)} (hw : Whitespace w)
    (hs : Reads s (.members ms)) (ih : Sole s (.members ms)) :
    Sole (0x7b :: w ++ s ++ [0x7d]) (.value (.object ms)) := by
  intro s' d' rest rest' h' _ _ heq
  have hkind := kind_unique (.object hw hs) h' heq
  cases h' with
  | @emptyObject w' hw' =>
    simp only [List.cons_append, List.append_assoc, List.nil_append, List.cons.injEq, true_and] at heq
    obtain ⟨u, hu⟩ := members_head hs
    exact absurd heq.symm
      (closed_ne hw' hw (.inr (.inr rfl)) (stops_members hs) ⟨_, u, hu, by decide⟩)
  | @object w' t ms' hw' ht =>
    simp only [List.cons_append, List.append_assoc, List.nil_append, List.cons.injEq, true_and] at heq
    obtain ⟨rfl, hend⟩ := ih t ms' rest rest' ht
      (whitespace_unique hw hw' (stops_members hs) (stops_members ht) heq)
    exact ⟨rfl, hend⟩
  | _ => cases hkind

/-- The grammar is unambiguous, part by part. -/
theorem sole {s : Bytes} {p : Part} (h : Reads s p) : Sole s p := by
  induction h with
  | null =>
    intro s' d' rest rest' h' _ _ heq
    have hkind := kind_unique .null h' heq
    cases h' with
    | null => exact ⟨rfl, List.append_cancel_left heq⟩
    | _ => cases hkind
  | true =>
    intro s' d' rest rest' h' _ _ heq
    have hkind := kind_unique .true h' heq
    cases h' with
    | true => exact ⟨rfl, List.append_cancel_left heq⟩
    | _ => cases hkind
  | false =>
    intro s' d' rest rest' h' _ _ heq
    have hkind := kind_unique .false h' heq
    cases h' with
    | false => exact ⟨rfl, List.append_cancel_left heq⟩
    | _ => cases hkind
  | number hn =>
    intro s' d' rest rest' h' hrest hrest' heq
    have hkind := kind_unique (.number hn) h' heq
    cases h' with
    | number hn' =>
      obtain ⟨rfl, hend⟩ := number_unique hn hn' hrest hrest' heq
      exact ⟨rfl, hend⟩
    | _ => cases hkind
  | string hs =>
    intro s' d' rest rest' h' _ _ heq
    have hkind := kind_unique (.string hs) h' heq
    cases h' with
    | string hs' =>
      obtain ⟨rfl, hend⟩ := string_unique hs hs' heq
      exact ⟨rfl, hend⟩
    | _ => cases hkind
  | emptyArray hw => exact sole_emptyArray hw
  | array hw hs ih => exact sole_array hw hs ih
  | emptyObject hw => exact sole_emptyObject hw
  | object hw hs ih => exact sole_object hw hs ih
  | item _ hw ih => exact sole_item ih hw
  | items _ hw₁ hw₂ ht ih iht => exact sole_items ih hw₁ hw₂ ht iht
  | member hn hd hw ih => exact sole_member hn hd ih hw
  | members hn hd hw₁ hw₂ ht ih iht => exact sole_members hn hd ih hw₁ hw₂ ht iht

/-- A text has one document. -/
theorem IsText.unique {t : Bytes} {d d' : Doc} (h : IsText t d) (h' : IsText t d') : d = d' := by
  obtain ⟨w₁, s, w₂, hw₁, hd, hw₂, rfl⟩ := h
  obtain ⟨w₁', s', w₂', hw₁', hd', hw₂', heq⟩ := h'
  simp only [List.append_assoc] at heq
  have hvalue := whitespace_unique hw₁ hw₁' (stops_value hd) (stops_value hd') heq
  have hdelimits : ∀ {w}, Whitespace w → Delimits w := fun {w} hw => by
    have h := delimits_after hw (stops_nil _)
    rwa [List.append_nil] at h
  exact (sole hd s' d' w₂ w₂' hd' (hdelimits hw₂) (hdelimits hw₂') hvalue).1

end OakBarrels.Json
