import OakBarrels.Json.TokenProofs

/-!
# The parser accepts the grammar

Soundness is an induction on the number that the recursive calls count down, completeness one on
the derivation of the text. Together: `parse` returns a value if and only if the text is a JSON text
of at most the allowed depth, and then it is the value that the text means.
-/

open Octets Binary64 Decimal Conversion Cursor

namespace OakBarrels.Json

namespace Parser

/-! ## Meaning of lists and objects, member by member -/

def setAll (members : List (Bytes × Value)) (object : List (Bytes × Value)) :
    List (Bytes × Value) :=
  members.foldl (fun object m => setMember m.1 m.2 object) object

/-! ## Soundness -/

/-- What each of the recursive functions has read when it succeeds. -/
structure Sound (fuel : Nat) : Prop where
  value : ∀ depth s, Ensures (parseValue fuel depth) s fun v s' =>
    ∃ t d, Reads t (.value d) ∧ s = t ++ s' ∧ v = d.meaning ∧ depth + d.height ≤ kMaxParseDepth
  array : ∀ depth c s, Ensures (parseArray fuel depth) (c :: s) fun v s' =>
    ∃ t ds, Reads (0x5b :: t ++ [0x5d]) (.value (.array ds)) ∧ s = t ++ 0x5d :: s' ∧
      v = (Doc.array ds).meaning ∧ (ds ≠ [] → depth + itemsDepth ds ≤ kMaxParseDepth)
  items : ∀ depth items s, Ensures (parseItems fuel depth items) s fun v s' =>
    ∃ w t ds, Whitespace w ∧ Reads t (.items ds) ∧ s = w ++ t ++ 0x5d :: s' ∧
      v = .array (items ++ itemsMeaning ds) ∧ depth + itemsDepth ds ≤ kMaxParseDepth
  object : ∀ depth c s, Ensures (parseObject fuel depth) (c :: s) fun v s' =>
    ∃ t ms, Reads (0x7b :: t ++ [0x7d]) (.value (.object ms)) ∧ s = t ++ 0x7d :: s' ∧
      v = (Doc.object ms).meaning ∧ (ms ≠ [] → depth + membersDepth ms ≤ kMaxParseDepth)
  members : ∀ depth object s, Ensures (parseMembers fuel depth (.object object)) s fun v s' =>
    ∃ w t ms, Whitespace w ∧ Reads t (.members ms) ∧ s = w ++ t ++ 0x7d :: s' ∧
      v = .object (setAll (membersMeaning ms) object) ∧
      depth + membersDepth ms ≤ kMaxParseDepth

theorem whitespace_append {v w : Bytes} (hv : Whitespace v) (hw : Whitespace w) :
    Whitespace (v ++ w) := by
  intro b hb
  rcases List.mem_append.mp hb with h | h
  · exact hv b h
  · exact hw b h

theorem sound_zero : Sound 0 := by
  constructor <;> intros <;>
    simp only [parseValue, parseArray, parseItems, parseObject, parseMembers] <;>
    exact ensures_outOfFuel

/-- After the opening byte: the closing one, or what stands between them. -/
theorem ensures_opening {x : Program Value} {v : Value} {b close : Byte} {s : Bytes}
    {Q : Value → Bytes → Prop} (hclose : ∀ w t, Whitespace w → s = w ++ close :: t → Q v t)
    (hx : ∀ w t, Whitespace w → s = w ++ t → Ensures x t Q) :
    Ensures (do
      advance 1
      skipWhitespace
      if ← nextIs (· = close) then
        advance 1
        return v
      else x) (b :: s) Q := by
  apply ensures_bind
  apply ensures_advance_one
  apply ensures_bind
  apply (ensures_skipWhitespace s).mono
  rintro _ s₁ ⟨w, hw, rfl⟩
  apply ensures_ifNext
  · rintro s₂ rfl
    apply ensures_bind
    apply ensures_advance_one
    exact ensures_pure (hclose w s₂ hw rfl)
  · exact fun _ => hx w s₁ hw rfl

/-- After a value: a comma and what follows it, or the closing byte. -/
theorem ensures_separator {x : Program Value} {v : Value} {close : Byte} {s : Bytes}
    {Q : Value → Bytes → Prop} (hcomma : ∀ w t, Whitespace w → s = w ++ 0x2c :: t → Ensures x t Q)
    (hclose : ∀ w t, Whitespace w → s = w ++ close :: t → Q v t) :
    Ensures (do
      skipWhitespace
      if ← nextIs (· = ch ',') then
        advance 1
        x
      else if ← nextIs (· = close) then
        advance 1
        return v
      else refuse) s Q := by
  apply ensures_bind
  apply (ensures_skipWhitespace s).mono
  rintro _ s₁ ⟨w, hw, rfl⟩
  apply ensures_ifNext
  · rintro s₂ rfl
    apply ensures_bind
    apply ensures_advance_one
    exact hcomma w s₂ hw rfl
  · intro _
    apply ensures_ifNext
    · rintro s₂ rfl
      apply ensures_bind
      apply ensures_advance_one
      exact ensures_pure (hclose w s₂ hw rfl)
    · exact fun _ => ensures_refuse

theorem sound_items {fuel : Nat} (h : Sound fuel) (depth : Nat) (items : List Value) (s : Bytes) :
    Ensures (parseItems (fuel + 1) depth items) s fun v s' =>
      ∃ w t ds, Whitespace w ∧ Reads t (.items ds) ∧ s = w ++ t ++ 0x5d :: s' ∧
        v = .array (items ++ itemsMeaning ds) ∧ depth + itemsDepth ds ≤ kMaxParseDepth := by
  rw [parseItems]
  apply ensures_bind
  apply (ensures_skipWhitespace s).mono
  rintro _ s₁ ⟨w₁, hw₁, rfl⟩
  apply ensures_bind
  apply (h.value (depth + 1) s₁).mono
  rintro v s₂ ⟨t, d, hd, rfl, rfl, hheight⟩
  apply ensures_separator
  · rintro w₂ s₃ hw₂ rfl
    apply (h.items depth (items ++ [d.meaning]) s₃).mono
    rintro v s' ⟨w₃, t', ds, hw₃, hds, rfl, rfl, hdepth⟩
    refine ⟨w₁, _, d :: ds, hw₁, Reads.items hd hw₂ hw₃ hds, ?_, ?_, ?_⟩
    · simp
    · simp [itemsMeaning]
    · simp only [itemsDepth]
      omega
  · rintro w₂ s₃ hw₂ rfl
    refine ⟨w₁, _, [d], hw₁, Reads.item hd hw₂, ?_, rfl, ?_⟩
    · simp [ch]
    · simp only [itemsDepth]
      omega

theorem sound_array {fuel : Nat} (h : Sound fuel) (depth : Nat) (c : Byte) (s : Bytes) :
    Ensures (parseArray (fuel + 1) depth) (c :: s) fun v s' =>
      ∃ t ds, Reads (0x5b :: t ++ [0x5d]) (.value (.array ds)) ∧ s = t ++ 0x5d :: s' ∧
        v = (Doc.array ds).meaning ∧ (ds ≠ [] → depth + itemsDepth ds ≤ kMaxParseDepth) := by
  rw [parseArray]
  apply ensures_opening
  · rintro w s₁ hw rfl
    exact ⟨w, [], Reads.emptyArray hw, rfl, by simp [Doc.meaning, itemsMeaning],
      fun h => absurd rfl h⟩
  · rintro w s₁ hw rfl
    apply (h.items depth [] s₁).mono
    rintro v s' ⟨w', t, ds, hw', hds, rfl, rfl, hdepth⟩
    have hreads := Reads.array (whitespace_append hw hw') hds
    exact ⟨w ++ w' ++ t, ds, by simpa using hreads, by simp, by simp [Doc.meaning],
      fun _ => hdepth⟩

theorem sound_members {fuel : Nat} (h : Sound fuel) (depth : Nat) (object : List (Bytes × Value))
    (s : Bytes) :
    Ensures (parseMembers (fuel + 1) depth (.object object)) s fun v s' =>
      ∃ w t ms, Whitespace w ∧ Reads t (.members ms) ∧ s = w ++ t ++ 0x7d :: s' ∧
        v = .object (setAll (membersMeaning ms) object) ∧
        depth + membersDepth ms ≤ kMaxParseDepth := by
  rw [parseMembers]
  apply ensures_bind
  apply (ensures_skipWhitespace s).mono
  rintro _ s₁ ⟨w₁, hw₁, rfl⟩
  apply ensures_ifNext
  swap
  · exact fun _ => ensures_refuse
  rintro s₁ rfl
  apply ensures_bind
  apply (ensures_parseString _ s₁).mono
  rintro key s₂ ⟨body, hbody, rfl⟩
  apply ensures_bind
  apply (ensures_skipWhitespace s₂).mono
  rintro _ s₃ ⟨w₂, hw₂, rfl⟩
  apply ensures_ifNext
  swap
  · exact fun _ => ensures_refuse
  rintro s₃ rfl
  apply ensures_bind
  apply ensures_advance_one
  apply ensures_bind
  apply (ensures_skipWhitespace s₃).mono
  rintro _ s₄ ⟨w₃, hw₃, rfl⟩
  have hname : IsName (0x22 :: body ++ [0x22] ++ w₂ ++ 0x3a :: w₃) key :=
    ⟨_, w₂, w₃, ⟨body, hbody, rfl⟩, hw₂, hw₃, rfl⟩
  apply ensures_bind
  apply (h.value (depth + 1) s₄).mono
  rintro v s₅ ⟨t, d, hd, rfl, rfl, hheight⟩
  apply ensures_separator
  · rintro w₄ s₆ hw₄ rfl
    apply (h.members depth (setMember key d.meaning object) s₆).mono
    rintro v s' ⟨w₅, t', ms, hw₅, hms, rfl, rfl, hdepth⟩
    refine ⟨w₁, _, (key, d) :: ms, hw₁, Reads.members hname hd hw₄ hw₅ hms, ?_, ?_, ?_⟩
    · simp [ch]
    · simp [membersMeaning, setAll]
    · simp only [membersDepth]
      omega
  · rintro w₄ s₆ hw₄ rfl
    refine ⟨w₁, _, [(key, d)], hw₁, Reads.member hname hd hw₄, ?_, rfl, ?_⟩
    · simp [ch]
    · simp only [membersDepth]
      omega

theorem sound_object {fuel : Nat} (h : Sound fuel) (depth : Nat) (c : Byte) (s : Bytes) :
    Ensures (parseObject (fuel + 1) depth) (c :: s) fun v s' =>
      ∃ t ms, Reads (0x7b :: t ++ [0x7d]) (.value (.object ms)) ∧ s = t ++ 0x7d :: s' ∧
        v = (Doc.object ms).meaning ∧ (ms ≠ [] → depth + membersDepth ms ≤ kMaxParseDepth) := by
  rw [parseObject]
  apply ensures_opening
  · rintro w s₁ hw rfl
    exact ⟨w, [], Reads.emptyObject hw, rfl, rfl, fun h => absurd rfl h⟩
  · rintro w s₁ hw rfl
    apply (h.members depth [] s₁).mono
    rintro v s' ⟨w', t, ms, hw', hms, rfl, rfl, hdepth⟩
    have hreads := Reads.object (whitespace_append hw hw') hms
    exact ⟨w ++ w' ++ t, ms, by simpa using hreads, by simp,
      by rw [Doc.meaning, lastWins_foldl]; rfl, fun _ => hdepth⟩

theorem sound_value {fuel : Nat} (h : Sound fuel) (depth : Nat) (s : Bytes) :
    Ensures (parseValue (fuel + 1) depth) s fun v s' =>
      ∃ t d, Reads t (.value d) ∧ s = t ++ s' ∧ v = d.meaning ∧
        depth + d.height ≤ kMaxParseDepth := by
  rw [parseValue]
  split
  · exact ensures_refuse
  rename_i hdepth
  rw [not_lt] at hdepth
  apply ensures_bind
  apply ensures_atEnd
  cases s with
  | nil => exact ensures_refuse
  | cons c s =>
    apply ensures_bind
    apply ensures_byteAt
    intro c' hc'
    obtain rfl : c = c' := by simpa using hc'
    split
    · rename_i hc
      apply (h.object depth c s).mono
      rintro v s' ⟨t, ms, hms, rfl, rfl, hms'⟩
      refine ⟨_, _, hms, by rw [hc]; simp [ch], rfl, ?_⟩
      cases ms with
      | nil => simpa [Doc.height, membersDepth] using hdepth
      | cons m ms => exact hms' (by simp)
    split
    · rename_i hc
      apply (h.array depth c s).mono
      rintro v s' ⟨t, ds, hds, rfl, rfl, hds'⟩
      refine ⟨_, _, hds, by rw [hc]; simp [ch], rfl, ?_⟩
      cases ds with
      | nil => simpa [Doc.height, itemsDepth] using hdepth
      | cons d ds => exact hds' (by simp)
    split
    · rename_i hc
      apply ensures_bind
      apply (ensures_parseString c s).mono
      rintro v s' ⟨body, hbody, rfl⟩
      apply ensures_pure
      exact ⟨_, .string v, Reads.string ⟨body, hbody, rfl⟩, by rw [hc]; simp [ch], rfl,
        by simpa [Doc.height] using hdepth⟩
    have hliteral : ∀ (literal : Bytes) (d : Doc), Reads literal (.value d) → d.height = 0 →
        Ensures (do if ← consumeLiteral literal then return d.meaning else refuse) (c :: s)
          fun v s' => ∃ t d, Reads t (.value d) ∧ c :: s = t ++ s' ∧ v = d.meaning ∧
            depth + d.height ≤ kMaxParseDepth := by
      intro literal d hd h0
      apply ensures_bind
      apply (ensures_consumeLiteral literal (c :: s)).mono
      intro found s' hfound
      split
      · rename_i htrue
        exact ensures_pure ⟨literal, d, hd, hfound htrue, rfl, by omega⟩
      · exact ensures_refuse
    split
    · exact hliteral _ (.boolean true) Reads.true rfl
    split
    · exact hliteral _ (.boolean false) Reads.false rfl
    split
    · exact hliteral _ .null Reads.null rfl
    · apply (ensures_parseNumber (c :: s)).mono
      rintro v s' ⟨n, hn, rfl, hs⟩
      exact ⟨_, .number n, Reads.number hn, hs, rfl, by simpa [Doc.height] using hdepth⟩

theorem sound (fuel : Nat) : Sound fuel := by
  induction fuel with
  | zero => exact sound_zero
  | succ fuel ih =>
    exact ⟨sound_value ih, sound_array ih, sound_items ih, sound_object ih, sound_members ih⟩

/-! ## Completeness -/

theorem digit_ne {b c : Byte} (hb : isDigit b = true) (hc : isDigit c = false) : b ≠ c := by
  rintro rfl
  simp [hb] at hc

theorem number_head {n : Numeral} (hn : IsNumber n) :
    ∃ b t, n.text = b :: t ∧ (b = ch '-' ∨ isDigit b = true) := by
  obtain ⟨⟨hne, hds, -, -⟩, -⟩ := hn
  obtain ⟨d, ds, hwhole⟩ := List.exists_cons_of_ne_nil hne
  unfold Numeral.text Numeral.signText
  cases n.negative
  · refine ⟨d, ds ++ n.fractionText ++ n.exponentText, by simp [hwhole], Or.inr ?_⟩
    exact hds d (by rw [hwhole]; exact List.mem_cons_self)
  · exact ⟨ch '-', n.whole ++ n.fractionText ++ n.exponentText, by simp, Or.inl rfl⟩

theorem value_head {s : Bytes} {d : Doc} (h : Reads s (.value d)) :
    ∃ b t, s = b :: t ∧ isJsonWhitespace b = false ∧ b ≠ ch ']' := by
  cases h with
  | number hn =>
    obtain ⟨b, t, hbt, hb⟩ := number_head hn
    refine ⟨b, t, hbt, ?_⟩
    rcases hb with rfl | hb
    · decide
    · refine ⟨?_, digit_ne hb (by decide)⟩
      rw [Bool.eq_false_iff, Ne, isJsonWhitespace_iff]
      rintro (rfl | rfl | rfl | rfl) <;> revert hb <;> decide
  | string hs =>
    obtain ⟨body, -, rfl⟩ := hs
    exact ⟨_, _, rfl, by decide, by decide⟩
  | _ => exact ⟨_, _, rfl, by decide, by decide⟩

theorem items_head {s : Bytes} {ds : List Doc} (h : Reads s (.items ds)) :
    ∃ b t, s = b :: t ∧ isJsonWhitespace b = false ∧ b ≠ ch ']' := by
  cases h with
  | item hd _ =>
    obtain ⟨b, t, rfl, hb⟩ := value_head hd
    exact ⟨b, _, rfl, hb⟩
  | items hd _ _ _ =>
    obtain ⟨b, t, rfl, hb⟩ := value_head hd
    exact ⟨b, _, by rw [List.append_assoc, List.append_assoc]; rfl, hb⟩

theorem members_head {s : Bytes} {ms : List (Bytes × Doc)} (h : Reads s (.members ms)) :
    ∃ t, s = ch '"' :: t := by
  cases h with
  | member hn _ _ =>
    obtain ⟨_, _, _, ⟨body, -, rfl⟩, -, -, rfl⟩ := hn
    exact ⟨_, by simp [ch]; rfl⟩
  | members hn _ _ _ _ =>
    obtain ⟨_, _, _, ⟨body, -, rfl⟩, -, -, rfl⟩ := hn
    exact ⟨_, by simp [ch]; rfl⟩

theorem delimits_after {w s : Bytes} (hw : Whitespace w) (hs : Delimits s) :
    Delimits (w ++ s) := by
  cases w with
  | nil => exact hs
  | cons b w =>
    apply stops_cons
    rcases hw b List.mem_cons_self with rfl | rfl | rfl | rfl <;> decide

/-- That the parser takes a part of a text, whatever follows it. -/
def Complete (s : Bytes) : Part → Prop
  | .value d => ∀ rest depth fuel, Delimits rest → 3 * s.length ≤ fuel →
      depth + d.height ≤ kMaxParseDepth → Takes (parseValue fuel depth) (s ++ rest) d.meaning rest
  | .items ds => ∀ w rest depth fuel items, Whitespace w → 3 * s.length + 1 ≤ fuel →
      depth + itemsDepth ds ≤ kMaxParseDepth →
      Takes (parseItems fuel depth items) (w ++ (s ++ 0x5d :: rest))
        (.array (items ++ itemsMeaning ds)) rest
  | .members ms => ∀ w rest depth fuel object, Whitespace w → 3 * s.length + 1 ≤ fuel →
      depth + membersDepth ms ≤ kMaxParseDepth →
      Takes (parseMembers fuel depth (.object object)) (w ++ (s ++ 0x7d :: rest))
        (.object (setAll (membersMeaning ms) object)) rest

/-- The start of `parseValue`: a byte to dispatch on, at an allowed depth. -/
theorem takes_parseValue {fuel depth : Nat} {b : Byte} {t rest : Bytes} {v : Value}
    (hdepth : depth ≤ kMaxParseDepth)
    (h : Takes (if b = ch '{' then parseObject fuel depth
      else if b = ch '[' then parseArray fuel depth
      else if b = ch '"' then return .string (← parseString)
      else if b = ch 't' then
        do if ← consumeLiteral (ascii "true") then return .boolean true else refuse
      else if b = ch 'f' then
        do if ← consumeLiteral (ascii "false") then return .boolean false else refuse
      else if b = ch 'n' then
        do if ← consumeLiteral (ascii "null") then return .null else refuse
      else parseNumber) (b :: t) v rest) :
    Takes (parseValue (fuel + 1) depth) (b :: t) v rest := by
  rw [parseValue, if_neg (by omega)]
  apply takes_bind (takes_atEnd _)
  apply takes_bind (takes_byteAt (b := b) rfl)
  exact h

theorem takes_literal (literal rest : Bytes) (v : Value) :
    Takes (do if ← consumeLiteral literal then return v else refuse) (literal ++ rest) v rest := by
  apply takes_bind (takes_consumeLiteral literal rest)
  exact takes_pure v rest

theorem complete_number {n : Numeral} (hn : IsNumber n) :
    Complete n.text (.value (.number n)) := by
  intro rest depth fuel hrest hfuel hdepth
  have htakes := takes_parseNumber hn hrest
  obtain ⟨b, t, hbt, hb⟩ := number_head hn
  rw [hbt] at hfuel htakes ⊢
  obtain ⟨fuel, rfl⟩ := Nat.exists_eq_succ_of_ne_zero (show fuel ≠ 0 by simp at hfuel; omega)
  have hne : ∀ c, c ≠ ch '-' → isDigit c = false → b ≠ c := by
    intro c h1 h2
    rcases hb with rfl | hb
    · exact h1.symm
    · exact digit_ne hb h2
  apply takes_parseValue (by omega)
  rw [if_neg (hne (ch '{') (by decide) (by decide)), if_neg (hne (ch '[') (by decide) (by decide)),
    if_neg (hne (ch '"') (by decide) (by decide)), if_neg (hne (ch 't') (by decide) (by decide)),
    if_neg (hne (ch 'f') (by decide) (by decide)), if_neg (hne (ch 'n') (by decide) (by decide))]
  rw [Doc.meaning, hbt]
  exact htakes

theorem complete_string {s v : Bytes} (hs : IsString s v) : Complete s (.value (.string v)) := by
  intro rest depth fuel _ hfuel hdepth
  have htakes := takes_parseString hs rest
  obtain ⟨body, hbody, rfl⟩ := hs
  obtain ⟨fuel, rfl⟩ := Nat.exists_eq_succ_of_ne_zero (show fuel ≠ 0 by simp at hfuel; omega)
  apply takes_parseValue (by omega)
  apply takes_bind htakes
  exact takes_pure (Value.string v) rest

theorem takes_opening {w s t rest : Bytes} {b c close : Byte} {x : Program Value} {v r : Value}
    (hw : Whitespace w) (hs : s = c :: t) (hspace : isJsonWhitespace c = false) (hne : c ≠ close)
    (hx : Takes x s r rest) :
    Takes (do
      advance 1
      skipWhitespace
      if ← nextIs (· = close) then
        advance 1
        return v
      else x) (b :: (w ++ s)) r rest := by
  subst hs
  apply takes_bind (takes_advance_one _ _)
  apply takes_bind (takes_skipWhitespace hw (stops_cons _ hspace))
  apply takes_bind (takes_nextIs _ _)
  rw [if_neg (by simpa using hne)]
  exact hx

theorem takes_closed {w : Bytes} {b close : Byte} {x : Program Value} (v : Value)
    (hw : Whitespace w) (hspace : isJsonWhitespace close = false) (rest : Bytes) :
    Takes (do
      advance 1
      skipWhitespace
      if ← nextIs (· = close) then
        advance 1
        return v
      else x) (b :: (w ++ close :: rest)) v rest := by
  apply takes_bind (takes_advance_one _ _)
  apply takes_bind (takes_skipWhitespace hw (stops_cons _ hspace))
  apply takes_bind (takes_nextIs _ _)
  rw [if_pos (by simp)]
  apply takes_bind (takes_advance_one _ _)
  exact takes_pure v rest

/-- After the opening bracket and whitespace, nothing that `parseArray` takes for a closing one. -/
theorem takes_parseArray {w s rest : Bytes} {ds : List Doc} {fuel depth : Nat}
    (hw : Whitespace w) (hs : Reads s (.items ds)) (ih : Complete s (.items ds))
    (hfuel : 3 * s.length + 1 ≤ fuel) (hdepth : depth + itemsDepth ds ≤ kMaxParseDepth) :
    Takes (parseArray (fuel + 1) depth) (0x5b :: (w ++ (s ++ 0x5d :: rest)))
      (Doc.array ds).meaning rest := by
  obtain ⟨b, t, hbt, hspace, hclose⟩ := items_head hs
  rw [parseArray]
  apply takes_opening hw (by rw [hbt, List.cons_append]) hspace hclose
  exact ih [] rest depth fuel [] (by simp [Whitespace]) hfuel hdepth

theorem takes_parseArray_empty {w : Bytes} (hw : Whitespace w) (rest : Bytes) (fuel depth : Nat) :
    Takes (parseArray (fuel + 1) depth) (0x5b :: (w ++ 0x5d :: rest)) (.array []) rest := by
  rw [parseArray]
  exact takes_closed _ hw (by decide) rest

theorem takes_parseObject {w s rest : Bytes} {ms : List (Bytes × Doc)} {fuel depth : Nat}
    (hw : Whitespace w) (hs : Reads s (.members ms)) (ih : Complete s (.members ms))
    (hfuel : 3 * s.length + 1 ≤ fuel) (hdepth : depth + membersDepth ms ≤ kMaxParseDepth) :
    Takes (parseObject (fuel + 1) depth) (0x7b :: (w ++ (s ++ 0x7d :: rest)))
      (Doc.object ms).meaning rest := by
  obtain ⟨t, hbt⟩ := members_head hs
  rw [parseObject, Doc.meaning, lastWins_foldl]
  apply takes_opening hw (by rw [hbt, List.cons_append]) (by decide) (by decide)
  exact ih [] rest depth fuel [] (by simp [Whitespace]) hfuel hdepth

theorem takes_parseObject_empty {w : Bytes} (hw : Whitespace w) (rest : Bytes)
    (fuel depth : Nat) :
    Takes (parseObject (fuel + 1) depth) (0x7b :: (w ++ 0x7d :: rest)) (.object []) rest := by
  rw [parseObject]
  exact takes_closed _ hw (by decide) rest

theorem delimits_before (c : Byte) (rest : Bytes) (hc : c = ch ',' ∨ c = ch ']' ∨ c = ch '}') :
    Delimits (c :: rest) := by
  apply stops_cons
  rcases hc with rfl | rfl | rfl <;> decide

theorem not_whitespace (c : Byte) (rest : Bytes) (hc : c = ch ',' ∨ c = ch ']' ∨ c = ch '}') :
    Stops isJsonWhitespace (c :: rest) := by
  apply stops_cons
  rcases hc with rfl | rfl | rfl <;> decide

theorem closing_cases {c close : Byte} (hclose : close = ch ']' ∨ close = ch '}')
    (hc : c = ch ',' ∨ c = close) : c = ch ',' ∨ c = ch ']' ∨ c = ch '}' := by
  rcases hc with hc | rfl
  · exact .inl hc
  · exact .inr hclose

theorem takes_separator {w rest rest' : Bytes} {c close : Byte} {x : Program Value} {v r : Value}
    (hw : Whitespace w) (hclose : close = ch ']' ∨ close = ch '}') (hc : c = ch ',' ∨ c = close)
    (hrest : Takes (if c = ch ',' then x else return v) rest r rest') :
    Takes (do
      skipWhitespace
      if ← nextIs (· = ch ',') then
        advance 1
        x
      else if ← nextIs (· = close) then
        advance 1
        return v
      else refuse) (w ++ c :: rest) r rest' := by
  have hne : close ≠ ch ',' := by rcases hclose with rfl | rfl <;> decide
  apply takes_bind (takes_skipWhitespace hw (not_whitespace c rest (closing_cases hclose hc)))
  apply takes_bind (takes_nextIs _ _)
  rcases hc with rfl | rfl
  · rw [if_pos (by simp)]
    apply takes_bind (takes_advance_one _ _)
    rwa [if_pos rfl] at hrest
  · rw [if_neg (by simpa using hne)]
    apply takes_bind (takes_nextIs _ _)
    rw [if_pos (by simp)]
    apply takes_bind (takes_advance_one _ _)
    rwa [if_neg hne] at hrest

theorem takes_item {w s w₁ rest rest' : Bytes} {d : Doc} {c : Byte} {fuel depth : Nat}
    {items : List Value} {r : Value} (hw : Whitespace w) (hd : Reads s (.value d))
    (ih : Complete s (.value d)) (hw₁ : Whitespace w₁) (hc : c = ch ',' ∨ c = ch ']')
    (hfuel : 3 * s.length ≤ fuel) (hdepth : depth + 1 + d.height ≤ kMaxParseDepth)
    (hrest : Takes (if c = ch ',' then parseItems fuel depth (items ++ [d.meaning])
      else return .array (items ++ [d.meaning])) rest r rest') :
    Takes (parseItems (fuel + 1) depth items) (w ++ (s ++ (w₁ ++ c :: rest))) r rest' := by
  have hc' := closing_cases (.inl rfl) hc
  obtain ⟨b, t, hbt, hspace, -⟩ := value_head hd
  rw [parseItems]
  apply takes_bind (takes_skipWhitespace hw (by rw [hbt]; exact stops_cons _ hspace))
  apply takes_bind (ih (w₁ ++ c :: rest) (depth + 1) fuel
    (delimits_after hw₁ (delimits_before c rest hc')) hfuel hdepth)
  exact takes_separator hw₁ (.inl rfl) hc hrest

theorem takes_member {w n s w₁ rest rest' key : Bytes} {d : Doc} {c : Byte} {fuel depth : Nat}
    {object : List (Bytes × Value)} {r : Value} (hw : Whitespace w) (hn : IsName n key)
    (hd : Reads s (.value d)) (ih : Complete s (.value d)) (hw₁ : Whitespace w₁)
    (hc : c = ch ',' ∨ c = ch '}') (hfuel : 3 * s.length ≤ fuel)
    (hdepth : depth + 1 + d.height ≤ kMaxParseDepth)
    (hrest : Takes (if c = ch ',' then
        parseMembers fuel depth (.object (setMember key d.meaning object))
      else return .object (setMember key d.meaning object)) rest r rest') :
    Takes (parseMembers (fuel + 1) depth (.object object))
      (w ++ (n ++ (s ++ (w₁ ++ c :: rest)))) r rest' := by
  have hc' := closing_cases (.inr rfl) hc
  obtain ⟨k, w₂, w₃, hk, hw₂, hw₃, rfl⟩ := hn
  obtain ⟨b, t, hbt, hspace, -⟩ := value_head hd
  obtain ⟨u, hu⟩ : ∃ u, k = ch '"' :: u := by
    obtain ⟨body, -, rfl⟩ := hk
    exact ⟨_, rfl⟩
  rw [parseMembers]
  simp only [List.append_assoc, List.cons_append]
  apply takes_bind (takes_skipWhitespace hw (by rw [hu]; exact stops_cons _ (by decide)))
  apply takes_bind (takes_nextIs _ _)
  rw [if_pos (by rw [hu]; simp)]
  apply takes_bind (takes_parseString hk _)
  apply takes_bind (takes_skipWhitespace hw₂ (stops_cons _ (by decide)))
  apply takes_bind (takes_nextIs _ _)
  apply takes_bind (takes_advance_one _ _)
  apply takes_bind (takes_skipWhitespace hw₃ (by rw [hbt]; exact stops_cons _ hspace))
  apply takes_bind (ih (w₁ ++ c :: rest) (depth + 1) fuel
    (delimits_after hw₁ (delimits_before c rest hc')) hfuel hdepth)
  exact takes_separator hw₁ (.inr rfl) hc hrest

theorem complete {s : Bytes} {p : Part} (h : Reads s p) : Complete s p := by
  have hsucc : ∀ {fuel n : Nat}, n + 1 ≤ fuel → ∃ m, fuel = m + 1 ∧ n ≤ m := by
    intro fuel n hfuel
    exact ⟨fuel - 1, by omega, by omega⟩
  induction h with
  | null =>
    intro rest depth fuel _ hfuel hdepth
    obtain ⟨fuel, rfl, -⟩ := hsucc hfuel
    exact takes_parseValue (by omega) (takes_literal (ascii "null") rest .null)
  | true =>
    intro rest depth fuel _ hfuel hdepth
    obtain ⟨fuel, rfl, -⟩ := hsucc hfuel
    exact takes_parseValue (by omega) (takes_literal (ascii "true") rest (.boolean true))
  | false =>
    intro rest depth fuel _ hfuel hdepth
    obtain ⟨fuel, rfl, -⟩ := hsucc hfuel
    exact takes_parseValue (by omega) (takes_literal (ascii "false") rest (.boolean false))
  | number hn => exact complete_number hn
  | string hs => exact complete_string hs
  | @emptyArray w hw =>
    intro rest depth fuel _ hfuel hdepth
    simp only [List.cons_append, List.append_assoc, List.nil_append, List.length_cons,
      List.length_append] at hfuel ⊢
    obtain ⟨fuel, rfl⟩ : ∃ m, fuel = m + 2 := ⟨fuel - 2, by omega⟩
    exact takes_parseValue (by omega) (takes_parseArray_empty hw rest fuel depth)
  | @array w s ds hw hs ih =>
    intro rest depth fuel _ hfuel hdepth
    simp only [List.cons_append, List.append_assoc, List.nil_append, List.length_cons,
      List.length_append] at hfuel ⊢
    obtain ⟨fuel, rfl⟩ : ∃ m, fuel = m + 2 := ⟨fuel - 2, by omega⟩
    rw [Doc.height] at hdepth
    exact takes_parseValue (by omega) (takes_parseArray hw hs ih (by omega) hdepth)
  | @emptyObject w hw =>
    intro rest depth fuel _ hfuel hdepth
    simp only [List.cons_append, List.append_assoc, List.nil_append, List.length_cons,
      List.length_append] at hfuel ⊢
    obtain ⟨fuel, rfl⟩ : ∃ m, fuel = m + 2 := ⟨fuel - 2, by omega⟩
    exact takes_parseValue (by omega) (takes_parseObject_empty hw rest fuel depth)
  | @object w s ms hw hs ih =>
    intro rest depth fuel _ hfuel hdepth
    simp only [List.cons_append, List.append_assoc, List.nil_append, List.length_cons,
      List.length_append] at hfuel ⊢
    obtain ⟨fuel, rfl⟩ : ∃ m, fuel = m + 2 := ⟨fuel - 2, by omega⟩
    rw [Doc.height] at hdepth
    exact takes_parseValue (by omega) (takes_parseObject hw hs ih (by omega) hdepth)
  | @item s w₁ d hd hw₁ ih =>
    intro w rest depth fuel items hw hfuel hdepth
    obtain ⟨fuel, rfl, hfuel⟩ := hsucc hfuel
    simp only [itemsDepth, List.length_append, List.append_assoc] at hfuel hdepth ⊢
    apply takes_item hw hd ih hw₁ (Or.inr rfl) (by omega) (by omega)
    exact takes_pure _ rest
  | @items s w₁ w₂ t d ds hd hw₁ hw₂ hds ihd ihds =>
    intro w rest depth fuel items hw hfuel hdepth
    obtain ⟨fuel, rfl, hfuel⟩ := hsucc hfuel
    simp only [itemsDepth, List.length_append, List.length_cons, List.append_assoc,
      List.cons_append] at hfuel hdepth ⊢
    apply takes_item hw hd ihd hw₁ (Or.inl rfl) (by omega) (by omega)
    have := ihds w₂ rest depth fuel (items ++ [d.meaning]) hw₂ (by omega) (by omega)
    simpa [itemsMeaning] using this
  | @member n s w₁ key d hn hd hw₁ ih =>
    intro w rest depth fuel object hw hfuel hdepth
    obtain ⟨fuel, rfl, hfuel⟩ := hsucc hfuel
    simp only [membersDepth, List.length_append, List.append_assoc] at hfuel hdepth ⊢
    apply takes_member hw hn hd ih hw₁ (Or.inr rfl) (by omega) (by omega)
    exact takes_pure _ rest
  | @members n s w₁ w₂ t key d ms hn hd hw₁ hw₂ hms ihd ihms =>
    intro w rest depth fuel object hw hfuel hdepth
    obtain ⟨fuel, rfl, hfuel⟩ := hsucc hfuel
    simp only [membersDepth, List.length_append, List.length_cons, List.append_assoc,
      List.cons_append] at hfuel hdepth ⊢
    apply takes_member hw hn hd ihd hw₁ (Or.inl rfl) (by omega) (by omega)
    exact ihms w₂ rest depth fuel (setMember key d.meaning object) hw₂ (by omega) (by omega)

end Parser

open OakBarrels.Json.Parser

/-! ## The document -/

theorem parse_sound {t : Bytes} {v : Value} (h : parse t = some v) :
    ∃ d, IsText t d ∧ d.height ≤ kMaxParseDepth ∧ d.meaning = v := by
  have hdoc : Ensures parseDocument t fun v s' =>
      ∃ d, IsText t d ∧ d.height ≤ kMaxParseDepth ∧ d.meaning = v := by
    apply ensures_bind
    apply (ensures_skipWhitespace t).mono
    rintro _ s₁ ⟨w₁, hw₁, rfl⟩
    apply ensures_bind
    apply ensures_remaining
    apply ensures_bind
    apply ((sound (3 * s₁.length + 1)).value 0 s₁).mono
    rintro v s₂ ⟨s, d, hd, rfl, rfl, hheight⟩
    apply ensures_bind
    apply (ensures_skipWhitespace s₂).mono
    rintro _ s₃ ⟨w₂, hw₂, rfl⟩
    apply ensures_bind
    apply ensures_atEnd
    cases s₃ with
    | nil =>
      exact ensures_pure ⟨d, ⟨w₁, s, w₂, hw₁, hd, hw₂, by simp⟩, by omega, rfl⟩
    | cons b t => exact ensures_refuse
  unfold parse at h
  split at h
  · rename_i v' pos hrun
    obtain rfl := Option.some.inj h
    obtain ⟨-, -, hd⟩ := hdoc t 0 (at_zero t) v' pos hrun
    exact hd
  · simp at h

theorem parse_complete {t : Bytes} {d : Doc} (h : IsText t d)
    (hheight : d.height ≤ kMaxParseDepth) : parse t = some d.meaning := by
  obtain ⟨w₁, s, w₂, hw₁, hd, hw₂, rfl⟩ := h
  obtain ⟨b, u, hbu, hspace, -⟩ := value_head hd
  have hend : Takes skipWhitespace w₂ () [] := by
    simpa using takes_skipWhitespace hw₂ (stops_nil isJsonWhitespace)
  have hdoc : Takes parseDocument (w₁ ++ (s ++ w₂)) d.meaning [] := by
    apply takes_bind (takes_skipWhitespace hw₁ (by rw [hbu]; exact stops_cons _ hspace))
    apply takes_bind (takes_remaining _)
    have hrest : Delimits w₂ := by
      simpa using delimits_after hw₂ (stops_nil _)
    apply takes_bind (complete hd w₂ 0 _ hrest (by simp; omega) (by omega))
    apply takes_bind hend
    apply takes_bind (takes_atEnd _)
    exact takes_pure _ _
  obtain ⟨pos, hrun, -⟩ := hdoc _ 0 (at_zero _)
  rw [parse, List.append_assoc, hrun]

/-- **The grammar of `parse`.** A text is accepted if and only if it is a JSON text nested at most
64 deep, and its value is what the text means. -/
theorem parse_iff (t : Bytes) (v : Value) :
    parse t = some v ↔ ∃ d, IsText t d ∧ d.height ≤ 64 ∧ d.meaning = v := by
  constructor
  · exact parse_sound
  · rintro ⟨d, hd, hheight, rfl⟩
    exact parse_complete hd hheight

end OakBarrels.Json
