import OakBarrels.Json.LoggedParser

/-!
# What the parser looks at

Whatever the text is, the parser ends, looks at bytes of the text only, never goes back or past its
end, and nests its calls no deeper than the limit allows.
-/

open Octets Binary64 Decimal Conversion Logged

namespace OakBarrels.Json.LoggedParser

/-! ## Tokens -/

section

variable {text : Bytes} {bound level pos : Nat}

theorem safe_skipWhitespace {Q : Unit → Nat → Prop} (h : ∀ pos', pos ≤ pos' → Q () pos') :
    Safe text bound level pos skipWhitespace Q := safe_skipWhile _ h

theorem safe_consumeLiteral (literal : Bytes) {Q : Bool → Nat → Prop}
    (h : ∀ found pos', pos ≤ pos' → Q found pos') :
    Safe text bound level pos (consumeLiteral literal) Q := by
  unfold consumeLiteral
  apply safe_bind
  apply safe_remaining
  intro hinside
  apply safe_ite
  · exact fun _ => safe_pure (h _ _ le_rfl)
  intro hlong
  apply safe_bind
  apply safe_substr
  intro s
  apply safe_ite
  · exact fun _ => safe_pure (h _ _ le_rfl)
  intro _
  apply safe_bind
  exact safe_advance (by omega) (safe_pure (h _ _ (Nat.le_add_right _ _)))

theorem safe_parseHexDigits {n : Nat} {value : UInt32} {Q : UInt32 → Nat → Prop}
    (hn : pos + n ≤ text.length) (h : ∀ v pos', pos ≤ pos' → Q v pos') :
    Safe text bound level pos (parseHexDigits n value) Q := by
  induction n generalizing pos value with
  | zero =>
    unfold parseHexDigits
    exact safe_pure (h _ _ le_rfl)
  | succ n ih =>
    unfold parseHexDigits
    apply safe_bind
    apply safe_byteAt (by omega)
    intro c
    apply safe_bind
    apply safe_advance (by omega)
    cases Parser.hexDigit c with
    | none => exact safe_refuse
    | some d => exact ih (by omega) fun v pos' hle => h v pos' (by omega)

theorem safe_parseHex4 {Q : UInt32 → Nat → Prop} (h : ∀ v pos', pos ≤ pos' → Q v pos') :
    Safe text bound level pos parseHex4 Q := by
  unfold parseHex4
  apply safe_bind
  apply safe_remaining
  intro hinside
  apply safe_ite (fun _ => safe_refuse)
  intro hfour
  exact safe_parseHexDigits (by omega) h

theorem safe_parseUnicodeEscape {Q : Bytes → Nat → Prop}
    (h : ∀ v pos', pos ≤ pos' → Q v pos') :
    Safe text bound level pos parseUnicodeEscape Q := by
  unfold parseUnicodeEscape
  apply safe_bind
  apply safe_parseHex4
  intro codePoint pos₁ h₁
  apply safe_ite
  · -- A high surrogate, and two bytes of its partner looked at ahead.
    intro _
    apply safe_bind
    apply safe_remaining
    intro hinside
    apply safe_ite (fun _ => safe_refuse)
    intro htwo
    apply safe_bind
    apply safe_byteAt (by omega)
    intro backslash
    apply safe_ite (fun _ => safe_refuse)
    intro _
    apply safe_bind
    apply safe_byteAt (by omega)
    intro u
    apply safe_ite (fun _ => safe_refuse)
    intro _
    apply safe_bind
    apply safe_advance (by omega)
    apply safe_bind
    apply safe_parseHex4
    intro second pos₂ h₂
    exact safe_ite (fun _ => safe_refuse) fun _ => safe_pure (h _ _ (by omega))
  · intro _
    exact safe_ite (fun _ => safe_refuse) fun _ => safe_pure (h _ _ h₁)

theorem safe_parseEscape {Q : Bytes → Nat → Prop} (h : ∀ v pos', pos ≤ pos' → Q v pos') :
    Safe text bound level pos parseEscape Q := by
  unfold parseEscape
  apply safe_bind
  apply safe_atEnd
  · exact fun _ => safe_refuse
  intro hmore
  apply safe_bind
  apply safe_byteAt hmore
  intro escape
  apply safe_bind
  apply safe_advance hmore
  apply safe_ite
  · exact fun _ => safe_parseUnicodeEscape fun v pos' hle => h v pos' (by omega)
  intro _
  cases Parser.simpleEscape escape with
  | none => exact safe_refuse
  | some b => exact safe_pure (h _ _ (by omega))

theorem safe_parseStringRest {fuel : Nat} {out : Bytes} {Q : Bytes → Nat → Prop}
    (hfuel : text.length - pos < fuel) (h : ∀ v pos', pos ≤ pos' → Q v pos') :
    Safe text bound level pos (parseStringRest fuel out) Q := by
  induction fuel generalizing pos out with
  | zero => omega
  | succ fuel ih =>
    unfold parseStringRest
    apply safe_bind
    apply safe_atEnd
    · exact fun _ => safe_refuse
    intro hmore
    apply safe_bind
    apply safe_byteAt hmore
    intro c
    apply safe_ite
    · intro _
      apply safe_bind
      exact safe_advance hmore (safe_pure (h _ _ (by omega)))
    intro _
    apply safe_ite
    · intro _
      apply safe_bind
      apply safe_advance hmore
      apply safe_bind
      apply safe_parseEscape
      intro decoded pos' hle
      exact ih (by omega) fun v pos'' hle' => h v pos'' (by omega)
    · intro _
      apply safe_ite (fun _ => safe_refuse)
      intro _
      apply safe_bind
      apply safe_advance hmore
      exact ih (by omega) fun v pos' hle => h v pos' (by omega)

/-- The caller has seen the opening quote. -/
theorem safe_parseString {Q : Bytes → Nat → Prop} (hquote : pos < text.length)
    (h : ∀ v pos', pos ≤ pos' → Q v pos') : Safe text bound level pos parseString Q := by
  unfold parseString
  apply safe_bind
  apply safe_advance hquote
  apply safe_bind
  apply safe_remaining
  intro _
  exact safe_parseStringRest (Nat.lt_succ_self _) fun v pos' hle => h v pos' (by omega)

theorem safe_parseDigits {Q : Unit → Nat → Prop} (h : ∀ pos', pos ≤ pos' → Q () pos') :
    Safe text bound level pos parseDigits Q := by
  unfold parseDigits
  apply safe_ifNext
  · exact fun _ => safe_skipWhile _ h
  · exact safe_refuse

theorem safe_parseWhole {Q : Unit → Nat → Prop} (h : ∀ pos', pos ≤ pos' → Q () pos') :
    Safe text bound level pos parseWhole Q := by
  unfold parseWhole
  apply safe_bind
  apply safe_skipIf
  intro pos₁ h₁
  apply safe_branch
  · intro hmore
    exact safe_advance hmore (h _ (by omega))
  · intro _
    exact safe_skipWhile _ fun pos' hle => h pos' (by omega)

theorem safe_parseFraction {Q : Unit → Nat → Prop} (h : ∀ pos', pos ≤ pos' → Q () pos') :
    Safe text bound level pos parseFraction Q := by
  unfold parseFraction
  apply safe_ifNext
  · intro hmore
    apply safe_bind
    apply safe_advance hmore
    exact safe_parseDigits fun pos' hle => h pos' (by omega)
  · exact safe_pure (h pos le_rfl)

theorem safe_parseExponent {Q : Unit → Nat → Prop} (h : ∀ pos', pos ≤ pos' → Q () pos') :
    Safe text bound level pos parseExponent Q := by
  unfold parseExponent
  apply safe_ifNext
  · intro hmore
    apply safe_bind
    apply safe_advance hmore
    apply safe_bind
    apply safe_skipIf
    intro pos₁ h₁
    exact safe_parseDigits fun pos' hle => h pos' (by omega)
  · exact safe_pure (h pos le_rfl)

theorem safe_parseNumber {Q : Value → Nat → Prop} (h : ∀ v pos', pos ≤ pos' → Q v pos') :
    Safe text bound level pos parseNumber Q := by
  unfold parseNumber
  apply safe_bind
  apply safe_tokenOf
  apply safe_bind
  apply safe_parseWhole
  intro pos₁ h₁
  apply safe_bind
  apply safe_parseFraction
  intro pos₂ h₂
  apply safe_parseExponent
  intro pos₃ h₃ token
  exact safe_ite (fun _ => safe_refuse) fun _ => safe_pure (h _ _ (by omega))

theorem safe_literal (literal : Bytes) (v : Value) {Q : Value → Nat → Prop}
    (h : ∀ v pos', pos ≤ pos' → Q v pos') :
    Safe text bound level pos (do if ← consumeLiteral literal then return v else refuse) Q := by
  apply safe_bind
  apply safe_consumeLiteral
  intro found pos' hle
  exact safe_ite (fun _ => safe_pure (h _ _ hle)) fun _ => safe_refuse

end

/-! ## Values -/

/-- With enough to count down from, three for each byte that is left, the five functions are safe.
One call more than `depth` is active inside `parseObject` and `parseArray`. -/
structure SafeAt (text : Bytes) (fuel : Nat) : Prop where
  value : ∀ {depth pos Q}, depth ≤ kMaxParseDepth + 1 → 3 * (text.length - pos) + 1 ≤ fuel →
    (∀ v pos', pos ≤ pos' → Q v pos') →
      Safe text (kMaxParseDepth + 2) depth pos (parseValue fuel depth) Q
  object : ∀ {depth pos Q}, depth ≤ kMaxParseDepth → pos < text.length →
    3 * (text.length - pos) ≤ fuel → (∀ v pos', pos ≤ pos' → Q v pos') →
      Safe text (kMaxParseDepth + 2) (depth + 1) pos (parseObject fuel depth) Q
  members : ∀ {depth pos object Q}, depth ≤ kMaxParseDepth →
    3 * (text.length - pos) + 2 ≤ fuel → (∀ v pos', pos ≤ pos' → Q v pos') →
      Safe text (kMaxParseDepth + 2) (depth + 1) pos (parseMembers fuel depth object) Q
  array : ∀ {depth pos Q}, depth ≤ kMaxParseDepth → pos < text.length →
    3 * (text.length - pos) ≤ fuel → (∀ v pos', pos ≤ pos' → Q v pos') →
      Safe text (kMaxParseDepth + 2) (depth + 1) pos (parseArray fuel depth) Q
  items : ∀ {depth pos items Q}, depth ≤ kMaxParseDepth →
    3 * (text.length - pos) + 2 ≤ fuel → (∀ v pos', pos ≤ pos' → Q v pos') →
      Safe text (kMaxParseDepth + 2) (depth + 1) pos (parseItems fuel depth items) Q

section

variable {text : Bytes} {bound level fuel depth pos : Nat} {Q : Value → Nat → Prop}

/-- After the bracket: the other one, or what stands between them. -/
theorem safe_opening {x : Program Value} {v : Value} (close : Byte → Bool)
    (hmore : pos < text.length) (h : ∀ v pos', pos ≤ pos' → Q v pos')
    (hx : ∀ pos', pos < pos' → Safe text bound level pos' x Q) :
    Safe text bound level pos (do
      advance 1
      skipWhitespace
      if ← nextIs close then
        advance 1
        return v
      else x) Q := by
  apply safe_bind
  apply safe_advance hmore
  apply safe_bind
  apply safe_skipWhitespace
  intro pos₁ h₁
  apply safe_ifNext
  · intro hclose
    apply safe_bind
    exact safe_advance hclose (safe_pure (h _ _ (by omega)))
  · exact hx pos₁ (by omega)

/-- After a value: a comma and what follows it, or the closing bracket. -/
theorem safe_separator {x : Program Value} {v : Value} (close : Byte → Bool)
    (h : ∀ v pos', pos ≤ pos' → Q v pos')
    (hx : ∀ pos', pos < pos' → pos' ≤ text.length → Safe text bound level pos' x Q) :
    Safe text bound level pos (do
      skipWhitespace
      branch
        (· = ch ',') (do
          advance 1
          x)
        close (do
          advance 1
          return v)) Q := by
  apply safe_bind
  apply safe_skipWhitespace
  intro pos₁ h₁
  apply safe_branch
  · intro hcomma
    apply safe_bind
    exact safe_advance hcomma (hx _ (by omega) (by omega))
  · intro hclose
    apply safe_bind
    exact safe_advance hclose (safe_pure (h _ _ (by omega)))

theorem safe_parseValue (ih : SafeAt text fuel) (hdepth : depth ≤ kMaxParseDepth + 1)
    (hfuel : 3 * (text.length - pos) + 1 ≤ fuel + 1) (h : ∀ v pos', pos ≤ pos' → Q v pos') :
    Safe text (kMaxParseDepth + 2) depth pos (parseValue (fuel + 1) depth) Q := by
  unfold parseValue
  apply safe_call (by omega)
  apply safe_ite (fun _ => safe_refuse)
  intro hlimit
  apply safe_bind
  apply safe_atEnd
  · exact fun _ => safe_refuse
  intro hmore
  apply safe_bind
  apply safe_byteAt hmore
  intro c
  apply safe_ite (fun _ => ih.object (by omega) hmore (by omega) h)
  intro _
  apply safe_ite (fun _ => ih.array (by omega) hmore (by omega) h)
  intro _
  apply safe_ite
  · intro _
    apply safe_bind
    apply safe_parseString hmore
    intro s pos' hle
    exact safe_pure (h _ _ hle)
  intro _
  apply safe_ite (fun _ => safe_literal _ _ h)
  intro _
  apply safe_ite (fun _ => safe_literal _ _ h)
  intro _
  exact safe_ite (fun _ => safe_literal _ _ h) fun _ => safe_parseNumber h

theorem safe_parseObject (ih : SafeAt text fuel) (hdepth : depth ≤ kMaxParseDepth)
    (hmore : pos < text.length) (hfuel : 3 * (text.length - pos) ≤ fuel + 1)
    (h : ∀ v pos', pos ≤ pos' → Q v pos') :
    Safe text (kMaxParseDepth + 2) (depth + 1) pos (parseObject (fuel + 1) depth) Q := by
  unfold parseObject
  apply safe_opening _ hmore h
  intro pos₁ h₁
  exact ih.members hdepth (by omega) fun v pos' hle => h v pos' (by omega)

theorem safe_parseMembers {object : Value} (ih : SafeAt text fuel)
    (hdepth : depth ≤ kMaxParseDepth) (hfuel : 3 * (text.length - pos) + 2 ≤ fuel + 1)
    (h : ∀ v pos', pos ≤ pos' → Q v pos') :
    Safe text (kMaxParseDepth + 2) (depth + 1) pos (parseMembers (fuel + 1) depth object) Q := by
  unfold parseMembers
  apply safe_bind
  apply safe_skipWhitespace
  intro pos₁ h₁
  refine safe_ifNext _ (fun hquote => ?_) safe_refuse
  apply safe_bind
  apply safe_parseString hquote
  intro key pos₂ h₂
  apply safe_bind
  apply safe_skipWhitespace
  intro pos₃ h₃
  refine safe_ifNext _ (fun hcolon => ?_) safe_refuse
  apply safe_bind
  apply safe_advance hcolon
  apply safe_bind
  apply safe_skipWhitespace
  intro pos₄ h₄
  apply safe_bind
  apply ih.value (by omega) (by omega)
  intro value pos₅ h₅
  apply safe_separator
  · exact fun v pos' hle => h v pos' (by omega)
  · intro pos₆ h₆ hinside
    exact ih.members hdepth (by omega) fun v pos' hle => h v pos' (by omega)

theorem safe_parseArray (ih : SafeAt text fuel) (hdepth : depth ≤ kMaxParseDepth)
    (hmore : pos < text.length) (hfuel : 3 * (text.length - pos) ≤ fuel + 1)
    (h : ∀ v pos', pos ≤ pos' → Q v pos') :
    Safe text (kMaxParseDepth + 2) (depth + 1) pos (parseArray (fuel + 1) depth) Q := by
  unfold parseArray
  apply safe_opening _ hmore h
  intro pos₁ h₁
  exact ih.items hdepth (by omega) fun v pos' hle => h v pos' (by omega)

theorem safe_parseItems {items : List Value} (ih : SafeAt text fuel)
    (hdepth : depth ≤ kMaxParseDepth) (hfuel : 3 * (text.length - pos) + 2 ≤ fuel + 1)
    (h : ∀ v pos', pos ≤ pos' → Q v pos') :
    Safe text (kMaxParseDepth + 2) (depth + 1) pos (parseItems (fuel + 1) depth items) Q := by
  unfold parseItems
  apply safe_bind
  apply safe_skipWhitespace
  intro pos₁ h₁
  apply safe_bind
  apply ih.value (by omega) (by omega)
  intro value pos₂ h₂
  apply safe_separator
  · exact fun v pos' hle => h v pos' (by omega)
  · intro pos₃ h₃ hinside
    exact ih.items hdepth (by omega) fun v pos' hle => h v pos' (by omega)

end

theorem safeAt (text : Bytes) (fuel : Nat) : SafeAt text fuel := by
  induction fuel with
  | zero =>
    refine ⟨?_, ?_, ?_, ?_, ?_⟩
    · intro _ _ _ _ hfuel
      omega
    · intro _ _ _ _ hmore hfuel
      omega
    · intro _ _ _ _ _ hfuel
      omega
    · intro _ _ _ _ hmore hfuel
      omega
    · intro _ _ _ _ _ hfuel
      omega
  | succ fuel ih =>
    exact ⟨safe_parseValue ih, safe_parseObject ih, safe_parseMembers ih, safe_parseArray ih,
      safe_parseItems ih⟩

theorem safe_parseDocument (text : Bytes) :
    Safe text (kMaxParseDepth + 2) 0 0 parseDocument fun _ _ => True := by
  unfold parseDocument
  apply safe_bind
  apply safe_skipWhitespace
  intro pos₁ _
  apply safe_bind
  apply safe_remaining
  intro _
  apply safe_bind
  apply (safeAt text _).value (Nat.zero_le _) le_rfl
  intro value pos₂ _
  apply safe_bind
  apply safe_skipWhitespace
  intro pos₃ _
  apply safe_bind
  apply safe_atEnd
  · exact fun _ => safe_pure trivial
  · exact fun _ => safe_refuse

/-- **Parser safety.** For every text the parser ends, with a value or refusing; it has looked
inside the text only, its position has never gone back or past the end, and at most 66 calls of
`parseValue` were active at once. -/
theorem parser_safe (text : Bytes) :
    let (result, log) := parseDocument text Log.start
    (result = .refused ∧ parse text = none ∨ ∃ v, result = .done v ∧ parse text = some v) ∧
    (∀ i ∈ log.accesses, i < text.length) ∧
    log.positions.Pairwise (· ≤ ·) ∧ (∀ pos ∈ log.positions, pos ≤ text.length) ∧
    ∀ level ∈ log.levels, level ≤ 66 := by
  obtain ⟨hinside, -, hresult⟩ :=
    safe_parseDocument text Log.start (Log.start_inside _ _) rfl rfl
  have hfollows := follows_parseDocument text Log.start
  rcases hrun : parseDocument text Log.start with ⟨result, log⟩
  rw [hrun] at hinside hresult hfollows
  refine ⟨?_, hinside.accesses, hinside.ordered, ?_, hinside.levels⟩
  · unfold parse
    change result.outcome log.pos = Parser.parseDocument text 0 at hfollows
    rw [← hfollows]
    rcases hresult with hrefused | ⟨v, hdone, -⟩
    · obtain rfl : result = .refused := hrefused
      exact .inl ⟨rfl, rfl⟩
    · obtain rfl : result = .done v := hdone
      exact .inr ⟨v, rfl, rfl⟩
  · intro pos hpos
    exact (hinside.below pos hpos).trans hinside.inside

end OakBarrels.Json.LoggedParser
