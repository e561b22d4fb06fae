import OakBarrels.Json.Grammar
import OakBarrels.Json.Parser

/-!
# The parser reads the tokens of the grammar

Whitespace, literals, strings and numbers: what each member function takes is a token of the
grammar with its meaning, and each token is taken.
-/

open Octets Binary64 Decimal Conversion Cursor

namespace OakBarrels.Json.Parser

/-! ## UTF-8 -/

theorem toNat_lor_high (high low k : Nat) (h : low < 2 ^ k) (hk : 2 ^ k ∣ high) :
    high ||| low = high + low := by
  obtain ⟨q, rfl⟩ := hk
  rw [Nat.two_pow_add_eq_or_of_lt h]

theorem appendUtf8_eq (c : Char) : appendUtf8 c.val = String.utf8EncodeChar c := by
  have hmax : c.val.toNat < 0x110000 := by
    have h : c.val.toNat < 0xd800 ∨ 0xdfff < c.val.toNat ∧ c.val.toNat < 0x110000 := c.valid
    omega
  unfold appendUtf8 String.utf8EncodeChar
  generalize c.val = v at *
  simp only [UInt32.le_iff_toNat_le]
  have e1 : (0x7f : UInt32).toNat = 0x7f := rfl
  have e2 : (0x7ff : UInt32).toNat = 0x7ff := rfl
  have e3 : (0xffff : UInt32).toNat = 0xffff := rfl
  rw [e1, e2, e3]
  have hlow : ∀ n : Nat, n &&& 63 = n % 64 := fun n => Nat.and_two_pow_sub_one_eq_mod n 6
  split_ifs with h1 h2 h3
  · simp
  · simp only [List.cons.injEq, and_true]
    refine ⟨?_, ?_⟩ <;> apply byte_ext <;> simp [Nat.shiftRight_eq_div_pow, hlow]
    · rw [toNat_lor_high 192 _ 6 (by omega) (by norm_num)]
      omega
    · rw [toNat_lor_high 128 _ 6 (by omega) (by norm_num)]
      omega
  · simp only [List.cons.injEq, and_true]
    refine ⟨?_, ?_, ?_⟩ <;> apply byte_ext <;> simp [Nat.shiftRight_eq_div_pow, hlow]
    · rw [toNat_lor_high 224 _ 5 (by omega) (by norm_num)]
      omega
    · rw [toNat_lor_high 128 _ 6 (by omega) (by norm_num)]
      omega
    · rw [toNat_lor_high 128 _ 6 (by omega) (by norm_num)]
      omega
  · simp only [List.cons.injEq, and_true]
    refine ⟨?_, ?_, ?_, ?_⟩ <;> apply byte_ext <;> simp [Nat.shiftRight_eq_div_pow, hlow]
    · rw [toNat_lor_high 240 _ 4 (by omega) (by norm_num)]
      omega
    · rw [toNat_lor_high 128 _ 6 (by omega) (by norm_num)]
      omega
    · rw [toNat_lor_high 128 _ 6 (by omega) (by norm_num)]
      omega
    · rw [toNat_lor_high 128 _ 6 (by omega) (by norm_num)]
      omega

/-! ## Hexadecimal digits -/

theorem hexDigit_lt {b : Byte} {n : Nat} (h : HexDigit b n) : n < 16 := by
  unfold HexDigit at h
  omega

theorem hexDigit_sound {b : Byte} {d : UInt32} (h : hexDigit b = some d) : HexDigit b d.toNat := by
  have hall : (hexDigit b).all fun d => HexDigit b d.toNat :=
    forall_byte (P := fun b => (hexDigit b).all fun d => HexDigit b d.toNat)
      (by decide +kernel) b
  simpa [h] using hall

theorem hexDigit_complete (b : Byte) :
    ∀ n < 16, HexDigit b n → hexDigit b = some (UInt32.ofNat n) :=
  forall_byte (P := fun b => ∀ n < 16, HexDigit b n → hexDigit b = some (UInt32.ofNat n))
    (by decide +kernel) b

theorem shift_or_toNat (value d : UInt32) (hd : d.toNat < 16) (hv : value.toNat < 2 ^ 28) :
    (value <<< 4 ||| d).toNat = value.toNat * 16 + d.toNat := by
  have e4 : (4 : UInt32).toNat % 32 = 4 := rfl
  rw [UInt32.toNat_or, UInt32.toNat_shiftLeft, e4, Nat.shiftLeft_eq,
    Nat.mod_eq_of_lt (by omega), toNat_lor_high _ _ 4 (by omega) ⟨value.toNat, by ring⟩]

theorem ensures_parseHexDigits_succ {n : Nat} {value : UInt32} {s : Bytes}
    {Q : UInt32 → Bytes → Prop}
    (h : ∀ b d t, s = b :: t → HexDigit b d.toNat →
      Ensures (parseHexDigits n (value <<< 4 ||| d)) t Q) :
    Ensures (parseHexDigits (n + 1) value) s Q := by
  unfold parseHexDigits
  apply ensures_bind
  apply ensures_byteAt
  intro b hb
  obtain ⟨t, rfl⟩ : ∃ t, s = b :: t := by
    cases s with
    | nil => simp at hb
    | cons b' t => exact ⟨t, by simpa using hb⟩
  apply ensures_bind
  apply ensures_advance_one
  cases hd : hexDigit b with
  | none => exact ensures_refuse
  | some d => exact h b d t rfl (hexDigit_sound hd)

theorem takes_parseHexDigits_succ {n k : Nat} {value r : UInt32} {b : Byte} {t s : Bytes}
    (hb : HexDigit b k) (h : Takes (parseHexDigits n (value <<< 4 ||| UInt32.ofNat k)) t r s) :
    Takes (parseHexDigits (n + 1) value) (b :: t) r s := by
  unfold parseHexDigits
  apply takes_bind (takes_byteAt (b := b) rfl)
  apply takes_bind (takes_advance_one b t)
  rw [hexDigit_complete b k (hexDigit_lt hb) hb]
  exact h

theorem four_digits_toNat (d₁ d₂ d₃ d₄ : UInt32) (h₁ : d₁.toNat < 16) (h₂ : d₂.toNat < 16)
    (h₃ : d₃.toNat < 16) (h₄ : d₄.toNat < 16) :
    (((((0 : UInt32) <<< 4 ||| d₁) <<< 4 ||| d₂) <<< 4 ||| d₃) <<< 4 ||| d₄).toNat =
      d₁.toNat * 16 ^ 3 + d₂.toNat * 16 ^ 2 + d₃.toNat * 16 + d₄.toNat := by
  have e₁ := shift_or_toNat 0 d₁ h₁ (by decide)
  rw [show (0 : UInt32).toNat = 0 from rfl] at e₁
  have e₂ := shift_or_toNat _ d₂ h₂ (show ((0 : UInt32) <<< 4 ||| d₁).toNat < 2 ^ 28 by omega)
  have e₃ := shift_or_toNat _ d₃ h₃
    (show (((0 : UInt32) <<< 4 ||| d₁) <<< 4 ||| d₂).toNat < 2 ^ 28 by omega)
  rw [shift_or_toNat _ d₄ h₄ (by omega), e₃, e₂, e₁]
  ring

theorem ensures_parseHex4 (s : Bytes) :
    Ensures parseHex4 s fun v s' => ∃ h, Hex4 h v.toNat ∧ s = h ++ s' := by
  apply ensures_bind
  apply ensures_remaining
  split
  · exact ensures_refuse
  · apply ensures_parseHexDigits_succ
    rintro b₁ d₁ t₁ rfl h₁
    apply ensures_parseHexDigits_succ
    rintro b₂ d₂ t₂ rfl h₂
    apply ensures_parseHexDigits_succ
    rintro b₃ d₃ t₃ rfl h₃
    apply ensures_parseHexDigits_succ
    rintro b₄ d₄ t₄ rfl h₄
    apply ensures_pure
    exact ⟨[b₁, b₂, b₃, b₄], ⟨b₁, b₂, b₃, b₄, _, _, _, _, rfl, h₁, h₂, h₃, h₄,
      four_digits_toNat d₁ d₂ d₃ d₄ (hexDigit_lt h₁) (hexDigit_lt h₂)
        (hexDigit_lt h₃) (hexDigit_lt h₄)⟩, rfl⟩

theorem takes_parseHex4 {h s : Bytes} {n : Nat} (hh : Hex4 h n) :
    Takes parseHex4 (h ++ s) (UInt32.ofNat n) s ∧ n < 2 ^ 16 := by
  obtain ⟨b₁, b₂, b₃, b₄, n₁, n₂, n₃, n₄, rfl, h₁, h₂, h₃, h₄, rfl⟩ := hh
  have l₁ := hexDigit_lt h₁
  have l₂ := hexDigit_lt h₂
  have l₃ := hexDigit_lt h₃
  have l₄ := hexDigit_lt h₄
  have hsmall : ∀ k < 16, (UInt32.ofNat k).toNat = k := by
    intro k hk
    rw [UInt32.toNat_ofNat']
    omega
  refine ⟨?_, by omega⟩
  apply takes_bind (takes_remaining _)
  rw [if_neg (by simp)]
  have hvalue : UInt32.ofNat (n₁ * 16 ^ 3 + n₂ * 16 ^ 2 + n₃ * 16 + n₄) =
      ((((0 : UInt32) <<< 4 ||| UInt32.ofNat n₁) <<< 4 ||| UInt32.ofNat n₂) <<< 4 |||
        UInt32.ofNat n₃) <<< 4 ||| UInt32.ofNat n₄ := by
    apply UInt32.toNat_inj.mp
    rw [four_digits_toNat _ _ _ _ (by rw [hsmall]; all_goals omega)
      (by rw [hsmall]; all_goals omega) (by rw [hsmall]; all_goals omega)
      (by rw [hsmall]; all_goals omega), hsmall _ l₁, hsmall _ l₂, hsmall _ l₃, hsmall _ l₄,
      UInt32.toNat_ofNat']
    omega
  rw [hvalue]
  apply takes_parseHexDigits_succ h₁
  apply takes_parseHexDigits_succ h₂
  apply takes_parseHexDigits_succ h₃
  apply takes_parseHexDigits_succ h₄
  exact takes_pure _ s

/-! ## Escapes -/

theorem simpleEscape_sound {c b : Byte} (h : simpleEscape c = some b) : Escape [c] [b] := by
  unfold simpleEscape at h
  split_ifs at h with h1 h2 h3 h4 h5 h6 h7 h8 <;> obtain rfl := Option.some.inj h
  · rw [h1]
    exact Escape.quote
  · rw [h2]
    exact Escape.backslash
  · rw [h3]
    exact Escape.slash
  · rw [h4]
    exact Escape.backspace
  · rw [h5]
    exact Escape.formFeed
  · rw [h6]
    exact Escape.lineFeed
  · rw [h7]
    exact Escape.carriageReturn
  · rw [h8]
    exact Escape.tab

/-- The code point of a surrogate pair, computed in 32 bits. -/
theorem surrogatePair_toNat (high low : UInt32) (h1 : 0xd800 ≤ high.toNat)
    (h2 : high.toNat ≤ 0xdbff) (h3 : 0xdc00 ≤ low.toNat) (h4 : low.toNat ≤ 0xdfff) :
    ((0x10000 : UInt32) + ((high - 0xd800) <<< 10) + (low - 0xdc00)).toNat =
      0x10000 + (high.toNat - 0xd800) * 0x400 + (low.toNat - 0xdc00) := by
  have e10 : (10 : UInt32).toNat % 32 = 10 := rfl
  have hhigh : (high - 0xd800).toNat = high.toNat - 0xd800 :=
    UInt32.toNat_sub_of_le _ _ (UInt32.le_iff_toNat_le.mpr h1)
  have hlow : (low - 0xdc00).toNat = low.toNat - 0xdc00 :=
    UInt32.toNat_sub_of_le _ _ (UInt32.le_iff_toNat_le.mpr h3)
  have e : (0x10000 : UInt32).toNat = 0x10000 := rfl
  rw [UInt32.toNat_add, UInt32.toNat_add, UInt32.toNat_shiftLeft, e10, Nat.shiftLeft_eq, hhigh,
    hlow, e]
  omega

theorem hex4_lt {h : Bytes} {n : Nat} (hh : Hex4 h n) : n < 0x10000 := by
  obtain ⟨b₁, b₂, b₃, b₄, n₁, n₂, n₃, n₄, rfl, h₁, h₂, h₃, h₄, rfl⟩ := hh
  have l₁ := hexDigit_lt h₁
  have l₂ := hexDigit_lt h₂
  have l₃ := hexDigit_lt h₃
  have l₄ := hexDigit_lt h₄
  omega

theorem appendUtf8_valid (codePoint : UInt32)
    (h : codePoint.toNat < 0xd800 ∨ 0xdfff < codePoint.toNat ∧ codePoint.toNat < 0x110000) :
    ∃ c : Char, c.toNat = codePoint.toNat ∧ appendUtf8 codePoint = String.utf8EncodeChar c :=
  ⟨⟨codePoint, h⟩, rfl, appendUtf8_eq ⟨codePoint, h⟩⟩

theorem ensures_parseUnicodeEscape (s : Bytes) :
    Ensures parseUnicodeEscape s fun v s' => ∃ e, Escape (0x75 :: e) v ∧ s = e ++ s' := by
  apply ensures_bind
  apply (ensures_parseHex4 s).mono
  rintro codePoint t ⟨h, hh, rfl⟩
  simp only [UInt32.le_iff_toNat_le]
  have hmax := hex4_lt hh
  split <;> rename_i hhigh
  · apply ensures_bind
    apply ensures_remaining
    split
    · exact ensures_refuse
    apply ensures_bind
    apply ensures_byteAt
    intro b₀ hb₀
    split
    · exact ensures_refuse
    rename_i h5c
    apply ensures_bind
    apply ensures_byteAt
    intro b₁ hb₁
    split
    · exact ensures_refuse
    rename_i h75
    rw [not_not] at h5c h75
    obtain ⟨t', rfl⟩ : ∃ t', t = [0x5c, 0x75] ++ t' := by
      rcases t with - | ⟨c₀, - | ⟨c₁, t'⟩⟩
      · simp at hb₀
      · simp at hb₁
      · refine ⟨t', ?_⟩
        simp only [List.getElem?_cons_zero, List.getElem?_cons_succ, Option.some.injEq] at hb₀ hb₁
        rw [hb₀, hb₁, h5c, h75]
        rfl
    apply ensures_bind
    apply ensures_advance (s := [0x5c, 0x75])
    apply ensures_bind
    apply (ensures_parseHex4 t').mono
    rintro second t'' ⟨l, hl, rfl⟩
    split <;> rename_i hlow
    · exact ensures_refuse
    simp only [UInt32.lt_iff_toNat_lt, not_or, not_lt] at hlow
    apply ensures_pure
    have hpair := surrogatePair_toNat codePoint second hhigh.1 hhigh.2 hlow.1 hlow.2
    obtain ⟨c, hc, hutf8⟩ := appendUtf8_valid _ (Or.inr (by
      rw [hpair]
      have h1 := hhigh.1
      have h2 := hhigh.2
      have h3 := hlow.1
      have h4 := hlow.2
      simp at h1 h2 h3 h4
      omega))
    rw [hutf8]
    exact ⟨h ++ 0x5c :: 0x75 :: l, Escape.surrogates c hh hhigh.1 hhigh.2 hl hlow.1 hlow.2
      (hc.trans hpair), by simp⟩
  · split <;> rename_i hlow
    · exact ensures_refuse
    apply ensures_pure
    obtain ⟨c, hc, hutf8⟩ := appendUtf8_valid codePoint (by
      simp at hhigh hlow
      omega)
    rw [hutf8]
    exact ⟨h, Escape.unicode c (hc ▸ hh), rfl⟩

theorem takes_parseUnicodeEscape {h s : Bytes} (c : Char) (hh : Hex4 h c.toNat) :
    Takes parseUnicodeEscape (h ++ s) (String.utf8EncodeChar c) s := by
  have hvalid : c.toNat < 0xd800 ∨ 0xdfff < c.toNat ∧ c.toNat < 0x110000 := c.valid
  have hval : UInt32.ofNat c.val.toNat = c.val := UInt32.ofNat_toNat
  have hnat : c.val.toNat = c.toNat := rfl
  apply takes_bind (takes_parseHex4 hh).1
  rw [← hnat, hval]
  simp only [UInt32.le_iff_toNat_le, hnat]
  rw [if_neg (by simp; omega), if_neg (by simp; omega), appendUtf8_eq]
  exact takes_pure _ s

theorem takes_parseUnicodeEscape_pair {h l s : Bytes} {high low : Nat} (c : Char)
    (hh : Hex4 h high) (hh1 : 0xd800 ≤ high) (hh2 : high ≤ 0xdbff) (hl : Hex4 l low)
    (hl1 : 0xdc00 ≤ low) (hl2 : low ≤ 0xdfff)
    (hc : c.toNat = 0x10000 + (high - 0xd800) * 0x400 + (low - 0xdc00)) :
    Takes parseUnicodeEscape (h ++ ([0x5c, 0x75] ++ (l ++ s))) (String.utf8EncodeChar c) s := by
  have hhigh : (UInt32.ofNat high).toNat = high := by
    rw [UInt32.toNat_ofNat']
    omega
  have hlow : (UInt32.ofNat low).toNat = low := by
    rw [UInt32.toNat_ofNat']
    omega
  apply takes_bind (takes_parseHex4 hh).1
  simp only [UInt32.le_iff_toNat_le, UInt32.lt_iff_toNat_lt, hhigh]
  rw [if_pos ⟨hh1, hh2⟩]
  apply takes_bind (takes_remaining _)
  rw [if_neg (by simp)]
  apply takes_bind (takes_byteAt (b := 0x5c) rfl)
  rw [if_neg (by decide)]
  apply takes_bind (takes_byteAt (b := 0x75) rfl)
  rw [if_neg (by decide)]
  apply takes_bind (takes_advance [0x5c, 0x75] (l ++ s))
  apply takes_bind (takes_parseHex4 hl).1
  rw [hlow, if_neg (by simp; omega)]
  have hpair := surrogatePair_toNat (UInt32.ofNat high) (UInt32.ofNat low) (by omega) (by omega)
    (by omega) (by omega)
  rw [hhigh, hlow, ← hc] at hpair
  have hval : (0x10000 : UInt32) + ((UInt32.ofNat high - 0xd800) <<< 10) +
      (UInt32.ofNat low - 0xdc00) = c.val := UInt32.toNat_inj.mp hpair
  rw [hval, appendUtf8_eq]
  exact takes_pure _ s

theorem ensures_parseEscape (s : Bytes) :
    Ensures parseEscape s fun v s' => ∃ e, Escape e v ∧ s = e ++ s' := by
  apply ensures_bind
  apply ensures_atEnd
  cases s with
  | nil => exact ensures_refuse
  | cons c t =>
    apply ensures_bind
    apply ensures_byteAt
    rintro c' hc'
    obtain rfl : c = c' := by simpa using hc'
    apply ensures_bind
    apply ensures_advance_one
    split <;> rename_i hu
    · apply (ensures_parseUnicodeEscape t).mono
      rintro v s' ⟨e, he, rfl⟩
      exact ⟨0x75 :: e, he, by rw [hu]; rfl⟩
    · cases hs : simpleEscape c with
      | none => exact ensures_refuse
      | some b => exact ensures_pure ⟨[c], simpleEscape_sound hs, rfl⟩

theorem takes_parseEscape {e v : Bytes} (s : Bytes) (he : Escape e v) :
    Takes parseEscape (e ++ s) v s := by
  cases he with
  | unicode c hh =>
    apply takes_bind (takes_atEnd _)
    apply takes_bind (takes_byteAt (b := 0x75) rfl)
    apply takes_bind (takes_advance_one _ _)
    exact takes_parseUnicodeEscape c hh
  | @surrogates h l high low c hh hh1 hh2 hl hl1 hl2 hc =>
    apply takes_bind (takes_atEnd _)
    apply takes_bind (takes_byteAt (b := 0x75) rfl)
    apply takes_bind (takes_advance_one _ _)
    rw [if_pos (show (0x75 : Byte) = ch 'u' from rfl)]
    have := takes_parseUnicodeEscape_pair (s := s) c hh hh1 hh2 hl hl1 hl2 hc
    simpa using this
  | _ =>
    apply takes_bind (takes_atEnd _)
    apply takes_bind (takes_byteAt rfl)
    apply takes_bind (takes_advance_one _ _)
    exact takes_pure _ s

/-! ## Strings -/

theorem ensures_parseStringRest (fuel : Nat) (out s : Bytes) :
    Ensures (parseStringRest fuel out) s fun v s' =>
      ∃ body w, Chars body w ∧ v = out ++ w ∧ s = body ++ 0x22 :: s' := by
  induction fuel generalizing out s with
  | zero => exact ensures_outOfFuel
  | succ fuel ih =>
    apply ensures_bind
    apply ensures_atEnd
    cases s with
    | nil => exact ensures_refuse
    | cons c t =>
      apply ensures_bind
      apply ensures_byteAt
      rintro c' hc'
      obtain rfl : c = c' := by simpa using hc'
      split
      · rename_i hquote
        apply ensures_bind
        apply ensures_advance_one
        exact ensures_pure ⟨[], [], Chars.nil, by simp, by rw [hquote]; rfl⟩
      split
      · rename_i hback
        apply ensures_bind
        apply ensures_advance_one
        apply ensures_bind
        apply (ensures_parseEscape t).mono
        rintro b t' ⟨e, he, rfl⟩
        apply (ih (out ++ b) t').mono
        rintro v s' ⟨body, w, hbody, rfl, rfl⟩
        exact ⟨0x5c :: e ++ body, b ++ w, Chars.escaped he hbody, by simp, by
          rw [hback]
          simp [ch]⟩
      split
      · exact ensures_refuse
      · rename_i hquote hback hcontrol
        apply ensures_bind
        apply ensures_advance_one
        apply (ih (out ++ [c]) t).mono
        rintro v s' ⟨body, w, hbody, rfl, rfl⟩
        rw [UInt8.lt_iff_toNat_lt, not_lt] at hcontrol
        exact ⟨c :: body, c :: w, Chars.unescaped hcontrol hquote hback hbody, by simp, rfl⟩

theorem takes_parseStringRest {body v : Bytes} (hbody : Chars body v) (out s : Bytes) (fuel : Nat)
    (hfuel : body.length < fuel) :
    Takes (parseStringRest fuel out) (body ++ 0x22 :: s) (out ++ v) s := by
  induction hbody generalizing out fuel with
  | nil =>
    obtain ⟨fuel, rfl⟩ := Nat.exists_eq_succ_of_ne_zero hfuel.ne'
    apply takes_bind (takes_atEnd _)
    apply takes_bind (takes_byteAt (b := 0x22) rfl)
    apply takes_bind (takes_advance_one _ _)
    simpa using takes_pure out s
  | @unescaped b body v hcontrol hquote hback _ ih =>
    obtain ⟨fuel, rfl⟩ := Nat.exists_eq_succ_of_ne_zero (show fuel ≠ 0 by omega)
    apply takes_bind (takes_atEnd _)
    apply takes_bind (takes_byteAt (b := b) rfl)
    have hctl : ¬ b < 0x20 := by
      rw [UInt8.lt_iff_toNat_lt, not_lt]
      exact hcontrol
    rw [if_neg (show b ≠ ch '"' from hquote), if_neg (show b ≠ ch '\\' from hback), if_neg hctl]
    apply takes_bind (takes_advance_one _ _)
    have := ih (out ++ [b]) fuel (by simpa using hfuel)
    simpa using this
  | @escaped e b body v he _ ih =>
    obtain ⟨fuel, rfl⟩ := Nat.exists_eq_succ_of_ne_zero (show fuel ≠ 0 by omega)
    apply takes_bind (takes_atEnd _)
    apply takes_bind (takes_byteAt (b := 0x5c) rfl)
    apply takes_bind (takes_advance_one _ _)
    change Takes _ (e ++ body ++ 0x22 :: s) _ _
    rw [List.append_assoc]
    apply takes_bind (takes_parseEscape _ he)
    have := ih (out ++ b) fuel (by simp at hfuel; omega)
    simpa using this

theorem ensures_parseString (c : Byte) (s : Bytes) :
    Ensures parseString (c :: s) fun v s' => ∃ body, Chars body v ∧ s = body ++ 0x22 :: s' := by
  apply ensures_bind
  apply ensures_advance_one
  apply ensures_bind
  apply ensures_remaining
  apply (ensures_parseStringRest _ _ _).mono
  rintro v s' ⟨body, w, hbody, rfl, rfl⟩
  exact ⟨body, hbody, rfl⟩

theorem takes_parseString {k v : Bytes} (hk : IsString k v) (s : Bytes) :
    Takes parseString (k ++ s) v s := by
  obtain ⟨body, hbody, rfl⟩ := hk
  rw [List.append_assoc]
  apply takes_bind (takes_advance_one _ _)
  apply takes_bind (takes_remaining _)
  have := takes_parseStringRest hbody [] s ((body ++ ([0x22] ++ s)).length + 1) (by simp)
  simpa using this

/-! ## Whitespace and literals -/

theorem isJsonWhitespace_iff (b : Byte) :
    isJsonWhitespace b = true ↔ b = 0x20 ∨ b = 0x09 ∨ b = 0x0a ∨ b = 0x0d := by
  have e1 : ch ' ' = 0x20 := rfl
  have e2 : ch '\t' = 0x09 := rfl
  have e3 : ch '\n' = 0x0a := rfl
  have e4 : ch '\r' = 0x0d := rfl
  simp [isJsonWhitespace, e1, e2, e3, e4, or_assoc]

theorem ensures_skipWhitespace (s : Bytes) :
    Ensures skipWhitespace s fun _ s' => ∃ w, Whitespace w ∧ s = w ++ s' := by
  apply (ensures_skipWhile_run isJsonWhitespace s).mono
  rintro _ s' ⟨w, rfl, hw, -⟩
  exact ⟨w, fun b hb => (isJsonWhitespace_iff b).mp (hw b hb), rfl⟩

theorem takes_skipWhitespace {w s : Bytes} (hw : Whitespace w) (hs : Stops isJsonWhitespace s) :
    Takes skipWhitespace (w ++ s) () s :=
  takes_skipWhile_run (fun b hb => (isJsonWhitespace_iff b).mpr (hw b hb)) hs

theorem ensures_consumeLiteral (literal s : Bytes) :
    Ensures (consumeLiteral literal) s fun found s' => found = true → s = literal ++ s' := by
  apply ensures_bind
  apply ensures_remaining
  split
  · exact ensures_pure (by simp)
  apply ensures_bind
  apply ensures_substr
  split
  · exact ensures_pure (by simp)
  rename_i h
  rw [not_not] at h
  obtain ⟨t, rfl⟩ : ∃ t, s = literal ++ t := ⟨s.drop literal.length, by
    conv => lhs; rw [← List.take_append_drop literal.length s, h]⟩
  apply ensures_bind
  apply ensures_advance
  exact ensures_pure fun _ => rfl

theorem takes_consumeLiteral (literal s : Bytes) :
    Takes (consumeLiteral literal) (literal ++ s) true s := by
  apply takes_bind (takes_remaining _)
  rw [if_neg (by simp)]
  apply takes_bind (takes_substr _ _)
  rw [if_neg (by simp)]
  apply takes_bind (takes_advance literal s)
  exact takes_pure true s

/-! ## Numbers -/

theorem ensures_parseDigits (s : Bytes) :
    Ensures parseDigits s fun _ s' =>
      ∃ ds, ds ≠ [] ∧ (∀ b ∈ ds, isDigit b = true) ∧ s = ds ++ s' := by
  apply ensures_bind
  apply ensures_nextIs
  split
  · rename_i hdigit
    apply (ensures_skipWhile_run isDigit s).mono
    rintro _ s' ⟨ds, rfl, hds, hstop⟩
    refine ⟨ds, ?_, hds, rfl⟩
    rintro rfl
    cases s' with
    | nil => simp at hdigit
    | cons b t => simp [hstop b t rfl] at hdigit
  · exact ensures_refuse

theorem takes_parseDigits {ds s : Bytes} (hne : ds ≠ []) (hds : ∀ b ∈ ds, isDigit b = true)
    (hs : Stops isDigit s) : Takes parseDigits (ds ++ s) () s := by
  apply takes_bind (takes_nextIs isDigit _)
  obtain ⟨b, t, rfl⟩ := List.exists_cons_of_ne_nil hne
  rw [if_pos (by simpa using hds b List.mem_cons_self)]
  exact takes_skipWhile_run hds hs

theorem nonzero_digit {b : Byte} (hdigit : isDigit b = true) (h0 : b ≠ ch '0') :
    49 ≤ b.toNat ∧ b.toNat ≤ 57 := by
  rw [isDigit_iff] at hdigit
  have : b.toNat ≠ 48 := fun h => h0 (byte_ext h)
  omega

theorem ensures_parseWhole (s : Bytes) :
    Ensures parseWhole s fun _ s' => ∃ (negative : Bool) (whole : Bytes),
      s = (if negative then [ch '-'] else []) ++ whole ++ s' ∧ whole ≠ [] ∧
        (∀ b ∈ whole, isDigit b = true) ∧
        (whole = [digit 0] ∨ ∃ d ds, whole = d :: ds ∧ 49 ≤ d.toNat ∧ d.toNat ≤ 57) := by
  apply ensures_bind
  apply (ensures_skipIf _ s).mono
  rintro _ t ⟨l, rfl, hl⟩
  obtain ⟨negative, rfl⟩ : ∃ negative : Bool, l = if negative then [ch '-'] else [] := by
    rcases hl with rfl | ⟨b, hb, rfl⟩
    · exact ⟨false, rfl⟩
    · exact ⟨true, by simpa using hb⟩
  apply ensures_ifNext
  · rintro t rfl
    exact ensures_advance_one ⟨negative, [ch '0'], by simp, by simp, by simp; decide, Or.inl rfl⟩
  · intro hzero
    apply (ensures_parseDigits t).mono
    rintro _ s' ⟨ds, hne, hds, rfl⟩
    obtain ⟨b, ds, rfl⟩ := List.exists_cons_of_ne_nil hne
    refine ⟨negative, b :: ds, by simp, hne, hds, Or.inr ⟨b, ds, rfl, ?_⟩⟩
    exact nonzero_digit (hds b List.mem_cons_self) (by simpa using hzero)

theorem takes_parseWhole {n : Numeral} (hn : IsNumber n) {s : Bytes} (hs : Stops isDigit s) :
    Takes parseWhole (n.signText ++ (n.whole ++ s)) () s := by
  obtain ⟨⟨hne, hds, -, -⟩, hzero⟩ := hn
  obtain ⟨d, ds, hwhole⟩ := List.exists_cons_of_ne_nil hne
  have hd : isDigit d = true := hds d (by rw [hwhole]; exact List.mem_cons_self)
  have hsign : Takes (skipIf (· = ch '-')) (n.signText ++ (n.whole ++ s)) () (n.whole ++ s) := by
    unfold Numeral.signText
    cases n.negative
    · apply takes_skipIf_not
      rw [hwhole]
      exact stops_cons _ (by simpa using (digit_not_special d hd).2.1)
    · exact takes_skipIf (by decide)
  apply takes_bind hsign
  apply takes_bind (takes_nextIs _ _)
  rcases hzero with hzero | ⟨d', ds', hcons, hlo, -⟩
  · rw [hzero, if_pos (by simp [show digit 0 = ch '0' from rfl])]
    exact takes_advance_one _ _
  · have hd0 : d' ≠ ch '0' := by
      rintro rfl
      revert hlo
      decide
    rw [if_neg (by rw [hcons]; simpa using hd0)]
    exact takes_parseDigits hne hds hs

theorem ensures_parseFraction (s : Bytes) :
    Ensures parseFraction s fun _ s' => ∃ f : Bytes, (∀ b ∈ f, isDigit b = true) ∧
      s = (if f = [] then [] else ch '.' :: f) ++ s' := by
  apply ensures_ifNext
  · rintro t rfl
    apply ensures_bind
    apply ensures_advance_one
    apply (ensures_parseDigits t).mono
    rintro _ s' ⟨f, hne, hf, rfl⟩
    exact ⟨f, hf, by simp [hne]⟩
  · exact fun _ => ensures_pure ⟨[], by simp, by simp⟩

theorem takes_parseFraction {n : Numeral} (hn : n.Spelled) {s : Bytes} (hs : Stops isDigit s)
    (hpoint : Stops (· = ch '.') s) : Takes parseFraction (n.fractionText ++ s) () s := by
  obtain ⟨-, -, hf, -⟩ := hn
  unfold Numeral.fractionText
  apply takes_bind (takes_nextIs _ _)
  split <;> rename_i hnil
  · rw [if_neg]
    · exact takes_pure () s
    · cases s with
      | nil => simp
      | cons b t => simpa using hpoint b t rfl
  · rw [if_pos (by simp)]
    apply takes_bind (takes_advance_one _ _)
    exact takes_parseDigits hnil hf hs

theorem ensures_parseExponent (s : Bytes) :
    Ensures parseExponent s fun _ s' => ∃ x : Option Exponent, (∀ y ∈ x, y.Spelled) ∧
      s = (x.map Exponent.text).getD [] ++ s' := by
  apply ensures_bind
  apply ensures_nextIs
  split <;> rename_i hmarker
  · cases s with
    | nil => simp at hmarker
    | cons b t =>
      apply ensures_bind
      apply ensures_advance_one
      apply ensures_bind
      apply (ensures_skipIf _ t).mono
      rintro _ t' ⟨sign, rfl, hsign⟩
      apply (ensures_parseDigits t').mono
      rintro _ s' ⟨ds, hne, hds, rfl⟩
      refine ⟨some ⟨b, sign, ds⟩, ?_, by simp [Exponent.text]⟩
      rintro y hy
      obtain rfl := Option.some.inj hy
      refine ⟨by simpa using hmarker, ?_, hne, hds⟩
      rcases hsign with rfl | ⟨c, hc, rfl⟩
      · exact Or.inl rfl
      · exact Or.inr (by simpa using hc)
  · exact ensures_pure ⟨none, by simp, by simp⟩

theorem takes_parseExponent {n : Numeral} (hn : n.Spelled) {s : Bytes} (hs : Stops isDigit s)
    (hmarker : Stops (fun c => c = ch 'e' || c = ch 'E') s) :
    Takes parseExponent (n.exponentText ++ s) () s := by
  obtain ⟨-, -, -, hx⟩ := hn
  unfold Numeral.exponentText
  apply takes_bind (takes_nextIs _ _)
  cases hexp : n.exponent with
  | none =>
    rw [if_neg]
    · exact takes_pure () s
    · cases s with
      | nil => simp
      | cons b t =>
        have := hmarker b t rfl
        simpa using this
  | some x =>
    obtain ⟨hm, hsign, hne, hds⟩ := hx x hexp
    rw [if_pos (by simpa [Exponent.text] using hm)]
    simp only [Option.map_some, Option.getD_some, Exponent.text, List.cons_append,
      List.append_assoc]
    apply takes_bind (takes_advance_one _ _)
    have hskip : Takes (skipIf fun c => c = ch '+' || c = ch '-') (x.sign ++ (x.digits ++ s)) ()
        (x.digits ++ s) := by
      obtain ⟨d, ds, hcons⟩ := List.exists_cons_of_ne_nil hne
      obtain ⟨-, h1, h2, -⟩ := digit_not_special d (hds d (by rw [hcons]; exact List.mem_cons_self))
      rcases hsign with h | h | h <;> rw [h]
      · apply takes_skipIf_not
        rw [hcons]
        exact stops_cons _ (by simp [h1, h2])
      · exact takes_skipIf (by decide)
      · exact takes_skipIf (by decide)
    apply takes_bind hskip
    exact takes_parseDigits hne hds hs

theorem ensures_parseNumber (s : Bytes) :
    Ensures parseNumber s fun v s' =>
      ∃ n, IsNumber n ∧ v = .number (strtod n.text).1 ∧ s = n.text ++ s' := by
  apply ensures_bind
  apply ensures_tokenOf
  apply ensures_bind
  apply (ensures_parseWhole s).mono
  rintro _ s₁ ⟨negative, whole, rfl, hne, hw, hzero⟩
  apply ensures_bind
  apply (ensures_parseFraction s₁).mono
  rintro _ s₂ ⟨f, hf, rfl⟩
  apply (ensures_parseExponent s₂).mono
  rintro _ s₃ ⟨x, hx, rfl⟩
  have hn : IsNumber ⟨negative, whole, f, x⟩ := ⟨⟨hne, hw, hf, hx⟩, hzero⟩
  refine ⟨Numeral.text ⟨negative, whole, f, x⟩, ?_, ?_⟩
  · simp [Numeral.text, Numeral.signText, Numeral.fractionText, Numeral.exponentText]
  · rw [strtod_text _ hn.1]
    apply ensures_pure
    refine ⟨_, hn, by rw [strtod_text _ hn.1], ?_⟩
    simp [Numeral.text, Numeral.signText, Numeral.fractionText, Numeral.exponentText]

/-- What may follow a number: nothing that would have been read as a part of it. -/
def Delimits (s : Bytes) : Prop :=
  Stops (fun c => isDigit c || c = ch '.' || c = ch 'e' || c = ch 'E') s

theorem takes_parseNumber {n : Numeral} (hn : IsNumber n) {s : Bytes} (hs : Delimits s) :
    Takes parseNumber (n.text ++ s) (.number (strtod n.text).1) s := by
  have hdelim : ∀ b t, s = b :: t → isDigit b = false ∧ b ≠ ch '.' ∧ b ≠ ch 'e' ∧ b ≠ ch 'E' := by
    intro b t hbt
    have := hs b t hbt
    simpa [and_assoc] using this
  have hsDigit : Stops isDigit s := fun b t h => (hdelim b t h).1
  have hexpHead : ∀ b t, n.exponentText ++ s = b :: t → isDigit b = false ∧ b ≠ ch '.' := by
    intro b t hbt
    unfold Numeral.exponentText at hbt
    cases hexp : n.exponent with
    | none =>
      rw [hexp] at hbt
      obtain ⟨h1, h2, -⟩ := hdelim b t (by simpa using hbt)
      exact ⟨h1, h2⟩
    | some x =>
      obtain ⟨hm, -⟩ := hn.1.2.2.2 x hexp
      rw [hexp] at hbt
      simp only [Option.map_some, Option.getD_some, Exponent.text, List.cons_append,
        List.cons.injEq] at hbt
      rw [← hbt.1]
      rcases hm with h | h <;> rw [h] <;> decide
  have hfracHead : Stops isDigit (n.fractionText ++ (n.exponentText ++ s)) := by
    intro b t hbt
    unfold Numeral.fractionText at hbt
    split at hbt
    · exact (hexpHead b t (by simpa using hbt)).1
    · simp only [List.cons_append, List.cons.injEq] at hbt
      rw [← hbt.1]
      decide
  have htoken : Takes (do parseWhole; parseFraction; parseExponent) (n.text ++ s) () s := by
    unfold Numeral.text
    simp only [List.append_assoc]
    apply takes_bind (takes_parseWhole hn hfracHead)
    apply takes_bind (takes_parseFraction hn.1 (fun b t h => (hexpHead b t h).1)
      fun b t h => by simpa using (hexpHead b t h).2)
    apply takes_parseExponent hn.1 hsDigit
    intro b t hbt
    simpa using (hdelim b t hbt).2.2
  apply takes_bind (takes_tokenOf htoken)
  rw [strtod_text _ hn.1]
  exact takes_pure _ s

end OakBarrels.Json.Parser
