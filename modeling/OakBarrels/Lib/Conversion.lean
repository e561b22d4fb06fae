import OakBarrels.Lib.Binary64
import OakBarrels.Lib.Decimal
import Mathlib.Data.List.TakeWhile

/-!
# Text and doubles in C

`strtod`, `snprintf("%.17g")` and `std::to_string`, each rounding to nearest. The main result is
`strtod_formatG17`: seventeen digits are enough to read a double back.
-/

open Octets Binary64 Decimal

namespace Conversion

/-! ## Reading -/

def isSpace (b : Byte) : Bool := b = ch ' ' || (9 ≤ b.toNat && b.toNat ≤ 13)

def readSign : Bytes → Bytes × Bytes
  | b :: t => if b = ch '-' || b = ch '+' then ([b], t) else ([], b :: t)
  | [] => ([], [])

/-- An optional exponent part; a marker with no digit after it is left unread. -/
def readExponent (s : Bytes) : Option Exponent × Bytes :=
  match s with
  | b :: t =>
    if b = ch 'e' || b = ch 'E' then
      let (sign, u) := readSign t
      if u.takeWhile isDigit = [] then (none, s)
      else (some ⟨b, sign, u.takeWhile isDigit⟩, u.dropWhile isDigit)
    else (none, s)
  | [] => (none, [])

def readFraction : Bytes → Bytes × Bytes
  | b :: t => if b = ch '.' then (t.takeWhile isDigit, t.dropWhile isDigit) else ([], b :: t)
  | [] => ([], [])

/-- The longest decimal numeral at the start of a text, and what follows it. -/
def readNumeral (s : Bytes) : Option (Numeral × Bytes) :=
  let (sign, t) := readSign (s.dropWhile isSpace)
  let (fraction, u) := readFraction (t.dropWhile isDigit)
  if t.takeWhile isDigit = [] ∧ fraction = [] then none
  else
    let (exponent, rest) := readExponent u
    some (⟨sign = [ch '-'], t.takeWhile isDigit, fraction, exponent⟩, rest)

def nearest (n : Numeral) : Double :=
  round n.negative (n.digits * 10 ^ n.scale.toNat) (10 ^ (-n.scale).toNat)

/-- `strtod`, in its decimal form: the value, and the text at the end pointer. With nothing to
read the end pointer stays at the start. -/
def strtod (s : Bytes) : Double × Bytes :=
  match readNumeral s with
  | some (n, rest) => (nearest n, rest)
  | none => (.finite false .zero, s)

/-! ## Writing -/

def stdToString (n : Int) : Bytes :=
  if n < 0 then ch '-' :: decimal n.natAbs else decimal n.natAbs

def integral (k : Int) : Numeral := ⟨k < 0, decimal k.natAbs, [], none⟩

/-- The decimal exponent of `n / d`: `10 ^ k ≤ n / d < 10 ^ (k + 1)`. -/
def decade (n d : Nat) : Int :=
  if d ≤ n then Nat.log 10 (n / d) else -(Nat.clog 10 ((d + n - 1) / n) : Int)

def seventeen (n d : Nat) : Nat × Int :=
  let k := decade n d
  let ds := nearestEven (n * 10 ^ (16 - k).toNat) (d * 10 ^ (k - 16).toNat)
  if ds = 10 ^ 17 then (10 ^ 16, k + 1) else (ds, k)

def trimZeros (ds : Bytes) : Bytes := (ds.reverse.dropWhile (· = digit 0)).reverse

/-- An exponent has at least two digits. -/
def exponentDigits (k : Nat) : Bytes := if k < 10 then digit 0 :: decimal k else decimal k

def exponentG17 (k : Int) : Exponent :=
  ⟨ch 'e', [if k < 0 then ch '-' else ch '+'], exponentDigits k.natAbs⟩

/-- Seventeen digits laid out by `%.17g`: plain while the exponent is from -4 to 16, with an
exponent otherwise, and in both without the zeros at the end of the fraction. -/
def layoutG17 (negative : Bool) (digits : Bytes) (k : Int) : Numeral :=
  if -4 ≤ k ∧ k < 17 then
    if 0 ≤ k then
      ⟨negative, digits.take (k.toNat + 1), trimZeros (digits.drop (k.toNat + 1)), none⟩
    else
      ⟨negative, [digit 0], trimZeros (List.replicate (-k - 1).toNat (digit 0) ++ digits), none⟩
  else
    ⟨negative, digits.take 1, trimZeros (digits.drop 1), some (exponentG17 k)⟩

def numeralG17 (negative : Bool) (a : Magnitude) : Numeral :=
  let n := a.significand * 2 ^ a.exponent.toNat
  let d := 2 ^ (-a.exponent).toNat
  layoutG17 negative (decimal (seventeen n d).1) (seventeen n d).2

def formatG17 : Double → Bytes
  | .nan => ascii "nan"
  | .inf negative => if negative then ascii "-inf" else ascii "inf"
  | .finite negative a =>
    if a.significand = 0 then (if negative then ascii "-0" else ascii "0")
    else (numeralG17 negative a).text

example : formatG17 (round false 1 10) = ascii "0.10000000000000001" := by decide
example : formatG17 (round true 5 2) = ascii "-2.5" := by decide
example : formatG17 (.ofInt (10 ^ 22)) = ascii "1e+22" := by decide
example : strtod (ascii "1.5e-2,") = (round false 15 1000, ascii ",") := by decide

/-! ## Reading a numeral back -/

set_option maxRecDepth 100000 in
theorem digit_not_special (b : Byte) (h : isDigit b = true) :
    isSpace b = false ∧ b ≠ ch '-' ∧ b ≠ ch '+' ∧ b ≠ ch '.' ∧ b ≠ ch 'e' ∧ b ≠ ch 'E' := by
  revert h
  exact forall_byte (P := fun b => isDigit b = true → isSpace b = false ∧ b ≠ ch '-' ∧ b ≠ ch '+' ∧
    b ≠ ch '.' ∧ b ≠ ch 'e' ∧ b ≠ ch 'E') (by decide) b

theorem readSign_digit (b : Byte) (t : Bytes) (h : isDigit b = true) :
    readSign (b :: t) = ([], b :: t) := by
  obtain ⟨-, h1, h2, -⟩ := digit_not_special b h
  simp [readSign, h1, h2]

theorem readExponent_text (x : Exponent) (h : x.Spelled) :
    readExponent x.text = (some x, []) := by
  obtain ⟨marker, sign, digits⟩ := x
  obtain ⟨hm, hs, hne, hd⟩ := h
  simp only at hm hs hne hd
  have hsign : readSign (sign ++ digits) = (sign, digits) := by
    rcases hs with rfl | rfl | rfl
    · obtain ⟨b, t, rfl⟩ := List.exists_cons_of_ne_nil hne
      exact readSign_digit b t (hd b List.mem_cons_self)
    · rfl
    · rfl
  have htake : digits.takeWhile isDigit = digits := by
    simpa using takeWhile_digits digits [] hd (by simp)
  have hdrop : digits.dropWhile isDigit = [] := by
    simpa using dropWhile_digits digits [] hd (by simp)
  have hmark : (marker = ch 'e' || marker = ch 'E') = true := by simpa using hm
  simp [readExponent, Exponent.text, hmark, hsign, htake, hdrop, hne]

theorem readNumeral_text (n : Numeral) (h : n.Spelled) : readNumeral n.text = some (n, []) := by
  obtain ⟨negative, whole, fraction, exponent⟩ := n
  obtain ⟨hwhole, hw, hf, hx⟩ := h
  simp only at hwhole hw hf hx
  set expText := (exponent.map Exponent.text).getD [] with hexp
  set fracText := if fraction = [] then ([] : Bytes) else ch '.' :: fraction with hfrac
  -- What stands after the digits starts with a point or an exponent marker.
  have hexpHead : ∀ b t, expText = b :: t → isDigit b = false ∧ b ≠ ch '.' := by
    intro b t hbt
    cases exponent with
    | none => simp [hexp] at hbt
    | some x =>
      obtain ⟨hm, -⟩ := hx x rfl
      simp only [hexp, Option.map_some, Option.getD_some, Exponent.text, List.cons_append,
        List.cons.injEq] at hbt
      obtain ⟨rfl, -⟩ := hbt
      rcases hm with hm | hm <;> rw [hm] <;> decide
  have hexpRead : readExponent expText = (exponent, []) := by
    cases exponent with
    | none => simp [hexp, readExponent]
    | some x => exact readExponent_text x (hx x rfl)
  have hfracRead : readFraction (fracText ++ expText) = (fraction, expText) := by
    by_cases hnil : fraction = []
    · simp only [hfrac, hnil]
      cases he : expText with
      | nil => rfl
      | cons b t => simp [readFraction, (hexpHead b t he).2]
    · simp only [hfrac, if_neg hnil, List.cons_append, readFraction, if_true]
      rw [takeWhile_digits fraction expText hf (fun b t hbt => (hexpHead b t hbt).1),
        dropWhile_digits fraction expText hf (fun b t hbt => (hexpHead b t hbt).1)]
  have htail : ∀ b t, fracText ++ expText = b :: t → isDigit b = false := by
    intro b t hbt
    by_cases hnil : fraction = []
    · simp only [hfrac, if_pos hnil, List.nil_append] at hbt
      exact (hexpHead b t hbt).1
    · simp only [hfrac, if_neg hnil, List.cons_append, List.cons.injEq] at hbt
      rw [← hbt.1]
      decide
  obtain ⟨b, t, hbt⟩ := List.exists_cons_of_ne_nil hwhole
  have hb : isDigit b = true := hw b (by rw [hbt]; exact List.mem_cons_self)
  have hsign : readSign (List.dropWhile isSpace ((if negative then [ch '-'] else []) ++
      (whole ++ (fracText ++ expText)))) =
      (if negative then [ch '-'] else [], whole ++ (fracText ++ expText)) := by
    cases negative
    · rw [hbt]
      simp [(digit_not_special b hb).1, readSign_digit b _ hb]
    · simp [show isSpace (ch '-') = false by decide, readSign]
  have htext : Numeral.text ⟨negative, whole, fraction, exponent⟩ =
      (if negative then [ch '-'] else []) ++ (whole ++ (fracText ++ expText)) := by
    simp [Numeral.text, Numeral.signText, Numeral.fractionText, Numeral.exponentText, hfrac, hexp]
  rw [htext, readNumeral, hsign]
  simp only [takeWhile_digits whole _ hw htail, dropWhile_digits whole _ hw htail, hfracRead,
    hwhole, false_and, if_false, hexpRead]
  cases negative <;> simp

/-- `strtod` reads the whole of a numeral, as the nearest double. -/
theorem strtod_text (n : Numeral) (h : n.Spelled) : strtod n.text = (nearest n, []) := by
  rw [strtod, readNumeral_text n h]

/-! ## The decimal exponent -/

theorem integral_text (k : Int) : (integral k).text = stdToString k := by
  unfold stdToString
  by_cases hneg : k < 0 <;> simp [integral, hneg, Numeral.text, Numeral.signText,
    Numeral.fractionText, Numeral.exponentText]

theorem integral_spelled (k : Int) : (integral k).Spelled ∧ (integral k).NoLeadingZero := by
  refine ⟨⟨decimal_ne_nil _, decimal_isDigit _, by simp [integral], by simp [integral]⟩, ?_⟩
  rcases Nat.eq_zero_or_pos k.natAbs with h0 | hpos
  · exact Or.inl (by rw [integral, h0]; rfl)
  · exact Or.inr (decimal_head _ hpos)

theorem nearest_integral (k : Int) : nearest (integral k) = .ofInt k := by
  simp [integral, nearest, Numeral.digits, Numeral.scale, digitsValue_decimal, Double.ofInt]

theorem integral_value (k : Int) : (integral k).value = k := by
  have hdigits : (integral k).digits = k.natAbs := by
    simp [integral, Numeral.digits, digitsValue_decimal]
  have hscale : (integral k).scale = 0 := by simp [integral, Numeral.scale]
  rw [Numeral.value, hdigits, hscale, Nat.cast_natAbs]
  by_cases hneg : k < 0
  · simp [integral, hneg, abs_of_neg hneg]
  · simp [integral, hneg, abs_of_nonneg (not_lt.mp hneg)]

theorem decade_spec (n d : Nat) (hn : 0 < n) (hd : 0 < d) :
    (10 : ℚ) ^ decade n d ≤ n / d ∧ (n : ℚ) / d < 10 ^ (decade n d + 1) := by
  have hnq : (0 : ℚ) < n := by exact_mod_cast hn
  have hdq : (0 : ℚ) < d := by exact_mod_cast hd
  unfold decade
  split <;> rename_i h
  · have hq : n / d ≠ 0 := (Nat.div_pos h hd).ne'
    have h1 : (10 : ℚ) ^ Nat.log 10 (n / d) ≤ (n / d : Nat) := by
      exact_mod_cast Nat.pow_log_le_self 10 hq
    have h2 : ((n / d : Nat) : ℚ) + 1 ≤ 10 ^ (Nat.log 10 (n / d) + 1) := by
      exact_mod_cast Nat.lt_pow_succ_log_self (by norm_num : 1 < 10) (n / d)
    have h3 : ((n / d : Nat) : ℚ) ≤ n / d := Nat.cast_div_le
    have h4 : (n : ℚ) / d < (n / d : Nat) + 1 := by
      rw [← Nat.floor_div_eq_div (K := ℚ)]
      exact Nat.lt_floor_add_one _
    constructor
    · rw [zpow_natCast]
      linarith
    · have : (10 : ℚ) ^ ((Nat.log 10 (n / d) : Int) + 1) = 10 ^ (Nat.log 10 (n / d) + 1) := by
        exact_mod_cast rfl
      linarith
  · -- Below one the decade comes from the reciprocal, rounded up.
    set c := (d + n - 1) / n with hc
    have hc2 : 1 < c := by
      rw [hc, Nat.lt_div_iff_mul_lt hn]
      omega
    have h1 : d ≤ c * n := by
      have := Nat.lt_div_mul_add (a := d + n - 1) hn
      rw [← hc] at this
      omega
    have h2 : c * n < d + n := by
      have := Nat.div_mul_le_self (d + n - 1) n
      rw [← hc] at this
      omega
    have hle := Nat.le_pow_clog (by norm_num : 1 < 10) c
    have hpos := Nat.clog_pos (by norm_num : 1 < 10) hc2
    have hlt := Nat.pow_pred_clog_lt_self (by norm_num : 1 < 10) hc2
    obtain ⟨j, hj⟩ := Nat.exists_eq_succ_of_ne_zero hpos.ne'
    rw [hj] at hle hlt ⊢
    simp only [Nat.pred_succ] at hlt
    constructor
    · rw [le_div_iff₀ hdq, zpow_neg, inv_mul_le_iff₀ (by positivity), zpow_natCast]
      have : d ≤ 10 ^ (j + 1) * n := h1.trans (Nat.mul_le_mul_right n hle)
      exact_mod_cast this
    · rw [div_lt_iff₀ hdq, show -((j.succ : Nat) : Int) + 1 = -(j : Int) by push_cast; ring,
        zpow_neg, lt_inv_mul_iff₀ (by positivity), zpow_natCast]
      have : (10 ^ j + 1) * n ≤ c * n := Nat.mul_le_mul_right n hlt
      have : 10 ^ j * n < d := by
        rw [add_mul] at this
        omega
      exact_mod_cast this

/-! ## Seventeen digits -/

theorem nearestEven_error (num den : Nat) (hd : 0 < den) :
    |(num : ℚ) / den - nearestEven num den| ≤ 1 / 2 := by
  have hdq : (0 : ℚ) < den := by exact_mod_cast hd
  have hlt := Nat.mod_lt num hd
  have hnum : (num : ℚ) / den = (num / den : Nat) + ((num % den : Nat) : ℚ) / den := by
    rw [div_eq_iff hdq.ne', add_mul, div_mul_cancel₀ _ hdq.ne']
    exact_mod_cast (Nat.div_add_mod' num den).symm
  rw [hnum, abs_le]
  unfold nearestEven
  generalize num / den = q at *
  generalize num % den = r at *
  have hr : (0 : ℚ) ≤ r / den := by positivity
  have hr1 : (r : ℚ) / den < 1 := by rw [div_lt_one hdq]; exact_mod_cast hlt
  simp only
  split_ifs with h1 h2
  · have : (r : ℚ) / den < 1 / 2 := by
      rw [div_lt_iff₀ hdq]
      have : (2 * r : ℚ) < den := by exact_mod_cast h1
      linarith
    constructor <;> linarith
  · have : 1 / 2 < (r : ℚ) / den := by
      rw [lt_div_iff₀ hdq]
      have : (den : ℚ) < 2 * r := by exact_mod_cast h2
      linarith
    push_cast
    constructor <;> linarith
  · have htie : (r : ℚ) / den = 1 / 2 := by
      rw [div_eq_iff hdq.ne']
      have : (2 * r : ℚ) = den := by exact_mod_cast (show 2 * r = den by omega)
      linarith
    rw [htie]
    have : (q % 2 : Nat) = 0 ∨ q % 2 = 1 := by omega
    rcases this with h | h <;> rw [h] <;> push_cast <;> constructor <;> linarith

theorem scaled_quotient (n d : Nat) (k : Int) :
    ((n * 10 ^ (16 - k).toNat : Nat) : ℚ) / ((d * 10 ^ (k - 16).toNat : Nat) : ℚ) =
      (n : ℚ) / d / 10 ^ (k - 16) := by
  rw [ten_zpow_eq, neg_sub]
  push_cast
  field_simp

/-- Seventeen digits name a number to within half a unit of the last of them. -/
theorem seventeen_spec (n d : Nat) (hn : 0 < n) (hd : 0 < d) :
    10 ^ 16 ≤ (seventeen n d).1 ∧ (seventeen n d).1 < 10 ^ 17 ∧
      |(n : ℚ) / d - (seventeen n d).1 * 10 ^ ((seventeen n d).2 - 16)| ≤
        (n : ℚ) / d / 10 ^ 16 / 2 := by
  obtain ⟨hlo, hhi⟩ := decade_spec n d hn hd
  have herr := nearestEven_error (n * 10 ^ (16 - decade n d).toNat)
    (d * 10 ^ (decade n d - 16).toNat) (by positivity)
  rw [scaled_quotient] at herr
  unfold seventeen
  simp only
  generalize decade n d = k at *
  generalize nearestEven _ _ = m at *
  generalize (n : ℚ) / d = y at *
  have hu : (0 : ℚ) < 10 ^ (k - 16) := by positivity
  have hk : (10 : ℚ) ^ k = 10 ^ 16 * 10 ^ (k - 16) := by
    rw [show k = (16 : Nat) + (k - 16) by push_cast; ring, zpow_add₀ (by norm_num), zpow_natCast]
    simp
  have hk1 : (10 : ℚ) ^ (k + 1) = 10 ^ 17 * 10 ^ (k - 16) := by
    rw [zpow_add_one₀ (by norm_num), hk]
    ring
  have hylo : 10 ^ 16 ≤ y / 10 ^ (k - 16) := by
    rw [le_div_iff₀ hu, ← hk]
    exact hlo
  have hyhi : y / 10 ^ (k - 16) < 10 ^ 17 := by
    rw [div_lt_iff₀ hu, ← hk1]
    exact hhi
  have hm := abs_le.mp herr
  have hm16 : 10 ^ 16 ≤ m := by
    have : (10 ^ 16 : ℚ) < m + 1 := by linarith
    have : 10 ^ 16 < m + 1 := by exact_mod_cast this
    omega
  have hm17 : m ≤ 10 ^ 17 := by
    have : (m : ℚ) < 10 ^ 17 + 1 := by linarith
    have : m < 10 ^ 17 + 1 := by exact_mod_cast this
    omega
  have hdist : |y - m * 10 ^ (k - 16)| ≤ y / 10 ^ 16 / 2 := by
    have : y - m * 10 ^ (k - 16) = (y / 10 ^ (k - 16) - m) * 10 ^ (k - 16) := by field_simp
    rw [this, abs_mul, abs_of_pos hu]
    have h1 : |y / 10 ^ (k - 16) - m| * 10 ^ (k - 16) ≤ 1 / 2 * 10 ^ (k - 16) := by gcongr
    have h2 : (10 : ℚ) ^ (k - 16) ≤ y / 10 ^ 16 := by
      rw [le_div_iff₀ (by positivity), mul_comm, ← hk]
      exact hlo
    linarith
  split <;> rename_i h
  · -- Rounding up reached the next decade: the same number with one zero less.
    refine ⟨by norm_num, by norm_num, ?_⟩
    have : ((10 ^ 16 : Nat) : ℚ) * 10 ^ (k + 1 - 16) = m * 10 ^ (k - 16) := by
      rw [h, show k + 1 - 16 = k - 16 + 1 by ring, zpow_add_one₀ (by norm_num)]
      push_cast
      ring
    rw [this]
    exact hdist
  · exact ⟨hm16, by simp only; omega, hdist⟩

/-! ## The layout names the same number -/

theorem trimZeros_append (ds : Bytes) :
    ∃ k, ds = trimZeros ds ++ List.replicate k (digit 0) := by
  refine ⟨(ds.reverse.takeWhile (· = digit 0)).length, ?_⟩
  have hzeros : ds.reverse.takeWhile (· = digit 0) =
      List.replicate (ds.reverse.takeWhile (· = digit 0)).length (digit 0) :=
    List.eq_replicate_of_mem fun b hb => by simpa using List.mem_takeWhile_imp hb
  have hsplit := List.takeWhile_append_dropWhile (p := (· = digit 0)) (l := ds.reverse)
  rw [trimZeros, ← List.reverse_replicate, ← hzeros, ← List.reverse_append, hsplit,
    List.reverse_reverse]

theorem trimZeros_isDigit (ds : Bytes) (h : ∀ b ∈ ds, isDigit b = true) :
    ∀ b ∈ trimZeros ds, isDigit b = true := by
  obtain ⟨k, hk⟩ := trimZeros_append ds
  intro b hb
  apply h
  rw [hk]
  exact List.mem_append_left _ hb

theorem trimZeros_value (whole fraction : Bytes) (e : Int) :
    (digitsValue (whole ++ trimZeros fraction) : ℚ) * 10 ^ (e - (trimZeros fraction).length) =
      digitsValue (whole ++ fraction) * 10 ^ (e - fraction.length) := by
  obtain ⟨k, hk⟩ := trimZeros_append fraction
  generalize trimZeros fraction = kept at *
  have hvalue : digitsValue (whole ++ fraction) = digitsValue (whole ++ kept) * 10 ^ k := by
    rw [hk, ← List.append_assoc, digitsValue_append, digitsValue_zeros, List.length_replicate,
      Nat.add_zero]
  have hlen : (fraction.length : Int) = kept.length + k := by
    rw [hk]
    simp
  rw [hvalue, hlen, show e - (kept.length : Int) = k + (e - (kept.length + k)) by ring,
    zpow_add₀ (by norm_num), zpow_natCast]
  push_cast
  ring

theorem exponentDigits_spec (k : Nat) : exponentDigits k ≠ [] ∧
    (∀ b ∈ exponentDigits k, isDigit b = true) ∧ digitsValue (exponentDigits k) = k := by
  unfold exponentDigits
  split
  · refine ⟨by simp, ?_, ?_⟩
    · intro b hb
      rcases List.mem_cons.mp hb with rfl | hb
      · exact digit_isDigit 0 (by omega)
      · exact decimal_isDigit k b hb
    · rw [← List.singleton_append, digitsValue_append, digitsValue_singleton 0 (by omega),
        digitsValue_decimal]
      simp
  · exact ⟨decimal_ne_nil k, decimal_isDigit k, digitsValue_decimal k⟩

theorem exponentG17_spec (k : Int) : (exponentG17 k).Spelled ∧ (exponentG17 k).value = k := by
  obtain ⟨h1, h2, h3⟩ := exponentDigits_spec k.natAbs
  refine ⟨⟨Or.inl rfl, ?_, h1, h2⟩, ?_⟩
  · by_cases h : k < 0 <;> simp [exponentG17, h]
  · simp only [exponentG17, Exponent.value, h3]
    by_cases h : k < 0
    · simp only [h, if_true]
      omega
    · rw [if_neg (by simp only [h, if_false]; decide)]
      omega

theorem layoutG17_spec (negative : Bool) (m : Nat) (k : Int) (hlo : 10 ^ 16 ≤ m)
    (hhi : m < 10 ^ 17) :
    (layoutG17 negative (decimal m) k).Spelled ∧
      (layoutG17 negative (decimal m) k).NoLeadingZero ∧
      ((layoutG17 negative (decimal m) k).digits : ℚ) *
        10 ^ (layoutG17 negative (decimal m) k).scale = m * 10 ^ (k - 16) := by
  have hlen := decimal_length m 16 hlo hhi
  have hdig := decimal_isDigit m
  have hval := digitsValue_decimal m
  obtain ⟨d, ds, hhead, hd⟩ := decimal_head m (by omega)
  generalize decimal m = text at *
  have hsplit : ∀ j, digitsValue (text.take j ++ text.drop j) = m := by
    intro j
    rw [List.take_append_drop, hval]
  have htake : ∀ j, ∀ b ∈ text.take j, isDigit b = true :=
    fun j b hb => hdig b (List.mem_of_mem_take hb)
  have hdrop : ∀ j, ∀ b ∈ trimZeros (text.drop j), isDigit b = true :=
    fun j => trimZeros_isDigit _ fun b hb => hdig b (List.mem_of_mem_drop hb)
  have hne : ∀ j, text.take (j + 1) ≠ [] := by simp [hhead]
  unfold layoutG17
  split_ifs with hplain hk
  · obtain ⟨j, rfl⟩ := Int.eq_ofNat_of_zero_le hk
    refine ⟨⟨hne j, htake _, hdrop _, by simp⟩, Or.inr ⟨d, ds.take j, by simp [hhead], hd⟩, ?_⟩
    simp only [Numeral.digits, Numeral.scale, Option.map_none, Option.getD_none]
    rw [trimZeros_value, hsplit, List.length_drop, hlen]
    congr 2
    omega
  · have hdigits : ∀ b ∈ List.replicate (-k - 1).toNat (digit 0) ++ text, isDigit b = true := by
      intro b hb
      rcases List.mem_append.mp hb with hb | hb
      · rw [List.eq_of_mem_replicate hb]
        exact digit_isDigit 0 (by omega)
      · exact hdig b hb
    refine ⟨⟨by simp, by simp [digit_isDigit], trimZeros_isDigit _ hdigits, by simp⟩,
      Or.inl rfl, ?_⟩
    simp only [Numeral.digits, Numeral.scale, Option.map_none, Option.getD_none]
    rw [trimZeros_value, ← List.append_assoc, digitsValue_append, hval, digitsValue_append,
      digitsValue_zeros, digitsValue_singleton 0 (by omega)]
    simp only [List.length_append, List.length_replicate, hlen]
    congr 2
    · simp
    · omega
  · have htail : ∀ x ∈ some (exponentG17 k), x.Spelled := by
      rintro x hx
      obtain rfl := Option.some.inj hx
      exact (exponentG17_spec k).1
    refine ⟨⟨hne 0, htake _, hdrop _, htail⟩, Or.inr ⟨d, [], by simp [hhead], hd⟩, ?_⟩
    simp only [Numeral.digits, Numeral.scale, Option.map_some, Option.getD_some,
      (exponentG17_spec k).2]
    rw [trimZeros_value, hsplit, List.length_drop, hlen]
    congr 2

/-! ## Seventeen digits are enough -/

theorem magnitude_quotient (a : Magnitude) :
    ((a.significand * 2 ^ a.exponent.toNat : Nat) : ℚ) / ((2 ^ (-a.exponent).toNat : Nat) : ℚ) =
      a.value := by
  rw [Magnitude.value, two_zpow_eq]
  push_cast
  ring

/-- A relative error of half a unit in the seventeenth digit stays nearest. -/
theorem nearest_of_close (a : Magnitude) (y : ℚ) (h : |a.value - y| ≤ a.value / 10 ^ 16 / 2) :
    Nearest y a := by
  obtain ⟨m, e, hcan⟩ := a
  have hcan' := hcan
  obtain ⟨hm, -, -, hfull⟩ := hcan'
  simp only [Magnitude.value] at h
  have hpos := two_zpow_pos e
  have hmq : (m : ℚ) < 2 ^ 53 := by exact_mod_cast hm
  have hunit : |y / 2 ^ e - m| ≤ m / 10 ^ 16 / 2 := by
    have h1 : y / 2 ^ e - m = -((m * 2 ^ e - y) / 2 ^ e) := by field_simp; ring
    rw [h1, abs_neg, abs_div, abs_of_pos hpos, div_le_iff₀ hpos]
    calc |m * 2 ^ e - y| ≤ m * 2 ^ e / 10 ^ 16 / 2 := h
      _ = m / 10 ^ 16 / 2 * 2 ^ e := by ring
  refine ⟨by simp only; linarith, fun hne => ?_⟩
  simp only at hne ⊢
  have hlow : ((2 : ℚ)) ^ 52 ≤ m := by
    have : 2 ^ 52 ≤ m := by omega
    exact_mod_cast this
  have := (abs_le.mp hunit).1
  linarith

theorem numeral_quotient (n : Numeral) :
    ((n.digits * 10 ^ n.scale.toNat : Nat) : ℚ) / ((10 ^ (-n.scale).toNat : Nat) : ℚ) =
      n.digits * 10 ^ n.scale := by
  rw [ten_zpow_eq]
  push_cast
  ring

theorem nearest_eq (n : Numeral) (a : Magnitude) (hpos : 0 < n.digits)
    (h : Nearest (n.digits * 10 ^ n.scale) a) : nearest n = .finite n.negative a := by
  apply round_nearest _ _ _ (by positivity) (by positivity)
  rwa [numeral_quotient]

/-- However an integer is spelled, as long as it is a double. -/
theorem nearest_int {n : Numeral} {k : Int} (hk : k ≠ 0) (h : k.natAbs < 2 ^ 53)
    (hvalue : n.value = k) : nearest n = .ofInt k := by
  have hnonneg : (0 : ℚ) ≤ n.digits * 10 ^ n.scale := by positivity
  have hsize : (n.digits : ℚ) * 10 ^ n.scale = k.natAbs ∧ decide (k < 0) = n.negative := by
    rw [Numeral.value, mul_assoc] at hvalue
    cases hneg : n.negative
    · simp only [hneg, Bool.false_eq_true, if_false, one_mul] at hvalue
      have h0 : 0 ≤ k := by exact_mod_cast hvalue ▸ hnonneg
      refine ⟨?_, by simpa using h0⟩
      rw [hvalue, Nat.cast_natAbs, abs_of_nonneg h0]
    · simp only [hneg, if_true, neg_mul, one_mul] at hvalue
      have h0 : k ≤ 0 := by
        have : (k : ℚ) ≤ 0 := by linarith
        exact_mod_cast this
      refine ⟨?_, by simp; omega⟩
      rw [Nat.cast_natAbs, abs_of_nonpos h0]
      push_cast
      linarith
  obtain ⟨hquotient, hsign⟩ := hsize
  have hpos : 0 < n.digits := by
    rcases Nat.eq_zero_or_pos n.digits with h0 | hpos
    · rw [h0] at hquotient
      have : k.natAbs = 0 := by
        simp only [Nat.cast_zero, zero_mul] at hquotient
        exact_mod_cast hquotient.symm
      omega
    · exact hpos
  rw [ofInt_exact k h, hsign]
  apply round_exact _ _ _ (by positivity) (by positivity)
  rw [numeral_quotient, hquotient, ofNat_value]

theorem layoutG17_negative (negative : Bool) (ds : Bytes) (k : Int) :
    (layoutG17 negative ds k).negative = negative := by
  unfold layoutG17
  split_ifs <;> rfl

theorem numeralG17_spec (negative : Bool) (a : Magnitude) (h : 0 < a.significand) :
    (numeralG17 negative a).Spelled ∧ (numeralG17 negative a).NoLeadingZero ∧
      nearest (numeralG17 negative a) = .finite negative a := by
  have hquot := magnitude_quotient a
  have hnum : numeralG17 negative a = layoutG17 negative
    (decimal (seventeen (a.significand * 2 ^ a.exponent.toNat) (2 ^ (-a.exponent).toNat)).1)
    (seventeen (a.significand * 2 ^ a.exponent.toNat) (2 ^ (-a.exponent).toNat)).2 := rfl
  have hn : 0 < a.significand * 2 ^ a.exponent.toNat := by positivity
  have hd : 0 < 2 ^ (-a.exponent).toNat := by positivity
  rw [hnum]
  generalize a.significand * 2 ^ a.exponent.toNat = n at *
  generalize 2 ^ (-a.exponent).toNat = d at *
  obtain ⟨hlo, hhi, hclose⟩ := seventeen_spec n d hn hd
  obtain ⟨hspelled, hzero, hvalue⟩ := layoutG17_spec negative _ (seventeen n d).2 hlo hhi
  refine ⟨hspelled, hzero, ?_⟩
  rw [hquot, ← hvalue] at hclose
  have hdigits : (0 : ℚ) < (layoutG17 negative (decimal (seventeen n d).1) (seventeen n d).2).digits
      * 10 ^ (layoutG17 negative (decimal (seventeen n d).1) (seventeen n d).2).scale := by
    have : 0 < (seventeen n d).1 := by omega
    rw [hvalue]
    positivity
  have hpos : 0 < (layoutG17 negative (decimal (seventeen n d).1) (seventeen n d).2).digits := by
    rw [mul_pos_iff_of_pos_right (by positivity)] at hdigits
    exact_mod_cast hdigits
  rw [nearest_eq _ a hpos (nearest_of_close a _ hclose), layoutG17_negative]

/-- What `%.17g` writes for a finite double is a numeral whose nearest double it is. -/
theorem formatG17_numeral (negative : Bool) (a : Magnitude) :
    ∃ n : Numeral, formatG17 (.finite negative a) = n.text ∧ n.Spelled ∧ n.NoLeadingZero ∧
      nearest n = .finite negative a := by
  rcases Nat.eq_zero_or_pos a.significand with h0 | hpos
  · refine ⟨⟨negative, [digit 0], [], none⟩, ?_, ⟨by simp, by simp [digit_isDigit], by simp,
      by simp⟩, Or.inl rfl, ?_⟩
    · cases negative <;> simp [formatG17, h0] <;> decide
    · have : a = .zero := by
        apply magnitude_ext
        simp [Magnitude.value, h0, Magnitude.zero]
      simp [nearest, Numeral.digits, digitsValue_singleton, this]
  · obtain ⟨hspelled, hzero, hnearest⟩ := numeralG17_spec negative a hpos
    exact ⟨numeralG17 negative a, by simp [formatG17, hpos.ne'], hspelled, hzero, hnearest⟩

/-- **Round trip.** `strtod` reads what `%.17g` wrote as the double it was written for. -/
theorem strtod_formatG17 (negative : Bool) (a : Magnitude) :
    strtod (formatG17 (.finite negative a)) = (.finite negative a, []) := by
  obtain ⟨n, htext, hspelled, -, hnearest⟩ := formatG17_numeral negative a
  rw [htext, strtod_text n hspelled, hnearest]

end Conversion
