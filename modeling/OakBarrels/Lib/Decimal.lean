import OakBarrels.Lib.Octets
import Mathlib.Data.Nat.Digits.Lemmas

/-!
# Decimal numerals

Digit strings, the decimal of a natural number, and numerals with a sign, a fraction and an
exponent: their text, and the rational number they name.
-/

open Octets

namespace Decimal

def isDigit (b : Byte) : Bool := 48 ≤ b.toNat && b.toNat ≤ 57

def digit (d : Nat) : Byte := UInt8.ofNat (48 + d)

/-- The number a digit string names, most significant digit first. -/
def digitsValue (ds : Bytes) : Nat := Nat.ofDigits 10 (ds.reverse.map fun b => b.toNat - 48)

/-- The digits of a number, with no leading zero. -/
def decimal (n : Nat) : Bytes :=
  if n = 0 then [digit 0] else ((Nat.digits 10 n).map digit).reverse

/-! ## Digits -/

@[simp] theorem digit_toNat (d : Nat) (h : d < 10) : (digit d).toNat = 48 + d := by
  simp [digit]; omega

theorem digit_isDigit (d : Nat) (h : d < 10) : isDigit (digit d) = true := by
  simp only [isDigit, digit_toNat d h, Bool.and_eq_true, decide_eq_true_eq]
  omega

theorem isDigit_iff (b : Byte) : isDigit b = true ↔ 48 ≤ b.toNat ∧ b.toNat ≤ 57 := by
  simp [isDigit]

theorem decimal_isDigit (n : Nat) : ∀ b ∈ decimal n, isDigit b = true := by
  intro b hb
  unfold decimal at hb
  split at hb
  · rw [List.mem_singleton] at hb
    rw [hb]
    exact digit_isDigit 0 (by omega)
  · simp only [List.mem_reverse, List.mem_map] at hb
    obtain ⟨d, hd, rfl⟩ := hb
    exact digit_isDigit d (Nat.digits_lt_base (by norm_num) hd)

theorem decimal_ne_nil (n : Nat) : decimal n ≠ [] := by
  unfold decimal
  split
  · simp
  · rename_i h
    simpa [Nat.digits_eq_nil_iff_eq_zero] using h

theorem decimal_head (n : Nat) (h : 0 < n) :
    ∃ d ds, decimal n = d :: ds ∧ 49 ≤ d.toNat ∧ d.toNat ≤ 57 := by
  have hne : Nat.digits 10 n ≠ [] := Nat.digits_ne_nil_iff_ne_zero.mpr h.ne'
  have hlast := Nat.getLast_digit_ne_zero 10 h.ne'
  have hlt := Nat.digits_lt_base (b := 10) (by norm_num) (List.getLast_mem hne)
  have hsplit := List.dropLast_concat_getLast hne
  refine ⟨digit ((Nat.digits 10 n).getLast hne),
    (((Nat.digits 10 n).dropLast).map digit).reverse, ?_, ?_⟩
  · unfold decimal
    rw [if_neg h.ne']
    conv => lhs; rw [← hsplit]
    simp
  · rw [digit_toNat _ hlt]
    omega

theorem digitsValue_append (a b : Bytes) :
    digitsValue (a ++ b) = digitsValue a * 10 ^ b.length + digitsValue b := by
  simp only [digitsValue, List.reverse_append, List.map_append, Nat.ofDigits_append,
    List.length_map, List.length_reverse]
  ring

theorem digitsValue_singleton (d : Nat) (h : d < 10) : digitsValue [digit d] = d := by
  simp [digitsValue, digit_toNat d h]

theorem digitsValue_decimal (n : Nat) : digitsValue (decimal n) = n := by
  unfold decimal
  split
  · rename_i h
    rw [digitsValue_singleton 0 (by omega), h]
  · have : (Nat.digits 10 n).map (fun d => (digit d).toNat - 48) = (Nat.digits 10 n).map id := by
      apply List.map_congr_left
      intro d hd
      rw [digit_toNat d (Nat.digits_lt_base (by norm_num) hd)]
      simp
    rw [digitsValue, List.reverse_reverse, List.map_map]
    simp only [Function.comp_def]
    rw [this, List.map_id, Nat.ofDigits_digits]

theorem digitsValue_zeros (k : Nat) : digitsValue (List.replicate k (digit 0)) = 0 := by
  simp [digitsValue, Nat.ofDigits_replicate_zero]

theorem decimal_length (n k : Nat) (h1 : 10 ^ k ≤ n) (h2 : n < 10 ^ (k + 1)) :
    (decimal n).length = k + 1 := by
  have hpos : 0 < n := lt_of_lt_of_le (by positivity) h1
  unfold decimal
  rw [if_neg hpos.ne']
  simp only [List.length_reverse, List.length_map]
  rw [Nat.length_digits 10 n (by norm_num) hpos.ne', Nat.log_eq_of_pow_le_of_lt_pow h1 h2]

theorem decimal_length_le {n k : Nat} (h : n < 10 ^ (k + 1)) : (decimal n).length ≤ k + 1 := by
  unfold decimal
  split
  · simp
  · rw [List.length_reverse, List.length_map]
    exact (Nat.digits_length_le_iff (by norm_num) n).mpr h

/-! ## Runs of digits -/

theorem takeWhile_digits (ds rest : Bytes) (h : ∀ b ∈ ds, isDigit b = true)
    (hrest : ∀ b t, rest = b :: t → isDigit b = false) :
    (ds ++ rest).takeWhile isDigit = ds := by
  rw [List.takeWhile_append_of_pos h]
  cases rest with
  | nil => simp
  | cons b t => simp [hrest b t rfl]

theorem dropWhile_digits (ds rest : Bytes) (h : ∀ b ∈ ds, isDigit b = true)
    (hrest : ∀ b t, rest = b :: t → isDigit b = false) :
    (ds ++ rest).dropWhile isDigit = rest := by
  rw [List.dropWhile_append_of_pos h]
  cases rest with
  | nil => simp
  | cons b t => simp [hrest b t rfl]

/-! ## Numerals -/

structure Exponent where
  marker : Byte
  sign : Bytes
  digits : Bytes
deriving DecidableEq

def Exponent.text (x : Exponent) : Bytes := x.marker :: x.sign ++ x.digits

def Exponent.value (x : Exponent) : Int :=
  if x.sign = [ch '-'] then -(digitsValue x.digits : Int) else digitsValue x.digits

/-- The exponent is spelled with a marker, at most one sign, and digits. -/
def Exponent.Spelled (x : Exponent) : Prop :=
  (x.marker = ch 'e' ∨ x.marker = ch 'E') ∧
    (x.sign = [] ∨ x.sign = [ch '+'] ∨ x.sign = [ch '-']) ∧
    x.digits ≠ [] ∧ ∀ b ∈ x.digits, isDigit b = true

/-- A decimal numeral. An empty fraction is written without its point. -/
structure Numeral where
  negative : Bool
  whole : Bytes
  fraction : Bytes
  exponent : Option Exponent
deriving DecidableEq

namespace Numeral

def signText (n : Numeral) : Bytes := if n.negative then [ch '-'] else []

def fractionText (n : Numeral) : Bytes :=
  if n.fraction = [] then [] else ch '.' :: n.fraction

def exponentText (n : Numeral) : Bytes := (n.exponent.map Exponent.text).getD []

def text (n : Numeral) : Bytes := n.signText ++ n.whole ++ n.fractionText ++ n.exponentText

def digits (n : Numeral) : Nat := digitsValue (n.whole ++ n.fraction)

def scale (n : Numeral) : Int := (n.exponent.map Exponent.value).getD 0 - n.fraction.length

/-- The digits and the exponent are spelled with digits. -/
def Spelled (n : Numeral) : Prop :=
  n.whole ≠ [] ∧ (∀ b ∈ n.whole, isDigit b = true) ∧ (∀ b ∈ n.fraction, isDigit b = true) ∧
    ∀ x ∈ n.exponent, x.Spelled

def NoLeadingZero (n : Numeral) : Prop :=
  n.whole = [digit 0] ∨ ∃ d ds, n.whole = d :: ds ∧ 49 ≤ d.toNat ∧ d.toNat ≤ 57

def value (n : Numeral) : ℚ :=
  (if n.negative then -1 else 1) * n.digits * 10 ^ n.scale

end Numeral

theorem ten_zpow_eq (e : Int) : (10 : ℚ) ^ e = 10 ^ e.toNat / 10 ^ (-e).toNat := by
  rw [← zpow_natCast, ← zpow_natCast, ← zpow_sub₀ (by norm_num), Int.toNat_sub_toNat_neg]

end Decimal
