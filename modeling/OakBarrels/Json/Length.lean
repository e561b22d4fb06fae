import OakBarrels.Json.Encoding

/-!
# How long a number is

No number takes more than twenty-five bytes.
-/

open Octets Binary64 Decimal Conversion

namespace OakBarrels.Json

/-! ## The exponent -/

theorem clog_small {n d b : Nat} (hn : 0 < n) (hd : d < 2 ^ b) : Nat.clog 10 ((d + n - 1) / n) ≤ b := by
  have hquotient : (d + n - 1) / n ≤ d := by
    rcases Nat.eq_zero_or_pos d with rfl | hpos
    · rw [Nat.zero_add, Nat.div_eq_of_lt (by omega)]
    · rw [Nat.div_le_iff_le_mul_add_pred hn]
      have hproduct := Nat.le_mul_of_pos_left d hn
      omega
  refine Nat.clog_le_of_le_pow (hquotient.trans (hd.le.trans ?_))
  exact Nat.pow_le_pow_left (by decide) b

theorem log_small {n d b : Nat} (hn : n < 2 ^ b) : Nat.log 10 (n / d) ≤ b := by
  refine (Nat.log_mono_right (Nat.div_le_self n d)).trans ?_
  by_cases hzero : n = 0
  · simp [hzero]
  · refine (Nat.log_lt_of_lt_pow hzero (hn.trans_le ?_)).le
    exact Nat.pow_le_pow_left (by decide) b

theorem decade_small {n d b : Nat} (hpos : 0 < n) (hn : n < 2 ^ b) (hd : d < 2 ^ b) :
    (decade n d).natAbs ≤ b := by
  unfold decade
  split
  · exact (Int.natAbs_natCast _).trans_le (log_small hn)
  · exact (Int.natAbs_neg _).trans_le ((Int.natAbs_natCast _).trans_le (clog_small hpos hd))

theorem seventeen_exponent {n d b : Nat} (hpos : 0 < n) (hn : n < 2 ^ b) (hd : d < 2 ^ b) :
    (seventeen n d).2.natAbs ≤ b + 1 := by
  have hdecade := decade_small hpos hn hd
  unfold seventeen
  simp only
  split <;> omega

theorem exponentText_length {k : Int} (h : k.natAbs < 10 ^ 4) : (exponentG17 k).text.length ≤ 6 := by
  have hdigits : (exponentDigits k.natAbs).length ≤ 4 := by
    unfold exponentDigits
    split
    · rename_i hsmall
      have hone := decimal_length_le (k := 0) (n := k.natAbs) (by omega)
      simp only [List.length_cons]
      omega
    · exact decimal_length_le h
  simp only [exponentG17, Exponent.text, List.length_cons, List.length_append, List.length_nil]
  omega

/-! ## The numeral -/

theorem trimZeros_length (ds : Bytes) : (trimZeros ds).length ≤ ds.length := by
  obtain ⟨k, hk⟩ := trimZeros_append ds
  have hlength := congrArg List.length hk
  rw [List.length_append] at hlength
  omega

theorem text_length (n : Numeral) :
    n.text.length ≤ n.whole.length + n.fraction.length + n.exponentText.length + 2 := by
  have hsign : n.signText.length ≤ 1 := by
    unfold Numeral.signText
    split <;> simp
  have hfraction : n.fractionText.length ≤ n.fraction.length + 1 := by
    unfold Numeral.fractionText
    split <;> simp
  simp only [Numeral.text, List.length_append]
  omega

theorem layoutG17_length (negative : Bool) {digits : Bytes} {k : Int} (hdigits : digits.length = 17)
    (hk : k.natAbs < 10 ^ 4) : (layoutG17 negative digits k).text.length ≤ 25 := by
  refine (text_length _).trans ?_
  have htrim := fun ds => trimZeros_length ds
  unfold layoutG17
  split_ifs with hplain hnonneg
  · have hfraction := htrim (digits.drop (k.toNat + 1))
    simp only [Numeral.exponentText, Option.map_none, Option.getD_none, List.length_nil,
      List.length_take, List.length_drop] at hfraction ⊢
    omega
  · have hfraction := htrim (List.replicate (-k - 1).toNat (digit 0) ++ digits)
    simp only [Numeral.exponentText, Option.map_none, Option.getD_none, List.length_nil,
      List.length_cons, List.length_append, List.length_replicate] at hfraction ⊢
    omega
  · have hfraction := htrim (digits.drop 1)
    have hexponent := exponentText_length hk
    simp only [Numeral.exponentText, Option.map_some, Option.getD_some, List.length_take,
      List.length_drop] at hfraction ⊢
    omega

theorem formatG17_length (s : Bool) (a : Magnitude) : (formatG17 (.finite s a)).length ≤ 25 := by
  unfold formatG17
  simp only
  split
  · cases s <;> decide
  · rename_i hzero
    have hpos : 0 < a.significand := by omega
    obtain ⟨hsignificand, hlow, hhigh, -⟩ := a.canonical
    obtain ⟨b, hb⟩ : ∃ b : Nat, b = 1100 := ⟨_, rfl⟩
    have hn : a.significand * 2 ^ a.exponent.toNat < 2 ^ b := by
      calc a.significand * 2 ^ a.exponent.toNat < 2 ^ 53 * 2 ^ a.exponent.toNat :=
            Nat.mul_lt_mul_of_pos_right hsignificand (by positivity)
        _ = 2 ^ (53 + a.exponent.toNat) := (pow_add ..).symm
        _ ≤ 2 ^ b := Nat.pow_le_pow_right (by decide) (by omega)
    have hd : 2 ^ (-a.exponent).toNat < 2 ^ b := Nat.pow_lt_pow_right (by decide) (by omega)
    have hproduct : 0 < a.significand * 2 ^ a.exponent.toNat := by positivity
    obtain ⟨hlo, hhi, -⟩ := seventeen_spec _ (2 ^ (-a.exponent).toNat) hproduct (by positivity)
    have hexponent := seventeen_exponent hproduct hn hd
    exact layoutG17_length s (decimal_length _ 16 hlo hhi) (by omega)

theorem number_length (x : Double) : (writeNumber x).length ≤ 25 := by
  unfold writeNumber
  split
  · decide
  rename_i hfinite
  cases x with
  | finite s a =>
    split
    · rename_i hinteger
      have hsmall : (Double.finite s a).truncate.natAbs < 10 ^ 15 := by
        rw [ofInt_exact _ (by decide), Double.abs, lt_finite, ofNat_value] at hinteger
        have hvalue := integer_of_floor s a hinteger.1
        have hlt : a.value < (10 ^ 15 : Nat) := by simpa [signed] using hinteger.2
        rw [hvalue] at hlt
        have hnat : (Double.finite s a).truncate.natAbs = a.truncate := by
          cases s <;> simp [Double.truncate]
        rw [hnat]
        exact_mod_cast hlt
      have hdecimal := decimal_length_le (k := 14) hsmall
      unfold stdToString
      split
      · rw [List.length_cons]
        omega
      · omega
    · exact formatG17_length s a
  | _ => simp [Double.isFinite] at hfinite

end OakBarrels.Json
