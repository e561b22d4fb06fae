import OakBarrels.Lib.Conversion

/-!
# Rounding keeps the order

Rounding to nearest does not pass a number that the format has: what is at least such a number is
still at least that number when it is rounded, and so with at most.
-/

open Octets Binary64 Decimal

namespace Binary64

/-! ## In units -/

theorem le_nearestEven {num den k : Nat} (hd : 0 < den) (h : k * den ≤ num) : k ≤ nearestEven num den := by
  have hquotient : k ≤ num / den := (Nat.le_div_iff_mul_le hd).mpr h
  unfold nearestEven
  simp only
  split_ifs <;> omega

theorem nearestEven_le {num den k : Nat} (hd : 0 < den) (h : num ≤ k * den) : nearestEven num den ≤ k := by
  have hsplit := Nat.div_add_mod' num den
  have hquotient : num / den ≤ k := Nat.div_le_of_le_mul (by rwa [Nat.mul_comm])
  rcases hquotient.lt_or_eq with hlt | heq
  · unfold nearestEven
    simp only
    split_ifs <;> omega
  · have hzero : num % den = 0 := by
      rw [heq] at hsplit
      omega
    unfold nearestEven
    simp only [hzero]
    rw [if_pos (by omega)]
    exact hquotient

section

variable {n d k : Nat} {e : Int}

theorem quotient_units (hd : 0 < d) : (n : ℚ) / d / 2 ^ e =
    ((n * 2 ^ (-e).toNat : Nat) : ℚ) / ((d * 2 ^ e.toNat : Nat) : ℚ) := by
  have hdq : (0 : ℚ) < d := by exact_mod_cast hd
  rw [two_zpow_eq]
  push_cast
  field_simp

theorem le_roundAt (hd : 0 < d) (h : (k : ℚ) ≤ n / d / 2 ^ e) : k ≤ roundAt n d e := by
  have hpos : 0 < d * 2 ^ e.toNat := by positivity
  rw [quotient_units hd, le_div_iff₀ (by exact_mod_cast hpos)] at h
  exact le_nearestEven hpos (by exact_mod_cast h)

theorem roundAt_le (hd : 0 < d) (h : (n : ℚ) / d / 2 ^ e ≤ k) : roundAt n d e ≤ k := by
  have hpos : 0 < d * 2 ^ e.toNat := by positivity
  rw [quotient_units hd, div_le_iff₀ (by exact_mod_cast hpos)] at h
  exact nearestEven_le hpos (by exact_mod_cast h)

/-- A quotient of fifty-three binary digits keeps them. -/
theorem full_le_roundAt (hd : 0 < d) (h : (2 : ℚ) ^ (e + 52) ≤ n / d) : 2 ^ 52 ≤ roundAt n d e := by
  refine le_roundAt hd ?_
  rw [le_div_iff₀ (two_zpow_pos e)]
  rw [zpow_add₀ (by norm_num), mul_comm] at h
  exact_mod_cast h

end

/-- A magnitude in units that are no larger than its own. -/
theorem Magnitude.units (a : Magnitude) {e : Int} (h : e ≤ a.exponent) :
    ∃ k : Nat, a.value = k * 2 ^ e := by
  refine ⟨a.significand * 2 ^ (a.exponent - e).toNat, ?_⟩
  have hsum : a.exponent = ((a.exponent - e).toNat : Int) + e := by omega
  rw [Magnitude.value]
  conv_lhs => rw [hsum]
  rw [zpow_add₀ (by norm_num), zpow_natCast]
  push_cast
  ring

theorem Magnitude.value_lt (a : Magnitude) : a.value < 2 ^ (a.exponent + 53) := by
  have hlt : (a.significand : ℚ) < 2 ^ 53 := by exact_mod_cast a.canonical.1
  rw [Magnitude.value, zpow_add₀ (by norm_num), mul_comm]
  exact mul_lt_mul_of_pos_left hlt (two_zpow_pos _)

/-! ## The number that is packed -/

section

variable {negative : Bool} {m : Nat} {e : Int}

theorem pack_value {b : Magnitude} (h : pack negative m e = .finite negative b) :
    b.value = m * 2 ^ e := by
  unfold pack at h
  split at h
  · cases h
    rfl
  · split at h
    · rename_i hcarry
      cases h
      change ((2 ^ 52 : Nat) : ℚ) * 2 ^ (e + 1) = m * 2 ^ e
      rw [hcarry.1, zpow_add_one₀ (by norm_num)]
      push_cast
      ring
    · cases h

theorem pack_negative {s : Bool} {b : Magnitude} (h : pack negative m e = .finite s b) :
    s = negative := by
  unfold pack at h
  split_ifs at h <;> cases h <;> rfl

theorem pack_finite (hm : m ≤ 2 ^ 53) (hlow : -1074 ≤ e) (hfull : 2 ^ 52 ≤ m ∨ e = -1074)
    (hlt : (m : ℚ) * 2 ^ e < 2 ^ (1024 : Int)) : ∃ b, pack negative m e = .finite negative b := by
  have hbound : 2 ^ 52 ≤ m → e < 972 := by
    intro h52
    have h52q : ((2 : ℚ)) ^ (52 : Int) ≤ m := by exact_mod_cast h52
    have hpow : ((2 : ℚ)) ^ ((52 : Int) + e) < 2 ^ (1024 : Int) := by
      rw [zpow_add₀ (by norm_num)]
      exact (mul_le_mul_of_nonneg_right h52q (two_zpow_pos e).le).trans_lt hlt
    have hexp := (zpow_lt_zpow_iff_right₀ (by norm_num)).mp hpow
    omega
  have hcarried : m = 2 ^ 53 → e < 971 := by
    intro h53
    have hpow : ((2 : ℚ)) ^ ((53 : Int) + e) < 2 ^ (1024 : Int) := by
      rw [zpow_add₀ (by norm_num)]
      rw [h53] at hlt
      exact_mod_cast hlt
    have hexp := (zpow_lt_zpow_iff_right₀ (by norm_num)).mp hpow
    omega
  unfold pack
  split
  · exact ⟨_, rfl⟩
  · rename_i hnot
    split
    · exact ⟨_, rfl⟩
    · rename_i hnot'
      refine absurd ?_ hnot
      have hne : m ≠ 2 ^ 53 := fun h => hnot' ⟨h, hlow, hcarried h⟩
      refine ⟨by omega, hlow, ?_, hfull⟩
      rcases hfull with h52 | hmin
      · have := hbound h52
        omega
      · omega

end

/-! ## Rounding -/

section

variable {negative : Bool} {n d : Nat} {a b : Magnitude}

/-- The unit in which a quotient is rounded. -/
def unit (n d : Nat) : Int := max (binade n d - 52) (-1074)

theorem round_unit (hn : 0 < n) : round negative n d = pack negative (roundAt n d (unit n d)) (unit n d) := by
  unfold round
  rw [if_neg hn.ne']
  rfl

theorem round_negative {s : Bool} (h : round negative n d = .finite s b) : s = negative := by
  unfold round at h
  split at h
  · cases h
    rfl
  · exact pack_negative h

/-- In its unit a quotient has at most fifty-three binary digits, and as many unless the unit is the
least. -/
theorem unit_spec (hn : 0 < n) (hd : 0 < d) : (n : ℚ) / d < 2 ^ (unit n d + 53) ∧
    ((2 : ℚ) ^ (unit n d + 52) ≤ n / d ∨ unit n d = -1074) := by
  obtain ⟨hlow, hhigh⟩ := binade_spec n d hn hd
  refine ⟨hhigh.trans_le (zpow_le_zpow_right₀ (by norm_num) ?_), ?_⟩
  · unfold unit
    omega
  · rcases le_or_gt (binade n d - 52) (-1074) with hmin | hmore
    · exact .inr (max_eq_right hmin)
    · refine .inl (le_trans (zpow_le_zpow_right₀ (by norm_num) ?_) hlow)
      unfold unit
      omega

theorem le_round (hd : 0 < d) (h : a.value ≤ n / d) (hb : round negative n d = .finite negative b) :
    a.value ≤ b.value := by
  rcases Nat.eq_zero_or_pos n with rfl | hn
  · rw [round_zero] at hb
    cases hb
    simpa using h
  obtain ⟨-, hfull⟩ := unit_spec hn hd
  rw [round_unit hn] at hb
  rw [pack_value hb]
  generalize unit n d = e at *
  have hpos := two_zpow_pos e
  rcases le_or_gt e a.exponent with hcoarse | hfine
  · obtain ⟨k, hk⟩ := a.units hcoarse
    rw [hk] at h ⊢
    have hunits : k ≤ roundAt n d e := le_roundAt hd ((le_div_iff₀ hpos).mpr h)
    exact mul_le_mul_of_nonneg_right (by exact_mod_cast hunits) hpos.le
  · -- The rounding is in larger units, so the quotient is beyond the binade of `a`.
    have hmin := a.canonical.2.1
    have h52 : (2 : ℚ) ^ (e + 52) ≤ n / d := hfull.resolve_right (by omega)
    have hunits : 2 ^ 52 ≤ roundAt n d e := full_le_roundAt hd h52
    have hscaled : (2 : ℚ) ^ (e + 52) ≤ roundAt n d e * 2 ^ e := by
      rw [zpow_add₀ (by norm_num), mul_comm]
      exact mul_le_mul_of_nonneg_right (by exact_mod_cast hunits) hpos.le
    exact (a.value_lt.le.trans (zpow_le_zpow_right₀ (by norm_num) (by omega))).trans hscaled

theorem round_le (hd : 0 < d) (h : (n : ℚ) / d ≤ a.value) :
    ∃ b, round negative n d = .finite negative b ∧ b.value ≤ a.value := by
  rcases Nat.eq_zero_or_pos n with rfl | hn
  · refine ⟨.zero, round_zero negative d, ?_⟩
    rw [zero_value]
    simpa using h
  obtain ⟨hlt, hfull⟩ := unit_spec hn hd
  have hlow : -1074 ≤ unit n d := le_max_right _ _
  rw [round_unit hn]
  generalize unit n d = e at *
  have hpos := two_zpow_pos e
  have hcoarse : e ≤ a.exponent := by
    rcases hfull with h52 | hmin
    · have hpow := h52.trans_lt (h.trans_lt a.value_lt)
      have hexp := (zpow_lt_zpow_iff_right₀ (by norm_num)).mp hpow
      omega
    · have := a.canonical.2.1
      omega
  obtain ⟨k, hk⟩ := a.units hcoarse
  have hunits : roundAt n d e ≤ k := roundAt_le hd ((div_le_iff₀ hpos).mpr (hk ▸ h))
  have hvalue : (roundAt n d e : ℚ) * 2 ^ e ≤ a.value := by
    rw [hk]
    exact mul_le_mul_of_nonneg_right (by exact_mod_cast hunits) hpos.le
  have hbounded : roundAt n d e ≤ 2 ^ 53 := by
    refine roundAt_le hd ?_
    rw [div_le_iff₀ hpos]
    rw [zpow_add₀ (by norm_num), mul_comm] at hlt
    exact_mod_cast hlt.le
  have hfilled : 2 ^ 52 ≤ roundAt n d e ∨ e = -1074 := hfull.imp_left (full_le_roundAt hd)
  have hsmall : a.value < 2 ^ (1024 : Int) := by
    have hmax := a.canonical.2.2.1
    exact a.value_lt.trans_le (zpow_le_zpow_right₀ (by norm_num) (by omega))
  obtain ⟨b, hb⟩ := @pack_finite negative _ _ hbounded hlow hfilled (hvalue.trans_lt hsmall)
  exact ⟨b, hb, (pack_value hb).trans_le hvalue⟩

end

end Binary64

/-! ## The double nearest to a numeral -/

namespace Conversion

variable {n : Numeral} {k : Nat} {q : ℚ}

/-- What a numeral is without its sign, as the quotient that is rounded. -/
def size (n : Numeral) : ℚ :=
  ((n.digits * 10 ^ n.scale.toNat : Nat) : ℚ) / ((10 ^ (-n.scale).toNat : Nat) : ℚ)

theorem size_nonneg (n : Numeral) : 0 ≤ size n := by
  unfold size
  positivity

theorem value_size (n : Numeral) : n.value = signed n.negative (size n) := by
  rw [size, numeral_quotient, Numeral.value, signed]
  split <;> ring

theorem nearest_signed (hq : (nearest n).value = some q) :
    ∃ b, nearest n = .finite n.negative b ∧ q = signed n.negative b.value := by
  cases hround : nearest n with
  | nan => simp [hround, Double.value] at hq
  | inf s => simp [hround, Double.value] at hq
  | finite s b =>
    obtain rfl := round_negative hround
    rw [hround] at hq
    exact ⟨b, rfl, (Option.some.inj hq).symm⟩

theorem size_le {a : Magnitude} (h : size n ≤ a.value) :
    ∃ b, nearest n = .finite n.negative b ∧ b.value ≤ a.value :=
  round_le (by positivity) h

/-- A numeral that is at most a number is so when it is rounded. -/
theorem nearest_le (hk : k < 2 ^ 53) (h : n.value ≤ k) (hq : (nearest n).value = some q) : q ≤ k := by
  obtain ⟨b, hround, rfl⟩ := nearest_signed hq
  rw [value_size] at h
  cases hnegative : n.negative with
  | true =>
    have hb := value_nonneg b
    have hnn : (0 : ℚ) ≤ k := Nat.cast_nonneg k
    simp only [signed, if_true]
    linarith
  | false =>
    simp only [hnegative, signed, Bool.false_eq_true, if_false] at h ⊢
    rw [← ofNat_value k hk] at h ⊢
    obtain ⟨b', hb', hle⟩ := size_le h
    rw [hround] at hb'
    cases hb'
    exact hle

/-- And so with at least. -/
theorem le_nearest (hk : k < 2 ^ 53) (h : (k : ℚ) ≤ n.value) (hq : (nearest n).value = some q) :
    k ≤ q := by
  obtain ⟨b, hround, rfl⟩ := nearest_signed hq
  rw [value_size] at h
  cases hnegative : n.negative with
  | true =>
    -- Only zero is spelled with a sign and is not below zero.
    have hnn : (0 : ℚ) ≤ k := Nat.cast_nonneg k
    have hsize := size_nonneg n
    simp only [hnegative, signed, if_true] at h ⊢
    have hzero : size n ≤ Magnitude.zero.value := by
      rw [zero_value]
      linarith
    obtain ⟨b', hb', hle⟩ := size_le hzero
    rw [hround] at hb'
    cases hb'
    rw [zero_value] at hle
    linarith
  | false =>
    simp only [hnegative, signed, Bool.false_eq_true, if_false] at h ⊢
    rw [← ofNat_value k hk] at h ⊢
    exact le_round (by positivity) h hround

/-- What is rounded is finite where it is between zero and a number. -/
theorem nearest_finite (hk : k < 2 ^ 53) (hlow : 0 ≤ n.value) (h : n.value ≤ k) :
    ∃ q, (nearest n).value = some q := by
  have hsize : size n ≤ (Magnitude.ofNat k hk).value := by
    have hnn := size_nonneg n
    rw [ofNat_value]
    rw [value_size] at hlow h
    cases hnegative : n.negative <;> simp only [hnegative, signed, if_true, Bool.false_eq_true,
      if_false] at hlow h <;> linarith
  obtain ⟨b, hround, -⟩ := size_le hsize
  exact ⟨_, by rw [hround]; rfl⟩

end Conversion
