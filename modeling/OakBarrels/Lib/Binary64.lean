import Mathlib.Tactic
import Mathlib.Data.Rat.Floor
import Mathlib.Algebra.Order.Floor.Semifield

/-!
# IEEE 754 binary64

Doubles as sign, significand and exponent, the comparisons, the conversions to and from integers,
and rounding to nearest, ties to even. Everything computes on natural numbers, so that a closed
fact about a double can be evaluated; the lemmas speak about rational values.
-/

namespace Binary64

/-- The significand and exponent that the format stores for a finite number. -/
def Canonical (m : Nat) (e : Int) : Prop :=
  m < 2 ^ 53 ∧ -1074 ≤ e ∧ e ≤ 971 ∧ (2 ^ 52 ≤ m ∨ e = -1074)

instance (m : Nat) (e : Int) : Decidable (Canonical m e) := by
  unfold Canonical; infer_instance

structure Magnitude where
  significand : Nat
  exponent : Int
  canonical : Canonical significand exponent
deriving DecidableEq

inductive Double
  | nan
  | inf (negative : Bool)
  | finite (negative : Bool) (magnitude : Magnitude)
deriving DecidableEq

def Magnitude.zero : Magnitude := ⟨0, -1074, by decide⟩

def Magnitude.value (a : Magnitude) : ℚ := a.significand * 2 ^ a.exponent

def signed (negative : Bool) (q : ℚ) : ℚ := if negative then -q else q

/-- The number a double stands for, when it stands for one. -/
def Double.value : Double → Option ℚ
  | .finite negative a => some (signed negative a.value)
  | _ => none

def Double.isFinite : Double → Bool
  | .finite _ _ => true
  | _ => false

/-! ## Rounding -/

/-- `num / den` rounded to the nearest natural number, ties to even. -/
def nearestEven (num den : Nat) : Nat :=
  let q := num / den
  let r := num % den
  if 2 * r < den then q else if den < 2 * r then q + 1 else q + q % 2

/-- The exponent of the binade of `n / d`: `2 ^ k ≤ n / d < 2 ^ (k + 1)`. -/
def binade (n d : Nat) : Int :=
  let k : Int := (Nat.log2 n : Int) - Nat.log2 d
  if d * 2 ^ k.toNat ≤ n * 2 ^ (-k).toNat then k else k - 1

def roundAt (n d : Nat) (e : Int) : Nat :=
  nearestEven (n * 2 ^ (-e).toNat) (d * 2 ^ e.toNat)

theorem canonical_carry (e : Int) (h : -1074 ≤ e ∧ e < 971) : Canonical (2 ^ 52) (e + 1) := by
  refine ⟨by norm_num, by omega, by omega, Or.inl le_rfl⟩

/-- A significand with its exponent; one that rounding carried to `2 ^ 53` moves up a binade, and
what is then still too large is infinite. -/
def pack (negative : Bool) (m : Nat) (e : Int) : Double :=
  if h : Canonical m e then .finite negative ⟨m, e, h⟩
  else if h : m = 2 ^ 53 ∧ -1074 ≤ e ∧ e < 971 then
    .finite negative ⟨2 ^ 52, e + 1, canonical_carry e h.2⟩
  else .inf negative

def round (negative : Bool) (n d : Nat) : Double :=
  if n = 0 then .finite negative .zero
  else
    let e := max (binade n d - 52) (-1074)
    pack negative (roundAt n d e) e

/-- `static_cast<double>` of an integer. -/
def Double.ofInt (n : Int) : Double := round (n < 0) n.natAbs 1

/-! ## Reading a double back -/

def Magnitude.truncate (a : Magnitude) : Nat :=
  a.significand * 2 ^ a.exponent.toNat / 2 ^ (-a.exponent).toNat

/-- The integer part of a finite double, toward zero. -/
def Double.truncate : Double → Int
  | .finite negative a => if negative then -(a.truncate : Int) else a.truncate
  | _ => 0

def Double.floor : Double → Double
  | .finite negative a =>
    if a.truncate * 2 ^ (-a.exponent).toNat = a.significand * 2 ^ a.exponent.toNat then
      .finite negative a
    else if negative then .ofInt (-(a.truncate : Int) - 1)
    else .ofInt a.truncate
  | x => x

def Double.abs : Double → Double
  | .nan => .nan
  | .inf _ => .inf false
  | .finite _ a => .finite false a

def scaled (negative : Bool) (a : Magnitude) (e : Int) : Int :=
  let m : Int := (a.significand * 2 ^ (a.exponent - e).toNat : Nat)
  if negative then -m else m

/-- The order of two doubles, when neither is NaN. -/
def Double.compare : Double → Double → Option Ordering
  | .nan, _ => none
  | _, .nan => none
  | .inf s, .inf t => some (if s = t then .eq else if s then .lt else .gt)
  | .inf s, .finite _ _ => some (if s then .lt else .gt)
  | .finite _ _, .inf t => some (if t then .gt else .lt)
  | .finite s a, .finite t b =>
    let e := min a.exponent b.exponent
    some (Ord.compare (scaled s a e) (scaled t b e))

def Double.beq (x y : Double) : Bool := x.compare y = some .eq

def Double.lt (x y : Double) : Bool := x.compare y = some .lt

def Double.le (x y : Double) : Bool := x.lt y || x.beq y

example : Double.beq (.ofInt 3) (round false 3 1) = true := by decide
example : Double.lt (.ofInt 2) (round false 5 2) = true := by decide
example : (round true 5 2).floor = .ofInt (-3) := by decide


/-! ## Rounding finds the nearest double -/

theorem two_zpow_pos (e : Int) : (0 : ℚ) < 2 ^ e := zpow_pos (by norm_num) e

theorem value_nonneg (a : Magnitude) : 0 ≤ a.value := by
  unfold Magnitude.value
  positivity

theorem two_zpow_eq (e : Int) : (2 : ℚ) ^ e = 2 ^ e.toNat / 2 ^ (-e).toNat := by
  rw [← zpow_natCast, ← zpow_natCast, ← zpow_sub₀ (by norm_num), Int.toNat_sub_toNat_neg]

/-- Equal magnitudes have equal fields: the format stores every number in one way only. -/
theorem magnitude_ext {a b : Magnitude} (h : a.value = b.value) : a = b := by
  wlog hle : a.exponent ≤ b.exponent generalizing a b
  · exact (this h.symm (by omega)).symm
  obtain ⟨m, e, hm⟩ := a
  obtain ⟨m', e', hm'⟩ := b
  obtain ⟨k, hk⟩ := Int.eq_ofNat_of_zero_le (show 0 ≤ e' - e by simp only at hle; omega)
  obtain rfl : e' = k + e := by omega
  simp only [Magnitude.value] at h
  rw [zpow_add₀ (by norm_num : (2 : ℚ) ≠ 0), ← mul_assoc] at h
  have hmk : m = m' * 2 ^ k := by
    have := mul_right_cancel₀ (two_zpow_pos e).ne' h
    exact_mod_cast this
  rcases Nat.eq_zero_or_pos k with rfl | hpos
  · simp [hmk]
  · -- A larger exponent needs a full significand, which shifted down would not fit.
    obtain ⟨hlt, hlo, -, -⟩ := hm
    obtain ⟨-, -, -, hfull⟩ := hm'
    have h52 : 2 ^ 52 ≤ m' := by omega
    have h2 : 2 ^ 1 ≤ 2 ^ k := Nat.pow_le_pow_right (by norm_num) hpos
    have : 2 ^ 52 * 2 ^ 1 ≤ m' * 2 ^ k := Nat.mul_le_mul h52 h2
    omega

theorem binade_spec (n d : Nat) (hn : 0 < n) (hd : 0 < d) :
    (2 : ℚ) ^ binade n d ≤ n / d ∧ (n : ℚ) / d < 2 ^ (binade n d + 1) := by
  have hn1 : ((2 : ℚ)) ^ (n.log2 : Int) ≤ n := by exact_mod_cast Nat.log2_self_le hn.ne'
  have hn2 : (n : ℚ) < 2 ^ ((n.log2 : Int) + 1) := by exact_mod_cast Nat.lt_log2_self
  have hd1 : ((2 : ℚ)) ^ (d.log2 : Int) ≤ d := by exact_mod_cast Nat.log2_self_le hd.ne'
  have hd2 : (d : ℚ) < 2 ^ ((d.log2 : Int) + 1) := by exact_mod_cast Nat.lt_log2_self
  have hdq : (0 : ℚ) < d := by exact_mod_cast hd
  have hupper : (n : ℚ) / d < 2 ^ ((n.log2 : Int) - d.log2 + 1) := by
    rw [div_lt_iff₀ hdq]
    calc (n : ℚ) < 2 ^ ((n.log2 : Int) + 1) := hn2
      _ = 2 ^ ((n.log2 : Int) - d.log2 + 1) * 2 ^ (d.log2 : Int) := by
        rw [← zpow_add₀ (by norm_num)]; ring_nf
      _ ≤ _ := by gcongr
  have hlower : (2 : ℚ) ^ ((n.log2 : Int) - d.log2 - 1) ≤ n / d := by
    rw [le_div_iff₀ hdq]
    calc (2 : ℚ) ^ ((n.log2 : Int) - d.log2 - 1) * d
        ≤ 2 ^ ((n.log2 : Int) - d.log2 - 1) * 2 ^ ((d.log2 : Int) + 1) := by gcongr
      _ = 2 ^ (n.log2 : Int) := by rw [← zpow_add₀ (by norm_num)]; ring_nf
      _ ≤ n := hn1
  have htest : ∀ k : Int, d * 2 ^ k.toNat ≤ n * 2 ^ (-k).toNat ↔ (2 : ℚ) ^ k ≤ n / d := by
    intro k
    rw [two_zpow_eq, div_le_div_iff₀ (by positivity) hdq, mul_comm ((2 : ℚ) ^ _)]
    exact_mod_cast Iff.rfl
  unfold binade
  simp only
  split <;> rename_i h
  · exact ⟨(htest _).mp h, hupper⟩
  · refine ⟨hlower, ?_⟩
    rw [htest, not_le] at h
    simpa using h

theorem binade_eq (n d : Nat) (hn : 0 < n) (hd : 0 < d) (k : Int)
    (hlo : (2 : ℚ) ^ k ≤ n / d) (hhi : (n : ℚ) / d < 2 ^ (k + 1)) : binade n d = k := by
  obtain ⟨h1, h2⟩ := binade_spec n d hn hd
  have a := (zpow_lt_zpow_iff_right₀ (by norm_num : (1 : ℚ) < 2)).mp (h1.trans_lt hhi)
  have b := (zpow_lt_zpow_iff_right₀ (by norm_num : (1 : ℚ) < 2)).mp (hlo.trans_lt h2)
  omega

theorem nearestEven_eq (num den m : Nat) (hd : 0 < den)
    (h : |(num : ℚ) / den - m| < 1 / 2) : nearestEven num den = m := by
  have hdq : (0 : ℚ) < den := by exact_mod_cast hd
  have hlt := Nat.mod_lt num hd
  have hnum : (num : ℚ) / den = (num / den : Nat) + ((num % den : Nat) : ℚ) / den := by
    rw [div_eq_iff hdq.ne', add_mul, div_mul_cancel₀ _ hdq.ne']
    exact_mod_cast (Nat.div_add_mod' num den).symm
  rw [hnum, abs_lt] at h
  unfold nearestEven
  generalize num / den = q at *
  generalize num % den = r at *
  obtain ⟨hlo, hhi⟩ := h
  have hr : (0 : ℚ) ≤ r / den := by positivity
  have hr1 : (r : ℚ) / den < 1 := by rw [div_lt_one hdq]; exact_mod_cast hlt
  have hsame : ∀ a b : Nat, (a : ℚ) < b + 1 → (b : ℚ) < a + 1 → a = b := by
    intro a b h1 h2
    have h1' : a < b + 1 := by exact_mod_cast h1
    have h2' : b < a + 1 := by exact_mod_cast h2
    omega
  simp only
  split_ifs with h1 h2
  · have : (r : ℚ) / den < 1 / 2 := by
      rw [div_lt_iff₀ hdq]
      have : (2 * r : ℚ) < den := by exact_mod_cast h1
      linarith
    exact hsame _ _ (by linarith) (by linarith)
  · have : 1 / 2 < (r : ℚ) / den := by
      rw [lt_div_iff₀ hdq]
      have : (den : ℚ) < 2 * r := by exact_mod_cast h2
      linarith
    exact hsame _ _ (by push_cast; linarith) (by push_cast; linarith)
  · -- A tie is exactly half a unit from every integer, so it is nearer to none.
    have htie : (r : ℚ) / den = 1 / 2 := by
      rw [div_eq_iff hdq.ne']
      have : (2 * r : ℚ) = den := by exact_mod_cast (show 2 * r = den by omega)
      linarith
    rw [htie] at hlo hhi
    have h1' : (q : ℚ) < m := by linarith
    have h2' : (m : ℚ) < q + 1 := by linarith
    have h1'' : q < m := by exact_mod_cast h1'
    have h2'' : m < q + 1 := by exact_mod_cast h2'
    omega

theorem roundAt_eq (n d m : Nat) (e : Int) (hd : 0 < d)
    (h : |(n : ℚ) / d / 2 ^ e - m| < 1 / 2) : roundAt n d e = m := by
  apply nearestEven_eq _ _ _ (by positivity)
  rw [two_zpow_eq] at h
  have hdq : (0 : ℚ) < d := by exact_mod_cast hd
  have : ((n * 2 ^ (-e).toNat : Nat) : ℚ) / ((d * 2 ^ e.toNat : Nat) : ℚ) =
      (n : ℚ) / d / (2 ^ e.toNat / 2 ^ (-e).toNat) := by
    push_cast
    field_simp
  rwa [this]

/-- `y` is nearer to the magnitude `a` than to any other. Below the least significand of a binade
the next magnitude is only half a unit away. -/
def Nearest (y : ℚ) (a : Magnitude) : Prop :=
  |y / 2 ^ a.exponent - a.significand| < 1 / 2 ∧
    (a.exponent ≠ -1074 → (2 : ℚ) ^ 52 - 1 / 4 < y / 2 ^ a.exponent)

theorem binade_lt (n d : Nat) (hn : 0 < n) (hd : 0 < d) {e : Int} (k : Nat)
    (h : (n : ℚ) / d / 2 ^ e < 2 ^ k) : binade n d < k + e := by
  have hlt : (2 : ℚ) ^ binade n d < 2 ^ ((k : Int) + e) := by
    apply lt_of_le_of_lt (binade_spec n d hn hd).1
    rw [zpow_add₀ (by norm_num), zpow_natCast]
    rwa [div_lt_iff₀ (two_zpow_pos e)] at h
  exact (zpow_lt_zpow_iff_right₀ (by norm_num)).mp hlt

theorem binade_scaled (n d : Nat) (hn : 0 < n) (hd : 0 < d) {e : Int} (k : Nat)
    (hlo : (2 : ℚ) ^ k ≤ n / d / 2 ^ e) (hhi : (n : ℚ) / d / 2 ^ e < 2 ^ (k + 1)) :
    binade n d = k + e := by
  apply binade_eq n d hn hd
  · rw [zpow_add₀ (by norm_num), zpow_natCast]
    rwa [le_div_iff₀ (two_zpow_pos e)] at hlo
  · rw [show (k : Int) + e + 1 = ((k + 1 : Nat) : Int) + e by push_cast; ring,
      zpow_add₀ (by norm_num), zpow_natCast]
    rwa [div_lt_iff₀ (two_zpow_pos e)] at hhi

/-- The unit of the rounding is that of the magnitude. -/
theorem round_same_unit (negative : Bool) (n d : Nat) (hn : 0 < n) (hd : 0 < d) {m : Nat} {e : Int}
    (hcan : Canonical m e) (hnear : |(n : ℚ) / d / 2 ^ e - m| < 1 / 2)
    (hstay : (2 : ℚ) ^ 52 ≤ n / d / 2 ^ e ∨ e = -1074) :
    round negative n d = .finite negative ⟨m, e, hcan⟩ := by
  have hup : (n : ℚ) / d / 2 ^ e < 2 ^ 53 := by
    have h1 : (m : ℚ) + 1 ≤ 2 ^ 53 := by exact_mod_cast hcan.1
    have h2 := (abs_lt.mp hnear).2
    linarith
  have hexponent : max (binade n d - 52) (-1074) = e := by
    have hlt := binade_lt n d hn hd 53 hup
    have hlo := hcan.2.1
    rcases hstay with h52 | hmin
    · have hbinade := binade_scaled n d hn hd 52 h52 hup
      omega
    · omega
  unfold round
  rw [if_neg hn.ne']
  simp only [hexponent]
  rw [roundAt_eq n d m e hd hnear, pack, dif_pos hcan]

/-- Just below a power of two the unit is half as large, and rounding carries. -/
theorem round_half_unit (negative : Bool) (n d : Nat) (hn : 0 < n) (hd : 0 < d) {m : Nat} {e : Int}
    (hcan : Canonical m e) (hnear : |(n : ℚ) / d / 2 ^ e - m| < 1 / 2)
    (hbelow : (2 : ℚ) ^ 52 - 1 / 4 < n / d / 2 ^ e) (hlt : (n : ℚ) / d / 2 ^ e < 2 ^ 52)
    (hne : e ≠ -1074) : round negative n d = .finite negative ⟨m, e, hcan⟩ := by
  have hcan' := hcan
  obtain ⟨-, hlo, hhi, hfull⟩ := hcan'
  have h52 : m = 2 ^ 52 := by
    have hge : 2 ^ 52 ≤ m := by omega
    have hle : (m : ℚ) < 2 ^ 52 + 1 := by
      have := (abs_lt.mp hnear).1
      linarith
    have hle' : m < 2 ^ 52 + 1 := by exact_mod_cast hle
    omega
  have hexponent : max (binade n d - 52) (-1074) = e - 1 := by
    have hbinade := binade_scaled n d hn hd 51 (by linarith) hlt
    omega
  have hround : roundAt n d (e - 1) = 2 ^ 53 := by
    apply roundAt_eq n d _ _ hd
    have hhalf : (n : ℚ) / d / 2 ^ (e - 1) = 2 * (n / d / 2 ^ e) := by
      rw [zpow_sub_one₀ (by norm_num)]
      field_simp
    rw [hhalf, abs_lt]
    push_cast
    constructor <;> linarith
  have hnot : ¬ Canonical (2 ^ 53) (e - 1) := by
    rintro ⟨h, -⟩
    omega
  unfold round
  rw [if_neg hn.ne']
  simp only [hexponent]
  rw [hround, pack, dif_neg hnot, dif_pos ⟨rfl, by omega, by omega⟩]
  simp [h52]

theorem round_nearest (negative : Bool) (n d : Nat) (hn : 0 < n) (hd : 0 < d) (a : Magnitude)
    (h : Nearest (n / d) a) : round negative n d = .finite negative a := by
  obtain ⟨m, e, hcan⟩ := a
  obtain ⟨hnear, hbelow⟩ := h
  by_cases hstay : (2 : ℚ) ^ 52 ≤ n / d / 2 ^ e ∨ e = -1074
  · exact round_same_unit negative n d hn hd hcan hnear hstay
  · rw [not_or, not_le] at hstay
    exact round_half_unit negative n d hn hd hcan hnear (hbelow hstay.2) hstay.1 hstay.2

theorem round_exact (negative : Bool) (n d : Nat) (hn : 0 < n) (hd : 0 < d) (a : Magnitude)
    (h : (n : ℚ) / d = a.value) : round negative n d = .finite negative a := by
  have hunit : (n : ℚ) / d / 2 ^ a.exponent = a.significand := by
    rw [h, Magnitude.value, mul_div_cancel_right₀ _ (two_zpow_pos _).ne']
  apply round_nearest negative n d hn hd
  refine ⟨by rw [hunit, sub_self, abs_zero]; norm_num, ?_⟩
  intro hne
  rw [hunit]
  have hfull : 2 ^ 52 ≤ a.significand := by
    obtain ⟨-, -, -, h | h⟩ := a.canonical
    · exact h
    · exact absurd h hne
  have : ((2 : ℚ)) ^ 52 ≤ a.significand := by exact_mod_cast hfull
  linarith

@[simp] theorem round_zero (negative : Bool) (d : Nat) :
    round negative 0 d = .finite negative .zero := rfl

/-! ## Integers -/

theorem canonical_nat (n : Nat) (hpos : 0 < n) (h : n < 2 ^ 53) :
    Canonical (n * 2 ^ (52 - n.log2)) ((n.log2 : Int) - 52) := by
  have hlog : n.log2 ≤ 52 := by
    have := (Nat.log2_lt hpos.ne').mpr h
    omega
  have h1 := Nat.log2_self_le hpos.ne'
  have h2 : n < 2 ^ (n.log2 + 1) := Nat.lt_log2_self
  have hfull : 2 ^ 52 ≤ n * 2 ^ (52 - n.log2) := by
    calc 2 ^ 52 = 2 ^ n.log2 * 2 ^ (52 - n.log2) := by rw [← Nat.pow_add]; congr 1; omega
      _ ≤ _ := by gcongr
  have hfit : n * 2 ^ (52 - n.log2) < 2 ^ 53 := by
    calc n * 2 ^ (52 - n.log2) < 2 ^ (n.log2 + 1) * 2 ^ (52 - n.log2) := by gcongr
      _ = 2 ^ 53 := by rw [← Nat.pow_add]; congr 1; omega
  exact ⟨hfit, by omega, by omega, Or.inl hfull⟩

def Magnitude.ofNat (n : Nat) (h : n < 2 ^ 53) : Magnitude :=
  if hpos : 0 < n then ⟨n * 2 ^ (52 - n.log2), (n.log2 : Int) - 52, canonical_nat n hpos h⟩
  else .zero

@[simp] theorem zero_value : Magnitude.zero.value = 0 := by
  simp [Magnitude.value, Magnitude.zero]

@[simp] theorem ofNat_value (n : Nat) (h : n < 2 ^ 53) : (Magnitude.ofNat n h).value = n := by
  unfold Magnitude.ofNat
  split
  · rename_i hpos
    have hlog : n.log2 ≤ 52 := by
      have := (Nat.log2_lt hpos.ne').mpr h
      omega
    simp only [Magnitude.value]
    push_cast
    rw [mul_assoc, ← zpow_natCast, ← zpow_add₀ (by norm_num)]
    rw [show ((52 - n.log2 : Nat) : Int) + ((n.log2 : Int) - 52) = 0 by omega]
    simp
  · rename_i hpos
    obtain rfl : n = 0 := by omega
    simp

theorem ofInt_exact (n : Int) (h : n.natAbs < 2 ^ 53) :
    Double.ofInt n = .finite (n < 0) (.ofNat n.natAbs h) := by
  unfold Double.ofInt
  rcases Nat.eq_zero_or_pos n.natAbs with h0 | hpos
  · obtain rfl : n = 0 := by omega
    rfl
  · apply round_exact _ _ _ hpos one_pos
    simp

theorem truncate_spec (a : Magnitude) : a.truncate = ⌊a.value⌋₊ := by
  unfold Magnitude.truncate
  rw [← Nat.floor_div_eq_div (K := ℚ), Magnitude.value, two_zpow_eq]
  push_cast
  rw [mul_div_assoc]

theorem truncate_of_int (s : Bool) (a : Magnitude) (n : Int) (h : signed s a.value = n) :
    (Double.finite s a).truncate = n := by
  have hnat : ∀ k : Nat, a.value = k → a.truncate = k := by
    intro k hk
    rw [truncate_spec, hk, Nat.floor_natCast]
  have hnn : 0 ≤ a.value := by unfold Magnitude.value; positivity
  cases s
  · simp only [signed, Bool.false_eq_true, if_false] at h
    have h0 : 0 ≤ n := by exact_mod_cast h ▸ hnn
    obtain ⟨k, rfl⟩ := Int.eq_ofNat_of_zero_le h0
    simp [Double.truncate, hnat k (by simpa using h)]
  · simp only [signed, if_true] at h
    have h0 : 0 ≤ -n := by
      have : (0 : ℚ) ≤ ((-n : Int) : ℚ) := by push_cast; linarith
      exact_mod_cast this
    obtain ⟨k, hk⟩ := Int.eq_ofNat_of_zero_le h0
    obtain rfl : n = -(k : Int) := by omega
    simp only [Double.truncate, if_true]
    rw [hnat k (by push_cast at h; linarith)]

/-- The integer part, toward zero. -/
theorem truncate_value {x : Double} {q : ℚ} (h : x.value = some q) :
    x.truncate = if 0 ≤ q then ⌊q⌋ else ⌈q⌉ := by
  cases x with
  | finite s a =>
    have hnn : 0 ≤ a.value := by unfold Magnitude.value; positivity
    have hfloor : (a.truncate : Int) = ⌊a.value⌋ := by
      rw [truncate_spec, Int.natCast_floor_eq_floor hnn]
    obtain rfl : signed s a.value = q := Option.some.inj h
    cases s with
    | false => simp [Double.truncate, signed, hnn, hfloor]
    | true =>
      simp only [Double.truncate, signed, if_true, hfloor, Int.ceil_neg, Left.nonneg_neg_iff]
      split
      · rename_i hzero
        rw [le_antisymm hzero hnn]
        simp
      · rfl
  | _ => cases h

theorem truncate_lt {x : Double} {q : ℚ} (h : x.value = some q) {n : Int} (hn : 0 < n) :
    x.truncate < n ↔ q < n := by
  rw [truncate_value h]
  split
  · exact Int.floor_lt
  · rename_i hq
    rw [not_le] at hq
    have hceil : ⌈q⌉ ≤ 0 := Int.ceil_le.mpr (by exact_mod_cast hq.le)
    have hn' : (0 : ℚ) < n := by exact_mod_cast hn
    exact iff_of_true (by omega) (hq.trans hn')

theorem le_truncate {x : Double} {q : ℚ} (h : x.value = some q) {n : Int} (hn : 0 < n) :
    n ≤ x.truncate ↔ n ≤ q := by
  rw [← not_lt, truncate_lt h hn, not_lt]

theorem neg_le_truncate {x : Double} {q : ℚ} (h : x.value = some q) {n : Int} (hn : 0 < n) :
    -n ≤ x.truncate ↔ -n - 1 < q := by
  rw [truncate_value h]
  split
  · rename_i hq
    have hfloor : 0 ≤ ⌊q⌋ := Int.floor_nonneg.mpr hq
    have hn' : (0 : ℚ) < n := by exact_mod_cast hn
    exact iff_of_true (by omega) (by linarith)
  · rw [Int.le_ceil_iff]
    push_cast
    rfl

/-! ## Comparison is comparison of values -/

theorem scaled_value (s : Bool) (a : Magnitude) (e : Int) (h : e ≤ a.exponent) :
    (scaled s a e : ℚ) * 2 ^ e = signed s a.value := by
  have hm : ((a.significand * 2 ^ (a.exponent - e).toNat : Nat) : ℚ) * 2 ^ e = a.value := by
    obtain ⟨k, hk⟩ := Int.eq_ofNat_of_zero_le (show 0 ≤ a.exponent - e by omega)
    have he : a.exponent = k + e := by omega
    rw [Magnitude.value, hk, he, zpow_add₀ (by norm_num : (2 : ℚ) ≠ 0)]
    push_cast
    simp [mul_assoc]
  rw [scaled]
  cases s
  · simpa [signed] using hm
  · simp only [signed, if_true]
    rw [← hm]
    push_cast
    ring

theorem compare_finite (s t : Bool) (a b : Magnitude) :
    (Double.finite s a).compare (.finite t b) =
      some (Ord.compare (signed s a.value) (signed t b.value)) := by
  have ha := scaled_value s a (min a.exponent b.exponent) (min_le_left _ _)
  have hb := scaled_value t b (min a.exponent b.exponent) (min_le_right _ _)
  have hpos := two_zpow_pos (min a.exponent b.exponent)
  simp only [Double.compare, Option.some.injEq]
  rw [← ha, ← hb]
  generalize scaled s a _ = x
  generalize scaled t b _ = y
  rcases lt_trichotomy x y with h | h | h
  · have hq : (x : ℚ) < y := by exact_mod_cast h
    rw [compare_lt_iff_lt.mpr h, compare_lt_iff_lt.mpr (by gcongr)]
  · rw [compare_eq_iff_eq.mpr h, h, compare_eq_iff_eq.mpr rfl]
  · have hq : (y : ℚ) < x := by exact_mod_cast h
    rw [compare_gt_iff_gt.mpr h, compare_gt_iff_gt.mpr (by gcongr)]


theorem beq_finite (s t : Bool) (a b : Magnitude) :
    (Double.finite s a).beq (.finite t b) = true ↔ signed s a.value = signed t b.value := by
  simp [Double.beq, compare_finite]

theorem lt_finite (s t : Bool) (a b : Magnitude) :
    (Double.finite s a).lt (.finite t b) = true ↔ signed s a.value < signed t b.value := by
  simp [Double.lt, compare_finite, compare_lt_iff_lt]

theorem lt_value {x y : Double} {q r : ℚ} (hx : x.value = some q) (hy : y.value = some r) :
    x.lt y = true ↔ q < r := by
  cases x with
  | finite s a =>
    cases y with
    | finite t b =>
      cases hx
      cases hy
      exact lt_finite s t a b
    | _ => cases hy
  | _ => cases hx

theorem le_value {x y : Double} {q r : ℚ} (hx : x.value = some q) (hy : y.value = some r) :
    x.le y = true ↔ q ≤ r := by
  cases x with
  | finite s a =>
    cases y with
    | finite t b =>
      cases hx
      cases hy
      rw [Double.le, Bool.or_eq_true, lt_finite, beq_finite, le_iff_lt_or_eq]
    | _ => cases hy
  | _ => cases hx

theorem beq_comm (x y : Double) : x.beq y = y.beq x := by
  rw [Bool.eq_iff_iff]
  cases x <;> cases y
  case finite.finite => rw [beq_finite, beq_finite, eq_comm]
  case inf.inf s t => cases s <;> cases t <;> simp [Double.beq, Double.compare]
  case inf.finite s _ _ => cases s <;> simp [Double.beq, Double.compare]
  case finite.inf _ _ s => cases s <;> simp [Double.beq, Double.compare]
  all_goals simp [Double.beq, Double.compare]

/-- Equal are the same infinity and the same value; a signed zero has the value of the other. -/
theorem beq_iff (x y : Double) : x.beq y = true ↔
    (∃ s, x = .inf s ∧ y = .inf s) ∨ ∃ q, x.value = some q ∧ y.value = some q := by
  cases x <;> cases y
  case finite.finite s a t b =>
    rw [beq_finite]
    constructor
    · exact fun h => .inr ⟨_, rfl, congrArg some h.symm⟩
    · rintro (⟨_, h, -⟩ | ⟨q, ha, hb⟩)
      · exact nomatch h
      · exact Option.some.inj (ha.trans hb.symm)
  case inf.inf s t => cases s <;> cases t <;> simp [Double.beq, Double.compare, Double.value]
  case inf.finite s _ _ => cases s <;> simp [Double.beq, Double.compare, Double.value]
  case finite.inf _ _ s => cases s <;> simp [Double.beq, Double.compare, Double.value]
  all_goals simp [Double.beq, Double.compare, Double.value]

theorem beq_refl {x : Double} (h : x ≠ .nan) : x.beq x = true := by
  rw [beq_iff]
  cases x with
  | nan => exact absurd rfl h
  | inf s => exact .inl ⟨s, rfl, rfl⟩
  | finite s a => exact .inr ⟨_, rfl, rfl⟩

theorem beq_trans {x y z : Double} (h : x.beq y = true) (h' : y.beq z = true) :
    x.beq z = true := by
  rw [beq_iff] at h h' ⊢
  rcases h with ⟨s, rfl, rfl⟩ | ⟨p, hx, hy⟩
  · rcases h' with ⟨t, ht, rfl⟩ | ⟨q, hq, -⟩
    · exact .inl ⟨s, rfl, ht.symm⟩
    · exact nomatch hq
  · rcases h' with ⟨t, rfl, -⟩ | ⟨q, hq, hz⟩
    · exact nomatch hy
    · obtain rfl := Option.some.inj (hy.symm.trans hq)
      exact .inr ⟨p, hx, hz⟩

theorem value_of_beq {x y : Double} {q : ℚ} (h : x.beq y = true) (hy : y.value = some q) :
    x.value = some q := by
  cases y with
  | finite t b =>
    cases x with
    | finite s a =>
      rw [beq_finite] at h
      rw [Double.value, h]
      exact hy
    | nan => simp [Double.beq, Double.compare] at h
    | inf s => cases s <;> simp [Double.beq, Double.compare] at h
  | _ => cases hy

theorem ofInt_value (n : Int) (h : n.natAbs < 2 ^ 53) : (Double.ofInt n).value = some (n : ℚ) := by
  rw [ofInt_exact n h, Double.value, ofNat_value, Option.some.injEq, Nat.cast_natAbs]
  rcases lt_or_ge n 0 with hneg | hpos
  · simp [signed, hneg, abs_of_neg hneg]
  · simp [signed, not_lt.mpr hpos, abs_of_nonneg hpos]

theorem floor_of_integer (s : Bool) (a : Magnitude) {n : Nat} (h : a.value = n) :
    (Double.finite s a).floor = .finite s a := by
  have hexact : a.truncate * 2 ^ (-a.exponent).toNat = a.significand * 2 ^ a.exponent.toNat := by
    have htruncate : a.truncate = n := by rw [truncate_spec, h, Nat.floor_natCast]
    rw [Magnitude.value, two_zpow_eq, mul_div_assoc', div_eq_iff (by positivity)] at h
    rw [htruncate]
    exact_mod_cast h.symm
  rw [Double.floor, if_pos hexact]

theorem integer_of_floor (s : Bool) (a : Magnitude)
    (h : (Double.finite s a).beq (Double.finite s a).floor = true) : a.value = a.truncate := by
  have hvalue : a.value = (a.significand * 2 ^ a.exponent.toNat : Nat) /
      ((2 ^ (-a.exponent).toNat : Nat) : ℚ) := by
    rw [Magnitude.value, two_zpow_eq]
    push_cast
    ring
  by_cases hexact : a.truncate * 2 ^ (-a.exponent).toNat = a.significand * 2 ^ a.exponent.toNat
  · rw [hvalue, ← hexact]
    push_cast
    field_simp
  · have hexp : a.exponent < 0 := by
      by_contra hneg
      apply hexact
      rw [Magnitude.truncate, show (-a.exponent).toNat = 0 by omega]
      simp
    have hsmall : a.truncate < 2 ^ 52 := by
      have h1 := a.canonical.1
      rw [Magnitude.truncate, show a.exponent.toNat = 0 by omega, Nat.div_lt_iff_lt_mul
        (by positivity)]
      have h2 : 2 ^ 1 ≤ 2 ^ (-a.exponent).toNat := Nat.pow_le_pow_right (by norm_num) (by omega)
      omega
    simp only [Double.floor, if_neg hexact] at h
    cases s
    · simp only [Bool.false_eq_true, if_false] at h
      rw [ofInt_exact _ (show (a.truncate : Int).natAbs < 2 ^ 53 by omega), beq_finite] at h
      simpa [signed, show ¬ (a.truncate : Int) < 0 by omega] using h
    · -- The floor of a negative number that is no integer lies below it.
      simp only [if_true] at h
      rw [ofInt_exact _ (show (-(a.truncate : Int) - 1).natAbs < 2 ^ 53 by omega), beq_finite,
        ofNat_value] at h
      have hneg : (-(a.truncate : Int) - 1 < 0) = True := by
        simp only [eq_iff_iff, iff_true]
        omega
      have habs : (-(a.truncate : Int) - 1).natAbs = a.truncate + 1 := by omega
      simp only [signed, hneg, decide_true, if_true, habs, neg_inj] at h
      have hfloor := truncate_spec a
      rw [h, Nat.floor_natCast] at hfloor
      omega

end Binary64
