import Mathlib.Tactic

/-!
# Byte strings

Bytes, byte strings, and little-endian words. Nothing here knows what the bytes are for.
-/

namespace Octets

abbrev Byte := UInt8

/-- A byte string: a buffer, a line of text, a whole stream. -/
abbrev Bytes := List Byte

def ch (c : Char) : Byte := UInt8.ofNat c.toNat

def ascii (s : String) : Bytes := s.toList.map ch

/-- A property of all bytes is a property of the numbers below 256. -/
theorem forall_byte {P : Byte → Prop} (h : ∀ n : Fin 256, P (UInt8.ofNat n.val)) (b : Byte) :
    P b := by
  have hb := h ⟨b.toNat, b.toNat_lt⟩
  simpa using hb

theorem byte_ext {a b : Byte} (h : a.toNat = b.toNat) : a = b := UInt8.toNat_inj.mp h

/-! ## Little-endian words -/

/-- The four bytes of a 32-bit word, least significant first. -/
def littleEndian (w : UInt32) : Bytes :=
  [(w &&& 0xff).toUInt8, ((w >>> 8) &&& 0xff).toUInt8, ((w >>> 16) &&& 0xff).toUInt8,
    ((w >>> 24) &&& 0xff).toUInt8]

/-- The 32-bit word of four bytes, least significant first. -/
def ofLittleEndian (b0 b1 b2 b3 : Byte) : UInt32 :=
  b0.toUInt32 ||| b1.toUInt32 <<< 8 ||| b2.toUInt32 <<< 16 ||| b3.toUInt32 <<< 24

theorem or_shiftLeft (a b k : Nat) (h : a < 2 ^ k) : a ||| b <<< k = a + 2 ^ k * b := by
  rw [Nat.or_comm, ← Nat.shiftLeft_add_eq_or_of_lt h, Nat.shiftLeft_eq]
  ring

/-- The four bytes are the digits of the word in base 256. -/
theorem ofLittleEndian_toNat (b0 b1 b2 b3 : Byte) :
    (ofLittleEndian b0 b1 b2 b3).toNat =
      b0.toNat + 2 ^ 8 * b1.toNat + 2 ^ 16 * b2.toNat + 2 ^ 24 * b3.toNat := by
  have h0 := b0.toNat_lt
  have h1 := b1.toNat_lt
  have h2 := b2.toNat_lt
  have h3 := b3.toNat_lt
  have hfit : ∀ (b : Byte) (k : Nat), k ≤ 24 → b.toNat <<< k % 2 ^ 32 = b.toNat <<< k := by
    intro b k hk
    have hb := b.toNat_lt
    apply Nat.mod_eq_of_lt
    rw [Nat.shiftLeft_eq]
    calc b.toNat * 2 ^ k < 2 ^ 8 * 2 ^ k := by gcongr
      _ ≤ 2 ^ 8 * 2 ^ 24 := by gcongr; omega
      _ = 2 ^ 32 := by norm_num
  have e8 : (8 : UInt32).toNat % 32 = 8 := rfl
  have e16 : (16 : UInt32).toNat % 32 = 16 := rfl
  have e24 : (24 : UInt32).toNat % 32 = 24 := rfl
  simp only [ofLittleEndian, UInt32.toNat_or, UInt32.toNat_shiftLeft, UInt8.toNat_toUInt32, e8,
    e16, e24]
  rw [hfit b1 8 (by omega), hfit b2 16 (by omega), hfit b3 24 (by omega),
    or_shiftLeft _ _ 8 (by omega), or_shiftLeft _ _ 16 (by omega), or_shiftLeft _ _ 24 (by omega)]

theorem low_byte_toNat (n : Nat) : n &&& 255 = n % 256 := Nat.and_two_pow_sub_one_eq_mod n 8

theorem ofLittleEndian_littleEndian (w : UInt32) :
    ofLittleEndian (w &&& 0xff).toUInt8 ((w >>> 8) &&& 0xff).toUInt8
      ((w >>> 16) &&& 0xff).toUInt8 ((w >>> 24) &&& 0xff).toUInt8 = w := by
  apply UInt32.toNat_inj.mp
  have hw := w.toNat_lt
  rw [ofLittleEndian_toNat]
  simp [Nat.shiftRight_eq_div_pow, low_byte_toNat]
  omega

theorem littleEndian_ofLittleEndian (b0 b1 b2 b3 : Byte) :
    littleEndian (ofLittleEndian b0 b1 b2 b3) = [b0, b1, b2, b3] := by
  have h0 := b0.toNat_lt
  have h1 := b1.toNat_lt
  have h2 := b2.toNat_lt
  have h3 := b3.toNat_lt
  simp only [littleEndian, List.cons.injEq, and_true]
  refine ⟨?_, ?_, ?_, ?_⟩ <;>
  · apply byte_ext
    simp [ofLittleEndian_toNat, Nat.shiftRight_eq_div_pow, low_byte_toNat]
    omega

end Octets
