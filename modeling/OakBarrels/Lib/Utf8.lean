import OakBarrels.Lib.Octets

/-!
# Text in UTF-8

Byte strings that encode characters. At a byte of ASCII such a string can be cut, and both parts are
again of that kind; so delimiters of ASCII cut nothing in two.
-/

open Octets

namespace Utf8

/-- The encoding of a list of characters. -/
def ValidUtf8 (s : Bytes) : Prop := ∃ cs : List Char, s = cs.flatMap String.utf8EncodeChar

def IsAscii (b : Byte) : Prop := b < 0x80

instance (b : Byte) : Decidable (IsAscii b) := inferInstanceAs (Decidable (b < 0x80))

/-- Decided along the string, not over all bytes. -/
instance (s : Bytes) : Decidable (∀ b ∈ s, IsAscii b) := s.decidableBAll IsAscii

/-! ## One character -/

theorem isAscii_iff (b : Byte) : IsAscii b ↔ b.toNat < 128 := UInt8.lt_iff_toNat_lt

/-- A bit pattern above ASCII stays there whatever bits are added. -/
theorem or_high (a : Byte) {b : Byte} (h : ¬ IsAscii b) : ¬ IsAscii (a ||| b) := by
  rw [isAscii_iff] at h ⊢
  have hle : b.toNat ≤ a.toNat ||| b.toNat := Nat.right_le_or
  rw [UInt8.toNat_or]
  omega

/-- A character is one byte of ASCII, or several bytes of none. -/
theorem encode_cases (c : Char) :
    (∃ b, IsAscii b ∧ String.utf8EncodeChar c = [b]) ∨
      2 ≤ (String.utf8EncodeChar c).length ∧ ∀ b ∈ String.utf8EncodeChar c, ¬ IsAscii b := by
  have hlead : ¬ IsAscii 0xc0 ∧ ¬ IsAscii 0xe0 ∧ ¬ IsAscii 0xf0 ∧ ¬ IsAscii 0x80 := by decide
  obtain ⟨htwo, hthree, hfour, hnext⟩ := hlead
  rcases Char.utf8Size_eq c with h | h | h | h
  · refine .inl ⟨_, ?_, String.utf8EncodeChar_eq_singleton h⟩
    have hle : c.val.toNat ≤ 127 := Char.utf8Size_eq_one_iff.mp h
    rw [isAscii_iff, UInt32.toNat_toUInt8]
    omega
  · refine .inr ⟨by simp [h], ?_⟩
    rw [String.utf8EncodeChar_eq_cons_cons h]
    simp [or_high, htwo, hnext]
  · refine .inr ⟨by simp [h], ?_⟩
    rw [String.utf8EncodeChar_eq_cons_cons_cons h]
    simp [or_high, hthree, hnext]
  · refine .inr ⟨by simp [h], ?_⟩
    rw [String.utf8EncodeChar_eq_cons_cons_cons_cons h]
    simp [or_high, hfour, hnext]

theorem encode_ascii {b : Byte} (h : IsAscii b) :
    String.utf8EncodeChar (Char.ofUInt8 b) = [b] := by
  rw [isAscii_iff] at h
  have hval : (Char.ofUInt8 b).val.toNat = b.toNat := rfl
  have hone : (Char.ofUInt8 b).utf8Size = 1 := by
    rw [Char.utf8Size_eq_one_iff, UInt32.le_iff_toNat_le, hval]
    exact Nat.le_of_lt_succ h
  rw [String.utf8EncodeChar_eq_singleton hone, List.singleton_inj]
  apply byte_ext
  rw [UInt32.toNat_toUInt8, hval]
  omega

/-! ## Whole strings -/

section

variable {s t : Bytes} {b : Byte}

theorem validUtf8_nil : ValidUtf8 [] := ⟨[], rfl⟩

theorem ValidUtf8.append (hs : ValidUtf8 s) (ht : ValidUtf8 t) : ValidUtf8 (s ++ t) := by
  obtain ⟨cs, rfl⟩ := hs
  obtain ⟨ds, rfl⟩ := ht
  exact ⟨cs ++ ds, List.flatMap_append.symm⟩

theorem validUtf8_ascii (h : ∀ b ∈ s, IsAscii b) : ValidUtf8 s := by
  induction s with
  | nil => exact validUtf8_nil
  | cons b s ih =>
    rw [List.forall_mem_cons] at h
    have hb : ValidUtf8 [b] := ⟨[Char.ofUInt8 b], by simp [encode_ascii h.1]⟩
    exact hb.append (ih h.2)

/-- At a byte of ASCII one character ends and another begins. -/
theorem ValidUtf8.split (h : ValidUtf8 (s ++ b :: t)) (hb : IsAscii b) :
    ValidUtf8 s ∧ ValidUtf8 t := by
  obtain ⟨cs, hcs⟩ := h
  induction cs generalizing s with
  | nil => simp at hcs
  | cons c cs ih =>
    rw [List.flatMap_cons] at hcs
    rcases List.append_eq_append_iff.mp hcs with ⟨front, hfront, hrest⟩ | ⟨back, rfl, hrest⟩
    · cases front with
      | nil =>
        obtain ⟨-, ht⟩ := ih (s := []) hrest
        exact ⟨⟨[c], by simp [hfront]⟩, ht⟩
      | cons b' front =>
        -- The byte is one of the first character, which is nothing else then.
        obtain ⟨rfl, rfl⟩ := List.cons.inj hrest
        rcases encode_cases c with ⟨d, -, hone⟩ | ⟨-, hhigh⟩
        · rw [hone, List.singleton_eq_append_iff] at hfront
          rcases hfront with ⟨rfl, hd⟩ | ⟨-, hd⟩
          · obtain rfl : front = [] := (List.cons.inj hd).2
            exact ⟨validUtf8_nil, cs, rfl⟩
          · cases hd
        · exact absurd hb (hhigh b (by simp [hfront]))
    · obtain ⟨hback, ht⟩ := ih hrest.symm
      have hc : ValidUtf8 (String.utf8EncodeChar c) := ⟨[c], by simp⟩
      exact ⟨hc.append hback, ht⟩

theorem validUtf8_append_cons (hb : IsAscii b) :
    ValidUtf8 (s ++ b :: t) ↔ ValidUtf8 s ∧ ValidUtf8 t := by
  refine ⟨fun h => h.split hb, fun ⟨hs, ht⟩ => hs.append ?_⟩
  exact (validUtf8_ascii (s := [b]) (by simpa using hb)).append ht

theorem validUtf8_cons (hb : IsAscii b) : ValidUtf8 (b :: t) ↔ ValidUtf8 t := by
  have hsplit := validUtf8_append_cons (s := []) (t := t) hb
  rwa [List.nil_append, and_iff_right validUtf8_nil] at hsplit

theorem validUtf8_singleton : ValidUtf8 [b] ↔ IsAscii b := by
  refine ⟨?_, fun hb => validUtf8_ascii (by simpa using hb)⟩
  rintro ⟨cs, hcs⟩
  cases cs with
  | nil => cases hcs
  | cons c cs =>
    have hlength := congrArg List.length hcs
    rw [List.flatMap_cons] at hcs hlength
    rw [List.length_append, List.length_singleton] at hlength
    rcases encode_cases c with ⟨d, hd, hone⟩ | ⟨htwo, -⟩
    · rw [hone] at hcs
      rw [(List.cons.inj hcs).1]
      exact hd
    · omega

theorem validUtf8_ascii_append (hs : ∀ b ∈ s, IsAscii b) :
    ValidUtf8 (s ++ t) ↔ ValidUtf8 t := by
  induction s with
  | nil => rfl
  | cons b s ih =>
    rw [List.forall_mem_cons] at hs
    rw [List.cons_append, validUtf8_cons hs.1, ih hs.2]

/-- Where bytes of ASCII are spelled in ASCII, and all others as they are, nothing of this changes. -/
theorem validUtf8_flatMap {spell : Byte → Bytes} (hne : ∀ b, spell b ≠ [])
    (hascii : ∀ b, IsAscii b → ∀ c ∈ spell b, IsAscii c)
    (hother : ∀ b, ¬ IsAscii b → spell b = [b]) (front s : Bytes) :
    ValidUtf8 (front ++ s.flatMap spell) ↔ ValidUtf8 (front ++ s) := by
  induction s generalizing front with
  | nil => rfl
  | cons b s ih =>
    rw [List.flatMap_cons]
    by_cases hb : IsAscii b
    · obtain ⟨c, rest, hspell⟩ := List.exists_cons_of_ne_nil (hne b)
      have hall := hascii b hb
      rw [hspell, List.forall_mem_cons] at hall
      rw [hspell, List.cons_append, validUtf8_append_cons hall.1, validUtf8_ascii_append hall.2,
        validUtf8_append_cons hb]
      exact and_congr_right fun _ => ih []
    · rw [hother b hb, ← List.append_assoc, ih, List.append_assoc]
      rfl

end

end Utf8
