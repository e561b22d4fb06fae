import OakBarrels.Discovery.HeaderReads

/-!
# A window on a file

A file is identified from its first bytes. What these settle is not changed by what follows them.
-/

open Octets Loads

namespace OakBarrels.Discovery

section

variable {data rest magic : Bytes}

theorem startsWith_append (h : magic.length ≤ data.length) :
    startsWith (data ++ rest) magic = startsWith data magic := by
  unfold startsWith
  rw [Bool.eq_iff_iff, List.isPrefixOf_iff_prefix, List.isPrefixOf_iff_prefix]
  constructor
  · intro hprefix
    exact List.prefix_of_prefix_length_le hprefix (List.prefix_append data rest) h
  · exact List.prefix_append_of_prefix

theorem readLittleEndian32_append (h : 4 ≤ data.length) :
    readLittleEndian32 (data ++ rest) = readLittleEndian32 data := by
  match data, h with
  | _ :: _ :: _ :: _ :: _, _ => rfl

theorem readBigEndian32_append (h : 4 ≤ data.length) :
    readBigEndian32 (data ++ rest) = readBigEndian32 data := by
  match data, h with
  | _ :: _ :: _ :: _ :: _, _ => rfl

theorem looksLikeElf_append (h : 4 ≤ data.length) :
    looksLikeElf (data ++ rest) = looksLikeElf data := by
  unfold looksLikeElf
  exact startsWith_append h

theorem looksLikeMachO_append (h : 4 ≤ data.length) :
    looksLikeMachO (data ++ rest) = looksLikeMachO data := by
  have hmore : 4 ≤ (data ++ rest).length := by
    rw [List.length_append]
    omega
  unfold looksLikeMachO
  rw [if_neg (Nat.not_lt.mpr hmore), if_neg (Nat.not_lt.mpr h), readBigEndian32_append h]

/-- The signature stays where the header says that it is, and stays inside. -/
theorem looksLikePortableExecutable_append (h : looksLikePortableExecutable data = true) :
    looksLikePortableExecutable (data ++ rest) = true := by
  have hpointer : kPeSignaturePointerOffset + 4 = 64 := rfl
  unfold looksLikePortableExecutable at h ⊢
  by_cases hshort : data.length < kPeSignaturePointerOffset + 4
  · rw [if_pos hshort] at h
    exact absurd h Bool.false_ne_true
  have hmagic : startsWith (data ++ rest) (ascii "MZ") = startsWith data (ascii "MZ") :=
    startsWith_append (by change 2 ≤ data.length; omega)
  have hoffset : readLittleEndian32 ((data ++ rest).drop kPeSignaturePointerOffset) =
      readLittleEndian32 (data.drop kPeSignaturePointerOffset) := by
    rw [List.drop_append_of_le_length (by omega)]
    exact readLittleEndian32_append (by rw [List.length_drop]; omega)
  rw [if_neg hshort] at h
  rw [if_neg (by rw [List.length_append]; omega), hmagic, hoffset]
  by_cases hmz : startsWith data (ascii "MZ") = true
  · rw [if_neg (not_not.mpr hmz)] at h ⊢
    by_cases hend : data.length <
        (readLittleEndian32 (data.drop kPeSignaturePointerOffset)).toNat + kPeSignatureLength
    · rw [if_pos hend] at h
      exact absurd h Bool.false_ne_true
    · have hlength : kPeSignatureLength = 4 := rfl
      rw [if_neg hend] at h
      rw [if_neg (by rw [List.length_append]; omega), List.drop_append_of_le_length (by omega),
        startsWith_append (by rw [List.length_drop]; change 4 ≤ _; omega)]
      exact h
  · rw [if_pos hmz] at h
    exact absurd h Bool.false_ne_true

theorem identifyModuleFormat_append (h : identifyModuleFormat data ≠ .unknown) :
    identifyModuleFormat (data ++ rest) = identifyModuleFormat data := by
  unfold identifyModuleFormat at h ⊢
  by_cases hshort : data.length < 4
  · rw [if_pos hshort] at h
    exact absurd rfl h
  have hheader : 4 ≤ data.length := Nat.not_lt.mp hshort
  rw [if_neg hshort] at h ⊢
  rw [if_neg (by rw [List.length_append]; omega), looksLikeElf_append hheader,
    looksLikeMachO_append hheader]
  by_cases helf : looksLikeElf data = true
  · rw [if_pos helf, if_pos helf]
  rw [if_neg helf] at h ⊢
  rw [if_neg helf]
  by_cases hmachO : looksLikeMachO data = true
  · rw [if_pos hmachO, if_pos hmachO]
  rw [if_neg hmachO] at h ⊢
  rw [if_neg hmachO]
  -- Only here the answer may change, and only from unknown.
  by_cases hpe : looksLikePortableExecutable data = true
  · rw [if_pos hpe, if_pos (looksLikePortableExecutable_append hpe)]
  · rw [if_neg hpe] at h
    exact absurd rfl h

end

/-! ## Files in memory -/

namespace HeaderReads

/-- Where the bytes of a vector are; what is behind them is never looked at. -/
def memoryOf (header : Bytes) : Memory := fun i => header.getD i 0

/-- The overload for a vector, with a `size_t` of 64 bits. -/
def identifyModuleFormatOf (header : Bytes) : ModuleFormat :=
  (identifyModuleFormat (some (memoryOf header)) (BitVec.ofNat 64 header.length)).value

theorem cells_memoryOf (header : Bytes) : cells (memoryOf header) header.length = header := by
  unfold cells memoryOf
  apply List.ext_getElem
  · simp
  · intro i hi hi'
    simp [hi']

theorem identifyModuleFormatOf_eq {header : Bytes} (h : header.length < 2 ^ 64) :
    identifyModuleFormatOf header = Discovery.identifyModuleFormat header := by
  have hlength : (BitVec.ofNat 64 header.length).toNat = header.length := by
    rw [BitVec.toNat_ofNat]
    exact Nat.mod_eq_of_lt h
  unfold identifyModuleFormatOf
  rw [identifyModuleFormat_value (by omega) fun hoverruns => absurd hoverruns.width (by decide),
    hlength, cells_memoryOf]

/-- Reading more of a file never changes a format that was found. -/
theorem format_stays (file : Bytes) (h : file.length < 2 ^ 64) :
    (∀ header, header <+: file → identifyModuleFormatOf header ≠ .unknown →
      identifyModuleFormatOf file = identifyModuleFormatOf header) ∧
    (identifyModuleFormatOf (file.take kModuleHeaderBytes) = .unknown ∨
      identifyModuleFormatOf (file.take kModuleHeaderBytes) = identifyModuleFormatOf file) := by
  have hextends : ∀ header, header <+: file → identifyModuleFormatOf header ≠ .unknown →
      identifyModuleFormatOf file = identifyModuleFormatOf header := by
    intro header hprefix hformat
    have hle := hprefix.length_le
    rw [identifyModuleFormatOf_eq (by omega)] at hformat
    rw [identifyModuleFormatOf_eq h, identifyModuleFormatOf_eq (by omega)]
    obtain ⟨rest, rfl⟩ := hprefix
    exact identifyModuleFormat_append hformat
  refine ⟨hextends, ?_⟩
  by_cases hwindow : identifyModuleFormatOf (file.take kModuleHeaderBytes) = .unknown
  · exact .inl hwindow
  · exact .inr (hextends _ (List.take_prefix _ _) hwindow).symm

/-- An ELF magic, of which the first five bytes have been read. -/
theorem format_stays_elf :
    identifyModuleFormatOf [0x7f, ch 'E', ch 'L', ch 'F', 2, 1] =
      identifyModuleFormatOf [0x7f, ch 'E', ch 'L', ch 'F', 2] := by
  apply (format_stays _ (by decide)).1
  · decide
  · decide

end HeaderReads

end OakBarrels.Discovery
