import OakBarrels.Lib.Loads
import OakBarrels.Discovery.ModuleFormat

/-!
# What of a header is looked at

The functions of the module format again, over a memory and a length in a `size_t` of `w` bits. Its
sums and differences are modulo `2 ^ w`.
-/

open Octets Loads

namespace OakBarrels.Discovery.HeaderReads

abbrev Memory := Nat → Byte

section

variable {w : Nat} (data : Memory)

def readLittleEndian32 (i : Nat) : Load UInt32 := do
  let b0 ← load data i
  let b1 ← load data (i + 1)
  let b2 ← load data (i + 2)
  let b3 ← load data (i + 3)
  return ofLittleEndian b0 b1 b2 b3

def readBigEndian32 (i : Nat) : Load UInt32 := do
  let b0 ← load data i
  let b1 ← load data (i + 1)
  let b2 ← load data (i + 2)
  let b3 ← load data (i + 3)
  return ofLittleEndian b3 b2 b1 b0

/-- The loop of `startsWith`, which ends at the first byte that differs. -/
def sameBytes : Nat → Bytes → Load Bool
  | _, [] => return true
  | i, m :: rest => do
    let b ← load data i
    if b ≠ m then return false else sameBytes (i + 1) rest

/-- `data` is a pointer to the cell `i`. -/
def startsWith (i : Nat) (length : BitVec w) (magic : Bytes) : Load Bool :=
  if length < BitVec.ofNat w magic.length then return false else sameBytes data i magic

def looksLikePortableExecutable (length : BitVec w) : Load Bool := do
  if length < BitVec.ofNat w (kPeSignaturePointerOffset + 4) then return false
  else if (← load data 0) ≠ ch 'M' then return false
  else if (← load data 1) ≠ ch 'Z' then return false
  else
    let signatureOffset := (← readLittleEndian32 data kPeSignaturePointerOffset).toNat
    if BitVec.ofNat w signatureOffset + BitVec.ofNat w kPeSignatureLength > length then return false
    else
      startsWith data signatureOffset (length - BitVec.ofNat w signatureOffset)
        [ch 'P', ch 'E', 0, 0]

def looksLikeElf (length : BitVec w) : Load Bool := startsWith data 0 length (0x7f :: ascii "ELF")

def looksLikeMachO (length : BitVec w) : Load Bool := do
  if length < BitVec.ofNat w 4 then return false
  else
    return (← readBigEndian32 data 0) ∈
      [0xfeedface, 0xfeedfacf, 0xcefaedfe, 0xcffaedfe, 0xcafebabe, 0xcafebabf]

end

/-- `none` stands for a null pointer. -/
def identifyModuleFormat {w : Nat} (header : Option Memory) (length : BitVec w) :
    Load ModuleFormat :=
  match header with
  | none => return .unknown
  | some data => do
    if length < BitVec.ofNat w 4 then return .unknown
    else if ← looksLikeElf data length then return .elf
    else if ← looksLikeMachO data length then return .machO
    else if ← looksLikePortableExecutable data length then return .portableExecutable
    else return .unknown

/-! ## Inside the header -/

/-- The offset of the signature, as the four bytes at `0x3c` have it. -/
def signatureOffset (data : Memory) : Nat :=
  (readLittleEndian32 data kPeSignaturePointerOffset).value.toNat

/-- The end of the signature is past the largest `size_t`, and is taken to be inside the header. -/
structure Overruns {w : Nat} (data : Memory) (length : BitVec w) : Prop where
  width : w = 32
  header : kPeSignaturePointerOffset + 4 ≤ length.toNat
  magic : data 0 = ch 'M' ∧ data 1 = ch 'Z'
  beyond : length.toNat < signatureOffset data
  wraps : 2 ^ 32 ≤ signatureOffset data + kPeSignatureLength

section

variable {w n : Nat} {data : Memory} {length : BitVec w}

theorem signatureOffset_lt : signatureOffset data < 2 ^ 32 := by
  unfold signatureOffset
  exact UInt32.toNat_lt _

theorem within_readLittleEndian32 {i : Nat} :
    Within n (readLittleEndian32 data i) ↔ i + 3 < n := by
  unfold readLittleEndian32
  simp only [within_bind, within_load, within_pure, and_true]
  omega

theorem within_readBigEndian32 {i : Nat} : Within n (readBigEndian32 data i) ↔ i + 3 < n := by
  unfold readBigEndian32
  simp only [within_bind, within_load, within_pure, and_true]
  omega

theorem within_sameBytes {magic : Bytes} {i : Nat} (h : i + magic.length ≤ n) :
    Within n (sameBytes data i magic) := by
  induction magic generalizing i with
  | nil =>
    unfold sameBytes
    exact within_pure true
  | cons m rest ih =>
    rw [List.length_cons] at h
    unfold sameBytes
    rw [within_bind, within_load, within_ite]
    exact ⟨by omega, fun _ => within_pure false, fun _ => ih (by omega)⟩

theorem within_first {m : Byte} {rest : Bytes} {i : Nat}
    (h : Within n (sameBytes data i (m :: rest))) : i < n := by
  unfold sameBytes at h
  rw [within_bind, within_load] at h
  exact h.1

theorem within_startsWith {i : Nat} {magic : Bytes} (h : i + magic.length ≤ n) :
    Within n (startsWith data i length magic) := by
  unfold startsWith
  rw [within_ite]
  exact ⟨fun _ => within_pure false, fun _ => within_sameBytes h⟩

theorem within_looksLikeElf (h : 4 ≤ length.toNat) :
    Within length.toNat (looksLikeElf data length) := by
  unfold looksLikeElf
  exact within_startsWith h

theorem within_looksLikeMachO (h : 4 ≤ length.toNat) :
    Within length.toNat (looksLikeMachO data length) := by
  unfold looksLikeMachO
  rw [within_ite, within_bind, within_readBigEndian32]
  exact ⟨fun _ => within_pure false, fun _ => ⟨by omega, within_pure _⟩⟩

section

variable (hw : 32 ≤ w)
include hw

theorem two_pow_le : 2 ^ 32 ≤ 2 ^ w := Nat.pow_le_pow_right (by omega) hw

theorem toNat_small {k : Nat} (hk : k < 2 ^ 32) : (BitVec.ofNat w k).toNat = k := by
  have hpow := two_pow_le hw
  rw [BitVec.toNat_ofNat]
  exact Nat.mod_eq_of_lt (by omega)

theorem lt_small {k : Nat} (hk : k < 2 ^ 32) : length < BitVec.ofNat w k ↔ length.toNat < k := by
  rw [BitVec.lt_def, toNat_small hw hk]

/-- Where the end of the signature is taken to be. -/
theorem signature_end (offset : Nat) (hoffset : offset < 2 ^ 32) :
    (BitVec.ofNat w offset + BitVec.ofNat w kPeSignatureLength).toNat =
      if w = 32 ∧ 2 ^ 32 ≤ offset + kPeSignatureLength then offset + kPeSignatureLength - 2 ^ 32
      else offset + kPeSignatureLength := by
  have hlength : kPeSignatureLength = 4 := rfl
  rw [BitVec.toNat_add, toNat_small hw hoffset, toNat_small hw (by omega), hlength]
  split
  · rename_i hwraps
    obtain ⟨rfl, hwraps⟩ := hwraps
    rw [Nat.mod_eq_sub_mod hwraps]
    exact Nat.mod_eq_of_lt (by omega)
  · rename_i hwraps
    apply Nat.mod_eq_of_lt
    by_cases hwidth : w = 32
    · subst hwidth
      omega
    · have hpow : 2 ^ 33 ≤ 2 ^ w := Nat.pow_le_pow_right (by omega) (by omega)
      omega

/-- The signature is looked at inside the header, unless its end is past the largest `size_t`. -/
theorem within_signature (hheader : 4 ≤ length.toNat) {offset : Nat} (hoffset : offset < 2 ^ 32) :
    Within length.toNat
        (if BitVec.ofNat w offset + BitVec.ofNat w kPeSignatureLength > length then return false
        else startsWith data offset (length - BitVec.ofNat w offset) [ch 'P', ch 'E', 0, 0]) ↔
      ¬ (w = 32 ∧ length.toNat < offset ∧ 2 ^ 32 ≤ offset + kPeSignatureLength) := by
  have hlength : kPeSignatureLength = 4 := rfl
  rw [within_ite, gt_iff_lt, BitVec.lt_def, signature_end hw offset hoffset]
  by_cases hwraps : w = 32 ∧ 2 ^ 32 ≤ offset + kPeSignatureLength
  · rw [if_pos hwraps]
    obtain ⟨rfl, hend⟩ := hwraps
    have hinside : ¬ length.toNat < offset + kPeSignatureLength - 2 ^ 32 := by omega
    have hrest : (length - BitVec.ofNat 32 offset).toNat =
        (2 ^ 32 - offset + length.toNat) % 2 ^ 32 := by
      rw [BitVec.toNat_sub, toNat_small hw hoffset]
    by_cases hbeyond : length.toNat < offset
    · -- What is left is counted as far more than there is, and the first byte is looked at.
      have hmore : ¬ (length - BitVec.ofNat 32 offset) < BitVec.ofNat 32 4 := by
        rw [lt_small hw (by omega), hrest]
        omega
      refine iff_of_false (fun h => ?_) (fun h => h ⟨rfl, hbeyond, hend⟩)
      have hfirst := h.2 hinside
      unfold startsWith at hfirst
      rw [within_ite] at hfirst
      exact absurd (within_first (hfirst.2 hmore)) (by omega)
    · have hfew : (length - BitVec.ofNat 32 offset) < BitVec.ofNat 32 4 := by
        rw [lt_small hw (by omega), hrest]
        omega
      refine iff_of_true ⟨fun h => absurd h hinside, fun _ => ?_⟩ (fun h => hbeyond h.2.1)
      unfold startsWith
      rw [within_ite]
      exact ⟨fun _ => within_pure false, fun h => absurd hfew h⟩
  · rw [if_neg hwraps]
    refine iff_of_true ⟨fun _ => within_pure false, fun hinside => ?_⟩ fun h =>
      hwraps ⟨h.1, h.2.2⟩
    exact within_startsWith (by simp only [List.length_cons, List.length_nil]; omega)

theorem within_looksLikePortableExecutable :
    Within length.toNat (looksLikePortableExecutable data length) ↔ ¬ Overruns data length := by
  have hpointer : kPeSignaturePointerOffset + 4 = 64 := rfl
  unfold looksLikePortableExecutable
  by_cases hshort : length.toNat < kPeSignaturePointerOffset + 4
  · rw [if_pos ((lt_small hw (by omega)).mpr hshort)]
    exact iff_of_true (within_pure false) fun h => absurd h.header (by omega)
  rw [if_neg (fun h => hshort ((lt_small hw (by omega)).mp h)), within_bind, within_load,
    value_load]
  have hfirst : 0 < length.toNat := by omega
  by_cases hm : data 0 ≠ ch 'M'
  · rw [if_pos hm]
    exact iff_of_true ⟨hfirst, within_pure false⟩ fun h => hm h.magic.1
  rw [if_neg hm, within_bind, within_load, value_load]
  have hsecond : 1 < length.toNat := by omega
  by_cases hz : data 1 ≠ ch 'Z'
  · rw [if_pos hz]
    exact iff_of_true ⟨hfirst, hsecond, within_pure false⟩ fun h => hz h.magic.2
  have hpointed : kPeSignaturePointerOffset + 3 < length.toNat := by omega
  rw [if_neg hz, within_bind, within_readLittleEndian32]
  have hoffset : signatureOffset data < 2 ^ 32 := signatureOffset_lt
  unfold signatureOffset at hoffset
  rw [within_signature hw (by omega) hoffset]
  constructor
  · rintro ⟨-, -, -, hwithin⟩ h
    exact hwithin ⟨h.width, h.beyond, h.wraps⟩
  · intro h
    refine ⟨hfirst, hsecond, hpointed, fun hwraps => h ?_⟩
    exact ⟨hwraps.1, by omega, ⟨not_not.mp hm, not_not.mp hz⟩, hwraps.2.1, hwraps.2.2⟩

end

/-- What begins like a DOS header is neither of the two other formats. -/
theorem other_magic (length : BitVec w) (hm : data 0 = ch 'M') :
    (looksLikeElf data length).value = false ∧ (looksLikeMachO data length).value = false := by
  constructor
  · have hbyte : data 0 ≠ 0x7f := by
      rw [hm]
      decide
    unfold looksLikeElf startsWith sameBytes
    rw [value_ite, value_bind, value_load, if_pos hbyte]
    simp
  · have hword : ∀ word : UInt32, word.toNat / 2 ^ 24 ≠ 77 →
        ofLittleEndian (data 3) (data 2) (data 1) (data 0) ≠ word := by
      rintro _ hne rfl
      apply hne
      have h1 := (data 1).toNat_lt
      have h2 := (data 2).toNat_lt
      have h3 := (data 3).toNat_lt
      have h0 : (data 0).toNat = 77 := by
        rw [hm]
        rfl
      rw [ofLittleEndian_toNat]
      omega
    have hmagic : ofLittleEndian (data 3) (data 2) (data 1) (data 0) ∉
        ([0xfeedface, 0xfeedfacf, 0xcefaedfe, 0xcffaedfe, 0xcafebabe, 0xcafebabf] :
          List UInt32) := by
      simp only [List.mem_cons, List.not_mem_nil, or_false, not_or]
      exact ⟨hword _ (by decide), hword _ (by decide), hword _ (by decide), hword _ (by decide),
        hword _ (by decide), hword _ (by decide)⟩
    unfold looksLikeMachO readBigEndian32
    rw [value_ite]
    split
    · rfl
    · exact decide_eq_false hmagic

/-- Only a portable executable is looked into beyond its first bytes. -/
theorem within_identify (hw : 32 ≤ w) :
    Within length.toNat (identifyModuleFormat (some data) length) ↔
    (4 ≤ length.toNat → (looksLikeElf data length).value = false →
      (looksLikeMachO data length).value = false →
      Within length.toNat (looksLikePortableExecutable data length)) := by
  change Within length.toNat (if length < BitVec.ofNat w 4 then _ else _) ↔ _
  rw [within_ite, lt_small hw (by omega)]
  by_cases hshort : length.toNat < 4
  · exact iff_of_true ⟨fun _ => within_pure _, fun h => absurd hshort h⟩ fun h => by omega
  have hheader : 4 ≤ length.toNat := Nat.not_lt.mp hshort
  have helf : Within length.toNat (looksLikeElf data length) := within_looksLikeElf hheader
  have hmachO : Within length.toNat (looksLikeMachO data length) := within_looksLikeMachO hheader
  simp only [hshort, within_bind, helf, hmachO, within_ite]
  simp [hheader]

/-- Every index that is looked at is inside the header, apart from the headers where a sum of 32
bits wraps. -/
theorem reads_inside_iff (hw : 32 ≤ w) (header : Option Memory) (length : BitVec w) :
    Within length.toNat (identifyModuleFormat header length) ↔
      ¬ ∃ data, header = some data ∧ Overruns data length := by
  cases header with
  | none => exact iff_of_true (within_pure _) nofun
  | some data =>
    have hexists : (∃ d, some data = some d ∧ Overruns d length) ↔ Overruns data length := by simp
    rw [hexists, within_identify hw, within_looksLikePortableExecutable hw]
    constructor
    · intro h hoverruns
      obtain ⟨hnotElf, hnotMachO⟩ := other_magic length hoverruns.magic.1
      have hheader := hoverruns.header
      exact h (by omega) hnotElf hnotMachO hoverruns
    · exact fun h _ _ _ => h

/-- A DOS header that has its signature at the largest offset. -/
def pointsPast : Memory := fun i =>
  if i = 0 then ch 'M' else if i = 1 then ch 'Z'
  else if i < kPeSignaturePointerOffset then 0 else 0xff

/-- A `size_t` of 64 bits holds the end of the signature. -/
theorem reads_inside_iff_wide :
    Within 64 (identifyModuleFormat (some pointsPast) (64 : BitVec 64)) := by
  apply (reads_inside_iff (w := 64) (by decide) _ _).mpr
  rintro ⟨data, -, h⟩
  exact absurd h.width (by decide)

theorem reads_inside_fails_at_wrap : ¬ ∀ w, w = 32 ∨ w = 64 →
    ∀ (header : Option Memory) (length : BitVec w),
      Within length.toNat (identifyModuleFormat header length) := by
  intro h
  have hwithin := h 32 (.inl rfl) (some pointsPast) 64
  have hread : 0xffffffff ∈
      (identifyModuleFormat (some pointsPast) (64 : BitVec 32)).indices := by decide
  exact absurd (hwithin _ hread) (by decide)

/-! ## The same answer -/

theorem sameBytes_value {magic : Bytes} {i : Nat} (h : i + magic.length ≤ n) :
    (sameBytes data i magic).value = Discovery.startsWith ((cells data n).drop i) magic := by
  unfold Discovery.startsWith
  induction magic generalizing i with
  | nil =>
    unfold sameBytes
    rfl
  | cons m rest ih =>
    rw [List.length_cons] at h
    unfold sameBytes
    rw [drop_cells (by omega), List.isPrefixOf_cons_cons, ← ih (by omega), value_bind, value_load,
      value_ite]
    by_cases hm : data i = m
    · simp [hm]
    · simp [hm, Ne.symm hm]

theorem startsWith_short {magic : Bytes} {i : Nat} (hi : i ≤ n) (h : n < i + magic.length) :
    Discovery.startsWith ((cells data n).drop i) magic = false := by
  unfold Discovery.startsWith
  rw [Bool.eq_false_iff]
  intro hprefix
  have hle := (List.isPrefixOf_iff_prefix.mp hprefix).length_le
  rw [List.length_drop, cells_length] at hle
  omega

theorem startsWith_value {magic : Bytes} {i : Nat} {rest : BitVec w} (hw : 32 ≤ w)
    (hmagic : magic.length < 2 ^ 32) (h : i + rest.toNat = n) :
    (startsWith data i rest magic).value = Discovery.startsWith ((cells data n).drop i) magic := by
  unfold startsWith
  simp only [value_ite, lt_small hw hmagic]
  by_cases hshort : rest.toNat < magic.length
  · rw [if_pos hshort, value_pure, startsWith_short (by omega) (by omega)]
  · rw [if_neg hshort]
    exact sameBytes_value (by omega)

theorem readLittleEndian32_value {i : Nat} (h : i + 3 < n) :
    (readLittleEndian32 data i).value =
      Discovery.readLittleEndian32 ((cells data n).drop i) := by
  unfold readLittleEndian32
  rw [drop_cells (by omega), drop_cells (by omega), drop_cells (by omega), drop_cells (by omega)]
  rfl

theorem readBigEndian32_value (h : 4 ≤ n) :
    (readBigEndian32 data 0).value = Discovery.readBigEndian32 (cells data n) := by
  have hcells : cells data n = (cells data n).drop 0 := rfl
  unfold readBigEndian32
  rw [hcells, drop_cells (by omega), drop_cells (by omega), drop_cells (by omega),
    drop_cells (by omega)]
  rfl

theorem looksLikeElf_value (hw : 32 ≤ w) :
    (looksLikeElf data length).value = Discovery.looksLikeElf (cells data length.toNat) := by
  unfold looksLikeElf Discovery.looksLikeElf
  exact startsWith_value hw (by decide) (Nat.zero_add _)

theorem looksLikeMachO_value (hw : 32 ≤ w) :
    (looksLikeMachO data length).value = Discovery.looksLikeMachO (cells data length.toNat) := by
  unfold looksLikeMachO Discovery.looksLikeMachO
  simp only [value_ite, lt_small hw (by omega : 4 < 2 ^ 32), cells_length]
  by_cases hshort : length.toNat < 4
  · rw [if_pos hshort, if_pos hshort, value_pure]
  · rw [if_neg hshort, if_neg hshort, value_bind, value_pure,
      readBigEndian32_value (n := length.toNat) (by omega)]

theorem signature_value (hw : 32 ≤ w) {offset : Nat} (hoffset : offset < 2 ^ 32)
    (h : ¬ (w = 32 ∧ length.toNat < offset ∧ 2 ^ 32 ≤ offset + kPeSignatureLength)) :
    (if BitVec.ofNat w offset + BitVec.ofNat w kPeSignatureLength > length then return false
      else startsWith data offset (length - BitVec.ofNat w offset)
        [ch 'P', ch 'E', 0, 0] : Load Bool).value =
      if length.toNat < offset + kPeSignatureLength then false
      else Discovery.startsWith ((cells data length.toNat).drop offset) [ch 'P', ch 'E', 0, 0] := by
  have hlength : kPeSignatureLength = 4 := rfl
  have hmodulus := two_pow_le hw
  have hlt := length.isLt
  have hrest : offset ≤ length.toNat →
      offset + (length - BitVec.ofNat w offset).toNat = length.toNat := by
    intro hle
    have hsum : 2 ^ w - offset + length.toNat = length.toNat - offset + 2 ^ w := by omega
    rw [BitVec.toNat_sub, toNat_small hw hoffset, hsum, Nat.add_mod_right,
      Nat.mod_eq_of_lt (by omega)]
    omega
  simp only [value_ite, gt_iff_lt, BitVec.lt_def, signature_end hw offset hoffset, value_pure]
  by_cases hwraps : w = 32 ∧ 2 ^ 32 ≤ offset + kPeSignatureLength
  · -- What is left of the header is shorter than the signature.
    have hle : offset ≤ length.toNat := by
      by_contra hbeyond
      exact h ⟨hwraps.1, by omega, hwraps.2⟩
    have hpow : 2 ^ w = 2 ^ 32 := congrArg (2 ^ ·) hwraps.1
    have hshort : length.toNat < offset + kPeSignatureLength := by omega
    have hpasses : ¬ length.toNat < offset + kPeSignatureLength - 2 ^ 32 := by omega
    rw [if_pos hwraps, if_neg hpasses, if_pos hshort, startsWith_value hw (by simp) (hrest hle)]
    exact startsWith_short hle hshort
  · rw [if_neg hwraps]
    by_cases hinside : length.toNat < offset + kPeSignatureLength
    · rw [if_pos hinside, if_pos hinside]
    · rw [if_neg hinside, if_neg hinside, startsWith_value hw (by simp) (hrest (by omega))]

theorem looksLikePortableExecutable_value (hw : 32 ≤ w) (h : ¬ Overruns data length) :
    (looksLikePortableExecutable data length).value =
      Discovery.looksLikePortableExecutable (cells data length.toNat) := by
  have hpointer : kPeSignaturePointerOffset + 4 = 64 := rfl
  unfold looksLikePortableExecutable Discovery.looksLikePortableExecutable
  rw [value_ite, cells_length]
  by_cases hshort : length.toNat < kPeSignaturePointerOffset + 4
  · rw [if_pos hshort, if_pos ((lt_small hw (by omega)).mpr hshort), value_pure]
  rw [if_neg hshort, if_neg (fun h => hshort ((lt_small hw (by omega)).mp h))]
  have hmagic : Discovery.startsWith (cells data length.toNat) (ascii "MZ") = true ↔
      data 0 = ch 'M' ∧ data 1 = ch 'Z' := by
    have hcells : cells data length.toNat = (cells data length.toNat).drop 0 := rfl
    have hascii : ascii "MZ" = [ch 'M', ch 'Z'] := rfl
    unfold Discovery.startsWith
    rw [hcells, drop_cells (by omega), drop_cells (by omega), hascii, List.isPrefixOf_cons_cons,
      List.isPrefixOf_cons_cons, Bool.and_eq_true, Bool.and_eq_true, beq_iff_eq, beq_iff_eq]
    exact ⟨fun h => ⟨h.1.symm, h.2.1.symm⟩, fun h => ⟨h.1.symm, h.2.symm, rfl⟩⟩
  rw [value_bind, value_load]
  by_cases hm : data 0 ≠ ch 'M'
  · rw [if_pos hm, if_pos (fun h => hm (hmagic.mp h).1), value_pure]
  rw [if_neg hm, value_bind, value_load]
  by_cases hz : data 1 ≠ ch 'Z'
  · rw [if_pos hz, if_pos (fun h => hz (hmagic.mp h).2), value_pure]
  have hmz : data 0 = ch 'M' ∧ data 1 = ch 'Z' := ⟨not_not.mp hm, not_not.mp hz⟩
  rw [if_neg hz, if_neg (not_not.mpr (hmagic.mpr hmz)), value_bind,
    ← readLittleEndian32_value (by omega)]
  apply signature_value hw (UInt32.toNat_lt _)
  exact fun hwraps => h ⟨hwraps.1, by omega, hmz, hwraps.2.1, hwraps.2.2⟩

/-- Where nothing outside the header is looked at, the answer is the one of the header's bytes. -/
theorem identifyModuleFormat_value (hw : 32 ≤ w) (h : ¬ Overruns data length) :
    (identifyModuleFormat (some data) length).value =
      Discovery.identifyModuleFormat (cells data length.toNat) := by
  unfold Discovery.identifyModuleFormat
  rw [← looksLikeElf_value hw, ← looksLikeMachO_value hw, ← looksLikePortableExecutable_value hw h,
    cells_length]
  change (if length < BitVec.ofNat w 4 then _ else _ : Load ModuleFormat).value = _
  simp only [value_ite, value_bind, value_pure, lt_small hw (by omega : 4 < 2 ^ 32)]

end

end OakBarrels.Discovery.HeaderReads
