import OakBarrels.Lib.Rounding
import OakBarrels.Reports
import OakBarrels.Revisions

/-!
# The target of an operation

Which call on its engine a session makes for a POST, a SET or a CLOSE, against the handle and the value
as the payload spells them. A handle is read through a double and its conversion to an integer.
-/

open Octets Binary64 Decimal Conversion

namespace OakBarrels

open Json Protocol

/-- An operation on a target. -/
inductive TargetOperation
  | post (handle : UInt32) (action : Bytes) (args : Value)
  | set (handle : UInt32) (param : Bytes) (value : Double)
  | close (handle : UInt32)

def BackendCall.operation? : BackendCall → Option TargetOperation
  | .post handle action args _ => some (.post handle action args)
  | .set handle param value _ => some (.set handle param value)
  | .closeTarget handle _ => some (.close handle)
  | _ => none

/-! ## What a payload says -/

/-- The number under `handle` is this one, as it is spelled. -/
def Names (d : Doc) (handle : UInt32) : Prop :=
  handle ≠ 0 ∧ ∃ n, d.member (ascii "handle") = some (.number n) ∧ n.value = handle.toNat

/-- The arguments of a POST: the object that is given, or an empty one. -/
def GivenArgs (d : Doc) (args : Value) : Prop :=
  (∃ members, d.member (ascii "args") = some (.object members) ∧
      args = (Doc.object members).meaning) ∨
    (∀ members, d.member (ascii "args") ≠ some (.object members)) ∧ args = .object []

/-- Apart from the handle, the document is that of an operation, with a value of this kind. The
operation gets the double nearest to the value. -/
inductive Describes (Valued : Numeral → Prop) (request : Frame) (d : Doc) :
    (UInt32 → TargetOperation) → Prop
  | post (action : Bytes) (args : Value) : request.type = .post →
      d.member (ascii "action") = some (.string action) → GivenArgs d args →
      Describes Valued request d fun handle => .post handle action args
  | set (param : Bytes) (n : Numeral) : request.type = .set →
      d.member (ascii "param") = some (.string param) →
      d.member (ascii "value") = some (.number n) → Valued n →
      Describes Valued request d fun handle => .set handle param (nearest n)
  | close : request.type = .close → Describes Valued request d .close

def InUnit (n : Numeral) : Prop := 0 ≤ n.value ∧ n.value ≤ 1

/-- The frame asks for an operation on the target that it names. -/
def Asks (request : Frame) (operation : TargetOperation) : Prop :=
  ∃ d handle describe, IsText request.payload d ∧ Names d handle ∧
    Describes InUnit request d describe ∧ operation = describe handle

def onTarget : MessageType → Bool
  | .post | .set | .close => true
  | _ => false

/-! ## What the session makes of the numbers -/

/-- As a double the number is in the unit interval. -/
def RoundsInUnit (n : Numeral) : Prop := ∃ q, (nearest n).value = some q ∧ 0 ≤ q ∧ q ≤ 1

/-- The number is read as a handle that it is not: it is no integer, or one whose integer part does
not fit, so that the conversion of its double is left open and gives a handle. -/
def Misread (unrepresentable : Unrepresentable) (n : Numeral) : Prop :=
  ∃ q, (nearest n).value = some q ∧
    ((∀ k : Int, n.value ≠ k) ∧ 1 ≤ q ∧ q < 2 ^ 32 ∨
      (q ≤ -2 ^ 63 - 1 ∨ 2 ^ 63 ≤ q) ∧
        0 < (unrepresentable (nearest n)).toInt ∧ (unrepresentable (nearest n)).toInt < 2 ^ 32)

section

variable {unrepresentable : Unrepresentable}

/-! ## What the session reads -/

theorem isFinite_iff (x : Double) : x.isFinite = true ↔ ∃ q, x.value = some q := by
  cases x <;> simp [Double.isFinite, Double.value]

theorem representable_iff {x : Double} {q : ℚ} (h : x.value = some q) :
    -2 ^ 63 ≤ x.truncate ∧ x.truncate < 2 ^ 63 ↔ -2 ^ 63 - 1 < q ∧ q < 2 ^ 63 := by
  have hlow := neg_le_truncate h (n := (2 ^ 63 : Int)) (by norm_num)
  have hhigh := truncate_lt h (n := (2 ^ 63 : Int)) (by norm_num)
  push_cast at hlow hhigh
  exact and_congr hlow hhigh

theorem truncate_range {x : Double} {q : ℚ} (h : x.value = some q) :
    0 < x.truncate ∧ x.truncate < 2 ^ 32 ↔ 1 ≤ q ∧ q < 2 ^ 32 := by
  have hlow := le_truncate h (n := 1) (by norm_num)
  have hhigh := truncate_lt h (n := (2 ^ 32 : Int)) (by norm_num)
  push_cast at hlow hhigh
  exact and_congr hlow hhigh

/-- The conversion, by the number that is converted. -/
theorem toInt64_value {x : Double} {q : ℚ} (h : x.value = some q) :
    (-2 ^ 63 - 1 < q ∧ q < 2 ^ 63 → (toInt64 unrepresentable x).toInt = x.truncate) ∧
      (¬ (-2 ^ 63 - 1 < q ∧ q < 2 ^ 63) → toInt64 unrepresentable x = unrepresentable x) := by
  rw [← representable_iff h]
  unfold toInt64
  refine ⟨fun hrange => ?_, fun hrange => if_neg hrange⟩
  rw [if_pos hrange, Int64.toInt_ofInt_of_le (by omega) (by omega)]

theorem readHandle_number {payload : Value} {x : Double}
    (hfind : payload.find (ascii "handle") = some (.number x)) {q : ℚ} (hq : x.value = some q)
    (handle : UInt32) :
    readHandle unrepresentable payload = some handle ↔
      handle ≠ 0 ∧ (toInt64 unrepresentable x).toInt = handle.toNat := by
  have hfinite : x.isFinite = true := (isFinite_iff x).mpr ⟨q, hq⟩
  have hlt := handle.toNat_lt
  unfold readHandle
  simp only [hfind, Value.isNumber, Value.asInt, hfinite, not_true_eq_false, if_false, if_true]
  generalize (toInt64 unrepresentable x).toInt = n
  rw [Ne, ← UInt32.toNat_inj, UInt32.toNat_zero]
  split
  · simp only [reduceCtorEq, false_iff]
    omega
  · rw [Option.some.injEq, ← UInt32.toNat_inj, UInt32.toNat_ofNat_of_lt' (by simp; omega)]
    omega

theorem readHandle_some {payload : Value} {handle : UInt32}
    (h : readHandle unrepresentable payload = some handle) :
    ∃ x q, payload.find (ascii "handle") = some (.number x) ∧ x.value = some q := by
  unfold readHandle at h
  split at h
  · cases h
  · rename_i v hfind
    cases v with
    | number x =>
      cases hfinite : x.isFinite with
      | true =>
        obtain ⟨q, hq⟩ := (isFinite_iff x).mp hfinite
        exact ⟨x, q, hfind, hq⟩
      | false => simp [Value.isNumber, Value.asInt, hfinite] at h
    | _ => simp [Value.isNumber] at h

theorem readHandle_isSome {payload : Value} {x : Double}
    (hfind : payload.find (ascii "handle") = some (.number x)) {q : ℚ} (hq : x.value = some q)
    {n : Int} (hn : (toInt64 unrepresentable x).toInt = n) (hrange : 0 < n ∧ n < 2 ^ 32) :
    ∃ handle, readHandle unrepresentable payload = some handle := by
  have hnat : (UInt32.ofNat n.toNat).toNat = n.toNat :=
    UInt32.toNat_ofNat_of_lt' (by simp; omega)
  refine ⟨UInt32.ofNat n.toNat, ?_⟩
  rw [readHandle_number hfind hq, Ne, ← UInt32.toNat_inj, UInt32.toNat_zero, hnat, hn]
  omega

theorem value_in_unit (x : Double) :
    (Double.ofInt 0).le x = true ∧ x.le (.ofInt 1) = true ↔ ∃ q, x.value = some q ∧ 0 ≤ q ∧ q ≤ 1 := by
  have hzero : (Double.ofInt 0).value = some 0 := by exact_mod_cast ofInt_value 0 (by norm_num)
  have hone : (Double.ofInt 1).value = some 1 := by exact_mod_cast ofInt_value 1 (by norm_num)
  constructor
  · intro h
    cases x with
    | nan => exact absurd h.1 (by decide +kernel)
    | inf s =>
      cases s with
      | false => exact absurd h.2 (by decide +kernel)
      | true => exact absurd h.1 (by decide +kernel)
    | finite s a => exact ⟨_, rfl, (le_value hzero rfl).mp h.1, (le_value rfl hone).mp h.2⟩
  · rintro ⟨q, hq, hlow, hhigh⟩
    exact ⟨(le_value hzero hq).mpr hlow, (le_value hq hone).mpr hhigh⟩

end

theorem readArgs_given (d : Doc) : GivenArgs d (readArgs d.meaning) := by
  unfold readArgs GivenArgs
  rw [find_meaning]
  cases d.member (ascii "args") with
  | none => exact .inr ⟨by simp, rfl⟩
  | some args =>
    cases args with
    | object members => exact .inl ⟨members, rfl, rfl⟩
    | _ => exact .inr ⟨by simp, rfl⟩

/-! ## Handles and what is read as one -/

section

variable {unrepresentable : Unrepresentable} {t : Bytes} {d : Doc} {handle : UInt32} {n : Numeral}

/-- The double of a handle. -/
theorem nearest_handle (hne : handle ≠ 0) (h : n.value = handle.toNat) :
    (nearest n).value = some (handle.toNat : ℚ) := by
  rw [Ne, ← UInt32.toNat_inj, UInt32.toNat_zero] at hne
  have hlt := handle.toNat_lt
  rw [nearest_int (k := (handle.toNat : Int)) (by omega) (by omega) (by exact_mod_cast h),
    ofInt_value _ (by omega), Int.cast_natCast]

/-- A handle that is named is read. -/
theorem Names.read (htext : IsText t d) (h : Names d handle) :
    readHandle unrepresentable d.meaning = some handle := by
  obtain ⟨hne, n, hmember, hvalue⟩ := h
  have hfind := (htext.find_number).mpr ⟨n, hmember, rfl⟩
  have hnearest := nearest_handle hne hvalue
  have hlt : (handle.toNat : ℚ) < 2 ^ 32 := by exact_mod_cast handle.toNat_lt
  have hnn : (0 : ℚ) ≤ handle.toNat := Nat.cast_nonneg _
  rw [readHandle_number hfind hnearest, (toInt64_value hnearest).1 ⟨by linarith, by linarith⟩,
    truncate_value hnearest, if_pos hnn]
  exact ⟨hne, Int.floor_natCast _⟩

/-- An integer whose double is in the range of handles is in that range. -/
theorem integer_in_range {k : Int} {q : ℚ} (hvalue : n.value = k) (hq : (nearest n).value = some q)
    (hlow : 1 ≤ q) (hhigh : q < 2 ^ 32) : 1 ≤ k ∧ k < 2 ^ 32 := by
  constructor
  · by_contra hnot
    have hle : n.value ≤ (0 : Nat) := by
      rw [hvalue]
      exact_mod_cast (by omega : k ≤ 0)
    have := nearest_le (by norm_num) hle hq
    norm_num at this
    linarith
  · by_contra hnot
    have hge : ((2 ^ 32 : Nat) : ℚ) ≤ n.value := by
      rw [hvalue]
      exact_mod_cast (by omega : 2 ^ 32 ≤ k)
    have := le_nearest (by norm_num) hge hq
    norm_num at this
    linarith

/-- A handle is read where it is named, or the number is misread. -/
theorem names_or_misread (htext : IsText t d) (h : readHandle unrepresentable d.meaning = some handle) :
    Names d handle ∨
      ∃ n, d.member (ascii "handle") = some (.number n) ∧ Misread unrepresentable n := by
  obtain ⟨x, q, hfind, hq⟩ := readHandle_some h
  obtain ⟨hne, hread⟩ := (readHandle_number hfind hq handle).mp h
  obtain ⟨n, hmember, rfl⟩ := htext.find_number.mp hfind
  have hpos : 0 < handle.toNat := by
    rw [Ne, ← UInt32.toNat_inj, UInt32.toNat_zero] at hne
    omega
  have hlt := handle.toNat_lt
  by_cases hrange : -2 ^ 63 - 1 < q ∧ q < 2 ^ 63
  · rw [(toInt64_value hq).1 hrange] at hread
    obtain ⟨hlow, hhigh⟩ := (truncate_range hq).mp ⟨by omega, by omega⟩
    by_cases hinteger : ∃ k : Int, n.value = k
    · obtain ⟨k, hk⟩ := hinteger
      obtain ⟨hone, hless⟩ := integer_in_range hk hq hlow hhigh
      have hexact : (k : ℚ) = q := by
        rw [nearest_int (by omega) (by omega) hk, ofInt_value k (by omega)] at hq
        exact Option.some.inj hq
      have hn : (nearest n).truncate = k := by
        rw [truncate_value hq, if_pos (by linarith), ← hexact, Int.floor_intCast]
      refine .inl ⟨hne, n, hmember, ?_⟩
      rw [hk, ← hn, hread, Int.cast_natCast]
    · rw [not_exists] at hinteger
      exact .inr ⟨n, hmember, q, hq, .inl ⟨hinteger, hlow, hhigh⟩⟩
  · rw [(toInt64_value hq).2 hrange] at hread
    rw [not_and_or, not_lt, not_lt] at hrange
    exact .inr ⟨n, hmember, q, hq, .inr ⟨hrange, by omega, by omega⟩⟩

/-- What is misread is read as a handle that is not named. -/
theorem Misread.read (htext : IsText t d) (hmember : d.member (ascii "handle") = some (.number n))
    (h : Misread unrepresentable n) :
    (∃ handle, readHandle unrepresentable d.meaning = some handle) ∧ ∀ handle, ¬ Names d handle := by
  have hfind := htext.find_number.mpr ⟨n, hmember, rfl⟩
  have hvalue : ∀ handle, Names d handle → handle ≠ 0 ∧ n.value = handle.toNat := by
    rintro handle ⟨hne, n', hmember', hn'⟩
    rw [hmember, Option.some.injEq, Doc.number.injEq] at hmember'
    exact ⟨hne, hmember' ▸ hn'⟩
  obtain ⟨q, hq, ⟨hfraction, hlow, hhigh⟩ | ⟨hrange, hpos, hlt⟩⟩ := h
  · have hread : (toInt64 unrepresentable (nearest n)).toInt = (nearest n).truncate :=
      (toInt64_value hq).1 ⟨by linarith, by linarith⟩
    refine ⟨readHandle_isSome hfind hq hread ((truncate_range hq).mpr ⟨hlow, hhigh⟩), ?_⟩
    intro handle hnames
    exact hfraction handle.toNat (by exact_mod_cast (hvalue handle hnames).2)
  · have hnot : ¬ (-2 ^ 63 - 1 < q ∧ q < 2 ^ 63) := by
      rw [not_and_or, not_lt, not_lt]
      exact hrange
    have hread : toInt64 unrepresentable (nearest n) = unrepresentable (nearest n) :=
      (toInt64_value hq).2 hnot
    refine ⟨readHandle_isSome hfind hq (by rw [hread]) ⟨hpos, hlt⟩, ?_⟩
    intro handle hnames
    obtain ⟨hne, hn⟩ := hvalue handle hnames
    rw [nearest_handle hne hn] at hq
    obtain rfl : (handle.toNat : ℚ) = q := Option.some.inj hq
    have hsmall : (handle.toNat : ℚ) < 2 ^ 32 := by exact_mod_cast handle.toNat_lt
    have hnn : (0 : ℚ) ≤ handle.toNat := Nat.cast_nonneg _
    rcases hrange with hrange | hrange <;> linarith

/-- A value in the unit interval stays there. -/
theorem InUnit.rounds (h : InUnit n) : RoundsInUnit n := by
  have hhigh : n.value ≤ (1 : Nat) := by exact_mod_cast h.2
  obtain ⟨q, hq⟩ := nearest_finite (by norm_num) h.1 hhigh
  have hlow' := le_nearest (k := 0) (by norm_num) (by exact_mod_cast h.1) hq
  have hhigh' := nearest_le (by norm_num) hhigh hq
  exact ⟨q, hq, by exact_mod_cast hlow', by exact_mod_cast hhigh'⟩

end

/-! ## What the session takes for an operation -/

/-- Apart from the handle, this is let through as an operation. -/
inductive Admits (request : Frame) (payload : Value) : (UInt32 → TargetOperation) → Prop
  | post (action : Bytes) : request.type = .post →
      payload.find (ascii "action") = some (.string action) →
      Admits request payload fun handle => .post handle action (readArgs payload)
  | set (param : Bytes) (value : Double) (q : ℚ) : request.type = .set →
      payload.find (ascii "param") = some (.string param) →
      payload.find (ascii "value") = some (.number value) →
      value.value = some q → 0 ≤ q → q ≤ 1 →
      Admits request payload fun handle => .set handle param value
  | close : request.type = .close → Admits request payload .close

section

variable {t : Bytes} {d : Doc} {Valued : Numeral → Prop} {request : Frame}
  {describe describe' : UInt32 → TargetOperation}

theorem GivenArgs.unique {args args' : Value} (h : GivenArgs d args) (h' : GivenArgs d args') :
    args = args' := by
  rcases h with ⟨members, hmember, rfl⟩ | ⟨hnone, rfl⟩
  · rcases h' with ⟨members', hmember', rfl⟩ | ⟨hnone', rfl⟩
    · rw [hmember] at hmember'
      cases hmember'
      rfl
    · exact absurd hmember (hnone' members)
  · rcases h' with ⟨members', hmember', rfl⟩ | ⟨hnone', rfl⟩
    · exact absurd hmember' (hnone members')
    · rfl

/-- The session lets through what has its value in the unit interval once it is a double. -/
theorem Describes.admits (htext : IsText t d) (h : Describes RoundsInUnit request d describe) :
    Admits request d.meaning describe := by
  cases h with
  | post action args htype haction hargs =>
    rw [hargs.unique (readArgs_given d)]
    exact .post action htype (find_string.mpr haction)
  | set param n htype hparam hvalue hunit =>
    obtain ⟨q, hq, hlow, hhigh⟩ := hunit
    exact .set param (nearest n) q htype (find_string.mpr hparam)
      (htext.find_number.mpr ⟨n, hvalue, rfl⟩) hq hlow hhigh
  | close htype => exact .close htype

theorem Admits.describes (htext : IsText t d) (h : Admits request d.meaning describe) :
    Describes RoundsInUnit request d describe := by
  cases h with
  | post action htype haction => exact .post action _ htype (find_string.mp haction) (readArgs_given d)
  | set param value q htype hparam hvalue hq hlow hhigh =>
    obtain ⟨n, hmember, rfl⟩ := htext.find_number.mp hvalue
    exact .set param n htype (find_string.mp hparam) hmember ⟨q, hq, hlow, hhigh⟩
  | close htype => exact .close htype

theorem Describes.mono {Valued' : Numeral → Prop} (h : Describes Valued request d describe)
    (himp : ∀ n, Valued n → Valued' n) : Describes Valued' request d describe := by
  cases h with
  | post action args htype haction hargs => exact .post action args htype haction hargs
  | set param n htype hparam hvalue hvalued => exact .set param n htype hparam hvalue (himp n hvalued)
  | close htype => exact .close htype

theorem Admits.unique {payload : Value} (h : Admits request payload describe)
    (h' : Admits request payload describe') : describe = describe' := by
  cases h with
  | post action htype haction =>
    cases h' with
    | post action' _ haction' =>
      rw [haction] at haction'
      cases haction'
      rfl
    | set _ _ _ htype' => simp [htype] at htype'
    | close htype' => simp [htype] at htype'
  | set param value q htype hparam hvalue _ _ _ =>
    cases h' with
    | post _ htype' => simp [htype] at htype'
    | set param' value' q' _ hparam' hvalue' _ _ _ =>
      rw [hparam] at hparam'
      rw [hvalue] at hvalue'
      cases hparam'
      cases hvalue'
      rfl
    | close htype' => simp [htype] at htype'
  | close htype =>
    cases h' with
    | post _ htype' => simp [htype] at htype'
    | set _ _ _ htype' => simp [htype] at htype'
    | close _ => rfl

theorem Describes.onTarget (h : Describes Valued request d describe) :
    OakBarrels.onTarget request.type = true := by
  cases h with
  | post _ _ htype =>
    rw [htype]
    rfl
  | set _ _ htype =>
    rw [htype]
    rfl
  | close htype =>
    rw [htype]
    rfl

end

namespace World

variable {σ : Type} {w w₁ w' : World σ}

/-! ## What the session asks of its engine -/

/-- Between two worlds these operations were asked of the engine. -/
def Operated (w w' : World σ) (operations : List TargetOperation) : Prop :=
  ∃ calls frames, Emitted w w' calls frames ∧ calls.filterMap BackendCall.operation? = operations

/-- The request is refused with BAD_ARGUMENT, and the engine is not touched. -/
def RefusedArgument (w w' : World σ) : Prop :=
  Emitted w w' [] [encodeFrame .error (errorPayload .badArgument).dump] ∧ w'.backend = w.backend

theorem Operated.unique {operations operations' : List TargetOperation} (h : Operated w w' operations)
    (h' : Operated w w' operations') : operations = operations' := by
  obtain ⟨calls, frames, hemitted, rfl⟩ := h
  obtain ⟨calls', frames', hemitted', rfl⟩ := h'
  rw [(hemitted.unique hemitted').1]

theorem RefusedArgument.operated (h : RefusedArgument w w') : Operated w w' [] := ⟨[], _, h.1, rfl⟩

theorem sendError_refused (w : World σ) : RefusedArgument w (w.sendError .badArgument) := by
  refine ⟨send_emitted w .error _, ?_⟩
  change (w.transcribe '>' .error _).backend = w.backend
  exact transcribe_backend ..

theorem answer_emitted (w : World σ) (handle : UInt32) (reason : Reason) :
    ∃ frame, Emitted w (w.answer handle reason) [] [frame] := by
  unfold answer
  split
  · exact ⟨_, send_emitted w .status _⟩
  · exact ⟨_, send_emitted w .error _⟩

theorem answer_operated {call : BackendCall} {operation : TargetOperation} (hcall : Emitted w w₁ [call] [])
    (hoperation : call.operation? = some operation) (handle : UInt32) (reason : Reason) :
    Operated w (w₁.answer handle reason) [operation] := by
  obtain ⟨frame, hanswer⟩ := answer_emitted w₁ handle reason
  exact ⟨[call], [frame], hcall.trans hanswer, by simp [hoperation]⟩

/-- A request on a target is performed, or refused for its handle or its other fields. -/
inductive Performs (unrepresentable : Unrepresentable) (w w' : World σ) (request : Frame)
    (payload : Value) : Prop
  | operated (handle : UInt32) (describe : UInt32 → TargetOperation) :
      readHandle unrepresentable payload = some handle → Admits request payload describe →
      Operated w w' [describe handle] → Performs unrepresentable w w' request payload
  | refused : (readHandle unrepresentable payload = none ∨
        ∀ describe, ¬ Admits request payload describe) →
      RefusedArgument w w' → Performs unrepresentable w w' request payload

section

variable {unrepresentable : Unrepresentable} {backend : EngineBackend σ} {request : Frame}
  {payload : Value}

theorem handlePost_performs (htype : request.type = .post) :
    Performs unrepresentable w (handlePost unrepresentable backend payload w).2 request payload := by
  have hrefused := sendError_refused w
  have hother : (∀ action, payload.find (ascii "action") ≠ some (.string action)) →
      ∀ describe, ¬ Admits request payload describe := by
    intro hnone describe h
    cases h with
    | post action _ haction => exact hnone action haction
    | set _ _ _ htype' => simp [htype] at htype'
    | close htype' => simp [htype] at htype'
  unfold handlePost
  split
  · exact .refused (.inl ‹_›) hrefused
  · rename_i handle hhandle
    split
    · rename_i hnone
      exact .refused (.inr (hother (by simp [hnone]))) hrefused
    · rename_i action haction
      cases action with
      | string action =>
        refine .operated handle _ hhandle (.post action htype haction) ?_
        exact answer_operated (calling_emitted ..) rfl handle _
      | _ => exact .refused (.inr (hother (by simp [haction]))) hrefused

theorem handleClose_performs (htype : request.type = .close) :
    Performs unrepresentable w (handleClose unrepresentable backend payload w).2 request payload := by
  unfold handleClose
  split
  · exact .refused (.inl ‹_›) (sendError_refused w)
  · rename_i handle hhandle
    exact .operated handle _ hhandle (.close htype) (answer_operated (calling_emitted ..) rfl handle _)

theorem handleSet_performs (htype : request.type = .set) :
    Performs unrepresentable w (handleSet unrepresentable backend payload w).2 request payload := by
  have hrefused := sendError_refused w
  have hother : (∀ param value q, payload.find (ascii "param") = some (.string param) →
      payload.find (ascii "value") = some (.number value) → value.value = some q → 0 ≤ q → ¬ q ≤ 1) →
      ∀ describe, ¬ Admits request payload describe := by
    intro hnone describe h
    cases h with
    | post _ htype' => simp [htype] at htype'
    | set param value q _ hparam hvalue hq hlow hhigh => exact hnone param value q hparam hvalue hq hlow hhigh
    | close htype' => simp [htype] at htype'
  unfold handleSet
  split
  · exact .refused (.inl ‹_›) hrefused
  · rename_i handle hhandle
    split
    · rename_i hnone
      exact .refused (.inr (hother (by simp [hnone]))) hrefused
    · rename_i param hparam
      cases param with
      | string param =>
        simp only [Value.isString, not_true_eq_false, if_false]
        split
        · rename_i hnone
          exact .refused (.inr (hother (by simp [hnone]))) hrefused
        · rename_i value hvalue
          cases value with
          | number value =>
            simp only [Value.isNumber, Value.asNumber, not_true_eq_false, if_false, value_in_unit]
            split
            · rename_i hrange
              refine .refused (.inr (hother ?_)) hrefused
              intro param' value' q _ hvalue' hq hlow hhigh
              rw [hvalue, Option.some.injEq, Value.number.injEq] at hvalue'
              exact hrange ⟨q, hvalue' ▸ hq, hlow, hhigh⟩
            · rename_i hrange
              rw [not_not] at hrange
              obtain ⟨q, hq, hlow, hhigh⟩ := hrange
              refine .operated handle _ hhandle
                (.set param value q htype hparam hvalue hq hlow hhigh) ?_
              exact answer_operated (calling_emitted ..) rfl handle _
          | _ => exact .refused (.inr (hother (by simp [hvalue]))) hrefused
      | _ => exact .refused (.inr (hother (by simp [hparam]))) hrefused

theorem RefusedArgument.after (h : RefusedArgument w₁ w') (hemitted : Emitted w w₁ [] [])
    (hbackend : w₁.backend = w.backend) : RefusedArgument w w' :=
  ⟨hemitted.trans h.1, h.2.trans hbackend⟩

theorem Operated.after {operations : List TargetOperation} (h : Operated w₁ w' operations)
    (hemitted : Emitted w w₁ [] []) : Operated w w' operations := by
  obtain ⟨calls, frames, hcalls, hoperations⟩ := h
  exact ⟨_, _, hemitted.trans hcalls, hoperations⟩

theorem Performs.after (h : Performs unrepresentable w₁ w' request payload)
    (hemitted : Emitted w w₁ [] []) (hbackend : w₁.backend = w.backend) :
    Performs unrepresentable w w' request payload := by
  cases h with
  | operated handle describe hhandle hdescribes hoperated =>
    exact .operated handle describe hhandle hdescribes (hoperated.after hemitted)
  | refused hwhy hrefused => exact .refused hwhy (hrefused.after hemitted hbackend)

/-! ### The rest of the frames -/

/-- The operations asked of the engine so far. -/
def operations (w : World σ) : List TargetOperation :=
  (w.log.filterMap Event.call?).filterMap BackendCall.operation?

theorem operated_nil {calls : List BackendCall} {frames : List Bytes} (h : Emitted w w' calls frames)
    (hsame : w'.operations = w.operations) : Operated w w' [] := by
  refine ⟨calls, frames, h, ?_⟩
  obtain ⟨events, hlog, rfl, -⟩ := h
  unfold operations at hsame
  rw [hlog, List.filterMap_append, List.filterMap_append] at hsame
  exact List.append_right_eq_self.mp hsame

@[simp] theorem transcribe_operations (w : World σ) (direction : Char) (type : MessageType)
    (text : Bytes) : (w.transcribe direction type text).operations = w.operations := by
  unfold transcribe
  split
  · simp [operations, record, Event.call?]
  · rfl

@[simp] theorem send_operations (w : World σ) (type : MessageType) (text : Bytes) :
    (w.send type text).operations = w.operations := by
  rw [← transcribe_operations w '>' type text]
  simp [send, operations, record, Event.call?]

@[simp] theorem calling_operations {α : Type} (w : World σ) (operation : StateM σ α)
    (call : α → BackendCall) : (w.calling operation call).2.operations
      = w.operations ++ (call (w.calling operation call).1).operation?.toList := by
  unfold operations
  change ((w.log ++ [Event.call _]).filterMap Event.call?).filterMap BackendCall.operation? = _
  simp only [List.filterMap_append]
  rfl

@[simp] theorem sendError_operations (w : World σ) (reason : Reason) :
    (w.sendError reason).operations = w.operations := send_operations _ _ _

@[simp] theorem finish_operations (w : World σ) : w.finish.operations = w.operations := rfl

theorem handleHello_operations (w : World σ) (frame : Frame) :
    (handleHello unrepresentable frame w).2.operations = w.operations := by
  rcases handleHello_cases unrepresentable frame w with
    ⟨reason, -, hresult⟩ | ⟨payload, revisions, -, -, -, -, hresult⟩
  · rw [hresult]
    simp
  · rw [hresult, send_operations]
    rfl

theorem handleCapsRequest_operations (w : World σ) :
    (handleCapsRequest backend w).2.operations = w.operations := by
  simp [handleCapsRequest, BackendCall.operation?]

theorem handleOpen_operations (w : World σ) (payload : Value) :
    (handleOpen backend payload w).2.operations = w.operations := by
  rcases handleOpen_cases backend payload w with
    hresult | ⟨kind, -, ⟨-, reason, -, hresult⟩ | ⟨-, hresult⟩⟩
  · rw [hresult]
    simp
  · rw [hresult]
    simp [BackendCall.operation?]
  · rw [hresult]
    simp [BackendCall.operation?]

theorem handleDiagRequest_operations (w : World σ) (payload : Value) :
    (handleDiagRequest backend payload w).2.operations = w.operations := by
  obtain ⟨session, -, -, hresult⟩ := handleDiagRequest_cases backend payload w
  have hlog : ({ w with session } : World σ).operations = w.operations := rfl
  rcases hresult with hresult | hresult
  · rw [hresult, sendError_operations, hlog]
  · rw [hresult, ← hlog]
    simp [reportDiagnostics, BackendCall.operation?]

theorem handle_operations (htype : onTarget request.type = false) (w : World σ) :
    (w.handle unrepresentable backend request).2.operations = w.operations := by
  rw [← transcribe_operations w '<' request.type request.payload]
  cases hlive : w.session.finished with
  | true => rw [handle_finished backend hlive, transcribe_operations]
  | false =>
    have hdispatched := handle_dispatched unrepresentable backend hlive request
    generalize w.transcribe '<' request.type request.payload = w₁ at *
    generalize w.handle unrepresentable backend request = r at *
    cases hdispatched with
    | bye => simp
    | premature => simp
    | hello => exact handleHello_operations w₁ request
    | malformed => simp
    | capsRequest => exact handleCapsRequest_operations w₁
    | opens _ _ payload => exact handleOpen_operations w₁ payload
    | post hpost => simp [hpost, onTarget] at htype
    | set hset => simp [hset, onTarget] at htype
    | close hclose => simp [hclose, onTarget] at htype
    | diagRequest _ _ payload => exact handleDiagRequest_operations w₁ payload
    | unsupported => simp

/-- A frame of another type asks for no operation. -/
theorem handle_quiet (hlive : w.session.finished = false) (htype : onTarget request.type = false) :
    Operated w (w.handle unrepresentable backend request).2 [] := by
  obtain ⟨calls, reply, hemitted, -⟩ := handle_writes backend unrepresentable hlive request
  exact operated_nil hemitted (handle_operations htype w)

/-! ### The requests on a target -/

section

variable (hlive : w.session.finished = false) (hnegotiated : w.session.negotiated = true)
  (htype : onTarget request.type = true)

include hlive hnegotiated htype

theorem handle_performs (hpayload : parsePayload request = some payload) :
    Performs unrepresentable w (w.handle unrepresentable backend request).2 request payload := by
  have hemitted := transcribe_emitted w '<' request.type request.payload
  refine Performs.after ?_ hemitted (transcribe_backend ..)
  cases hrequest : request.type with
  | post =>
    simpa [handle, hlive, hnegotiated, hpayload, hrequest] using handlePost_performs hrequest
  | set =>
    simpa [handle, hlive, hnegotiated, hpayload, hrequest] using handleSet_performs hrequest
  | close =>
    simpa [handle, hlive, hnegotiated, hpayload, hrequest] using handleClose_performs hrequest
  | _ => simp [hrequest, onTarget] at htype

theorem handle_unread (hpayload : parsePayload request = none) :
    RefusedArgument w (w.handle unrepresentable backend request).2 := by
  have hemitted := transcribe_emitted w '<' request.type request.payload
  refine RefusedArgument.after ?_ hemitted (transcribe_backend ..)
  have hbye : request.type ≠ .bye := by
    intro hbye
    simp [hbye, onTarget] at htype
  simpa [handle, hlive, hnegotiated, hpayload, hbye] using sendError_refused _

end

end

/-! ## Faithful dispatch -/

/-- The engine is asked for what the frame asks for, once; a request on a target that asks for nothing
is refused, and the engine is not touched. -/
structure FaithfulDispatch (w w' : World σ) (request : Frame) : Prop where
  called : ∀ operation, Operated w w' [operation] ↔ Asks request operation
  refused : onTarget request.type = true → (∀ operation, ¬ Asks request operation) →
    RefusedArgument w w'
  quiet : (∀ operation, ¬ Asks request operation) → Operated w w' []

/-- What the frame says is what the session makes of it: it asks for nothing in a document that is nested
too deep to be read, no handle is misread where the rest of the frame is let through, and no value is
rounded into the unit interval where a target is named. -/
structure WellRead (unrepresentable : Unrepresentable) (request : Frame) : Prop where
  shallow : ∀ d handle describe, IsText request.payload d → Names d handle →
    Describes InUnit request d describe → d.height ≤ kMaxParseDepth
  handle : ∀ d describe n, IsText request.payload d → d.height ≤ kMaxParseDepth →
    Describes RoundsInUnit request d describe → d.member (ascii "handle") = some (.number n) →
    ¬ Misread unrepresentable n
  value : ∀ d handle param n, IsText request.payload d → d.height ≤ kMaxParseDepth →
    request.type = .set → Names d handle → d.member (ascii "param") = some (.string param) →
    d.member (ascii "value") = some (.number n) → RoundsInUnit n → InUnit n

section

variable {request : Frame}

theorem text_ne_nil {t : Bytes} {d : Doc} (h : IsText t d) : t ≠ [] := by
  obtain ⟨w₁, s, w₂, -, hd, -, rfl⟩ := h
  obtain ⟨b, u, rfl, -, -⟩ := Parser.value_head hd
  simp

theorem parsePayload_text {d : Doc} (h : IsText request.payload d) (hheight : d.height ≤ kMaxParseDepth) :
    parsePayload request = some d.meaning := by
  unfold parsePayload
  rw [if_neg (text_ne_nil h)]
  exact parse_complete h hheight

/-- A payload that is read and has a handle is a document. -/
theorem parsePayload_document {unrepresentable : Unrepresentable} {payload : Value} {handle : UInt32}
    (h : parsePayload request = some payload)
    (hread : readHandle unrepresentable payload = some handle) :
    ∃ d, IsText request.payload d ∧ d.height ≤ kMaxParseDepth ∧ d.meaning = payload := by
  unfold parsePayload at h
  split at h
  · cases h
    cases hread
  · exact parse_sound h

/-- What is performed is what is asked for, where the frame is read well. -/
theorem admits_asks {unrepresentable : Unrepresentable} (hwell : WellRead unrepresentable request)
    {payload : Value} {handle : UInt32} {describe : UInt32 → TargetOperation}
    (hpayload : parsePayload request = some payload)
    (hread : readHandle unrepresentable payload = some handle)
    (hadmits : Admits request payload describe) : Asks request (describe handle) := by
  obtain ⟨d, htext, hheight, rfl⟩ := parsePayload_document hpayload hread
  have hdescribes := hadmits.describes htext
  have hnames : Names d handle := by
    rcases names_or_misread htext hread with hnames | ⟨n, hmember, hmisread⟩
    · exact hnames
    · exact absurd hmisread (hwell.handle d describe n htext hheight hdescribes hmember)
  refine ⟨d, handle, describe, htext, hnames, ?_, rfl⟩
  cases hdescribes with
  | post action args htype haction hargs => exact .post action args htype haction hargs
  | set param n htype hparam hvalue hunit =>
    exact .set param n htype hparam hvalue
      (hwell.value d handle param n htext hheight htype hnames hparam hvalue hunit)
  | close htype => exact .close htype

end

section

variable (unrepresentable : Unrepresentable) (backend : EngineBackend σ) {request : Frame}
  (hlive : w.session.finished = false) (hnegotiated : w.session.negotiated = true)

include hlive hnegotiated

/-- A frame that is read, and whose handle is, is performed where it is let through. -/
theorem admitted_operated {d : Doc} {handle : UInt32} {describe : UInt32 → TargetOperation}
    (htext : IsText request.payload d) (hheight : d.height ≤ kMaxParseDepth)
    (hread : readHandle unrepresentable d.meaning = some handle)
    (hdescribes : Describes RoundsInUnit request d describe) :
    Operated w (w.handle unrepresentable backend request).2 [describe handle] := by
  have hadmits := hdescribes.admits htext
  have hperforms : Performs unrepresentable w (w.handle unrepresentable backend request).2 request
      d.meaning := handle_performs hlive hnegotiated hdescribes.onTarget (parsePayload_text htext hheight)
  cases hperforms with
  | operated handle' describe' hread' hadmits' hoperated =>
    rw [hread] at hread'
    cases hread'
    rwa [hadmits.unique hadmits']
  | refused hwhy _ =>
    rcases hwhy with hnone | hnone
    · rw [hread] at hnone
      cases hnone
    · exact absurd hadmits (hnone describe)

theorem asked_operated (hwell : WellRead unrepresentable request) {operation : TargetOperation}
    (h : Asks request operation) :
    Operated w (w.handle unrepresentable backend request).2 [operation] := by
  obtain ⟨d, handle, describe, htext, hnames, hdescribes, rfl⟩ := h
  have hheight := hwell.shallow d handle describe htext hnames hdescribes
  exact admitted_operated unrepresentable backend hlive hnegotiated htext hheight (hnames.read htext)
    (hdescribes.mono fun _ => InUnit.rounds)

/-- Where the frame is read well, what is not asked for is refused. -/
theorem asked_or_refused (hwell : WellRead unrepresentable request)
    (htype : onTarget request.type = true) :
    (∃ operation, Asks request operation ∧
        Operated w (w.handle unrepresentable backend request).2 [operation]) ∨
      RefusedArgument w (w.handle unrepresentable backend request).2 := by
  cases hpayload : parsePayload request with
  | none => exact .inr (handle_unread hlive hnegotiated htype hpayload)
  | some payload =>
    have hperforms : Performs unrepresentable w (w.handle unrepresentable backend request).2 request
        payload := handle_performs hlive hnegotiated htype hpayload
    cases hperforms with
    | operated handle describe hread hadmits hoperated =>
      exact .inl ⟨describe handle, admits_asks hwell hpayload hread hadmits, hoperated⟩
    | refused _ hrefused => exact .inr hrefused

/-- A session that dispatches faithfully has read the frame well. -/
theorem FaithfulDispatch.wellRead
    (h : FaithfulDispatch w (w.handle unrepresentable backend request).2 request) :
    WellRead unrepresentable request := by
  -- What is performed is asked for, and in the one document of the payload.
  have hasked : ∀ d describe handle, IsText request.payload d → d.height ≤ kMaxParseDepth →
      readHandle unrepresentable d.meaning = some handle → Describes RoundsInUnit request d describe →
      ∃ named describe', Names d named ∧ Describes InUnit request d describe' ∧
        describe handle = describe' named := by
    intro d describe handle htext hheight hread hdescribes
    have hoperated := admitted_operated unrepresentable backend hlive hnegotiated htext hheight hread
      hdescribes
    obtain ⟨d', named, describe', htext', hnames, hdescribes', heq⟩ := (h.called _).mp hoperated
    obtain rfl := htext.unique htext'
    exact ⟨named, describe', hnames, hdescribes', heq⟩
  constructor
  · intro d handle describe htext hnames hdescribes
    have hoperated := (h.called _).mpr ⟨d, handle, describe, htext, hnames, hdescribes, rfl⟩
    cases hpayload : parsePayload request with
    | none =>
      have hrefused : RefusedArgument w (w.handle unrepresentable backend request).2 :=
        handle_unread hlive hnegotiated hdescribes.onTarget hpayload
      cases hrefused.operated.unique hoperated
    | some payload =>
      unfold parsePayload at hpayload
      rw [if_neg (text_ne_nil htext)] at hpayload
      obtain ⟨d', htext', hheight, -⟩ := parse_sound hpayload
      rwa [htext.unique htext']
  · intro d describe n htext hheight hdescribes hmember hmisread
    obtain ⟨⟨handle, hread⟩, hunnamed⟩ := hmisread.read htext hmember
    obtain ⟨named, -, hnames, -⟩ := hasked d describe handle htext hheight hread hdescribes
    exact hunnamed named hnames
  · intro d handle param n htext hheight htype hnames hparam hvalue hunit
    obtain ⟨-, describe', -, hdescribes', -⟩ := hasked d _ handle htext hheight (hnames.read htext)
      (.set param n htype hparam hvalue hunit)
    cases hdescribes' with
    | post _ _ htype' => simp [htype] at htype'
    | set _ n' _ _ hvalue' hunit' =>
      rw [hvalue] at hvalue'
      cases hvalue'
      exact hunit'
    | close htype' => simp [htype] at htype'

/-- **Faithful dispatch.** A session acts on the target that a frame names, and only on it, exactly
when the frame is read well: its handle is no fraction that is rounded or cut to a handle and no number
which the conversion to an integer cannot represent and makes a handle of, its value is not rounded
into the unit interval, and it asks for nothing nested too deep. -/
theorem dispatch_faithful_iff (request : Frame) :
    FaithfulDispatch w (w.handle unrepresentable backend request).2 request ↔
      WellRead unrepresentable request := by
  refine ⟨FaithfulDispatch.wellRead unrepresentable backend hlive hnegotiated, fun hwell => ?_⟩
  have hcases : (∃ operation, Asks request operation ∧
        Operated w (w.handle unrepresentable backend request).2 [operation]) ∨
      Operated w (w.handle unrepresentable backend request).2 [] := by
    cases htype : onTarget request.type with
    | false => exact .inr (handle_quiet hlive htype)
    | true =>
      exact (asked_or_refused unrepresentable backend hlive hnegotiated hwell htype).imp_right
        RefusedArgument.operated
  refine ⟨fun operation => ⟨fun hoperated => ?_,
    asked_operated unrepresentable backend hlive hnegotiated hwell⟩, ?_, ?_⟩
  · rcases hcases with ⟨asked, hasks, hasked⟩ | hnone
    · rwa [← List.singleton_inj.mp (hasked.unique hoperated)]
    · cases hnone.unique hoperated
  · intro htype hnone
    refine (asked_or_refused unrepresentable backend hlive hnegotiated hwell htype).resolve_left ?_
    rintro ⟨operation, hasks, -⟩
    exact hnone operation hasks
  · intro hnone
    refine hcases.resolve_left ?_
    rintro ⟨operation, hasks, -⟩
    exact hnone operation hasks

end

def closing (n : Numeral) : Doc := .object [(ascii "handle", .number n)]

theorem closing_text {n : Numeral} (h : IsNumber n) :
    IsText (ascii "\x7b\"handle\":" ++ n.text ++ ascii "\x7d") (closing n) := by
  have hname : IsName (ascii "\"handle\":") (ascii "handle") :=
    ⟨writeEscapedString (ascii "handle"), [], [], writeEscapedString_isString _, whitespace_nil,
      whitespace_nil, by decide⟩
  have hobject := Reads.object whitespace_nil (Reads.member hname (Reads.number h) whitespace_nil)
  refine ⟨[], _, [], whitespace_nil, hobject, whitespace_nil, ?_⟩
  have hopen : ascii "\x7b\"handle\":" = 0x7b :: ascii "\"handle\":" := by decide
  have hclose : ascii "\x7d" = [0x7d] := by decide
  simp [hopen, hclose]

def closeSeven : Frame := ⟨.close, ascii "\x7b\"handle\":7\x7d"⟩

theorem closeSeven_wellRead (unrepresentable : Unrepresentable) :
    WellRead unrepresentable closeSeven := by
  have htext : IsText closeSeven.payload (closing (integral 7)) := closing_text (integral_spelled 7)
  constructor
  · intro d _ _ hd _ _
    rw [hd.unique htext]
    decide
  · rintro d describe n hd - - hmember ⟨q, hq, hmisread⟩
    rw [hd.unique htext] at hmember
    cases hmember
    rw [nearest_integral, ofInt_value 7 (by norm_num)] at hq
    obtain rfl : ((7 : Int) : ℚ) = q := Option.some.inj hq
    rcases hmisread with ⟨hfraction, -⟩ | ⟨hrange, -⟩
    · exact hfraction 7 (integral_value 7)
    · norm_num at hrange
  · intro _ _ _ _ _ _ htype
    cases htype

theorem dispatch_faithful_iff_seven :
    let w := Runs.final (step (fun _ => Int64.minValue) nullBackend) (fresh () false) [helloFrame]
    FaithfulDispatch w (w.handle (fun _ => Int64.minValue) nullBackend closeSeven).2 closeSeven :=
  (dispatch_faithful_iff (fun _ => Int64.minValue) nullBackend (by decide +kernel) (by decide +kernel)
    closeSeven).mpr (closeSeven_wellRead _)

def closeFraction : Frame := ⟨.close, ascii "\x7b\"handle\":1.5\x7d"⟩

def oneAndHalf : Numeral := ⟨false, ascii "1", ascii "5", none⟩

/-- The target 1 is closed by a frame that names no target. -/
theorem dispatch_unfaithful_at_fraction :
    ¬ ∀ (frames : List Frame) (request : Frame),
      let w := Runs.final (step (fun _ => Int64.minValue) nullBackend) (fresh () false) frames
      w.session.finished = false → w.session.negotiated = true →
      FaithfulDispatch w (w.handle (fun _ => Int64.minValue) nullBackend request).2 request := by
  intro h
  let w := Runs.final (step (fun _ => Int64.minValue) nullBackend) (fresh () false) [helloFrame]
  have hlive : w.session.finished = false := by decide +kernel
  have hnegotiated : w.session.negotiated = true := by decide +kernel
  have hspelled : IsNumber oneAndHalf := by
    refine ⟨⟨by decide +kernel, by decide +kernel, by decide +kernel, by simp [oneAndHalf]⟩,
      .inr ⟨digit 1, [], by decide⟩⟩
  have htext : IsText closeFraction.payload (closing oneAndHalf) := closing_text hspelled
  have hvalue : oneAndHalf.value = 3 / 2 := by
    have hdigits : oneAndHalf.digits = 15 := by decide
    have hscale : oneAndHalf.scale = -1 := by decide
    rw [Numeral.value, hdigits, hscale]
    norm_num [oneAndHalf]
  have hnearest : nearest oneAndHalf = .finite false ⟨6755399441055744, -52, by decide⟩ := by
    decide +kernel
  refine (h [helloFrame] closeFraction hlive hnegotiated).wellRead _ _ hlive hnegotiated |>.handle
    (closing oneAndHalf) .close oneAndHalf htext (by decide) (.close rfl) rfl ⟨3 / 2, ?_, .inl ⟨?_, ?_⟩⟩
  · rw [hnearest]
    simp only [Double.value, signed, Magnitude.value]
    norm_num
  · intro k hk
    rw [hvalue] at hk
    have hinteger : (3 : ℚ) = ((2 * k : Int) : ℚ) := by
      push_cast
      linarith
    have : (3 : Int) = 2 * k := by exact_mod_cast hinteger
    omega
  · norm_num

end World

end OakBarrels
