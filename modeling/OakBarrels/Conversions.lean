import OakBarrels.Targets

/-!
# Conversions to an integer

Every `static_cast` from a double to a 64-bit integer that a frame causes, in reading the frame and in
writing its reply. One whose integer part does not fit is undefined.
-/

open Octets Binary64

namespace OakBarrels

open Json Protocol

/-- The conversion is defined. -/
def Castable (x : Double) : Prop :=
  x.isFinite = true ∧ -2 ^ 63 ≤ x.truncate ∧ x.truncate < 2 ^ 63

/-- The number lies where its integer part fits. -/
def FitsInt64 (q : ℚ) : Prop := -2 ^ 63 - 1 < q ∧ q < 2 ^ 63

theorem castable_iff {x : Double} {q : ℚ} (h : x.value = some q) : Castable x ↔ FitsInt64 q := by
  unfold Castable FitsInt64
  rw [representable_iff h, and_iff_right ((isFinite_iff x).mpr ⟨q, h⟩)]

/-! ## What is converted -/

namespace Json

/-- By `asInt`: infinities and NaN are not converted. -/
def Value.asIntCasts : Value → List Double
  | .number v => if v.isFinite then [v] else []
  | _ => []

/-- By `writeNumber`, in its own order of checks. -/
def writeNumberCasts (value : Double) : List Double :=
  if ¬ value.isFinite then []
  else if value.beq value.floor ∧ value.abs.lt (.ofInt (10 ^ 15)) then [value]
  else []

mutual

def writeValueCasts : Value → List Double
  | .number v => writeNumberCasts v
  | .array items => writeItemsCasts items
  | .object members => writeMembersCasts members
  | _ => []

def writeItemsCasts : List Value → List Double
  | [] => []
  | item :: rest => writeValueCasts item ++ writeItemsCasts rest

def writeMembersCasts : List (Bytes × Value) → List Double
  | [] => []
  | (_, value) :: rest => writeValueCasts value ++ writeMembersCasts rest

end

end Json

def readHandleCasts (payload : Value) : List Double :=
  match payload.find (ascii "handle") with
  | none => []
  | some handle => if ¬ handle.isNumber then [] else handle.asIntCasts

def offeredRevisionsCasts (revisions : Value) : List Double :=
  revisions.asArray.flatMap fun entry => if entry.isNumber then entry.asIntCasts else []

namespace World

variable {σ : Type}

def handleHelloCasts (frame : Frame) : List Double :=
  match parsePayload frame with
  | none => []
  | some payload =>
    match payload.find (ascii "revisions") with
    | none => []
    | some revisions => if ¬ revisions.isArray then [] else offeredRevisionsCasts revisions

/-- In reading a frame, as far as the session reads it. -/
def handleCasts (frame : Frame) (w : World σ) : List Double :=
  if w.session.finished then []
  else if frame.type = .bye then []
  else if ¬ w.session.negotiated then
    if frame.type ≠ .hello then [] else handleHelloCasts frame
  else
    match parsePayload frame with
    | none => []
    | some payload =>
      match frame.type with
      | .post => readHandleCasts payload
      | .set => readHandleCasts payload
      | .close => readHandleCasts payload
      | _ => []

/-- In handling a frame: what is read, and the numbers of the reply. -/
inductive Casts (unrepresentable : Unrepresentable) (backend : EngineBackend σ) (w : World σ)
    (request : Frame) : Double → Prop
  | read {x : Double} : x ∈ handleCasts request w → Casts unrepresentable backend w request x
  | written (calls : List BackendCall) (reply : Reply) {x : Double} :
      Emitted w (w.handle unrepresentable backend request).2 calls [reply.frame.encoded] →
      x ∈ writeMembersCasts reply.members → Casts unrepresentable backend w request x

/-! ## The numbers of a reply -/

end World

/-- The check before the conversion leaves only numbers that fit. -/
theorem writeNumberCasts_castable (value : Double) : ∀ x ∈ writeNumberCasts value, Castable x := by
  intro x hx
  unfold writeNumberCasts at hx
  split at hx
  · cases hx
  · split at hx
    · rename_i hfinite hsmall
      obtain rfl := List.mem_singleton.mp hx
      cases x with
      | finite s a =>
        have hlimit := ofInt_value (10 ^ 15 : Int) (by norm_num)
        push_cast at hlimit
        have hlt : signed false a.value < 10 ^ 15 := (lt_value rfl hlimit).mp hsmall.2
        have hnn : 0 ≤ a.value := by unfold Magnitude.value; positivity
        refine (castable_iff rfl).mpr ?_
        unfold FitsInt64
        unfold signed at hlt ⊢
        simp only [Bool.false_eq_true, if_false] at hlt
        split
        · constructor <;> linarith
        · constructor <;> linarith
      | _ => simp [Double.isFinite] at hfinite
    · cases hx

mutual

theorem writeValueCasts_castable : ∀ (v : Value), ∀ x ∈ writeValueCasts v, Castable x
  | .number v => writeNumberCasts_castable v
  | .array items => writeItemsCasts_castable items
  | .object members => writeMembersCasts_castable members
  | .null | .boolean _ | .string _ => by simp [writeValueCasts]

theorem writeItemsCasts_castable : ∀ (items : List Value), ∀ x ∈ writeItemsCasts items, Castable x
  | [] => by simp [writeItemsCasts]
  | item :: rest => by
    intro x hx
    rw [writeItemsCasts, List.mem_append] at hx
    exact hx.elim (writeValueCasts_castable item x) (writeItemsCasts_castable rest x)

theorem writeMembersCasts_castable :
    ∀ (members : List (Bytes × Value)), ∀ x ∈ writeMembersCasts members, Castable x
  | [] => by simp [writeMembersCasts]
  | (_, value) :: rest => by
    intro x hx
    rw [writeMembersCasts, List.mem_append] at hx
    exact hx.elim (writeValueCasts_castable value x) (writeMembersCasts_castable rest x)

end

namespace World

variable {σ : Type} {w : World σ} {request : Frame}

/-! ## The numbers of a request -/

/-- The numbers of a frame that a session converts to integers. -/
inductive Converted (w : World σ) (request : Frame) : ℚ → Prop
  | revision {payload : Value} {items : List Value} {x : Double} {q : ℚ} :
      w.session.finished = false → w.session.negotiated = false → request.type = .hello →
      parsePayload request = some payload →
      payload.find (ascii "revisions") = some (.array items) → .number x ∈ items →
      x.value = some q → Converted w request q
  | handle {payload : Value} {x : Double} {q : ℚ} :
      w.session.finished = false → w.session.negotiated = true → onTarget request.type = true →
      parsePayload request = some payload → payload.find (ascii "handle") = some (.number x) →
      x.value = some q → Converted w request q

theorem mem_asIntCasts {v : Value} {x : Double} :
    x ∈ v.asIntCasts ↔ v = .number x ∧ ∃ q, x.value = some q := by
  rw [← isFinite_iff]
  cases v with
  | number y =>
    simp only [Value.asIntCasts, Value.number.injEq]
    cases hfinite : y.isFinite with
    | true =>
      simp only [if_true, List.mem_singleton]
      constructor
      · rintro rfl
        exact ⟨rfl, hfinite⟩
      · rintro ⟨rfl, -⟩
        rfl
    | false =>
      simp only [Bool.false_eq_true, if_false, List.not_mem_nil, false_iff]
      rintro ⟨rfl, hfinite'⟩
      rw [hfinite] at hfinite'
      cases hfinite'
  | _ => simp [Value.asIntCasts]

theorem mem_readHandleCasts {payload : Value} {x : Double} :
    x ∈ readHandleCasts payload ↔
      payload.find (ascii "handle") = some (.number x) ∧ ∃ q, x.value = some q := by
  unfold readHandleCasts
  cases payload.find (ascii "handle") with
  | none => simp
  | some handle =>
    cases handle with
    | number y => simp [Value.isNumber, mem_asIntCasts]
    | _ => simp [Value.isNumber]

theorem mem_offeredRevisionsCasts {items : List Value} {x : Double} :
    x ∈ offeredRevisionsCasts (.array items) ↔ .number x ∈ items ∧ ∃ q, x.value = some q := by
  unfold offeredRevisionsCasts
  rw [List.mem_flatMap]
  constructor
  · rintro ⟨entry, hentry, hx⟩
    split at hx
    · obtain ⟨rfl, hq⟩ := mem_asIntCasts.mp hx
      exact ⟨hentry, hq⟩
    · cases hx
  · rintro ⟨hentry, hq⟩
    exact ⟨.number x, hentry, by simpa [Value.isNumber, mem_asIntCasts] using hq⟩

theorem mem_handleHelloCasts {x : Double} :
    x ∈ handleHelloCasts request ↔ ∃ payload items, parsePayload request = some payload ∧
      payload.find (ascii "revisions") = some (.array items) ∧ .number x ∈ items ∧
      ∃ q, x.value = some q := by
  unfold handleHelloCasts
  cases parsePayload request with
  | none => simp
  | some payload =>
    cases hfind : payload.find (ascii "revisions") with
    | none => simp [hfind]
    | some revisions =>
      cases revisions with
      | array items => simp [hfind, Value.isArray, mem_offeredRevisionsCasts]
      | _ => simp [hfind, Value.isArray]

theorem handleCasts_converted {x : Double} (hx : x ∈ handleCasts request w) :
    ∃ q, x.value = some q ∧ Converted w request q := by
  unfold handleCasts at hx
  split at hx
  · cases hx
  · rename_i hlive
    rw [Bool.not_eq_true] at hlive
    split at hx
    · cases hx
    · split at hx
      · rename_i hfirst
        rw [Bool.not_eq_true] at hfirst
        split at hx
        · cases hx
        · rename_i htype
          obtain ⟨payload, items, hpayload, hfind, hitem, q, hq⟩ := mem_handleHelloCasts.mp hx
          exact ⟨q, hq, .revision hlive hfirst (by simpa using htype) hpayload hfind hitem hq⟩
      · rename_i hnegotiated
        rw [not_not] at hnegotiated
        split at hx
        · cases hx
        · rename_i payload hpayload
          have hhandle : onTarget request.type = true → x ∈ readHandleCasts payload →
              ∃ q, x.value = some q ∧ Converted w request q := by
            intro htype hx
            obtain ⟨hfind, q, hq⟩ := mem_readHandleCasts.mp hx
            exact ⟨q, hq, .handle hlive hnegotiated htype hpayload hfind hq⟩
          split at hx
          · exact hhandle (by simp [‹request.type = .post›, onTarget]) hx
          · exact hhandle (by simp [‹request.type = .set›, onTarget]) hx
          · exact hhandle (by simp [‹request.type = .close›, onTarget]) hx
          · cases hx

theorem Converted.mem_handleCasts {q : ℚ} (h : Converted w request q) :
    ∃ x ∈ handleCasts request w, x.value = some q := by
  cases h with
  | @revision payload items x _ hlive hfirst htype hpayload hfind hitem hq =>
    refine ⟨x, ?_, hq⟩
    have hmem := mem_handleHelloCasts.mpr ⟨payload, items, hpayload, hfind, hitem, q, hq⟩
    simpa [handleCasts, hlive, hfirst, htype] using hmem
  | @handle payload x _ hlive hnegotiated htype hpayload hfind hq =>
    refine ⟨x, ?_, hq⟩
    have hmem := mem_readHandleCasts.mpr ⟨hfind, q, hq⟩
    unfold handleCasts
    cases hrequest : request.type with
    | post => simpa [hlive, hnegotiated, hpayload] using hmem
    | set => simpa [hlive, hnegotiated, hpayload] using hmem
    | close => simpa [hlive, hnegotiated, hpayload] using hmem
    | _ => simp [hrequest, onTarget] at htype

/-! ## Nothing else is undefined -/

section

variable (unrepresentable unrepresentable' : Unrepresentable)

theorem asInt_determined {v : Value} (h : ∀ x ∈ v.asIntCasts, Castable x) :
    v.asInt unrepresentable 0 = v.asInt unrepresentable' 0 := by
  cases v with
  | number x =>
    simp only [Value.asInt]
    split
    · rename_i hfinite
      obtain ⟨-, hlow, hhigh⟩ := h x (by simp [Value.asIntCasts, hfinite])
      rw [toInt64, toInt64, if_pos ⟨hlow, hhigh⟩, if_pos ⟨hlow, hhigh⟩]
    · rfl
  | _ => rfl

theorem readHandle_determined {payload : Value} (h : ∀ x ∈ readHandleCasts payload, Castable x) :
    readHandle unrepresentable payload = readHandle unrepresentable' payload := by
  unfold readHandleCasts at h
  unfold readHandle
  split
  · rfl
  · rename_i handle hfind
    simp only [hfind] at h
    split
    · rfl
    · rename_i hnumber
      rw [if_neg hnumber] at h
      rw [asInt_determined unrepresentable unrepresentable' h]

theorem offeredRevisions_determined {revisions : Value}
    (h : ∀ x ∈ offeredRevisionsCasts revisions, Castable x) :
    offeredRevisions unrepresentable revisions = offeredRevisions unrepresentable' revisions := by
  unfold offeredRevisions
  refine List.filterMap_congr fun entry hentry => ?_
  split
  · rename_i hnumber
    rw [asInt_determined unrepresentable unrepresentable' fun x hx => h x ?_]
    exact List.mem_flatMap.mpr ⟨entry, hentry, by rwa [if_pos hnumber]⟩
  · rfl

theorem handleHello_determined (w : World σ) (h : ∀ x ∈ handleHelloCasts request, Castable x) :
    handleHello unrepresentable request w = handleHello unrepresentable' request w := by
  unfold handleHelloCasts at h
  unfold handleHello
  split
  · rfl
  · rename_i payload hpayload
    simp only [hpayload] at h
    split
    · rfl
    · rename_i revisions hfind
      simp only [hfind] at h
      split
      · rfl
      · rename_i harray
        rw [if_neg harray] at h
        rw [offeredRevisions_determined unrepresentable unrepresentable' h]

/-- Where every conversion is defined, what the language leaves open makes no difference. -/
theorem handle_determined (backend : EngineBackend σ) (w : World σ)
    (h : ∀ x ∈ handleCasts request w, Castable x) :
    w.handle unrepresentable backend request = w.handle unrepresentable' backend request := by
  unfold handleCasts at h
  unfold handle
  split
  · rfl
  · rename_i hlive
    rw [if_neg hlive] at h
    simp only [transcribe_session]
    split
    · rfl
    · rename_i hbye
      rw [if_neg hbye] at h
      split
      · rename_i hfirst
        rw [if_pos hfirst] at h
        split
        · rfl
        · rename_i hhello
          rw [if_neg hhello] at h
          exact handleHello_determined unrepresentable unrepresentable' _ h
      · rename_i hnegotiated
        rw [if_neg hnegotiated] at h
        split
        · rfl
        · rename_i payload hpayload
          simp only [hpayload] at h
          have hread : (∀ x ∈ readHandleCasts payload, Castable x) →
              readHandle unrepresentable payload = readHandle unrepresentable' payload :=
            readHandle_determined unrepresentable unrepresentable'
          split
          · rfl
          · rfl
          · simp only [‹request.type = .post›] at h
            simp only [handlePost, hread h]
          · simp only [‹request.type = .set›] at h
            simp only [handleSet, hread h]
          · simp only [‹request.type = .close›] at h
            simp only [handleClose, hread h]
          · rfl
          · rfl

end

/-! ## No undefined conversion -/

/-- **Every conversion is defined** exactly for the frames whose numbers, as far as they are read as a
handle or a revision, have an integer part of 64 bits. The numbers of a reply always do. -/
theorem conversions_defined_iff {σ : Type} (unrepresentable : Unrepresentable)
    (backend : EngineBackend σ) (w : World σ) (request : Frame) :
    (∀ x, Casts unrepresentable backend w request x → Castable x) ↔
      ∀ q, Converted w request q → FitsInt64 q := by
  constructor
  · intro h q hconverted
    obtain ⟨x, hx, hq⟩ := hconverted.mem_handleCasts
    exact (castable_iff hq).mp (h x (.read hx))
  · intro h x hcasts
    cases hcasts with
    | read hx =>
      obtain ⟨q, hq, hconverted⟩ := handleCasts_converted hx
      exact (castable_iff hq).mpr (h q hconverted)
    | written calls reply _ hx => exact writeMembersCasts_castable reply.members x hx

def closeHuge : Frame := ⟨.close, ascii "\x7b\"handle\":1e19\x7d"⟩

theorem closeHuge_payload : parsePayload closeHuge = some (.object
    [(ascii "handle", .number (.finite false ⟨4882812500000000, 11, by decide⟩))]) := by
  with_unfolding_all rfl

/-- The handle of a CLOSE is converted though its integer part does not fit. -/
theorem conversion_undefined_at_huge :
    ¬ ∀ (frames : List Frame) (request : Frame) (x : Double),
      Casts (fun _ => Int64.minValue) nullBackend
        (Runs.final (step (fun _ => Int64.minValue) nullBackend) (fresh () false) frames) request x →
      Castable x := by
  intro h
  let w := Runs.final (step (fun _ => Int64.minValue) nullBackend) (fresh () false) [helloFrame]
  have hvalue : (Double.finite false ⟨4882812500000000, 11, by decide⟩).value = some (10 ^ 19) := by
    simp only [Double.value, signed, Magnitude.value]
    norm_num
  have hconverted : Converted w closeHuge (10 ^ 19) :=
    .handle (by decide +kernel) (by decide +kernel) rfl closeHuge_payload rfl hvalue
  obtain ⟨x, hx, hq⟩ := hconverted.mem_handleCasts
  have hfits := (castable_iff hq).mp (h [helloFrame] closeHuge x (.read hx))
  unfold FitsInt64 at hfits
  norm_num at hfits

end World

end OakBarrels
