import OakBarrels.Probe.View
import OakBarrels.Station
import OakBarrels.Switches

/-!
# Probing as a cache

The scan and the binding are made at most once in a session, by the first request that needs them,
and a query put in anywhere changes nothing else that the host can see.
-/

open Octets Binary64 Agree

namespace OakBarrels

open Json Protocol

namespace World

variable {σ : Type} {w w₁ w' : World σ}

/-! ## An engine is touched only by what is asked of it -/

/-- Something was asked of the engine between two worlds, or its state is as it was. -/
def Accounted (w w' : World σ) : Prop :=
  ∃ calls frames, Emitted w w' calls frames ∧ (calls = [] → w'.backend = w.backend)

theorem send_backend (w : World σ) (type : MessageType) (text : Bytes) :
    (w.send type text).backend = w.backend := by
  unfold send
  exact transcribe_backend w '>' type text

theorem accounted_send (w : World σ) (type : MessageType) (text : Bytes) :
    Accounted w (w.send type text) :=
  ⟨_, _, send_emitted w type text, fun _ => send_backend w type text⟩

theorem accounted_calling {α : Type} (w : World σ) (operation : StateM σ α)
    (call : α → BackendCall) : Accounted w (w.calling operation call).2 :=
  ⟨_, _, calling_emitted w operation call, fun h => by cases h⟩

theorem Accounted.trans (h : Accounted w w₁) (h' : Accounted w₁ w') : Accounted w w' := by
  obtain ⟨calls, frames, hemitted, hquiet⟩ := h
  obtain ⟨calls', frames', hemitted', hquiet'⟩ := h'
  refine ⟨_, _, hemitted.trans hemitted', fun hnone => ?_⟩
  obtain ⟨hcalls, hcalls'⟩ := List.append_eq_nil_iff.mp hnone
  rw [hquiet' hcalls', hquiet hcalls]

theorem accounted_of_log (hlog : w'.log = w.log) (hbackend : w'.backend = w.backend) :
    Accounted w w' := ⟨[], [], emitted_of_log hlog, fun _ => hbackend⟩

theorem Accounted.finish (h : Accounted w w') : Accounted w w'.finish := h

theorem answer_backend (w : World σ) (handle : UInt32) (reason : Reason) :
    (w.answer handle reason).backend = w.backend := by
  unfold answer
  split <;> exact send_backend _ _ _

theorem accounted_answer (w : World σ) (handle : UInt32) (reason : Reason) :
    Accounted w (w.answer handle reason) := by
  unfold answer
  split <;> exact accounted_send _ _ _

variable (unrepresentable : Unrepresentable) (backend : EngineBackend σ)

theorem handleHello_accounted (frame : Frame) (w : World σ) :
    Accounted w (handleHello unrepresentable frame w).2 := by
  rcases handleHello_cases unrepresentable frame w with
    ⟨reason, -, hresult⟩ | ⟨payload, revisions, -, -, -, -, hresult⟩
  · rw [hresult]
    exact (accounted_send _ _ _).finish
  · rw [hresult]
    exact (accounted_of_log rfl rfl).trans (accounted_send _ _ _)

theorem handleCapsRequest_accounted (w : World σ) :
    Accounted w (handleCapsRequest backend w).2 :=
  (((accounted_calling w backend.capabilityClasses .capabilityClasses).trans
    (accounted_calling _ backend.limits .limits)).trans
    (accounted_calling _ backend.bulkChannel .bulkChannel)).trans (accounted_send _ _ _)

theorem handleOpen_accounted (payload : Value) (w : World σ) :
    Accounted w (handleOpen backend payload w).2 := by
  rcases handleOpen_cases backend payload w with
    hresult | ⟨kind, -, ⟨-, reason, -, hresult⟩ | ⟨-, hresult⟩⟩
  · rw [hresult]
    exact accounted_send _ _ _
  · rw [hresult]
    exact (accounted_calling ..).trans (accounted_send _ _ _)
  · rw [hresult]
    exact (accounted_calling ..).trans (accounted_send _ _ _)

variable {unrepresentable} in
theorem Targeted.accounted {request : Frame} {payload : Value} {w : World σ} {r : Bool × World σ}
    (h : Targeted unrepresentable request payload w r) : Accounted w r.2 := by
  cases h with
  | refused => exact accounted_send _ _ _
  | called => exact (accounted_calling ..).trans (accounted_answer _ _ _)

theorem handleDiagRequest_accounted (payload : Value) (w : World σ) :
    Accounted w (handleDiagRequest backend payload w).2 := by
  obtain ⟨session, -, -, hresult⟩ := handleDiagRequest_cases backend payload w
  have hsession : Accounted w { w with session } := accounted_of_log rfl rfl
  rcases hresult with hresult | hresult
  · rw [hresult]
    exact hsession.trans (accounted_send _ _ _)
  · rw [hresult]
    refine hsession.trans ?_
    exact (surveyed_keeps backend (P := Accounted) _ accounted_calling .trans).trans
      (accounted_send _ _ _)

theorem handle_accounted (w : World σ) (request : Frame) :
    Accounted w (w.handle unrepresentable backend request).2 := by
  cases hlive : w.session.finished with
  | true =>
    rw [handle_finished backend hlive]
    exact accounted_of_log rfl rfl
  | false =>
    have htranscribed : Accounted w (w.transcribe '<' request.type request.payload) :=
      ⟨_, _, transcribe_emitted .., fun _ => transcribe_backend ..⟩
    have hdispatched := handle_dispatched unrepresentable backend hlive request
    refine htranscribed.trans ?_
    generalize w.transcribe '<' request.type request.payload = w₁ at *
    generalize w.handle unrepresentable backend request = r at *
    cases hdispatched with
    | bye => exact (accounted_send _ _ _).finish
    | premature => exact (accounted_send _ _ _).finish
    | hello => exact handleHello_accounted unrepresentable request w₁
    | malformed => exact accounted_send _ _ _
    | capsRequest => exact handleCapsRequest_accounted backend w₁
    | opens => exact handleOpen_accounted backend _ w₁
    | post htype _ payload =>
      exact (handlePost_targeted unrepresentable backend htype payload w₁).accounted
    | set htype _ payload =>
      exact (handleSet_targeted unrepresentable backend htype payload w₁).accounted
    | close htype _ payload =>
      exact (handleClose_targeted unrepresentable backend htype payload w₁).accounted
    | diagRequest => exact handleDiagRequest_accounted backend _ w₁
    | unsupported => exact accounted_send _ _ _

/-- A HELLO asks nothing of the engine. -/
theorem handleHello_backend (frame : Frame) (w : World σ) :
    (handleHello unrepresentable frame w).2.backend = w.backend := by
  rcases handleHello_cases unrepresentable frame w with
    ⟨reason, -, hresult⟩ | ⟨payload, revisions, -, -, -, -, hresult⟩
  · rw [hresult]
    exact send_backend _ _ _
  · rw [hresult]
    exact send_backend _ _ _

theorem handle_hello_backend {request : Frame} (htype : request.type = .hello) (w : World σ) :
    (w.handle unrepresentable backend request).2.backend = w.backend := by
  unfold handle
  split
  · rfl
  · rw [← transcribe_backend w '<' request.type request.payload]
    simp only [htype, reduceCtorEq, if_false]
    split
    · exact handleHello_backend unrepresentable request _
    · split
      · exact send_backend _ _ _
      · exact send_backend _ _ _

theorem handle_bye_backend {request : Frame} (htype : request.type = .bye) (w : World σ) :
    (w.handle unrepresentable backend request).2.backend = w.backend := by
  unfold handle
  split
  · rfl
  · rw [← transcribe_backend w '<' request.type request.payload]
    simp only [htype]
    exact send_backend _ _ _

theorem handle_close_backend {request : Frame} (htype : request.type = .close) (w : World σ) :
    (w.handle unrepresentable backend request).2.backend = w.backend ∨
      ∃ handle, (w.handle unrepresentable backend request).2.backend
        = (backend.closeTarget handle w.backend).2 := by
  unfold World.handle
  split
  · exact .inl rfl
  · rw [← transcribe_backend w '<' request.type request.payload]
    simp only [htype, reduceCtorEq, if_false]
    split
    · exact .inl (send_backend _ _ _)
    · split
      · exact .inl (send_backend _ _ _)
      · unfold handleClose
        split
        · exact .inl (send_backend _ _ _)
        · rename_i handle _
          refine .inr ⟨handle, ?_⟩
          rw [answer_backend]
          rfl

/-- Where nothing was asked of the engine its state is as it was. -/
theorem handle_uncalled {request : Frame} {w : World σ}
    (h : (w.handle unrepresentable backend request).2.backendCalls = w.backendCalls) :
    (w.handle unrepresentable backend request).2.backend = w.backend := by
  obtain ⟨calls, frames, ⟨events, hlog, rfl, -⟩, hquiet⟩ :=
    handle_accounted unrepresentable backend w request
  apply hquiet
  unfold backendCalls at h
  rw [hlog, List.filterMap_append] at h
  exact List.append_right_eq_self.mp h

end World

/-! ## Scans -/

namespace Probe

open Discovery ProbingBackend

namespace ProbingBackend

/-- One scan if it has probed, and none before. -/
def Counted (b : ProbingBackend) : Prop := b.scans = if b.probed then 1 else 0

variable {α : Type} {platform : Platform} {b : ProbingBackend}

theorem setUpBulk_scans (b : ProbingBackend) : b.setUpBulk.scans = b.scans := by
  unfold setUpBulk
  split
  · split <;> rfl
  · rfl

theorem ensureProbed_scans (b : ProbingBackend) :
    (b.ensureProbed platform).scans = if b.probed then b.scans else b.scans + 1 := by
  unfold ensureProbed
  split
  · rfl
  · exact setUpBulk_scans _

theorem Counted.ensureProbed (platform : Platform) (h : b.Counted) :
    (b.ensureProbed platform).Counted := by
  unfold Counted at h ⊢
  rw [ensureProbed_scans, ensureProbed_probed, if_pos rfl]
  cases hprobed : b.probed with
  | true => simpa [hprobed] using h
  | false => simpa [hprobed] using h

theorem Counted.le_one (h : b.Counted) : b.scans ≤ 1 := by
  unfold Counted at h
  rw [h]
  split
  · exact le_rfl
  · exact Nat.zero_le 1

/-- An operation that probes first scans for itself no more. -/
theorem probing_counted {f : ProbingBackend → α × ProbingBackend}
    (hf : ∀ b, (f b).2.scans = b.scans ∧ (f b).2.probed = b.probed) (h : b.Counted) :
    (probing platform f b).2.Counted := by
  have hprobed := h.ensureProbed platform
  unfold Counted at hprobed ⊢
  unfold probing
  rw [(hf _).1, (hf _).2]
  exact hprobed

theorem dispatch_counted (handle : UInt32) (call : BoundEngine → Option EngineCall)
    (h : b.Counted) : (dispatch platform handle call b).2.Counted := by
  refine probing_counted (fun b => ?_) h
  split
  · exact ⟨rfl, rfl⟩
  · split
    · exact ⟨rfl, rfl⟩
    · split <;> exact ⟨rfl, rfl⟩

/-- The count stays what it says. -/
theorem counted_simulates (platform : Platform) :
    Simulates (backend platform) (backend platform) (Kept Counted) where
  capabilityClasses := .kept fun _ => probing_counted fun _ => ⟨rfl, rfl⟩
  limits := .kept fun _ h => h
  bulkChannel := .kept fun _ => probing_counted fun _ => ⟨rfl, rfl⟩
  bulkBytesForwarded := .kept fun _ => probing_counted fun _ => ⟨rfl, rfl⟩
  bulkBytesDropped := .kept fun _ => probing_counted fun _ => ⟨rfl, rfl⟩
  openTarget _ _ _ := .kept fun _ => probing_counted fun b => by
    simp only
    split <;> exact ⟨rfl, rfl⟩
  closeTarget _ := .kept fun _ h => h
  post handle _ _ := .kept fun _ => dispatch_counted handle _
  set handle _ _ := .kept fun _ => dispatch_counted handle _
  resolvedSymbolCount := .kept fun _ => probing_counted fun _ => ⟨rfl, rfl⟩
  targetCount := .kept fun _ h => h
  filesExamined := .kept fun _ => probing_counted fun _ => ⟨rfl, rfl⟩
  candidatesFound := .kept fun _ => probing_counted fun _ => ⟨rfl, rfl⟩
  discoveryTruncated := .kept fun _ => probing_counted fun _ => ⟨rfl, rfl⟩

/-- The frames that do not make it scan. -/
theorem handle_scans (unrepresentable : Unrepresentable) {request : Frame}
    {w : World ProbingBackend}
    (h : request.type = .hello ∨ request.type = .bye ∨ request.type = .close ∨
      (w.handle unrepresentable (backend platform) request).2.backendCalls = w.backendCalls) :
    (w.handle unrepresentable (backend platform) request).2.backend.scans = w.backend.scans := by
  rcases h with htype | htype | htype | hcalls
  · rw [World.handle_hello_backend unrepresentable _ htype]
  · rw [World.handle_bye_backend unrepresentable _ htype]
  · rcases World.handle_close_backend unrepresentable (backend platform) htype w with
      hsame | ⟨handle, hclosed⟩
    · rw [hsame]
    · rw [hclosed]
      rfl
  · rw [World.handle_uncalled unrepresentable _ hcalls]

end ProbingBackend

/-! ## Queries -/

namespace ProbingBackend

/-- The same once both have probed, and without a channel to set up. -/
structure Interchangeable (platform : Platform) (b b' : ProbingBackend) : Prop where
  probed : b.ensureProbed platform = b'.ensureProbed platform
  silent : b.audioEndpoint = false
  silent' : b'.audioEndpoint = false

variable {α : Type} {platform : Platform} {b b' : ProbingBackend}

theorem ensureProbed_silent (platform : Platform) (h : b.audioEndpoint = false) :
    (b.ensureProbed platform).audioEndpoint = false ∧
      (b.ensureProbed platform).calls = b.calls := by
  unfold ensureProbed setUpBulk
  split
  · exact ⟨h, rfl⟩
  · simp [h]

/-- It may be put off. -/
theorem interchangeable_ensureProbed (h : b.audioEndpoint = false) :
    Interchangeable platform (b.ensureProbed platform) b :=
  ⟨ensureProbed_of_probed (ensureProbed_probed b), (ensureProbed_silent platform h).1, h⟩

theorem Interchangeable.trans {b'' : ProbingBackend} (h : Interchangeable platform b b')
    (h' : Interchangeable platform b' b'') : Interchangeable platform b b'' :=
  ⟨h.probed.trans h'.probed, h.silent, h'.silent'⟩

theorem Interchangeable.kept (h : Interchangeable platform b b') :
    b.calls = b'.calls ∧ b.nextHandle = b'.nextHandle ∧ b.liveHandles = b'.liveHandles ∧
      b.limits = b'.limits := by
  have hkeeps := @ensureProbed_keeps platform b
  have hlimits := ensureProbed_limits platform b
  rw [h.probed] at hkeeps hlimits
  rw [← (ensureProbed_silent platform h.silent).2, h.probed,
    (ensureProbed_silent platform h.silent').2, ← hkeeps.1, ← hkeeps.2, ← hlimits]
  simp [ensureProbed_limits]

/-- An operation that probes first leaves one state behind. -/
theorem probing_interchangeable {f : ProbingBackend → α × ProbingBackend}
    (hf : ∀ b, (f b).2.audioEndpoint = b.audioEndpoint) :
    On (Interchangeable platform) (probing platform f) (probing platform f) := by
  intro b b' h
  unfold probing
  rw [h.probed]
  have hsilent : (f (b'.ensureProbed platform)).2.audioEndpoint = false := by
    rw [hf]
    exact (ensureProbed_silent platform h.silent').1
  exact ⟨rfl, rfl, hsilent, hsilent⟩

theorem dispatch_interchangeable (handle : UInt32) (call : BoundEngine → Option EngineCall) :
    On (Interchangeable platform) (dispatch platform handle call)
      (dispatch platform handle call) := by
  refine probing_interchangeable fun b => ?_
  split
  · rfl
  · split
    · rfl
    · split <;> rfl

theorem closeTarget_interchangeable (handle : UInt32) :
    On (Interchangeable platform) (closeTarget handle) (closeTarget handle) := by
  intro b b' h
  obtain ⟨-, -, hhandles, -⟩ := h.kept
  have hclosed : ∀ b : ProbingBackend, (closeTarget handle b).2.ensureProbed platform
      = { b.ensureProbed platform with liveHandles := b.liveHandles.erase handle } :=
    fun b => ensureProbed_handles platform b _
  refine ⟨rfl, ?_, h.silent, h.silent'⟩
  rw [hclosed, hclosed, h.probed, hhandles]

/-- Which of two interchangeable backends it is cannot be told. -/
theorem interchangeable_simulates (platform : Platform) :
    Simulates (backend platform) (backend platform) (Interchangeable platform) where
  capabilityClasses := probing_interchangeable fun _ => rfl
  limits b b' h := by
    obtain ⟨-, -, -, hlimits⟩ := h.kept
    refine ⟨?_, h⟩
    change b.limitsValue = b'.limitsValue
    unfold limitsValue
    rw [hlimits]
  bulkChannel := probing_interchangeable fun _ => rfl
  bulkBytesForwarded := probing_interchangeable fun _ => rfl
  bulkBytesDropped := probing_interchangeable fun _ => rfl
  openTarget _ _ _ := probing_interchangeable fun b => by
    simp only
    split <;> rfl
  closeTarget handle := closeTarget_interchangeable handle
  post handle _ _ := dispatch_interchangeable handle _
  set handle _ _ := dispatch_interchangeable handle _
  resolvedSymbolCount := probing_interchangeable fun _ => rfl
  targetCount b b' h := by
    obtain ⟨-, -, hhandles, -⟩ := h.kept
    refine ⟨?_, h⟩
    change b.targetCount = b'.targetCount
    unfold targetCount
    rw [hhandles]
  filesExamined := probing_interchangeable fun _ => rfl
  candidatesFound := probing_interchangeable fun _ => rfl
  discoveryTruncated := probing_interchangeable fun _ => rfl

end ProbingBackend

end Probe

namespace World

open Discovery Probe ProbingBackend

variable (unrepresentable : Unrepresentable)

/-- A CAPS_REQUEST, or a DIAG_REQUEST without either field, whether it can be read or not. -/
def IsQuery (request : Frame) : Prop :=
  request.type = .capsRequest ∨
    request.type = .diagRequest ∧ ∀ payload, parsePayload request = some payload → Queries payload

section

variable {σ : Type} (backend : EngineBackend σ)

/-- What crosses an interface for each frame that is marked, in a run of them all. -/
def exchanged (w : World σ) : List (Bool × Frame) → List (List Event)
  | [] => []
  | (marked, frame) :: rest =>
    let after := (step unrepresentable backend w frame).1
    let later := exchanged after rest
    if marked then after.log.drop w.log.length :: later else later

theorem handleDiagRequest_queries {payload : Value} (h : Queries payload) (w : World σ) :
    (handleDiagRequest backend payload w).2 = w.sendError .diagDisabled ∨
      (handleDiagRequest backend payload w).2 = w.reportDiagnostics backend := by
  unfold handleDiagRequest
  simp only [h.1, h.2, switchDiagnostics, Option.map_none, Option.getD_none, Bool.false_eq_true,
    false_and, if_false]
  split
  · exact .inl rfl
  · exact .inr rfl

end

variable {platform : Platform}

@[simp] theorem ensureProbed_twice (b : ProbingBackend) :
    (b.ensureProbed platform).ensureProbed platform = b.ensureProbed platform :=
  ensureProbed_of_probed (ensureProbed_probed b)

/-- A report makes the backend probe, and no more. -/
theorem handleCapsRequest_probes (w : World ProbingBackend) :
    (handleCapsRequest (ProbingBackend.backend platform) w).2.backend
      = w.backend.ensureProbed platform := by
  refine (send_backend _ _ _).trans ?_
  change (w.backend.ensureProbed platform).ensureProbed platform = _
  exact ensureProbed_twice _

theorem reportDiagnostics_probes (w : World ProbingBackend) :
    (reportDiagnostics (ProbingBackend.backend platform) w).backend
      = w.backend.ensureProbed platform := by
  have hfirst : (reportDiagnostics (ProbingBackend.backend platform) w).backend
      = (surveyed (ProbingBackend.backend platform) w).backend := send_backend _ _ _
  rw [hfirst]
  simp [surveyed, calling, record, ProbingBackend.backend, probing, capabilityClasses]

/-- What a query makes of a session that has been negotiated. -/
theorem handle_query (platform : Platform) {request : Frame} (h : IsQuery request)
    {w : World ProbingBackend}
    (hnegotiated : w.session.negotiated = true) :
    let w' := (w.handle unrepresentable (ProbingBackend.backend platform) request).2
    w'.session = w.session ∧
      (w'.backend = w.backend ∨ w'.backend = w.backend.ensureProbed platform) := by
  have hsession := transcribe_session w '<' request.type request.payload
  unfold handle
  split
  · exact ⟨rfl, .inl rfl⟩
  · rw [← transcribe_backend w '<' request.type request.payload]
    rw [← hsession] at hnegotiated ⊢
    generalize w.transcribe '<' request.type request.payload = w₁ at *
    have hrefused : ∀ reason, (w₁.sendError reason).session = w₁.session ∧
        ((w₁.sendError reason).backend = w₁.backend ∨
          (w₁.sendError reason).backend = w₁.backend.ensureProbed platform) :=
      fun _ => ⟨send_session _ _ _, .inl (send_backend _ _ _)⟩
    rcases h with htype | ⟨htype, hqueries⟩
    · simp only [htype, hnegotiated, reduceCtorEq, if_false, not_true_eq_false]
      split
      · exact hrefused _
      · exact ⟨handleCapsRequest_session _ _, .inr (handleCapsRequest_probes _)⟩
    · simp only [htype, hnegotiated, reduceCtorEq, if_false, not_true_eq_false]
      split
      · exact hrefused _
      · rename_i payload hpayload
        rcases handleDiagRequest_queries (ProbingBackend.backend platform)
          (hqueries payload hpayload) w₁ with hresult | hresult
        · rw [hresult]
          exact hrefused _
        · rw [hresult]
          exact ⟨reportDiagnostics_session _ _, .inr (reportDiagnostics_probes _)⟩

/-- Frames that are queries, put in among others. -/
theorem exchanged_undisturbed (script : List (Bool × Frame)) {w v : World ProbingBackend}
    (hsession : w.session = v.session) (hbackend : Interchangeable platform w.backend v.backend)
    (hnegotiated : w.session.negotiated = true)
    (hqueries : ∀ entry ∈ script, entry.1 = false → IsQuery entry.2) :
    let step := step unrepresentable (ProbingBackend.backend platform)
    let kept := script.filter Prod.fst
    exchanged unrepresentable (ProbingBackend.backend platform) w script
        = exchanged unrepresentable (ProbingBackend.backend platform) v kept ∧
      Interchangeable platform (Runs.final step w (script.map Prod.snd)).backend
        (Runs.final step v (kept.map Prod.snd)).backend := by
  induction script generalizing w v with
  | nil => exact ⟨rfl, hbackend⟩
  | cons entry rest ih =>
    obtain ⟨marked, frame⟩ := entry
    rw [List.forall_mem_cons] at hqueries
    have hstays := (step_revision unrepresentable (ProbingBackend.backend platform) w frame
      hnegotiated).1
    cases marked with
    | true =>
      obtain ⟨-, hsession', ⟨events, hw, hv⟩, hbackend'⟩ := handle_alike_since unrepresentable
        (interchangeable_simulates platform) (show AlikeSince _ w.log v.log w v from
          ⟨hsession, ⟨[], by simp, by simp⟩, hbackend⟩) frame
      obtain ⟨hlater, hfinal⟩ := ih hsession' hbackend' hstays hqueries.2
      refine ⟨?_, hfinal⟩
      have hdrop : (step unrepresentable (ProbingBackend.backend platform) w frame).1.log.drop
          w.log.length = (step unrepresentable (ProbingBackend.backend platform) v frame).1.log.drop
            v.log.length := by
        unfold step
        rw [hw, hv, List.drop_left, List.drop_left]
      simp only [List.filter_cons, exchanged, if_true, hdrop]
      exact congrArg _ hlater
    | false =>
      have hquery := handle_query unrepresentable platform (hqueries.1 rfl) hnegotiated
      have hbackend' : Interchangeable platform
          (step unrepresentable (ProbingBackend.backend platform) w frame).1.backend v.backend := by
        rcases hquery.2 with hsame | hprobed
        · unfold step
          rw [hsame]
          exact hbackend
        · unfold step
          rw [hprobed]
          exact (interchangeable_ensureProbed hbackend.silent).trans hbackend
      exact ih (hquery.1.trans hsession) hbackend' hstays hqueries.2

/-- **Probing is a cache, and queries are pure.** Over a backend that was given no audio endpoint,
in every session: there is at most one scan with its binding, and none because of a HELLO, a BYE, a
CLOSE or a frame that asks nothing of the backend; and queries put in anywhere after the HELLO_ACK
change nothing of what crosses an interface for the other frames, nor the calls made into the
engine, nor the handles. -/
theorem probing_caches (platform : Platform) (roots : List Bytes) (profiles : List Profile)
    (limits : ScanLimits) (transcript : Bool) (before : List Frame) :
    let backend := ProbingBackend.backend platform
    let w := Runs.final (step unrepresentable backend)
      (fresh (ProbingBackend.create roots profiles false limits) transcript) before
    w.backend.scans ≤ 1 ∧
    (∀ request : Frame, (request.type = .hello ∨ request.type = .bye ∨ request.type = .close ∨
        (w.handle unrepresentable backend request).2.backendCalls = w.backendCalls) →
      (w.handle unrepresentable backend request).2.backend.scans = w.backend.scans) ∧
    (w.session.negotiated = true → ∀ script : List (Bool × Frame),
      (∀ entry ∈ script, entry.1 = false → IsQuery entry.2) →
      let kept := script.filter Prod.fst
      let b := (Runs.final (step unrepresentable backend) w (script.map Prod.snd)).backend
      let b' := (Runs.final (step unrepresentable backend) w (kept.map Prod.snd)).backend
      exchanged unrepresentable backend w script = exchanged unrepresentable backend w kept ∧
        b.calls = b'.calls ∧ b.nextHandle = b'.nextHandle ∧ b.liveHandles = b'.liveHandles) := by
  intro backend w
  have hcounted := final_alike unrepresentable (counted_simulates platform)
    (fresh_alike (s := ProbingBackend.create roots profiles false limits) ⟨rfl, rfl⟩ transcript)
    before
  have hw : Interchangeable platform w.backend w.backend := by
    have hself := final_alike unrepresentable (interchangeable_simulates platform)
      (fresh_alike (s := ProbingBackend.create roots profiles false limits) ⟨rfl, rfl, rfl⟩
        transcript) before
    exact hself.backend
  refine ⟨hcounted.backend.2.le_one, fun request h => handle_scans unrepresentable h, ?_⟩
  intro hnegotiated script hqueries
  obtain ⟨hexchanged, hfinal⟩ :=
    exchanged_undisturbed unrepresentable script rfl hw hnegotiated hqueries
  obtain ⟨hcalls, hnext, hlive, -⟩ := hfinal.kept
  exact ⟨hexchanged, hcalls, hnext, hlive⟩

end World

end OakBarrels
