import OakBarrels.Lib.Since
import OakBarrels.Reports

/-!
# The two switches over a session

What the frames of the host make of the switches for diagnostics and identification, of the revision
and of the end of the session, over whole runs.
-/

open Octets Binary64

namespace OakBarrels

open Json Protocol

namespace World

variable {σ : Type}

/-- The frame is taken as a DIAG_REQUEST with this payload. -/
structure Handles (w : World σ) (request : Frame) (payload : Value) : Prop where
  live : w.session.finished = false
  negotiated : w.session.negotiated = true
  type : request.type = .diagRequest
  payload : parsePayload request = some payload

/-- What a DIAG_REQUEST makes of a session. -/
structure Switched (before after : Session) (payload : Value) : Prop where
  diagnose : after.diagnosticsEnabled = enabledAfter before payload
  identify : after.identifyEnabled = true ↔
    Identifies payload ∧ enabledAfter before payload = true ∨
      before.identifyEnabled = true ∧ ¬ SwitchesOff payload
  others : after = { before with
    diagnosticsEnabled := after.diagnosticsEnabled
    identifyEnabled := after.identifyEnabled }

/-- What any other frame makes of it. -/
inductive Passed (before : Session) (request : Frame) : Session → Prop
  | same : Passed before request before
  | finished : before.negotiated = false ∨ request.type = .bye →
      Passed before request { before with finished := true }
  | negotiated (revision : Int32) : before.negotiated = false → revision ≠ 0 →
      Passed before request { before with revision, negotiated := true }

/-! ## One frame -/

section

variable {w : World σ} {request : Frame} {payload : Value}

theorem Handles.unique {payload' : Value} (h : Handles w request payload)
    (h' : Handles w request payload') : payload = payload' :=
  Option.some.inj (h.payload.symm.trans h'.payload)

theorem switchDiagnostics_identify (session : Session) (payload : Value) :
    (switchDiagnostics (payload.find (ascii "enable")) session).identifyEnabled = true ↔
      session.identifyEnabled = true ∧ ¬ SwitchesOff payload := by
  unfold switchDiagnostics SwitchesOff
  cases payload.find (ascii "enable") with
  | none => simp
  | some enable =>
    cases enable with
    | boolean b => cases b <;> simp [Value.isBool, Value.asBool]
    | _ => simp [Value.isBool]

theorem switchDiagnostics_others (enable : Option Value) (session : Session) :
    switchDiagnostics enable session = { session with
      diagnosticsEnabled := (switchDiagnostics enable session).diagnosticsEnabled
      identifyEnabled := (switchDiagnostics enable session).identifyEnabled } := by
  unfold switchDiagnostics
  split
  · rfl
  · split
    · simp only
      split <;> rfl
    · rfl

theorem diagSession_identify (session : Session) (payload : Value) :
    (diagSession session payload).identifyEnabled = true ↔
      Identifies payload ∨ session.identifyEnabled = true ∧ ¬ SwitchesOff payload := by
  rw [← identifying_iff, ← switchDiagnostics_identify]
  unfold diagSession
  simp only
  split
  · rename_i hidentifies
    simp [hidentifies]
  · rename_i hidentifies
    simp [hidentifies]

theorem diagSession_others (session : Session) (payload : Value) :
    diagSession session payload = { session with
      diagnosticsEnabled := (diagSession session payload).diagnosticsEnabled
      identifyEnabled := (diagSession session payload).identifyEnabled } := by
  have hothers := switchDiagnostics_others (payload.find (ascii "enable")) session
  unfold diagSession
  simp only
  split
  · rw [hothers]
  · exact hothers

theorem not_switchesOff (session : Session) (h : enabledAfter session payload = true) :
    ¬ SwitchesOff payload := by
  intro hoff
  unfold SwitchesOff at hoff
  simp [enabledAfter, hoff] at h

variable (unrepresentable : Unrepresentable) (backend : EngineBackend σ)

theorem reportDiagnostics_session (w : World σ) :
    (reportDiagnostics backend w).session = w.session := send_session _ _ _

/-- The switch that was set first stays set where the request is then refused. -/
theorem handleDiagRequest_switched (w : World σ) (payload : Value) :
    Switched w.session (handleDiagRequest backend payload w).2.session payload := by
  have hsession : Switched w.session (diagSession w.session payload) payload ∨
      Identifies payload ∧ enabledAfter w.session payload = false := by
    by_cases hidentifies : Identifies payload ∧ enabledAfter w.session payload = false
    · exact .inr hidentifies
    · refine .inl ⟨diagSession_enabled .., ?_, diagSession_others ..⟩
      rw [diagSession_identify, not_and, Bool.not_eq_false] at *
      exact or_congr_left ⟨fun h => ⟨h, hidentifies h⟩, And.left⟩
  rw [handleDiagRequest_eq]
  simp only
  split
  · rename_i hrefused
    rw [identifying_iff, switchDiagnostics_enabled, Bool.not_eq_true] at hrefused
    rw [sendError_session]
    refine ⟨switchDiagnostics_enabled .., ?_, switchDiagnostics_others ..⟩
    rw [switchDiagnostics_identify]
    simp [hrefused.2]
  · rename_i hpassed
    rw [identifying_iff, switchDiagnostics_enabled, Bool.not_eq_true] at hpassed
    have hswitched := hsession.resolve_right hpassed
    split
    · rw [sendError_session]
      exact hswitched
    · rw [reportDiagnostics_session]
      exact hswitched

theorem handle_switched (h : Handles w request payload) :
    Switched w.session (w.handle unrepresentable backend request).2.session payload := by
  have hhandle : (w.handle unrepresentable backend request).2 = (handleDiagRequest backend payload
      (w.transcribe '<' request.type request.payload)).2 := by
    simp [handle, h.live, h.type, h.negotiated, h.payload]
  have hswitched := handleDiagRequest_switched backend
    (w.transcribe '<' request.type request.payload) payload
  rwa [transcribe_session, ← hhandle] at hswitched

/-! ### Any other -/

theorem answer_session (w : World σ) (handle : UInt32) (reason : Reason) :
    (w.answer handle reason).session = w.session := by
  unfold answer
  split <;> exact send_session _ _ _

theorem handleCapsRequest_session (w : World σ) :
    (handleCapsRequest backend w).2.session = w.session := send_session _ _ _

theorem handleOpen_session (payload : Value) (w : World σ) :
    (handleOpen backend payload w).2.session = w.session := by
  rcases handleOpen_cases backend payload w with
    hresult | ⟨kind, -, ⟨-, reason, -, hresult⟩ | ⟨-, hresult⟩⟩
  · rw [hresult]
    exact sendError_session _ _
  · rw [hresult]
    exact sendError_session _ _
  · rw [hresult]
    exact send_session _ _ _

variable {unrepresentable} in
theorem Targeted.session {r : Bool × World σ} (h : Targeted unrepresentable request payload w r) :
    r.2.session = w.session := by
  cases h with
  | refused => exact sendError_session _ _
  | called => exact answer_session _ _ _

theorem handleHello_passed (frame : Frame) (h : w.session.negotiated = false) :
    Passed w.session frame (handleHello unrepresentable frame w).2.session := by
  rcases handleHello_cases unrepresentable frame w with
    ⟨reason, -, hresult⟩ | ⟨payload, revisions, -, -, -, hselected, hresult⟩
  · rw [hresult, finish_session, sendError_session]
    exact .finished (.inl h)
  · rw [hresult, send_session]
    exact .negotiated _ h hselected

theorem handle_passed (h : ∀ payload, ¬ Handles w request payload) :
    Passed w.session request (w.handle unrepresentable backend request).2.session := by
  cases hlive : w.session.finished with
  | true =>
    rw [handle_finished backend hlive]
    exact .same
  | false =>
    have hsession := transcribe_session w '<' request.type request.payload
    have hdispatched := handle_dispatched unrepresentable backend hlive request
    generalize w.transcribe '<' request.type request.payload = w₁ at *
    generalize w.handle unrepresentable backend request = r at *
    rw [← hsession]
    cases hdispatched with
    | bye htype =>
      rw [finish_session, send_session]
      exact .finished (.inr htype)
    | premature _ hfirst =>
      rw [finish_session, sendError_session]
      exact .finished (.inl hfirst)
    | hello _ hfirst => exact handleHello_passed unrepresentable request hfirst
    | malformed =>
      rw [sendError_session]
      exact .same
    | capsRequest =>
      rw [handleCapsRequest_session]
      exact .same
    | opens =>
      rw [handleOpen_session]
      exact .same
    | post htype _ payload =>
      rw [(handlePost_targeted unrepresentable backend htype payload w₁).session]
      exact .same
    | set htype _ payload =>
      rw [(handleSet_targeted unrepresentable backend htype payload w₁).session]
      exact .same
    | close htype _ payload =>
      rw [(handleClose_targeted unrepresentable backend htype payload w₁).session]
      exact .same
    | diagRequest htype hnegotiated payload hpayload =>
      rw [hsession] at hnegotiated
      exact absurd ⟨hlive, hnegotiated, htype, hpayload⟩ (h payload)
    | unsupported =>
      rw [sendError_session]
      exact .same

/-! ## Whole sessions -/

/-- What holds of a session at any time. -/
structure Sound (session : Session) : Prop where
  revision : session.revision = 0 ↔ session.negotiated = false
  diagnose : session.negotiated = false → session.diagnosticsEnabled = false
  identify : session.identifyEnabled = true → session.diagnosticsEnabled = true

theorem Switched.sound {after : Session} (h : Switched w.session after payload)
    (hnegotiated : w.session.negotiated = true) (hsound : Sound w.session) : Sound after := by
  have hothers := h.others
  have hkept : after.negotiated = true ∧ after.revision = w.session.revision := by
    rw [hothers]
    exact ⟨hnegotiated, rfl⟩
  refine ⟨?_, ?_, ?_⟩
  · rw [hkept.1, hkept.2, hsound.revision, hnegotiated]
  · intro hbefore
    rw [hkept.1] at hbefore
    cases hbefore
  · intro hidentify
    rw [h.diagnose]
    rcases h.identify.mp hidentify with ⟨-, hon⟩ | ⟨hon, hkeeps⟩
    · exact hon
    · have hdiagnose := hsound.identify hon
      unfold enabledAfter
      split
      · rename_i enable henable
        cases enable with
        | true => rfl
        | false => exact absurd henable hkeeps
      · exact hdiagnose

theorem Passed.sound {before after : Session} (h : Passed before request after) (hsound : Sound before) :
    Sound after := by
  cases h with
  | same => exact hsound
  | finished _ => exact ⟨hsound.revision, hsound.diagnose, hsound.identify⟩
  | negotiated revision _ hrevision =>
    exact ⟨by simp [hrevision], by simp, hsound.identify⟩

/-- Every frame is one or the other. -/
theorem handle_session (w : World σ) (request : Frame) :
    (∃ payload, Handles w request payload ∧
      Switched w.session (w.handle unrepresentable backend request).2.session payload) ∨
    (∀ payload, ¬ Handles w request payload) ∧
      Passed w.session request (w.handle unrepresentable backend request).2.session := by
  by_cases h : ∃ payload, Handles w request payload
  · obtain ⟨payload, hhandles⟩ := h
    exact .inl ⟨payload, hhandles, handle_switched unrepresentable backend hhandles⟩
  · rw [not_exists] at h
    exact .inr ⟨h, handle_passed unrepresentable backend h⟩

theorem step_sound (w : World σ) (request : Frame) (h : Sound w.session) :
    Sound (step unrepresentable backend w request).1.session := by
  rcases handle_session unrepresentable backend w request with ⟨payload, hhandles, hswitched⟩ | ⟨-, hpassed⟩
  · exact hswitched.sound hhandles.negotiated h
  · exact hpassed.sound h

theorem final_sound (s : σ) (transcript : Bool) (frames : List Frame) :
    Sound (Runs.final (step unrepresentable backend) (fresh s transcript) frames).session :=
  Runs.final_invariant _ (fun w => Sound w.session) ⟨by simp [fresh], by simp [fresh], by simp [fresh]⟩
    (fun w request h => step_sound unrepresentable backend w request h) frames

/-- An agreed revision stays. -/
theorem step_revision (w : World σ) (request : Frame) (h : w.session.negotiated = true) :
    (step unrepresentable backend w request).1.session.negotiated = true ∧
      (step unrepresentable backend w request).1.session.revision = w.session.revision := by
  rcases handle_session unrepresentable backend w request with ⟨payload, -, hswitched⟩ | ⟨-, hpassed⟩
  · change ((w.handle unrepresentable backend request).2.session).negotiated = true ∧
      ((w.handle unrepresentable backend request).2.session).revision = _
    rw [hswitched.others]
    exact ⟨h, rfl⟩
  · unfold step
    generalize (w.handle unrepresentable backend request).2.session = after at *
    cases hpassed with
    | same => exact ⟨h, rfl⟩
    | finished _ => exact ⟨h, rfl⟩
    | negotiated revision hbefore _ =>
      rw [h] at hbefore
      cases hbefore

/-- The request opts into identification: `identify: true`, and diagnostics not switched off. -/
def OptsIn (v : World σ × Frame) : Prop :=
  ∃ payload, Handles v.1 v.2 payload ∧ Identifies payload ∧ ¬ SwitchesOff payload

/-- A request that does not switch diagnostics off. -/
def KeepsOn (v : World σ × Frame) : Prop := ∀ payload, Handles v.1 v.2 payload → ¬ SwitchesOff payload

/-- Identification is on after a frame that opts in, or was on and was not switched off. -/
theorem step_identifies (w : World σ) (request : Frame)
    (h : (step unrepresentable backend w request).1.session.identifyEnabled = true) :
    OptsIn (w, request) ∨ w.session.identifyEnabled = true ∧ KeepsOn (w, request) := by
  rcases handle_session unrepresentable backend w request with
    ⟨payload, hhandles, hswitched⟩ | ⟨hnone, hpassed⟩
  · rcases hswitched.identify.mp h with ⟨hidentifies, hon⟩ | ⟨hon, hkeeps⟩
    · exact .inl ⟨payload, hhandles, hidentifies, not_switchesOff w.session hon⟩
    · refine .inr ⟨hon, fun payload' hhandles' => ?_⟩
      rw [hhandles'.unique hhandles]
      exact hkeeps
  · refine .inr ⟨?_, fun payload hhandles => absurd hhandles (hnone payload)⟩
    unfold step at h
    generalize (w.handle unrepresentable backend request).2.session = after at *
    cases hpassed <;> exact h

/-- **The state of a session.** Whatever the host sends and whatever the engine does: a revision is
recorded exactly once a HELLO_ACK was written, and it stays; both switches are off until then;
identification is on only while diagnostics are, and only since a request that opted into it. -/
theorem session_state (s : σ) (transcript : Bool) (frames : List Frame) :
    let w := Runs.final (step unrepresentable backend) (fresh s transcript) frames
    (w.session.revision = 0 ↔ w.acks = 0) ∧
    (w.session.revision ≠ 0 → ∀ more,
      (Runs.final (step unrepresentable backend) w more).session.revision = w.session.revision) ∧
    (w.acks = 0 → w.session.diagnosticsEnabled = false ∧ w.session.identifyEnabled = false) ∧
    (w.session.identifyEnabled = true → w.session.diagnosticsEnabled = true ∧
      Runs.Since OptsIn KeepsOn
        (Runs.visits (step unrepresentable backend) (fresh s transcript) frames)) := by
  intro w
  have hsound : Sound w.session := final_sound unrepresentable backend s transcript frames
  have hw : w.Negotiation := Runs.final_invariant _ Negotiation (fresh_negotiation s transcript)
    (fun w request hw => step_negotiation unrepresentable backend hw request) frames
  have hacks : w.acks = 0 ↔ w.session.negotiated = false := by
    rw [hw.acks_eq]
    cases w.session.negotiated <;> simp
  refine ⟨by rw [hacks, hsound.revision], ?_, ?_, ?_⟩
  · intro hrevision more
    have hnegotiated : w.session.negotiated = true := by
      simpa [hsound.revision] using hrevision
    have hstays : ∀ (w' : World σ) request, w'.session.negotiated = true ∧
        w'.session.revision = w.session.revision →
        (step unrepresentable backend w' request).1.session.negotiated = true ∧
          (step unrepresentable backend w' request).1.session.revision = w.session.revision := by
      intro w' request h
      obtain ⟨hstays, hsame⟩ := step_revision unrepresentable backend w' request h.1
      exact ⟨hstays, hsame.trans h.2⟩
    exact (Runs.final_invariant _ _ ⟨hnegotiated, rfl⟩ hstays more).2
  · intro hnone
    have hoff := hsound.diagnose (hacks.mp hnone)
    refine ⟨hoff, ?_⟩
    rw [← Bool.not_eq_true]
    intro hidentify
    rw [hsound.identify hidentify] at hoff
    cases hoff
  · intro hidentify
    refine ⟨hsound.identify hidentify, ?_⟩
    exact Runs.since_of_final (P := fun w => w.session.identifyEnabled = true) (by simp [fresh])
      (step_identifies unrepresentable backend) frames hidentify

/-! ## Refused requests -/

/-- The request switches diagnostics off and asks for identification all the same. -/
def Contradicts (payload : Value) : Prop := SwitchesOff payload ∧ Identifies payload

/-- Between two worlds an ERROR was written. -/
def AnsweredByError (w w' : World σ) : Prop :=
  ∃ calls text, Emitted w w' calls [encodeFrame .error text]

theorem Passed.eq {before after : Session} (h : Passed before request after)
    (hnegotiated : before.negotiated = true) (hbye : request.type ≠ .bye) : after = before := by
  cases h with
  | same => rfl
  | finished hends =>
    rcases hends with hfirst | hends
    · simp [hnegotiated] at hfirst
    · exact absurd hends hbye
  | negotiated revision hfirst _ => simp [hnegotiated] at hfirst

theorem Switched.refused {after : Session} (h : Switched w.session after payload)
    (hrefused : Refused w.session payload) :
    (Contradicts payload → after.diagnosticsEnabled = false ∧ after.identifyEnabled = false) ∧
    (¬ Contradicts payload → after.diagnosticsEnabled = w.session.diagnosticsEnabled ∧
      after.identifyEnabled = w.session.identifyEnabled) := by
  obtain ⟨hoff, hasks⟩ := hrefused
  have hidentify : after.identifyEnabled = true ↔
      w.session.identifyEnabled = true ∧ ¬ SwitchesOff payload := by
    rw [h.identify, hoff]
    simp
  refine ⟨?_, ?_⟩
  · rintro ⟨hswitches, -⟩
    refine ⟨h.diagnose.trans hoff, ?_⟩
    rw [← Bool.not_eq_true, hidentify]
    exact fun h => h.2 hswitches
  · intro hnot
    have hkeeps : ¬ SwitchesOff payload := by
      intro hswitches
      rcases hasks with hidentifies | hqueries
      · exact hnot ⟨hswitches, hidentifies⟩
      · rw [SwitchesOff, hqueries.1] at hswitches
        cases hswitches
    refine ⟨?_, Bool.eq_iff_iff.mpr (hidentify.trans (and_iff_left hkeeps))⟩
    rw [h.diagnose]
    unfold enabledAfter at hoff ⊢
    split
    · rename_i enable henable
      rw [henable] at hoff
      cases hoff
      exact absurd henable hkeeps
    · rfl

/-- **A refused request changes nothing in the session**, but for a DIAG_REQUEST that switches
diagnostics off and asks for identification: that one is refused with both switches off. -/
theorem refusal_keeps_session (s : σ) (transcript : Bool) (frames : List Frame) (request : Frame) :
    let w := Runs.final (step unrepresentable backend) (fresh s transcript) frames
    let w' := (w.handle unrepresentable backend request).2
    w.session.finished = false → w.session.negotiated = true → AnsweredByError w w' →
    w'.session.revision = w.session.revision ∧ w'.session.finished = false ∧
    ((∃ payload, Handles w request payload ∧ Contradicts payload) →
      w'.session.diagnosticsEnabled = false ∧ w'.session.identifyEnabled = false) ∧
    ((∀ payload, Handles w request payload → ¬ Contradicts payload) →
      w'.session.diagnosticsEnabled = w.session.diagnosticsEnabled ∧
        w'.session.identifyEnabled = w.session.identifyEnabled) := by
  intro w w' hlive hnegotiated ⟨calls, text, herror⟩
  rcases handle_session unrepresentable backend w request with
    ⟨payload, hhandles, hswitched⟩ | ⟨hnone, hpassed⟩
  · have hrefused : Refused w.session payload := by
      cases handle_answers unrepresentable backend hlive hnegotiated hhandles.type hhandles.payload with
      | refused hrefused _ => exact hrefused
      | reported calls' text' _ hreply =>
        have htype := encodeFrame_type (List.singleton_inj.mp (herror.unique hreply).2)
        cases htype
    obtain ⟨hoff, hsame⟩ := hswitched.refused hrefused
    have hothers := hswitched.others
    refine ⟨by rw [hothers], by rw [hothers]; exact hlive, ?_, ?_⟩
    · rintro ⟨payload', hhandles', hcontradicts⟩
      rw [hhandles'.unique hhandles] at hcontradicts
      exact hoff hcontradicts
    · exact fun h => hsame (h payload hhandles)
  · have hbye : request.type ≠ .bye := by
      intro hbye
      have hobeys : Obeys unrepresentable request w (w.handle unrepresentable backend request) :=
        handle_obeys backend hlive request
      obtain ⟨calls', reply, hreply, hlaw, -⟩ := hobeys.replied
      have htype := encodeFrame_type (List.singleton_inj.mp (herror.unique hreply).2)
      rw [hlaw.bye hbye] at htype
      cases htype
    rw [show w'.session = w.session from hpassed.eq hnegotiated hbye]
    exact ⟨rfl, hlive, fun ⟨payload, hhandles, _⟩ => absurd hhandles (hnone payload), fun _ => ⟨rfl, rfl⟩⟩

/-! ### One such request -/

/-- A HELLO, and diagnostics switched on. -/
def diagnosing : List Frame := [helloFrame, ⟨.diagRequest, ascii "\x7b\"enable\":true\x7d"⟩]

def contradiction : Frame :=
  ⟨.diagRequest, ascii "\x7b\"enable\":false,\"identify\":true\x7d"⟩

theorem contradiction_payload : parsePayload contradiction = some
    (.object [(ascii "enable", .boolean false), (ascii "identify", .boolean true)]) := by
  with_unfolding_all rfl

theorem diagnosing_refuses :
    let w := Runs.final (step (fun _ => Int64.minValue) nullBackend) (fresh () false) diagnosing
    AnsweredByError w (w.handle (fun _ => Int64.minValue) nullBackend contradiction).2 := by
  intro w
  cases handle_answers (w := w) (fun _ => Int64.minValue) nullBackend (by decide +kernel)
    (by decide +kernel) (show contradiction.type = .diagRequest from rfl) contradiction_payload with
  | refused _ hsent => exact ⟨_, _, hsent⟩
  | reported calls text hreported _ => exact absurd ⟨by decide +kernel, .inl rfl⟩ hreported

theorem refusal_keeps_session_contradicting :
    let w := Runs.final (step (fun _ => Int64.minValue) nullBackend) (fresh () false) diagnosing
    (w.handle (fun _ => Int64.minValue) nullBackend contradiction).2.session.identifyEnabled = false :=
  ((refusal_keeps_session (fun _ => Int64.minValue) nullBackend () false diagnosing contradiction
    (by decide +kernel) (by decide +kernel) diagnosing_refuses).2.2.1
      ⟨_, ⟨by decide +kernel, by decide +kernel, rfl, contradiction_payload⟩, rfl, rfl⟩).2

/-- The switch that is set first stays set when the request is then refused. -/
theorem refusal_switches_off :
    ¬ ∀ (frames : List Frame) (request : Frame),
      let w := Runs.final (step (fun _ => Int64.minValue) nullBackend) (fresh () false) frames
      let w' := (w.handle (fun _ => Int64.minValue) nullBackend request).2
      w.session.finished = false → w.session.negotiated = true → AnsweredByError w w' →
      w'.session.diagnosticsEnabled = w.session.diagnosticsEnabled ∧
        w'.session.identifyEnabled = w.session.identifyEnabled ∧
        w'.session.revision = w.session.revision ∧ w'.session.finished = w.session.finished := by
  intro h
  have hsame := (h diagnosing contradiction (by decide +kernel) (by decide +kernel)
    diagnosing_refuses).1
  revert hsame
  decide +kernel

/-! ## Identification withdrawn -/

/-- The request carries the boolean `identify: false`. -/
def Declines (payload : Value) : Prop := payload.find (ascii "identify") = some (.boolean false)

/-- A text is an object with this boolean under the name `identify`. -/
def ReportsIdentify (text : Bytes) (identify : Bool) : Prop :=
  ∃ v, parse text = some v ∧ v.find (ascii "identify") = some (.boolean identify)

/-- Once a request with `identify: false` was handled in a session, and until one with
`identify: true` is, identification is off and every report says so. -/
def StaysWithdrawn (start : World σ) (frames : List Frame) : Prop :=
  ∀ before request mid payload, before ++ request :: mid <+: frames →
    let w := Runs.final (step unrepresentable backend) start before
    Handles w request payload → Declines payload →
    (∀ v ∈ Runs.visits (step unrepresentable backend) (step unrepresentable backend w request).1 mid,
      ∀ payload, Handles v.1 v.2 payload → ¬ Identifies payload) →
    (Runs.final (step unrepresentable backend) w (request :: mid)).session.identifyEnabled = false ∧
      ∀ v ∈ Runs.visits (step unrepresentable backend) w (request :: mid), ∀ calls text,
        Emitted v.1 (step unrepresentable backend v.1 v.2).1 calls [encodeFrame .diagReply text] →
        ReportsIdentify text false

theorem Declines.not_identifies (h : Declines payload) : ¬ Identifies payload := by
  intro hidentifies
  rw [Identifies, h] at hidentifies
  cases hidentifies

theorem diagReport_identify (session : Session) (s : σ) :
    ReportsIdentify (diagReport backend session s).1.text session.identifyEnabled := by
  obtain ⟨report, hreport, hidentify⟩ : ∃ report, (diagReport backend session s).1 = .diagReply report ∧
      report.identify = session.identifyEnabled := ⟨_, rfl, rfl⟩
  have hnames : ((Reply.diagReply report).members.map Prod.fst).Nodup := by
    simp only [Reply.members, List.map_cons, List.map_nil]
    decide
  have hflat := flat_object hnames (by simp [Reply.members])
  have hfind : (Value.object (Reply.diagReply report).members).find (ascii "identify")
      = some (.boolean session.identifyEnabled) := by
    rw [← hidentify]
    rfl
  obtain ⟨v, t, hparse, hfound, halike⟩ := find_dump hflat.1 hflat.2 hfind
  rw [boolean_alike halike] at hfound
  rw [hreport]
  exact ⟨v, hparse, hfound⟩

/-- A report says of identification what the session says after it. -/
theorem reports_identify {w : World σ} {request : Frame} {calls : List BackendCall} {text : Bytes}
    (h : Emitted w (step unrepresentable backend w request).1 calls [encodeFrame .diagReply text]) :
    ReportsIdentify text (step unrepresentable backend w request).1.session.identifyEnabled := by
  cases hlive : w.session.finished with
  | true =>
    unfold step at h
    rw [handle_finished backend hlive] at h
    cases (h.unique (emitted_of_log rfl)).2
  | false =>
    by_cases hreports : ∃ report, Reports backend w request report
    · obtain ⟨report, hreports⟩ := hreports
      obtain ⟨calls', hemitted⟩ := handle_reports unrepresentable backend hreports
      have hframe := List.singleton_inj.mp (h.unique hemitted).2
      cases hreports with
      | caps payload _ _ _ _ => cases encodeFrame_type hframe
      | diag payload _ hnegotiated htype hpayload hrefused =>
        have hswitched := handle_switched unrepresentable backend ⟨hlive, hnegotiated, htype, hpayload⟩
        have hsession : (step unrepresentable backend w request).1.session.identifyEnabled
            = (diagSession w.session payload).identifyEnabled := by
          rw [Bool.eq_iff_iff, diagSession_identify]
          refine hswitched.identify.trans (or_congr_left ⟨And.left, fun hidentifies => ?_⟩)
          refine ⟨hidentifies, ?_⟩
          by_contra hoff
          exact hrefused ⟨by simpa using hoff, .inl hidentifies⟩
        rw [hsession, encodeFrame_payload hframe]
        exact diagReport_identify backend _ _
    · rw [not_exists] at hreports
      obtain ⟨calls', reply, hemitted, -, hplain⟩ :=
        handle_plain unrepresentable backend hlive hreports
      have htype := encodeFrame_type (List.singleton_inj.mp (h.unique hemitted).2)
      cases reply with
      | diagReply _ => cases hplain
      | _ => cases htype

/-- Only a request with `identify: true` switches identification on. -/
theorem step_off (w : World σ) (request : Frame) (hoff : w.session.identifyEnabled = false)
    (hnone : ¬ ∃ payload, Handles w request payload ∧ Identifies payload) :
    (step unrepresentable backend w request).1.session.identifyEnabled = false := by
  rw [← Bool.not_eq_true]
  intro hon
  rcases step_identifies unrepresentable backend w request hon with
    ⟨payload, hhandles, hidentifies, -⟩ | ⟨hbefore, -⟩
  · exact hnone ⟨payload, hhandles, hidentifies⟩
  · rw [hoff] at hbefore
    cases hbefore

/-- A request with `identify: false` leaves identification as it was, but for what else it carries. -/
theorem step_declines {w : World σ} {request : Frame} {payload : Value}
    (hhandles : Handles w request payload) (hdeclines : Declines payload) :
    (step unrepresentable backend w request).1.session.identifyEnabled = false ↔
      w.session.identifyEnabled = false ∨ SwitchesOff payload := by
  have hswitched := handle_switched unrepresentable backend hhandles
  have hidentify := hswitched.identify
  simp only [hdeclines.not_identifies, false_and, false_or] at hidentify
  change (w.handle unrepresentable backend request).2.session.identifyEnabled = false ↔ _
  rw [← Bool.not_eq_true, hidentify, not_and_not_right]
  cases w.session.identifyEnabled <;> simp

/-- **Identification stays withdrawn** in exactly the sessions in which every request with
`identify: false` comes while identification is off, or switches diagnostics off as well. -/
theorem identification_withdrawn (s : σ) (transcript : Bool) (frames : List Frame) :
    StaysWithdrawn unrepresentable backend (fresh s transcript) frames ↔
      ∀ v ∈ Runs.visits (step unrepresentable backend) (fresh s transcript) frames,
        ∀ payload, Handles v.1 v.2 payload → Declines payload →
          v.1.session.identifyEnabled = false ∨ SwitchesOff payload := by
  constructor
  · intro h v hv payload hhandles hdeclines
    obtain ⟨before, hprefix, hstate⟩ := Runs.mem_visits.mp hv
    rw [hstate] at hhandles ⊢
    refine (step_declines unrepresentable backend hhandles hdeclines).mp ?_
    exact (h before v.2 [] payload hprefix hhandles hdeclines (by simp [Runs.visits])).1
  · intro h before request mid payload hprefix w hhandles hdeclines hnone
    have hat : (w, request) ∈ Runs.visits (step unrepresentable backend) (fresh s transcript) frames :=
      Runs.mem_visits.mpr
        ⟨before, (List.prefix_append_right_inj before |>.mpr (by simp)).trans hprefix, rfl⟩
    have hafter : (step unrepresentable backend w request).1.session.identifyEnabled = false :=
      (step_declines unrepresentable backend hhandles hdeclines).mpr
        (h _ hat payload hhandles hdeclines)
    have hoff : ∀ more, more <+: mid →
        (Runs.final (step unrepresentable backend) w (request :: more)).session.identifyEnabled
          = false := by
      intro more hmore
      refine Runs.final_until (P := fun w : World σ => w.session.identifyEnabled = false)
        (p := fun v => ∃ payload, Handles v.1 v.2 payload ∧ Identifies payload)
        (step_off unrepresentable backend) hafter more ?_
      rintro v hv ⟨payload', hhandles', hidentifies⟩
      exact hnone v (Runs.visits_prefix hmore hv) payload' hhandles' hidentifies
    refine ⟨hoff mid List.prefix_rfl, ?_⟩
    intro v hv calls text hemitted
    obtain ⟨visited, hvisited, hstate⟩ := Runs.mem_visits.mp hv
    have hreports := reports_identify unrepresentable backend hemitted
    rw [hstate, ← Runs.final_concat] at hreports
    cases visited with
    | nil =>
      rw [List.nil_append, List.cons_prefix_cons] at hvisited
      rw [hvisited.1, List.nil_append, hoff [] List.nil_prefix] at hreports
      exact hreports
    | cons first visited =>
      rw [List.cons_append, List.cons_prefix_cons] at hvisited
      rw [List.cons_append, hvisited.1, hoff _ hvisited.2] at hreports
      exact hreports

/-! ### One such session -/

def identifying : List Frame :=
  [helloFrame, ⟨.diagRequest, ascii "\x7b\"enable\":true,\"identify\":true\x7d"⟩]

def declining : Frame := ⟨.diagRequest, ascii "\x7b\"identify\":false\x7d"⟩

theorem declining_payload :
    parsePayload declining = some (.object [(ascii "identify", .boolean false)]) := by
  with_unfolding_all rfl

/-- Switched on, identification is not withdrawn by `identify: false`. -/
theorem identification_not_withdrawn :
    ¬ ∀ frames, StaysWithdrawn (fun _ => Int64.minValue) nullBackend (fresh () false) frames := by
  intro h
  let w := Runs.final (step (fun _ => Int64.minValue) nullBackend) (fresh () false) identifying
  have hhandles : Handles w declining (.object [(ascii "identify", .boolean false)]) :=
    ⟨by decide +kernel, by decide +kernel, rfl, declining_payload⟩
  have hdeclines : Declines (.object [(ascii "identify", .boolean false)]) := rfl
  have hoff := (h (identifying ++ [declining]) identifying declining [] _ List.prefix_rfl hhandles
    hdeclines (by simp [Runs.visits])).1
  revert hoff
  decide +kernel

end

end World

end OakBarrels
