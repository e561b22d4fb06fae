import OakBarrels.Diagnostics

/-!
# The two reports

Which frames are answered by a report on the engine, and by which: a CAPS_REQUEST that can be read,
and a DIAG_REQUEST that is not refused.
-/

open Octets Binary64

namespace OakBarrels

open Json Protocol

def Reply.isReport : Reply → Bool
  | .capsReply .. => true
  | .diagReply _ => true
  | _ => false

namespace World

variable {σ : Type}

/-- The report that a frame asks for. -/
inductive Reports (backend : EngineBackend σ) (w : World σ) (request : Frame) : Reply → Prop
  | caps (payload : Value) : w.session.finished = false → w.session.negotiated = true →
      request.type = .capsRequest → parsePayload request = some payload →
      Reports backend w request (capsReport backend w.backend).1
  | diag (payload : Value) : w.session.finished = false → w.session.negotiated = true →
      request.type = .diagRequest → parsePayload request = some payload →
      ¬ Refused w.session payload →
      Reports backend w request (diagReport backend (diagSession w.session payload) w.backend).1

variable (unrepresentable : Unrepresentable) (backend : EngineBackend σ) {w : World σ}
  {request : Frame}

theorem transcribe_backend (w : World σ) (direction : Char) (type : MessageType)
    (text : Bytes) : (w.transcribe direction type text).backend = w.backend := by
  unfold transcribe
  split <;> rfl

theorem handle_caps (hlive : w.session.finished = false) (hnegotiated : w.session.negotiated = true)
    (htype : request.type = .capsRequest) {payload : Value}
    (hpayload : parsePayload request = some payload) :
    ∃ calls, Emitted w (w.handle unrepresentable backend request).2 calls
      [(capsReport backend w.backend).1.frame.encoded] := by
  have hhandle : (w.handle unrepresentable backend request).2
      = (handleCapsRequest backend (w.transcribe '<' request.type request.payload)).2 := by
    simp [handle, hlive, hnegotiated, htype, hpayload]
  obtain ⟨calls, hemitted⟩ := handleCapsRequest_emitted backend
    (w.transcribe '<' request.type request.payload)
  rw [transcribe_backend] at hemitted
  rw [hhandle]
  exact ⟨_, (transcribe_emitted w '<' request.type request.payload).trans hemitted⟩

theorem handle_diag (hlive : w.session.finished = false) (hnegotiated : w.session.negotiated = true)
    (htype : request.type = .diagRequest) {payload : Value}
    (hpayload : parsePayload request = some payload) (h : ¬ Refused w.session payload) :
    ∃ calls, Emitted w (w.handle unrepresentable backend request).2 calls
      [(diagReport backend (diagSession w.session payload) w.backend).1.frame.encoded] := by
  have hhandle : (w.handle unrepresentable backend request).2 = (handleDiagRequest backend payload
      (w.transcribe '<' request.type request.payload)).2 := by
    simp [handle, hlive, hnegotiated, htype, hpayload]
  have hsession := transcribe_session w '<' request.type request.payload
  have hbackend := transcribe_backend w '<' request.type request.payload
  have hemitted := transcribe_emitted w '<' request.type request.payload
  generalize w.transcribe '<' request.type request.payload = w₁ at *
  rw [← hsession] at h ⊢
  obtain ⟨calls, hreported⟩ := reportDiagnostics_emitted backend
    { w₁ with session := diagSession w₁.session payload }
  rw [hhandle, handleDiagRequest_reports backend h, ← hbackend]
  exact ⟨_, (hemitted.trans (emitted_of_log rfl)).trans hreported⟩

/-- What is asked for is written. -/
theorem handle_reports {report : Reply} (h : Reports backend w request report) :
    ∃ calls, Emitted w (w.handle unrepresentable backend request).2 calls
      [report.frame.encoded] := by
  cases h with
  | caps payload hlive hnegotiated htype hpayload =>
    exact handle_caps unrepresentable backend hlive hnegotiated htype hpayload
  | diag payload hlive hnegotiated htype hpayload hrefused =>
    exact handle_diag unrepresentable backend hlive hnegotiated htype hpayload hrefused

/-- A frame of one of the two types that asks for no report is refused. -/
theorem handle_refuses (hlive : w.session.finished = false)
    (htype : request.type = .capsRequest ∨ request.type = .diagRequest)
    (h : ∀ report, ¬ Reports backend w request report) :
    ∃ reason calls, reason ≠ .ok ∧ Emitted w (w.handle unrepresentable backend request).2 calls
      [(Reply.error reason).frame.encoded] := by
  have hbye : request.type ≠ .bye := by rcases htype with htype | htype <;> simp [htype]
  have hhello : request.type ≠ .hello := by rcases htype with htype | htype <;> simp [htype]
  have hunread : (w.handle unrepresentable backend request).2.log
      = ((w.transcribe '<' request.type request.payload).sendError .badArgument).log →
      Emitted w (w.handle unrepresentable backend request).2 []
        [(Reply.error .badArgument).frame.encoded] :=
    fun hlog => ((transcribe_emitted w '<' request.type request.payload).trans
      (send_emitted _ .error _)).trans (emitted_of_log hlog)
  cases hnegotiated : w.session.negotiated with
  | false =>
    refine ⟨.badArgument, [], by simp, hunread ?_⟩
    simp [handle, hlive, hbye, hhello, hnegotiated, finish]
  | true =>
    cases hpayload : parsePayload request with
    | none =>
      refine ⟨.badArgument, [], by simp, hunread ?_⟩
      simp [handle, hlive, hbye, hnegotiated, hpayload]
    | some payload =>
      rcases htype with htype | htype
      · exact absurd (.caps payload hlive hnegotiated htype hpayload) (h _)
      · cases handle_answers unrepresentable backend hlive hnegotiated htype hpayload with
        | refused _ hsent => exact ⟨.diagDisabled, [], by simp, hsent⟩
        | reported calls text hreport _ =>
          exact absurd (.diag payload hlive hnegotiated htype hpayload hreport) (h _)

/-- And nothing else is a report. -/
theorem handle_plain (hlive : w.session.finished = false)
    (h : ∀ report, ¬ Reports backend w request report) :
    ∃ calls reply, Emitted w (w.handle unrepresentable backend request).2 calls
        [reply.frame.encoded] ∧ Replies backend w request reply ∧ reply.isReport = false := by
  obtain ⟨calls, reply, hemitted, hreplies⟩ := handle_writes backend unrepresentable hlive request
  by_cases htype : request.type = .capsRequest ∨ request.type = .diagRequest
  · have hbye : request.type ≠ .bye := by rcases htype with htype | htype <;> simp [htype]
    obtain ⟨reason, calls, hreason, hrefused⟩ := handle_refuses unrepresentable backend hlive htype h
    exact ⟨calls, .error reason, hrefused, .error reason hbye hreason, rfl⟩
  · refine ⟨calls, reply, hemitted, hreplies, ?_⟩
    cases hreplies with
    | capsReply hcaps => exact absurd (.inl hcaps) htype
    | diagReply session hdiag => exact absurd (.inr hdiag) htype
    | _ => rfl

end World

end OakBarrels
