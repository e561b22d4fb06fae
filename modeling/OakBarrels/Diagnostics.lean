import OakBarrels.Replies

/-!
# Diagnostics are opt-in

When a DIAG_REQUEST is answered by a report, and when it is refused. The two fields of a request vary
independently: each is absent, a boolean, or something else.
-/

open Octets Binary64

namespace OakBarrels

open Json Protocol

theorem encodeFrame_type {type type' : MessageType} {payload payload' : Bytes}
    (h : encodeFrame type payload = encodeFrame type' payload') : type = type' := by
  have hbyte := congrArg (fun bytes => bytes[kHeaderBytes]?) h
  simp only [encodeFrame, littleEndian, kHeaderBytes, List.cons_append, List.nil_append,
    List.getElem?_cons_succ, List.getElem?_cons_zero, Option.some.injEq] at hbyte
  have hcode := ofCode_code type
  rw [hbyte, ofCode_code] at hcode
  exact (Option.some.inj hcode).symm

theorem encodeFrame_payload {type type' : MessageType} {payload payload' : Bytes}
    (h : encodeFrame type payload = encodeFrame type' payload') : payload = payload' :=
  congrArg (List.drop (kHeaderBytes + 1)) h

namespace World

variable {σ : Type} {w w' : World σ}

/-! ## What a request asks for -/

/-- The switch `diagnose` once a request has set it. -/
def enabledAfter (session : Session) (payload : Value) : Bool :=
  match payload.find (ascii "enable") with
  | some (.boolean enable) => enable
  | _ => session.diagnosticsEnabled

/-- The request carries the boolean `enable: false`. -/
def SwitchesOff (payload : Value) : Prop := payload.find (ascii "enable") = some (.boolean false)

def Identifies (payload : Value) : Prop := payload.find (ascii "identify") = some (.boolean true)

/-- The request has neither field: a query. -/
def Queries (payload : Value) : Prop :=
  payload.find (ascii "enable") = none ∧ payload.find (ascii "identify") = none

/-- A report is written only where diagnostics are on, or have just been switched off; else the
request is refused, and nothing was asked of the engine. -/
structure OptIn (w w' : World σ) (payload : Value) : Prop where
  reported : ∀ calls text, Emitted w w' calls [encodeFrame .diagReply text] →
    enabledAfter w.session payload = true ∨ SwitchesOff payload
  refused : enabledAfter w.session payload = false → ¬ SwitchesOff payload →
    Emitted w w' [] [encodeFrame .error (errorPayload .diagDisabled).dump]

theorem switchDiagnostics_enabled (session : Session) (payload : Value) :
    (switchDiagnostics (payload.find (ascii "enable")) session).diagnosticsEnabled
      = enabledAfter session payload := by
  unfold switchDiagnostics enabledAfter
  cases payload.find (ascii "enable") with
  | none => rfl
  | some enable =>
    cases enable with
    | boolean b => cases b <;> rfl
    | _ => rfl

theorem identifying_iff (payload : Value) :
    ((payload.find (ascii "identify")).map fun v => v.isBool && v.asBool false).getD false = true ↔
      Identifies payload := by
  unfold Identifies
  cases payload.find (ascii "identify") with
  | none => simp
  | some identify =>
    cases identify with
    | boolean b => cases b <;> simp [Value.isBool, Value.asBool]
    | _ => simp [Value.isBool]

theorem querying_iff (payload : Value) :
    ((payload.find (ascii "enable")).isNone && (payload.find (ascii "identify")).isNone) = true ↔
      Queries payload := by
  simp [Queries]

/-! ## The answer -/

variable (unrepresentable : Unrepresentable) (backend : EngineBackend σ)

/-- Diagnostics stay off, and the request identifies or queries. -/
def Refused (session : Session) (payload : Value) : Prop :=
  enabledAfter session payload = false ∧ (Identifies payload ∨ Queries payload)

/-- Refused in that case, and reported in any other. -/
inductive Answers (w w' : World σ) (payload : Value) : Prop
  | refused : Refused w.session payload →
      Emitted w w' [] [encodeFrame .error (errorPayload .diagDisabled).dump] → Answers w w' payload
  | reported (calls : List BackendCall) (text : Bytes) : ¬ Refused w.session payload →
      Emitted w w' calls [encodeFrame .diagReply text] → Answers w w' payload

theorem Answers.after {w₁ : World σ} {payload : Value} (h : Answers w₁ w' payload)
    (hemitted : Emitted w w₁ [] []) (hsession : w₁.session = w.session) : Answers w w' payload := by
  cases h with
  | refused hrefused hreply => exact .refused (hsession ▸ hrefused) (hemitted.trans hreply)
  | reported calls text hrefused hreply =>
    exact .reported calls text (hsession ▸ hrefused) (hemitted.trans hreply)

/-- The session once the switches of a DIAG_REQUEST are set. -/
def diagSession (session : Session) (payload : Value) : Session :=
  let switched := switchDiagnostics (payload.find (ascii "enable")) session
  if ((payload.find (ascii "identify")).map fun v => v.isBool && v.asBool false).getD false then
    { switched with identifyEnabled := true }
  else switched

theorem diagSession_enabled (session : Session) (payload : Value) :
    (diagSession session payload).diagnosticsEnabled = enabledAfter session payload := by
  unfold diagSession
  simp only
  split <;> exact switchDiagnostics_enabled session payload

theorem handleDiagRequest_eq (w : World σ) (payload : Value) :
    (handleDiagRequest backend payload w).2 =
      let switched := switchDiagnostics (payload.find (ascii "enable")) w.session
      let identify := payload.find (ascii "identify")
      let w₁ : World σ := { w with session := diagSession w.session payload }
      if (identify.map fun v => v.isBool && v.asBool false).getD false = true ∧
          ¬ switched.diagnosticsEnabled then
        World.sendError { w with session := switched } .diagDisabled
      else if ((payload.find (ascii "enable")).isNone && identify.isNone) = true ∧
          ¬ w₁.session.diagnosticsEnabled then w₁.sendError .diagDisabled
      else w₁.reportDiagnostics backend := by
  unfold handleDiagRequest diagSession
  simp only
  generalize ((payload.find (ascii "identify")).map fun v => v.isBool && v.asBool false).getD false
    = identifying
  cases identifying
  · simp only [Bool.false_eq_true, false_and, if_false]
    split <;> rfl
  · simp only [if_true]
    split
    · rfl
    · split <;> rfl

theorem handleDiagRequest_refused {w : World σ} {payload : Value} (h : Refused w.session payload) :
    ∃ session, (handleDiagRequest backend payload w).2
      = World.sendError { w with session } .diagDisabled := by
  obtain ⟨hoff, hasks⟩ := h
  have hoff' : ¬ enabledAfter w.session payload = true := by simp [hoff]
  rw [handleDiagRequest_eq]
  rcases hasks with hidentifies | hqueries
  · rw [if_pos ⟨(identifying_iff payload).mpr hidentifies, by rwa [switchDiagnostics_enabled]⟩]
    exact ⟨_, rfl⟩
  · simp only
    split
    · exact ⟨_, rfl⟩
    · rw [if_pos ⟨(querying_iff payload).mpr hqueries, by rwa [diagSession_enabled]⟩]
      exact ⟨_, rfl⟩

theorem handleDiagRequest_reports {w : World σ} {payload : Value}
    (h : ¬ Refused w.session payload) : (handleDiagRequest backend payload w).2
      = reportDiagnostics backend { w with session := diagSession w.session payload } := by
  rw [handleDiagRequest_eq]
  simp only
  rw [if_neg, if_neg]
  · rw [querying_iff, diagSession_enabled, Bool.not_eq_true]
    exact fun hqueries => h ⟨hqueries.2, .inr hqueries.1⟩
  · rw [identifying_iff, switchDiagnostics_enabled, Bool.not_eq_true]
    exact fun hidentifies => h ⟨hidentifies.2, .inl hidentifies.1⟩

theorem handleDiagRequest_answers (w : World σ) (payload : Value) :
    Answers w (handleDiagRequest backend payload w).2 payload := by
  by_cases hrefused : Refused w.session payload
  · obtain ⟨session, hsent⟩ := handleDiagRequest_refused backend hrefused
    refine .refused hrefused ?_
    rw [hsent]
    exact (emitted_of_log rfl).trans (send_emitted { w with session } _ _)
  · obtain ⟨calls, hemitted⟩ := reportDiagnostics_emitted backend
      { w with session := diagSession w.session payload }
    rw [handleDiagRequest_reports backend hrefused]
    exact .reported calls _ hrefused ((emitted_of_log rfl).trans hemitted)

/-! ## Whole sessions -/

/-- Diagnostics are on, or the request says something of them: the boolean `enable: false`,
`identify: true`, or neither field at all. -/
def Asked (session : Session) (payload : Value) : Prop :=
  enabledAfter session payload = true ∨ SwitchesOff payload ∨ Identifies payload ∨ Queries payload

theorem Answers.optIn_iff {payload : Value} (h : Answers w w' payload) :
    OptIn w w' payload ↔ Asked w.session payload := by
  cases h with
  | refused hrefused hemitted =>
    refine ⟨fun _ => .inr (.inr hrefused.2), fun _ => ⟨?_, fun _ _ => hemitted⟩⟩
    intro calls text hreport
    have htype := encodeFrame_type (List.singleton_inj.mp (hemitted.unique hreport).2)
    cases htype
  | reported calls text hrefused hemitted =>
    constructor
    · intro h
      rcases h.reported calls text hemitted with hon | hswitched
      · exact .inl hon
      · exact .inr (.inl hswitched)
    · intro hasked
      have hreported : enabledAfter w.session payload = true ∨ SwitchesOff payload := by
        rcases hasked with hon | hswitched | hasks
        · exact .inl hon
        · exact .inr hswitched
        · by_contra hneither
          exact hrefused ⟨by simpa using fun hon => hneither (.inl hon), hasks⟩
      refine ⟨fun _ _ _ => hreported, ?_⟩
      intro hoff hnot
      rcases hreported with hon | hswitched
      · rw [hoff] at hon
        cases hon
      · exact absurd hswitched hnot

theorem handle_answers {w : World σ} (hlive : w.session.finished = false)
    (hnegotiated : w.session.negotiated = true) {request : Frame} (htype : request.type = .diagRequest)
    {payload : Value} (hpayload : parsePayload request = some payload) :
    Answers w (w.handle unrepresentable backend request).2 payload := by
  have hhandle : (w.handle unrepresentable backend request).2 = (handleDiagRequest backend payload
      (w.transcribe '<' request.type request.payload)).2 := by
    simp [handle, hlive, htype, hnegotiated, hpayload]
  rw [hhandle]
  exact (handleDiagRequest_answers backend _ payload).after
    (transcribe_emitted w '<' request.type request.payload) (transcribe_session ..)

/-- **Diagnostics are opt-in** exactly for the requests that are a query, or say of one of the two
switches what it is to be, or come while diagnostics are on. A request that cannot be read is refused
as any other. -/
theorem diagnostics_opt_in (s : σ) (transcript : Bool) (frames : List Frame) (request : Frame) :
    request.type = .diagRequest →
    let w := Runs.final (step unrepresentable backend) (fresh s transcript) frames
    let w' := (w.handle unrepresentable backend request).2
    w.session.finished = false →
    (∀ payload, w.session.negotiated = true → parsePayload request = some payload →
      (OptIn w w' payload ↔ Asked w.session payload)) ∧
    (w.session.negotiated = false ∨ parsePayload request = none →
      Emitted w w' [] [encodeFrame .error (errorPayload .badArgument).dump]) := by
  intro htype w w' hlive
  refine ⟨?_, ?_⟩
  · intro payload hnegotiated hpayload
    exact (handle_answers unrepresentable backend hlive hnegotiated htype hpayload).optIn_iff
  · intro hunread
    have hhandle : w'.log = ((w.transcribe '<' request.type request.payload).sendError
        .badArgument).log := by
      cases hnegotiated : w.session.negotiated with
      | false => simp [w', handle, hlive, htype, hnegotiated, finish]
      | true =>
        have hnone : parsePayload request = none := by simpa [hnegotiated] using hunread
        simp [w', handle, hlive, htype, hnegotiated, hnone]
    obtain ⟨events, hlog, hcalls, hframes⟩ :=
      (transcribe_emitted w '<' request.type request.payload).trans (send_emitted _ .error _)
    exact ⟨events, hhandle.trans hlog, hcalls, hframes⟩

def helloFrame : Frame := ⟨.hello, ascii "\x7b\"revisions\":[1]\x7d"⟩

theorem diagnostics_opt_in_query :
    OptIn (Runs.final (step (fun _ => Int64.minValue) nullBackend) (fresh () false) [helloFrame])
      (handle (fun _ => Int64.minValue) nullBackend ⟨.diagRequest, []⟩
        (Runs.final (step (fun _ => Int64.minValue) nullBackend) (fresh () false) [helloFrame])).2
      (.object []) := by
  refine ((diagnostics_opt_in (fun _ => Int64.minValue) nullBackend () false [helloFrame]
    ⟨.diagRequest, []⟩ rfl (by decide +kernel)).1 (.object []) (by decide +kernel) rfl).mpr ?_
  exact .inr (.inr (.inr ⟨rfl, rfl⟩))

/-- With diagnostics off a request with `identify: false` is answered by a report. -/
theorem opt_in_fails_at_identify :
    ¬ ∀ (frames : List Frame) (request : Frame) (payload : Value), request.type = .diagRequest →
      let w := Runs.final (step (fun _ => Int64.minValue) nullBackend) (fresh () false) frames
      w.session.finished = false → w.session.negotiated = true →
      parsePayload request = some payload →
      OptIn w (w.handle (fun _ => Int64.minValue) nullBackend request).2 payload := by
  intro h
  let w := Runs.final (step (fun _ => Int64.minValue) nullBackend) (fresh () false) [helloFrame]
  let request : Frame := ⟨.diagRequest, ascii "\x7b\"identify\":false\x7d"⟩
  have hsession : w.session.finished = false ∧ w.session.negotiated = true ∧
      w.session.diagnosticsEnabled = false := by decide +kernel
  have hsome : (parsePayload request).isSome = true := by decide +kernel
  obtain ⟨payload, hread⟩ := Option.isSome_iff_exists.mp hsome
  have hfields : (parsePayload request).all (fun payload =>
      (payload.find (ascii "enable")).isNone && (payload.find (ascii "identify")).any fun identify =>
        identify.isBool && !identify.asBool true) = true := by decide +kernel
  rw [hread] at hfields
  simp only [Option.all_some, Bool.and_eq_true, Option.isNone_iff_eq_none] at hfields
  obtain ⟨henable, hidentify⟩ := hfields
  have hanswers := handle_answers (fun _ => Int64.minValue) nullBackend hsession.1 hsession.2.1
    (show request.type = .diagRequest from rfl) hread
  have hasked := hanswers.optIn_iff.mp (h [helloFrame] request payload rfl hsession.1 hsession.2.1 hread)
  rcases hasked with hon | hswitched | hidentifies | hqueries
  · simp [enabledAfter, henable, hsession.2.2] at hon
  · simp [SwitchesOff, henable] at hswitched
  · rw [show payload.find (ascii "identify") = _ from hidentifies] at hidentify
    cases hidentify
  · rw [show payload.find (ascii "identify") = _ from hqueries.2] at hidentify
    cases hidentify

end World

end OakBarrels
