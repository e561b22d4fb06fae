import OakBarrels.Client.Negotiation
import OakBarrels.Service
import OakBarrels.Targets

/-!
# The session serves

A request of the client, in the text that it is sent as, makes the session do what the service does,
and the reply yields the result.
-/

open Octets Binary64 Decimal Conversion

namespace OakBarrels

open Json Protocol
open Client (Call Invocation Result Datum Writer Convert)

/-! ## What a reply yields -/

/-- The result that a call can take from a reply. -/
inductive Yields : Call → Reply → Result → Prop
  | farewell (reply : Reply) : Yields .shutdown reply .done
  | error (call : Call) (reason : Reason) : call ≠ .shutdown →
      Yields call (.error reason) (Service.refused reason)
  | revision (revision : Int32) : Yields .negotiate (.helloAck revision) (.revision revision.toInt)
  | capabilities (classes : List Bytes) (limits : Value) (bulk : Bool) :
      Yields .capabilities (.capsReply classes limits bulk)
        (.capabilities ⟨classes.toFinset, Service.numeric limits.members, bulk⟩)
  | handle (handle : UInt32) : handle ≠ 0 → Yields .open (.openAck handle) (.handle handle.toNat)
  | done (call : Call) (handle : UInt32) : call = .post ∨ call = .set ∨ call = .close →
      Yields call (.status handle) .done
  | diagnostics (report : Report) : Yields .diagnostics (.diagReply report)
      (.diagnostics
        { diagnosticsEnabled := report.diagnose
          identificationEnabled := report.identify
          revision := report.revision.toInt
          classes := report.classes.toFinset
          targetCount := report.targets.toNat
          resolvedSymbolCount := report.symbolsResolved.toNat
          filesExamined := report.filesExamined.toNat
          candidatesFound := report.candidatesFound.toNat
          discoveryTruncated := report.discoveryTruncated })

namespace World

variable {σ : Type} {w w₁ : World σ}

/-- The service that a session gives. -/
def service (w : World σ) : Service σ where
  phase :=
    if w.session.finished then .over else if w.session.negotiated then .serving else .greeting
  revision := w.session.revision.toInt
  diagnose := w.session.diagnosticsEnabled
  identify := w.session.identifyEnabled
  engine := w.backend

theorem service_fresh (engine : σ) (transcript : Bool) :
    (fresh engine transcript).service = .start engine := rfl

theorem service_congr (hsession : w₁.session = w.session) (hbackend : w₁.backend = w.backend) :
    w₁.service = w.service := by
  unfold service
  rw [hsession, hbackend]

@[simp] theorem send_service (w : World σ) (type : MessageType) (text : Bytes) :
    (w.send type text).service = w.service :=
  service_congr (send_session ..) (transcribe_backend w '>' type text)

@[simp] theorem sendError_service (w : World σ) (reason : Reason) :
    (w.sendError reason).service = w.service := send_service ..

@[simp] theorem finish_service (w : World σ) : w.finish.service = { w.service with phase := .over } := by
  unfold service
  simp [finish]

@[simp] theorem calling_service {α : Type} (w : World σ) (operation : StateM σ α)
    (call : α → BackendCall) : (w.calling operation call).2.service
      = { w.service with engine := (operation w.backend).2 } := rfl

theorem calling_fst {α : Type} (w : World σ) (operation : StateM σ α) (call : α → BackendCall) :
    (w.calling operation call).1 = (operation w.backend).1 := rfl

theorem service_engine (w : World σ) : w.service.engine = w.backend := rfl

/-! ## One request served -/

/-- The reply yields the result, and the session gives the service after it. -/
structure Serves (backend : EngineBackend σ) (call : Call) (frame : Frame) (w w' : World σ)
    (after : Service σ × Result) : Prop where
  replied : ∃ calls reply, Emitted w w' calls [reply.frame.encoded] ∧
    Replies backend w frame reply ∧ Yields call reply after.2
  service : w'.service = after.1

variable {backend : EngineBackend σ} {call : Call} {frame : Frame} {calls : List BackendCall}

theorem serves_send {s : Service σ} {result : Result} (reply : Reply)
    (hcalls : Emitted w w₁ calls []) (hreply : Replies backend w frame reply)
    (hyields : Yields call reply result) (hservice : w₁.service = s) :
    Serves backend call frame w (w₁.send reply.type reply.text) (s, result) := by
  have hemitted := hcalls.trans (send_emitted w₁ reply.type reply.text)
  rw [List.append_nil, List.nil_append] at hemitted
  exact ⟨⟨calls, reply, hemitted, hreply, hyields⟩, by rw [send_service, hservice]⟩

theorem serves_error {s : Service σ} {reason : Reason} (hcalls : Emitted w w₁ calls [])
    (hbye : frame.type ≠ .bye) (hcall : call ≠ .shutdown) (hreason : reason ≠ .ok)
    (hservice : w₁.service = s) :
    Serves backend call frame w (w₁.sendError reason) (s, Service.refused reason) :=
  serves_send (.error reason) hcalls (.error reason hbye hreason) (.error call reason hcall) hservice

theorem Serves.finish {s : Service σ} {result : Result}
    (h : Serves backend call frame w w₁ (s, result)) :
    Serves backend call frame w w₁.finish (s.ending result) := by
  obtain ⟨hreplied, hservice⟩ := h
  exact ⟨hreplied, by rw [finish_service, hservice, Service.ending]⟩

theorem Replies.congr {reply : Reply} (h : Replies backend w₁ frame reply)
    (hbackend : w₁.backend = w.backend) : Replies backend w frame reply := by
  cases h with
  | bye htype => exact .bye htype
  | error reason hbye hreason => exact .error reason hbye hreason
  | helloAck revision htype => exact .helloAck revision htype
  | capsReply htype => exact hbackend ▸ .capsReply htype
  | openAck handle htype hne => exact .openAck handle htype hne
  | status handle htype => exact .status handle htype
  | diagReply session htype => exact hbackend ▸ .diagReply session htype

theorem Serves.after {w' : World σ} {r : Service σ × Result}
    (h : Serves backend call frame w₁ w' r) (hemitted : Emitted w w₁ [] [])
    (hbackend : w₁.backend = w.backend) : Serves backend call frame w w' r := by
  obtain ⟨⟨calls, reply, hreplied, hreply, hyields⟩, hservice⟩ := h
  exact ⟨⟨calls, reply, hemitted.trans hreplied, hreply.congr hbackend, hyields⟩, hservice⟩

/-! ## The handlers -/

variable (backend)

theorem handleCapsRequest_serves (w : World σ) (htype : frame.type = .capsRequest) :
    Serves backend .capabilities frame w (handleCapsRequest backend w).2
      (w.service.asking (Service.capabilities backend) .capabilities) := by
  obtain ⟨calls, hemitted⟩ := handleCapsRequest_emitted backend w
  refine ⟨⟨calls, _, hemitted, .capsReply htype, .capabilities _ _ _⟩, ?_⟩
  unfold handleCapsRequest
  simp only [send_service, calling_service]
  rfl

theorem handleOpen_serves {payload : Value} {kind name : Bytes} (w : World σ)
    (htype : frame.type = .open) (hkind : payload.find (ascii "kind") = some (.string kind))
    (hname : readName payload = name) :
    Serves backend .open frame w (handleOpen backend payload w).2
      (w.service.asking (backend.openTarget kind name .ok) fun r => Service.opened r.1 r.2) := by
  have hcalls := calling_emitted w (backend.openTarget kind name .ok)
    fun result => .openTarget kind name result.1 result.2
  have hservice : w.service.asking (backend.openTarget kind name .ok) (fun r => Service.opened r.1 r.2)
      = ({ w.service with engine := (backend.openTarget kind name .ok w.backend).2 },
        Service.opened (backend.openTarget kind name .ok w.backend).1.1
          (backend.openTarget kind name .ok w.backend).1.2) := rfl
  rw [hservice]
  unfold handleOpen Service.opened
  simp only [hkind, hname, Value.isString, Value.asString, not_true_eq_false, if_false, calling_fst]
  by_cases hzero : (backend.openTarget kind name .ok w.backend).1.1 = 0
  · rw [if_pos hzero, if_pos hzero]
    refine serves_error hcalls (by simp [htype]) (by simp) ?_ rfl
    split
    · simp
    · assumption
  · rw [if_neg hzero, if_neg hzero]
    exact serves_send (.openAck _) hcalls (.openAck _ htype hzero) (.handle _ hzero) rfl

theorem answer_serves {reason : Reason} {handle : UInt32} {s : Service σ}
    (hcalls : Emitted w w₁ calls []) (htype : replyType true frame.type = some .status)
    (hcall : call = .post ∨ call = .set ∨ call = .close) (hservice : w₁.service = s) :
    Serves backend call frame w (w₁.answer handle reason) (s, Service.answered reason) := by
  unfold answer Service.answered
  split
  · rename_i hok
    subst hok
    exact serves_send (.status handle) hcalls (.status handle htype) (.done call handle hcall) hservice
  · refine serves_error hcalls (ne_bye htype (by simp)) ?_ ‹_› hservice
    rintro rfl
    simp at hcall

theorem handlePost_serves (unrepresentable : Unrepresentable) {payload args : Value} {handle : Int}
    {action : Bytes} (w : World σ) (htype : frame.type = .post)
    (hhandle : readHandle unrepresentable payload = Service.target handle)
    (haction : payload.find (ascii "action") = some (.string action)) (hargs : readArgs payload = args) :
    Serves backend .post frame w (handlePost unrepresentable backend payload w).2
      (w.service.onTarget handle fun handle => backend.post handle action args) := by
  unfold handlePost Service.onTarget
  rw [hhandle]
  cases Service.target handle with
  | none => exact serves_error (emitted_of_log rfl) (by simp [htype]) (by simp) (by simp) rfl
  | some target =>
    simp only [haction, hargs, Value.isString, Value.asString, not_true_eq_false, if_false]
    exact answer_serves backend (calling_emitted ..) (by rw [htype]; rfl) (.inl rfl) rfl

theorem handleClose_serves (unrepresentable : Unrepresentable) {payload : Value} {handle : Int}
    (w : World σ) (htype : frame.type = .close)
    (hhandle : readHandle unrepresentable payload = Service.target handle) :
    Serves backend .close frame w (handleClose unrepresentable backend payload w).2
      (w.service.onTarget handle backend.closeTarget) := by
  unfold handleClose Service.onTarget
  rw [hhandle]
  cases Service.target handle with
  | none => exact serves_error (emitted_of_log rfl) (by simp [htype]) (by simp) (by simp) rfl
  | some target =>
    exact answer_serves backend (calling_emitted ..) (by rw [htype]; rfl) (.inr (.inr rfl)) rfl

theorem inUnit_iff (x : Double) : Service.inUnit x = true ↔
    (Double.ofInt 0).le x = true ∧ x.le (.ofInt 1) = true := by
  rw [value_in_unit]
  unfold Service.inUnit
  cases x.value <;> simp

theorem handleSet_serves (unrepresentable : Unrepresentable) {payload : Value} {handle : Int}
    {param : Bytes} {value : Double} (w : World σ) (htype : frame.type = .set)
    (hhandle : readHandle unrepresentable payload = Service.target handle)
    (hparam : payload.find (ascii "param") = some (.string param))
    (hvalue : payload.find (ascii "value") = some (.number value)) :
    Serves backend .set frame w (handleSet unrepresentable backend payload w).2
      (if Service.inUnit value then w.service.onTarget handle fun handle => backend.set handle param value
        else (w.service, Service.refused .badArgument)) := by
  have hrefused : Serves backend .set frame w (w.sendError .badArgument)
      (w.service, Service.refused .badArgument) :=
    serves_error (emitted_of_log rfl) (by simp [htype]) (by simp) (by simp) rfl
  unfold handleSet Service.onTarget
  rw [hhandle]
  cases Service.target handle with
  | none =>
    simp only [ite_self]
    exact hrefused
  | some target =>
    simp only [hparam, hvalue, Value.isString, Value.asString, Value.isNumber, Value.asNumber,
      not_true_eq_false, if_false, ← inUnit_iff]
    by_cases hunit : Service.inUnit value = true
    · rw [if_neg (not_not.mpr hunit), if_pos hunit]
      exact answer_serves backend (calling_emitted ..) (by rw [htype]; rfl) (.inr (.inl rfl)) rfl
    · rw [if_pos hunit, if_neg hunit]
      exact hrefused

/-! ### Diagnostics -/

theorem reportDiagnostics_serves (w : World σ) (htype : frame.type = .diagRequest) :
    Serves backend .diagnostics frame w (reportDiagnostics backend w)
      (w.service.asking (Service.report backend w.service.revision w.service.diagnose
        w.service.identify) .diagnostics) := by
  obtain ⟨calls, hemitted⟩ := reportDiagnostics_emitted backend w
  refine ⟨⟨calls, _, hemitted, .diagReply w.session htype, .diagnostics _⟩, ?_⟩
  unfold reportDiagnostics
  simp only [send_service, calling_service]
  rfl

theorem switchDiagnostics_service (w : World σ) (enable : Option Bool) :
    service { w with session := switchDiagnostics (enable.map .boolean) w.session }
      = w.service.switched enable := by
  rcases enable with _ | _ | _ <;> rfl

theorem handleDiagRequest_serves {payload : Value} {enable identify : Option Bool} (w : World σ)
    (htype : frame.type = .diagRequest)
    (henable : payload.find (ascii "enable") = enable.map .boolean)
    (hidentify : payload.find (ascii "identify") = identify.map .boolean) :
    Serves backend .diagnostics frame w (handleDiagRequest backend payload w).2
      (w.service.diagnosed backend enable identify) := by
  have hidentifying : ((payload.find (ascii "identify")).map fun v =>
      v.isBool && v.asBool false).getD false = (identify == some true) := by
    rw [hidentify]
    rcases identify with _ | _ | _ <;> rfl
  have hquerying : ((payload.find (ascii "enable")).isNone &&
      (payload.find (ascii "identify")).isNone) = true ↔ enable = none ∧ identify = none := by
    rw [henable, hidentify]
    simp
  have hswitched := switchDiagnostics_service w enable
  rw [← henable] at hswitched
  have hrefused : ∀ session : Session, Serves backend .diagnostics frame w
      (World.sendError { w with session } .diagDisabled)
      (service { w with session }, Service.refused .diagDisabled) :=
    fun session => serves_error (emitted_of_log rfl) (by simp [htype]) (by simp) (by simp) rfl
  have hreported : ∀ session : Session, Serves backend .diagnostics frame w
      (reportDiagnostics backend { w with session })
      ((service { w with session }).asking (Service.report backend session.revision.toInt
        session.diagnosticsEnabled session.identifyEnabled) .diagnostics) :=
    fun session => (reportDiagnostics_serves backend { w with session } htype).after
      (emitted_of_log rfl) rfl
  rw [handleDiagRequest_eq]
  unfold diagSession Service.diagnosed
  simp only [hidentifying, ← hswitched]
  generalize switchDiagnostics (payload.find (ascii "enable")) w.session = session
  have hdiagnose : (service { w with session }).diagnose = session.diagnosticsEnabled := rfl
  rw [hdiagnose]
  by_cases hidentifies : identify = some true
  · subst hidentifies
    simp only [beq_self_eq_true, true_and, true_or, and_true, if_true, Bool.or_true]
    cases hon : session.diagnosticsEnabled with
    | false => exact hrefused session
    | true =>
      simp only [not_true_eq_false, and_false, if_false, Bool.true_eq_false]
      have hreport := hreported { session with identifyEnabled := true }
      rw [hon] at hreport
      exact hreport
  · simp only [beq_eq_false_iff_ne.mpr hidentifies, Bool.false_eq_true, false_and, false_or,
      hidentifies, if_false, Bool.or_false]
    by_cases hquery : enable = none ∧ identify = none
    · by_cases hon : session.diagnosticsEnabled = true
      · rw [if_neg (fun h => h.2 hon), if_neg (by simp [hon])]
        exact hreported session
      · rw [if_pos ⟨hquerying.mpr hquery, hon⟩, if_pos ⟨by simpa using hon, hquery⟩]
        exact hrefused session
    · rw [if_neg (fun h => hquery (hquerying.mp h.1)), if_neg (fun h => hquery h.2)]
      exact hreported session

/-! ### The first request -/

theorem selectRevision_offered {unrepresentable : Unrepresentable} {revisions : Finset Int}
    (h : 1 ∈ revisions ∨ ∀ n ∈ revisions, ¬ NarrowsToOne unrepresentable (.ofInt n)) :
    selectRevision (offeredRevisions unrepresentable
      (.array ((Invocation.ascending revisions).map fun n => .number (.ofInt n)))) =
        if 1 ∈ revisions then 1 else 0 := by
  have hoffered : offeredRevisions unrepresentable
      (.array ((Invocation.ascending revisions).map fun n => .number (.ofInt n)))
        = (Invocation.ascending revisions).map fun n => narrowed unrepresentable (.ofInt n) := by
    unfold offeredRevisions
    rw [Value.asArray, List.filterMap_map]
    exact congrFun List.filterMap_eq_map' _
  have hmem : (1 : Int32) ∈ (Invocation.ascending revisions).map (fun n => narrowed unrepresentable (.ofInt n))
      ↔ 1 ∈ revisions := by
    simp only [List.mem_map, Invocation.ascending, Finset.mem_sort, narrowed_eq_one]
    constructor
    · rintro ⟨n, hn, hnarrows⟩
      exact h.resolve_right fun hnone => hnone n hn hnarrows
    · intro hone
      exact ⟨1, hone, (narrowsToOne_ofInt (by decide)).mpr (by decide)⟩
  rw [hoffered, selectRevision_eq]
  exact if_congr hmem rfl rfl

theorem handleHello_serves {unrepresentable : Unrepresentable} {payload : Value}
    {revisions : Finset Int} (w : World σ) (htype : frame.type = .hello)
    (hlive : w.session.finished = false) (hpayload : parsePayload frame = some payload)
    (hrevisions : payload.find (ascii "revisions")
      = some (.array ((Invocation.ascending revisions).map fun n => .number (.ofInt n))))
    (hsound : 1 ∈ revisions ∨ ∀ n ∈ revisions, ¬ NarrowsToOne unrepresentable (.ofInt n)) :
    Serves backend .negotiate frame w (handleHello unrepresentable frame w).2
      (w.service.greet (.negotiate revisions)) := by
  unfold handleHello Service.greet
  simp only [hpayload, hrevisions, Value.isArray, not_true_eq_false, if_false,
    selectRevision_offered hsound]
  by_cases hone : 1 ∈ revisions
  · simp only [if_pos hone, show (1 : Int32) ≠ 0 by decide, if_false]
    refine serves_send (.helloAck 1) (emitted_of_log rfl) (.helloAck 1 htype) (.revision 1) ?_
    unfold service
    simp [hlive]
  · simp only [if_neg hone, if_true]
    exact (serves_error (emitted_of_log rfl) (by simp [htype]) (by simp) (by simp) rfl).finish

end World

/-! ## What a request is read as -/

section

variable {c : Convert} {writer : Writer c} {request : Invocation}

/-- `jsonEncode` writes a text of the map, nested as the map is. -/
structure Client.Writer.Writes (writer : Writer c) (payload : List (Bytes × Datum)) : Prop where
  isEmpty : c.isEmpty (writer.map payload) = payload.isEmpty
  text : ∃ d, IsText (c.utf8Encode (c.jsonEncode (writer.map payload))) d ∧
    d.meaning = (Datum.map payload).value ∧ d.height = (Datum.map payload).value.height

/-- The station reads no deeper, and takes no number for another: it has the integers that a double
has, and no revision becomes one that was not offered. -/
structure Client.Invocation.Sound (unrepresentable : Unrepresentable) (request : Invocation) : Prop where
  shallow : (Datum.map request.payload).value.height ≤ kMaxParseDepth
  revisions : ∀ revisions, request = .negotiate revisions →
    1 ∈ revisions ∨ ∀ n ∈ revisions, ¬ NarrowsToOne unrepresentable (.ofInt n)
  handle : ∀ handle : Int, (ascii "handle", Datum.int handle) ∈ request.payload →
    handle.natAbs < 2 ^ 53

theorem Client.Invocation.parsePayload_wire (hwrites : writer.Writes request.payload)
    (hshallow : (Datum.map request.payload).value.height ≤ kMaxParseDepth) :
    parsePayload (request.frame writer).wire = some (Datum.map request.payload).value := by
  obtain ⟨hempty, d, htext, hmeaning, hheight⟩ := hwrites
  have hbody : (request.frame writer).wire.payload = if request.payload.isEmpty then []
      else c.utf8Encode (c.jsonEncode (writer.map request.payload)) := by
    rw [← hempty]
    rfl
  unfold parsePayload
  rw [hbody]
  cases hnil : request.payload.isEmpty with
  | true =>
    rw [List.isEmpty_iff.mp hnil]
    rfl
  | false =>
    have hparse : parse (c.utf8Encode (c.jsonEncode (writer.map request.payload)))
        = some (Datum.map request.payload).value := by
      rw [← hmeaning]
      exact parse_complete htext (by rw [hheight]; exact hshallow)
    have hne : c.utf8Encode (c.jsonEncode (writer.map request.payload)) ≠ [] := by
      intro h
      have hnone : (parse []).isSome = false := by decide +kernel
      rw [← h, hparse] at hnone
      cases hnone
    simp only [Bool.false_eq_true, if_false, if_neg hne]
    exact hparse

end

namespace World

variable {σ : Type} {w : World σ} (backend : EngineBackend σ) {c : Convert} {writer : Writer c}
  {request : Invocation}

/-! ## Every request -/

/-- The number of a target is read as the target. -/
theorem readHandle_target (unrepresentable : Unrepresentable) {payload : Value} {handle : Int}
    (hfind : payload.find (ascii "handle") = some (.number (.ofInt handle)))
    (hexact : handle.natAbs < 2 ^ 53) :
    readHandle unrepresentable payload = Service.target handle := by
  have hvalue := ofInt_value handle hexact
  have htruncate : (Double.ofInt handle).truncate = handle := by
    rw [ofInt_exact handle hexact]
    apply truncate_of_int
    rw [ofInt_exact handle hexact] at hvalue
    simpa [Double.value] using hvalue
  have hread : (toInt64 unrepresentable (.ofInt handle)).toInt = handle := by
    unfold toInt64
    rw [htruncate, if_pos (by omega), Int64.toInt_ofInt_of_le (by omega) (by omega)]
  have hfinite : (Double.ofInt handle).isFinite = true := by
    rw [ofInt_exact handle hexact]
    rfl
  unfold readHandle Service.target
  simp only [hfind, Value.isNumber, Value.asInt, hfinite, hread, not_true_eq_false, if_false, if_true]
  by_cases hrange : 0 < handle ∧ handle < 2 ^ 32
  · rw [if_neg (by omega), if_pos hrange]
  · rw [if_pos (by omega), if_neg hrange]

theorem find_entries (entries : List (Bytes × Datum)) (key : Bytes) :
    (Datum.map entries).value.find key = (entries.lookup key).map Datum.value := by
  unfold Datum.value Value.find
  simp only
  induction entries with
  | nil => rfl
  | cons entry rest ih =>
    rw [Client.entriesValue, lookup_cons_if, lookup_cons_if, ih]
    split <;> rfl

theorem readHandle_entries (unrepresentable : Unrepresentable) {handle : Int}
    (rest : List (Bytes × Datum)) (hexact : handle.natAbs < 2 ^ 53) :
    readHandle unrepresentable (Datum.map ((ascii "handle", .int handle) :: rest)).value
      = Service.target handle :=
  readHandle_target unrepresentable (by rw [find_entries]; rfl) hexact

theorem operate_serves (unrepresentable : Unrepresentable) {frame : Frame} (w : World σ)
    (hlive : w.session.finished = false) (hnegotiated : w.session.negotiated = true)
    (htype : frame.type = request.type)
    (hpayload : parsePayload frame = some (Datum.map request.payload).value)
    (hsound : request.Sound unrepresentable) :
    Serves backend request.call frame w (w.handle unrepresentable backend frame).2
      (w.service.operate backend request) := by
  have hsession := transcribe_session w '<' frame.type frame.payload
  have hbackend := transcribe_backend w '<' frame.type frame.payload
  have hemitted := transcribe_emitted w '<' frame.type frame.payload
  rw [← service_congr hsession hbackend]
  rw [← hsession] at hnegotiated
  refine Serves.after ?_ hemitted hbackend
  unfold handle
  rw [if_neg (by simp [hlive])]
  generalize w.transcribe '<' frame.type frame.payload = w₁ at *
  cases request with
  | negotiate revisions =>
    simp only [htype, hnegotiated, hpayload, Invocation.type, reduceCtorEq, not_true_eq_false, if_false]
    exact serves_error (emitted_of_log rfl) (by simp [htype, Invocation.type]) (by simp [Invocation.call])
      (by simp) rfl
  | capabilities =>
    simp only [htype, hnegotiated, hpayload, Invocation.type, reduceCtorEq, not_true_eq_false, if_false]
    exact handleCapsRequest_serves backend w₁ htype
  | «open» kind name =>
    have hname : readName (Datum.map (Invocation.payload (.open kind name))).value = name.getD [] := by
      unfold readName
      rw [find_entries]
      cases name <;> rfl
    simp only [htype, hnegotiated, hpayload, Invocation.type, reduceCtorEq, not_true_eq_false, if_false]
    exact handleOpen_serves backend w₁ htype (by rw [find_entries]; rfl) hname
  | post handle action args =>
    have hargs : readArgs (Datum.map (Invocation.payload (.post handle action args))).value
        = (Datum.map (args.getD [])).value := by
      unfold readArgs
      rw [find_entries]
      cases args <;> rfl
    have hexact := hsound.handle handle (by simp [Invocation.payload])
    simp only [htype, hnegotiated, hpayload, Invocation.type, reduceCtorEq, not_true_eq_false, if_false]
    exact handlePost_serves backend unrepresentable w₁ htype
      (readHandle_entries unrepresentable _ hexact) (by rw [find_entries]; rfl) hargs
  | set handle parameter value =>
    have hexact := hsound.handle handle (by simp [Invocation.payload])
    simp only [htype, hnegotiated, hpayload, Invocation.type, reduceCtorEq, not_true_eq_false, if_false]
    exact handleSet_serves backend unrepresentable w₁ htype
      (readHandle_entries unrepresentable _ hexact) (by rw [find_entries]; rfl)
      (by rw [find_entries]; rfl)
  | close handle =>
    have hexact := hsound.handle handle (by simp [Invocation.payload])
    simp only [htype, hnegotiated, hpayload, Invocation.type, reduceCtorEq, not_true_eq_false, if_false]
    exact handleClose_serves backend unrepresentable w₁ htype
      (readHandle_entries unrepresentable _ hexact)
  | diagnostics enable identify =>
    simp only [htype, hnegotiated, hpayload, Invocation.type, reduceCtorEq, not_true_eq_false, if_false]
    refine handleDiagRequest_serves backend w₁ htype ?_ ?_
    · rw [find_entries]
      cases enable <;> cases identify <;> rfl
    · rw [find_entries]
      cases enable <;> cases identify <;> rfl
  | shutdown =>
    simp only [htype, Invocation.type, if_true]
    exact (serves_send .bye (emitted_of_log rfl) (.bye htype) (.farewell _) rfl).finish

theorem greet_serves (unrepresentable : Unrepresentable) {frame : Frame} (w : World σ)
    (hlive : w.session.finished = false) (hfirst : w.session.negotiated = false)
    (htype : frame.type = request.type)
    (hpayload : parsePayload frame = some (Datum.map request.payload).value)
    (hsound : request.Sound unrepresentable) :
    Serves backend request.call frame w (w.handle unrepresentable backend frame).2
      (w.service.greet request) := by
  have hsession := transcribe_session w '<' frame.type frame.payload
  have hbackend := transcribe_backend w '<' frame.type frame.payload
  have hemitted := transcribe_emitted w '<' frame.type frame.payload
  rw [← service_congr hsession hbackend]
  rw [← hsession] at hfirst
  have hlive₁ := hlive
  rw [← hsession] at hlive₁
  refine Serves.after ?_ hemitted hbackend
  unfold handle
  rw [if_neg (by simp [hlive])]
  generalize w.transcribe '<' frame.type frame.payload = w₁ at *
  have hpremature : ∀ call, frame.type ≠ .bye → call ≠ .shutdown →
      Serves backend call frame w₁ (w₁.sendError .badArgument).finish
        (w₁.service.ending (Service.refused .badArgument)) :=
    fun call hbye hcall => (serves_error (emitted_of_log rfl) hbye hcall (by simp) rfl).finish
  cases request with
  | negotiate revisions =>
    have hrevisions : (Datum.map (Invocation.payload (.negotiate revisions))).value.find (ascii "revisions")
        = some (.array ((Invocation.ascending revisions).map fun n => .number (.ofInt n))) := by
      rw [find_entries]
      change some (Value.array (Client.itemsValue ((Invocation.ascending revisions).map .int))) = _
      induction Invocation.ascending revisions with
      | nil => rfl
      | cons n rest ih => simpa [Client.itemsValue, Datum.value] using ih
    simp only [htype, hfirst, Invocation.type, ne_eq, reduceCtorEq, not_true_eq_false,
      Bool.false_eq_true, not_false_eq_true, if_true, if_false]
    exact handleHello_serves backend w₁ htype hlive₁ hpayload hrevisions
      (hsound.revisions revisions rfl)
  | shutdown =>
    simp only [htype, Invocation.type, if_true]
    exact (serves_send .bye (emitted_of_log rfl) (.bye htype) (.farewell _) rfl).finish
  | _ =>
    simp only [htype, hfirst, Invocation.type, ne_eq, reduceCtorEq, Bool.false_eq_true,
      not_false_eq_true, if_true, if_false]
    exact hpremature _ (by simp [htype, Invocation.type]) (by simp [Invocation.call])

/-- **One request.** In every state of a session that is not over, a request of the client makes the
session do what the service does, and is answered by a reply that yields the result. -/
theorem handle_serves (unrepresentable : Unrepresentable) (w : World σ)
    (hlive : w.session.finished = false) (hwrites : writer.Writes request.payload)
    (hsound : request.Sound unrepresentable) :
    Serves backend request.call (request.frame writer).wire w
      (w.handle unrepresentable backend (request.frame writer).wire).2
      (w.service.serve backend request) := by
  have hpayload := Invocation.parsePayload_wire hwrites hsound.shallow
  unfold Service.serve
  cases hnegotiated : w.session.negotiated with
  | false =>
    have hphase : w.service.phase = .greeting := by simp [service, hlive, hnegotiated]
    rw [hphase]
    exact greet_serves backend unrepresentable w hlive hnegotiated rfl hpayload hsound
  | true =>
    have hphase : w.service.phase = .serving := by simp [service, hlive, hnegotiated]
    rw [hphase]
    exact operate_serves backend unrepresentable w hlive hnegotiated rfl hpayload hsound

end World

end OakBarrels
