import OakBarrels.Payloads

/-!
# One reply a request

The host pairs replies with requests by their order alone. What each frame of the host comes to, over
any engine, and from it what holds of the log of a whole session.
-/

open Octets Binary64

namespace OakBarrels

open Json Protocol

namespace World

variable {σ : Type} {w w₁ w₂ : World σ}

/-! ## What a step adds to the log -/

/-- Between two worlds these calls were made and these frames were written. -/
def Emitted (w w' : World σ) (calls : List BackendCall) (frames : List Bytes) : Prop :=
  ∃ events, w'.log = w.log ++ events ∧ events.filterMap Event.call? = calls ∧
    events.filterMap Event.frame? = frames

theorem Emitted.trans {calls₁ calls₂ : List BackendCall} {frames₁ frames₂ : List Bytes}
    (h₁ : Emitted w w₁ calls₁ frames₁) (h₂ : Emitted w₁ w₂ calls₂ frames₂) :
    Emitted w w₂ (calls₁ ++ calls₂) (frames₁ ++ frames₂) := by
  obtain ⟨events₁, hlog₁, rfl, rfl⟩ := h₁
  obtain ⟨events₂, hlog₂, rfl, rfl⟩ := h₂
  refine ⟨events₁ ++ events₂, ?_, List.filterMap_append, List.filterMap_append⟩
  rw [hlog₂, hlog₁, List.append_assoc]

theorem Emitted.unique {calls calls' : List BackendCall} {frames frames' : List Bytes}
    (h : Emitted w w₁ calls frames) (h' : Emitted w w₁ calls' frames') :
    calls = calls' ∧ frames = frames' := by
  obtain ⟨events, hlog, rfl, rfl⟩ := h
  obtain ⟨events', hlog', rfl, rfl⟩ := h'
  rw [hlog] at hlog'
  obtain rfl := List.append_cancel_left hlog'
  exact ⟨rfl, rfl⟩

theorem emitted_of_log (h : w₁.log = w.log) : Emitted w w₁ [] [] := ⟨[], by simp [h], rfl, rfl⟩

theorem emitted_frame (w : World σ) (bytes : Bytes) :
    Emitted w (w.record (.frame bytes)) [] [bytes] := ⟨[.frame bytes], rfl, rfl, rfl⟩

theorem transcribe_emitted (w : World σ) (direction : Char) (type : MessageType)
    (payload : Bytes) : Emitted w (w.transcribe direction type payload) [] [] := by
  unfold transcribe
  split
  · exact ⟨[_], rfl, rfl, rfl⟩
  · exact emitted_of_log rfl

theorem send_emitted (w : World σ) (type : MessageType) (payload : Bytes) :
    Emitted w (w.send type payload) [] [encodeFrame type payload] :=
  (transcribe_emitted w '>' type payload).trans (emitted_frame _ _)

theorem calling_emitted {α : Type} (w : World σ) (operation : StateM σ α)
    (call : α → BackendCall) :
    Emitted w (w.calling operation call).2 [call (w.calling operation call).1] [] :=
  ⟨[.call (call (w.calling operation call).1)], rfl, rfl, rfl⟩

@[simp] theorem transcribe_session (w : World σ) (direction : Char) (type : MessageType)
    (payload : Bytes) : (w.transcribe direction type payload).session = w.session := by
  unfold transcribe
  split <;> rfl

@[simp] theorem send_session (w : World σ) (type : MessageType) (payload : Bytes) :
    (w.send type payload).session = w.session := by
  simp [send, record]

@[simp] theorem sendError_session (w : World σ) (reason : Reason) :
    (w.sendError reason).session = w.session := send_session _ _ _

@[simp] theorem calling_session {α : Type} (w : World σ) (operation : StateM σ α)
    (call : α → BackendCall) : (w.calling operation call).2.session = w.session := rfl

@[simp] theorem finish_session (w : World σ) :
    w.finish.session = { w.session with finished := true } := rfl

/-! ## The law of one request -/

/-- The type of the reply that a request calls for, besides ERROR. -/
def replyType (negotiated : Bool) : MessageType → Option MessageType
  | .bye => some .bye
  | .hello => if negotiated then none else some .helloAck
  | .capsRequest => if negotiated then some .capsReply else none
  | .open => if negotiated then some .openAck else none
  | .post | .set | .close => if negotiated then some .status else none
  | .diagRequest => if negotiated then some .diagReply else none
  | _ => none

def isOperation : MessageType → Bool
  | .open | .post | .set | .close => true
  | _ => false

end World

def BackendCall.answers : BackendCall → MessageType → Bool
  | .openTarget .., .open => true
  | .post .., .post => true
  | .set .., .set => true
  | .closeTarget .., .close => true
  | _, _ => false

def BackendCall.succeeded : BackendCall → Bool
  | .openTarget _ _ handle _ => handle ≠ 0
  | .post _ _ _ result => result = .ok
  | .set _ _ _ result => result = .ok
  | .closeTarget _ result => result = .ok
  | _ => false

namespace World

variable {σ : Type} {w w₁ : World σ} (unrepresentable : Unrepresentable)

/-- What the host is owed for one request, from the calls that it caused. -/
structure Lawful (negotiated : Bool) (request : Frame) (calls : List BackendCall) (reply : Frame) :
    Prop where
  type : reply.type = .error ∨ replyType negotiated request.type = some reply.type
  bye : request.type = .bye → reply.type = .bye
  error : reply.type = .error → ∃ n : Int, n ≠ 0 ∧ Carries reply.payload (ascii "reason") n
  status : reply.type = .status → ∃ payload handle, parsePayload request = some payload ∧
    readHandle unrepresentable payload = some handle ∧
    Carries reply.payload (ascii "handle") handle.toNat ∧ Carries reply.payload (ascii "reason") 0
  operation : isOperation request.type = true → (reply.type ≠ .error ↔
    ∃ call, calls.filter (fun c => c.answers request.type) = [call] ∧ call.succeeded = true)
  quiet : negotiated = false → calls = []

/-- One request handled: exactly one reply, by the law, and what becomes of the session. -/
structure Obeys (request : Frame) (w : World σ) (r : Bool × World σ) : Prop where
  intro ::
  replied : ∃ calls reply, Emitted w r.2 calls [encodeFrame reply.type reply.payload] ∧
    Lawful unrepresentable w.session.negotiated request calls reply ∧
    (r.2.session.negotiated = true ↔ w.session.negotiated = true ∨ reply.type = .helloAck)
  finished : r.1 = false ↔ r.2.session.finished = true

/-- A BYE is the one request that calls for a BYE. -/
theorem ne_bye {type : MessageType} {reply : Option MessageType} (h : replyType true type = reply)
    (hreply : reply ≠ some .bye) : type ≠ .bye := by
  rintro rfl
  exact hreply h.symm

/-! ## Where a frame goes -/

/-- A HELLO is refused, or what is selected of its revisions becomes that of the session. -/
theorem handleHello_cases (request : Frame) (w : World σ) :
    (∃ reason, reason ≠ .ok ∧
      handleHello unrepresentable request w = (false, (w.sendError reason).finish)) ∨
    ∃ payload revisions, parsePayload request = some payload ∧
      payload.find (ascii "revisions") = some revisions ∧ revisions.isArray = true ∧
      let selected := selectRevision (offeredRevisions unrepresentable revisions)
      let session := { w.session with revision := selected, negotiated := true }
      let ack := ((Value.object []).set (ascii "revision") (.integer selected.toInt64)).set
        (ascii "features") (.array [])
      selected ≠ 0 ∧ handleHello unrepresentable request w
        = (true, World.send { w with session } .helloAck ack.dump) := by
  unfold handleHello
  split
  · exact .inl ⟨.badArgument, by simp, rfl⟩
  · rename_i payload hpayload
    split
    · exact .inl ⟨.badArgument, by simp, rfl⟩
    · rename_i revisions hrevisions
      split
      · exact .inl ⟨.badArgument, by simp, rfl⟩
      · rename_i harray
        simp only
        split
        · exact .inl ⟨.noCommonRevision, by simp, rfl⟩
        · exact .inr ⟨payload, revisions, hpayload, hrevisions, by simpa using harray, ‹_›, rfl⟩

/-- An OPEN is refused, or is one call and what that gives. -/
theorem handleOpen_cases (backend : EngineBackend σ) (payload : Value) (w : World σ) :
    handleOpen backend payload w = (true, w.sendError .badArgument) ∨
    ∃ kind, payload.find (ascii "kind") = some (.string kind) ∧
      let name := readName payload
      let r := w.calling (backend.openTarget kind name .ok)
        fun result => .openTarget kind name result.1 result.2
      let ack := (Value.object []).set (ascii "handle") (.integer (Int64.ofNat r.1.1.toNat))
      (r.1.1 = 0 ∧ ∃ reason, reason ≠ .ok ∧
        handleOpen backend payload w = (true, r.2.sendError reason)) ∨
      (r.1.1 ≠ 0 ∧ handleOpen backend payload w = (true, r.2.send .openAck ack.dump)) := by
  have hfailed : ∀ reason : Reason, (if reason = .ok then .internal else reason) ≠ .ok := by
    intro reason
    split
    · simp
    · assumption
  unfold handleOpen
  split
  · exact .inl rfl
  · rename_i kind hkind
    cases kind with
    | string kind =>
      refine .inr ⟨kind, hkind, ?_⟩
      simp only [Value.isString, Value.asString, not_true_eq_false, if_false]
      by_cases hzero : (backend.openTarget kind (readName payload) .ok w.backend).1.1 = 0
      · exact .inl ⟨hzero, _, hfailed _, if_pos hzero⟩
      · exact .inr ⟨hzero, if_neg hzero⟩
    | _ => exact .inl rfl

/-- A request on a target is refused, or is one call and the answer to it. -/
inductive Targeted (request : Frame) (payload : Value) (w : World σ) : Bool × World σ → Prop
  | refused : Targeted request payload w (true, w.sendError .badArgument)
  | called (handle : UInt32) (operation : StateM σ Reason) (call : Reason → BackendCall)
      (hhandle : readHandle unrepresentable payload = some handle)
      (hanswers : ∀ reason, (call reason).answers request.type = true)
      (hsucceeded : ∀ reason, (call reason).succeeded = decide (reason = .ok)) :
      Targeted request payload w
        (true, (w.calling operation call).2.answer handle (w.calling operation call).1)

theorem handlePost_targeted (backend : EngineBackend σ) {request : Frame}
    (htype : request.type = .post) (payload : Value) (w : World σ) :
    Targeted unrepresentable request payload w (handlePost unrepresentable backend payload w) := by
  have hanswers : ∀ call : BackendCall, call.answers .post = true → call.answers request.type = true :=
    fun _ h => htype ▸ h
  unfold handlePost
  split
  · exact .refused
  · rename_i handle hhandle
    split
    · exact .refused
    · split
      · exact .refused
      · exact .called handle _ _ hhandle (fun _ => hanswers _ rfl) fun _ => rfl

theorem handleSet_targeted (backend : EngineBackend σ) {request : Frame}
    (htype : request.type = .set) (payload : Value) (w : World σ) :
    Targeted unrepresentable request payload w (handleSet unrepresentable backend payload w) := by
  have hanswers : ∀ call : BackendCall, call.answers .set = true → call.answers request.type = true :=
    fun _ h => htype ▸ h
  unfold handleSet
  split
  · exact .refused
  · rename_i handle hhandle
    split
    · exact .refused
    · split
      · exact .refused
      · split
        · exact .refused
        · split
          · exact .refused
          · simp only
            split
            · exact .refused
            · exact .called handle _ _ hhandle (fun _ => hanswers _ rfl) fun _ => rfl

theorem handleClose_targeted (backend : EngineBackend σ) {request : Frame}
    (htype : request.type = .close) (payload : Value) (w : World σ) :
    Targeted unrepresentable request payload w (handleClose unrepresentable backend payload w) := by
  have hanswers : ∀ call : BackendCall, call.answers .close = true → call.answers request.type = true :=
    fun _ h => htype ▸ h
  unfold handleClose
  split
  · exact .refused
  · exact .called _ _ _ ‹_› (fun _ => hanswers _ rfl) fun _ => rfl

/-- What the session makes of a frame that it has transcribed, one case for each branch. -/
inductive Dispatched (backend : EngineBackend σ) (request : Frame) (w : World σ) :
    Bool × World σ → Prop
  | bye (htype : request.type = .bye) :
      Dispatched backend request w (false, (w.send .bye []).finish)
  | premature (hbye : request.type ≠ .bye) (hfirst : w.session.negotiated = false)
      (hhello : request.type ≠ .hello) :
      Dispatched backend request w (false, (w.sendError .badArgument).finish)
  | hello (htype : request.type = .hello) (hfirst : w.session.negotiated = false) :
      Dispatched backend request w (handleHello unrepresentable request w)
  | malformed (hbye : request.type ≠ .bye) (hnegotiated : w.session.negotiated = true)
      (hpayload : parsePayload request = none) :
      Dispatched backend request w (true, w.sendError .badArgument)
  | capsRequest (htype : request.type = .capsRequest) (hnegotiated : w.session.negotiated = true)
      (payload : Value) (hpayload : parsePayload request = some payload) :
      Dispatched backend request w (handleCapsRequest backend w)
  | opens (htype : request.type = .open) (hnegotiated : w.session.negotiated = true)
      (payload : Value) (hpayload : parsePayload request = some payload) :
      Dispatched backend request w (handleOpen backend payload w)
  | post (htype : request.type = .post) (hnegotiated : w.session.negotiated = true)
      (payload : Value) (hpayload : parsePayload request = some payload) :
      Dispatched backend request w (handlePost unrepresentable backend payload w)
  | set (htype : request.type = .set) (hnegotiated : w.session.negotiated = true)
      (payload : Value) (hpayload : parsePayload request = some payload) :
      Dispatched backend request w (handleSet unrepresentable backend payload w)
  | close (htype : request.type = .close) (hnegotiated : w.session.negotiated = true)
      (payload : Value) (hpayload : parsePayload request = some payload) :
      Dispatched backend request w (handleClose unrepresentable backend payload w)
  | diagRequest (htype : request.type = .diagRequest) (hnegotiated : w.session.negotiated = true)
      (payload : Value) (hpayload : parsePayload request = some payload) :
      Dispatched backend request w (handleDiagRequest backend payload w)
  | unsupported (htype : replyType true request.type = none)
      (hnegotiated : w.session.negotiated = true) (payload : Value)
      (hpayload : parsePayload request = some payload) :
      Dispatched backend request w (true, w.sendError .unsupportedOperation)

theorem handle_dispatched (backend : EngineBackend σ) (hlive : w.session.finished = false)
    (request : Frame) :
    Dispatched unrepresentable backend request (w.transcribe '<' request.type request.payload)
      (w.handle unrepresentable backend request) := by
  unfold handle
  rw [if_neg (by simp [hlive])]
  generalize w.transcribe '<' request.type request.payload = w₁
  simp only
  split
  · exact .bye ‹_›
  · rename_i hbye
    split
    · rename_i hunnegotiated
      have hfirst : w₁.session.negotiated = false := by simpa using hunnegotiated
      split
      · exact .premature hbye hfirst ‹_›
      · rename_i hhello
        exact .hello (by simpa using hhello) hfirst
    · rename_i hunnegotiated
      have hnegotiated : w₁.session.negotiated = true := by simpa using hunnegotiated
      split
      · exact .malformed hbye hnegotiated ‹_›
      · rename_i payload hpayload
        cases htype : request.type with
        | bye => exact absurd htype hbye
        | capsRequest => exact .capsRequest htype hnegotiated payload hpayload
        | «open» => exact .opens htype hnegotiated payload hpayload
        | post => exact .post htype hnegotiated payload hpayload
        | set => exact .set htype hnegotiated payload hpayload
        | close => exact .close htype hnegotiated payload hpayload
        | diagRequest => exact .diagRequest htype hnegotiated payload hpayload
        | _ => exact .unsupported (by rw [htype]; rfl) hnegotiated payload hpayload

/-! ## Replies by the law -/

section

variable {unrepresentable : Unrepresentable} {request : Frame} {calls : List BackendCall}
  {negotiated : Bool}

theorem reply_obeys {reply : Frame} (hcalls : Emitted w w₁ calls [])
    (hfinished : w₁.session.finished = false)
    (hnegotiated : w₁.session.negotiated = true ↔
      w.session.negotiated = true ∨ reply.type = .helloAck)
    (hlaw : Lawful unrepresentable w.session.negotiated request calls reply) :
    Obeys unrepresentable request w (true, w₁.send reply.type reply.payload) := by
  have hemitted := hcalls.trans (send_emitted w₁ reply.type reply.payload)
  rw [List.append_nil, List.nil_append] at hemitted
  refine ⟨⟨calls, reply, hemitted, hlaw, ?_⟩, ?_⟩
  · rw [send_session]
    exact hnegotiated
  · simp [hfinished]

theorem finish_obeys {reply : Frame} (hcalls : Emitted w w₁ calls [])
    (hnegotiated : w₁.session.negotiated = true ↔
      w.session.negotiated = true ∨ reply.type = .helloAck)
    (hlaw : Lawful unrepresentable w.session.negotiated request calls reply) :
    Obeys unrepresentable request w (false, (w₁.send reply.type reply.payload).finish) := by
  have hemitted := hcalls.trans (send_emitted w₁ reply.type reply.payload)
  rw [List.append_nil, List.nil_append] at hemitted
  refine ⟨⟨calls, reply, hemitted, hlaw, ?_⟩, ?_⟩
  · rw [finish_session, send_session]
    exact hnegotiated
  · simp

/-- An ERROR is lawful for every request but BYE, after no successful operation. -/
theorem error_lawful {reason : Reason} (hbye : request.type ≠ .bye) (hreason : reason ≠ .ok)
    (hfailed : ∀ call ∈ calls, call.succeeded = false)
    (hquiet : negotiated = false → calls = []) :
    Lawful unrepresentable negotiated request calls ⟨.error, (errorPayload reason).dump⟩ where
  type := .inl rfl
  bye h := absurd h hbye
  error _ := by
    refine ⟨reason.code.toNat, ?_, errorPayload_carries reason⟩
    have hcode := code_ne_zero hreason
    rw [Ne, ← UInt32.toNat_inj] at hcode
    exact_mod_cast hcode
  status h := by cases h
  operation _ := by
    refine ⟨fun h => absurd rfl h, ?_⟩
    rintro ⟨call, hcall, hsucceeded⟩
    have hmem : call ∈ calls := by
      have : call ∈ calls.filter fun c => c.answers request.type := by simp [hcall]
      exact List.mem_of_mem_filter this
    rw [hfailed call hmem] at hsucceeded
    cases hsucceeded
  quiet := hquiet

theorem refuse_obeys {reason : Reason} (hlive : w.session.finished = false)
    (hbye : request.type ≠ .bye) (hreason : reason ≠ .ok) :
    Obeys unrepresentable request w (true, w.sendError reason) :=
  reply_obeys (emitted_of_log rfl) hlive (by simp) (error_lawful hbye hreason (by simp) (by simp))

theorem refuse_finish_obeys {reason : Reason} (hbye : request.type ≠ .bye) (hreason : reason ≠ .ok) :
    Obeys unrepresentable request w (false, (w.sendError reason).finish) :=
  finish_obeys (emitted_of_log rfl) (by simp) (error_lawful hbye hreason (by simp) (by simp))

theorem fail_obeys {reason : Reason} {call : BackendCall} (hcall : Emitted w w₁ [call] [])
    (hsession : w₁.session = w.session) (hlive : w.session.finished = false)
    (hnegotiated : w.session.negotiated = true) (hbye : request.type ≠ .bye)
    (hreason : reason ≠ .ok) (hfailed : call.succeeded = false) :
    Obeys unrepresentable request w (true, w₁.sendError reason) :=
  reply_obeys hcall (by rw [hsession]; exact hlive) (by simp [hsession])
    (error_lawful hbye hreason (by simpa using hfailed) (by simp [hnegotiated]))

/-- The one operation of a request on a handle, by what the backend reported. -/
theorem answer_obeys {reason : Reason} {call : BackendCall} {payload : Value} {handle : UInt32}
    (hcall : Emitted w w₁ [call] []) (hsession : w₁.session = w.session)
    (hlive : w.session.finished = false) (hnegotiated : w.session.negotiated = true)
    (htype : replyType true request.type = some .status) (hanswers : call.answers request.type = true)
    (hsucceeded : call.succeeded = decide (reason = .ok))
    (hpayload : parsePayload request = some payload)
    (hhandle : readHandle unrepresentable payload = some handle) :
    Obeys unrepresentable request w (true, w₁.answer handle reason) := by
  have hbye := ne_bye htype (by simp)
  unfold answer
  split
  · rename_i hok
    subst hok
    obtain ⟨hcarries, hreason⟩ := statusPayload_carries handle .ok
    have hlaw : Lawful unrepresentable w.session.negotiated request [call]
        ⟨.status, (statusPayload handle .ok).dump⟩ := by
      refine ⟨?_, ?_, ?_, ?_, ?_, ?_⟩
      · rw [hnegotiated]
        exact .inr htype
      · intro h
        exact absurd h hbye
      · intro h
        cases h
      · intro _
        exact ⟨payload, handle, hpayload, hhandle, hcarries, hreason⟩
      · intro _
        exact ⟨fun _ => ⟨call, by simp [hanswers], by simp [hsucceeded]⟩, fun _ h => by cases h⟩
      · simp [hnegotiated]
    exact reply_obeys hcall (by rw [hsession]; exact hlive) (by simp [hsession]) hlaw
  · rename_i hfailed
    exact fail_obeys hcall hsession hlive hnegotiated hbye hfailed (by simp [hsucceeded, hfailed])

theorem openAck_lawful {call : BackendCall} {payload : Bytes} (hnegotiated : negotiated = true)
    (htype : request.type = .open) (hanswers : call.answers .open = true)
    (hsucceeded : call.succeeded = true) :
    Lawful unrepresentable negotiated request [call] ⟨.openAck, payload⟩ where
  type := .inr (by rw [htype, hnegotiated]; rfl)
  bye h := by
    rw [htype] at h
    cases h
  error h := by cases h
  status h := by cases h
  operation _ := by
    refine ⟨fun _ => ⟨call, ?_, hsucceeded⟩, fun _ h => by cases h⟩
    simp [htype, hanswers]
  quiet h := by
    rw [hnegotiated] at h
    cases h

/-- A reply that is not about an operation, of the type that its request calls for. -/
theorem report_obeys {type : MessageType} {payload : Bytes} (hcalls : Emitted w w₁ calls [])
    (hfinished : w₁.session.finished = false)
    (hnegotiated : w₁.session.negotiated = true ↔ w.session.negotiated = true ∨ type = .helloAck)
    (htype : replyType w.session.negotiated request.type = some type)
    (hoperation : isOperation request.type = false) (hreport : type ≠ .error ∧ type ≠ .status)
    (hquiet : w.session.negotiated = false → calls = []) :
    Obeys unrepresentable request w (true, w₁.send type payload) := by
  have hlaw : Lawful unrepresentable w.session.negotiated request calls ⟨type, payload⟩ := by
    refine ⟨.inr htype, ?_, fun h => absurd h hreport.1, fun h => absurd h hreport.2, ?_, hquiet⟩
    · intro h
      rw [h] at htype
      exact (Option.some.inj htype).symm
    · intro h
      rw [hoperation] at h
      cases h
  exact reply_obeys hcalls hfinished hnegotiated hlaw

/-- The law looks at the session only for whether it is negotiated. -/
theorem Obeys.of_session {r : Bool × World σ} (h : Obeys unrepresentable request w₁ r)
    (hnegotiated : w.session.negotiated = true) (hsame : w₁.session.negotiated = true)
    (hlog : w₁.log = w.log) : Obeys unrepresentable request w r := by
  obtain ⟨⟨calls, reply, hemitted, hlaw, hafter⟩, hover⟩ := h
  rw [hsame] at hlaw hafter
  refine ⟨⟨calls, reply, (emitted_of_log hlog).trans hemitted, ?_, ?_⟩, hover⟩
  · rw [hnegotiated]
    exact hlaw
  · rw [hnegotiated]
    exact hafter

/-! ## Each request -/

variable (backend : EngineBackend σ)

theorem handleOpen_obeys (hlive : w.session.finished = false)
    (hnegotiated : w.session.negotiated = true) (htype : request.type = .open) (payload : Value) :
    Obeys unrepresentable request w (handleOpen backend payload w) := by
  have hbye : request.type ≠ .bye := by simp [htype]
  rcases handleOpen_cases backend payload w with hresult | ⟨kind, -, hresult⟩
  · rw [hresult]
    exact refuse_obeys hlive hbye (by simp)
  · have hcall := calling_emitted w (backend.openTarget kind (readName payload) .ok)
      fun result => .openTarget kind (readName payload) result.1 result.2
    rcases hresult with ⟨hzero, reason, hreason, hresult⟩ | ⟨hnonzero, hresult⟩
    · rw [hresult]
      exact fail_obeys hcall rfl hlive hnegotiated hbye hreason
        (by simp [BackendCall.succeeded, hzero])
    · rw [hresult]
      refine reply_obeys hcall hlive ?_ (openAck_lawful hnegotiated htype rfl ?_)
      · simp [calling_session]
      · simpa [BackendCall.succeeded] using hnonzero

theorem Targeted.obeys {payload : Value} {r : Bool × World σ}
    (h : Targeted unrepresentable request payload w r) (hlive : w.session.finished = false)
    (hnegotiated : w.session.negotiated = true)
    (htype : replyType true request.type = some .status)
    (hpayload : parsePayload request = some payload) : Obeys unrepresentable request w r := by
  cases h with
  | refused => exact refuse_obeys hlive (ne_bye htype (by simp)) (by simp)
  | called handle operation call hhandle hanswers hsucceeded =>
    exact answer_obeys (calling_emitted w operation call) rfl hlive hnegotiated htype (hanswers _)
      (hsucceeded _) hpayload hhandle

theorem handleCapsRequest_obeys (hlive : w.session.finished = false)
    (hnegotiated : w.session.negotiated = true) (htype : request.type = .capsRequest) :
    Obeys unrepresentable request w (handleCapsRequest backend w) := by
  have hcalls := ((calling_emitted w backend.capabilityClasses .capabilityClasses).trans
    (calling_emitted _ backend.limits .limits)).trans
      (calling_emitted _ backend.bulkChannel .bulkChannel)
  have hkept : w.session.negotiated = true ↔
      w.session.negotiated = true ∨ MessageType.capsReply = .helloAck := by simp
  refine report_obeys hcalls hlive hkept ?_ (by simp [htype, isOperation]) (by simp)
    (by simp [hnegotiated])
  rw [hnegotiated, htype]
  rfl

/-- What a report is made of, asked for one thing after the other. -/
def surveyed (w : World σ) : World σ :=
  let w := (w.calling backend.targetCount .targetCount).2
  let w := (w.calling backend.resolvedSymbolCount .resolvedSymbolCount).2
  let w := (w.calling backend.filesExamined .filesExamined).2
  let w := (w.calling backend.candidatesFound .candidatesFound).2
  let w := (w.calling backend.discoveryTruncated .discoveryTruncated).2
  let w := (w.calling backend.bulkChannel .bulkChannel).2
  let w := (w.calling backend.bulkBytesForwarded .bulkBytesForwarded).2
  let w := (w.calling backend.bulkBytesDropped .bulkBytesDropped).2
  (w.calling backend.capabilityClasses .capabilityClasses).2

/-- What holds over every call, and over one step after another, holds over them all. -/
theorem surveyed_keeps {P : World σ → World σ → Prop} (w : World σ)
    (hcalling : ∀ {α : Type} (w : World σ) (operation : StateM σ α) (call : α → BackendCall),
      P w (w.calling operation call).2)
    (htrans : ∀ {w₁ w₂ w₃ : World σ}, P w₁ w₂ → P w₂ w₃ → P w₁ w₃) : P w (surveyed backend w) := by
  unfold surveyed
  refine htrans ?_ (hcalling _ _ _)
  refine htrans ?_ (hcalling _ _ _)
  refine htrans ?_ (hcalling _ _ _)
  refine htrans ?_ (hcalling _ _ _)
  refine htrans ?_ (hcalling _ _ _)
  refine htrans ?_ (hcalling _ _ _)
  refine htrans ?_ (hcalling _ _ _)
  refine htrans ?_ (hcalling _ _ _)
  exact hcalling w _ _

theorem surveyed_emitted (w : World σ) : ∃ calls, Emitted w (surveyed backend w) calls [] := by
  refine surveyed_keeps backend (P := fun w w' => ∃ calls, Emitted w w' calls []) w ?_ ?_
  · intro _ w operation call
    exact ⟨_, calling_emitted w operation call⟩
  · rintro _ _ _ ⟨calls, h⟩ ⟨calls', h'⟩
    exact ⟨_, h.trans h'⟩

theorem reportDiagnostics_obeys (hlive : w.session.finished = false)
    (hnegotiated : w.session.negotiated = true) (htype : request.type = .diagRequest) :
    Obeys unrepresentable request w (true, reportDiagnostics backend w) := by
  obtain ⟨calls, hcalls⟩ := surveyed_emitted backend w
  have hkept : w.session.negotiated = true ↔
      w.session.negotiated = true ∨ MessageType.diagReply = .helloAck := by simp
  refine report_obeys hcalls hlive hkept ?_ (by simp [htype, isOperation]) (by simp)
    (by simp [hnegotiated])
  rw [hnegotiated, htype]
  rfl

theorem switchDiagnostics_keeps (enable : Option Value) (session : Session) :
    (switchDiagnostics enable session).finished = session.finished ∧
      (switchDiagnostics enable session).negotiated = session.negotiated := by
  unfold switchDiagnostics
  split
  · simp
  · split
    · simp only
      split <;> simp
    · simp

/-- With its switches set, a DIAG_REQUEST is refused or reported. -/
theorem handleDiagRequest_cases (payload : Value) (w : World σ) :
    ∃ session, session.finished = w.session.finished ∧ session.negotiated = w.session.negotiated ∧
      (handleDiagRequest backend payload w = (true, World.sendError { w with session } .diagDisabled) ∨
        handleDiagRequest backend payload w
          = (true, reportDiagnostics backend { w with session })) := by
  obtain ⟨hfinished, hnegotiated⟩ := switchDiagnostics_keeps (payload.find (ascii "enable")) w.session
  unfold handleDiagRequest
  simp only
  generalize ((payload.find (ascii "identify")).map fun v => v.isBool && v.asBool false).getD false
    = identifying
  cases identifying with
  | false =>
    simp only [Bool.false_eq_true, false_and, if_false]
    split
    · exact ⟨_, hfinished, hnegotiated, .inl rfl⟩
    · exact ⟨_, hfinished, hnegotiated, .inr rfl⟩
  | true =>
    simp only [if_true]
    split
    · exact ⟨_, hfinished, hnegotiated, .inl rfl⟩
    · let session := { switchDiagnostics (payload.find (ascii "enable")) w.session with
        identifyEnabled := true }
      split
      · exact ⟨session, hfinished, hnegotiated, .inl rfl⟩
      · exact ⟨session, hfinished, hnegotiated, .inr rfl⟩

theorem handleDiagRequest_obeys (hlive : w.session.finished = false)
    (hnegotiated : w.session.negotiated = true) (htype : request.type = .diagRequest)
    (payload : Value) : Obeys unrepresentable request w (handleDiagRequest backend payload w) := by
  have hbye : request.type ≠ .bye := by simp [htype]
  obtain ⟨session, hfinished, hkept, hresult⟩ := handleDiagRequest_cases backend payload w
  rw [hlive] at hfinished
  rw [hnegotiated] at hkept
  rcases hresult with hresult | hresult
  · rw [hresult]
    have hrefused := @refuse_obeys σ { w with session } unrepresentable request .diagDisabled
      hfinished hbye (by simp)
    exact hrefused.of_session hnegotiated hkept rfl
  · rw [hresult]
    have hreported := @reportDiagnostics_obeys σ { w with session } unrepresentable request backend
      hfinished hkept htype
    exact hreported.of_session hnegotiated hkept rfl

theorem handleHello_obeys (hlive : w.session.finished = false)
    (hnegotiated : w.session.negotiated = false) (htype : request.type = .hello) :
    Obeys unrepresentable request w (handleHello unrepresentable request w) := by
  have hbye : request.type ≠ .bye := by simp [htype]
  rcases handleHello_cases unrepresentable request w with
    ⟨reason, hreason, hresult⟩ | ⟨payload, revisions, -, -, -, -, hresult⟩
  · rw [hresult]
    exact refuse_finish_obeys hbye hreason
  · rw [hresult]
    refine report_obeys (emitted_of_log rfl) hlive (by simp) ?_
      (by simp [htype, isOperation]) (by simp) (by simp)
    rw [hnegotiated, htype]
    rfl

theorem Obeys.after {r : Bool × World σ} (h : Obeys unrepresentable request w₁ r)
    (hemitted : Emitted w w₁ [] []) (hsession : w₁.session = w.session) :
    Obeys unrepresentable request w r := by
  obtain ⟨⟨calls, reply, hreplied, hlaw, hafter⟩, hover⟩ := h
  rw [hsession] at hlaw hafter
  exact ⟨⟨calls, reply, hemitted.trans hreplied, hlaw, hafter⟩, hover⟩

theorem bye_obeys (hbye : request.type = .bye) :
    Obeys unrepresentable request w (false, (w.send .bye []).finish) := by
  have hlaw : Lawful unrepresentable w.session.negotiated request [] ⟨.bye, []⟩ := by
    refine ⟨.inr (by rw [hbye]; rfl), fun _ => rfl, ?_, ?_, ?_, fun _ => rfl⟩
    · intro h
      cases h
    · intro h
      cases h
    · intro h
      rw [hbye] at h
      cases h
  exact finish_obeys (emitted_of_log rfl) (by simp) hlaw

/-- Every frame of a session that is not over is handled by the law. -/
theorem handle_obeys (hlive : w.session.finished = false) (request : Frame) :
    Obeys unrepresentable request w (handle unrepresentable backend request w) := by
  have hsession := transcribe_session w '<' request.type request.payload
  have hemitted := transcribe_emitted w '<' request.type request.payload
  have hdispatched := handle_dispatched unrepresentable backend hlive request
  generalize w.transcribe '<' request.type request.payload = w₁ at *
  generalize w.handle unrepresentable backend request = r at *
  have hlive₁ : w₁.session.finished = false := by rw [hsession, hlive]
  refine Obeys.after ?_ hemitted hsession
  cases hdispatched with
  | bye htype => exact bye_obeys htype
  | premature hbye => exact refuse_finish_obeys hbye (by simp)
  | hello htype hfirst => exact handleHello_obeys hlive₁ hfirst htype
  | malformed hbye => exact refuse_obeys hlive₁ hbye (by simp)
  | capsRequest htype hnegotiated => exact handleCapsRequest_obeys backend hlive₁ hnegotiated htype
  | opens htype hnegotiated payload =>
    exact handleOpen_obeys backend hlive₁ hnegotiated htype payload
  | post htype hnegotiated payload hpayload =>
    exact (handlePost_targeted unrepresentable backend htype payload w₁).obeys hlive₁ hnegotiated
      (by rw [htype]; rfl) hpayload
  | set htype hnegotiated payload hpayload =>
    exact (handleSet_targeted unrepresentable backend htype payload w₁).obeys hlive₁ hnegotiated
      (by rw [htype]; rfl) hpayload
  | close htype hnegotiated payload hpayload =>
    exact (handleClose_targeted unrepresentable backend htype payload w₁).obeys hlive₁ hnegotiated
      (by rw [htype]; rfl) hpayload
  | diagRequest htype hnegotiated payload =>
    exact handleDiagRequest_obeys backend hlive₁ hnegotiated htype payload
  | unsupported htype => exact refuse_obeys hlive₁ (ne_bye htype (by simp)) (by simp)

theorem handle_finished (hover : w.session.finished = true) (request : Frame) :
    handle unrepresentable backend request w = (false, w) := by
  unfold handle
  rw [if_pos hover]

end

/-! ## Whole sessions -/

def step (unrepresentable : Unrepresentable) (backend : EngineBackend σ) (w : World σ)
    (frame : Frame) : World σ × Bool :=
  ((w.handle unrepresentable backend frame).2, (w.handle unrepresentable backend frame).1)

def isAck (bytes : Bytes) : Bool := bytes[kHeaderBytes]? = some MessageType.helloAck.code

def acks (w : World σ) : Nat := (w.log.filterMap Event.frame?).countP isAck

/-- No call on the backend comes before a HELLO_ACK. -/
def QuietBeforeAck (w : World σ) : Prop :=
  ∀ before call after, w.log = before ++ .call call :: after →
    ∃ bytes, .frame bytes ∈ before ∧ isAck bytes = true

theorem isAck_encodeFrame (type : MessageType) (payload : Bytes) :
    isAck (encodeFrame type payload) = decide (type = .helloAck) := by
  have hbyte : (encodeFrame type payload)[kHeaderBytes]? = some type.code := by
    simp [encodeFrame, littleEndian, kHeaderBytes]
  unfold isAck
  rw [hbyte]
  cases type <;> decide

/-- A HELLO_ACK was written exactly when the session is negotiated, and nothing was asked of the
backend before it. -/
structure Negotiation (w : World σ) : Prop where
  acks_eq : w.acks = if w.session.negotiated then 1 else 0
  quiet : w.session.negotiated = false → w.log.filterMap Event.call? = []
  quiet_before : w.QuietBeforeAck

theorem fresh_negotiation (backend : σ) (transcript : Bool) :
    Negotiation (fresh backend transcript) :=
  ⟨rfl, fun _ => rfl, fun before _ _ h => by cases before <;> cases h⟩

theorem ack_mem (h : 0 < w.acks) : ∃ bytes, .frame bytes ∈ w.log ∧ isAck bytes = true := by
  obtain ⟨bytes, hbytes, hisack⟩ := List.countP_pos_iff.mp h
  obtain ⟨event, hevent, hframe⟩ := List.mem_filterMap.mp hbytes
  cases event with
  | frame b =>
    cases hframe
    exact ⟨_, hevent, hisack⟩
  | _ => cases hframe

/-- Once a HELLO_ACK was written, what is appended keeps the order. -/
theorem quietBeforeAck_append {events : List Event} (h : w.QuietBeforeAck)
    (hack : 0 < w.acks) (hlog : w₁.log = w.log ++ events) : w₁.QuietBeforeAck := by
  obtain ⟨bytes, hbytes, hisack⟩ := ack_mem hack
  intro before call after hsplit
  rw [hlog] at hsplit
  rcases List.append_eq_append_iff.mp hsplit with ⟨rest, hbefore, -⟩ | ⟨rest, hlog', hrest⟩
  · exact ⟨bytes, by rw [hbefore]; simp [hbytes], hisack⟩
  · cases rest with
    | nil =>
      rw [List.append_nil] at hlog'
      exact ⟨bytes, hlog' ▸ hbytes, hisack⟩
    | cons event rest =>
      simp only [List.cons_append, List.cons.injEq] at hrest
      obtain ⟨rfl, -⟩ := hrest
      exact h before call rest hlog'

theorem quietBeforeAck_of_no_calls (h : w.log.filterMap Event.call? = []) : w.QuietBeforeAck := by
  intro before call after hlog
  rw [hlog] at h
  simp [Event.call?] at h

/-- One frame handled by the law keeps the order of the negotiation. -/
theorem Obeys.negotiation {unrepresentable : Unrepresentable} {request : Frame}
    {r : Bool × World σ} (h : Obeys unrepresentable request w r) (hw : w.Negotiation) :
    r.2.Negotiation := by
  obtain ⟨⟨calls, reply, ⟨events, hlog, hcalls, hframes⟩, hlaw, hafter⟩, -⟩ := h
  have hacks : r.2.acks = w.acks + if reply.type = .helloAck then 1 else 0 := by
    unfold acks
    rw [hlog, List.filterMap_append, List.countP_append, hframes]
    simp [List.countP_cons, isAck_encodeFrame]
  cases hnegotiated : w.session.negotiated with
  | false =>
    have hnone : r.2.log.filterMap Event.call? = [] := by
      rw [hlog, List.filterMap_append, hcalls, hw.quiet hnegotiated, hlaw.quiet hnegotiated]
      rfl
    refine ⟨?_, fun _ => hnone, quietBeforeAck_of_no_calls hnone⟩
    have hbefore := hw.acks_eq
    simp only [hnegotiated, Bool.false_eq_true, if_false, false_or] at hbefore hafter
    rw [hacks, hbefore]
    simp [hafter]
  | true =>
    have hbefore := hw.acks_eq
    simp only [hnegotiated, if_true, true_or, iff_true] at hbefore hafter
    have hother : reply.type ≠ .helloAck := by
      intro hack
      rcases hlaw.type with htype | htype
      · rw [hack] at htype
        cases htype
      · rw [hnegotiated, hack] at htype
        cases hrequest : request.type <;> rw [hrequest] at htype <;> cases htype
    refine ⟨?_, ?_, quietBeforeAck_append hw.quiet_before (by omega) hlog⟩
    · rw [hacks, hbefore]
      simp [hafter, hother]
    · intro hfalse
      rw [hafter] at hfalse
      cases hfalse

variable (backend : EngineBackend σ)

theorem step_negotiation (hw : w.Negotiation) (request : Frame) :
    (step unrepresentable backend w request).1.Negotiation := by
  unfold step
  cases hlive : w.session.finished with
  | true =>
    rw [handle_finished backend hlive]
    exact hw
  | false => exact (handle_obeys backend hlive request).negotiation hw

/-- **One reply a request.** In every session over any engine: no call on the engine before the one
HELLO_ACK; a frame of the host gets exactly one reply, of the type and after the calls that the law
says, until the session is over; and then nothing. -/
theorem session_law (s : σ) (transcript : Bool) (frames : List Frame) (request : Frame) :
    let w := Runs.final (step unrepresentable backend) (fresh s transcript) frames
    let r := w.handle unrepresentable backend request
    w.QuietBeforeAck ∧ w.acks ≤ 1 ∧
      (r.1 = false ↔ r.2.session.finished = true) ∧
      (w.session.finished = true → r.2 = w) ∧
      (w.session.finished = false → ∃ calls reply,
        Emitted w r.2 calls [encodeFrame reply.type reply.payload] ∧
          Lawful unrepresentable w.session.negotiated request calls reply) := by
  intro w r
  have hw : w.Negotiation := Runs.final_invariant _ Negotiation (fresh_negotiation s transcript)
    (fun w request hw => step_negotiation unrepresentable backend hw request) frames
  have hacks : w.acks ≤ 1 := by
    rw [hw.acks_eq]
    split <;> omega
  refine ⟨hw.quiet_before, hacks, ?_⟩
  cases hlive : w.session.finished with
  | true =>
    have hr : r = (false, w) := handle_finished backend hlive request
    rw [hr]
    simp [hlive]
  | false =>
    have hobeys : Obeys unrepresentable request w r := handle_obeys backend hlive request
    obtain ⟨calls, reply, hemitted, hlaw, -⟩ := hobeys.replied
    exact ⟨hobeys.finished, by simp, fun _ => ⟨calls, reply, hemitted, hlaw⟩⟩

end World

end OakBarrels
