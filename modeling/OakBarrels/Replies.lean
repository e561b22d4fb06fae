import OakBarrels.Protocol.FrameProofs
import OakBarrels.SessionLaws

/-!
# What a session writes back

Each reply as the value it was made from. A frame of the host comes to one of seven replies; the
reports on capabilities and diagnostics are what the engine's operations say at that moment.
-/

open Octets Binary64

namespace OakBarrels

open Json Protocol

/-- The facts of a diagnostic report. -/
structure Report where
  diagnose : Bool
  identify : Bool
  revision : Int32
  targets : UInt32
  symbolsResolved : UInt32
  filesExamined : UInt32
  candidatesFound : UInt32
  discoveryTruncated : Bool
  bulk : Bool
  bulkBytesForwarded : UInt64
  bulkBytesDropped : UInt64
  classes : List Bytes

inductive Reply
  | bye
  | error (reason : Reason)
  | helloAck (revision : Int32)
  | capsReply (classes : List Bytes) (limits : Value) (bulk : Bool)
  | openAck (handle : UInt32)
  | status (handle : UInt32)
  | diagReply (report : Report)

namespace Reply

def type : Reply → MessageType
  | .bye => .bye
  | .error _ => .error
  | .helloAck _ => .helloAck
  | .capsReply .. => .capsReply
  | .openAck _ => .openAck
  | .status _ => .status
  | .diagReply _ => .diagReply

def classesValue (classes : List Bytes) : Value := .array (classes.map .string)

def members : Reply → List (Bytes × Value)
  | .bye => []
  | .error reason =>
    [(ascii "reason", .integer (Int64.ofNat reason.code.toNat)),
      (ascii "detail", .string (reasonSummary reason))]
  | .helloAck revision =>
    [(ascii "revision", .integer revision.toInt64), (ascii "features", .array [])]
  | .capsReply classes limits bulk =>
    [(ascii "classes", classesValue classes), (ascii "limits", limits),
      (ascii "bulk", .boolean bulk)]
  | .openAck handle => [(ascii "handle", .integer (Int64.ofNat handle.toNat))]
  | .status handle =>
    [(ascii "handle", .integer (Int64.ofNat handle.toNat)),
      (ascii "reason", .integer (Int64.ofNat Reason.ok.code.toNat))]
  | .diagReply report =>
    [(ascii "diagnose", .boolean report.diagnose), (ascii "identify", .boolean report.identify),
      (ascii "revision", .integer report.revision.toInt64),
      (ascii "targets", .integer (Int64.ofNat report.targets.toNat)),
      (ascii "symbols_resolved", .integer (Int64.ofNat report.symbolsResolved.toNat)),
      (ascii "files_examined", .integer (Int64.ofNat report.filesExamined.toNat)),
      (ascii "candidates_found", .integer (Int64.ofNat report.candidatesFound.toNat)),
      (ascii "discovery_truncated", .boolean report.discoveryTruncated),
      (ascii "bulk", .boolean report.bulk),
      (ascii "bulk_bytes_forwarded", .integer report.bulkBytesForwarded.toInt64),
      (ascii "bulk_bytes_dropped", .integer report.bulkBytesDropped.toInt64),
      (ascii "classes", classesValue report.classes)]

/-- The payload: nothing for a BYE. -/
def text (reply : Reply) : Bytes :=
  match reply with
  | .bye => []
  | _ => (Value.object reply.members).dump

def frame (reply : Reply) : Frame := ⟨reply.type, reply.text⟩

end Reply

/-! ## The text of a reply -/

/-- The members of a reply are flat but for the limits. -/
def Flat (v : Value) : Prop := v.Distinct ∧ v.height ≤ 1

@[simp] theorem flat_boolean (b : Bool) : Flat (.boolean b) := ⟨.boolean b, Nat.zero_le _⟩

@[simp] theorem flat_integer (k : Int64) : Flat (.integer k) := ⟨.number _, Nat.zero_le _⟩

@[simp] theorem flat_string (s : Bytes) : Flat (.string s) := ⟨.string s, Nat.zero_le _⟩

@[simp] theorem flat_classes (classes : List Bytes) : Flat (Reply.classesValue classes) := by
  refine ⟨.array ?_, ?_⟩
  · intro v hv
    obtain ⟨name, -, rfl⟩ := List.mem_map.mp hv
    exact .string name
  · change itemsHeight _ ≤ 1
    induction classes with
    | nil => exact Nat.zero_le _
    | cons name rest ih =>
      rw [List.map_cons, itemsHeight]
      exact Nat.max_le.mpr ⟨le_rfl, ih⟩

theorem membersHeight_le {members : List (Bytes × Value)} {n : Nat}
    (h : ∀ m ∈ members, m.2.height ≤ n) : membersHeight members ≤ n + 1 := by
  induction members with
  | nil => exact Nat.zero_le _
  | cons m rest ih =>
    rw [List.forall_mem_cons] at h
    exact Nat.max_le.mpr ⟨Nat.succ_le_succ h.1, ih h.2⟩

/-- An object of such members is read back as it was written. -/
theorem flat_object {members : List (Bytes × Value)} (hnames : (members.map Prod.fst).Nodup)
    (h : ∀ m ∈ members, Flat m.2) : (Value.object members).Distinct ∧
      (Value.object members).height ≤ 64 :=
  ⟨.object hnames fun m hm => (h m hm).1,
    (membersHeight_le fun m hm => (h m hm).2).trans (by decide)⟩

theorem classes_alike {t : Value} {classes : List Bytes}
    (h : t.Alike (Reply.classesValue classes).finiteOrNull) : t = Reply.classesValue classes := by
  cases t with
  | array items =>
    change itemsAlike items (itemsFiniteOrNull (classes.map .string)) at h
    refine congrArg Value.array ?_
    induction classes generalizing items with
    | nil =>
      cases items with
      | nil => rfl
      | cons _ _ => exact h.elim
    | cons name rest ih =>
      cases items with
      | nil => exact h.elim
      | cons item items =>
        obtain ⟨hitem, hrest⟩ := h
        rw [ih items hrest]
        cases item with
        | string s =>
          obtain rfl : s = name := hitem
          rfl
        | _ => exact hitem.elim
  | _ => exact h.elim

theorem boolean_alike {t : Value} {b : Bool} (h : t.Alike (Value.boolean b).finiteOrNull) :
    t = .boolean b := by
  cases t with
  | boolean a =>
    obtain rfl : a = b := h
    rfl
  | _ => exact h.elim

/-! ## The reports -/

section

variable {σ : Type} (backend : EngineBackend σ)

/-- What the engine says for a CAPS_REQUEST, in the order in which it is asked. -/
def capsReport : StateM σ Reply := do
  let classes ← backend.capabilityClasses
  let limits ← backend.limits
  let bulk ← backend.bulkChannel
  pure (.capsReply classes limits bulk)

def diagReport (session : Session) : StateM σ Reply := do
  let targets ← backend.targetCount
  let symbolsResolved ← backend.resolvedSymbolCount
  let filesExamined ← backend.filesExamined
  let candidatesFound ← backend.candidatesFound
  let discoveryTruncated ← backend.discoveryTruncated
  let bulk ← backend.bulkChannel
  let bulkBytesForwarded ← backend.bulkBytesForwarded
  let bulkBytesDropped ← backend.bulkBytesDropped
  let classes ← backend.capabilityClasses
  pure (.diagReply
    { diagnose := session.diagnosticsEnabled
      identify := session.identifyEnabled
      revision := session.revision
      targets, symbolsResolved, filesExamined, candidatesFound, discoveryTruncated, bulk,
      bulkBytesForwarded, bulkBytesDropped, classes })

end

namespace World

variable {σ : Type} {w w₁ : World σ}

/-- The reply to a frame, and the state its engine was asked in. -/
inductive Replies (backend : EngineBackend σ) (w : World σ) (request : Frame) : Reply → Prop
  | bye : request.type = .bye → Replies backend w request .bye
  | error (reason : Reason) : request.type ≠ .bye → reason ≠ .ok →
      Replies backend w request (.error reason)
  | helloAck (revision : Int32) : request.type = .hello → Replies backend w request (.helloAck revision)
  | capsReply : request.type = .capsRequest →
      Replies backend w request (capsReport backend w.backend).1
  | openAck (handle : UInt32) : request.type = .open → handle ≠ 0 →
      Replies backend w request (.openAck handle)
  | status (handle : UInt32) : replyType true request.type = some .status →
      Replies backend w request (.status handle)
  | diagReply (session : Session) : request.type = .diagRequest →
      Replies backend w request (diagReport backend session w.backend).1

/-- One reply is written between two worlds. -/
def Writes (backend : EngineBackend σ) (w : World σ) (request : Frame) (w' : World σ) : Prop :=
  ∃ calls reply, Emitted w w' calls [reply.frame.encoded] ∧ Replies backend w request reply

section

variable {backend : EngineBackend σ} {request : Frame} {calls : List BackendCall}

theorem writes_send (reply : Reply) (hcalls : Emitted w w₁ calls [])
    (hreply : Replies backend w request reply) :
    Writes backend w request (w₁.send reply.type reply.text) := by
  have hemitted := hcalls.trans (send_emitted w₁ reply.type reply.text)
  rw [List.append_nil, List.nil_append] at hemitted
  exact ⟨calls, reply, hemitted, hreply⟩

theorem writes_error {reason : Reason} (hcalls : Emitted w w₁ calls [])
    (hbye : request.type ≠ .bye) (hreason : reason ≠ .ok) :
    Writes backend w request (w₁.sendError reason) :=
  writes_send (.error reason) hcalls (.error reason hbye hreason)

theorem Writes.finish (h : Writes backend w request w₁) : Writes backend w request w₁.finish := h

theorem Writes.after {w' : World σ} (h : Writes backend w₁ request w')
    (hemitted : Emitted w w₁ [] []) (hbackend : w₁.backend = w.backend) :
    Writes backend w request w' := by
  obtain ⟨calls, reply, hreplied, hreply⟩ := h
  refine ⟨calls, reply, hemitted.trans hreplied, ?_⟩
  cases hreply with
  | bye htype => exact .bye htype
  | error reason hbye hreason => exact .error reason hbye hreason
  | helloAck revision htype => exact .helloAck revision htype
  | capsReply htype => exact hbackend ▸ .capsReply htype
  | openAck handle htype hne => exact .openAck handle htype hne
  | status handle htype => exact .status handle htype
  | diagReply session htype => exact hbackend ▸ .diagReply session htype

theorem writes_answer {reason : Reason} {handle : UInt32} (hcalls : Emitted w w₁ calls [])
    (htype : replyType true request.type = some .status) :
    Writes backend w request (w₁.answer handle reason) := by
  unfold answer
  split
  · rename_i hok
    subst hok
    exact writes_send (.status handle) hcalls (.status handle htype)
  · exact writes_error hcalls (ne_bye htype (by simp)) ‹_›

/-! ## Each request -/

variable (unrepresentable : Unrepresentable) (backend)

theorem handleHello_writes (htype : request.type = .hello) :
    Writes backend w request (handleHello unrepresentable request w).2 := by
  have hbye : request.type ≠ .bye := by simp [htype]
  rcases handleHello_cases unrepresentable request w with
    ⟨reason, hreason, hresult⟩ | ⟨payload, revisions, -, -, -, -, hresult⟩
  · rw [hresult]
    exact (writes_error (emitted_of_log rfl) hbye hreason).finish
  · rw [hresult]
    exact writes_send (.helloAck _) (emitted_of_log rfl) (.helloAck _ htype)

theorem handleCapsRequest_emitted (w : World σ) :
    ∃ calls, Emitted w (handleCapsRequest backend w).2 calls
      [(capsReport backend w.backend).1.frame.encoded] := by
  have hcalls := ((calling_emitted w backend.capabilityClasses .capabilityClasses).trans
    (calling_emitted _ backend.limits .limits)).trans
      (calling_emitted _ backend.bulkChannel .bulkChannel)
  exact ⟨_, hcalls.trans (send_emitted _ _ _)⟩

theorem handleCapsRequest_writes (htype : request.type = .capsRequest) :
    Writes backend w request (handleCapsRequest backend w).2 := by
  obtain ⟨calls, hemitted⟩ := handleCapsRequest_emitted backend w
  exact ⟨calls, _, hemitted, .capsReply htype⟩

theorem handleOpen_writes (htype : request.type = .open) (payload : Value) :
    Writes backend w request (handleOpen backend payload w).2 := by
  have hbye : request.type ≠ .bye := by simp [htype]
  rcases handleOpen_cases backend payload w with hresult | ⟨kind, -, hresult⟩
  · rw [hresult]
    exact writes_error (emitted_of_log rfl) hbye (by simp)
  · rcases hresult with ⟨-, reason, hreason, hresult⟩ | ⟨hnonzero, hresult⟩
    · rw [hresult]
      exact writes_error (calling_emitted ..) hbye hreason
    · rw [hresult]
      exact writes_send (.openAck _) (calling_emitted ..) (.openAck _ htype hnonzero)

variable {unrepresentable} in
theorem Targeted.writes {payload : Value} {r : Bool × World σ}
    (h : Targeted unrepresentable request payload w r)
    (htype : replyType true request.type = some .status) : Writes backend w request r.2 := by
  cases h with
  | refused => exact writes_error (emitted_of_log rfl) (ne_bye htype (by simp)) (by simp)
  | called handle operation call => exact writes_answer (calling_emitted ..) htype

theorem reportDiagnostics_emitted (w : World σ) :
    ∃ calls, Emitted w (reportDiagnostics backend w) calls
      [(diagReport backend w.session w.backend).1.frame.encoded] := by
  obtain ⟨calls, hcalls⟩ := surveyed_emitted backend w
  exact ⟨_, hcalls.trans (send_emitted _ _ _)⟩

theorem reportDiagnostics_writes (htype : request.type = .diagRequest) :
    Writes backend w request (reportDiagnostics backend w) := by
  obtain ⟨calls, hemitted⟩ := reportDiagnostics_emitted backend w
  exact ⟨calls, (diagReport backend w.session w.backend).1, hemitted, .diagReply w.session htype⟩

theorem handleDiagRequest_writes (htype : request.type = .diagRequest) (payload : Value) :
    Writes backend w request (handleDiagRequest backend payload w).2 := by
  obtain ⟨session, -, -, hresult⟩ := handleDiagRequest_cases backend payload w
  rcases hresult with hresult | hresult
  · rw [hresult]
    exact writes_error (emitted_of_log rfl) (by simp [htype]) (by simp)
  · rw [hresult]
    exact (reportDiagnostics_writes backend htype).after (emitted_of_log rfl) rfl

/-- Every frame of a session that is not over is answered by one reply, made as its type says. -/
theorem handle_writes (hlive : w.session.finished = false) (request : Frame) :
    Writes backend w request (handle unrepresentable backend request w).2 := by
  have hemitted := transcribe_emitted w '<' request.type request.payload
  have hbackend : (w.transcribe '<' request.type request.payload).backend = w.backend := by
    unfold transcribe
    split <;> rfl
  have hdispatched := handle_dispatched unrepresentable backend hlive request
  generalize w.transcribe '<' request.type request.payload = w₁ at *
  generalize w.handle unrepresentable backend request = r at *
  refine Writes.after ?_ hemitted hbackend
  cases hdispatched with
  | bye htype => exact (writes_send .bye (emitted_of_log rfl) (.bye htype)).finish
  | premature hbye => exact (writes_error (emitted_of_log rfl) hbye (by simp)).finish
  | hello htype => exact handleHello_writes backend unrepresentable htype
  | malformed hbye => exact writes_error (emitted_of_log rfl) hbye (by simp)
  | capsRequest htype => exact handleCapsRequest_writes backend htype
  | opens htype _ payload => exact handleOpen_writes backend htype payload
  | post htype _ payload =>
    exact (handlePost_targeted unrepresentable backend htype payload w₁).writes backend
      (by rw [htype]; rfl)
  | set htype _ payload =>
    exact (handleSet_targeted unrepresentable backend htype payload w₁).writes backend
      (by rw [htype]; rfl)
  | close htype _ payload =>
    exact (handleClose_targeted unrepresentable backend htype payload w₁).writes backend
      (by rw [htype]; rfl)
  | diagRequest htype _ payload => exact handleDiagRequest_writes backend htype payload
  | unsupported htype =>
    exact writes_error (emitted_of_log rfl) (ne_bye htype (by simp)) (by simp)

end

end World

end OakBarrels
