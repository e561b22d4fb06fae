import OakBarrels.Json.Canonical
import OakBarrels.Link.Served
import OakBarrels.Metered
import OakBarrels.Probe.Refusals

/-!
# All that a host can learn

What of a view comes out in the replies of sessions, and that it all does: two stations write the same
for every host exactly when this is the same.
-/

open Octets Binary64 Agree

namespace OakBarrels

open Json Protocol

namespace Probe

open Discovery World

/-- Which operations an open target has, the classes and the counts. -/
@[ext]
structure Learned where
  classes : List Bytes
  bulk : Bool
  opens : Bool
  posts : Bool
  sets : Bool
  symbols : UInt32
  filesExamined : UInt32
  candidatesFound : UInt32
  truncated : Bool
deriving DecidableEq

namespace View

def supports (v : View) (role : Role) (shape : SymbolShape) : Bool :=
  (v.binding role).map (·.shape) = some shape

def learned (v : View) : Learned where
  classes := v.capabilityClasses
  bulk := v.bulk.isSome
  opens := v.profiles ≠ []
  posts := v.supports .post .name
  sets := v.supports .set .level
  symbols := UInt32.ofNat v.resolvedSymbolCount
  filesExamined := UInt32.ofNat v.filesExamined
  candidatesFound := UInt32.ofNat v.candidatesFound
  truncated := v.truncated

/-! ## Nothing else comes out -/

/-- The same limits, the same to be learned, and the same of what changes. -/
structure Alike (v u : View) : Prop where
  limits : v.limits = u.limits
  learned : v.learned = u.learned
  bulk : v.bulk = u.bulk
  nextHandle : v.nextHandle = u.nextHandle
  liveHandles : v.liveHandles = u.liveHandles

variable {v u : View}

theorem Alike.opens (h : v.Alike u) : v.profiles = [] ↔ u.profiles = [] := by
  have hopens : decide (v.profiles ≠ []) = decide (u.profiles ≠ []) := congrArg Learned.opens h.learned
  simpa using hopens

theorem alike_reads {α : Type} {f : View → α} (h : ∀ v u : View, v.Alike u → f v = f u) :
    On Alike (fun v => (f v, v)) fun v => (f v, v) :=
  fun v u halike => ⟨h v u halike, halike⟩

theorem alike_dispatch (handle : UInt32) (role : Role) (shape : SymbolShape)
    (h : ∀ v u : View, v.Alike u → v.supports role shape = u.supports role shape) :
    On Alike (dispatch handle role shape) (dispatch handle role shape) := by
  intro v u halike
  have hsupports : (v.binding role).map (·.shape) = some shape ↔
      (u.binding role).map (·.shape) = some shape := by
    simpa [supports] using h v u halike
  unfold dispatch
  by_cases hnone : v.profiles = []
  · rw [if_pos hnone, if_pos (halike.opens.mp hnone)]
    exact ⟨rfl, halike⟩
  · rw [if_neg hnone, if_neg (mt halike.opens.mpr hnone), halike.liveHandles]
    split
    · exact ⟨rfl, halike⟩
    · by_cases hshape : (v.binding role).map (·.shape) = some shape
      · rw [if_pos hshape, if_pos (hsupports.mp hshape)]
        exact ⟨rfl, halike⟩
      · rw [if_neg hshape, if_neg (mt hsupports.mpr hshape)]
        exact ⟨rfl, halike⟩

theorem alike_open : On Alike openTarget openTarget := by
  intro v u halike
  unfold openTarget
  by_cases hnone : v.profiles = []
  · rw [if_pos hnone, if_pos (halike.opens.mp hnone)]
    exact ⟨rfl, halike⟩
  · rw [if_neg hnone, if_neg (mt halike.opens.mpr hnone)]
    obtain ⟨hlimits, hlearned, hbulk, hnext, hlive⟩ := halike
    refine ⟨by rw [hnext], hlimits, hlearned, hbulk, ?_, ?_⟩
    · rw [hnext]
    · rw [hnext, hlive]

theorem alike_close (handle : UInt32) : On Alike (closeTarget handle) (closeTarget handle) := by
  intro v u halike
  obtain ⟨hlimits, hlearned, hbulk, hnext, hlive⟩ := halike
  refine ⟨rfl, hlimits, hlearned, hbulk, hnext, ?_⟩
  unfold closeTarget
  rw [hlive]

/-- Views that are alike answer alike. -/
theorem alike_simulates : Simulates backend backend Alike where
  capabilityClasses := alike_reads fun v u h => congrArg Learned.classes h.learned
  limits := alike_reads fun v u h => by
    unfold limitsValue
    rw [h.limits]
  bulkChannel := alike_reads fun v u h => congrArg Learned.bulk h.learned
  bulkBytesForwarded := alike_reads fun v u h => by rw [h.bulk]
  bulkBytesDropped := alike_reads fun v u h => by rw [h.bulk]
  openTarget _ _ _ := alike_open
  closeTarget handle := alike_close handle
  post handle _ _ := alike_dispatch handle .post .name fun v u h => congrArg Learned.posts h.learned
  set handle _ _ := alike_dispatch handle .set .level fun v u h => congrArg Learned.sets h.learned
  resolvedSymbolCount := alike_reads fun v u h => congrArg Learned.symbols h.learned
  targetCount := alike_reads fun v u h => by rw [h.liveHandles]
  filesExamined := alike_reads fun v u h => congrArg Learned.filesExamined h.learned
  candidatesFound := alike_reads fun v u h => congrArg Learned.candidatesFound h.learned
  discoveryTruncated := alike_reads fun v u h => congrArg Learned.truncated h.learned

end View

/-! ## All of it comes out -/

/-- A reply refuses a call exactly when the call is refused. -/
theorem yields_error {call : Client.Call} {reply : Reply} {result : Client.Result}
    (h : Yields call reply result) (hcall : call ≠ .shutdown) :
    reply.type = .error ↔ ∃ reason, result = Service.refused reason := by
  cases h with
  | farewell => exact absurd rfl hcall
  | error _ reason => simp [Reply.type, Service.refused]
  | _ => simp [Reply.type, Service.refused]

theorem answered_refused (reason : Reason) :
    (∃ reason', Service.answered reason = Service.refused reason') ↔ reason ≠ .ok := by
  unfold Service.answered
  split
  · simp_all [Service.refused]
  · simp_all

theorem opened_refused (handle : UInt32) (reason : Reason) :
    (∃ reason', Service.opened handle reason = Service.refused reason') ↔ handle = 0 := by
  unfold Service.opened
  split
  · simp_all
  · simp_all [Service.refused]

section

variable {unrepresentable : Unrepresentable} {w : World View}

/-- A request asked of a session over a view. -/
abbrev after (unrepresentable : Unrepresentable) (w : World View) (frame : Frame) : World View :=
  (w.handle unrepresentable View.backend frame).2

theorem emitted_replies {w' : World View} {calls : List BackendCall} {frames : List Bytes}
    (h : Emitted w w' calls frames) : w'.replies = w.replies ++ frames := by
  obtain ⟨events, hlog, -, hframes⟩ := h
  rw [replies, hlog, List.filterMap_append, hframes]
  rfl

/-- One more reply on each side. -/
theorem last_alike {replies replies' : List Bytes} {bytes bytes' : Bytes}
    (h : replies ++ [bytes] = replies' ++ [bytes']) : bytes = bytes' :=
  List.singleton_injective (List.append_inj' h rfl).2

theorem serving_iff : w.service.phase = .serving ↔
    w.session.finished = false ∧ w.session.negotiated = true := by
  unfold service
  cases w.session.finished <;> cases w.session.negotiated <;> simp

theorem openFrame_serves (hserving : w.service.phase = .serving) :
    Serves View.backend .open openFrame w (after unrepresentable w openFrame)
      (w.service.asking View.openTarget fun r => Service.opened r.1 r.2) := by
  obtain ⟨hlive, hnegotiated⟩ := serving_iff.mp hserving
  obtain ⟨name, -, -, htype, payload, hpayload, hkind, hname⟩ := openFrame_opens hlive hnegotiated
  have hserves := handleOpen_serves View.backend
    (w.transcribe '<' openFrame.type openFrame.payload) htype hkind hname
  have hbackend := transcribe_backend w '<' openFrame.type openFrame.payload
  rw [service_congr (transcribe_session ..) hbackend] at hserves
  unfold after
  rw [handle_open hlive hnegotiated htype hpayload]
  exact hserves.after (transcribe_emitted ..) hbackend

def postOne : Frame := ⟨.post, ascii "\x7b\"handle\":1,\"action\":\"\"\x7d"⟩

def postedOne : Value :=
  .object [(ascii "handle", .number (.ofInt 1)), (ascii "action", .string [])]

def setOne : Frame := ⟨.set, ascii "\x7b\"handle\":1,\"param\":\"\",\"value\":1\x7d"⟩

def settingOne : Value := .object [(ascii "handle", .number (.ofInt 1)), (ascii "param", .string []),
  (ascii "value", .number (.ofInt 1))]

theorem postOne_payload : parsePayload postOne = some postedOne := by
  with_unfolding_all rfl

theorem setOne_payload : parsePayload setOne = some settingOne := by
  with_unfolding_all rfl

theorem postOne_serves (hserving : w.service.phase = .serving) :
    Serves View.backend .post postOne w (after unrepresentable w postOne)
      (w.service.onTarget 1 fun handle => View.dispatch handle .post .name) := by
  obtain ⟨hlive, hnegotiated⟩ := serving_iff.mp hserving
  have htarget : readHandle unrepresentable postedOne = Service.target 1 :=
    readHandle_target unrepresentable rfl (by decide)
  have hserves := handlePost_serves View.backend unrepresentable
    (w.transcribe '<' postOne.type postOne.payload) (show postOne.type = .post from rfl) htarget rfl rfl
  have hbackend := transcribe_backend w '<' postOne.type postOne.payload
  rw [service_congr (transcribe_session ..) hbackend] at hserves
  have hhandle : w.handle unrepresentable View.backend postOne = handlePost unrepresentable View.backend
      postedOne (w.transcribe '<' postOne.type postOne.payload) := by
    unfold World.handle
    rw [if_neg (by simp [hlive])]
    simp [postOne_payload, hnegotiated, show postOne.type = .post from rfl]
  unfold after
  rw [hhandle]
  exact hserves.after (transcribe_emitted ..) hbackend

theorem setOne_serves (hserving : w.service.phase = .serving) :
    Serves View.backend .set setOne w (after unrepresentable w setOne)
      (w.service.onTarget 1 fun handle => View.dispatch handle .set .level) := by
  obtain ⟨hlive, hnegotiated⟩ := serving_iff.mp hserving
  have htarget : readHandle unrepresentable settingOne = Service.target 1 :=
    readHandle_target unrepresentable rfl (by decide)
  have hserves := handleSet_serves View.backend unrepresentable
    (w.transcribe '<' setOne.type setOne.payload) (show setOne.type = .set from rfl) htarget
    (show settingOne.find (ascii "param") = some (.string []) from rfl)
    (show settingOne.find (ascii "value") = some (.number (.ofInt 1)) from rfl)
  have hunit : Service.inUnit (.ofInt 1) = true := by
    unfold Service.inUnit
    rw [ofInt_value 1 (by decide)]
    decide
  rw [if_pos hunit] at hserves
  have hbackend := transcribe_backend w '<' setOne.type setOne.payload
  rw [service_congr (transcribe_session ..) hbackend] at hserves
  have hhandle : w.handle unrepresentable View.backend setOne = handleSet unrepresentable View.backend
      settingOne (w.transcribe '<' setOne.type setOne.payload) := by
    unfold World.handle
    rw [if_neg (by simp [hlive])]
    simp [setOne_payload, hnegotiated, show setOne.type = .set from rfl]
  unfold after
  rw [hhandle]
  exact hserves.after (transcribe_emitted ..) hbackend

/-! ### Two sessions -/

variable {w' : World View} {frame : Frame} {call : Client.Call} {s s' : Service View}
  {result result' : Client.Result}

/-- Where two sessions write the same, the same calls are refused. -/
theorem refused_alike (h : Serves View.backend call frame w (after unrepresentable w frame) (s, result))
    (h' : Serves View.backend call frame w' (after unrepresentable w' frame) (s', result'))
    (hcall : call ≠ .shutdown)
    (hwritten : (after unrepresentable w frame).replies = (after unrepresentable w' frame).replies) :
    (∃ reason, result = Service.refused reason) ↔ ∃ reason, result' = Service.refused reason := by
  obtain ⟨calls, reply, hemitted, -, hyields⟩ := h.replied
  obtain ⟨calls', reply', hemitted', -, hyields'⟩ := h'.replied
  rw [emitted_replies hemitted, emitted_replies hemitted'] at hwritten
  have hframe : encodeFrame reply.type reply.text = encodeFrame reply'.type reply'.text :=
    last_alike hwritten
  rw [← yields_error hyields hcall, ← yields_error hyields' hcall, encodeFrame_type hframe]

def enabling : Frame := ⟨.diagRequest, ascii "\x7b\"enable\":true\x7d"⟩

theorem enabling_payload : parsePayload enabling = some (.object [(ascii "enable", .boolean true)]) := by
  with_unfolding_all rfl

/-- What a view has to report. -/
def View.report (v : View) (session : Session) : Report where
  diagnose := session.diagnosticsEnabled
  identify := session.identifyEnabled
  revision := session.revision
  targets := UInt32.ofNat v.liveHandles.length
  symbolsResolved := UInt32.ofNat v.resolvedSymbolCount
  filesExamined := UInt32.ofNat v.filesExamined
  candidatesFound := UInt32.ofNat v.candidatesFound
  discoveryTruncated := v.truncated
  bulk := v.bulk.isSome
  bulkBytesForwarded := (v.bulk.map (·.bytesForwarded)).getD 0
  bulkBytesDropped := (v.bulk.map (·.bytesDropped)).getD 0
  classes := v.capabilityClasses

theorem diagReport_view (session : Session) (v : View) :
    (diagReport View.backend session v).1 = .diagReply (v.report session) := rfl

theorem enabling_writes (hserving : w.service.phase = .serving) :
    ∃ session calls, Emitted w (after unrepresentable w enabling) calls
      [encodeFrame .diagReply (Reply.diagReply (w.backend.report session)).text] := by
  obtain ⟨hlive, hnegotiated⟩ := serving_iff.mp hserving
  have hnegated : ¬ Refused w.session (.object [(ascii "enable", .boolean true)]) := by
    rintro ⟨hdisable, -⟩
    exact Bool.false_ne_true hdisable.symm
  obtain ⟨calls, hemitted⟩ := handle_diag unrepresentable View.backend hlive hnegotiated
    (show enabling.type = .diagRequest from rfl) enabling_payload hnegated
  rw [diagReport_view] at hemitted
  exact ⟨_, calls, hemitted⟩

end

/-! ### A report -/

theorem integer_alike {n m : UInt32} (h : (Value.integer (Int64.ofNat n.toNat)).finiteOrNull.Alike
    (Value.integer (Int64.ofNat m.toNat)).finiteOrNull) : n = m := by
  have hint : ∀ k : UInt32, (Int64.ofNat k.toNat).toInt = (k.toNat : Int) := by
    intro k
    have hk := k.toNat_lt
    exact Int64.toInt_ofNat_of_lt (by omega)
  have hvalue : ∀ k : UInt32, (Double.ofInt (k.toNat : Int)).value = some (k.toNat : ℚ) := by
    intro k
    have hk := k.toNat_lt
    have h := ofInt_value (k.toNat : Int) (by omega)
    simpa using h
  have hfinite : ∀ k : UInt32, (Value.integer (Int64.ofNat k.toNat)).finiteOrNull
      = .number (.ofInt (k.toNat : Int)) := by
    intro k
    unfold Value.integer Value.finiteOrNull
    rw [hint, if_pos ((isFinite_iff _).mpr ⟨_, hvalue k⟩)]
  rw [hfinite, hfinite] at h
  have hsame := value_of_beq h (hvalue m)
  rw [hvalue n, Option.some.injEq] at hsame
  exact UInt32.toNat_inj.mp (by exact_mod_cast hsame)

theorem classesValue_alike {classes classes' : List Bytes}
    (h : (Reply.classesValue classes).finiteOrNull.Alike (Reply.classesValue classes').finiteOrNull) :
    classes = classes' := by
  have hfinite : (Reply.classesValue classes).Finite :=
    .array fun v hv => by
      obtain ⟨name, -, rfl⟩ := List.mem_map.mp hv
      exact .string name
  rw [finiteOrNull_finite hfinite] at h
  have hsame := classes_alike h
  unfold Reply.classesValue at hsame
  exact List.map_injective_iff.mpr (fun _ _ => Value.string.inj) (Value.array.inj hsame)

/-- What a report says can be read from its text. -/
theorem report_text {report report' : Report}
    (h : (Reply.diagReply report).text = (Reply.diagReply report').text) :
    report.classes = report'.classes ∧ report.bulk = report'.bulk ∧
      report.symbolsResolved = report'.symbolsResolved ∧
      report.filesExamined = report'.filesExamined ∧
      report.candidatesFound = report'.candidatesFound ∧
      report.discoveryTruncated = report'.discoveryTruncated := by
  have hflat : ∀ r : Report, ∀ m ∈ (Reply.diagReply r).members, Flat m.2 := by
    intro r
    simp [Reply.members]
  have hnames : ∀ r : Report, ((Reply.diagReply r).members.map Prod.fst).Nodup := by
    intro r
    simp only [Reply.members, List.map_cons, List.map_nil]
    decide
  have hshape := fun r => flat_object (hnames r) (hflat r)
  have halike := (dump_eq_iff (hshape report).1 (hshape report').1 (hshape report).2
    (hshape report').2).mp h
  obtain ⟨-, -, -, -, -, -, -, -, -, hsymbols, -, hfiles, -, hcandidates, -, htruncated, -, hbulk, -, -,
    -, -, -, hclasses, -⟩ := halike
  exact ⟨classesValue_alike hclasses, hbulk, integer_alike hsymbols, integer_alike hfiles,
    integer_alike hcandidates, htruncated⟩

/-! ## The same replies, the same to be learned -/

/-- Whatever a host sends, the same frames come back. -/
def Indistinct {σ τ : Type} (unrepresentable : Unrepresentable) (a : EngineBackend σ)
    (b : EngineBackend τ) (s : σ) (t : τ) : Prop :=
  ∀ transcript frames,
    (Runs.final (step unrepresentable a) (fresh s transcript) frames).replies
      = (Runs.final (step unrepresentable b) (fresh t transcript) frames).replies

section

variable {unrepresentable : Unrepresentable} {v u : View}

def reached (unrepresentable : Unrepresentable) (v : View) (frames : List Frame) : World View :=
  Runs.final (step unrepresentable View.backend) (fresh v false) frames

theorem reached_concat (frames : List Frame) (frame : Frame) : reached unrepresentable v (frames ++ [frame])
    = after unrepresentable (reached unrepresentable v frames) frame :=
  Runs.final_concat _ _ _ _

theorem Indistinct.after (h : Indistinct unrepresentable View.backend View.backend v u)
    (frames : List Frame) (frame : Frame) :
    (after unrepresentable (reached unrepresentable v frames) frame).replies
      = (after unrepresentable (reached unrepresentable u frames) frame).replies := by
  rw [← reached_concat, ← reached_concat]
  exact h false (frames ++ [frame])

theorem greeted_spec : (reached unrepresentable v [helloFrame]).service.phase = .serving ∧
    (reached unrepresentable v [helloFrame]).backend = v := by
  obtain ⟨hnegotiated, hlive, hbackend⟩ :=
    helloFrame_negotiates unrepresentable View.backend v false
  have hreached := @reached_concat unrepresentable v [] helloFrame
  rw [List.nil_append] at hreached
  rw [hreached]
  exact ⟨serving_iff.mpr ⟨hlive, hnegotiated⟩, hbackend⟩

/-- The reports say the same. -/
theorem reports_told (h : Indistinct unrepresentable View.backend View.backend v u) :
    v.capabilityClasses = u.capabilityClasses ∧ v.bulk.isSome = u.bulk.isSome ∧
      UInt32.ofNat v.resolvedSymbolCount = UInt32.ofNat u.resolvedSymbolCount ∧
      UInt32.ofNat v.filesExamined = UInt32.ofNat u.filesExamined ∧
      UInt32.ofNat v.candidatesFound = UInt32.ofNat u.candidatesFound ∧ v.truncated = u.truncated := by
  obtain ⟨hserving, hbackend⟩ := @greeted_spec unrepresentable v
  obtain ⟨hserving', hbackend'⟩ := @greeted_spec unrepresentable u
  obtain ⟨session, calls, hemitted⟩ := @enabling_writes unrepresentable _ hserving
  obtain ⟨session', calls', hemitted'⟩ := @enabling_writes unrepresentable _ hserving'
  rw [hbackend] at hemitted
  rw [hbackend'] at hemitted'
  have hwritten := h.after [helloFrame] enabling
  rw [emitted_replies hemitted, emitted_replies hemitted'] at hwritten
  have hframe := last_alike hwritten
  exact report_text (encodeFrame_payload hframe)

/-- A target is opened, if that can be done. -/
theorem opened_spec : (reached unrepresentable v ([helloFrame] ++ [openFrame])).service.phase = .serving ∧
    (reached unrepresentable v ([helloFrame] ++ [openFrame])).backend = (View.openTarget v).2 := by
  obtain ⟨hserving, hbackend⟩ := @greeted_spec unrepresentable v
  have hservice := (@openFrame_serves unrepresentable _ hserving).service
  rw [reached_concat]
  refine ⟨(congrArg Service.phase hservice).trans hserving, ?_⟩
  have hengine := congrArg Service.engine hservice
  change _ = (View.openTarget (reached unrepresentable v [helloFrame]).backend).2 at hengine
  rw [hbackend] at hengine
  exact hengine

theorem opens_told (h : Indistinct unrepresentable View.backend View.backend v u)
    (hv : v.nextHandle = 1) (hu : u.nextHandle = 1) : v.profiles = [] ↔ u.profiles = [] := by
  have hopened : ∀ v : View, v.nextHandle = 1 →
      ((View.openTarget v).1.1 = 0 ↔ v.profiles = []) := by
    intro v hv
    unfold View.openTarget
    split
    · simp_all
    · simp_all
  obtain ⟨hserving, hbackend⟩ := @greeted_spec unrepresentable v
  obtain ⟨hserving', hbackend'⟩ := @greeted_spec unrepresentable u
  have hrefused := refused_alike (@openFrame_serves unrepresentable _ hserving)
    (@openFrame_serves unrepresentable _ hserving') (by simp) (h.after [helloFrame] openFrame)
  rw [opened_refused, opened_refused, service_engine, service_engine, hbackend, hbackend', hopened v hv,
    hopened u hu] at hrefused
  exact hrefused

/-- The first target has the operations that the view supports. -/
theorem dispatch_opened (hnext : v.nextHandle = 1) (hlive : v.liveHandles = []) (hopens : v.profiles ≠ [])
    (role : Role) (shape : SymbolShape) :
    (View.dispatch 1 role shape (View.openTarget v).2).1 ≠ .ok ↔ v.supports role shape = false := by
  unfold View.openTarget View.dispatch View.supports View.binding
  rw [if_neg hopens]
  simp only [hnext, hlive, List.nil_append, if_neg hopens, List.mem_singleton, not_true_eq_false,
    if_false, decide_eq_false_iff_not]
  split <;> simp_all

theorem supports_of_none (hnone : v.profiles = []) (role : Role) (shape : SymbolShape) :
    v.supports role shape = false := by
  unfold View.supports View.binding
  rw [hnone]
  rfl

/-- A request on the first target is refused on both sides or on neither. -/
theorem supports_told {role : Role} {shape : SymbolShape} {frame : Frame} {call : Client.Call}
    (hcall : call ≠ .shutdown)
    (hserves : ∀ w : World View, w.service.phase = .serving →
      Serves View.backend call frame w (after unrepresentable w frame)
        (w.service.onTarget 1 fun handle => View.dispatch handle role shape))
    (h : Indistinct unrepresentable View.backend View.backend v u)
    (hv : v.nextHandle = 1 ∧ v.liveHandles = []) (hu : u.nextHandle = 1 ∧ u.liveHandles = []) :
    v.supports role shape = u.supports role shape := by
  by_cases hnone : v.profiles = []
  · rw [supports_of_none hnone, supports_of_none ((opens_told h hv.1 hu.1).mp hnone)]
  · have hnone' := mt (opens_told h hv.1 hu.1).mpr hnone
    obtain ⟨hserving, hbackend⟩ := @opened_spec unrepresentable v
    obtain ⟨hserving', hbackend'⟩ := @opened_spec unrepresentable u
    have hrefused := refused_alike (hserves _ hserving) (hserves _ hserving') hcall
      (h.after ([helloFrame] ++ [openFrame]) frame)
    rw [answered_refused, answered_refused, service_engine, service_engine, hbackend, hbackend'] at hrefused
    have hsupports := (dispatch_opened hv.1 hv.2 hnone role shape).symm.trans
      (hrefused.trans (dispatch_opened hu.1 hu.2 hnone' role shape))
    cases hsupported : v.supports role shape <;> cases hsupported' : u.supports role shape <;> simp_all

/-- All of it comes out. -/
theorem learned_told (h : Indistinct unrepresentable View.backend View.backend v u)
    (hv : v.nextHandle = 1 ∧ v.liveHandles = []) (hu : u.nextHandle = 1 ∧ u.liveHandles = []) :
    v.learned = u.learned := by
  obtain ⟨hclasses, hbulk, hsymbols, hfiles, hcandidates, htruncated⟩ := reports_told h
  have hopens := opens_told h hv.1 hu.1
  have hposts := supports_told (by simp) (fun _ => postOne_serves) h hv hu
  have hsets := supports_told (by simp) (fun _ => setOne_serves) h hv hu
  refine Learned.ext hclasses hbulk ?_ hposts hsets hsymbols hfiles hcandidates htruncated
  simp only [View.learned, ne_eq, hopens]

end

/-! ## Two stations -/

section

variable {σ τ : Type} {unrepresentable : Unrepresentable} {a : EngineBackend σ} {b : EngineBackend τ}
  {R : σ → View → Prop} {S : τ → View → Prop} {s : σ} {t : τ} {v u : View}

theorem replies_of_simulates {T : σ → τ → Prop} (h : Simulates a b T) (hst : T s t) (transcript : Bool)
    (frames : List Frame) :
    (Runs.final (step unrepresentable a) (fresh s transcript) frames).replies
      = (Runs.final (step unrepresentable b) (fresh t transcript) frames).replies :=
  congrArg (List.filterMap Event.frame?)
    (final_alike unrepresentable h (fresh_alike hst transcript) frames).log

/-- A view before its first request, with a channel that has carried nothing. -/
structure View.Fresh (v : View) : Prop where
  nextHandle : v.nextHandle = 1
  liveHandles : v.liveHandles = []
  bulk : v.bulk = none ∨ v.bulk = some ⟨0, 0⟩

theorem View.Fresh.alike (hv : v.Fresh) (hu : u.Fresh) (hlimits : v.limits = u.limits)
    (hlearned : v.learned = u.learned) : v.Alike u := by
  have hbulk : v.bulk.isSome = u.bulk.isSome := congrArg Learned.bulk hlearned
  refine ⟨hlimits, hlearned, ?_, hv.nextHandle.trans hu.nextHandle.symm,
    hv.liveHandles.trans hu.liveHandles.symm⟩
  rcases hv.bulk with h | h <;> rcases hu.bulk with h' | h' <;> simp_all

/-- Two backends that answer as views do are told apart by what the views have to say. -/
theorem indistinct_iff (ha : Simulates a View.backend R) (hb : Simulates b View.backend S) (hs : R s v)
    (ht : S t u) (hv : v.Fresh) (hu : u.Fresh) (hlimits : v.limits = u.limits) :
    Indistinct unrepresentable a b s t ↔ v.learned = u.learned := by
  constructor
  · intro h
    refine @learned_told unrepresentable _ _ (fun transcript frames => ?_)
      ⟨hv.nextHandle, hv.liveHandles⟩ ⟨hu.nextHandle, hu.liveHandles⟩
    rw [← replies_of_simulates ha hs, h transcript frames, replies_of_simulates hb ht]
  · intro hlearned transcript frames
    rw [replies_of_simulates ha hs, replies_of_simulates hb ht]
    exact replies_of_simulates View.alike_simulates (hv.alike hu hlimits hlearned) transcript frames

theorem metered_replies {T : σ → τ → Prop} (h : Simulates a b T) (hst : T s t)
    (counters : Nat → UInt64) (transcript : Bool) (frames : List Frame) :
    (Runs.final (step unrepresentable (a.metered counters)) (fresh ⟨s, 0⟩ transcript) frames).replies
      = (Runs.final (step unrepresentable (b.metered counters)) (fresh ⟨t, 0⟩ transcript)
        frames).replies :=
  replies_of_simulates (h.metered counters)
    (show Metered.Along T (⟨s, 0⟩ : Metered σ) (⟨t, 0⟩ : Metered τ) from ⟨hst, rfl⟩) transcript frames

/-- A view whose channel is at rest counts nothing. -/
theorem View.Fresh.counters (hv : v.Fresh) (h : v.Told u) :
    (View.backend.bulkBytesForwarded u).1 = 0 ∧ (View.backend.bulkBytesDropped u).1 = 0 := by
  obtain ⟨next, live, rfl⟩ := h
  rcases hv.bulk with h | h <;> simp [View.backend, h]

/-- What it says of itself, it says over readings of zero. -/
theorem View.Fresh.unmoved_replies (hv : v.Fresh) (transcript : Bool) (frames : List Frame) :
    (Runs.final (step unrepresentable View.backend) (fresh v transcript) frames).replies
      = (Runs.final (step unrepresentable (View.backend.metered fun _ => 0)) (fresh ⟨v, 0⟩ transcript)
        frames).replies := by
  have hunmoved := (View.backend_keeps v).unmoved (fun u htold => (hv.counters htold).1)
    fun u htold => (hv.counters htold).2
  exact replies_of_simulates hunmoved
    (show Kept v.Told v (⟨v, 0⟩ : Metered View).engine from ⟨rfl, v.told_refl⟩) transcript frames

/-- Also where their channels move alike, which is all that makes a difference to the reports. -/
theorem metered_indistinct_iff (ha : Simulates a View.backend R) (hb : Simulates b View.backend S)
    (hs : R s v) (ht : S t u) (hv : v.Fresh) (hu : u.Fresh) (hlimits : v.limits = u.limits) :
    (∀ counters, Indistinct unrepresentable (a.metered counters) (b.metered counters) ⟨s, 0⟩ ⟨t, 0⟩) ↔
      v.learned = u.learned := by
  constructor
  · intro h
    refine @learned_told unrepresentable _ _ (fun transcript frames => ?_)
      ⟨hv.nextHandle, hv.liveHandles⟩ ⟨hu.nextHandle, hu.liveHandles⟩
    rw [hv.unmoved_replies, hu.unmoved_replies, ← metered_replies ha hs, ← metered_replies hb ht]
    exact h _ transcript frames
  · intro hlearned counters transcript frames
    rw [metered_replies ha hs, metered_replies hb ht]
    exact metered_replies View.alike_simulates (hv.alike hu hlimits hlearned) counters transcript frames

end

section

open ProbingBackend

variable (platform : Platform) (roots : List Bytes) (profiles : List Profile) (audioEndpoint : Bool)
  (limits : ScanLimits)

theorem create_view_limits :
    (view platform (.create roots profiles audioEndpoint limits)).limits = limits := by
  unfold view look
  rw [ensureProbed_limits]
  rfl

theorem create_fresh : (view platform (.create roots profiles audioEndpoint limits)).Fresh := by
  have hkeeps := @ensureProbed_keeps platform (.create roots profiles audioEndpoint limits)
  refine ⟨hkeeps.2, hkeeps.1, ?_⟩
  have hbulk : ∀ b : ProbingBackend, b.bulk = none →
      b.setUpBulk.bulk = none ∨ b.setUpBulk.bulk = some ⟨0, 0⟩ := by
    intro b hnone
    unfold setUpBulk
    split
    · split
      · exact .inl hnone
      · exact .inr rfl
    · exact .inl hnone
  exact hbulk _ rfl

/-- **All that a host can learn.** Two probing stations of one build write the same frames for every
host, however the counters of their channels move, exactly when the same is to be learned of them: the
classes, the counts, and whether a target can be opened and what it supports. -/
theorem probing_told_apart (unrepresentable : Unrepresentable) (platform' : Platform)
    (roots' : List Bytes) (profiles' : List Profile) (audioEndpoint' : Bool) :
    (∀ counters, Indistinct unrepresentable ((backend platform).metered counters)
        ((backend platform').metered counters) ⟨.create roots profiles audioEndpoint limits, 0⟩
        ⟨.create roots' profiles' audioEndpoint' limits, 0⟩) ↔
      (view platform (.create roots profiles audioEndpoint limits)).learned
        = (view platform' (.create roots' profiles' audioEndpoint' limits)).learned :=
  metered_indistinct_iff (view_simulates platform) (view_simulates platform') (create_shows ..)
    (create_shows ..) (create_fresh ..) (create_fresh ..)
    ((create_view_limits ..).trans (create_view_limits ..).symm)

theorem view_bulk_of_unbound (h : (bindFirstAvailable platform
      (scanForCandidates platform.lookup roots limits).candidates profiles).engine.isBound = false) :
    (view platform (.create roots profiles audioEndpoint limits)).bulk = none := by
  have hfaithful := bound_faithful platform (scanForCandidates platform.lookup roots limits).candidates
    profiles
  have hnone : (bindFirstAvailable platform (scanForCandidates platform.lookup roots limits).candidates
      profiles).engine.hasBinding .bulk = false := by
    have hprofiles := mt hfaithful.isBound.mpr (by rw [h]; exact Bool.false_ne_true)
    rw [not_not] at hprofiles
    unfold BoundEngine.hasBinding BoundEngine.bindingFor
    rw [hprofiles]
    rfl
  change (setUpBulk { (create roots profiles audioEndpoint limits) with
    scan := scanForCandidates platform.lookup roots limits
    attempt := bindFirstAvailable platform (scanForCandidates platform.lookup roots limits).candidates
      profiles
    scans := 1 }).bulk = none
  unfold setUpBulk
  simp only [hnone, Bool.and_false, Bool.false_eq_true, if_false]
  rfl

theorem create_view_scan :
    let seen := view platform (.create roots profiles audioEndpoint limits)
    let scan := scanForCandidates platform.lookup roots limits
    seen.filesExamined = scan.filesExamined ∧ seen.candidatesFound = scan.candidates.length ∧
      seen.truncated = scan.truncated := by
  have hscan : ∀ b : ProbingBackend, b.setUpBulk.scan = b.scan := by
    intro b
    unfold setUpBulk
    split
    · split <;> rfl
    · rfl
  have hseen : ((create roots profiles audioEndpoint limits).ensureProbed platform).scan
      = scanForCandidates platform.lookup roots limits := hscan _
  unfold view look
  simp only [hseen, and_self]

/-- **A station that binds nothing only discovers.** A probing station writes the same frames for
every host as one that scans the same roots and probes nothing, exactly when it binds no engine. -/
theorem discovery_told_apart (unrepresentable : Unrepresentable) :
    Indistinct unrepresentable (backend platform) (DiscoveryBackend.backend platform.lookup)
        (.create roots profiles audioEndpoint limits) (.create roots limits) ↔
      (bindFirstAvailable platform (scanForCandidates platform.lookup roots limits).candidates
        profiles).engine.isBound = false := by
  have hfaithful := (create_shows platform roots profiles audioEndpoint limits).2
  have hdiscovery : (DiscoveryBackend.view platform.lookup (.create roots limits)).Fresh :=
    ⟨rfl, rfl, .inl rfl⟩
  have hlimits : (view platform (.create roots profiles audioEndpoint limits)).limits
      = (DiscoveryBackend.view platform.lookup (.create roots limits)).limits := create_view_limits ..
  rw [indistinct_iff (view_simulates platform) (DiscoveryBackend.view_simulates platform.lookup)
    (create_shows ..) rfl (create_fresh ..) hdiscovery hlimits]
  constructor
  · intro hlearned
    have hopens := congrArg Learned.opens hlearned
    change decide ((view platform (.create roots profiles audioEndpoint limits)).profiles ≠ []) = false
      at hopens
    rw [decide_eq_false_iff_not] at hopens
    rw [← create_engine platform roots profiles audioEndpoint, ← Bool.not_eq_true, hfaithful.isBound]
    exact hopens
  · intro hunbound
    have hprofiles := @view_profiles_of_unbound platform roots profiles audioEndpoint limits hunbound
    have hbulk := view_bulk_of_unbound platform roots profiles audioEndpoint limits hunbound
    obtain ⟨hfiles, hcandidates, htruncated⟩ :=
      create_view_scan platform roots profiles audioEndpoint limits
    unfold View.learned View.capabilityClasses View.supports View.resolvedSymbolCount View.binding
    rw [hprofiles, hbulk, hfiles, hcandidates, htruncated]
    rfl

end

end Probe

end OakBarrels
