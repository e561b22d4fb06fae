import OakBarrels.Lib.Agree
import OakBarrels.SessionLaws

/-!
# Engines that answer alike

Two engines whose operations agree along a relation of their states lead any frames of the host to
the same log: the same calls with the same results, the same frames and the same transcript.
-/

open Octets Binary64 Agree

namespace OakBarrels

open Json Protocol

/-- Every operation of the first agrees with that of the second. -/
structure Simulates {σ τ : Type} (a : EngineBackend σ) (b : EngineBackend τ) (R : σ → τ → Prop) :
    Prop where
  capabilityClasses : On R a.capabilityClasses b.capabilityClasses
  limits : On R a.limits b.limits
  bulkChannel : On R a.bulkChannel b.bulkChannel
  bulkBytesForwarded : On R a.bulkBytesForwarded b.bulkBytesForwarded
  bulkBytesDropped : On R a.bulkBytesDropped b.bulkBytesDropped
  openTarget kind name reason : On R (a.openTarget kind name reason) (b.openTarget kind name reason)
  closeTarget handle : On R (a.closeTarget handle) (b.closeTarget handle)
  post handle action args : On R (a.post handle action args) (b.post handle action args)
  set handle param value : On R (a.set handle param value) (b.set handle param value)
  resolvedSymbolCount : On R a.resolvedSymbolCount b.resolvedSymbolCount
  targetCount : On R a.targetCount b.targetCount
  filesExamined : On R a.filesExamined b.filesExamined
  candidatesFound : On R a.candidatesFound b.candidatesFound
  discoveryTruncated : On R a.discoveryTruncated b.discoveryTruncated

theorem Simulates.through {σ τ υ : Type} {a : EngineBackend σ} {b : EngineBackend τ}
    {d : EngineBackend υ} {R : σ → τ → Prop} {S : υ → τ → Prop} (h : Simulates a b R)
    (h' : Simulates d b S) : Simulates a d fun s u => ∃ t, R s t ∧ S u t where
  capabilityClasses := h.capabilityClasses.through h'.capabilityClasses
  limits := h.limits.through h'.limits
  bulkChannel := h.bulkChannel.through h'.bulkChannel
  bulkBytesForwarded := h.bulkBytesForwarded.through h'.bulkBytesForwarded
  bulkBytesDropped := h.bulkBytesDropped.through h'.bulkBytesDropped
  openTarget _ _ _ := (h.openTarget _ _ _).through (h'.openTarget _ _ _)
  closeTarget _ := (h.closeTarget _).through (h'.closeTarget _)
  post _ _ _ := (h.post _ _ _).through (h'.post _ _ _)
  set _ _ _ := (h.set _ _ _).through (h'.set _ _ _)
  resolvedSymbolCount := h.resolvedSymbolCount.through h'.resolvedSymbolCount
  targetCount := h.targetCount.through h'.targetCount
  filesExamined := h.filesExamined.through h'.filesExamined
  candidatesFound := h.candidatesFound.through h'.candidatesFound
  discoveryTruncated := h.discoveryTruncated.through h'.discoveryTruncated

namespace World

/-- Two sessions that look the same, over states that are related. -/
structure Alike {σ τ : Type} (R : σ → τ → Prop) (w : World σ) (v : World τ) : Prop where
  session : w.session = v.session
  log : w.log = v.log
  backend : R w.backend v.backend

/-- The same outcome of a request on both sides. -/
def AlikeResult {σ τ : Type} (R : σ → τ → Prop) (r : Bool × World σ) (q : Bool × World τ) : Prop :=
  r.1 = q.1 ∧ Alike R r.2 q.2

/-- The same since two points in their logs. -/
structure AlikeSince {σ τ : Type} (R : σ → τ → Prop) (past past' : List Event) (w : World σ)
    (v : World τ) : Prop where
  session : w.session = v.session
  log : ∃ events, w.log = past ++ events ∧ v.log = past' ++ events
  backend : R w.backend v.backend

def AlikeResultSince {σ τ : Type} (R : σ → τ → Prop) (past past' : List Event)
    (r : Bool × World σ) (q : Bool × World τ) : Prop :=
  r.1 = q.1 ∧ AlikeSince R past past' r.2 q.2

/-! ## Steps that both sides take -/

/-- What a reply carries: nothing, or the text of a value. -/
def Written (payload : Bytes) : Prop := payload = [] ∨ ∃ value : Value, payload = value.dump

/-- A relation of two sessions which is kept by every step that both of them take. The sessions are
the same but for whether there is a transcript. -/
structure Parallel {σ τ : Type} (R : σ → τ → Prop) (Q : World σ → World τ → Prop) : Prop where
  session {w : World σ} {v : World τ} (h : Q w v) :
    v.session = { w.session with transcript := v.session.transcript }
  send {w : World σ} {v : World τ} (h : Q w v) (type : MessageType) {payload : Bytes}
    (hpayload : Written payload) : Q (w.send type payload) (v.send type payload)
  calling {w : World σ} {v : World τ} (h : Q w v) {α : Type} {a : StateM σ α} {b : StateM τ α}
    (hab : On R a b) (call : α → BackendCall) :
    (w.calling a call).1 = (v.calling b call).1 ∧ Q (w.calling a call).2 (v.calling b call).2
  update {w : World σ} {v : World τ} (h : Q w v) {f : Session → Session}
    (hf : ∀ session transcript, f { session with transcript } = { f session with transcript }) :
    Q { w with session := f w.session } { v with session := f v.session }

/-- The same result, and related worlds. -/
def Both {σ τ : Type} (Q : World σ → World τ → Prop) (r : Bool × World σ) (q : Bool × World τ) :
    Prop := r.1 = q.1 ∧ Q r.2 q.2

section

variable {σ τ : Type} {R : σ → τ → Prop} {Q : World σ → World τ → Prop} {w : World σ} {v : World τ}

theorem both_ite {c c' : Prop} [Decidable c] [Decidable c'] (hiff : c ↔ c')
    {r r' : Bool × World σ} {q q' : Bool × World τ} (hthen : Both Q r q) (helse : Both Q r' q') :
    Both Q (if c then r else r') (if c' then q else q') := by
  by_cases hc : c
  · rwa [if_pos hc, if_pos (hiff.mp hc)]
  · rwa [if_neg hc, if_neg (mt hiff.mpr hc)]

theorem Parallel.dump (hQ : Parallel R Q) (hw : Q w v) (type : MessageType) (value : Value) :
    Q (w.send type value.dump) (v.send type value.dump) := hQ.send hw type (.inr ⟨value, rfl⟩)

theorem Parallel.refuse (hQ : Parallel R Q) (hw : Q w v) (open' : Bool) (reason : Reason) :
    Both Q (open', w.sendError reason) (open', v.sendError reason) := ⟨rfl, hQ.dump hw _ _⟩

theorem Parallel.finish (hQ : Parallel R Q) (hw : Q w v) : Q w.finish v.finish :=
  hQ.update hw (f := fun session => { session with finished := true }) fun _ _ => rfl

theorem Parallel.refuseFinish (hQ : Parallel R Q) (hw : Q w v) (open' : Bool) (reason : Reason) :
    Both Q (open', (w.sendError reason).finish) (open', (v.sendError reason).finish) :=
  ⟨rfl, hQ.finish (hQ.dump hw _ _)⟩

theorem Parallel.answer (hQ : Parallel R Q) (hw : Q w v) (handle : UInt32) (reason : Reason) :
    Q (w.answer handle reason) (v.answer handle reason) := by
  unfold World.answer
  split
  · exact hQ.dump hw _ _
  · exact hQ.dump hw _ _

end

section

variable {σ τ : Type} {R : σ → τ → Prop} {Q : World σ → World τ → Prop} {a : EngineBackend σ}
  {b : EngineBackend τ} {w : World σ} {v : World τ} (unrepresentable : Unrepresentable)

theorem handleHello_parallel (hQ : Parallel R Q) (hw : Q w v) (frame : Frame) :
    Both Q (handleHello unrepresentable frame w) (handleHello unrepresentable frame v) := by
  unfold handleHello
  split
  · exact hQ.refuseFinish hw _ _
  · split
    · exact hQ.refuseFinish hw _ _
    · split
      · exact hQ.refuseFinish hw _ _
      · rename_i revisions _ _
        simp only
        split
        · exact hQ.refuseFinish hw _ _
        · refine ⟨rfl, hQ.dump (hQ.update hw (f := fun session => { session with
            revision := selectRevision (offeredRevisions unrepresentable revisions)
            negotiated := true }) fun _ _ => rfl) _ _⟩

theorem handleCapsRequest_parallel (hQ : Parallel R Q) (h : Simulates a b R) (hw : Q w v) :
    Both Q (handleCapsRequest a w) (handleCapsRequest b v) := by
  obtain ⟨hclasses, hw⟩ := hQ.calling hw h.capabilityClasses .capabilityClasses
  obtain ⟨hlimits, hw⟩ := hQ.calling hw h.limits .limits
  obtain ⟨hbulk, hw⟩ := hQ.calling hw h.bulkChannel .bulkChannel
  simp only [handleCapsRequest, hclasses, hlimits, hbulk]
  exact ⟨rfl, hQ.dump hw _ _⟩

theorem handleOpen_parallel (hQ : Parallel R Q) (h : Simulates a b R) (hw : Q w v)
    (payload : Value) : Both Q (handleOpen a payload w) (handleOpen b payload v) := by
  unfold handleOpen
  split
  · exact hQ.refuse hw _ _
  · split
    · exact hQ.refuse hw _ _
    · rename_i kind _ _
      obtain ⟨hresult, hw⟩ := hQ.calling hw
        (h.openTarget (kind.asString []) (readName payload) .ok)
        fun result => .openTarget (kind.asString []) (readName payload) result.1 result.2
      simp only [hresult]
      split
      · exact hQ.refuse hw _ _
      · exact ⟨rfl, hQ.dump hw _ _⟩

theorem handlePost_parallel (hQ : Parallel R Q) (h : Simulates a b R) (hw : Q w v)
    (payload : Value) : Both Q (handlePost unrepresentable a payload w)
      (handlePost unrepresentable b payload v) := by
  unfold handlePost
  split
  · exact hQ.refuse hw _ _
  · rename_i handle _
    split
    · exact hQ.refuse hw _ _
    · rename_i action _
      split
      · exact hQ.refuse hw _ _
      · obtain ⟨hresult, hw⟩ := hQ.calling hw
          (h.post handle (action.asString []) (readArgs payload))
          (.post handle (action.asString []) (readArgs payload))
        simp only [hresult]
        exact ⟨rfl, hQ.answer hw _ _⟩

theorem handleSet_parallel (hQ : Parallel R Q) (h : Simulates a b R) (hw : Q w v)
    (payload : Value) : Both Q (handleSet unrepresentable a payload w)
      (handleSet unrepresentable b payload v) := by
  unfold handleSet
  split
  · exact hQ.refuse hw _ _
  · rename_i handle _
    split
    · exact hQ.refuse hw _ _
    · rename_i param _
      split
      · exact hQ.refuse hw _ _
      · split
        · exact hQ.refuse hw _ _
        · rename_i value _
          split
          · exact hQ.refuse hw _ _
          · simp only
            split
            · exact hQ.refuse hw _ _
            · obtain ⟨hresult, hw⟩ := hQ.calling hw
                (h.set handle (param.asString []) (value.asNumber (.ofInt 0)))
                (.set handle (param.asString []) (value.asNumber (.ofInt 0)))
              simp only [hresult]
              exact ⟨rfl, hQ.answer hw _ _⟩

theorem handleClose_parallel (hQ : Parallel R Q) (h : Simulates a b R) (hw : Q w v)
    (payload : Value) : Both Q (handleClose unrepresentable a payload w)
      (handleClose unrepresentable b payload v) := by
  unfold handleClose
  split
  · exact hQ.refuse hw _ _
  · rename_i handle _
    obtain ⟨hresult, hw⟩ := hQ.calling hw (h.closeTarget handle) (.closeTarget handle)
    simp only [hresult]
    exact ⟨rfl, hQ.answer hw _ _⟩

theorem reportDiagnostics_parallel (hQ : Parallel R Q) (h : Simulates a b R) (hw : Q w v) :
    Q (reportDiagnostics a w) (reportDiagnostics b v) := by
  have hsession := hQ.session hw
  obtain ⟨htargets, hw⟩ := hQ.calling hw h.targetCount .targetCount
  obtain ⟨hsymbols, hw⟩ := hQ.calling hw h.resolvedSymbolCount .resolvedSymbolCount
  obtain ⟨hfiles, hw⟩ := hQ.calling hw h.filesExamined .filesExamined
  obtain ⟨hcandidates, hw⟩ := hQ.calling hw h.candidatesFound .candidatesFound
  obtain ⟨htruncated, hw⟩ := hQ.calling hw h.discoveryTruncated .discoveryTruncated
  obtain ⟨hbulk, hw⟩ := hQ.calling hw h.bulkChannel .bulkChannel
  obtain ⟨hforwarded, hw⟩ := hQ.calling hw h.bulkBytesForwarded .bulkBytesForwarded
  obtain ⟨hdropped, hw⟩ := hQ.calling hw h.bulkBytesDropped .bulkBytesDropped
  obtain ⟨hclasses, hw⟩ := hQ.calling hw h.capabilityClasses .capabilityClasses
  simp only [reportDiagnostics, htargets, hsymbols, hfiles, hcandidates, htruncated,
    hbulk, hforwarded, hdropped, hclasses]
  rw [hsession]
  exact hQ.dump hw _ _

theorem switchDiagnostics_transcript (enable : Option Value) (session : Session)
    (transcript : Bool) : switchDiagnostics enable { session with transcript } =
      { switchDiagnostics enable session with transcript } := by
  unfold switchDiagnostics
  split
  · rfl
  · split
    · simp only
      split <;> rfl
    · rfl

theorem handleDiagRequest_parallel (hQ : Parallel R Q) (h : Simulates a b R) (hw : Q w v)
    (payload : Value) : Both Q (handleDiagRequest a payload w)
      (handleDiagRequest b payload v) := by
  have hswitched := hQ.update hw (switchDiagnostics_transcript (payload.find (ascii "enable")))
  have henabled : (switchDiagnostics (payload.find (ascii "enable")) v.session).diagnosticsEnabled =
      (switchDiagnostics (payload.find (ascii "enable")) w.session).diagnosticsEnabled := by
    rw [hQ.session hw, switchDiagnostics_transcript]
  have hidentified := hQ.update hswitched
    (f := fun session => { session with identifyEnabled := true }) fun _ _ => rfl
  unfold handleDiagRequest
  simp only
  refine both_ite (by rw [henabled]) (hQ.refuse hswitched _ _) ?_
  split
  · exact both_ite (by simp [henabled]) (hQ.refuse hidentified _ _)
      ⟨rfl, reportDiagnostics_parallel hQ h hidentified⟩
  · exact both_ite (by simp [henabled]) (hQ.refuse hswitched _ _)
      ⟨rfl, reportDiagnostics_parallel hQ h hswitched⟩

/-- What follows on a frame that both have transcribed. -/
theorem handle_parallel (hQ : Parallel R Q) (h : Simulates a b R) (frame : Frame)
    (hlive : w.session.finished = false) (hlive' : v.session.finished = false)
    (hw : Q (w.transcribe '<' frame.type frame.payload)
      (v.transcribe '<' frame.type frame.payload)) :
    Both Q (handle unrepresentable a frame w) (handle unrepresentable b frame v) := by
  have hopen : ¬ w.session.finished = true := by simp [hlive]
  have hopen' : ¬ v.session.finished = true := by simp [hlive']
  unfold handle
  rw [if_neg hopen, if_neg hopen']
  generalize w.transcribe '<' frame.type frame.payload = w at *
  generalize v.transcribe '<' frame.type frame.payload = v at *
  have hnegotiated : v.session.negotiated = w.session.negotiated := by rw [hQ.session hw]
  simp only [hnegotiated]
  split
  · exact ⟨rfl, hQ.finish (hQ.send hw _ (.inl rfl))⟩
  · split
    · split
      · exact hQ.refuseFinish hw _ _
      · exact handleHello_parallel unrepresentable hQ hw frame
    · split
      · exact hQ.refuse hw _ _
      · split
        · exact handleCapsRequest_parallel hQ h hw
        · exact handleOpen_parallel hQ h hw _
        · exact handlePost_parallel unrepresentable hQ h hw _
        · exact handleSet_parallel unrepresentable hQ h hw _
        · exact handleClose_parallel unrepresentable hQ h hw _
        · exact handleDiagRequest_parallel hQ h hw _
        · exact hQ.refuse hw _ _

end

/-! ## The same log -/

section

variable {σ τ : Type} {R : σ → τ → Prop} {past past' : List Event} {w : World σ} {v : World τ}

theorem AlikeSince.record (h : AlikeSince R past past' w v) (event : Event) :
    AlikeSince R past past' (w.record event) (v.record event) := by
  obtain ⟨events, hw, hv⟩ := h.log
  refine ⟨h.session, ⟨events ++ [event], ?_, ?_⟩, h.backend⟩
  · simp [World.record, hw]
  · simp [World.record, hv]

theorem AlikeSince.transcribe (h : AlikeSince R past past' w v) (direction : Char)
    (type : MessageType) (payload : Bytes) :
    AlikeSince R past past' (w.transcribe direction type payload)
      (v.transcribe direction type payload) := by
  unfold World.transcribe
  rw [h.session]
  split
  · exact h.record _
  · exact h

theorem AlikeSince.calling {α : Type} (h : AlikeSince R past past' w v) {a : StateM σ α}
    {b : StateM τ α} (hab : On R a b) (call : α → BackendCall) :
    (w.calling a call).1 = (v.calling b call).1 ∧
      AlikeSince R past past' (w.calling a call).2 (v.calling b call).2 := by
  obtain ⟨hresult, hstate⟩ := hab _ _ h.backend
  obtain ⟨events, hw, hv⟩ := h.log
  refine ⟨hresult, h.session, ⟨events ++ [.call (call (b v.backend).1)], ?_, ?_⟩, hstate⟩
  · change w.log ++ [.call (call (a w.backend).1)] = _
    rw [hw, hresult, List.append_assoc]
  · change v.log ++ [.call (call (b v.backend).1)] = _
    rw [hv, List.append_assoc]

theorem alikeSince_parallel (R : σ → τ → Prop) (past past' : List Event) :
    Parallel R (AlikeSince R past past') where
  session h := by rw [h.session]
  send h type payload _ := (h.transcribe '>' type payload).record _
  calling h _ _ _ hab call := h.calling hab call
  update h _ _ := ⟨congrArg _ h.session, h.log, h.backend⟩

end

section

variable {σ τ : Type} {R : σ → τ → Prop} {a : EngineBackend σ} {b : EngineBackend τ}
  {past past' : List Event} {w : World σ} {v : World τ} (unrepresentable : Unrepresentable)

/-- A request has the same outcome over both engines, whatever came before. -/
theorem handle_alike_since (h : Simulates a b R) (hw : AlikeSince R past past' w v)
    (frame : Frame) :
    AlikeResultSince R past past' (handle unrepresentable a frame w)
      (handle unrepresentable b frame v) := by
  by_cases hover : w.session.finished = true
  · rw [handle_finished a hover,
      handle_finished b (hw.session ▸ hover)]
    exact ⟨rfl, hw⟩
  · rw [Bool.not_eq_true] at hover
    exact handle_parallel unrepresentable (alikeSince_parallel R past past') h frame hover
      (hw.session ▸ hover) (hw.transcribe '<' frame.type frame.payload)

theorem handle_alike (h : Simulates a b R) (hw : Alike R w v) (frame : Frame) :
    AlikeResult R (handle unrepresentable a frame w) (handle unrepresentable b frame v) := by
  obtain ⟨hopen, hsession, ⟨events, hlog, hlog'⟩, hbackend⟩ := handle_alike_since unrepresentable h
    (show AlikeSince R w.log v.log w v from ⟨hw.session, ⟨[], by simp, by simp⟩, hw.backend⟩) frame
  exact ⟨hopen, hsession, by rw [hlog, hlog', hw.log], hbackend⟩

/-- So does every sequence of requests. -/
theorem final_alike (h : Simulates a b R) (hw : Alike R w v) (frames : List Frame) :
    Alike R (Runs.final (step unrepresentable a) w frames)
      (Runs.final (step unrepresentable b) v frames) := by
  induction frames generalizing w v with
  | nil => exact hw
  | cons frame rest ih => exact ih (handle_alike unrepresentable h hw frame).2

theorem fresh_alike {s : σ} {t : τ} (h : R s t) (transcript : Bool) :
    Alike R (fresh s transcript) (fresh t transcript) := ⟨rfl, rfl, h⟩

end

end World

end OakBarrels
