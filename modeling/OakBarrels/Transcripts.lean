import OakBarrels.Json.Encoding
import OakBarrels.Lib.Pointwise
import OakBarrels.Simulation

/-!
# The transcript

One line for each frame that crosses the pipe, in the order of the frames, and nothing else changes.
A payload of the host is copied into its line as it came.
-/

open Octets Agree

namespace OakBarrels

open Json Protocol

def Event.line? : Event → Option Bytes
  | .line text => some text
  | _ => none

/-- What crosses the pipe: a frame of the host's, or what is given to the sink. -/
inductive Crossing
  | arrived (frame : Frame)
  | wrote (bytes : Bytes)

namespace World

variable {σ : Type}

/-- The lines that the transcript has been given. -/
def lines (w : World σ) : List Bytes := w.log.filterMap Event.line?

/-- Direction, name, payload. -/
def transcriptLine (direction : Char) (type : MessageType) (payload : Bytes) : Bytes :=
  let line := ch direction :: ch ' ' :: messageTypeName type
  if payload = [] then line else line ++ ch ' ' :: payload

/-- What has been given to the sink between two worlds of one session. -/
def writtenSince (w w' : World σ) : List Bytes := (w'.log.drop w.log.length).filterMap Event.frame?

variable (unrepresentable : Unrepresentable) (backend : EngineBackend σ)

/-- All that crosses the pipe. A frame for a session that is over is not one that it has seen. -/
def crossings : World σ → List Frame → List Crossing
  | _, [] => []
  | w, frame :: rest =>
    let w' := (step unrepresentable backend w frame).1
    let arrived := if w.session.finished then [] else [.arrived frame]
    arrived ++ (w.writtenSince w').map .wrote ++ crossings w' rest

end World

/-- The line of what has crossed, with its direction. -/
def Crossing.Says : Crossing → Bytes → Prop
  | .arrived frame, line => line = World.transcriptLine '<' frame.type frame.payload
  | .wrote bytes, line => ∃ type payload, bytes = encodeFrame type payload ∧
      line = World.transcriptLine '>' type payload

def Crossing.OneLine : Crossing → Prop
  | .arrived frame => ch '\n' ∉ frame.payload
  | .wrote _ => True

namespace World

variable {σ : Type}

/-- The same without a transcript. -/
def muted (w : World σ) : World σ where
  session := { w.session with transcript := false }
  backend := w.backend
  log := w.log.filter fun event => event.line?.isNone

/-- One line for each frame, and the session as it is without a transcript. -/
structure Transcribed (unrepresentable : Unrepresentable) (backend : EngineBackend σ) (s : σ)
    (frames : List Frame) : Prop where
  lines : List.Forall₂ Crossing.Says (crossings unrepresentable backend (fresh s true) frames)
    (Runs.final (step unrepresentable backend) (fresh s true) frames).lines
  oneLine : ∀ line ∈ (Runs.final (step unrepresentable backend) (fresh s true) frames).lines,
    ch '\n' ∉ line
  world : Runs.final (step unrepresentable backend) (fresh s false) frames =
    (Runs.final (step unrepresentable backend) (fresh s true) frames).muted
  results : Runs.trace (step unrepresentable backend) (fresh s false) frames =
    Runs.trace (step unrepresentable backend) (fresh s true) frames

/-! ## Lines -/

theorem transcriptLine_newline {direction : Char} (hdirection : ch '\n' ≠ ch direction)
    (type : MessageType) (payload : Bytes) :
    ch '\n' ∈ transcriptLine direction type payload ↔ ch '\n' ∈ payload := by
  have hname : ch '\n' ∉ messageTypeName type := by cases type <;> decide
  have hspace : ch '\n' ≠ ch ' ' := by decide
  unfold transcriptLine
  simp only
  split
  · rename_i hempty
    simp [hempty, hdirection, hspace, hname]
  · simp [hdirection, hspace, hname]

theorem written_newline {payload : Bytes} (h : Written payload) : ch '\n' ∉ payload := by
  obtain rfl | ⟨value, rfl⟩ := h
  · exact nofun
  · intro hmem
    exact absurd (dump_uncontrolled value _ hmem) (by decide)

/-- A reply, and its line. -/
def Reply (bytes line : Bytes) : Prop := ∃ type payload, Written payload ∧
  bytes = encodeFrame type payload ∧ line = transcriptLine '>' type payload

/-- Each reply among these has its line, in the order of the replies. -/
def Told (events : List Event) : Prop :=
  List.Forall₂ Reply (events.filterMap Event.frame?) (events.filterMap Event.line?)

theorem Told.append {events more : List Event} (h : Told events) (hmore : Told more) :
    Told (events ++ more) := by
  unfold Told
  rw [List.filterMap_append, List.filterMap_append]
  exact List.rel_append h hmore

/-! ## With and without -/

section

variable {w v : World σ} {past : List Event}

theorem muted_record (w : World σ) {event : Event} (h : event.line? = none) :
    (w.record event).muted = w.muted.record event := by
  unfold muted record
  simp [h]

theorem muted_line (w : World σ) (text : Bytes) : (w.record (.line text)).muted = w.muted := by
  unfold muted record
  simp [Event.line?]

theorem muted_transcribe (w : World σ) (direction : Char) (type : MessageType) (payload : Bytes) :
    (w.transcribe direction type payload).muted = w.muted ∧
      w.muted.transcribe direction type payload = w.muted := by
  refine ⟨?_, rfl⟩
  unfold transcribe
  split
  · exact muted_line w _
  · rfl

theorem muted_send (w : World σ) (type : MessageType) (payload : Bytes) :
    (w.send type payload).muted = w.muted.send type payload := by
  unfold send
  rw [muted_record _ rfl, (muted_transcribe w ..).1, (muted_transcribe w ..).2]

/-- One side is the other without its transcript, which has had a line for each reply since then. -/
structure Transcribing (past : List Event) (w v : World σ) : Prop where
  muted : v = w.muted
  transcript : w.session.transcript = true
  told : ∃ events, w.log = past ++ events ∧ Told events

theorem send_told (h : w.session.transcript = true) (type : MessageType) {payload : Bytes}
    (hpayload : Written payload) : ∃ events, (w.send type payload).log = w.log ++ events ∧
      Told events := by
  refine ⟨[.line (transcriptLine '>' type payload), .frame (encodeFrame type payload)], ?_, ?_⟩
  · unfold send transcribe
    rw [if_pos h]
    simp [record, transcriptLine]
  · exact .cons ⟨type, payload, hpayload, rfl, rfl⟩ .nil

theorem transcribing_parallel (past : List Event) :
    Parallel (fun s t : σ => s = t) (Transcribing past) where
  session h := by
    rw [h.muted]
    rfl
  send h type payload hpayload := by
    refine ⟨by rw [h.muted, muted_send], by rw [send_session]; exact h.transcript, ?_⟩
    obtain ⟨events, hlog, htold⟩ := h.told
    obtain ⟨more, hsent, hmore⟩ := send_told h.transcript type hpayload
    exact ⟨events ++ more, by rw [hsent, hlog, List.append_assoc], htold.append hmore⟩
  calling {w v} h {α} {a b} hab call := by
    have hbackend : v.backend = w.backend := by
      rw [h.muted]
      rfl
    obtain ⟨hresult, hstate⟩ := hab _ _ hbackend.symm
    obtain ⟨events, hlog, htold⟩ := h.told
    refine ⟨hresult, ?_, h.transcript, events ++ [.call (call (a w.backend).1)], ?_, ?_⟩
    · change ({ v with backend := (b v.backend).2 } : World σ).record
          (.call (call (b v.backend).1)) = _
      rw [← hresult, ← hstate, h.muted]
      exact (muted_record { w with backend := (a w.backend).2 } rfl).symm
    · change w.log ++ [.call (call (a w.backend).1)] = _
      rw [hlog, List.append_assoc]
    · exact htold.append .nil
  update {w v} h f hf := by
    have hsame : f w.session = { f w.session with transcript := w.session.transcript } :=
      hf w.session w.session.transcript
    have hkept : (f w.session).transcript = w.session.transcript := by rw [hsame]
    refine ⟨?_, hkept.trans h.transcript, h.told⟩
    rw [h.muted]
    unfold muted
    simp only
    rw [hf]

end

/-! ## One frame -/

theorem same_simulates (backend : EngineBackend σ) :
    Simulates backend backend fun s t => s = t := by
  have hsame : ∀ {α : Type} (operation : StateM σ α),
      On (fun s t => s = t) operation operation := by
    rintro α operation s _ rfl
    exact ⟨rfl, rfl⟩
  constructor <;> intros <;> exact hsame _

section

variable (unrepresentable : Unrepresentable) (backend : EngineBackend σ) {w : World σ}

/-- What a frame comes to for a session that has seen it: its line, and the lines of the replies. -/
structure Followed (frame : Frame) (w : World σ) : Prop where
  muted : (step unrepresentable backend w.muted frame).1 =
    (step unrepresentable backend w frame).1.muted
  result : (step unrepresentable backend w.muted frame).2 =
    (step unrepresentable backend w frame).2
  transcript : (step unrepresentable backend w frame).1.session.transcript = true
  told : ∃ events, Told events ∧ (step unrepresentable backend w frame).1.log =
    w.log ++ (if w.session.finished then []
      else [.line (transcriptLine '<' frame.type frame.payload)]) ++ events

theorem step_followed (h : w.session.transcript = true) (frame : Frame) :
    Followed unrepresentable backend frame w := by
  by_cases hover : w.session.finished = true
  · have hstays : ∀ v : World σ, v.session.finished = true →
        step unrepresentable backend v frame = (v, false) := by
      intro v hv
      unfold step
      rw [handle_finished backend hv]
    have hmuted := hstays w.muted hover
    constructor
    · rw [hmuted, hstays w hover]
    · rw [hmuted, hstays w hover]
    · rw [hstays w hover]
      exact h
    · rw [hstays w hover, if_pos hover]
      exact ⟨[], .nil, by simp⟩
  · have hlive : w.session.finished = false := by simpa using hover
    have hline : w.transcribe '<' frame.type frame.payload =
        w.record (.line (transcriptLine '<' frame.type frame.payload)) := by
      unfold transcribe transcriptLine
      rw [if_pos h]
    have hseen : Transcribing (w.transcribe '<' frame.type frame.payload).log
        (w.transcribe '<' frame.type frame.payload)
        (w.muted.transcribe '<' frame.type frame.payload) := by
      refine ⟨?_, by rw [transcribe_session]; exact h, [], by simp, .nil⟩
      rw [(muted_transcribe w ..).1, (muted_transcribe w ..).2]
    obtain ⟨hresult, hworld⟩ := handle_parallel unrepresentable (transcribing_parallel _)
      (same_simulates backend) frame hlive (v := w.muted) hlive hseen
    obtain ⟨events, hlog, htold⟩ := hworld.told
    refine ⟨hworld.muted, hresult.symm, hworld.transcript, events, htold, ?_⟩
    rw [if_neg hover]
    change (handle unrepresentable backend frame w).2.log = _
    rw [hlog, hline]
    rfl

end

/-! ## All frames -/

/-- A crossing and its line, with what a reply carries. -/
def Tells : Crossing → Bytes → Prop
  | .arrived frame, line => line = transcriptLine '<' frame.type frame.payload
  | .wrote bytes, line => Reply bytes line

theorem Tells.says {crossing : Crossing} {line : Bytes} (h : Tells crossing line) :
    crossing.Says line := by
  cases crossing with
  | arrived frame => exact h
  | wrote bytes =>
    obtain ⟨type, payload, -, hbytes, hline⟩ := h
    exact ⟨type, payload, hbytes, hline⟩

theorem Tells.oneLine {crossing : Crossing} {line : Bytes} (h : Tells crossing line) :
    crossing.OneLine ↔ ch '\n' ∉ line := by
  cases crossing with
  | arrived frame =>
    rw [show line = _ from h, transcriptLine_newline (by decide)]
    rfl
  | wrote bytes =>
    obtain ⟨type, payload, hwritten, -, rfl⟩ := h
    rw [transcriptLine_newline (by decide)]
    exact iff_of_true trivial (written_newline hwritten)

section

variable (unrepresentable : Unrepresentable) (backend : EngineBackend σ) {w : World σ}

theorem Followed.tells {frame : Frame} (h : Followed unrepresentable backend frame w) :
    let w' := (step unrepresentable backend w frame).1
    ∃ told, w'.lines = w.lines ++ told ∧ List.Forall₂ Tells
      ((if w.session.finished then [] else [.arrived frame]) ++
        (w.writtenSince w').map .wrote) told := by
  obtain ⟨events, htold, hlog⟩ := h.told
  have hreplies : List.Forall₂ Tells ((events.filterMap Event.frame?).map .wrote)
      (events.filterMap Event.line?) := List.forall₂_map_left_iff.mpr htold
  simp only
  unfold lines writtenSince
  rw [hlog, List.append_assoc, List.drop_left, List.filterMap_append, List.filterMap_append,
    List.filterMap_append]
  refine ⟨_, rfl, ?_⟩
  split
  · exact hreplies
  · exact .cons rfl hreplies

theorem final_followed (h : w.session.transcript = true) (frames : List Frame) :
    Runs.final (step unrepresentable backend) w.muted frames =
        (Runs.final (step unrepresentable backend) w frames).muted ∧
      Runs.trace (step unrepresentable backend) w.muted frames =
        Runs.trace (step unrepresentable backend) w frames ∧
      ∃ told, (Runs.final (step unrepresentable backend) w frames).lines = w.lines ++ told ∧
        List.Forall₂ Tells (crossings unrepresentable backend w frames) told := by
  induction frames generalizing w with
  | nil => exact ⟨rfl, rfl, [], by simp, .nil⟩
  | cons frame rest ih =>
    have hstep := step_followed unrepresentable backend h frame
    obtain ⟨hfinal, htrace, later, hlater, hrest⟩ := ih hstep.transcript
    obtain ⟨now, hnow, hframe⟩ := hstep.tells
    refine ⟨?_, ?_, now ++ later, ?_, List.rel_append hframe hrest⟩
    · rw [Runs.final_cons, Runs.final_cons, hstep.muted, hfinal]
    · unfold Runs.trace
      rw [hstep.muted, hstep.result, htrace]
    · rw [Runs.final_cons, hlater, hnow, List.append_assoc]

theorem arrived_mem_crossings {frame : Frame} {frames : List Frame} :
    .arrived frame ∈ crossings unrepresentable backend w frames ↔
      ∃ before after, frames = before ++ frame :: after ∧
        (Runs.final (step unrepresentable backend) w before).session.finished = false := by
  induction frames generalizing w with
  | nil => simp [crossings]
  | cons f rest ih =>
    have hhere : .arrived frame ∈ (if w.session.finished then [] else [Crossing.arrived f]) ↔
        w.session.finished = false ∧ f = frame := by
      by_cases hover : w.session.finished = true
      · rw [if_pos hover]
        exact iff_of_false nofun fun h => by simp [hover] at h
      · rw [if_neg hover, List.mem_singleton, Crossing.arrived.injEq, eq_comm]
        exact (and_iff_right (by simpa using hover)).symm
    have hwrote : .arrived frame ∉ (w.writtenSince (step unrepresentable backend w f).1).map
        Crossing.wrote := by simp
    unfold crossings
    rw [List.mem_append, List.mem_append, ih, hhere, or_iff_left hwrote]
    constructor
    · rintro (⟨hlive, rfl⟩ | ⟨before, after, rfl, hlive⟩)
      · exact ⟨[], rest, rfl, hlive⟩
      · exact ⟨f :: before, after, rfl, hlive⟩
    · rintro ⟨before, after, heq, hlive⟩
      cases before with
      | nil =>
        obtain ⟨rfl, -⟩ := List.cons.inj heq
        exact .inl ⟨hlive, rfl⟩
      | cons g before =>
        obtain ⟨rfl, rfl⟩ := List.cons.inj heq
        exact .inr ⟨before, after, rfl, hlive⟩

/-- What is transcribed is what crosses the pipe, one line for each frame, exactly if no frame that
comes while the session is open has a newline in its payload. -/
theorem transcribed_iff (s : σ) (frames : List Frame) :
    Transcribed unrepresentable backend s frames ↔
      ∀ before frame after, frames = before ++ frame :: after →
        (Runs.final (step unrepresentable backend) (fresh s true) before).session.finished = false →
        ch '\n' ∉ frame.payload := by
  obtain ⟨hworld, hresults, told, hlines, htells⟩ :=
    final_followed unrepresentable backend (w := fresh s true) rfl frames
  have hoff : (fresh s true).muted = fresh s false := rfl
  rw [hoff] at hworld hresults
  replace hlines : (Runs.final (step unrepresentable backend) (fresh s true) frames).lines = told :=
    hlines
  have hone := Pointwise.forall_iff htells fun _ _ h => h.oneLine
  constructor
  · intro h before frame after heq hlive
    have hall := hone.mpr (hlines ▸ h.oneLine)
    exact hall _ ((arrived_mem_crossings unrepresentable backend).mpr ⟨before, after, heq, hlive⟩)
  · intro h
    refine ⟨hlines ▸ htells.imp fun _ _ ht => ht.says, ?_, hworld, hresults⟩
    rw [hlines]
    refine hone.mp fun crossing hcrossing => ?_
    cases crossing with
    | arrived frame =>
      obtain ⟨before, after, heq, hlive⟩ :=
        (arrived_mem_crossings unrepresentable backend).mp hcrossing
      exact h before frame after heq hlive
    | wrote bytes => trivial

end

/-- A BYE whose payload is a newline. -/
theorem transcribed_fails_at_newline : ¬ ∀ (unrepresentable : Unrepresentable) (σ : Type)
    (backend : EngineBackend σ) (s : σ) (frames : List Frame),
      Transcribed unrepresentable backend s frames := by
  intro h
  have hone := (h (fun _ => 0) Unit nullBackend () [⟨.bye, ascii "\n"⟩]).oneLine
  have hmem : transcriptLine '<' .bye (ascii "\n") ∈
      (Runs.final (step (fun _ => 0) nullBackend) (fresh () true) [⟨.bye, ascii "\n"⟩]).lines := by
    exact List.mem_cons_self
  exact absurd (hone _ hmem) (by decide)

end World

end OakBarrels
