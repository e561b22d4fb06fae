import OakBarrels.Probe.View
import OakBarrels.Reports
import OakBarrels.Revisions
import OakBarrels.Station

/-!
# What a session over a probing backend says

Every reply of every run, in the terms of the backend's view: only the handles change in it, so that
the class list and the audio channel are reported the same way throughout.
-/

open Octets Binary64 Agree

namespace OakBarrels

open Json Protocol

/-! ## The replies of a run -/

namespace World

variable {σ : Type} (unrepresentable : Unrepresentable) (backend : EngineBackend σ)

/-- Every frame written in a run is the reply to one of its frames. -/
theorem replies_of_run (w : World σ) (frames : List Frame) {bytes : Bytes}
    (h : bytes ∈ (Runs.final (step unrepresentable backend) w frames).replies) :
    bytes ∈ w.replies ∨ ∃ before request reply,
      Replies backend (Runs.final (step unrepresentable backend) w before) request reply ∧
        bytes = reply.frame.encoded := by
  induction frames using List.reverseRecOn with
  | nil => exact .inl h
  | append_singleton before request ih =>
    rw [Runs.final_concat] at h
    cases hover : (Runs.final (step unrepresentable backend) w before).session.finished with
    | true =>
      rw [step, handle_finished backend hover] at h
      exact ih h
    | false =>
      obtain ⟨calls, reply, ⟨events, hlog, -, hframes⟩, hreplies⟩ :=
        handle_writes backend unrepresentable hover request
      rw [step, replies, hlog, List.filterMap_append, hframes, List.mem_append] at h
      rcases h with h | h
      · exact ih h
      · exact .inr ⟨before, request, reply, hreplies, List.mem_singleton.mp h⟩

/-- The one number of `helloFrame` is one, whatever an unrepresentable number would become. -/
theorem helloFrame_selects :
    ∃ payload revisions, parsePayload helloFrame = some payload ∧
      payload.find (ascii "revisions") = some revisions ∧ revisions.isArray = true ∧
        selectRevision (offeredRevisions unrepresentable revisions) = 1 := by
  have hfields : (parsePayload helloFrame).any (fun payload =>
      (payload.find (ascii "revisions")).any fun revisions =>
        revisions.isArray && revisions.asArray.any fun entry =>
          entry.isNumber && ((entry.asNumber (.ofInt 0)).isFinite &&
            (entry.asNumber (.ofInt 0)).truncate == 1)) = true := by decide +kernel
  simp only [Option.any_eq_true, List.any_eq_true, Bool.and_eq_true, beq_iff_eq] at hfields
  obtain ⟨payload, hpayload, revisions, hrevisions, harray, hfields⟩ := hfields
  obtain ⟨entry, hentry, hnumber, hfinite, hone⟩ := hfields
  rw [Value.eq_number hnumber] at hentry
  have hnarrows : NarrowsToOne unrepresentable (entry.asNumber (.ofInt 0)) := by
    refine ⟨hfinite, ?_⟩
    unfold toInt64
    rw [hone]
    rfl
  refine ⟨payload, revisions, hpayload, hrevisions, harray, ?_⟩
  rw [selectRevision_eq, if_pos]
  unfold offeredRevisions
  refine List.mem_filterMap.mpr ⟨_, hentry, ?_⟩
  exact congrArg some ((@narrowed_eq_one unrepresentable _).mpr hnarrows)

theorem helloFrame_negotiates (s : σ) (transcript : Bool) :
    let w := (step unrepresentable backend (fresh s transcript) helloFrame).1
    w.session.negotiated = true ∧ w.session.finished = false ∧ w.backend = s := by
  obtain ⟨payload, revisions, hpayload, hrevisions, harray, hselected⟩ :=
    helloFrame_selects unrepresentable
  have hstep : (step unrepresentable backend (fresh s transcript) helloFrame).1
      = (handleHello unrepresentable helloFrame
          ((fresh s transcript).transcribe '<' .hello helloFrame.payload)).2 :=
    congrArg Prod.snd (handle_hello unrepresentable backend rfl rfl _)
  simp only [hstep, handleHello, hpayload, hrevisions, harray, hselected, not_true_eq_false,
    if_false, show (1 : Int32) ≠ 0 by decide, send_session, transcribe_session]
  refine ⟨trivial, rfl, ?_⟩
  simp only [send, record, transcribe_backend]
  rfl

theorem step_capsRequest {w : World σ} (hlive : w.session.finished = false)
    (hnegotiated : w.session.negotiated = true) :
    (capsReport backend w.backend).1.frame.encoded ∈
      (step unrepresentable backend w ⟨.capsRequest, []⟩).1.replies := by
  obtain ⟨calls, events, hlog, -, hframes⟩ :=
    handle_caps unrepresentable backend hlive hnegotiated
      (show (⟨.capsRequest, []⟩ : Frame).type = .capsRequest from rfl) rfl
  rw [step, replies, hlog, List.filterMap_append, hframes]
  simp

/-- After a HELLO a CAPS_REQUEST gets its report. -/
theorem capsReport_written (s : σ) (transcript : Bool) :
    ((capsReport backend s).1.frame.encoded) ∈ (Runs.final (step unrepresentable backend)
      (fresh s transcript) [helloFrame, ⟨.capsRequest, []⟩]).replies := by
  obtain ⟨hnegotiated, hlive, hbackend⟩ :=
    helloFrame_negotiates unrepresentable backend s transcript
  have hwritten := step_capsRequest unrepresentable backend hlive hnegotiated
  rw [hbackend] at hwritten
  exact hwritten

end World

namespace Probe

open Discovery ProbingBackend

/-- The view with other handles. -/
def View.Told (v u : View) : Prop :=
  ∃ nextHandle liveHandles, u = { v with nextHandle, liveHandles }

namespace View

theorem told_refl (v : View) : v.Told v := ⟨v.nextHandle, v.liveHandles, rfl⟩

/-- Nothing but the handles changes. -/
theorem backend_keeps (v : View) : Simulates backend backend (Kept v.Told) := by
  have hread : ∀ {α : Type} (g : View → α), On (Kept v.Told) (fun u => (g u, u)) fun u => (g u, u) :=
    fun _ => .kept fun _ htold => htold
  have hdispatch : ∀ handle role shape,
      On (Kept v.Told) (dispatch handle role shape) (dispatch handle role shape) := by
    refine fun handle role shape => .kept fun s htold => ?_
    unfold dispatch
    split
    · exact htold
    · split
      · exact htold
      · split <;> exact htold
  refine ⟨hread _, hread _, hread _, hread _, hread _, fun _ _ _ => .kept ?_, fun _ => .kept ?_,
    fun _ _ _ => hdispatch _ _ _, fun _ _ _ => hdispatch _ _ _, hread _, hread _, hread _, hread _,
    hread _⟩
  · rintro s ⟨next, live, rfl⟩
    change v.Told (openTarget _).2
    unfold openTarget
    split
    · exact ⟨next, live, rfl⟩
    · exact ⟨next + 1, live ++ [next], rfl⟩
  · rintro s ⟨next, live, rfl⟩
    exact ⟨next, live.erase _, rfl⟩

end View

/-- The replies of sessions over a view. -/
inductive Tells (v : View) : Reply → Prop
  | bye : Tells v .bye
  | error (reason : Reason) : reason ≠ .ok → Tells v (.error reason)
  | helloAck (revision : Int32) : Tells v (.helloAck revision)
  | capsReply : Tells v (.capsReply v.capabilityClasses v.limitsValue v.bulk.isSome)
  | openAck (handle : UInt32) : Tells v (.openAck handle)
  | status (handle : UInt32) : Tells v (.status handle)
  | diagReply (report : Report) : report.classes = v.capabilityClasses →
      report.bulk = v.bulk.isSome → Tells v (.diagReply report)

/-- Only the two reports look at what an engine says of itself. -/
theorem tells_of_reports {σ : Type} {backend : EngineBackend σ} {v : View} {w : World σ}
    (hcaps : (capsReport backend w.backend).1 =
      .capsReply v.capabilityClasses v.limitsValue v.bulk.isSome)
    (hdiag : ∀ session, ∃ report, (diagReport backend session w.backend).1 = .diagReply report ∧
      report.classes = v.capabilityClasses ∧ report.bulk = v.bulk.isSome)
    {request : Frame} {reply : Reply} (h : World.Replies backend w request reply) :
    Tells v reply := by
  cases h with
  | bye _ => exact .bye
  | error reason _ hreason => exact .error reason hreason
  | helloAck revision _ => exact .helloAck revision
  | capsReply _ =>
    rw [hcaps]
    exact .capsReply
  | openAck handle _ _ => exact .openAck handle
  | status handle _ => exact .status handle
  | diagReply session _ =>
    obtain ⟨report, hreport, hclasses, hbulk⟩ := hdiag session
    rw [hreport]
    exact .diagReply report hclasses hbulk

theorem tells_of_replies {v : View} {w : World View} (htold : v.Told w.backend) {request : Frame}
    {reply : Reply} (h : World.Replies View.backend w request reply) : Tells v reply := by
  obtain ⟨next, live, hbackend⟩ := htold
  refine tells_of_reports ?_ (fun session => ?_) h
  · rw [hbackend]
    rfl
  · rw [hbackend]
    exact ⟨_, rfl, rfl, rfl⟩

section

variable (unrepresentable : Unrepresentable) {platform : Platform} {b : ProbingBackend} {v : View}
  (h : Shows platform b v) (transcript : Bool)

include h

theorem view_replies (frames : List Frame) :
    (Runs.final (World.step unrepresentable (backend platform)) (.fresh b transcript)
        frames).replies
      = (Runs.final (World.step unrepresentable View.backend) (.fresh v transcript)
          frames).replies := by
  have halike := World.final_alike unrepresentable (view_simulates platform)
    (World.fresh_alike h transcript) frames
  exact congrArg (List.filterMap Event.frame?) halike.log

/-- Every frame of every run is told by the view. -/
theorem run_tells (frames : List Frame) {bytes : Bytes}
    (hbytes : bytes ∈ (Runs.final (World.step unrepresentable (backend platform))
      (.fresh b transcript) frames).replies) :
    ∃ reply, Tells v reply ∧ bytes = reply.frame.encoded := by
  rw [view_replies unrepresentable h] at hbytes
  rcases World.replies_of_run _ _ _ _ hbytes with hnone | ⟨before, request, reply, hreplies, rfl⟩
  · cases hnone
  · have hkeeps := World.final_alike unrepresentable (View.backend_keeps v)
      (World.fresh_alike ⟨rfl, v.told_refl⟩ transcript) before
    exact ⟨reply, tells_of_replies hkeeps.backend.2 hreplies, rfl⟩

/-- And there is one that tells the classes. -/
theorem classes_told :
    (Reply.capsReply v.capabilityClasses v.limitsValue v.bulk.isSome).frame.encoded ∈
      (Runs.final (World.step unrepresentable (backend platform)) (.fresh b transcript)
        [World.helloFrame, ⟨.capsRequest, []⟩]).replies := by
  rw [view_replies unrepresentable h]
  exact World.capsReport_written unrepresentable View.backend v transcript

end

end Probe

end OakBarrels
