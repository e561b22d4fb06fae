import OakBarrels.Client.FrameProofs
import OakBarrels.Json.Encoding
import OakBarrels.Probe.Offers

/-!
# What a host accepts

A frame within the budget whose payload is nothing, or UTF-8 text of an object. Every reply of a
session is of that kind but the two reports, which carry what the host's own profiles are called.
-/

open Octets Binary64 Agree Utf8

namespace OakBarrels

open Json Protocol

def Accepted (bytes : Bytes) : Prop :=
  ∃ frame : Frame, bytes = frame.encoded ∧ frame.Fits ∧
    (frame.payload = [] ∨
      ValidUtf8 frame.payload ∧ ∃ members, parse frame.payload = some (.object members))

namespace Reply

def classes : Reply → List Bytes
  | .capsReply classes _ _ => classes
  | .diagReply report => report.classes
  | _ => []

/-- The reply with no classes in it. -/
def bare : Reply → Reply
  | .capsReply _ limits bulk => .capsReply [] limits bulk
  | .diagReply report => .diagReply { report with classes := [] }
  | reply => reply

/-- The list of the classes leaves room for the rest, which is written with an empty list. -/
def Roomy (reply : Reply) : Prop :=
  reply.bare.text.length + (classesValue reply.classes).dump.length ≤ 2 ^ 20 + 1

/-! ## The length of a reply -/

theorem report_length {reply : Reply} (h : reply.isReport = true) :
    reply.text.length + 2 = reply.bare.text.length + (classesValue reply.classes).dump.length := by
  cases reply with
  | capsReply classes limits bulk =>
    simp [text, bare, members, Reply.classes, Value.dump, writeValue, writeMembers, classesValue,
      writeItems]
    omega
  | diagReply report =>
    simp [text, bare, members, Reply.classes, Value.dump, writeValue, writeMembers, classesValue,
      writeItems]
    omega
  | _ => cases h

theorem code_length (n : UInt32) :
    (writeNumber (.ofInt (Int64.ofNat n.toNat).toInt)).length ≤ 11 := by
  rw [World.code_toInt]
  have hlt := n.toNat_lt
  exact integer_length (by omega)

theorem revision_length (n : Int32) : (writeNumber (.ofInt n.toInt64.toInt)).length ≤ 11 := by
  rw [Int32.toInt_toInt64]
  have hlt := n.toInt_lt
  have hle := n.le_toInt
  exact integer_length (by omega)

theorem summary_length (reason : Reason) :
    (writeEscapedString (reasonSummary reason)).length ≤ 100 := by
  cases reason <;> decide

theorem writeMembers_length {members : List (Bytes × Value)} {n : Nat}
    (h : ∀ m ∈ members, (writeEscapedString m.1).length ≤ n ∧ (writeValue m.2).length ≤ n)
    (first : Bool) :
    (writeMembers first members).length ≤ members.length * (2 * n + 2) := by
  induction members generalizing first with
  | nil => simp [writeMembers]
  | cons m rest ih =>
    obtain ⟨key, v⟩ := m
    rw [List.forall_mem_cons] at h
    have hrest := ih h.2 false
    have hcomma : (if first then [] else [ch ',']).length ≤ 1 := by cases first <;> simp
    have hproduct : (rest.length + 1) * (2 * n + 2) = rest.length * (2 * n + 2) + (2 * n + 2) :=
      Nat.succ_mul _ _
    simp only at h
    simp only [writeMembers, List.length_append, List.length_cons]
    omega

/-- The members of a reply that is no report are few and short. -/
theorem plain_members {reply : Reply} (h : reply.isReport = false) :
    reply.members.length ≤ 2 ∧ ∀ m ∈ reply.members,
      (writeEscapedString m.1).length ≤ 100 ∧ (writeValue m.2).length ≤ 100 := by
  have hcode : ∀ n : UInt32, (writeValue (.integer (Int64.ofNat n.toNat))).length ≤ 100 :=
    fun n => (code_length n).trans (by decide)
  cases reply with
  | bye => simp [members]
  | error reason =>
    simp only [members, List.forall_mem_cons]
    exact ⟨by simp, ⟨by decide, hcode _⟩, ⟨by decide, summary_length reason⟩, by simp⟩
  | helloAck revision =>
    simp only [members, List.forall_mem_cons]
    exact ⟨by simp, ⟨by decide, (revision_length revision).trans (by decide)⟩,
      ⟨by decide, by decide⟩, by simp⟩
  | openAck handle =>
    simp only [members, List.forall_mem_cons]
    exact ⟨by simp, ⟨by decide, hcode _⟩, by simp⟩
  | status handle =>
    simp only [members, List.forall_mem_cons]
    exact ⟨by simp, ⟨by decide, hcode _⟩, ⟨by decide, hcode _⟩, by simp⟩
  | _ => cases h

theorem plain_length {reply : Reply} (h : reply.isReport = false) : reply.text.length ≤ 1000 := by
  obtain ⟨hcount, hmembers⟩ := plain_members h
  have hlength := writeMembers_length hmembers true
  have htext : reply.text.length ≤ (writeMembers true reply.members).length + 2 := by
    cases reply <;> simp [text, Value.dump, writeValue]
  have hproduct := Nat.mul_le_mul_right (2 * 100 + 2) hcount
  omega

/-! ## The encoding of a reply -/

theorem names_ascii (reply : Reply) :
    ∀ key ∈ reply.members.map Prod.fst, ∀ b ∈ key, IsAscii b := by
  cases reply <;>
  · simp only [members, List.map_cons, List.map_nil]
    decide

theorem membersUtf8_iff (members : List (Bytes × Value)) :
    membersUtf8 members ↔ ∀ m ∈ members, ValidUtf8 m.1 ∧ m.2.Utf8 := by
  induction members with
  | nil => simp [membersUtf8]
  | cons m rest ih => rw [membersUtf8, ih, List.forall_mem_cons, and_assoc]

theorem classesValue_utf8 (classes : List Bytes) :
    (classesValue classes).Utf8 ↔ ∀ name ∈ classes, ValidUtf8 name := by
  unfold classesValue Value.Utf8
  induction classes with
  | nil => simp [itemsUtf8]
  | cons name rest ih =>
    rw [List.map_cons, itemsUtf8, ih, List.forall_mem_cons]
    rfl

theorem summary_utf8 (reason : Reason) : ValidUtf8 (reasonSummary reason) :=
  validUtf8_ascii (by cases reason <;> decide)

/-- Beside the limits only the names of the classes could be something else. -/
theorem text_utf8 {reply : Reply}
    (hlimits : ∀ classes limits bulk, reply = .capsReply classes limits bulk → limits.Utf8) :
    ValidUtf8 (Value.object reply.members).dump ↔ ∀ name ∈ reply.classes, ValidUtf8 name := by
  have hnames : ∀ m ∈ reply.members, ValidUtf8 m.1 := fun m hm =>
    validUtf8_ascii (reply.names_ascii m.1 (List.mem_map_of_mem hm))
  rw [dump_utf8, Value.Utf8, membersUtf8_iff, ← classesValue_utf8]
  have hvalues : (∀ m ∈ reply.members, m.2.Utf8) ↔ (classesValue reply.classes).Utf8 := by
    cases reply with
    | capsReply classes limits bulk =>
      simp [members, Reply.classes, Value.Utf8, hlimits classes limits bulk rfl]
    | error reason =>
      simp [members, Reply.classes, Value.Utf8, Value.integer, classesValue, itemsUtf8,
        summary_utf8 reason]
    | _ => simp [members, Reply.classes, Value.Utf8, Value.integer, classesValue, itemsUtf8]
  rw [← hvalues]
  exact ⟨fun h m hm => (h m hm).2, fun h m hm => ⟨hnames m hm, h m hm⟩⟩

theorem fits_iff (reply : Reply) :
    reply.frame.Fits ↔ (reply.isReport = true → reply.Roomy) := by
  change reply.text.length + 1 ≤ 2 ^ 20 ↔ _
  unfold Roomy
  cases hreport : reply.isReport with
  | false =>
    have hlength := plain_length hreport
    exact iff_of_true (by omega) (by simp)
  | true =>
    have hlength := report_length hreport
    rw [imp_iff_right rfl]
    omega

end Reply

namespace Probe

open Discovery ProbingBackend

theorem View.utf8_limits (v : View) : v.limitsValue.Utf8 := by
  rw [limitsValue_eq]
  have hnames : ValidUtf8 (ascii "max_candidates") ∧ ValidUtf8 (ascii "max_scan_depth") :=
    ⟨validUtf8_ascii (by decide), validUtf8_ascii (by decide)⟩
  simp [Value.Utf8, membersUtf8, Value.integer, hnames]

theorem Tells.utf8_iff {v : View} {reply : Reply} (h : Tells v reply) :
    ValidUtf8 (Value.object reply.members).dump ↔ ∀ name ∈ reply.classes, ValidUtf8 name := by
  refine Reply.text_utf8 fun classes limits bulk hreply => ?_
  cases h with
  | capsReply =>
    cases hreply
    exact v.utf8_limits
  | _ => cases hreply

/-- A reply reads as an object. -/
theorem Tells.reads {v : View} {reply : Reply} (h : Tells v reply) :
    ∃ members, parse (Value.object reply.members).dump = some (.object members) := by
  have hflat := flat_object h.names h.flat
  obtain ⟨w, hparse, -, halike⟩ := parse_dump_alike hflat.1 hflat.2
  cases w with
  | object members => exact ⟨members, hparse⟩
  | _ => simp [Value.finiteOrNull, Value.Alike] at halike

/-- A reply is accepted, but for a report whose classes are not UTF-8 or take up too much room. -/
theorem Tells.accepted_iff {v : View} {reply : Reply} (h : Tells v reply) :
    Accepted reply.frame.encoded ↔
      (reply.isReport = true → (∀ name ∈ reply.classes, ValidUtf8 name) ∧ reply.Roomy) := by
  have htext : reply ≠ .bye → reply.text = (Value.object reply.members).dump := by
    cases reply <;> simp [Reply.text]
  constructor
  · rintro ⟨frame, hencoded, hfits, hpayload⟩ hreport
    have hsame : reply.text = frame.payload := encodeFrame_payload hencoded
    have hobject := htext (by rintro rfl; cases hreport)
    refine ⟨h.utf8_iff.mp ?_, ?_⟩
    · rw [← hobject, hsame]
      rcases hpayload with hnil | ⟨hvalid, -⟩
      · rw [hobject, hnil] at hsame
        simp [Value.dump, writeValue] at hsame
      · exact hvalid
    · refine reply.fits_iff.mp ?_ hreport
      change reply.text.length + 1 ≤ _
      rw [hsame]
      exact hfits
  · intro hreport
    refine ⟨reply.frame, rfl, reply.fits_iff.mpr fun hr => (hreport hr).2, ?_⟩
    by_cases hbye : reply = .bye
    · exact .inl (by rw [hbye]; rfl)
    · have hnames : ∀ name ∈ reply.classes, ValidUtf8 name := by
        cases hr : reply.isReport with
        | true => exact (hreport hr).1
        | false =>
          have hnone : reply.classes = [] := by
            cases reply <;> first | rfl | cases hr
          simp [hnone]
      change reply.text = [] ∨ ValidUtf8 reply.text ∧ ∃ members, parse reply.text = _
      rw [htext hbye]
      exact .inr ⟨h.utf8_iff.mpr hnames, h.reads⟩

/-! ## The reports of a probing backend -/

theorem simulates_capsReport {σ τ : Type} {a : EngineBackend σ} {b : EngineBackend τ}
    {R : σ → τ → Prop} (h : Simulates a b R) : On R (capsReport a) (capsReport b) :=
  h.capabilityClasses.bind fun _ => h.limits.bind fun _ => h.bulkChannel.bind fun _ => .pure R _

theorem simulates_diagReport {σ τ : Type} {a : EngineBackend σ} {b : EngineBackend τ}
    {R : σ → τ → Prop} (h : Simulates a b R) (session : Session) :
    On R (diagReport a session) (diagReport b session) :=
  h.targetCount.bind fun _ => h.resolvedSymbolCount.bind fun _ => h.filesExamined.bind fun _ =>
    h.candidatesFound.bind fun _ => h.discoveryTruncated.bind fun _ => h.bulkChannel.bind fun _ =>
      h.bulkBytesForwarded.bind fun _ => h.bulkBytesDropped.bind fun _ =>
        h.capabilityClasses.bind fun _ => .pure R _

section

variable {platform : Platform} {w : World ProbingBackend} {u : View}

theorem replies_tells (hshows : Shows platform w.backend u) {request : Frame} {reply : Reply}
    (h : World.Replies (backend platform) w request reply) : Tells u reply := by
  refine tells_of_reports ?_ (fun session => ?_) h
  · rw [(simulates_capsReport (view_simulates platform) _ _ hshows).1]
    rfl
  · rw [(simulates_diagReport (view_simulates platform) session _ _ hshows).1]
    exact ⟨_, rfl, rfl, rfl⟩

theorem reports_replies {σ : Type} {backend : EngineBackend σ} {w : World σ} {request : Frame}
    {report : Reply} (h : World.Reports backend w request report) :
    World.Replies backend w request report ∧ report.isReport = true := by
  cases h with
  | caps payload _ _ htype _ => exact ⟨.capsReply htype, rfl⟩
  | diag payload _ _ htype _ _ => exact ⟨.diagReply _ htype, rfl⟩

theorem Tells.classes {reply : Reply} (h : Tells u reply) (hreport : reply.isReport = true) :
    reply.classes = u.capabilityClasses := by
  cases h with
  | capsReply => rfl
  | diagReply report hclasses _ => exact hclasses
  | _ => cases hreport

theorem replies_append {σ : Type} {w w' : World σ} {calls : List BackendCall} {frames : List Bytes}
    (h : World.Emitted w w' calls frames) : w'.replies = w.replies ++ frames := by
  obtain ⟨events, hlog, -, hframes⟩ := h
  rw [World.replies, hlog, List.filterMap_append, hframes]
  rfl

/-- The frames that a request adds are accepted where the report that it asks for is presentable. -/
theorem handle_accepted (unrepresentable : Unrepresentable) (hshows : Shows platform w.backend u)
    (request : Frame) :
    (∀ bytes ∈ (w.handle unrepresentable (backend platform) request).2.replies, Accepted bytes) ↔
      (∀ bytes ∈ w.replies, Accepted bytes) ∧
        ∀ report, World.Reports (backend platform) w request report →
          (∀ name ∈ u.capabilityClasses, ValidUtf8 name) ∧ report.Roomy := by
  have hpresentable : ∀ report, World.Reports (backend platform) w request report →
      (Accepted report.frame.encoded ↔
        (∀ name ∈ u.capabilityClasses, ValidUtf8 name) ∧ report.Roomy) := by
    intro report hreports
    obtain ⟨hreplies, hreport⟩ := reports_replies hreports
    have htells := replies_tells hshows hreplies
    rw [htells.accepted_iff, ← htells.classes hreport, imp_iff_right hreport]
  have hadded : ∀ {calls frame}, World.Emitted w
      (w.handle unrepresentable (backend platform) request).2 calls [frame] →
      ((∀ bytes ∈ (w.handle unrepresentable (backend platform) request).2.replies,
        Accepted bytes) ↔ (∀ bytes ∈ w.replies, Accepted bytes) ∧ Accepted frame) := by
    intro calls frame hemitted
    rw [replies_append hemitted, List.forall_mem_append, List.forall_mem_singleton]
  cases hlive : w.session.finished with
  | true =>
    rw [World.handle_finished (backend platform) hlive]
    refine (and_iff_left ?_).symm
    intro report hreports
    cases hreports <;> simp_all
  | false =>
    by_cases hasks : ∃ report, World.Reports (backend platform) w request report
    · obtain ⟨report, hreports⟩ := hasks
      obtain ⟨calls, hemitted⟩ := World.handle_reports unrepresentable _ hreports
      rw [hadded hemitted, hpresentable report hreports]
      refine and_congr_right fun _ => ⟨fun h other hother => ?_, fun h => h report hreports⟩
      obtain ⟨calls', hemitted'⟩ := World.handle_reports unrepresentable _ hother
      have hsame := List.singleton_inj.mp (hemitted.unique hemitted').2
      rw [← hpresentable other hother, ← hsame]
      exact (hpresentable report hreports).mpr h
    · have hnone : ∀ report, ¬ World.Reports (backend platform) w request report :=
        not_exists.mp hasks
      obtain ⟨calls, reply, hemitted, hreplies, hplain⟩ :=
        World.handle_plain unrepresentable _ hlive hnone
      have haccepted := (replies_tells hshows hreplies).accepted_iff.mpr (by simp [hplain])
      rw [hadded hemitted]
      exact and_congr_right fun _ =>
        ⟨fun _ report hreports => absurd hreports (hnone report), fun _ => haccepted⟩

end

/-! ## Whole sessions -/

/-- A frame of the host, or whatever the channel does to its counters in the meantime. -/
inductive Turn
  | request (frame : Frame)
  | audio (counters : BulkCounters)

def counting (b : ProbingBackend) (counters : BulkCounters) : ProbingBackend :=
  { b with bulk := b.bulk.map fun _ => counters }

def turn (unrepresentable : Unrepresentable) (platform : Platform) (w : World ProbingBackend) :
    Turn → World ProbingBackend
  | .request frame => (w.handle unrepresentable (backend platform) frame).2
  | .audio counters => { w with backend := counting w.backend counters }

def play (unrepresentable : Unrepresentable) (platform : Platform) (w : World ProbingBackend)
    (turns : List Turn) : World ProbingBackend :=
  turns.foldl (turn unrepresentable platform) w

theorem play_concat (unrepresentable : Unrepresentable) (platform : Platform)
    (w : World ProbingBackend) (turns : List Turn) (last : Turn) :
    play unrepresentable platform w (turns ++ [last])
      = turn unrepresentable platform (play unrepresentable platform w turns) last := by
  simp [play]

/-- A view that offers the same. -/
def View.Kin (v u : View) : Prop := u.profiles = v.profiles ∧ u.bulk.isSome = v.bulk.isSome

theorem View.Kin.capabilityClasses {v u : View} (h : v.Kin u) :
    u.capabilityClasses = v.capabilityClasses := by
  unfold View.capabilityClasses
  rw [h.1, h.2]

section

variable (unrepresentable : Unrepresentable) {platform : Platform} {w : World ProbingBackend}
  {v u : View}

theorem handle_kin (hshows : Shows platform w.backend u) (hkin : v.Kin u) (request : Frame) :
    ∃ u', Shows platform (w.handle unrepresentable (backend platform) request).2.backend u' ∧
      v.Kin u' := by
  let seen : World View := ⟨w.session, u, w.log⟩
  have halike := World.handle_alike unrepresentable (view_simulates platform)
    (show World.Alike (Shows platform) w seen from ⟨rfl, rfl, hshows⟩) request
  have hkeeps := World.handle_alike unrepresentable (View.backend_keeps u)
    (show World.Alike _ seen seen from ⟨rfl, rfl, rfl, u.told_refl⟩) request
  obtain ⟨next, live, htold⟩ := hkeeps.2.backend.2
  refine ⟨_, halike.2.backend, ?_⟩
  rw [htold]
  exact hkin

theorem counting_probed (b : ProbingBackend) (counters : BulkCounters) :
    ((counting b counters).ensureProbed platform).attempt = (b.ensureProbed platform).attempt ∧
      ((counting b counters).ensureProbed platform).bulk.isSome
        = (b.ensureProbed platform).bulk.isSome := by
  unfold ensureProbed setUpBulk counting
  simp only
  split
  · exact ⟨rfl, Option.isSome_map⟩
  · split
    · split
      · exact ⟨rfl, Option.isSome_map⟩
      · exact ⟨rfl, rfl⟩
    · exact ⟨rfl, Option.isSome_map⟩

theorem counting_kin {b : ProbingBackend} (hshows : Shows platform b u) (hkin : v.Kin u)
    (counters : BulkCounters) : ∃ u', Shows platform (counting b counters) u' ∧ v.Kin u' := by
  obtain ⟨rfl, hfaithful⟩ := hshows
  obtain ⟨hattempt, hbulk⟩ := @counting_probed platform b counters
  refine ⟨_, ⟨rfl, ?_⟩, ?_, ?_⟩
  · unfold engine
    rw [hattempt]
    exact hfaithful
  · rw [← hkin.1]
    unfold view look
    simp only [hattempt]
  · rw [← hkin.2]
    exact hbulk

theorem play_kin (hshows : Shows platform w.backend v) (turns : List Turn) :
    ∃ u, Shows platform (play unrepresentable platform w turns).backend u ∧ v.Kin u := by
  induction turns using List.reverseRecOn with
  | nil => exact ⟨v, hshows, rfl, rfl⟩
  | append_singleton turns last ih =>
    obtain ⟨u, hu, hkin⟩ := ih
    rw [play_concat]
    cases last with
    | request frame => exact handle_kin unrepresentable hu hkin frame
    | audio counters => exact counting_kin hu hkin counters

/-- A run is accepted where every report that it asks for is presentable. -/
theorem play_accepted (hshows : Shows platform w.backend v) (hnone : w.replies = [])
    (turns : List Turn) :
    (∀ bytes ∈ (play unrepresentable platform w turns).replies, Accepted bytes) ↔
      ∀ before request report, before ++ [.request request] <+: turns →
        World.Reports (backend platform) (play unrepresentable platform w before) request report →
        (∀ name ∈ v.capabilityClasses, ValidUtf8 name) ∧ report.Roomy := by
  induction turns using List.reverseRecOn with
  | nil => simp [play, hnone]
  | append_singleton turns last ih =>
    obtain ⟨u, hu, hkin⟩ := play_kin unrepresentable hshows turns
    rw [play_concat]
    cases last with
    | audio counters =>
      change (∀ bytes ∈ (play unrepresentable platform w turns).replies, Accepted bytes) ↔ _
      have hpart : ∀ before request, before ++ [Turn.request request]
          <+: turns ++ [.audio counters] ↔ before ++ [.request request] <+: turns := by
        intro before request
        rw [List.prefix_concat_iff, or_iff_right]
        intro heq
        cases List.append_inj_right' heq rfl
      simp only [ih, hpart]
    | request frame =>
      simp only [turn]
      rw [handle_accepted unrepresentable hu, ih, hkin.capabilityClasses]
      constructor
      · rintro ⟨hbefore, hlast⟩ before request report hpart hreports
        rcases List.prefix_concat_iff.mp hpart with heq | hpart
        · obtain ⟨rfl, hframe⟩ := List.append_inj' heq rfl
          cases hframe
          exact hlast report hreports
        · exact hbefore before request report hpart hreports
      · intro h
        exact ⟨fun before request report hpart => h before request report
          (hpart.trans (List.prefix_append _ _)), fun report => h turns frame report
            List.prefix_rfl⟩

theorem capabilityClasses_utf8 (v : View) : (∀ name ∈ v.capabilityClasses, ValidUtf8 name) ↔
    ∀ p ∈ v.profiles, ValidUtf8 p.capabilityClass := by
  have hbulk : ValidUtf8 kBulkCapabilityClass := validUtf8_ascii (by decide)
  unfold View.capabilityClasses
  cases v.bulk.isSome <;> simp [or_imp, forall_and, hbulk]

/-- Frames that are accepted come out of both decoders, however the stream is cut. -/
theorem accepted_decodes {replies : List Bytes} (h : ∀ bytes ∈ replies, Accepted bytes) :
    ∃ frames : List Frame, replies = frames.map Frame.encoded ∧
      (∀ ops, FrameDecoder.fed ops = replies.flatten → FrameDecoder.Drained ops →
        FrameDecoder.frames ops = frames ∧ FrameDecoder.after ops = .fresh) ∧
      ∀ c : Client.Convert, c.ReadsJson → ∀ chunks, chunks.flatten = replies.flatten →
        ∃ received : List (List (Client.Frame c)),
          (Runs.trace Client.FrameDecoder.add ⟨[]⟩ chunks).map Prod.snd = received.map .ok ∧
          List.Forall₂ Client.Reads frames received.flatten ∧
          (Runs.final (Client.FrameDecoder.add (c := c)) ⟨[]⟩ chunks).buffer = [] := by
  obtain ⟨frames, hframes, hall⟩ : ∃ frames : List Frame, replies = frames.map Frame.encoded ∧
      ∀ frame ∈ frames, frame.Fits ∧ (frame.payload = [] ∨
        ValidUtf8 frame.payload ∧ ∃ members, parse frame.payload = some (.object members)) := by
    induction replies with
    | nil => exact ⟨[], rfl, by simp⟩
    | cons bytes rest ih =>
      rw [List.forall_mem_cons] at h
      obtain ⟨frames, rfl, hall⟩ := ih h.2
      obtain ⟨frame, rfl, hframe⟩ := h.1
      exact ⟨frame :: frames, rfl, List.forall_mem_cons.mpr ⟨hframe, hall⟩⟩
  have hstream : replies.flatten = encodeAll frames := by
    rw [hframes, encodeAll, List.flatMap]
  have hfits : ∀ frame ∈ frames, frame.Fits := fun frame hmem => (hall frame hmem).1
  refine ⟨frames, hframes, ?_, ?_⟩
  · intro ops hfed hdrained
    exact FrameDecoder.drained_frames hfits (hfed.trans hstream) hdrained
  · intro c hconvert chunks hchunks
    obtain ⟨received, hreads⟩ : ∃ received : List (Client.Frame c),
        List.Forall₂ Client.Reads frames received :=
      Pointwise.exists_forall₂.mpr fun frame hmem => hconvert.reads (hall frame hmem).2
    obtain ⟨parts, houtcomes, hflat, hend⟩ := Client.run_spec chunks (d := ⟨[]⟩) hfits hreads
      (.inl (by simp)) (by simpa using hchunks.trans hstream)
    exact ⟨parts, houtcomes, by rw [hflat]; exact hreads, hend⟩

end

/-- **Every frame is accepted** in a run of frames and audio exactly when each report that it asks for
is presentable: the names of the classes that the module satisfies are UTF-8, and their list leaves
room for the rest of the report. Then both decoders return every frame of the run. -/
theorem replies_accepted_iff (unrepresentable : Unrepresentable) (platform : Platform)
    (roots : List Bytes) (profiles : List Profile) (audioEndpoint : Bool) (limits : ScanLimits)
    (transcript : Bool) (turns : List Turn) :
    let engine : BoundEngine := (bindFirstAvailable platform
      (scanForCandidates platform.lookup roots limits).candidates profiles).engine
    let start : World ProbingBackend :=
      .fresh (.create roots profiles audioEndpoint limits) transcript
    let replies : List Bytes := (play unrepresentable platform start turns).replies
    ((∀ bytes ∈ replies, Accepted bytes) ↔
      ∀ before request report, before ++ [.request request] <+: turns →
        World.Reports (backend platform) (play unrepresentable platform start before) request
          report →
        (∀ p ∈ engine.profiles, ValidUtf8 p.capabilityClass) ∧ report.Roomy) ∧
    ((∀ bytes ∈ replies, Accepted bytes) →
      ∃ frames : List Frame, replies = frames.map Frame.encoded ∧
        (∀ ops, FrameDecoder.fed ops = replies.flatten → FrameDecoder.Drained ops →
          FrameDecoder.frames ops = frames ∧ FrameDecoder.after ops = .fresh) ∧
        ∀ c : Client.Convert, c.ReadsJson → ∀ chunks, chunks.flatten = replies.flatten →
          ∃ received : List (List (Client.Frame c)),
            (Runs.trace Client.FrameDecoder.add ⟨[]⟩ chunks).map Prod.snd = received.map .ok ∧
            List.Forall₂ Client.Reads frames received.flatten ∧
            (Runs.final (Client.FrameDecoder.add (c := c)) ⟨[]⟩ chunks).buffer = []) := by
  intro engine start replies
  have hprofiles : (view platform (.create roots profiles audioEndpoint limits)).profiles
      = engine.profiles := congrArg BoundEngine.profiles (create_engine ..)
  have haccepted := play_accepted unrepresentable (w := start)
    (create_shows platform roots profiles audioEndpoint limits) rfl turns
  simp only [capabilityClasses_utf8, hprofiles] at haccepted
  exact ⟨haccepted, accepted_decodes⟩

def greeting : List Turn := [.request World.helloFrame, .request ⟨.capsRequest, []⟩]

theorem asciiConvert_reads : Client.asciiConvert.ReadsJson where
  utf8 bytes _ := ⟨bytes, rfl⟩
  object bytes text members _ htext hparse := by
    cases htext
    refine ⟨members, ?_⟩
    unfold Client.asciiConvert
    simp only [hparse]

theorem replies_accepted_iff_greeted :
    let start : World ProbingBackend := .fresh (.create [ascii "/r"] [oneProfile] false {}) false
    let replies : List Bytes := (play (fun _ => Int64.minValue) onePlatform start greeting).replies
    (∀ bytes ∈ replies, Accepted bytes) ∧ ∃ frames : List Frame,
      replies = frames.map Frame.encoded ∧ ∀ chunks, chunks.flatten = replies.flatten →
        ∃ received : List (List (Client.Frame Client.asciiConvert)),
          (Runs.trace Client.FrameDecoder.add ⟨[]⟩ chunks).map Prod.snd = received.map .ok ∧
          List.Forall₂ Client.Reads frames received.flatten := by
  intro start replies
  obtain ⟨hiff, hdecodes⟩ := replies_accepted_iff (fun _ => Int64.minValue) onePlatform [ascii "/r"]
    [oneProfile] false {} false greeting
  have haccepted : ∀ bytes ∈ replies, Accepted bytes := by
    refine hiff.mpr fun before request report hpart hreports => ⟨?_, ?_⟩
    · intro p hp
      have hprofiles : (bindFirstAvailable onePlatform (scanForCandidates onePlatform.lookup
          [ascii "/r"] {}).candidates [oneProfile]).engine.profiles = [oneProfile] := by
        decide +kernel
      rw [hprofiles, List.mem_singleton] at hp
      rw [hp]
      exact validUtf8_ascii (by decide)
    · obtain ⟨after, hafter⟩ := hpart
      rcases before with - | ⟨first, - | ⟨second, rest⟩⟩
      · cases hreports with
        | caps payload _ hnegotiated => cases hnegotiated
        | diag payload _ hnegotiated => cases hnegotiated
      · obtain ⟨rfl, rfl, -⟩ : first = .request World.helloFrame ∧ request = ⟨.capsRequest, []⟩ ∧
            after = [] := by simpa [greeting] using hafter
        cases hreports with
        | caps payload => unfold Reply.Roomy; decide +kernel
        | diag payload _ _ htype => cases htype
      · simp [greeting] at hafter
  obtain ⟨frames, hframes, -, hdart⟩ := hdecodes haccepted
  refine ⟨haccepted, frames, hframes, fun chunks hchunks => ?_⟩
  obtain ⟨received, houtcomes, hreads, -⟩ := hdart Client.asciiConvert asciiConvert_reads chunks hchunks
  exact ⟨received, houtcomes, hreads⟩

/-- A document whose class is one byte that begins no character. -/
def strayDocument : Bytes :=
  ascii "\x7b\"profiles\":[\x7b\"class\":\"" ++ [0xff] ++ ascii "\",\"bindings\":[" ++
    ascii "\x7b\"role\":\"set\",\"symbol\":\"s\",\"shape\":\"level\"\x7d" ++ ascii "]\x7d]\x7d"

/-- The byte comes back to the host in a report. -/
theorem replies_accepted_fails_at_stray :
    ¬ ∀ (platform : Platform) (roots : List Bytes) (text : Bytes) (profiles : List Profile)
      (audioEndpoint : Bool) (limits : ScanLimits), parseProfiles text = some profiles →
      ∀ turns, ∀ bytes ∈ (play (fun _ => Int64.minValue) platform
        (.fresh (.create roots profiles audioEndpoint limits) false) turns).replies,
      Accepted bytes := by
  intro h
  have hparse : parseProfiles strayDocument = some [⟨[0xff], [⟨.set, ascii "s", .level⟩]⟩] := by
    decide +kernel
  have hall := h onePlatform [ascii "/r"] strayDocument _ false {} hparse greeting
  have hshows := create_shows onePlatform [ascii "/r"]
    [⟨[0xff], [⟨.set, ascii "s", .level⟩]⟩] false {}
  obtain ⟨hnegotiated, hlive, -⟩ := World.helloFrame_negotiates (fun _ => Int64.minValue)
    (backend onePlatform) (.create [ascii "/r"] [⟨[0xff], [⟨.set, ascii "s", .level⟩]⟩] false {})
    false
  have hpresentable := (play_accepted (fun _ => Int64.minValue) hshows rfl greeting).mp hall
    [.request World.helloFrame] ⟨.capsRequest, []⟩ _ List.prefix_rfl
    (.caps (.object []) hlive hnegotiated rfl rfl)
  have hvalid := hpresentable.1 [0xff] (by decide +kernel)
  exact absurd (validUtf8_singleton.mp hvalid) (by decide)

end Probe

end OakBarrels
