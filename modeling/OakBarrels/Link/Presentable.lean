import OakBarrels.Json.Length
import OakBarrels.Link.Reading

/-!
# Replies that can be read

A session whose engine names its classes in UTF-8, and not too many, sends nothing but replies that fit
a frame and that the client can read.
-/

open Octets Binary64 Utf8

namespace OakBarrels

open Json Protocol

/-- Whatever the session is asked, its replies fit and can be read. -/
structure Presentable {σ : Type} (unrepresentable : Unrepresentable) (backend : EngineBackend σ)
    (Good : World σ → Prop) : Prop where
  kept : ∀ w frame, Good w → Good (w.handle unrepresentable backend frame).2
  presented : ∀ w frame reply, Good w → World.Replies backend w frame reply → reply.Presented

/-! ## What an engine says of itself -/

/-- The names are UTF-8, and a report with them is within the budget of a frame. -/
structure Room (classes : List Bytes) : Prop where
  utf8 : ∀ name ∈ classes, ValidUtf8 name
  length : (Reply.classesValue classes).dump.length ≤ 2 ^ 20 - 3000

structure Light (limits : Value) : Prop where
  isObject : ∃ entries, limits = .object entries
  flat : Flat limits
  utf8 : limits.Utf8
  length : (writeValue limits).length ≤ 100

theorem room_nil : Room [] := ⟨by simp, by decide⟩

theorem light_empty : Light (.object []) :=
  ⟨⟨[], rfl⟩, ⟨.object (by simp) (by simp), by decide⟩, by simp [Value.Utf8, membersUtf8], by decide⟩

/-- The limits of a search. -/
theorem light_search (files depth : Int64) : Light (.object
    [(ascii "max_candidates", .integer files), (ascii "max_scan_depth", .integer depth)]) := by
  have hnames : ValidUtf8 (ascii "max_candidates") ∧ ValidUtf8 (ascii "max_scan_depth") :=
    ⟨validUtf8_ascii (by decide), validUtf8_ascii (by decide)⟩
  refine ⟨⟨_, rfl⟩, ⟨.object ?_ ?_, ?_⟩, ?_, ?_⟩
  · simp only [List.map_cons, List.map_nil]
    decide
  · simp only [List.forall_mem_cons]
    exact ⟨.number _, .number _, by simp⟩
  · simp [Value.height, membersHeight, Value.integer]
  · simp [Value.Utf8, membersUtf8, Value.integer, hnames]
  · have hfiles := number_length (.ofInt files.toInt)
    have hdepth := number_length (.ofInt depth.toInt)
    have hfirst : (writeEscapedString (ascii "max_candidates")).length = 16 := by decide
    have hsecond : (writeEscapedString (ascii "max_scan_depth")).length = 16 := by decide
    simp only [writeValue, writeMembers, Value.integer, List.length_cons, List.length_append,
      List.length_nil, if_true, Bool.false_eq_true, if_false, hfirst, hsecond]
    omega

namespace Reply

variable {reply : Reply}

theorem names_nodup (reply : Reply) : (reply.members.map Prod.fst).Nodup := by
  cases reply <;>
  · simp only [members, List.map_cons, List.map_nil]
    decide

theorem members_flat
    (hlimits : ∀ classes limits bulk, reply = .capsReply classes limits bulk → Light limits) :
    ∀ m ∈ reply.members, Flat m.2 := by
  have hfeatures : Flat (.array []) := flat_classes []
  cases reply with
  | capsReply classes limits bulk => simp [members, (hlimits classes limits bulk rfl).flat]
  | _ => simp [members, hfeatures]

/-- Without its classes a report is short. -/
theorem bare_length (hreport : reply.isReport = true)
    (hlimits : ∀ classes limits bulk, reply = .capsReply classes limits bulk → Light limits) :
    reply.bare.text.length ≤ 3000 := by
  have hboolean : ∀ b, (writeValue (.boolean b)).length ≤ 100 := by decide
  have hinteger : ∀ k : Int64, (writeValue (.integer k)).length ≤ 100 :=
    fun k => (number_length _).trans (by decide)
  have hclasses : (writeValue (classesValue [])).length ≤ 100 := by decide
  have hall : reply.bare.members.length ≤ 12 ∧ ∀ m ∈ reply.bare.members,
      (writeEscapedString m.1).length ≤ 100 ∧ (writeValue m.2).length ≤ 100 := by
    cases reply with
    | capsReply classes limits bulk =>
      have hshort := (hlimits classes limits bulk rfl).length
      simp only [bare, members, List.forall_mem_cons]
      exact ⟨by simp, ⟨by decide, hclasses⟩, ⟨by decide, hshort⟩, ⟨by decide, hboolean _⟩, by simp⟩
    | diagReply report =>
      simp only [bare, members, List.forall_mem_cons]
      exact ⟨by simp, ⟨by decide, hboolean _⟩, ⟨by decide, hboolean _⟩, ⟨by decide, hinteger _⟩,
        ⟨by decide, hinteger _⟩, ⟨by decide, hinteger _⟩, ⟨by decide, hinteger _⟩,
        ⟨by decide, hinteger _⟩, ⟨by decide, hboolean _⟩, ⟨by decide, hboolean _⟩,
        ⟨by decide, hinteger _⟩, ⟨by decide, hinteger _⟩, ⟨by decide, hclasses⟩, by simp⟩
    | _ => cases hreport
  have hlength := writeMembers_length hall.2 true
  have htext : reply.bare.text.length ≤ (writeMembers true reply.bare.members).length + 2 := by
    cases reply <;> simp [bare, text, Value.dump, writeValue]
  have hproduct := Nat.mul_le_mul_right (2 * 100 + 2) hall.1
  omega

/-- A reply is presented where its classes have room and its limits are light. -/
theorem presented_of (hroom : Room reply.classes)
    (hlimits : ∀ classes limits bulk, reply = .capsReply classes limits bulk → Light limits) :
    reply.Presented := by
  have hflat := flat_object reply.names_nodup (members_flat hlimits)
  refine ⟨hflat.1, hflat.2, ?_, ?_, fun classes limits bulk hreply =>
    (hlimits classes limits bulk hreply).isObject⟩
  · rw [← dump_utf8, text_utf8 fun classes limits bulk hreply => (hlimits classes limits bulk hreply).utf8]
    exact hroom.utf8
  · rw [fits_iff]
    intro hreport
    have hbare := bare_length hreport hlimits
    have hclasses := hroom.length
    unfold Roomy
    omega

end Reply

/-! ## The backends -/

section

variable {σ : Type} {backend : EngineBackend σ}

/-- A backend with classes that have room and limits that are light, in whatever state. -/
theorem presentable_of (unrepresentable : Unrepresentable)
    (hclasses : ∀ b, Room (backend.capabilityClasses b).1) (hlimits : ∀ b, Light (backend.limits b).1) :
    Presentable unrepresentable backend fun _ => True := by
  refine ⟨fun _ _ _ => trivial, fun w frame reply _ hreplies => ?_⟩
  cases hreplies with
  | capsReply =>
    refine Reply.presented_of (hclasses _) fun classes limits bulk hreply => ?_
    cases hreply
    exact hlimits _
  | diagReply session => exact Reply.presented_of (hclasses _) nofun
  | _ => exact Reply.presented_of room_nil nofun

theorem null_presentable (unrepresentable : Unrepresentable) :
    Presentable unrepresentable nullBackend fun _ => True :=
  presentable_of unrepresentable (fun _ => room_nil) fun _ => light_empty

theorem discovery_presentable (unrepresentable : Unrepresentable)
    (lookup : Bytes → Discovery.FileEntry) :
    Presentable unrepresentable (Discovery.DiscoveryBackend.backend lookup) fun _ => True :=
  presentable_of unrepresentable (fun _ => room_nil) fun _ => light_search _ _

end

namespace Probe

open ProbingBackend

/-- A backend that probes, where the classes that it came to offer have room. -/
theorem probing_presentable (unrepresentable : Unrepresentable) (platform : Platform) {v : View}
    (hroom : Room v.capabilityClasses) : Presentable unrepresentable (ProbingBackend.backend platform)
      fun w => ∃ u, Shows platform w.backend u ∧ v.Kin u := by
  refine ⟨fun w frame ⟨u, hshows, hkin⟩ => handle_kin unrepresentable hshows hkin frame, ?_⟩
  rintro w frame reply ⟨u, hshows, hkin⟩ hreplies
  rw [← hkin.capabilityClasses] at hroom
  cases replies_tells hshows hreplies with
  | capsReply =>
    refine Reply.presented_of hroom fun classes limits bulk hreply => ?_
    cases hreply
    exact light_search _ _
  | diagReply report hclasses =>
    refine Reply.presented_of ?_ nofun
    change Room report.classes
    rw [hclasses]
    exact hroom
  | _ => exact Reply.presented_of room_nil nofun

end Probe

end OakBarrels
