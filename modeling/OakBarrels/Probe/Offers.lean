import OakBarrels.Payloads
import OakBarrels.Probe.Answers

/-!
# What is said of the audio channel

A report says it twice: in its list of classes and in its flag. The two agree as long as no profile
takes the name of the class that stands for the channel.
-/

open Octets Binary64

namespace OakBarrels

open Json Protocol

namespace Probe

open Discovery ProbingBackend

theorem View.limitsValue_eq (v : View) : v.limitsValue = .object
    [(ascii "max_candidates", .integer (Int64.ofNat v.limits.maxFiles)),
      (ascii "max_scan_depth", .integer (Int64.ofNat v.limits.maxDepth))] := rfl

theorem View.flat_limits (v : View) : Flat v.limitsValue := by
  refine ⟨((Built.object.set _ (Built.integer _)).set _ (Built.integer _)).distinct, ?_⟩
  rw [limitsValue_eq]
  simp [Value.height, membersHeight, Value.integer]

theorem Tells.flat {v : View} {reply : Reply} (h : Tells v reply) :
    ∀ m ∈ reply.members, Flat m.2 := by
  have hfeatures : Flat (.array []) := flat_classes []
  cases h <;> simp [Reply.members, v.flat_limits, hfeatures]

theorem Tells.names {v : View} {reply : Reply} (h : Tells v reply) :
    (reply.members.map Prod.fst).Nodup := by
  cases h <;>
  · simp only [Reply.members, List.map_cons, List.map_nil]
    decide

/-- What a reader finds under a name of a reply. -/
theorem Tells.find {v : View} {reply : Reply} (h : Tells v reply) {key : Bytes} {u : Value}
    (hu : (Value.object reply.members).find key = some u) :
    ∃ w t, parse (Value.object reply.members).dump = some w ∧ w.find key = some t ∧
      t.Alike u.finiteOrNull :=
  have hflat := flat_object h.names h.flat
  find_dump hflat.1 hflat.2 hu

/-! ## The two mentions of the channel -/

/-- The class list of a report and its flag say the same of the audio channel, and the list names
its class once at most. -/
def Consistent (payload : Bytes) (channel : Bool) : Prop :=
  ∃ v classes, parse payload = some v ∧
    v.find (ascii "classes") = some (Reply.classesValue classes) ∧
    v.find (ascii "bulk") = some (.boolean channel) ∧
    (kBulkCapabilityClass ∈ classes ↔ channel = true) ∧ classes.count kBulkCapabilityClass ≤ 1

theorem consistent_iff {v : View} {reply : Reply} (h : Tells v reply) {classes : List Bytes}
    {channel : Bool}
    (hclasses : (Value.object reply.members).find (ascii "classes")
      = some (Reply.classesValue classes))
    (hbulk : (Value.object reply.members).find (ascii "bulk") = some (.boolean channel)) :
    Consistent (Value.object reply.members).dump channel ↔
      (kBulkCapabilityClass ∈ classes ↔ channel = true) ∧
        classes.count kBulkCapabilityClass ≤ 1 := by
  obtain ⟨w, t, hparse, hfound, halike⟩ := h.find hclasses
  obtain ⟨w', t', hparse', hfound', halike'⟩ := h.find hbulk
  obtain rfl : w = w' := Option.some.inj (hparse.symm.trans hparse')
  rw [classes_alike halike] at hfound
  rw [boolean_alike halike'] at hfound'
  constructor
  · rintro ⟨v', classes', hv', hlist, -, hmem, hcount⟩
    obtain rfl : w = v' := Option.some.inj (hparse.symm.trans hv')
    have heq : classes = classes' := by
      have hsame := Option.some.inj (hfound.symm.trans hlist)
      unfold Reply.classesValue at hsame
      exact List.map_injective_iff.mpr (fun _ _ => Value.string.inj) (Value.array.inj hsame)
    rw [heq]
    exact ⟨hmem, hcount⟩
  · rintro ⟨hmem, hcount⟩
    exact ⟨w, classes, hparse, hfound, hfound', hmem, hcount⟩

/-- A view offers the class of the channel in the name of the channel alone. -/
theorem View.offers_iff (v : View) :
    (kBulkCapabilityClass ∈ v.capabilityClasses ↔ v.bulk.isSome = true) ∧
        v.capabilityClasses.count kBulkCapabilityClass ≤ 1 ↔
      ∀ p ∈ v.profiles, p.capabilityClass ≠ kBulkCapabilityClass := by
  have hnamed : (∀ p ∈ v.profiles, p.capabilityClass ≠ kBulkCapabilityClass) ↔
      kBulkCapabilityClass ∉ v.profiles.map (·.capabilityClass) := by simp
  rw [hnamed]
  unfold capabilityClasses
  cases v.bulk.isSome with
  | true =>
    have hcount := List.count_eq_zero (a := kBulkCapabilityClass)
      (l := v.profiles.map (·.capabilityClass))
    simpa [List.count_append] using hcount
  | false =>
    simp only [Bool.false_eq_true, if_false, List.append_nil, iff_false]
    refine ⟨And.left, fun hnot => ⟨hnot, ?_⟩⟩
    rw [List.count_eq_zero.mpr hnot]
    exact Nat.zero_le 1

theorem Tells.consistent {v : View} {type : MessageType} {payload : Bytes} {reply : Reply}
    (htells : Tells v reply) (hwritten : encodeFrame type payload = reply.frame.encoded)
    (htype : type = .capsReply ∨ type = .diagReply)
    (h : ∀ p ∈ v.profiles, p.capabilityClass ≠ kBulkCapabilityClass) :
    Consistent payload v.bulk.isSome := by
  obtain rfl : payload = reply.text := encodeFrame_payload hwritten
  obtain rfl : type = reply.type := encodeFrame_type hwritten
  cases htells with
  | capsReply => exact (consistent_iff .capsReply rfl rfl).mpr (v.offers_iff.mpr h)
  | diagReply report hclasses hbulk =>
    have hfound : (Value.object (Reply.diagReply report).members).find (ascii "classes")
        = some (Reply.classesValue v.capabilityClasses) := by
      rw [← hclasses]
      rfl
    refine (consistent_iff (.diagReply report hclasses hbulk) hfound ?_).mpr (v.offers_iff.mpr h)
    rw [← hbulk]
    rfl
  | _ => simp [Reply.type] at htype

/-! ## Whole sessions -/

/-- A channel was set up: the host named an endpoint, and the engine took the sink. -/
def channelSetUp (audioEndpoint : Bool) (engine : BoundEngine) : Bool :=
  audioEndpoint && engine.installSink.isSome

theorem installSink_binds {engine : BoundEngine} (h : engine.installSink.isSome = true) :
    engine.hasBinding .bulk = true := by
  unfold BoundEngine.installSink at h
  rw [Option.isSome_map] at h
  unfold BoundEngine.addressFor at h
  unfold BoundEngine.hasBinding
  cases hbinding : engine.bindingFor .bulk with
  | none => simp [hbinding] at h
  | some binding => rfl

theorem create_channel (platform : Platform) (roots : List Bytes) (profiles : List Profile)
    (audioEndpoint : Bool) (limits : ScanLimits) :
    (view platform (.create roots profiles audioEndpoint limits)).bulk.isSome
      = channelSetUp audioEndpoint (bindFirstAvailable platform
          (scanForCandidates platform.lookup roots limits).candidates profiles).engine := by
  unfold view look ensureProbed setUpBulk channelSetUp
  simp only [create, Bool.false_eq_true, if_false]
  cases audioEndpoint with
  | false => rfl
  | true =>
    simp only [Bool.true_and]
    split
    · split <;> simp_all
    · rename_i hnone
      cases hsink : (bindFirstAvailable platform
          (scanForCandidates platform.lookup roots limits).candidates
          profiles).engine.installSink.isSome with
      | false => rfl
      | true => exact absurd (installSink_binds hsink) hnone

/-- **The channel is reported consistently**, in every report of every run, exactly when no profile
that the module satisfies is of the class that stands for the channel. -/
theorem consistent_reports_iff (unrepresentable : Unrepresentable) (platform : Platform)
    (roots : List Bytes) (profiles : List Profile) (audioEndpoint : Bool) (limits : ScanLimits)
    (transcript : Bool) :
    let engine : BoundEngine := (bindFirstAvailable platform
      (scanForCandidates platform.lookup roots limits).candidates profiles).engine
    (∀ (frames : List Frame) (type : MessageType) (payload : Bytes),
      type = .capsReply ∨ type = .diagReply →
      encodeFrame type payload ∈ (Runs.final (World.step unrepresentable (backend platform))
        (.fresh (.create roots profiles audioEndpoint limits) transcript) frames).replies →
      Consistent payload (channelSetUp audioEndpoint engine)) ↔
    ∀ p ∈ engine.profiles, p.capabilityClass ≠ kBulkCapabilityClass := by
  intro engine
  have hshows := create_shows platform roots profiles audioEndpoint limits
  have hchannel := create_channel platform roots profiles audioEndpoint limits
  have hprofiles : (view platform (.create roots profiles audioEndpoint limits)).profiles
      = engine.profiles := congrArg BoundEngine.profiles (create_engine ..)
  rw [← hchannel, ← hprofiles]
  constructor
  · intro h
    have htold := classes_told unrepresentable hshows transcript
    have hreport := h _ .capsReply _ (.inl rfl) htold
    exact (View.offers_iff _).mp ((consistent_iff .capsReply rfl rfl).mp hreport)
  · intro h frames type payload htype hwritten
    obtain ⟨reply, htells, hbytes⟩ := run_tells unrepresentable hshows transcript frames hwritten
    exact htells.consistent hbytes htype h

/-- The profile of `oneProfile` under the name of the class that stands for the channel. -/
def shadowingDocument : Bytes :=
  ascii "\x7b\"profiles\":[\x7b\"class\":\"engine.bulk.pcm\",\"bindings\":[" ++
    ascii "\x7b\"role\":\"set\",\"symbol\":\"s\",\"shape\":\"level\"\x7d" ++ ascii "]\x7d]\x7d"

/-- A report offers the class, and no audio endpoint was ever named. -/
theorem consistent_reports_fail_at_shadow :
    ¬ ∀ (platform : Platform) (roots : List Bytes) (text : Bytes) (profiles : List Profile)
      (audioEndpoint : Bool) (limits : ScanLimits), parseProfiles text = some profiles →
      ∀ (frames : List Frame) (type : MessageType) (payload : Bytes),
      type = .capsReply ∨ type = .diagReply →
      encodeFrame type payload ∈
        (Runs.final (World.step (fun _ => Int64.minValue) (backend platform))
          (.fresh (.create roots profiles audioEndpoint limits) false) frames).replies →
      Consistent payload (channelSetUp audioEndpoint (bindFirstAvailable platform
        (scanForCandidates platform.lookup roots limits).candidates profiles).engine) := by
  intro h
  have hparse : parseProfiles shadowingDocument
      = some [⟨kBulkCapabilityClass, [⟨.set, ascii "s", .level⟩]⟩] := by decide +kernel
  have hshows := create_shows onePlatform [ascii "/r"]
    [⟨kBulkCapabilityClass, [⟨.set, ascii "s", .level⟩]⟩] false {}
  have htold := classes_told (fun _ => Int64.minValue) hshows false
  have hreport :=
    h onePlatform [ascii "/r"] shadowingDocument _ false {} hparse _ .capsReply _ (.inl rfl) htold
  rw [← create_channel] at hreport
  have hagree := (consistent_iff .capsReply rfl rfl).mp hreport
  exact absurd (hagree.1.mp (by decide +kernel)) (by decide +kernel)

end Probe

end OakBarrels
