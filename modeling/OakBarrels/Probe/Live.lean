import OakBarrels.Bulk.BulkChannelProofs
import OakBarrels.Probe.Handles

/-!
# The backend beside its channel

The operations of the backend and the steps of the channel that it owns, in any order. A request of a
session comes to some of the operations, and the channel may move between any two of them.
-/

open Octets Binary64

namespace OakBarrels

open Json Protocol

/-- A call on a backend, whatever it returns. -/
inductive Operation
  | capabilityClasses
  | limits
  | bulkChannel
  | bulkBytesForwarded
  | bulkBytesDropped
  | openTarget (kind name : Bytes) (reason : Reason)
  | closeTarget (handle : UInt32)
  | post (handle : UInt32) (action : Bytes) (args : Value)
  | set (handle : UInt32) (param : Bytes) (value : Double)
  | resolvedSymbolCount
  | targetCount
  | filesExamined
  | candidatesFound
  | discoveryTruncated

def Operation.run {σ : Type} (backend : EngineBackend σ) (s : σ) : Operation → σ
  | .capabilityClasses => (backend.capabilityClasses s).2
  | .limits => (backend.limits s).2
  | .bulkChannel => (backend.bulkChannel s).2
  | .bulkBytesForwarded => (backend.bulkBytesForwarded s).2
  | .bulkBytesDropped => (backend.bulkBytesDropped s).2
  | .openTarget kind name reason => (backend.openTarget kind name reason s).2
  | .closeTarget handle => (backend.closeTarget handle s).2
  | .post handle action args => (backend.post handle action args s).2
  | .set handle param value => (backend.set handle param value s).2
  | .resolvedSymbolCount => (backend.resolvedSymbolCount s).2
  | .targetCount => (backend.targetCount s).2
  | .filesExamined => (backend.filesExamined s).2
  | .candidatesFound => (backend.candidatesFound s).2
  | .discoveryTruncated => (backend.discoveryTruncated s).2

namespace Probe

open Discovery Bulk ProbingBackend

/-- `bulk_` is in two parts here: what the backend reads of it, and all of it. -/
structure Live where
  backend : ProbingBackend
  channel : Option BulkChannel

namespace Live

inductive Action
  | operation (operation : Operation)
  | channel (action : BulkChannel.Action)

def create (roots : List Bytes) (profiles : List Profile) (audioEndpoint : Bool)
    (limits : ScanLimits) : Live :=
  ⟨.create roots profiles audioEndpoint limits, none⟩

/-- The backend, with the counters as the channel has them now. -/
def synced (s : Live) : ProbingBackend :=
  { s.backend with bulk := s.channel.map fun c => ⟨c.forwarded, c.dropped⟩ }

/-- The channel comes into being, with its worker, where the backend has set one up. -/
def operate (platform : Platform) (s : Live) (operation : Operation) : Live :=
  let backend := operation.run (ProbingBackend.backend platform) s.synced
  match s.channel with
  | some c => ⟨backend, some c⟩
  | none => ⟨backend, if backend.bulk.isSome then BulkChannel.create else none⟩

def move (s : Live) (action : BulkChannel.Action) : Option Live :=
  match s.channel with
  | none => none
  | some c => (c.step action).map fun c => { s with channel := some c }

/-- The channel is stopped only where it is disposed of, and then it is no longer the backend's. -/
def step (platform : Platform) (s : Live) : Action → Option Live
  | .operation operation => some (s.operate platform operation)
  | .channel .stop => none
  | .channel action => s.move action

def run (platform : Platform) (s : Live) (actions : List Action) : Option Live :=
  actions.foldlM (step platform) s

/-- There is a channel, and its worker has not ended. -/
def Running (s : Live) : Prop := ∃ c, s.channel = some c ∧ c.worker ≠ .ended

/-- The channel is offered, in the flag and in the list, only while it is running. -/
structure Honest (platform : Platform) (s : Live) : Prop where
  flag : ((ProbingBackend.backend platform).bulkChannel s.synced).1 = true →
    (s.operate platform .bulkChannel).Running
  classes : (capabilityClasses platform s.synced).1
      = (engine platform s.synced).capabilityClasses ++ [kBulkCapabilityClass] →
    (s.operate platform .capabilityClasses).Running

/-! ## The worker -/

theorem afterWrite_worker (c : BulkChannel) (data : Span) (queue : System) :
    (c.afterWrite data queue).worker = c.worker ∧
      (c.afterWrite data queue).stopping = c.stopping := by
  unfold BulkChannel.afterWrite
  simp only
  split
  · exact ⟨rfl, rfl⟩
  · split <;> exact ⟨rfl, rfl⟩

theorem afterRead_worker {c : BulkChannel} (hreading : c.worker = .reading) (queue : System) :
    (c.afterRead queue).worker ≠ .ended ∧ (c.afterRead queue).stopping = c.stopping := by
  unfold BulkChannel.afterRead
  simp only
  split
  · exact ⟨by simp [hreading], rfl⟩
  · split <;> exact ⟨by simp, rfl⟩

/-- A worker that is not told to stop ends by a write that fails, and in no other way. -/
theorem step_ends {c d : BulkChannel} {action : BulkChannel.Action} (hs : c.step action = some d)
    (hstop : action ≠ .stop) (hlive : c.stopping = false) :
    d.stopping = false ∧ (d.worker = .ended ↔ c.worker = .ended ∨ action = .write false) := by
  have hwrite : ∀ data queue, (c.afterWrite data queue).stopping = false ∧
      ((c.afterWrite data queue).worker = .ended ↔ c.worker = .ended) := by
    intro data queue
    obtain ⟨hworker, hstopping⟩ := afterWrite_worker c data queue
    exact ⟨hstopping.trans hlive, by rw [hworker]⟩
  have hread : c.worker = .reading → ∀ queue, (c.afterRead queue).stopping = false ∧
      ((c.afterRead queue).worker = .ended ↔ c.worker = .ended) := by
    intro hreading queue
    obtain ⟨hworker, hstopping⟩ := afterRead_worker hreading queue
    exact ⟨hstopping.trans hlive, by simp [hworker, hreading]⟩
  cases action with
  | offer data =>
    simp only [BulkChannel.step] at hs
    split at hs
    · split at hs
      · cases hs
        simp [hlive]
      · split at hs
        · cases hs
          simp [hlive]
        · obtain ⟨queue, -, rfl⟩ := Option.map_eq_some_iff.mp hs
          simp [hlive]
    · cases hs
  | copyIn | publishHead =>
    simp only [BulkChannel.step] at hs
    split at hs
    · obtain ⟨queue, -, rfl⟩ := Option.map_eq_some_iff.mp hs
      simpa using hwrite _ queue
    · cases hs
  | countDropped =>
    simp only [BulkChannel.step] at hs
    split at hs
    · cases hs
      simp [BulkChannel.returns, hlive]
    · cases hs
  | look =>
    simp only [BulkChannel.step, hlive, Bool.false_eq_true, if_false] at hs
    split at hs
    · rename_i htop
      obtain ⟨queue, -, rfl⟩ := Option.map_eq_some_iff.mp hs
      simp [htop]
    · cases hs
  | copyOut | publishTail =>
    simp only [BulkChannel.step] at hs
    split at hs
    · obtain ⟨queue, -, rfl⟩ := Option.map_eq_some_iff.mp hs
      simpa using hread ‹_› queue
    · cases hs
  | write succeeds =>
    simp only [BulkChannel.step] at hs
    split at hs
    · rename_i hwriting
      split at hs
      · cases hs
        simp_all
      · cases hs
        simp_all
    · cases hs
  | countForwarded =>
    simp only [BulkChannel.step] at hs
    split at hs
    · rename_i hcounting
      cases hs
      simp [hlive, hcounting]
    · cases hs
  | stop => exact absurd rfl hstop

/-! ## The backend -/

/-- As far as the channel goes, an operation probes or does nothing. -/
theorem operation_probes (platform : Platform) (b : ProbingBackend) (operation : Operation) :
    ∃ c, (c = b ∨ c = b.ensureProbed platform) ∧
      (operation.run (ProbingBackend.backend platform) b).bulk = c.bulk ∧
      (operation.run (ProbingBackend.backend platform) b).probed = c.probed := by
  have hdispatch : ∀ handle call,
      (dispatch platform handle call b).2.bulk = (b.ensureProbed platform).bulk ∧
        (dispatch platform handle call b).2.probed = (b.ensureProbed platform).probed := by
    intro handle call
    unfold dispatch probing
    simp only
    split
    · exact ⟨rfl, rfl⟩
    · split
      · exact ⟨rfl, rfl⟩
      · split <;> exact ⟨rfl, rfl⟩
  cases operation with
  | limits => exact ⟨b, .inl rfl, rfl, rfl⟩
  | closeTarget handle => exact ⟨b, .inl rfl, rfl, rfl⟩
  | targetCount => exact ⟨b, .inl rfl, rfl, rfl⟩
  | openTarget kind name reason =>
    refine ⟨_, .inr rfl, ?_⟩
    change (openTarget platform kind name reason b).2.bulk = _ ∧
      (openTarget platform kind name reason b).2.probed = _
    unfold openTarget probing
    simp only
    split <;> exact ⟨rfl, rfl⟩
  | post handle action args => exact ⟨_, .inr rfl, hdispatch _ _⟩
  | set handle param value => exact ⟨_, .inr rfl, hdispatch _ _⟩
  | _ => exact ⟨_, .inr rfl, rfl, rfl⟩

/-! ## Both -/

/-- The worker has ended exactly where a write has failed. -/
structure Inv (s : Live) (failed : Prop) : Prop where
  probed : s.channel.isSome = true → s.backend.probed = true
  worker : ∀ c, s.channel = some c → c.stopping = false ∧ (c.worker = .ended ↔ failed)
  channel : failed → s.channel.isSome = true

section

variable {platform : Platform} {s t : Live} {failed : Prop}

theorem create_inv (roots : List Bytes) (profiles : List Profile) (audioEndpoint : Bool)
    (limits : ScanLimits) : Inv (create roots profiles audioEndpoint limits) False :=
  ⟨fun h => by simp [create] at h, fun c h => by simp [create] at h, False.elim⟩

theorem fresh_channel {c : BulkChannel} (h : BulkChannel.create = some c) :
    c.stopping = false ∧ c.worker = .top := by
  obtain ⟨ring, -, rfl⟩ := Option.map_eq_some_iff.mp h
  exact ⟨rfl, rfl⟩

theorem Inv.operate (h : Inv s failed) (operation : Operation) :
    Inv (s.operate platform operation) failed := by
  obtain ⟨b, hb, hbulk, hprobed⟩ := operation_probes platform s.synced operation
  unfold Live.operate
  simp only
  split
  · rename_i c hc
    refine ⟨fun _ => ?_, ?_, fun _ => rfl⟩
    · have hbefore : s.synced.probed = true := h.probed (by rw [hc]; rfl)
      rw [hprobed]
      rcases hb with rfl | rfl
      · exact hbefore
      · exact ensureProbed_probed _
    · rintro d ⟨⟩
      exact h.worker c hc
  · rename_i hnone
    have hok : ¬ failed := fun hfailed => by simpa [hnone] using h.channel hfailed
    refine ⟨fun hsome => ?_, ?_, fun hfailed => absurd hfailed hok⟩
    · rw [hprobed]
      rcases hb with rfl | rfl
      · have hbulk' : s.synced.bulk = none := by simp [Live.synced, hnone]
        rw [hbulk, hbulk'] at hsome
        cases hsome
      · exact ensureProbed_probed _
    · intro d hd
      split at hd
      · obtain ⟨hstopping, htop⟩ := fresh_channel hd
        exact ⟨hstopping, by simp [htop, hok]⟩
      · cases hd

theorem Inv.step (h : Inv s failed) {action : Action} (hs : s.step platform action = some t) :
    Inv t (failed ∨ action = .channel (.write false)) := by
  cases action with
  | operation operation =>
    cases hs
    simpa using h.operate operation
  | channel action =>
    have hstop : action ≠ .stop := by
      rintro rfl
      cases hs
    have hmoves : ∃ c d, s.channel = some c ∧ c.step action = some d ∧
        t = { s with channel := some d } := by
      have hmove : s.move action = some t := by
        rw [← hs]
        cases action with
        | stop => exact absurd rfl hstop
        | _ => rfl
      unfold Live.move at hmove
      split at hmove
      · cases hmove
      · obtain ⟨d, hd, rfl⟩ := Option.map_eq_some_iff.mp hmove
        exact ⟨_, d, ‹_›, hd, rfl⟩
    obtain ⟨c, d, hc, hd, rfl⟩ := hmoves
    obtain ⟨hlive, hended⟩ := h.worker c hc
    obtain ⟨hlive', hended'⟩ := step_ends hd hstop hlive
    refine ⟨fun _ => h.probed (by rw [hc]; rfl), ?_, fun _ => rfl⟩
    rintro e ⟨⟩
    refine ⟨hlive', ?_⟩
    rw [hended', hended]
    simp

theorem Inv.run (h : Inv s failed) {actions : List Action} (hs : s.run platform actions = some t) :
    Inv t (failed ∨ .channel (.write false) ∈ actions) := by
  induction actions generalizing s failed with
  | nil =>
    cases hs
    simpa using h
  | cons action rest ih =>
    obtain ⟨u, hu, hrest⟩ := Runs.run_cons.mp hs
    have hinv := ih (h.step hu) hrest
    rwa [or_assoc, eq_comm (a := action), ← List.mem_cons] at hinv

theorem operate_channel (operation : Operation) {c : BulkChannel} (h : s.channel = some c) :
    (s.operate platform operation).channel = some c := by
  unfold operate
  simp only [h]

/-- A channel that has just been set up is running. -/
theorem operate_running (operation : Operation) (h : s.channel = none)
    (hbulk : (operation.run (ProbingBackend.backend platform) s.synced).bulk.isSome = true) :
    (s.operate platform operation).Running := by
  obtain ⟨c, hc⟩ := BulkChannel.exists_create
  refine ⟨c, ?_, ?_⟩
  · unfold operate
    simp only [h, hbulk, if_true, hc]
  · simp [(fresh_channel hc).2]

theorem Inv.honest (h : Inv s failed) : Honest platform s ↔ ¬ failed := by
  cases hchannel : s.channel with
  | none =>
    have hok : ¬ failed := fun hfailed => by simpa [hchannel] using h.channel hfailed
    refine ⟨fun _ => hok, fun _ => ⟨fun hflag => ?_, fun hclasses => ?_⟩⟩
    · exact operate_running .bulkChannel hchannel hflag
    · refine operate_running .capabilityClasses hchannel ?_
      change (s.synced.ensureProbed platform).bulk.isSome = true
      by_contra hnone
      have hlength := congrArg List.length hclasses
      simp [ProbingBackend.capabilityClasses, probing, hnone, engine] at hlength
  | some c =>
    obtain ⟨-, hended⟩ := h.worker c hchannel
    have hprobed : s.synced.ensureProbed platform = s.synced :=
      ensureProbed_of_probed (h.probed (by rw [hchannel]; rfl))
    have hbulk : s.synced.bulk.isSome = true := by simp [synced, hchannel]
    have hrunning : ∀ operation, (s.operate platform operation).Running ↔ ¬ failed := by
      intro operation
      rw [Running, operate_channel operation hchannel, ← hended]
      simp
    constructor
    · intro hhonest
      refine (hrunning .bulkChannel).mp (hhonest.flag ?_)
      change (s.synced.ensureProbed platform).bulk.isSome = true
      rw [hprobed]
      exact hbulk
    · intro hok
      exact ⟨fun _ => (hrunning _).mpr hok, fun _ => (hrunning _).mpr hok⟩

/-- **The channel is offered while it runs**, in the state that any order of operations, audio calls,
worker steps and writes comes to, exactly as long as no write to the endpoint has failed. -/
theorem honest_iff (platform : Platform) (roots : List Bytes) (profiles : List Profile)
    (audioEndpoint : Bool) (limits : ScanLimits) (actions : List Action) (s : Live)
    (hs : (create roots profiles audioEndpoint limits).run platform actions = some s) :
    Honest platform s ↔ .channel (.write false) ∉ actions := by
  have hinv := (create_inv roots profiles audioEndpoint limits).run hs
  rw [false_or] at hinv
  exact hinv.honest

/-- A module that takes the sink. -/
def sinkProfile : Profile := ⟨ascii "c", [⟨.bulk, ascii "s", .sink⟩]⟩

/-- Two bytes of audio, which the host reads. -/
def deliveredWrite : List Action :=
  [.operation .bulkChannel, .channel (.offer (some BulkChannel.twoBytes)), .channel .copyIn,
    .channel .publishHead, .channel .look, .channel .copyOut, .channel .publishTail,
    .channel (.write true), .channel .countForwarded]

theorem honest_iff_delivered :
    ∃ s, (create [ascii "/r"] [sinkProfile] true {}).run onePlatform deliveredWrite = some s ∧
      s.channel.map (·.forwarded) = some 2 ∧ Honest onePlatform s := by
  have hsome : (((create [ascii "/r"] [sinkProfile] true {}).run onePlatform deliveredWrite).any
      fun s => s.channel.map (·.forwarded) = some 2) = true := by
    decide +kernel
  obtain ⟨s, hs, hchannel⟩ := (Option.any_eq_true _ _).mp hsome
  exact ⟨s, hs, of_decide_eq_true hchannel,
    (honest_iff onePlatform _ _ _ _ _ s hs).mpr (by simp [deliveredWrite])⟩

/-- Two bytes of audio, and a host that has gone. -/
def failedWrite : List Action :=
  [.operation .bulkChannel, .channel (.offer (some BulkChannel.twoBytes)), .channel .copyIn,
    .channel .publishHead, .channel .look, .channel .copyOut, .channel .publishTail,
    .channel (.write false)]

/-- The worker has ended, and the channel is still offered. -/
theorem honest_fails_after_write :
    ¬ ∀ (platform : Platform) (roots : List Bytes) (profiles : List Profile) (audioEndpoint : Bool)
      (limits : ScanLimits) (actions : List Action) (s : Live),
      (create roots profiles audioEndpoint limits).run platform actions = some s →
      Honest platform s := by
  intro h
  have hsome : ((create [ascii "/r"] [sinkProfile] true {}).run onePlatform failedWrite).isSome
      = true := by decide +kernel
  obtain ⟨s, hs⟩ := Option.isSome_iff_exists.mp hsome
  have hhonest := h onePlatform [ascii "/r"] [sinkProfile] true {} failedWrite s hs
  refine ((create_inv _ _ _ _).run hs).honest.mp hhonest (.inr ?_)
  simp [failedWrite]

end

end Live

end Probe

end OakBarrels
