import OakBarrels.Probe.Answers
import OakBarrels.Probe.Disclosure

/-!
# Why an OPEN is refused

Without an engine both backends refuse every OPEN, and with the same reason whether a scan found
candidates or not: a file that no profile fits is no engine found.
-/

open Octets Binary64 Agree

namespace OakBarrels

open Json Protocol

namespace World

variable {σ : Type} (unrepresentable : Unrepresentable) (backend : EngineBackend σ)

/-- A request of the host that names what it wants opened. -/
structure Opens (w : World σ) (request : Frame) (kind name : Bytes) : Prop where
  live : w.session.finished = false
  negotiated : w.session.negotiated = true
  type : request.type = .open
  payload : ∃ payload, parsePayload request = some payload ∧
    payload.find (ascii "kind") = some (.string kind) ∧ readName payload = name

/-- Every OPEN is asked of the backend and then refused for this reason. -/
def RefusesOpen (reason : Reason) (w : World σ) : Prop :=
  ∀ request kind name, Opens w request kind name →
    (w.handle unrepresentable backend request).1 = true ∧
      Emitted w (w.handle unrepresentable backend request).2 [.openTarget kind name 0 reason]
        [encodeFrame .error (errorPayload reason).dump]

variable {unrepresentable backend}

theorem handle_open {w : World σ} {request : Frame} {payload : Value}
    (hlive : w.session.finished = false) (hnegotiated : w.session.negotiated = true)
    (htype : request.type = .open) (hpayload : parsePayload request = some payload) :
    w.handle unrepresentable backend request =
      handleOpen backend payload (w.transcribe '<' request.type request.payload) := by
  unfold handle
  rw [if_neg (by simp [hlive])]
  simp [htype, hnegotiated, hpayload]

/-- A backend that opens nothing, and gives its reason, has it passed on. -/
theorem refusesOpen_of_openTarget {w : World σ} {reason : Reason} (hreason : reason ≠ .ok)
    (h : ∀ kind name, (backend.openTarget kind name .ok w.backend).1 = (0, reason)) :
    RefusesOpen unrepresentable backend reason w := by
  rintro request kind name ⟨hlive, hnegotiated, htype, payload, hpayload, hkind, rfl⟩
  rw [handle_open hlive hnegotiated htype hpayload]
  have hread := transcribe_emitted w '<' request.type request.payload
  have hbackend := transcribe_backend w '<' request.type request.payload
  generalize w.transcribe '<' request.type request.payload = w₁ at *
  have hopened := h kind (readName payload)
  rw [← hbackend] at hopened
  have hcall := calling_emitted w₁ (backend.openTarget kind (readName payload) .ok)
    fun result => .openTarget kind (readName payload) result.1 result.2
  have hresult : (w₁.calling (backend.openTarget kind (readName payload) .ok)
      fun result => .openTarget kind (readName payload) result.1 result.2).1 = (0, reason) :=
    hopened
  unfold handleOpen
  simp only [hkind, Value.isString, Value.asString, not_true_eq_false, if_false]
  rw [hresult] at hcall
  simp only [hresult, if_true, if_neg hreason]
  exact ⟨trivial, (hread.trans hcall).trans (send_emitted _ _ _)⟩

end World

namespace Probe

open Discovery ProbingBackend World

/-! ## A view without profiles -/

variable {σ : Type} {backend : EngineBackend σ} {R : σ → View → Prop}

/-- Whatever was asked before, a backend that shows no profile opens nothing. -/
theorem refusesOpen_of_view (unrepresentable : Unrepresentable)
    (h : Simulates backend View.backend R) {s : σ} {v : View} (hshows : R s v)
    (hnone : v.profiles = []) (transcript : Bool) (frames : List Frame) :
    RefusesOpen unrepresentable backend .noEngine
      (Runs.final (step unrepresentable backend) (fresh s transcript) frames) := by
  apply refusesOpen_of_openTarget (by decide)
  intro kind name
  have halike := final_alike unrepresentable h (fresh_alike hshows transcript) frames
  have hkeeps := final_alike unrepresentable (View.backend_keeps v)
    (fresh_alike ⟨rfl, v.told_refl⟩ transcript) frames
  obtain ⟨nextHandle, liveHandles, hview⟩ := hkeeps.backend.2
  have hopened := (h.openTarget kind name .ok _ _ halike.backend).1
  rw [hopened, hview]
  change (View.openTarget _).1 = _
  unfold View.openTarget
  rw [if_pos hnone]

theorem view_profiles_of_unbound {platform : Platform} {roots : List Bytes}
    {profiles : List Profile} {audioEndpoint : Bool} {limits : ScanLimits}
    (h : (bindFirstAvailable platform (scanForCandidates platform.lookup roots limits).candidates
      profiles).engine.isBound = false) :
    (ProbingBackend.view platform (.create roots profiles audioEndpoint limits)).profiles = [] := by
  have hfaithful := (create_shows platform roots profiles audioEndpoint limits).2
  rw [← create_engine platform roots profiles audioEndpoint limits] at h
  by_contra hne
  have hbound := hfaithful.isBound.mpr hne
  rw [h] at hbound
  cases hbound

theorem refusesOpen_of_unbound (unrepresentable : Unrepresentable) {platform : Platform}
    {roots : List Bytes} {profiles : List Profile} (audioEndpoint : Bool) {limits : ScanLimits}
    (h : (bindFirstAvailable platform (scanForCandidates platform.lookup roots limits).candidates
      profiles).engine.isBound = false) (transcript : Bool) (frames : List Frame) :
    RefusesOpen unrepresentable (ProbingBackend.backend platform) .noEngine
      (Runs.final (step unrepresentable (ProbingBackend.backend platform))
        (fresh (.create roots profiles audioEndpoint limits) transcript) frames) :=
  refusesOpen_of_view unrepresentable (ProbingBackend.view_simulates platform)
    (create_shows platform roots profiles audioEndpoint limits) (view_profiles_of_unbound h)
    transcript frames

/-- **One reason to refuse.** While no engine is bound, an OPEN is refused with NO_ENGINE at any
point of a session over either backend, whatever the scan found. -/
theorem open_refused_noEngine (unrepresentable : Unrepresentable) (platform : Platform)
    (roots : List Bytes) (profiles : List Profile) (audioEndpoint : Bool) (limits : ScanLimits)
    (transcript : Bool) (frames : List Frame) :
    RefusesOpen unrepresentable (DiscoveryBackend.backend platform.lookup) .noEngine
        (Runs.final (step unrepresentable (DiscoveryBackend.backend platform.lookup))
          (fresh (.create roots limits) transcript) frames) ∧
      ((bindFirstAvailable platform (scanForCandidates platform.lookup roots limits).candidates
          profiles).engine.isBound = false →
        RefusesOpen unrepresentable (ProbingBackend.backend platform) .noEngine
          (Runs.final (step unrepresentable (ProbingBackend.backend platform))
            (fresh (.create roots profiles audioEndpoint limits) transcript) frames)) := by
  constructor
  · exact refusesOpen_of_view unrepresentable (DiscoveryBackend.view_simulates platform.lookup) rfl
      rfl transcript frames
  · intro h
    exact refusesOpen_of_unbound unrepresentable audioEndpoint h transcript frames

/-- A profile that no module of `onePlatform` satisfies. -/
def misfitProfile : Profile := ⟨ascii "c", [⟨.set, ascii "t", .level⟩]⟩

theorem misfit_unbound : (bindFirstAvailable onePlatform
    (scanForCandidates onePlatform.lookup [ascii "/r"] {}).candidates
      [misfitProfile]).engine.isBound = false := by
  decide +kernel

theorem open_refused_noEngine_misfit :
    (scanForCandidates onePlatform.lookup [ascii "/r"] {}).candidates ≠ [] ∧
      RefusesOpen (fun _ => Int64.minValue) (ProbingBackend.backend onePlatform) .noEngine
        (Runs.final (step (fun _ => Int64.minValue) (ProbingBackend.backend onePlatform))
          (fresh (.create [ascii "/r"] [misfitProfile] false {}) false) [helloFrame]) :=
  ⟨by decide +kernel, (open_refused_noEngine (fun _ => Int64.minValue) onePlatform [ascii "/r"]
    [misfitProfile] false {} false [helloFrame]).2 misfit_unbound⟩

def openFrame : Frame := ⟨.open, ascii "\x7b\"kind\":\"k\"\x7d"⟩

theorem openFrame_opens {w : World σ} (hlive : w.session.finished = false)
    (hnegotiated : w.session.negotiated = true) : ∃ name, Opens w openFrame (ascii "k") name := by
  have hread : (parsePayload openFrame).any (fun payload =>
      (payload.find (ascii "kind")).any fun kind =>
        kind.isString && kind.asString [] == ascii "k") = true := by decide +kernel
  simp only [Option.any_eq_true, Bool.and_eq_true, beq_iff_eq] at hread
  obtain ⟨payload, hpayload, kind, hfind, hstring, hkind⟩ := hread
  rw [Value.eq_string hstring, hkind] at hfind
  exact ⟨_, hlive, hnegotiated, rfl, payload, hpayload, hfind, rfl⟩

theorem refusesOpen_unique {unrepresentable : Unrepresentable} {w : World σ}
    {reason reason' : Reason} (hlive : w.session.finished = false)
    (hnegotiated : w.session.negotiated = true) (h : RefusesOpen unrepresentable backend reason w)
    (h' : RefusesOpen unrepresentable backend reason' w) : reason = reason' := by
  obtain ⟨name, hopens⟩ := openFrame_opens hlive hnegotiated
  obtain ⟨-, events, hlog, hcalls, -⟩ := h _ _ _ hopens
  obtain ⟨-, events', hlog', hcalls', -⟩ := h' _ _ _ hopens
  rw [hlog, List.append_cancel_left_eq] at hlog'
  rw [← hlog', hcalls] at hcalls'
  simpa using hcalls'

/-- The reason that the protocol's table gives where no engine is bound. -/
def tabledReason (scan : ScanResult) : Reason :=
  if scan.candidates = [] then .noEngine else .incompatibleEngine

theorem tabledReason_fails_at_misfit : ¬ ∀ (platform : Platform) (roots : List Bytes)
    (profiles : List Profile) (limits : ScanLimits) (frames : List Frame),
    let scan := scanForCandidates platform.lookup roots limits
    RefusesOpen (fun _ => Int64.minValue) (DiscoveryBackend.backend platform.lookup)
        (tabledReason scan)
        (Runs.final (step (fun _ => Int64.minValue) (DiscoveryBackend.backend platform.lookup))
          (fresh (.create roots limits) false) frames) ∧
      ((bindFirstAvailable platform scan.candidates profiles).engine.isBound = false →
        RefusesOpen (fun _ => Int64.minValue) (ProbingBackend.backend platform)
          (tabledReason scan)
          (Runs.final (step (fun _ => Int64.minValue) (ProbingBackend.backend platform))
            (fresh (.create roots profiles false limits) false) frames)) := by
  intro h
  obtain ⟨-, htabled⟩ := h onePlatform [ascii "/r"] [misfitProfile] {} [helloFrame]
  obtain ⟨hnegotiated, hlive, -⟩ := helloFrame_negotiates (fun _ => Int64.minValue)
    (ProbingBackend.backend onePlatform) (.create [ascii "/r"] [misfitProfile] false {}) false
  have hreason := refusesOpen_unique hlive hnegotiated (htabled misfit_unbound)
    (refusesOpen_of_unbound (fun _ => Int64.minValue) false misfit_unbound false [helloFrame])
  have hcandidates : (scanForCandidates onePlatform.lookup [ascii "/r"] {}).candidates ≠ [] := by
    decide +kernel
  rw [tabledReason, if_neg hcandidates] at hreason
  cases hreason

end Probe

end OakBarrels
