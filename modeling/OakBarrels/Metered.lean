import OakBarrels.Simulation

/-!
# Counters that move

The counters of an audio channel are moved by its threads while a session goes on. A backend over them
has the readings given from outside, one look after the other, and is otherwise as it was.
-/

open Agree

namespace OakBarrels

/-- An engine, and how often a counter of its channel was read. -/
structure Metered (σ : Type) where
  engine : σ
  looks : Nat

namespace Metered

variable {σ τ α : Type}

def passing (operation : StateM σ α) : StateM (Metered σ) α := fun m =>
  ((operation m.engine).1, { m with engine := (operation m.engine).2 })

/-- A look at a counter: its reading where there is a channel. -/
def reading (counters : Nat → UInt64) (bulkChannel : StateM σ Bool) (counter : StateM σ UInt64) :
    StateM (Metered σ) UInt64 := fun m =>
  (if (bulkChannel m.engine).1 then counters m.looks else (counter m.engine).1,
    ⟨(counter m.engine).2, m.looks + 1⟩)

end Metered

open Metered

def EngineBackend.metered {σ : Type} (counters : Nat → UInt64) (backend : EngineBackend σ) :
    EngineBackend (Metered σ) where
  capabilityClasses := passing backend.capabilityClasses
  limits := passing backend.limits
  bulkChannel := passing backend.bulkChannel
  bulkBytesForwarded := reading counters backend.bulkChannel backend.bulkBytesForwarded
  bulkBytesDropped := reading counters backend.bulkChannel backend.bulkBytesDropped
  openTarget kind name reason := passing (backend.openTarget kind name reason)
  closeTarget handle := passing (backend.closeTarget handle)
  post handle action args := passing (backend.post handle action args)
  set handle param value := passing (backend.set handle param value)
  resolvedSymbolCount := passing backend.resolvedSymbolCount
  targetCount := passing backend.targetCount
  filesExamined := passing backend.filesExamined
  candidatesFound := passing backend.candidatesFound
  discoveryTruncated := passing backend.discoveryTruncated

section

variable {σ τ α : Type} {a : EngineBackend σ} {b : EngineBackend τ} {R : σ → τ → Prop}

/-- The same readings ahead, over engines that are related. -/
def Metered.Along (R : σ → τ → Prop) (m : Metered σ) (n : Metered τ) : Prop :=
  R m.engine n.engine ∧ m.looks = n.looks

theorem Metered.passing_along {f : StateM σ α} {g : StateM τ α} (h : On R f g) :
    On (Along R) (passing f) (passing g) := by
  rintro m n ⟨hengine, hlooks⟩
  obtain ⟨hresult, hstate⟩ := h _ _ hengine
  exact ⟨hresult, hstate, hlooks⟩

theorem Metered.reading_along (counters : Nat → UInt64) {f : StateM σ Bool} {g : StateM τ Bool}
    (hchannel : On R f g) {f' : StateM σ UInt64} {g' : StateM τ UInt64} (h : On R f' g') :
    On (Along R) (reading counters f f') (reading counters g g') := by
  rintro m n ⟨hengine, hlooks⟩
  obtain ⟨hresult, hstate⟩ := h _ _ hengine
  refine ⟨?_, hstate, congrArg (· + 1) hlooks⟩
  unfold reading
  simp only [(hchannel _ _ hengine).1, hresult, hlooks]

/-- Engines that answer alike do so over the same readings. -/
theorem Simulates.metered (h : Simulates a b R) (counters : Nat → UInt64) :
    Simulates (a.metered counters) (b.metered counters) (Along R) where
  capabilityClasses := passing_along h.capabilityClasses
  limits := passing_along h.limits
  bulkChannel := passing_along h.bulkChannel
  bulkBytesForwarded := reading_along counters h.bulkChannel h.bulkBytesForwarded
  bulkBytesDropped := reading_along counters h.bulkChannel h.bulkBytesDropped
  openTarget _ _ _ := passing_along (h.openTarget _ _ _)
  closeTarget _ := passing_along (h.closeTarget _)
  post _ _ _ := passing_along (h.post _ _ _)
  set _ _ _ := passing_along (h.set _ _ _)
  resolvedSymbolCount := passing_along h.resolvedSymbolCount
  targetCount := passing_along h.targetCount
  filesExamined := passing_along h.filesExamined
  candidatesFound := passing_along h.candidatesFound
  discoveryTruncated := passing_along h.discoveryTruncated

/-! ## A channel that carries nothing -/

theorem Metered.passing_still {P : σ → Prop} {f : StateM σ α} (h : On (Kept P) f f) :
    On (fun s m => Kept P s m.engine) f (passing f) := by
  rintro s ⟨s', looks⟩ hkept
  obtain ⟨rfl, hs⟩ := hkept
  exact h s s ⟨rfl, hs⟩

theorem Metered.reading_still {P : σ → Prop} (channel : StateM σ Bool) {f : StateM σ UInt64}
    (h : On (Kept P) f f) (hzero : ∀ s, P s → (f s).1 = 0) :
    On (fun s m => Kept P s m.engine) f (reading (fun _ => 0) channel f) := by
  rintro s ⟨s', looks⟩ hkept
  obtain ⟨rfl, hs⟩ := hkept
  refine ⟨?_, (h s s ⟨rfl, hs⟩).2⟩
  unfold reading
  simp only [hzero s hs, ite_self]

/-- A backend whose counters stay at zero is itself over readings of zero. -/
theorem Simulates.unmoved {P : σ → Prop} (h : Simulates a a (Kept P))
    (hforwarded : ∀ s, P s → (a.bulkBytesForwarded s).1 = 0)
    (hdropped : ∀ s, P s → (a.bulkBytesDropped s).1 = 0) :
    Simulates a (a.metered fun _ => 0) fun s m => Kept P s m.engine where
  capabilityClasses := passing_still h.capabilityClasses
  limits := passing_still h.limits
  bulkChannel := passing_still h.bulkChannel
  bulkBytesForwarded := reading_still _ h.bulkBytesForwarded hforwarded
  bulkBytesDropped := reading_still _ h.bulkBytesDropped hdropped
  openTarget _ _ _ := passing_still (h.openTarget _ _ _)
  closeTarget _ := passing_still (h.closeTarget _)
  post _ _ _ := passing_still (h.post _ _ _)
  set _ _ _ := passing_still (h.set _ _ _)
  resolvedSymbolCount := passing_still h.resolvedSymbolCount
  targetCount := passing_still h.targetCount
  filesExamined := passing_still h.filesExamined
  candidatesFound := passing_still h.candidatesFound
  discoveryTruncated := passing_still h.discoveryTruncated

end

end OakBarrels
