import OakBarrels.Discovery.DiscoveryBackend
import OakBarrels.Probe.Dispatch
import OakBarrels.Simulation

/-!
# What a host can learn

A backend that knows no file and no module: three counts, the profiles that are satisfied, the state
of the audio channel and the handles. The probing backend answers as this one does, and so does the
discovery backend, so that nothing else is told to a host.
-/

open Octets Binary64 Agree

namespace OakBarrels.Probe

open Json Protocol Discovery

structure View where
  limits : ScanLimits
  filesExamined : Nat
  candidatesFound : Nat
  truncated : Bool
  profiles : List Profile
  bulk : Option BulkCounters
  nextHandle : UInt32
  liveHandles : List UInt32

namespace View

def binding (v : View) (role : Role) : Option Binding :=
  v.profiles.findSome? fun profile => profile.bindingFor role

def capabilityClasses (v : View) : List Bytes :=
  v.profiles.map (·.capabilityClass) ++ if v.bulk.isSome then [kBulkCapabilityClass] else []

def limitsValue (v : View) : Value :=
  let value := Value.object []
  let value := value.set (ascii "max_candidates") (.integer (Int64.ofNat v.limits.maxFiles))
  value.set (ascii "max_scan_depth") (.integer (Int64.ofNat v.limits.maxDepth))

def openTarget : StateM View (UInt32 × Reason) := fun v =>
  if v.profiles = [] then ((0, .noEngine), v)
  else
    ((v.nextHandle, .ok),
      { v with nextHandle := v.nextHandle + 1, liveHandles := v.liveHandles ++ [v.nextHandle] })

def closeTarget (handle : UInt32) : StateM View Reason := fun v =>
  (.ok, { v with liveHandles := v.liveHandles.erase handle })

/-- An operation is supported where the first profile that declares its role gives it its shape. -/
def dispatch (handle : UInt32) (role : Role) (shape : SymbolShape) : StateM View Reason := fun v =>
  if v.profiles = [] then (.noEngine, v)
  else if handle ∉ v.liveHandles then (.invalidHandle, v)
  else if (v.binding role).map (·.shape) = some shape then (.ok, v)
  else (.unsupportedOperation, v)

/-- Each declared role has one symbol. -/
def resolvedSymbolCount (v : View) : Nat :=
  [Role.post, .set, .bulk].countP fun role => (v.binding role).isSome

def backend : EngineBackend View where
  capabilityClasses := fun v => (v.capabilityClasses, v)
  limits := fun v => (v.limitsValue, v)
  bulkChannel := fun v => (v.bulk.isSome, v)
  bulkBytesForwarded := fun v => ((v.bulk.map (·.bytesForwarded)).getD 0, v)
  bulkBytesDropped := fun v => ((v.bulk.map (·.bytesDropped)).getD 0, v)
  openTarget _ _ _ := openTarget
  closeTarget := closeTarget
  post handle _ _ := dispatch handle .post .name
  set handle _ _ := dispatch handle .set .level
  resolvedSymbolCount := fun v => (UInt32.ofNat v.resolvedSymbolCount, v)
  targetCount := fun v => (UInt32.ofNat v.liveHandles.length, v)
  filesExamined := fun v => (UInt32.ofNat v.filesExamined, v)
  candidatesFound := fun v => (UInt32.ofNat v.candidatesFound, v)
  discoveryTruncated := fun v => (v.truncated, v)

end View

/-! ## The engine behind it -/

/-- No engine, or one of a module and of profiles that it satisfies. -/
def Faithful (engine : BoundEngine) : Prop :=
  engine = .unbound ∨ ∃ library profiles, library.isLoaded = true ∧ profiles ≠ [] ∧
    (∀ p ∈ profiles, library.satisfies p = true) ∧ engine = .create library profiles

theorem bound_faithful (platform : Platform) (candidates : List Candidate)
    (profiles : List Profile) :
    Faithful (bindFirstAvailable platform candidates profiles).engine := by
  rcases bindFirstAvailable_cases platform candidates profiles with h | h
  · exact .inl h
  · obtain ⟨library, hloaded, hne, hengine⟩ := h
    exact .inr ⟨library, _, hloaded, hne, fun p hp => (List.mem_filter.mp hp).2, hengine⟩

section

variable {engine : BoundEngine}

theorem Faithful.isBound (h : Faithful engine) : engine.isBound = true ↔ engine.profiles ≠ [] := by
  rcases h with rfl | ⟨library, profiles, hloaded, hne, -, rfl⟩
  · simp [BoundEngine.isBound, BoundEngine.unbound]
  · simp [BoundEngine.isBound, BoundEngine.create, hloaded]

theorem Faithful.addressFor (h : Faithful engine) (role : Role) (shape : SymbolShape) :
    (engine.addressFor role shape).isSome = true ↔
      (engine.bindingFor role).map (·.shape) = some shape := by
  rcases h with rfl | ⟨library, profiles, -, -, hsatisfied, rfl⟩
  · simp [BoundEngine.addressFor, BoundEngine.bindingFor, BoundEngine.unbound]
  · rw [addressFor_isSome hsatisfied, Option.map_eq_some_iff]
    rfl

/-- One address a role. -/
theorem bindAddresses_nodup (library : DynamicLibrary) (bindings : List Binding)
    {addresses : List (Role × Address)} (h : (addresses.map Prod.fst).Nodup) :
    ((bindings.foldl (BoundEngine.bindAddress library) addresses).map Prod.fst).Nodup := by
  induction bindings generalizing addresses with
  | nil => exact h
  | cons binding rest ih =>
    refine ih ?_
    unfold BoundEngine.bindAddress
    split
    · exact h
    · split
      · exact h
      · rename_i hfresh
        rw [List.map_append, List.map_singleton, ← List.concat_eq_append]
        refine h.concat fun hmem => hfresh ?_
        obtain ⟨entry, hentry, hrole⟩ := List.mem_map.mp hmem
        exact List.any_eq_true.mpr ⟨entry, hentry, by simpa using hrole⟩

theorem bindingFor_isSome (profiles : List Profile) (role : Role) :
    (profiles.findSome? fun p => p.bindingFor role).isSome
      = (profiles.flatMap (·.bindings)).any fun binding => binding.role = role := by
  rw [Bool.eq_iff_iff, List.findSome?_isSome_iff]
  simp [Profile.bindingFor, List.find?_isSome]

theorem Faithful.resolvedSymbolCount (h : Faithful engine) :
    engine.resolvedSymbolCount
      = [Role.post, .set, .bulk].countP fun role => (engine.bindingFor role).isSome := by
  rcases h with rfl | ⟨library, profiles, -, -, hsatisfied, rfl⟩
  · rfl
  · have hresolves : ∀ b ∈ profiles.flatMap (·.bindings),
        (library.resolve b.symbol).isSome = true := by
      intro b hb
      obtain ⟨p, hp, hmem⟩ := List.mem_flatMap.mp hb
      exact satisfies_resolves (hsatisfied p hp) b hmem
    have hperm : (((profiles.flatMap (·.bindings)).foldl (BoundEngine.bindAddress library) []).map
        Prod.fst).Perm ([Role.post, .set, .bulk].filter fun role =>
          (profiles.findSome? fun p => p.bindingFor role).isSome) := by
      have hroles : [Role.post, .set, .bulk].Nodup := by decide
      refine (List.perm_ext_iff_of_nodup (bindAddresses_nodup library _ (by simp))
        (hroles.filter _)).mpr ?_
      intro role
      have hany := bindAddresses_any hresolves role []
      rw [List.any_nil, Bool.false_or, ← bindingFor_isSome] at hany
      rw [List.mem_filter, ← hany, List.any_eq_true, List.mem_map]
      have hrole : role ∈ [Role.post, .set, .bulk] := by cases role <;> decide
      simp only [hrole, true_and, decide_eq_true_eq]
    rw [List.countP_eq_length_filter]
    have hlength := hperm.length_eq
    rw [List.length_map] at hlength
    exact hlength

end

/-! ## The probing backend -/

namespace ProbingBackend

/-- What a backend that has probed can tell. -/
def look (b : ProbingBackend) : View where
  limits := b.limits
  filesExamined := b.scan.filesExamined
  candidatesFound := b.scan.candidates.length
  truncated := b.scan.truncated
  profiles := b.attempt.engine.profiles
  bulk := b.bulk
  nextHandle := b.nextHandle
  liveHandles := b.liveHandles

/-- What it can tell once it has. -/
def view (platform : Platform) (b : ProbingBackend) : View := (b.ensureProbed platform).look

def Shows (platform : Platform) (b : ProbingBackend) (v : View) : Prop :=
  b.view platform = v ∧ Faithful (b.engine platform)

variable (platform : Platform)

section

variable {α : Type} {f : ProbingBackend → α × ProbingBackend} {g : StateM View α}

/-- An operation that probes first is judged where it has. -/
theorem probing_shows
    (h : ∀ b : ProbingBackend, b.probed = true → Faithful b.attempt.engine →
      (f b).1 = (g b.look).1 ∧ (f b).2.look = (g b.look).2 ∧ (f b).2.probed = true ∧
        (f b).2.attempt = b.attempt) :
    On (Shows platform) (probing platform f) g := by
  rintro b v ⟨rfl, hfaithful⟩
  obtain ⟨hresult, hlook, hprobed, hattempt⟩ := h _ (ensureProbed_probed b) hfaithful
  have hstays := @ensureProbed_of_probed platform _ hprobed
  refine ⟨hresult, ?_, ?_⟩
  · change (ensureProbed platform (f (b.ensureProbed platform)).2).look = _
    rw [hstays]
    exact hlook
  · change Faithful (ensureProbed platform (f (b.ensureProbed platform)).2).attempt.engine
    rw [hstays, hattempt]
    exact hfaithful

theorem reading_shows {f : ProbingBackend → α} {g : View → α} (h : ∀ b, f b = g b.look) :
    On (Shows platform) (probing platform fun b => (f b, b)) fun v => (g v, v) :=
  probing_shows platform fun b hprobed _ => ⟨h b, rfl, hprobed, rfl⟩

end

theorem ensureProbed_handles (b : ProbingBackend) (handles : List UInt32) :
    { b with liveHandles := handles }.ensureProbed platform
      = { b.ensureProbed platform with liveHandles := handles } := by
  unfold ensureProbed setUpBulk
  simp only
  split
  · rfl
  · split
    · split <;> rfl
    · rfl

theorem ensureProbed_limits (b : ProbingBackend) : (b.ensureProbed platform).limits = b.limits := by
  unfold ensureProbed setUpBulk
  simp only
  split
  · rfl
  · split
    · split <;> rfl
    · rfl

theorem dispatch_shows (handle : UInt32) (role : Role) (shape : SymbolShape)
    {call : BoundEngine → Option EngineCall}
    (hcall : ∀ engine, (call engine).isSome = (engine.addressFor role shape).isSome) :
    On (Shows platform) (dispatch platform handle call) (View.dispatch handle role shape) := by
  refine probing_shows platform fun b hprobed hfaithful => ?_
  have hbound : b.attempt.engine.isBound = true ↔ b.look.profiles ≠ [] := hfaithful.isBound
  have hreaches : (call b.attempt.engine).isSome = true
      ↔ (b.look.binding role).map (·.shape) = some shape := by
    rw [hcall]
    exact hfaithful.addressFor role shape
  unfold View.dispatch
  by_cases hprofiles : b.look.profiles = []
  · rw [if_pos (by simpa [hbound] using hprofiles), if_pos hprofiles]
    exact ⟨rfl, rfl, hprobed, rfl⟩
  rw [if_neg (by simpa [hbound] using hprofiles), if_neg hprofiles]
  by_cases hlive : handle ∉ b.liveHandles
  · rw [if_pos hlive, if_pos (show handle ∉ b.look.liveHandles from hlive)]
    exact ⟨rfl, rfl, hprobed, rfl⟩
  rw [if_neg hlive, if_neg (show ¬ handle ∉ b.look.liveHandles from hlive)]
  cases hcalled : call b.attempt.engine with
  | none =>
    rw [hcalled] at hreaches
    rw [if_neg fun hshape => by simpa using hreaches.mpr hshape]
    exact ⟨rfl, rfl, hprobed, rfl⟩
  | some made =>
    rw [hcalled] at hreaches
    rw [if_pos (hreaches.mp rfl)]
    exact ⟨rfl, rfl, hprobed, rfl⟩

theorem open_shows (kind name : Bytes) (reason : Reason) :
    On (Shows platform) (openTarget platform kind name reason) View.openTarget := by
  refine probing_shows platform fun b hprobed hfaithful => ?_
  have hbound : b.attempt.engine.isBound = true ↔ b.look.profiles ≠ [] := hfaithful.isBound
  unfold View.openTarget
  by_cases hprofiles : b.look.profiles = []
  · rw [if_pos (by simpa [hbound] using hprofiles), if_pos hprofiles]
    exact ⟨rfl, rfl, hprobed, rfl⟩
  · rw [if_neg (by simpa [hbound] using hprofiles), if_neg hprofiles]
    exact ⟨rfl, rfl, hprobed, rfl⟩

theorem close_shows (handle : UInt32) :
    On (Shows platform) (closeTarget handle) (View.closeTarget handle) := by
  rintro b v ⟨rfl, hfaithful⟩
  refine ⟨rfl, ?_, ?_⟩
  · change view platform { b with liveHandles := _ } = _
    unfold view
    rw [ensureProbed_handles]
    simp only [View.closeTarget, look, ensureProbed_keeps]
  · change Faithful (engine platform { b with liveHandles := _ })
    unfold engine
    rw [ensureProbed_handles]
    exact hfaithful

/-- The probing backend answers as its view does. -/
theorem view_simulates : Simulates (backend platform) View.backend (Shows platform) where
  capabilityClasses := reading_shows platform fun b => by
    unfold View.capabilityClasses BoundEngine.capabilityClasses
    change (if b.bulk.isSome = true then _ else _) = _ ++ if b.bulk.isSome = true then _ else _
    split
    · rfl
    · exact (List.append_nil _).symm
  limits := by
    rintro b v ⟨rfl, hfaithful⟩
    refine ⟨?_, rfl, hfaithful⟩
    change b.limitsValue = (b.view platform).limitsValue
    unfold limitsValue View.limitsValue view look
    simp only [ensureProbed_limits]
  bulkChannel := reading_shows platform fun _ => rfl
  bulkBytesForwarded := reading_shows platform fun _ => rfl
  bulkBytesDropped := reading_shows platform fun _ => rfl
  openTarget kind name reason := open_shows platform kind name reason
  closeTarget handle := close_shows platform handle
  post handle action args := dispatch_shows platform handle .post .name fun engine => by
    rw [BoundEngine.callWithName, Option.isSome_map]
  set handle param value := dispatch_shows platform handle .set .level fun engine => by
    rw [BoundEngine.callWithLevel, Option.isSome_map]
  resolvedSymbolCount := by
    refine probing_shows platform fun b hprobed hfaithful => ⟨?_, rfl, hprobed, rfl⟩
    simp only [hfaithful.resolvedSymbolCount]
    rfl
  targetCount := by
    rintro b v ⟨rfl, hfaithful⟩
    refine ⟨?_, rfl, hfaithful⟩
    change UInt32.ofNat b.liveHandles.length = UInt32.ofNat (b.ensureProbed platform).liveHandles.length
    rw [(ensureProbed_keeps b).1]
  filesExamined := reading_shows platform fun _ => rfl
  candidatesFound := reading_shows platform fun _ => rfl
  discoveryTruncated := reading_shows platform fun _ => rfl

end ProbingBackend

open ProbingBackend

theorem create_shows (platform : Platform) (roots : List Bytes) (profiles : List Profile)
    (audioEndpoint : Bool) (limits : ScanLimits) :
    Shows platform (.create roots profiles audioEndpoint limits)
      (view platform (.create roots profiles audioEndpoint limits)) := by
  refine ⟨rfl, ?_⟩
  rw [create_engine]
  exact bound_faithful _ _ _

end OakBarrels.Probe
