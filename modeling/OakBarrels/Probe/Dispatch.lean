import OakBarrels.Probe.Handles

/-!
# What an offered class delivers

A class is offered when a module resolves every symbol of its profile. Whether the operations that
the profile declares are then answered depends on the profiles before it as well.
-/

open Octets Binary64

namespace OakBarrels.Probe

open Json Protocol Discovery

/-! ## The engine that is bound -/

theorem bindLoop_cases (platform : Platform) (profiles : List Profile)
    (candidates : List Candidate) (attempt : BindingAttempt) :
    (bindLoop platform profiles candidates attempt).engine = attempt.engine ∨
      ∃ library : DynamicLibrary, library.isLoaded = true ∧ profiles.filter library.satisfies ≠ [] ∧
        (bindLoop platform profiles candidates attempt).engine
          = .create library (profiles.filter library.satisfies) := by
  induction candidates generalizing attempt with
  | nil => exact .inl rfl
  | cons candidate rest ih =>
    simp only [bindLoop]
    split
    · exact ih attempt
    · rename_i hloaded
      split
      · exact ih _
      · rename_i hsatisfied
        exact .inr ⟨_, by simpa using hloaded, hsatisfied, rfl⟩

/-- An engine is bound to a module and to the profiles that it satisfies, in file order. -/
theorem bindFirstAvailable_cases (platform : Platform) (candidates : List Candidate)
    (profiles : List Profile) :
    (bindFirstAvailable platform candidates profiles).engine = .unbound ∨
      ∃ library : DynamicLibrary, library.isLoaded = true ∧ profiles.filter library.satisfies ≠ [] ∧
        (bindFirstAvailable platform candidates profiles).engine
          = .create library (profiles.filter library.satisfies) := by
  unfold bindFirstAvailable
  split
  · exact .inl rfl
  · exact bindLoop_cases platform profiles candidates _

/-- Where every symbol resolves, a role has an address as soon as it has a binding. -/
theorem bindAddresses_any {library : DynamicLibrary} {bindings : List Binding}
    (h : ∀ binding ∈ bindings, (library.resolve binding.symbol).isSome = true) (role : Role)
    (addresses : List (Role × Address)) :
    (bindings.foldl (BoundEngine.bindAddress library) addresses).any (fun e => e.1 = role)
      = (addresses.any (fun e => e.1 = role) || bindings.any fun binding => binding.role = role) := by
  induction bindings generalizing addresses with
  | nil => simp
  | cons binding rest ih =>
    obtain ⟨address, haddress⟩ := Option.isSome_iff_exists.mp (h binding (by simp))
    rw [List.foldl_cons, ih fun b hb => h b (by simp [hb])]
    have hone : (BoundEngine.bindAddress library addresses binding).any (fun e => e.1 = role)
        = (addresses.any (fun e => e.1 = role) || decide (binding.role = role)) := by
      simp only [BoundEngine.bindAddress, haddress]
      split
      · rename_i hbound
        by_cases hrole : binding.role = role
        · subst hrole
          simp [hbound]
        · simp [hrole]
      · simp
    rw [hone, List.any_cons, Bool.or_assoc]

section

variable {library : DynamicLibrary} {profiles : List Profile}

theorem satisfies_resolves {p : Profile} (h : library.satisfies p = true) :
    ∀ binding ∈ p.bindings, (library.resolve binding.symbol).isSome = true := by
  simpa [DynamicLibrary.satisfies] using h

theorem bindingFor_mem {role : Role} {binding : Binding}
    (h : profiles.findSome? (fun p => p.bindingFor role) = some binding) :
    ∃ p ∈ profiles, binding ∈ p.bindings ∧ binding.role = role := by
  obtain ⟨p, hp, hfind⟩ := List.exists_of_findSome?_eq_some h
  exact ⟨p, hp, List.mem_of_find?_eq_some hfind, by simpa using List.find?_some hfind⟩

/-- An operation reaches the module when the first binding for its role has its shape. -/
theorem addressFor_isSome (h : ∀ p ∈ profiles, library.satisfies p = true) (role : Role)
    (shape : SymbolShape) :
    ((BoundEngine.create library profiles).addressFor role shape).isSome = true ↔
      ∃ binding, profiles.findSome? (fun p => p.bindingFor role) = some binding ∧
        binding.shape = shape := by
  unfold BoundEngine.addressFor BoundEngine.bindingFor
  simp only [BoundEngine.create]
  cases hbinding : profiles.findSome? (fun p => p.bindingFor role) with
  | none => simp
  | some binding =>
    obtain ⟨p, hp, hmem, hrole⟩ := bindingFor_mem hbinding
    have hresolves : ∀ b ∈ profiles.flatMap (·.bindings),
        (library.resolve b.symbol).isSome = true := by
      intro b hb
      obtain ⟨q, hq, hbq⟩ := List.mem_flatMap.mp hb
      exact satisfies_resolves (h q hq) b hbq
    have hany : ((profiles.flatMap (·.bindings)).foldl (BoundEngine.bindAddress library) []).any
        (fun e => e.1 = role) = true := by
      rw [bindAddresses_any hresolves]
      simp only [List.any_nil, Bool.false_or, List.any_eq_true, decide_eq_true_eq]
      exact ⟨binding, List.mem_flatMap.mpr ⟨p, hp, hmem⟩, hrole⟩
    have hfind : (((profiles.flatMap (·.bindings)).foldl (BoundEngine.bindAddress library) []).find?
        fun e => e.1 = role).isSome = true := by
      rw [List.find?_isSome]
      simpa using hany
    by_cases hshape : binding.shape = shape
    · simpa [hshape] using hfind
    · simp [hshape]

end

namespace ProbingBackend

variable {platform : Platform} {b : ProbingBackend}

/-! ## The answers -/

theorem create_engine (platform : Platform) (roots : List Bytes) (profiles : List Profile)
    (audioEndpoint : Bool) (limits : ScanLimits) :
    (create roots profiles audioEndpoint limits).engine platform
      = (bindFirstAvailable platform
          (scanForCandidates platform.lookup roots limits).candidates profiles).engine := by
  rw [engine_eq]
  rfl

theorem final_engine (b : ProbingBackend) (requests : List Request) :
    (Runs.final (step platform) b requests).engine platform = b.engine platform := by
  have hstep : ∀ (s : ProbingBackend) (request : Request),
      s.engine platform = b.engine platform →
        (step platform s request).1.engine platform = b.engine platform :=
    fun s request h => (step_engine s request).trans h
  exact Runs.final_invariant (step platform) (fun s => s.engine platform = b.engine platform) rfl
    hstep requests

theorem dispatch_ok (hbound : (b.engine platform).isBound = true) {handle : UInt32}
    (hlive : handle ∈ b.liveHandles) (call : BoundEngine → Option EngineCall) :
    (dispatch platform handle call b).1 = .ok ↔ (call (b.engine platform)).isSome = true := by
  have hbound' : (b.ensureProbed platform).attempt.engine.isBound = true := hbound
  simp only [dispatch, probing, hbound', ensureProbed_keeps, hlive, not_true_eq_false, if_false,
    engine]
  cases call (b.ensureProbed platform).attempt.engine <;> simp

theorem post_ok (hbound : (b.engine platform).isBound = true) {handle : UInt32}
    (hlive : handle ∈ b.liveHandles) (action : Bytes) (args : Value) :
    (post platform handle action args b).1 = .ok ↔
      ((b.engine platform).addressFor .post .name).isSome = true := by
  rw [post, dispatch_ok hbound hlive, BoundEngine.callWithName, Option.isSome_map]

theorem set_ok (hbound : (b.engine platform).isBound = true) {handle : UInt32}
    (hlive : handle ∈ b.liveHandles) (param : Bytes) (value : Double) :
    (set platform handle param value b).1 = .ok ↔
      ((b.engine platform).addressFor .set .level).isSome = true := by
  rw [set, dispatch_ok hbound hlive, BoundEngine.callWithLevel, Option.isSome_map]

/-! ## No over-claiming -/

/-- Every class offered for a satisfied profile can be used, on every open handle, for what its
profile declares. -/
def Delivers (platform : Platform) (b : ProbingBackend) : Prop :=
  ∀ p ∈ (b.engine platform).profiles, ∀ handle ∈ b.liveHandles,
    ((p.bindingFor .post).isSome = true → ∀ action args,
      (post platform handle action args b).1 = .ok) ∧
    ((p.bindingFor .set).isSome = true → ∀ param value,
      (Double.ofInt 0).le value = true → value.le (Double.ofInt 1) = true →
        (set platform handle param value b).1 = .ok)

def RoleShape : Role → SymbolShape → Prop
  | .post, shape => shape = .name
  | .set, shape => shape = .level
  | .bulk, _ => True

/-- Among the profiles that a module satisfies, the first binding for POST and the first for SET
have the shape of their operation. -/
def FirstShapesFit (library : DynamicLibrary) (profiles : List Profile) : Prop :=
  ∀ role binding, (profiles.filter library.satisfies).findSome? (fun p => p.bindingFor role)
    = some binding → RoleShape role binding.shape

theorem findSome_isSome {profiles : List Profile} {p : Profile} {role : Role} (hp : p ∈ profiles)
    (h : (p.bindingFor role).isSome = true) :
    ∃ binding, profiles.findSome? (fun p => p.bindingFor role) = some binding := by
  rw [← Option.isSome_iff_exists, List.findSome?_isSome_iff]
  exact ⟨p, hp, h⟩

section

variable {profiles : List Profile}

/-- The engine is bound, and to the profiles its module satisfies. -/
def BoundTo (engine : BoundEngine) (profiles : List Profile) : Prop :=
  engine.isBound = true ∧
    engine = .create engine.library (profiles.filter engine.library.satisfies)

theorem unbound_or_boundTo (platform : Platform) (roots : List Bytes) (profiles : List Profile)
    (audioEndpoint : Bool) (limits : ScanLimits) :
    (create roots profiles audioEndpoint limits).engine platform = .unbound ∨
      BoundTo ((create roots profiles audioEndpoint limits).engine platform) profiles := by
  rw [create_engine]
  rcases bindFirstAvailable_cases platform
    (scanForCandidates platform.lookup roots limits).candidates profiles with h | h
  · exact .inl h
  · obtain ⟨library, hloaded, hne, hengine⟩ := h
    refine .inr ⟨?_, ?_⟩
    · rw [hengine]
      simp [BoundEngine.isBound, BoundEngine.create, hloaded, hne]
    · rw [hengine]
      rfl

/-- The operation of a role reaches the module when the first binding for it has its shape. -/
theorem reaches_iff {engine : BoundEngine} (h : BoundTo engine profiles) {role : Role}
    {binding : Binding} {shape : SymbolShape}
    (hfirst : (profiles.filter engine.library.satisfies).findSome? (fun p => p.bindingFor role)
      = some binding) :
    (engine.addressFor role shape).isSome = true ↔ binding.shape = shape := by
  rw [h.2, addressFor_isSome (fun p hp => (List.mem_filter.mp hp).2)]
  constructor
  · rintro ⟨other, hother, hshape⟩
    rw [hfirst] at hother
    cases hother
    exact hshape
  · intro hshape
    exact ⟨binding, hfirst, hshape⟩

/-- Where the first shapes fit, what is offered is delivered, in any state over the engine. -/
theorem delivers_of_fit (hbound : BoundTo (b.engine platform) profiles)
    (hfit : FirstShapesFit (b.engine platform).library profiles) : Delivers platform b := by
  intro p hp handle hlive
  rw [hbound.2] at hp
  refine ⟨?_, ?_⟩
  · intro hrole action args
    obtain ⟨binding, hfirst⟩ := findSome_isSome hp hrole
    rw [post_ok hbound.1 hlive, reaches_iff hbound hfirst]
    exact hfit .post binding hfirst
  · intro hrole param value _ _
    obtain ⟨binding, hfirst⟩ := findSome_isSome hp hrole
    rw [set_ok hbound.1 hlive, reaches_iff hbound hfirst]
    exact hfit .set binding hfirst

theorem open_live (hbound : (b.engine platform).isBound = true) (kind name : Bytes)
    (reason : Reason) :
    b.nextHandle ∈ (b.step platform (.openTarget kind name reason)).1.liveHandles := by
  simp only [step]
  rw [openTarget_bound hbound]
  simp

theorem fit_of_delivers (hbound : BoundTo (b.engine platform) profiles) {handle : UInt32}
    (hlive : handle ∈ b.liveHandles) (h : Delivers platform b) :
    FirstShapesFit (b.engine platform).library profiles := by
  intro role binding hfirst
  obtain ⟨p, hp, hfor⟩ := List.exists_of_findSome?_eq_some hfirst
  have hsome : (p.bindingFor role).isSome = true := by simp [hfor]
  have hoffered : p ∈ (b.engine platform).profiles := by
    rw [hbound.2]
    exact hp
  obtain ⟨hpost, hset⟩ := h p hoffered handle hlive
  cases role with
  | post =>
    have hok := hpost hsome [] .null
    rwa [post_ok hbound.1 hlive, reaches_iff hbound hfirst] at hok
  | set =>
    have hok := hset hsome [] (.ofInt 0) (by decide +kernel) (by decide +kernel)
    rwa [set_ok hbound.1 hlive, reaches_iff hbound hfirst] at hok
  | bulk => trivial

/-- **No over-claiming.** What a backend offers for the profiles of a document is delivered on every
open handle, in every state it can come to, exactly when the first binding for each operation among
the satisfied profiles has the shape of the operation. -/
theorem delivers_iff (platform : Platform) (roots : List Bytes) (text : Bytes)
    (audioEndpoint : Bool) (limits : ScanLimits) :
    parseProfiles text = some profiles →
    let fresh := create roots profiles audioEndpoint limits
    ((∀ requests, Delivers platform (Runs.final (step platform) fresh requests)) ↔
      FirstShapesFit (fresh.engine platform).library profiles) := by
  intro _ fresh
  rcases unbound_or_boundTo platform roots profiles audioEndpoint limits with hnone | hbound
  · constructor
    · intro _ role binding hfirst
      obtain ⟨p, hp, hmem, -⟩ := bindingFor_mem hfirst
      have hresolves := satisfies_resolves (List.mem_filter.mp hp).2 binding hmem
      simp [fresh, hnone, BoundEngine.unbound, DynamicLibrary.resolve] at hresolves
    · intro _ requests p hp
      rw [final_engine, hnone] at hp
      cases hp
  · constructor
    · intro hall
      have hengine : (fresh.step platform (.openTarget [] [] .ok)).1.engine platform
          = fresh.engine platform := step_engine fresh _
      rw [← hengine]
      exact fit_of_delivers (by rw [hengine]; exact hbound) (open_live hbound.1 [] [] .ok)
        (hall [.openTarget [] [] .ok])
    · intro hfit requests
      have hengine : (Runs.final (step platform) fresh requests).engine platform
          = fresh.engine platform := final_engine fresh requests
      exact delivers_of_fit (by rw [hengine]; exact hbound) (by rw [hengine]; exact hfit)

end

def fittingDocument : Bytes :=
  ascii "\x7b\"profiles\":[\x7b\"class\":\"c\",\"bindings\":[" ++
    ascii "\x7b\"role\":\"set\",\"symbol\":\"s\",\"shape\":\"level\"\x7d" ++ ascii "]\x7d]\x7d"

def mismatchedDocument : Bytes :=
  ascii "\x7b\"profiles\":[\x7b\"class\":\"c\",\"bindings\":[" ++
    ascii "\x7b\"role\":\"post\",\"symbol\":\"s\",\"shape\":\"level\"\x7d" ++ ascii "]\x7d]\x7d"

theorem delivers_iff_fitting :
    parseProfiles fittingDocument = some [oneProfile] ∧ ∀ requests, Delivers onePlatform
      (Runs.final (step onePlatform) (create [ascii "/r"] [oneProfile] false {}) requests) := by
  have hparse : parseProfiles fittingDocument = some [oneProfile] := by decide +kernel
  refine ⟨hparse, (delivers_iff onePlatform [ascii "/r"] fittingDocument false {} hparse).mpr ?_⟩
  intro role binding hfirst
  obtain ⟨p, hp, hmem, rfl⟩ := bindingFor_mem hfirst
  have hprofile : p = oneProfile := List.mem_singleton.mp (List.mem_of_mem_filter hp)
  subst hprofile
  cases List.mem_singleton.mp hmem
  rfl

/-- A class is offered, a handle is open, and the operation its profile declares is refused. -/
theorem delivers_fails_at_mismatch :
    ¬ ∀ (platform : Platform) (roots : List Bytes) (text : Bytes) (profiles : List Profile)
      (audioEndpoint : Bool) (limits : ScanLimits), parseProfiles text = some profiles →
      ∀ requests, Delivers platform
        (Runs.final (step platform) (create roots profiles audioEndpoint limits) requests) := by
  intro h
  have hparse : parseProfiles mismatchedDocument
      = some [⟨ascii "c", [⟨.post, ascii "s", .level⟩]⟩] := by decide +kernel
  have hall := h onePlatform [ascii "/r"] mismatchedDocument _ false {} hparse
    [.openTarget [] [] .ok]
  have hoffered := hall ⟨ascii "c", [⟨.post, ascii "s", .level⟩]⟩ (by decide +kernel) 1
    (by decide +kernel)
  exact absurd (hoffered.1 rfl [] .null) (by decide +kernel)

end ProbingBackend

end OakBarrels.Probe
