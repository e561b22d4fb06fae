import OakBarrels.Probe.Dispatch

/-!
# Which module is bound

The loop over the candidates against its purpose: the first module that loads and satisfies a
profile. A copy of the loop that keeps a list of what it loads shows that nothing after it is touched.
-/

open Octets Binary64

namespace OakBarrels.Probe

open Protocol Discovery

/-- The module at a candidate's path, if the platform agrees to load it. -/
def moduleOf (platform : Platform) (candidate : Candidate) : DynamicLibrary :=
  (DynamicLibrary.load platform candidate.path).1

/-- Every symbol of the profile resolves in the module. -/
def Resolves (library : DynamicLibrary) (p : Profile) : Prop :=
  ∀ binding ∈ p.bindings, ∃ address, library.resolve binding.symbol = some address

theorem satisfies_iff (library : DynamicLibrary) (p : Profile) :
    library.satisfies p = true ↔ Resolves library p := by
  simp [DynamicLibrary.satisfies, Resolves, Option.isSome_iff_exists]

instance (library : DynamicLibrary) (p : Profile) : Decidable (Resolves library p) :=
  decidable_of_iff _ (satisfies_iff library p)

/-- The module loads, and satisfies a profile. -/
def Suits (platform : Platform) (profiles : List Profile) (candidate : Candidate) : Prop :=
  (moduleOf platform candidate).isLoaded = true ∧
    ∃ p ∈ profiles, Resolves (moduleOf platform candidate) p

/-- The profiles that the module of a candidate satisfies, in file order. -/
def satisfied (library : DynamicLibrary) (profiles : List Profile) : List Profile :=
  profiles.filter fun p => Resolves library p

def loadable (platform : Platform) (candidates : List Candidate) : Nat :=
  candidates.countP fun candidate => (moduleOf platform candidate).isLoaded

/-! ## What is loaded -/

/-- `bindLoop`, with the candidates it has asked the platform for. -/
def bindLoading (platform : Platform) (profiles : List Profile) :
    List Candidate → BindingAttempt → List Candidate → BindingAttempt × List Candidate
  | [], attempt, loaded => (attempt, loaded)
  | candidate :: rest, attempt, loaded =>
    let library := moduleOf platform candidate
    let loaded := loaded ++ [candidate]
    if ¬ library.isLoaded then bindLoading platform profiles rest attempt loaded
    else
      let attempt := { attempt with
        candidatesLoaded := attempt.candidatesLoaded + 1
        profilesTried := attempt.profilesTried + profiles.length }
      let satisfied := profiles.filter library.satisfies
      if satisfied = [] then bindLoading platform profiles rest attempt loaded
      else ({ attempt with engine := .create library satisfied }, loaded)

def bindFirstLoading (platform : Platform) (candidates : List Candidate)
    (profiles : List Profile) : BindingAttempt × List Candidate :=
  if profiles = [] then (⟨.unbound, 0, 0⟩, [])
  else bindLoading platform profiles candidates ⟨.unbound, 0, 0⟩ []

section

variable {platform : Platform} {profiles : List Profile}

theorem filter_satisfies (library : DynamicLibrary) (profiles : List Profile) :
    profiles.filter library.satisfies = satisfied library profiles :=
  List.filter_congr fun p _ => by simp [← satisfies_iff]

theorem satisfied_eq_nil (library : DynamicLibrary) :
    satisfied library profiles = [] ↔ ¬ ∃ p ∈ profiles, Resolves library p := by
  simp [satisfied, List.filter_eq_nil_iff]

/-- The list is only looked on. -/
theorem bindLoading_attempt (candidates : List Candidate) (attempt : BindingAttempt)
    (loaded : List Candidate) :
    (bindLoading platform profiles candidates attempt loaded).1
      = bindLoop platform profiles candidates attempt := by
  induction candidates generalizing attempt loaded with
  | nil => rfl
  | cons candidate rest ih =>
    have hmodule : (DynamicLibrary.load platform candidate.path).1 = moduleOf platform candidate := rfl
    simp only [bindLoading, bindLoop, hmodule]
    by_cases hloaded : (moduleOf platform candidate).isLoaded = true
    · simp only [hloaded, not_true_eq_false, if_false]
      by_cases hnone : profiles.filter (moduleOf platform candidate).satisfies = []
      · rw [if_pos hnone, if_pos hnone]
        exact ih _ _
      · rw [if_neg hnone, if_neg hnone]
    · rw [if_pos hloaded, if_pos hloaded]
      exact ih _ _

theorem bindLoading_suits {candidate : Candidate} (h : Suits platform profiles candidate)
    (rest : List Candidate) (attempt : BindingAttempt) (loaded : List Candidate) :
    bindLoading platform profiles (candidate :: rest) attempt loaded =
      ({ engine := .create (moduleOf platform candidate)
            (satisfied (moduleOf platform candidate) profiles)
         candidatesLoaded := attempt.candidatesLoaded + loadable platform [candidate]
         profilesTried := attempt.profilesTried + loadable platform [candidate] * profiles.length },
        loaded ++ [candidate]) := by
  obtain ⟨hloaded, hsatisfies⟩ := h
  have hone : loadable platform [candidate] = 1 := by simp [loadable, hloaded]
  simp only [bindLoading, filter_satisfies]
  rw [if_neg (by simp [hloaded]), if_neg (by simpa [satisfied_eq_nil] using hsatisfies), hone, one_mul]

/-- A candidate that does not suit is counted and left behind. -/
theorem bindLoading_passes {candidate : Candidate} (h : ¬ Suits platform profiles candidate)
    (rest : List Candidate) (attempt : BindingAttempt) (loaded : List Candidate) :
    bindLoading platform profiles (candidate :: rest) attempt loaded =
      bindLoading platform profiles rest
        { attempt with
          candidatesLoaded := attempt.candidatesLoaded + loadable platform [candidate]
          profilesTried := attempt.profilesTried + loadable platform [candidate] * profiles.length }
        (loaded ++ [candidate]) := by
  simp only [bindLoading, filter_satisfies]
  split
  · rename_i hloaded
    have hnone : loadable platform [candidate] = 0 := by simpa [loadable] using hloaded
    rw [hnone]
    simp
  · rename_i hloaded
    rw [Bool.not_eq_true, Bool.not_eq_false] at hloaded
    have hone : loadable platform [candidate] = 1 := by simp [loadable, hloaded]
    rw [if_pos ((satisfied_eq_nil _).mpr fun hsatisfies => h ⟨hloaded, hsatisfies⟩), hone, one_mul]

theorem bindLoading_append {before : List Candidate}
    (h : ∀ candidate ∈ before, ¬ Suits platform profiles candidate) (rest : List Candidate)
    (attempt : BindingAttempt) (loaded : List Candidate) :
    bindLoading platform profiles (before ++ rest) attempt loaded =
      bindLoading platform profiles rest
        { attempt with
          candidatesLoaded := attempt.candidatesLoaded + loadable platform before
          profilesTried := attempt.profilesTried + loadable platform before * profiles.length }
        (loaded ++ before) := by
  induction before generalizing attempt loaded with
  | nil => simp [loadable]
  | cons candidate before ih =>
    rw [List.forall_mem_cons] at h
    have hcount : loadable platform (candidate :: before)
        = loadable platform [candidate] + loadable platform before := by
      unfold loadable
      rw [← List.countP_append]
      rfl
    rw [List.cons_append, bindLoading_passes h.1, ih h.2, hcount, List.append_assoc, add_mul]
    simp only [Nat.add_assoc]
    rfl

/-! ## The choice -/

theorem bindFirstLoading_attempt (candidates : List Candidate) :
    (bindFirstLoading platform candidates profiles).1
      = bindFirstAvailable platform candidates profiles := by
  unfold bindFirstLoading bindFirstAvailable
  split
  · rfl
  · exact bindLoading_attempt candidates _ []

theorem bindFirstLoading_suits {before : List Candidate} {candidate : Candidate}
    (hbefore : ∀ other ∈ before, ¬ Suits platform profiles other)
    (hsuits : Suits platform profiles candidate) (after : List Candidate) :
    bindFirstLoading platform (before ++ candidate :: after) profiles =
      (⟨.create (moduleOf platform candidate) (satisfied (moduleOf platform candidate) profiles),
        loadable platform (before ++ [candidate]),
        loadable platform (before ++ [candidate]) * profiles.length⟩, before ++ [candidate]) := by
  obtain ⟨p, hp, -⟩ := hsuits.2
  have hcount : loadable platform (before ++ [candidate])
      = loadable platform before + loadable platform [candidate] := List.countP_append
  unfold bindFirstLoading
  rw [if_neg (List.ne_nil_of_mem hp), bindLoading_append hbefore, bindLoading_suits hsuits, hcount,
    add_mul]
  simp

theorem bindFirstLoading_none {candidates : List Candidate}
    (h : ∀ candidate ∈ candidates, ¬ Suits platform profiles candidate) (hprofiles : profiles ≠ []) :
    bindFirstLoading platform candidates profiles =
      (⟨.unbound, loadable platform candidates, loadable platform candidates * profiles.length⟩,
        candidates) := by
  have hall := bindLoading_append h [] ⟨.unbound, 0, 0⟩ []
  rw [List.append_nil] at hall
  unfold bindFirstLoading
  rw [if_neg hprofiles, hall]
  simp [bindLoading]

theorem bindFirstLoading_nil (candidates : List Candidate) :
    bindFirstLoading platform candidates [] = (⟨.unbound, 0, 0⟩, []) := if_pos rfl

/-- None suits, or one does first. -/
theorem suits_first (candidates : List Candidate) :
    (∀ candidate ∈ candidates, ¬ Suits platform profiles candidate) ∨
      ∃ before candidate after, candidates = before ++ candidate :: after ∧
        (∀ other ∈ before, ¬ Suits platform profiles other) ∧ Suits platform profiles candidate := by
  induction candidates with
  | nil => exact .inl (by simp)
  | cons candidate rest ih =>
    by_cases hsuits : Suits platform profiles candidate
    · exact .inr ⟨[], candidate, rest, rfl, by simp, hsuits⟩
    · rcases ih with hnone | ⟨before, first, after, rfl, hbefore, hfirst⟩
      · exact .inl (List.forall_mem_cons.mpr ⟨hsuits, hnone⟩)
      · exact .inr ⟨candidate :: before, first, after, rfl,
          List.forall_mem_cons.mpr ⟨hsuits, hbefore⟩, hfirst⟩

theorem create_isBound {candidate : Candidate} (h : Suits platform profiles candidate) :
    (BoundEngine.create (moduleOf platform candidate)
      (satisfied (moduleOf platform candidate) profiles)).isBound = true := by
  have hne : satisfied (moduleOf platform candidate) profiles ≠ [] := by
    rw [Ne, satisfied_eq_nil, not_not]
    exact h.2
  simp [BoundEngine.isBound, BoundEngine.create, h.1, hne]

theorem bindFirstLoading_isBound (candidates : List Candidate) :
    (bindFirstLoading platform candidates profiles).1.engine.isBound = true ↔
      profiles ≠ [] ∧ ∃ candidate ∈ candidates, Suits platform profiles candidate := by
  have hunbound : ¬ BoundEngine.unbound.isBound = true := by
    simp [BoundEngine.isBound, BoundEngine.unbound]
  rcases suits_first candidates with hnone | ⟨before, candidate, after, rfl, hbefore, hsuits⟩
  · refine iff_of_false ?_ fun h => ?_
    · by_cases hprofiles : profiles = []
      · rwa [hprofiles, bindFirstLoading_nil]
      · rwa [bindFirstLoading_none hnone hprofiles]
    · obtain ⟨-, candidate, hmem, hsuits⟩ := h
      exact hnone candidate hmem hsuits
  · rw [bindFirstLoading_suits hbefore hsuits]
    obtain ⟨p, hp, -⟩ := hsuits.2
    exact iff_of_true (create_isBound hsuits) ⟨List.ne_nil_of_mem hp, candidate, by simp, hsuits⟩

theorem bindFirstLoading_profilesTried (candidates : List Candidate) :
    (bindFirstLoading platform candidates profiles).1.profilesTried
      = (bindFirstLoading platform candidates profiles).1.candidatesLoaded * profiles.length := by
  by_cases hprofiles : profiles = []
  · rw [hprofiles, bindFirstLoading_nil]
    rfl
  · rcases suits_first candidates with hnone | ⟨before, candidate, after, rfl, hbefore, hsuits⟩
    · rw [bindFirstLoading_none hnone hprofiles]
    · rw [bindFirstLoading_suits hbefore hsuits]

end

/-- **The first module that suits is bound.** A candidate is bound when there are profiles and some
candidate suits: the first such, with all the profiles that its module satisfies, and nothing after
it is loaded. The counts are of the modules loaded up to it, or of all where none suits. -/
theorem binds_first_suitable (platform : Platform) (candidates : List Candidate)
    (profiles : List Profile) :
    let attempt := bindFirstAvailable platform candidates profiles
    let run := bindFirstLoading platform candidates profiles
    run.1 = attempt ∧
    (attempt.engine.isBound = true ↔
      profiles ≠ [] ∧ ∃ candidate ∈ candidates, Suits platform profiles candidate) ∧
    (∀ before candidate after, candidates = before ++ candidate :: after →
      (∀ other ∈ before, ¬ Suits platform profiles other) → Suits platform profiles candidate →
      attempt.engine = .create (moduleOf platform candidate)
          (satisfied (moduleOf platform candidate) profiles) ∧
        attempt.candidatesLoaded = loadable platform (before ++ [candidate]) ∧
        run.2 = before ++ [candidate]) ∧
    ((∀ candidate ∈ candidates, ¬ Suits platform profiles candidate) → profiles ≠ [] →
      attempt.engine = .unbound ∧ attempt.candidatesLoaded = loadable platform candidates ∧
        run.2 = candidates) ∧
    attempt.profilesTried = attempt.candidatesLoaded * profiles.length ∧
    (profiles = [] → attempt = ⟨.unbound, 0, 0⟩ ∧ run.2 = []) := by
  intro attempt run
  have hattempt : run.1 = attempt := bindFirstLoading_attempt candidates
  refine ⟨hattempt, ?_⟩
  rw [← hattempt]
  refine ⟨bindFirstLoading_isBound candidates, ?_, ?_, bindFirstLoading_profilesTried candidates, ?_⟩
  · rintro before candidate after rfl hbefore hsuits
    rw [show run = _ from bindFirstLoading_suits hbefore hsuits after]
    exact ⟨rfl, rfl, rfl⟩
  · intro hnone hprofiles
    rw [show run = _ from bindFirstLoading_none hnone hprofiles]
    exact ⟨rfl, rfl, rfl⟩
  · rintro rfl
    rw [show run = _ from bindFirstLoading_nil candidates]
    exact ⟨rfl, rfl⟩

/-! ## The calls into it -/

/-- The first binding for a role among the profiles that the module satisfies, in file order. -/
def firstBinding (library : DynamicLibrary) (profiles : List Profile) (role : Role) :
    Option Binding :=
  ((satisfied library profiles).flatMap (·.bindings)).find? fun binding => binding.role = role

/-- A call is made exactly when a binding declares its shape, and on the address that the module
resolves for that binding's symbol. -/
structure ShapeSafe (library : DynamicLibrary) (binding : Option Binding) (shape : SymbolShape)
    (call : Address → EngineCall) (made : Option EngineCall) : Prop where
  called : made.isSome = true ↔ ∃ b, binding = some b ∧ b.shape = shape
  address : ∀ c, made = some c → ∃ b address, binding = some b ∧
    library.resolve b.symbol = some address ∧ c = call address

section

variable {library : DynamicLibrary} {profiles : List Profile}

/-- The table holds for each role what the first binding for it resolves to. -/
theorem bindAddresses_find {bindings : List Binding}
    (h : ∀ binding ∈ bindings, (library.resolve binding.symbol).isSome = true) (role : Role)
    (addresses : List (Role × Address)) :
    ((bindings.foldl (BoundEngine.bindAddress library) addresses).find?
        fun entry => entry.1 = role).map Prod.snd
      = ((addresses.find? fun entry => entry.1 = role).map Prod.snd).or
          ((bindings.find? fun binding => binding.role = role).bind
            fun binding => library.resolve binding.symbol) := by
  induction bindings generalizing addresses with
  | nil => simp
  | cons binding rest ih =>
    rw [List.forall_mem_cons] at h
    obtain ⟨address, haddress⟩ := Option.isSome_iff_exists.mp h.1
    rw [List.foldl_cons, ih h.2]
    unfold BoundEngine.bindAddress
    rw [haddress]
    by_cases hrole : binding.role = role
    · subst hrole
      simp only
      split
      · rename_i hbound
        have hsome : (addresses.find? fun entry => entry.1 = binding.role).isSome = true := by
          rw [List.find?_isSome]
          simpa using hbound
        obtain ⟨entry, hentry⟩ := Option.isSome_iff_exists.mp hsome
        simp [hentry]
      · rename_i hfresh
        have hnone : addresses.find? (fun entry => entry.1 = binding.role) = none := by
          rw [← Option.not_isSome_iff_eq_none, List.find?_isSome]
          simpa using hfresh
        simp [List.find?_append, hnone, haddress]
    · have hskip : (binding :: rest).find? (fun b => b.role = role)
          = rest.find? fun b => b.role = role := List.find?_cons_of_neg (by simpa using hrole)
      rw [hskip]
      simp only
      split
      · rfl
      · simp [List.find?_append, hrole]

theorem addressFor_eq (h : ∀ p ∈ profiles, library.satisfies p = true) (role : Role)
    (shape : SymbolShape) :
    (BoundEngine.create library profiles).addressFor role shape =
      ((profiles.flatMap (·.bindings)).find? fun binding => binding.role = role).bind
        fun binding => if binding.shape = shape then library.resolve binding.symbol else none := by
  have hresolves : ∀ b ∈ profiles.flatMap (·.bindings), (library.resolve b.symbol).isSome = true := by
    intro b hb
    obtain ⟨p, hp, hbp⟩ := List.mem_flatMap.mp hb
    exact satisfies_resolves (h p hp) b hbp
  have hbinding : (BoundEngine.create library profiles).bindingFor role
      = (profiles.flatMap (·.bindings)).find? fun binding => binding.role = role :=
    List.find?_flatMap.symm
  unfold BoundEngine.addressFor
  rw [hbinding]
  cases hfirst : (profiles.flatMap (·.bindings)).find? fun binding => binding.role = role with
  | none => rfl
  | some binding =>
    simp only [Option.bind_some]
    by_cases hshape : binding.shape = shape
    · rw [if_neg (not_not_intro hshape), if_pos hshape]
      refine (bindAddresses_find hresolves role []).trans ?_
      rw [hfirst]
      rfl
    · rw [if_pos hshape, if_neg hshape]

theorem firstBinding_resolves {role : Role} {binding : Binding}
    (h : firstBinding library profiles role = some binding) :
    ∃ address, library.resolve binding.symbol = some address := by
  obtain ⟨p, hp, hmem⟩ := List.mem_flatMap.mp (List.mem_of_find?_eq_some h)
  exact of_decide_eq_true (List.mem_filter.mp hp).2 binding hmem

/-- The engine of an attempt, bound or not, has the address of the first binding. -/
theorem attempt_addressFor (platform : Platform) (candidates : List Candidate)
    (profiles : List Profile) (role : Role) (shape : SymbolShape) :
    let engine := (bindFirstAvailable platform candidates profiles).engine
    engine.addressFor role shape = (firstBinding engine.library profiles role).bind
      fun binding => if binding.shape = shape then engine.library.resolve binding.symbol else none := by
  intro engine
  rcases bindFirstAvailable_cases platform candidates profiles with hnone | ⟨library, -, -, hbound⟩
  · rw [show engine = .unbound from hnone]
    cases hfirst : firstBinding BoundEngine.unbound.library profiles role with
    | none => rfl
    | some binding =>
      obtain ⟨address, haddress⟩ := firstBinding_resolves hfirst
      cases haddress
  · rw [show engine = _ from hbound, filter_satisfies, addressFor_eq]
    · rfl
    · intro p hp
      rw [satisfies_iff]
      exact of_decide_eq_true (List.mem_filter.mp hp).2

theorem addressFor_shapeSafe {role : Role} {shape : SymbolShape} {address : Option Address}
    (h : address = (firstBinding library profiles role).bind
      fun binding => if binding.shape = shape then library.resolve binding.symbol else none)
    (call : Address → EngineCall) :
    ShapeSafe library (firstBinding library profiles role) shape call (address.map call) := by
  subst h
  cases hfirst : firstBinding library profiles role with
  | none => exact ⟨by simp, by simp⟩
  | some binding =>
    obtain ⟨address, haddress⟩ := firstBinding_resolves hfirst
    rw [Option.bind_some]
    by_cases hshape : binding.shape = shape
    · rw [if_pos hshape, haddress]
      refine ⟨by simpa using hshape, ?_⟩
      rintro c hc
      exact ⟨binding, address, rfl, haddress, (Option.some.inj hc).symm⟩
    · rw [if_neg hshape]
      exact ⟨by simpa using hshape, by simp⟩

end

/-- **Calls are safe in their shape.** For every engine that a binding attempt produces, each of the
three calls is made exactly when the first binding for its role has its shape, and on the symbol of
that binding; else nothing is called. -/
theorem calls_shape_safe (platform : Platform) (candidates : List Candidate)
    (profiles : List Profile) :
    let engine := (bindFirstAvailable platform candidates profiles).engine
    let first := firstBinding engine.library profiles
    (∀ role value, ShapeSafe engine.library (first role) .level (.level · value)
      (engine.callWithLevel role value)) ∧
    (∀ role name, ShapeSafe engine.library (first role) .name (.name · (cString name))
      (engine.callWithName role name)) ∧
    ShapeSafe engine.library (first .bulk) .sink .registerSink engine.installSink := by
  intro engine first
  have haddress := attempt_addressFor platform candidates profiles
  exact ⟨fun role value => addressFor_shapeSafe (haddress role .level) _,
    fun role name => addressFor_shapeSafe (haddress role .name) _,
    addressFor_shapeSafe (haddress .bulk .sink) _⟩

end OakBarrels.Probe
