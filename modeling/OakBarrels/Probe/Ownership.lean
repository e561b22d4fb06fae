import OakBarrels.Lib.Owners
import OakBarrels.Lib.Runs
import OakBarrels.Probe.Prober

/-!
# Who owns a module

The objects of a program that hold a module, over every sequence of operations on them. A handle
is one answer of the platform: a module that is loaded twice has two handles, each to be released
once.
-/

open Octets

namespace OakBarrels.Probe

open Protocol Discovery

/-- What a mapped module resolves its symbols to. -/
abbrev Module := Bytes → Option Address

/-- The answers of the platform to a load. Windows has the path widened, and is asked again without
the restricted search path where it refuses. -/
inductive Loader
  | posix (dlopen : Option Module)
  | windows (wide : List UInt16) (loadLibraryEx loadLibrary : Option Module)

/-- The handle of a library that was loaded from `path`. -/
def Loader.load (path : Bytes) (loader : Loader) : Option Module × Reason :=
  if path = [] then (none, .badArgument)
  else
    match loader with
    | .posix handle =>
      match handle with
      | none => (none, .bindFailed)
      | some handle => (some handle, .ok)
    | .windows wide restricted unrestricted =>
      if wide = [] then (none, .badArgument)
      else
        match restricted <|> unrestricted with
        | none => (none, .bindFailed)
        | some handle => (some handle, .ok)

/-- The objects that are live, each with its handle or a null pointer, and what the platform has
returned and has been given back. -/
structure Libraries (Object : Type) where
  objects : Object → Option (Option Nat)
  returned : List Module
  released : List Nat

inductive LibraryOp (Object : Type)
  | construct (object : Object)
  | load (object : Object) (path : Bytes) (loader : Loader)
  | moveConstruct (object other : Object)
  | moveAssign (object other : Object)
  | destroy (object : Object)

/-- The operation gives the object a handle, where it has one to give. -/
def LibraryOp.Fills {Object : Type} (op : LibraryOp Object) (object : Object) : Prop :=
  match op with
  | .load o _ _ => o = object
  | .moveConstruct o _ => o = object
  | .moveAssign o _ => o = object
  | _ => False

namespace Libraries

variable {Object : Type}

def empty : Libraries Object := ⟨fun _ => none, [], []⟩

def isLive (s : Libraries Object) (object : Object) : Bool := (s.objects object).isSome

def handle (s : Libraries Object) (object : Object) : Option Nat := (s.objects object).join

/-- The object as a library. -/
def library (s : Libraries Object) (object : Object) : DynamicLibrary :=
  ⟨(s.handle object).bind fun handle => s.returned[handle]?⟩

variable [DecidableEq Object]

def put (s : Libraries Object) (object : Object) (handle : Option Nat) : Libraries Object :=
  { s with objects := Function.update s.objects object (some handle) }

def release (s : Libraries Object) (object : Object) : Libraries Object :=
  match s.handle object with
  | none => s
  | some handle => { s.put object none with released := s.released ++ [handle] }

/-- The handle that the platform has just returned is put into the object. -/
def hold (s : Libraries Object) (object : Object) (handle : Module) : Libraries Object :=
  { s.put object (some s.returned.length) with returned := s.returned ++ [handle] }

/-- What moves a handle out of `other`, which is left with a null pointer. -/
def take (s : Libraries Object) (object other : Object) : Libraries Object :=
  (s.put object (s.handle other)).put other none

/-- One operation; it is none of a program that it constructs what is live or uses what is not. -/
def step (s : Libraries Object) : LibraryOp Object → Option (Libraries Object)
  | .construct object => if s.isLive object then none else some (s.put object none)
  | .load object path loader =>
    if s.isLive object then none
    else
      match (loader.load path).1 with
      | none => some (s.put object none)
      | some handle => some (s.hold object handle)
  | .moveConstruct object other =>
    if s.isLive object ∨ ¬ s.isLive other then none else some (s.take object other)
  | .moveAssign object other =>
    if ¬ s.isLive object ∨ ¬ s.isLive other then none
    else if object = other then some s
    else some ((s.release object).take object other)
  | .destroy object =>
    if ¬ s.isLive object then none
    else
      let s := s.release object
      some { s with objects := Function.update s.objects object none }

/-- What an operation does, and when. -/
inductive Does (s : Libraries Object) : LibraryOp Object → Libraries Object → Prop
  | construct {object : Object} : s.isLive object = false →
      Does s (.construct object) (s.put object none)
  | loadFailed {object : Object} {path : Bytes} {loader : Loader} : s.isLive object = false →
      (loader.load path).1 = none → Does s (.load object path loader) (s.put object none)
  | load {object : Object} {path : Bytes} {loader : Loader} {handle : Module} :
      s.isLive object = false → (loader.load path).1 = some handle →
        Does s (.load object path loader) (s.hold object handle)
  | moveConstruct {object other : Object} : s.isLive object = false → s.isLive other = true →
      Does s (.moveConstruct object other) (s.take object other)
  | assignSelf {object : Object} : s.isLive object = true → Does s (.moveAssign object object) s
  | moveAssign {object other : Object} : s.isLive object = true → s.isLive other = true →
      object ≠ other → Does s (.moveAssign object other) ((s.release object).take object other)
  | destroy {object : Object} : s.isLive object = true →
      Does s (.destroy object) { s.release object with
        objects := Function.update (s.release object).objects object none }

theorem step_iff {s s' : Libraries Object} {op : LibraryOp Object} :
    step s op = some s' ↔ Does s op s' := by
  constructor
  · intro h
    cases op with
    | construct object =>
      simp only [step, Option.ite_none_left_eq_some, Option.some.injEq, Bool.not_eq_true] at h
      obtain ⟨hdead, rfl⟩ := h
      exact .construct hdead
    | load object path loader =>
      simp only [step, Option.ite_none_left_eq_some, Bool.not_eq_true] at h
      obtain ⟨hdead, h⟩ := h
      split at h <;> rename_i hload <;> obtain rfl := Option.some.inj h
      · exact .loadFailed hdead hload
      · exact .load hdead hload
    | moveConstruct object other =>
      simp only [step, Option.ite_none_left_eq_some, Option.some.injEq, not_or, Bool.not_eq_true,
        Bool.not_eq_false] at h
      obtain ⟨⟨hdead, hlive⟩, rfl⟩ := h
      exact .moveConstruct hdead hlive
    | moveAssign object other =>
      simp only [step, Option.ite_none_left_eq_some, not_or, not_not] at h
      obtain ⟨⟨hlive, hother⟩, h⟩ := h
      split at h <;> rename_i hsame <;> obtain rfl := Option.some.inj h
      · subst hsame
        exact .assignSelf hlive
      · exact .moveAssign hlive hother hsame
    | destroy object =>
      simp only [step, Option.ite_none_left_eq_some, Option.some.injEq, not_not] at h
      obtain ⟨hlive, rfl⟩ := h
      exact .destroy hlive
  · rintro (h | ⟨h, hload⟩ | ⟨h, hload⟩ | ⟨h, hother⟩ | h | ⟨h, hother, hne⟩ | h)
    · simp [step, h]
    · simp [step, h, hload]
    · simp [step, h, hload]
    · simp [step, h, hother]
    · simp [step, h]
    · simp [step, h, hother, hne]
    · simp [step, h]

/-! ## What an operation does to the handles -/

section

variable {s : Libraries Object} {object other : Object}

@[simp] theorem handle_put (handle : Option Nat) :
    (s.put object handle).handle = Function.update s.handle object handle := by
  unfold Libraries.handle Libraries.put
  funext o
  by_cases ho : o = object
  · rw [ho]
    simp
  · simp [Function.update_of_ne ho]

omit [DecidableEq Object] in
theorem handle_dead (h : s.isLive object = false) : s.handle object = none := by
  unfold isLive at h
  unfold Libraries.handle
  rw [Option.isSome_eq_false_iff, Option.isNone_iff_eq_none] at h
  rw [h]
  rfl

theorem handle_release : (s.release object).handle = Function.update s.handle object none := by
  unfold release
  split
  · rename_i hnone
    rw [← hnone, Function.update_eq_self]
  · exact handle_put none

theorem handle_take :
    (s.take object other).handle =
      Function.update (Function.update s.handle object (s.handle other)) other none := by
  unfold take
  rw [handle_put, handle_put]

/-- Ending the lifetime of an object that holds nothing. -/
theorem handle_end {s : Libraries Object} (h : s.handle object = none) :
    Libraries.handle { s with objects := Function.update s.objects object none } = s.handle := by
  funext o
  by_cases ho : o = object
  · rw [ho, h]
    simp [Libraries.handle]
  · simp [Libraries.handle, Function.update_of_ne ho]

end

/-! ## Ownership -/

/-- A handle that was returned and has not been given back. -/
def Outstanding (s : Libraries Object) (handle : Nat) : Prop :=
  handle < s.returned.length ∧ handle ∉ s.released

/-- Handles that are outstanding are held by one object each; the others were given back once. -/
structure Owned (s : Libraries Object) : Prop where
  held : Owners.Owned s.handle s.Outstanding
  once : s.released.Nodup
  returned : ∀ handle ∈ s.released, handle < s.returned.length

section

variable {s s' : Libraries Object} {object other : Object}

omit [DecidableEq Object] in
theorem owned_empty : Owned (empty : Libraries Object) := by
  refine ⟨?_, List.nodup_nil, nofun⟩
  apply Owners.owned_none.congr
  · exact fun _ => rfl
  · exact fun _ => iff_of_false (fun h => absurd h.1 (Nat.not_lt_zero _)) id

omit [DecidableEq Object] in
/-- A change of objects alone. -/
theorem Owned.keep (h : Owned s) {objects : Object → Option (Option Nat)}
    (hheld : Owners.Owned (handle { s with objects := objects }) s.Outstanding) :
    Owned { s with objects := objects } := ⟨hheld, h.once, h.returned⟩

theorem Owned.put (h : Owned s) (hnone : s.handle object = none) : Owned (s.put object none) := by
  have hsame : (s.put object none).handle = s.handle := by
    rw [handle_put, ← hnone, Function.update_eq_self]
  apply h.keep
  exact hsame ▸ h.held

theorem Owned.take (h : Owned s) (hnone : s.handle object = none) (hne : object ≠ other) :
    Owned (s.take object other) := by
  have hpassed := h.held.pass hnone hne
  rw [← handle_take] at hpassed
  exact h.keep hpassed

theorem Owned.release (h : Owned s) : Owned (s.release object) := by
  cases hheld : s.handle object with
  | none =>
    have hsame : s.release object = s := by
      unfold Libraries.release
      rw [hheld]
    rw [hsame]
    exact h
  | some handle =>
    have hreleased : s.release object =
        { s.put object none with released := s.released ++ [handle] } := by
      unfold Libraries.release
      rw [hheld]
    obtain ⟨hlt, hnew⟩ := (h.held handle).2 ⟨object, hheld⟩
    refine ⟨?_, ?_, ?_⟩
    · rw [handle_release]
      apply (h.held.drop hheld).congr fun _ => rfl
      intro t
      rw [hreleased]
      simp only [Outstanding, Libraries.put, List.mem_append, List.mem_singleton, not_or, and_assoc]
    · rw [hreleased, ← List.concat_eq_append]
      exact h.once.concat hnew
    · rw [hreleased]
      intro t ht
      rcases List.mem_append.mp ht with ht | ht
      · exact h.returned t ht
      · rw [List.mem_singleton.mp ht]
        exact hlt

theorem Owned.hold (h : Owned s) (hnone : s.handle object = none) (handle : Module) :
    Owned (s.hold object handle) := by
  refine ⟨?_, h.once, ?_⟩
  · have hnew : ¬ s.Outstanding s.returned.length := fun hout => absurd hout.1 (lt_irrefl _)
    have hfresh : s.returned.length ∉ s.released :=
      fun hin => absurd (h.returned _ hin) (lt_irrefl _)
    have hgiven := h.held.give hnone hnew
    rw [← handle_put] at hgiven
    apply hgiven.congr fun _ => rfl
    intro t
    unfold Outstanding
    simp only [Libraries.hold, Libraries.put, List.length_append, List.length_singleton]
    constructor
    · rintro ⟨hlt, ht⟩
      rcases Nat.lt_succ_iff_lt_or_eq.mp hlt with hlt | heq
      · exact .inl ⟨hlt, ht⟩
      · exact .inr heq
    · rintro (⟨hlt, ht⟩ | rfl)
      · exact ⟨by omega, ht⟩
      · exact ⟨by omega, hfresh⟩
  · intro t ht
    have hlt := h.returned t ht
    simp only [Libraries.hold, List.length_append, List.length_singleton]
    omega

/-- No operation loses a handle, and none gives one back twice. -/
theorem step_owned {op : LibraryOp Object} (h : Owned s) (hstep : step s op = some s') :
    Owned s' := by
  cases step_iff.mp hstep with
  | construct hdead => exact h.put (handle_dead hdead)
  | loadFailed hdead _ => exact h.put (handle_dead hdead)
  | load hdead _ => exact h.hold (handle_dead hdead) _
  | moveConstruct hdead hlive =>
    apply h.take (handle_dead hdead)
    rintro rfl
    exact absurd (hdead.symm.trans hlive) Bool.false_ne_true
  | assignSelf _ => exact h
  | moveAssign _ _ hne =>
    apply h.release.take _ hne
    rw [handle_release, Function.update_self]
  | @destroy object _ =>
    have hnone : (s.release object).handle object = none := by
      rw [handle_release, Function.update_self]
    have howned : Owned (s.release object) := h.release
    have hheld := howned.held
    rw [← handle_end hnone] at hheld
    exact howned.keep hheld

theorem run_owned {ops : List (LibraryOp Object)} (hrun : ops.foldlM step s = some s')
    (h : Owned s) : Owned s' :=
  Runs.run_invariant (fun _ _ _ _ hs hstep => step_owned hs hstep) hrun h

theorem reaches_owned (h : Runs.Reaches step s s') (h0 : Owned s) : Owned s' :=
  h.invariant h0 fun _ _ _ hs hstep => step_owned hs hstep

end

/-! ## The search for an engine -/

/-- The libraries of one call: the local one, the argument of `BoundEngine`, the member of the
engine that is built, and the member of the engine that is returned. -/
structure Places (Object : Type) where
  library : Object
  argument : Object
  temporary : Object
  engine : Object
  distinct : [library, argument, temporary, engine].Nodup

/-- `attempt.engine = BoundEngine(std::move(library), std::move(satisfied))`, with the ends of the
lifetimes after it. -/
def bindEngine (places : Places Object) (satisfied : List Profile) (s : Libraries Object) :
    Option (BoundEngine × Libraries Object) := do
  let s ← step s (.moveConstruct places.argument places.library)
  let s ← step s (.moveConstruct places.temporary places.argument)
  let engine := BoundEngine.create (s.library places.temporary) satisfied
  let s ← step s (.destroy places.argument)
  let s ← step s (.moveAssign places.engine places.temporary)
  let s ← step s (.destroy places.temporary)
  let s ← step s (.destroy places.library)
  return (engine, s)

/-- The loop over the candidates; what the platform answers may depend on all that has happened. -/
def bindLoop (ask : Libraries Object → Bytes → Loader) (places : Places Object)
    (profiles : List Profile) :
    List Candidate → BindingAttempt → Libraries Object → Option (BindingAttempt × Libraries Object)
  | [], attempt, s => some (attempt, s)
  | candidate :: rest, attempt, s => do
    let s ← step s (.load places.library candidate.path (ask s candidate.path))
    if ¬ (s.library places.library).isLoaded then
      bindLoop ask places profiles rest attempt (← step s (.destroy places.library))
    else
      let attempt := { attempt with
        candidatesLoaded := attempt.candidatesLoaded + 1
        profilesTried := attempt.profilesTried + profiles.length }
      let satisfied := profiles.filter (s.library places.library).satisfies
      if satisfied = [] then
        bindLoop ask places profiles rest attempt (← step s (.destroy places.library))
      else
        let (engine, s) ← bindEngine places satisfied s
        return ({ attempt with engine := engine }, s)

def bindFirstAvailable (ask : Libraries Object → Bytes → Loader) (places : Places Object)
    (candidates : List Candidate) (profiles : List Profile) (s : Libraries Object) :
    Option (BindingAttempt × Libraries Object) := do
  let s ← step s (.construct places.engine)
  if profiles = [] then return (⟨.unbound, 0, 0⟩, s)
  else bindLoop ask places profiles candidates ⟨.unbound, 0, 0⟩ s

/-- Between two candidates only the library of the engine is live, and it holds nothing. -/
structure Ready (places : Places Object) (s : Libraries Object) : Prop where
  library : s.objects places.library = none
  argument : s.objects places.argument = none
  temporary : s.objects places.temporary = none
  engine : s.objects places.engine = some none

section

variable {places : Places Object} {s : Libraries Object} {object : Object}

theorem step_load (h : s.objects object = none) (path : Bytes) (loader : Loader) :
    step s (.load object path loader) =
      some (match (loader.load path).1 with
        | none => s.put object none
        | some handle => s.hold object handle) := by
  have hdead : s.isLive object = false := by
    unfold isLive
    rw [h]
    rfl
  split <;> rename_i hload
  · exact step_iff.mpr (.loadFailed hdead hload)
  · exact step_iff.mpr (.load hdead hload)

theorem library_put : (s.put object none).library object = ⟨none⟩ := by
  unfold library
  rw [handle_put, Function.update_self]
  rfl

theorem library_hold (handle : Module) : (s.hold object handle).library object = ⟨some handle⟩ := by
  have hheld : (s.hold object handle).handle object = some s.returned.length := by
    change (s.put object (some s.returned.length)).handle object = _
    rw [handle_put, Function.update_self]
  unfold library
  rw [hheld]
  simp [hold]

theorem destroy_put (h : s.objects object = none) :
    step (s.put object none) (.destroy object) = some s := by
  have hback : Function.update s.objects object none = s.objects := by
    rw [← h, Function.update_eq_self]
  simp [step, isLive, put, release, handle, hback]

theorem destroy_hold (h : s.objects object = none) (handle : Module) :
    step (s.hold object handle) (.destroy object) =
      some { s with
        returned := s.returned ++ [handle]
        released := s.released ++ [s.returned.length] } := by
  have hback : Function.update s.objects object none = s.objects := by
    rw [← h, Function.update_eq_self]
  simp [step, isLive, hold, put, release, Libraries.handle, hback]

theorem bindEngine_hold (h : Ready places s) (satisfied : List Profile) (handle : Module) :
    bindEngine places satisfied (s.hold places.library handle) =
      some (.create ⟨some handle⟩ satisfied,
        { s with
          objects := Function.update s.objects places.engine (some (some s.returned.length))
          returned := s.returned ++ [handle] }) := by
  obtain ⟨library, argument, temporary, engine, hdistinct⟩ := places
  obtain ⟨hlibrary, hargument, htemporary, hengine⟩ := h
  simp only [List.nodup_cons, List.mem_cons, List.not_mem_nil, or_false, not_or, not_false_eq_true,
    List.nodup_nil, and_true] at hdistinct hlibrary hargument htemporary hengine
  obtain ⟨⟨hla, hlt, hle⟩, ⟨hat, hae⟩, hte⟩ := hdistinct
  -- The handle goes from one library to the next, and each ends after it has passed it on.
  have hobjects : Function.update (Function.update (Function.update (Function.update
      (Function.update (Function.update (Function.update (Function.update s.objects
        library (some (some s.returned.length))) argument (some (some s.returned.length)))
        library (some none)) temporary (some (some s.returned.length))) argument none)
        engine (some (some s.returned.length))) temporary none) library none =
      Function.update s.objects engine (some (some s.returned.length)) := by
    funext o
    simp only [Function.update_apply]
    split_ifs <;> simp_all
  simp [bindEngine, step, isLive, hold, put, take, release, Libraries.handle, Libraries.library,
    hargument, htemporary, hengine, hla, hlt, hle, Ne.symm hla, Ne.symm hlt, Ne.symm hle,
    Ne.symm hat, Ne.symm hae, Ne.symm hte, hobjects]

variable {ask : Libraries Object → Bytes → Loader} {profiles : List Profile}

/-- What one turn of the loop comes to. -/
theorem bindLoop_cons (h : Ready places s) (candidate : Candidate) (rest : List Candidate)
    (attempt : BindingAttempt) :
    bindLoop ask places profiles (candidate :: rest) attempt s =
      match ((ask s candidate.path).load candidate.path).1 with
      | none => bindLoop ask places profiles rest attempt s
      | some handle =>
        let attempt := { attempt with
          candidatesLoaded := attempt.candidatesLoaded + 1
          profilesTried := attempt.profilesTried + profiles.length }
        let satisfied := profiles.filter (DynamicLibrary.mk (some handle)).satisfies
        if satisfied = [] then
          bindLoop ask places profiles rest attempt { s with
            returned := s.returned ++ [handle]
            released := s.released ++ [s.returned.length] }
        else
          some ({ attempt with engine := .create ⟨some handle⟩ satisfied }, { s with
            objects := Function.update s.objects places.engine (some (some s.returned.length))
            returned := s.returned ++ [handle] }) := by
  rw [bindLoop, step_load h.library, Option.bind_eq_bind, Option.bind_some]
  cases hload : ((ask s candidate.path).load candidate.path).1 with
  | none =>
    simp only [library_put, DynamicLibrary.isLoaded, Option.isSome_none, Bool.false_eq_true,
      not_false_eq_true, if_true, destroy_put h.library, Option.bind_eq_bind, Option.bind_some]
  | some handle =>
    simp only [library_hold, DynamicLibrary.isLoaded, Option.isSome_some, not_true_eq_false,
      if_false, destroy_hold h.library, bindEngine_hold h, Option.bind_eq_bind, Option.bind_some]
    rfl

theorem bindEngine_reaches {satisfied : List Profile} {engine : BoundEngine} {s' : Libraries Object}
    (hrun : bindEngine places satisfied s = some (engine, s')) : Runs.Reaches step s s' := by
  simp only [bindEngine, Option.bind_eq_bind, Option.bind_eq_some_iff, Option.pure_def,
    Option.some.injEq, Prod.mk.injEq] at hrun
  obtain ⟨s1, h1, s2, h2, s3, h3, s4, h4, s5, h5, s6, h6, -, rfl⟩ := hrun
  exact .next _ (.next _ (.next _ (.next _ (.next _ (.one _ h1) h2) h3) h4) h5) h6

/-- The loop does nothing to the objects but the operations on them. -/
theorem bindLoop_reaches {candidates : List Candidate} {attempt attempt' : BindingAttempt}
    {s' : Libraries Object}
    (hrun : bindLoop ask places profiles candidates attempt s = some (attempt', s')) :
    Runs.Reaches step s s' := by
  induction candidates generalizing attempt s with
  | nil =>
    simp only [bindLoop, Option.some.injEq, Prod.mk.injEq] at hrun
    obtain ⟨-, rfl⟩ := hrun
    exact .start
  | cons candidate rest ih =>
    rw [bindLoop, Option.bind_eq_bind, Option.bind_eq_some_iff] at hrun
    obtain ⟨s1, hload, hrun⟩ := hrun
    apply Runs.Reaches.trans (.one _ hload)
    split at hrun
    · obtain ⟨s2, hdestroy, hrun⟩ := Option.bind_eq_some_iff.mp hrun
      exact (Runs.Reaches.one _ hdestroy).trans (ih hrun)
    · dsimp only at hrun
      split at hrun
      · obtain ⟨s2, hdestroy, hrun⟩ := Option.bind_eq_some_iff.mp hrun
        exact (Runs.Reaches.one _ hdestroy).trans (ih hrun)
      · obtain ⟨⟨engine, s2⟩, hengine, hrun⟩ := Option.bind_eq_some_iff.mp hrun
        obtain ⟨-, rfl⟩ := Prod.mk.inj (Option.some.inj hrun)
        exact bindEngine_reaches hengine

/-- The loop runs to its end, and leaves at most the library of the engine behind. -/
theorem bindLoop_ends (h : Ready places s) (candidates : List Candidate) (attempt : BindingAttempt)
    (hunbound : attempt.engine = .unbound) :
    ∃ attempt' s', bindLoop ask places profiles candidates attempt s = some (attempt', s') ∧
      (∀ o, o ≠ places.engine → s'.objects o = s.objects o) ∧
      s'.isLive places.engine = true ∧
      s'.library places.engine = attempt'.engine.library := by
  induction candidates generalizing attempt s with
  | nil =>
    refine ⟨attempt, s, rfl, fun _ _ => rfl, ?_, ?_⟩
    · unfold isLive
      rw [h.engine]
      rfl
    · unfold library Libraries.handle
      rw [h.engine, hunbound]
      rfl
  | cons candidate rest ih =>
    rw [bindLoop_cons h]
    split
    · exact ih h attempt hunbound
    · rename_i handle _
      dsimp only
      split
      · have hready : Ready places { s with
            returned := s.returned ++ [handle]
            released := s.released ++ [s.returned.length] } :=
          ⟨h.library, h.argument, h.temporary, h.engine⟩
        apply ih hready
        exact hunbound
      · refine ⟨_, _, rfl, fun o ho => Function.update_of_ne ho _ _, ?_, ?_⟩
        · simp [isLive]
        · simp [library, Libraries.handle, BoundEngine.create]

/-- The handles that the loop gets are all given back, but the one that the engine holds. -/
theorem returned_since {s' : Libraries Object} (h : Owned s) (hreaches : Runs.Reaches step s s')
    (hkept : ∀ o, o ≠ places.engine → s'.objects o = s.objects o) {handle : Nat}
    (hnew : s.returned.length ≤ handle) (hlt : handle < s'.returned.length) :
    handle ∈ s'.released ∨ s'.handle places.engine = some handle := by
  by_cases hreleased : handle ∈ s'.released
  · exact .inl hreleased
  obtain ⟨o, ho, -⟩ := ((reaches_owned hreaches h).held handle).1 ⟨hlt, hreleased⟩
  by_cases hengine : o = places.engine
  · exact .inr (hengine ▸ ho)
  · -- Who else holds it has held it before, when it had not been returned.
    have hbefore : s.handle o = some handle := by
      unfold Libraries.handle at ho ⊢
      rw [← hkept o hengine]
      exact ho
    have hearlier := ((h.held handle).2 ⟨o, hbefore⟩).1
    omega

end

/-! ## Moved from -/

section

variable {s s' : Libraries Object} {object other : Object}

omit [DecidableEq Object] in
theorem library_none (h : s.handle object = none) : s.library object = ⟨none⟩ := by
  unfold library
  rw [h]
  rfl

theorem handle_moved (hne : object ≠ other)
    (hstep : step s (.moveConstruct object other) = some s' ∨
      step s (.moveAssign object other) = some s') : s'.handle other = none := by
  rcases hstep with hstep | hstep
  · cases step_iff.mp hstep with
    | moveConstruct _ _ => rw [handle_take, Function.update_self]
  · cases step_iff.mp hstep with
    | assignSelf _ => exact absurd rfl hne
    | moveAssign _ _ _ => rw [handle_take, Function.update_self]

theorem update_none {held : Object → Option Nat} (h : held other = none) :
    Function.update held object none other = none := by
  by_cases ho : other = object
  · rw [ho, Function.update_self]
  · rw [Function.update_of_ne ho, h]

/-- What an object without a handle gets from others' operations is nothing. -/
theorem step_unfilled {op : LibraryOp Object} (h : s.handle other = none) (hop : ¬ op.Fills other)
    (hstep : step s op = some s') : s'.handle other = none := by
  cases step_iff.mp hstep with
  | construct _ =>
    rw [handle_put]
    exact update_none h
  | loadFailed _ _ =>
    rw [handle_put]
    exact update_none h
  | @load object _ _ handle _ _ =>
    change (s.put object (some s.returned.length)).handle other = none
    rw [handle_put, Function.update_of_ne (Ne.symm hop), h]
  | moveConstruct _ _ =>
    rw [handle_take]
    apply update_none
    rw [Function.update_of_ne (Ne.symm hop), h]
  | assignSelf _ => exact h
  | moveAssign _ _ _ =>
    rw [handle_take]
    apply update_none
    rw [Function.update_of_ne (Ne.symm hop), handle_release]
    exact update_none h
  | destroy _ =>
    rw [handle_end (by rw [handle_release, Function.update_self]), handle_release]
    exact update_none h

end

/-! ## Every program -/

/-- Each handle that is outstanding is held by one live object, and each is given back once. -/
structure OwnedOnce (s : Libraries Object) : Prop where
  held : ∀ handle, s.Outstanding handle →
    ∃! object, s.isLive object = true ∧ s.handle object = some handle
  outstanding : ∀ object handle, s.handle object = some handle → s.Outstanding handle
  once : ∀ handle, s.released.count handle ≤ 1
  returned : ∀ handle ∈ s.released, handle < s.returned.length
  ended : (∀ object, s.isLive object = false) →
    ∀ handle, handle < s.returned.length → s.released.count handle = 1

omit [DecidableEq Object] in
theorem Owned.ownedOnce {s : Libraries Object} (h : Owned s) : OwnedOnce s where
  held := by
    intro handle hout
    obtain ⟨object, hheld, hunique⟩ := (h.held handle).1 hout
    refine ⟨object, ⟨?_, hheld⟩, fun o ho => hunique o ho.2⟩
    by_contra hdead
    rw [handle_dead (by simpa using hdead)] at hheld
    exact nomatch hheld
  outstanding := fun object handle hheld => (h.held handle).2 ⟨object, hheld⟩
  once := List.nodup_iff_count_le_one.mp h.once
  returned := h.returned
  ended := by
    intro hdead handle hlt
    apply List.count_eq_one_of_mem h.once
    by_contra hnew
    obtain ⟨object, hheld, -⟩ := (h.held handle).1 ⟨hlt, hnew⟩
    rw [handle_dead (hdead object)] at hheld
    exact nomatch hheld

/-- Once its handle has gone to another object, an object is unloaded and resolves nothing, until it
is given another. -/
def MovedFromEmpty (s : Libraries Object) : Prop :=
  ∀ object other moved, object ≠ other →
    (step s (.moveConstruct object other) = some moved ∨
      step s (.moveAssign object other) = some moved) →
    ∀ (later : List (LibraryOp Object)) (after : Libraries Object),
      later.foldlM step moved = some after → (∀ op ∈ later, ¬ op.Fills other) →
      (after.library other).isLoaded = false ∧
        ∀ symbol, (after.library other).resolve symbol = none

theorem run_unfilled {other : Object} {s s' : Libraries Object} {ops : List (LibraryOp Object)}
    (hrun : ops.foldlM step s = some s') (hops : ∀ op ∈ ops, ¬ op.Fills other)
    (h : s.handle other = none) : s'.handle other = none := by
  refine @Runs.run_invariant _ _ step (fun s => s.handle other = none) s s' ops ?_ hrun h
  intro s op s' hop hnone hstep
  exact step_unfilled hnone (hops op hop) hstep

theorem movedFromEmpty (s : Libraries Object) : MovedFromEmpty s := by
  intro object other moved hne hstep later after hlater hfills
  rw [library_none (run_unfilled hlater hfills (handle_moved hne hstep))]
  exact ⟨rfl, fun _ => rfl⟩

/-- Of the handles that a search gets, at most one is still out, and the engine holds it. -/
structure SearchOwned (s s' : Libraries Object) (engine : Object) (attempt : BindingAttempt) :
    Prop where
  owned : OwnedOnce s'
  kept : ∀ object, object ≠ engine → s'.objects object = s.objects object
  live : s'.isLive engine = true
  bound : s'.library engine = attempt.engine.library
  rejected : ∀ handle, s.returned.length ≤ handle → handle < s'.returned.length →
    s'.released.count handle = 1 ∨ s'.handle engine = some handle

section

variable {s : Libraries Object} {places : Places Object}
  (hlibrary : s.isLive places.library = false) (hargument : s.isLive places.argument = false)
  (htemporary : s.isLive places.temporary = false)
include hlibrary hargument htemporary

theorem ready_put : Ready places (s.put places.engine none) := by
  have hdistinct := places.distinct
  simp only [List.nodup_cons, List.mem_cons, List.not_mem_nil, or_false, not_or] at hdistinct
  have hother : ∀ o, o ≠ places.engine → s.isLive o = false →
      (s.put places.engine none).objects o = none := by
    intro o hne hdead
    simpa [put, Function.update_of_ne hne, isLive] using hdead
  exact ⟨hother _ hdistinct.1.2.2 hlibrary, hother _ hdistinct.2.1.2 hargument,
    hother _ hdistinct.2.2.1 htemporary, Function.update_self _ _ _⟩

variable (hengine : s.isLive places.engine = false)
include hengine

theorem bindFirstAvailable_ends (ask : Libraries Object → Bytes → Loader)
    (candidates : List Candidate) (profiles : List Profile) :
    ∃ attempt s', bindFirstAvailable ask places candidates profiles s = some (attempt, s') ∧
      Runs.Reaches step s s' ∧ (∀ o, o ≠ places.engine → s'.objects o = s.objects o) ∧
      s'.isLive places.engine = true ∧ s'.library places.engine = attempt.engine.library := by
  have hconstruct : step s (.construct places.engine) = some (s.put places.engine none) :=
    step_iff.mpr (.construct hengine)
  have hput : ∀ o, o ≠ places.engine → (s.put places.engine none).objects o = s.objects o :=
    fun o ho => Function.update_of_ne ho _ _
  unfold bindFirstAvailable
  rw [hconstruct, Option.bind_eq_bind, Option.bind_some]
  by_cases hprofiles : profiles = []
  · rw [if_pos hprofiles]
    exact ⟨_, _, rfl, .one _ hconstruct, hput, by simp [isLive, put], library_put⟩
  · rw [if_neg hprofiles]
    have hready := ready_put hlibrary hargument htemporary
    obtain ⟨attempt, s', hloop, hkept, hbound⟩ :=
      bindLoop_ends hready candidates ⟨.unbound, 0, 0⟩ rfl
    refine ⟨attempt, s', hloop, (Runs.Reaches.one _ hconstruct).trans (bindLoop_reaches hloop), ?_,
      hbound⟩
    intro o ho
    rw [hkept o ho, hput o ho]

theorem bindFirstAvailable_owned (h : Owned s) (ask : Libraries Object → Bytes → Loader)
    (candidates : List Candidate) (profiles : List Profile) :
    ∃ attempt s', bindFirstAvailable ask places candidates profiles s = some (attempt, s') ∧
      Runs.Reaches step s s' ∧ SearchOwned s s' places.engine attempt := by
  obtain ⟨attempt, s', hrun, hreaches, hkept, hlive, hbound⟩ :=
    bindFirstAvailable_ends hlibrary hargument htemporary hengine ask candidates profiles
  have howned : Owned s' := reaches_owned hreaches h
  refine ⟨attempt, s', hrun, hreaches, howned.ownedOnce, hkept, hlive, hbound, ?_⟩
  intro handle hnew hlt
  apply (returned_since h hreaches hkept hnew hlt).imp _ id
  exact List.count_eq_one_of_mem howned.once

end

/-- Whatever a program does with its libraries, and wherever it looks for an engine. -/
theorem handles_owned_once (ops : List (LibraryOp Object)) {s : Libraries Object}
    (hrun : ops.foldlM step empty = some s) :
    OwnedOnce s ∧ MovedFromEmpty s ∧
    (∀ object s', step s (.moveAssign object object) = some s' → s' = s) ∧
    ∀ ask (places : Places Object) candidates profiles,
      s.isLive places.library = false → s.isLive places.argument = false →
      s.isLive places.temporary = false → s.isLive places.engine = false →
      ∃ attempt s', bindFirstAvailable ask places candidates profiles s = some (attempt, s') ∧
        Runs.Reaches step s s' ∧ SearchOwned s s' places.engine attempt := by
  have howned : Owned s := run_owned hrun owned_empty
  refine ⟨howned.ownedOnce, movedFromEmpty s, ?_, ?_⟩
  · intro object s' hstep
    cases step_iff.mp hstep with
    | assignSelf _ => rfl
    | moveAssign _ _ hne => exact absurd rfl hne
  · intro ask places candidates profiles hlibrary hargument htemporary hengine
    exact bindFirstAvailable_owned hlibrary hargument htemporary hengine howned ask candidates
      profiles

/-- A module is loaded, passed on twice and given back, and then its first owner ends. -/
def passedOn : List (LibraryOp Nat) :=
  [.load 0 [109] (.posix (some fun _ => none)), .moveConstruct 1 0, .construct 2, .moveAssign 2 1,
    .moveAssign 2 2, .destroy 2, .destroy 1, .destroy 0]

theorem handles_owned_once_passedOn :
    ∃ s, passedOn.foldlM step empty = some s ∧ OwnedOnce s ∧ s.released = [0] :=
  ⟨_, rfl, (handles_owned_once passedOn rfl).1, rfl⟩

/-! ## The same engine -/

section

variable {s : Libraries Object} {places : Places Object} {platform : Platform}

/-- The platform of the model as it answers here, with the same answer each time. -/
def askPosix (platform : Platform) : Libraries Object → Bytes → Loader :=
  fun _ path => .posix (platform.dlopen (cString path))

omit [DecidableEq Object] in
theorem load_posix (path : Bytes) :
    (DynamicLibrary.load platform path).1 = ⟨((askPosix platform s path).load path).1⟩ := by
  unfold DynamicLibrary.load Loader.load askPosix
  split
  · rfl
  · split <;> rename_i h
    · simp only [h]
    · simp only [h]

theorem bindLoop_attempt (h : Ready places s) {profiles : List Profile}
    (candidates : List Candidate) (attempt : BindingAttempt) :
    (bindLoop (askPosix platform) places profiles candidates attempt s).map Prod.fst =
      some (Probe.bindLoop platform profiles candidates attempt) := by
  induction candidates generalizing attempt s with
  | nil => rfl
  | cons candidate rest ih =>
    rw [bindLoop_cons h, Probe.bindLoop, load_posix (s := s)]
    cases hload : ((askPosix platform s candidate.path).load candidate.path).1 with
    | none => exact ih h attempt
    | some handle =>
      simp only [DynamicLibrary.isLoaded, Option.isSome_some, not_true_eq_false, if_false]
      split
      · have hready : Ready places { s with
            returned := s.returned ++ [handle]
            released := s.released ++ [s.returned.length] } :=
          ⟨h.library, h.argument, h.temporary, h.engine⟩
        exact ih hready _
      · rfl

/-- The search as it is modelled without its objects finds the same. -/
theorem bindFirstAvailable_attempt (hlibrary : s.isLive places.library = false)
    (hargument : s.isLive places.argument = false)
    (htemporary : s.isLive places.temporary = false) (hengine : s.isLive places.engine = false)
    (candidates : List Candidate) (profiles : List Profile) :
    (bindFirstAvailable (askPosix platform) places candidates profiles s).map Prod.fst =
      some (Probe.bindFirstAvailable platform candidates profiles) := by
  have hconstruct : step s (.construct places.engine) = some (s.put places.engine none) :=
    step_iff.mpr (.construct hengine)
  unfold bindFirstAvailable Probe.bindFirstAvailable
  rw [hconstruct, Option.bind_eq_bind, Option.bind_some]
  by_cases hprofiles : profiles = []
  · rw [if_pos hprofiles, if_pos hprofiles]
    rfl
  · rw [if_neg hprofiles, if_neg hprofiles]
    exact bindLoop_attempt (ready_put hlibrary hargument htemporary) candidates _

end

end Libraries

end OakBarrels.Probe
