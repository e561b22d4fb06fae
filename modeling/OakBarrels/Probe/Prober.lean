import OakBarrels.Discovery.Scanner
import OakBarrels.Probe.Profile
import OakBarrels.Protocol.Messages

/-!
# Probing

A module mapped into the process, the profiles it satisfies, and the calls into it.
-/

open Octets Binary64

namespace OakBarrels.Probe

open Protocol Discovery

abbrev Address := UInt64

/-- What the platform's loader and file system say. Nothing stands for a null pointer. -/
structure Platform where
  lookup : Bytes → FileEntry
  dlopen : Bytes → Option (Bytes → Option Address)

/-- A string as a C function reads it. -/
def cString (s : Bytes) : Bytes := s.takeWhile (· ≠ 0)

structure DynamicLibrary where
  handle : Option (Bytes → Option Address)

namespace DynamicLibrary

def isLoaded (library : DynamicLibrary) : Bool := library.handle.isSome

def load (platform : Platform) (path : Bytes) : DynamicLibrary × Reason :=
  if path = [] then (⟨none⟩, .badArgument)
  else
    match platform.dlopen (cString path) with
    | none => (⟨none⟩, .bindFailed)
    | some handle => (⟨some handle⟩, .ok)

def resolve (library : DynamicLibrary) (symbol : Bytes) : Option Address :=
  match library.handle with
  | none => none
  | some handle => if symbol = [] then none else handle (cString symbol)

end DynamicLibrary

inductive EngineCall
  | level (address : Address) (value : Double)
  | name (address : Address) (name : Bytes)
  | registerSink (address : Address)

structure BoundEngine where
  library : DynamicLibrary
  profiles : List Profile
  addresses : List (Role × Address)

namespace BoundEngine

/-- The engine of an attempt that bound nothing. -/
def unbound : BoundEngine := ⟨⟨none⟩, [], []⟩

/-- The body of the constructor's loop: one address per role, the first. -/
def bindAddress (library : DynamicLibrary) (addresses : List (Role × Address)) (binding : Binding) :
    List (Role × Address) :=
  match library.resolve binding.symbol with
  | none => addresses
  | some address =>
    if addresses.any fun entry => entry.1 = binding.role then addresses
    else addresses ++ [(binding.role, address)]

def create (library : DynamicLibrary) (profiles : List Profile) : BoundEngine :=
  ⟨library, profiles, (profiles.flatMap (·.bindings)).foldl (bindAddress library) []⟩

def isBound (engine : BoundEngine) : Bool := engine.library.isLoaded && !engine.profiles.isEmpty

def capabilityClasses (engine : BoundEngine) : List Bytes :=
  engine.profiles.map (·.capabilityClass)

def resolvedSymbolCount (engine : BoundEngine) : Nat := engine.addresses.length

/-- The first satisfied profile that declares the role, in file order. -/
def bindingFor (engine : BoundEngine) (role : Role) : Option Binding :=
  engine.profiles.findSome? fun profile => profile.bindingFor role

def hasBinding (engine : BoundEngine) (role : Role) : Bool := (engine.bindingFor role).isSome

def addressFor (engine : BoundEngine) (role : Role) (requiredShape : SymbolShape) :
    Option Address :=
  match engine.bindingFor role with
  | none => none
  | some binding =>
    if binding.shape ≠ requiredShape then none
    else (engine.addresses.find? fun entry => entry.1 = role).map Prod.snd

def callWithLevel (engine : BoundEngine) (role : Role) (value : Double) : Option EngineCall :=
  (engine.addressFor role .level).map fun address => .level address value

def callWithName (engine : BoundEngine) (role : Role) (name : Bytes) : Option EngineCall :=
  (engine.addressFor role .name).map fun address => .name address (cString name)

def installSink (engine : BoundEngine) : Option EngineCall :=
  (engine.addressFor .bulk .sink).map fun address => .registerSink address

end BoundEngine

structure BindingAttempt where
  engine : BoundEngine
  candidatesLoaded : Nat
  profilesTried : Nat

/-- Whether a module resolves every symbol of a profile. -/
def DynamicLibrary.satisfies (library : DynamicLibrary) (profile : Profile) : Bool :=
  profile.bindings.all fun binding => (library.resolve binding.symbol).isSome

def bindLoop (platform : Platform) (profiles : List Profile) :
    List Candidate → BindingAttempt → BindingAttempt
  | [], attempt => attempt
  | candidate :: rest, attempt =>
    let library := (DynamicLibrary.load platform candidate.path).1
    if ¬ library.isLoaded then bindLoop platform profiles rest attempt
    else
      let attempt := { attempt with
        candidatesLoaded := attempt.candidatesLoaded + 1
        profilesTried := attempt.profilesTried + profiles.length }
      let satisfied := profiles.filter library.satisfies
      if satisfied = [] then bindLoop platform profiles rest attempt
      else { attempt with engine := .create library satisfied }

def bindFirstAvailable (platform : Platform) (candidates : List Candidate)
    (profiles : List Profile) : BindingAttempt :=
  if profiles = [] then ⟨.unbound, 0, 0⟩
  else bindLoop platform profiles candidates ⟨.unbound, 0, 0⟩

end OakBarrels.Probe
