import OakBarrels.Json.Parser
import OakBarrels.Json.Value

/-!
# Profiles

What the host says about how to call an engine, and the parser of the document that says it.
-/

open Octets

namespace OakBarrels.Probe

open Json

inductive SymbolShape
  | level
  | name
  | sink
deriving DecidableEq, Repr

def symbolShapeFromName (name : Bytes) : Option SymbolShape :=
  if name = ascii "level" then some .level
  else if name = ascii "name" then some .name
  else if name = ascii "sink" then some .sink
  else none

inductive Role
  | post
  | set
  | bulk
deriving DecidableEq, Repr

def roleFromName (name : Bytes) : Option Role :=
  if name = ascii "post" then some .post
  else if name = ascii "set" then some .set
  else if name = ascii "bulk" then some .bulk
  else none

structure Binding where
  role : Role
  symbol : Bytes
  shape : SymbolShape
deriving DecidableEq, Repr

structure Profile where
  capabilityClass : Bytes
  bindings : List Binding
deriving DecidableEq, Repr

def Profile.bindingFor (p : Profile) (role : Role) : Option Binding :=
  p.bindings.find? fun binding => binding.role = role

def stringMember (entry : Value) (key : Bytes) : Option Bytes :=
  match entry.find key with
  | none => none
  | some raw => if raw.isString then some (raw.asString []) else none

def arrayMember (entry : Value) (key : Bytes) : Option (List Value) :=
  match entry.find key with
  | none => none
  | some raw => if raw.isArray then some raw.asArray else none

/-- The body of the loop over bindings. -/
def parseBinding (profile : Profile) (rawBinding : Value) : Option Profile := do
  guard rawBinding.isObject
  let rawRole ← stringMember rawBinding (ascii "role")
  let rawShape ← stringMember rawBinding (ascii "shape")
  let rawSymbol ← stringMember rawBinding (ascii "symbol")
  guard (rawSymbol ≠ [])
  let role ← roleFromName rawRole
  let shape ← symbolShapeFromName rawShape
  guard (profile.bindingFor role = none)
  pure { profile with bindings := profile.bindings ++ [⟨role, rawSymbol, shape⟩] }

/-- The body of the loop over profiles. -/
def parseProfile (entry : Value) : Option Profile := do
  guard entry.isObject
  let rawClass ← stringMember entry (ascii "class")
  guard (rawClass ≠ [])
  let rawBindings ← arrayMember entry (ascii "bindings")
  guard (rawBindings ≠ [])
  rawBindings.foldlM parseBinding ⟨rawClass, []⟩

def parseProfiles (jsonText : Bytes) : Option (List Profile) := do
  let document ← parse jsonText
  guard document.isObject
  let rawProfiles ← arrayMember document (ascii "profiles")
  let profiles ← rawProfiles.mapM parseProfile
  guard (profiles ≠ [])
  pure profiles

end OakBarrels.Probe
