import OakBarrels.Backend
import OakBarrels.Client.Api
import OakBarrels.Lib.Runs

/-!
# What the relay is for

The relay as a caller means it: an engine behind a session of three phases, on which one operation is
called after the other. There is no frame in it, no text and no channel.
-/

open Octets Binary64

namespace OakBarrels

open Json Protocol
open Client (Invocation Result Capabilities Diagnostics Datum)

inductive Phase
  | greeting
  | serving
  | over
deriving DecidableEq, Repr

structure Service (σ : Type) where
  phase : Phase
  revision : Int
  diagnose : Bool
  identify : Bool
  engine : σ

namespace Service

variable {σ : Type}

def start (engine : σ) : Service σ := ⟨.greeting, 0, false, false, engine⟩

/-! ## The parts of an answer -/

def refused (reason : Reason) : Result := .relayException (some reason) (some (reasonSummary reason))

def answered (reason : Reason) : Result := if reason = .ok then .done else refused reason

def opened (handle : UInt32) (reason : Reason) : Result :=
  if handle = 0 then refused (if reason = .ok then .internal else reason) else .handle handle.toNat

/-- The targets that a handle can name. -/
def target (handle : Int) : Option UInt32 :=
  if 0 < handle ∧ handle < 2 ^ 32 then some (UInt32.ofNat handle.toNat) else none

def inUnit (value : Double) : Bool := value.value.any fun q => 0 ≤ q ∧ q ≤ 1

def rational? : Value → Option ℚ
  | .number x => x.value
  | _ => none

/-- The limits that are numbers. -/
def numeric (limits : List (Bytes × Value)) : List (Bytes × ℚ) :=
  limits.filterMap fun m => (rational? m.2).map fun q => (m.1, q)

/-! ## The operations -/

variable (backend : EngineBackend σ)

def capabilities : StateM σ Capabilities := do
  let classes ← backend.capabilityClasses
  let limits ← backend.limits
  let bulk ← backend.bulkChannel
  pure ⟨classes.toFinset, numeric limits.members, bulk⟩

/-- The counts of the bulk channel are asked for, and not told. -/
def report (revision : Int) (diagnose identify : Bool) : StateM σ Diagnostics := do
  let targets ← backend.targetCount
  let symbols ← backend.resolvedSymbolCount
  let files ← backend.filesExamined
  let candidates ← backend.candidatesFound
  let truncated ← backend.discoveryTruncated
  let _ ← backend.bulkChannel
  let _ ← backend.bulkBytesForwarded
  let _ ← backend.bulkBytesDropped
  let classes ← backend.capabilityClasses
  pure
    { diagnosticsEnabled := diagnose
      identificationEnabled := identify
      revision
      classes := classes.toFinset
      targetCount := targets.toNat
      resolvedSymbolCount := symbols.toNat
      filesExamined := files.toNat
      candidatesFound := candidates.toNat
      discoveryTruncated := truncated }

def asking {α : Type} (s : Service σ) (operation : StateM σ α) (result : α → Result) :
    Service σ × Result :=
  ({ s with engine := (operation s.engine).2 }, result (operation s.engine).1)

def ending (s : Service σ) (result : Result) : Service σ × Result :=
  ({ s with phase := .over }, result)

def onTarget (s : Service σ) (handle : Int) (operation : UInt32 → StateM σ Reason) :
    Service σ × Result :=
  match target handle with
  | none => (s, refused .badArgument)
  | some handle => s.asking (operation handle) answered

/-- Switching diagnostics off switches identification off. -/
def switched (s : Service σ) (enable : Option Bool) : Service σ :=
  match enable with
  | none => s
  | some true => { s with diagnose := true }
  | some false => { s with diagnose := false, identify := false }

def diagnosed (s : Service σ) (enable identify : Option Bool) : Service σ × Result :=
  let s := s.switched enable
  if s.diagnose = false ∧ (identify = some true ∨ enable = none ∧ identify = none) then
    (s, refused .diagDisabled)
  else
    let s := { s with identify := s.identify || identify == some true }
    s.asking (report backend s.revision s.diagnose s.identify) .diagnostics

/-- The first call settles the revision or ends the session. -/
def greet (s : Service σ) : Invocation → Service σ × Result
  | .negotiate revisions =>
    if 1 ∈ revisions then ({ s with phase := .serving, revision := 1 }, .revision 1)
    else s.ending (refused .noCommonRevision)
  | .shutdown => s.ending .done
  | _ => s.ending (refused .badArgument)

def operate (s : Service σ) : Invocation → Service σ × Result
  | .negotiate _ => (s, refused .unsupportedOperation)
  | .capabilities => s.asking (capabilities backend) .capabilities
  | .open kind name =>
    s.asking (backend.openTarget kind (name.getD []) .ok) fun result => opened result.1 result.2
  | .post handle action args =>
    s.onTarget handle fun handle =>
      backend.post handle action (Datum.map (args.getD [])).value
  | .set handle parameter value =>
    if inUnit value then s.onTarget handle fun handle => backend.set handle parameter value
    else (s, refused .badArgument)
  | .close handle => s.onTarget handle backend.closeTarget
  | .diagnostics enable identify => s.diagnosed backend enable identify
  | .shutdown => s.ending .done

def serve (s : Service σ) (request : Invocation) : Service σ × Result :=
  match s.phase with
  | .greeting => s.greet request
  | .serving => s.operate backend request
  | .over => (s, if request.call = .shutdown then .done else .failed .relayClosed)

/-- What each of the calls returns. -/
def results (s : Service σ) (requests : List Invocation) : List Result :=
  (Runs.trace (serve backend) s requests).map Prod.snd

end Service

end OakBarrels
