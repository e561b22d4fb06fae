import OakBarrels.Backend
import OakBarrels.Probe.Prober

/-!
# The probing backend

A scan and a binding made on first use and kept, the audio channel they may set up, and the handles
given out over the engine that was bound.
-/

open Octets Binary64

namespace OakBarrels.Probe

open Json Protocol Discovery

def kBulkCapabilityClass : Bytes := ascii "engine.bulk.pcm"

/-- What a running channel reports; its queue and its worker have a module of their own. -/
structure BulkCounters where
  bytesForwarded : UInt64
  bytesDropped : UInt64

/-- Two fields are not the code's: `scans` counts how often the branch that scans and binds was taken,
and `calls` are the calls made into the module. -/
structure ProbingBackend where
  roots : List Bytes
  profiles : List Profile
  limits : ScanLimits
  probed : Bool
  scan : ScanResult
  attempt : BindingAttempt
  audioEndpoint : Bool
  bulk : Option BulkCounters
  nextHandle : UInt32
  liveHandles : List UInt32
  scans : Nat
  calls : List EngineCall

namespace ProbingBackend

def create (roots : List Bytes) (profiles : List Profile) (audioEndpoint : Bool)
    (limits : ScanLimits) : ProbingBackend where
  roots := roots
  profiles := profiles
  limits := limits
  probed := false
  scan := ⟨[], 0, false⟩
  attempt := ⟨.unbound, 0, 0⟩
  audioEndpoint := audioEndpoint
  bulk := none
  nextHandle := 1
  liveHandles := []
  scans := 0
  calls := []

/-- The end of `ensureProbed`: the channel, where the host asked for one and the engine has
somewhere to install its sink. -/
def setUpBulk (b : ProbingBackend) : ProbingBackend :=
  if b.audioEndpoint && b.attempt.engine.hasBinding .bulk then
    match b.attempt.engine.installSink with
    | none => { b with audioEndpoint := false }
    | some call =>
      { b with audioEndpoint := false, bulk := some ⟨0, 0⟩, calls := b.calls ++ [call] }
  else b

def ensureProbed (platform : Platform) (b : ProbingBackend) : ProbingBackend :=
  if b.probed then b
  else
    let scan := scanForCandidates platform.lookup b.roots b.limits
    let attempt := bindFirstAvailable platform scan.candidates b.profiles
    { setUpBulk { b with scan, attempt, scans := b.scans + 1 } with probed := true }

variable (platform : Platform)

def probing {α : Type} (f : ProbingBackend → α × ProbingBackend) : StateM ProbingBackend α :=
  fun b => f (b.ensureProbed platform)

def capabilityClasses : StateM ProbingBackend (List Bytes) :=
  probing platform fun b =>
    let classes := b.attempt.engine.capabilityClasses
    (if b.bulk.isSome then classes ++ [kBulkCapabilityClass] else classes, b)

def limitsValue (b : ProbingBackend) : Value :=
  let value := Value.object []
  let value := value.set (ascii "max_candidates") (.integer (Int64.ofNat b.limits.maxFiles))
  value.set (ascii "max_scan_depth") (.integer (Int64.ofNat b.limits.maxDepth))

def openTarget (_kind _name : Bytes) (_reason : Reason) :
    StateM ProbingBackend (UInt32 × Reason) :=
  probing platform fun b =>
    if ¬ b.attempt.engine.isBound then ((0, .noEngine), b)
    else
      let handle := b.nextHandle
      ((handle, .ok),
        { b with nextHandle := b.nextHandle + 1, liveHandles := b.liveHandles ++ [handle] })

def closeTarget (handle : UInt32) : StateM ProbingBackend Reason := fun b =>
  (.ok, { b with liveHandles := b.liveHandles.erase handle })

/-- `post` and `set`, by the call that each makes into the module. -/
def dispatch (handle : UInt32) (call : BoundEngine → Option EngineCall) :
    StateM ProbingBackend Reason :=
  probing platform fun b =>
    if ¬ b.attempt.engine.isBound then (.noEngine, b)
    else if handle ∉ b.liveHandles then (.invalidHandle, b)
    else
      match call b.attempt.engine with
      | none => (.unsupportedOperation, b)
      | some call => (.ok, { b with calls := b.calls ++ [call] })

def post (handle : UInt32) (action : Bytes) (_args : Value) : StateM ProbingBackend Reason :=
  dispatch platform handle fun engine => engine.callWithName .post action

def set (handle : UInt32) (_param : Bytes) (value : Double) : StateM ProbingBackend Reason :=
  dispatch platform handle fun engine => engine.callWithLevel .set value

def targetCount (b : ProbingBackend) : UInt32 := UInt32.ofNat b.liveHandles.length

def backend : EngineBackend ProbingBackend where
  capabilityClasses := capabilityClasses platform
  limits := fun b => (b.limitsValue, b)
  bulkChannel := probing platform fun b => (b.bulk.isSome, b)
  bulkBytesForwarded := probing platform fun b => ((b.bulk.map (·.bytesForwarded)).getD 0, b)
  bulkBytesDropped := probing platform fun b => ((b.bulk.map (·.bytesDropped)).getD 0, b)
  openTarget := openTarget platform
  closeTarget := closeTarget
  post := post platform
  set := set platform
  resolvedSymbolCount :=
    probing platform fun b => (UInt32.ofNat b.attempt.engine.resolvedSymbolCount, b)
  targetCount := fun b => (b.targetCount, b)
  filesExamined := probing platform fun b => (UInt32.ofNat b.scan.filesExamined, b)
  candidatesFound := probing platform fun b => (UInt32.ofNat b.scan.candidates.length, b)
  discoveryTruncated := probing platform fun b => (b.scan.truncated, b)

end ProbingBackend

end OakBarrels.Probe
