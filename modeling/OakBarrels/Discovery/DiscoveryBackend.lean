import OakBarrels.Backend
import OakBarrels.Discovery.Scanner

/-!
# The discovery backend

A backend that looks once, when it is first asked, and recognises nothing.
-/

open Octets Binary64

namespace OakBarrels.Discovery

open Json Protocol

structure DiscoveryBackend where
  roots : List Bytes
  limits : ScanLimits
  scanned : Bool
  result : ScanResult

namespace DiscoveryBackend

def create (roots : List Bytes) (limits : ScanLimits) : DiscoveryBackend :=
  ⟨roots, limits, false, ⟨[], 0, false⟩⟩

variable (lookup : Bytes → FileEntry)

def ensureScanned (b : DiscoveryBackend) : DiscoveryBackend :=
  if b.scanned then b
  else { b with result := scanForCandidates lookup b.roots b.limits, scanned := true }

def scanning {α : Type} (f : ScanResult → α) : StateM DiscoveryBackend α := fun b =>
  let b := b.ensureScanned lookup
  (f b.result, b)

def limitsValue (b : DiscoveryBackend) : Value :=
  let value := Value.object []
  let value := value.set (ascii "max_candidates") (.integer (Int64.ofNat b.limits.maxFiles))
  value.set (ascii "max_scan_depth") (.integer (Int64.ofNat b.limits.maxDepth))

def backend : EngineBackend DiscoveryBackend where
  capabilityClasses := scanning lookup fun _ => []
  limits := fun b => (b.limitsValue, b)
  bulkChannel := pure false
  bulkBytesForwarded := pure 0
  bulkBytesDropped := pure 0
  openTarget _ _ _ := pure (0, .noEngine)
  closeTarget _ := pure .ok
  post _ _ _ := pure .noEngine
  set _ _ _ := pure .noEngine
  resolvedSymbolCount := pure 0
  targetCount := pure 0
  filesExamined := scanning lookup fun result => UInt32.ofNat result.filesExamined
  candidatesFound := scanning lookup fun result => UInt32.ofNat result.candidates.length
  discoveryTruncated := scanning lookup fun result => result.truncated

end DiscoveryBackend

end OakBarrels.Discovery
