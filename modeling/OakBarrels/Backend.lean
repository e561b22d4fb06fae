import OakBarrels.Json.Value
import OakBarrels.Protocol.Messages

/-!
# The engine as the session sees it

The operations of a backing engine over a state of its own, and the backend that has found none.
-/

open Octets

namespace OakBarrels

open Json Protocol Binary64

/-- A backing engine, reduced to the operations the protocol exposes. Any of them may move the
engine's state. -/
structure EngineBackend (σ : Type) where
  capabilityClasses : StateM σ (List Bytes)
  limits : StateM σ Value
  bulkChannel : StateM σ Bool
  bulkBytesForwarded : StateM σ UInt64
  bulkBytesDropped : StateM σ UInt64
  /-- The handle, or 0, and what becomes of `reason`. -/
  openTarget (kind name : Bytes) (reason : Reason) : StateM σ (UInt32 × Reason)
  closeTarget (handle : UInt32) : StateM σ Reason
  post (handle : UInt32) (action : Bytes) (args : Value) : StateM σ Reason
  set (handle : UInt32) (param : Bytes) (value : Double) : StateM σ Reason
  resolvedSymbolCount : StateM σ UInt32
  targetCount : StateM σ UInt32
  filesExamined : StateM σ UInt32
  candidatesFound : StateM σ UInt32
  discoveryTruncated : StateM σ Bool

/-- The backend of a station that was told of no search locations. -/
def nullBackend : EngineBackend Unit where
  capabilityClasses := pure []
  limits := pure (.object [])
  bulkChannel := pure false
  bulkBytesForwarded := pure 0
  bulkBytesDropped := pure 0
  openTarget _ _ _ := pure (0, .noEngine)
  closeTarget _ := pure .ok
  post _ _ _ := pure .noEngine
  set _ _ _ := pure .noEngine
  resolvedSymbolCount := pure 0
  targetCount := pure 0
  filesExamined := pure 0
  candidatesFound := pure 0
  discoveryTruncated := pure false

end OakBarrels
