import OakBarrels.Backend
import OakBarrels.Json.Dump
import OakBarrels.Json.Parser
import OakBarrels.Lib.Runs
import OakBarrels.Protocol.Frame

/-!
# The session

One host, one relay, one negotiated session: what each frame of the host makes the relay ask of its
engine and write back. Everything that crosses an interface is kept in a log, in its order.
-/

open Octets Binary64

namespace OakBarrels

open Json Protocol

/-! ## What crosses an interface -/

inductive BackendCall
  | capabilityClasses (result : List Bytes)
  | limits (result : Value)
  | bulkChannel (result : Bool)
  | bulkBytesForwarded (result : UInt64)
  | bulkBytesDropped (result : UInt64)
  | openTarget (kind name : Bytes) (handle : UInt32) (reason : Reason)
  | closeTarget (handle : UInt32) (result : Reason)
  | post (handle : UInt32) (action : Bytes) (args : Value) (result : Reason)
  | set (handle : UInt32) (param : Bytes) (value : Double) (result : Reason)
  | resolvedSymbolCount (result : UInt32)
  | targetCount (result : UInt32)
  | filesExamined (result : UInt32)
  | candidatesFound (result : UInt32)
  | discoveryTruncated (result : Bool)

/-- A call on the backend, a frame given to the sink, a line given to the transcript. -/
inductive Event
  | call (call : BackendCall)
  | frame (bytes : Bytes)
  | line (text : Bytes)

def Event.call? : Event → Option BackendCall
  | .call c => some c
  | _ => none

def Event.frame? : Event → Option Bytes
  | .frame b => some b
  | _ => none

/-- `transcript` says whether a sink for one is installed. -/
structure Session where
  transcript : Bool
  finished : Bool
  negotiated : Bool
  diagnosticsEnabled : Bool
  identifyEnabled : Bool
  revision : Int32

structure World (σ : Type) where
  session : Session
  backend : σ
  log : List Event

namespace World

variable {σ : Type}

def fresh (backend : σ) (transcript : Bool) : World σ where
  session := ⟨transcript, false, false, false, false, 0⟩
  backend := backend
  log := []

def record (w : World σ) (event : Event) : World σ := { w with log := w.log ++ [event] }

def calling {α : Type} (w : World σ) (operation : StateM σ α) (call : α → BackendCall) :
    α × World σ :=
  let (result, backend) := operation w.backend
  (result, { w with backend := backend }.record (.call (call result)))

/-! ## Writing -/

def transcribe (w : World σ) (direction : Char) (type : MessageType) (payload : Bytes) : World σ :=
  if w.session.transcript then
    let line := ch direction :: ch ' ' :: messageTypeName type
    w.record (.line (if payload = [] then line else line ++ ch ' ' :: payload))
  else w

/-- Whether the sink took the frame is not looked at. -/
def send (w : World σ) (type : MessageType) (payloadJson : Bytes) : World σ :=
  (w.transcribe '>' type payloadJson).record (.frame (encodeFrame type payloadJson))

def errorPayload (reason : Reason) : Value :=
  let payload := Value.object []
  let payload := payload.set (ascii "reason") (.integer (Int64.ofNat reason.code.toNat))
  payload.set (ascii "detail") (.string (reasonSummary reason))

def sendError (w : World σ) (reason : Reason) : World σ := w.send .error (errorPayload reason).dump

def statusPayload (handle : UInt32) (reason : Reason) : Value :=
  let payload := Value.object []
  let payload := payload.set (ascii "handle") (.integer (Int64.ofNat handle.toNat))
  payload.set (ascii "reason") (.integer (Int64.ofNat reason.code.toNat))

def sendStatus (w : World σ) (handle : UInt32) (reason : Reason) : World σ :=
  w.send .status (statusPayload handle reason).dump

/-- What an operation of the backend came to, for the host. -/
def answer (w : World σ) (handle : UInt32) (reason : Reason) : World σ :=
  if reason = .ok then w.sendStatus handle reason else w.sendError reason

end World

/-! ## Reading -/

/-- The revisions this station implements, newest first. -/
def supportedRevisions : List Int32 := [1]

/-- Highest revision present in both lists, or 0. -/
def selectRevision (hostRevisions : List Int32) : Int32 :=
  hostRevisions.foldl (fun best candidate =>
    supportedRevisions.foldl (fun best supported =>
      if candidate = supported ∧ best < candidate then candidate else best) best) 0

/-- An absent payload reads as an empty object. -/
def parsePayload (frame : Frame) : Option Value :=
  if frame.payload = [] then some (.object []) else parse frame.payload

variable (unrepresentable : Unrepresentable)

def readHandle (payload : Value) : Option UInt32 :=
  match payload.find (ascii "handle") with
  | none => none
  | some handle =>
    if ¬ handle.isNumber then none
    else
      let raw := handle.asInt unrepresentable 0
      if raw.toInt ≤ 0 ∨ 0xffffffff < raw.toInt then none
      else some (UInt32.ofNat raw.toInt.toNat)

def readName (payload : Value) : Bytes :=
  match payload.find (ascii "name") with
  | none => []
  | some given => if given.isString then given.asString [] else []

def readArgs (payload : Value) : Value :=
  match payload.find (ascii "args") with
  | none => .object []
  | some given => if given.isObject then given else .object []

/-- The revisions of a HELLO as `int`s; what is not a number is left out. -/
def offeredRevisions (revisions : Value) : List Int32 :=
  revisions.asArray.filterMap fun entry =>
    if entry.isNumber then some (entry.asInt unrepresentable 0).toInt32 else none

/-! ## The handlers -/

namespace World

variable {σ : Type} (backend : EngineBackend σ)

def finish (w : World σ) : World σ := { w with session := { w.session with finished := true } }

def handleHello (frame : Frame) (w : World σ) : Bool × World σ :=
  match parsePayload frame with
  | none => (false, (w.sendError .badArgument).finish)
  | some payload =>
    match payload.find (ascii "revisions") with
    | none => (false, (w.sendError .badArgument).finish)
    | some revisions =>
      if ¬ revisions.isArray then (false, (w.sendError .badArgument).finish)
      else
        let selected := selectRevision (offeredRevisions unrepresentable revisions)
        if selected = 0 then (false, (w.sendError .noCommonRevision).finish)
        else
          let w := { w with session := { w.session with revision := selected, negotiated := true } }
          let ack := Value.object []
          let ack := ack.set (ascii "revision") (.integer selected.toInt64)
          let ack := ack.set (ascii "features") (.array [])
          (true, w.send .helloAck ack.dump)

def handleCapsRequest (w : World σ) : Bool × World σ :=
  let (classes, w) := w.calling backend.capabilityClasses .capabilityClasses
  let (limits, w) := w.calling backend.limits .limits
  let (bulk, w) := w.calling backend.bulkChannel .bulkChannel
  let reply := Value.object []
  let reply := reply.set (ascii "classes") (.array (classes.map .string))
  let reply := reply.set (ascii "limits") limits
  let reply := reply.set (ascii "bulk") (.boolean bulk)
  (true, w.send .capsReply reply.dump)

def handleOpen (payload : Value) (w : World σ) : Bool × World σ :=
  match payload.find (ascii "kind") with
  | none => (true, w.sendError .badArgument)
  | some kind =>
    if ¬ kind.isString then (true, w.sendError .badArgument)
    else
      let name := readName payload
      let ((handle, reason), w) := w.calling (backend.openTarget (kind.asString []) name .ok)
        fun result => .openTarget (kind.asString []) name result.1 result.2
      if handle = 0 then (true, w.sendError (if reason = .ok then .internal else reason))
      else
        let ack := (Value.object []).set (ascii "handle") (.integer (Int64.ofNat handle.toNat))
        (true, w.send .openAck ack.dump)

def handlePost (payload : Value) (w : World σ) : Bool × World σ :=
  match readHandle unrepresentable payload with
  | none => (true, w.sendError .badArgument)
  | some handle =>
    match payload.find (ascii "action") with
    | none => (true, w.sendError .badArgument)
    | some action =>
      if ¬ action.isString then (true, w.sendError .badArgument)
      else
        let args := readArgs payload
        let (reason, w) := w.calling (backend.post handle (action.asString []) args)
          (.post handle (action.asString []) args)
        (true, w.answer handle reason)

def handleSet (payload : Value) (w : World σ) : Bool × World σ :=
  match readHandle unrepresentable payload with
  | none => (true, w.sendError .badArgument)
  | some handle =>
    match payload.find (ascii "param") with
    | none => (true, w.sendError .badArgument)
    | some param =>
      if ¬ param.isString then (true, w.sendError .badArgument)
      else
        match payload.find (ascii "value") with
        | none => (true, w.sendError .badArgument)
        | some value =>
          if ¬ value.isNumber then (true, w.sendError .badArgument)
          else
            let raw := value.asNumber (.ofInt 0)
            if ¬ ((Double.ofInt 0).le raw ∧ raw.le (.ofInt 1)) then
              (true, w.sendError .badArgument)
            else
              let (reason, w) := w.calling (backend.set handle (param.asString []) raw)
                (.set handle (param.asString []) raw)
              (true, w.answer handle reason)

def handleClose (payload : Value) (w : World σ) : Bool × World σ :=
  match readHandle unrepresentable payload with
  | none => (true, w.sendError .badArgument)
  | some handle =>
    let (reason, w) := w.calling (backend.closeTarget handle) (.closeTarget handle)
    (true, w.answer handle reason)

/-- The two switches of a DIAG_REQUEST: the first by itself, and with it off the second goes off. -/
def switchDiagnostics (enable : Option Value) (session : Session) : Session :=
  match enable with
  | none => session
  | some enable =>
    if enable.isBool then
      let session := { session with diagnosticsEnabled := enable.asBool false }
      if ¬ session.diagnosticsEnabled then { session with identifyEnabled := false } else session
    else session

def reportDiagnostics (w : World σ) : World σ :=
  let reply := Value.object []
  let reply := reply.set (ascii "diagnose") (.boolean w.session.diagnosticsEnabled)
  let reply := reply.set (ascii "identify") (.boolean w.session.identifyEnabled)
  let reply := reply.set (ascii "revision") (.integer w.session.revision.toInt64)
  let (targets, w) := w.calling backend.targetCount .targetCount
  let reply := reply.set (ascii "targets") (.integer (Int64.ofNat targets.toNat))
  let (symbols, w) := w.calling backend.resolvedSymbolCount .resolvedSymbolCount
  let reply := reply.set (ascii "symbols_resolved") (.integer (Int64.ofNat symbols.toNat))
  let (files, w) := w.calling backend.filesExamined .filesExamined
  let reply := reply.set (ascii "files_examined") (.integer (Int64.ofNat files.toNat))
  let (candidates, w) := w.calling backend.candidatesFound .candidatesFound
  let reply := reply.set (ascii "candidates_found") (.integer (Int64.ofNat candidates.toNat))
  let (truncated, w) := w.calling backend.discoveryTruncated .discoveryTruncated
  let reply := reply.set (ascii "discovery_truncated") (.boolean truncated)
  let (bulk, w) := w.calling backend.bulkChannel .bulkChannel
  let reply := reply.set (ascii "bulk") (.boolean bulk)
  let (forwarded, w) := w.calling backend.bulkBytesForwarded .bulkBytesForwarded
  let reply := reply.set (ascii "bulk_bytes_forwarded") (.integer forwarded.toInt64)
  let (dropped, w) := w.calling backend.bulkBytesDropped .bulkBytesDropped
  let reply := reply.set (ascii "bulk_bytes_dropped") (.integer dropped.toInt64)
  let (classes, w) := w.calling backend.capabilityClasses .capabilityClasses
  let reply := reply.set (ascii "classes") (.array (classes.map .string))
  w.send .diagReply reply.dump

def handleDiagRequest (payload : Value) (w : World σ) : Bool × World σ :=
  let enable := payload.find (ascii "enable")
  let identify := payload.find (ascii "identify")
  let w : World σ := { w with session := switchDiagnostics enable w.session }
  let identifying := (identify.map fun v => v.isBool && v.asBool false).getD false
  if identifying ∧ ¬ w.session.diagnosticsEnabled then (true, w.sendError .diagDisabled)
  else
    let w : World σ :=
      if identifying then { w with session := { w.session with identifyEnabled := true } } else w
    let querying := enable.isNone && identify.isNone
    if querying ∧ ¬ w.session.diagnosticsEnabled then (true, w.sendError .diagDisabled)
    else (true, w.reportDiagnostics backend)

/-- One decoded frame. False once the session is over. -/
def handle (frame : Frame) (w : World σ) : Bool × World σ :=
  if w.session.finished then (false, w)
  else
    let w := w.transcribe '<' frame.type frame.payload
    if frame.type = .bye then (false, (w.send .bye []).finish)
    else if ¬ w.session.negotiated then
      if frame.type ≠ .hello then (false, (w.sendError .badArgument).finish)
      else handleHello unrepresentable frame w
    else
      match parsePayload frame with
      | none => (true, w.sendError .badArgument)
      | some payload =>
        match frame.type with
        | .capsRequest => handleCapsRequest backend w
        | .open => handleOpen backend payload w
        | .post => handlePost unrepresentable backend payload w
        | .set => handleSet unrepresentable backend payload w
        | .close => handleClose unrepresentable backend payload w
        | .diagRequest => handleDiagRequest backend payload w
        | _ => (true, w.sendError .unsupportedOperation)

end World

end OakBarrels
