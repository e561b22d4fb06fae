import OakBarrels.Client.Frame

/-!
# The Dart client

The client that sends one request at a time and takes the next frame for its response, and the timer
of each request.
-/

open Octets OakBarrels.Protocol

namespace OakBarrels.Client

/-- How the client reads a field of a payload: only where it is an `int`, or a `String`. -/
structure Fields (c : Convert) where
  int : c.Map → Bytes → Option Int
  string : c.Map → Bytes → Option Bytes

inductive Call
  | negotiate
  | capabilities
  | open
  | post
  | set
  | close
  | diagnostics
  | shutdown
deriving DecidableEq, Repr

/-- What a call comes to on a response: a value, or a `RelayException`. -/
inductive Completion (c : Convert)
  | revision (selected : Int)
  | handle (handle : Int)
  | report (payload : c.Map)
  | done
  | relayException (reason : Option Reason) (detail : Option Bytes)

def reasonCodes : List Reason :=
  [.ok, .noEngine, .noCommonRevision, .incompatibleEngine, .bindFailed, .unsupportedOperation,
    .invalidHandle, .badArgument, .busy, .internal, .diagDisabled]

/-- `ReasonCode.tryFromCode`. -/
def reasonFromCode (code : Int) : Option Reason :=
  reasonCodes.find? fun reason => (reason.code.toNat : Int) = code

def typeName : MessageType → Bytes
  | .hello => ascii "hello"
  | .helloAck => ascii "helloAck"
  | .capsRequest => ascii "capsRequest"
  | .capsReply => ascii "capsReply"
  | .open => ascii "open"
  | .openAck => ascii "openAck"
  | .post => ascii "post"
  | .set => ascii "set"
  | .close => ascii "close"
  | .status => ascii "status"
  | .diagRequest => ascii "diagRequest"
  | .diagReply => ascii "diagReply"
  | .bye => ascii "bye"
  | .error => ascii "error"

section

variable {c : Convert} (fields : Fields c)

def unexpected (wanted : String) (response : Frame c) : Completion c :=
  .relayException none
    (some (ascii "expected " ++ ascii wanted ++ ascii ", got " ++ typeName response.type))

def malformed (detail : String) : Completion c := .relayException none (some (ascii detail))

/-- `RelayException.fromPayload`. -/
def exceptionFrom (payload : c.Map) : Completion c :=
  .relayException ((fields.int payload (ascii "reason")).bind reasonFromCode)
    (fields.string payload (ascii "detail"))

/-- What a call does with its response. A shutdown takes anything; `post`, `set` and `close` take
anything but an ERROR. -/
def Call.complete (call : Call) (response : Frame c) : Completion c :=
  if call = .shutdown then .done
  else if response.type = .error then exceptionFrom fields response.payload
  else
    match call with
    | .negotiate =>
      if response.type ≠ .helloAck then unexpected "HELLO_ACK" response
      else
        match fields.int response.payload (ascii "revision") with
        | none => malformed "HELLO_ACK carried no integer revision"
        | some selected => .revision selected
    | .capabilities =>
      if response.type ≠ .capsReply then unexpected "CAPS_REPLY" response
      else .report response.payload
    | .open =>
      if response.type ≠ .openAck then unexpected "OPEN_ACK" response
      else
        match fields.int response.payload (ascii "handle") with
        | none => malformed "OPEN_ACK carried no usable handle"
        | some handle =>
          if handle = 0 then malformed "OPEN_ACK carried no usable handle" else .handle handle
    | .diagnostics =>
      if response.type ≠ .diagReply then unexpected "DIAG_REPLY" response
      else .report response.payload
    | .post | .set | .close | .shutdown => .done

end

/-! ## The client's state -/

inductive Failure
  | protocolViolation (cause : Violation)
  | relayClosed
  | transportError
deriving DecidableEq, Repr

inductive Outcome (c : Convert)
  | completed (call : Call) (arrival : Nat) (response : Frame c) (completion : Completion c)
  | timedOut
  | failed (failure : Failure)

def Outcome.isCompleted {c : Convert} : Outcome c → Bool
  | .completed .. => true
  | _ => false

/-- The numbers of the frames that have arrived, the counts and the outcomes are not the code's. -/
structure Relay (c : Convert) where
  decoder : FrameDecoder
  queued : List (Nat × Frame c)
  waiter : Option Call
  failure : Option Failure
  revision : Option Int
  arrived : Nat
  sent : Nat
  outcomes : List (Outcome c)

namespace Relay

variable {c : Convert} (fields : Fields c)

def attached (c : Convert) : Relay c := ⟨⟨[]⟩, [], none, none, none, 0, 0, []⟩

def settle (r : Relay c) (outcome : Outcome c) : Relay c :=
  { r with
    waiter := none
    outcomes := r.outcomes ++ [outcome]
    revision :=
      match outcome with
      | .completed _ _ _ (.revision selected) => some selected
      | _ => r.revision }

def complete (r : Relay c) (call : Call) (arrival : Nat) (response : Frame c) : Relay c :=
  r.settle (.completed call arrival response (call.complete fields response))

/-- The body of the loop of `_onBytes`. -/
def deliver (r : Relay c) (frame : Frame c) : Relay c :=
  let r := { r with arrived := r.arrived + 1 }
  match r.waiter with
  | some call => r.complete fields call r.arrived frame
  | none => { r with queued := r.queued ++ [(r.arrived, frame)] }

/-- `_fail`: the first failure stays. -/
def fail (r : Relay c) (failure : Failure) : Relay c :=
  match r.failure with
  | some _ => r
  | none =>
    let r := { r with failure := some failure }
    match r.waiter with
    | some _ => r.settle (.failed failure)
    | none => r

/-- `_onBytes`. A `FormatException` is not caught. -/
def onBytes (r : Relay c) (chunk : Bytes) : Relay c :=
  match r.decoder.add (c := c) chunk with
  | (decoder, .error (.protocolViolation cause)) =>
    { r with decoder }.fail (.protocolViolation cause)
  | (decoder, .error .formatException) => { r with decoder }
  | (decoder, .ok frames) => frames.foldl (deliver fields) { r with decoder }

/-- `_request` up to where it waits; nothing is sent where it throws before. -/
def request (r : Relay c) (call : Call) (frame : Frame c) (isPaused : Bool) :
    Relay c × Option Bytes :=
  if r.failure.isSome then (r, none)
  else if isPaused then (r, none)
  else
    match frame.encode with
    | none => (r, none)
    | some bytes =>
      let r := { r with sent := r.sent + 1 }
      match r.queued with
      | (arrival, response) :: rest =>
        ({ r with queued := rest }.complete fields call arrival response, some bytes)
      | [] => ({ r with waiter := some call }, some bytes)

def onTimeout (r : Relay c) : Relay c :=
  match r.waiter with
  | some _ => r.settle .timedOut
  | none => r

end Relay

end OakBarrels.Client
