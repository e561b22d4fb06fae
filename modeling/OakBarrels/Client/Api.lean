import OakBarrels.Client.Relay
import OakBarrels.Json.Value
import Mathlib.Data.Finset.Sort

/-!
# The calls of the Dart client

What a caller asks of a relay, the map that each call sends, and what the caller is given for the
response.
-/

open Octets Binary64 OakBarrels.Protocol OakBarrels.Json

namespace OakBarrels.Client

/-! ## What a caller asks for -/

/-- What a caller puts into a map. A string is its UTF-8. -/
inductive Datum
  | null
  | bool (v : Bool)
  | int (v : Int)
  | double (v : Double)
  | string (v : Bytes)
  | list (items : List Datum)
  | map (entries : List (Bytes × Datum))

mutual

/-- The JSON value of it. -/
def Datum.value : Datum → Value
  | .null => .null
  | .bool v => .boolean v
  | .int v => .number (.ofInt v)
  | .double v => .number v
  | .string v => .string v
  | .list items => .array (itemsValue items)
  | .map entries => .object (entriesValue entries)

def itemsValue : List Datum → List Value
  | [] => []
  | d :: rest => d.value :: itemsValue rest

def entriesValue : List (Bytes × Datum) → List (Bytes × Value)
  | [] => []
  | (key, d) :: rest => (key, d.value) :: entriesValue rest

end

inductive Invocation
  | negotiate (revisions : Finset Int)
  | capabilities
  | open (kind : Bytes) (name : Option Bytes)
  | post (handle : Int) (action : Bytes) (args : Option (List (Bytes × Datum)))
  | set (handle : Int) (parameter : Bytes) (value : Double)
  | close (handle : Int)
  | diagnostics (enable identify : Option Bool)
  | shutdown

namespace Invocation

def call : Invocation → Call
  | .negotiate _ => .negotiate
  | .capabilities => .capabilities
  | .open .. => .open
  | .post .. => .post
  | .set .. => .set
  | .close _ => .close
  | .diagnostics .. => .diagnostics
  | .shutdown => .shutdown

def type : Invocation → MessageType
  | .negotiate _ => .hello
  | .capabilities => .capsRequest
  | .open .. => .open
  | .post .. => .post
  | .set .. => .set
  | .close _ => .close
  | .diagnostics .. => .diagRequest
  | .shutdown => .bye

/-- `toList` and `sort`. -/
def ascending {α : Type} [LinearOrder α] (set : Finset α) : List α := set.sort (· ≤ ·)

/-- An entry that is there only where there is something to say. -/
def optional {α : Type} (key : Bytes) (datum : α → Datum) (given : Option α) : List (Bytes × Datum) :=
  (given.map fun v => (key, datum v)).toList

/-- The entries of the map, in their order. -/
def payload : Invocation → List (Bytes × Datum)
  | .negotiate revisions => [(ascii "revisions", .list ((ascending revisions).map .int))]
  | .capabilities => []
  | .open kind name => (ascii "kind", .string kind) :: optional (ascii "name") .string name
  | .post handle action args =>
    (ascii "handle", .int handle) :: (ascii "action", .string action) ::
      optional (ascii "args") .map args
  | .set handle parameter value =>
    [(ascii "handle", .int handle), (ascii "param", .string parameter),
      (ascii "value", .double value)]
  | .close handle => [(ascii "handle", .int handle)]
  | .diagnostics enable identify =>
    optional (ascii "enable") .bool enable ++ optional (ascii "identify") .bool identify
  | .shutdown => []

end Invocation

/-- The maps that are sent. -/
structure Writer (c : Convert) where
  map : List (Bytes × Datum) → c.Map

def Invocation.frame {c : Convert} (writer : Writer c) (request : Invocation) : Frame c :=
  ⟨request.type, writer.map request.payload⟩

/-! ## What a caller is given -/

/-- How the client reads a field of a payload that is not an `int` or a `String`: `== true`, the
strings of a `List` and the entries of a `Map` that are a `num`. -/
structure Reader (c : Convert) extends Fields c where
  isTrue : c.Map → Bytes → Bool
  strings : c.Map → Bytes → List Bytes
  numbers : c.Map → Bytes → List (Bytes × ℚ)

structure Capabilities where
  classes : Finset Bytes
  limits : List (Bytes × ℚ)
  bulk : Bool
deriving DecidableEq

structure Diagnostics where
  diagnosticsEnabled : Bool
  identificationEnabled : Bool
  revision : Int
  classes : Finset Bytes
  targetCount : Int
  resolvedSymbolCount : Int
  filesExamined : Int
  candidatesFound : Int
  discoveryTruncated : Bool
deriving DecidableEq

section

variable {c : Convert} (reader : Reader c)

def Capabilities.fromPayload (payload : c.Map) : Capabilities where
  classes := (reader.strings payload (ascii "classes")).toFinset
  limits := reader.numbers payload (ascii "limits")
  bulk := reader.isTrue payload (ascii "bulk")

def Diagnostics.fromPayload (payload : c.Map) : Diagnostics where
  diagnosticsEnabled := reader.isTrue payload (ascii "diagnose")
  identificationEnabled := reader.isTrue payload (ascii "identify")
  revision := (reader.int payload (ascii "revision")).getD 0
  classes := (reader.strings payload (ascii "classes")).toFinset
  targetCount := (reader.int payload (ascii "targets")).getD 0
  resolvedSymbolCount := (reader.int payload (ascii "symbols_resolved")).getD 0
  filesExamined := (reader.int payload (ascii "files_examined")).getD 0
  candidatesFound := (reader.int payload (ascii "candidates_found")).getD 0
  discoveryTruncated := reader.isTrue payload (ascii "discovery_truncated")

end

/-- A value, or what is thrown. -/
inductive Result
  | revision (selected : Int)
  | capabilities (capabilities : Capabilities)
  | handle (handle : Int)
  | done
  | diagnostics (diagnostics : Diagnostics)
  | relayException (reason : Option Reason) (detail : Option Bytes)
  | failed (failure : Failure)
  | relayTimeout
deriving DecidableEq

section

variable {c : Convert} (reader : Reader c)

def Completion.result (call : Call) : Completion c → Result
  | .revision selected => .revision selected
  | .handle target => .handle target
  | .report payload =>
    if call = .capabilities then .capabilities (.fromPayload reader payload)
    else .diagnostics (.fromPayload reader payload)
  | .done => .done
  | .relayException reason detail => .relayException reason detail

/-- A shutdown does not throw. -/
def Outcome.result (call : Call) (outcome : Outcome c) : Result :=
  if call = .shutdown then .done
  else
    match outcome with
    | .completed _ _ _ completion => completion.result reader call
    | .timedOut => .relayTimeout
    | .failed failure => .failed failure

end

end OakBarrels.Client
