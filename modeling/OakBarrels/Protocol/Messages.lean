import OakBarrels.Lib.Octets

/-!
# Message types and reasons

The numbers that both sides of the wire agree on.
-/

open Octets

namespace OakBarrels.Protocol

/-- Ceiling on a single control frame. -/
def kMaxControlFrameBytes : UInt32 := 1024 * 1024

inductive MessageType
  | hello
  | helloAck
  | capsRequest
  | capsReply
  | open
  | openAck
  | post
  | set
  | close
  | status
  | diagRequest
  | diagReply
  | bye
  | error
deriving DecidableEq, Repr

namespace MessageType

def code : MessageType → Byte
  | .hello => 0x01
  | .helloAck => 0x02
  | .capsRequest => 0x10
  | .capsReply => 0x11
  | .open => 0x20
  | .openAck => 0x21
  | .post => 0x30
  | .set => 0x31
  | .close => 0x40
  | .status => 0x50
  | .diagRequest => 0x60
  | .diagReply => 0x61
  | .bye => 0x70
  | .error => 0x7f

def all : List MessageType :=
  [.hello, .helloAck, .capsRequest, .capsReply, .open, .openAck, .post, .set, .close, .status,
    .diagRequest, .diagReply, .bye, .error]

/-- `static_cast<MessageType>` of a byte that the revision defines. -/
def ofCode (raw : Byte) : Option MessageType := all.find? fun type => type.code = raw

end MessageType

def isKnownMessageType (raw : Byte) : Bool := (MessageType.ofCode raw).isSome

/-- For transcripts: no name here reaches the wire. -/
def messageTypeName : MessageType → Bytes
  | .hello => ascii "HELLO"
  | .helloAck => ascii "HELLO_ACK"
  | .capsRequest => ascii "CAPS_REQUEST"
  | .capsReply => ascii "CAPS_REPLY"
  | .open => ascii "OPEN"
  | .openAck => ascii "OPEN_ACK"
  | .post => ascii "POST"
  | .set => ascii "SET"
  | .close => ascii "CLOSE"
  | .status => ascii "STATUS"
  | .diagRequest => ascii "DIAG_REQUEST"
  | .diagReply => ascii "DIAG_REPLY"
  | .bye => ascii "BYE"
  | .error => ascii "ERROR"

inductive Reason
  | ok
  | noEngine
  | noCommonRevision
  | incompatibleEngine
  | bindFailed
  | unsupportedOperation
  | invalidHandle
  | badArgument
  | busy
  | internal
  | diagDisabled
deriving DecidableEq, Repr

def Reason.code : Reason → UInt32
  | .ok => 0
  | .noEngine => 1
  | .noCommonRevision => 2
  | .incompatibleEngine => 3
  | .bindFailed => 4
  | .unsupportedOperation => 5
  | .invalidHandle => 6
  | .badArgument => 7
  | .busy => 8
  | .internal => 9
  | .diagDisabled => 10

/-- A generic, non-identifying description. -/
def reasonSummary : Reason → Bytes
  | .ok => ascii "ok"
  | .noEngine => ascii "no candidate installation found"
  | .noCommonRevision => ascii "protocol revisions do not overlap"
  | .incompatibleEngine => ascii "no known compatibility class fits"
  | .bindFailed => ascii "dynamic symbol resolution failed"
  | .unsupportedOperation => ascii "capability not present for this engine"
  | .invalidHandle => ascii "unknown or closed target"
  | .badArgument => ascii "malformed or out-of-range argument"
  | .busy => ascii "another session holds the relay"
  | .internal => ascii "internal error"
  | .diagDisabled => ascii "diagnostics requested without opt-in"

@[simp] theorem ofCode_code (type : MessageType) : MessageType.ofCode type.code = some type := by
  cases type <;> decide

theorem code_of_ofCode {raw : Byte} {type : MessageType} (h : MessageType.ofCode raw = some type) :
    type.code = raw := by
  have := List.find?_some h
  simpa using this

theorem code_ne_zero {reason : Reason} (h : reason ≠ .ok) : reason.code ≠ 0 := by
  cases reason <;> first | exact absurd rfl h | decide

end OakBarrels.Protocol
