import OakBarrels.Protocol.Frame

/-!
# The frame codec of the Dart client

The client's own encoder and decoder for the same wire form. What `dart:convert` does with text and
maps is a parameter.
-/

open Octets OakBarrels.Protocol

namespace OakBarrels.Client

inductive Decoded (Map : Type)
  | malformed
  | notMap
  | map (m : Map)

/-- `dart:convert` and the maps it converts. `utf8.decode` throws a `FormatException` on bytes that
are not UTF-8. -/
structure Convert where
  Map : Type
  Text : Type
  empty : Map
  isEmpty : Map → Bool
  jsonEncode : Map → Text
  jsonDecode : Text → Decoded Map
  utf8Encode : Text → Bytes
  utf8Decode : Bytes → Option Text

variable (c : Convert)

def typeCode : MessageType → Byte
  | .hello => 0x01
  | .helloAck => 0x02
  | .capsRequest => 0x10
  | .capsReply => 0x11
  | .open => 0x20
  | .openAck => 0x21
  | .post => 0x30
  | .set => 0x31
  | .close => 0x40
  | .status => 0x50
  | .diagRequest => 0x60
  | .diagReply => 0x61
  | .bye => 0x70
  | .error => 0x7f

def tryFromCode (code : Byte) : Option MessageType :=
  MessageType.all.find? fun type => typeCode type = code

def maxControlFrameBytes : Nat := 1024 * 1024

structure Frame where
  type : MessageType
  payload : c.Map

variable {c}

/-- The bytes of a payload; an empty one has none. -/
def Frame.body (f : Frame c) : Bytes :=
  if c.isEmpty f.payload then [] else c.utf8Encode (c.jsonEncode f.payload)

/-- `Frame.encode`; nothing when it throws `FrameTooLarge`. -/
def Frame.encode (f : Frame c) : Option Bytes :=
  let length := 1 + f.body.length
  if maxControlFrameBytes < length then none
  else some (littleEndian (UInt32.ofNat length) ++ typeCode f.type :: f.body)

/-! ## The decoder -/

inductive Violation
  | lengthTooSmall (length : Nat)
  | lengthTooLarge (length : Nat)
  | unknownType (code : Byte)
  | payloadMalformed
  | payloadNotMap
deriving DecidableEq, Repr

inductive Thrown
  | protocolViolation (cause : Violation)
  | formatException
deriving DecidableEq, Repr

def decodePayload (body : Bytes) : Except Thrown c.Map :=
  match c.utf8Decode body with
  | none => .error .formatException
  | some text =>
    match c.jsonDecode text with
    | .malformed => .error (.protocolViolation .payloadMalformed)
    | .notMap => .error (.protocolViolation .payloadNotMap)
    | .map m => .ok m

/-- The loop of `add`: from an offset and the frames so far to where it stops. -/
def addLoop (buffer : Bytes) (offset : Nat) (frames : List (Frame c)) :
    Except Thrown (List (Frame c) × Nat) :=
  if buffer.length - offset < 4 then .ok (frames, offset)
  else
    let length := (readLength (buffer.drop offset)).toNat
    if length < 1 then .error (.protocolViolation (.lengthTooSmall length))
    else if maxControlFrameBytes < length then
      .error (.protocolViolation (.lengthTooLarge length))
    else if buffer.length - offset < 4 + length then .ok (frames, offset)
    else
      let typeByte := (buffer.drop (offset + 4)).headD 0
      match tryFromCode typeByte with
      | none => .error (.protocolViolation (.unknownType typeByte))
      | some type =>
        let bodyStart := offset + 5
        let bodyEnd := offset + 4 + length
        if bodyStart = bodyEnd then addLoop buffer bodyEnd (frames ++ [⟨type, c.empty⟩])
        else
          match decodePayload ((buffer.take bodyEnd).drop bodyStart) with
          | .error e => .error e
          | .ok payload => addLoop buffer bodyEnd (frames ++ [⟨type, payload⟩])
termination_by buffer.length - offset

structure FrameDecoder where
  buffer : Bytes
deriving DecidableEq, Repr

/-- `FrameDecoder.add`. A throw leaves all bytes in the buffer and loses the frames of the call. -/
def FrameDecoder.add (d : FrameDecoder) (chunk : Bytes) :
    FrameDecoder × Except Thrown (List (Frame c)) :=
  let buffer := d.buffer ++ chunk
  match addLoop (c := c) buffer 0 [] with
  | .error e => (⟨buffer⟩, .error e)
  | .ok (frames, offset) => (⟨buffer.drop offset⟩, .ok frames)

end OakBarrels.Client
