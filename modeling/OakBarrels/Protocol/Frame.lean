import OakBarrels.Lib.Runs
import OakBarrels.Protocol.Messages

/-!
# The frame codec

`[u32 length, little-endian][u8 type][payload bytes]`, where the length counts the type byte and the
payload, and the decoder that takes frames from bytes as they arrive.
-/

open Octets

namespace OakBarrels.Protocol

structure Frame where
  type : MessageType
  payload : Bytes
deriving DecidableEq, Repr

def kHeaderBytes : Nat := 4

def encodeFrame (type : MessageType) (payloadJson : Bytes) : Bytes :=
  let bodyLength : UInt32 := 1 + UInt32.ofNat payloadJson.length
  littleEndian bodyLength ++ type.code :: payloadJson

inductive DecodeError
  | none
  | frameTooLarge
  | lengthTooSmall
  | unknownMessageType
deriving DecidableEq, Repr

def readLength : Bytes → UInt32
  | b0 :: b1 :: b2 :: b3 :: _ => ofLittleEndian b0 b1 b2 b3
  | _ => 0

structure FrameDecoder where
  buffer : Bytes
  error : DecodeError
deriving DecidableEq, Repr

namespace FrameDecoder

def fresh : FrameDecoder := ⟨[], .none⟩

def failed (d : FrameDecoder) : Bool := d.error ≠ .none

def fail (d : FrameDecoder) (error : DecodeError) : FrameDecoder :=
  if d.error = .none then { d with error := error } else d

/-- A null pointer counts as no bytes. -/
def feed (d : FrameDecoder) (data : Bytes) : FrameDecoder :=
  if d.failed ∨ data.length = 0 then d else { d with buffer := d.buffer ++ data }

def next (d : FrameDecoder) : FrameDecoder × Option Frame :=
  if d.failed then (d, none)
  else if d.buffer.length < kHeaderBytes then (d, none)
  else
    let length := readLength d.buffer
    if length < 1 then (d.fail .lengthTooSmall, none)
    else if kMaxControlFrameBytes < length then (d.fail .frameTooLarge, none)
    else
      let total := kHeaderBytes + length.toNat
      if d.buffer.length < total then (d, none)
      else
        match d.buffer[kHeaderBytes]? with
        | none => (d, none)
        | some rawType =>
          match MessageType.ofCode rawType with
          | none => (d.fail .unknownMessageType, none)
          | some type =>
            ({ d with buffer := d.buffer.drop total },
              some ⟨type, (d.buffer.take total).drop (kHeaderBytes + 1)⟩)

inductive Op
  | feed (data : Bytes)
  | next

def step (d : FrameDecoder) : Op → FrameDecoder × Option Frame
  | .feed data => (d.feed data, none)
  | .next => d.next

end FrameDecoder

end OakBarrels.Protocol
