import OakBarrels.Json.Value

/-!
# Writing JSON

`Value::dump` and the functions it is made of. Each returns what the source appends to `out`.
-/

open Octets Binary64 Decimal Conversion

namespace OakBarrels.Json

def hexByte (n : Nat) : Byte := if n < 10 then digit n else UInt8.ofNat (87 + n)

/-- `snprintf("%04x")` of a byte. -/
def hex4 (c : Byte) : Bytes :=
  [digit 0, digit 0, hexByte (c.toNat / 16), hexByte (c.toNat % 16)]

def escapeByte (c : Byte) : Bytes :=
  if c = ch '"' then ascii "\\\""
  else if c = ch '\\' then ascii "\\\\"
  else if c = 8 then ascii "\\b"
  else if c = 12 then ascii "\\f"
  else if c = 10 then ascii "\\n"
  else if c = 13 then ascii "\\r"
  else if c = 9 then ascii "\\t"
  else if c < 0x20 then ascii "\\u" ++ hex4 c
  else [c]

def writeEscapedString (value : Bytes) : Bytes :=
  ch '"' :: value.flatMap escapeByte ++ [ch '"']

/-- Integers of less than sixteen digits are written as such. -/
def writeNumber (value : Double) : Bytes :=
  if ¬ value.isFinite then ascii "null"
  else if value.beq value.floor ∧ value.abs.lt (.ofInt (10 ^ 15)) then stdToString value.truncate
  else formatG17 value

mutual

def writeValue : Value → Bytes
  | .null => ascii "null"
  | .boolean v => if v then ascii "true" else ascii "false"
  | .number v => writeNumber v
  | .string v => writeEscapedString v
  | .array items => ch '[' :: writeItems true items ++ [ch ']']
  | .object members => ch '{' :: writeMembers true members ++ [ch '}']

/-- The loop over an array; `first` says whether no comma is due yet. -/
def writeItems (first : Bool) : List Value → Bytes
  | [] => []
  | item :: rest => (if first then [] else [ch ',']) ++ writeValue item ++ writeItems false rest

def writeMembers (first : Bool) : List (Bytes × Value) → Bytes
  | [] => []
  | (key, value) :: rest =>
    (if first then [] else [ch ',']) ++ writeEscapedString key ++ ch ':' :: writeValue value ++
      writeMembers false rest

end

def Value.dump (v : Value) : Bytes := writeValue v

example : Value.dump (.array [.number (round true 5 2), .null, .string (ascii "a\n")]) =
    ascii "[-2.5,null,\"a\\n\"]" := by decide

end OakBarrels.Json
