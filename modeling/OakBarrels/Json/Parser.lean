import OakBarrels.Json.Value
import OakBarrels.Lib.Cursor

/-!
# The JSON parser

The member functions of `Parser` as programs over `text_` and `pos_`; `refuse` returns `nullopt`.
Loops and recursive calls count down a number that `parseDocument` chooses large enough.
-/

open Octets Binary64 Decimal Conversion Cursor

namespace OakBarrels.Json

def kMaxParseDepth : Nat := 64

namespace Parser

/-! ## Tokens -/

def isJsonWhitespace (c : Byte) : Bool :=
  c = ch ' ' || c = ch '\t' || c = ch '\n' || c = ch '\r'

def skipWhitespace : Program Unit := skipWhile isJsonWhitespace

def consumeLiteral (literal : Bytes) : Program Bool := do
  if (← remaining) < literal.length then return false
  if (← substr literal.length) ≠ literal then return false
  advance literal.length
  return true

/-- The bytes that `appendUtf8` adds. -/
def appendUtf8 (codePoint : UInt32) : Bytes :=
  if codePoint ≤ 0x7f then
    [codePoint.toUInt8]
  else if codePoint ≤ 0x7ff then
    [((0xc0 : UInt32) ||| (codePoint >>> 6)).toUInt8,
     ((0x80 : UInt32) ||| (codePoint &&& 0x3f)).toUInt8]
  else if codePoint ≤ 0xffff then
    [((0xe0 : UInt32) ||| (codePoint >>> 12)).toUInt8,
     ((0x80 : UInt32) ||| ((codePoint >>> 6) &&& 0x3f)).toUInt8,
     ((0x80 : UInt32) ||| (codePoint &&& 0x3f)).toUInt8]
  else
    [((0xf0 : UInt32) ||| (codePoint >>> 18)).toUInt8,
     ((0x80 : UInt32) ||| ((codePoint >>> 12) &&& 0x3f)).toUInt8,
     ((0x80 : UInt32) ||| ((codePoint >>> 6) &&& 0x3f)).toUInt8,
     ((0x80 : UInt32) ||| (codePoint &&& 0x3f)).toUInt8]

def hexDigit (c : Byte) : Option UInt32 :=
  if ch '0' ≤ c ∧ c ≤ ch '9' then some (c - ch '0').toUInt32
  else if ch 'a' ≤ c ∧ c ≤ ch 'f' then some (c - ch 'a' + 10).toUInt32
  else if ch 'A' ≤ c ∧ c ≤ ch 'F' then some (c - ch 'A' + 10).toUInt32
  else none

def parseHexDigits : Nat → UInt32 → Program UInt32
  | 0, value => return value
  | n + 1, value => do
    let c ← byteAt 0
    advance 1
    match hexDigit c with
    | some d => parseHexDigits n (value <<< 4 ||| d)
    | none => refuse

def parseHex4 : Program UInt32 := do
  if (← remaining) < 4 then refuse
  else parseHexDigits 4 0

/-- What stands after `\u`, with the second half of a surrogate pair. -/
def parseUnicodeEscape : Program Bytes := do
  let codePoint ← parseHex4
  if 0xd800 ≤ codePoint ∧ codePoint ≤ 0xdbff then
    if (← remaining) < 2 then refuse
    else if (← byteAt 0) ≠ ch '\\' then refuse
    else if (← byteAt 1) ≠ ch 'u' then refuse
    else
      advance 2
      let second ← parseHex4
      if second < 0xdc00 ∨ 0xdfff < second then refuse
      else return appendUtf8 ((0x10000 : UInt32) + ((codePoint - 0xd800) <<< 10) + (second - 0xdc00))
  else if 0xdc00 ≤ codePoint ∧ codePoint ≤ 0xdfff then refuse
  else return appendUtf8 codePoint

def simpleEscape (c : Byte) : Option Byte :=
  if c = ch '"' then some (ch '"')
  else if c = ch '\\' then some (ch '\\')
  else if c = ch '/' then some (ch '/')
  else if c = ch 'b' then some 8
  else if c = ch 'f' then some 12
  else if c = ch 'n' then some 10
  else if c = ch 'r' then some 13
  else if c = ch 't' then some 9
  else none

def parseEscape : Program Bytes := do
  if ← atEnd then refuse
  else
    let escape ← byteAt 0
    advance 1
    if escape = ch 'u' then parseUnicodeEscape
    else
      match simpleEscape escape with
      | some b => return [b]
      | none => refuse

/-- The loop of `parseString`, with what it has collected. -/
def parseStringRest : Nat → Bytes → Program Bytes
  | 0, _ => outOfFuel
  | fuel + 1, out => do
    if ← atEnd then refuse
    else
      let c ← byteAt 0
      if c = ch '"' then
        advance 1
        return out
      else if c = ch '\\' then
        advance 1
        let decoded ← parseEscape
        parseStringRest fuel (out ++ decoded)
      else if c < 0x20 then refuse
      else
        advance 1
        parseStringRest fuel (out ++ [c])

def parseString : Program Bytes := do
  advance 1
  let n ← remaining
  parseStringRest (n + 1) []

def parseDigits : Program Unit := do
  if ← nextIs isDigit then skipWhile isDigit else refuse

/-- A leading zero may not be followed by more digits. -/
def parseWhole : Program Unit := do
  skipIf (· = ch '-')
  if ← nextIs (· = ch '0') then advance 1 else parseDigits

def parseFraction : Program Unit := do
  if ← nextIs (· = ch '.') then
    advance 1
    parseDigits

def parseExponent : Program Unit := do
  if ← nextIs (fun c => c = ch 'e' || c = ch 'E') then
    advance 1
    skipIf (fun c => c = ch '+' || c = ch '-')
    parseDigits

def parseNumber : Program Value := do
  let token ← tokenOf (do parseWhole; parseFraction; parseExponent)
  let (parsed, rest) := strtod token
  if rest ≠ [] then refuse
  else return .number parsed

/-! ## Values -/

mutual

def parseValue : Nat → Nat → Program Value
  | 0, _ => outOfFuel
  | fuel + 1, depth => do
    if kMaxParseDepth < depth then refuse
    else if ← atEnd then refuse
    else
      let c ← byteAt 0
      if c = ch '{' then parseObject fuel depth
      else if c = ch '[' then parseArray fuel depth
      else if c = ch '"' then return .string (← parseString)
      else if c = ch 't' then
        if ← consumeLiteral (ascii "true") then return .boolean true else refuse
      else if c = ch 'f' then
        if ← consumeLiteral (ascii "false") then return .boolean false else refuse
      else if c = ch 'n' then
        if ← consumeLiteral (ascii "null") then return .null else refuse
      else parseNumber

def parseObject : Nat → Nat → Program Value
  | 0, _ => outOfFuel
  | fuel + 1, depth => do
    advance 1
    skipWhitespace
    if ← nextIs (· = ch '}') then
      advance 1
      return .object []
    else parseMembers fuel depth (.object [])

/-- The loop of `parseObject`, with the object so far. -/
def parseMembers : Nat → Nat → Value → Program Value
  | 0, _, _ => outOfFuel
  | fuel + 1, depth, object => do
    skipWhitespace
    if ← nextIs (· = ch '"') then
      let key ← parseString
      skipWhitespace
      if ← nextIs (· = ch ':') then
        advance 1
        skipWhitespace
        let value ← parseValue fuel (depth + 1)
        skipWhitespace
        if ← nextIs (· = ch ',') then
          advance 1
          parseMembers fuel depth (object.set key value)
        else if ← nextIs (· = ch '}') then
          advance 1
          return object.set key value
        else refuse
      else refuse
    else refuse

def parseArray : Nat → Nat → Program Value
  | 0, _ => outOfFuel
  | fuel + 1, depth => do
    advance 1
    skipWhitespace
    if ← nextIs (· = ch ']') then
      advance 1
      return .array []
    else parseItems fuel depth []

/-- The loop of `parseArray`, with the items so far. -/
def parseItems : Nat → Nat → List Value → Program Value
  | 0, _, _ => outOfFuel
  | fuel + 1, depth, items => do
    skipWhitespace
    let value ← parseValue fuel (depth + 1)
    skipWhitespace
    if ← nextIs (· = ch ',') then
      advance 1
      parseItems fuel depth (items ++ [value])
    else if ← nextIs (· = ch ']') then
      advance 1
      return .array (items ++ [value])
    else refuse

end

def parseDocument : Program Value := do
  skipWhitespace
  let n ← remaining
  let value ← parseValue (3 * n + 1) 0
  skipWhitespace
  if ← atEnd then return value else refuse

end Parser

def parse (text : Bytes) : Option Value :=
  match Parser.parseDocument text 0 with
  | .done value _ => some value
  | _ => none

end OakBarrels.Json
