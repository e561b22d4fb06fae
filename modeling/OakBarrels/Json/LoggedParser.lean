import OakBarrels.Lib.Logged
import OakBarrels.Json.Parser

/-!
# The JSON parser with a log

The member functions of `Parser` once more, look by look, over a log that is kept where they return
`nullopt` as well; each call of `parseValue` is counted. They do what the functions without it do.
-/

open Octets Binary64 Decimal Conversion Logged

namespace OakBarrels.Json.LoggedParser

open OakBarrels.Json.Parser (isJsonWhitespace appendUtf8 hexDigit simpleEscape)

/-! ## Tokens -/

def skipWhitespace : Program Unit := skipWhile isJsonWhitespace

def consumeLiteral (literal : Bytes) : Program Bool := do
  if (← remaining) < literal.length then return false
  if (← substr literal.length) ≠ literal then return false
  advance literal.length
  return true

def parseHexDigits : Nat → UInt32 → Program UInt32
  | 0, value => return value
  | n + 1, value => do
    let c ← byteAt 0
    advance 1
    match hexDigit c with
    | some d => parseHexDigits n (value <<< 4 ||| d)
    | none => refuse

def parseHex4 : Program UInt32 := do
  if (← remaining) < 4 then refuse
  else parseHexDigits 4 0

def parseUnicodeEscape : Program Bytes := do
  let codePoint ← parseHex4
  if 0xd800 ≤ codePoint ∧ codePoint ≤ 0xdbff then
    if (← remaining) < 2 then refuse
    else if (← byteAt 0) ≠ ch '\\' then refuse
    else if (← byteAt 1) ≠ ch 'u' then refuse
    else
      advance 2
      let second ← parseHex4
      if second < 0xdc00 ∨ 0xdfff < second then refuse
      else
        return appendUtf8
          ((0x10000 : UInt32) + ((codePoint - 0xd800) <<< 10) + (second - 0xdc00))
  else if 0xdc00 ≤ codePoint ∧ codePoint ≤ 0xdfff then refuse
  else return appendUtf8 codePoint

def parseEscape : Program Bytes := do
  if ← atEnd then refuse
  else
    let escape ← byteAt 0
    advance 1
    if escape = ch 'u' then parseUnicodeEscape
    else
      match simpleEscape escape with
      | some b => return [b]
      | none => refuse

def parseStringRest : Nat → Bytes → Program Bytes
  | 0, _ => outOfFuel
  | fuel + 1, out => do
    if ← atEnd then refuse
    else
      let c ← byteAt 0
      if c = ch '"' then
        advance 1
        return out
      else if c = ch '\\' then
        advance 1
        let decoded ← parseEscape
        parseStringRest fuel (out ++ decoded)
      else if c < 0x20 then refuse
      else
        advance 1
        parseStringRest fuel (out ++ [c])

def parseString : Program Bytes := do
  advance 1
  let n ← remaining
  parseStringRest (n + 1) []

def parseDigits : Program Unit := do
  if ← nextIs isDigit then skipWhile isDigit else refuse

def parseWhole : Program Unit := do
  skipIf (· = ch '-')
  branch (· = ch '0') (advance 1) isDigit (skipWhile isDigit)

def parseFraction : Program Unit := do
  if ← nextIs (· = ch '.') then
    advance 1
    parseDigits

def parseExponent : Program Unit := do
  if ← nextIs (fun c => c = ch 'e' || c = ch 'E') then
    advance 1
    skipIf (fun c => c = ch '+' || c = ch '-')
    parseDigits

def parseNumber : Program Value := do
  let token ← tokenOf (do parseWhole; parseFraction; parseExponent)
  let (parsed, rest) := strtod token
  if rest ≠ [] then refuse
  else return .number parsed

/-! ## Values -/

mutual

def parseValue : Nat → Nat → Program Value
  | 0, _ => outOfFuel
  | fuel + 1, depth => call do
    if kMaxParseDepth < depth then refuse
    else if ← atEnd then refuse
    else
      let c ← byteAt 0
      if c = ch '{' then parseObject fuel depth
      else if c = ch '[' then parseArray fuel depth
      else if c = ch '"' then return .string (← parseString)
      else if c = ch 't' then
        if ← consumeLiteral (ascii "true") then return .boolean true else refuse
      else if c = ch 'f' then
        if ← consumeLiteral (ascii "false") then return .boolean false else refuse
      else if c = ch 'n' then
        if ← consumeLiteral (ascii "null") then return .null else refuse
      else parseNumber

def parseObject : Nat → Nat → Program Value
  | 0, _ => outOfFuel
  | fuel + 1, depth => do
    advance 1
    skipWhitespace
    if ← nextIs (· = ch '}') then
      advance 1
      return .object []
    else parseMembers fuel depth (.object [])

def parseMembers : Nat → Nat → Value → Program Value
  | 0, _, _ => outOfFuel
  | fuel + 1, depth, object => do
    skipWhitespace
    if ← nextIs (· = ch '"') then
      let key ← parseString
      skipWhitespace
      if ← nextIs (· = ch ':') then
        advance 1
        skipWhitespace
        let value ← parseValue fuel (depth + 1)
        skipWhitespace
        branch
          (· = ch ',') (do
            advance 1
            parseMembers fuel depth (object.set key value))
          (· = ch '}') (do
            advance 1
            return object.set key value)
      else refuse
    else refuse

def parseArray : Nat → Nat → Program Value
  | 0, _ => outOfFuel
  | fuel + 1, depth => do
    advance 1
    skipWhitespace
    if ← nextIs (· = ch ']') then
      advance 1
      return .array []
    else parseItems fuel depth []

def parseItems : Nat → Nat → List Value → Program Value
  | 0, _, _ => outOfFuel
  | fuel + 1, depth, items => do
    skipWhitespace
    let value ← parseValue fuel (depth + 1)
    skipWhitespace
    branch
      (· = ch ',') (do
        advance 1
        parseItems fuel depth (items ++ [value]))
      (· = ch ']') (do
        advance 1
        return .array (items ++ [value]))

end

def parseDocument : Program Value := do
  skipWhitespace
  let n ← remaining
  let value ← parseValue (3 * n + 1) 0
  skipWhitespace
  if ← atEnd then return value else refuse

/-! ## Without the log -/

theorem follows_skipWhitespace : Follows skipWhitespace Parser.skipWhitespace :=
  follows_skipWhile isJsonWhitespace

theorem follows_consumeLiteral (literal : Bytes) :
    Follows (consumeLiteral literal) (Parser.consumeLiteral literal) := by
  unfold consumeLiteral Parser.consumeLiteral
  apply follows_bind follows_remaining
  intro n
  apply follows_ite (follows_pure false)
  apply follows_bind (follows_substr _)
  intro s
  apply follows_ite (follows_pure false)
  exact follows_bind (follows_advance _) fun _ => follows_pure true

theorem follows_parseHexDigits (n : Nat) (value : UInt32) :
    Follows (parseHexDigits n value) (Parser.parseHexDigits n value) := by
  induction n generalizing value with
  | zero => exact follows_pure value
  | succ n ih =>
    unfold parseHexDigits Parser.parseHexDigits
    apply follows_bind (follows_byteAt 0)
    intro c
    apply follows_bind (follows_advance 1)
    intro _
    cases hexDigit c with
    | none => exact follows_refuse
    | some d => exact ih _

theorem follows_parseHex4 : Follows parseHex4 Parser.parseHex4 := by
  unfold parseHex4 Parser.parseHex4
  apply follows_bind follows_remaining
  intro n
  exact follows_ite follows_refuse (follows_parseHexDigits 4 0)

theorem follows_parseUnicodeEscape :
    Follows parseUnicodeEscape Parser.parseUnicodeEscape := by
  unfold parseUnicodeEscape Parser.parseUnicodeEscape
  apply follows_bind follows_parseHex4
  intro codePoint
  apply follows_ite
  · apply follows_bind follows_remaining
    intro n
    apply follows_ite follows_refuse
    apply follows_bind (follows_byteAt 0)
    intro backslash
    apply follows_ite follows_refuse
    apply follows_bind (follows_byteAt 1)
    intro u
    apply follows_ite follows_refuse
    apply follows_bind (follows_advance 2)
    intro _
    apply follows_bind follows_parseHex4
    intro second
    exact follows_ite follows_refuse (follows_pure _)
  · exact follows_ite follows_refuse (follows_pure _)

theorem follows_parseEscape : Follows parseEscape Parser.parseEscape := by
  unfold parseEscape Parser.parseEscape
  apply follows_bind follows_atEnd
  intro ended
  apply follows_ite follows_refuse
  apply follows_bind (follows_byteAt 0)
  intro escape
  apply follows_bind (follows_advance 1)
  intro _
  apply follows_ite follows_parseUnicodeEscape
  cases simpleEscape escape with
  | none => exact follows_refuse
  | some b => exact follows_pure [b]

theorem follows_parseStringRest (fuel : Nat) (out : Bytes) :
    Follows (parseStringRest fuel out) (Parser.parseStringRest fuel out) := by
  induction fuel generalizing out with
  | zero => exact follows_outOfFuel
  | succ fuel ih =>
    unfold parseStringRest Parser.parseStringRest
    apply follows_bind follows_atEnd
    intro ended
    apply follows_ite follows_refuse
    apply follows_bind (follows_byteAt 0)
    intro c
    apply follows_ite
    · exact follows_bind (follows_advance 1) fun _ => follows_pure out
    apply follows_ite
    · apply follows_bind (follows_advance 1)
      intro _
      exact follows_bind follows_parseEscape fun _ => ih _
    · exact follows_ite follows_refuse (follows_bind (follows_advance 1) fun _ => ih _)

theorem follows_parseString : Follows parseString Parser.parseString := by
  unfold parseString Parser.parseString
  apply follows_bind (follows_advance 1)
  intro _
  exact follows_bind follows_remaining fun n => follows_parseStringRest (n + 1) []

theorem follows_parseDigits : Follows parseDigits Parser.parseDigits := by
  unfold parseDigits Parser.parseDigits
  apply follows_bind (follows_nextIs isDigit)
  exact fun _ => follows_ite (follows_skipWhile isDigit) follows_refuse

theorem follows_parseWhole : Follows parseWhole Parser.parseWhole := by
  unfold parseWhole Parser.parseWhole
  apply follows_bind (follows_skipIf _)
  exact fun _ => follows_branch (follows_advance 1) (follows_skipWhile isDigit)

theorem follows_parseFraction : Follows parseFraction Parser.parseFraction := by
  unfold parseFraction Parser.parseFraction
  apply follows_bind (follows_nextIs _)
  intro found
  apply follows_ite
  · exact follows_bind (follows_advance 1) fun _ => follows_parseDigits
  · exact follows_pure ()

theorem follows_parseExponent : Follows parseExponent Parser.parseExponent := by
  unfold parseExponent Parser.parseExponent
  apply follows_bind (follows_nextIs _)
  intro found
  apply follows_ite
  · apply follows_bind (follows_advance 1)
    intro _
    exact follows_bind (follows_skipIf _) fun _ => follows_parseDigits
  · exact follows_pure ()

theorem follows_parseNumber : Follows parseNumber Parser.parseNumber := by
  unfold parseNumber Parser.parseNumber
  apply follows_bind
  · apply follows_tokenOf
    apply follows_bind follows_parseWhole
    intro _
    exact follows_bind follows_parseFraction fun _ => follows_parseExponent
  · intro token
    exact follows_ite follows_refuse (follows_pure _)

/-- The five functions that call each other, with the same number to count down from. -/
structure FollowsAt (fuel : Nat) : Prop where
  value : ∀ depth, Follows (parseValue fuel depth) (Parser.parseValue fuel depth)
  object : ∀ depth, Follows (parseObject fuel depth) (Parser.parseObject fuel depth)
  members : ∀ depth object,
    Follows (parseMembers fuel depth object) (Parser.parseMembers fuel depth object)
  array : ∀ depth, Follows (parseArray fuel depth) (Parser.parseArray fuel depth)
  items : ∀ depth items,
    Follows (parseItems fuel depth items) (Parser.parseItems fuel depth items)

theorem follows_literal (literal : Bytes) (v : Value) :
    Follows (do if ← consumeLiteral literal then return v else refuse)
      (do if ← Parser.consumeLiteral literal then return v else Cursor.refuse) := by
  apply follows_bind (follows_consumeLiteral literal)
  exact fun _ => follows_ite (follows_pure v) follows_refuse

theorem follows_parseValue {fuel : Nat} (h : FollowsAt fuel) (depth : Nat) :
    Follows (parseValue (fuel + 1) depth) (Parser.parseValue (fuel + 1) depth) := by
  unfold parseValue Parser.parseValue
  apply follows_call
  apply follows_ite follows_refuse
  apply follows_bind follows_atEnd
  intro ended
  apply follows_ite follows_refuse
  apply follows_bind (follows_byteAt 0)
  intro c
  apply follows_ite (h.object depth)
  apply follows_ite (h.array depth)
  apply follows_ite
  · exact follows_bind follows_parseString fun s => follows_pure _
  apply follows_ite (follows_literal _ _)
  apply follows_ite (follows_literal _ _)
  exact follows_ite (follows_literal _ _) follows_parseNumber

theorem follows_opening {x : Program Value} {y : Cursor.Program Value} (v : Value)
    (close : Byte → Bool) (h : Follows x y) :
    Follows
      (do
        advance 1
        skipWhitespace
        if ← nextIs close then
          advance 1
          return v
        else x)
      (do
        Cursor.advance 1
        Parser.skipWhitespace
        if ← Cursor.nextIs close then
          Cursor.advance 1
          return v
        else y) := by
  apply follows_bind (follows_advance 1)
  intro _
  apply follows_bind follows_skipWhitespace
  intro _
  apply follows_bind (follows_nextIs close)
  intro ended
  exact follows_ite (follows_bind (follows_advance 1) fun _ => follows_pure v) h

theorem follows_separator {x : Program Value} {y : Cursor.Program Value} (v : Value)
    (close : Byte → Bool) (h : Follows x y) :
    Follows
      (do
        skipWhitespace
        branch
          (· = ch ',') (do
            advance 1
            x)
          close (do
            advance 1
            return v))
      (do
        Parser.skipWhitespace
        if ← Cursor.nextIs (· = ch ',') then
          Cursor.advance 1
          y
        else if ← Cursor.nextIs close then
          Cursor.advance 1
          return v
        else Cursor.refuse) := by
  apply follows_bind follows_skipWhitespace
  intro _
  apply follows_branch
  · exact follows_bind (follows_advance 1) fun _ => h
  · exact follows_bind (follows_advance 1) fun _ => follows_pure v

theorem follows_parseObject {fuel : Nat} (h : FollowsAt fuel) (depth : Nat) :
    Follows (parseObject (fuel + 1) depth) (Parser.parseObject (fuel + 1) depth) := by
  unfold parseObject Parser.parseObject
  exact follows_opening _ _ (h.members depth _)

theorem follows_parseMembers {fuel : Nat} (h : FollowsAt fuel) (depth : Nat) (object : Value) :
    Follows (parseMembers (fuel + 1) depth object)
      (Parser.parseMembers (fuel + 1) depth object) := by
  unfold parseMembers Parser.parseMembers
  apply follows_bind follows_skipWhitespace
  intro _
  apply follows_bind (follows_nextIs _)
  intro quoted
  apply follows_ite _ follows_refuse
  apply follows_bind follows_parseString
  intro key
  apply follows_bind follows_skipWhitespace
  intro _
  apply follows_bind (follows_nextIs _)
  intro separated
  apply follows_ite _ follows_refuse
  apply follows_bind (follows_advance 1)
  intro _
  apply follows_bind follows_skipWhitespace
  intro _
  apply follows_bind (h.value _)
  intro value
  exact follows_separator _ _ (h.members depth _)

theorem follows_parseArray {fuel : Nat} (h : FollowsAt fuel) (depth : Nat) :
    Follows (parseArray (fuel + 1) depth) (Parser.parseArray (fuel + 1) depth) := by
  unfold parseArray Parser.parseArray
  exact follows_opening _ _ (h.items depth _)

theorem follows_parseItems {fuel : Nat} (h : FollowsAt fuel) (depth : Nat) (items : List Value) :
    Follows (parseItems (fuel + 1) depth items) (Parser.parseItems (fuel + 1) depth items) := by
  unfold parseItems Parser.parseItems
  apply follows_bind follows_skipWhitespace
  intro _
  apply follows_bind (h.value _)
  intro value
  exact follows_separator _ _ (h.items depth _)

theorem followsAt (fuel : Nat) : FollowsAt fuel := by
  induction fuel with
  | zero =>
    refine ⟨fun _ => ?_, fun _ => ?_, fun _ _ => ?_, fun _ => ?_, fun _ _ => ?_⟩
    · unfold parseValue Parser.parseValue
      exact follows_outOfFuel
    · unfold parseObject Parser.parseObject
      exact follows_outOfFuel
    · unfold parseMembers Parser.parseMembers
      exact follows_outOfFuel
    · unfold parseArray Parser.parseArray
      exact follows_outOfFuel
    · unfold parseItems Parser.parseItems
      exact follows_outOfFuel
  | succ fuel ih =>
    exact ⟨follows_parseValue ih, follows_parseObject ih, follows_parseMembers ih,
      follows_parseArray ih, follows_parseItems ih⟩

theorem follows_parseDocument : Follows parseDocument Parser.parseDocument := by
  unfold parseDocument Parser.parseDocument
  apply follows_bind follows_skipWhitespace
  intro _
  apply follows_bind follows_remaining
  intro n
  apply follows_bind ((followsAt _).value 0)
  intro value
  apply follows_bind follows_skipWhitespace
  intro _
  apply follows_bind follows_atEnd
  exact fun _ => follows_ite (follows_pure value) follows_refuse

end OakBarrels.Json.LoggedParser
