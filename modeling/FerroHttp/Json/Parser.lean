import FerroHttp.Json.Total
import FerroHttp.Lib.Cursor

/-!
# Json.Parser — the parser and its position

The parser once more, with the position that the code keeps: the bytes of the whole text
never change, and every function reads and moves one shared position. A slice out of range
and an overflow panic; a loop may have one iteration more than there are bytes left; and
`frames` says how many calls of `parseValue` may be active at a time.
-/

namespace FerroHttp

namespace Json

namespace Parser

open Exec Text Cursor Scan

variable (bytes : Bytes)

/-- The error at the current position. -/
def err {α : Type} (kind : JsonErrorKind) : Scan JsonError α := fail fun pos => ⟨kind, pos⟩

def skipWs : Scan JsonError Unit := advanceWhile bytes isWs

/-- Consume one given byte. -/
def expect (b : UInt8) : Scan JsonError Unit := do
  let next ← peek bytes
  let pos ← position
  if next == some b then advance 1
  else if bytes.length ≤ pos then err .unexpectedEnd
  else err .unexpectedByte

/-- A `u16` operation whose exact result is `n`. -/
def u16 (n : Nat) : Scan JsonError Nat := checked (if n < 0x10000 then .ok n else .panic)

/-- The remaining digits of a four-digit escape. -/
def readHex : Nat → Nat → Scan JsonError Nat
  | 0, value => pure value
  | k + 1, value => do
    match ← peek bytes with
    | none => err .unexpectedEnd
    | some b =>
      match hexDigit b with
      | none => err .invalidUnicode
      | some digit => do
        let value ← u16 (value * 16 + digit)
        advance 1
        readHex k value

def readHex4 : Scan JsonError Nat := readHex bytes 4 0

/-- The scalar value of a `\u` escape: a high surrogate takes a second escape. -/
def unicodeScalar : Scan JsonError Nat := do
  let first ← readHex4 bytes
  if 0xd800 ≤ first ∧ first ≤ 0xdbff then do
    let slash ← peek bytes
    if slash != some 0x5c then err .invalidUnicode
    else do
      advance 1
      let u ← peek bytes
      if u != some 0x75 then err .invalidUnicode
      else do
        advance 1
        let low ← readHex4 bytes
        if 0xdc00 ≤ low ∧ low ≤ 0xdfff then
          pure (0x10000 + ((first - 0xd800) * 0x400) + (low - 0xdc00))
        else err .invalidUnicode
  else if 0xdc00 ≤ first ∧ first ≤ 0xdfff then err .invalidUnicode
  else pure first

def parseUnicodeEscape (out : String) : Scan JsonError String := do
  let scalar ← unicodeScalar bytes
  match charFromU32 scalar with
  | none => err .invalidUnicode
  | some ch => pure (out.push ch)

/-- What follows a backslash. -/
def parseEscape (out : String) : Scan JsonError String := do
  match ← peek bytes with
  | none => err .unexpectedEnd
  | some e => do
    advance 1
    if e == 0x22 then pure (out.push '"')
    else if e == 0x5c then pure (out.push '\\')
    else if e == 0x2f then pure (out.push '/')
    else if e == 0x62 then pure (out.push '\x08')
    else if e == 0x66 then pure (out.push '\x0c')
    else if e == 0x6e then pure (out.push '\n')
    else if e == 0x72 then pure (out.push '\r')
    else if e == 0x74 then pure (out.push '\t')
    else if e == 0x75 then parseUnicodeEscape bytes out
    else err .invalidEscape

/-- One character of a string, or its end. -/
def stringStep (out : String) : Scan JsonError (Flow String String) := do
  match ← peek bytes with
  | none => err .unexpectedEnd
  | some b => do
    advance 1
    if b == 0x22 then pure (.done out)
    else if b == 0x5c then do
      let out ← parseEscape bytes out
      pure (.again out)
    else if b < 0x20 then err .invalidString
    else do
      -- the sequence is decoded from its first byte, which has just been consumed
      let pos ← position
      let start := pos - 1
      let len := utf8Len b
      if len = 0 ∨ bytes.length < start + len then err .invalidString
      else do
        let chunk ← checked (slice bytes start (start + len))
        match fromUtf8 chunk with
        | none => err .invalidString
        | some s => do
          moveTo (start + len)
          pure (.again (out ++ s))

def parseString : Scan JsonError String := do
  expect bytes 0x22
  iterateTo bytes.length (stringStep bytes) ""

/-- The literals, compared with the slice from the position on. -/
def parseBool : Scan JsonError JsonValue := do
  let pos ← position
  let rest ← checked (sliceFrom bytes pos)
  if (utf8 "true").isPrefixOf rest then do
    advance 4
    pure (.bool true)
  else if (utf8 "false").isPrefixOf rest then do
    advance 5
    pure (.bool false)
  else err .unexpectedByte

def parseNull : Scan JsonError JsonValue := do
  let pos ← position
  let rest ← checked (sliceFrom bytes pos)
  if (utf8 "null").isPrefixOf rest then do
    advance 4
    pure .null
  else err .unexpectedByte

/-- At least one digit. -/
def consumeDigits : Scan JsonError Unit := do
  let start ← position
  advanceWhile bytes isAsciiDigit
  let pos ← position
  if pos == start then err .invalidNumber else pure ()

/-- Consume the sign of a number, if it has one. -/
def skipMinus : Scan JsonError Unit := do
  let next ← peek bytes
  if next == some 0x2d then advance 1 else pure ()

/-- Consume the fraction of a number, if it has one. -/
def skipFraction : Scan JsonError Unit := do
  let next ← peek bytes
  if next == some 0x2e then do
    advance 1
    consumeDigits bytes
  else pure ()

/-- Consume the exponent of a number, if it has one. -/
def skipExponent : Scan JsonError Unit := do
  let next ← peek bytes
  if next == some 0x65 || next == some 0x45 then do
    advance 1
    let sign ← peek bytes
    if sign == some 0x2b || sign == some 0x2d then do
      advance 1
      consumeDigits bytes
    else consumeDigits bytes
  else pure ()

/-- The exponent with which a number ends. -/
def readExponent (exponent : Bytes) : Option Int :=
  match parseExponent exponent.length exponent with
  | .ok (value, []) => some value
  | _ => none

/-- The words among the numbers, in letters of either case. -/
def readWord (word : Bytes) : Option Float :=
  if eqIgnoreAsciiCase word (utf8 "inf") || eqIgnoreAsciiCase word (utf8 "infinity") then
    some (.ofModel (.pack (.infinity .positive)))
  else if eqIgnoreAsciiCase word (utf8 "nan") then some (.ofModel (.pack .notANumber))
  else none

/-- `str::parse::<f64>`: a sign, then digits around a point with an exponent, or a word. -/
def f64FromStr (text : String) : Option Float :=
  let negative := (utf8 text).head? == some 0x2d
  let number := if negative || (utf8 text).head? == some 0x2b then (utf8 text).tail else utf8 text
  let integer := number.takeWhile isAsciiDigit
  let rest := number.dropWhile isAsciiDigit
  let point := rest.head? == some 0x2e
  let fraction := if point then rest.tail.takeWhile isAsciiDigit else []
  let exponent := if point then rest.tail.dropWhile isAsciiDigit else rest
  if integer.isEmpty && fraction.isEmpty then
    (readWord number).map fun x => if negative then -x else x
  else (readExponent exponent).map (parseF64 negative integer fraction)

def parseNumber : Scan JsonError JsonValue := do
  let start ← position
  skipMinus bytes
  consumeDigits bytes
  skipFraction bytes
  skipExponent bytes
  let pos ← position
  let text ← checked (slice bytes start pos)
  match fromUtf8 text with
  | none => err .invalidNumber
  | some text =>
    match f64FromStr text with
    | none => fail fun _ => ⟨.invalidNumber, start⟩
    | some x => pure (.number x)

/-- What follows a member or an item: a comma and the next one, or the closing byte. -/
def closing {σ : Type} (close : UInt8) (next : σ) (value : JsonValue) :
    Scan JsonError (Flow σ JsonValue) := do
  skipWs bytes
  match ← peek bytes with
  | none => err .unexpectedEnd
  | some b =>
    if b == 0x2c then do
      advance 1
      pure (.again next)
    else if b == close then do
      advance 1
      pure (.done value)
    else err .unexpectedByte

/-- One member of an object, and whether another one follows. -/
def memberStep (parseItem : Scan JsonError JsonValue) (members : List (String × JsonValue)) :
    Scan JsonError (Flow (List (String × JsonValue)) JsonValue) := do
  skipWs bytes
  let next ← peek bytes
  if next != some 0x22 then err .unexpectedByte
  else do
    let key ← parseString bytes
    skipWs bytes
    expect bytes 0x3a
    skipWs bytes
    let value ← parseItem
    let members := members ++ [(key, value)]
    closing bytes 0x7d members (.object members)

def parseObject (parseItem : Nat → Scan JsonError JsonValue) (depth : Nat) :
    Scan JsonError JsonValue :=
  if maxDepth < depth + 1 then err .depthExceeded
  else do
    expect bytes 0x7b
    skipWs bytes
    let next ← peek bytes
    if next == some 0x7d then do
      advance 1
      pure (.object [])
    else iterateTo bytes.length (memberStep bytes (parseItem (depth + 1))) []

/-- One item of an array, and whether another one follows. -/
def itemStep (parseItem : Scan JsonError JsonValue) (items : List JsonValue) :
    Scan JsonError (Flow (List JsonValue) JsonValue) := do
  skipWs bytes
  let item ← parseItem
  let items := items ++ [item]
  closing bytes 0x5d items (.array items)

def parseArray (parseItem : Nat → Scan JsonError JsonValue) (depth : Nat) :
    Scan JsonError JsonValue :=
  if maxDepth < depth + 1 then err .depthExceeded
  else do
    expect bytes 0x5b
    skipWs bytes
    let next ← peek bytes
    if next == some 0x5d then do
      advance 1
      pure (.array [])
    else iterateTo bytes.length (itemStep bytes (parseItem (depth + 1))) []

/-- A value; `parseItem` is the nested call. -/
def parseValueWith (parseItem : Nat → Scan JsonError JsonValue) (depth : Nat) :
    Scan JsonError JsonValue := do
  match ← peek bytes with
  | none => err .unexpectedEnd
  | some b =>
    if b == 0x7b then parseObject bytes parseItem depth
    else if b == 0x5b then parseArray bytes parseItem depth
    else if b == 0x22 then do
      let s ← parseString bytes
      pure (.string s)
    else if b == 0x74 || b == 0x66 then parseBool bytes
    else if b == 0x6e then parseNull bytes
    else if b == 0x2d || isAsciiDigit b then parseNumber bytes
    else err .unexpectedByte

/-- A value at a depth, with at most `frames` calls active at a time. -/
def parseValue : Nat → Nat → Scan JsonError JsonValue
  | 0, _ => fun _ => .diverge
  | frames + 1, depth => parseValueWith bytes (parseValue frames) depth

/-- A whole document, without trailing data. -/
def parseDocument (frames : Nat) : Scan JsonError JsonValue := do
  skipWs bytes
  let value ← parseValue bytes frames 0
  skipWs bytes
  let pos ← position
  if pos != bytes.length then err .trailingData else pure value

/-- A whole text, from its first byte. -/
def parse (frames : Nat) (input : String) : Outcome (JsonError × Nat) (JsonValue × Nat) :=
  parseDocument (utf8 input) frames 0

end Parser

end Json

end FerroHttp
