import FerroHttp.Lib.Binary64
import FerroHttp.Lib.Exec
import FerroHttp.Lib.Text

/-!
# Json — the configuration parser

A recursive descent over the bytes of a text. A parser takes the bytes that are left and
returns a value with the bytes behind it; `n` is the length of the whole text, so that the
offset of an error is `n` minus what is left. Numbers are binary64.

`levels` is how many arrays and objects may still be opened, `maxDepth` at the top.
-/

namespace FerroHttp

open Exec Text

/-- The maximum nesting depth of arrays and objects. -/
def maxDepth : Nat := 64

/-- A parsed value; the members of an object are in document order. -/
inductive JsonValue where
  | null
  | bool (b : Bool)
  | number (n : Float)
  | string (s : String)
  | array (items : List JsonValue)
  | object (members : List (String × JsonValue))

namespace JsonValue

/-- Look up a member by key: the first one of that name. -/
def get (value : JsonValue) (key : String) : Option JsonValue :=
  match value with
  | .object members => (members.find? fun member => member.1 == key).map (·.2)
  | _ => none

def asBool : JsonValue → Option Bool
  | .bool b => some b
  | _ => none

def asStr : JsonValue → Option String
  | .string s => some s
  | _ => none

def asArray : JsonValue → Option (List JsonValue)
  | .array items => some items
  | _ => none

/-- A non-negative integer: the truncation must convert back to the number. -/
def asU64 : JsonValue → Option Nat
  | .number n =>
    if Binary64.ofNat 0 ≤ n ∧ n ≤ Binary64.ofNat (u64Values - 1) then
      let truncated := n.toUInt64
      if truncated.toFloat == n then some truncated.toNat else none
    else none
  | _ => none

end JsonValue

inductive JsonErrorKind where
  | unexpectedEnd
  | unexpectedByte
  | invalidNumber
  | invalidString
  | invalidEscape
  | invalidUnicode
  | depthExceeded
  | trailingData
deriving DecidableEq, Repr

/-- Why parsing failed, and where. -/
structure JsonError where
  kind : JsonErrorKind
  offset : Nat
deriving DecidableEq, Repr

def JsonErrorKind.message : JsonErrorKind → String
  | .unexpectedEnd => "unexpected end of input"
  | .unexpectedByte => "unexpected byte"
  | .invalidNumber => "invalid number"
  | .invalidString => "invalid string"
  | .invalidEscape => "invalid escape sequence"
  | .invalidUnicode => "invalid \\u escape"
  | .depthExceeded => "nesting too deep"
  | .trailingData => "trailing data after value"

/-- The `Display` of an error. -/
def JsonError.display (e : JsonError) : String :=
  e.kind.message ++ " at byte " ++ toString e.offset

/-! ## The parser -/

namespace Json

/-- The error at the current position. -/
def err {α : Type} (n : Nat) (rest : Bytes) (kind : JsonErrorKind) : Outcome JsonError α :=
  .err ⟨kind, n - rest.length⟩

def isWs (b : UInt8) : Bool := b == 0x20 || b == 0x09 || b == 0x0a || b == 0x0d

def skipWs (rest : Bytes) : Bytes := rest.dropWhile isWs

/-- Consume one given byte. -/
def expect (n : Nat) (b : UInt8) : Bytes → Outcome JsonError Bytes
  | [] => err n [] .unexpectedEnd
  | c :: tail => if c == b then .ok tail else err n (c :: tail) .unexpectedByte

/-- The length of a UTF-8 sequence from its first byte, 0 if it starts none. -/
def utf8Len (lead : UInt8) : Nat :=
  if lead ≤ 0x7f then 1
  else if 0xc0 ≤ lead && lead ≤ 0xdf then 2
  else if 0xe0 ≤ lead && lead ≤ 0xef then 3
  else if 0xf0 ≤ lead && lead ≤ 0xf7 then 4
  else 0

/-- `char::to_digit(16)` of a byte. -/
def hexDigit (b : UInt8) : Option Nat :=
  if 0x30 ≤ b && b ≤ 0x39 then some (b - 0x30).toNat
  else if 0x61 ≤ b && b ≤ 0x66 then some ((b - 0x61).toNat + 10)
  else if 0x41 ≤ b && b ≤ 0x46 then some ((b - 0x41).toNat + 10)
  else none

/-- The remaining digits of a four-digit escape. -/
def readHex (n : Nat) : Nat → Nat → Bytes → Outcome JsonError (Nat × Bytes)
  | 0, value, rest => .ok (value, rest)
  | _ + 1, _, [] => err n [] .unexpectedEnd
  | k + 1, value, b :: tail =>
    match hexDigit b with
    | none => err n (b :: tail) .invalidUnicode
    | some digit => readHex n k (value * 16 + digit) tail

def readHex4 (n : Nat) (rest : Bytes) : Outcome JsonError (Nat × Bytes) := readHex n 4 0 rest

/-- `char::from_u32`. -/
def charFromU32 (scalar : Nat) : Option Char :=
  if scalar.isValidChar then some (Char.ofNat scalar) else none

/-- The scalar value of a `\u` escape: a high surrogate takes a second escape. -/
def unicodeScalar (n : Nat) (rest : Bytes) : Outcome JsonError (Nat × Bytes) := do
  let (first, rest) ← readHex4 n rest
  if 0xd800 ≤ first ∧ first ≤ 0xdbff then
    match rest with
    | [] => err n rest .invalidUnicode
    | b :: tail =>
      if b != 0x5c then err n rest .invalidUnicode
      else
        match tail with
        | [] => err n tail .invalidUnicode
        | u :: tail' =>
          if u != 0x75 then err n tail .invalidUnicode
          else do
            let (low, rest) ← readHex4 n tail'
            if 0xdc00 ≤ low ∧ low ≤ 0xdfff then
              .ok (0x10000 + ((first - 0xd800) * 0x400) + (low - 0xdc00), rest)
            else err n rest .invalidUnicode
  else if 0xdc00 ≤ first ∧ first ≤ 0xdfff then err n rest .invalidUnicode
  else .ok (first, rest)

def parseUnicodeEscape (n : Nat) (out : String) (rest : Bytes) :
    Outcome JsonError (String × Bytes) := do
  let (scalar, rest) ← unicodeScalar n rest
  match charFromU32 scalar with
  | none => err n rest .invalidUnicode
  | some ch => .ok (out.push ch, rest)

/-- What follows a backslash. -/
def parseEscape (n : Nat) (out : String) : Bytes → Outcome JsonError (String × Bytes)
  | [] => err n [] .unexpectedEnd
  | e :: tail =>
    if e == 0x22 then .ok (out.push '"', tail)
    else if e == 0x5c then .ok (out.push '\\', tail)
    else if e == 0x2f then .ok (out.push '/', tail)
    else if e == 0x62 then .ok (out.push '\x08', tail)
    else if e == 0x66 then .ok (out.push '\x0c', tail)
    else if e == 0x6e then .ok (out.push '\n', tail)
    else if e == 0x72 then .ok (out.push '\r', tail)
    else if e == 0x74 then .ok (out.push '\t', tail)
    else if e == 0x75 then parseUnicodeEscape n out tail
    else err n tail .invalidEscape

/-- One character of a string, or its end. -/
def stringStep (n : Nat) (s : String × Bytes) :
    Outcome JsonError (Flow (String × Bytes) (String × Bytes)) :=
  match s.2 with
  | [] => err n [] .unexpectedEnd
  | b :: tail =>
    if b == 0x22 then .ok (.done (s.1, tail))
    else if b == 0x5c then do
      let next ← parseEscape n s.1 tail
      .ok (.again next)
    -- raw control characters are not allowed
    else if b < 0x20 then err n tail .invalidString
    else
      let len := utf8Len b
      if len = 0 ∨ s.2.length < len then err n tail .invalidString
      else
        match fromUtf8 (s.2.take len) with
        | none => err n tail .invalidString
        | some chunk => .ok (.again (s.1 ++ chunk, s.2.drop len))

def parseString (n : Nat) (rest : Bytes) : Outcome JsonError (String × Bytes) := do
  let rest ← expect n 0x22 rest
  runLoop (stringStep n) (rest.length + 1) ("", rest)

/-- A literal, if the text starts with it. -/
def parseBool (n : Nat) (rest : Bytes) : Outcome JsonError (JsonValue × Bytes) :=
  if (utf8 "true").isPrefixOf rest then .ok (.bool true, rest.drop 4)
  else if (utf8 "false").isPrefixOf rest then .ok (.bool false, rest.drop 5)
  else err n rest .unexpectedByte

def parseNull (n : Nat) (rest : Bytes) : Outcome JsonError (JsonValue × Bytes) :=
  if (utf8 "null").isPrefixOf rest then .ok (.null, rest.drop 4)
  else err n rest .unexpectedByte

/-- At least one digit. -/
def consumeDigits (n : Nat) (rest : Bytes) : Outcome JsonError (Bytes × Bytes) :=
  let digits := rest.takeWhile isAsciiDigit
  let rest' := rest.dropWhile isAsciiDigit
  if digits.isEmpty then err n rest' .invalidNumber else .ok (digits, rest')

/-- `str::parse::<f64>` of a decimal number in its parts, rounded to nearest, ties to
even. -/
def parseF64 (negative : Bool) (integer fraction : Bytes) (exponent : Int) : Float :=
  let digits := decimal (integer ++ fraction)
  let scale := exponent - fraction.length
  let magnitude : Float :=
    if scale = 0 then Binary64.ofNat digits else .ofModel (.ofScientific digits scale)
  if negative then -magnitude else magnitude

/-- The fraction of a number, if it has one. -/
def parseFraction (n : Nat) (rest : Bytes) : Outcome JsonError (Bytes × Bytes) :=
  match rest with
  | b :: tail => if b == 0x2e then consumeDigits n tail else .ok ([], rest)
  | [] => .ok ([], rest)

/-- The exponent of a number, if it has one. -/
def parseExponent (n : Nat) (rest : Bytes) : Outcome JsonError (Int × Bytes) :=
  match rest with
  | b :: tail =>
    if b == 0x65 || b == 0x45 then
      match tail with
      | sign :: digits =>
        if sign == 0x2b || sign == 0x2d then do
          let (digits, rest) ← consumeDigits n digits
          .ok (if sign == 0x2d then -(decimal digits : Int) else decimal digits, rest)
        else do
          let (digits, rest) ← consumeDigits n tail
          .ok ((decimal digits : Int), rest)
      | [] => err n [] .invalidNumber
    else .ok (0, rest)
  | [] => .ok (0, rest)

def parseNumber (n : Nat) (rest : Bytes) : Outcome JsonError (JsonValue × Bytes) := do
  let negative := rest.head? == some 0x2d
  let (integer, rest) ← consumeDigits n (if negative then rest.tail else rest)
  let (fraction, rest) ← parseFraction n rest
  let (exponent, rest) ← parseExponent n rest
  .ok (.number (parseF64 negative integer fraction exponent), rest)

/-- What follows a member or an item: a comma and the next one, or the closing byte. -/
def closing {σ : Type} (n : Nat) (close : UInt8) (next : σ) (value : JsonValue) (rest : Bytes) :
    Outcome JsonError (Flow (σ × Bytes) (JsonValue × Bytes)) :=
  match skipWs rest with
  | [] => err n [] .unexpectedEnd
  | b :: tail =>
    if b == 0x2c then .ok (.again (next, tail))
    else if b == close then .ok (.done (value, tail))
    else err n (b :: tail) .unexpectedByte

/-- One member of an object, and whether another one follows. -/
def memberStep (n : Nat) (parseItem : Bytes → Outcome JsonError (JsonValue × Bytes))
    (s : List (String × JsonValue) × Bytes) :
    Outcome JsonError (Flow (List (String × JsonValue) × Bytes) (JsonValue × Bytes)) := do
  let rest := skipWs s.2
  if rest.head? ≠ some 0x22 then err n rest .unexpectedByte
  else do
    let (key, rest) ← parseString n rest
    let rest ← expect n 0x3a (skipWs rest)
    let (value, rest) ← parseItem (skipWs rest)
    let members := s.1 ++ [(key, value)]
    closing n 0x7d members (.object members) rest

def parseObject (n : Nat) (parseItem : Bytes → Outcome JsonError (JsonValue × Bytes))
    (rest : Bytes) : Outcome JsonError (JsonValue × Bytes) := do
  let rest ← expect n 0x7b rest
  let rest := skipWs rest
  if rest.head? = some 0x7d then .ok (.object [], rest.tail)
  else runLoop (memberStep n parseItem) (rest.length + 1) ([], rest)

/-- One item of an array, and whether another one follows. -/
def itemStep (n : Nat) (parseItem : Bytes → Outcome JsonError (JsonValue × Bytes))
    (s : List JsonValue × Bytes) :
    Outcome JsonError (Flow (List JsonValue × Bytes) (JsonValue × Bytes)) := do
  let (item, rest) ← parseItem (skipWs s.2)
  let items := s.1 ++ [item]
  closing n 0x5d items (.array items) rest

def parseArray (n : Nat) (parseItem : Bytes → Outcome JsonError (JsonValue × Bytes))
    (rest : Bytes) : Outcome JsonError (JsonValue × Bytes) := do
  let rest ← expect n 0x5b rest
  let rest := skipWs rest
  if rest.head? = some 0x5d then .ok (.array [], rest.tail)
  else runLoop (itemStep n parseItem) (rest.length + 1) ([], rest)

/-- A value; `parseItem` parses one level further down, if there is one. -/
def parseValueWith (n : Nat) (parseItem : Option (Bytes → Outcome JsonError (JsonValue × Bytes)))
    (rest : Bytes) : Outcome JsonError (JsonValue × Bytes) :=
  match rest with
  | [] => err n [] .unexpectedEnd
  | b :: _ =>
    if b == 0x7b then
      match parseItem with
      | none => err n rest .depthExceeded
      | some parseItem => parseObject n parseItem rest
    else if b == 0x5b then
      match parseItem with
      | none => err n rest .depthExceeded
      | some parseItem => parseArray n parseItem rest
    else if b == 0x22 then do
      let (s, rest) ← parseString n rest
      .ok (.string s, rest)
    else if b == 0x74 || b == 0x66 then parseBool n rest
    else if b == 0x6e then parseNull n rest
    else if b == 0x2d || isAsciiDigit b then parseNumber n rest
    else err n rest .unexpectedByte

/-- A value with at most `levels` nested arrays and objects. -/
def parseValue (n : Nat) : Nat → Bytes → Outcome JsonError (JsonValue × Bytes)
  | 0 => parseValueWith n none
  | levels + 1 => parseValueWith n (some (parseValue n levels))

/-- A whole document, without trailing data. -/
def parseDocument (input : Bytes) : Outcome JsonError JsonValue := do
  let n := input.length
  let (value, rest) ← parseValue n maxDepth (skipWs input)
  let rest := skipWs rest
  if rest.isEmpty then .ok value else err n rest .trailingData

end Json

end FerroHttp
