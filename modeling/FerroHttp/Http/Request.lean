import FerroHttp.Http.Message

/-!
# Http.Request — the incremental request parser

`parseWith` runs against a growing buffer: it asks for more bytes, rejects, or
returns one request with the number of bytes it consumed. Every `usize` addition
goes through the build's machine addition and every subslice is bounds-checked,
so that overflow and out-of-range slices are behaviours of the model and not
assumptions about it.

The order of the checks is the parser's own: head terminator, head size, bare
CR, request line, header lines, `Host`, body framing, body.
-/

namespace FerroHttp

open Exec Text

/-! ## Limits -/

/-- Maximum size of the request line plus header block. -/
def maxHeadBytes : Nat := 16 * 1024

/-- Maximum number of header fields. -/
def maxHeaders : Nat := 64

/-- Maximum size of the request target. -/
def maxTargetBytes : Nat := 8 * 1024

/-- Default maximum size of a request body. -/
def maxBodyBytes : Nat := 1024 * 1024

/-- Maximum length of an unterminated chunk-size or trailer line. -/
def maxChunkLineBytes : Nat := 8 * 1024

inductive ParseError where
  | headTooLarge
  | tooManyHeaders
  | malformedRequestLine
  | unknownMethod
  | targetTooLong
  | unsupportedVersion
  | bareCr
  | badHost
  | malformedHeader
  | badContentLength
  | conflictingFraming
  | unsupportedTransferEncoding
  | malformedChunk
  | bodyTooLarge
deriving DecidableEq, Repr

/-- A successful parse attempt: more bytes are needed, or a request is complete
and `consumed` bytes may be dropped from the buffer. -/
inductive Parsed where
  | partialRequest
  | complete (request : Request) (consumed : Nat)
deriving DecidableEq, Repr

/-! ## Scanning -/

/-- Token characters (valid in a method or a field name). -/
def isTokenByte (b : UInt8) : Bool :=
  isAsciiAlphanumeric b || (utf8 "!#$%&'*+-.^_`|~").contains b

/-- The first occurrence of `needle` in `haystack`. -/
def findSubslice (haystack needle : Bytes) : Option Nat :=
  if needle.isEmpty || haystack.length < needle.length then none
  else (Search.windows needle.length haystack).findIdx? (· == needle)

/-- The lines of a block, split on CRLF. `fuel` bounds their number. -/
def splitCrlfLines : Nat → Bytes → List Bytes
  | 0, _ => []
  | fuel + 1, rest =>
    match findSubslice rest crlf with
    | some i => rest.take i :: splitCrlfLines fuel (rest.drop (i + 2))
    | none => [rest]

/-- Each line consumes a CRLF, so one more line than bytes is always enough. -/
def splitCrlf (block : Bytes) : List Bytes := splitCrlfLines (block.length + 1) block

/-- Optional whitespace: SP or HTAB. -/
def isOws (b : UInt8) : Bool := b == sp || b == htab

def trimOws (bytes : Bytes) : Bytes := trimWith isOws bytes

/-- A CR that is not immediately followed by an LF. -/
def hasBareCr : Bytes → Bool
  | [] => false
  | b :: rest => (b == cr && rest.head? != some lf) || hasBareCr rest

/-! ## Request line -/

/-- Parse ASCII digits into a `u32`, saturating on overflow. -/
def asciiToU32Saturating (bytes : Bytes) : Nat :=
  Numeral.saturating (2 ^ 32 - 1) 10 0 (bytes.map fun b => (b - 0x30).toNat)

def parseVersion (tok : Bytes) : Except ParseError Version :=
  if !(utf8 "HTTP/").isPrefixOf tok then .error .malformedRequestLine
  else
    let rest := tok.drop (utf8 "HTTP/").length
    match rest.findIdx? (· == dot) with
    | none => .error .malformedRequestLine
    | some i =>
      let major := rest.take i
      let minor := rest.drop (i + 1)
      if major.isEmpty || minor.isEmpty || !major.all isAsciiDigit || !minor.all isAsciiDigit then
        .error .malformedRequestLine
      else if asciiToU32Saturating major ≠ 1 then .error .unsupportedVersion
      else if asciiToU32Saturating minor = 0 then .ok .http10
      else .ok .http11

def parseMethod (tok : Bytes) : Except ParseError Method :=
  match Method.fromBytes tok with
  | some m => .ok m
  | none =>
    -- a well-formed token that names no method is "not implemented", not malformed
    if !tok.isEmpty && tok.all isTokenByte then .error .unknownMethod
    else .error .malformedRequestLine

def parseTarget (tok : Bytes) : Except ParseError String :=
  if maxTargetBytes < tok.length then .error .targetTooLong
  else
    match fromUtf8 tok with
    | none => .error .malformedRequestLine
    | some target => if target = "" then .error .malformedRequestLine else .ok target

def parseRequestLine (line : Bytes) : Except ParseError (Method × String × Version) :=
  match splitn (· == sp) 3 line with
  | methodTok :: targetTok :: versionTok :: _ =>
    if versionTok.contains sp then .error .malformedRequestLine
    else do
      let method ← parseMethod methodTok
      let target ← parseTarget targetTok
      let version ← parseVersion versionTok
      .ok (method, target, version)
  | _ => .error .malformedRequestLine

/-! ## Header fields -/

def parseHeaderLine (line : Bytes) : Except ParseError Header :=
  match line.findIdx? (· == colon) with
  | none => .error .malformedHeader
  | some i =>
    let name := line.take i
    if name.isEmpty || !name.all isTokenByte then .error .malformedHeader
    else
      let value := trimOws (line.drop (i + 1))
      match fromUtf8 name, fromUtf8 value with
      | some name, some value => .ok ⟨name, value⟩
      | _, _ => .error .malformedHeader

/-- The header loop: `headers` are the fields read so far. -/
def parseHeaders (headers : List Header) : List Bytes → Except ParseError (List Header)
  | [] => .ok headers
  | line :: lines =>
    if line.isEmpty then .error .malformedHeader
    else if maxHeaders ≤ headers.length then .error .tooManyHeaders
    else do
      let header ← parseHeaderLine line
      parseHeaders (headers ++ [header]) lines

/-- Non-empty and free of whitespace and control bytes. -/
def isValidHostValue (host : String) : Bool :=
  !(utf8 host).isEmpty && !(utf8 host).any fun b => b ≤ 0x20 || b == 0x7f

def validateHost (headers : List Header) (version : Version) : Except ParseError Unit :=
  match headers.filter (Header.named "host") with
  | _ :: _ :: _ => .error .badHost
  | [h] => if isValidHostValue h.value then .ok () else .error .badHost
  | [] => if version = .http11 then .error .badHost else .ok ()

/-- How the request body is framed. -/
inductive Framing where
  | fixed (len : Nat)
  | chunked
deriving DecidableEq, Repr

def bodyFraming (t : Target) (headers : List Header) : Except ParseError Framing :=
  let transferEncodings := headers.filter (Header.named "transfer-encoding")
  let contentLengths := headers.filter (Header.named "content-length")
  match transferEncodings, contentLengths with
  | _ :: _, _ :: _ => .error .conflictingFraming
  | [h], [] =>
    if eqIgnoreAsciiCase (utf8 (trim h.value)) (utf8 "chunked") then .ok .chunked
    else .error .unsupportedTransferEncoding
  | _ :: _ :: _, [] => .error .unsupportedTransferEncoding
  | [], _ :: _ :: _ => .error .badContentLength
  | [], [h] =>
    let raw := trim h.value
    if raw = "" || !(utf8 raw).all isAsciiDigit then .error .badContentLength
    else
      match parseUnsigned t.modulus raw with
      | some len => .ok (.fixed len)
      | none => .error .badContentLength
  | [], [] => .ok (.fixed 0)

/-- Everything read from the head: the request line, the fields, the framing. -/
structure Head where
  method : Method
  target : String
  version : Version
  headers : List Header
  framing : Framing
deriving DecidableEq, Repr

/-- The request with this head and a given body. -/
def Head.request (h : Head) (body : Bytes) : Request :=
  ⟨h.method, h.target, h.version, h.headers, body⟩

/-- The checks on a head whose terminator has arrived; `head` includes the
terminating blank line. -/
def parseHead (t : Target) (head : Bytes) : Except ParseError Head :=
  if hasBareCr head then .error .bareCr
  else
    match splitCrlf (head.take (head.length - 4)) with
    | [] => .error .malformedRequestLine
    | requestLine :: lines => do
      let (method, target, version) ← parseRequestLine requestLine
      let headers ← parseHeaders [] lines
      validateHost headers version
      let framing ← bodyFraming t headers
      .ok ⟨method, target, version, headers, framing⟩

/-! ## Chunked bodies -/

inductive ChunkOutcome where
  | partialBody
  | complete (body : Bytes) (consumed : Nat)
deriving DecidableEq, Repr

def hexDigit (b : UInt8) : Option Nat :=
  if 0x30 ≤ b && b ≤ 0x39 then some (b - 0x30).toNat
  else if 0x61 ≤ b && b ≤ 0x66 then some ((b - 0x61).toNat + 10)
  else if 0x41 ≤ b && b ≤ 0x46 then some ((b - 0x41).toNat + 10)
  else none

/-- The digit loop of a chunk size: `value` is what has been read so far. -/
def parseHexDigits (t : Target) (value : Nat) : Bytes → Except ParseError Nat
  | [] => .ok value
  | b :: bs =>
    match hexDigit b with
    | none => .error .malformedChunk
    | some digit =>
      if value * 16 < t.modulus ∧ value * 16 + digit < t.modulus then
        parseHexDigits t (value * 16 + digit) bs
      else .error .malformedChunk

/-- A hexadecimal chunk size, rejecting empty or overflowing values. -/
def parseHex (t : Target) (bytes : Bytes) : Except ParseError Nat :=
  if bytes.isEmpty then .error .malformedChunk else parseHexDigits t 0 bytes

/-- The size part of a chunk-size line: what precedes the extensions. -/
def sizeToken (line : Bytes) : Bytes :=
  match line.findIdx? (· == semicolon) with
  | some i => line.take i
  | none => line

/-- One iteration of the trailer loop, at `tpos`. -/
def trailerStep (t : Target) (buf body : Bytes) (tpos : Nat) :
    Outcome ParseError (Flow Nat ChunkOutcome) := do
  let rest ← sliceFrom buf tpos
  match findSubslice rest crlf with
  | none =>
    if maxChunkLineBytes < buf.length - tpos then .err .malformedChunk
    else .ok (.done .partialBody)
  | some trailerLen =>
    if trailerLen = 0 then do
      let consumed ← t.add tpos 2
      .ok (.done (.complete body consumed))
    else do
      let lineLen ← t.add trailerLen 2
      let tpos ← t.add tpos lineLen
      .ok (.again tpos)

/-- The final chunk: skip trailers up to the terminating blank line. -/
def skipTrailers (t : Target) (buf body : Bytes) (start : Nat) : Outcome ParseError ChunkOutcome :=
  runLoop (trailerStep t buf body) (buf.length + 1) start

/-- Where the chunk loop stands: the position of the next size line, and the
body decoded so far. -/
structure ChunkState where
  pos : Nat
  body : Bytes
deriving DecidableEq, Repr

/-- The data of a chunk of `size > 0` bytes that starts at `dataStart`. -/
def chunkData (t : Target) (buf : Bytes) (maxBody : Nat) (body : Bytes) (dataStart size : Nat) :
    Outcome ParseError (Flow ChunkState ChunkOutcome) := do
  let dataEnd ← t.add dataStart size
  let chunkEnd ← t.add dataEnd 2
  if buf.length < chunkEnd then .ok (.done .partialBody)
  else do
    let terminator ← slice buf dataEnd chunkEnd
    if terminator ≠ crlf then .err .malformedChunk
    else do
      let data ← slice buf dataStart dataEnd
      let body := body ++ data
      if maxBody < body.length then .err .bodyTooLarge
      else .ok (.again ⟨chunkEnd, body⟩)

/-- One iteration of the chunk loop. -/
def chunkStep (t : Target) (buf : Bytes) (maxBody : Nat) (s : ChunkState) :
    Outcome ParseError (Flow ChunkState ChunkOutcome) := do
  let rest ← sliceFrom buf s.pos
  match findSubslice rest crlf with
  | none =>
    -- an unterminated size line must not buffer without bound
    if maxChunkLineBytes < buf.length - s.pos then .err .malformedChunk
    else .ok (.done .partialBody)
  | some lineLen => do
    let lineEnd ← t.add s.pos lineLen
    let sizeLine ← slice buf s.pos lineEnd
    let size ← Outcome.ofExcept (parseHex t (sizeToken sizeLine))
    let dataStart ← t.add lineEnd 2
    if size = 0 then do
      let outcome ← skipTrailers t buf s.body dataStart
      .ok (.done outcome)
    else chunkData t buf maxBody s.body dataStart size

/-- Decode a chunked transfer body; `buf` begins at the first size line. -/
def decodeChunked (t : Target) (buf : Bytes) (maxBody : Nat) : Outcome ParseError ChunkOutcome :=
  runLoop (chunkStep t buf maxBody) (buf.length + 1) ⟨0, []⟩

/-! ## The parser -/

/-- The body of a request whose head `h` ends at `headEnd`. -/
def parseBody (t : Target) (buf : Bytes) (maxBody headEnd : Nat) (h : Head) :
    Outcome ParseError Parsed :=
  match h.framing with
  | .fixed len =>
    if maxBody < len then .err .bodyTooLarge
    else do
      let total ← t.add headEnd len
      if buf.length < total then .ok .partialRequest
      else do
        let body ← slice buf headEnd total
        .ok (.complete (h.request body) total)
  | .chunked => do
    let rest ← sliceFrom buf headEnd
    match ← decodeChunked t rest maxBody with
    | .partialBody => .ok .partialRequest
    | .complete body consumed => do
      let total ← t.add headEnd consumed
      .ok (.complete (h.request body) total)

/-- Attempt to parse a single request from the front of `buf`, capping its body
at `maxBody` bytes. -/
def parseWith (t : Target) (buf : Bytes) (maxBody : Nat) : Outcome ParseError Parsed :=
  match findSubslice buf (crlf ++ crlf) with
  | none => if maxHeadBytes < buf.length then .err .headTooLarge else .ok .partialRequest
  | some i => do
    let headEnd ← t.add i 4
    if maxHeadBytes < headEnd - 4 then .err .headTooLarge
    else do
      let head ← slice buf 0 headEnd
      let h ← Outcome.ofExcept (parseHead t head)
      parseBody t buf maxBody headEnd h

/-! ## Expectations -/

/-- What an `Expect` field requires of the server before the body is read. -/
inductive ExpectAction where
  | none
  | continue
  | unsupported
deriving DecidableEq, Repr

/-- The first `Expect` field among the header lines decides. -/
def expectOfLines : List Bytes → ExpectAction
  | [] => .none
  | line :: lines =>
    match line.findIdx? (· == colon) with
    | none => expectOfLines lines
    | some i =>
      if eqIgnoreAsciiCase (line.take i) (utf8 "expect") then
        if eqIgnoreAsciiCase (trimOws (line.drop (i + 1))) (utf8 "100-continue") then .continue
        else .unsupported
      else expectOfLines lines

/-- Inspect a possibly head-complete buffer for an `Expect` field. -/
def expectAction (buf : Bytes) : ExpectAction :=
  match findSubslice buf (crlf ++ crlf) with
  | none => .none
  | some headEnd => expectOfLines (splitCrlf (buf.take headEnd)).tail

end FerroHttp
