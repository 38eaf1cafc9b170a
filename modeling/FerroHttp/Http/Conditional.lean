import FerroHttp.Http.Date
import FerroHttp.Http.Response

/-!
# Http.Conditional — preconditions and ranges

`evaluate` turns a fresh `200` into the `304`, `206` or `416` the request asks for, or
leaves it alone. Reading a date can overflow, so the result is an outcome.
-/

namespace FerroHttp

open Exec Text

/-- The first value of a response field, matched case-insensitively. -/
def Response.header (r : Response) (name : String) : Option String :=
  (r.headers.find? fun f => eqIgnoreAsciiCase (utf8 f.1) (utf8 name)).map (·.2)

/-- Copy the field called `name`, if `source` has it. -/
def copyHeader (source out : Response) (name : String) : Response :=
  match source.header name with
  | some value => out.withHeader name value
  | none => out

/-- Copy the fields called `names` that `source` has. -/
def copyHeaders (names : List String) (source target : Response) : Response :=
  names.foldl (copyHeader source) target

theorem copyHeaders_cons (n : String) (ns : List String) (source target : Response) :
    copyHeaders (n :: ns) source target = copyHeaders ns source (copyHeader source target n) := rfl

/-! ## Preconditions -/

/-- Weak entity-tag comparison: the `W/` prefix is ignored on either side. -/
def weakEq (a b : String) : Bool :=
  (stripPrefix "W/" a).getD a == (stripPrefix "W/" b).getD b

/-- The client's validators show that its cached copy is current; `If-None-Match` goes
before `If-Modified-Since`. -/
def notModified (t : Target) (request : Request) (response : Response) : Outcome Empty Bool :=
  match request.header "if-none-match" with
  | some inm =>
    pure (trim inm == "*" || (response.header "etag").any fun tag =>
      (split ',' inm).any fun c => weakEq (trim c) tag)
  | none =>
    match request.header "if-modified-since", response.header "last-modified" with
    | some ims, some lm => do
      let imsSecs ← parseHttpDate t ims
      let lmSecs ← parseHttpDate t lm
      match imsSecs, lmSecs with
      | some imsSecs, some lmSecs => pure (lmSecs ≤ imsSecs)
      | _, _ => pure false
    | _, _ => pure false

/-- A `304` with the fields it may carry, and no body. -/
def toNotModified (response : Response) : Response :=
  copyHeaders ["ETag", "Last-Modified", "Cache-Control", "Vary"] response (Response.new ⟨304⟩)

/-! ## Ranges -/

/-- A single byte range, resolved against a known length; `last` is the last byte. -/
inductive RangeOutcome where
  | satisfiable (start last : Nat)
  | unsatisfiable
deriving DecidableEq, Repr

/-- Parse a single `bytes=` range; `none` for anything else. -/
def parseSingleRange (value : String) (len : Nat) : Option RangeOutcome := do
  let spec := trim (← stripPrefix "bytes=" value)
  if spec.toList.contains ',' then none
  else
    let (first, last) ← splitOnce '-' spec
    let first := trim first
    let last := trim last
    if first.isEmpty then
      -- the last `n` bytes
      let n ← parseUnsigned u64Values last
      if n = 0 ∨ len = 0 then some .unsatisfiable
      else some (.satisfiable (len - min n len) (len - 1))
    else
      let start ← parseUnsigned u64Values first
      if len ≤ start then some .unsatisfiable
      else if last.isEmpty then some (.satisfiable start (len - 1))
      else
        let requested ← parseUnsigned u64Values last
        if requested < start then some .unsatisfiable
        else some (.satisfiable start (min requested (len - 1)))

/-- The value of a `Content-Range` field. -/
def contentRange (start last len : Nat) : String :=
  "bytes " ++ toString start ++ "-" ++ toString last ++ "/" ++ toString len

/-- The fields of a `206`. -/
def partialHead (response : Response) (start last : Nat) : Response :=
  copyHeaders ["Content-Type", "ETag", "Last-Modified"] response
    (((Response.new ⟨206⟩).withHeader "Accept-Ranges" "bytes").withHeader "Content-Range"
      (contentRange start last response.body.length))

/-- Serve a single range as `206`, or `416`; anything else is the full response. -/
def applyRange (request : Request) (response : Response) : Outcome Empty Response :=
  match request.header "range" with
  | none => pure response
  | some range =>
    match parseSingleRange range response.body.length with
    | some (.satisfiable start last) => do
      let body ← slice response.body start (last + 1)
      pure { partialHead response start last with body := body }
    | some .unsatisfiable =>
      pure ((Response.new ⟨416⟩).withHeader "Content-Range"
        ("bytes */" ++ toString response.body.length))
    | none => pure response

/-- Apply preconditions and ranges to a `200`. -/
def evaluate (t : Target) (request : Request) (response : Response) : Outcome Empty Response :=
  if response.status ≠ ⟨200⟩ then pure response
  else do
    if ← notModified t request response then pure (toNotModified response)
    else applyRange request response

end FerroHttp
