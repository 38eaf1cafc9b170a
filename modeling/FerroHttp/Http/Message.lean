import FerroHttp.Lib.Exec
import FerroHttp.Lib.Search
import FerroHttp.Lib.Text

/-!
# Http.Message — methods, status codes, requests

The vocabulary of the protocol core: the ten methods, status codes with their
reason phrases, header fields, and the parsed request with the accessors the
rest of the server uses (`Request.header`, `Request.path`, `Request.keepAlive`).
-/

namespace FerroHttp

open Text

/-! ## Wire bytes -/

def cr : UInt8 := 0x0d
def lf : UInt8 := 0x0a
def sp : UInt8 := 0x20
def htab : UInt8 := 0x09
def colon : UInt8 := 0x3a
def semicolon : UInt8 := 0x3b
def dot : UInt8 := 0x2e

def crlf : Bytes := [cr, lf]

@[simp] theorem length_crlf : crlf.length = 2 := rfl

theorem crlf_ne_nil : crlf ≠ [] := by simp [crlf]

/-! ## Methods -/

inductive Method where
  | get
  | head
  | post
  | put
  | patch
  | delete
  | options
  | connect
  | trace
  | query
deriving DecidableEq, Repr

namespace Method

/-- The method of an ASCII token, matched case-sensitively. -/
def fromBytes (token : Bytes) : Option Method :=
  if token = utf8 "GET" then some .get
  else if token = utf8 "HEAD" then some .head
  else if token = utf8 "POST" then some .post
  else if token = utf8 "PUT" then some .put
  else if token = utf8 "PATCH" then some .patch
  else if token = utf8 "DELETE" then some .delete
  else if token = utf8 "OPTIONS" then some .options
  else if token = utf8 "CONNECT" then some .connect
  else if token = utf8 "TRACE" then some .trace
  else if token = utf8 "QUERY" then some .query
  else none

def asStr : Method → String
  | .get => "GET"
  | .head => "HEAD"
  | .post => "POST"
  | .put => "PUT"
  | .patch => "PATCH"
  | .delete => "DELETE"
  | .options => "OPTIONS"
  | .connect => "CONNECT"
  | .trace => "TRACE"
  | .query => "QUERY"

/-- Whether a response to this method must omit its body. -/
def isHead (m : Method) : Bool := m == .head

/-- A method is recognized exactly by its canonical token. -/
theorem fromBytes_eq_some_iff {token : Bytes} {m : Method} :
    fromBytes token = some m ↔ token = utf8 m.asStr := by
  constructor
  · intro h
    unfold fromBytes at h
    -- one method after another
    iterate 10
      rcases ite_eq_iff.mp h with ⟨htoken, hm⟩ | ⟨_, h⟩
      · cases hm
        exact htoken
    cases h
  · rintro rfl
    cases m <;> decide

end Method

/-! ## Status codes -/

structure StatusCode where
  code : Nat
deriving DecidableEq, Repr

namespace StatusCode

def reason (s : StatusCode) : String :=
  match s.code with
  | 100 => "Continue"
  | 200 => "OK"
  | 201 => "Created"
  | 204 => "No Content"
  | 206 => "Partial Content"
  | 304 => "Not Modified"
  | 400 => "Bad Request"
  | 401 => "Unauthorized"
  | 403 => "Forbidden"
  | 404 => "Not Found"
  | 405 => "Method Not Allowed"
  | 413 => "Content Too Large"
  | 414 => "URI Too Long"
  | 415 => "Unsupported Media Type"
  | 416 => "Range Not Satisfiable"
  | 417 => "Expectation Failed"
  | 418 => "I'm a teapot"
  | 429 => "Too Many Requests"
  | 431 => "Request Header Fields Too Large"
  | 500 => "Internal Server Error"
  | 501 => "Not Implemented"
  | 505 => "HTTP Version Not Supported"
  | _ => ""

/-- Whether the status forbids both a body and a `Content-Length`. -/
def isEmptyBody (s : StatusCode) : Bool :=
  (100 ≤ s.code && s.code ≤ 199) || s.code == 204 || s.code == 304

end StatusCode

/-! ## Requests -/

inductive Version where
  | http10
  | http11
deriving DecidableEq, Repr

structure Header where
  name : String
  value : String
deriving DecidableEq, Repr

/-- The field's name is `name`, whatever the case of either. -/
def Header.named (name : String) (h : Header) : Bool :=
  eqIgnoreAsciiCase (utf8 h.name) (utf8 name)

/-- A fully parsed request. -/
structure Request where
  method : Method
  target : String
  version : Version
  headers : List Header
  body : Bytes
deriving DecidableEq, Repr

namespace Request

/-- The first value of `name`, matched case-insensitively. -/
def header (r : Request) (name : String) : Option String :=
  (r.headers.find? (Header.named name)).map (·.value)

/-- `str::find` on the characters of a text. -/
def findStr (hay needle : List Char) : Option Nat :=
  (Search.windows needle.length hay).findIdx? (· == needle)

/-- The path of an absolute-form target; `none` for any other form. -/
def absoluteFormPath (r : Request) : Option (List Char) :=
  let target := r.target.toList
  match findStr target "://".toList with
  | none => none
  | some schemeEnd =>
    let scheme := target.take schemeEnd
    let validScheme := scheme.head?.any Char.isAlpha &&
      scheme.all fun c => c.isAlphanum || c == '+' || c == '-' || c == '.'
    if !validScheme then none
    else
      let afterAuthority := target.drop (schemeEnd + 3)
      match afterAuthority.findIdx? (· == '/') with
      | some i => some (afterAuthority.drop i)
      | none => some ['/']

/-- The request path, with any query string stripped. -/
def path (r : Request) : String :=
  let target := r.absoluteFormPath.getD r.target.toList
  match target.findIdx? (· == '?') with
  | some i => String.ofList (target.take i)
  | none => String.ofList target

/-- Whether the connection stays open after this request. -/
def keepAlive (r : Request) : Bool :=
  match r.header "connection" with
  | some v =>
    if eqIgnoreAsciiCase (utf8 v) (utf8 "close") then false
    else if eqIgnoreAsciiCase (utf8 v) (utf8 "keep-alive") then true
    else r.version == .http11
  | none => r.version == .http11

end Request

end FerroHttp
