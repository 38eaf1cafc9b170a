import FerroHttp.Http.Message

/-!
# Http.Response — building and serializing responses

A response is a status, fields and a body; `Response.serialize` writes it out. The
body length is always the serializer's own, and a field whose name or value could
split the response is left out.
-/

namespace FerroHttp

open Text

/-- A name or value contains a byte that could split the response. -/
def hasForbiddenByte (s : String) : Bool :=
  (utf8 s).any fun b => b == cr || b == lf || b == 0

structure Response where
  status : StatusCode
  headers : List (String × String)
  body : Bytes
deriving DecidableEq, Repr

namespace Response

/-- An empty-bodied response. -/
def new (status : StatusCode) : Response := ⟨status, [], []⟩

/-- Append a field. -/
def withHeader (r : Response) (name value : String) : Response :=
  { r with headers := r.headers ++ [(name, value)] }

def text (status : StatusCode) (body : String) : Response :=
  ⟨status, [("Content-Type", "text/plain; charset=utf-8")], utf8 body⟩

def json (status : StatusCode) (body : String) : Response :=
  ⟨status, [("Content-Type", "application/json")], utf8 body⟩

/-- A field that reaches the wire: not the caller's `Content-Length`, and not an
attempt to inject a line. -/
def isWritten (field : String × String) : Bool :=
  !eqIgnoreAsciiCase (utf8 field.1) (utf8 "content-length") &&
    !(hasForbiddenByte field.1 || hasForbiddenByte field.2)

/-- The status line and the fields, with the blank line. -/
def serializeHead (r : Response) : String :=
  let statusLine := "HTTP/1.1 " ++ (toString r.status.code ++ " " ++ r.status.reason ++ "\r\n")
  let head := (r.headers.filter isWritten).foldl
    (fun head field => head ++ field.1 ++ ": " ++ field.2 ++ "\r\n") statusLine
  let head :=
    if r.status.isEmptyBody then head
    else head ++ ("Content-Length: " ++ toString r.body.length ++ "\r\n")
  head ++ "\r\n"

/-- The wire bytes; `headOnly` leaves the body out but not its length. -/
def serialize (r : Response) (headOnly : Bool) : Bytes :=
  let out := utf8 r.serializeHead
  if !headOnly && !r.status.isEmptyBody then out ++ r.body else out

end Response

end FerroHttp
