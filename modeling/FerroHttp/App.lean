import FerroHttp.Compress
import FerroHttp.Conn
import FerroHttp.Http.Conditional
import FerroHttp.Router
import FerroHttp.Security
import FerroHttp.StaticFiles

/-!
# App — the std-profile request handler

Rate limit, router, static files, method discovery, `404`; then gzip compression, in a
build that has it. The limiter behind its lock is passed as state, and the compressor
is a parameter. The access log reads nothing back and is left out.
-/

namespace FerroHttp

open Exec Text

structure CompressionConfig where
  gzip : Bool
  minBytes : Nat
deriving DecidableEq, Repr

structure App where
  router : Router
  assets : AssetSource
  indexFiles : List String
  mimeOverrides : List (String × String)
  compression : CompressionConfig

/-- An `Allow` value: the registered methods, HEAD wherever GET is, and OPTIONS. -/
def allowHeaderValue (allowed : List Method) : String :=
  let methods := if allowed.contains .get && !allowed.contains .head then allowed ++ [.head] else allowed
  let methods := if methods.contains .options then methods else methods ++ [.options]
  String.intercalate ", " (methods.map Method.asStr)

/-! ## Compression -/

/-- Some coding of `Accept-Encoding` is gzip, whatever its parameters. -/
def acceptsGzip (request : Request) : Bool :=
  (request.header "accept-encoding").any fun value =>
    (split ',' value).any fun enc =>
      (split ';' (trim enc)).head?.any fun name => eqIgnoreAsciiCase (utf8 name) (utf8 "gzip")

/-- A media type worth compressing. -/
def isCompressibleType (contentType : String) : Bool :=
  let ct := lowercase contentType
  startsWith "text/" ct || startsWith "application/json" ct || startsWith "application/xml" ct ||
    startsWith "application/javascript" ct || startsWith "image/svg+xml" ct

def headerValue (r : Response) (name : String) : Option String := r.header name

def isCompressible (r : Response) : Bool :=
  match headerValue r "content-type" with
  | some ct => isCompressibleType ct
  | none => false

def hasHeader (r : Response) (name : String) : Bool := (headerValue r name).isSome

namespace App

/-- Compress a response, when the configuration, the client and the response allow it. -/
def postProcess (app : App) (deflate : Bytes → Nat → Bytes) (request : Request)
    (response : Response) : Response :=
  if !app.compression.gzip || response.body.length < app.compression.minBytes ||
      !acceptsGzip request || !isCompressible response || hasHeader response "content-encoding"
  then response
  else
    let response := { response with body := gzipEncode deflate response.body }
    (response.withHeader "Content-Encoding" "gzip").withHeader "Vary" "Accept-Encoding"

/-! ## Dispatch -/

/-- The answer for a path with a known set of methods, other than by serving it. -/
def discover (request : Request) (allow : String) : Response :=
  if request.method == .options then (Response.new ⟨200⟩).withHeader "Allow" allow
  else (Response.text ⟨405⟩ "405 Method Not Allowed").withHeader "Allow" allow

/-- What is answered when neither a route nor an asset is served. -/
def unserved (app : App) (request : Request) : Response :=
  let allowed := app.router.allowedMethods request.path
  if !allowed.isEmpty then discover request (allowHeaderValue allowed)
  else if staticExists request.path app.indexFiles app.assets then
    discover request "GET, HEAD, OPTIONS"
  else Response.text ⟨404⟩ "404 Not Found"

/-- Routes first, then static files, then method discovery, then `404`. -/
def dispatch (app : App) (t : Target) (request : Request) : Outcome Empty Response :=
  if request.method == .options && request.target == "*" then
    let methods := pushNew app.router.registeredMethods .get
    pure ((Response.new ⟨200⟩).withHeader "Allow" (allowHeaderValue methods))
  else
    match app.router.dispatch request with
    | some response => pure response
    | none =>
      if request.method == .get || request.method == .head then
        match serveStatic request.path app.indexFiles app.assets app.mimeOverrides with
        | some response => evaluate t request response
        | none => pure (app.unserved request)
      else pure (app.unserved request)

/-- Rate limit before doing any routing. -/
def rateLimit (t : Target) (limiter : Option RateLimiter) (ctx : RequestContext) :
    Outcome Empty (Decision × Option RateLimiter) :=
  match limiter with
  | none => pure (.allow, none)
  | some l => do
    let (decision, l) ← l.check t ctx.peer ctx.nowUnixSecs
    pure (decision, some l)

def handle (app : App) (t : Target) (deflate : Bytes → Nat → Bytes) (limiter : Option RateLimiter)
    (request : Request) (ctx : RequestContext) : Outcome Empty (Response × Option RateLimiter) := do
  let (decision, limiter) ← rateLimit t limiter ctx
  match decision with
  | .deny retryAfterSecs =>
    pure ((Response.text ⟨429⟩ "429 Too Many Requests").withHeader "Retry-After"
      (toString retryAfterSecs), limiter)
  | .allow => do
    let response ← app.dispatch t request
    pure (app.postProcess deflate request response, limiter)

end App

end FerroHttp
