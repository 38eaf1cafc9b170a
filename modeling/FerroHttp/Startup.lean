import FerroHttp.Config
import FerroHttp.StaticFiles.FsAssets

/-!
# Startup — what the binary makes of a configuration

`buildApp` is the application of a configuration, at startup and at every reload. The
parameters that `main` fixes once are `Startup`. A built application keeps the limiter it
starts with; what requests record in it later is passed as state (`App.handle`).
-/

namespace FerroHttp

open Exec Text

/-! ## The routes -/

/-- Liveness endpoint. -/
def health : Handler := fun _ _ => .json ⟨200⟩ "\x7b\"status\":\"ok\"\x7d"

def joinMediaTypes (types : List String) : String := String.intercalate ", " types

/-- Validate the media type of a query against the accepted ones. -/
def queryContentTypeCheck (request : Request) (accepted : List String) : Except Response Unit :=
  match request.header "content-type" with
  | none => .error (.text ⟨400⟩ "QUERY requests must carry a Content-Type")
  | some contentType =>
    let mediaType := trim ((split ';' contentType).headD "")
    if accepted.any fun a => eqIgnoreAsciiCase (utf8 a) (utf8 mediaType) then .ok ()
    else .error ((Response.text ⟨415⟩ "Unsupported query media type").withHeader "Accept-Query"
      (joinMediaTypes accepted))

def searchQueryTypes : List String := ["application/x-www-form-urlencoded"]

/-- The query endpoint reports the size of what it received. -/
def search : Handler := fun request _ =>
  match queryContentTypeCheck request searchQueryTypes with
  | .error response => response
  | .ok () =>
    let body := "\x7b\"received_bytes\":" ++ toString request.body.length ++ ",\"results\":[]\x7d"
    (Response.json ⟨200⟩ body).withHeader "Accept-Query" "application/x-www-form-urlencoded"

/-! ## The application -/

/-- An application as it is built. -/
structure BuiltApp where
  router : Router
  assets : FsAssets
  indexFiles : List String
  mimeOverrides : List (String × String)
  rateLimiter : Option RateLimiter
  accessLog : Bool
  compression : CompressionConfig

/-- The application over the files that a directory holds. -/
def BuiltApp.app (b : BuiltApp) (files : FsAssets → AssetSource) : App :=
  ⟨b.router, files b.assets, b.indexFiles, b.mimeOverrides, b.compression⟩

def buildApp (c : Config) : BuiltApp :=
  let router := (Router.new.route .get "/api/health" health).route .query "/api/search" search
  let rateLimiter :=
    if c.security.rateLimit.enabled then some (RateLimiter.new c.security.rateLimit) else none
  ⟨router, ⟨utf8 c.staticFiles.root, c.staticFiles.followSymlinks⟩, c.staticFiles.indexFiles,
    c.mimeOverrides, rateLimiter, c.logging.accessLog, c.compression⟩

/-- The administrator's credentials are no part of the application. -/
theorem buildApp_admin (c : Config) (admin : AdminConfig) :
    buildApp { c with admin := admin } = buildApp c := rfl

/-! ## The parameters fixed at startup -/

/-- The options of the event loop. -/
structure Options where
  idleTimeout : Nat
  maxConnections : Nat
  securityHeaders : Bool
  maxBody : Nat
  workerThreads : Nat
deriving DecidableEq, Repr

def Config.options (c : Config) : Options :=
  ⟨max c.server.keepAliveSecs 1, c.server.maxConnections, c.security.enableSecurityHeaders,
    c.server.requestMaxBytes, c.server.workerThreads⟩

/-- What the server runs with until it is restarted: the address, the options, and the
certificate and key if it speaks TLS. -/
structure Startup where
  bind : String
  port : Nat
  options : Options
  tls : Option (String × String)
deriving DecidableEq, Repr

def Config.startup (c : Config) : Startup :=
  ⟨c.server.bind, c.server.port, c.options,
    if c.tls.enabled then some (c.tls.certPath, c.tls.keyPath) else none⟩

/-! ## Loading -/

/-- The contents of the default configuration file; a missing one stands for the defaults. -/
def loadConfig (t : Target) : Option Bytes → Except ConfigError Config
  | none => .ok .default
  | some contents =>
    match fromUtf8 contents with
    | some text => Config.fromJsonStr t text
    | none => .error (.source "config.json: stream did not contain valid UTF-8")

end FerroHttp
