import FerroHttp.App
import FerroHttp.Json.Total

/-!
# Config — schema, defaults, loading and saving

The documented `config.json`: every field has a default, and a section or a field that
is missing keeps it. A text is loaded by reading the parsed value member by member into
the defaults and validating the result; it is saved by a writer of its own.

Numbers are natural numbers; `Config.InRange` says which are values of their types.
-/

namespace FerroHttp

open Exec Text

/-! ## The schema -/

/-- Network and connection settings. -/
structure ServerConfig where
  bind : String
  port : Nat
  workerThreads : Nat
  maxConnections : Nat
  keepAliveSecs : Nat
  readTimeoutSecs : Nat
  requestMaxBytes : Nat
deriving DecidableEq, Repr

def ServerConfig.default : ServerConfig :=
  ⟨"0.0.0.0", 8080, 0, 1024, 15, 30, 1024 * 1024⟩

/-- Static file serving settings. -/
structure StaticConfig where
  root : String
  indexFiles : List String
  followSymlinks : Bool
  directoryListing : Bool
deriving DecidableEq, Repr

def StaticConfig.default : StaticConfig :=
  ⟨"./public", ["index.html", "index.htm"], false, false⟩

def CompressionConfig.default : CompressionConfig := ⟨true, 1024⟩

def RateLimitConfig.default : RateLimitConfig := ⟨true, 600, 600, 300⟩

structure SecurityConfig where
  enableSecurityHeaders : Bool
  rateLimit : RateLimitConfig
  blockedPatterns : List String
deriving DecidableEq, Repr

def SecurityConfig.default : SecurityConfig := ⟨false, .default, []⟩

structure TlsConfig where
  enabled : Bool
  certPath : String
  keyPath : String
deriving DecidableEq, Repr

def TlsConfig.default : TlsConfig := ⟨false, "", ""⟩

/-- Admin panel credentials; the password is kept as a lowercase hex SHA-256 digest. -/
structure AdminConfig where
  username : String
  passwordSha256 : String
deriving DecidableEq, Repr

def AdminConfig.default : AdminConfig := ⟨"", ""⟩

structure LoggingConfig where
  level : String
  accessLog : Bool
deriving DecidableEq, Repr

def LoggingConfig.default : LoggingConfig := ⟨"info", true⟩

/-- The complete server configuration. -/
structure Config where
  server : ServerConfig
  staticFiles : StaticConfig
  compression : CompressionConfig
  security : SecurityConfig
  tls : TlsConfig
  admin : AdminConfig
  logging : LoggingConfig
  mimeOverrides : List (String × String)
deriving DecidableEq, Repr

def Config.default : Config :=
  ⟨.default, .default, .default, .default, .default, .default, .default, []⟩

/-! ## Errors -/

/-- Why a configuration could not be loaded. -/
inductive ConfigError where
  | json (e : JsonError)
  | notAnObject
  | wrongType (path : String)
  | invalidValue (path reason : String)
  | source (message : String)
deriving DecidableEq, Repr

/-- The `Display` of an error. -/
def ConfigError.display : ConfigError → String
  | .json e => "invalid JSON: " ++ e.display
  | .notAnObject => "config root must be a JSON object"
  | .wrongType path => "wrong type for " ++ path
  | .invalidValue path reason => "invalid " ++ path ++ ": " ++ reason
  | .source message => "config source error: " ++ message

/-! ## Reading -/

/-- Read one member into a slot, which keeps its value if there is none. -/
def readSlot {α : Type} (read : JsonValue → String → Except ConfigError α) (obj : JsonValue)
    (key : String) (slot : α) (path : String) : Except ConfigError α :=
  match obj.get key with
  | none => .ok slot
  | some v => read v (path ++ "." ++ key)

/-- A value of the right type, or an error that names its path. -/
def typed {α : Type} (as : JsonValue → Option α) (v : JsonValue) (path : String) :
    Except ConfigError α :=
  match as v with
  | some a => .ok a
  | none => .error (.wrongType path)

/-- An integer of a narrower type. -/
def bounded (values : Nat) (reason : String) (v : JsonValue) (path : String) :
    Except ConfigError Nat := do
  let n ← typed JsonValue.asU64 v path
  if values ≤ n then .error (.invalidValue path reason) else .ok n

def readBool (obj : JsonValue) (key : String) (slot : Bool) (path : String) :
    Except ConfigError Bool := readSlot (typed JsonValue.asBool) obj key slot path

def readString (obj : JsonValue) (key : String) (slot : String) (path : String) :
    Except ConfigError String := readSlot (typed JsonValue.asStr) obj key slot path

def readU64 (obj : JsonValue) (key : String) (slot : Nat) (path : String) :
    Except ConfigError Nat := readSlot (typed JsonValue.asU64) obj key slot path

def readUsize (t : Target) (obj : JsonValue) (key : String) (slot : Nat) (path : String) :
    Except ConfigError Nat := readSlot (bounded t.modulus "value too large") obj key slot path

def readU16 (obj : JsonValue) (key : String) (slot : Nat) (path : String) :
    Except ConfigError Nat := readSlot (bounded 0x10000 "must be 1-65535") obj key slot path

/-- The strings of an array, from index `i` on. -/
def readItems (path : String) (i : Nat) : List JsonValue → Except ConfigError (List String)
  | [] => .ok []
  | item :: items => do
    let s ← typed JsonValue.asStr item (path ++ "[" ++ toString i ++ "]")
    let rest ← readItems path (i + 1) items
    .ok (s :: rest)

def readStringArray (value : JsonValue) (path : String) : Except ConfigError (List String) := do
  let items ← typed JsonValue.asArray value path
  readItems path 0 items

/-- The members of an object of strings. -/
def readMembers (path : String) :
    List (String × JsonValue) → Except ConfigError (List (String × String))
  | [] => .ok []
  | (k, v) :: members => do
    let s ← typed JsonValue.asStr v (path ++ "." ++ k)
    let rest ← readMembers path members
    .ok ((k, s) :: rest)

def readStringMap (value : JsonValue) (path : String) :
    Except ConfigError (List (String × String)) :=
  match value with
  | .object members => readMembers path members
  | _ => .error (.wrongType path)

def readServer (t : Target) (value : JsonValue) (server : ServerConfig) :
    Except ConfigError ServerConfig := do
  let bind ← readString value "bind" server.bind "server"
  let port ← readU16 value "port" server.port "server"
  let workerThreads ← readUsize t value "worker_threads" server.workerThreads "server"
  let maxConnections ← readUsize t value "max_connections" server.maxConnections "server"
  let keepAliveSecs ← readU64 value "keep_alive_secs" server.keepAliveSecs "server"
  let readTimeoutSecs ← readU64 value "read_timeout_secs" server.readTimeoutSecs "server"
  let requestMaxBytes ← readUsize t value "request_max_bytes" server.requestMaxBytes "server"
  .ok ⟨bind, port, workerThreads, maxConnections, keepAliveSecs, readTimeoutSecs,
    requestMaxBytes⟩

def readStatic (value : JsonValue) (cfg : StaticConfig) : Except ConfigError StaticConfig := do
  let root ← readString value "root" cfg.root "static"
  let followSymlinks ← readBool value "follow_symlinks" cfg.followSymlinks "static"
  let directoryListing ← readBool value "directory_listing" cfg.directoryListing "static"
  let indexFiles ← readSlot readStringArray value "index_files" cfg.indexFiles "static"
  .ok ⟨root, indexFiles, followSymlinks, directoryListing⟩

def readCompression (t : Target) (value : JsonValue) (cfg : CompressionConfig) :
    Except ConfigError CompressionConfig := do
  let gzip ← readBool value "gzip" cfg.gzip "compression"
  let minBytes ← readUsize t value "min_bytes" cfg.minBytes "compression"
  .ok ⟨gzip, minBytes⟩

def readRateLimit (value : JsonValue) (cfg : RateLimitConfig) :
    Except ConfigError RateLimitConfig := do
  let enabled ← readBool value "enabled" cfg.enabled "security.rate_limit"
  let requests ← readU64 value "requests" cfg.requests "security.rate_limit"
  let windowSecs ← readU64 value "window_secs" cfg.windowSecs "security.rate_limit"
  let banSecs ← readU64 value "ban_secs" cfg.banSecs "security.rate_limit"
  .ok ⟨enabled, requests, windowSecs, banSecs⟩

/-- Read a section into its defaults, if it is there. -/
def readSection {α : Type} (read : JsonValue → α → Except ConfigError α) (obj : JsonValue)
    (key : String) (slot : α) : Except ConfigError α :=
  match obj.get key with
  | none => .ok slot
  | some value => read value slot

def readSecurity (value : JsonValue) (cfg : SecurityConfig) :
    Except ConfigError SecurityConfig := do
  let headers ← readBool value "enable_security_headers" cfg.enableSecurityHeaders "security"
  let rateLimit ← readSection readRateLimit value "rate_limit" cfg.rateLimit
  let blocked ← readSlot readStringArray value "blocked_patterns" cfg.blockedPatterns "security"
  .ok ⟨headers, rateLimit, blocked⟩

def readTls (value : JsonValue) (tls : TlsConfig) : Except ConfigError TlsConfig := do
  let enabled ← readBool value "enabled" tls.enabled "tls"
  let certPath ← readString value "cert_path" tls.certPath "tls"
  let keyPath ← readString value "key_path" tls.keyPath "tls"
  .ok ⟨enabled, certPath, keyPath⟩

def readAdmin (value : JsonValue) (admin : AdminConfig) : Except ConfigError AdminConfig := do
  let username ← readString value "username" admin.username "admin"
  let passwordSha256 ← readString value "password_sha256" admin.passwordSha256 "admin"
  .ok ⟨username, passwordSha256⟩

def readLogging (value : JsonValue) (logging : LoggingConfig) :
    Except ConfigError LoggingConfig := do
  let level ← readString value "level" logging.level "logging"
  let accessLog ← readBool value "access_log" logging.accessLog "logging"
  .ok ⟨level, accessLog⟩

def logLevels : List String := ["error", "warn", "info", "debug", "trace"]

namespace Config

/-- The settings that are checked after reading. -/
def validate (c : Config) : Except ConfigError Unit :=
  if c.server.port = 0 then .error (.invalidValue "server.port" "must be 1-65535")
  else if c.server.bind.isEmpty then .error (.invalidValue "server.bind" "must not be empty")
  else if c.staticFiles.root.isEmpty then .error (.invalidValue "static.root" "must not be empty")
  else if c.tls.enabled && c.tls.certPath.isEmpty then
    .error (.invalidValue "tls.cert_path" "required when tls.enabled is true")
  else if c.tls.enabled && c.tls.keyPath.isEmpty then
    .error (.invalidValue "tls.key_path" "required when tls.enabled is true")
  else if !logLevels.contains c.logging.level then
    .error (.invalidValue "logging.level" "must be error|warn|info|debug|trace")
  else .ok ()

/-- Read a parsed object into a configuration, without validating it. -/
def readJson (t : Target) (root : JsonValue) : Except ConfigError Config := do
  let server ← readSection (readServer t) root "server" .default
  let staticFiles ← readSection readStatic root "static" .default
  let compression ← readSection (readCompression t) root "compression" .default
  let security ← readSection readSecurity root "security" .default
  let tls ← readSection readTls root "tls" .default
  let admin ← readSection readAdmin root "admin" .default
  let logging ← readSection readLogging root "logging" .default
  let mimeOverrides ← readSection (fun value _ => readStringMap value "mime_overrides") root
    "mime_overrides" []
  .ok ⟨server, staticFiles, compression, security, tls, admin, logging, mimeOverrides⟩

/-- The value is an object. -/
def isObject : JsonValue → Bool
  | .object _ => true
  | _ => false

/-- Build a configuration from a parsed value. -/
def fromJson (t : Target) (root : JsonValue) : Except ConfigError Config :=
  if !isObject root then .error .notAnObject
  else do
    let c ← readJson t root
    c.validate
    .ok c

/-- Parse and validate a configuration; missing fields keep their defaults. -/
def fromJsonStr (t : Target) (text : String) : Except ConfigError Config :=
  match Json.parse text with
  | .error e => .error (.json e)
  | .ok root => fromJson t root

end Config

/-! ## Writing -/

/-- A number in hexadecimal, with at least four digits. -/
def hex4 (n : Nat) : String := String.ofList ((Nat.toDigits 16 n).leftpad 4 '0')

/-- One character of a JSON string. -/
def escapeChar (c : Char) : String :=
  if c = '"' then "\\\""
  else if c = '\\' then "\\\\"
  else if c = '\n' then "\\n"
  else if c = '\r' then "\\r"
  else if c = '\t' then "\\t"
  else if c.toNat < 0x20 then "\\u" ++ hex4 c.toNat
  else String.singleton c

/-- Escape quotes, backslashes and control characters. -/
def escapeJson (s : String) : String := String.join (s.toList.map escapeChar)

/-- A compact JSON array of strings. -/
def jsonStringArray (items : List String) : String :=
  "[" ++ String.intercalate ", " (items.map fun item => "\"" ++ escapeJson item ++ "\"") ++ "]"

/-- A JSON object of strings, one pair a line. -/
def jsonStringObject (pairs : List (String × String)) : String :=
  if pairs.isEmpty then "\x7b\x7d"
  else
    "\x7b" ++ String.intercalate "," (pairs.map fun pair =>
      "\n    \"" ++ escapeJson pair.1 ++ "\": \"" ++ escapeJson pair.2 ++ "\"") ++ "\n  \x7d"

def ServerConfig.write (c : ServerConfig) : String :=
  "  \"server\": \x7b\n" ++
  "    \"bind\": \"" ++ escapeJson c.bind ++ "\",\n" ++
  "    \"port\": " ++ toString c.port ++ ",\n" ++
  "    \"worker_threads\": " ++ toString c.workerThreads ++ ",\n" ++
  "    \"max_connections\": " ++ toString c.maxConnections ++ ",\n" ++
  "    \"keep_alive_secs\": " ++ toString c.keepAliveSecs ++ ",\n" ++
  "    \"read_timeout_secs\": " ++ toString c.readTimeoutSecs ++ ",\n" ++
  "    \"request_max_bytes\": " ++ toString c.requestMaxBytes ++ "\n" ++
  "  \x7d,\n"

def StaticConfig.write (c : StaticConfig) : String :=
  "  \"static\": \x7b\n" ++
  "    \"root\": \"" ++ escapeJson c.root ++ "\",\n" ++
  "    \"index_files\": " ++ jsonStringArray c.indexFiles ++ ",\n" ++
  "    \"follow_symlinks\": " ++ toString c.followSymlinks ++ ",\n" ++
  "    \"directory_listing\": " ++ toString c.directoryListing ++ "\n" ++
  "  \x7d,\n"

def CompressionConfig.write (c : CompressionConfig) : String :=
  "  \"compression\": \x7b\n" ++
  "    \"gzip\": " ++ toString c.gzip ++ ",\n" ++
  "    \"min_bytes\": " ++ toString c.minBytes ++ "\n" ++
  "  \x7d,\n"

def RateLimitConfig.write (c : RateLimitConfig) : String :=
  "    \"rate_limit\": \x7b\n" ++
  "      \"enabled\": " ++ toString c.enabled ++ ",\n" ++
  "      \"requests\": " ++ toString c.requests ++ ",\n" ++
  "      \"window_secs\": " ++ toString c.windowSecs ++ ",\n" ++
  "      \"ban_secs\": " ++ toString c.banSecs ++ "\n" ++
  "    \x7d,\n"

def SecurityConfig.write (c : SecurityConfig) : String :=
  "  \"security\": \x7b\n" ++
  "    \"enable_security_headers\": " ++ toString c.enableSecurityHeaders ++ ",\n" ++
  c.rateLimit.write ++
  "    \"blocked_patterns\": " ++ jsonStringArray c.blockedPatterns ++ "\n" ++
  "  \x7d,\n"

def TlsConfig.write (c : TlsConfig) : String :=
  "  \"tls\": \x7b\n" ++
  "    \"enabled\": " ++ toString c.enabled ++ ",\n" ++
  "    \"cert_path\": \"" ++ escapeJson c.certPath ++ "\",\n" ++
  "    \"key_path\": \"" ++ escapeJson c.keyPath ++ "\"\n" ++
  "  \x7d,\n"

def AdminConfig.write (c : AdminConfig) : String :=
  "  \"admin\": \x7b\n" ++
  "    \"username\": \"" ++ escapeJson c.username ++ "\",\n" ++
  "    \"password_sha256\": \"" ++ escapeJson c.passwordSha256 ++ "\"\n" ++
  "  \x7d,\n"

def LoggingConfig.write (c : LoggingConfig) : String :=
  "  \"logging\": \x7b\n" ++
  "    \"level\": \"" ++ escapeJson c.level ++ "\",\n" ++
  "    \"access_log\": " ++ toString c.accessLog ++ "\n" ++
  "  \x7d,\n"

/-- Serialize a configuration to the documented schema. -/
def Config.toJsonString (c : Config) : String :=
  "\x7b\n" ++
  c.server.write ++ c.staticFiles.write ++ c.compression.write ++ c.security.write ++
  c.tls.write ++ c.admin.write ++ c.logging.write ++
  "  \"mime_overrides\": " ++ jsonStringObject c.mimeOverrides ++ "\n" ++
  "\x7d\n"

end FerroHttp
