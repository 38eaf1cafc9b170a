import FerroHttp.Lib.Interleave
import FerroHttp.Startup
import FerroHttp.WebUi.Sha256

/-!
# WebUi.Admin — changing the configuration of a running server

The live configuration with the application built from it, behind a lock, and the
configuration file. `putConfig` and `changePassword` are the two handlers that change them.
They hold the lock only where they read or publish the live state, so on several reactors
they interleave: a `Task` is a handler at one of the points between these sections, and
`Task.step` is what it does up to the next one.

What a write does to the file is chosen by the environment.
-/

namespace FerroHttp

open Exec Text Interleave

/-! ## State -/

/-- The live configuration and the application built from it. -/
structure AdminState where
  config : Config
  app : BuiltApp

def AdminState.new (config : Config) : AdminState := ⟨config, buildApp config⟩

/-- What requests share: the state behind the lock, and the contents of the file. -/
structure Shared where
  state : AdminState
  file : Option Bytes

/-- How writing a file ends: the old contents are truncated first. -/
inductive WriteOutcome where
  | ok
  | notOpened (e : String)
  | failed (written : Nat) (e : String)
deriving DecidableEq, Repr

/-- Write a file. -/
def fsWrite (outcome : WriteOutcome) (contents : Bytes) (file : Option Bytes) :
    Except String Unit × Option Bytes :=
  match outcome with
  | .ok => (.ok (), some contents)
  | .notOpened e => (.error e, file)
  | .failed written e => (.error e, some (contents.take written))

/-! ## Replies -/

/-- Escape a short message. -/
def jsonEscape (s : String) : String :=
  String.join (s.toList.map fun c =>
    if c = '"' then "\\\""
    else if c = '\\' then "\\\\"
    else if c = '\n' ∨ c = '\r' ∨ c = '\t' then " "
    else String.singleton c)

def jsonError (status : StatusCode) (message : String) : Response :=
  .json status ("\x7b\"error\":\"" ++ jsonEscape message ++ "\"\x7d")

/-- The reply when the file could not be written. -/
def writeError (e : String) : Response := jsonError ⟨500⟩ ("could not write config: " ++ e)

def putReply (restart : List String) : Response :=
  let list := String.intercalate "," (restart.map fun f => "\"" ++ f ++ "\"")
  .json ⟨200⟩ ("\x7b\"ok\":true,\"restart_required\":[" ++ list ++ "]\x7d")

def passwordReply : Response := .json ⟨200⟩ "\x7b\"ok\":true\x7d"

/-! ## The sections of the handlers -/

/-- Settings that are named as taking effect on restart only. -/
def restartRequiredFields (old new : Config) : List String :=
  (if old.server.bind ≠ new.server.bind then ["server.bind"] else []) ++
  (if old.server.port ≠ new.server.port then ["server.port"] else []) ++
  (if old.server.workerThreads ≠ new.server.workerThreads then ["server.worker_threads"]
    else []) ++
  (if old.tls ≠ new.tls then ["tls"] else [])

/-- The configuration in the body of a request. -/
def parsePut (t : Target) (body : Bytes) : Except Response Config :=
  match fromUtf8 body with
  | none => .error (jsonError ⟨400⟩ "body is not valid UTF-8")
  | some text =>
    match Config.fromJsonStr t text with
    | .ok config => .ok config
    | .error e => .error (jsonError ⟨400⟩ e.display)

/-- The current and the new password in the body of a request. -/
def parsePassword (body : Bytes) : Except Response (String × String) :=
  match fromUtf8 body with
  | none => .error (jsonError ⟨400⟩ "body is not valid UTF-8")
  | some text =>
    match Json.parse text with
    | .error _ => .error (jsonError ⟨400⟩ "invalid JSON body")
    | .ok parsed =>
      let current := ((parsed.get "current_password").bind JsonValue.asStr).getD ""
      let newPassword := ((parsed.get "new_password").bind JsonValue.asStr).getD ""
      if newPassword.isEmpty then .error (jsonError ⟨400⟩ "new password must not be empty")
      else .ok (current, newPassword)

/-- Under the read lock: check the current password, and copy the configuration. -/
def verifyPassword (config : Config) (current newPassword : String) : Except Response Config :=
  if !passwordMatches current config.admin.passwordSha256 then
    .error (jsonError ⟨401⟩ "current password is incorrect")
  else .ok { config with admin := { config.admin with
    passwordSha256 := sha256Hex (utf8 newPassword) } }

/-! ## One request at a time -/

/-- The text that is saved. -/
def Config.saved (c : Config) : Bytes := utf8 c.toJsonString

/-- Validate, persist and apply a new configuration. -/
def putConfig (t : Target) (outcome : WriteOutcome) (s : Shared) (body : Bytes) :
    Response × Shared :=
  match parsePut t body with
  | .error response => (response, s)
  | .ok config =>
    match fsWrite outcome config.saved s.file with
    | (.error e, file) => (writeError e, { s with file := file })
    | (.ok (), file) =>
      let restart := restartRequiredFields s.state.config config
      (putReply restart, ⟨⟨config, buildApp config⟩, file⟩)

/-- Change the administrator's password. -/
def changePassword (outcome : WriteOutcome) (s : Shared) (body : Bytes) : Response × Shared :=
  match parsePassword body with
  | .error response => (response, s)
  | .ok (current, newPassword) =>
    match verifyPassword s.state.config current newPassword with
    | .error response => (response, s)
    | .ok config =>
      match fsWrite outcome config.saved s.file with
      | (.error e, file) => (writeError e, { s with file := file })
      | (.ok (), file) => (passwordReply, ⟨{ s.state with config := config }, file⟩)

inductive AdminRequest where
  | put (body : Bytes)
  | password (body : Bytes)
deriving DecidableEq, Repr

/-- A request on its own. -/
def AdminRequest.serve (t : Target) (outcome : WriteOutcome) (s : Shared) :
    AdminRequest → Response × Shared
  | .put body => putConfig t outcome s body
  | .password body => changePassword outcome s body

/-! ## Requests that interleave -/

/-- A request at one of the points between its sections. -/
inductive Task where
  | start (request : AdminRequest)
  | putWrite (config : Config)
  | putCompare (config : Config)
  | putBuild (config : Config) (restart : List String)
  | putPublish (config : Config) (restart : List String) (app : BuiltApp)
  | passwordVerify (current newPassword : String)
  | passwordWrite (config : Config)
  | passwordPublish (config : Config)
  | done (response : Response)

/-- The body is parsed without the shared state. -/
def AdminRequest.parse (t : Target) : AdminRequest → Task
  | .put body =>
    match parsePut t body with
    | .error response => .done response
    | .ok config => .putWrite config
  | .password body =>
    match parsePassword body with
    | .error response => .done response
    | .ok (current, newPassword) => .passwordVerify current newPassword

/-- Write the file, and go on if that succeeds. -/
def writeThen (outcome : WriteOutcome) (s : Shared) (config : Config) (next : Task) :
    Task × Shared :=
  match fsWrite outcome config.saved s.file with
  | (.error e, file) => (.done (writeError e), { s with file := file })
  | (.ok (), file) => (next, { s with file := file })

/-- What a request does up to its next point. -/
def Task.step (t : Target) (outcome : WriteOutcome) (s : Shared) : Task → Task × Shared
  | .start request => (request.parse t, s)
  | .putWrite config => writeThen outcome s config (.putCompare config)
  | .putCompare config => (.putBuild config (restartRequiredFields s.state.config config), s)
  | .putBuild config restart => (.putPublish config restart (buildApp config), s)
  | .putPublish config restart app => (.done (putReply restart), { s with state := ⟨config, app⟩ })
  | .passwordVerify current newPassword =>
    match verifyPassword s.state.config current newPassword with
    | .error response => (.done response, s)
    | .ok config => (.passwordWrite config, s)
  | .passwordWrite config => writeThen outcome s config (.passwordPublish config)
  | .passwordPublish config =>
    (.done passwordReply, { s with state := { s.state with config := config } })
  | .done response => (.done response, s)

/-- Concurrent requests, before any of them has run. -/
def System.ofRequests {ι : Type} (config : Config) (file : Option Bytes)
    (requests : ι → AdminRequest) : System ι Shared Task :=
  ⟨⟨.new config, file⟩, fun i => .start (requests i)⟩

/-! ## A request alone -/

/-- The steps of one task, with nothing in between. -/
def Task.steps (t : Target) (outcome : WriteOutcome) : Nat → Task → Shared → Task × Shared
  | 0, task, s => (task, s)
  | n + 1, task, s => Task.steps t outcome n (task.step t outcome s).1 (task.step t outcome s).2

variable {t : Target} {outcome : WriteOutcome} {s : Shared} {response : Response}

theorem Task.steps_done : ∀ n, Task.steps t outcome n (.done response) s = (.done response, s)
  | 0 => rfl
  | n + 1 => Task.steps_done n

/-- A request whose steps are not interleaved with others is the handler. -/
theorem Task.steps_start (t : Target) (outcome : WriteOutcome) (s : Shared)
    (request : AdminRequest) : Task.steps t outcome 5 (.start request) s =
      (.done (request.serve t outcome s).1, (request.serve t outcome s).2) := by
  cases request with
  | put body =>
    -- parse, write, compare, build, publish
    simp only [Task.steps, Task.step, AdminRequest.parse, AdminRequest.serve, putConfig]
    cases parsePut t body with
    | error response => rfl
    | ok config => cases outcome <;> rfl
  | password body =>
    -- parse, verify, write, publish, and one step with nothing left to do
    simp only [Task.steps, Task.step, AdminRequest.parse, AdminRequest.serve, changePassword]
    cases parsePassword body with
    | error response => rfl
    | ok passwords =>
      rcases passwords with ⟨current, newPassword⟩
      dsimp only
      cases verifyPassword s.state.config current newPassword with
      | error response => rfl
      | ok config => cases outcome <;> rfl

end FerroHttp
