import FerroHttp.App
import FerroHttp.Security.FewPeers
import FerroHttp.WebUi.BasicAuth
import FerroHttp.WebUi.Serial
import FerroHttp.WebUi.Stats

/-!
# WebUi.Service — the server with its admin panel

`WebAdmin.handle` serves the panel and its API under `/admin` to requests with the
credentials of the live configuration, and gives every other request to the live
application. The results are about runs of any requests, one after another: a request is
answered before the next one is looked at. What can happen when changes cross is the subject
of `Agreement` and `Serial`.

1. `strangers_blind`: requests without the credentials change nothing, and their answers
   do not depend on the configuration that they are kept from;
2. `locked_out`: an administrator can save a configuration without a user, and from then on
   no request changes anything;
3. `password_changed`: after a password change exactly the new password is accepted, and
   nothing else has changed;
4. `restart_faithful`: as long as no write breaks off, a restart gives the live
   configuration and application back;
5. `put_of_get`: saving what the panel was given leaves the server as it was, but for the
   limiter, which forgets every ban;
6. `stats_exact`: the statistics that an administrator is given are exactly those of the
   answers given so far.
-/

namespace FerroHttp

open Exec Text

/-! ## The service -/

/-- What is embedded in the binary: the panel with the version filled in, and the texts of
the panel in two languages. -/
structure Pages where
  panel : String
  i18nEn : String
  i18nTr : String

/-- What a request meets outside the server: the files of a document root, how a write of
the configuration file ends, and the seconds since the start. -/
structure Surroundings where
  files : FsAssets → AssetSource
  write : WriteOutcome
  uptime : Nat

/-- The live state with the configuration file, what the live application's limiter has
recorded, and the statistics. -/
structure WebAdmin where
  shared : Shared
  limiter : Option RateLimiter
  stats : Stats

/-- The endpoints of the panel. -/
inductive AdminEndpoint where
  | panel
  | getConfig
  | putConfig
  | stats
  | i18n
  | password
  | unknown
deriving DecidableEq, Repr

def AdminEndpoint.of (request : Request) : AdminEndpoint :=
  match request.method, request.path with
  | .get, "/admin" => .panel
  | .get, "/admin/" => .panel
  | .get, "/admin/api/config" => .getConfig
  | .put, "/admin/api/config" => .putConfig
  | .get, "/admin/api/stats" => .stats
  | .get, "/admin/api/i18n" => .i18n
  | .post, "/admin/api/password" => .password
  | _, _ => .unknown

/-- The body and the headers do not matter. -/
theorem AdminEndpoint.of_congr (request request' : Request)
    (hmethod : request.method = request'.method) (htarget : request.target = request'.target) :
    AdminEndpoint.of request = AdminEndpoint.of request' := by
  have hpath : request.path = request'.path := by
    simp only [Request.path, Request.absoluteFormPath, htarget]
  rw [AdminEndpoint.of, AdminEndpoint.of, hmethod, hpath]

def panelResponse (pages : Pages) : Response :=
  ⟨⟨200⟩, [("Content-Type", "text/html; charset=utf-8")], utf8 pages.panel⟩

def unauthorizedResponse : Response :=
  ⟨⟨401⟩, [("WWW-Authenticate", "Basic realm=\"ferro admin\""),
    ("Content-Type", "text/plain; charset=utf-8")], utf8 "Unauthorized\n"⟩

/-- The request carries the credentials of a configuration; without a user there are none. -/
def Config.authenticated (c : Config) (request : Request) : Bool :=
  if c.admin.username.isEmpty then false
  else match request.header "authorization" with
    | some h => basicAuthOk h c.admin.username c.admin.passwordSha256
    | none => false

def Request.isAdmin (request : Request) : Bool :=
  request.path == "/admin" || startsWith "/admin/" request.path

namespace WebAdmin

/-- The server as it is started from a configuration and its file. -/
def new (config : Config) (file : Option Bytes) : WebAdmin :=
  ⟨⟨.new config, file⟩, (buildApp config).rateLimiter, .new⟩

/-- Route an authenticated request. -/
def handleAdmin (t : Target) (pages : Pages) (outside : Surroundings) (s : WebAdmin)
    (request : Request) : Response × WebAdmin :=
  match AdminEndpoint.of request with
  | .panel => (panelResponse pages, s)
  | .getConfig => (.json ⟨200⟩ s.shared.state.config.toJsonString, s)
  | .putConfig =>
    let (response, shared) := FerroHttp.putConfig t outside.write s.shared request.body
    -- an accepted configuration comes with an application, and this with a limiter
    let limiter := if response.status = ⟨200⟩ then shared.state.app.rateLimiter else s.limiter
    (response, ⟨shared, limiter, s.stats⟩)
  | .stats => (.json ⟨200⟩ (s.stats.snapshotJson outside.uptime), s)
  | .i18n =>
    (.json ⟨200⟩ ("\x7b\"en\":" ++ trim pages.i18nEn ++ ",\"tr\":" ++ trim pages.i18nTr ++ "\x7d"), s)
  | .password =>
    let (response, shared) := changePassword outside.write s.shared request.body
    (response, { s with shared := shared })
  | .unknown => (jsonError ⟨404⟩ "no such admin endpoint", s)

/-- The answer, before it is counted. -/
def answer (t : Target) (deflate : Bytes → Nat → Bytes) (pages : Pages) (outside : Surroundings)
    (s : WebAdmin) (request : Request) (ctx : RequestContext) :
    Outcome Empty (Response × WebAdmin) :=
  if request.isAdmin then
    if s.shared.state.config.authenticated request then
      pure (s.handleAdmin t pages outside request)
    else pure (unauthorizedResponse, s)
  else do
    let app := s.shared.state.app.app outside.files
    let (response, limiter) ← app.handle t deflate s.limiter request ctx
    pure (response, { s with limiter := limiter })

/-- Count a response. -/
def counting (s : WebAdmin) (response : Response) : WebAdmin :=
  { s with stats := s.stats.record response.status.code response.body.length }

def handle (t : Target) (deflate : Bytes → Nat → Bytes) (pages : Pages) (outside : Surroundings)
    (s : WebAdmin) (request : Request) (ctx : RequestContext) :
    Outcome Empty (Response × WebAdmin) := do
  let (response, s) ← s.answer t deflate pages outside request ctx
  pure (response, s.counting response)

/-! ## Runs -/

/-- A request, with where it comes from and what it meets. -/
structure Visit where
  request : Request
  ctx : RequestContext
  outside : Surroundings

/-- Requests one after another, with their answers. -/
def run (t : Target) (deflate : Bytes → Nat → Bytes) (pages : Pages) (s : WebAdmin) :
    List Visit → Outcome Empty (List Response × WebAdmin)
  | [] => pure ([], s)
  | v :: visits => do
    let (response, s) ← s.handle t deflate pages v.outside v.request v.ctx
    let (responses, s) ← run t deflate pages s visits
    pure (response :: responses, s)

section Cases

variable {t : Target} {deflate : Bytes → Nat → Bytes} {pages : Pages} {outside : Surroundings}
  {s s' u : WebAdmin} {request : Request} {ctx : RequestContext} {response : Response}
  {v : Visit} {visits : List Visit} {responses : List Response}

theorem run_cons (h : run t deflate pages s (v :: visits) = .ok (responses, u)) :
    ∃ response rest w, s.handle t deflate pages v.outside v.request v.ctx = .ok (response, w) ∧
      run t deflate pages w visits = .ok (rest, u) ∧ responses = response :: rest := by
  rcases Outcome.bind_eq_ok.mp h with ⟨⟨response, w⟩, hhandle, hrest⟩
  rcases Outcome.bind_eq_ok.mp hrest with ⟨⟨rest, u'⟩, hrun, hdone⟩
  cases hdone
  exact ⟨response, rest, w, hhandle, hrun, rfl⟩

/-- A request is refused, or served by the panel, or by the application. -/
theorem handle_cases (h : s.handle t deflate pages outside request ctx = .ok (response, u)) :
    (request.isAdmin = true ∧ s.shared.state.config.authenticated request = false ∧
      response = unauthorizedResponse ∧ u = s.counting response) ∨
    (request.isAdmin = true ∧ s.shared.state.config.authenticated request = true ∧
      response = (s.handleAdmin t pages outside request).1 ∧
      u = (s.handleAdmin t pages outside request).2.counting response) ∨
    (request.isAdmin = false ∧ ∃ limiter,
      (s.shared.state.app.app outside.files).handle t deflate s.limiter request ctx =
        .ok (response, limiter) ∧
      u = counting { s with limiter := limiter } response) := by
  rcases Outcome.bind_eq_ok.mp h with ⟨⟨answered, w⟩, hanswer, hdone⟩
  cases hdone
  unfold answer at hanswer
  cases hadmin : request.isAdmin with
  | true =>
    rw [hadmin, if_pos rfl] at hanswer
    cases hauth : s.shared.state.config.authenticated request with
    | true =>
      rw [hauth, if_pos rfl] at hanswer
      have hpair := Outcome.ok.inj hanswer
      exact .inr (.inl ⟨rfl, rfl, by rw [hpair], by rw [hpair]⟩)
    | false =>
      rw [hauth, if_neg (by simp)] at hanswer
      cases hanswer
      exact .inl ⟨rfl, rfl, rfl, rfl⟩
  | false =>
    rw [hadmin, if_neg (by simp)] at hanswer
    rcases Outcome.bind_eq_ok.mp hanswer with ⟨⟨served, limiter⟩, hserved, hlast⟩
    cases hlast
    exact .inr (.inr ⟨rfl, limiter, hserved, rfl⟩)

/-- What an authenticated request does to the live state and the file: nothing, or what one
of the two handlers does that change them. -/
theorem handleAdmin_cases (t : Target) (pages : Pages) (outside : Surroundings) (s : WebAdmin)
    (request : Request) :
    (s.handleAdmin t pages outside request).2 = s ∨
    ∃ change : AdminRequest, (s.handleAdmin t pages outside request).1 =
        (change.serve t outside.write s.shared).1 ∧
      (s.handleAdmin t pages outside request).2.shared =
        (change.serve t outside.write s.shared).2 ∧
      (s.handleAdmin t pages outside request).2.stats = s.stats := by
  unfold handleAdmin
  cases AdminEndpoint.of request with
  | putConfig => exact .inr ⟨.put request.body, rfl, rfl, rfl⟩
  | password => exact .inr ⟨.password request.body, rfl, rfl, rfl⟩
  | _ => exact .inl rfl

/-- What is not for the panel is answered by the application. -/
theorem handle_of_public {limiter : Option RateLimiter} (hpublic : request.isAdmin = false)
    (happ : (s.shared.state.app.app outside.files).handle t deflate s.limiter request ctx =
      .ok (response, limiter)) :
    s.handle t deflate pages outside request ctx =
      .ok (response, counting { s with limiter := limiter } response) := by
  rw [handle, answer, hpublic, if_neg (by simp)]
  simp only [happ, Outcome.ok_bind, Outcome.pure_eq]

/-- With the credentials, the panel serves. -/
theorem handle_of_authenticated (t : Target) (deflate : Bytes → Nat → Bytes) (pages : Pages)
    (outside : Surroundings) (ctx : RequestContext) (hadmin : request.isAdmin = true)
    (hauth : s.shared.state.config.authenticated request = true) :
    s.handle t deflate pages outside request ctx =
      .ok ((s.handleAdmin t pages outside request).1,
        (s.handleAdmin t pages outside request).2.counting
          (s.handleAdmin t pages outside request).1) := by
  rw [handle, answer, hadmin, if_pos rfl, hauth, if_pos rfl]
  rfl

/-- Every endpoint of the panel is behind its credentials. -/
theorem AdminEndpoint.isAdmin (h : AdminEndpoint.of request ≠ .unknown) :
    request.isAdmin = true := by
  unfold AdminEndpoint.of at h
  unfold Request.isAdmin
  split at h
  case h_8 => exact absurd rfl h
  all_goals
    rename_i hpath
    rw [hpath]
    decide

theorem handleAdmin_getConfig (hget : AdminEndpoint.of request = .getConfig) :
    s.handleAdmin t pages outside request =
      (.json ⟨200⟩ s.shared.state.config.toJsonString, s) := by
  simp only [handleAdmin, hget]

/-- A configuration that is accepted and saved comes with its own application and limiter. -/
theorem handleAdmin_putConfig {config : Config} (hput : AdminEndpoint.of request = .putConfig)
    (hwrite : outside.write = .ok) (hparse : parsePut t request.body = .ok config) :
    s.handleAdmin t pages outside request =
      (putReply (restartRequiredFields s.shared.state.config config),
        ⟨⟨.new config, some config.saved⟩, (buildApp config).rateLimiter, s.stats⟩) := by
  have haccepted : ∀ restart, (putReply restart).status = ⟨200⟩ := by
    intro restart
    rw [putReply, Response.json]
  simp only [handleAdmin, hput, putConfig, hparse, hwrite, fsWrite, haccepted, if_true,
    AdminState.new]

theorem handleAdmin_password (hpassword : AdminEndpoint.of request = .password) :
    s.handleAdmin t pages outside request =
      ((changePassword outside.write s.shared request.body).1,
        { s with shared := (changePassword outside.write s.shared request.body).2 }) := by
  simp only [handleAdmin, hpassword]

theorem handleAdmin_stats (hstats : AdminEndpoint.of request = .stats) :
    s.handleAdmin t pages outside request =
      (.json ⟨200⟩ (s.stats.snapshotJson outside.uptime), s) := by
  simp only [handleAdmin, hstats]

end Cases

/-! ## Requests without credentials -/

/-- Two servers that do not differ outside their panels. -/
structure Alike (s s' : WebAdmin) : Prop where
  app : s.shared.state.app = s'.shared.state.app
  limiter : s.limiter = s'.limiter
  stats : s.stats = s'.stats

/-- The request is not for the panel, or does not have the credentials. -/
def Stranger (c : Config) (v : Visit) : Prop :=
  v.request.isAdmin = true → c.authenticated v.request = false

section Strangers

variable {t : Target} {deflate : Bytes → Nat → Bytes} {pages : Pages} {outside : Surroundings}
  {s s' u w : WebAdmin} {request : Request} {ctx : RequestContext} {response : Response}
  {v : Visit} {visits : List Visit} {responses : List Response}

theorem handle_of_refused (hadmin : request.isAdmin = true)
    (hauth : s.shared.state.config.authenticated request = false) :
    s.handle t deflate pages outside request ctx =
      .ok (unauthorizedResponse, s.counting unauthorizedResponse) := by
  rw [handle, answer, hadmin, hauth]
  rfl

/-- A stranger is refused, or answered by the application. -/
theorem handle_of_stranger (hstranger : Stranger s.shared.state.config v)
    (h : s.handle t deflate pages v.outside v.request v.ctx = .ok (response, w)) :
    w.shared = s.shared ∧ (v.request.isAdmin = true → response = unauthorizedResponse) := by
  rcases handle_cases h with ⟨_, _, hresponse, rfl⟩ | ⟨hadmin, hauth, _, _⟩ | ⟨hadmin, limiter, _, rfl⟩
  · exact ⟨rfl, fun _ => hresponse⟩
  · rw [hstranger hadmin] at hauth
    cases hauth
  · refine ⟨rfl, ?_⟩
    intro htrue
    rw [hadmin] at htrue
    cases htrue

/-- Two servers that are alike answer a stranger alike. -/
theorem Alike.handle (halike : Alike s s') (hstranger : Stranger s.shared.state.config v)
    (hstranger' : Stranger s'.shared.state.config v)
    (h : s.handle t deflate pages v.outside v.request v.ctx = .ok (response, w)) :
    ∃ w', s'.handle t deflate pages v.outside v.request v.ctx = .ok (response, w') ∧ Alike w w' := by
  rcases handle_cases h with ⟨hadmin, _, rfl, rfl⟩ | ⟨hadmin, hauth, _, _⟩ | ⟨hadmin, limiter, happ, rfl⟩
  · refine ⟨_, handle_of_refused hadmin (hstranger' hadmin), halike.app, halike.limiter, ?_⟩
    rw [counting, counting, halike.stats]
  · rw [hstranger hadmin] at hauth
    cases hauth
  · -- both pass the request to the same application and limiter
    rw [halike.app, halike.limiter] at happ
    refine ⟨_, handle_of_public hadmin happ, halike.app, rfl, ?_⟩
    rw [counting, counting, halike.stats]

/-- Whatever strangers request, the live configuration and application and the file stay as
they are, and a server with another configuration behind the same application gives the same
answers: they carry nothing of the configuration, its credentials included. -/
theorem strangers_blind (halike : Alike s s')
    (hstrangers : ∀ v ∈ visits, Stranger s.shared.state.config v)
    (hstrangers' : ∀ v ∈ visits, Stranger s'.shared.state.config v)
    (hrun : run t deflate pages s visits = .ok (responses, u)) :
    u.shared = s.shared ∧
      ∃ u', run t deflate pages s' visits = .ok (responses, u') ∧ u'.shared = s'.shared := by
  induction visits generalizing s s' responses with
  | nil =>
    cases hrun
    exact ⟨rfl, s', rfl, rfl⟩
  | cons v visits ih =>
    rcases run_cons hrun with ⟨response, rest, w, hhandle, hrest, rfl⟩
    have hstranger := hstrangers v List.mem_cons_self
    have hstranger' := hstrangers' v List.mem_cons_self
    rcases halike.handle hstranger hstranger' hhandle with ⟨w', hhandle', halike'⟩
    have hshared : w.shared = s.shared := (handle_of_stranger hstranger hhandle).1
    have hshared' : w'.shared = s'.shared := (handle_of_stranger hstranger' hhandle').1
    have hlater : ∀ v ∈ visits, Stranger w.shared.state.config v := by
      rw [hshared]
      exact fun v hv => hstrangers v (List.mem_cons_of_mem _ hv)
    have hlater' : ∀ v ∈ visits, Stranger w'.shared.state.config v := by
      rw [hshared']
      exact fun v hv => hstrangers' v (List.mem_cons_of_mem _ hv)
    rcases ih halike' hlater hlater' hrest with ⟨hu, u', hrun', hu'⟩
    refine ⟨hu.trans hshared, u', ?_, hu'.trans hshared'⟩
    rw [run, hhandle', Outcome.ok_bind]
    simp only [hrun', Outcome.ok_bind, Outcome.pure_eq]

/-- Without a user there are no credentials. -/
theorem stranger_of_no_user {c : Config} (h : c.admin.username = "") (v : Visit) : Stranger c v := by
  intro _
  rw [Config.authenticated, h]
  rfl

/-- Once the live configuration has no user, every request for the panel is refused. -/
theorem refused_of_run (hnobody : s.shared.state.config.admin.username = "")
    (hrun : run t deflate pages s visits = .ok (responses, u)) :
    u.shared = s.shared ∧
      List.Forall₂ (fun v r => v.request.isAdmin = true → r = unauthorizedResponse)
        visits responses := by
  induction visits generalizing s responses with
  | nil =>
    cases hrun
    exact ⟨rfl, .nil⟩
  | cons v visits ih =>
    rcases run_cons hrun with ⟨response, rest, w, hhandle, hrest, rfl⟩
    rcases handle_of_stranger (stranger_of_no_user hnobody v) hhandle with ⟨hshared, hrefused⟩
    rcases ih (by rw [hshared]; exact hnobody) hrest with ⟨hu, hall⟩
    exact ⟨hu.trans hshared, .cons hrefused hall⟩

/-- An administrator who saves a configuration without a user is acknowledged and locked out:
every later request for the panel is refused, and the live state and the file stay as they
are from then on. -/
theorem locked_out {config : Config} (hauth : s.shared.state.config.authenticated request = true)
    (hput : AdminEndpoint.of request = .putConfig) (hwrite : outside.write = .ok)
    (hparse : parsePut t request.body = .ok config) (hnobody : config.admin.username = "") :
    ∃ response u, s.handle t deflate pages outside request ctx = .ok (response, u) ∧
      response.status = ⟨200⟩ ∧ u.shared = ⟨.new config, some config.saved⟩ ∧
      ∀ visits responses w, run t deflate pages u visits = .ok (responses, w) →
        w.shared = u.shared ∧
          List.Forall₂ (fun v r => v.request.isAdmin = true → r = unauthorizedResponse)
            visits responses := by
  have hadmin : request.isAdmin = true := AdminEndpoint.isAdmin (by rw [hput]; decide)
  have hserved := handle_of_authenticated t deflate pages outside ctx hadmin hauth
  rw [handleAdmin_putConfig hput hwrite hparse] at hserved
  refine ⟨_, _, hserved, rfl, rfl, ?_⟩
  intro visits responses w hrun
  exact refused_of_run hnobody hrun

end Strangers

/-! ## Requests with credentials -/

section Changes

variable {t : Target} {deflate : Bytes → Nat → Bytes} {pages : Pages} {outside : Surroundings}
  {s s' u w : WebAdmin} {request : Request} {ctx : RequestContext} {response : Response}
  {outcome : WriteOutcome} {shared : Shared}
  {v : Visit} {visits : List Visit} {responses : List Response} {config : Config}
  {file : Option Bytes}

/-- The live configuration can be saved, and the live application is its own. -/
structure Sound (t : Target) (shared : Shared) : Prop where
  savable : shared.state.config.Savable t
  built : shared.state.app = buildApp shared.state.config

theorem Sound.serve (h : Sound t shared) (change : AdminRequest) :
    Sound t (change.serve t outcome shared).2 := by
  refine ⟨savable_of_serve h.savable, ?_⟩
  cases change with
  | put body =>
    rw [AdminRequest.serve]
    -- refused; or accepted, with a write that fails or is done
    rcases putConfig_cases t outcome shared body with ⟨refused, _, heq⟩ |
      ⟨config, _, ⟨e, file, _, heq⟩ | ⟨_, heq⟩⟩
    · rw [heq]
      exact h.built
    · rw [heq]
      exact h.built
    · rw [heq]
  | password body =>
    rw [AdminRequest.serve]
    rcases changePassword_cases outcome shared body with ⟨refused, _, heq⟩ |
      ⟨current, newPassword, config, _, hverify, ⟨e, file, _, heq⟩ | ⟨_, heq⟩⟩
    · rw [heq]
      exact h.built
    · rw [heq]
      exact h.built
    · -- the new credentials are no part of the application
      rw [heq, (eq_of_verifyPassword hverify).2]
      exact h.built.trans (buildApp_admin _ _).symm

/-- What a request does to the live state and the file: nothing, or what a change does. -/
theorem shared_of_handle (h : s.handle t deflate pages outside request ctx = .ok (response, u)) :
    u.shared = s.shared ∨
      ∃ change : AdminRequest, u.shared = (change.serve t outside.write s.shared).2 := by
  rcases handle_cases h with ⟨_, _, _, rfl⟩ | ⟨_, _, _, rfl⟩ | ⟨_, limiter, _, rfl⟩
  · exact .inl rfl
  · rcases handleAdmin_cases t pages outside s request with hsame | ⟨change, _, hshared, _⟩
    · left
      rw [hsame]
      rfl
    · exact .inr ⟨change, hshared⟩
  · exact .inl rfl

/-- What every change keeps holds of every state of a run. -/
theorem shared_of_run {P : Shared → Prop} {Q : WriteOutcome → Prop}
    (hserve : ∀ shared outcome change, Q outcome → P shared →
      P (AdminRequest.serve t outcome shared change).2)
    (hstart : P s.shared) (hwrites : ∀ v ∈ visits, Q v.outside.write)
    (hrun : run t deflate pages s visits = .ok (responses, u)) : P u.shared := by
  induction visits generalizing s responses with
  | nil =>
    cases hrun
    exact hstart
  | cons v visits ih =>
    rcases run_cons hrun with ⟨response, rest, w, hhandle, hrest, rfl⟩
    refine ih ?_ (fun v hv => hwrites v (List.mem_cons_of_mem _ hv)) hrest
    rcases shared_of_handle hhandle with hsame | ⟨change, hshared⟩
    · rw [hsame]
      exact hstart
    · rw [hshared]
      exact hserve _ _ change (hwrites v List.mem_cons_self) hstart

theorem sound_new (hload : loadConfig t file = .ok config) : Sound t (new config file).shared :=
  ⟨savable_of_loadConfig hload, rfl⟩

theorem sound_of_run (hload : loadConfig t file = .ok config)
    (hrun : run t deflate pages (new config file) visits = .ok (responses, u)) :
    Sound t u.shared :=
  shared_of_run (Q := fun _ => True) (fun _ _ change _ h => h.serve change) (sound_new hload)
    (fun _ _ => trivial) hrun

/-- A write that does not break off leaves the file as it was, or complete. -/
theorem load_serve (h : Sound t shared) (hload : loadConfig t shared.file = .ok shared.state.config)
    (hwrite : ∀ n e, outcome ≠ .failed n e) (change : AdminRequest) :
    loadConfig t (change.serve t outcome shared).2.file =
      .ok (change.serve t outcome shared).2.state.config := by
  generalize hserve : change.serve t outcome shared = result
  rcases result with ⟨response, shared'⟩
  have hsavable : shared'.state.config.Savable t := by
    have hsound : Sound t (change.serve t outcome shared).2 := h.serve change
    rw [hserve] at hsound
    exact hsound.savable
  rcases serve_cases change hserve with ⟨_, rfl⟩ | ⟨config, e, file, _, hfailed, _, rfl⟩ | ⟨_, _, hfile⟩
  · exact hload
  · cases outcome with
    | ok => cases hfailed
    | notOpened e' =>
      cases hfailed
      exact hload
    | failed n e' => exact absurd rfl (hwrite n e')
  · rw [hfile]
    exact loadConfig_saved hsavable

/-- In every run in which no write breaks off, whatever is requested with or without
credentials, a restart from the file gives the live configuration and application back. -/
theorem restart_faithful (hload : loadConfig t file = .ok config)
    (hwrites : ∀ v ∈ visits, ∀ n e, v.outside.write ≠ .failed n e)
    (hrun : run t deflate pages (new config file) visits = .ok (responses, u)) :
    ∃ c, loadConfig t u.shared.file = .ok c ∧ (new c u.shared.file).shared = u.shared := by
  -- the file always loads to the live configuration
  have hkept : Sound t u.shared ∧ loadConfig t u.shared.file = .ok u.shared.state.config := by
    refine shared_of_run (P := fun shared => Sound t shared ∧
      loadConfig t shared.file = .ok shared.state.config)
      (Q := fun outcome => ∀ n e, outcome ≠ .failed n e) ?_ ⟨sound_new hload, hload⟩ hwrites hrun
    intro shared outcome change hwrite h
    exact ⟨h.1.serve change, load_serve h.1 h.2 hwrite change⟩
  refine ⟨_, hkept.2, ?_⟩
  rcases u with ⟨⟨⟨c, app⟩, file'⟩, limiter, stats⟩
  have hbuilt : app = buildApp c := hkept.1.built
  rw [hbuilt]
  rfl

/-- The new password is in the body of the request. -/
theorem changePassword_ok {body : Bytes} (hok : (changePassword outcome shared body).1.status = ⟨200⟩) :
    ∃ current newPassword, parsePassword body = .ok (current, newPassword) ∧
      sha256Hex (utf8 current) = shared.state.config.admin.passwordSha256 ∧
      (changePassword outcome shared body).2.state = { shared.state with
        config := { shared.state.config with admin := { shared.state.config.admin with
          passwordSha256 := sha256Hex (utf8 newPassword) } } } := by
  rcases changePassword_cases outcome shared body with ⟨refused, hstatus, heq⟩ |
    ⟨current, newPassword, config, hparse, hverify, ⟨e, file, _, heq⟩ | ⟨_, heq⟩⟩
  · rw [heq] at hok
    rcases hstatus with hstatus | hstatus
    · cases hstatus.symm.trans hok
    · cases hstatus.symm.trans hok
  · rw [heq] at hok
    cases hok
  · rcases eq_of_verifyPassword hverify with ⟨hmatches, rfl⟩
    rw [heq]
    exact ⟨current, newPassword, hparse, passwordMatches_iff.mp hmatches, rfl⟩

/-- The credentials of a configuration whose user is set. -/
theorem authenticated_iff {c : Config} (huser : c.admin.username ≠ "")
    (hset : c.admin.passwordSha256 ≠ "") :
    c.authenticated request = true ↔ ∃ header pw, request.header "authorization" = some header ∧
      headerCredentials header = some (c.admin.username, pw) ∧
      sha256Hex (utf8 pw) = c.admin.passwordSha256 := by
  -- the user is set, so the header decides
  have hnot : ¬ c.admin.username.isEmpty = true := by
    rw [String.isEmpty_iff]
    exact huser
  rw [Config.authenticated, if_neg hnot]
  cases hheader : request.header "authorization" with
  | none => simp
  | some header =>
    dsimp only
    rw [basicAuthOk_iff]
    constructor
    · intro h
      rcases h with ⟨_, _, pw, hcredentials, hdigest⟩
      exact ⟨header, pw, rfl, hcredentials, hdigest⟩
    · intro h
      rcases h with ⟨header', pw, hsame, hcredentials, hdigest⟩
      cases hsame
      exact ⟨huser, hset, pw, hcredentials, hdigest⟩

/-- The answer to a password change that is acknowledged comes from the handler. -/
theorem handle_of_password (hpassword : AdminEndpoint.of request = .password)
    (hok : response.status = ⟨200⟩)
    (h : s.handle t deflate pages outside request ctx = .ok (response, u)) :
    s.shared.state.config.authenticated request = true ∧
      (changePassword outside.write s.shared request.body).1.status = ⟨200⟩ ∧
      u.shared = (changePassword outside.write s.shared request.body).2 ∧ u.limiter = s.limiter := by
  have hadmin : request.isAdmin = true := AdminEndpoint.isAdmin (by rw [hpassword]; decide)
  rcases handle_cases h with ⟨_, _, rfl, _⟩ | ⟨_, hauth, rfl, rfl⟩ | ⟨hother, _⟩
  · cases hok
  · unfold handleAdmin at hok ⊢
    rw [hpassword] at hok ⊢
    exact ⟨hauth, hok, rfl, rfl⟩
  · rw [hadmin] at hother
    cases hother

/-- After an acknowledged password change, the requests with the new password are the ones
that are let in, and it is all that has changed: the rest of the configuration, the
application and what its limiter has recorded are the same. -/
theorem password_changed (hpassword : AdminEndpoint.of request = .password)
    (hok : response.status = ⟨200⟩)
    (h : s.handle t deflate pages outside request ctx = .ok (response, u)) :
    ∃ current newPassword, parsePassword request.body = .ok (current, newPassword) ∧
      sha256Hex (utf8 current) = s.shared.state.config.admin.passwordSha256 ∧
      u.shared.state.app = s.shared.state.app ∧ u.limiter = s.limiter ∧
      { u.shared.state.config with admin := s.shared.state.config.admin } =
        s.shared.state.config ∧
      ∀ later : Request, u.shared.state.config.authenticated later = true ↔
        ∃ header pw, later.header "authorization" = some header ∧
          headerCredentials header = some (s.shared.state.config.admin.username, pw) ∧
          sha256Hex (utf8 pw) = sha256Hex (utf8 newPassword) := by
  rcases handle_of_password hpassword hok h with ⟨hauth, hacknowledged, hshared, hlimiter⟩
  rcases changePassword_ok hacknowledged with ⟨current, newPassword, hparse, hcurrent, hstate⟩
  rw [← hshared] at hstate
  have huser : s.shared.state.config.admin.username ≠ "" := by
    intro hempty
    rw [Config.authenticated, hempty] at hauth
    cases hauth
  refine ⟨current, newPassword, hparse, hcurrent, ?_, hlimiter, ?_, ?_⟩
  · rw [hstate]
  · rw [hstate]
  · intro later
    rw [hstate]
    exact authenticated_iff huser (sha256Hex_ne_empty _)

/-- A limiter that starts anew admits whoever asks, unless it admits nobody at all. -/
theorem rateLimit_buildApp {c : Config} (hone : 1 ≤ c.security.rateLimit.requests)
    (ctx : RequestContext) :
    ∃ l, App.rateLimit t (buildApp c).rateLimiter ctx = .ok (.allow, l) := by
  cases henabled : c.security.rateLimit.enabled with
  | false =>
    simp only [App.rateLimit, buildApp, henabled, Bool.false_eq_true, if_false]
    exact ⟨none, rfl⟩
  | true =>
    -- the peer is not known, and its first request is within the limit
    have htick : RateLimiter.tick t ⟨ctx.nowUnixSecs, 0, 0⟩ c.security.rateLimit ctx.nowUnixSecs =
        .ok (.allow, ⟨ctx.nowUnixSecs, 1, 0⟩) := by
      have hopened : RateLimiter.opened c.security.rateLimit ⟨ctx.nowUnixSecs, 0, 0⟩
          ctx.nowUnixSecs = ⟨ctx.nowUnixSecs, 0, 0⟩ := by
        rcases RateLimiter.opened_cases c.security.rateLimit ⟨ctx.nowUnixSecs, 0, 0⟩
          ctx.nowUnixSecs with ⟨h, _⟩ | ⟨h, _⟩ <;> exact h
      have hcount : t.u64 ((RateLimiter.opened c.security.rateLimit ⟨ctx.nowUnixSecs, 0, 0⟩
          ctx.nowUnixSecs).count + 1) = (.ok 1 : Outcome Empty Nat) := by
        rw [hopened]
        rfl
      have hallowed := RateLimiter.tick_of_allow (Nat.zero_le _) hcount hone
      rw [hopened] at hallowed
      exact hallowed
    have hroom : (RateLimiter.new c.security.rateLimit).entries.keys.length < maxEntries := by
      show 0 < maxEntries
      decide
    have hcheck : (RateLimiter.new c.security.rateLimit).check t ctx.peer ctx.nowUnixSecs = _ :=
      RateLimiter.check_of_tick henabled hroom htick
    simp only [App.rateLimit, buildApp, henabled, if_true, hcheck]
    exact ⟨_, rfl⟩

/-- A PUT of the live configuration is accepted, and asks for no restart. -/
theorem handle_putConfig_live (s : WebAdmin) (deflate : Bytes → Nat → Bytes) (pages : Pages)
    (ctx : RequestContext) (hsound : Sound t s.shared)
    (hput : AdminEndpoint.of request = .putConfig)
    (hauth : s.shared.state.config.authenticated request = true)
    (hbody : request.body = s.shared.state.config.saved) (hwrite : outside.write = .ok) :
    ∃ u, s.handle t deflate pages outside request ctx = .ok (putReply [], u) ∧
      u.shared = ⟨s.shared.state, some s.shared.state.config.saved⟩ ∧
      u.limiter = s.shared.state.app.rateLimiter := by
  have hadmin : request.isAdmin = true := AdminEndpoint.isAdmin (by rw [hput]; decide)
  have hparse : parsePut t request.body = .ok s.shared.state.config := by
    rw [hbody]
    exact parsePut_saved hsound.savable
  have hnothing : restartRequiredFields s.shared.state.config s.shared.state.config = [] := by
    simp [restartRequiredFields]
  have hsame : AdminState.new s.shared.state.config = s.shared.state := by
    rw [AdminState.new, ← hsound.built]
  rw [handle_of_authenticated _ _ _ _ _ hadmin hauth, handleAdmin_putConfig hput hwrite hparse,
    hnothing, hsame, ← hsound.built]
  exact ⟨_, rfl, rfl, rfl⟩

/-- What a GET of the configuration returns, sent back by a PUT, changes neither the live
configuration nor the application, and asks for no restart. But the limiter starts anew: every
peer is let in again, whatever it has recorded of it. -/
theorem put_of_get (outside : Surroundings) (ctx : RequestContext)
    (hload : loadConfig t file = .ok config)
    (hrun : run t deflate pages (new config file) visits = .ok (responses, s))
    (hget : AdminEndpoint.of request = .getConfig)
    (hauth : s.shared.state.config.authenticated request = true) :
    ∃ got w, s.handle t deflate pages outside request ctx = .ok (got, w) ∧ got.status = ⟨200⟩ ∧
      ∀ (put : Request) (ctx' : RequestContext) (outside' : Surroundings),
        AdminEndpoint.of put = .putConfig → s.shared.state.config.authenticated put = true →
        put.body = got.body → outside'.write = .ok →
        ∃ u, w.handle t deflate pages outside' put ctx' = .ok (putReply [], u) ∧
          u.shared = ⟨s.shared.state, some s.shared.state.config.saved⟩ ∧
          u.limiter = s.shared.state.app.rateLimiter ∧
          (1 ≤ s.shared.state.config.security.rateLimit.requests →
            ∀ later, ∃ l, App.rateLimit t u.limiter later = .ok (.allow, l)) := by
  have hsound : Sound t s.shared := sound_of_run hload hrun
  have hadmin : request.isAdmin = true := AdminEndpoint.isAdmin (by rw [hget]; decide)
  have hgot := handle_of_authenticated t deflate pages outside ctx hadmin hauth
  rw [handleAdmin_getConfig hget] at hgot
  refine ⟨_, _, hgot, rfl, ?_⟩
  intro put ctx' outside' hput hauth' hbody hwrite
  -- what was returned is the live configuration, which can be saved
  have hlive : put.body = s.shared.state.config.saved := by
    rw [hbody, Response.json, Config.saved]
  rcases handle_putConfig_live (s.counting (.json ⟨200⟩ s.shared.state.config.toJsonString))
    deflate pages ctx' hsound hput hauth' hlive hwrite with ⟨u, hhandle, hshared, hlimiter⟩
  refine ⟨u, hhandle, hshared, hlimiter, ?_⟩
  intro hone later
  have hfresh : u.limiter = (buildApp s.shared.state.config).rateLimiter := by
    rw [← hsound.built]
    exact hlimiter
  rw [hfresh]
  exact rateLimit_buildApp hone later

/-- Every response is counted, whoever gave it. -/
theorem stats_of_handle (h : s.handle t deflate pages outside request ctx = .ok (response, u)) :
    u.stats = s.stats.record response.status.code response.body.length := by
  rcases handle_cases h with ⟨_, _, _, rfl⟩ | ⟨_, _, _, rfl⟩ | ⟨_, limiter, _, rfl⟩
  · rfl
  · have hstats : (s.handleAdmin t pages outside request).2.stats = s.stats := by
      rcases handleAdmin_cases t pages outside s request with hsame | ⟨_, _, _, hstats⟩
      · rw [hsame]
      · exact hstats
    rw [counting, hstats]
  · rfl

theorem stats_of_run (hrun : run t deflate pages s visits = .ok (responses, u)) (c : Counter) :
    u.stats c = s.stats c +
      UInt64.ofNat (Stats.counted c (responses.map fun r => (r.status.code, r.body.length))) := by
  induction visits generalizing s responses with
  | nil =>
    cases hrun
    exact (add_zero _).symm
  | cons v visits ih =>
    rcases run_cons hrun with ⟨response, rest, w, hhandle, hrest, rfl⟩
    have hcount : ∀ l, Stats.counted c ((response.status.code, response.body.length) :: l) =
        Stats.share c (response.status.code, response.body.length) + Stats.counted c l := by
      intro l
      simp [Stats.counted]
    rw [ih hrest, stats_of_handle hhandle, Stats.record_eq, List.map_cons, hcount,
      UInt64.ofNat_add, ← Stats.amount_additions, add_assoc]

/-- The statistics that an administrator is given are the exact counts of all answers since
the start, those to strangers and those of the panel included, modulo the width of a counter
and to the last digit. -/
theorem stats_exact (outside : Surroundings) (ctx : RequestContext)
    (hrun : run t deflate pages (new config file) visits = .ok (responses, s))
    (hstats : AdminEndpoint.of request = .stats)
    (hauth : s.shared.state.config.authenticated request = true) :
    ∃ response u, s.handle t deflate pages outside request ctx = .ok (response, u) ∧
      response.status = ⟨200⟩ ∧
      response.body = utf8 (Stats.reportText outside.uptime fun c =>
        Stats.counted c (responses.map fun r => (r.status.code, r.body.length)) % 2 ^ 64) ∧
      (∀ c, (s.stats c).toNat =
        Stats.counted c (responses.map fun r => (r.status.code, r.body.length)) % 2 ^ 64) ∧
      Json.parse (Stats.reportText outside.uptime fun c =>
          Stats.counted c (responses.map fun r => (r.status.code, r.body.length)) % 2 ^ 64) =
        .ok (.object (Json.members (Stats.report outside.uptime fun c =>
          Stats.counted c (responses.map fun r => (r.status.code, r.body.length)) % 2 ^ 64))) := by
  have hadmin : request.isAdmin = true := AdminEndpoint.isAdmin (by rw [hstats]; decide)
  have hcounters : ∀ c, (s.stats c).toNat =
      Stats.counted c (responses.map fun r => (r.status.code, r.body.length)) % 2 ^ 64 := by
    intro c
    have hstart : (new config file).stats c = 0 := rfl
    rw [stats_of_run hrun, hstart, zero_add, UInt64.toNat_ofNat']
  have hserved := handle_of_authenticated t deflate pages outside ctx hadmin hauth
  rw [handleAdmin_stats hstats, Stats.snapshotJson_eq] at hserved
  simp only [hcounters] at hserved
  exact ⟨_, _, hserved, rfl, rfl, hcounters, Stats.parse_reportText _ _⟩

end Changes

/-! ## A server with a panel -/

section Panel

def noPages : Pages := ⟨"", "\x7b\x7d", "\x7b\x7d"⟩

def quiet : Surroundings := ⟨fun _ => ⟨fun _ => none, fun _ => false⟩, .ok, 0⟩

/-- A request for the panel without credentials. -/
def strangerVisit : Visit := ⟨⟨.get, "/admin", .http11, [], []⟩, ⟨[], 0⟩, quiet⟩

theorem run_strangerVisit {s : WebAdmin} {t : Target} : run t (fun data _ => data) noPages s
    [strangerVisit] = .ok ([unauthorizedResponse], s.counting unauthorizedResponse) := by
  have hstranger : s.shared.state.config.authenticated strangerVisit.request = false := by
    rw [Config.authenticated]
    split <;> rfl
  rw [run, handle_of_refused (by decide) hstranger]
  rfl

/-- The panel's server with another user, whose password is not known either. -/
def otherConfig : Config := { panelConfig with admin := ⟨"root", sha256Hex (utf8 "toor")⟩ }

theorem stranger_strangerVisit (c : Config) : ∀ v ∈ [strangerVisit], Stranger c v := by
  intro v hv _
  rw [List.mem_singleton.mp hv, Config.authenticated]
  split <;> rfl

theorem blind_strangerVisit : ∃ u', run ⟨.w64, false⟩ (fun data _ => data) noPages
      (new otherConfig none) [strangerVisit] = .ok ([unauthorizedResponse], u') ∧
    u'.shared = (new otherConfig none).shared := by
  have halike : Alike (new panelConfig (some panelConfig.saved)) (new otherConfig none) :=
    ⟨rfl, rfl, rfl⟩
  exact (strangers_blind halike (stranger_strangerVisit _) (stranger_strangerVisit _)
    run_strangerVisit).2

/-- What the administrator of the panel sends along. -/
def adminHeaders : List Header := [⟨"Authorization", basicHeader true "admin" "secret"⟩]

/-- Requests with the credentials of the panel's administrator. -/
theorem authenticated_admin {c : Config} {request : Request} (hadmin : c.admin = panelConfig.admin)
    (h : request.headers = adminHeaders) : c.authenticated request = true := by
  have hnamed : ∀ value, Header.named "authorization" ⟨"Authorization", value⟩ = true := by
    intro value
    show eqIgnoreAsciiCase (utf8 "Authorization") (utf8 "authorization") = true
    decide +kernel
  have hheader : request.header "authorization" = some (basicHeader true "admin" "secret") := by
    simp only [Request.header, h, adminHeaders, List.find?_cons, hnamed, Option.map_some]
  have huser : c.admin.username ≠ "" := by
    rw [hadmin]
    decide
  have hset : c.admin.passwordSha256 ≠ "" := by
    rw [hadmin]
    exact sha256Hex_ne_empty _
  rw [authenticated_iff huser hset, hadmin]
  exact ⟨_, "secret", hheader, headerCredentials_basicHeader true (by decide), rfl⟩

/-- The administrator saves an empty object. -/
def emptyPut : Request := ⟨.put, "/admin/api/config", .http11, adminHeaders, utf8 "\x7b\x7d"⟩

theorem locked_emptyPut : ∃ response u,
    handle ⟨.w64, false⟩ (fun data _ => data) noPages quiet
        (new panelConfig (some panelConfig.saved)) emptyPut ⟨[], 0⟩ = .ok (response, u) ∧
      response.status = ⟨200⟩ ∧ u.shared = ⟨.new .default, some Config.default.saved⟩ ∧
      ∀ visits responses w,
        run ⟨.w64, false⟩ (fun data _ => data) noPages u visits = .ok (responses, w) →
        w.shared = u.shared ∧
          List.Forall₂ (fun v r => v.request.isAdmin = true → r = unauthorizedResponse)
            visits responses :=
  locked_out (authenticated_admin rfl rfl) (by decide) rfl (parsePut_empty _) rfl

/-- The administrator changes the password. -/
def changeRequest : Request :=
  ⟨.post, "/admin/api/password", .http11, adminHeaders, utf8 passwordText⟩

theorem changePassword_done (shared : Shared) {body : Bytes} {current newPassword : String}
    {copy : Config} (hparse : parsePassword body = .ok (current, newPassword))
    (hverify : verifyPassword shared.state.config current newPassword = .ok copy) :
    changePassword .ok shared body =
      (passwordReply, ⟨{ shared.state with config := copy }, some copy.saved⟩) := by
  simp only [changePassword, hparse, hverify, fsWrite]

theorem handle_changeRequest : ∃ u, handle ⟨.w64, false⟩ (fun data _ => data) noPages quiet
    (new panelConfig (some panelConfig.saved)) changeRequest ⟨[], 0⟩ = .ok (passwordReply, u) := by
  have hadmin : changeRequest.isAdmin = true := by decide
  have hpassword : AdminEndpoint.of changeRequest = .password := by decide
  have hchanged := changePassword_done (new panelConfig (some panelConfig.saved)).shared
    parse_passwordText (verify_panelConfig _)
  have hbody : changeRequest.body = utf8 passwordText := by rw [changeRequest]
  have hwrite : quiet.write = .ok := by rw [quiet]
  rw [handle_of_authenticated _ _ _ _ _ hadmin (authenticated_admin rfl rfl),
    handleAdmin_password hpassword, hbody, hwrite, hchanged]
  exact ⟨_, rfl⟩

theorem changed_changeRequest : ∃ u,
    handle ⟨.w64, false⟩ (fun data _ => data) noPages quiet
        (new panelConfig (some panelConfig.saved)) changeRequest ⟨[], 0⟩ =
          .ok (passwordReply, u) ∧
      ∃ current newPassword, parsePassword changeRequest.body = .ok (current, newPassword) ∧
        sha256Hex (utf8 current) = panelConfig.admin.passwordSha256 ∧
        u.shared.state.app = buildApp panelConfig ∧
        u.limiter = (buildApp panelConfig).rateLimiter ∧
        { u.shared.state.config with admin := panelConfig.admin } = panelConfig ∧
        ∀ later : Request, u.shared.state.config.authenticated later = true ↔
          ∃ header pw, later.header "authorization" = some header ∧
            headerCredentials header = some ("admin", pw) ∧
            sha256Hex (utf8 pw) = sha256Hex (utf8 newPassword) := by
  rcases handle_changeRequest with ⟨u, hhandle⟩
  have hpassword : AdminEndpoint.of changeRequest = .password := by decide
  rcases password_changed hpassword rfl hhandle with ⟨current, newPassword, hchanged⟩
  exact ⟨u, hhandle, current, newPassword, hchanged⟩

theorem restart_changeRequest : ∃ responses u,
    run ⟨.w64, false⟩ (fun data _ => data) noPages (new panelConfig (some panelConfig.saved))
        [⟨changeRequest, ⟨[], 0⟩, quiet⟩] = .ok (responses, u) ∧
      ∃ c, loadConfig ⟨.w64, false⟩ u.shared.file = .ok c ∧ (new c u.shared.file).shared = u.shared := by
  rcases handle_changeRequest with ⟨u, hhandle⟩
  have hrun : run ⟨.w64, false⟩ (fun data _ => data) noPages (new panelConfig (some panelConfig.saved))
      [⟨changeRequest, ⟨[], 0⟩, quiet⟩] = .ok ([passwordReply], u) := by
    rw [run, hhandle]
    rfl
  refine ⟨_, u, hrun, restart_faithful (loadConfig_saved (panelConfig_savable _)) ?_ hrun⟩
  intro v hv n e
  rw [List.mem_singleton.mp hv]
  simp [quiet]

/-- The panel's server, where a peer that asks twice in ten minutes is banned. -/
def strictConfig : Config :=
  { panelConfig with security := { SecurityConfig.default with rateLimit := ⟨true, 1, 600, 300⟩ } }

theorem strictConfig_savable : strictConfig.Savable ⟨.w64, false⟩ := by
  have hload : Config.fromJsonStr ⟨.w64, false⟩
      "\x7b\"security\": \x7b\"rate_limit\": \x7b\"requests\": 1\x7d\x7d\x7d" =
      .ok { Config.default with
        security := { SecurityConfig.default with rateLimit := ⟨true, 1, 600, 300⟩ } } := by
    decide +kernel
  exact (Config.savable_of_fromJsonStr hload).withAdmin _

/-- One peer's request to the application. -/
def healthVisit : Visit := ⟨⟨.get, "/api/health", .http11, [], []⟩, ⟨[1], 0⟩, quiet⟩

/-- The second time the peer is banned for five minutes. -/
theorem run_healthVisits : ∃ responses s,
    run ⟨.w64, false⟩ (fun data _ => data) noPages (new strictConfig (some strictConfig.saved))
        [healthVisit, healthVisit] = .ok (responses, s) ∧
      s.shared = (new strictConfig (some strictConfig.saved)).shared ∧
      s.limiter = some ⟨⟨true, 1, 600, 300⟩,
        AList.insert [1] ⟨0, 2, 300⟩ (AList.insert [1] ⟨0, 1, 0⟩ ∅), 0⟩ := by
  exact ⟨_, _, rfl, rfl, rfl⟩

def getRequest : Request := ⟨.get, "/admin/api/config", .http11, adminHeaders, []⟩

/-- The configuration that was returned, sent back. -/
def putRequest (got : Response) : Request :=
  ⟨.put, "/admin/api/config", .http11, adminHeaders, got.body⟩

/-- The banned peer is let in when the administrator has saved what was there. -/
theorem put_getRequest : ∃ responses s got w u,
    run ⟨.w64, false⟩ (fun data _ => data) noPages (new strictConfig (some strictConfig.saved))
        [healthVisit, healthVisit] = .ok (responses, s) ∧
      (∃ l, App.rateLimit ⟨.w64, false⟩ s.limiter ⟨[1], 10⟩ = .ok (.deny 290, l)) ∧
      s.handle ⟨.w64, false⟩ (fun data _ => data) noPages quiet getRequest ⟨[], 10⟩ = .ok (got, w) ∧
      w.handle ⟨.w64, false⟩ (fun data _ => data) noPages quiet (putRequest got) ⟨[], 10⟩ =
        .ok (putReply [], u) ∧
      ∃ l, App.rateLimit ⟨.w64, false⟩ u.limiter ⟨[1], 10⟩ = .ok (.allow, l) := by
  rcases run_healthVisits with ⟨responses, s, hrun, hshared, hlimiter⟩
  have hauth : ∀ request, request.headers = adminHeaders →
      s.shared.state.config.authenticated request = true := by
    intro request hheaders
    rw [hshared]
    exact authenticated_admin rfl hheaders
  have hget : AdminEndpoint.of getRequest = .getConfig := by decide
  have hput : ∀ got, AdminEndpoint.of (putRequest got) = .putConfig := by
    intro got
    have hempty : AdminEndpoint.of emptyPut = .putConfig := by decide
    exact (AdminEndpoint.of_congr (putRequest got) emptyPut rfl rfl).trans hempty
  rcases put_of_get quiet ⟨[], 10⟩ (loadConfig_saved strictConfig_savable) hrun hget (hauth _ rfl)
    with ⟨got, w, hgot, _, hback⟩
  rcases hback (putRequest got) ⟨[], 10⟩ quiet (hput got) (hauth _ rfl) rfl rfl with
    ⟨u, hserved, _, _, hadmits⟩
  refine ⟨responses, s, got, w, u, hrun, ?_, hgot, hserved, hadmits ?_ _⟩
  · rw [hlimiter]
    exact ⟨_, rfl⟩
  · rw [hshared]
    decide

def statsRequest : Request := ⟨.get, "/admin/api/stats", .http11, adminHeaders, []⟩

/-- After a stranger's visit the administrator finds one error. -/
theorem stats_strangerVisit : ∃ response u,
    handle ⟨.w64, false⟩ (fun data _ => data) noPages quiet
        ((new panelConfig none).counting unauthorizedResponse) statsRequest ⟨[], 0⟩ =
          .ok (response, u) ∧
      response.status = ⟨200⟩ ∧
      response.body = utf8 (Stats.reportText 0 fun c =>
        Stats.counted c [(401, unauthorizedResponse.body.length)] % 2 ^ 64) ∧
      (∀ c, (((new panelConfig none).counting unauthorizedResponse).stats c).toNat =
        Stats.counted c [(401, unauthorizedResponse.body.length)] % 2 ^ 64) ∧
      Json.parse (Stats.reportText 0 fun c =>
          Stats.counted c [(401, unauthorizedResponse.body.length)] % 2 ^ 64) =
        .ok (.object (Json.members (Stats.report 0 fun c =>
          Stats.counted c [(401, unauthorizedResponse.body.length)] % 2 ^ 64))) := by
  have hstats : AdminEndpoint.of statsRequest = .stats := by decide
  have hrun : run ⟨.w64, false⟩ (fun data _ => data) noPages (new panelConfig none) [strangerVisit] =
      .ok ([unauthorizedResponse], (new panelConfig none).counting unauthorizedResponse) :=
    run_strangerVisit
  rcases stats_exact quiet ⟨[], 0⟩ hrun hstats (authenticated_admin rfl rfl) with
    ⟨response, u, hhandle, hstatus, hbody, hcounters, hparse⟩
  exact ⟨response, u, hhandle, hstatus, hbody, hcounters, hparse⟩

end Panel

end WebAdmin

end FerroHttp
