import FerroHttp.Config.Saving
import FerroHttp.WebUi.Admin

/-!
# WebUi.Reload — one administrator at a time

Two results about requests that do not interleave:

1. **Failures** (`serve_failed`): a request that is not answered `200` leaves the live
   state as it was, and the file too unless the write itself broke off: then the file holds
   the part of the requested configuration's text that was written.
2. **Restarts** (`honest_iff`): which reloads name every setting in which the saved
   configuration differs from what the server runs with. Four settings of the event loop
   are never named, and the others are compared with the configuration saved last, not
   with the one the server was started with.
-/

namespace FerroHttp

open Exec Text

variable {t : Target} {outcome : WriteOutcome} {s s' : Shared} {body : Bytes}
  {response : Response} {config : Config}

/-! ## What a request can do -/

theorem parsePut_error (h : parsePut t body = .error response) : response.status = ⟨400⟩ := by
  unfold parsePut at h
  split at h
  · cases h
    rfl
  · split at h
    · cases h
    · cases h
      rfl

theorem parsePassword_error (h : parsePassword body = .error response) :
    response.status = ⟨400⟩ := by
  unfold parsePassword at h
  split at h
  · cases h
    rfl
  · split at h
    · cases h
      rfl
    · simp only at h
      split at h
      · cases h
        rfl
      · cases h

theorem verifyPassword_error {current newPassword : String}
    (h : verifyPassword config current newPassword = .error response) :
    response.status = ⟨401⟩ := by
  unfold verifyPassword at h
  split at h
  · cases h
    rfl
  · cases h

/-- A PUT is refused, or its write fails, or it is applied. -/
theorem putConfig_cases (t : Target) (outcome : WriteOutcome) (s : Shared) (body : Bytes) :
    (∃ response, parsePut t body = .error response ∧ putConfig t outcome s body = (response, s)) ∨
    (∃ config, parsePut t body = .ok config ∧
      ((∃ e file, fsWrite outcome config.saved s.file = (.error e, file) ∧
          putConfig t outcome s body = (writeError e, { s with file := file })) ∨
        (outcome = .ok ∧ putConfig t outcome s body =
          (putReply (restartRequiredFields s.state.config config),
            ⟨⟨config, buildApp config⟩, some config.saved⟩)))) := by
  cases hparse : parsePut t body with
  | error response =>
    left
    refine ⟨response, rfl, ?_⟩
    simp only [putConfig, hparse]
  | ok config =>
    right
    refine ⟨config, rfl, ?_⟩
    -- the outcome of the write decides
    simp only [putConfig, hparse]
    cases outcome with
    | ok => exact .inr ⟨rfl, rfl⟩
    | notOpened e => exact .inl ⟨e, _, rfl, rfl⟩
    | failed written e => exact .inl ⟨e, _, rfl, rfl⟩

/-- And so is a password change, which may be refused for the current password too. -/
theorem changePassword_cases (outcome : WriteOutcome) (s : Shared) (body : Bytes) :
    (∃ response, (response.status = ⟨400⟩ ∨ response.status = ⟨401⟩) ∧
      changePassword outcome s body = (response, s)) ∨
    (∃ current newPassword config, parsePassword body = .ok (current, newPassword) ∧
      verifyPassword s.state.config current newPassword = .ok config ∧
      ((∃ e file, fsWrite outcome config.saved s.file = (.error e, file) ∧
          changePassword outcome s body = (writeError e, { s with file := file })) ∨
        (outcome = .ok ∧ changePassword outcome s body =
          (passwordReply, ⟨{ s.state with config := config }, some config.saved⟩)))) := by
  cases hparse : parsePassword body with
  | error response =>
    left
    refine ⟨response, .inl (parsePassword_error hparse), ?_⟩
    simp only [changePassword, hparse]
  | ok passwords =>
    rcases passwords with ⟨current, newPassword⟩
    cases hverify : verifyPassword s.state.config current newPassword with
    | error response =>
      left
      refine ⟨response, .inr (verifyPassword_error hverify), ?_⟩
      simp only [changePassword, hparse, hverify]
    | ok config =>
      right
      refine ⟨current, newPassword, config, rfl, hverify, ?_⟩
      simp only [changePassword, hparse, hverify]
      cases outcome with
      | ok => exact .inr ⟨rfl, rfl⟩
      | notOpened e => exact .inl ⟨e, _, rfl, rfl⟩
      | failed written e => exact .inl ⟨e, _, rfl, rfl⟩

/-- The request asks for this configuration: it is the one in the body of a PUT, or the live
one with the new password, once the current password is checked. -/
def AdminRequest.Makes (t : Target) (s : Shared) (config : Config) : AdminRequest → Prop
  | .put body => parsePut t body = .ok config
  | .password body => ∃ current newPassword, parsePassword body = .ok (current, newPassword) ∧
      verifyPassword s.state.config current newPassword = .ok config

/-- Either request is refused, or the write of its configuration fails, or its configuration
is live and saved. -/
theorem serve_cases (request : AdminRequest) (h : request.serve t outcome s = (response, s')) :
    ((response.status = ⟨400⟩ ∨ response.status = ⟨401⟩) ∧ s' = s) ∨
    (∃ (config : Config) (e : String) (file : Option Bytes), request.Makes t s config ∧
      fsWrite outcome config.saved s.file = (.error e, file) ∧
      response = writeError e ∧ s' = { s with file := file }) ∨
    (response.status = ⟨200⟩ ∧ request.Makes t s s'.state.config ∧
      s'.file = some s'.state.config.saved) := by
  cases request with
  | put body =>
    rw [AdminRequest.serve] at h
    rcases putConfig_cases t outcome s body with ⟨refused, hparse, heq⟩ |
      ⟨config, hmakes, ⟨e, file, hwrite, heq⟩ | ⟨_, heq⟩⟩
    · cases h.symm.trans heq
      exact .inl ⟨.inl (parsePut_error hparse), rfl⟩
    · cases h.symm.trans heq
      exact .inr (.inl ⟨config, e, file, hmakes, hwrite, rfl, rfl⟩)
    · cases h.symm.trans heq
      exact .inr (.inr ⟨rfl, hmakes, rfl⟩)
  | password body =>
    rw [AdminRequest.serve] at h
    rcases changePassword_cases outcome s body with ⟨refused, hstatus, heq⟩ |
      ⟨current, newPassword, config, hparse, hverify, ⟨e, file, hwrite, heq⟩ | ⟨_, heq⟩⟩
    · cases h.symm.trans heq
      exact .inl ⟨hstatus, rfl⟩
    · cases h.symm.trans heq
      exact .inr (.inl ⟨config, e, file, ⟨current, newPassword, hparse, hverify⟩, hwrite, rfl, rfl⟩)
    · cases h.symm.trans heq
      exact .inr (.inr ⟨rfl, ⟨current, newPassword, hparse, hverify⟩, rfl⟩)

/-! ## Failures -/

/-- A write that fails leaves the file alone or a part of the new text in it. -/
theorem fsWrite_error {contents : Bytes} {file file' : Option Bytes} {e : String}
    (h : fsWrite outcome contents file = (.error e, file')) :
    file' = file ∨ ∃ written, outcome = .failed written e ∧ file' = some (contents.take written) := by
  cases outcome with
  | ok => cases h
  | notOpened e' =>
    cases h
    exact .inl rfl
  | failed written e' =>
    cases h
    exact .inr ⟨written, rfl, rfl⟩

/-- What is not answered 200 changes nothing, except that a write that broke off leaves in the
file the part of the requested configuration's text that was written. -/
theorem serve_failed (t : Target) (outcome : WriteOutcome) (s : Shared) (request : AdminRequest)
    (h : (request.serve t outcome s).1.status ≠ ⟨200⟩) :
    (request.serve t outcome s).2.state = s.state ∧
      ((request.serve t outcome s).2.file = s.file ∨
        ((request.serve t outcome s).1.status = ⟨500⟩ ∧ ∃ config written e,
          request.Makes t s config ∧ outcome = .failed written e ∧
          (request.serve t outcome s).2.file = some (config.saved.take written))) := by
  generalize hserve : request.serve t outcome s = result at h ⊢
  rcases result with ⟨response, s'⟩
  rcases serve_cases request hserve with ⟨_, rfl⟩ | ⟨config, e, file, hmakes, hwrite, rfl, rfl⟩ |
    ⟨hok, _⟩
  · exact ⟨rfl, .inl rfl⟩
  · refine ⟨rfl, ?_⟩
    rcases fsWrite_error hwrite with hsame | ⟨written, houtcome, hfile⟩
    · exact .inl hsame
    · exact .inr ⟨rfl, config, written, e, hmakes, houtcome, hfile⟩
  · exact (h hok).elim

/-- A server whose panel is enabled, as it is started from its file. -/
def panelConfig : Config :=
  { Config.default with admin := ⟨"admin", sha256Hex (utf8 "secret")⟩ }

def panelState : Shared := ⟨.new panelConfig, some panelConfig.saved⟩

/-- A body in UTF-8 is parsed as its text. -/
theorem parsePut_utf8 {text : String} (h : Config.fromJsonStr t text = .ok config) :
    parsePut t (utf8 text) = .ok config := by
  have htext : fromUtf8 (utf8 text) = some text := fromUtf8_eq_some_iff.mpr rfl
  simp only [parsePut, htext, h]

/-- Every saved text begins with its first section. -/
theorem saved_eq_append (c : Config) : ∃ rest,
    c.saved = utf8 "\x7b\n  \"server\": \x7b\n" ++ rest := by
  have hopen : utf8 "\x7b\n  \"server\": \x7b\n" =
      utf8 "\x7b\n" ++ utf8 "  \"server\": \x7b\n" := by decide
  unfold Config.saved Config.toJsonString ServerConfig.write
  simp only [hopen, utf8_append, List.append_assoc]
  exact ⟨_, rfl⟩

theorem parsePut_empty (t : Target) : parsePut t (utf8 "\x7b\x7d") = .ok .default :=
  parsePut_utf8 (Config.load_empty t)

/-- The disk is full once a part of the configuration that an empty object asks for is written. -/
theorem serve_brokenOff (written : Nat) :
    AdminRequest.serve ⟨.w64, false⟩ (.failed written "disk full") panelState
      (.put (utf8 "\x7b\x7d")) = (writeError "disk full",
        { panelState with file := some (Config.default.saved.take written) }) := by
  simp only [AdminRequest.serve, putConfig, parsePut_empty, fsWrite]

/-- The file is cut in the middle of its first key. -/
theorem serve_failed_brokenOff :
    ((AdminRequest.serve ⟨.w64, false⟩ (.failed 9 "disk full") panelState
        (.put (utf8 "\x7b\x7d"))).2.state = panelState.state ∧
      ((AdminRequest.serve ⟨.w64, false⟩ (.failed 9 "disk full") panelState
          (.put (utf8 "\x7b\x7d"))).2.file = panelState.file ∨
        ((AdminRequest.serve ⟨.w64, false⟩ (.failed 9 "disk full") panelState
            (.put (utf8 "\x7b\x7d"))).1.status = ⟨500⟩ ∧ ∃ config written e,
          (AdminRequest.put (utf8 "\x7b\x7d")).Makes ⟨.w64, false⟩ panelState config ∧
          WriteOutcome.failed 9 "disk full" = .failed written e ∧
          (AdminRequest.serve ⟨.w64, false⟩ (.failed 9 "disk full") panelState
            (.put (utf8 "\x7b\x7d"))).2.file = some (config.saved.take written)))) ∧
      (AdminRequest.serve ⟨.w64, false⟩ (.failed 9 "disk full") panelState
        (.put (utf8 "\x7b\x7d"))).2.file = some (utf8 "\x7b\n  \"serv") := by
  refine ⟨serve_failed _ _ _ _ ?_, ?_⟩
  · rw [serve_brokenOff]
    decide
  · rw [serve_brokenOff]
    rcases saved_eq_append .default with ⟨rest, hrest⟩
    simp only [hrest]
    rfl

/-- A write that breaks off at once leaves the file empty. -/
theorem not_serve_failed : ¬ ∀ t outcome s request,
    (AdminRequest.serve t outcome s request).1.status ≠ ⟨200⟩ →
    (AdminRequest.serve t outcome s request).2.state = s.state ∧
      (AdminRequest.serve t outcome s request).2.file = s.file := by
  intro h
  -- the file was not empty before
  have hfile := (h ⟨.w64, false⟩ (.failed 0 "disk full") panelState (.put (utf8 "\x7b\x7d"))
    (by rw [serve_brokenOff]; decide)).2
  rw [serve_brokenOff] at hfile
  rcases saved_eq_append panelConfig with ⟨rest, hrest⟩
  simp only [panelState, hrest] at hfile
  cases hfile

/-! ## Restarts -/

/-- The settings that are fixed at startup. -/
inductive Setting where
  | bind
  | port
  | workerThreads
  | keepAlive
  | maxConnections
  | requestMaxBytes
  | securityHeaders
  | tls
deriving DecidableEq, Repr

def Setting.name : Setting → String
  | .bind => "server.bind"
  | .port => "server.port"
  | .workerThreads => "server.worker_threads"
  | .keepAlive => "server.keep_alive_secs"
  | .maxConnections => "server.max_connections"
  | .requestMaxBytes => "server.request_max_bytes"
  | .securityHeaders => "security.enable_security_headers"
  | .tls => "tls"

/-- The setting has the same effect in both. -/
def Setting.Same : Setting → Startup → Startup → Prop
  | .bind, a, b => a.bind = b.bind
  | .port, a, b => a.port = b.port
  | .workerThreads, a, b => a.options.workerThreads = b.options.workerThreads
  | .keepAlive, a, b => a.options.idleTimeout = b.options.idleTimeout
  | .maxConnections, a, b => a.options.maxConnections = b.options.maxConnections
  | .requestMaxBytes, a, b => a.options.maxBody = b.options.maxBody
  | .securityHeaders, a, b => a.options.securityHeaders = b.options.securityHeaders
  | .tls, a, b => a.tls = b.tls

/-- The settings are all there is. -/
theorem Setting.same_iff {a b : Startup} : (∀ setting : Setting, setting.Same a b) ↔ a = b := by
  constructor
  · intro h
    rcases a with ⟨bind, port, ⟨idle, conns, headers, body, threads⟩, tls⟩
    obtain rfl := h .bind
    obtain rfl := h .port
    obtain rfl := h .workerThreads
    obtain rfl := h .keepAlive
    obtain rfl := h .maxConnections
    obtain rfl := h .requestMaxBytes
    obtain rfl := h .securityHeaders
    obtain rfl := h .tls
    rfl
  · rintro rfl setting
    cases setting <;> rfl

/-- Every setting in which the saved configuration differs from the running one is named, and
if none is named, a fresh start would run with the same parameters. -/
def Honest (startup old new : Config) : Prop :=
  (∀ setting : Setting, ¬ setting.Same startup.startup new.startup →
      setting.name ∈ restartRequiredFields old new) ∧
    (restartRequiredFields old new = [] → startup.startup = new.startup)

/-- The settings that are never named are the running ones, and the others differ from the
running ones only where they also differ from those saved last. -/
structure Reported (startup old new : Config) : Prop where
  keepAlive : startup.options.idleTimeout = new.options.idleTimeout
  maxConnections : startup.server.maxConnections = new.server.maxConnections
  requestMaxBytes : startup.server.requestMaxBytes = new.server.requestMaxBytes
  securityHeaders : startup.security.enableSecurityHeaders = new.security.enableSecurityHeaders
  bind : startup.server.bind ≠ new.server.bind → old.server.bind ≠ new.server.bind
  port : startup.server.port ≠ new.server.port → old.server.port ≠ new.server.port
  workerThreads : startup.server.workerThreads ≠ new.server.workerThreads →
    old.server.workerThreads ≠ new.server.workerThreads
  tls : startup.startup.tls ≠ new.startup.tls → old.tls ≠ new.tls

section Restarts

variable {startup old new : Config}

theorem mem_restartRequiredFields {f : String} : f ∈ restartRequiredFields old new ↔
    (f = "server.bind" ∧ old.server.bind ≠ new.server.bind) ∨
    (f = "server.port" ∧ old.server.port ≠ new.server.port) ∨
    (f = "server.worker_threads" ∧ old.server.workerThreads ≠ new.server.workerThreads) ∨
    (f = "tls" ∧ old.tls ≠ new.tls) := by
  have hmem : ∀ {p : Prop} [Decidable p] {g : String},
      f ∈ (if p then [g] else []) ↔ f = g ∧ p := by
    intro p _ g
    by_cases hp : p <;> simp [hp]
  simp only [restartRequiredFields, List.mem_append, hmem, or_assoc]

theorem honest_iff_reported : Honest startup old new ↔ Reported startup old new := by
  constructor
  · rintro ⟨hnamed, _⟩
    -- what is not in the list has the same effect
    have hunnamed : ∀ setting : Setting, (∀ f, f ∈ restartRequiredFields old new →
        f ≠ setting.name) → setting.Same startup.startup new.startup := by
      intro setting hnot
      by_contra hdiffers
      exact hnot _ (hnamed setting hdiffers) rfl
    have hnever : ∀ setting : Setting, setting.name ∉
        ["server.bind", "server.port", "server.worker_threads", "tls"] →
        setting.Same startup.startup new.startup := by
      intro setting hnot
      apply hunnamed
      rintro f hf rfl
      apply hnot
      rcases mem_restartRequiredFields.mp hf with h | h | h | h <;> simp [h.1]
    -- four settings are not in any list, the others are when they differ
    refine ⟨hnever .keepAlive (by decide), hnever .maxConnections (by decide),
      hnever .requestMaxBytes (by decide), hnever .securityHeaders (by decide), ?_, ?_, ?_, ?_⟩
    · intro hdiffers
      simpa [mem_restartRequiredFields, Setting.name] using hnamed .bind hdiffers
    · intro hdiffers
      simpa [mem_restartRequiredFields, Setting.name] using hnamed .port hdiffers
    · intro hdiffers
      simpa [mem_restartRequiredFields, Setting.name] using hnamed .workerThreads hdiffers
    · intro hdiffers
      simpa [mem_restartRequiredFields, Setting.name] using hnamed .tls hdiffers
  · intro h
    have hnamed : ∀ setting : Setting, ¬ setting.Same startup.startup new.startup →
        setting.name ∈ restartRequiredFields old new := by
      intro setting hdiffers
      rw [mem_restartRequiredFields]
      cases setting with
      | bind => exact .inl ⟨rfl, h.bind hdiffers⟩
      | port => exact .inr (.inl ⟨rfl, h.port hdiffers⟩)
      | workerThreads => exact .inr (.inr (.inl ⟨rfl, h.workerThreads hdiffers⟩))
      | keepAlive => exact (hdiffers h.keepAlive).elim
      | maxConnections => exact (hdiffers h.maxConnections).elim
      | requestMaxBytes => exact (hdiffers h.requestMaxBytes).elim
      | securityHeaders => exact (hdiffers h.securityHeaders).elim
      | tls => exact .inr (.inr (.inr ⟨rfl, h.tls hdiffers⟩))
    refine ⟨hnamed, ?_⟩
    intro hnil
    -- nothing differs, or it would be named
    rw [← Setting.same_iff]
    intro setting
    by_contra hdiffers
    have hmem := hnamed setting hdiffers
    rw [hnil] at hmem
    cases hmem

/-! ### Sequences of reloads -/

/-- Every accepted PUT of a sequence satisfies `P`, with the state before it, its reply and the
state after it. -/
def EveryPut (t : Target) (P : Shared → Response → Shared → Prop) :
    Shared → List (Bytes × WriteOutcome) → Prop
  | _, [] => True
  | s, (body, outcome) :: puts =>
    ((putConfig t outcome s body).1.status = ⟨200⟩ →
      P s (putConfig t outcome s body).1 (putConfig t outcome s body).2) ∧
    EveryPut t P (putConfig t outcome s body).2 puts

/-- The reply of a PUT names what differs from the server that was started, and the live
application is the one of the saved configuration. -/
def HonestReply (startup : Config) (s : Shared) (response : Response) (s' : Shared) : Prop :=
  response = putReply (restartRequiredFields s.state.config s'.state.config) ∧
    s'.state.app = buildApp s'.state.config ∧ Honest startup s.state.config s'.state.config

theorem putConfig_accepted (h : (putConfig t outcome s body).1.status = ⟨200⟩) :
    (putConfig t outcome s body).1 = putReply (restartRequiredFields s.state.config
        (putConfig t outcome s body).2.state.config) ∧
      (putConfig t outcome s body).2.state.app =
        buildApp (putConfig t outcome s body).2.state.config := by
  rcases putConfig_cases t outcome s body with ⟨refused, hparse, heq⟩ |
    ⟨config, _, ⟨e, file, _, heq⟩ | ⟨_, heq⟩⟩
  · rw [heq, parsePut_error hparse] at h
    cases h
  · rw [heq] at h
    cases h
  · rw [heq]
    exact ⟨rfl, rfl⟩

/-- Which sequences of reloads are reported honestly. -/
theorem honest_iff (t : Target) (startup : Config) (file : Option Bytes)
    (puts : List (Bytes × WriteOutcome)) :
    EveryPut t (HonestReply startup) ⟨.new startup, file⟩ puts ↔
      EveryPut t (fun s _ s' => Reported startup s.state.config s'.state.config)
        ⟨.new startup, file⟩ puts := by
  generalize (⟨.new startup, file⟩ : Shared) = s
  induction puts generalizing s with
  | nil => exact Iff.rfl
  | cons put puts ih =>
    rcases put with ⟨body, outcome⟩
    simp only [EveryPut, ih]
    -- the first PUT, whatever follows it
    refine and_congr_left fun _ => ?_
    constructor
    · intro h haccepted
      exact honest_iff_reported.mp (h haccepted).2.2
    · intro h haccepted
      rcases putConfig_accepted haccepted with ⟨hreply, happ⟩
      exact ⟨hreply, happ, honest_iff_reported.mpr (h haccepted)⟩

/-- The panel's server is told to add security headers, without being told to restart. -/
theorem not_honest : ¬ ∀ t startup file puts,
    EveryPut t (HonestReply startup) ⟨.new startup, file⟩ puts := by
  intro h
  have haccepted : parsePut ⟨.w64, false⟩
      (utf8 "\x7b\"security\": \x7b\"enable_security_headers\": true\x7d\x7d") =
      .ok { Config.default with
        security := { SecurityConfig.default with enableSecurityHeaders := true } } :=
    parsePut_utf8 (by decide +kernel)
  have hput := (h ⟨.w64, false⟩ panelConfig (some panelConfig.saved)
    [(utf8 "\x7b\"security\": \x7b\"enable_security_headers\": true\x7d\x7d", .ok)]).1
  simp only [putConfig, haccepted, fsWrite] at hput
  have hsame := (hput rfl).2.2.2 (by decide +kernel)
  revert hsame
  decide +kernel

end Restarts

end FerroHttp
