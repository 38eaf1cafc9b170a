import FerroHttp.WebUi.Agreement

/-!
# WebUi.Serial — concurrent requests against one after another

An acknowledged request should leave its mark on the live configuration and on the file as
if the acknowledged requests had been executed one after another, in the order in which they
publish. Two things can go wrong: a request publishes after another one has overwritten its
file and published already, and a password change publishes a copy that misses an edit made
since. `serialized_of_inOrder` excludes them at the publishing steps (`InOrder`).
-/

namespace FerroHttp

open Exec Text Interleave

section Serial

variable {ι : Type} {t : Target} {outcome : WriteOutcome} {s s' : Shared} {request : AdminRequest}
  {requests : ι → AdminRequest} {order : List ι} {config : Config}

/-! ## One after another -/

/-- The acknowledged requests executed in an order: each is answered 200. -/
inductive Serves (t : Target) (requests : ι → AdminRequest) (s : Shared) : List ι → Shared → Prop
  | nil : Serves t requests s [] s
  | snoc {order : List ι} {s' : Shared} {i : ι} (before : Serves t requests s order s')
      (acknowledged : ((requests i).serve t .ok s').1.status = ⟨200⟩) :
      Serves t requests s (order ++ [i]) ((requests i).serve t .ok s').2

/-- A request depends on the live state only. -/
theorem serve_eq (request : AdminRequest) (hstate : s.state = s'.state) :
    (request.serve t .ok s).1 = (request.serve t .ok s').1 ∧
      (request.serve t .ok s).2.state = (request.serve t .ok s').2.state := by
  -- the file is written, never read
  cases request with
  | put body =>
    simp only [AdminRequest.serve, putConfig, hstate]
    cases parsePut t body with
    | error response => exact ⟨rfl, hstate⟩
    | ok config => exact ⟨rfl, rfl⟩
  | password body =>
    simp only [AdminRequest.serve, changePassword, hstate]
    cases parsePassword body with
    | error response => exact ⟨rfl, hstate⟩
    | ok passwords =>
      rcases passwords with ⟨current, newPassword⟩
      simp only
      cases verifyPassword s'.state.config current newPassword with
      | error response => exact ⟨rfl, hstate⟩
      | ok config => exact ⟨rfl, rfl⟩

/-- An acknowledged request leaves its configuration in the file. -/
theorem file_of_serve (h : (request.serve t outcome s).1.status = ⟨200⟩) :
    (request.serve t outcome s).2.file = some (request.serve t outcome s).2.state.config.saved := by
  generalize hserve : request.serve t outcome s = result at h ⊢
  rcases result with ⟨response, s'⟩
  rcases serve_cases request hserve with ⟨hstatus, _⟩ | ⟨config, e, file, _, _, rfl, _⟩ | ⟨_, _, hfile⟩
  · rcases hstatus with hstatus | hstatus
    · simp only [hstatus] at h
      cases h
    · simp only [hstatus] at h
      cases h
  · cases h
  · exact hfile

theorem savable_of_parsePut {body : Bytes} (h : parsePut t body = .ok config) :
    config.Savable t := by
  unfold parsePut at h
  split at h
  · cases h
  · split at h
    · rename_i hload
      cases h
      exact Config.savable_of_fromJsonStr hload
    · cases h

/-- The copy that is made for a password change. -/
theorem eq_of_verifyPassword {current newPassword : String} {copy : Config}
    (h : verifyPassword config current newPassword = .ok copy) :
    passwordMatches current config.admin.passwordSha256 = true ∧
      copy = { config with admin := { config.admin with
        passwordSha256 := sha256Hex (utf8 newPassword) } } := by
  unfold verifyPassword at h
  cases hmatches : passwordMatches current config.admin.passwordSha256 with
  | false =>
    rw [hmatches] at h
    cases h
  | true =>
    rw [hmatches] at h
    cases h
    exact ⟨rfl, rfl⟩

/-- A request makes a configuration that can be saved from one that can be saved. -/
theorem savable_of_serve (h : s.state.config.Savable t) :
    (request.serve t outcome s).2.state.config.Savable t := by
  cases request with
  | put body =>
    rw [AdminRequest.serve]
    rcases putConfig_cases t outcome s body with ⟨refused, _, heq⟩ |
      ⟨config, hparse, ⟨e, file, _, heq⟩ | ⟨_, heq⟩⟩
    · rw [heq]
      exact h
    · rw [heq]
      exact h
    · rw [heq]
      exact savable_of_parsePut hparse
  | password body =>
    rw [AdminRequest.serve]
    rcases changePassword_cases outcome s body with ⟨refused, _, heq⟩ |
      ⟨current, newPassword, config, _, hverify, ⟨e, file, _, heq⟩ | ⟨_, heq⟩⟩
    · rw [heq]
      exact h
    · rw [heq]
      exact h
    · rw [heq, (eq_of_verifyPassword hverify).2]
      exact h.withAdmin _

theorem loadConfig_saved (h : config.Savable t) : loadConfig t (some config.saved) = .ok config := by
  have htext : fromUtf8 config.saved = some config.toJsonString := fromUtf8_eq_some_iff.mpr rfl
  simp only [loadConfig, htext, h.load]

theorem savable_of_loadConfig {file : Option Bytes} (h : loadConfig t file = .ok config) :
    config.Savable t := by
  unfold loadConfig at h
  split at h
  · cases h
    exact Config.savable_default t
  · split at h
    · exact Config.savable_of_fromJsonStr h
    · cases h

/-- One after another, the file is always what the live configuration is loaded from. -/
theorem Serves.load (h : Serves t requests s order s') (hsavable : s.state.config.Savable t)
    (hload : loadConfig t s.file = .ok s.state.config) :
    s'.state.config.Savable t ∧ loadConfig t s'.file = .ok s'.state.config := by
  -- induction on the order: each acknowledged request saves what it makes live
  induction h with
  | nil => exact ⟨hsavable, hload⟩
  | snoc _ acknowledged ih =>
    refine ⟨savable_of_serve ih.1, ?_⟩
    rw [file_of_serve acknowledged]
    exact loadConfig_saved (savable_of_serve ih.1)

/-! ## Interleaved -/

/-- The configuration that a task has written and not yet published. -/
def Task.written : Task → Option Config
  | .putCompare config => some config
  | .putBuild config _ => some config
  | .putPublish config _ _ => some config
  | .passwordPublish config => some config
  | _ => none

/-- The configuration that a task publishes next. -/
def Task.publishes : Task → Option Config
  | .putPublish config _ _ => some config
  | .passwordPublish config => some config
  | _ => none

/-- What a publishing step needs: the file holds what it publishes, or what another request
has written and will publish; and for a password change, its current password is still the
live one, and its copy differs from the live configuration in the password only. -/
structure InOrder [DecidableEq ι] (t : Target) (requests : ι → AdminRequest)
    (s : System ι Shared Task) (e : ι × WriteOutcome) : Prop where
  file : ∀ config, (s.tasks e.1).publishes = some config →
    s.shared.file = some config.saved ∨ ∃ j config', j ≠ e.1 ∧
      (s.tasks j).written = some config' ∧ s.shared.file = some config'.saved
  password : ∀ config body current newPassword, s.tasks e.1 = .passwordPublish config →
    requests e.1 = .password body → parsePassword body = .ok (current, newPassword) →
    passwordMatches current s.shared.state.config.admin.passwordSha256 = true ∧
      config = { s.shared.state.config with admin := { s.shared.state.config.admin with
        passwordSha256 := config.admin.passwordSha256 } }

/-- The file and the live configuration are equal, and are what the acknowledged requests give
when they are executed one after another. -/
def Serialized (t : Target) (requests : ι → AdminRequest) (start : Shared)
    (s : System ι Shared Task) : Prop :=
  loadConfig t s.shared.file = .ok s.shared.state.config ∧
    ∃ order : List ι, order.Nodup ∧
      (∀ i, i ∈ order ↔ ∃ response, s.tasks i = .done response ∧ response.status = ⟨200⟩) ∧
      Serves t requests start order s.shared

/-- Where a task comes from. -/
def Task.From (t : Target) (request : AdminRequest) : Task → Prop
  | .start r => r = request
  | .putWrite config => ∃ body, request = .put body ∧ parsePut t body = .ok config
  | .putCompare config => ∃ body, request = .put body ∧ parsePut t body = .ok config
  | .putBuild config _ => ∃ body, request = .put body ∧ parsePut t body = .ok config
  | .putPublish config _ app =>
    (∃ body, request = .put body ∧ parsePut t body = .ok config) ∧ app = buildApp config
  | .passwordVerify current newPassword =>
    ∃ body, request = .password body ∧ parsePassword body = .ok (current, newPassword)
  | .passwordWrite config => ∃ body current newPassword, request = .password body ∧
    parsePassword body = .ok (current, newPassword) ∧
    config.admin.passwordSha256 = sha256Hex (utf8 newPassword)
  | .passwordPublish config => ∃ body current newPassword, request = .password body ∧
    parsePassword body = .ok (current, newPassword) ∧
    config.admin.passwordSha256 = sha256Hex (utf8 newPassword)
  | .done _ => True

/-- Up to the file, the shared state is the one of the acknowledged requests in the order in
which they were published. The file is theirs too, or what is still to be published. -/
structure Published (t : Target) (requests : ι → AdminRequest) (start : Shared)
    (s : System ι Shared Task) : Prop where
  origin : ∀ i, (s.tasks i).From t (requests i)
  order : ∃ order sh, order.Nodup ∧
    (∀ i, i ∈ order ↔ ∃ response, s.tasks i = .done response ∧ response.status = ⟨200⟩) ∧
    Serves t requests start order sh ∧ sh.state = s.shared.state ∧
    (sh.file = s.shared.file ∨ ∃ i config, (s.tasks i).written = some config ∧
      s.shared.file = some config.saved)

/-- What a task does when it does not publish: it stays unacknowledged, leaves the live state
as it is, and the file too unless it writes it; what it has written it keeps. -/
structure Task.Quiet (t : Target) (request : AdminRequest) (s : Shared) (task : Task)
    (next : Task × Shared) : Prop where
  origin : next.1.From t request
  acknowledged : ∀ response, next.1 = .done response → response.status = ⟨200⟩ →
    task = .done response
  state : next.2.state = s.state
  file : (next.2.file = s.file ∧ ∀ config, task.written = some config →
      next.1.written = some config) ∨
    ∃ config, next.1.written = some config ∧ next.2.file = some config.saved
  done : ∀ response, task = .done response → next.1 = .done response

section Quiet

variable {task next : Task} {response : Response} {file : Option Bytes}

/-- A refusal changes nothing. -/
theorem Task.Quiet.refused (hstatus : response.status ≠ ⟨200⟩) (hnone : task.written = none)
    (hnot : ∀ r, task ≠ .done r) : Task.Quiet t request s task (.done response, s) := by
  refine ⟨trivial, ?_, rfl, .inl ⟨rfl, ?_⟩, ?_⟩
  · intro r hdone hok
    cases hdone
    exact (hstatus hok).elim
  · intro config hwritten
    rw [hnone] at hwritten
    cases hwritten
  · intro r hdone
    exact (hnot r hdone).elim

/-- Going on without writing changes nothing either. -/
theorem Task.Quiet.advanced (horigin : next.From t request) (hnext : ∀ r, next ≠ .done r)
    (hnot : ∀ r, task ≠ .done r)
    (hwritten : ∀ config, task.written = some config → next.written = some config) :
    Task.Quiet t request s task (next, s) := by
  refine ⟨horigin, ?_, rfl, .inl ⟨rfl, hwritten⟩, ?_⟩
  · intro r hdone
    exact (hnext r hdone).elim
  · intro r hdone
    exact (hnot r hdone).elim

/-- A write puts what is to be published into the file. -/
theorem Task.Quiet.wrote (horigin : next.From t request) (hnext : ∀ r, next ≠ .done r)
    (hnot : ∀ r, task ≠ .done r) (hwritten : next.written = some config) :
    Task.Quiet t request s task (next, { s with file := some config.saved }) := by
  refine ⟨horigin, ?_, rfl, .inr ⟨config, hwritten, rfl⟩, ?_⟩
  · intro r hdone
    exact (hnext r hdone).elim
  · intro r hdone
    exact (hnot r hdone).elim

theorem Task.quiet_of_publishes_eq_none (h : task.publishes = none)
    (horigin : task.From t request) : task.Quiet t request s (task.step t .ok s) := by
  have hbad : (⟨400⟩ : StatusCode) ≠ ⟨200⟩ ∧ (⟨401⟩ : StatusCode) ≠ ⟨200⟩ := by decide
  -- one case for each point of the two handlers
  cases task with
  | start r =>
    obtain rfl : r = request := horigin
    cases r with
    | put body =>
      simp only [Task.step, AdminRequest.parse]
      cases hparse : parsePut t body with
      | error response =>
        exact .refused (by rw [parsePut_error hparse]; exact hbad.1) rfl (by simp)
      | ok config => exact .advanced ⟨body, rfl, hparse⟩ (by simp) (by simp) (by simp [written])
    | password body =>
      simp only [Task.step, AdminRequest.parse]
      cases hparse : parsePassword body with
      | error response =>
        exact .refused (by rw [parsePassword_error hparse]; exact hbad.1) rfl (by simp)
      | ok passwords => exact .advanced ⟨body, rfl, hparse⟩ (by simp) (by simp) (by simp [written])
  | putWrite config => exact .wrote horigin (by simp) (by simp) rfl
  | putCompare config => exact .advanced horigin (by simp) (by simp) (fun _ => id)
  | putBuild config restart => exact .advanced ⟨horigin, rfl⟩ (by simp) (by simp) (fun _ => id)
  | putPublish config restart app => cases h
  | passwordVerify current newPassword =>
    simp only [Task.step]
    cases hverify : verifyPassword s.state.config current newPassword with
    | error response =>
      exact .refused (by rw [verifyPassword_error hverify]; exact hbad.2) rfl (by simp)
    | ok config =>
      rcases horigin with ⟨body, hrequest, hparse⟩
      have hnew : config.admin.passwordSha256 = sha256Hex (utf8 newPassword) := by
        rw [(eq_of_verifyPassword hverify).2]
      exact .advanced ⟨body, current, newPassword, hrequest, hparse, hnew⟩ (by simp) (by simp)
        (by simp [written])
  | passwordWrite config => exact .wrote horigin (by simp) (by simp) rfl
  | passwordPublish config => cases h
  | done response =>
    exact ⟨trivial, fun r hdone _ => hdone, rfl, .inl ⟨rfl, fun _ => id⟩, fun r hdone => hdone⟩

end Quiet

/-! ## Runs -/

variable [DecidableEq ι] {start : Shared} {sys : System ι Shared Task} {e : ι × WriteOutcome}

omit [DecidableEq ι] in
theorem published_ofRequests (t : Target) (config : Config) (file : Option Bytes)
    (requests : ι → AdminRequest) :
    Published t requests ⟨.new config, file⟩ (System.ofRequests config file requests) := by
  refine ⟨fun i => rfl, [], _, List.nodup_nil, ?_, .nil, rfl, .inl rfl⟩
  intro i
  constructor
  · intro hmem
    cases hmem
  · rintro ⟨response, hdone, _⟩
    cases hdone

/-- The other steps keep what was published. -/
theorem Published.quiet (h : Published t requests start sys) (hok : e.2 = .ok)
    (hnone : (sys.tasks e.1).publishes = none) :
    Published t requests start (sys.step (Task.step t) e) := by
  have hquiet := Task.quiet_of_publishes_eq_none (s := sys.shared) hnone (h.origin e.1)
  rw [← hok] at hquiet
  rcases h.order with ⟨order, sh, hnodup, hmem, hserves, hstate, hfile⟩
  refine ⟨?_, order, sh, hnodup, ?_, hserves, hstate.trans hquiet.state.symm, ?_⟩
  · intro i
    by_cases heq : i = e.1
    · rw [heq, System.tasks_step_self]
      exact hquiet.origin
    · rw [System.tasks_step_ne heq]
      exact h.origin i
  · intro i
    rw [hmem]
    -- nobody is acknowledged by such a step
    by_cases heq : i = e.1
    · rw [heq, System.tasks_step_self]
      constructor
      · rintro ⟨response, hdone, hstatus⟩
        exact ⟨response, hquiet.done response hdone, hstatus⟩
      · rintro ⟨response, hdone, hstatus⟩
        exact ⟨response, hquiet.acknowledged response hdone hstatus, hstatus⟩
    · rw [System.tasks_step_ne heq]
  · rcases hquiet.file with ⟨hsame, hwritten⟩ | ⟨config, hwritten, hnew⟩
    · -- the file stays, and so does the task that has written it
      rcases hfile with hfile | ⟨i, config, hi, hfile⟩
      · exact .inl (hfile.trans hsame.symm)
      · refine .inr ⟨i, config, ?_, hsame.trans hfile⟩
        by_cases heq : i = e.1
        · rw [heq, System.tasks_step_self]
          rw [heq] at hi
          exact hwritten config hi
        · rw [System.tasks_step_ne heq]
          exact hi
    · -- the step has just written the file
      refine .inr ⟨e.1, config, ?_, hnew⟩
      rw [System.tasks_step_self]
      exact hwritten

/-- A publication does to the live state what the whole request would do now. -/
theorem InOrder.serve (h : InOrder t requests sys e) (horigin : (sys.tasks e.1).From t (requests e.1))
    (hpublishes : (sys.tasks e.1).publishes = some config) : ∃ response,
      (sys.tasks e.1).step t e.2 sys.shared = (.done response,
        { sys.shared with state := ((requests e.1).serve t .ok sys.shared).2.state }) ∧
      response.status = ⟨200⟩ ∧ ((requests e.1).serve t .ok sys.shared).1.status = ⟨200⟩ ∧
      ((requests e.1).serve t .ok sys.shared).2.state.config = config := by
  cases htask : sys.tasks e.1 with
  | putPublish config' restart app =>
    rw [htask] at horigin hpublishes
    cases hpublishes
    -- a PUT makes the same configuration whenever it is executed
    rcases horigin with ⟨⟨body, hrequest, hparse⟩, rfl⟩
    have hserve : (requests e.1).serve t .ok sys.shared =
        (putReply (restartRequiredFields sys.shared.state.config config),
          ⟨⟨config, buildApp config⟩, some config.saved⟩) := by
      simp only [hrequest, AdminRequest.serve, putConfig, hparse, fsWrite]
    rw [hserve]
    exact ⟨putReply restart, rfl, rfl, rfl, rfl⟩
  | passwordPublish config' =>
    rw [htask] at horigin hpublishes
    cases hpublishes
    rcases horigin with ⟨body, current, newPassword, hrequest, hparse, hnew⟩
    rcases h.password config body current newPassword htask hrequest hparse with ⟨hmatches, hcopy⟩
    rw [hnew] at hcopy
    -- the check succeeds again, and makes the same copy
    have hverify : verifyPassword sys.shared.state.config current newPassword = .ok config := by
      rw [verifyPassword, hmatches, hcopy]
      rfl
    have hserve : (requests e.1).serve t .ok sys.shared =
        (passwordReply, ⟨{ sys.shared.state with config := config }, some config.saved⟩) := by
      simp only [hrequest, AdminRequest.serve, changePassword, hparse, hverify, fsWrite]
    rw [hserve]
    exact ⟨passwordReply, rfl, rfl, rfl, rfl⟩
  | _ =>
    rw [htask] at hpublishes
    cases hpublishes

/-- A publication in order is the next request of the serial execution. -/
theorem Published.publish (h : Published t requests start sys) (horder : InOrder t requests sys e)
    (hpublishes : (sys.tasks e.1).publishes = some config) :
    Published t requests start (sys.step (Task.step t) e) := by
  rcases horder.serve (h.origin e.1) hpublishes with ⟨response, hstep, hstatus, hserved, hconfig⟩
  rcases h.order with ⟨order, sh, hnodup, hmem, hserves, hstate, _⟩
  rcases serve_eq (t := t) (requests e.1) hstate with ⟨hresponse, hstate'⟩
  have hacknowledged : ((requests e.1).serve t .ok sh).1.status = ⟨200⟩ := by
    rw [hresponse]
    exact hserved
  have hrunning : ∀ response, sys.tasks e.1 ≠ .done response := by
    intro response hdone
    rw [hdone] at hpublishes
    cases hpublishes
  -- the new serial order has this request at its end
  refine ⟨?_, order ++ [e.1], ((requests e.1).serve t .ok sh).2, ?_, ?_, .snoc hserves hacknowledged,
    ?_, ?_⟩
  · intro i
    by_cases heq : i = e.1
    · rw [heq, System.tasks_step_self, hstep]
      trivial
    · rw [System.tasks_step_ne heq]
      exact h.origin i
  · rw [List.nodup_append_comm, List.singleton_append, List.nodup_cons]
    refine ⟨?_, hnodup⟩
    rw [hmem]
    rintro ⟨response, hdone, _⟩
    exact hrunning response hdone
  · intro i
    rw [List.mem_append, List.mem_singleton, hmem]
    by_cases heq : i = e.1
    · rw [heq, System.tasks_step_self, hstep]
      exact ⟨fun _ => ⟨response, rfl, hstatus⟩, fun _ => .inr rfl⟩
    · rw [System.tasks_step_ne heq]
      simp only [heq, or_false]
  · rw [hstate']
    simp only [System.step, hstep]
  · have hfile : (sys.step (Task.step t) e).shared.file = sys.shared.file := by
      simp only [System.step, hstep]
    rw [hfile, file_of_serve hacknowledged, hstate', hconfig]
    -- the file is this request's, or belongs to one that is still to publish
    rcases horder.file config hpublishes with hown | ⟨j, config', hne, hwritten, hother⟩
    · exact .inl hown.symm
    · refine .inr ⟨j, config', ?_, hother⟩
      rw [System.tasks_step_ne hne]
      exact hwritten

theorem Published.step (h : Published t requests start sys)
    (horder : InOrder t requests sys e ∧ e.2 = .ok) :
    Published t requests start (sys.step (Task.step t) e) := by
  cases hpublishes : (sys.tasks e.1).publishes with
  | none => exact h.quiet horder.2 hpublishes
  | some config => exact h.publish horder.1 hpublishes

end Serial

/-- A run whose publications are in order is serializable: when all requests have returned,
the file and the live configuration are what the acknowledged requests give one after another. -/
theorem serialized_of_inOrder {ι : Type} [DecidableEq ι] (t : Target) (config : Config)
    (file : Option Bytes) (requests : ι → AdminRequest) (events : List (ι × WriteOutcome))
    (hload : loadConfig t file = .ok config) (hwritten : ∀ e ∈ events, e.2 = .ok)
    (horder : Steps (Task.step t) (InOrder t requests) (System.ofRequests config file requests)
      events)
    (hdone : ∀ i, ∃ response,
      ((System.ofRequests config file requests).run (Task.step t) events).tasks i = .done response) :
    Serialized t requests ⟨.new config, file⟩
      ((System.ofRequests config file requests).run (Task.step t) events) := by
  have hpublished : Published t requests ⟨.new config, file⟩
      ((System.ofRequests config file requests).run (Task.step t) events) :=
    run_of_steps (fun s e h horder => h.step horder) (published_ofRequests t config file requests)
      (horder.and_forall hwritten)
  rcases hpublished.order with ⟨order, sh, hnodup, hmem, hserves, hstate, hfile⟩
  -- nothing is left to be published
  have hsh : sh = ((System.ofRequests config file requests).run (Task.step t) events).shared := by
    rcases hfile with hfile | ⟨i, config', hi, _⟩
    · cases sh
      simp only at hstate hfile
      rw [hstate, hfile]
    · rcases hdone i with ⟨response, hresponse⟩
      rw [hresponse] at hi
      cases hi
  rw [hsh] at hserves
  exact ⟨(hserves.load (savable_of_loadConfig hload) hload).2, order, hnodup, hmem, hserves⟩

/-- A step that does not publish needs nothing. -/
theorem InOrder.quiet {ι : Type} [DecidableEq ι] {t : Target} {requests : ι → AdminRequest}
    {s : System ι Shared Task} {e : ι × WriteOutcome} (hnone : (s.tasks e.1).publishes = none) :
    InOrder t requests s e := by
  refine ⟨fun config h => ?_, fun config body current newPassword h => ?_⟩
  · rw [hnone] at h
    cases h
  · rw [h] at hnone
    cases hnone

/-- Three administrators at work at the same time. -/
inductive Admin where
  | renewing
  | first
  | second
deriving DecidableEq, Repr

def overlappingRequests (passwordBody first second : Bytes) : Admin → AdminRequest
  | .renewing => .password passwordBody
  | .first => .put first
  | .second => .put second

/-- All three start before any of them returns. The password change publishes when the first
PUT has overwritten its file, and that PUT when the second one has overwritten its own. -/
def overlapping : List (Admin × WriteOutcome) :=
  [(.first, .ok), (.second, .ok), (.renewing, .ok), (.renewing, .ok), (.renewing, .ok),
    (.first, .ok), (.renewing, .ok), (.first, .ok), (.second, .ok), (.first, .ok), (.first, .ok),
    (.second, .ok), (.second, .ok), (.second, .ok)]

section Overlapping

variable {t : Target} {config copy configA configB : Config} {file : Option Bytes}
  {passwordBody first second : Bytes} {current newPassword : String}

/-- Each of the three is acknowledged. -/
theorem done_overlapping (hparse : parsePassword passwordBody = .ok (current, newPassword))
    (hverify : verifyPassword config current newPassword = .ok copy)
    (hfirst : parsePut t first = .ok configA) (hsecond : parsePut t second = .ok configB)
    (i : Admin) : ∃ response,
      ((System.ofRequests config file (overlappingRequests passwordBody first second)).run
        (Task.step t) overlapping).tasks i = .done response ∧ response.status = ⟨200⟩ := by
  simp only [System.run, overlapping, List.foldl_cons, List.foldl_nil, System.step,
    System.ofRequests, overlappingRequests, Task.step, AdminRequest.parse, hparse, hverify, hfirst,
    hsecond, AdminState.new, writeThen, fsWrite, Function.update_apply, reduceCtorEq, if_true,
    if_false]
  cases i with
  | renewing => exact ⟨passwordReply, rfl, rfl⟩
  | first => exact ⟨putReply (restartRequiredFields copy configA), rfl, rfl⟩
  | second => exact ⟨putReply (restartRequiredFields configA configB), rfl, rfl⟩

theorem inOrder_overlapping (hparse : parsePassword passwordBody = .ok (current, newPassword))
    (hverify : verifyPassword config current newPassword = .ok copy)
    (hfirst : parsePut t first = .ok configA) (hsecond : parsePut t second = .ok configB) :
    Steps (Task.step t) (InOrder t (overlappingRequests passwordBody first second))
      (System.ofRequests config file (overlappingRequests passwordBody first second))
      overlapping := by
  simp only [overlapping, Steps, System.step, System.ofRequests, overlappingRequests, Task.step,
    AdminRequest.parse, hparse, hverify, hfirst, hsecond, AdminState.new, writeThen, fsWrite,
    Function.update_apply, reduceCtorEq, if_true, if_false, and_true]
  -- three of the steps publish
  refine ⟨.quiet rfl, .quiet rfl, .quiet rfl, .quiet rfl, .quiet rfl, .quiet rfl, ?_, .quiet rfl,
    .quiet rfl, .quiet rfl, ?_, .quiet rfl, .quiet rfl, ?_⟩
  · -- the file is the first PUT's, and the live configuration is still the one that was copied
    refine ⟨?_, ?_⟩
    · intro _ _
      exact .inr ⟨.first, configA, by simp, rfl, rfl⟩
    · intro published body current' newPassword' htask hrequest hparse'
      cases htask
      cases hrequest
      cases hparse.symm.trans hparse'
      rcases eq_of_verifyPassword hverify with ⟨hmatches, hcopy⟩
      refine ⟨hmatches, ?_⟩
      rw [hcopy]
  · -- the file is the second PUT's
    refine ⟨?_, ?_⟩
    · intro _ _
      exact .inr ⟨.second, configB, by simp, rfl, rfl⟩
    · intro _ _ _ _ htask
      cases htask
  · refine ⟨?_, ?_⟩
    · intro published hpublished
      cases hpublished
      exact .inl rfl
    · intro _ _ _ _ htask
      cases htask

end Overlapping

theorem panelConfig_savable (t : Target) : panelConfig.Savable t :=
  (Config.savable_default t).withAdmin _

/-- What the first PUT sends: the hash of the new password, and compression on. -/
def renewedConfig : Config :=
  { Config.default with admin := ⟨"admin", sha256Hex (utf8 "hunter2")⟩ }

/-- What the second one sends: compression off. -/
def plainConfig : Config := { renewedConfig with compression := ⟨false, 1024⟩ }

theorem parsePut_saved {t : Target} {config : Config} (h : config.Savable t) :
    parsePut t config.saved = .ok config :=
  parsePut_utf8 h.load

/-- The password change, then the first PUT, then the second one. -/
theorem serialized_overlapping :
    Serialized ⟨.w64, false⟩
        (overlappingRequests (utf8 passwordText) renewedConfig.saved plainConfig.saved)
        ⟨.new panelConfig, some panelConfig.saved⟩
        ((System.ofRequests panelConfig (some panelConfig.saved)
          (overlappingRequests (utf8 passwordText) renewedConfig.saved plainConfig.saved)).run
          (Task.step ⟨.w64, false⟩) overlapping) ∧
      ∀ i, ∃ response, ((System.ofRequests panelConfig (some panelConfig.saved)
        (overlappingRequests (utf8 passwordText) renewedConfig.saved plainConfig.saved)).run
        (Task.step ⟨.w64, false⟩) overlapping).tasks i = .done response ∧
          response.status = ⟨200⟩ := by
  have hrenewed : parsePut ⟨.w64, false⟩ renewedConfig.saved = .ok renewedConfig :=
    parsePut_saved ((Config.savable_default _).withAdmin _)
  have hplain : parsePut ⟨.w64, false⟩ plainConfig.saved = .ok plainConfig :=
    parsePut_saved ((Config.savable_of_fromJsonStr load_gzipText).withAdmin _)
  have hdone := @done_overlapping _ panelConfig _ _ _ (some panelConfig.saved) _ _ _ _ _
    parse_passwordText (verify_panelConfig _) hrenewed hplain
  refine ⟨serialized_of_inOrder _ _ _ _ _ (loadConfig_saved (panelConfig_savable _)) (by decide)
    (inOrder_overlapping parse_passwordText (verify_panelConfig _) hrenewed hplain) ?_, hdone⟩
  intro i
  rcases hdone i with ⟨response, hresponse, _⟩
  exact ⟨response, hresponse⟩

/-! ## Overtaking -/

def putRequests (first second : Bytes) : Bool → AdminRequest
  | false => .put first
  | true => .put second

/-- The first PUT writes its file, then the second one runs, then the first one publishes. -/
def overtaking : List (Bool × WriteOutcome) :=
  [(false, .ok), (false, .ok), (true, .ok), (true, .ok), (true, .ok), (true, .ok), (true, .ok),
    (false, .ok), (false, .ok), (false, .ok)]

theorem run_overtaking {t : Target} {config configA configB : Config} {file : Option Bytes}
    {first second : Bytes} (hfirst : parsePut t first = .ok configA)
    (hsecond : parsePut t second = .ok configB) :
    ((System.ofRequests config file (putRequests first second)).run (Task.step t)
        overtaking).shared = ⟨⟨configA, buildApp configA⟩, some configB.saved⟩ ∧
      ∀ i, ∃ response, ((System.ofRequests config file (putRequests first second)).run
        (Task.step t) overtaking).tasks i = .done response := by
  simp only [System.run, overtaking, List.foldl_cons, List.foldl_nil, System.step,
    System.ofRequests, putRequests, Task.step, AdminRequest.parse, hfirst, hsecond,
    AdminState.new, writeThen, fsWrite, Function.update_self,
    Function.update_of_ne (Ne.symm Bool.false_ne_true), Function.update_of_ne Bool.false_ne_true,
    true_and]
  intro i
  cases i with
  | false => exact ⟨_, Function.update_self ..⟩
  | true => exact ⟨_, rfl⟩

/-- The file says that compression is off, the live configuration that it is on. -/
theorem not_serialized : ¬ ∀ (t : Target) (config : Config) (file : Option Bytes)
    (requests : Bool → AdminRequest) (events : List (Bool × WriteOutcome)),
    loadConfig t file = .ok config → (∀ e ∈ events, e.2 = .ok) →
    (∀ i, ∃ response,
      ((System.ofRequests config file requests).run (Task.step t) events).tasks i = .done response) →
    Serialized t requests ⟨.new config, file⟩
      ((System.ofRequests config file requests).run (Task.step t) events) := by
  intro h
  -- an empty object leaves compression on, the second body turns it off
  rcases @run_overtaking _ panelConfig _ _ (some panelConfig.saved) _ _ (parsePut_empty _)
    parse_gzipText with ⟨hshared, hdone⟩
  have hload := (h _ _ _ _ _ (loadConfig_saved (panelConfig_savable _)) (by decide) hdone).1
  rw [hshared] at hload
  rw [loadConfig_saved (Config.savable_of_fromJsonStr load_gzipText)] at hload
  cases hload

end FerroHttp
