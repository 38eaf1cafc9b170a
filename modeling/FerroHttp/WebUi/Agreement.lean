import FerroHttp.WebUi.Reload

/-!
# WebUi.Agreement — the live application under concurrent requests

The live application is meant to be the one of the live configuration. Publishing a new
configuration replaces both, publishing a password replaces the configuration alone, by a
copy that was made before the file was written. `agrees_iff_fresh`: in a run of any number
of requests, the two agree throughout exactly when no such copy is out of date, as far as
the application is concerned.
-/

namespace FerroHttp

open Exec Text Interleave

/-- The application is the one built from a configuration that equals the live one in
everything but the administrator's credentials. -/
def AdminState.Agrees (s : AdminState) : Prop :=
  ∃ config : Config, s.app = buildApp config ∧ { config with admin := s.config.admin } = s.config

theorem AdminState.agrees_iff {s : AdminState} : s.Agrees ↔ s.app = buildApp s.config := by
  constructor
  · rintro ⟨config, happ, heq⟩
    rw [happ, ← heq]
    rfl
  · intro h
    exact ⟨s.config, h, rfl⟩

section Steps

variable {ι : Type} [DecidableEq ι] {t : Target} {outcome : WriteOutcome} {s : Shared}
  {task next : Task} {config : Config}

theorem state_writeThen : (writeThen outcome s config next).2.state = s.state := by
  cases outcome <;> rfl

/-- Only the two publishing steps change the live state. -/
theorem Task.step_cases (t : Target) (outcome : WriteOutcome) (s : Shared) (task : Task) :
    (∃ config restart app, task = .putPublish config restart app) ∨
    (∃ config, task = .passwordPublish config) ∨
    (task.step t outcome s).2.state = s.state := by
  cases task with
  | putPublish config restart app => exact .inl ⟨config, restart, app, rfl⟩
  | passwordPublish config => exact .inr (.inl ⟨config, rfl⟩)
  | putWrite config => exact .inr (.inr state_writeThen)
  | passwordWrite config => exact .inr (.inr state_writeThen)
  | passwordVerify current newPassword =>
    right
    right
    simp only [Task.step]
    cases verifyPassword s.state.config current newPassword <;> rfl
  | _ => exact .inr (.inr rfl)

/-- A task that is about to publish has built its application itself. -/
def Built (s : System ι Shared Task) : Prop :=
  ∀ i config restart app, s.tasks i = .putPublish config restart app → app = buildApp config

omit [DecidableEq ι] in
theorem built_ofRequests (config : Config) (file : Option Bytes) (requests : ι → AdminRequest) :
    Built (System.ofRequests config file requests) := by
  intro i config restart app h
  cases h

/-- Only the building step leads to a publication. -/
theorem Task.eq_putBuild_of_step {restart : List String} {app : BuiltApp}
    (h : (task.step t outcome s).1 = .putPublish config restart app) : app = buildApp config := by
  -- no other step ends at a publication of a PUT
  cases task with
  | start request =>
    cases request with
    | put body =>
      simp only [Task.step, AdminRequest.parse] at h
      cases hparse : parsePut t body <;> rw [hparse] at h <;> cases h
    | password body =>
      simp only [Task.step, AdminRequest.parse] at h
      cases hparse : parsePassword body <;> rw [hparse] at h <;> cases h
  | putWrite config' => cases outcome <;> cases h
  | passwordWrite config' => cases outcome <;> cases h
  | passwordVerify current newPassword =>
    simp only [Task.step] at h
    cases hverify : verifyPassword s.state.config current newPassword <;>
      rw [hverify] at h <;> cases h
  | putBuild config' restart' =>
    cases h
    rfl
  | _ => cases h

theorem Built.step {s : System ι Shared Task} (h : Built s) (e : ι × WriteOutcome) :
    Built (s.step (Task.step t) e) := by
  intro i config restart app hi
  by_cases heq : i = e.1
  · rw [heq, System.tasks_step_self] at hi
    exact Task.eq_putBuild_of_step hi
  · rw [System.tasks_step_ne heq] at hi
    exact h i config restart app hi

/-- If the step publishes a password, its copy of the configuration is not out of date: it
has the application of the live one. -/
def Fresh (s : System ι Shared Task) (e : ι × WriteOutcome) : Prop :=
  ∀ config, s.tasks e.1 = .passwordPublish config →
    buildApp config = buildApp s.shared.state.config

/-- A step keeps the agreement exactly when it is fresh. -/
theorem agrees_step_iff {s : System ι Shared Task} (e : ι × WriteOutcome) (hbuilt : Built s)
    (h : s.shared.state.Agrees) :
    (s.step (Task.step t) e).shared.state.Agrees ↔ Fresh s e := by
  rw [AdminState.agrees_iff] at h ⊢
  rcases Task.step_cases t e.2 s.shared (s.tasks e.1) with ⟨config, restart, app, htask⟩ |
    ⟨config, htask⟩ | hstate
  · -- both halves are replaced at once
    have happ := hbuilt e.1 config restart app htask
    simp only [System.step, Task.step, Fresh, htask, happ, reduceCtorEq, false_implies,
      implies_true]
  · -- the application stays, the configuration is the copy
    simp only [System.step, Task.step, Fresh, htask, Task.passwordPublish.injEq, forall_eq', h]
    exact eq_comm
  · -- a step that leaves the live state is fresh: what it could publish is live already
    have hquiet : Fresh s e := by
      intro config htask
      rw [htask] at hstate
      have hsame : config = s.shared.state.config := congrArg AdminState.config hstate
      rw [hsame]
    simp only [System.step, hstate, h, hquiet]

end Steps

/-! ## Runs -/

/-- In which runs the live application is always the one of the live configuration. -/
theorem agrees_iff_fresh {ι : Type} [DecidableEq ι] (t : Target) (config : Config)
    (file : Option Bytes) (requests : ι → AdminRequest) (events : List (ι × WriteOutcome)) :
    Always (Task.step t) (fun s => s.shared.state.Agrees)
        (System.ofRequests config file requests) events ↔
      Steps (Task.step t) Fresh (System.ofRequests config file requests) events := by
  -- `Built` is the invariant that the steps need
  have hstart : (AdminState.new config).Agrees := AdminState.agrees_iff.mpr rfl
  exact always_iff_steps (fun s e hbuilt => hbuilt.step e)
    (fun s e hbuilt hagrees => agrees_step_iff e hbuilt hagrees)
    (built_ofRequests config file requests) hstart

/-! ## A copy that is out of date -/

/-- A password is changed while another configuration is put. -/
def crossingRequests (passwordBody putBody : Bytes) : Bool → AdminRequest
  | false => .password passwordBody
  | true => .put putBody

/-- The copy is made, then the whole PUT runs, then the copy is published. -/
def crossing : List (Bool × WriteOutcome) :=
  [(false, .ok), (false, .ok), (true, .ok), (true, .ok), (true, .ok), (true, .ok), (true, .ok),
    (false, .ok), (false, .ok)]

theorem run_crossing {t : Target} {config config' copy : Config} {file : Option Bytes}
    {passwordBody putBody : Bytes} {current newPassword : String}
    (hparse : parsePassword passwordBody = .ok (current, newPassword))
    (hverify : verifyPassword config current newPassword = .ok copy)
    (hput : parsePut t putBody = .ok config') :
    ((System.ofRequests config file (crossingRequests passwordBody putBody)).run (Task.step t)
      crossing).shared.state = ⟨copy, buildApp config'⟩ := by
  simp only [System.run, crossing, List.foldl_cons, List.foldl_nil, System.step,
    System.ofRequests, crossingRequests, Task.step, AdminRequest.parse, hparse, hput,
    AdminState.new, hverify, writeThen, fsWrite, Function.update_self,
    Function.update_of_ne (Ne.symm Bool.false_ne_true), Function.update_of_ne Bool.false_ne_true]

def passwordText : String :=
  "\x7b\"current_password\": \"secret\", \"new_password\": \"hunter2\"\x7d"

def gzipText : String := "\x7b\"compression\": \x7b\"gzip\": false\x7d\x7d"

theorem load_gzipText : Config.fromJsonStr ⟨.w64, false⟩ gzipText =
    .ok { Config.default with compression := ⟨false, 1024⟩ } := by
  decide +kernel

theorem parse_gzipText : parsePut ⟨.w64, false⟩ (utf8 gzipText) =
    .ok { Config.default with compression := ⟨false, 1024⟩ } :=
  parsePut_utf8 load_gzipText

theorem parse_passwordText : parsePassword (utf8 passwordText) = .ok ("secret", "hunter2") := by
  decide +kernel

theorem verify_panelConfig (newPassword : String) :
    verifyPassword panelConfig "secret" newPassword = .ok { panelConfig with
      admin := ⟨"admin", sha256Hex (utf8 newPassword)⟩ } := by
  have hmatches : passwordMatches "secret" panelConfig.admin.passwordSha256 = true := by
    rw [passwordMatches_iff]
    simp only [panelConfig]
  rw [verifyPassword, hmatches]
  rfl

/-- Compression is on in the configuration and off in the application. -/
theorem not_agrees : ¬ ∀ (t : Target) (config : Config) (file : Option Bytes)
    (requests : Bool → AdminRequest) (events : List (Bool × WriteOutcome)),
    ((System.ofRequests config file requests).run (Task.step t) events).shared.state.Agrees := by
  intro h
  have hagrees := h ⟨.w64, false⟩ panelConfig (some panelConfig.saved)
    (crossingRequests (utf8 passwordText) (utf8 gzipText)) crossing
  -- the copy has compression on, the application of the PUT has it off
  rw [run_crossing parse_passwordText (verify_panelConfig _) parse_gzipText,
    AdminState.agrees_iff] at hagrees
  have hgzip := congrArg (fun app => app.compression.gzip) hagrees
  revert hgzip
  decide

end FerroHttp
