import FerroHttp.App.Discovery

/-!
# Embedded.StaticRouter — the embedded-profile request handler

`StaticRouter.handle` is the embedded counterpart of `App.handle`: routes, then static
files, then `404`. It has no discovery branches, so the two agree on exactly the
requests that take none of them (`sameAnswer_iff`).
-/

namespace FerroHttp

open Exec Text

structure StaticRouter where
  router : Router
  assets : AssetSource
  indexFiles : List String
  mimeOverrides : List (String × String)

/-- Routes first, then static files, then `404`. -/
def StaticRouter.handle (s : StaticRouter) (t : Target) (request : Request) :
    Outcome Empty Response :=
  match s.router.dispatch request with
  | some response => pure response
  | none =>
    if request.method == .get || request.method == .head then
      match serveStatic request.path s.indexFiles s.assets s.mimeOverrides with
      | some response => evaluate t request response
      | none => pure (Response.text ⟨404⟩ "404 Not Found")
    else pure (Response.text ⟨404⟩ "404 Not Found")

/-- `App` over the parts of a `StaticRouter`, without compression. -/
def StaticRouter.toApp (s : StaticRouter) (minBytes : Nat) : App :=
  ⟨s.router, s.assets, s.indexFiles, s.mimeOverrides, ⟨false, minBytes⟩⟩

namespace StaticRouter

variable {s : StaticRouter} {t : Target} {request : Request}

/-- The two handlers return the same response, whatever the compressor and the peer. -/
def SameAnswer (s : StaticRouter) (t : Target) (request : Request) : Prop :=
  ∀ minBytes deflate ctx, (s.toApp minBytes).handle t deflate none request ctx = (do
    let response ← s.handle t request
    pure (response, none))

/-- The request takes no discovery branch: a route answers it, or a file does, or its
path has neither; and a server-wide OPTIONS has a route that gives that very answer. -/
def Undiscovered (s : StaticRouter) (request : Request) : Prop :=
  if request.method = .options ∧ request.target = "*" then
    s.router.dispatch request = some ((Response.new ⟨200⟩).withHeader "Allow"
      (allowHeaderValue (pushNew s.router.registeredMethods .get)))
  else
    (s.router.dispatch request).isSome ∨
      ((request.method = .get ∨ request.method = .head) ∧
        staticExists request.path s.indexFiles s.assets = true) ∨
      (s.router.allowedMethods request.path = [] ∧
        staticExists request.path s.indexFiles s.assets = false)

/-- Without a limiter and without compression, `App.handle` is `App.dispatch`. -/
theorem handle_toApp (s : StaticRouter) (minBytes : Nat) (deflate : Bytes → Nat → Bytes)
    (t : Target) (request : Request) (ctx : RequestContext) :
    (s.toApp minBytes).handle t deflate none request ctx = (do
      let response ← (s.toApp minBytes).dispatch t request
      pure (response, none)) := by
  have hpost : ∀ response,
      (s.toApp minBytes).postProcess deflate request response = response := by
    intro response
    simp [App.postProcess, toApp]
  unfold App.handle App.rateLimit
  simp only [Outcome.pure_eq, Outcome.ok_bind, hpost]

theorem handle_of_route {response : Response} (h : s.router.dispatch request = some response) :
    s.handle t request = .ok response := by
  rw [handle, h]
  rfl

theorem handle_of_no_route (h : ¬ (s.router.dispatch request).isSome) :
    s.handle t request =
      match (s.toApp 0).staticFor request with
      | some response => evaluate t request response
      | none => .ok (Response.text ⟨404⟩ "404 Not Found") := by
  have hnone : s.router.dispatch request = none := by simpa using h
  unfold handle App.staticFor toApp
  rw [hnone]
  dsimp only
  split
  · cases serveStatic request.path s.indexFiles s.assets s.mimeOverrides with
    | some response => rfl
    | none => rfl
  · rfl

/-- The answers agree exactly when the two chains do. -/
theorem sameAnswer_iff_dispatch :
    SameAnswer s t request ↔ (s.toApp 0).dispatch t request = s.handle t request := by
  have hinj : ∀ x y : Outcome Empty Response,
      (do let response ← x; pure (response, (none : Option RateLimiter))) =
        (do let response ← y; pure (response, none)) ↔ x = y := by
    intro x y
    cases x <;> cases y <;> simp
  constructor
  · intro h
    have h0 := h 0 (fun data _ => data) ⟨[], 0⟩
    rw [handle_toApp] at h0
    exact (hinj _ _).mp h0
  · intro h minBytes deflate ctx
    -- the dispatch does not look at the compression
    have hsame : (s.toApp minBytes).dispatch t request = (s.toApp 0).dispatch t request := by
      unfold App.dispatch App.unserved toApp
      dsimp only
    rw [handle_toApp, hsame, h]

/-- A discovery answer is not a `404`. -/
theorem discover_ne_notFound (request : Request) (allow : String) :
    App.discover request allow ≠ Response.text ⟨404⟩ "404 Not Found" := by
  intro h
  have hstatus := congrArg Response.status h
  unfold App.discover at hstatus
  split at hstatus <;> simp [Response.withHeader, Response.new, Response.text] at hstatus

/-- The server-wide OPTIONS is answered alike by a route that gives the same answer. -/
theorem same_of_serverWide (hwide : request.method = .options ∧ request.target = "*") :
    (s.toApp 0).answer t request ((s.toApp 0).branch request) = s.handle t request ↔
      s.router.dispatch request = some ((Response.new ⟨200⟩).withHeader "Allow"
        (allowHeaderValue (pushNew s.router.registeredMethods .get))) := by
  have hanswer : (s.toApp 0).answer t request ((s.toApp 0).branch request) =
      .ok ((Response.new ⟨200⟩).withHeader "Allow"
        (allowHeaderValue (pushNew s.router.registeredMethods .get))) := by
    unfold App.branch
    rw [if_pos (by simpa using hwide)]
    rfl
  rw [hanswer]
  cases hroute : s.router.dispatch request with
  | some response => rw [handle_of_route hroute, Outcome.ok.injEq, Option.some.injEq, eq_comm]
  | none =>
    -- OPTIONS is no method for a file, so this is a 404
    have hnone : s.handle t request = .ok (Response.text ⟨404⟩ "404 Not Found") := by
      unfold handle
      rw [hroute, hwide.1]
      rfl
    rw [hnone]
    constructor
    · intro h
      have hstatus : (200 : Nat) = 404 := congrArg (·.status.code) (Outcome.ok.inj h)
      omega
    · intro h
      cases h

/-- A request that neither a route nor a file answers is answered alike when its path is
unknown. -/
theorem same_of_unserved {app : App} :
    app.answer t request (app.unservedBranch request) =
        .ok (Response.text ⟨404⟩ "404 Not Found") ↔
      app.router.allowedMethods request.path = [] ∧
        staticExists request.path app.indexFiles app.assets = false := by
  rw [App.unservedBranch_eq]
  by_cases hknown : app.router.allowedMethods request.path ≠ [] ∨
      staticExists request.path app.indexFiles app.assets = true
  · rw [if_pos hknown, App.answer_discoveryBranch, Outcome.ok.injEq]
    refine iff_of_false (discover_ne_notFound request _) ?_
    rintro ⟨hroutes, hfile⟩
    rcases hknown with h | h
    · exact h hroutes
    · rw [hfile] at h
      cases h
  · rw [if_neg hknown]
    refine iff_of_true rfl ?_
    simpa using hknown

/-- The two handlers agree on exactly the requests that take no discovery branch. -/
theorem sameAnswer_iff (hprobe : s.assets.Probes) :
    SameAnswer s t request ↔ Undiscovered s request := by
  rw [sameAnswer_iff_dispatch, App.dispatch_eq, Undiscovered]
  by_cases hwide : request.method = .options ∧ request.target = "*"
  · rw [if_pos hwide]
    exact same_of_serverWide hwide
  · rw [if_neg hwide]
    by_cases hroute : (s.router.dispatch request).isSome
    · rcases Option.isSome_iff_exists.mp hroute with ⟨r, hr⟩
      have hbranch : (s.toApp 0).branch request = .route r := App.branch_of_route hwide hr
      rw [hbranch, handle_of_route hr]
      exact iff_of_true rfl (.inl hroute)
    · have hfile := @App.staticFor_isSome (s.toApp 0) request hprobe
      rw [App.branch_of_no_route hwide hroute, handle_of_no_route hroute]
      cases hstatic : (s.toApp 0).staticFor request with
      | some r =>
        rw [hstatic] at hfile
        exact iff_of_true rfl (.inr (.inl (hfile.mp rfl)))
      | none =>
        have hnone := mt hfile.mpr (by rw [hstatic]; simp)
        dsimp only
        rw [same_of_unserved]
        constructor
        · intro h
          exact .inr (.inr h)
        · rintro (h | h | h)
          · exact absurd h hroute
          · exact absurd h hnone
          · exact h

/-- One GET route, no files. -/
def pingRouter : StaticRouter :=
  ⟨Router.new.route .get "/ping" fun _ _ => Response.text ⟨200⟩ "pong",
    ⟨fun _ => none, fun _ => false⟩, ["index.html"], []⟩

def pingPost : Request := ⟨.post, "/ping", .http11, [⟨"Host", "h"⟩], []⟩

theorem pingRouter_probes : pingRouter.assets.Probes := fun _ => rfl

/-- POST is a `405` with `Allow` on one profile, and a `404` on the other. -/
theorem pingPost_not_same : pingRouter.assets.Probes ∧
    ¬ SameAnswer pingRouter ⟨.w64, false⟩ pingPost := by
  refine ⟨pingRouter_probes, ?_⟩
  intro h
  rw [sameAnswer_iff_dispatch] at h
  revert h
  decide

theorem pingPost_same_iff :
    SameAnswer pingRouter ⟨.w64, false⟩ pingPost ↔ Undiscovered pingRouter pingPost :=
  sameAnswer_iff pingRouter_probes

end StaticRouter

end FerroHttp
