import FerroHttp.App.PartialContent
import FerroHttp.Conn.Responses

/-!
# App.HeadMirror — a HEAD is answered with the head of the GET

Two connections step on the same request, once with GET and once with HEAD.

1. `dispatch_asHead`: without HEAD routes, and with handlers that do not look at the
   method, the handler's dispatch gives both the same response, or fails for both;
2. `head_of_serialize`: the two serializations agree up to the first blank line, which
   is the end of the head;
3. `head_mirrors_get`: so the HEAD is written as that part of the GET.
-/

namespace FerroHttp

open Exec Text Search

/-- The same request by HEAD. -/
def Request.asHead (r : Request) : Request := { r with method := .head }

/-- What a GET is answered with, cut after the first blank line. -/
def Mirrors (get head : Bytes) : Prop :=
  ∃ i, FirstAt (crlf ++ crlf) get i ∧ head = get.take (i + 4)

/-- A table without HEAD routes, whose handlers do not look at the method. -/
structure Router.Methodless (r : Router) : Prop where
  noHead : ∀ route ∈ r.routes, route.method ≠ .head
  handlers : ∀ route ∈ r.routes, ∀ request method params,
    route.handler { request with method := method } params = route.handler request params

/-- The service answers as the handler does, wherever the handler answers. -/
def App.ServedBy (app : App) (t : Target) (deflate : Bytes → Nat → Bytes)
    (svc : Service (Option RateLimiter)) : Prop :=
  ∀ limiter request ctx answer, app.handle t deflate limiter request ctx = .ok answer →
    svc.handle limiter request ctx = answer

/-! ## Dispatch -/

section Dispatch

variable {app : App} {t : Target} {deflate : Bytes → Nat → Bytes} {request : Request}

theorem Router.Methodless.dispatch_asHead {r : Router} (h : r.Methodless)
    (hget : request.method = .get) : r.dispatch request.asHead = r.dispatch request := by
  rcases r with ⟨routes⟩
  unfold dispatch
  have hall : ∀ route ∈ routes, route.method ≠ .head ∧ ∀ params,
      route.handler request.asHead params = route.handler request params := fun route hroute =>
    ⟨h.noHead route hroute, fun params => h.handlers route hroute request .head params⟩
  clear h
  induction routes with
  | nil => rfl
  | cons route rest ih =>
    rcases hall route List.mem_cons_self with ⟨hmethod, hhandler⟩
    -- a route matches a HEAD where it matches a GET
    have hmatch : methodMatches route.method request.asHead.method =
        methodMatches route.method request.method := by
      have hhead : request.asHead.method = .head := rfl
      rw [hhead, hget]
      cases hm : route.method <;> first | rfl | exact absurd hm hmethod
    have hpath : request.asHead.path = request.path := rfl
    have hrest := ih fun x hx => hall x (List.mem_cons_of_mem _ hx)
    dsimp only at hrest ⊢
    rw [dispatchRoutes, dispatchRoutes, hmatch, hpath, hrest]
    simp only [hhandler]

/-- Nothing after the method decides on it. -/
theorem dispatch_asHead (h : app.router.Methodless) (hget : request.method = .get) :
    app.dispatch t request.asHead = app.dispatch t request := by
  have hpath : request.asHead.path = request.path := rfl
  have hunserved : app.unserved request.asHead = app.unserved request := by
    have hdiscover : ∀ allow, App.discover request.asHead allow = App.discover request allow := by
      intro allow
      rw [App.discover, App.discover, hget]
      rfl
    rw [App.unserved, App.unserved, hpath]
    simp only [hdiscover]
  have hevaluate : ∀ response, evaluate t request.asHead response = evaluate t request response :=
    fun _ => rfl
  have hhead : request.asHead.method = .head := rfl
  rw [App.dispatch, App.dispatch, h.dispatch_asHead hget, hunserved, hpath, hhead, hget]
  simp [hevaluate]

theorem postProcess_asHead (app : App) (deflate : Bytes → Nat → Bytes) (request : Request)
    (response : Response) :
    app.postProcess deflate request.asHead response = app.postProcess deflate request response :=
  rfl

/-- What the handler answers a request with that the limiter lets through. -/
theorem handle_of_allowed {limiter limiter' : Option RateLimiter} {ctx : RequestContext}
    {response : Response} (hallow : App.rateLimit t limiter ctx = .ok (.allow, limiter'))
    (hdispatch : app.dispatch t request = .ok response) :
    app.handle t deflate limiter request ctx =
      .ok (app.postProcess deflate request response, limiter') := by
  rw [App.handle, hallow, Outcome.ok_bind]
  simp only [hdispatch, Outcome.ok_bind]
  rfl

end Dispatch

/-! ## Serialization -/

/-- A serialized response without its body is what stands before it, and the first
blank line is its end. -/
theorem head_of_serialize (r : Response) : Mirrors (r.serialize false) (r.serialize true) := by
  rcases cut_headBytes (statusLine_line r.status).1 (cr_not_mem_headLines r) (sentBody r false) with
    ⟨i, hend, hblank, _⟩
  have hbody : sentBody r true = [] := rfl
  refine ⟨i, ?_, ?_⟩
  · rw [serialize_eq]
    exact hblank
  · rw [serialize_eq, serialize_eq, hbody, List.append_nil, hend, List.take_left]

/-! ## Two connections -/

section Step

variable {app : App} {t : Target} {deflate : Bytes → Nat → Bytes}
  {svc : Service (Option RateLimiter)} {get head : Connection} {request : Request}
  {limiter limiter' limiterHead limiterHead' : Option RateLimiter} {now consumed consumedHead : Nat}

/-- What a connection writes for a request that the handler answers. -/
theorem step_served {c : Connection} {response : Response} (hsvc : app.ServedBy t deflate svc)
    (hparse : parseWith t c.buf c.maxBody = .ok (.complete request consumed))
    (hhandle : app.handle t deflate limiter request ⟨c.peer, now⟩ = .ok (response, limiter')) :
    ∃ r, c.step t svc limiter now = .ok r ∧
      r.step = .write ((finalize response now request.keepAlive c.policy).serialize
        request.method.isHead) (!request.keepAlive) := by
  refine ⟨_, Connection.step_complete hparse, ?_⟩
  have hanswer := hsvc limiter request ⟨c.peer, now⟩ _ hhandle
  rw [Connection.stepComplete, hanswer]

/-- HEAD mirrors GET. When two connections with one policy hold the same request, once
by GET and once by HEAD, and the limiter lets both through: the handler dispatches both
alike, and where it answers, the bytes written for the HEAD are those for the GET up to
the blank line that ends the head. -/
theorem head_mirrors_get (h : app.router.Methodless) (hsvc : app.ServedBy t deflate svc)
    (hget : request.method = .get)
    (hparse : parseWith t get.buf get.maxBody = .ok (.complete request consumed))
    (hparseHead : parseWith t head.buf head.maxBody = .ok (.complete request.asHead consumedHead))
    (hpolicy : head.policy = get.policy)
    (hallow : App.rateLimit t limiter ⟨get.peer, now⟩ = .ok (.allow, limiter'))
    (hallowHead : App.rateLimit t limiterHead ⟨head.peer, now⟩ = .ok (.allow, limiterHead')) :
    app.dispatch t request.asHead = app.dispatch t request ∧
      ∀ response, app.dispatch t request = .ok response →
        ∃ r rHead bytes bytesHead close, get.step t svc limiter now = .ok r ∧
          r.step = .write bytes close ∧ head.step t svc limiterHead now = .ok rHead ∧
          rHead.step = .write bytesHead close ∧ Mirrors bytes bytesHead := by
  have hsame := @dispatch_asHead app t request h hget
  refine ⟨hsame, ?_⟩
  intro response hdispatch
  have hkeep : request.asHead.keepAlive = request.keepAlive := rfl
  have hishead : request.asHead.method.isHead = true := rfl
  have hisget : request.method.isHead = false := by
    rw [hget]
    rfl
  rcases step_served hsvc hparse (handle_of_allowed hallow hdispatch) with ⟨r, hstep, hwrite⟩
  rcases step_served hsvc hparseHead
    (handle_of_allowed hallowHead (hsame.trans hdispatch)) with ⟨rHead, hstepHead, hwriteHead⟩
  rw [hisget] at hwrite
  rw [hkeep, hishead, hpolicy, postProcess_asHead] at hwriteHead
  exact ⟨r, rHead, _, _, _, hstep, hwrite, hstepHead, hwriteHead, head_of_serialize _⟩

/-- The handler as a service; where it panics, no answer is promised. -/
def App.service (app : App) (t : Target) (deflate : Bytes → Nat → Bytes) :
    Service (Option RateLimiter) :=
  ⟨fun limiter request ctx =>
    match app.handle t deflate limiter request ctx with
    | .ok answer => answer
    | _ => (Response.new ⟨500⟩, limiter)⟩

theorem App.service_servedBy (app : App) (t : Target) (deflate : Bytes → Nat → Bytes) :
    app.ServedBy t deflate (app.service t deflate) := by
  intro limiter request ctx answer h
  simp only [service, h]

/-- One route, and compression from the first byte on. -/
def pongApp : App :=
  ⟨Router.new.route .get "/ping" fun _ _ => Response.text ⟨200⟩ "pong",
    ⟨fun _ => none, fun _ => false⟩, [], [], ⟨true, 0⟩⟩

theorem pongApp_methodless : pongApp.router.Methodless := by
  constructor
  · intro route hroute
    rw [List.mem_singleton.mp hroute]
    decide
  · intro route hroute request method params
    rw [List.mem_singleton.mp hroute]

def pingGet : Request := ⟨.get, "/ping", .http11, [⟨"Host", "h"⟩, ⟨"Accept-Encoding", "gzip"⟩], []⟩

def pingConnection (method : String) : Connection :=
  Connection.new.feed (utf8 (method ++ " /ping HTTP/1.1\r\nHost: h\r\nAccept-Encoding: gzip\r\n\r\n"))

set_option maxRecDepth 10000 in
theorem pingHead_mirrors :
    pongApp.dispatch ⟨.w64, false⟩ pingGet.asHead = pongApp.dispatch ⟨.w64, false⟩ pingGet ∧
      ∀ response, pongApp.dispatch ⟨.w64, false⟩ pingGet = .ok response →
        ∃ r rHead bytes bytesHead close,
          (pingConnection "GET").step ⟨.w64, false⟩ (pongApp.service ⟨.w64, false⟩ fun d _ => d)
            none 0 = .ok r ∧ r.step = .write bytes close ∧
          (pingConnection "HEAD").step ⟨.w64, false⟩ (pongApp.service ⟨.w64, false⟩ fun d _ => d)
            none 0 = .ok rHead ∧ rHead.step = .write bytesHead close ∧ Mirrors bytes bytesHead := by
  have hget : parseWith ⟨.w64, false⟩ (pingConnection "GET").buf (pingConnection "GET").maxBody =
      .ok (.complete pingGet 54) := by decide
  have hhead : parseWith ⟨.w64, false⟩ (pingConnection "HEAD").buf
      (pingConnection "HEAD").maxBody = .ok (.complete pingGet.asHead 55) := by decide
  have hpolicy : ∀ method, (pingConnection method).policy = Connection.new.policy := fun _ => rfl
  have hallow : ∀ ctx, App.rateLimit ⟨.w64, false⟩ none ctx = .ok (.allow, none) := fun _ => rfl
  have hserved : pongApp.ServedBy ⟨.w64, false⟩ (fun d _ => d)
      (pongApp.service ⟨.w64, false⟩ fun d _ => d) := pongApp.service_servedBy _ _
  have hmethod : pingGet.method = .get := rfl
  exact head_mirrors_get pongApp_methodless hserved hmethod hget hhead
    ((hpolicy "HEAD").trans (hpolicy "GET").symm) (hallow _) (hallow _)

end Step

end FerroHttp
