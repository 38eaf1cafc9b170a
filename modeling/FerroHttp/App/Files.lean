import FerroHttp.App.Answers
import FerroHttp.Router.Matching
import FerroHttp.StaticFiles.Containment

/-!
# App.Files — requests for the contents of files

A `FileRequest` asks for a file by an encoding of its name, and for nothing else: no route,
no condition, no range, no coding. Whatever the profile, it is answered from the asset source
by the name (`FileRequest.serveStatic`), and the client reads the contents off the wire
(`AnswersFile.delivers`).
-/

namespace FerroHttp

open Exec Text Percent

/-- A request for the contents of the file `p`, beside the paths of the routes. -/
structure FileRequest (routes : List (List String)) (request : Request) (p : String) : Prop where
  method : request.method = .get ∨ request.method = .head
  path : Encodes ("/" ++ p).toList request.path.toList
  safe : Safe p
  unrouted : splitPath request.path ∉ routes
  plain : ∀ name ∈ ["if-none-match", "if-modified-since", "range", "accept-encoding"],
    request.header name = none

section Unmatched

variable {pattern path : String} {request : Request} {routes : List Route}

end Unmatched

/-! ## Answers -/

section Requests

variable {routes : List (List String)} {request : Request} {p : String}
  {assets : AssetSource} {indexFiles : List String}

namespace FileRequest

theorem reads (h : FileRequest routes request p) :
    (request.method == .get || request.method == .head) = true := by
  rcases h.method with hmethod | hmethod
  · rw [hmethod]
    rfl
  · rw [hmethod]
    rfl

/-- The file is served from the source by its name. -/
theorem serveStatic (h : FileRequest routes request p) (o : List (String × String)) :
    serveStatic request.path indexFiles assets o =
      (assets.load p).map fun asset => fileResponse p asset o := by
  -- a name without a slash at its end has no index file
  have hcandidates : candidatePaths request.path indexFiles = some [p] :=
    candidatePaths_of_encodes h.safe h.path
  simp only [FerroHttp.serveStatic, hcandidates, firstAsset, Option.bind_eq_bind, Option.bind_some]
  cases assets.load p with
  | none => rfl
  | some asset => rfl

theorem staticExists (h : FileRequest routes request p) :
    staticExists request.path indexFiles assets = assets.existsAt p := by
  have hcandidates : candidatePaths request.path indexFiles = some [p] :=
    candidatePaths_of_encodes h.safe h.path
  simp only [FerroHttp.staticExists, hcandidates, List.any_cons, List.any_nil, Bool.or_false]

/-- Without conditions and ranges a response is sent as it is. -/
theorem evaluate (h : FileRequest routes request p) (t : Target) (r : Response) :
    evaluate t request r = .ok r := by
  have hmatch := h.plain "if-none-match" (by decide)
  have hsince := h.plain "if-modified-since" (by decide)
  have hrange := h.plain "range" (by decide)
  have hmodified : notModified t request r = .ok false := by
    simp only [notModified, hmatch, hsince]
    rfl
  unfold FerroHttp.evaluate
  split
  · rfl
  · rw [hmodified, Outcome.ok_bind, if_neg (by decide), applyRange, hrange]
    rfl

/-- Without codings it is not compressed. -/
theorem postProcess (h : FileRequest routes request p) (app : App) (deflate : Bytes → Nat → Bytes)
    (r : Response) : app.postProcess deflate request r = r := by
  have haccepts : acceptsGzip request = false := by
    rw [acceptsGzip, h.plain "accept-encoding" (by decide)]
    rfl
  rw [App.postProcess, haccepts]
  simp

end FileRequest

end Requests

end FerroHttp
