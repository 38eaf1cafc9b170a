import FerroHttp.Http.Response

/-!
# Router — the pattern router

Static and `:param` path segments, matched in registration order. A handler is any
function of the request and the captured parameters.
-/

namespace FerroHttp

open Text

/-- Path parameters captured during matching. -/
structure Params where
  pairs : List (String × String)
deriving DecidableEq, Repr

def Params.get (p : Params) (name : String) : Option String :=
  (p.pairs.find? fun pair => pair.1 == name).map (·.2)

abbrev Handler := Request → Params → Response

inductive Segment where
  | static (s : String)
  | param (name : String)
deriving DecidableEq, Repr

structure Route where
  method : Method
  segments : List Segment
  handler : Handler

/-- A table of routes. -/
structure Router where
  routes : List Route

/-- The non-empty segments of a path. -/
def splitPath (path : String) : List String := (split '/' path).filter (· ≠ "")

def parsePattern (pattern : String) : List Segment :=
  (splitPath pattern).map fun seg =>
    match stripPrefix ":" seg with
    | some name => .param name
    | none => .static seg

/-- Match segments one by one, collecting the parameters. -/
def matchPairs : List Segment → List String → Option (List (String × String))
  | .static s :: pattern, value :: actual => if s ≠ value then none else matchPairs pattern actual
  | .param name :: pattern, value :: actual => (matchPairs pattern actual).map ((name, value) :: ·)
  | _, _ => some []

def matchSegments (pattern : List Segment) (path : String) : Option Params :=
  let actual := splitPath path
  if actual.length ≠ pattern.length then none else (matchPairs pattern actual).map Params.mk

/-- HEAD is answered by a GET route. -/
def methodMatches (routeMethod requestMethod : Method) : Bool :=
  routeMethod == requestMethod || (requestMethod == .head && routeMethod == .get)

/-- Append a method that is not there yet. -/
def pushNew (methods : List Method) (m : Method) : List Method :=
  if methods.contains m then methods else methods ++ [m]

namespace Router

def new : Router := ⟨[]⟩

/-- Register a handler for a method and a pattern. -/
def route (r : Router) (method : Method) (pattern : String) (handler : Handler) : Router :=
  ⟨r.routes ++ [⟨method, parsePattern pattern, handler⟩]⟩

/-- Run the first route that matches. -/
def dispatchRoutes (request : Request) : List Route → Option Response
  | [] => none
  | route :: rest =>
    if !methodMatches route.method request.method then dispatchRoutes request rest
    else
      match matchSegments route.segments request.path with
      | some params => some (route.handler request params)
      | none => dispatchRoutes request rest

def dispatch (r : Router) (request : Request) : Option Response := dispatchRoutes request r.routes

/-- The methods registered for the routes that match a path. -/
def allowedMethods (r : Router) (path : String) : List Method :=
  r.routes.foldl (fun methods route =>
    if (matchSegments route.segments path).isSome then pushNew methods route.method
    else methods) []

/-- The methods registered for any route. -/
def registeredMethods (r : Router) : List Method :=
  r.routes.foldl (fun methods route => pushNew methods route.method) []

end Router

end FerroHttp
