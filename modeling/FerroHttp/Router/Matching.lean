import FerroHttp.Lib.Split
import FerroHttp.Router
import Mathlib.Data.List.Basic
import Mathlib.Data.List.Nodup

/-!
# Router.Matching — three traversals of one table

`dispatch`, `allowedMethods` and `registeredMethods` each walk the table by themselves.

1. `splitPath_eq_iff`: the segments of a path are what is between its slashes;
2. `matchSegments_eq_some_iff`: what a pattern matches, and which pairs it captures;
3. `dispatch_eq_some_iff`: `dispatch` runs the first registration that answers;
4. `dispatch_isSome_iff`: there is one exactly when `allowedMethods` says so;
5. `firstSeen_foldl`: both lists of methods keep the order of the first registrations.

`routing_agrees` puts them together, for every sequence of registrations.
-/

namespace FerroHttp

open Text

/-! ## Segments -/

/-- The non-empty pieces between the slashes of a path, in order. -/
def SegmentsOf (path : String) (segs : List String) : Prop :=
  ∃ pieces : List String, pieces ≠ [] ∧ (∀ piece ∈ pieces, '/' ∉ piece.toList) ∧
    path = String.intercalate "/" pieces ∧ segs = pieces.filter (· ≠ "")

theorem splitPath_eq_iff {path : String} {segs : List String} :
    splitPath path = segs ↔ SegmentsOf path segs := by
  constructor
  · intro h
    exact ⟨split '/' path, split_ne_nil, fun _ hpiece => not_mem_of_mem_split hpiece,
      (join_split rfl path).symm, h.symm⟩
  · intro h
    rcases h with ⟨pieces, hne, hfree, rfl, rfl⟩
    rw [splitPath, split_join rfl hne hfree]

/-! ## Patterns -/

/-- A path's segments are those of a pattern, with some segment for each `:name`; the
pairs are the names with their segments. -/
inductive Instance : List String → List String → List (String × String) → Prop
  | nil : Instance [] [] []
  | static {seg : String} {pattern actual : List String} {pairs : List (String × String)}
      (literal : seg.toList.head? ≠ some ':') (rest : Instance pattern actual pairs) :
      Instance (seg :: pattern) (seg :: actual) pairs
  | param {name value : String} {pattern actual : List String} {pairs : List (String × String)}
      (rest : Instance pattern actual pairs) :
      Instance ((":" ++ name) :: pattern) (value :: actual) ((name, value) :: pairs)

/-- The segment a piece of a pattern stands for. -/
def parseSegment (seg : String) : Segment :=
  match stripPrefix ":" seg with
  | some name => .param name
  | none => .static seg

theorem parsePattern_eq (pattern : String) :
    parsePattern pattern = (splitPath pattern).map parseSegment := rfl

theorem parseSegment_literal {seg : String} (h : seg.toList.head? ≠ some ':') :
    parseSegment seg = .static seg := by
  have hnone : stripPrefix ":" seg = none := by
    rw [stripPrefix, if_neg]
    intro hprefix
    rcases List.isPrefixOf_iff_prefix.mp hprefix with ⟨rest, hrest⟩
    rw [← hrest] at h
    exact h rfl
  rw [parseSegment, hnone]

theorem parseSegment_param (name : String) : parseSegment (":" ++ name) = .param name := by
  rw [parseSegment, stripPrefix_append]

/-- A piece of a pattern is a literal or a parameter. -/
theorem segment_cases (seg : String) :
    seg.toList.head? ≠ some ':' ∨ ∃ name, seg = ":" ++ name := by
  cases hchars : seg.toList with
  | nil => exact .inl (by simp)
  | cons c rest =>
    by_cases hcolon : c = ':'
    · right
      refine ⟨String.ofList rest, ?_⟩
      apply String.toList_inj.mp
      rw [hchars, hcolon, String.toList_append]
      simp
    · exact .inl (by simpa using hcolon)

/-- The segments are matched one by one. -/
theorem matchPairs_eq_some_iff {pattern actual : List String} {pairs : List (String × String)}
    (hlen : actual.length = pattern.length) :
    matchPairs (pattern.map parseSegment) actual = some pairs ↔ Instance pattern actual pairs := by
  induction pattern generalizing actual pairs with
  | nil =>
    rw [List.length_nil, List.length_eq_zero_iff] at hlen
    subst hlen
    constructor
    · intro h
      cases h
      exact .nil
    · intro h
      cases h
      rfl
  | cons seg pattern ih =>
    cases actual with
    | nil => cases hlen
    | cons value actual =>
      have hrest : actual.length = pattern.length := Nat.succ.inj hlen
      rcases segment_cases seg with hliteral | ⟨name, rfl⟩
      · rw [List.map_cons, parseSegment_literal hliteral, matchPairs]
        constructor
        · intro h
          split at h
          · cases h
          · rename_i heq
            rw [Decidable.not_not] at heq
            rw [← heq]
            exact .static hliteral ((ih hrest).mp h)
        · intro h
          cases h with
          | static literal rest => rw [if_neg (by simp), (ih hrest).mpr rest]
          | param rest => exact absurd (by simp) hliteral
      · rw [List.map_cons, parseSegment_param, matchPairs, Option.map_eq_some_iff]
        constructor
        · rintro ⟨found, hfound, rfl⟩
          exact .param ((ih hrest).mp hfound)
        · intro h
          generalize hseg : ":" ++ name = seg at h
          cases h with
          | static literal rest =>
            rw [← hseg] at literal
            exact absurd (by simp) literal
          | @param name' _ _ _ found rest =>
            have hname : name = name' := by simpa using hseg
            subst hname
            exact ⟨found, (ih hrest).mpr rest, rfl⟩

theorem Instance.length_eq {pattern actual : List String} {pairs : List (String × String)}
    (h : Instance pattern actual pairs) : actual.length = pattern.length := by
  induction h with
  | nil => rfl
  | static literal rest ih => simpa using ih
  | param rest ih => simpa using ih

/-- A pattern matches the paths whose segments are an instance of its own. -/
theorem matchSegments_eq_some_iff {pattern path : String} {params : Params} :
    matchSegments (parsePattern pattern) path = some params ↔
      Instance (splitPath pattern) (splitPath path) params.pairs := by
  rw [matchSegments, parsePattern_eq, List.length_map]
  by_cases hlen : (splitPath path).length = (splitPath pattern).length
  · rw [if_neg (by simpa using hlen), Option.map_eq_some_iff]
    constructor
    · rintro ⟨pairs, hpairs, rfl⟩
      exact (matchPairs_eq_some_iff hlen).mp hpairs
    · intro h
      exact ⟨params.pairs, (matchPairs_eq_some_iff hlen).mpr h, rfl⟩
  · rw [if_pos (by simpa using hlen)]
    constructor
    · intro h
      cases h
    · intro h
      exact absurd h.length_eq hlen

/-! ## The methods of a path -/

theorem mem_pushNew {methods : List Method} {m m' : Method} :
    m' ∈ pushNew methods m ↔ m' ∈ methods ∨ m' = m := by
  unfold pushNew
  split
  · rename_i hmem
    rw [List.contains_iff_mem] at hmem
    constructor
    · exact .inl
    · rintro (h | rfl)
      · exact h
      · exact hmem
  · rw [List.mem_append, List.mem_singleton]

/-- A method is allowed on a path when a route that matches it is registered for it. -/
theorem mem_allowedMethods {r : Router} {path : String} {m : Method} :
    m ∈ r.allowedMethods path ↔
      ∃ route ∈ r.routes, (matchSegments route.segments path).isSome ∧ route.method = m := by
  have hfold : ∀ (routes : List Route) (methods : List Method),
      m ∈ routes.foldl (fun methods route =>
          if (matchSegments route.segments path).isSome then pushNew methods route.method
          else methods) methods ↔
        m ∈ methods ∨
          ∃ route ∈ routes, (matchSegments route.segments path).isSome ∧ route.method = m := by
    intro routes
    induction routes with
    | nil => simp
    | cons route rest ih =>
      intro methods
      rw [List.foldl_cons, ih, List.exists_mem_cons_iff, ← or_assoc]
      refine or_congr ?_ Iff.rfl
      by_cases hmatch : (matchSegments route.segments path).isSome
      · simp only [hmatch, if_true, mem_pushNew, true_and, eq_comm]
      · simp [hmatch]
  unfold Router.allowedMethods
  rw [hfold]
  simp

/-- A route answers a request exactly when its method is allowed on the path, HEAD also
where GET is. -/
theorem dispatch_isSome_iff {r : Router} {request : Request} :
    (r.dispatch request).isSome ↔
      request.method ∈ r.allowedMethods request.path ∨
        (request.method = .head ∧ .get ∈ r.allowedMethods request.path) := by
  have hroutes : (r.dispatch request).isSome ↔ ∃ route ∈ r.routes,
      (matchSegments route.segments request.path).isSome ∧
        methodMatches route.method request.method = true := by
    unfold Router.dispatch
    induction r.routes with
    | nil => simp [Router.dispatchRoutes]
    | cons route rest ih =>
      rw [Router.dispatchRoutes, List.exists_mem_cons_iff, ← ih]
      cases hmethod : methodMatches route.method request.method with
      | false => simp
      | true =>
        cases matchSegments route.segments request.path <;> simp
  have hmethod : ∀ m : Method, methodMatches m request.method = true ↔
      m = request.method ∨ (request.method = .head ∧ m = .get) := by
    intro m
    simp [methodMatches]
  rw [hroutes, mem_allowedMethods, mem_allowedMethods]
  constructor
  · rintro ⟨route, hroute, hmatch, h⟩
    rcases (hmethod _).mp h with heq | ⟨hhead, hget⟩
    · exact .inl ⟨route, hroute, hmatch, heq⟩
    · exact .inr ⟨hhead, route, hroute, hmatch, hget⟩
  · rintro (⟨route, hroute, hmatch, heq⟩ | ⟨hhead, route, hroute, hmatch, hget⟩)
    · exact ⟨route, hroute, hmatch, (hmethod _).mpr (.inl heq)⟩
    · exact ⟨route, hroute, hmatch, (hmethod _).mpr (.inr ⟨hhead, hget⟩)⟩

/-! ## Registrations -/

/-- A call of `route`. -/
structure Registration where
  method : Method
  pattern : String
  handler : Handler

namespace Registration

variable {reg : Registration} {request : Request}

def toRoute (reg : Registration) : Route := ⟨reg.method, parsePattern reg.pattern, reg.handler⟩

/-- The pattern matches the path. -/
def Matches (reg : Registration) (path : String) : Prop :=
  ∃ pairs, Instance (splitPath reg.pattern) (splitPath path) pairs

/-- The registration is for the request's method, or for GET where it is HEAD. -/
def Accepts (reg : Registration) (request : Request) : Prop :=
  reg.method = request.method ∨ (request.method = .head ∧ reg.method = .get)

/-- What the handler answers, if the registration is the request's. -/
def answer (reg : Registration) (request : Request) : Option Response :=
  if methodMatches reg.method request.method then
    (matchSegments (parsePattern reg.pattern) request.path).map (reg.handler request)
  else none

theorem accepts_iff : methodMatches reg.method request.method = true ↔ reg.Accepts request := by
  simp [methodMatches, Accepts]

theorem matches_iff {path : String} :
    (matchSegments (parsePattern reg.pattern) path).isSome = true ↔ reg.Matches path := by
  rw [Option.isSome_iff_exists]
  constructor
  · rintro ⟨params, h⟩
    exact ⟨params.pairs, matchSegments_eq_some_iff.mp h⟩
  · rintro ⟨pairs, h⟩
    exact ⟨⟨pairs⟩, matchSegments_eq_some_iff.mpr h⟩

theorem answer_eq_some_iff {response : Response} :
    reg.answer request = some response ↔ reg.Accepts request ∧
      ∃ pairs, Instance (splitPath reg.pattern) (splitPath request.path) pairs ∧
        response = reg.handler request ⟨pairs⟩ := by
  unfold answer
  split
  · rename_i hmethod
    rw [Option.map_eq_some_iff]
    constructor
    · rintro ⟨params, hparams, rfl⟩
      exact ⟨accepts_iff.mp hmethod, params.pairs, matchSegments_eq_some_iff.mp hparams, rfl⟩
    · rintro ⟨_, pairs, hpairs, rfl⟩
      exact ⟨⟨pairs⟩, matchSegments_eq_some_iff.mpr hpairs, rfl⟩
  · rename_i hmethod
    constructor
    · intro h
      cases h
    · rintro ⟨haccepts, _⟩
      exact absurd (accepts_iff.mpr haccepts) hmethod

theorem answer_eq_none_iff :
    reg.answer request = none ↔ ¬ (reg.Accepts request ∧ reg.Matches request.path) := by
  rw [Option.eq_none_iff_forall_ne_some]
  constructor
  · rintro hnone ⟨haccepts, pairs, hpairs⟩
    exact hnone _ (answer_eq_some_iff.mpr ⟨haccepts, pairs, hpairs, rfl⟩)
  · intro hnot response hsome
    rcases answer_eq_some_iff.mp hsome with ⟨haccepts, pairs, hpairs, _⟩
    exact hnot ⟨haccepts, pairs, hpairs⟩

end Registration

/-- The table after a sequence of registrations. -/
def Router.register (regs : List Registration) : Router :=
  regs.foldl (fun r reg => r.route reg.method reg.pattern reg.handler) Router.new

section Table

variable {regs : List Registration} {request : Request}

theorem routes_register (regs : List Registration) :
    (Router.register regs).routes = regs.map Registration.toRoute := by
  have hfold : ∀ r : Router,
      (regs.foldl (fun r reg => r.route reg.method reg.pattern reg.handler) r).routes =
        r.routes ++ regs.map Registration.toRoute := by
    induction regs with
    | nil => simp
    | cons reg rest ih =>
      intro r
      rw [List.foldl_cons, ih, List.map_cons, Router.route, List.append_assoc]
      rfl
  exact hfold Router.new

/-- `dispatch` asks one registration after another. -/
theorem dispatch_register (regs : List Registration) (request : Request) :
    (Router.register regs).dispatch request = regs.findSome? (·.answer request) := by
  rw [Router.dispatch, routes_register]
  induction regs with
  | nil => rfl
  | cons reg rest ih =>
    rw [List.map_cons, Router.dispatchRoutes, List.findSome?_cons, ih]
    unfold Registration.answer Registration.toRoute
    dsimp only
    cases methodMatches reg.method request.method with
    | false => rfl
    | true =>
      cases matchSegments (parsePattern reg.pattern) request.path with
      | none => rfl
      | some params => rfl

/-- `dispatch` runs the handler of the first registration that answers the request. -/
theorem dispatch_eq_some_iff {response : Response} :
    (Router.register regs).dispatch request = some response ↔
      ∃ before reg after pairs, regs = before ++ reg :: after ∧
        (∀ other ∈ before, ¬ (other.Accepts request ∧ other.Matches request.path)) ∧
        reg.Accepts request ∧
        Instance (splitPath reg.pattern) (splitPath request.path) pairs ∧
        response = reg.handler request ⟨pairs⟩ := by
  rw [dispatch_register, List.findSome?_eq_some_iff]
  constructor
  · rintro ⟨before, reg, after, hregs, hanswer, hbefore⟩
    rcases Registration.answer_eq_some_iff.mp hanswer with ⟨haccepts, pairs, hpairs, hresponse⟩
    exact ⟨before, reg, after, pairs, hregs,
      fun other hother => Registration.answer_eq_none_iff.mp (hbefore other hother), haccepts,
      hpairs, hresponse⟩
  · rintro ⟨before, reg, after, pairs, hregs, hbefore, haccepts, hpairs, hresponse⟩
    exact ⟨before, reg, after, hregs,
      Registration.answer_eq_some_iff.mpr ⟨haccepts, pairs, hpairs, hresponse⟩,
      fun other hother => Registration.answer_eq_none_iff.mpr (hbefore other hother)⟩

theorem dispatch_eq_none_iff : (Router.register regs).dispatch request = none ↔
    ∀ reg ∈ regs, ¬ (reg.Accepts request ∧ reg.Matches request.path) := by
  rw [dispatch_register, List.findSome?_eq_none_iff]
  exact forall₂_congr fun reg _ => Registration.answer_eq_none_iff

/-! ## The order of the methods -/

/-- The methods are those of a list, each once, in the order in which they first occur. -/
structure FirstSeen (all methods : List Method) : Prop where
  nodup : methods.Nodup
  mem : ∀ m, m ∈ methods ↔ m ∈ all
  order : methods.Pairwise fun m m' => all.idxOf m < all.idxOf m'

/-- One more method keeps the order. -/
theorem FirstSeen.pushNew {all methods : List Method} (h : FirstSeen all methods) (m : Method) :
    FirstSeen (all ++ [m]) (pushNew methods m) := by
  have horder : methods.Pairwise fun a b => (all ++ [m]).idxOf a < (all ++ [m]).idxOf b := by
    refine h.order.imp_of_mem ?_
    intro a b ha hb hlt
    rw [List.idxOf_append_of_mem ((h.mem a).mp ha), List.idxOf_append_of_mem ((h.mem b).mp hb)]
    exact hlt
  constructor
  · unfold FerroHttp.pushNew
    split
    · exact h.nodup
    · rename_i hnew
      rw [List.contains_iff_mem] at hnew
      rw [List.nodup_append]
      refine ⟨h.nodup, List.nodup_singleton m, ?_⟩
      intro a ha b hb heq
      rw [List.mem_singleton.mp hb] at heq
      exact hnew (heq ▸ ha)
  · intro m'
    rw [mem_pushNew, h.mem, List.mem_append, List.mem_singleton]
  · unfold FerroHttp.pushNew
    split
    · exact horder
    · rename_i hnew
      rw [List.contains_iff_mem] at hnew
      rw [List.pairwise_append]
      refine ⟨horder, List.pairwise_singleton _ m, ?_⟩
      intro a ha b hb
      rw [List.mem_singleton.mp hb]
      -- the new one comes after everything seen so far
      have hall : m ∉ all := fun hm => hnew ((h.mem m).mpr hm)
      rw [List.idxOf_append_of_mem ((h.mem a).mp ha), List.idxOf_append_of_notMem hall]
      have hlt := List.idxOf_lt_length_of_mem ((h.mem a).mp ha)
      omega

/-- Collecting methods one by one keeps the order of their first occurrences. -/
theorem firstSeen_foldl (all : List Method) : FirstSeen all (all.foldl FerroHttp.pushNew []) := by
  induction all using List.reverseRecOn with
  | nil => exact ⟨List.nodup_nil, fun m => Iff.rfl, List.Pairwise.nil⟩
  | append_singleton all m ih =>
    rw [List.foldl_append]
    exact ih.pushNew m

/-- The methods of the registrations that match a path. -/
def matchingMethods (regs : List Registration) (path : String) : List Method :=
  (regs.filter fun reg => (matchSegments (parsePattern reg.pattern) path).isSome).map (·.method)

theorem mem_matchingMethods {path : String} {m : Method} :
    m ∈ matchingMethods regs path ↔ ∃ reg ∈ regs, reg.Matches path ∧ reg.method = m := by
  simp only [matchingMethods, List.mem_map, List.mem_filter, Registration.matches_iff, and_assoc]

theorem allowedMethods_register (regs : List Registration) (path : String) :
    (Router.register regs).allowedMethods path =
      (matchingMethods regs path).foldl pushNew [] := by
  rw [Router.allowedMethods, routes_register, matchingMethods, List.foldl_map, List.foldl_map,
    List.foldl_filter]
  rfl

theorem registeredMethods_register (regs : List Registration) :
    (Router.register regs).registeredMethods = (regs.map (·.method)).foldl pushNew [] := by
  rw [Router.registeredMethods, routes_register, List.foldl_map, List.foldl_map]
  rfl

/-- Routing and method discovery agree, whatever was registered: the segments of a path are
its non-empty pieces between slashes, patterns match the instances of their segments,
`dispatch` runs the first registration for the path and the method, it finds one exactly when
`allowedMethods` has the method, and both lists of methods are in the order of the first
registrations. -/
theorem routing_agrees (regs : List Registration) (request : Request) :
    (∀ path segs, splitPath path = segs ↔ SegmentsOf path segs) ∧
    (∀ pattern path params, matchSegments (parsePattern pattern) path = some params ↔
      Instance (splitPath pattern) (splitPath path) params.pairs) ∧
    (∀ response, (Router.register regs).dispatch request = some response ↔
      ∃ before reg after pairs, regs = before ++ reg :: after ∧
        (∀ other ∈ before, ¬ (other.Accepts request ∧ other.Matches request.path)) ∧
        reg.Accepts request ∧
        Instance (splitPath reg.pattern) (splitPath request.path) pairs ∧
        response = reg.handler request ⟨pairs⟩) ∧
    ((Router.register regs).dispatch request = none ↔
      ∀ reg ∈ regs, ¬ (reg.Accepts request ∧ reg.Matches request.path)) ∧
    ((Router.register regs).dispatch request).isSome = decide
      (request.method ∈ (Router.register regs).allowedMethods request.path ∨
        (request.method = .head ∧
          .get ∈ (Router.register regs).allowedMethods request.path)) ∧
    (∀ path m, m ∈ (Router.register regs).allowedMethods path ↔
      ∃ reg ∈ regs, reg.Matches path ∧ reg.method = m) ∧
    (∀ path, FirstSeen (matchingMethods regs path)
      ((Router.register regs).allowedMethods path)) ∧
    FirstSeen (regs.map (·.method)) (Router.register regs).registeredMethods := by
  refine ⟨fun path segs => splitPath_eq_iff, fun pattern path params => matchSegments_eq_some_iff,
    fun response => dispatch_eq_some_iff, dispatch_eq_none_iff, ?_, ?_, ?_, ?_⟩
  · rw [Bool.eq_iff_iff, decide_eq_true_eq]
    exact dispatch_isSome_iff
  · intro path m
    rw [allowedMethods_register, (firstSeen_foldl _).mem, mem_matchingMethods]
  · intro path
    rw [allowedMethods_register]
    exact firstSeen_foldl _
  · rw [registeredMethods_register]
    exact firstSeen_foldl _

end Table

end FerroHttp
