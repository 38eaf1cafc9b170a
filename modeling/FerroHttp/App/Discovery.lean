import FerroHttp.App
import FerroHttp.Router.Matching

/-!
# App.Discovery — what `Allow` says

A path is served by routes, by a file, or by both, and `dispatch` computes `Allow` from
one of them only.

1. `branch` names the branch of `dispatch` that answers a request (`dispatch_eq`);
2. `dispatch_isSome_iff`, `serveStatic_isSome`: for which methods a path is served;
3. `listed_allowHeaderValue`: which methods an `Allow` value lists;
4. `allowExact_iff`: the two agree, except on a path with a file and routes none of
   which is for GET. `overlap_not_exact` is one.
-/

namespace FerroHttp

open Exec Text

/-! ## Branches -/

/-- The branch of `dispatch` that answers a request. -/
inductive Branch where
  | serverWide
  | route (response : Response)
  | static (response : Response)
  | options (allow : String)
  | rejected (allow : String)
  | notFound

/-- The request is answered rather than rejected. -/
def Branch.serves : Branch → Bool
  | .rejected _ => false
  | .notFound => false
  | _ => true

namespace App

/-- The file a request is served, if its method asks for one. -/
def staticFor (app : App) (request : Request) : Option Response :=
  if request.method == .get || request.method == .head then
    serveStatic request.path app.indexFiles app.assets app.mimeOverrides
  else none

/-- The discovery branch for a path with a known `Allow` value. -/
def discoveryBranch (request : Request) (allow : String) : Branch :=
  if request.method == .options then .options allow else .rejected allow

/-- The branch of a request that neither a route nor a file answers. -/
def unservedBranch (app : App) (request : Request) : Branch :=
  let allowed := app.router.allowedMethods request.path
  if !allowed.isEmpty then discoveryBranch request (allowHeaderValue allowed)
  else if staticExists request.path app.indexFiles app.assets then
    discoveryBranch request "GET, HEAD, OPTIONS"
  else .notFound

/-- The branches in the order of `dispatch`. -/
def branch (app : App) (request : Request) : Branch :=
  if request.method == .options && request.target == "*" then .serverWide
  else
    match app.router.dispatch request with
    | some response => .route response
    | none =>
      match app.staticFor request with
      | some response => .static response
      | none => app.unservedBranch request

/-- The answer of a branch. -/
def answer (app : App) (t : Target) (request : Request) : Branch → Outcome Empty Response
  | .serverWide => .ok ((Response.new ⟨200⟩).withHeader "Allow"
      (allowHeaderValue (pushNew app.router.registeredMethods .get)))
  | .route response => .ok response
  | .static response => evaluate t request response
  | .options allow => .ok ((Response.new ⟨200⟩).withHeader "Allow" allow)
  | .rejected allow =>
    .ok ((Response.text ⟨405⟩ "405 Method Not Allowed").withHeader "Allow" allow)
  | .notFound => .ok (Response.text ⟨404⟩ "404 Not Found")

variable {app : App} {t : Target} {request : Request}

theorem answer_discoveryBranch (app : App) (t : Target) (request : Request) (allow : String) :
    app.answer t request (discoveryBranch request allow) = .ok (discover request allow) := by
  unfold discoveryBranch discover
  split <;> rfl

theorem answer_unservedBranch (app : App) (t : Target) (request : Request) :
    app.answer t request (app.unservedBranch request) = .ok (app.unserved request) := by
  unfold unservedBranch unserved
  dsimp only
  split
  · exact answer_discoveryBranch app t request _
  · split
    · exact answer_discoveryBranch app t request _
    · rfl

/-- `dispatch` is the answer of its branch. -/
theorem dispatch_eq (app : App) (t : Target) (request : Request) :
    app.dispatch t request = app.answer t request (app.branch request) := by
  unfold dispatch branch
  split
  · rfl
  · cases app.router.dispatch request with
    | some response => rfl
    | none =>
      dsimp only
      unfold staticFor
      split
      · cases serveStatic request.path app.indexFiles app.assets app.mimeOverrides with
        | some response => rfl
        | none => exact (answer_unservedBranch app t request).symm
      · exact (answer_unservedBranch app t request).symm

end App

/-! ## Files -/

/-- The probe tells what the source would load. -/
def AssetSource.Probes (assets : AssetSource) : Prop :=
  ∀ p, assets.existsAt p = (assets.load p).isSome

theorem firstAsset_isSome (assets : AssetSource) (candidates : List String) :
    (firstAsset assets candidates).isSome =
      candidates.any fun candidate => (assets.load candidate).isSome := by
  induction candidates with
  | nil => rfl
  | cons candidate rest ih =>
    rw [firstAsset, List.any_cons, ← ih]
    cases assets.load candidate <;> simp

/-- A file is served where some candidate can be loaded. -/
theorem serveStatic_isSome_eq (assets : AssetSource) (path : String) (indexFiles : List String)
    (o : List (String × String)) :
    (serveStatic path indexFiles assets o).isSome =
      ((candidatePaths path indexFiles).getD []).any fun p => (assets.load p).isSome := by
  unfold serveStatic
  cases candidatePaths path indexFiles with
  | none => rfl
  | some candidates =>
    simp only [Option.bind_eq_bind, Option.bind_some, Option.getD_some]
    rw [← firstAsset_isSome]
    cases firstAsset assets candidates <;> rfl

theorem staticExists_eq (assets : AssetSource) (path : String) (indexFiles : List String) :
    staticExists path indexFiles assets =
      ((candidatePaths path indexFiles).getD []).any assets.existsAt := by
  unfold staticExists
  cases candidatePaths path indexFiles <;> rfl

/-- A file is served where the probe finds one. -/
theorem serveStatic_isSome {assets : AssetSource} (hprobe : assets.Probes) (path : String)
    (indexFiles : List String) (o : List (String × String)) :
    (serveStatic path indexFiles assets o).isSome = staticExists path indexFiles assets := by
  have hload : assets.existsAt = fun p => (assets.load p).isSome := funext hprobe
  rw [serveStatic_isSome_eq, staticExists_eq, hload]

/-! ## `Allow` values -/

/-- The method is one of the elements of an `Allow` value. -/
def Listed (allow : String) (m : Method) : Prop := m.asStr ∈ (split ',' allow).map trim

theorem asStr_injective {m m' : Method} (h : m.asStr = m'.asStr) : m = m' := by
  cases m <;> cases m' <;> first | rfl | exact absurd h (by decide)

/-- The elements of a list that is joined as the source does. -/
theorem split_methods {methods : List Method} (hne : methods ≠ []) :
    (split ',' (String.intercalate ", " (methods.map Method.asStr))).map trim =
      methods.map Method.asStr := by
  have hfree : ∀ m : Method, ',' ∉ m.asStr.toList ∧ ',' ∉ (" " ++ m.asStr).toList ∧
      trim m.asStr = m.asStr ∧ trim (" " ++ m.asStr) = m.asStr := by
    intro m
    cases m <;> decide +kernel
  cases methods with
  | nil => exact absurd rfl hne
  | cons m rest =>
    have hsep : (", " : String) = "," ++ " " := by decide +kernel
    rw [List.map_cons, hsep, intercalate_append, split_join rfl (by simp)]
    · simp only [List.map_cons, List.map_map, (hfree m).2.2.1]
      congr 1
      exact List.map_congr_left fun m' _ => (hfree m').2.2.2
    · intro piece hpiece
      rcases List.mem_cons.mp hpiece with rfl | hpiece
      · exact (hfree m).1
      · rcases List.mem_map.mp hpiece with ⟨_, hname, rfl⟩
        rcases List.mem_map.mp hname with ⟨m', _, rfl⟩
        exact (hfree m').2.1

/-- HEAD goes with GET. -/
theorem mem_withHead {allowed : List Method} {m : Method} :
    m ∈ (if allowed.contains .get && !allowed.contains .head then allowed ++ [.head] else allowed) ↔
      m ∈ allowed ∨ (m = .head ∧ .get ∈ allowed) := by
  by_cases hget : Method.get ∈ allowed
  · by_cases hhead : Method.head ∈ allowed
    · simp only [List.contains_iff_mem.mpr hget, List.contains_iff_mem.mpr hhead, Bool.not_true,
        Bool.and_false, Bool.false_eq_true, if_false]
      constructor
      · exact .inl
      · rintro (h | ⟨rfl, _⟩)
        · exact h
        · exact hhead
    · simp [hget, hhead]
  · simp [hget]

/-- An `Allow` value lists the methods it is made for, HEAD where GET is, and OPTIONS. -/
theorem listed_allowHeaderValue {allowed : List Method} {m : Method} :
    Listed (allowHeaderValue allowed) m ↔
      m ∈ allowed ∨ (m = .head ∧ .get ∈ allowed) ∨ m = .options := by
  have hvalue : allowHeaderValue allowed = String.intercalate ", " ((pushNew
      (if allowed.contains .get && !allowed.contains .head then allowed ++ [.head] else allowed)
      .options).map Method.asStr) := rfl
  have hne : pushNew (if allowed.contains .get && !allowed.contains .head then allowed ++ [.head]
      else allowed) .options ≠ [] := List.ne_nil_of_mem (mem_pushNew.mpr (.inr rfl))
  have hlisted : Listed (allowHeaderValue allowed) m ↔ m ∈ pushNew
      (if allowed.contains .get && !allowed.contains .head then allowed ++ [.head] else allowed)
      .options := by
    rw [Listed, hvalue, split_methods hne, List.mem_map]
    constructor
    · rintro ⟨m', hm', heq⟩
      rw [← asStr_injective heq]
      exact hm'
    · intro hm
      exact ⟨m, hm, rfl⟩
  rw [hlisted, mem_pushNew, mem_withHead, or_assoc]

/-! ## Exactness -/

namespace App

variable {app : App} {request : Request}

/-- Wherever discovery answers a request, `Allow` lists the methods that are answered on
its path, and no others. -/
def AllowExact (app : App) (request : Request) : Prop :=
  ∀ allow, app.branch request = .options allow ∨ app.branch request = .rejected allow →
    ∀ other : Request, other.path = request.path →
      (Listed allow other.method ↔ (app.branch other).serves = true)

/-- In particular the rejected method is not listed. -/
theorem AllowExact.not_listed (h : AllowExact app request) {allow : String}
    (hrejected : app.branch request = .rejected allow) : ¬ Listed allow request.method := by
  rw [h allow (.inr hrejected) request rfl, hrejected]
  simp [Branch.serves]

/-- The path addresses a file and matches routes, none of which is for GET, and the
request's method is one that neither of them serves. -/
structure Overlapped (app : App) (request : Request) : Prop where
  file : staticExists request.path app.indexFiles app.assets = true
  routes : app.router.allowedMethods request.path ≠ []
  noGet : .get ∉ app.router.allowedMethods request.path
  unserved : request.method ∉ app.router.allowedMethods request.path
  noFetch : request.method ≠ .get ∧ request.method ≠ .head

/-- The asterisk-form target is its own path. -/
theorem path_asterisk (h : request.target = "*") : request.path = "*" := by
  have hform : request.absoluteFormPath = none := by
    unfold Request.absoluteFormPath
    rw [h]
    decide +kernel
  unfold Request.path
  rw [hform, h]
  decide +kernel

/-- What `Allow` is made from: the routes' methods, or GET for a file alone. -/
def allowBase (app : App) (path : String) : List Method :=
  if app.router.allowedMethods path = [] then [.get] else app.router.allowedMethods path

theorem branch_of_route (hresource : ¬ (request.method = .options ∧ request.target = "*"))
    {r : Response} (hroute : app.router.dispatch request = some r) :
    app.branch request = .route r := by
  unfold branch
  rw [if_neg (by simpa using hresource), hroute]

/-- Without a route, a file answers, or what is left. -/
theorem branch_of_no_route (hresource : ¬ (request.method = .options ∧ request.target = "*"))
    (hroute : ¬ (app.router.dispatch request).isSome) :
    app.branch request =
      match app.staticFor request with
      | some response => .static response
      | none => app.unservedBranch request := by
  have hnone : app.router.dispatch request = none := by simpa using hroute
  unfold branch
  rw [if_neg (by simpa using hresource), hnone]

theorem staticFor_isSome (hprobe : app.assets.Probes) :
    (app.staticFor request).isSome ↔ (request.method = .get ∨ request.method = .head) ∧
      staticExists request.path app.indexFiles app.assets = true := by
  rw [← serveStatic_isSome hprobe request.path app.indexFiles app.mimeOverrides]
  unfold staticFor
  by_cases hfetch : request.method = .get ∨ request.method = .head
  · rw [if_pos (by simpa using hfetch)]
    exact ⟨fun h => ⟨hfetch, h⟩, fun h => h.2⟩
  · rw [if_neg (by simpa using hfetch)]
    simp [hfetch]

/-- The branches of a request that is not the server-wide OPTIONS, by what serves it. -/
theorem branch_cases (hprobe : app.assets.Probes)
    (hresource : ¬ (request.method = .options ∧ request.target = "*")) :
    ((app.router.dispatch request).isSome ∧ ∃ r, app.branch request = .route r) ∨
      (¬ (app.router.dispatch request).isSome ∧
        (request.method = .get ∨ request.method = .head) ∧
        staticExists request.path app.indexFiles app.assets = true ∧
        ∃ r, app.branch request = .static r) ∨
      (¬ (app.router.dispatch request).isSome ∧
        ¬ ((request.method = .get ∨ request.method = .head) ∧
          staticExists request.path app.indexFiles app.assets = true) ∧
        app.branch request = app.unservedBranch request) := by
  by_cases hroute : (app.router.dispatch request).isSome
  · rcases Option.isSome_iff_exists.mp hroute with ⟨r, hr⟩
    exact .inl ⟨hroute, r, branch_of_route hresource hr⟩
  · right
    rw [branch_of_no_route hresource hroute, ← staticFor_isSome hprobe]
    cases hstatic : app.staticFor request with
    | some r =>
      rcases (staticFor_isSome hprobe).mp (by rw [hstatic]; rfl) with ⟨hfetch, hfile⟩
      exact .inl ⟨hroute, hfetch, hfile, r, rfl⟩
    | none => exact .inr ⟨hroute, by simp, rfl⟩

/-- The discovery branches of a known path, and `404` for any other. -/
theorem unservedBranch_eq (app : App) (request : Request) :
    app.unservedBranch request =
      if app.router.allowedMethods request.path ≠ [] ∨
          staticExists request.path app.indexFiles app.assets = true then
        discoveryBranch request (allowHeaderValue (app.allowBase request.path))
      else .notFound := by
  have hfile : allowHeaderValue [.get] = "GET, HEAD, OPTIONS" := by decide +kernel
  unfold unservedBranch allowBase
  by_cases hroutes : app.router.allowedMethods request.path = []
  · simp only [hroutes, List.isEmpty_nil, Bool.not_true, Bool.false_eq_true, if_false, if_true,
      hfile, ne_eq, not_true_eq_false, false_or]
  · simp [hroutes]

/-- For which methods a path is answered: those of its routes, HEAD also through GET; GET
and HEAD where there is a file; and OPTIONS if there is anything at all. -/
theorem serves_iff (hprobe : app.assets.Probes) (hpath : request.path ≠ "*") :
    (app.branch request).serves = true ↔
      (request.method ∈ app.router.allowedMethods request.path ∨
        (request.method = .head ∧ .get ∈ app.router.allowedMethods request.path)) ∨
      ((request.method = .get ∨ request.method = .head) ∧
        staticExists request.path app.indexFiles app.assets = true) ∨
      (request.method = .options ∧ (app.router.allowedMethods request.path ≠ [] ∨
        staticExists request.path app.indexFiles app.assets = true)) := by
  rw [← dispatch_isSome_iff]
  rcases branch_cases hprobe fun h => hpath (path_asterisk h.2) with ⟨hroute, r, hbranch⟩ | ⟨_, hfetch, hfile, r, hbranch⟩ |
    ⟨hroute, hstatic, hbranch⟩
  · rw [hbranch]
    exact iff_of_true rfl (.inl hroute)
  · rw [hbranch]
    exact iff_of_true rfl (.inr (.inl ⟨hfetch, hfile⟩))
  · -- what is left is answered for OPTIONS alone
    rw [hbranch, unservedBranch_eq]
    constructor
    · intro h
      split at h
      · rename_i hknown
        unfold discoveryBranch at h
        split at h
        · rename_i hoptions
          exact .inr (.inr ⟨by simpa using hoptions, hknown⟩)
        · cases h
      · cases h
    · rintro (h | h | ⟨hoptions, hknown⟩)
      · exact absurd h hroute
      · exact absurd h hstatic
      · rw [if_pos hknown, discoveryBranch, if_pos (by rw [hoptions]; rfl)]
        rfl

/-- Where discovery answers, and with what. -/
theorem discovers_iff (hprobe : app.assets.Probes) (hpath : request.path ≠ "*")
    {allow : String} :
    app.branch request = .options allow ∨ app.branch request = .rejected allow ↔
      ¬ (app.router.dispatch request).isSome ∧
        ¬ ((request.method = .get ∨ request.method = .head) ∧
          staticExists request.path app.indexFiles app.assets = true) ∧
        (app.router.allowedMethods request.path ≠ [] ∨
          staticExists request.path app.indexFiles app.assets = true) ∧
        allow = allowHeaderValue (app.allowBase request.path) := by
  rcases branch_cases hprobe fun h => hpath (path_asterisk h.2) with ⟨hroute, r, hbranch⟩ | ⟨_, hfetch, hfile, r, hbranch⟩ |
    ⟨hroute, hstatic, hbranch⟩
  · simp [hbranch, hroute]
  · simp [hbranch, hfetch, hfile]
  · rw [hbranch, unservedBranch_eq]
    split
    · rename_i hknown
      unfold discoveryBranch
      split
      · simp only [Branch.options.injEq, reduceCtorEq, or_false]
        exact ⟨fun h => ⟨hroute, hstatic, hknown, h.symm⟩, fun h => h.2.2.2.symm⟩
      · simp only [Branch.rejected.injEq, reduceCtorEq, false_or]
        exact ⟨fun h => ⟨hroute, hstatic, hknown, h.symm⟩, fun h => h.2.2.2.symm⟩
    · rename_i hunknown
      constructor
      · rintro (h | h) <;> cases h
      · intro h
        exact absurd h.2.2.1 hunknown

/-- Off the overlap, what `Allow` is made from is what the path is served for. -/
theorem listed_iff_serves (hprobe : app.assets.Probes) {path : String} (hpath : path ≠ "*")
    (hknown : app.router.allowedMethods path ≠ [] ∨
      staticExists path app.indexFiles app.assets = true)
    (hget : app.router.allowedMethods path ≠ [] →
      staticExists path app.indexFiles app.assets = true →
        .get ∈ app.router.allowedMethods path)
    {other : Request} (hother : other.path = path) :
    Listed (allowHeaderValue (app.allowBase path)) other.method ↔
      (app.branch other).serves = true := by
  subst hother
  rw [listed_allowHeaderValue, serves_iff hprobe hpath]
  unfold allowBase
  by_cases hroutes : app.router.allowedMethods other.path = []
  · -- a file alone
    have hfile : staticExists other.path app.indexFiles app.assets = true := by
      rcases hknown with h | h
      · exact absurd hroutes h
      · exact h
    simp [hroutes, hfile, or_assoc]
  · rw [if_neg hroutes]
    have hfetch : (other.method = .get ∨ other.method = .head) ∧
        staticExists other.path app.indexFiles app.assets = true →
          other.method ∈ app.router.allowedMethods other.path ∨
            (other.method = .head ∧ .get ∈ app.router.allowedMethods other.path) := by
      rintro ⟨hget' | hhead, hfile⟩
      · rw [hget']
        exact .inl (hget hroutes hfile)
      · exact .inr ⟨hhead, hget hroutes hfile⟩
    constructor
    · rintro (h | h | h)
      · exact .inl (.inl h)
      · exact .inl (.inr h)
      · exact .inr (.inr ⟨h, .inl hroutes⟩)
    · rintro (h | h | h)
      · exact h.imp id .inl
      · exact (hfetch h).imp id .inl
      · exact .inr (.inr h.1)

theorem not_allowExact_of_overlapped (hprobe : app.assets.Probes) (hpath : request.path ≠ "*")
    (h : Overlapped app request) : ¬ AllowExact app request := by
  intro hexact
  have hroute : ¬ (app.router.dispatch request).isSome := by
    rw [dispatch_isSome_iff]
    rintro (hmem | ⟨_, hmem⟩)
    · exact h.unserved hmem
    · exact h.noGet hmem
  have hbranch := (discovers_iff hprobe hpath).mpr
    ⟨hroute, fun hfetch => hfetch.1.elim h.noFetch.1 h.noFetch.2, .inl h.routes, rfl⟩
  -- GET is served from the file, and not listed
  have hget : ({ request with method := .get } : Request).path ≠ "*" := hpath
  have hserves : (app.branch { request with method := .get }).serves = true :=
    (serves_iff hprobe hget).mpr (.inr (.inl ⟨.inl rfl, h.file⟩))
  have hlisted := (hexact _ hbranch { request with method := .get } rfl).mpr hserves
  rw [listed_allowHeaderValue, allowBase, if_neg h.routes] at hlisted
  simp [h.noGet] at hlisted

/-- `Allow` is exact for every request but those on an overlap of a file and routes
without GET. -/
theorem allowExact_iff (hprobe : app.assets.Probes) (hpath : request.path ≠ "*") :
    AllowExact app request ↔ ¬ Overlapped app request := by
  constructor
  · intro hexact h
    exact not_allowExact_of_overlapped hprobe hpath h hexact
  · intro hnone allow hdiscovers other hother
    rcases (discovers_iff hprobe hpath).mp hdiscovers with ⟨hroute, hstatic, hknown, rfl⟩
    refine listed_iff_serves hprobe hpath hknown ?_ hother
    intro hroutes hfile
    by_contra hget
    apply hnone
    rw [dispatch_isSome_iff] at hroute
    refine ⟨hfile, hroutes, hget, fun h => hroute (.inl h), ?_, ?_⟩
    · intro h
      exact hstatic ⟨.inl h, hfile⟩
    · intro h
      exact hstatic ⟨.inr h, hfile⟩

/-- One file, and a route for POST on its path. -/
def overlapApp : App :=
  ⟨Router.new.route .post "/a.txt" fun _ _ => Response.text ⟨200⟩ "posted",
    ⟨fun path => if path = "a.txt" then some ⟨utf8 "abcd", none⟩ else none,
      fun path => path == "a.txt"⟩, [], [], ⟨false, 0⟩⟩

def overlapDelete : Request := ⟨.delete, "/a.txt", .http11, [⟨"Host", "h"⟩], []⟩

theorem overlapApp_probes : overlapApp.assets.Probes := by
  intro p
  by_cases h : p = "a.txt" <;> simp [overlapApp, h]

theorem overlapDelete_overlapped : overlapDelete.path ≠ "*" ∧
    Overlapped overlapApp overlapDelete := by
  refine ⟨by decide +kernel, ?_, ?_, ?_, ?_, ?_, ?_⟩ <;> decide +kernel

/-- DELETE is rejected with `Allow: POST, OPTIONS`, while GET is served. -/
theorem overlap_not_exact : overlapApp.assets.Probes ∧ overlapDelete.path ≠ "*" ∧
    ¬ AllowExact overlapApp overlapDelete := by
  rcases overlapDelete_overlapped with ⟨hpath, h⟩
  exact ⟨overlapApp_probes, hpath, not_allowExact_of_overlapped overlapApp_probes hpath h⟩

theorem overlap_exact_iff :
    AllowExact overlapApp overlapDelete ↔ ¬ Overlapped overlapApp overlapDelete :=
  allowExact_iff overlapApp_probes overlapDelete_overlapped.1

end App

end FerroHttp
