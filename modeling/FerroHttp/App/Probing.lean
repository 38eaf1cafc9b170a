import FerroHttp.App.Discovery
import FerroHttp.App.PartialContent
import FerroHttp.StaticFiles.FsAssets

/-!
# App.Probing — the probe of a file against its load

`dispatch` serves a path from what `load` returns and answers for the rest from what
`existsAt` finds. Over a file system the two differ on the files that cannot be read.

1. `FsAssets.staticExists_eq_iff`: for which paths the probe agrees with the load;
2. `selfContradicts_iff`: which requests are told that GET is allowed, when it is not served;
3. `probe_agrees_iff`: all of it. `locked_contradicts` is a file that cannot be read.
-/

namespace FerroHttp

open Exec Text

namespace FsAssets

variable {fs : Fs} {a : FsAssets} {path : String} {indexFiles : List String}

/-- The path addresses a file that cannot be read, and none that can. -/
def Misleads (fs : Fs) (a : FsAssets) (path : String) (indexFiles : List String) : Prop :=
  ∃ candidates, candidatePaths path indexFiles = some candidates ∧
    (∃ p ∈ candidates, a.Unreadable fs p) ∧ ∀ p ∈ candidates, ¬ a.Readable fs p

theorem staticExists_iff : staticExists path indexFiles (a.source fs) = true ↔
    ∃ candidates, candidatePaths path indexFiles = some candidates ∧
      ∃ p ∈ candidates, a.Readable fs p ∨ a.Unreadable fs p := by
  rw [staticExists_eq, List.any_eq_true]
  cases candidatePaths path indexFiles with
  | none => simp
  | some candidates =>
    simp only [Option.getD_some, Option.some.injEq, exists_eq_left']
    constructor
    · intro h
      obtain ⟨p, hp, hexists⟩ := h
      exact ⟨p, hp, resolves_iff.mp (existsAt_iff.mp hexists)⟩
    · intro h
      obtain ⟨p, hp, hresolves⟩ := h
      exact ⟨p, hp, existsAt_iff.mpr (resolves_iff.mpr hresolves)⟩

theorem serveStatic_iff {o : List (String × String)} :
    (serveStatic path indexFiles (a.source fs) o).isSome = true ↔
      ∃ candidates, candidatePaths path indexFiles = some candidates ∧
        ∃ p ∈ candidates, a.Readable fs p := by
  rw [serveStatic_isSome_eq, List.any_eq_true]
  cases candidatePaths path indexFiles with
  | none => simp
  | some candidates =>
    simp only [Option.getD_some, Option.some.injEq, exists_eq_left']
    constructor
    · intro h
      obtain ⟨p, hp, hload⟩ := h
      exact ⟨p, hp, load_isSome_iff.mp hload⟩
    · intro h
      obtain ⟨p, hp, hreadable⟩ := h
      exact ⟨p, hp, load_isSome_iff.mpr hreadable⟩

/-- A path misleads where the probe finds a file and none is served. -/
theorem misleads_iff {o : List (String × String)} : a.Misleads fs path indexFiles ↔
    staticExists path indexFiles (a.source fs) = true ∧
      serveStatic path indexFiles (a.source fs) o = none := by
  rw [staticExists_iff, ← Option.not_isSome_iff_eq_none, serveStatic_iff]
  constructor
  · intro h
    obtain ⟨candidates, hcandidates, ⟨p, hp, hunreadable⟩, hnone⟩ := h
    refine ⟨⟨candidates, hcandidates, p, hp, .inr hunreadable⟩, ?_⟩
    intro hserved
    obtain ⟨candidates', hcandidates', p', hp', hreadable⟩ := hserved
    rw [hcandidates, Option.some.injEq] at hcandidates'
    subst hcandidates'
    exact hnone p' hp' hreadable
  · intro h
    obtain ⟨⟨candidates, hcandidates, p, hp, hresolves⟩, hnone⟩ := h
    have hunserved : ∀ p ∈ candidates, ¬ a.Readable fs p := fun p hp hreadable =>
      hnone ⟨candidates, hcandidates, p, hp, hreadable⟩
    exact ⟨candidates, hcandidates, ⟨p, hp, hresolves.resolve_left (hunserved p hp)⟩, hunserved⟩

theorem staticExists_eq_iff {o : List (String × String)} :
    staticExists path indexFiles (a.source fs) =
        (serveStatic path indexFiles (a.source fs) o).isSome ↔
      ¬ a.Misleads fs path indexFiles := by
  rw [misleads_iff (o := o)]
  have hserved : (serveStatic path indexFiles (a.source fs) o).isSome = true →
      staticExists path indexFiles (a.source fs) = true := by
    rw [serveStatic_iff, staticExists_iff]
    intro h
    obtain ⟨candidates, hcandidates, p, hp, hreadable⟩ := h
    exact ⟨candidates, hcandidates, p, hp, .inl hreadable⟩
  cases hstatic : serveStatic path indexFiles (a.source fs) o with
  | some r =>
    rw [hstatic] at hserved
    simp [hserved rfl]
  | none => simp

end FsAssets

/-! ## Dispatch -/

/-- A GET or HEAD that no route answers is rejected with an `Allow` that lists GET. -/
def App.SelfContradicts (app : App) (t : Target) (request : Request) : Prop :=
  (request.method = .get ∨ request.method = .head) ∧ app.router.dispatch request = none ∧
    ∃ r allow, app.dispatch t request = .ok r ∧ r.status = ⟨405⟩ ∧ r.header "allow" = some allow ∧
      Listed allow .get

namespace App

variable {app : App} {t : Target} {request : Request}

/-- `evaluate` does not reject. -/
theorem evaluate_status_ne {response r : Response} (hok : response.status = ⟨200⟩)
    (h : evaluate t request response = .ok r) : r.status ≠ ⟨405⟩ := by
  have h' := h
  rw [evaluate, if_neg (by rw [hok]; simp)] at h'
  obtain ⟨modified, hmodified, h'⟩ := Outcome.bind_eq_ok.mp h'
  cases modified with
  | true =>
    -- a 304
    cases h'
    have h304 : (toNotModified response).status = ⟨304⟩ := status_copyHeaders _ _ _
    rw [h304]
    decide
  | false =>
    obtain ⟨r', heval, hkind⟩ := evaluate_kind hok hmodified
    rw [h] at heval
    cases heval
    rcases hkind with ⟨start, last, hslice⟩ | hunsatisfiable | rfl
    · rw [hslice.status]
      decide
    · rw [hunsatisfiable.status]
      decide
    · rw [hok]
      decide

theorem serveStatic_status {path : String} {indexFiles : List String} {assets : AssetSource}
    {o : List (String × String)} {response : Response}
    (h : serveStatic path indexFiles assets o = some response) : response.status = ⟨200⟩ := by
  simp only [serveStatic, Option.bind_eq_bind, Option.bind_eq_some_iff] at h
  obtain ⟨candidates, _, ⟨name, asset⟩, _, hresponse⟩ := h
  cases hresponse
  exact fileResponse_status name asset o

theorem header_reject (allow : String) :
    ((Response.text ⟨405⟩ "405 Method Not Allowed").withHeader "Allow" allow).header "allow" =
      some allow := by
  have hname : eqIgnoreAsciiCase (utf8 "Allow") (utf8 "allow") = true := by decide
  have hnone : (Response.text ⟨405⟩ "405 Method Not Allowed").header "allow" = none := by
    decide +kernel
  rw [header_withHeader, hname, hnone]
  rfl

theorem dispatch_none_of_not_allowed (h : app.router.allowedMethods request.path = []) :
    app.router.dispatch request = none := by
  rw [← Option.not_isSome_iff_eq_none, dispatch_isSome_iff, h]
  simp

/-- Where no route answers a GET or HEAD, none is for GET. -/
theorem get_not_mem_of_unrouted (hfetch : request.method = .get ∨ request.method = .head)
    (hroute : app.router.dispatch request = none) :
    .get ∉ app.router.allowedMethods request.path := by
  intro hget
  have hsome : (app.router.dispatch request).isSome := by
    rw [dispatch_isSome_iff]
    rcases hfetch with h | h <;> rw [h]
    · exact .inl hget
    · exact .inr ⟨rfl, hget⟩
  rw [hroute] at hsome
  cases hsome

/-- A GET or HEAD that no route answers is served from a file, or left over. -/
theorem dispatch_fetch (hfetch : request.method = .get ∨ request.method = .head)
    (hroute : app.router.dispatch request = none) :
    app.dispatch t request =
      match serveStatic request.path app.indexFiles app.assets app.mimeOverrides with
      | some response => evaluate t request response
      | none => .ok (app.unserved request) := by
  have hmethod : (request.method == .get || request.method == .head) = true := by
    simpa using hfetch
  have hoptions : (request.method == .options && request.target == "*") = false := by
    rcases hfetch with h | h <;> rw [h] <;> rfl
  simp only [dispatch, hoptions, hroute, hmethod, Bool.false_eq_true, if_false, if_true]
  rfl

/-- What is left over is rejected with the methods that `Allow` is made from. -/
theorem unserved_fetch (hfetch : request.method = .get ∨ request.method = .head) :
    app.unserved request =
      if app.router.allowedMethods request.path ≠ [] ∨
          staticExists request.path app.indexFiles app.assets = true then
        (Response.text ⟨405⟩ "405 Method Not Allowed").withHeader "Allow"
          (allowHeaderValue (app.allowBase request.path))
      else Response.text ⟨404⟩ "404 Not Found" := by
  have hunserved := answer_unservedBranch app ⟨.w64, true⟩ request
  have hoptions : (request.method == .options) = false := by
    rcases hfetch with h | h <;> rw [h] <;> rfl
  rw [unservedBranch_eq] at hunserved
  split
  · rename_i hknown
    rw [if_pos hknown, answer_discoveryBranch, discover, if_neg (by simp [hoptions])] at hunserved
    exact (Outcome.ok.inj hunserved).symm
  · rename_i hunknown
    rw [if_neg hunknown] at hunserved
    exact (Outcome.ok.inj hunserved).symm

/-- A GET or HEAD is told that GET is allowed where a file is found that is not served. -/
theorem selfContradicts_iff (t : Target) :
    app.SelfContradicts t request ↔ (request.method = .get ∨ request.method = .head) ∧
      app.router.allowedMethods request.path = [] ∧
      staticExists request.path app.indexFiles app.assets = true ∧
      serveStatic request.path app.indexFiles app.assets app.mimeOverrides = none := by
  constructor
  · intro h
    obtain ⟨hfetch, hroute, r, allow, hdispatch, hstatus, hallow, hlisted⟩ := h
    rw [dispatch_fetch hfetch hroute] at hdispatch
    cases hstatic : serveStatic request.path app.indexFiles app.assets app.mimeOverrides with
    | some response =>
      -- a file that is served is not rejected
      rw [hstatic] at hdispatch
      exact absurd hstatus (evaluate_status_ne (serveStatic_status hstatic) hdispatch)
    | none =>
      rw [hstatic, Outcome.ok.injEq, unserved_fetch hfetch] at hdispatch
      split at hdispatch
      · rename_i hknown
        subst hdispatch
        rw [header_reject, Option.some.injEq] at hallow
        rw [← hallow, listed_allowHeaderValue, allowBase] at hlisted
        have hroutes : app.router.allowedMethods request.path = [] := by
          by_contra hne
          rw [if_neg hne] at hlisted
          rcases hlisted with hget | ⟨hhead, _⟩ | hoptions
          · exact get_not_mem_of_unrouted hfetch hroute hget
          · cases hhead
          · cases hoptions
        exact ⟨hfetch, hroutes, hknown.resolve_left (fun hne => hne hroutes), rfl⟩
      · subst hdispatch
        cases hstatus
  · intro h
    obtain ⟨hfetch, hroutes, hexists, hstatic⟩ := h
    have hroute := dispatch_none_of_not_allowed hroutes
    refine ⟨hfetch, hroute, _, allowHeaderValue (app.allowBase request.path), ?_, ?_,
      header_reject _, ?_⟩
    · rw [dispatch_fetch hfetch hroute, hstatic, unserved_fetch hfetch, if_pos (.inr hexists)]
    · rfl
    · rw [listed_allowHeaderValue, allowBase, if_pos hroutes]
      exact .inl List.mem_cons_self

end App

/-! ## The rule -/

/-- The probe agrees with the load on every name that is no unreadable file, and so does
`staticExists` with `serveStatic` on every path that does not mislead; a GET or HEAD is told
that GET is allowed on the paths that mislead and have no route. -/
theorem probe_agrees_iff (fs : Fs) (a : FsAssets) :
    (∀ p, a.existsAt fs p = (a.load fs p).isSome ↔ ¬ a.Unreadable fs p) ∧
      (∀ path indexFiles o, staticExists path indexFiles (a.source fs) =
          (serveStatic path indexFiles (a.source fs) o).isSome ↔
        ¬ a.Misleads fs path indexFiles) ∧
      ∀ (app : App) (t : Target) (request : Request),
        ¬ App.SelfContradicts { app with assets := a.source fs } t request ↔
          ¬ ((request.method = .get ∨ request.method = .head) ∧
            app.router.allowedMethods request.path = [] ∧
            a.Misleads fs request.path app.indexFiles) := by
  refine ⟨?_, ?_, ?_⟩
  · intro p
    exact FsAssets.existsAt_eq_iff
  · intro path indexFiles o
    exact FsAssets.staticExists_eq_iff
  · intro app t request
    rw [App.selfContradicts_iff, @FsAssets.misleads_iff fs a request.path app.indexFiles
      app.mimeOverrides]

/-- The tree with a directory and one file in it, which cannot be read. -/
def lockedStat (path : FilePath) : Option Metadata :=
  if path = utf8 "/srv" then some ⟨.dir, some 0⟩
  else if path = utf8 "/srv/locked.txt" then some ⟨.file, some 0⟩
  else none

def lockedFs : Fs :=
  ⟨fun path => if (lockedStat path).isSome then some path else none, lockedStat, lockedStat,
    fun _ => none⟩

def lockedApp : App :=
  ⟨Router.new, FsAssets.source lockedFs ⟨utf8 "/srv", true⟩, [], [], ⟨false, 0⟩⟩

def lockedGet : Request := ⟨.get, "/locked.txt", .http11, [], []⟩

/-- The file is found and not loaded, and GET is rejected with `Allow: GET, HEAD, OPTIONS`. -/
theorem locked_contradicts :
    (∀ follow, FsAssets.existsAt lockedFs ⟨utf8 "/srv", follow⟩ "locked.txt" = true ∧
      FsAssets.load lockedFs ⟨utf8 "/srv", follow⟩ "locked.txt" = none) ∧
      staticExists lockedGet.path [] lockedApp.assets = true ∧
      serveStatic lockedGet.path [] lockedApp.assets [] = none ∧
      ∀ t, lockedApp.SelfContradicts t lockedGet := by
  have hprobe : ∀ follow, FsAssets.existsAt lockedFs ⟨utf8 "/srv", follow⟩ "locked.txt" = true ∧
      FsAssets.load lockedFs ⟨utf8 "/srv", follow⟩ "locked.txt" = none := by decide +kernel
  have hpath : candidatePaths lockedGet.path [] = some ["locked.txt"] := by decide +kernel
  have hexists : staticExists lockedGet.path [] lockedApp.assets = true := by
    rw [staticExists_eq, hpath]
    simp [lockedApp, FsAssets.source, (hprobe true).1]
  have hstatic : serveStatic lockedGet.path [] lockedApp.assets [] = none := by
    rw [← Option.not_isSome_iff_eq_none, serveStatic_isSome_eq, hpath]
    simp [lockedApp, FsAssets.source, (hprobe true).2]
  refine ⟨hprobe, hexists, hstatic, ?_⟩
  intro t
  rw [App.selfContradicts_iff]
  exact ⟨.inl rfl, rfl, hexists, hstatic⟩

end FerroHttp
