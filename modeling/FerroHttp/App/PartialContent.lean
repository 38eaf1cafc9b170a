import FerroHttp.App
import FerroHttp.Http.Ranges

/-!
# App.PartialContent — ranges through the whole handler

`evaluate` slices an asset and `postProcess` compresses, and neither knows of the other.

1. `handle_partial_iff`: the handler's `206` for an asset is that of `evaluate`,
   post-processed;
2. `partialExact_iff`: so it is exact, except for the requests whose slice is
   compressed (`CompressedPart`), which announce the bytes of the asset and carry
   those of a gzip stream. `gzippedSlice_not_exact` is one of them.
-/

namespace FerroHttp

open Exec Text

/-! ## Files -/

theorem contentType_fileResponse (name : String) (asset : Asset)
    (mimeOverrides : List (String × String)) :
    (fileResponse name asset mimeOverrides).header "Content-Type" =
      some (mimeFor name mimeOverrides) := by
  have hnew : (Response.new ⟨200⟩).header "Content-Type" = none := rfl
  have hfile : (fileResponse name asset mimeOverrides).header "Content-Type" =
      (withValidators asset (((Response.new ⟨200⟩).withHeader "Content-Type"
        (mimeFor name mimeOverrides)).withHeader "Accept-Ranges" "bytes")).header
          "Content-Type" := rfl
  rw [hfile, withValidators]
  cases asset.mtime <;> simp [header_withHeader, hnew]

theorem fileResponse_status (name : String) (asset : Asset) (o : List (String × String)) :
    (fileResponse name asset o).status = ⟨200⟩ := by
  unfold fileResponse withValidators
  cases asset.mtime <;> rfl

theorem fileResponse_body (name : String) (asset : Asset) (o : List (String × String)) :
    (fileResponse name asset o).body = asset.bytes := rfl

/-! ## The handler -/

/-- The asset a request addresses, unless a route answers it. -/
def App.assetFor (app : App) (request : Request) : Option (String × Asset) :=
  if (app.router.dispatch request).isSome then none
  else (candidatePaths request.path app.indexFiles).bind (firstAsset app.assets)

section Handler

variable {app : App} {t : Target} {deflate : Bytes → Nat → Bytes} {limiter : Option RateLimiter}
  {request : Request} {ctx : RequestContext} {name : String} {asset : Asset} {r : Response}

theorem postProcess_status (app : App) (deflate : Bytes → Nat → Bytes) (request : Request)
    (response : Response) : (app.postProcess deflate request response).status = response.status := by
  unfold App.postProcess
  split <;> rfl

theorem unserved_status (app : App) (request : Request) :
    (app.unserved request).status ≠ ⟨206⟩ := by
  have hdiscover : ∀ allow, (App.discover request allow).status ≠ ⟨206⟩ := by
    intro allow
    unfold App.discover
    split <;> simp [Response.withHeader, Response.new, Response.text]
  unfold App.unserved
  dsimp only
  split
  · exact hdiscover _
  · split
    · exact hdiscover _
    · simp [Response.text]

/-- A request for an asset, by GET or HEAD, is dispatched to `evaluate`. -/
theorem dispatch_asset (hasset : app.assetFor request = some (name, asset)) :
    app.dispatch t request =
      if request.method = .get ∨ request.method = .head then
        evaluate t request (fileResponse name asset app.mimeOverrides)
      else if request.method = .options ∧ request.target = "*" then
        .ok ((Response.new ⟨200⟩).withHeader "Allow"
          (allowHeaderValue (pushNew app.router.registeredMethods .get)))
      else .ok (app.unserved request) := by
  unfold App.assetFor at hasset
  split at hasset
  · cases hasset
  · rename_i hroute
    have hnone : app.router.dispatch request = none := by simpa using hroute
    have hserve : serveStatic request.path app.indexFiles app.assets app.mimeOverrides =
        some (fileResponse name asset app.mimeOverrides) := by
      rcases Option.bind_eq_some_iff.mp hasset with ⟨candidates, hcandidates, hfirst⟩
      simp [serveStatic, hcandidates, hfirst]
    unfold App.dispatch
    rw [hnone, hserve]
    cases request.method <;> simp

/-- The handler's `206` for an asset is that of `evaluate`, post-processed. -/
theorem handle_partial_iff (hasset : app.assetFor request = some (name, asset)) :
    (∃ limiter', app.handle t deflate limiter request ctx = .ok (r, limiter')) ∧
        r.status = ⟨206⟩ ↔
      (∃ limiter', App.rateLimit t limiter ctx = .ok (.allow, limiter')) ∧
        (request.method = .get ∨ request.method = .head) ∧
        ∃ part, evaluate t request (fileResponse name asset app.mimeOverrides) = .ok part ∧
          part.status = ⟨206⟩ ∧ r = app.postProcess deflate request part := by
  constructor
  · rintro ⟨⟨limiter', h⟩, hstatus⟩
    rcases Outcome.bind_eq_ok.mp h with ⟨⟨decision, l⟩, hlimit, h⟩
    cases decision with
    | deny retryAfterSecs =>
      cases h
      cases hstatus
    | allow =>
      refine ⟨⟨l, hlimit⟩, ?_⟩
      rcases Outcome.bind_eq_ok.mp h with ⟨part, hdispatch, h⟩
      cases h
      rw [postProcess_status] at hstatus
      rw [dispatch_asset hasset] at hdispatch
      split at hdispatch
      · rename_i hmethod
        exact ⟨hmethod, part, hdispatch, hstatus, rfl⟩
      · split at hdispatch
        · cases hdispatch
          cases hstatus
        · cases hdispatch
          exact absurd hstatus (unserved_status app request)
  · rintro ⟨⟨l, hlimit⟩, hmethod, part, heval, hstatus, rfl⟩
    refine ⟨⟨l, ?_⟩, by rw [postProcess_status]; exact hstatus⟩
    have hdispatch : app.dispatch t request = .ok part := by
      rw [dispatch_asset hasset, if_pos hmethod]
      exact heval
    rw [App.handle, hlimit, Outcome.ok_bind]
    simp only [hdispatch, Outcome.ok_bind]
    rfl

/-! ## Exactness -/

/-- A `206` that announces bytes of the asset carries them, as they are. -/
structure ExactPart (asset : Asset) (r : Response) : Prop where
  range : ∀ a b n, r.header "content-range" = some (contentRange a b n) →
    n = asset.bytes.length ∧ a ≤ b ∧ b < n ∧ r.body = (asset.bytes.drop a).take (b + 1 - a)
  noCoding : r.header "content-encoding" = none

/-- Every `206` the handler gives for an asset is exact. -/
def PartialExact (app : App) (t : Target) (deflate : Bytes → Nat → Bytes)
    (limiter : Option RateLimiter) (request : Request) (ctx : RequestContext) : Prop :=
  ∀ name asset r limiter', app.assetFor request = some (name, asset) →
    app.handle t deflate limiter request ctx = .ok (r, limiter') → r.status = ⟨206⟩ →
    ExactPart asset r

/-- Configuration, client and media type allow gzip for `len` bytes of a file. -/
structure Gzips (app : App) (request : Request) (name : String) (len : Nat) : Prop where
  enabled : app.compression.gzip = true
  long : app.compression.minBytes ≤ len
  accepted : acceptsGzip request = true
  compressible : isCompressibleType (mimeFor name app.mimeOverrides) = true

/-- The request is served a slice that is compressed: the limiter lets it through, it
asks for a range of an asset the client has no current copy of, and the slice is one
that gzip is allowed for. -/
structure CompressedPart (app : App) (t : Target) (limiter : Option RateLimiter)
    (request : Request) (ctx : RequestContext) (name : String) (asset : Asset) : Prop where
  addressed : app.assetFor request = some (name, asset)
  allowed : ∃ limiter', App.rateLimit t limiter ctx = .ok (.allow, limiter')
  method : request.method = .get ∨ request.method = .head
  modified : notModified t request (fileResponse name asset app.mimeOverrides) = .ok false
  range : ∃ value start last, request.header "range" = some value ∧
    parseSingleRange value asset.bytes.length = some (.satisfiable start last) ∧
    Gzips app request name (last + 1 - start)

theorem length_partialResponse (response : Response) {start last : Nat} (hle : start ≤ last)
    (hlast : last < response.body.length) :
    (partialResponse response start last).body.length = last + 1 - start := by
  show ((response.body.drop start).take (last + 1 - start)).length = last + 1 - start
  rw [List.length_take, List.length_drop]
  omega

/-- The slice as `evaluate` made it is exact. -/
theorem exactPart_partialResponse {start last : Nat} (o : List (String × String))
    (hle : start ≤ last) (hlast : last < asset.bytes.length) :
    ExactPart asset (partialResponse (fileResponse name asset o) start last) := by
  constructor
  · intro a b n h
    rw [contentRange_partialResponse, fileResponse_body, Option.some.injEq] at h
    rcases contentRange_injective h with ⟨rfl, rfl, rfl⟩
    exact ⟨rfl, hle, hlast, rfl⟩
  · exact contentEncoding_partialResponse _ _ _

/-- What decides whether a response with a media type and no coding is compressed. -/
theorem postProcess_of_plain {response : Response} {mime : String}
    (htype : response.header "content-type" = some mime)
    (hcoding : response.header "content-encoding" = none) :
    app.postProcess deflate request response =
      if app.compression.gzip = true ∧ app.compression.minBytes ≤ response.body.length ∧
          acceptsGzip request = true ∧ isCompressibleType mime = true then
        (({ response with body := gzipEncode deflate response.body } : Response).withHeader
          "Content-Encoding" "gzip").withHeader "Vary" "Accept-Encoding"
      else response := by
  have hcompressible : isCompressible response = isCompressibleType mime := by
    rw [isCompressible, headerValue, htype]
  have hplain : hasHeader response "content-encoding" = false := by
    rw [hasHeader, headerValue, hcoding]
    rfl
  rw [App.postProcess, hcompressible, hplain]
  by_cases hmin : app.compression.minBytes ≤ response.body.length
  · have hshort : decide (response.body.length < app.compression.minBytes) = false := by
      rw [decide_eq_false_iff_not]
      omega
    cases app.compression.gzip <;> cases acceptsGzip request <;>
      cases isCompressibleType mime <;> simp [hshort, hmin]
  · have hshort : decide (response.body.length < app.compression.minBytes) = true := by
      rw [decide_eq_true_iff]
      omega
    simp [hshort, hmin]

/-- What decides whether the slice of an asset is compressed. -/
theorem postProcess_partialResponse {start last : Nat} (hle : start ≤ last)
    (hlast : last < asset.bytes.length) :
    app.postProcess deflate request
        (partialResponse (fileResponse name asset app.mimeOverrides) start last) =
      if app.compression.gzip = true ∧ app.compression.minBytes ≤ last + 1 - start ∧
          acceptsGzip request = true ∧
          isCompressibleType (mimeFor name app.mimeOverrides) = true then
        (({ partialResponse (fileResponse name asset app.mimeOverrides) start last with
            body := gzipEncode deflate (partialResponse
              (fileResponse name asset app.mimeOverrides) start last).body } :
          Response).withHeader "Content-Encoding" "gzip").withHeader "Vary" "Accept-Encoding"
      else partialResponse (fileResponse name asset app.mimeOverrides) start last := by
  have hlen := length_partialResponse (fileResponse name asset app.mimeOverrides) hle hlast
  have htype : (partialResponse (fileResponse name asset app.mimeOverrides) start last).header
      "content-type" = some (mimeFor name app.mimeOverrides) := by
    rw [contentType_partialResponse, contentType_fileResponse]
  rw [postProcess_of_plain htype (contentEncoding_partialResponse _ _ _), hlen]

theorem postProcess_of_gzips {start last : Nat} (hle : start ≤ last)
    (hlast : last < asset.bytes.length) (h : Gzips app request name (last + 1 - start)) :
    (app.postProcess deflate request (partialResponse
      (fileResponse name asset app.mimeOverrides) start last)).header "content-encoding" =
        some "gzip" := by
  have hname : eqIgnoreAsciiCase (utf8 "Content-Encoding") (utf8 "content-encoding") = true := by
    decide +kernel
  have hbody : ∀ body, ({ partialResponse (fileResponse name asset app.mimeOverrides) start last
      with body := body } : Response).header "content-encoding" = none := fun _ =>
    contentEncoding_partialResponse _ _ _
  rw [postProcess_partialResponse hle hlast,
    if_pos ⟨h.enabled, h.long, h.accepted, h.compressible⟩, header_withHeader, header_withHeader,
    hbody, hname]
  rfl

theorem postProcess_of_not_gzips {start last : Nat} (hle : start ≤ last)
    (hlast : last < asset.bytes.length) (h : ¬ Gzips app request name (last + 1 - start)) :
    app.postProcess deflate request
        (partialResponse (fileResponse name asset app.mimeOverrides) start last) =
      partialResponse (fileResponse name asset app.mimeOverrides) start last := by
  rw [postProcess_partialResponse hle hlast, if_neg]
  rintro ⟨henabled, hlong, haccepted, hcompressible⟩
  exact h ⟨henabled, hlong, haccepted, hcompressible⟩

/-- A compressed slice is served, and is not exact. -/
theorem not_partialExact_of_compressed (deflate : Bytes → Nat → Bytes)
    (h : CompressedPart app t limiter request ctx name asset) :
    ¬ PartialExact app t deflate limiter request ctx := by
  intro hexact
  rcases h.range with ⟨value, start, last, hvalue, hrange, hgzips⟩
  rcases parseSingleRange_bounds hrange with ⟨hle, hlast⟩
  have heval := (evaluate_partial_iff (r := partialResponse
    (fileResponse name asset app.mimeOverrides) start last) (fileResponse_status name asset _)).mpr
    ⟨h.modified, value, start, last, hvalue, hrange, rfl⟩
  rcases (handle_partial_iff h.addressed).mpr ⟨h.allowed, h.method, _, heval.1, heval.2, rfl⟩ with
    ⟨⟨limiter', hhandle⟩, hstatus⟩
  have hcoding := (hexact name asset _ limiter' h.addressed hhandle hstatus).noCoding
  rw [postProcess_of_gzips hle hlast hgzips] at hcoding
  cases hcoding

/-- Partial content is exact, whatever the compressor does, for exactly the requests
that are not served a compressed slice. -/
theorem partialExact_iff :
    PartialExact app t deflate limiter request ctx ↔
      ¬ ∃ name asset, CompressedPart app t limiter request ctx name asset := by
  constructor
  · rintro hexact ⟨name, asset, h⟩
    exact not_partialExact_of_compressed deflate h hexact
  · intro hnone name asset r limiter' haddressed hhandle hstatus
    rcases (handle_partial_iff haddressed).mp ⟨⟨limiter', hhandle⟩, hstatus⟩ with
      ⟨hallowed, hmethod, part, heval, hpart, rfl⟩
    rcases (evaluate_partial_iff (fileResponse_status name asset _)).mp ⟨heval, hpart⟩ with
      ⟨hmodified, value, start, last, hvalue, hrange, rfl⟩
    rcases parseSingleRange_bounds hrange with ⟨hle, hlast⟩
    -- a slice that is not compressed is passed on as it is
    have hgzips : ¬ Gzips app request name (last + 1 - start) := fun hgzips =>
      hnone ⟨name, asset, haddressed, hallowed, hmethod, hmodified, value, start, last, hvalue,
        hrange, hgzips⟩
    rw [postProcess_of_not_gzips hle hlast hgzips]
    exact exactPart_partialResponse _ hle hlast

/-- One text file behind a handler that compresses from two bytes on. -/
def gzipApp : App :=
  ⟨Router.new, ⟨fun path => if path = "a.txt" then some ⟨utf8 "abcd", none⟩ else none,
    fun path => path == "a.txt"⟩, [], [], ⟨true, 2⟩⟩

/-- A range of that file, from a client that accepts gzip. -/
def gzipRangeGet : Request :=
  ⟨.get, "/a.txt", .http11, [⟨"Host", "h"⟩, ⟨"Accept-Encoding", "gzip"⟩, ⟨"Range", "bytes=1-2"⟩],
    []⟩

/-- Its `206` announces two bytes of the file, and carries a gzip stream. -/
theorem gzippedSlice_not_exact :
    ¬ PartialExact gzipApp ⟨.w64, false⟩ (fun data _ => data) none gzipRangeGet ⟨[], 0⟩ := by
  have hpart : CompressedPart gzipApp ⟨.w64, false⟩ none gzipRangeGet ⟨[], 0⟩ "a.txt"
      ⟨utf8 "abcd", none⟩ := by
    refine ⟨by decide +kernel, ⟨none, rfl⟩, .inl rfl, by decide +kernel, "bytes=1-2", 1, 2,
      by decide +kernel, by decide +kernel, ?_⟩
    constructor <;> decide +kernel
  exact not_partialExact_of_compressed _ hpart

end Handler

end FerroHttp
