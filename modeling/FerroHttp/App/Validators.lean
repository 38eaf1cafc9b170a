import FerroHttp.App.Discovery
import FerroHttp.App.Revalidation

/-!
# App.Validators — one tag, two representations

A file's tag is made before the handler compresses the body, and says nothing of it.

1. `App.Fetched.eq`: the handler's `200` for a file is its whole response, post-processed;
2. `strongValidators_iff`: so the tag identifies the body, and `Vary` names what the
   body depends on, exactly when compression does not change the file (`Recodes`).
   `datedApp_not_strong` is a file it changes.
-/

namespace FerroHttp

open Exec Text

namespace App

/-- The path addresses the file, and no route answers a GET of it. -/
structure Publishes (app : App) (path name : String) (asset : Asset) : Prop where
  unrouted : .get ∉ app.router.allowedMethods path
  file : (candidatePaths path app.indexFiles).bind (firstAsset app.assets) = some (name, asset)

/-- A GET of the path that the handler answers with a `200`, in some state of the
limiter and at some time. -/
structure Fetched (app : App) (t : Target) (deflate : Bytes → Nat → Bytes) (path : String)
    (request : Request) (r : Response) : Prop where
  get : request.method = .get
  path : request.path = path
  answered : ∃ limiter ctx limiter', app.handle t deflate limiter request ctx = .ok (r, limiter')
  status : r.status = ⟨200⟩

end App

/-- The fields that are not called `name`. -/
def Request.fieldsBut (name : String) (r : Request) : List Header :=
  r.headers.filter fun h => !h.named name

/-- The requests differ in the values of `name` only. -/
structure DifferOnlyIn (name : String) (x y : Request) : Prop where
  method : x.method = y.method
  target : x.target = y.target
  version : x.version = y.version
  fields : x.fieldsBut name = y.fieldsBut name
  body : x.body = y.body

/-- Some `Vary` field names the request field `name`. -/
def VariesOn (name : String) (r : Response) : Prop :=
  ∃ f ∈ r.headers, eqIgnoreAsciiCase (utf8 f.1) (utf8 "vary") = true ∧
    ∃ w ∈ split ',' f.2, eqIgnoreAsciiCase (utf8 (trim w)) (utf8 name) = true

/-- Among the `200`s for GETs of a path, different bodies have different tags, and two
bodies that only `Accept-Encoding` tells apart both come with a `Vary` that names it. -/
structure StrongValidators (app : App) (t : Target) (deflate : Bytes → Nat → Bytes)
    (path : String) : Prop where
  tags : ∀ x y r s, app.Fetched t deflate path x r → app.Fetched t deflate path y s →
    r.body ≠ s.body → r.header "etag" ≠ s.header "etag"
  vary : ∀ x y r s, app.Fetched t deflate path x r → app.Fetched t deflate path y s →
    DifferOnlyIn "accept-encoding" x y → r.body ≠ s.body →
      VariesOn "accept-encoding" r ∧ VariesOn "accept-encoding" s

/-- Compression is on for the file, by its length and media type, and changes it. -/
structure App.Recodes (app : App) (deflate : Bytes → Nat → Bytes) (name : String) (asset : Asset) :
    Prop where
  enabled : app.compression.gzip = true
  long : app.compression.minBytes ≤ asset.bytes.length
  compressible : isCompressibleType (mimeFor name app.mimeOverrides) = true
  changes : gzipEncode deflate asset.bytes ≠ asset.bytes

/-! ## The two representations -/

section File

variable {app : App} {t : Target} {deflate : Bytes → Nat → Bytes} {request : Request}
  {path name : String} {asset : Asset} {r : Response}

theorem App.Publishes.assetFor (h : app.Publishes path name asset) (hget : request.method = .get)
    (hpath : request.path = path) : app.assetFor request = some (name, asset) := by
  have hroute : ¬ (app.router.dispatch request).isSome := by
    rw [dispatch_isSome_iff, hpath, hget]
    intro hmem
    rcases hmem with hmem | ⟨_, hmem⟩
    · exact h.unrouted hmem
    · exact h.unrouted hmem
  rw [App.assetFor, if_neg hroute, hpath]
  exact h.file

/-- The `200` of `evaluate` is the response it was given. -/
theorem evaluate_whole {response : Response} (hok : response.status = ⟨200⟩)
    (h : evaluate t request response = .ok r) (hstatus : r.status = ⟨200⟩) : r = response := by
  rw [evaluate, if_neg (by rw [hok]; simp)] at h
  rcases Outcome.bind_eq_ok.mp h with ⟨modified, _, h⟩
  cases modified with
  | true =>
    -- a 304
    cases h
    have h304 : (toNotModified response).status = ⟨304⟩ := status_copyHeaders _ _ _
    rw [h304] at hstatus
    cases hstatus
  | false =>
    cases hvalue : request.header "range" with
    | none =>
      simp only [applyRange, hvalue] at h
      cases h
      rfl
    | some value =>
      cases hrange : parseSingleRange value response.body.length with
      | none =>
        simp only [applyRange, hvalue, hrange] at h
        cases h
        rfl
      | some outcome =>
        cases outcome with
        | satisfiable start last =>
          -- a 206
          simp only [Bool.false_eq_true, if_false, applyRange_satisfiable hvalue hrange] at h
          cases h
          rw [status_partialResponse] at hstatus
          cases hstatus
        | unsatisfiable =>
          -- a 416
          simp only [applyRange, hvalue, hrange] at h
          cases h
          cases hstatus

/-- A `200` for a file is its whole response, post-processed. -/
theorem App.Fetched.eq (hpub : app.Publishes path name asset)
    (h : app.Fetched t deflate path request r) :
    r = app.postProcess deflate request (fileResponse name asset app.mimeOverrides) := by
  rcases h.answered with ⟨limiter, ctx, limiter', hhandle⟩
  have hstatus := h.status
  rcases Outcome.bind_eq_ok.mp hhandle with ⟨⟨decision, l⟩, _, hanswer⟩
  cases decision with
  | deny retryAfterSecs =>
    cases hanswer
    cases hstatus
  | allow =>
    rcases Outcome.bind_eq_ok.mp hanswer with ⟨response, hdispatch, hr⟩
    cases hr
    rw [postProcess_status] at hstatus
    rw [dispatch_asset (hpub.assetFor h.get h.path), if_pos (.inl h.get)] at hdispatch
    rw [evaluate_whole (fileResponse_status _ _ _) hdispatch hstatus]

/-- Without preconditions and without a range, a GET is answered with the `200`. -/
theorem fetched_of_plain (hpub : app.Publishes path name asset) (hget : request.method = .get)
    (hpath : request.path = path) (hinm : request.header "if-none-match" = none)
    (hims : request.header "if-modified-since" = none) (hrange : request.header "range" = none) :
    app.Fetched t deflate path request
      (app.postProcess deflate request (fileResponse name asset app.mimeOverrides)) := by
  have hok := fileResponse_status name asset app.mimeOverrides
  have heval : evaluate t request (fileResponse name asset app.mimeOverrides) =
      .ok (fileResponse name asset app.mimeOverrides) := by
    rw [evaluate, if_neg (by rw [hok]; simp)]
    simp only [notModified, hinm, hims, applyRange, hrange]
    rfl
  refine ⟨hget, hpath, ⟨none, ⟨[], 0⟩, none, ?_⟩, by rw [postProcess_status, hok]⟩
  rw [handle_asset rfl hget (hpub.assetFor hget hpath), heval, Outcome.ok_bind]
  rfl

/-- A file has no fields but its type, its validators and the offer of ranges. -/
theorem header_fileResponse_eq_none {field : String}
    (h : ∀ n ∈ ["Content-Type", "Accept-Ranges", "Last-Modified", "ETag"],
      eqIgnoreAsciiCase (utf8 n) (utf8 field) = false) (name : String) (asset : Asset)
    (o : List (String × String)) : (fileResponse name asset o).header field = none := by
  simp only [List.forall_mem_cons] at h
  rcases asset with ⟨bytes, mtime⟩
  cases mtime with
  | none =>
    have hfile : (fileResponse name ⟨bytes, none⟩ o).header field =
        (((Response.new ⟨200⟩).withHeader "Content-Type" (mimeFor name o)).withHeader
          "Accept-Ranges" "bytes").header field := rfl
    have hnew : (Response.new ⟨200⟩).header field = none := rfl
    rw [hfile, header_withHeader, header_withHeader, hnew]
    simp [h]
  | some mtime =>
    rw [header_fileResponse]
    simp [h]

/-- What decides whether a file is compressed. -/
theorem postProcess_fileResponse :
    app.postProcess deflate request (fileResponse name asset app.mimeOverrides) =
      if app.compression.gzip = true ∧ app.compression.minBytes ≤ asset.bytes.length ∧
          acceptsGzip request = true ∧
          isCompressibleType (mimeFor name app.mimeOverrides) = true then
        (({ fileResponse name asset app.mimeOverrides with
            body := gzipEncode deflate asset.bytes } : Response).withHeader
          "Content-Encoding" "gzip").withHeader "Vary" "Accept-Encoding"
      else fileResponse name asset app.mimeOverrides := by
  have htype : (fileResponse name asset app.mimeOverrides).header "content-type" =
      some (mimeFor name app.mimeOverrides) :=
    (header_congr (by decide +kernel)).trans (contentType_fileResponse name asset _)
  exact postProcess_of_plain htype
    (header_fileResponse_eq_none (by decide +kernel) name asset app.mimeOverrides)

/-- A file whose bytes compression does not change has one body. -/
theorem body_postProcess (h : ¬ app.Recodes deflate name asset) :
    (app.postProcess deflate request (fileResponse name asset app.mimeOverrides)).body =
      asset.bytes := by
  rw [postProcess_fileResponse]
  split
  · rename_i hgzip
    by_contra hchanges
    exact h ⟨hgzip.1, hgzip.2.1, hgzip.2.2.2, hchanges⟩
  · rfl

/-- A response without a `Vary` field varies on nothing. -/
theorem not_variesOn {field : String} (h : r.header "vary" = none) : ¬ VariesOn field r := by
  intro hvaries
  rcases hvaries with ⟨f, hf, hname, _⟩
  rw [Response.header, Option.map_eq_none_iff, List.find?_eq_none] at h
  exact h f hf hname

end File

/-! ## Exactness -/

section Exactness

variable {app : App} {t : Target} {deflate : Bytes → Nat → Bytes} {request : Request}
  {name : String} {asset : Asset}

/-- A GET that takes what it gets. -/
def plainGet (target : String) : Request := ⟨.get, target, .http11, [], []⟩

/-- The same for a client that accepts gzip. -/
def gzipGet (target : String) : Request :=
  ⟨.get, target, .http11, [⟨"Accept-Encoding", "gzip"⟩], []⟩

/-- A file that compression changes is sent in two ways under one tag, and the bytes
of the file come without `Vary`. -/
theorem not_strong_of_recodes (hpub : app.Publishes request.path name asset)
    (h : app.Recodes deflate name asset) : ¬ StrongValidators app t deflate request.path := by
  intro hstrong
  have hplain : app.Fetched t deflate request.path (plainGet request.target) _ :=
    fetched_of_plain hpub rfl rfl rfl rfl rfl
  have hgzip : app.Fetched t deflate request.path (gzipGet request.target) _ :=
    fetched_of_plain hpub rfl rfl rfl rfl rfl
  have hidentity : app.postProcess deflate (plainGet request.target)
      (fileResponse name asset app.mimeOverrides) = fileResponse name asset app.mimeOverrides := by
    have hno : acceptsGzip (plainGet request.target) = false := rfl
    rw [postProcess_fileResponse, if_neg]
    intro hall
    rw [hno] at hall
    exact absurd hall.2.2.1 (by simp)
  have hyes : acceptsGzip (gzipGet request.target) = true := by
    have hvalue : (gzipGet request.target).header "accept-encoding" = some "gzip" := by
      have hnamed : Header.named "accept-encoding" ⟨"Accept-Encoding", "gzip"⟩ = true := by
        decide +kernel
      simp [gzipGet, Request.header, hnamed]
    have hcoding : ((split ',' "gzip").any fun enc => (split ';' (trim enc)).head?.any fun name =>
        eqIgnoreAsciiCase (utf8 name) (utf8 "gzip")) = true := by decide +kernel
    rw [acceptsGzip, hvalue, Option.any_some, hcoding]
  have hencoded : (app.postProcess deflate (gzipGet request.target)
      (fileResponse name asset app.mimeOverrides)).body = gzipEncode deflate asset.bytes := by
    rw [postProcess_fileResponse, if_pos ⟨h.enabled, h.long, hyes, h.compressible⟩]
    rfl
  have hdiffer : DifferOnlyIn "accept-encoding" (gzipGet request.target)
      (plainGet request.target) := by
    refine ⟨rfl, rfl, rfl, ?_, rfl⟩
    have hnamed : Header.named "accept-encoding" ⟨"Accept-Encoding", "gzip"⟩ = true := by
      decide +kernel
    simp [Request.fieldsBut, gzipGet, plainGet, hnamed]
  have hbodies : (app.postProcess deflate (gzipGet request.target)
      (fileResponse name asset app.mimeOverrides)).body ≠
        (app.postProcess deflate (plainGet request.target)
          (fileResponse name asset app.mimeOverrides)).body := by
    rw [hidentity, hencoded]
    exact h.changes
  have hvary := (hstrong.vary _ _ _ _ hgzip hplain hdiffer hbodies).2
  rw [hidentity] at hvary
  exact not_variesOn (header_fileResponse_eq_none (by decide +kernel) _ _ _) hvary

/-- The validators of a file are strong exactly when compression leaves its bytes alone. -/
theorem strongValidators_iff (hpub : app.Publishes request.path name asset) :
    StrongValidators app t deflate request.path ↔ ¬ app.Recodes deflate name asset := by
  constructor
  · intro hstrong h
    exact not_strong_of_recodes hpub h hstrong
  · intro h
    -- there is one body only
    have hbody : ∀ x y r s, app.Fetched t deflate request.path x r →
        app.Fetched t deflate request.path y s → r.body = s.body := by
      intro x y r s hr hs
      rw [hr.eq hpub, hs.eq hpub, body_postProcess h, body_postProcess h]
    constructor
    · intro x y r s hr hs hne
      exact absurd (hbody x y r s hr hs) hne
    · intro x y r s hr hs _ hne
      exact absurd (hbody x y r s hr hs) hne

/-- DEFLATE with one stored block, for data of up to `2 ^ 16 - 1` bytes. -/
def storedBlock (data : Bytes) (_level : Nat) : Bytes :=
  let len := UInt16.ofNat data.length
  [1, len.toUInt8, (len >>> 8).toUInt8, (~~~len).toUInt8, ((~~~len) >>> 8).toUInt8] ++ data

theorem datedApp_publishes : datedApp.Publishes (plainGet "/a.txt").path "a.txt"
    ⟨utf8 "abcd", some 16⟩ := by
  constructor <;> decide +kernel

theorem datedApp_recodes : datedApp.Recodes storedBlock "a.txt" ⟨utf8 "abcd", some 16⟩ := by
  constructor <;> decide +kernel

/-- The four bytes and their gzip stream are both sent under the tag `"4-10"`. -/
theorem datedApp_not_strong :
    ¬ StrongValidators datedApp ⟨.w64, false⟩ storedBlock (plainGet "/a.txt").path :=
  not_strong_of_recodes datedApp_publishes datedApp_recodes

theorem datedApp_strong_iff :
    StrongValidators datedApp ⟨.w64, false⟩ storedBlock (plainGet "/a.txt").path ↔
      ¬ datedApp.Recodes storedBlock "a.txt" ⟨utf8 "abcd", some 16⟩ :=
  strongValidators_iff datedApp_publishes

end Exactness

end FerroHttp
