import FerroHttp.App.PartialContent
import FerroHttp.Http.Calendar
import FerroHttp.Http.EntityTags
import FerroHttp.Lib.Decimal

/-!
# App.Revalidation — a cached version is shown to be current, or is not

A file carries a tag made of its length and its modification time, and the date of the
latter. `revalidation`: when a client sends tags back, it gets the `304` iff one of them
is that of the version served; when it sends the date back, iff the version served is
not newer.
-/

namespace FerroHttp

open Exec Text

/-! ## Validators of a file -/

/-- The tag of a version of a file, by its length and modification time. -/
def versionTag (len mtime : Nat) : EntityTag where
  weak := false
  value := hex len ++ "-" ++ hex mtime
  noQuote := by
    have hdash : ("-" : String).toList = ['-'] := by decide +kernel
    rw [String.toList_append, String.toList_append, hdash]
    simp [(hex_free len).2.1, (hex_free mtime).2.1]

theorem etag_eq (len mtime : Nat) : etag len mtime = (versionTag len mtime).text := by
  have htext : (versionTag len mtime).text =
      "" ++ ("\"" ++ (hex len ++ "-" ++ hex mtime) ++ "\"") := rfl
  rw [htext, etag, String.empty_append]
  simp only [String.append_assoc]

theorem versionTag_noComma (len mtime : Nat) : ',' ∉ (versionTag len mtime).value.toList := by
  have hdash : ("-" : String).toList = ['-'] := by decide +kernel
  have hvalue : (versionTag len mtime).value = hex len ++ "-" ++ hex mtime := rfl
  rw [hvalue, String.toList_append, String.toList_append, hdash]
  simp [(hex_free len).2.2, (hex_free mtime).2.2]

/-- A tag determines the length and the modification time. -/
theorem versionTag_injective {len mtime len' mtime' : Nat}
    (h : (versionTag len mtime).value = (versionTag len' mtime').value) :
    len = len' ∧ mtime = mtime' := by
  have hcut : ∀ m n, splitOnce '-' (versionTag m n).value = some (hex m, hex n) := fun m n =>
    splitOnce_append rfl (hex_free m).1 _
  have hpair := (hcut len mtime).symm.trans (h ▸ hcut len' mtime')
  rw [Option.some.injEq, Prod.mk.injEq] at hpair
  exact ⟨hex_injective hpair.1, hex_injective hpair.2⟩

section File

variable {name : String} {bytes : Bytes} {mtime : Nat} {o : List (String × String)}

/-- The fields of a file that has a modification time. -/
theorem header_fileResponse (field : String) :
    (fileResponse name ⟨bytes, some mtime⟩ o).header field =
      (((if eqIgnoreAsciiCase (utf8 "Content-Type") (utf8 field) then some (mimeFor name o)
        else none).or
        (if eqIgnoreAsciiCase (utf8 "Accept-Ranges") (utf8 field) then some "bytes" else none)).or
        (if eqIgnoreAsciiCase (utf8 "Last-Modified") (utf8 field) then some (httpDate mtime)
        else none)).or
        (if eqIgnoreAsciiCase (utf8 "ETag") (utf8 field) then some (etag bytes.length mtime)
        else none) := by
  have hfile : (fileResponse name ⟨bytes, some mtime⟩ o).header field =
      ((((((Response.new ⟨200⟩).withHeader "Content-Type" (mimeFor name o)).withHeader
        "Accept-Ranges" "bytes").withHeader "Last-Modified" (httpDate mtime)).withHeader "ETag"
          (etag bytes.length mtime))).header field := rfl
  have hnew : (Response.new ⟨200⟩).header field = none := rfl
  rw [hfile, header_withHeader, header_withHeader, header_withHeader, header_withHeader, hnew,
    Option.none_or]

/-- Field names are compared without case. -/
theorem header_congr {r : Response} {field field' : String}
    (h : (utf8 field).map toAsciiLowercase = (utf8 field').map toAsciiLowercase) :
    r.header field = r.header field' := by
  have hsame : ∀ f : String × String, eqIgnoreAsciiCase (utf8 f.1) (utf8 field) =
      eqIgnoreAsciiCase (utf8 f.1) (utf8 field') := by
    intro f
    rw [eqIgnoreAsciiCase, eqIgnoreAsciiCase, h]
  simp only [Response.header, hsame]

theorem etag_fileResponse :
    (fileResponse name ⟨bytes, some mtime⟩ o).header "etag" = some (etag bytes.length mtime) := by
  have hnames : ∀ n ∈ ["Content-Type", "Accept-Ranges", "Last-Modified"],
      eqIgnoreAsciiCase (utf8 n) (utf8 "etag") = false := by decide +kernel
  have htag : eqIgnoreAsciiCase (utf8 "ETag") (utf8 "etag") = true := by decide +kernel
  simp only [List.forall_mem_cons] at hnames
  rw [header_fileResponse]
  simp [hnames, htag]

theorem lastModified_fileResponse :
    (fileResponse name ⟨bytes, some mtime⟩ o).header "last-modified" = some (httpDate mtime) := by
  have hnames : ∀ n ∈ ["Content-Type", "Accept-Ranges"],
      eqIgnoreAsciiCase (utf8 n) (utf8 "last-modified") = false := by decide +kernel
  have hdate : eqIgnoreAsciiCase (utf8 "Last-Modified") (utf8 "last-modified") = true := by
    decide +kernel
  simp only [List.forall_mem_cons] at hnames
  rw [header_fileResponse]
  simp [hnames, hdate]

end File

/-! ## The `304` -/

/-- An answer without a body that carries the validators of a version. -/
structure ValidatorsOnly (len mtime : Nat) (r : Response) : Prop where
  body : r.body = []
  tag : r.header "ETag" = some (etag len mtime)
  date : r.header "Last-Modified" = some (httpDate mtime)

theorem body_copyHeaders (names : List String) (source target : Response) :
    (copyHeaders names source target).body = target.body := by
  induction names generalizing target with
  | nil => rfl
  | cons n ns ih =>
    rw [copyHeaders_cons, ih, copyHeader]
    split <;> rfl

theorem header_toNotModified (response : Response) (field : String) :
    (toNotModified response).header field =
      ["ETag", "Last-Modified", "Cache-Control", "Vary"].findSome? fun n =>
        if eqIgnoreAsciiCase (utf8 n) (utf8 field) then response.header n else none := by
  have hnew : (Response.new ⟨304⟩).header field = none := rfl
  rw [toNotModified, header_copyHeaders, hnew, Option.none_or]

theorem validatorsOnly_toNotModified (name : String) (bytes : Bytes) (mtime : Nat)
    (o : List (String × String)) :
    ValidatorsOnly bytes.length mtime (toNotModified (fileResponse name ⟨bytes, some mtime⟩ o)) := by
  have htag : (fileResponse name ⟨bytes, some mtime⟩ o).header "ETag" =
      some (etag bytes.length mtime) :=
    (header_congr (by decide +kernel)).trans etag_fileResponse
  have hdate : (fileResponse name ⟨bytes, some mtime⟩ o).header "Last-Modified" =
      some (httpDate mtime) :=
    (header_congr (by decide +kernel)).trans lastModified_fileResponse
  have hne : eqIgnoreAsciiCase (utf8 "ETag") (utf8 "Last-Modified") = false := by decide +kernel
  refine ⟨body_copyHeaders _ _ _, ?_, ?_⟩
  · rw [header_toNotModified, List.findSome?_cons, eqIgnoreAsciiCase_self, if_pos rfl, htag]
  · rw [header_toNotModified, List.findSome?_cons, hne, if_neg (by simp), List.findSome?_cons,
      eqIgnoreAsciiCase_self, if_pos rfl, hdate]

/-- A `304` has no media type, so it is not compressed. -/
theorem postProcess_toNotModified (app : App) (deflate : Bytes → Nat → Bytes) (request : Request)
    (response : Response) :
    app.postProcess deflate request (toNotModified response) = toNotModified response := by
  have hnames : ∀ n ∈ ["ETag", "Last-Modified", "Cache-Control", "Vary"],
      eqIgnoreAsciiCase (utf8 n) (utf8 "content-type") = false := by decide +kernel
  have htype : isCompressible (toNotModified response) = false := by
    simp only [List.forall_mem_cons] at hnames
    rw [isCompressible, headerValue, header_toNotModified]
    simp [hnames]
  rw [App.postProcess, htype]
  simp

/-! ## Preconditions -/

section Preconditions

variable {t : Target} {request : Request} {name : String} {bytes : Bytes} {mtime : Nat}
  {o : List (String × String)}

/-- A list of tags shows the copy to be current iff it has the tag of the version. -/
theorem notModified_tags {elements : List TagElement}
    (h : request.header "if-none-match" = some (renderTags elements)) :
    ∃ b, notModified t request (fileResponse name ⟨bytes, some mtime⟩ o) = .ok b ∧
      (b = true ↔ ∃ g ∈ tagsOf elements, g.value = (versionTag bytes.length mtime).value) := by
  refine ⟨_, by simp only [notModified, h]; rfl, ?_⟩
  have hstar : (trim (renderTags elements) == "*") = false := by
    rw [beq_eq_false_iff_ne]
    exact trim_renderTags_ne elements
  rw [hstar, Bool.false_or, etag_fileResponse, Option.any_some, etag_eq]
  exact any_weakEq_iff elements (versionTag_noComma _ _)

/-- A date shows the copy to be current iff the version is not newer. -/
theorem notModified_date {mtime' : Nat} (hinm : request.header "if-none-match" = none)
    (hims : request.header "if-modified-since" = some (httpDate mtime'))
    (hlt : mtime < u64Values) (hlt' : mtime' < u64Values) :
    ∃ b, notModified t request (fileResponse name ⟨bytes, some mtime⟩ o) = .ok b ∧
      (b = true ↔ mtime ≤ mtime') := by
  refine ⟨decide (mtime ≤ mtime'), ?_, decide_eq_true_iff⟩
  simp only [notModified, hinm, hims, lastModified_fileResponse, parseHttpDate_httpDate hlt,
    parseHttpDate_httpDate hlt', Outcome.ok_bind]
  rfl

end Preconditions

/-! ## The handler -/

section Handler

variable {app : App} {t : Target} {deflate : Bytes → Nat → Bytes}
  {limiter limiter' : Option RateLimiter} {request : Request} {ctx : RequestContext}
  {name : String} {asset : Asset}

/-- A GET for an asset that the limiter lets through. -/
theorem handle_asset (hallow : App.rateLimit t limiter ctx = .ok (.allow, limiter'))
    (hget : request.method = .get) (hasset : app.assetFor request = some (name, asset)) :
    app.handle t deflate limiter request ctx = (do
      let r ← evaluate t request (fileResponse name asset app.mimeOverrides)
      pure (app.postProcess deflate request r, limiter')) := by
  rw [App.handle, hallow, Outcome.ok_bind]
  simp only [dispatch_asset hasset, hget, true_or, if_true]

/-- The range step always answers, and never with a `304`. -/
theorem applyRange_ok {response : Response} (hok : response.status = ⟨200⟩) :
    ∃ r, applyRange request response = .ok r ∧ r.status ≠ ⟨304⟩ := by
  cases hvalue : request.header "range" with
  | none =>
    refine ⟨response, by simp only [applyRange, hvalue]; rfl, ?_⟩
    rw [hok]
    decide
  | some value =>
    cases hrange : parseSingleRange value response.body.length with
    | none =>
      refine ⟨response, by simp only [applyRange, hvalue, hrange]; rfl, ?_⟩
      rw [hok]
      decide
    | some outcome =>
      cases outcome with
      | satisfiable start last =>
        refine ⟨_, applyRange_satisfiable hvalue hrange, ?_⟩
        rw [status_partialResponse]
        decide
      | unsatisfiable =>
        refine ⟨_, by simp only [applyRange, hvalue, hrange]; rfl, ?_⟩
        have hstatus : ∀ v, ((Response.new ⟨416⟩).withHeader "Content-Range" v).status = ⟨416⟩ :=
          fun _ => rfl
        rw [hstatus]
        decide

/-- The request is answered, with a `304` iff the copy is `current`, and that `304` has
the validators of the version and no body. -/
def AnswersIfCurrent (app : App) (t : Target) (deflate : Bytes → Nat → Bytes)
    (limiter : Option RateLimiter) (request : Request) (ctx : RequestContext) (len mtime : Nat)
    (current : Prop) : Prop :=
  ∃ r limiter', app.handle t deflate limiter request ctx = .ok (r, limiter') ∧
    (r.status = ⟨304⟩ ↔ current) ∧ (r.status = ⟨304⟩ → ValidatorsOnly len mtime r)

/-- What the preconditions say decides between the `304` and another answer. -/
theorem answersIfCurrent_of_notModified {bytes : Bytes} {mtime : Nat} {current : Prop}
    (hallow : App.rateLimit t limiter ctx = .ok (.allow, limiter')) (hget : request.method = .get)
    (hasset : app.assetFor request = some (name, ⟨bytes, some mtime⟩))
    (h : ∃ b, notModified t request (fileResponse name ⟨bytes, some mtime⟩ app.mimeOverrides) =
      .ok b ∧ (b = true ↔ current)) :
    AnswersIfCurrent app t deflate limiter request ctx bytes.length mtime current := by
  rcases h with ⟨b, hmodified, hcurrent⟩
  have hok := fileResponse_status name ⟨bytes, some mtime⟩ app.mimeOverrides
  have heval : evaluate t request (fileResponse name ⟨bytes, some mtime⟩ app.mimeOverrides) =
      if b then .ok (toNotModified (fileResponse name ⟨bytes, some mtime⟩ app.mimeOverrides))
      else applyRange request (fileResponse name ⟨bytes, some mtime⟩ app.mimeOverrides) := by
    rw [evaluate, if_neg (by rw [hok]; simp), hmodified, Outcome.ok_bind]
    rfl
  cases b with
  | true =>
    have hvalid := validatorsOnly_toNotModified name bytes mtime app.mimeOverrides
    have h304 : (toNotModified (fileResponse name ⟨bytes, some mtime⟩ app.mimeOverrides)).status =
        ⟨304⟩ := status_copyHeaders _ _ _
    refine ⟨_, limiter', ?_, iff_of_true h304 (hcurrent.mp rfl), fun _ => hvalid⟩
    rw [handle_asset hallow hget hasset, heval, if_pos rfl, Outcome.ok_bind,
      postProcess_toNotModified]
    rfl
  | false =>
    have hstale : ¬ current := fun h => absurd (hcurrent.mpr h) (by simp)
    rcases @applyRange_ok request _ hok with ⟨r, hr, hstatus⟩
    rw [← postProcess_status app deflate request] at hstatus
    refine ⟨app.postProcess deflate request r, limiter', ?_, iff_of_false hstatus hstale,
      fun h => absurd h hstatus⟩
    rw [handle_asset hallow hget hasset, heval, if_neg (by simp), hr, Outcome.ok_bind]
    rfl

/-- Revalidation, for two versions of an asset. The tag and the date that the first one
was issued with are an entity tag and a date of it, and the tags are equal iff length
and modification time are. A GET of the second one is answered with a `304` iff it lists
its tag, or without tags, iff it sends back the date of a version that is not older. -/
theorem revalidation {bytes₁ bytes₂ : Bytes} {mtime₁ mtime₂ : Nat} (hlt₁ : mtime₁ < u64Values)
    (hlt₂ : mtime₂ < u64Values)
    (hallow : App.rateLimit t limiter ctx = .ok (.allow, limiter')) :
    (fileResponse name ⟨bytes₁, some mtime₁⟩ app.mimeOverrides).header "etag" =
        some (versionTag bytes₁.length mtime₁).text ∧
      ((versionTag bytes₁.length mtime₁).value = (versionTag bytes₂.length mtime₂).value ↔
        bytes₁.length = bytes₂.length ∧ mtime₁ = mtime₂) ∧
      ∀ request : Request, request.method = .get →
        app.assetFor request = some (name, ⟨bytes₂, some mtime₂⟩) →
        (∀ elements, request.header "if-none-match" = some (renderTags elements) →
          AnswersIfCurrent app t deflate limiter request ctx bytes₂.length mtime₂
            (∃ g ∈ tagsOf elements, g.value = (versionTag bytes₂.length mtime₂).value)) ∧
        (request.header "if-none-match" = none →
          request.header "if-modified-since" =
            (fileResponse name ⟨bytes₁, some mtime₁⟩ app.mimeOverrides).header "last-modified" →
          AnswersIfCurrent app t deflate limiter request ctx bytes₂.length mtime₂
            (mtime₂ ≤ mtime₁)) := by
  refine ⟨by rw [etag_fileResponse, etag_eq], ?_, ?_⟩
  · constructor
    · exact versionTag_injective
    · intro h
      rw [h.1, h.2]
  · intro request hget hasset
    constructor
    · intro elements htags
      exact answersIfCurrent_of_notModified hallow hget hasset (notModified_tags htags)
    · intro hinm hims
      rw [lastModified_fileResponse] at hims
      exact answersIfCurrent_of_notModified hallow hget hasset
        (notModified_date hinm hims hlt₂ hlt₁)

/-- A file of four bytes, modified at the second 16. -/
def datedApp : App :=
  ⟨Router.new, ⟨fun path => if path = "a.txt" then some ⟨utf8 "abcd", some 16⟩ else none,
    fun path => path == "a.txt"⟩, [], [], ⟨true, 0⟩⟩

/-- A GET that lists a tag with a comma in it, and the tag of the file. -/
def taggedGet : Request :=
  ⟨.get, "/a.txt", .http11, [⟨"Host", "h"⟩, ⟨"If-None-Match", "\"4-10,x\" , W/\"4-10\""⟩], []⟩

def taggedElements : List TagElement :=
  have hblank : ∀ c ∈ "".toList, isPad c = true := List.all_eq_true.mp (by decide +kernel)
  have hspace : ∀ c ∈ " ".toList, isPad c = true := List.all_eq_true.mp (by decide +kernel)
  [⟨"", some ⟨false, "4-10,x", by decide +kernel⟩, " ", hblank, hspace⟩,
    ⟨" ", some ⟨true, "4-10", by decide +kernel⟩, "", hspace, hblank⟩]

theorem taggedGet_revalidated :
    AnswersIfCurrent datedApp ⟨.w64, false⟩ (fun data _ => data) none taggedGet ⟨[], 0⟩ 4 16
      (∃ g ∈ tagsOf taggedElements, g.value = (versionTag 4 16).value) :=
  (((@revalidation datedApp ⟨.w64, false⟩ (fun data _ => data) none none ⟨[], 0⟩ "a.txt"
    (utf8 "abc") (utf8 "abcd") 15 16 (by decide) (by decide) rfl).2.2 taggedGet rfl
      (by decide +kernel)).1 taggedElements (by decide +kernel))

end Handler

end FerroHttp
