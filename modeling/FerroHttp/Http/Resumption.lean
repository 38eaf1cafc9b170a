import FerroHttp.Http.Ranges

/-!
# Http.Resumption — requests for the rest of a body

A client that has part of a body sends `Range` with `If-Range` and the tag of the
version it has. `evaluate` never reads `If-Range`.

1. `header_withoutIfRange`: the other fields are found without it as with it;
2. `ifRange_ignored`: requests that differ in `If-Range` only are answered alike, and
   what is a slice carries the tag of the version it is a slice of.
   `resumed_partial` resumes a version with the bytes of the next.
-/

namespace FerroHttp

open Exec Text

/-- The request without its `If-Range` fields. -/
def Request.withoutIfRange (r : Request) : Request :=
  { r with headers := r.headers.filter fun h => !h.named "if-range" }

section Resumption

variable {t : Target} {request request' : Request} {response r : Response} {name : String}

/-- A field of one name is not one of another. -/
theorem named_and_not_named (hname : eqIgnoreAsciiCase (utf8 name) (utf8 "if-range") = false)
    (h : Header) : (!h.named "if-range" && h.named name) = h.named name := by
  cases hnamed : h.named name with
  | false => exact Bool.and_false _
  | true =>
    rw [Bool.and_true, Bool.not_eq_true']
    rw [← Bool.not_eq_true] at hname ⊢
    intro hif
    apply hname
    rw [Header.named, eqIgnoreAsciiCase_iff] at hnamed hif
    exact eqIgnoreAsciiCase_iff.mpr (hnamed.symm.trans hif)

theorem header_withoutIfRange (hname : eqIgnoreAsciiCase (utf8 name) (utf8 "if-range") = false)
    (request : Request) : request.withoutIfRange.header name = request.header name := by
  rw [Request.header, Request.header, Request.withoutIfRange, List.find?_filter]
  congr 2
  funext h
  rw [Bool.decide_and, Bool.decide_eq_true, Bool.decide_eq_true]
  exact named_and_not_named hname h

theorem notModified_withoutIfRange (t : Target) (request : Request) (response : Response) :
    notModified t request.withoutIfRange response = notModified t request response := by
  have hmatch : request.withoutIfRange.header "if-none-match" = request.header "if-none-match" :=
    header_withoutIfRange (by decide) request
  have hsince : request.withoutIfRange.header "if-modified-since" =
      request.header "if-modified-since" := header_withoutIfRange (by decide) request
  rw [notModified, notModified, hmatch, hsince]

theorem applyRange_withoutIfRange (request : Request) (response : Response) :
    applyRange request.withoutIfRange response = applyRange request response := by
  have hrange : request.withoutIfRange.header "range" = request.header "range" :=
    header_withoutIfRange (by decide) request
  rw [applyRange, applyRange, hrange]

theorem evaluate_withoutIfRange (t : Target) (request : Request) (response : Response) :
    evaluate t request.withoutIfRange response = evaluate t request response := by
  rw [evaluate, evaluate, notModified_withoutIfRange, applyRange_withoutIfRange]

theorem etag_partialResponse (response : Response) (start last : Nat) :
    (partialResponse response start last).header "etag" = response.header "ETag" := by
  have hnames : ∀ n ∈ ["Accept-Ranges", "Content-Range", "Content-Type", "Last-Modified"],
      eqIgnoreAsciiCase (utf8 n) (utf8 "etag") = false := by decide
  have htag : eqIgnoreAsciiCase (utf8 "ETag") (utf8 "etag") = true := by decide
  simp only [List.forall_mem_cons] at hnames
  rw [header_partialResponse]
  cases hvalue : response.header "ETag" <;> simp [hnames, htag, hvalue]

/-- Requests that differ in their `If-Range` fields only are answered alike, from the
response they are evaluated against: a slice is one of its body, under its tag. -/
theorem ifRange_ignored (hsame : request.withoutIfRange = request'.withoutIfRange)
    (hok : response.status = ⟨200⟩) :
    evaluate t request response = evaluate t request' response ∧
      ∀ r, evaluate t request response = .ok r → r.status = ⟨206⟩ →
        (∃ start last, IsSlice response r start last) ∧
          r.header "etag" = response.header "ETag" := by
  refine ⟨?_, ?_⟩
  · calc evaluate t request response
        = evaluate t request.withoutIfRange response := (evaluate_withoutIfRange t _ _).symm
      _ = evaluate t request'.withoutIfRange response := by rw [hsame]
      _ = evaluate t request' response := evaluate_withoutIfRange t _ _
  · intro r heval hstatus
    rcases (evaluate_partial_iff hok).mp ⟨heval, hstatus⟩ with
      ⟨_, value, start, last, _, hrange, rfl⟩
    rcases parseSingleRange_bounds hrange with ⟨hle, hlast⟩
    exact ⟨⟨start, last, isSlice_partialResponse hle hlast⟩, etag_partialResponse response start last⟩

/-- The second version of an asset. -/
def secondVersion : Response := ⟨⟨200⟩, [("ETag", "\"e2\"")], utf8 "efgh"⟩

/-- The rest of an asset, of which the client has the start in its first version. -/
def resumeFirst : Request :=
  ⟨.get, "/", .http11, [⟨"Range", "bytes=2-"⟩, ⟨"If-Range", "\"e1\""⟩], []⟩

/-- The rest of the second version is sent for the rest of the first. -/
theorem resumed_partial : resumeFirst.header "if-range" ≠ secondVersion.header "etag" ∧
    evaluate ⟨.w64, false⟩ resumeFirst secondVersion =
      .ok ⟨⟨206⟩, [("Accept-Ranges", "bytes"), ("Content-Range", "bytes 2-3/4"),
        ("ETag", "\"e2\"")], utf8 "gh"⟩ := by decide

/-- The same request without the condition. -/
def rangeOnly : Request := ⟨.get, "/", .http11, [⟨"Range", "bytes=2-"⟩], []⟩

theorem resumeFirst_ignored :
    evaluate ⟨.w64, false⟩ resumeFirst secondVersion =
      evaluate ⟨.w64, false⟩ rangeOnly secondVersion :=
  (ifRange_ignored (by decide) rfl).1

end Resumption

end FerroHttp
