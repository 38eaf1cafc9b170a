import FerroHttp.Http.Conditional
import FerroHttp.Lib.Decimal
import FerroHttp.Lib.Split

/-!
# Http.Ranges — what a range request is answered with

A `Range` turns a `200` into the `206` of a slice of its body, into a `416`, or leaves
it alone.

1. `parseSingleRange_bounds`: a satisfiable range lies inside the body;
2. `evaluate_partial_iff`: the `206` of `evaluate` is the slice it announces.
-/

namespace FerroHttp

open Exec Text

/-! ## Fields of a response -/

section Fields

theorem header_withHeader (r : Response) (field value name : String) :
    (r.withHeader field value).header name =
      (r.header name).or (if eqIgnoreAsciiCase (utf8 field) (utf8 name) then some value
        else none) := by
  simp only [Response.header, Response.withHeader, List.find?_append, List.find?_singleton]
  cases r.headers.find? fun f => eqIgnoreAsciiCase (utf8 f.1) (utf8 name) with
  | some f => simp
  | none =>
    simp only [Option.none_or, Option.map_none]
    split <;> simp

/-- Copying fields adds what the source has under the names asked for. -/
theorem header_copyHeaders (names : List String) (source target : Response) (name : String) :
    (copyHeaders names source target).header name =
      (target.header name).or (names.findSome? fun n =>
        if eqIgnoreAsciiCase (utf8 n) (utf8 name) then source.header n else none) := by
  induction names generalizing target with
  | nil => simp [copyHeaders]
  | cons n ns ih =>
    rw [copyHeaders_cons, ih, copyHeader]
    cases hn : source.header n with
    | none => simp [hn]
    | some value =>
      -- the copied field comes after those the target already has
      rw [header_withHeader, Option.or_assoc, List.findSome?_cons, hn]
      congr 1
      split <;> simp

theorem status_copyHeaders (names : List String) (source target : Response) :
    (copyHeaders names source target).status = target.status := by
  induction names generalizing target with
  | nil => rfl
  | cons n ns ih =>
    rw [copyHeaders_cons, ih, copyHeader]
    split <;> rfl

end Fields

/-! ## Ranges -/

/-- A satisfiable range lies inside the body. -/
theorem parseSingleRange_bounds {value : String} {len start last : Nat}
    (h : parseSingleRange value len = some (.satisfiable start last)) :
    start ≤ last ∧ last < len := by
  simp only [parseSingleRange, Option.bind_eq_bind, Option.bind_eq_some_iff] at h
  rcases h with ⟨rest, _, h⟩
  split at h
  · cases h
  · simp only [Option.bind_eq_some_iff] at h
    rcases h with ⟨⟨first, suffixLast⟩, _, h⟩
    split at h
    · -- a suffix range
      simp only [Option.bind_eq_some_iff] at h
      rcases h with ⟨n, _, h⟩
      split at h
      · cases h
      · cases h
        omega
    · simp only [Option.bind_eq_some_iff] at h
      rcases h with ⟨n, _, h⟩
      split at h
      · cases h
      · split at h
        · cases h
          omega
        · simp only [Option.bind_eq_some_iff] at h
          rcases h with ⟨requested, _, h⟩
          split at h
          · cases h
          · cases h
            omega

/-- A `Content-Range` value determines its numbers. -/
theorem contentRange_injective {a b n a' b' n' : Nat} (h : contentRange a b n = contentRange a' b' n') :
    a = a' ∧ b = b' ∧ n = n' := by
  have hdash : utf8 "-" = [0x2d] := by decide
  have hslash : utf8 "/" = [0x2f] := by decide
  have hbytes := congrArg utf8 h
  simp only [contentRange, utf8_append, hdash, hslash, List.append_assoc, List.singleton_append,
    List.append_cancel_left_eq] at hbytes
  rcases toString_append_cons_inj (by decide) hbytes with ⟨rfl, hrest⟩
  rcases toString_append_cons_inj (by decide) hrest with ⟨rfl, hlen⟩
  refine ⟨rfl, rfl, ?_⟩
  rw [← (decimal_toString n).2.2, hlen, (decimal_toString n').2.2]

/-- The `206` for a range. -/
def partialResponse (response : Response) (start last : Nat) : Response :=
  { partialHead response start last with
    body := (response.body.drop start).take (last + 1 - start) }

section Evaluate

variable {t : Target} {request : Request} {response r : Response}

theorem status_partialResponse (response : Response) (start last : Nat) :
    (partialResponse response start last).status = ⟨206⟩ :=
  status_copyHeaders _ _ _

theorem applyRange_satisfiable {value : String} {start last : Nat}
    (hvalue : request.header "range" = some value)
    (hrange : parseSingleRange value response.body.length = some (.satisfiable start last)) :
    applyRange request response = .ok (partialResponse response start last) := by
  have hbounds := parseSingleRange_bounds hrange
  have hslice : (slice response.body start (last + 1) : Outcome Empty Bytes) = _ :=
    slice_of_le (by omega) (by omega)
  simp only [applyRange, hvalue, hrange, hslice, Outcome.ok_bind]
  rfl

/-- The range step turns a `200` into a `206` for a satisfiable range only. -/
theorem satisfiable_of_applyRange (hok : response.status = ⟨200⟩)
    (h : applyRange request response = .ok r) (hstatus : r.status = ⟨206⟩) :
    ∃ value start last, request.header "range" = some value ∧
      parseSingleRange value response.body.length = some (.satisfiable start last) ∧
      r = partialResponse response start last := by
  cases hvalue : request.header "range" with
  | none =>
    rw [applyRange, hvalue] at h
    cases h
    rw [hok] at hstatus
    cases hstatus
  | some value =>
    cases hrange : parseSingleRange value response.body.length with
    | none =>
      simp only [applyRange, hvalue, hrange] at h
      cases h
      rw [hok] at hstatus
      cases hstatus
    | some outcome =>
      cases outcome with
      | unsatisfiable =>
        -- a 416
        simp only [applyRange, hvalue, hrange] at h
        cases h
        cases hstatus
      | satisfiable start last =>
        rw [applyRange_satisfiable hvalue hrange] at h
        cases h
        exact ⟨value, start, last, rfl, hrange, rfl⟩

/-- A `206` from `evaluate` is the slice of a satisfiable range. -/
theorem evaluate_partial_iff (hok : response.status = ⟨200⟩) :
    evaluate t request response = .ok r ∧ r.status = ⟨206⟩ ↔
      notModified t request response = .ok false ∧
        ∃ value start last, request.header "range" = some value ∧
          parseSingleRange value response.body.length = some (.satisfiable start last) ∧
          r = partialResponse response start last := by
  have heval : evaluate t request response = (do
      if ← notModified t request response then pure (toNotModified response)
      else applyRange request response) := by
    rw [evaluate, if_neg (by rw [hok]; simp)]
  rw [heval]
  constructor
  · rintro ⟨h, hstatus⟩
    rcases Outcome.bind_eq_ok.mp h with ⟨modified, hmodified, h⟩
    cases modified with
    | true =>
      -- a 304
      cases h
      have h304 : (toNotModified response).status = ⟨304⟩ := status_copyHeaders _ _ _
      rw [h304] at hstatus
      cases hstatus
    | false => exact ⟨hmodified, satisfiable_of_applyRange hok h hstatus⟩
  · rintro ⟨hmodified, value, start, last, hvalue, hrange, rfl⟩
    refine ⟨?_, status_partialResponse _ _ _⟩
    rw [hmodified, Outcome.ok_bind]
    exact applyRange_satisfiable hvalue hrange

/-- The fields of a `206`: its own two, and three copied ones. -/
theorem header_partialResponse (response : Response) (start last : Nat) (name : String) :
    (partialResponse response start last).header name =
      ((if eqIgnoreAsciiCase (utf8 "Accept-Ranges") (utf8 name) then some "bytes" else none).or
        (if eqIgnoreAsciiCase (utf8 "Content-Range") (utf8 name) then
          some (contentRange start last response.body.length) else none)).or
        (["Content-Type", "ETag", "Last-Modified"].findSome? fun n =>
          if eqIgnoreAsciiCase (utf8 n) (utf8 name) then response.header n else none) := by
  have hhead : (partialResponse response start last).header name =
      (partialHead response start last).header name := rfl
  rw [hhead, partialHead, header_copyHeaders, header_withHeader, header_withHeader]
  rfl

theorem contentRange_partialResponse (response : Response) (start last : Nat) :
    (partialResponse response start last).header "content-range" =
      some (contentRange start last response.body.length) := by
  have hranges : eqIgnoreAsciiCase (utf8 "Accept-Ranges") (utf8 "content-range") = false := by
    decide
  have hrange : eqIgnoreAsciiCase (utf8 "Content-Range") (utf8 "content-range") = true := by
    decide
  rw [header_partialResponse, hranges, hrange]
  simp

theorem contentEncoding_partialResponse (response : Response) (start last : Nat) :
    (partialResponse response start last).header "content-encoding" = none := by
  have hnames : ∀ n ∈ ["Accept-Ranges", "Content-Range", "Content-Type", "ETag", "Last-Modified"],
      eqIgnoreAsciiCase (utf8 n) (utf8 "content-encoding") = false := by decide
  simp only [List.forall_mem_cons] at hnames
  rw [header_partialResponse]
  simp [hnames]

theorem contentType_partialResponse (response : Response) (start last : Nat) :
    (partialResponse response start last).header "content-type" =
      response.header "Content-Type" := by
  have hnames : ∀ n ∈ ["Accept-Ranges", "Content-Range", "ETag", "Last-Modified"],
      eqIgnoreAsciiCase (utf8 n) (utf8 "content-type") = false := by decide
  have htype : eqIgnoreAsciiCase (utf8 "Content-Type") (utf8 "content-type") = true := by
    decide
  simp only [List.forall_mem_cons] at hnames
  rw [header_partialResponse]
  cases hvalue : response.header "Content-Type" <;> simp [hnames, htype, hvalue]

end Evaluate

/-! ## Underflow -/

/-- A `u64` subtraction that must not underflow. -/
def subU64 (a b : Nat) : Outcome Empty Nat := if b ≤ a then .ok (a - b) else .panic

/-- `parseSingleRange` with its subtractions checked. -/
def checkedSingleRange (value : String) (len : Nat) : Outcome Empty (Option RangeOutcome) :=
  match stripPrefix "bytes=" value with
  | none => pure none
  | some rest =>
    let spec := trim rest
    if spec.toList.contains ',' then pure none
    else
      match splitOnce '-' spec with
      | none => pure none
      | some (first, last) =>
        let first := trim first
        let last := trim last
        if first.isEmpty then
          match parseUnsigned u64Values last with
          | none => pure none
          | some n =>
            if n = 0 ∨ len = 0 then pure (some .unsatisfiable)
            else do
              let start ← subU64 len (min n len)
              let top ← subU64 len 1
              pure (some (.satisfiable start top))
        else
          match parseUnsigned u64Values first with
          | none => pure none
          | some start =>
            if len ≤ start then pure (some .unsatisfiable)
            else if last.isEmpty then do
              let top ← subU64 len 1
              pure (some (.satisfiable start top))
            else
              match parseUnsigned u64Values last with
              | none => pure none
              | some requested =>
                if requested < start then pure (some .unsatisfiable)
                else do
                  let top ← subU64 len 1
                  pure (some (.satisfiable start (min requested top)))

/-- No subtraction underflows. -/
theorem checkedSingleRange_eq (value : String) (len : Nat) :
    checkedSingleRange value len = .ok (parseSingleRange value len) := by
  have hsub : ∀ a b, b ≤ a → subU64 a b = .ok (a - b) := fun a b h => if_pos h
  unfold checkedSingleRange parseSingleRange
  cases stripPrefix "bytes=" value with
  | none => rfl
  | some rest =>
    simp only [Option.bind_eq_bind, Option.bind_some]
    split
    · rfl
    · cases splitOnce '-' (trim rest) with
      | none => rfl
      | some cut =>
        simp only [Option.bind_some]
        split
        · -- a suffix of a body that is not empty
          cases parseUnsigned u64Values (trim cut.2) with
          | none => rfl
          | some n =>
            simp only [Option.bind_some]
            split
            · rfl
            · rw [hsub len (min n len) (by omega), hsub len 1 (by omega)]
              rfl
        · cases parseUnsigned u64Values (trim cut.1) with
          | none => rfl
          | some start =>
            simp only [Option.bind_some]
            split
            · rfl
            · -- the start lies inside the body
              rw [hsub len 1 (by omega)]
              split
              · rfl
              · cases parseUnsigned u64Values (trim cut.2) with
                | none => rfl
                | some requested =>
                  simp only [Option.bind_some]
                  split <;> rfl

/-! ## Well-formed ranges -/

section WellFormed

variable {first last : String} {a b n : Nat}

/-- Two numbers, or none and one, around a dash. -/
theorem dashed_ok (hfirst : first = "" ∨ IsDecimal first a) (hlast : IsDecimal last b) :
    (first ++ "-" ++ last).toList.contains ',' = false ∧
      trim (first ++ "-" ++ last) = first ++ "-" ++ last ∧ '-' ∉ first.toList ∧
      trim first = first := by
  have hlist : (first ++ "-" ++ last).toList = first.toList ++ '-' :: last.toList := by
    rw [String.toList_append, String.toList_append, List.append_assoc]
    rfl
  have hfree : ∀ c : Char, c.isDigit = false → c ∉ first.toList := by
    intro c hc
    rcases hfirst with rfl | h
    · exact List.not_mem_nil
    · exact h.not_mem hc
  have hclean : ∀ c ∈ first.toList, isWhitespace c = false := by
    intro c hc
    rcases hfirst with rfl | h
    · exact absurd hc List.not_mem_nil
    · exact IsDecimal.not_isWhitespace (h.digits c hc)
  refine ⟨?_, trim_of_cleanEnds ?_, hfree '-' rfl, trim_of_cleanEnds ?_⟩
  · have hnot : ',' ∉ (first ++ "-" ++ last).toList := by
      rw [hlist]
      intro hmem
      rcases List.mem_append.mp hmem with h | h
      · exact hfree ',' rfl h
      · rcases List.mem_cons.mp h with h | h
        · exact absurd h (by decide)
        · exact hlast.not_mem rfl h
    simpa using hnot
  · rw [hlist]
    constructor
    · intro c hc
      rw [List.head?_append, Option.or_eq_some_iff] at hc
      rcases hc with hc | ⟨_, hc⟩
      · exact hclean c (List.mem_of_mem_head? hc)
      · cases hc
        rfl
    · intro c hc
      rw [List.getLast?_append, List.getLast?_cons, Option.some_or, Option.some.injEq] at hc
      cases hlist' : last.toList.getLast? with
      | none => exact absurd (List.getLast?_eq_none_iff.mp hlist') hlast.nonempty
      | some d =>
        rw [hlist', Option.getD_some] at hc
        rw [← hc]
        exact hlast.cleanEnds.2 d hlist'
  · exact ⟨fun c hc => hclean c (List.mem_of_mem_head? hc),
      fun c hc => hclean c (List.mem_of_getLast? hc)⟩

/-- `bytes=a-b` from inside the body. -/
theorem parseSingleRange_pair (hfirst : IsDecimal first a) (hlast : IsDecimal last b)
    (hab : a ≤ b) (ha : a < n) (hb : b < u64Values) :
    parseSingleRange ("bytes=" ++ (first ++ "-" ++ last)) n =
      some (.satisfiable a (min b (n - 1))) := by
  rcases dashed_ok (.inr hfirst) hlast with ⟨hcomma, htrim, hdash, _⟩
  have hcut : splitOnce '-' (first ++ "-" ++ last) = some (first, last) :=
    splitOnce_append rfl hdash last
  simp only [parseSingleRange, stripPrefix_append, Option.bind_eq_bind, Option.bind_some, htrim,
    hcomma, hcut, hfirst.trim, hlast.trim, hfirst.isEmpty_eq, hlast.isEmpty_eq,
    hfirst.parseUnsigned (by omega : a < u64Values), hlast.parseUnsigned hb, Bool.false_eq_true,
    if_false]
  rw [if_neg (by omega), if_neg (by omega)]

/-- `bytes=-k` of a body that is not empty. -/
theorem parseSingleRange_suffix (hlast : IsDecimal last b) (hpos : 1 ≤ b) (hn : 1 ≤ n)
    (hb : b < u64Values) :
    parseSingleRange ("bytes=" ++ ("-" ++ last)) n = some (.satisfiable (n - min b n) (n - 1)) := by
  rcases dashed_ok (.inl rfl : ("" : String) = "" ∨ IsDecimal "" 0) hlast with
    ⟨hcomma, htrim, hdash, htrim'⟩
  rw [String.empty_append] at hcomma htrim
  have hcut : splitOnce '-' ("-" ++ last) = some ("", last) := by
    have h := @splitOnce_append '-' "-" "" rfl hdash last
    rwa [String.empty_append] at h
  have hempty : ("" : String).isEmpty = true := by decide
  simp only [parseSingleRange, stripPrefix_append, Option.bind_eq_bind, Option.bind_some, htrim,
    hcomma, hcut, htrim', hlast.trim, hlast.parseUnsigned hb, Bool.false_eq_true, if_false]
  rw [if_pos hempty, if_neg (by omega)]

end WellFormed

/-! ## Exactness -/

/-- The `206` for the bytes `start..=last` of a body. -/
structure IsSlice (response r : Response) (start last : Nat) : Prop where
  status : r.status = ⟨206⟩
  ordered : start ≤ last
  inside : last < response.body.length
  range : r.header "content-range" = some (contentRange start last response.body.length)
  body : r.body = (response.body.drop start).take (last + 1 - start)

/-- The `416` for a body. -/
structure IsUnsatisfiable (response r : Response) : Prop where
  status : r.status = ⟨416⟩
  range : r.header "content-range" = some ("bytes */" ++ toString response.body.length)
  body : r.body = []

/-- The request asks for `bytes=a-b`. -/
def Asks (request : Request) (a b : Nat) : Prop :=
  ∃ first last, request.header "range" = some ("bytes=" ++ (first ++ "-" ++ last)) ∧
    IsDecimal first a ∧ IsDecimal last b

/-- The request asks for `bytes=-k`. -/
def AsksLast (request : Request) (k : Nat) : Prop :=
  ∃ last, request.header "range" = some ("bytes=" ++ ("-" ++ last)) ∧ IsDecimal last k

/-- Ranges that follow one another from `start` up to `stop`. -/
def Consecutive : Nat → Nat → List (Nat × Nat) → Prop
  | start, stop, [] => start = stop
  | start, stop, cut :: cuts =>
    cut.1 = start ∧ cut.1 ≤ cut.2 ∧ Consecutive (cut.2 + 1) stop cuts

/-- What `evaluate` makes of a body, for a client without a current copy. -/
structure RangeAnswer (request : Request) (response r : Response) : Prop where
  kind : (∃ start last, IsSlice response r start last) ∨ IsUnsatisfiable response r ∨ r = response
  pair : ∀ a b, Asks request a b → b < u64Values → a ≤ b → a < response.body.length →
    IsSlice response r a (min b (response.body.length - 1))
  suffix : ∀ k, AsksLast request k → k < u64Values → 1 ≤ k → 1 ≤ response.body.length →
    IsSlice response r (response.body.length - min k response.body.length)
      (response.body.length - 1)

section Answers

variable {t : Target} {request : Request} {response r : Response}

theorem isSlice_partialResponse {start last : Nat} (hle : start ≤ last)
    (hlast : last < response.body.length) :
    IsSlice response (partialResponse response start last) start last :=
  ⟨status_partialResponse _ _ _, hle, hlast, contentRange_partialResponse _ _ _, rfl⟩

/-- Past the preconditions, only the range counts. -/
theorem evaluate_eq_applyRange (hok : response.status = ⟨200⟩)
    (hfresh : notModified t request response = .ok false) :
    evaluate t request response = applyRange request response := by
  rw [evaluate, if_neg (by rw [hok]; simp), hfresh, Outcome.ok_bind]
  rfl

theorem evaluate_satisfiable (hok : response.status = ⟨200⟩)
    (hfresh : notModified t request response = .ok false) {value : String} {start last : Nat}
    (hvalue : request.header "range" = some value)
    (hrange : parseSingleRange value response.body.length = some (.satisfiable start last)) :
    evaluate t request response = .ok (partialResponse response start last) ∧
      IsSlice response (partialResponse response start last) start last := by
  rcases parseSingleRange_bounds hrange with ⟨hle, hlast⟩
  rw [evaluate_eq_applyRange hok hfresh]
  exact ⟨applyRange_satisfiable hvalue hrange, isSlice_partialResponse hle hlast⟩

theorem evaluate_kind (hok : response.status = ⟨200⟩)
    (hfresh : notModified t request response = .ok false) :
    ∃ r, evaluate t request response = .ok r ∧
      ((∃ start last, IsSlice response r start last) ∨ IsUnsatisfiable response r ∨
        r = response) := by
  cases hvalue : request.header "range" with
  | none =>
    refine ⟨response, ?_, .inr (.inr rfl)⟩
    rw [evaluate_eq_applyRange hok hfresh, applyRange, hvalue]
    rfl
  | some value =>
    cases hrange : parseSingleRange value response.body.length with
    | none =>
      refine ⟨response, ?_, .inr (.inr rfl)⟩
      rw [evaluate_eq_applyRange hok hfresh, applyRange, hvalue]
      simp only [hrange]
      rfl
    | some outcome =>
      cases outcome with
      | satisfiable start last =>
        rcases evaluate_satisfiable hok hfresh hvalue hrange with ⟨heval, hslice⟩
        exact ⟨_, heval, .inl ⟨start, last, hslice⟩⟩
      | unsatisfiable =>
        refine ⟨(Response.new ⟨416⟩).withHeader "Content-Range"
          ("bytes */" ++ toString response.body.length), ?_, .inr (.inl ⟨rfl, ?_, rfl⟩)⟩
        · rw [evaluate_eq_applyRange hok hfresh, applyRange, hvalue]
          simp only [hrange]
          rfl
        · have hname : eqIgnoreAsciiCase (utf8 "Content-Range") (utf8 "content-range") = true := by
            decide
          rw [header_withHeader, hname]
          rfl

theorem evaluate_pair (hok : response.status = ⟨200⟩)
    (hfresh : notModified t request response = .ok false) {a b : Nat} (hasks : Asks request a b)
    (hb : b < u64Values) (hab : a ≤ b) (ha : a < response.body.length) :
    ∃ r, evaluate t request response = .ok r ∧
      IsSlice response r a (min b (response.body.length - 1)) := by
  rcases hasks with ⟨first, last, hvalue, hfirst, hlast⟩
  exact ⟨_, evaluate_satisfiable hok hfresh hvalue (parseSingleRange_pair hfirst hlast hab ha hb)⟩

theorem evaluate_rangeAnswer (hok : response.status = ⟨200⟩)
    (hfresh : notModified t request response = .ok false) :
    ∃ r, evaluate t request response = .ok r ∧ RangeAnswer request response r := by
  rcases evaluate_kind hok hfresh with ⟨r, heval, hkind⟩
  refine ⟨r, heval, hkind, ?_, ?_⟩
  · intro a b hasks hb hab ha
    rcases evaluate_pair hok hfresh hasks hb hab ha with ⟨r', heval', hslice⟩
    rw [heval] at heval'
    cases heval'
    exact hslice
  · rintro k ⟨last, hvalue, hlast⟩ hk hpos hn
    rcases evaluate_satisfiable hok hfresh hvalue (parseSingleRange_suffix hlast hpos hn hk) with
      ⟨heval', hslice⟩
    rw [heval] at heval'
    cases heval'
    exact hslice

/-- Consecutive slices are joined to what they are slices of. -/
theorem slices_of_consecutive (hok : response.status = ⟨200⟩)
    (hword : response.body.length ≤ u64Values) {requests : List Request}
    {cuts : List (Nat × Nat)} {start : Nat}
    (hcuts : Consecutive start response.body.length cuts)
    (hasks : List.Forall₂ (fun request cut => Asks request cut.1 cut.2 ∧
      notModified t request response = .ok false) requests cuts) :
    start ≤ response.body.length ∧ ∃ parts, List.Forall₂ (fun request part =>
        evaluate t request response = .ok part ∧ part.status = ⟨206⟩) requests parts ∧
      parts.flatMap (·.body) = response.body.drop start := by
  induction hasks generalizing start with
  | nil =>
    have hstart : start = response.body.length := hcuts
    refine ⟨by omega, [], .nil, ?_⟩
    rw [hstart, List.drop_length]
    rfl
  | @cons request cut requests cuts hask hrest ih =>
    rcases hcuts with ⟨hstart, hle, hcuts⟩
    rcases ih hcuts with ⟨hend, parts, hparts, hbody⟩
    rcases evaluate_pair hok hask.2 hask.1 (by omega) hle (by omega) with ⟨r, heval, hslice⟩
    refine ⟨by omega, r :: parts, .cons ⟨heval, hslice.status⟩ hparts, ?_⟩
    have hmin : min cut.2 (response.body.length - 1) = cut.2 := by omega
    have hlast : cut.2 + 1 = cut.1 + (cut.2 + 1 - cut.1) := by omega
    rw [List.flatMap_cons, hbody, hslice.body, hmin, ← hstart]
    calc (response.body.drop cut.1).take (cut.2 + 1 - cut.1) ++ response.body.drop (cut.2 + 1)
        = (response.body.drop cut.1).take (cut.2 + 1 - cut.1) ++
            (response.body.drop cut.1).drop (cut.2 + 1 - cut.1) := by
          rw [List.drop_drop, ← hlast]
      _ = response.body.drop cut.1 := List.take_append_drop _ _

/-- Range evaluation is exact: a client without a current copy is answered a slice it
asked for, a `416` or the whole body; the slices of a partition are the whole body; and
no subtraction on the way underflows. -/
theorem ranges_exact (t : Target) (hok : response.status = ⟨200⟩)
    (hword : response.body.length < u64Values) :
    (∀ request, notModified t request response = .ok false →
        ∃ r, evaluate t request response = .ok r ∧ RangeAnswer request response r) ∧
      (∀ requests cuts, Consecutive 0 response.body.length cuts →
        List.Forall₂ (fun request cut => Asks request cut.1 cut.2 ∧
          notModified t request response = .ok false) requests cuts →
        ∃ parts, List.Forall₂ (fun request part =>
            evaluate t request response = .ok part ∧ part.status = ⟨206⟩) requests parts ∧
          parts.flatMap (·.body) = response.body) ∧
      ∀ value, checkedSingleRange value response.body.length =
        .ok (parseSingleRange value response.body.length) := by
  refine ⟨fun request hfresh => evaluate_rangeAnswer hok hfresh, ?_,
    fun value => checkedSingleRange_eq value _⟩
  intro requests cuts hcuts hasks
  rcases slices_of_consecutive hok (Nat.le_of_lt hword) hcuts hasks with ⟨_, parts, hparts, hbody⟩
  exact ⟨parts, hparts, hbody⟩

/-- Four bytes. -/
def fourBytes : Response := ⟨⟨200⟩, [], utf8 "abcd"⟩

/-- From the second one far past the end. -/
def pastTheEnd : Request := ⟨.get, "/", .http11, [⟨"Range", "bytes=01-999"⟩], []⟩

theorem pastTheEnd_asks : Asks pastTheEnd 1 999 := by
  refine ⟨"01", "999", by decide, ⟨?_, ?_, ?_⟩, ⟨?_, ?_, ?_⟩⟩
  · decide
  · exact List.all_eq_true.mp (by decide)
  · decide
  · decide
  · exact List.all_eq_true.mp (by decide)
  · decide

theorem pastTheEnd_exact : ∃ r, evaluate ⟨.w64, false⟩ pastTheEnd fourBytes = .ok r ∧
    IsSlice fourBytes r 1 3 := by
  have hfresh : notModified ⟨.w64, false⟩ pastTheEnd fourBytes = .ok false := by decide
  have hok : fourBytes.status = ⟨200⟩ := rfl
  rcases (ranges_exact ⟨.w64, false⟩ hok (by decide)).1 pastTheEnd hfresh with
    ⟨r, heval, hanswer⟩
  exact ⟨r, heval, hanswer.pair 1 999 pastTheEnd_asks (by decide) (by decide) (by decide)⟩

end Answers

end FerroHttp
