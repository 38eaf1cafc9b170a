import FerroHttp.Http.Message

/-!
# Http.Target — the path of a target

`Request.path` reduces an absolute-form target before it cuts the query off, and looks
for the path of the target at its first slash.

1. `path_of_slash`: a target that starts with a slash is its path up to the query;
2. `absoluteFormPath_eq`: of an absolute-form target, what is left starts at the first
   slash behind the authority, wherever that is;
3. `path_exact_iff`: which is the path, unless that is empty and there is a slash in
   the query (`QueryTaken`). `queryRequest_path` is such a target.
-/

namespace FerroHttp

/-! ## Targets -/

/-- An absolute-form target: a scheme, an authority, a path and a query. -/
structure AbsoluteForm where
  scheme : List Char
  authority : List Char
  path : List Char
  query : Option (List Char)
  scheme_start : scheme.head?.any Char.isAlpha = true
  scheme_chars : ∀ c ∈ scheme, (c.isAlphanum || c == '+' || c == '-' || c == '.') = true
  authority_chars : ∀ c ∈ authority, c ≠ '/' ∧ c ≠ '?' ∧ c ≠ '#'
  path_start : path = [] ∨ path.head? = some '/'
  path_chars : '?' ∉ path

namespace AbsoluteForm

/-- The query with its question mark. -/
def suffix (form : AbsoluteForm) : List Char := form.query.elim [] ('?' :: ·)

/-- The target. -/
def text (form : AbsoluteForm) : String :=
  String.ofList (form.scheme ++ "://".toList ++ (form.authority ++ (form.path ++ form.suffix)))

/-- The path, `/` if it is empty. -/
def resource (form : AbsoluteForm) : String :=
  if form.path = [] then "/" else String.ofList form.path

/-- The path is empty, and the query has a slash with something other than a question
mark behind it. -/
def QueryTaken (form : AbsoluteForm) : Prop :=
  form.path = [] ∧ ∃ before c after, form.query = some (before ++ '/' :: c :: after) ∧
    '/' ∉ before ∧ c ≠ '?'

end AbsoluteForm

/-- What comes before the query. -/
def beforeQuery (target : List Char) : List Char := target.takeWhile (· != '?')

/-! ## Scanning for the path -/

section Path

variable {r : Request} {form : AbsoluteForm}

theorem beforeQuery_of_not_mem {target : List Char} (h : '?' ∉ target) :
    beforeQuery target = target := by
  unfold beforeQuery
  rw [List.takeWhile_eq_self_iff]
  intro c hc
  rw [bne_iff_ne]
  intro hq
  exact h (hq ▸ hc)

theorem beforeQuery_append {before after : List Char} (h : '?' ∉ before) :
    beforeQuery (before ++ '?' :: after) = before := by
  unfold beforeQuery
  rw [List.takeWhile_append_of_pos]
  · simp
  · intro c hc
    rw [bne_iff_ne]
    intro hq
    exact h (hq ▸ hc)

/-- The query is cut off what the target was reduced to. -/
theorem path_eq (r : Request) :
    r.path = String.ofList (beforeQuery (r.absoluteFormPath.getD r.target.toList)) := by
  unfold Request.path
  generalize r.absoluteFormPath.getD r.target.toList = target
  dsimp only
  by_cases hmem : '?' ∈ target
  · rcases List.eq_append_cons_of_mem hmem with ⟨before, after, rfl, hfree⟩
    have hcut : (before ++ '?' :: after).findIdx? (· == '?') = some before.length :=
      Text.findIdx?_beq_eq_some_iff.mpr ⟨before, after, rfl, hfree, rfl⟩
    rw [hcut, beforeQuery_append hfree]
    simp
  · rw [Text.findIdx?_beq_eq_none_iff.mpr hmem, beforeQuery_of_not_mem hmem]

/-- No scheme starts with a slash. -/
theorem absoluteFormPath_of_slash (h : r.target.toList.head? = some '/') :
    r.absoluteFormPath = none := by
  unfold Request.absoluteFormPath
  dsimp only
  split
  · rfl
  · rename_i schemeEnd hfind
    have hbad : ((r.target.toList.take schemeEnd).head?.any Char.isAlpha) = false := by
      cases schemeEnd with
      | zero => rfl
      | succ n =>
        rw [List.head?_take, if_neg (Nat.succ_ne_zero n), h]
        rfl
    simp [hbad]

theorem path_of_slash (h : r.target.toList.head? = some '/') :
    r.path = String.ofList (beforeQuery r.target.toList) := by
  rw [path_eq, absoluteFormPath_of_slash h]
  rfl

namespace AbsoluteForm

theorem colon_not_mem_scheme (form : AbsoluteForm) : ':' ∉ form.scheme := by
  intro hmem
  have hchar := form.scheme_chars ':' hmem
  exact absurd hchar (by decide)

theorem slash_not_mem_authority (form : AbsoluteForm) : '/' ∉ form.authority := by
  intro hmem
  exact (form.authority_chars '/' hmem).1 rfl

/-- What follows the scheme is searched for the path. -/
theorem absoluteFormPath_text (h : r.target = form.text) :
    r.absoluteFormPath =
      some (((form.authority ++ (form.path ++ form.suffix)).findIdx? (· == '/')).elim ['/']
        fun i => (form.authority ++ (form.path ++ form.suffix)).drop i) := by
  have htext : r.target.toList =
      form.scheme ++ "://".toList ++ (form.authority ++ (form.path ++ form.suffix)) := by
    rw [h]
    exact String.toList_ofList
  have hfind : Request.findStr r.target.toList "://".toList = some form.scheme.length := by
    rw [Request.findStr, Search.findIdx?_windows (by decide), htext]
    exact Search.FirstAt.of_not_mem form.colon_not_mem_scheme
  have hscheme : r.target.toList.take form.scheme.length = form.scheme := by
    rw [htext, List.append_assoc, List.take_left]
  have hrest : r.target.toList.drop (form.scheme.length + 3) =
      form.authority ++ (form.path ++ form.suffix) := by
    rw [htext]
    exact List.drop_left' (by simp)
  have hvalid : (form.scheme.head?.any Char.isAlpha && form.scheme.all fun c =>
      c.isAlphanum || c == '+' || c == '-' || c == '.') = true := by
    rw [Bool.and_eq_true, List.all_eq_true]
    exact ⟨form.scheme_start, form.scheme_chars⟩
  unfold Request.absoluteFormPath
  simp only [hfind, hscheme, hrest, hvalid, Bool.not_true, Bool.false_eq_true, if_false]
  split
  · rename_i i hslash
    rw [hslash]
    rfl
  · rename_i hslash
    rw [hslash]
    rfl

/-- What is left of an absolute form starts at the first slash behind the authority. -/
theorem absoluteFormPath_eq (h : r.target = form.text) {before after : List Char}
    (hrest : form.path ++ form.suffix = before ++ '/' :: after) (hfree : '/' ∉ before) :
    r.absoluteFormPath = some ('/' :: after) := by
  have hno : '/' ∉ form.authority ++ before := by
    intro hmem
    rcases List.mem_append.mp hmem with hin | hin
    · exact form.slash_not_mem_authority hin
    · exact hfree hin
  have hcut : (form.authority ++ before ++ '/' :: after).findIdx? (· == '/') =
      some (form.authority ++ before).length :=
    Text.findIdx?_beq_eq_some_iff.mpr ⟨_, _, rfl, hno, rfl⟩
  rw [absoluteFormPath_text h, hrest, ← List.append_assoc, hcut]
  simp

/-- Without a slash behind the authority, the path is the root. -/
theorem absoluteFormPath_root (h : r.target = form.text)
    (hfree : '/' ∉ form.path ++ form.suffix) : r.absoluteFormPath = some ['/'] := by
  have hno : '/' ∉ form.authority ++ (form.path ++ form.suffix) := by
    intro hmem
    rcases List.mem_append.mp hmem with hin | hin
    · exact form.slash_not_mem_authority hin
    · exact hfree hin
  rw [absoluteFormPath_text h, Text.findIdx?_beq_eq_none_iff.mpr hno]
  rfl

theorem beforeQuery_path_append (form : AbsoluteForm) :
    beforeQuery (form.path ++ form.suffix) = form.path := by
  unfold suffix
  cases form.query with
  | none =>
    rw [Option.elim_none, List.append_nil]
    exact beforeQuery_of_not_mem form.path_chars
  | some query => exact beforeQuery_append form.path_chars

/-- A path that is there is found. -/
theorem path_of_path (h : r.target = form.text) (hpath : form.path ≠ []) :
    r.path = form.resource := by
  have hhead : form.path.head? = some '/' := form.path_start.resolve_left hpath
  rcases List.head?_eq_some_iff.mp hhead with ⟨tail, htail⟩
  have hrest : form.path ++ form.suffix = [] ++ '/' :: (tail ++ form.suffix) := by
    rw [htail]
    rfl
  have hleft : r.absoluteFormPath = some (form.path ++ form.suffix) := by
    rw [absoluteFormPath_eq h hrest List.not_mem_nil, hrest]
    rfl
  rw [path_eq, hleft, Option.getD_some, beforeQuery_path_append, resource, if_neg hpath]

/-- An empty path is the root, as long as there is no slash in the query. -/
theorem path_of_no_slash (h : r.target = form.text) (hpath : form.path = [])
    (hfree : '/' ∉ form.suffix) : r.path = form.resource := by
  have hroot : r.absoluteFormPath = some ['/'] := by
    apply absoluteFormPath_root h
    rw [hpath]
    exact hfree
  rw [path_eq, hroot, resource, if_pos hpath]
  rfl

/-- A slash in the query behind an empty path is taken for the start of the path. -/
theorem path_of_slash_in_query (h : r.target = form.text) (hpath : form.path = [])
    {before after : List Char} (hquery : form.query = some (before ++ '/' :: after))
    (hfree : '/' ∉ before) : r.path = String.ofList ('/' :: beforeQuery after) := by
  have hrest : form.path ++ form.suffix = ('?' :: before) ++ '/' :: after := by
    rw [hpath, suffix, hquery]
    rfl
  have hno : '/' ∉ '?' :: before := by
    intro hmem
    rcases List.mem_cons.mp hmem with hbad | hin
    · exact absurd hbad (by decide)
    · exact hfree hin
  rw [path_eq, absoluteFormPath_eq h hrest hno]
  rfl

theorem beforeQuery_eq_nil_iff {after : List Char} :
    beforeQuery after = [] ↔ ¬ ∃ c rest, after = c :: rest ∧ c ≠ '?' := by
  cases after with
  | nil => simp [beforeQuery]
  | cons c rest => simp [beforeQuery, List.takeWhile_cons]

theorem queryTaken_iff {before after : List Char} (hpath : form.path = [])
    (hquery : form.query = some (before ++ '/' :: after)) (hfree : '/' ∉ before) :
    form.QueryTaken ↔ ∃ c rest, after = c :: rest ∧ c ≠ '?' := by
  constructor
  · rintro ⟨_, before', c, rest, hquery', hfree', hc⟩
    rw [hquery, Option.some.injEq] at hquery'
    exact ⟨c, rest, (Text.append_cons_inj hquery' hfree hfree').2, hc⟩
  · rintro ⟨c, rest, rfl, hc⟩
    exact ⟨hpath, before, c, rest, hquery, hfree, hc⟩

/-- An empty path is read as the root unless the query is taken for it. -/
theorem path_iff_of_slash_in_query (h : r.target = form.text) (hpath : form.path = [])
    {before after : List Char} (hquery : form.query = some (before ++ '/' :: after))
    (hfree : '/' ∉ before) : r.path = form.resource ↔ ¬ form.QueryTaken := by
  have hroot : form.resource = String.ofList ['/'] := by
    rw [resource, if_pos hpath]
  rw [path_of_slash_in_query h hpath hquery hfree, hroot, String.ofList_inj,
    queryTaken_iff hpath hquery hfree, ← beforeQuery_eq_nil_iff]
  simp

theorem not_queryTaken_of_path (h : form.path ≠ []) : ¬ form.QueryTaken := by
  intro htaken
  exact h htaken.1

theorem not_queryTaken_of_no_slash (h : '/' ∉ form.suffix) : ¬ form.QueryTaken := by
  intro htaken
  rcases htaken with ⟨_, before, c, rest, hquery, _⟩
  apply h
  rw [suffix, hquery]
  simp

/-- Which absolute forms `Request.path` reads exactly. -/
theorem path_iff (h : r.target = form.text) : r.path = form.resource ↔ ¬ form.QueryTaken := by
  by_cases hpath : form.path = []
  · by_cases hslash : '/' ∈ form.suffix
    · -- the slash is in the query, as it is not the question mark
      rcases hquery : form.query with _ | query
      · rw [suffix, hquery] at hslash
        exact absurd hslash List.not_mem_nil
      · rw [suffix, hquery, Option.elim_some, List.mem_cons] at hslash
        have hin : '/' ∈ query := hslash.resolve_left (by decide)
        rcases List.eq_append_cons_of_mem hin with ⟨before, after, rfl, hfree⟩
        exact path_iff_of_slash_in_query h hpath hquery hfree
    · exact iff_of_true (path_of_no_slash h hpath hslash) (not_queryTaken_of_no_slash hslash)
  · exact iff_of_true (path_of_path h hpath) (not_queryTaken_of_path hpath)

end AbsoluteForm

/-- The path of an absolute form is its path, or the root when that is empty, and of a
target that starts with a slash what is in front of the query. -/
structure Request.PathExact (r : Request) : Prop where
  absolute : ∀ form : AbsoluteForm, r.target = form.text → r.path = form.resource
  origin : r.target.toList.head? = some '/' →
    r.path = String.ofList (beforeQuery r.target.toList)

/-- The path of a target is exact unless the query of an absolute form is taken for it;
a target that starts with a slash has no such exception. -/
theorem path_exact_iff (r : Request) :
    r.PathExact ↔ ∀ form : AbsoluteForm, r.target = form.text → ¬ form.QueryTaken := by
  constructor
  · intro hexact form h
    exact (AbsoluteForm.path_iff h).mp (hexact.absolute form h)
  · intro huntaken
    constructor
    · intro form h
      exact (AbsoluteForm.path_iff h).mpr (huntaken form h)
    · intro h
      exact path_of_slash h

/-- The root of a host, with a path in the query. -/
def hostWithQuery : AbsoluteForm where
  scheme := "http".toList
  authority := "h".toList
  path := []
  query := some "next=/admin".toList
  scheme_start := by decide
  scheme_chars := List.all_eq_true.mp (by decide)
  authority_chars := by
    intro c hc
    rw [List.mem_singleton.mp hc]
    decide
  path_start := Or.inl rfl
  path_chars := List.not_mem_nil

/-- A request for it. -/
def queryRequest : Request :=
  { method := .get, target := "http://h?next=/admin", version := .http11, headers := [], body := [] }

/-- The query of `http://h?next=/admin` is taken for its path. -/
theorem queryRequest_path : queryRequest.path = "/admin" ∧ ¬ queryRequest.PathExact := by
  have hpath : queryRequest.path = "/admin" := by decide
  refine ⟨hpath, ?_⟩
  intro hexact
  have hroot : queryRequest.path = hostWithQuery.resource :=
    hexact.absolute hostWithQuery (by decide)
  rw [hpath] at hroot
  revert hroot
  decide

example : ({ queryRequest with target := "/find?url=http://h/x" } : Request).path = "/find" := by
  decide

end Path

end FerroHttp
