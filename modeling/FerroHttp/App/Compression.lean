import FerroHttp.App
import FerroHttp.Compress.Gzip
import FerroHttp.Lib.Split

/-!
# App.Compression — whether the client asked for gzip

`codings` reads the `Accept-Encoding` fields of a request as RFC 9110 12.5.3 has them, with
their weights; the handler looks at the names in the first field only. Where the two differ
a client gets a coding it has excluded (`postProcess_respects_iff`).
-/

namespace FerroHttp

open Text

/-! ## Accept-Encoding -/

/-- A weight in thousandths: `0` or `1` with at most three decimals, not above one. -/
def qvalue : List Char → Option Nat
  | '0' :: '.' :: ds =>
    if ds.length ≤ 3 && ds.all Char.isDigit then
      some (Numeral.value 10 (ds.map Numeral.ofDigitChar) * 10 ^ (3 - ds.length))
    else none
  | '1' :: '.' :: ds => if ds.length ≤ 3 && ds.all (· == '0') then some 1000 else none
  | ['0'] => some 0
  | ['1'] => some 1000
  | _ => none

/-- What stands behind the semicolon of a coding: `q=` and a weight. -/
def weight : List Char → Option Nat
  | 'q' :: '=' :: q => qvalue q
  | 'Q' :: '=' :: q => qvalue q
  | _ => none

/-- Remove spaces and tabs. -/
def trimSpace (s : String) : String :=
  String.ofList (trimWith (fun c => c == ' ' || c == '\t') s.toList)

/-- A coding with its weight; without one the weight is full. -/
def coding (piece : String) : Option (String × Nat) :=
  match splitOnce ';' piece with
  | none => some (trimSpace piece, 1000)
  | some (name, param) => (weight (trimSpace param).toList).map fun n => (trimSpace name, n)

/-- The well-formed codings of a request, of all its `Accept-Encoding` fields. -/
def codings (request : Request) : List (String × Nat) :=
  ((request.headers.filter (Header.named "accept-encoding")).flatMap fun field =>
    split ',' field.value).filterMap coding

def isGzip (name : String) : Bool := eqIgnoreAsciiCase (utf8 name) (utf8 "gzip")

/-- The weight of gzip is not zero; what is not listed has the weight of the asterisk. -/
def givesGzip (request : Request) : Bool :=
  if (codings request).any fun c => isGzip c.1 then
    (codings request).any fun c => isGzip c.1 && c.2 != 0
  else (codings request).any fun c => c.1 == "*" && c.2 != 0

/-! ## Compressed responses -/

section Respect

variable {app : App} {deflate : Bytes → Nat → Bytes} {request : Request} {response : Response}

/-- What compressing a response comes to. -/
def gzipped (deflate : Bytes → Nat → Bytes) (response : Response) : Response where
  status := response.status
  headers := response.headers ++ [("Content-Encoding", "gzip"), ("Vary", "Accept-Encoding")]
  body := gzipEncode deflate response.body

/-- A response is compressed for a client that gives gzip a weight, or left alone. -/
def RespectsClient (app : App) (deflate : Bytes → Nat → Bytes) (request : Request)
    (response : Response) : Prop :=
  app.postProcess deflate request response = response ∨
    givesGzip request = true ∧ app.postProcess deflate request response = gzipped deflate response

/-- The response qualifies and the first field has gzip in it, but each gzip that the client
lists has weight zero, and where it lists none no asterisk has a weight. -/
structure Overrides (app : App) (request : Request) (response : Response) : Prop where
  enabled : app.compression.gzip = true
  large : app.compression.minBytes ≤ response.body.length
  compressible : isCompressible response = true
  uncoded : hasHeader response "content-encoding" = false
  listed : acceptsGzip request = true
  excluded : ∀ c ∈ codings request, isGzip c.1 = true → c.2 = 0
  unmatched : (∃ c ∈ codings request, isGzip c.1 = true) ∨ ∀ c ∈ codings request, c.1 = "*" → c.2 = 0

/-- The two ways a response comes out. -/
theorem postProcess_cases (app : App) (deflate : Bytes → Nat → Bytes) (request : Request)
    (response : Response) :
    (app.compression.gzip = true ∧ app.compression.minBytes ≤ response.body.length ∧
        acceptsGzip request = true ∧ isCompressible response = true ∧
        hasHeader response "content-encoding" = false) ∧
      app.postProcess deflate request response = gzipped deflate response ∨
    ¬ (app.compression.gzip = true ∧ app.compression.minBytes ≤ response.body.length ∧
        acceptsGzip request = true ∧ isCompressible response = true ∧
        hasHeader response "content-encoding" = false) ∧
      app.postProcess deflate request response = response := by
  have hcond : (!app.compression.gzip || decide (response.body.length < app.compression.minBytes) ||
      !acceptsGzip request || !isCompressible response || hasHeader response "content-encoding") = true ↔
      ¬ (app.compression.gzip = true ∧ app.compression.minBytes ≤ response.body.length ∧
        acceptsGzip request = true ∧ isCompressible response = true ∧
        hasHeader response "content-encoding" = false) := by
    rw [← Nat.not_lt]
    simp only [Bool.or_eq_true, Bool.not_eq_true', decide_eq_true_eq, ← Bool.not_eq_true]
    tauto
  rw [App.postProcess]
  split
  · rename_i h
    exact .inr ⟨hcond.mp h, rfl⟩
  · rename_i h
    refine .inl ⟨not_not.mp (mt hcond.mpr h), ?_⟩
    simp [Response.withHeader, gzipped]

/-- A compressed response is another one. -/
theorem gzipped_ne : gzipped deflate response ≠ response := by
  intro h
  have hlength := congrArg (fun r : Response => r.headers.length) h
  simp [gzipped] at hlength

theorem givesGzip_eq_false_iff : givesGzip request = false ↔
    (∀ c ∈ codings request, isGzip c.1 = true → c.2 = 0) ∧
      ((∃ c ∈ codings request, isGzip c.1 = true) ∨ ∀ c ∈ codings request, c.1 = "*" → c.2 = 0) := by
  rw [givesGzip]
  split
  · rename_i hany
    rw [List.any_eq_true] at hany
    rw [List.any_eq_false]
    constructor
    · intro h
      refine ⟨?_, .inl hany⟩
      intro c hc hgzip
      have hzero := h c hc
      simpa [hgzip] using hzero
    · rintro ⟨h, -⟩ c hc
      cases hgzip : isGzip c.1 with
      | false => simp
      | true => simp [h c hc hgzip]
  · rename_i hnone
    rw [List.any_eq_true] at hnone
    rw [List.any_eq_false]
    constructor
    · intro h
      refine ⟨fun c hc hgzip => (hnone ⟨c, hc, hgzip⟩).elim, .inr ?_⟩
      intro c hc hstar
      have hzero := h c hc
      simpa [hstar] using hzero
    · rintro ⟨-, h⟩ c hc
      have hzero := h.resolve_left hnone c hc
      simpa using hzero

/-- The client is respected unless a coding it has excluded overrides it. -/
theorem postProcess_respects_iff (app : App) (deflate : Bytes → Nat → Bytes) (request : Request)
    (response : Response) :
    RespectsClient app deflate request response ↔ ¬ Overrides app request response := by
  rw [RespectsClient]
  rcases postProcess_cases app deflate request response with ⟨hqualifies, hresult⟩ | ⟨hnot, hresult⟩
  · rcases hqualifies with ⟨henabled, hlarge, hlisted, hcompressible, huncoded⟩
    rw [hresult]
    constructor
    · intro h hover
      rcases h with h | ⟨hgives, -⟩
      · exact gzipped_ne h
      · have hrefused := givesGzip_eq_false_iff.mpr ⟨hover.excluded, hover.unmatched⟩
        rw [hgives] at hrefused
        cases hrefused
    · intro h
      refine .inr ⟨?_, rfl⟩
      cases hgives : givesGzip request with
      | true => rfl
      | false =>
        rcases givesGzip_eq_false_iff.mp hgives with ⟨hexcluded, hunmatched⟩
        exact (h ⟨henabled, hlarge, hcompressible, huncoded, hlisted, hexcluded, hunmatched⟩).elim
  · constructor
    · intro _ hover
      exact hnot ⟨hover.enabled, hover.large, hover.listed, hover.compressible, hover.uncoded⟩
    · intro _
      exact .inl hresult

/-- Compression of everything. -/
def compressingApp : App where
  router := ⟨[]⟩
  assets := ⟨fun _ => none, fun _ => false⟩
  indexFiles := []
  mimeOverrides := []
  compression := ⟨true, 0⟩

/-- A request that excludes gzip. -/
def excludingGet : Request := ⟨.get, "/", .http11, [⟨"Accept-Encoding", "gzip;q=0"⟩], []⟩

/-- The client that excludes gzip gets it. -/
theorem excludingGet_gzipped :
    ¬ RespectsClient compressingApp (fun d _ => storeEach d) excludingGet (Response.text ⟨200⟩ "x") := by
  intro h
  have hgives : givesGzip excludingGet = false := by decide
  have hlength : (compressingApp.postProcess (fun d _ => storeEach d) excludingGet
      (Response.text ⟨200⟩ "x")).headers.length = 3 := by decide
  rcases h with hsame | ⟨htrue, -⟩
  · rw [hsame] at hlength
    cases hlength
  · rw [hgives] at htrue
    cases htrue

end Respect

end FerroHttp
