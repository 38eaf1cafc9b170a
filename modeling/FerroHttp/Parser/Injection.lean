import FerroHttp.Http.Response
import FerroHttp.Parser.Soundness

/-!
# Parser.Injection — bytes that start a new line

A CR, LF or NUL in a field splits the message it is written into: responses drop such
fields (`hasForbiddenByte`). The parser rejects every CR that is not part of a CRLF,
and passes a lone LF and a NUL.

1. `RequestLine.mem_iff`, `HeaderLine.mem_iff`: in an accepted line, LF and NUL are in
   the target or in the value;
2. `oneLine_iff`: the target and the values of an accepted request can be written on
   one line exactly when no line of its head has an LF or a NUL (`CleanHead`).
   `forgingGet_injects` puts a log line of its own into the target.
-/

namespace FerroHttp

open Exec Text Search

/-- The lines of the head at the front of `buf`. -/
def headLines (buf : Bytes) : List Bytes :=
  match findSubslice buf (crlf ++ crlf) with
  | some i => splitCrlf (buf.take i)
  | none => []

/-- Split at its CRLFs, the head has no LF and no NUL. -/
def CleanHead (buf : Bytes) : Prop := ∀ line ∈ headLines buf, lf ∉ line ∧ 0 ∉ line

/-- Nothing of the request starts a new line where it is written. -/
def Request.OneLine (r : Request) : Prop :=
  hasForbiddenByte r.target = false ∧ ∀ h ∈ r.headers, hasForbiddenByte h.value = false

theorem hasForbiddenByte_eq_false_iff {s : String} :
    hasForbiddenByte s = false ↔ cr ∉ utf8 s ∧ lf ∉ utf8 s ∧ 0 ∉ utf8 s := by
  unfold hasForbiddenByte
  rw [List.any_eq_false]
  constructor
  · intro h
    exact ⟨fun hmem => h cr hmem (by decide), fun hmem => h lf hmem (by decide),
      fun hmem => h 0 hmem (by decide)⟩
  · intro h b hb hforbidden
    simp only [Bool.or_eq_true, beq_iff_eq] at hforbidden
    rcases hforbidden with (rfl | rfl) | rfl
    · exact h.1 hb
    · exact h.2.1 hb
    · exact h.2.2 hb

/-! ## Lines -/

/-- The bytes that the parser does not look for. -/
def Unscanned (b : UInt8) : Prop := b = lf ∨ b = 0

section Lines

variable {b : UInt8}

theorem Unscanned.ne_sp (hb : Unscanned b) : b ≠ sp ∧ b ≠ colon := by
  rcases hb with rfl | rfl <;> decide

theorem Unscanned.not_mem_token (hb : Unscanned b) {bs : Bytes} (h : bs.all isTokenByte = true) :
    b ∉ bs := by
  intro hmem
  have htok := List.all_eq_true.mp h b hmem
  rcases hb with rfl | rfl <;> revert htok <;> decide

theorem Unscanned.not_mem_method (hb : Unscanned b) (m : Method) : b ∉ utf8 m.asStr := by
  rcases hb with rfl | rfl <;> cases m <;> decide

theorem Unscanned.not_mem_version (hb : Unscanned b) {tok major minor : Bytes} {version : Version}
    (h : VersionToken tok version major minor) : b ∉ tok := by
  have hdigit : isAsciiDigit b = false := by
    rcases hb with rfl | rfl <;> decide
  have hslash : b ∉ utf8 "HTTP/" := by
    rcases hb with rfl | rfl <;> decide
  have hdot : b ≠ dot := by
    rcases hb with rfl | rfl <;> decide
  rw [h.shape]
  intro hmem
  simp only [List.mem_append, List.mem_cons] at hmem
  rcases hmem with hmem | hmem | hmem | hmem
  · exact hslash hmem
  · exact not_mem_of_all_digits h.majorDigits.2 hdigit hmem
  · exact hdot hmem
  · exact not_mem_of_all_digits h.minorDigits.2 hdigit hmem

/-- In a request line, such a byte is in the target. -/
theorem RequestLine.mem_iff {line versionTok : Bytes} {method : Method} {target : String}
    {version : Version} (h : RequestLine line method target version versionTok) (hb : Unscanned b) :
    b ∈ line ↔ b ∈ utf8 target := by
  rcases h.versionOk with ⟨major, minor, hversion⟩
  rw [h.shape]
  simp only [List.mem_append, List.mem_cons, hb.not_mem_method method, hb.ne_sp.1,
    hb.not_mem_version hversion, false_or, or_false]

/-- Trimming takes no such byte away. -/
theorem Unscanned.mem_trimOws_iff (hb : Unscanned b) (raw : Bytes) : b ∈ trimOws raw ↔ b ∈ raw := by
  have hows : isOws b = false := by
    rcases hb with rfl | rfl <;> decide
  have hout : ∀ pad : Bytes, (∀ c ∈ pad, isOws c = true) → b ∉ pad := by
    intro pad hpad hmem
    rw [hpad b hmem] at hows
    cases hows
  rcases trimWith_split (p := isOws) raw with ⟨pre, post, hraw, hpre, hpost⟩
  have hmem : b ∈ raw ↔ b ∈ pre ++ trimOws raw ++ post := by
    rw [trimOws, ← hraw]
  rw [hmem]
  simp only [List.mem_append, hout pre hpre, hout post hpost, false_or, or_false]

/-- In a header line, such a byte is in the value. -/
theorem HeaderLine.mem_iff {line raw : Bytes} {h : Header} (hl : HeaderLine line h raw)
    (hb : Unscanned b) : b ∈ line ↔ b ∈ utf8 h.value := by
  rw [hl.shape, hl.value, hb.mem_trimOws_iff]
  simp only [List.mem_append, List.mem_cons, hb.not_mem_token hl.nameToken, hb.ne_sp.2, false_or]

end Lines

/-! ## Requests -/

section Requests

variable {t : Target} {buf : Bytes} {maxBody i consumed : Nat} {h : Head} {request : Request}

theorem headLines_eq (hh : HeadAt t buf i h) : ∃ line lines, headLines buf = line :: lines ∧
    HeadParts t (buf.take (i + 4)) h line lines ∧ ∀ l ∈ line :: lines, cr ∉ l := by
  rcases parseHead_eq_ok_iff.mp hh.head with ⟨line, lines, hp⟩
  refine ⟨line, lines, ?_, hp, (headParts_lines hh hp).2⟩
  have hsplit := hp.split
  rw [take_take_head hh.end_le] at hsplit
  rw [headLines, (findSubslice_eq_some blankLine_ne_nil).mpr hh.blank]
  exact hsplit

/-- The header lines and the values have the same bytes among those the parser does not
look for. -/
theorem not_mem_lines_iff {lines : List Bytes} {headers : List Header} {b : UInt8}
    (hb : Unscanned b)
    (h : List.Forall₂ (fun line g => parseHeaderLine line = .ok g) lines headers) :
    (∀ line ∈ lines, b ∉ line) ↔ ∀ g ∈ headers, b ∉ utf8 g.value := by
  induction h with
  | nil => simp
  | cons hline _ ih =>
    rcases parseHeaderLine_eq_ok_iff.mp hline with ⟨raw, hl⟩
    rw [List.forall_mem_cons, List.forall_mem_cons, hl.mem_iff hb, ih]

/-- What is in no line is in no value. -/
theorem not_mem_values {lines : List Bytes} {headers : List Header} {b : UInt8}
    (h : List.Forall₂ (fun line g => parseHeaderLine line = .ok g) lines headers)
    (hlines : ∀ line ∈ lines, b ∉ line) : ∀ g ∈ headers, b ∉ utf8 g.value := by
  induction h with
  | nil => simp
  | @cons line g _ _ hline _ ih =>
    rw [List.forall_mem_cons] at hlines ⊢
    refine ⟨?_, ih hlines.2⟩
    intro hmem
    rcases parseHeaderLine_eq_ok_iff.mp hline with ⟨raw, hl⟩
    apply hlines.1
    rw [hl.value] at hmem
    rw [hl.shape]
    simp [mem_of_mem_trimWith hmem]

/-- The lines of an accepted head have a byte that the parser does not look for exactly
when the target or a value has it. -/
theorem not_mem_headLines_iff {b : UInt8} (hb : Unscanned b) (hh : HeadAt t buf i h) :
    (∀ line ∈ headLines buf, b ∉ line) ↔
      b ∉ utf8 h.target ∧ ∀ g ∈ h.headers, b ∉ utf8 g.value := by
  rcases headLines_eq hh with ⟨line, lines, hlines, hp, _⟩
  rcases parseRequestLine_eq_ok_iff.mp hp.requestLine with ⟨versionTok, hline⟩
  rcases (parseHeaders_eq_ok_iff (Nat.zero_le _)).mp hp.headers with ⟨new, hnew, _, hall⟩
  rw [List.nil_append] at hnew
  rw [hlines, List.forall_mem_cons, hline.mem_iff hb, not_mem_lines_iff hb hall, hnew]

/-- The target and the values of an accepted head have no CR. -/
theorem cr_not_mem_head (hh : HeadAt t buf i h) :
    cr ∉ utf8 h.target ∧ ∀ g ∈ h.headers, cr ∉ utf8 g.value := by
  rcases headLines_eq hh with ⟨line, lines, _, hp, hcr⟩
  rcases parseRequestLine_eq_ok_iff.mp hp.requestLine with ⟨versionTok, hline⟩
  constructor
  · intro hmem
    apply hcr line List.mem_cons_self
    rw [hline.shape]
    simp [hmem]
  · rcases (parseHeaders_eq_ok_iff (Nat.zero_le _)).mp hp.headers with ⟨new, hnew, _, hall⟩
    rw [hnew, List.nil_append]
    exact not_mem_values hall fun l hl => hcr l (List.mem_cons_of_mem _ hl)

/-- An accepted request stays on one line exactly when its head is clean. -/
theorem oneLine_iff (hbuf : Addressable t buf)
    (hp : parseWith t buf maxBody = .ok (.complete request consumed)) :
    request.OneLine ↔ CleanHead buf := by
  rcases (parseWith_eq_complete_iff hbuf).mp hp with ⟨i, h, body, hh, rfl, _⟩
  have hlf := not_mem_headLines_iff (Or.inl rfl) hh
  have hnul := not_mem_headLines_iff (Or.inr rfl) hh
  rcases cr_not_mem_head hh with ⟨htarget, hvalues⟩
  constructor
  · intro hone
    have hline := hasForbiddenByte_eq_false_iff.mp hone.1
    intro line hmem
    refine ⟨hlf.mpr ⟨hline.2.1, ?_⟩ line hmem, hnul.mpr ⟨hline.2.2, ?_⟩ line hmem⟩
    · intro g hg
      exact (hasForbiddenByte_eq_false_iff.mp (hone.2 g hg)).2.1
    · intro g hg
      exact (hasForbiddenByte_eq_false_iff.mp (hone.2 g hg)).2.2
  · intro hclean
    have hlf' := hlf.mp fun line hmem => (hclean line hmem).1
    have hnul' := hnul.mp fun line hmem => (hclean line hmem).2
    constructor
    · exact hasForbiddenByte_eq_false_iff.mpr ⟨htarget, hlf'.1, hnul'.1⟩
    · intro g hg
      exact hasForbiddenByte_eq_false_iff.mpr ⟨hvalues g hg, hlf'.2 g hg, hnul'.2 g hg⟩

/-- A target that ends the log line and starts another. -/
def forgingGet : Bytes := utf8 "GET /a\n::1 HTTP/1.1\r\nHost: h\r\n\r\n"

def forgingRequest : Request := ⟨.get, "/a\n::1", .http11, [⟨"Host", "h"⟩], []⟩

set_option maxRecDepth 10000 in
theorem forgingGet_parse : parseWith ⟨.w64, false⟩ forgingGet 16 =
    .ok (.complete forgingRequest 32) := by decide

theorem forgingGet_injects :
    parseWith ⟨.w64, false⟩ forgingGet 16 = .ok (.complete forgingRequest 32) ∧
      ¬ forgingRequest.OneLine := by
  refine ⟨forgingGet_parse, ?_⟩
  intro hone
  exact absurd hone.1 (by decide)

theorem forgingGet_oneLine_iff : forgingRequest.OneLine ↔ CleanHead forgingGet :=
  oneLine_iff (by decide) forgingGet_parse

end Requests

end FerroHttp
