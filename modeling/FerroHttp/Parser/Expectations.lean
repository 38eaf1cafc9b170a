import FerroHttp.Parser.Soundness

/-!
# Parser.Expectations — two readings of `Expect`

`expectAction` scans the raw lines of the head, before there is a request to look at.
On an accepted head it finds what the parsed headers say: `HeadAt.expectAction_eq`.
-/

namespace FerroHttp

open Exec Text Search

/-- What the first `Expect` among parsed headers requires. -/
def expectOfHeaders (headers : List Header) : ExpectAction :=
  match headers.find? (Header.named "expect") with
  | none => .none
  | some h =>
    if eqIgnoreAsciiCase (utf8 h.value) (utf8 "100-continue") then .continue else .unsupported

section Expectations

variable {t : Target} {buf : Bytes} {i : Nat} {h : Head}

/-- A header line is scanned for its name and value as it is parsed. -/
theorem expectOfLines_cons {line : Bytes} {g : Header} (hp : parseHeaderLine line = .ok g)
    (lines : List Bytes) : expectOfLines (line :: lines) =
      if g.named "expect" then
        if eqIgnoreAsciiCase (utf8 g.value) (utf8 "100-continue") then .continue else .unsupported
      else expectOfLines lines := by
  rcases parseHeaderLine_eq_ok_iff.mp hp with ⟨raw, hl⟩
  have hcolon : line.findIdx? (· == colon) = some (utf8 g.name).length :=
    findIdx?_beq_eq_some_iff.mpr ⟨utf8 g.name, raw, hl.shape, hl.colon_not_mem, rfl⟩
  have hname : line.take (utf8 g.name).length = utf8 g.name := by
    rw [hl.shape, List.take_left]
  have hraw : line.drop ((utf8 g.name).length + 1) = raw := by
    rw [hl.shape, List.drop_length_add_append]
    rfl
  rw [expectOfLines, hcolon]
  simp only [hname, hraw, hl.value, Header.named]

theorem expectOfLines_eq {lines : List Bytes} {headers : List Header}
    (h : List.Forall₂ (fun line g => parseHeaderLine line = .ok g) lines headers) :
    expectOfLines lines = expectOfHeaders headers := by
  induction h with
  | nil => rfl
  | @cons line g lines headers hline _ ih =>
    rw [expectOfLines_cons hline, ih]
    unfold expectOfHeaders
    cases hnamed : g.named "expect" with
    | true => rw [if_pos rfl, List.find?_cons_of_pos hnamed]
    | false =>
      rw [if_neg Bool.false_ne_true, List.find?_cons_of_neg]
      rw [hnamed]
      exact Bool.false_ne_true

/-- On an accepted head the raw scan agrees with the parsed headers. -/
theorem HeadAt.expectAction_eq (hh : HeadAt t buf i h) :
    expectAction buf = expectOfHeaders h.headers := by
  rcases parseHead_eq_ok_iff.mp hh.head with ⟨line, lines, hp⟩
  have hsplit := hp.split
  rw [take_take_head hh.end_le] at hsplit
  rcases (parseHeaders_eq_ok_iff (Nat.zero_le _)).mp hp.headers with ⟨new, hnew, _, hall⟩
  rw [List.nil_append] at hnew
  rw [expectAction, (findSubslice_eq_some blankLine_ne_nil).mpr hh.blank]
  simp only [hsplit, List.tail_cons]
  rw [hnew]
  exact expectOfLines_eq hall

/-- Without a blank line there is nothing to scan. -/
theorem expectAction_open (hno : ¬ crlf ++ crlf <:+: buf) : expectAction buf = .none := by
  rw [expectAction, (findSubslice_eq_none blankLine_ne_nil).mpr hno]

/-- An open request with a blank line has an accepted head. -/
theorem exists_headAt_of_partial {maxBody : Nat} (hbuf : Addressable t buf)
    (hp : parseWith t buf maxBody = .ok .partialRequest) (hblank : crlf ++ crlf <:+: buf) :
    ∃ i h, HeadAt t buf i h := by
  rcases head_cases t buf with hno | ⟨i, hi, hlarge⟩ | ⟨i, e, hi, hlimit, he⟩ | hhead
  · exact absurd hblank hno
  · rw [parseWith_tooLarge hbuf hi hlarge] at hp
    cases hp
  · rw [parseWith_badHead hbuf hi hlimit he] at hp
    cases hp
  · exact hhead

end Expectations

end FerroHttp
