import FerroHttp.Http.Request

/-!
# Parser.Lines — delimiters, lines and CRs

What the scanning functions of the request parser compute, in terms of first
occurrences (`Search.FirstAt`):

* `findSubslice_eq_some` / `findSubslice_eq_none`: the substring search;
* `splitCrlf_eq`: one line at a time; `joinCrlf_splitCrlf` and
  `splitCrlf_joinCrlf`: splitting undoes joining and the other way round;
* `not_mem_cr_of_mem_splitCrlf`: no line of a head that passed the bare-CR check
  contains a CR.
-/

namespace FerroHttp

open Exec Text Search

/-! ## Substring search -/

theorem findSubslice_eq_some {haystack needle : Bytes} {i : Nat} (hne : needle ≠ []) :
    findSubslice haystack needle = some i ↔ FirstAt needle haystack i := by
  unfold findSubslice
  by_cases hlen : haystack.length < needle.length
  · simp only [hlen, decide_true, Bool.or_true, if_true, reduceCtorEq, false_iff]
    intro h
    have hend := h.end_le hne
    omega
  · have hempty : needle.isEmpty = false := by simpa using hne
    simp only [hempty, hlen, decide_false, Bool.or_false, Bool.false_eq_true, if_false]
    exact findIdx?_windows hne haystack i

theorem findSubslice_eq_none {haystack needle : Bytes} (hne : needle ≠ []) :
    findSubslice haystack needle = none ↔ ¬ needle <:+: haystack := by
  rw [← exists_firstAt_iff]
  constructor
  · rintro h ⟨i, hi⟩
    rw [(findSubslice_eq_some hne).mpr hi] at h
    cases h
  · intro h
    cases hf : findSubslice haystack needle with
    | none => rfl
    | some i => exact absurd ⟨i, (findSubslice_eq_some hne).mp hf⟩ h

theorem findSubslice_end_le {haystack needle : Bytes} {i : Nat} (hne : needle ≠ [])
    (h : findSubslice haystack needle = some i) : i + needle.length ≤ haystack.length :=
  ((findSubslice_eq_some hne).mp h).end_le hne

theorem findSubslice_crlf_of_not_mem {line rest : Bytes} (h : cr ∉ line) :
    findSubslice (line ++ crlf ++ rest) crlf = some line.length :=
  (findSubslice_eq_some crlf_ne_nil).mpr (FirstAt.of_not_mem h)

theorem not_crlf_infix_of_not_mem {line : Bytes} (h : cr ∉ line) : ¬ crlf <:+: line := by
  intro hin
  exact h (hin.subset (by simp [crlf]))

/-- Text without a CRLF gets its first one from the CRLF that ends it. -/
theorem firstAt_append_crlf {l : Bytes} (hno : ¬ crlf <:+: l) :
    FirstAt crlf (l ++ crlf) l.length := by
  refine ⟨by rw [List.drop_left], ?_⟩
  intro j hj hocc
  by_cases hin : j + 2 ≤ l.length
  · have hinside := (prefix_drop_append_iff (by rw [length_crlf]; exact hin)).mp hocc
    exact hno (hinside.isInfix.trans (List.drop_suffix j l).isInfix)
  · -- an occurrence at the last byte would need two CRs
    have hone : (l.drop j).length = 1 := by
      rw [List.length_drop]
      omega
    rw [List.drop_append_of_le_length (by omega)] at hocc
    rcases List.length_eq_one_iff.mp hone with ⟨x, hx⟩
    rw [hx] at hocc
    simp [crlf, cr, lf] at hocc

/-- A CRLF that starts at the last byte of `l` is completed by an LF. -/
theorem firstAt_append_lf {l ext : Bytes} {n : Nat} (h : FirstAt crlf (l ++ ext) n)
    (hlast : n + 1 = l.length) : FirstAt crlf (l ++ [lf]) n ∧ ∃ more, ext = lf :: more := by
  have hdrop : (l ++ ext).drop n = l.drop n ++ ext := List.drop_append_of_le_length (by omega)
  have hone : (l.drop n).length = 1 := by
    rw [List.length_drop]
    omega
  rcases List.length_eq_one_iff.mp hone with ⟨x, hx⟩
  have hocc := h.1
  rw [hdrop, hx] at hocc
  rcases hocc with ⟨more, hmore⟩
  have hext : ext = lf :: more := (List.cons.inj hmore).2.symm
  have hcut : l ++ ext = (l ++ [lf]) ++ more := by
    rw [hext, List.append_assoc]
    rfl
  rw [hcut] at h
  refine ⟨h.of_append ?_, more, hext⟩
  rw [length_crlf, List.length_append, List.length_singleton]
  omega

/-! ## Lines -/

/-- Behind a line the block is shorter. -/
theorem length_drop_line_lt {block : Bytes} {i : Nat} (hf : findSubslice block crlf = some i) :
    (block.drop (i + 2)).length < block.length := by
  have hend := findSubslice_end_le crlf_ne_nil hf
  rw [length_crlf] at hend
  rw [List.length_drop]
  omega

theorem splitCrlfLines_of_lt {n m : Nat} {block : Bytes} (hn : block.length < n)
    (hm : block.length < m) : splitCrlfLines n block = splitCrlfLines m block := by
  induction n generalizing m block with
  | zero => omega
  | succ n ih =>
    cases m with
    | zero => omega
    | succ m =>
      unfold splitCrlfLines
      cases hf : findSubslice block crlf with
      | none => rfl
      | some i =>
        have hlen := length_drop_line_lt hf
        simp only
        rw [ih (m := m) (by omega) (by omega)]

/-- Splitting, one line at a time. -/
theorem splitCrlf_eq (block : Bytes) :
    splitCrlf block =
      match findSubslice block crlf with
      | some i => block.take i :: splitCrlf (block.drop (i + 2))
      | none => [block] := by
  cases hf : findSubslice block crlf with
  | none => simp [splitCrlf, splitCrlfLines, hf]
  | some i =>
    have hlen := length_drop_line_lt hf
    simp only [splitCrlf]
    rw [splitCrlfLines, hf]
    simp only
    rw [splitCrlfLines_of_lt (n := block.length) (m := (block.drop (i + 2)).length + 1) hlen
      (by omega)]

theorem splitCrlf_ne_nil (block : Bytes) : splitCrlf block ≠ [] := by
  rw [splitCrlf_eq]
  cases findSubslice block crlf <;> simp

/-- Lines joined by CRLF. -/
def joinCrlf : List Bytes → Bytes
  | [] => []
  | [line] => line
  | line :: lines => line ++ crlf ++ joinCrlf lines

theorem joinCrlf_cons {line : Bytes} {lines : List Bytes} (h : lines ≠ []) :
    joinCrlf (line :: lines) = line ++ crlf ++ joinCrlf lines := by
  cases lines with
  | nil => exact absurd rfl h
  | cons l ls => rfl

/-- Strong induction along the lines of a block. -/
theorem splitCrlf_induction {P : Bytes → Prop}
    (last : ∀ block, findSubslice block crlf = none → P block)
    (line : ∀ block i, findSubslice block crlf = some i → P (block.drop (i + 2)) → P block)
    (block : Bytes) : P block := by
  induction hn : block.length using Nat.strong_induction_on generalizing block with
  | _ n ih =>
    cases hf : findSubslice block crlf with
    | none => exact last block hf
    | some i =>
      refine line block i hf (ih _ ?_ _ rfl)
      rw [← hn]
      exact length_drop_line_lt hf

/-- Joining the lines of a block gives the block back. -/
theorem joinCrlf_splitCrlf (block : Bytes) : joinCrlf (splitCrlf block) = block := by
  induction block using splitCrlf_induction with
  | last block hf =>
    rw [splitCrlf_eq, hf]
    rfl
  | line block i hf ih =>
    rw [splitCrlf_eq, hf]
    simp only
    rw [joinCrlf_cons (splitCrlf_ne_nil _), ih]
    exact ((findSubslice_eq_some crlf_ne_nil).mp hf).split.symm

/-- Splitting joined lines gives the lines back, when none contains a CR. -/
theorem splitCrlf_joinCrlf {lines : List Bytes} (hne : lines ≠ [])
    (hcr : ∀ line ∈ lines, cr ∉ line) : splitCrlf (joinCrlf lines) = lines := by
  induction lines with
  | nil => exact absurd rfl hne
  | cons line lines ih =>
    cases lines with
    | nil =>
      have hno := not_crlf_infix_of_not_mem (hcr line (by simp))
      rw [joinCrlf, splitCrlf_eq, (findSubslice_eq_none crlf_ne_nil).mpr hno]
    | cons l ls =>
      have hline : cr ∉ line := hcr line (by simp)
      rw [joinCrlf_cons (by simp), splitCrlf_eq, findSubslice_crlf_of_not_mem hline]
      have htake : (line ++ crlf ++ joinCrlf (l :: ls)).take line.length = line := by simp
      have hdrop : (line ++ crlf ++ joinCrlf (l :: ls)).drop (line.length + 2) =
          joinCrlf (l :: ls) := by
        rw [← List.drop_drop, List.append_assoc, List.drop_left]
        rfl
      simp only [htake, hdrop]
      rw [ih (by simp) (fun x hx => hcr x (List.mem_cons_of_mem _ hx))]

/-! ## Bare CRs -/

theorem hasBareCr_append_right {a b : Bytes} (h : hasBareCr (a ++ b) = false) :
    hasBareCr b = false := by
  induction a with
  | nil => simpa using h
  | cons x xs ih =>
    rw [List.cons_append, hasBareCr, Bool.or_eq_false_iff] at h
    exact ih h.2

/-- Before a CR, a stretch without CRLF and without a bare CR has no CR at all. -/
theorem not_mem_cr_of_hasBareCr {line rest : Bytes}
    (hbare : hasBareCr (line ++ cr :: rest) = false) (hno : ¬ crlf <:+: line) : cr ∉ line := by
  induction line with
  | nil => simp
  | cons b line ih =>
    have htail : cr ∉ line := by
      refine ih ?_ ?_
      · exact hasBareCr_append_right (a := [b]) hbare
      · intro hin
        exact hno (hin.trans (List.suffix_cons b line).isInfix)
    rw [List.cons_append, hasBareCr, Bool.or_eq_false_iff] at hbare
    rcases hbare with ⟨hhead, _⟩
    intro hmem
    rcases List.mem_cons.mp hmem with rfl | hin
    · -- a CR here would be followed by an LF of the line: a CRLF inside it
      cases line with
      | nil => simp [cr, lf] at hhead
      | cons c line =>
        have hc : c = lf := by simpa using hhead
        subst hc
        exact hno ⟨[], line, by simp [crlf]⟩
    · exact htail hin

theorem not_mem_cr_of_mem_splitCrlf {block rest : Bytes}
    (hbare : hasBareCr (block ++ cr :: rest) = false) :
    ∀ line ∈ splitCrlf block, cr ∉ line := by
  induction block using splitCrlf_induction with
  | last block hf =>
    rw [splitCrlf_eq, hf]
    intro line hline
    rw [List.mem_singleton.mp hline]
    exact not_mem_cr_of_hasBareCr hbare ((findSubslice_eq_none crlf_ne_nil).mp hf)
  | line block i hf ih =>
    have hfirst := (findSubslice_eq_some crlf_ne_nil).mp hf
    have hsplit := hfirst.split
    rw [splitCrlf_eq, hf]
    intro line hline
    rcases List.mem_cons.mp hline with rfl | hmem
    · -- the line is followed by its own CRLF, whose CR the scan has seen
      have hnext : hasBareCr (block.take i ++
          cr :: (lf :: (block.drop (i + crlf.length) ++ cr :: rest))) = false := by
        rw [hsplit] at hbare
        simpa [crlf] using hbare
      refine not_mem_cr_of_hasBareCr hnext ?_
      intro hin
      rcases exists_firstAt_iff.mpr hin with ⟨j, hj⟩
      have hend := hj.end_le crlf_ne_nil
      have hext : FirstAt crlf (block.take i ++ block.drop i) j := hj.append crlf_ne_nil
      rw [List.take_append_drop] at hext
      have hij := hfirst.unique hext
      rw [List.length_take, length_crlf] at hend
      omega
    · refine ih ?_ line hmem
      rw [hsplit] at hbare
      rw [List.append_assoc] at hbare
      exact hasBareCr_append_right hbare

/-- Text without CR, then a CRLF-only rest, has no bare CR. -/
theorem hasBareCr_of_not_mem {line rest : Bytes} (h : cr ∉ line) :
    hasBareCr (line ++ rest) = hasBareCr rest := by
  induction line with
  | nil => rfl
  | cons b line ih =>
    have hb : (b == cr) = false := by
      rw [beq_eq_false_iff_ne]
      rintro rfl
      exact h (by simp)
    rw [List.cons_append, hasBareCr, hb, ih (fun hm => h (List.mem_cons_of_mem _ hm))]
    simp

@[simp] theorem hasBareCr_crlf_append (rest : Bytes) :
    hasBareCr (crlf ++ rest) = hasBareCr rest := by
  simp [crlf, hasBareCr, cr, lf]

theorem hasBareCr_joinCrlf_append {lines : List Bytes} {rest : Bytes}
    (hcr : ∀ line ∈ lines, cr ∉ line) : hasBareCr (joinCrlf lines ++ rest) = hasBareCr rest := by
  induction lines with
  | nil => rfl
  | cons line lines ih =>
    have hline : cr ∉ line := hcr line (by simp)
    cases lines with
    | nil => exact hasBareCr_of_not_mem hline
    | cons l ls =>
      rw [joinCrlf_cons (by simp), List.append_assoc, List.append_assoc,
        hasBareCr_of_not_mem hline, hasBareCr_crlf_append]
      exact ih (fun x hx => hcr x (List.mem_cons_of_mem _ hx))

end FerroHttp
