import FerroHttp.Http.Ranges

/-!
# Http.RangeForms — which `Range` values are ignored

The form of a single range is `bytes=` and two numbers around a dash, one of which may be
missing. Any other value is to be ignored, whatever the length of the body. The parser
reads numbers with a plus sign, and it rejects a start behind the body before it has read
the last number.

1. `Dashed.parseSingleRange`: the parser sees the two trimmed texts around the first dash;
2. `ignoresUnparsable_iff`: the values for which the rule holds.
-/

namespace FerroHttp

open Exec Text

/-! ## Forms -/

/-- The text is a decimal numeral. -/
def IsNumber (s : String) : Prop := ∃ n, IsDecimal s n

/-- `first-`, `first-last` or `-last`. -/
def RangeSpec (first last : String) : Prop :=
  (IsNumber first ∧ (last = "" ∨ IsNumber last)) ∨ (first = "" ∧ IsNumber last)

/-- The form of a single range; white space may stand around its numbers. -/
def RangeForm (value : String) : Prop :=
  ∃ before after, value = "bytes=" ++ (before ++ "-" ++ after) ∧ RangeSpec (trim before) (trim after)

/-- The value announces one range, whose first dash stands behind `before`. -/
structure Dashed (value before after : String) : Prop where
  eq : value = "bytes=" ++ (before ++ "-" ++ after)
  first : '-' ∉ before.toList
  single : ',' ∉ before.toList ∧ ',' ∉ after.toList

section Forms

variable {value before after before' after' : String}

/-- What trims to a number or to nothing has no separator in it. -/
theorem not_mem_of_trim {s : String} (h : trim s = "" ∨ IsNumber (trim s)) {c : Char}
    (hdigit : c.isDigit = false) (hblank : isWhitespace c = false) : c ∉ s.toList := by
  intro hmem
  have hkept : c ∈ (trim s).toList := by
    rw [trim, String.toList_ofList, mem_trimWith_iff hblank]
    exact hmem
  rcases h with hempty | ⟨n, hdecimal⟩
  · rw [hempty] at hkept
    exact List.not_mem_nil hkept
  · exact hdecimal.not_mem hdigit hkept

theorem RangeSpec.empty_or_number {first last : String} (h : RangeSpec first last) :
    (first = "" ∨ IsNumber first) ∧ (last = "" ∨ IsNumber last) := by
  rcases h with ⟨hfirst, hlast⟩ | ⟨hfirst, hlast⟩
  · exact ⟨.inr hfirst, hlast⟩
  · exact ⟨.inl hfirst, .inr hlast⟩

/-- A form has one dash, and no comma. -/
theorem RangeForm.dashed (h : RangeForm value) :
    ∃ before after, Dashed value before after ∧ RangeSpec (trim before) (trim after) := by
  obtain ⟨before, after, heq, hspec⟩ := h
  obtain ⟨hbefore, hafter⟩ := hspec.empty_or_number
  refine ⟨before, after, ⟨heq, ?_, ?_, ?_⟩, hspec⟩
  · exact not_mem_of_trim hbefore rfl (by decide)
  · exact not_mem_of_trim hbefore rfl (by decide)
  · exact not_mem_of_trim hafter rfl (by decide)

/-- A value has one first dash. -/
theorem Dashed.unique (h : Dashed value before after) (h' : Dashed value before' after') :
    before = before' ∧ after = after' := by
  have heq := h.eq.symm.trans h'.eq
  rw [String.append_right_inj] at heq
  have hlists := congrArg String.toList heq
  simp only [String.toList_append, List.append_assoc] at hlists
  obtain ⟨hbefore, hafter⟩ := append_cons_inj hlists h.first h'.first
  exact ⟨String.toList_inj.mp hbefore, String.toList_inj.mp hafter⟩

theorem Dashed.rangeForm_iff (h : Dashed value before after) :
    RangeForm value ↔ RangeSpec (trim before) (trim after) := by
  constructor
  · intro hform
    obtain ⟨before', after', h', hspec⟩ := hform.dashed
    obtain ⟨rfl, rfl⟩ := h.unique h'
    exact hspec
  · intro hspec
    exact ⟨before, after, h.eq, hspec⟩

end Forms

/-! ## Parsing -/

/-- What the two texts around a dash ask of a body. -/
def resolveRange (first last : String) (len : Nat) : Option RangeOutcome := do
  if first.isEmpty then
    let n ← parseUnsigned u64Values last
    if n = 0 ∨ len = 0 then some .unsatisfiable
    else some (.satisfiable (len - min n len) (len - 1))
  else
    let start ← parseUnsigned u64Values first
    if len ≤ start then some .unsatisfiable
    else if last.isEmpty then some (.satisfiable start (len - 1))
    else
      let requested ← parseUnsigned u64Values last
      if requested < start then some .unsatisfiable
      else some (.satisfiable start (min requested (len - 1)))

section Parsing

variable {value before after : String}

/-- Trimming around a dash trims each side. -/
theorem trim_dashed (before after : String) (hdash : '-' ∉ before.toList) :
    ∃ first last, trim (before ++ "-" ++ after) = first ++ "-" ++ last ∧ '-' ∉ first.toList ∧
      trim first = trim before ∧ trim last = trim after := by
  refine ⟨String.ofList (before.toList.dropWhile isWhitespace),
    String.ofList (after.toList.rdropWhile isWhitespace), ?_, ?_, ?_, ?_⟩
  · have hlist : (before ++ "-" ++ after).toList = before.toList ++ '-' :: after.toList := by
      rw [String.toList_append, String.toList_append, List.append_assoc]
      rfl
    apply String.toList_inj.mp
    rw [trim, hlist, trimWith_append_cons (by decide), String.toList_append, String.toList_append]
    simp
  · rw [String.toList_ofList]
    intro hmem
    exact hdash ((List.dropWhile_sublist isWhitespace).mem hmem)
  · rw [trim, String.toList_ofList, trimWith_dropWhile]
    rfl
  · rw [trim, String.toList_ofList, trimWith_rdropWhile]
    rfl

/-- The parser sees the two trimmed texts around the first dash. -/
theorem Dashed.parseSingleRange (h : Dashed value before after) (len : Nat) :
    parseSingleRange value len = resolveRange (trim before) (trim after) len := by
  obtain ⟨first, last, htrim, hdash, hfirst, hlast⟩ := trim_dashed before after h.first
  have hcomma : (first ++ "-" ++ last).toList.contains ',' = false := by
    have hnot : ',' ∉ (before ++ "-" ++ after).toList := by
      simp [String.toList_append, h.single.1, h.single.2]
    rw [← htrim, List.contains_eq_mem, decide_eq_false_iff_not, trim, String.toList_ofList,
      mem_trimWith_iff (by decide)]
    exact hnot
  have hcut : splitOnce '-' (first ++ "-" ++ last) = some (first, last) :=
    splitOnce_append rfl hdash last
  rw [h.eq]
  simp only [FerroHttp.parseSingleRange, stripPrefix_append, Option.bind_eq_bind, Option.bind_some,
    htrim, hcomma, hcut, hfirst, hlast, Bool.false_eq_true, if_false]
  rfl

/-- Without a dash, or with a comma, nothing is parsed. -/
theorem parseSingleRange_eq_none (h : ∀ before after, ¬ Dashed value before after) (len : Nat) :
    FerroHttp.parseSingleRange value len = none := by
  cases hstrip : stripPrefix "bytes=" value with
  | none => simp only [FerroHttp.parseSingleRange, hstrip, Option.bind_eq_bind, Option.bind_none]
  | some rest =>
    simp only [FerroHttp.parseSingleRange, hstrip, Option.bind_eq_bind, Option.bind_some]
    split
    · rfl
    · rename_i hcomma
      have hcomma' : ',' ∉ rest.toList := by
        rw [List.contains_eq_mem, decide_eq_true_eq, trim, String.toList_ofList,
          mem_trimWith_iff (by decide)] at hcomma
        exact hcomma
      have hdash : '-' ∉ (trim rest).toList := by
        intro hmem
        rw [trim, String.toList_ofList, mem_trimWith_iff (by decide)] at hmem
        obtain ⟨before, after, hrest, hfirst⟩ := List.eq_append_cons_of_mem hmem
        rw [hrest, List.mem_append, List.mem_cons, not_or, not_or] at hcomma'
        have heq : rest = String.ofList before ++ "-" ++ String.ofList after := by
          apply String.toList_inj.mp
          simp [hrest]
        refine h (String.ofList before) (String.ofList after) ⟨?_, ?_, ?_, ?_⟩
        · rw [stripPrefix_eq_some hstrip, heq]
        · rw [String.toList_ofList]
          exact hfirst
        · rw [String.toList_ofList]
          exact hcomma'.1
        · rw [String.toList_ofList]
          exact hcomma'.2.2
      have hcut : splitOnce '-' (trim rest) = none := by
        rw [splitOnce, findIdx?_beq_eq_none_iff.mpr hdash]
      rw [hcut]
      rfl

end Parsing

/-! ## Outcomes -/

/-- What the parser lets through, of the texts around the dash, for bodies of up to
`maxLen` bytes. -/
inductive LetThrough (maxLen : Nat) : String → String → Prop where
  /-- `-+5` -/
  | signedSuffix {last : String} {n : Nat} :
      IsSigned last n → n < u64Values → LetThrough maxLen "" last
  /-- `+5-`, whatever follows -/
  | signedFirst {first last : String} {n : Nat} :
      IsSigned first n → n < u64Values → LetThrough maxLen first last
  /-- `5-x`, of a body of up to five bytes -/
  | unreadLast {first last : String} {n : Nat} :
      IsDecimal first n → n < u64Values → last ≠ "" → ¬ IsNumber last → LetThrough maxLen first last
  /-- a last number that does not fit, read for the longer bodies only -/
  | hugeLast {first last : String} {n m : Nat} :
      IsDecimal first n → n < u64Values → n < maxLen → IsDecimal last m → u64Values ≤ m →
        LetThrough maxLen first last

section Outcomes

variable {first last : String} {len maxLen n m : Nat}

theorem u64Values_pos : 0 < u64Values := by decide

/-- A signed text is no number, and not empty. -/
theorem not_number_of_signed {s : String} (h : IsSigned s n) : ¬ IsNumber s ∧ s ≠ "" := by
  obtain ⟨digits, rfl, _⟩ := h
  have hplus : '+' ∈ ("+" ++ digits).toList := by simp
  refine ⟨?_, ?_⟩
  · intro hnumber
    obtain ⟨m, hdecimal⟩ := hnumber
    exact hdecimal.not_mem rfl hplus
  · intro hempty
    rw [hempty] at hplus
    exact List.not_mem_nil hplus

theorem IsNumber.ne_empty {s : String} (h : IsNumber s) : s ≠ "" := by
  obtain ⟨n, hdecimal⟩ := h
  intro hempty
  exact hdecimal.nonempty (by rw [hempty]; rfl)

theorem parse_of_number {s : String} (h : IsDecimal s n ∨ IsSigned s n) (hn : n < u64Values) :
    parseUnsigned u64Values s = some n :=
  (IsDecimal.parseUnsigned_eq_some_iff u64Values_pos).mpr ⟨h, hn⟩

theorem resolveRange_suffix (last : String) (len : Nat) :
    (resolveRange "" last len).isSome = (parseUnsigned u64Values last).isSome := by
  have hempty : ("" : String).isEmpty = true := rfl
  simp only [resolveRange, hempty, if_true, Option.bind_eq_bind]
  cases parseUnsigned u64Values last with
  | none => rfl
  | some n =>
    rw [Option.bind_some]
    split <;> rfl

theorem resolveRange_none (hfirst : first ≠ "") (hparse : parseUnsigned u64Values first = none)
    (len : Nat) : resolveRange first last len = none := by
  have hempty : first.isEmpty = false := by simpa using hfirst
  simp only [resolveRange, hempty, hparse, Bool.false_eq_true, if_false, Option.bind_eq_bind,
    Option.bind_none]

/-- With a start, the last number decides, but only for a body that reaches the start. -/
theorem resolveRange_start (hfirst : first ≠ "") (hparse : parseUnsigned u64Values first = some n)
    (len : Nat) :
    (resolveRange first last len).isSome = true ↔
      len ≤ n ∨ last = "" ∨ (parseUnsigned u64Values last).isSome = true := by
  have hempty : first.isEmpty = false := by simpa using hfirst
  simp only [resolveRange, hempty, hparse, Bool.false_eq_true, if_false, Option.bind_eq_bind,
    Option.bind_some]
  by_cases hlen : len ≤ n
  · rw [if_pos hlen]
    exact iff_of_true rfl (.inl hlen)
  · rw [if_neg hlen]
    by_cases hlast : last = ""
    · rw [if_pos (by simpa using hlast)]
      exact iff_of_true rfl (.inr (.inl hlast))
    · rw [if_neg (by simpa using hlast)]
      cases parseUnsigned u64Values last with
      | none => simp [hlen, hlast]
      | some requested =>
        rw [Option.bind_some]
        split <;> simp

theorem parse_of_huge {s : String} (h : IsDecimal s n) (hn : u64Values ≤ n) :
    parseUnsigned u64Values s = none := by
  rw [Option.eq_none_iff_forall_ne_some]
  intro k hk
  obtain ⟨hnumber, hlt⟩ := (IsDecimal.parseUnsigned_eq_some_iff u64Values_pos).mp hk
  rcases hnumber with hdecimal | hsigned
  · have heq := hdecimal.unique h
    omega
  · exact (not_number_of_signed hsigned).1 ⟨n, h⟩

/-- A last number that does not fit is looked at for a body that reaches the start only. -/
theorem resolveRange_huge (hfirst : IsDecimal first n) (hn : n < u64Values) (hmax : n < maxLen)
    (hlast : IsDecimal last m) (hm : u64Values ≤ m) :
    ∃ len ≤ maxLen, (resolveRange first last 0).isSome ≠ (resolveRange first last len).isSome := by
  refine ⟨n + 1, hmax, ?_⟩
  have hstart := @resolveRange_start first last n (IsNumber.ne_empty ⟨n, hfirst⟩)
    (parse_of_number (.inl hfirst) hn)
  have hzero : (resolveRange first last 0).isSome = true := (hstart 0).mpr (.inl (Nat.zero_le _))
  have hsucc : ¬ (resolveRange first last (n + 1)).isSome = true := by
    rw [hstart, parse_of_huge hlast hm]
    intro hor
    rcases hor with hle | hempty | hsome
    · omega
    · exact IsNumber.ne_empty ⟨m, hlast⟩ hempty
    · cases hsome
  rw [hzero]
  intro heq
  exact hsucc heq.symm

/-- What is let through is no form and answered all the same, or it is answered for some
lengths only. -/
theorem LetThrough.breaks (h : LetThrough maxLen first last) :
    (¬ RangeSpec first last ∧ (resolveRange first last 0).isSome = true) ∨
      ∃ len ≤ maxLen, (resolveRange first last 0).isSome ≠ (resolveRange first last len).isSome := by
  cases h with
  | signedSuffix hsigned hn =>
    left
    refine ⟨?_, ?_⟩
    · intro hspec
      obtain ⟨_, hlast⟩ := hspec.empty_or_number
      exact hlast.elim (not_number_of_signed hsigned).2 (not_number_of_signed hsigned).1
    · rw [resolveRange_suffix, parse_of_number (.inr hsigned) hn]
      rfl
  | signedFirst hsigned hn =>
    left
    refine ⟨?_, ?_⟩
    · intro hspec
      obtain ⟨hfirst, _⟩ := hspec.empty_or_number
      exact hfirst.elim (not_number_of_signed hsigned).2 (not_number_of_signed hsigned).1
    · rw [resolveRange_start (not_number_of_signed hsigned).2 (parse_of_number (.inr hsigned) hn)]
      exact .inl (Nat.zero_le _)
  | unreadLast hfirst hn hne hlast =>
    left
    refine ⟨?_, ?_⟩
    · intro hspec
      exact hspec.empty_or_number.2.elim hne hlast
    · rw [resolveRange_start (IsNumber.ne_empty ⟨_, hfirst⟩) (parse_of_number (.inl hfirst) hn)]
      exact .inl (Nat.zero_le _)
  | hugeLast hfirst hn hmax hlast hm =>
    right
    exact resolveRange_huge hfirst hn hmax hlast hm

/-- Nothing else is: what is no form is not answered, and whether a form is answered does
not depend on the length. -/
theorem resolveRange_of_not_letThrough (h : ¬ LetThrough maxLen first last) :
    (¬ RangeSpec first last → ∀ len, resolveRange first last len = none) ∧
      ∃ answered : Bool, ∀ len ≤ maxLen, (resolveRange first last len).isSome = answered := by
  by_cases hfirst : first = ""
  · -- a suffix: the last number alone decides
    subst hfirst
    refine ⟨?_, (parseUnsigned u64Values last).isSome, ?_⟩
    · intro hspec len
      rw [← Option.not_isSome_iff_eq_none, resolveRange_suffix, Option.isSome_iff_exists]
      intro hparse
      obtain ⟨n, hn⟩ := hparse
      obtain ⟨hnumber, hlt⟩ := (IsDecimal.parseUnsigned_eq_some_iff u64Values_pos).mp hn
      rcases hnumber with hdecimal | hsigned
      · exact hspec (.inr ⟨rfl, n, hdecimal⟩)
      · exact h (.signedSuffix hsigned hlt)
    · intro len _
      exact resolveRange_suffix last len
  · cases hparse : parseUnsigned u64Values first with
    | none =>
      have hnone : ∀ len, resolveRange first last len = none := resolveRange_none hfirst hparse
      refine ⟨fun _ => hnone, false, ?_⟩
      intro len _
      rw [hnone len]
      rfl
    | some n =>
      have hstart := @resolveRange_start first last n hfirst hparse
      obtain ⟨hnumber, hlt⟩ := (IsDecimal.parseUnsigned_eq_some_iff u64Values_pos).mp hparse
      -- a sign would be let through
      have hdecimal : IsDecimal first n := by
        rcases hnumber with hdecimal | hsigned
        · exact hdecimal
        · exact (h (.signedFirst hsigned hlt)).elim
      have hlast : last = "" ∨ IsNumber last := by
        by_contra hnot
        rw [not_or] at hnot
        exact h (.unreadLast hdecimal hlt hnot.1 hnot.2)
      refine ⟨fun hspec => (hspec (.inl ⟨⟨n, hdecimal⟩, hlast⟩)).elim, true, ?_⟩
      intro len hlen
      rw [hstart]
      rcases hlast with hempty | ⟨m, hm⟩
      · exact .inr (.inl hempty)
      · by_cases hfits : m < u64Values
        · rw [parse_of_number (.inl hm) hfits]
          exact .inr (.inr rfl)
        · -- no body reaches the start
          left
          by_contra hshort
          exact h (.hugeLast hdecimal hlt (by omega) hm (by omega))

end Outcomes

/-! ## The rule -/

/-- What `evaluate` answers without a `Range`: `304`, or the full `200`. -/
def wholeAnswer (t : Target) (request : Request) (response : Response) :
    Outcome Empty Response := do
  if ← notModified t request response then pure (toNotModified response)
  else pure response

/-- A `Range` value that is no form is ignored, for every body of up to `maxLen` bytes;
and whether a value is parsed does not depend on the length of the body. -/
structure IgnoresUnparsable (maxLen : Nat) (value : String) : Prop where
  ignored : ¬ RangeForm value → ∀ len ≤ maxLen, parseSingleRange value len = none
  whole : ¬ RangeForm value → ∀ (t : Target) (request : Request) (response : Response),
    request.header "range" = some value → response.status = ⟨200⟩ →
      response.body.length ≤ maxLen →
        evaluate t request response = wholeAnswer t request response
  uniform : ∀ len ≤ maxLen, ∀ len' ≤ maxLen,
    (parseSingleRange value len).isSome = (parseSingleRange value len').isSome

/-- The value is one that the parser lets through. -/
def SlipsThrough (maxLen : Nat) (value : String) : Prop :=
  ∃ before after, Dashed value before after ∧ LetThrough maxLen (trim before) (trim after)

section Rule

variable {value : String} {maxLen : Nat}

theorem evaluate_of_unparsed {t : Target} {request : Request} {response : Response}
    (hvalue : request.header "range" = some value) (hok : response.status = ⟨200⟩)
    (hnone : parseSingleRange value response.body.length = none) :
    evaluate t request response = wholeAnswer t request response := by
  have happly : applyRange request response = pure response := by
    rw [applyRange, hvalue]
    simp only [hnone]
  rw [evaluate, if_neg (by rw [hok]; simp), happly]
  rfl

theorem SlipsThrough.breaks (h : SlipsThrough maxLen value) : ¬ IgnoresUnparsable maxLen value := by
  intro hrule
  obtain ⟨before, after, hdashed, hthrough⟩ := h
  rcases hthrough.breaks with ⟨hspec, hsome⟩ | ⟨len, hlen, hne⟩
  · have hnone := hrule.ignored (fun hform => hspec (hdashed.rangeForm_iff.mp hform)) 0
      (Nat.zero_le _)
    rw [← hdashed.parseSingleRange, hnone] at hsome
    cases hsome
  · rw [← hdashed.parseSingleRange, ← hdashed.parseSingleRange] at hne
    exact hne (hrule.uniform 0 (Nat.zero_le _) len hlen)

theorem ignoresUnparsable_of_not_slipsThrough (h : ¬ SlipsThrough maxLen value) :
    IgnoresUnparsable maxLen value := by
  have hparse : (¬ RangeForm value → ∀ len, parseSingleRange value len = none) ∧
      ∃ answered : Bool, ∀ len ≤ maxLen, (parseSingleRange value len).isSome = answered := by
    by_cases hdashed : ∃ before after, Dashed value before after
    · obtain ⟨before, after, hdashed⟩ := hdashed
      have hnot : ¬ LetThrough maxLen (trim before) (trim after) := fun hthrough =>
        h ⟨before, after, hdashed, hthrough⟩
      rw [hdashed.rangeForm_iff]
      simp only [hdashed.parseSingleRange]
      exact resolveRange_of_not_letThrough hnot
    · have hnone := @parseSingleRange_eq_none value fun before after hd =>
        hdashed ⟨before, after, hd⟩
      refine ⟨fun _ => hnone, false, ?_⟩
      intro len _
      rw [hnone len]
      rfl
  obtain ⟨hignored, answered, hanswered⟩ := hparse
  refine ⟨fun hform len _ => hignored hform len, ?_, ?_⟩
  · intro hform t request response hvalue hok _
    exact evaluate_of_unparsed hvalue hok (hignored hform _)
  · intro len hlen len' hlen'
    rw [hanswered len hlen, hanswered len' hlen']

/-- The rule holds for every value but those that are let through. -/
theorem ignoresUnparsable_iff (maxLen : Nat) (value : String) :
    IgnoresUnparsable maxLen value ↔ ¬ SlipsThrough maxLen value :=
  ⟨fun hrule h => h.breaks hrule, ignoresUnparsable_of_not_slipsThrough⟩

/-- A request for `bytes=5-x`. -/
def junkRequest : Request := ⟨.get, "/f", .http11, [⟨"Range", "bytes=5-x"⟩], []⟩

/-- `bytes=5-x` has no form, but a body of three bytes is answered with `416`. -/
theorem junkLast_unsatisfiable :
    ¬ RangeForm "bytes=5-x" ∧ parseSingleRange "bytes=5-x" 10 = none ∧
      parseSingleRange "bytes=5-x" 3 = some .unsatisfiable ∧
      (∀ t, evaluate t junkRequest ⟨⟨200⟩, [], utf8 "abc"⟩ =
        .ok ⟨⟨416⟩, [("Content-Range", "bytes */3")], []⟩) ∧
      ¬ IgnoresUnparsable (u64Values - 1) "bytes=5-x" := by
  have hdashed : Dashed "bytes=5-x" "5" "x" :=
    ⟨by decide +kernel, by decide, by decide, by decide⟩
  have hlong : parseSingleRange "bytes=5-x" 10 = none := by decide +kernel
  have hshort : parseSingleRange "bytes=5-x" 3 = some .unsatisfiable := by decide +kernel
  refine ⟨?_, hlong, hshort, ?_, ?_⟩
  · rw [hdashed.rangeForm_iff]
    intro hspec
    have htrim : trim "x" = "x" := by decide +kernel
    rcases hspec.empty_or_number.2 with hempty | ⟨n, hnumber⟩
    · rw [htrim] at hempty
      exact absurd hempty (by decide)
    · rw [htrim] at hnumber
      exact hnumber.not_mem (c := 'x') rfl (by decide)
  · intro t
    have hmatch : junkRequest.header "if-none-match" = none := by decide +kernel
    have hsince : junkRequest.header "if-modified-since" = none := by decide +kernel
    have hrange : junkRequest.header "range" = some "bytes=5-x" := by decide +kernel
    have hbody : (utf8 "abc").length = 3 := by decide +kernel
    have hmodified : notModified t junkRequest ⟨⟨200⟩, [], utf8 "abc"⟩ = pure false := by
      simp only [notModified, hmatch, hsince]
    rw [evaluate, if_neg (by simp), hmodified]
    simp only [applyRange, hrange, hbody, hshort]
    rfl
  · intro hrule
    have hsame := hrule.uniform 3 (by decide) 10 (by decide)
    rw [hshort, hlong] at hsame
    cases hsame

end Rule

end FerroHttp
