import FerroHttp.Json.Positions

/-!
# Json.Bounds — the parser stays in the text and ends

Values simulate their counterparts as strings and numbers do, if there are enough frames for
the nested calls. What comes out of it for every function of the parser:

1. **Bounds**: no slice is out of range, and every error is reported within the text;
2. **Boundaries**: whatever a function takes ends where a character ends;
3. **Progress**: a value takes at least one byte, which bounds every loop;
4. **Depth**: `maxDepth + 1` nested calls of `parseValue` are enough for every text.
-/

namespace FerroHttp

namespace Json

open Exec Text Cursor

/-! ## Values -/

section Values

variable {σ : Type} {input : String} {i depth : Nat}
variable {parser : Bytes → Outcome JsonError (JsonValue × Bytes)}

theorem simulates_closing {close : UInt8} (hclose : close.toNat < 128) (next : σ)
    (value : JsonValue) (hi : i ≤ (utf8 input).length) :
    Simulates (terrain input) i (FlowRel (Behind (utf8 input)) (Behind (utf8 input)))
      (Parser.closing (utf8 input) close next value i)
      (closing (utf8 input).length close next value ((utf8 input).drop i)) := by
  rw [Parser.closing, closing]
  refine simulates_skipWs hi ?_
  intro j hij hj hskip
  rw [← hskip]
  refine Simulates.peek ?_ ?_
  · intro hdrop
    rw [hdrop]
    exact simulates_err _ rfl hdrop (Nat.le_refl j) hj
  · intro b tail hdrop hlt htail
    rw [hdrop]
    refine Simulates.ite ?_ ?_
    · intro hcomma
      have hlow : b.toNat < 128 := by
        rw [beq_iff_eq.mp hcomma]
        decide
      exact .ok (Nat.le_succ j) hlt (.inr (.ascii hdrop hlow)) (.again (by rw [Behind, htail]))
    intro _
    refine Simulates.ite ?_ ?_
    · intro hb
      rw [← beq_iff_eq.mp hb] at hclose
      exact .ok (Nat.le_succ j) hlt (.inr (.ascii hdrop hclose)) (.done (by rw [Behind, htail]))
    · intro _
      exact simulates_err _ rfl hdrop (Nat.le_refl j) hj

theorem simulates_memberStep {item : Scan JsonError JsonValue} (hitem : Follows input item parser)
    (members : List (String × JsonValue)) (hi : i ≤ (utf8 input).length) :
    Simulates (terrain input) i (FlowRel (Behind (utf8 input)) (Behind (utf8 input)))
      (Parser.memberStep (utf8 input) item members i)
      (memberStep (utf8 input).length parser (members, (utf8 input).drop i)) := by
  rw [Parser.memberStep, memberStep]
  refine simulates_skipWs hi ?_
  intro j hij hj hskip
  simp only
  rw [← hskip, Scan.peek_bind, ← List.head?_drop]
  by_cases hquote : ((utf8 input).drop j).head? = some 0x22
  · rw [if_neg (by simpa using hquote), if_neg (by simpa using hquote)]
    refine Simulates.bind (follows_parseString j hj) ?_
    rintro key j₁ _ hj₁ hle₁ _ rfl
    refine simulates_skipWs hle₁ ?_
    intro j₂ hj₂ hle₂ hskip₂
    rw [← hskip₂]
    refine Simulates.bind (simulates_expect (by decide) rfl hle₂) ?_
    rintro _ j₃ _ hj₃ hle₃ _ rfl
    refine simulates_skipWs hle₃ ?_
    intro j₄ hj₄ hle₄ hskip₄
    rw [← hskip₄]
    refine Simulates.bind (hitem j₄ hle₄) ?_
    rintro value j₅ _ hj₅ hle₅ _ rfl
    exact simulates_closing (by decide) _ _ hle₅
  · rw [if_pos (by simpa using hquote), if_pos hquote]
    exact simulates_err _ rfl rfl (Nat.le_refl j) hj

theorem simulates_itemStep {item : Scan JsonError JsonValue} (hitem : Follows input item parser)
    (items : List JsonValue) (hi : i ≤ (utf8 input).length) :
    Simulates (terrain input) i (FlowRel (Behind (utf8 input)) (Behind (utf8 input)))
      (Parser.itemStep (utf8 input) item items i)
      (itemStep (utf8 input).length parser (items, (utf8 input).drop i)) := by
  rw [Parser.itemStep, itemStep]
  refine simulates_skipWs hi ?_
  intro j hij hj hskip
  rw [← hskip]
  refine Simulates.bind (hitem j hj) ?_
  rintro item j₁ _ hj₁ hle₁ _ rfl
  exact simulates_closing (by decide) _ _ hle₁

/-- Brackets with nothing between them, or the loop over what they enclose. -/
theorem simulates_brackets {b : UInt8} (hb : b.toNat < 128) {empty : JsonValue}
    {step : σ → Scan JsonError (Flow σ JsonValue)}
    {body : σ × Bytes → Outcome JsonError (Flow (σ × Bytes) (JsonValue × Bytes))}
    (hstep : ∀ s j, j ≤ (utf8 input).length →
      Simulates (terrain input) j (FlowRel (Behind (utf8 input)) (Behind (utf8 input))) (step s j)
        (body (s, (utf8 input).drop j))) (s : σ) (hi : i ≤ (utf8 input).length) :
    Simulates (terrain input) i (Behind (utf8 input))
      ((Parser.skipWs (utf8 input) >>= fun _ => Scan.peek (utf8 input) >>= fun next =>
        if next == some b then Scan.advance 1 >>= fun _ => pure empty
        else Scan.iterateTo (utf8 input).length step s) i)
      (if (skipWs ((utf8 input).drop i)).head? = some b then
        .ok (empty, (skipWs ((utf8 input).drop i)).tail)
      else runLoop body ((skipWs ((utf8 input).drop i)).length + 1)
        (s, skipWs ((utf8 input).drop i))) := by
  refine simulates_skipWs hi ?_
  intro j hij hj hskip
  rw [← hskip, Scan.peek_bind, ← List.head?_drop]
  by_cases hempty : ((utf8 input).drop j).head? = some b
  · rw [if_pos (beq_iff_eq.mpr hempty), if_pos hempty]
    rcases List.head?_eq_some_iff.mp hempty with ⟨tail, hdrop⟩
    obtain ⟨_, hlt, htail⟩ := drop_cons hdrop
    refine .ok (Nat.le_succ j) hlt (.inr (.ascii hdrop hb)) ?_
    rw [Behind, hdrop, List.tail_cons, htail]
  · rw [if_neg (by simpa using hempty), if_neg hempty]
    exact Simulates.iterateTo rfl hstep s hj

theorem follows_parseObject {parseItem : Nat → Scan JsonError JsonValue} (hdepth : depth < maxDepth)
    (hitem : Follows input (parseItem (depth + 1)) parser) :
    Follows input (Parser.parseObject (utf8 input) parseItem depth)
      (parseObject (utf8 input).length parser) := by
  intro i hi
  rw [Parser.parseObject, if_neg (by omega), parseObject]
  refine Simulates.bind (simulates_expect (by decide) rfl hi) ?_
  rintro _ j _ hij hj _ rfl
  exact simulates_brackets (b := 0x7d) (by decide)
    (fun members _ => simulates_memberStep hitem members) [] hj

theorem follows_parseArray {parseItem : Nat → Scan JsonError JsonValue} (hdepth : depth < maxDepth)
    (hitem : Follows input (parseItem (depth + 1)) parser) :
    Follows input (Parser.parseArray (utf8 input) parseItem depth)
      (parseArray (utf8 input).length parser) := by
  intro i hi
  rw [Parser.parseArray, if_neg (by omega), parseArray]
  refine Simulates.bind (simulates_expect (by decide) rfl hi) ?_
  rintro _ j _ hij hj _ rfl
  exact simulates_brackets (b := 0x5d) (by decide) (fun items _ => simulates_itemStep hitem items) [] hj

/-- An object or an array at the greatest depth is refused where it starts. -/
theorem parseObject_deep (parseItem : Nat → Scan JsonError JsonValue) (h : maxDepth ≤ depth)
    (i : Nat) :
    Parser.parseObject (utf8 input) parseItem depth i = Parser.err .depthExceeded i := by
  rw [Parser.parseObject, if_pos (by omega)]

theorem parseArray_deep (parseItem : Nat → Scan JsonError JsonValue) (h : maxDepth ≤ depth)
    (i : Nat) :
    Parser.parseArray (utf8 input) parseItem depth i = Parser.err .depthExceeded i := by
  rw [Parser.parseArray, if_pos (by omega)]

/-- What opens a level needs one that is left. -/
theorem simulates_level {m : Scan JsonError JsonValue}
    {nested : Option (Bytes → Outcome JsonError (JsonValue × Bytes))}
    {container : (Bytes → Outcome JsonError (JsonValue × Bytes)) → Bytes →
      Outcome JsonError (JsonValue × Bytes)} (hi : i ≤ (utf8 input).length) :
    (nested = none → m i = Parser.err .depthExceeded i) →
    (∀ parser, nested = some parser → Follows input m (container parser)) →
    Simulates (terrain input) i (Behind (utf8 input)) (m i)
      (match nested with
        | none => err (utf8 input).length ((utf8 input).drop i) .depthExceeded
        | some parser => container parser ((utf8 input).drop i)) := by
  intro hnone hsome
  cases nested with
  | none =>
    rw [hnone rfl]
    exact simulates_err _ rfl rfl (Nat.le_refl i) hi
  | some parser => exact hsome parser rfl i hi

/-- One call of `parseValue`, whose nested calls are at the next depth. -/
theorem follows_parseValueWith {parseItem : Nat → Scan JsonError JsonValue}
    {nested : Option (Bytes → Outcome JsonError (JsonValue × Bytes))}
    (hnone : nested = none → maxDepth ≤ depth)
    (hsome : ∀ parser, nested = some parser →
      depth < maxDepth ∧ Follows input (parseItem (depth + 1)) parser) :
    Follows input (Parser.parseValueWith (utf8 input) parseItem depth)
      (parseValueWith (utf8 input).length nested) := by
  intro i hi
  refine Simulates.peek ?_ ?_
  · intro hdrop
    rw [hdrop]
    exact simulates_err _ rfl hdrop (Nat.le_refl i) hi
  · intro b tail hdrop hlt htail
    rw [hdrop]
    simp only [parseValueWith]
    rw [← hdrop]
    refine Simulates.ite ?_ ?_
    · intro _
      refine simulates_level hi (fun h => parseObject_deep _ (hnone h) i) ?_
      intro parser hparser
      exact follows_parseObject (hsome parser hparser).1 (hsome parser hparser).2
    intro _
    refine Simulates.ite ?_ ?_
    · intro _
      refine simulates_level hi (fun h => parseArray_deep _ (hnone h) i) ?_
      intro parser hparser
      exact follows_parseArray (hsome parser hparser).1 (hsome parser hparser).2
    intro _
    refine Simulates.ite ?_ ?_
    · intro _
      refine Simulates.bind (follows_parseString i hi) ?_
      rintro s j _ hij hj _ rfl
      exact .ok (Nat.le_refl j) hj (.inl rfl) rfl
    intro _
    refine Simulates.ite (fun _ => follows_parseBool i hi) ?_
    intro _
    refine Simulates.ite (fun _ => follows_parseNull i hi) ?_
    intro _
    refine Simulates.ite (fun _ => follows_parseNumber i hi) ?_
    intro _
    exact simulates_err _ rfl rfl (Nat.le_refl i) hi

/-- As many calls as there are levels left, and the outermost one, are enough. -/
theorem follows_parseValue {frames : Nat} (hframes : maxDepth - depth < frames) :
    Follows input (Parser.parseValue (utf8 input) frames depth)
      (parseValue (utf8 input).length (maxDepth - depth)) := by
  induction frames generalizing depth with
  | zero => omega
  | succ frames ih =>
    cases hlevels : maxDepth - depth with
    | zero =>
      refine follows_parseValueWith ?_ ?_
      · intro _
        omega
      · intro parser hparser
        cases hparser
    | succ levels =>
      refine follows_parseValueWith ?_ ?_
      · intro hnone
        cases hnone
      · intro parser hparser
        have hnext : maxDepth - (depth + 1) = levels := by omega
        have hitem := @ih (depth + 1) (by omega)
        rw [hnext] at hitem
        cases hparser
        exact ⟨by omega, hitem⟩

/-- A document ends where the text does. -/
theorem simulates_parseDocument {frames : Nat} (hframes : maxDepth < frames) :
    Simulates (terrain input) 0 (fun v j w => w = v ∧ j = (utf8 input).length)
      (Parser.parseDocument (utf8 input) frames 0) (parseDocument (utf8 input)) := by
  rw [Parser.parseDocument, parseDocument]
  refine simulates_skipWs (Nat.zero_le _) ?_
  intro j _ hj hskip
  rw [List.drop_zero] at hskip
  simp only
  rw [← hskip]
  refine Simulates.bind (follows_parseValue hframes j hj) ?_
  rintro value k _ hjk hk _ rfl
  refine simulates_skipWs hk ?_
  intro l hkl hl hskip'
  rw [← hskip', Scan.position_bind]
  by_cases hend : l = (utf8 input).length
  · have hnil : (utf8 input).drop l = [] := List.drop_eq_nil_iff.mpr (by omega)
    rw [if_neg (by simpa using hend), hnil]
    exact .ok (Nat.le_refl l) hl (.inl rfl) ⟨rfl, hend⟩
  · have hne : ¬ ((utf8 input).drop l).isEmpty = true := by
      rw [List.isEmpty_iff, List.drop_eq_nil_iff]
      omega
    rw [if_pos (by simpa using hend), if_neg hne]
    exact simulates_err _ rfl rfl (Nat.le_refl l) hl

end Values

/-! ## The whole parser -/

/-- From every position of the text the scanner returns. It has not gone back and is still in
the text; a value has taken at least `least` bytes, and ends at a boundary if it has taken
any; an error names the position. -/
def StaysIn {α : Type} (input : String) (least : Nat) (m : Scan JsonError α) : Prop :=
  ∀ i ≤ (utf8 input).length,
    (∃ a j, m i = .ok (a, j) ∧ i + least ≤ j ∧ j ≤ (utf8 input).length ∧
      (i = j ∨ IsCharBoundary input j)) ∨
    ∃ e j, m i = .err (e, j) ∧ i ≤ j ∧ j ≤ (utf8 input).length ∧ e.offset = j

section Whole

variable {α γ : Type} {input : String}

/-- A parser that leaves less than it was given is one that moves on. -/
theorem staysIn_of_simulates {m : Scan JsonError α} {parser : Bytes → Outcome JsonError γ}
    {left : γ → Bytes}
    (hsim : ∀ i ≤ (utf8 input).length, Simulates (terrain input) i
      (fun _ j r => left r = (utf8 input).drop j) (m i) (parser ((utf8 input).drop i)))
    (hsat : ∀ rest, (parser rest).Sat fun r => (left r).length < rest.length) :
    StaysIn input 1 m := by
  intro i hi
  have h := hsim i hi
  have hs := hsat ((utf8 input).drop i)
  generalize parser ((utf8 input).drop i) = y at h hs
  generalize hx : m i = x at h
  cases h with
  | @ok a j c hij hj hmark hleft =>
    have hlt : (left c).length < ((utf8 input).drop i).length := hs
    rw [hleft, List.length_drop, List.length_drop] at hlt
    exact .inl ⟨a, j, rfl, by omega, hj, hmark⟩
  | @err e j hij hj he => exact .inr ⟨e, j, rfl, hij, hj, he⟩
  | diverge => exact hs.elim

theorem Follows.staysIn {m : Scan JsonError α} {parser : Bytes → Outcome JsonError (α × Bytes)}
    (h : Follows input m parser)
    (hsat : ∀ rest, (parser rest).Sat fun r => r.2.length < rest.length) : StaysIn input 1 m := by
  refine staysIn_of_simulates (fun i hi => (h i hi).mono ?_) hsat
  intro a j c hc
  rw [show c = (a, (utf8 input).drop j) from hc]

theorem staysIn_skipWs : StaysIn input 0 (Parser.skipWs (utf8 input)) := by
  intro i hi
  have h := simulates_skipWs (f := fun _ => pure ()) (y := .ok ()) (R := fun _ _ _ => True) hi
    fun j hij hj _ => .ok (Nat.le_refl j) hj (.inl rfl) trivial
  have hrun : (Parser.skipWs (utf8 input) >>= fun _ => pure ()) i =
      Parser.skipWs (utf8 input) i := by
    rw [Scan.bind_run]
    exact bind_pure (Parser.skipWs (utf8 input) i)
  rw [hrun] at h
  generalize hx : Parser.skipWs (utf8 input) i = x at h
  cases h with
  | @ok a j _ hij hj hmark _ => exact .inl ⟨a, j, rfl, hij, hj, hmark⟩

/-- A scanner that fails at once stays where it is. -/
theorem staysIn_of_err {kind : JsonErrorKind} {m : Scan JsonError α}
    (h : ∀ i, m i = Parser.err kind i) : StaysIn input 1 m := by
  intro i hi
  exact .inr ⟨⟨kind, i⟩, i, h i, Nat.le_refl i, hi, rfl⟩

variable {frames depth : Nat}

theorem staysIn_parseValue (hframes : maxDepth - depth < frames) :
    StaysIn input 1 (Parser.parseValue (utf8 input) frames depth) :=
  (follows_parseValue hframes).staysIn (parseValue_sat _ _)

theorem staysIn_parseObject (hframes : maxDepth - depth ≤ frames) :
    StaysIn input 1
      (Parser.parseObject (utf8 input) (Parser.parseValue (utf8 input) frames) depth) := by
  by_cases hdepth : depth < maxDepth
  · have hitem := @follows_parseValue input (depth + 1) frames (by omega)
    exact (follows_parseObject hdepth hitem).staysIn (parseObject_sat _ (parseValue_sat _ _))
  · exact staysIn_of_err (parseObject_deep _ (Nat.le_of_not_lt hdepth))

theorem staysIn_parseArray (hframes : maxDepth - depth ≤ frames) :
    StaysIn input 1
      (Parser.parseArray (utf8 input) (Parser.parseValue (utf8 input) frames) depth) := by
  by_cases hdepth : depth < maxDepth
  · have hitem := @follows_parseValue input (depth + 1) frames (by omega)
    exact (follows_parseArray hdepth hitem).staysIn (parseArray_sat _ (parseValue_sat _ _))
  · exact staysIn_of_err (parseArray_deep _ (Nat.le_of_not_lt hdepth))

/-- The parser with a position ends as the other one does: at the end of the text, or where
the error says. -/
theorem parse_stops (input : String) (hframes : maxDepth < frames) :
    (∃ v, parse input = .ok v ∧
      Parser.parse frames input = .ok (v, (utf8 input).length)) ∨
    ∃ e, parse input = .error e ∧ Parser.parse frames input = .err (e, e.offset) ∧
      e.offset ≤ (utf8 input).length := by
  have h := @simulates_parseDocument input frames hframes
  have hreturns := parseDocument_returns (utf8 input)
  simp only [parse_eq_ok_iff, parse_eq_error_iff, Parser.parse]
  generalize parseDocument (utf8 input) = y at h hreturns ⊢
  generalize Parser.parseDocument (utf8 input) frames 0 = x at h ⊢
  cases h with
  | @ok v j w _ _ _ hvalue =>
    obtain ⟨rfl, rfl⟩ := hvalue
    exact .inl ⟨w, rfl, rfl⟩
  | @err e j _ hj he =>
    have hoffset : e.offset = j := he
    rw [← hoffset] at hj ⊢
    exact .inr ⟨e, rfl, rfl, hj⟩
  | diverge => exact hreturns.elim

end Whole

/-- Every function of the parser stays in the text and takes something, with enough frames
for its nested calls; and `maxDepth + 1` frames are enough for a whole text. -/
structure InBounds (input : String) : Prop where
  skipWs : StaysIn input 0 (Parser.skipWs (utf8 input))
  expect : ∀ b : UInt8, b.toNat < 128 → StaysIn input 1 (Parser.expect (utf8 input) b)
  parseValue : ∀ frames depth, maxDepth - depth < frames →
    StaysIn input 1 (Parser.parseValue (utf8 input) frames depth)
  parseObject : ∀ frames depth, maxDepth - depth ≤ frames → StaysIn input 1
    (Parser.parseObject (utf8 input) (Parser.parseValue (utf8 input) frames) depth)
  parseArray : ∀ frames depth, maxDepth - depth ≤ frames → StaysIn input 1
    (Parser.parseArray (utf8 input) (Parser.parseValue (utf8 input) frames) depth)
  parseString : StaysIn input 1 (Parser.parseString (utf8 input))
  parseEscape : ∀ out, StaysIn input 1 (Parser.parseEscape (utf8 input) out)
  parseUnicodeEscape : ∀ out, StaysIn input 1 (Parser.parseUnicodeEscape (utf8 input) out)
  readHex4 : StaysIn input 1 (Parser.readHex4 (utf8 input))
  parseBool : StaysIn input 1 (Parser.parseBool (utf8 input))
  parseNull : StaysIn input 1 (Parser.parseNull (utf8 input))
  parseNumber : StaysIn input 1 (Parser.parseNumber (utf8 input))
  consumeDigits : StaysIn input 1 (Parser.consumeDigits (utf8 input))
  parse : ∀ frames, maxDepth < frames →
    (∃ v, parse input = .ok v ∧ Parser.parse frames input = .ok (v, (utf8 input).length)) ∨
    ∃ e, parse input = .error e ∧ Parser.parse frames input = .err (e, e.offset) ∧
      e.offset ≤ (utf8 input).length

/-- The parser stays in bounds and ends, on every text. -/
theorem parser_inBounds (input : String) : InBounds input where
  skipWs := staysIn_skipWs
  expect b hb := @staysIn_of_simulates _ _ input _ _ id
    (fun _ hi => simulates_expect hb rfl hi) (expect_sat _ b)
  parseValue _ _ := staysIn_parseValue
  parseObject _ _ := staysIn_parseObject
  parseArray _ _ := staysIn_parseArray
  parseString := follows_parseString.staysIn (parseString_sat _)
  parseEscape out := (follows_parseEscape out).staysIn (parseEscape_sat _ out)
  parseUnicodeEscape out := (follows_parseUnicodeEscape out).staysIn (parseUnicodeEscape_sat _ out)
  readHex4 := follows_readHex4.staysIn (readHex4_sat _)
  parseBool := follows_parseBool.staysIn (parseBool_sat _)
  parseNull := follows_parseNull.staysIn (parseNull_sat _)
  parseNumber := follows_parseNumber.staysIn (parseNumber_sat _)
  consumeDigits :=
    staysIn_of_simulates (fun _ hi => simulates_consumeDigits hi) (consumeDigits_sat _)
  parse _ := parse_stops input

end Json

end FerroHttp
