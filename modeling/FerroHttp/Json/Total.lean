import FerroHttp.Json

/-!
# Json.Total — the parser returns

Every parser either fails or leaves fewer bytes than it was given, which bounds its
loops; the recursion is bounded by the nesting depth. So `parse` has a result for every
text, and its outcomes are those of an error-or-value.
-/

namespace FerroHttp

namespace Json

open Exec Text

variable {n : Nat} {rest : Bytes} {out : String}

/-! ## Strings -/

/-- Skipping white space leaves a part of the text. -/
theorem skipWs_length_le (rest : Bytes) : (skipWs rest).length ≤ rest.length :=
  (List.dropWhile_sublist isWs).length_le

/-- The expected byte is consumed. -/
theorem expect_sat (n : Nat) (b : UInt8) (rest : Bytes) :
    (expect n b rest).Sat fun r => r.length < rest.length := by
  cases rest with
  | nil => exact trivial
  | cons c tail =>
    simp only [expect]
    split
    · exact Nat.lt_succ_self _
    · exact trivial

/-- Every hexadecimal digit is one byte. -/
theorem readHex_sat (k value : Nat) (rest : Bytes) :
    (readHex n k value rest).Sat fun r => r.2.length + k ≤ rest.length := by
  -- induction on the digits that are still to be read
  induction k generalizing value rest with
  | zero => exact Nat.le_refl _
  | succ k ih =>
    cases rest with
    | nil => exact trivial
    | cons b tail =>
      simp only [readHex]
      split
      · exact trivial
      · rename_i digit _
        exact (ih (value * 16 + digit) tail).mono fun r h => Nat.succ_le_succ h

theorem readHex4_sat (n : Nat) (rest : Bytes) :
    (readHex4 n rest).Sat fun r => r.2.length < rest.length :=
  (readHex_sat 4 0 rest).mono fun r h => by omega

/-- An escape has four digits, or twice four where the first is half of a pair. -/
theorem unicodeScalar_sat (n : Nat) (rest : Bytes) :
    (unicodeScalar n rest).Sat fun r => r.2.length < rest.length := by
  unfold unicodeScalar
  refine (readHex4_sat n rest).bind ?_
  rintro ⟨first, rest'⟩ hfirst
  simp only at hfirst ⊢
  split
  · -- a high surrogate needs `\u` and a low one behind it
    cases rest' with
    | nil => exact trivial
    | cons b tail =>
      simp only
      split
      · exact trivial
      · cases tail with
        | nil => exact trivial
        | cons u tail =>
          simp only
          split
          · exact trivial
          · refine (readHex4_sat n tail).bind ?_
            rintro ⟨low, rest''⟩ hlow
            simp only [List.length_cons] at hfirst hlow ⊢
            split
            · exact hlow.trans (by omega)
            · exact trivial
  · split
    · exact trivial
    · exact hfirst

/-- A lone low surrogate is refused, anything else has been consumed. -/
theorem parseUnicodeEscape_sat (n : Nat) (out : String) (rest : Bytes) :
    (parseUnicodeEscape n out rest).Sat fun r => r.2.length < rest.length := by
  unfold parseUnicodeEscape
  refine (unicodeScalar_sat n rest).bind ?_
  rintro ⟨scalar, rest'⟩ h
  simp only
  split
  · exact trivial
  · exact h

/-- The letter of an escape is consumed in any case. -/
theorem parseEscape_sat (n : Nat) (out : String) (rest : Bytes) :
    (parseEscape n out rest).Sat fun r => r.2.length < rest.length := by
  cases rest with
  | nil => exact trivial
  | cons e tail =>
    have hlt : tail.length < (e :: tail).length := Nat.lt_succ_self _
    have hunicode : (parseUnicodeEscape n out tail).Sat fun r => r.2.length < (e :: tail).length :=
      (parseUnicodeEscape_sat n out tail).mono fun r h => h.trans hlt
    unfold parseEscape
    -- a short escape is the byte itself, `u` goes on, anything else is refused
    iterate 8 refine Outcome.Sat.ite hlt ?_
    exact Outcome.Sat.ite hunicode trivial

/-- A character of a string takes at least one byte. -/
theorem stringStep_sat (n : Nat) (s : String × Bytes) :
    (stringStep n s).Sat (Flow.Sat (fun s' => s'.2.length < s.2.length)
      (fun r => r.2.length < s.2.length)) := by
  rcases s with ⟨out, rest⟩
  cases rest with
  | nil => exact trivial
  | cons b tail =>
    simp only [stringStep]
    split
    · exact Nat.lt_succ_self _
    · split
      · refine (parseEscape_sat n out tail).bind ?_
        intro next h
        exact Nat.lt_succ_of_lt h
      · split
        · exact trivial
        · split
          · exact trivial
          · rename_i hlen
            split
            · exact trivial
            · -- at least one byte is dropped
              show ((b :: tail).drop (utf8Len b)).length < (b :: tail).length
              rw [List.length_drop]
              rw [List.length_cons] at hlen ⊢
              omega

/-- A loop whose iterations shorten what is left returns something shorter. -/
theorem runLoop_shrinks {σ ρ : Type} {step : σ × Bytes → Outcome JsonError
      (Flow (σ × Bytes) (ρ × Bytes))}
    (hstep : ∀ s, (step s).Sat (Flow.Sat (fun s' => s'.2.length < s.2.length)
      (fun r => r.2.length < s.2.length))) (a : σ) (rest : Bytes) :
    (runLoop step (rest.length + 1) (a, rest)).Sat fun r => r.2.length < rest.length := by
  -- the invariant: no more is left than at the start; the measure: what is left
  refine runLoop_sat (fun s => s.2.length ≤ rest.length) (fun s => s.2.length) ?_
    (Nat.le_refl _) (Nat.lt_succ_self _)
  intro s hs
  refine (hstep s).mono ?_
  intro flow hflow
  cases flow with
  | again s' => exact ⟨(Nat.le_of_lt hflow).trans hs, hflow⟩
  | done r => exact Nat.lt_of_lt_of_le hflow hs

/-- A string is its opening quote and what the loop over its characters consumes. -/
theorem parseString_sat (n : Nat) (rest : Bytes) :
    (parseString n rest).Sat fun r => r.2.length < rest.length := by
  unfold parseString
  refine (expect_sat n 0x22 rest).bind ?_
  intro rest' h
  exact (runLoop_shrinks (stringStep_sat n) "" rest').mono fun r hr => Nat.lt_trans hr h

/-! ## Literals and numbers -/

/-- There is at least one digit, or an error. -/
theorem consumeDigits_sat (n : Nat) (rest : Bytes) :
    (consumeDigits n rest).Sat fun r => r.2.length < rest.length := by
  unfold consumeDigits
  simp only
  split
  · exact trivial
  -- the digits and what follows them are the text
  · rename_i hdigits
    have hpos : 0 < (rest.takeWhile isAsciiDigit).length := by
      rw [List.length_pos_iff]
      intro hnil
      exact hdigits (by rw [hnil]; rfl)
    have hsplit := congrArg List.length
      (List.takeWhile_append_dropWhile (p := isAsciiDigit) (l := rest))
    rw [List.length_append] at hsplit
    show (rest.dropWhile isAsciiDigit).length < rest.length
    omega

/-- A fraction may be missing; a point needs a digit behind it. -/
theorem parseFraction_sat (n : Nat) (rest : Bytes) :
    (parseFraction n rest).Sat fun r => r.2.length ≤ rest.length := by
  cases rest with
  | nil => exact Nat.le_refl _
  | cons b tail =>
    simp only [parseFraction]
    split
    · exact (consumeDigits_sat n tail).mono fun r h => Nat.le_succ_of_le (Nat.le_of_lt h)
    · exact Nat.le_refl _

/-- An exponent may be missing as well, its sign too. -/
theorem parseExponent_sat (n : Nat) (rest : Bytes) :
    (parseExponent n rest).Sat fun r => r.2.length ≤ rest.length := by
  cases rest with
  | nil => exact Nat.le_refl _
  | cons b tail =>
    simp only [parseExponent]
    split
    · cases tail with
      | nil => exact trivial
      | cons sign digits =>
        simp only
        -- a sign is one more byte
        split
        · refine (consumeDigits_sat n digits).bind ?_
          rintro ⟨ds, rest'⟩ h
          exact Nat.le_succ_of_le (Nat.le_succ_of_le (Nat.le_of_lt h))
        · refine (consumeDigits_sat n (sign :: digits)).bind ?_
          rintro ⟨ds, rest'⟩ h
          exact Nat.le_succ_of_le (Nat.le_of_lt h)
    · exact Nat.le_refl _

/-- A number has an integer part, so something is consumed. -/
theorem parseNumber_sat (n : Nat) (rest : Bytes) :
    (parseNumber n rest).Sat fun r => r.2.length < rest.length := by
  have hsign : (if (rest.head? == some 0x2d) = true then rest.tail else rest).length ≤
      rest.length := by
    split
    · rw [List.length_tail]
      omega
    · exact Nat.le_refl _
  unfold parseNumber
  refine (consumeDigits_sat n _).bind ?_
  rintro ⟨integer, rest₁⟩ h₁
  -- fraction and exponent may be missing, the integer may not
  refine (parseFraction_sat n rest₁).bind ?_
  rintro ⟨fraction, rest₂⟩ h₂
  refine (parseExponent_sat n rest₂).bind ?_
  rintro ⟨exponent, rest₃⟩ h₃
  exact (h₃.trans h₂).trans_lt (h₁.trans_le hsign)

/-- Dropping a literal that a text starts with shortens the text. -/
theorem length_drop_lt {literal : Bytes} {k : Nat} (hk : 0 < k) (hlen : literal.length = k)
    (h : literal.isPrefixOf rest = true) : (rest.drop k).length < rest.length := by
  have hle := (List.isPrefixOf_iff_prefix.mp h).length_le
  rw [List.length_drop]
  omega

/-- Either literal is consumed as a whole. -/
theorem parseBool_sat (n : Nat) (rest : Bytes) :
    (parseBool n rest).Sat fun r => r.2.length < rest.length := by
  unfold parseBool
  split
  · rename_i h
    exact length_drop_lt (by decide) (by decide) h
  · split
    · rename_i h
      exact length_drop_lt (by decide) (by decide) h
    · exact trivial

/-- And so is this one. -/
theorem parseNull_sat (n : Nat) (rest : Bytes) :
    (parseNull n rest).Sat fun r => r.2.length < rest.length := by
  unfold parseNull
  split
  · rename_i h
    exact length_drop_lt (by decide) (by decide) h
  · exact trivial

/-! ## Values -/

section Nested

variable {parseItem : Bytes → Outcome JsonError (JsonValue × Bytes)}

/-- Behind an item comes a comma, and the loop goes on, or the closing bracket, and it ends. -/
theorem closing_sat {σ : Type} {rest₀ rest : Bytes} (close : UInt8) (next : σ)
    (value : JsonValue) (h : rest.length < rest₀.length) :
    (closing n close next value rest).Sat (Flow.Sat (fun s => s.2.length < rest₀.length)
      (fun r => r.2.length < rest₀.length)) := by
  have hle := skipWs_length_le rest
  unfold closing
  cases hskip : skipWs rest with
  | nil => exact trivial
  | cons b tail =>
    rw [hskip, List.length_cons] at hle
    simp only
    split
    · -- a comma, or the closing bracket: one byte less in both cases
      exact (Nat.lt_of_succ_le hle).trans h
    · split
      · exact (Nat.lt_of_succ_le hle).trans h
      · exact trivial

/-- A member consumes its key and its value, when the values inside do. -/
theorem memberStep_sat (n : Nat)
    (hitem : ∀ rest, (parseItem rest).Sat fun r => r.2.length < rest.length)
    (s : List (String × JsonValue) × Bytes) :
    (memberStep n parseItem s).Sat (Flow.Sat (fun s' => s'.2.length < s.2.length)
      (fun r => r.2.length < s.2.length)) := by
  unfold memberStep
  simp only
  split
  · exact trivial
  · -- white space, key, white space, colon, white space, value: none is longer than before
    have h₀ := skipWs_length_le s.2
    refine (parseString_sat n (skipWs s.2)).bind ?_
    rintro ⟨key, rest₁⟩ h₁
    refine (expect_sat n 0x3a (skipWs rest₁)).bind ?_
    intro rest₂ h₂
    refine (hitem (skipWs rest₂)).bind ?_
    rintro ⟨value, rest₃⟩ h₃
    have h₁' := skipWs_length_le rest₁
    have h₂' := skipWs_length_le rest₂
    simp only at h₁ h₃
    have hlt : rest₃.length < s.2.length := by omega
    exact closing_sat _ _ _ hlt

/-- An item consumes its value. -/
theorem itemStep_sat (n : Nat)
    (hitem : ∀ rest, (parseItem rest).Sat fun r => r.2.length < rest.length)
    (s : List JsonValue × Bytes) :
    (itemStep n parseItem s).Sat (Flow.Sat (fun s' => s'.2.length < s.2.length)
      (fun r => r.2.length < s.2.length)) := by
  unfold itemStep
  refine (hitem (skipWs s.2)).bind ?_
  rintro ⟨item, rest₁⟩ h₁
  have h₀ := skipWs_length_le s.2
  simp only at h₁
  have hlt : rest₁.length < s.2.length := by omega
  exact closing_sat _ _ _ hlt

/-- An object consumes its opening brace, and then runs over its members. -/
theorem parseObject_sat (n : Nat)
    (hitem : ∀ rest, (parseItem rest).Sat fun r => r.2.length < rest.length) (rest : Bytes) :
    (parseObject n parseItem rest).Sat fun r => r.2.length < rest.length := by
  unfold parseObject
  refine (expect_sat n 0x7b rest).bind ?_
  intro rest₁ h₁
  have hle := skipWs_length_le rest₁
  simp only
  -- the closing brace at once, or members
  split
  · show (skipWs rest₁).tail.length < rest.length
    rw [List.length_tail]
    omega
  · refine (runLoop_shrinks (memberStep_sat n hitem) [] (skipWs rest₁)).mono ?_
    intro r h
    omega

/-- An array consumes its opening bracket, and then runs over its items. -/
theorem parseArray_sat (n : Nat)
    (hitem : ∀ rest, (parseItem rest).Sat fun r => r.2.length < rest.length) (rest : Bytes) :
    (parseArray n parseItem rest).Sat fun r => r.2.length < rest.length := by
  unfold parseArray
  refine (expect_sat n 0x5b rest).bind ?_
  intro rest₁ h₁
  have hle := skipWs_length_le rest₁
  simp only
  -- the closing bracket at once, or items
  split
  · show (skipWs rest₁).tail.length < rest.length
    rw [List.length_tail]
    omega
  · refine (runLoop_shrinks (itemStep_sat n hitem) [] (skipWs rest₁)).mono ?_
    intro r h
    omega

end Nested

/-- The first byte decides what a value is; objects and arrays need a level for what is inside. -/
theorem parseValueWith_sat (n : Nat)
    {parseItem : Option (Bytes → Outcome JsonError (JsonValue × Bytes))}
    (hitem : ∀ f, parseItem = some f → ∀ rest, (f rest).Sat fun r => r.2.length < rest.length)
    (rest : Bytes) :
    (parseValueWith n parseItem rest).Sat fun r => r.2.length < rest.length := by
  cases rest with
  | nil => exact trivial
  | cons b tail =>
    simp only [parseValueWith]
    -- without a level left, objects and arrays are refused
    split
    · cases parseItem with
      | none => exact trivial
      | some f => exact parseObject_sat n (hitem f rfl) (b :: tail)
    · split
      · cases parseItem with
        | none => exact trivial
        | some f => exact parseArray_sat n (hitem f rfl) (b :: tail)
      · split
        · refine (parseString_sat n (b :: tail)).bind ?_
          rintro ⟨s, rest₁⟩ h₁
          exact h₁
        · split
          · exact parseBool_sat n (b :: tail)
          · split
            · exact parseNull_sat n (b :: tail)
            · split
              · exact parseNumber_sat n (b :: tail)
              · exact trivial

/-- The parser fails, or consumes something; at every depth. -/
theorem parseValue_sat (n levels : Nat) (rest : Bytes) :
    (parseValue n levels rest).Sat fun r => r.2.length < rest.length := by
  induction levels generalizing rest with
  | zero =>
    -- no level is left, so nothing is nested
    refine parseValueWith_sat n ?_ rest
    intro f hf
    cases hf
  | succ levels ih =>
    refine parseValueWith_sat n ?_ rest
    intro f hf rest'
    cases hf
    exact ih rest'

/-- So a document is parsed or refused; neither a panic nor an endless loop is left. -/
theorem parseDocument_returns (input : Bytes) : (parseDocument input).Returns := by
  have hsat : (parseDocument input).Sat fun _ => True := by
    unfold parseDocument
    simp only
    refine (parseValue_sat input.length maxDepth (skipWs input)).bind ?_
    rintro ⟨value, rest⟩ _
    simp only
    split <;> exact trivial
  exact hsat.returns

/-- Parse a complete document. -/
def parse (input : String) : Except JsonError JsonValue :=
  (parseDocument (utf8 input)).toExcept (parseDocument_returns (utf8 input))

/-- Its values are those of the document parser. -/
theorem parse_eq_ok_iff {input : String} {value : JsonValue} :
    parse input = .ok value ↔ parseDocument (utf8 input) = .ok value :=
  Outcome.toExcept_eq_ok_iff

/-- And so are its errors. -/
theorem parse_eq_error_iff {input : String} {e : JsonError} :
    parse input = .error e ↔ parseDocument (utf8 input) = .err e :=
  Outcome.toExcept_eq_error_iff

end Json

end FerroHttp
