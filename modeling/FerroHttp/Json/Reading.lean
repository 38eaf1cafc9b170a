import FerroHttp.Json.Total

/-!
# Json.Reading — texts the parser reads back

`Quoted` and `Spells` say that a text is parsed to a string or a value, whatever follows
it (after a number, something that does not continue it). Then what the parser does with
single characters, digits and white space in front of a text.
-/

namespace FerroHttp

namespace Json

open Exec Text

/-- The text is a string literal for `s`. -/
def Quoted (text : Bytes) (s : String) : Prop :=
  ∀ n rest, parseString n (text ++ rest) = .ok (s, rest)

/-- The text does not go on with a byte that a number could contain. -/
def Ends (rest : Bytes) : Prop :=
  ∀ b, rest.head? = some b → isAsciiDigit b = false ∧ b ≠ 0x2e ∧ b ≠ 0x65 ∧ b ≠ 0x45

/-- The text is parsed to `v`, with at most `levels` levels of nesting. -/
def Spells (levels : Nat) (text : Bytes) (v : JsonValue) : Prop :=
  ∀ n rest, Ends rest → parseValue n levels (text ++ rest) = .ok (v, rest)

/-! ## Strings -/

section Strings

variable {n : Nat} {out s : String} {c : Char} {rest : Bytes}

/-- The first byte of an encoded character tells the length of the encoding. -/
theorem utf8Len_utf8EncodeChar {b : UInt8} {tail : Bytes}
    (h : String.utf8EncodeChar c = b :: tail) : utf8Len b = tail.length + 1 := by
  have hlead : ∀ k : Nat, k < 256 → utf8Len (UInt8.ofNat k) =
      if k ≤ 0x7f then 1
      else if 0xc0 ≤ k ∧ k ≤ 0xdf then 2
      else if 0xe0 ≤ k ∧ k ≤ 0xef then 3
      else if 0xf0 ≤ k ∧ k ≤ 0xf7 then 4
      else 0 := by decide +kernel
  have hvalid : c.val.toNat < 0x110000 := by
    have hc := c.valid
    simp only [UInt32.isValidChar, Nat.isValidChar] at hc
    omega
  -- one case for each length of an encoding
  unfold String.utf8EncodeChar at h
  simp only at h
  split at h
  · rw [List.cons.injEq] at h
    rcases h with ⟨rfl, rfl⟩
    rw [hlead _ (by omega), if_pos (by omega)]
    rfl
  · split at h
    · rw [List.cons.injEq] at h
      rcases h with ⟨rfl, rfl⟩
      rw [hlead _ (by omega), if_neg (by omega), if_pos (by omega)]
      rfl
    · split at h
      · rw [List.cons.injEq] at h
        rcases h with ⟨rfl, rfl⟩
        rw [hlead _ (by omega), if_neg (by omega), if_neg (by omega), if_pos (by omega)]
        rfl
      · rw [List.cons.injEq] at h
        rcases h with ⟨rfl, rfl⟩
        rw [hlead _ (by omega), if_neg (by omega), if_neg (by omega), if_neg (by omega),
          if_pos (by omega)]
        rfl

/-- A character that needs no escape is taken as it is. -/
theorem stringStep_plain (hquote : c ≠ '"') (hslash : c ≠ '\\') (hcontrol : ¬ c.toNat < 0x20) :
    stringStep n (out, String.utf8EncodeChar c ++ rest) = .ok (.again (out.push c, rest)) := by
  rcases List.exists_cons_of_ne_nil (utf8EncodeChar_ne_nil c) with ⟨b, tail, hb⟩
  have hlen := utf8Len_utf8EncodeChar hb
  -- so the step takes the last branch of the source
  have hplain : b ≠ 0x22 ∧ b ≠ 0x5c ∧ ¬ b < 0x20 := by
    by_cases hlow : c.toNat < 128
    · rw [utf8EncodeChar_of_ascii hlow, List.cons.injEq] at hb
      have hnat : c.toUInt8.toNat = c.toNat := toUInt8_toNat (by omega)
      rw [← hb.1]
      refine ⟨?_, ?_, ?_⟩
      · intro heq
        rw [heq] at hnat
        exact hquote (Char.toNat_inj.mp hnat.symm)
      · intro heq
        rw [heq] at hnat
        exact hslash (Char.toNat_inj.mp hnat.symm)
      · rw [UInt8.lt_iff_toNat_lt, hnat]
        exact hcontrol
    · have hhigh : 128 ≤ b.toNat := high_of_mem_utf8EncodeChar (c := c) (by omega) (by rw [hb]; simp)
      refine ⟨?_, ?_, ?_⟩
      · rintro rfl
        exact absurd hhigh (by decide)
      · rintro rfl
        exact absurd hhigh (by decide)
      · rw [UInt8.lt_iff_toNat_lt]
        exact fun hlt => absurd (hhigh.trans_lt hlt) (by decide)
  have htake : (b :: (tail ++ rest)).take (utf8Len b) = String.utf8EncodeChar c := by
    rw [hlen, ← List.cons_append, hb]
    exact List.take_left' (by simp)
  have hdrop : (b :: (tail ++ rest)).drop (utf8Len b) = rest := by
    rw [hlen, ← List.cons_append]
    exact List.drop_left' (by simp)
  have hchunk : fromUtf8 (String.utf8EncodeChar c) = some (String.singleton c) := by
    rw [fromUtf8_eq_some_iff]
    simp [utf8]
  have hshort : ¬ (utf8Len b = 0 ∨ (b :: (tail ++ rest)).length < utf8Len b) := by
    rw [hlen, List.length_cons, List.length_append]
    omega
  rw [hb, List.cons_append]
  simp only [stringStep, beq_iff_eq, hplain.1, hplain.2.1, hplain.2.2, if_false, hshort, htake,
    hchunk, hdrop, String.append_singleton]

/-- A short escape is replaced. -/
theorem stringStep_escape {tail : Bytes} (h : parseEscape n out tail = .ok (out.push c, rest)) :
    stringStep n (out, 0x5c :: tail) = .ok (.again (out.push c, rest)) := by
  simp only [stringStep, h]
  rfl

end Strings

/-! ## Scalars -/

section Scalars

variable {levels : Nat} {text : Bytes} {s : String} {v : JsonValue}

/-- A string literal starts with its quote. -/
theorem Quoted.cons (h : Quoted text s) : ∃ tail, text = 0x22 :: tail := by
  have hparse := h 0 []
  rw [List.append_nil, parseString, Outcome.bind_eq_ok] at hparse
  rcases hparse with ⟨rest, hexpect, _⟩
  cases text with
  | nil => cases hexpect
  | cons b tail =>
    simp only [expect] at hexpect
    split at hexpect
    · rename_i hb
      exact ⟨tail, by rw [beq_iff_eq.mp hb]⟩
    · cases hexpect

theorem parseValue_eq (n levels : Nat) :
    ∃ parseItem, parseValue n levels = parseValueWith n parseItem := by
  cases levels with
  | zero => exact ⟨none, rfl⟩
  | succ levels => exact ⟨some (parseValue n levels), rfl⟩

/-- A value does not start with white space or a closing bracket. -/
theorem Spells.cons (h : Spells levels text v) :
    ∃ b tail, text = b :: tail ∧ isWs b = false ∧ b ≠ 0x5d := by
  have hparse := h 0 [] (by intro b hb; cases hb)
  rcases parseValue_eq 0 levels with ⟨parseItem, heq⟩
  rw [List.append_nil, heq] at hparse
  cases text with
  | nil => cases hparse
  | cons b tail =>
    refine ⟨b, tail, rfl, ?_, ?_⟩
    · -- white space is refused as an unexpected byte
      by_contra hws
      rw [Bool.not_eq_false] at hws
      simp only [isWs, Bool.or_eq_true, beq_iff_eq] at hws
      rcases hws with ((rfl | rfl) | rfl) | rfl <;> cases hparse
    · rintro rfl
      cases hparse

theorem Quoted.spells (h : Quoted text s) : Spells levels text (.string s) := by
  intro n rest _
  rcases parseValue_eq n levels with ⟨parseItem, heq⟩
  have hparse := h n rest
  rcases h.cons with ⟨tail, rfl⟩
  have hdispatch : parseValueWith n parseItem (0x22 :: tail ++ rest) =
      parseString n (0x22 :: tail ++ rest) >>= fun r => .ok (.string r.1, r.2) := rfl
  rw [heq, hdispatch, hparse]
  rfl

theorem spells_bool (b : Bool) : Spells levels (utf8 (toString b)) (.bool b) := by
  intro n rest _
  rcases parseValue_eq n levels with ⟨parseItem, heq⟩
  rw [heq]
  cases b with
  | true =>
    have htext : utf8 (toString true) = [0x74, 0x72, 0x75, 0x65] := by decide
    rw [htext]
    rfl
  | false =>
    have htext : utf8 (toString false) = [0x66, 0x61, 0x6c, 0x73, 0x65] := by decide
    rw [htext]
    rfl

/-- The digits in front of what is no digit. -/
theorem consumeDigits_append {digits rest : Bytes} (n : Nat) (hne : digits ≠ [])
    (hdigits : digits.all isAsciiDigit = true)
    (hends : ∀ b, rest.head? = some b → isAsciiDigit b = false) :
    consumeDigits n (digits ++ rest) = .ok (digits, rest) := by
  have hrest : rest.takeWhile isAsciiDigit = [] ∧ rest.dropWhile isAsciiDigit = rest := by
    cases rest with
    | nil => exact ⟨rfl, rfl⟩
    | cons b tail =>
      have hb := hends b rfl
      exact ⟨by rw [List.takeWhile_cons, hb]; rfl, by rw [List.dropWhile_cons, hb]; rfl⟩
  have hall : ∀ b ∈ digits, isAsciiDigit b = true := List.all_eq_true.mp hdigits
  have htake : (digits ++ rest).takeWhile isAsciiDigit = digits := by
    rw [List.takeWhile_append_of_pos hall, hrest.1, List.append_nil]
  have hdrop : (digits ++ rest).dropWhile isAsciiDigit = rest := by
    rw [List.dropWhile_append_of_pos hall, hrest.2]
  have hempty : digits.isEmpty = false := by simpa using hne
  simp only [consumeDigits, htake, hdrop, hempty, Bool.false_eq_true, if_false]

end Scalars

/-! ## White space -/

section Blanks

variable {levels n : Nat} {text rest : Bytes} {v : JsonValue}

theorem skipWs_append {ws : Bytes} (h : ∀ b ∈ ws, isWs b = true) (rest : Bytes) :
    skipWs (ws ++ rest) = skipWs rest := List.dropWhile_append_of_pos h

theorem skipWs_cons {b : UInt8} {tail : Bytes} (h : isWs b = false) :
    skipWs (b :: tail) = b :: tail := by
  rw [skipWs, List.dropWhile_cons, h]
  rfl

theorem skipWs_spells (h : Spells levels text v) (rest : Bytes) :
    skipWs (text ++ rest) = text ++ rest := by
  rcases h.cons with ⟨b, tail, rfl, hb, _⟩
  exact skipWs_cons hb

/-- Behind a value: white space, or one of the bytes that may follow it. -/
theorem ends_cons {b : UInt8} {tail : Bytes}
    (h : isAsciiDigit b = false ∧ b ≠ 0x2e ∧ b ≠ 0x65 ∧ b ≠ 0x45) : Ends (b :: tail) := by
  intro c hc
  cases hc
  exact h

theorem skipWs_skipWs (rest : Bytes) : skipWs (skipWs rest) = skipWs rest :=
  List.dropWhile_idempotent ..

/-- The loops skip white space themselves. -/
theorem memberStep_skipWs (acc : List (String × JsonValue)) (rest : Bytes) :
    memberStep n (parseValue n levels) (acc, skipWs rest) =
      memberStep n (parseValue n levels) (acc, rest) := by
  simp only [memberStep, skipWs_skipWs]

theorem itemStep_skipWs (acc : List JsonValue) (rest : Bytes) :
    itemStep n (parseValue n levels) (acc, skipWs rest) =
      itemStep n (parseValue n levels) (acc, rest) := by
  simp only [itemStep, skipWs_skipWs]

end Blanks

end Json

end FerroHttp
