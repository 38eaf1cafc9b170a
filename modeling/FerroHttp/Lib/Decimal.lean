import FerroHttp.Lib.Text

/-!
# Decimal — numerals as texts

A decimal numeral is a non-empty text of ASCII digits; leading zeros are allowed. It is
read back by the integer parsers, contains no separator, and is not touched by trimming.
A printed hexadecimal numeral determines its number.
-/

namespace Text

/-- The text is a decimal numeral for `n`. -/
structure IsDecimal (s : String) (n : Nat) : Prop where
  nonempty : s.toList ≠ []
  digits : ∀ c ∈ s.toList, c.isDigit = true
  value : Numeral.value 10 (s.toList.map Numeral.ofDigitChar) = n

/-- The text is a plus sign and a decimal numeral for `n`. -/
def IsSigned (s : String) (n : Nat) : Prop := ∃ digits, s = "+" ++ digits ∧ IsDecimal digits n

namespace IsDecimal

variable {s : String} {n bound : Nat}

theorem toString (n : Nat) : IsDecimal (toString n) n := by
  have hlist : (ToString.toString n).toList = Nat.toDigits 10 n := by
    rw [Nat.toString_eq_ofList_toDigits, String.toList_ofList]
  constructor
  · rw [hlist]
    exact Nat.toDigits_ne_nil
  · rw [hlist]
    intro c hc
    exact Nat.isDigit_of_mem_toDigits (by omega) (by omega) hc
  · rw [hlist]
    exact Numeral.value_toDigits n

/-- A separator is not a digit. -/
theorem not_mem (h : IsDecimal s n) {c : Char} (hc : c.isDigit = false) : c ∉ s.toList := by
  intro hmem
  rw [h.digits c hmem] at hc
  cases hc

theorem isEmpty_eq (h : IsDecimal s n) : s.isEmpty = false := by
  have hne := h.nonempty
  rw [ne_eq, String.toList_eq_nil_iff] at hne
  simpa using hne

/-- Leading zeros do not change the value. -/
theorem zeros_append (h : IsDecimal s n) (k : Nat) :
    IsDecimal (String.ofList (List.replicate k '0') ++ s) n := by
  have hlist : (String.ofList (List.replicate k '0') ++ s).toList =
      List.replicate k '0' ++ s.toList := by
    rw [String.toList_append, String.toList_ofList]
  constructor
  · rw [hlist]
    simp [h.nonempty]
  · rw [hlist]
    intro c hc
    rcases List.mem_append.mp hc with hzero | hdigit
    · rw [List.eq_of_mem_replicate hzero]
      rfl
    · exact h.digits c hdigit
  · rw [hlist, List.map_append, List.map_replicate]
    exact (Numeral.value_zeros k _).trans h.value

/-- The digits an unsigned integer type reads are the numerals of its values. -/
theorem readDigits_eq_some_iff {cs : List Char} (hbound : 0 < bound) :
    (if cs.isEmpty || !cs.all Char.isDigit then none
      else Numeral.checked bound 10 0 (cs.map Numeral.ofDigitChar)) = some n ↔
        IsDecimal (String.ofList cs) n ∧ n < bound := by
  by_cases hshape : cs ≠ [] ∧ ∀ c ∈ cs, c.isDigit = true
  · have hskip : ¬ (cs.isEmpty || !cs.all Char.isDigit) = true := by
      simp only [Bool.or_eq_true, List.isEmpty_iff, Bool.not_eq_true', not_or, Bool.not_eq_false,
        List.all_eq_true]
      exact hshape
    rw [if_neg hskip, Numeral.checked_eq_some_iff (by omega) hbound]
    simp only [zero_mul, zero_add]
    constructor
    · intro h
      refine ⟨⟨?_, ?_, ?_⟩, by omega⟩ <;> rw [String.toList_ofList]
      · exact hshape.1
      · exact hshape.2
      · exact h.2.symm
    · intro h
      have hvalue := h.1.value
      rw [String.toList_ofList] at hvalue
      exact ⟨by omega, hvalue.symm⟩
  · constructor
    · intro h
      split at h
      · cases h
      · rename_i hskip
        simp only [Bool.or_eq_true, List.isEmpty_iff, Bool.not_eq_true', not_or, Bool.not_eq_false,
          List.all_eq_true] at hskip
        exact absurd hskip hshape
    · intro h
      have hne := h.1.nonempty
      have hdigits := h.1.digits
      rw [String.toList_ofList] at hne hdigits
      exact absurd ⟨hne, hdigits⟩ hshape

/-- A plus sign in front of a numeral is read over. -/
theorem parseUnsigned_eq_some_iff (hbound : 0 < bound) :
    Text.parseUnsigned bound s = some n ↔ (IsDecimal s n ∨ IsSigned s n) ∧ n < bound := by
  unfold Text.parseUnsigned
  split
  rename_i rest heq
  · have hs : s = "+" ++ String.ofList rest := by
      apply String.toList_inj.mp
      simp [heq]
    rw [readDigits_eq_some_iff hbound]
    constructor
    · intro h
      exact ⟨.inr ⟨String.ofList rest, hs, h.1⟩, h.2⟩
    · intro h
      refine ⟨?_, h.2⟩
      rcases h.1 with hdecimal | ⟨digits, hsigned, hdecimal⟩
      · exact absurd (by rw [heq]; exact List.mem_cons_self) (hdecimal.not_mem (c := '+') rfl)
      · rw [hs, String.append_right_inj] at hsigned
        rw [hsigned]
        exact hdecimal
  · rename_i hplus
    rw [readDigits_eq_some_iff hbound, String.ofList_toList]
    refine and_congr_left fun _ => ⟨.inl, ?_⟩
    intro h
    rcases h with hdecimal | ⟨digits, rfl, _⟩
    · exact hdecimal
    · exact (hplus digits.toList (by rw [String.toList_append]; rfl)).elim

/-- An unsigned integer type reads the numerals of its values. -/
theorem parseUnsigned (h : IsDecimal s n) (hlt : n < bound) : parseUnsigned bound s = some n :=
  (parseUnsigned_eq_some_iff (by omega)).mpr ⟨.inl h, hlt⟩

/-- A signed one reads those of its values that are not negative. -/
theorem parseSigned (h : IsDecimal s n) (hlt : n < bound) : parseSigned bound s = some (n : Int) := by
  have hminus : '-' ∉ s.toList := h.not_mem rfl
  unfold Text.parseSigned
  split
  rename_i rest heq
  · rw [heq] at hminus
    exact absurd List.mem_cons_self hminus
  · rw [h.parseUnsigned hlt]
    rfl

/-- What is read without a sign is read from a numeral. -/
theorem of_parseUnsigned (hbound : 0 < bound) (hdigits : ∀ c ∈ s.toList, c.isDigit = true)
    (h : Text.parseUnsigned bound s = some n) : IsDecimal s n := by
  rcases ((parseUnsigned_eq_some_iff hbound).mp h).1 with hdecimal | ⟨digits, rfl, _⟩
  · exact hdecimal
  · have hplus := hdigits '+' (by rw [String.toList_append]; exact List.mem_cons_self)
    cases hplus

theorem of_parseSigned {i : Int} (hbound : 0 < bound)
    (hdigits : ∀ c ∈ s.toList, c.isDigit = true) (h : Text.parseSigned bound s = some i) :
    ∃ n : Nat, i = n ∧ IsDecimal s n := by
  unfold Text.parseSigned at h
  split at h
  rename_i rest heq
  · have hminus := hdigits '-' (by rw [heq]; exact List.mem_cons_self)
    cases hminus
  · cases hn : Text.parseUnsigned bound s with
    | none =>
      rw [hn] at h
      cases h
    | some n =>
      rw [hn] at h
      cases h
      exact ⟨n, rfl, of_parseUnsigned hbound hdigits hn⟩

/-- A text is a numeral for one number. -/
theorem unique {m : Nat} (hm : IsDecimal s m) (hn : IsDecimal s n) : m = n :=
  hm.value.symm.trans hn.value

theorem not_isWhitespace {c : Char} (h : c.isDigit = true) : isWhitespace c = false := by
  simp only [Char.isDigit, Bool.and_eq_true, decide_eq_true_eq, ge_iff_le,
    UInt32.le_iff_toNat_le] at h
  have hrange : 48 ≤ c.toNat ∧ c.toNat ≤ 57 := h
  simp only [isWhitespace, Bool.or_eq_false_iff, Bool.and_eq_false_iff, beq_eq_false_iff_ne,
    decide_eq_false_iff_not]
  omega

theorem cleanEnds (h : IsDecimal s n) : CleanEnds isWhitespace s.toList := by
  constructor
  · intro c hc
    exact not_isWhitespace (h.digits c (List.mem_of_mem_head? hc))
  · intro c hc
    exact not_isWhitespace (h.digits c (List.mem_of_getLast? hc))

theorem trim (h : IsDecimal s n) : trim s = s := trim_of_cleanEnds h.cleanEnds

end IsDecimal

/-! ## Hexadecimal -/

/-- The digit a lowercase hexadecimal character stands for. -/
def ofHexChar (c : Char) : Nat := ((List.range 16).map Nat.digitChar).findIdx (· == c)

theorem hexChar_ok : ∀ d < 16, ofHexChar (Nat.digitChar d) = d ∧ Nat.digitChar d ≠ '-' ∧
    Nat.digitChar d ≠ '"' ∧ Nat.digitChar d ≠ ',' := by
  decide

/-- The digits of a number denote it, and each of them is a hexadecimal digit. -/
theorem toDigits_hex (n : Nat) :
    Numeral.value 16 ((Nat.toDigits 16 n).map ofHexChar) = n ∧
      ∀ c ∈ Nat.toDigits 16 n, ∃ d < 16, c = Nat.digitChar d := by
  induction n using Nat.strongRecOn with
  | ind n ih =>
    by_cases hlt : n < 16
    · rw [Nat.toDigits_of_lt_base hlt]
      constructor
      · simp [Numeral.value, (hexChar_ok n hlt).1]
      · intro c hc
        exact ⟨n, hlt, List.mem_singleton.mp hc⟩
    · -- all digits but the last one are those of the quotient
      have hrec := ih (n / 16) (by omega)
      rw [Nat.toDigits_of_base_le (by omega) (by omega)]
      constructor
      · rw [List.map_append, Numeral.value_append, hrec.1]
        simp only [List.map_cons, List.map_nil, List.length_singleton, pow_one, Numeral.value,
          List.foldl_cons, List.foldl_nil, (hexChar_ok (n % 16) (by omega)).1]
        omega
      · intro c hc
        rcases List.mem_append.mp hc with hc | hc
        · exact hrec.2 c hc
        · exact ⟨n % 16, by omega, List.mem_singleton.mp hc⟩

theorem hex_injective {m n : Nat} (h : hex m = hex n) : m = n := by
  have hdigits : Nat.toDigits 16 m = Nat.toDigits 16 n := String.ofList_inj.mp h
  rw [← (toDigits_hex m).1, hdigits, (toDigits_hex n).1]

/-- A hexadecimal numeral contains only its digits. -/
theorem hex_not_mem {c : Char} (hc : ∀ d < 16, Nat.digitChar d ≠ c) (n : Nat) :
    c ∉ (hex n).toList := by
  intro hmem
  rw [hex, String.toList_ofList] at hmem
  rcases (toDigits_hex n).2 c hmem with ⟨d, hd, rfl⟩
  exact hc d hd rfl

/-- A hexadecimal numeral contains no separator. -/
theorem hex_free (n : Nat) : '-' ∉ (hex n).toList ∧ '"' ∉ (hex n).toList ∧ ',' ∉ (hex n).toList :=
  ⟨hex_not_mem (fun d hd => (hexChar_ok d hd).2.1) n, hex_not_mem (fun d hd => (hexChar_ok d hd).2.2.1) n,
    hex_not_mem (fun d hd => (hexChar_ok d hd).2.2.2) n⟩

end Text
