import FerroHttp.Json.Strict

/-!
# Json.Visible — no control characters in a text

White space apart, a text of the grammar has no control character, neither in its strings
nor between its tokens: by induction on the derivation. So a text with one is not parsed.
-/

namespace FerroHttp

open Exec Text

namespace Json

section Visible

variable {text : Bytes} {levels : Nat} {p : Phrase}

/-- Not a control character, or white space. -/
def Visible (b : UInt8) : Prop := 0x20 ≤ b.toNat ∨ b = 0x09 ∨ b = 0x0a ∨ b = 0x0d

/-- The parts of a text are looked at one by one. -/
theorem visible_append {text' : Bytes} (h : ∀ b ∈ text, Visible b) (h' : ∀ b ∈ text', Visible b) :
    ∀ b ∈ text ++ text', Visible b := by
  intro b hb
  rcases List.mem_append.mp hb with hb | hb
  · exact h b hb
  · exact h' b hb

/-- One more byte in front, such as a bracket or a quote. -/
theorem visible_cons {b : UInt8} (hb : 0x20 ≤ b.toNat) (h : ∀ b ∈ text, Visible b) :
    ∀ c ∈ b :: text, Visible c := by
  intro c hc
  rcases List.mem_cons.mp hc with rfl | hc
  · exact .inl hb
  · exact h c hc

theorem visible_nil : ∀ b ∈ ([] : Bytes), Visible b := by
  intro b hb
  cases hb

/-- A literal is checked byte by byte. -/
theorem visible_of_all (h : text.all (fun b => decide (0x20 ≤ b.toNat)) = true) :
    ∀ b ∈ text, Visible b := by
  intro b hb
  exact .inl (of_decide_eq_true (List.all_eq_true.mp h b hb))

/-- White space is a blank, a tab or a line break. -/
theorem Ws.visible {w : Bytes} (h : Ws w) : ∀ b ∈ w, Visible b := by
  intro b hb
  rcases h b hb with rfl | hb | hb | hb
  · exact .inl (Nat.le_refl _)
  · exact .inr (.inl hb)
  · exact .inr (.inr (.inl hb))
  · exact .inr (.inr (.inr hb))

/-- Digits lie above the control characters. -/
theorem Digits.visible {ds : Bytes} (h : Digits ds) : ∀ b ∈ ds, Visible b := by
  intro b hb
  have hdigit := h.digit b hb
  simp only [isAsciiDigit, Bool.and_eq_true, decide_eq_true_eq, UInt8.le_iff_toNat_le] at hdigit
  exact .inl (Nat.le_trans (by decide) hdigit.1)

/-- And so do those of an escape. -/
theorem visible_of_hexDigit {b : UInt8} {x : Nat} (h : hexDigit b = some x) : 0x20 ≤ b.toNat := by
  by_contra hlow
  have hbyte : ∀ n < 0x20, hexDigit (UInt8.ofNat n) = none := by decide
  have hnone := hbyte b.toNat (by omega)
  rw [UInt8.ofNat_toNat, h] at hnone
  cases hnone

theorem Hex4.visible {ds : Bytes} {u : Nat} (h : Hex4 ds u) : ∀ b ∈ ds, Visible b := by
  cases h with
  | mk h₁ h₂ h₃ h₄ =>
    exact visible_cons (visible_of_hexDigit h₁) (visible_cons (visible_of_hexDigit h₂)
      (visible_cons (visible_of_hexDigit h₃) (visible_cons (visible_of_hexDigit h₄) visible_nil)))

/-- A character that stands for itself is no control character, one above the ASCII range has high
bytes only, and an escape is written with letters and digits. -/
theorem CharText.visible {c : Char} (h : CharText text c) : ∀ b ∈ text, Visible b := by
  cases h with
  | raw h =>
    intro b hb
    -- one byte of its own, or several that are all high
    by_cases hlow : c.toNat < 128
    · rw [utf8EncodeChar_of_ascii hlow, List.mem_singleton] at hb
      have hnat : c.toUInt8.toNat = c.toNat := toUInt8_toNat (by omega)
      rw [hb]
      exact .inl (hnat ▸ h.1)
    · have hhigh := high_of_mem_utf8EncodeChar (by omega) hb
      exact .inl (by omega)
  | @short b c h =>
    have hshort : ∀ e ∈ shortEscapes, decide (0x20 ≤ e.1.toNat) = true := List.all_eq_true.mp (by decide)
    exact visible_cons (by decide) (visible_cons (of_decide_eq_true (hshort _ h)) visible_nil)
  | unicode h => exact visible_cons (by decide) (visible_cons (by decide) h.visible)
  | pair h _ h' _ _ =>
    exact visible_cons (by decide) (visible_cons (by decide) (visible_append h.visible
      (visible_cons (by decide) (visible_cons (by decide) h'.visible))))

/-- So a string holds none, whatever it stands for. -/
theorem StringText.visible {s : String} (h : StringText text s) : ∀ b ∈ text, Visible b := by
  cases h with
  | mk h =>
    refine visible_cons (by decide) (visible_append ?_ (visible_cons (by decide) visible_nil))
    -- between the quotes, character by character
    induction h with
    | nil => exact visible_nil
    | cons h _ ih => exact visible_append h.visible ih

/-- A sign, digits, a point and an exponent. -/
theorem NumberText.visible {x : Float} (h : NumberText Digits text x) : ∀ b ∈ text, Visible b := by
  cases h with
  | @mk negative _ _ _ _ _ hint hfraction hexponent =>
    have hsign : ∀ b ∈ signText negative, Visible b := by
      cases negative with
      | false => exact visible_nil
      | true => exact visible_cons (by decide) visible_nil
    have hletter : ∀ e : UInt8, e = 0x65 ∨ e = 0x45 → 0x20 ≤ e.toNat := by
      intro e he
      rcases he with rfl | rfl <;> decide
    refine visible_append hsign (visible_append hint.visible (visible_append ?_ ?_))
    · cases hfraction with
      | absent => exact visible_nil
      | digits h => exact visible_cons (by decide) h.visible
    · cases hexponent with
      | absent => exact visible_nil
      | unsigned he h => exact visible_cons (hletter _ he) h.visible
      | plus he h => exact visible_cons (hletter _ he) (visible_cons (by decide) h.visible)
      | minus he h => exact visible_cons (hletter _ he) (visible_cons (by decide) h.visible)

/-- No phrase has a control character outside of white space. -/
theorem Derives.visible (h : Derives loose levels p text) : ∀ b ∈ text, Visible b := by
  -- one case for each production: its tokens, and what the induction gives for its phrases
  induction h with
  | null => exact visible_of_all (by decide)
  | bool value =>
    cases value with
    | false => exact visible_of_all (by decide)
    | true => exact visible_of_all (by decide)
  | number h => exact NumberText.visible h
  | string h => exact StringText.visible h
  | emptyArray hw =>
    exact visible_cons (by decide) (visible_append hw.visible (visible_cons (by decide) visible_nil))
  | array _ ih => exact visible_cons (by decide) (visible_append ih (visible_cons (by decide) visible_nil))
  | emptyObject hw =>
    exact visible_cons (by decide) (visible_append hw.visible (visible_cons (by decide) visible_nil))
  | object _ ih => exact visible_cons (by decide) (visible_append ih (visible_cons (by decide) visible_nil))
  | item hw _ hw' ih => exact visible_append hw.visible (visible_append ih hw'.visible)
  | items hw _ hw' _ ih ihs =>
    exact visible_append hw.visible (visible_append ih (visible_append hw'.visible
      (visible_cons (by decide) ihs)))
  | member hw hkey hw₁ hw₂ _ hw' ih =>
    exact visible_append hw.visible (visible_append (StringText.visible hkey)
      (visible_append hw₁.visible (visible_cons (by decide) (visible_append hw₂.visible
        (visible_append ih hw'.visible)))))
  | members hw hkey hw₁ hw₂ _ hw' _ ih ihs =>
    exact visible_append hw.visible (visible_append (StringText.visible hkey)
      (visible_append hw₁.visible (visible_cons (by decide) (visible_append hw₂.visible
        (visible_append ih (visible_append hw'.visible (visible_cons (by decide) ihs)))))))

/-- A text with another control character is not parsed. -/
theorem parse_visible {input : String} {v : JsonValue} (h : parse input = .ok v) :
    ∀ b ∈ utf8 input, Visible b := by
  rcases parse_eq_ok_iff_document.mp h with ⟨w, text, w', hw, hderives, hw', hinput⟩
  rw [hinput]
  exact visible_append hw.visible (visible_append hderives.visible hw'.visible)

end Visible

end Json

end FerroHttp
