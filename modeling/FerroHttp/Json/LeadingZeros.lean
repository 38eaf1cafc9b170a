import FerroHttp.Json.Strict

/-!
# Json.LeadingZeros — where the parser is not strict

The parser takes any digits for the integer part of a number, RFC 8259 none that start
with a superfluous zero. A scan of the text finds these numbers (`leadingZero`): it passes
over a text of the RFC, and a text of the `loose` grammar is one of the RFC or is found.
-/

namespace FerroHttp

namespace Json

open Text

/-- Where a byte stands: outside of strings and numbers, inside a string, behind a
backslash, behind the zero that a number starts with, or further on in a number. -/
inductive Place where
  | outside
  | string
  | escape
  | zero
  | number
deriving DecidableEq, Repr

/-- A byte with which a number goes on. -/
def continuesNumber (b : UInt8) : Bool :=
  isAsciiDigit b || b == 0x2e || b == 0x65 || b == 0x45 || b == 0x2b || b == 0x2d

/-- What a byte starts. -/
def Place.start (b : UInt8) : Place :=
  if b = 0x22 then .string
  else if b = 0x30 then .zero
  else if isAsciiDigit b then .number
  else .outside

def Place.next : Place → UInt8 → Place
  | .outside, b => .start b
  | .string, b => if b = 0x5c then .escape else if b = 0x22 then .outside else .string
  | .escape, _ => .string
  | .zero, b => if continuesNumber b then .number else .start b
  | .number, b => if continuesNumber b then .number else .start b

/-- Does a number of the text start with a zero and a further digit? -/
def leadingZero : Place → Bytes → Bool
  | _, [] => false
  | place, b :: rest => (place == .zero && isAsciiDigit b) || leadingZero (place.next b) rest

/-- Nothing that follows goes on with a number. -/
def Stops (rest : Bytes) : Prop := ∀ b, rest.head? = some b → continuesNumber b = false

/-- The scan passes over the text. -/
def Passes (text : Bytes) : Prop :=
  ∀ rest, Stops rest → leadingZero .outside (text ++ rest) = leadingZero .outside rest

/-- The scan finds a number in the text. -/
def Found (text : Bytes) : Prop :=
  ∀ rest, Stops rest → leadingZero .outside (text ++ rest) = true

variable {levels : Nat} {text rest w : Bytes}

/-! ## Tokens -/

section Tokens

variable {ds fractionText fraction exponentText : Bytes} {exponent : Int} {c : Char} {x : Float}

/-- A byte that starts nothing. -/
theorem leadingZero_byte {b : UInt8} (hb : Place.start b = .outside) (rest : Bytes) :
    leadingZero .outside (b :: rest) = leadingZero .outside rest := by
  simp only [leadingZero, Place.next, hb]
  rfl

theorem leadingZero_ws (h : Ws w) (rest : Bytes) :
    leadingZero .outside (w ++ rest) = leadingZero .outside rest := by
  induction w with
  | nil => rfl
  | cons b w ih =>
    have hb : Place.start b = .outside := by
      rcases h b List.mem_cons_self with rfl | rfl | rfl | rfl <;> rfl
    rw [List.cons_append, leadingZero_byte hb]
    exact ih fun c hc => h c (List.mem_cons_of_mem b hc)

/-- Where no number goes on, it is as if none had been there. -/
theorem leadingZero_stop {place : Place} (hplace : place = .zero ∨ place = .number)
    (h : Stops rest) : leadingZero place rest = leadingZero .outside rest := by
  cases rest with
  | nil => rfl
  | cons b rest =>
    have hb := h b rfl
    have hdigit : isAsciiDigit b = false := by
      simp only [continuesNumber, Bool.or_eq_false_iff] at hb
      exact hb.1.1.1.1.1
    rcases hplace with rfl | rfl
    · simp only [leadingZero, Place.next, hb, hdigit, Bool.and_false, Bool.false_eq_true, if_false]
    · simp only [leadingZero, Place.next, hb, Bool.false_eq_true, if_false]
      rfl

theorem leadingZero_continues {ds : Bytes} (h : ∀ b ∈ ds, continuesNumber b = true)
    (rest : Bytes) : leadingZero .number (ds ++ rest) = leadingZero .number rest := by
  induction ds with
  | nil => rfl
  | cons b ds ih =>
    have hb := h b List.mem_cons_self
    rw [List.cons_append, leadingZero, Place.next, if_pos hb]
    exact ih fun c hc => h c (List.mem_cons_of_mem b hc)

theorem Digits.continues (h : Digits ds) : ∀ b ∈ ds, continuesNumber b = true := by
  intro b hb
  rw [continuesNumber, h.digit b hb]
  rfl

theorem FractionText.continues (h : FractionText fractionText fraction) :
    ∀ b ∈ fractionText, continuesNumber b = true := by
  cases h with
  | absent => simp
  | digits h => simpa [List.forall_mem_cons, continuesNumber] using h.continues

theorem ExponentText.continues (h : ExponentText exponentText exponent) :
    ∀ b ∈ exponentText, continuesNumber b = true := by
  have hletter : ∀ e : UInt8, e = 0x65 ∨ e = 0x45 → continuesNumber e = true := by
    intro e he
    rcases he with rfl | rfl <;> rfl
  cases h with
  | absent => simp
  | unsigned he h => simpa only [List.forall_mem_cons] using ⟨hletter _ he, h.continues⟩
  | plus he h => simpa only [List.forall_mem_cons] using ⟨hletter _ he, rfl, h.continues⟩
  | minus he h => simpa only [List.forall_mem_cons] using ⟨hletter _ he, rfl, h.continues⟩

/-- What follows an integer part does not go on with its digits. -/
theorem leadingZero_tail (hfraction : FractionText fractionText fraction)
    (hexponent : ExponentText exponentText exponent) {place : Place}
    (hplace : place = .zero ∨ place = .number) (h : Stops rest) :
    leadingZero place (fractionText ++ (exponentText ++ rest)) = leadingZero .outside rest := by
  have hnumber : leadingZero .number (fractionText ++ (exponentText ++ rest)) =
      leadingZero .outside rest := by
    rw [leadingZero_continues hfraction.continues, leadingZero_continues hexponent.continues,
      leadingZero_stop (.inr rfl) h]
  rcases hplace with rfl | rfl
  · -- behind the zero: the point, the letter of an exponent, or the end
    have hskip : ∀ b tail, continuesNumber b = true → isAsciiDigit b = false →
        leadingZero .zero (b :: tail) = leadingZero .number (b :: tail) := by
      intro b tail hb hdigit
      simp only [leadingZero, Place.next, hb, hdigit]
      rfl
    have hletter : ∀ e : UInt8, e = 0x65 ∨ e = 0x45 →
        continuesNumber e = true ∧ isAsciiDigit e = false := by
      intro e he
      rcases he with rfl | rfl <;> exact ⟨rfl, rfl⟩
    rw [← hnumber]
    cases hfraction with
    | digits => exact hskip _ _ rfl rfl
    | absent =>
      cases hexponent with
      | absent => exact (leadingZero_stop (.inl rfl) h).trans (leadingZero_stop (.inr rfl) h).symm
      | unsigned he => exact hskip _ _ (hletter _ he).1 (hletter _ he).2
      | plus he => exact hskip _ _ (hletter _ he).1 (hletter _ he).2
      | minus he => exact hskip _ _ (hletter _ he).1 (hletter _ he).2
  · exact hnumber

theorem leadingZero_sign (negative : Bool) (rest : Bytes) :
    leadingZero .outside (signText negative ++ rest) = leadingZero .outside rest := by
  cases negative with
  | false => rfl
  | true => exact leadingZero_byte rfl rest

/-- A number of the RFC is passed. -/
theorem NumberText.passes (h : NumberText IntText text x) : Passes text := by
  intro rest hrest
  cases h with
  | mk hint hfraction hexponent =>
    simp only [List.append_assoc, leadingZero_sign]
    rcases hint with rfl | ⟨hdigits, hhead⟩
    · exact leadingZero_tail hfraction hexponent (.inl rfl) hrest
    · rename_i integer _ _ _ _
      rcases integer with _ | ⟨d, ds⟩
      · exact (hdigits.nonempty rfl).elim
      have hd : Place.start d = .number := by
        have hdigit := hdigits.digit d List.mem_cons_self
        have hquote : d ≠ 0x22 := by
          rintro rfl
          cases hdigit
        have hzero : d ≠ 0x30 := by
          rintro rfl
          exact hhead rfl
        rw [Place.start, if_neg hquote, if_neg hzero, if_pos hdigit]
      rw [List.cons_append, leadingZero, Place.next, hd]
      show leadingZero .number (ds ++ _) = _
      have hds : ∀ b ∈ ds, continuesNumber b = true := by
        intro b hb
        exact hdigits.continues b (List.mem_cons_of_mem d hb)
      rw [leadingZero_continues hds]
      exact leadingZero_tail hfraction hexponent (.inr rfl) hrest

/-- A number with any digits is one of the RFC, or it is found. -/
theorem NumberText.rfc_or_found (h : NumberText Digits text x) :
    NumberText IntText text x ∨ Found text := by
  cases h with
  | @mk negative integer fractionText fraction exponentText exponent hint hfraction hexponent =>
    rcases integer with _ | ⟨d, ds⟩
    · exact (hint.nonempty rfl).elim
    by_cases hd : d = 0x30
    · subst hd
      cases ds with
      | nil => exact .inl (.mk (.inl rfl) hfraction hexponent)
      | cons e ds =>
        right
        intro rest _
        have he : isAsciiDigit e = true := hint.digit e (by simp)
        simp only [List.append_assoc, leadingZero_sign, List.cons_append]
        show (false || leadingZero .zero (e :: _)) = true
        rw [leadingZero, he]
        rfl
    · refine .inl (.mk (.inr ⟨hint, ?_⟩) hfraction hexponent)
      intro heq
      exact hd (Option.some.inj heq)

/-- A byte of a string that neither ends it nor starts an escape. -/
theorem leadingZero_inside {bs : Bytes} (h : ∀ b ∈ bs, b ≠ 0x22 ∧ b ≠ 0x5c) (rest : Bytes) :
    leadingZero .string (bs ++ rest) = leadingZero .string rest := by
  induction bs with
  | nil => rfl
  | cons b bs ih =>
    have hb := h b List.mem_cons_self
    rw [List.cons_append, leadingZero, Place.next, if_neg hb.2, if_neg hb.1]
    exact ih fun c hc => h c (List.mem_cons_of_mem b hc)

theorem Unescaped.inside (h : Unescaped c) : ∀ b ∈ String.utf8EncodeChar c, b ≠ 0x22 ∧ b ≠ 0x5c := by
  intro b hb
  by_cases hlow : c.toNat < 128
  · rw [utf8EncodeChar_of_ascii hlow, List.mem_singleton] at hb
    have hnat : b.toNat = c.toNat := by
      rw [hb]
      show (UInt8.ofNat c.toNat).toNat = c.toNat
      simp [Nat.mod_eq_of_lt (by omega : c.toNat < 256)]
    refine ⟨?_, ?_⟩
    · rintro rfl
      exact h.2.1 (Char.toNat_inj.mp hnat.symm)
    · rintro rfl
      exact h.2.2 (Char.toNat_inj.mp hnat.symm)
  · have hhigh : 128 ≤ b.toNat := high_of_mem_utf8EncodeChar (by omega) hb
    refine ⟨?_, ?_⟩
    · rintro rfl
      exact absurd hhigh (by decide)
    · rintro rfl
      exact absurd hhigh (by decide)

theorem Hex4.inside {u : Nat} (h : Hex4 ds u) : ∀ b ∈ ds, b ≠ 0x22 ∧ b ≠ 0x5c := by
  have hdigit : ∀ (b : UInt8) (x : Nat), hexDigit b = some x → b ≠ 0x22 ∧ b ≠ 0x5c := by
    intro b x hb
    refine ⟨?_, ?_⟩
    · rintro rfl
      cases hb
    · rintro rfl
      cases hb
  cases h with
  | mk h₁ h₂ h₃ h₄ =>
    simp only [List.forall_mem_cons, List.not_mem_nil, false_imp_iff, implies_true, and_true]
    exact ⟨hdigit _ _ h₁, hdigit _ _ h₂, hdigit _ _ h₃, hdigit _ _ h₄⟩

/-- A backslash hides the byte behind it. -/
theorem leadingZero_escape (b : UInt8) (rest : Bytes) :
    leadingZero .string (0x5c :: b :: rest) = leadingZero .string rest := rfl

theorem CharForm.inside (h : CharForm text) (rest : Bytes) :
    leadingZero .string (text ++ rest) = leadingZero .string rest := by
  cases h with
  | raw h => exact leadingZero_inside h.inside rest
  | short h => exact leadingZero_escape _ rest
  | unicode h => exact (leadingZero_escape _ _).trans (leadingZero_inside h.inside rest)

/-- Whatever a string says, the scan goes on behind it. -/
theorem StringForm.passes (h : StringForm text) : Passes text := by
  intro rest _
  cases h with
  | @mk text h =>
    have hinside : ∀ rest, leadingZero .string (text ++ rest) = leadingZero .string rest := by
      induction h with
      | nil => exact fun _ => rfl
      | cons hc _ ih =>
        intro rest
        rw [List.append_assoc, hc.inside, ih]
    show leadingZero .string (text ++ [0x22] ++ rest) = _
    rw [List.append_assoc, hinside]
    rfl

/-- A pair of surrogates is two escapes of the bare grammar. -/
theorem StringText.form {s : String} (h : StringText text s) : StringForm text := by
  have hchar : ∀ text texts c, CharText text c → CharsForm texts → CharsForm (text ++ texts) := by
    intro text texts c hc hs
    cases hc with
    | raw h => exact .cons (.raw h) hs
    | short h => exact .cons (.short h) hs
    | unicode h => exact .cons (.unicode h) hs
    | pair h _ h' _ _ =>
      have hpair := CharsForm.cons (.unicode h) (.cons (.unicode h') hs)
      simpa only [List.cons_append, List.append_assoc] using hpair
  cases h with
  | mk h =>
    refine .mk ?_
    induction h with
    | nil => exact .nil
    | cons hc _ ih => exact hchar _ _ _ hc ih

end Tokens

/-! ## Documents -/

section Documents

variable {p : Phrase} {w' : Bytes}

theorem stops_byte (b : UInt8) (hb : continuesNumber b = false) (rest : Bytes) :
    Stops (b :: rest) := by
  intro c hc
  cases hc
  exact hb

theorem Ws.stops (h : Ws w) (hrest : Stops rest) : Stops (w ++ rest) := by
  cases w with
  | nil => exact hrest
  | cons b w =>
    refine stops_byte b ?_ _
    rcases h b List.mem_cons_self with rfl | rfl | rfl | rfl <;> rfl

theorem Ws.stops_end (h : Ws w) : Stops w := by
  have hnil : Stops [] := by
    intro b hb
    cases hb
  have happend := h.stops hnil
  rwa [List.append_nil] at happend

/-- A bracket or a brace, by which no number goes on. -/
def Encloses (b : UInt8) : Prop := Place.start b = .outside ∧ continuesNumber b = false

instance : DecidablePred Encloses := fun b =>
  inferInstanceAs (Decidable (Place.start b = .outside ∧ continuesNumber b = false))

theorem Passes.enclosed {o c : UInt8} (ho : Encloses o) (hc : Encloses c) (h : Passes text) :
    Passes (o :: (text ++ [c])) := by
  intro rest _
  rw [List.cons_append, List.append_assoc, List.singleton_append, leadingZero_byte ho.1,
    h _ (stops_byte c hc.2 rest), leadingZero_byte hc.1]

theorem Found.enclosed {o c : UInt8} (ho : Encloses o) (hc : Encloses c) (h : Found text) :
    Found (o :: (text ++ [c])) := by
  intro rest _
  rw [List.cons_append, List.append_assoc, List.singleton_append, leadingZero_byte ho.1]
  exact h _ (stops_byte c hc.2 rest)

theorem Ws.passes (h : Ws w) : Passes w := fun rest _ => leadingZero_ws h rest

/-- The key of a member is passed over, and the colon behind it. -/
theorem leadingZero_key {key w₁ w₂ : Bytes} (hw : Ws w) (hkey : Passes key) (hw₁ : Ws w₁)
    (hw₂ : Ws w₂) (tail : Bytes) :
    leadingZero .outside (w ++ (key ++ (w₁ ++ 0x3a :: (w₂ ++ tail)))) =
      leadingZero .outside tail := by
  have hcolon : Place.start 0x3a = .outside := by decide
  rw [leadingZero_ws hw, hkey _ (hw₁.stops (stops_byte 0x3a rfl _)), leadingZero_ws hw₁,
    leadingZero_byte hcolon, leadingZero_ws hw₂]

theorem leadingZero_comma (hw : Ws w) (tail : Bytes) :
    leadingZero .outside (w ++ 0x2c :: tail) = leadingZero .outside tail := by
  have hcomma : Place.start 0x2c = .outside := by decide
  rw [leadingZero_ws hw, leadingZero_byte hcomma]

theorem Ws.stops_comma (h : Ws w) (tail : Bytes) : Stops (w ++ 0x2c :: tail) :=
  h.stops (stops_byte 0x2c rfl tail)

/-- The scan passes over whatever the grammar derives from tokens that it passes over. -/
theorem Derives.passes {T : Tokens} (hstring : ∀ text s, T.string text s → Passes text)
    (hnumber : ∀ text x, T.number text x → Passes text) (h : Derives T levels p text) :
    Passes text := by
  have hbrackets : Encloses 0x5b ∧ Encloses 0x5d := by decide
  have hbraces : Encloses 0x7b ∧ Encloses 0x7d := by decide
  induction h with
  | null => exact fun _ _ => rfl
  | bool b => cases b <;> exact fun _ _ => rfl
  | number h => exact hnumber _ _ h
  | string h => exact hstring _ _ h
  | emptyArray hw => exact hw.passes.enclosed hbrackets.1 hbrackets.2
  | array _ ih => exact ih.enclosed hbrackets.1 hbrackets.2
  | emptyObject hw => exact hw.passes.enclosed hbraces.1 hbraces.2
  | object _ ih => exact ih.enclosed hbraces.1 hbraces.2
  | item hw _ hw' ih =>
    intro rest hrest
    simp only [List.append_assoc, leadingZero_ws hw, ih _ (hw'.stops hrest), leadingZero_ws hw']
  | items hw _ hw' _ ih ihs =>
    intro rest hrest
    simp only [List.append_assoc, List.cons_append, leadingZero_ws hw, ih _ (hw'.stops_comma _),
      leadingZero_comma hw', ihs _ hrest]
  | member hw hkey hw₁ hw₂ _ hw' ih =>
    intro rest hrest
    simp only [List.append_assoc, List.cons_append,
      leadingZero_key hw (hstring _ _ hkey) hw₁ hw₂, ih _ (hw'.stops hrest), leadingZero_ws hw']
  | members hw hkey hw₁ hw₂ _ hw' _ ih ihs =>
    intro rest hrest
    simp only [List.append_assoc, List.cons_append,
      leadingZero_key hw (hstring _ _ hkey) hw₁ hw₂, ih _ (hw'.stops_comma _),
      leadingZero_comma hw', ihs _ hrest]

theorem Derives.passes_abnf (h : Derives abnf levels p text) : Passes text := by
  refine h.passes ?_ ?_
  · intro text s hs
    exact StringForm.passes hs
  · intro text x hx
    exact NumberText.passes hx

theorem Derives.abnf_of_rfc (h : Derives rfc levels p text) : Derives abnf levels p text := by
  refine h.mono ?_ ?_
  · intro text s hs
    exact StringText.form hs
  · intro text x hx
    exact hx

/-- A text of the loose grammar is one of the RFC, or the scan finds a number in it. -/
theorem Derives.rfc_or_found (h : Derives loose levels p text) :
    Derives rfc levels p text ∨ Found text := by
  have hbrackets : Encloses 0x5b ∧ Encloses 0x5d := by decide
  have hbraces : Encloses 0x7b ∧ Encloses 0x7d := by decide
  have hkeys : ∀ key k, loose.string key k → Passes key := by
    intro key k hkey
    exact (StringText.form hkey).passes
  induction h with
  | null => exact .inl .null
  | bool b => exact .inl (.bool b)
  | number h => exact (NumberText.rfc_or_found h).imp .number id
  | string h => exact .inl (.string h)
  | emptyArray hw => exact .inl (.emptyArray hw)
  | array _ ih => exact ih.imp .array fun hfound => hfound.enclosed hbrackets.1 hbrackets.2
  | emptyObject hw => exact .inl (.emptyObject hw)
  | object _ ih => exact ih.imp .object fun hfound => hfound.enclosed hbraces.1 hbraces.2
  | item hw _ hw' ih =>
    rcases ih with h | hfound
    · exact .inl (.item hw h hw')
    · right
      intro rest hrest
      simp only [List.append_assoc, leadingZero_ws hw, hfound _ (hw'.stops hrest)]
  | items hw _ hw' _ ih ihs =>
    rcases ih with h | hfound
    · rcases ihs with hs | hfound
      · exact .inl (.items hw h hw' hs)
      · -- the item is passed over, what is found stands behind it
        right
        intro rest hrest
        simp only [List.append_assoc, List.cons_append, leadingZero_ws hw,
          h.abnf_of_rfc.passes_abnf _ (hw'.stops_comma _), leadingZero_comma hw', hfound _ hrest]
    · right
      intro rest _
      simp only [List.append_assoc, List.cons_append, leadingZero_ws hw,
        hfound _ (hw'.stops_comma _)]
  | member hw hkey hw₁ hw₂ _ hw' ih =>
    rcases ih with h | hfound
    · exact .inl (.member hw hkey hw₁ hw₂ h hw')
    · right
      intro rest hrest
      simp only [List.append_assoc, List.cons_append,
        leadingZero_key hw (hkeys _ _ hkey) hw₁ hw₂, hfound _ (hw'.stops hrest)]
  | members hw hkey hw₁ hw₂ _ hw' _ ih ihs =>
    rcases ih with h | hfound
    · rcases ihs with hs | hfound
      · exact .inl (.members hw hkey hw₁ hw₂ h hw' hs)
      · right
        intro rest hrest
        simp only [List.append_assoc, List.cons_append,
          leadingZero_key hw (hkeys _ _ hkey) hw₁ hw₂,
          h.abnf_of_rfc.passes_abnf _ (hw'.stops_comma _), leadingZero_comma hw', hfound _ hrest]
    · right
      intro rest _
      simp only [List.append_assoc, List.cons_append,
        leadingZero_key hw (hkeys _ _ hkey) hw₁ hw₂, hfound _ (hw'.stops_comma _)]

/-- The text is derivable from the grammar of the RFC, nested at most `maxDepth` deep. -/
def Derivable (input : String) : Prop := ∃ v, Document abnf maxDepth (utf8 input) v

/-- The text has the shape of a document but for the integer parts, and in one of its
numbers a digit follows a zero at the start. -/
def LooseOnly (input : String) : Prop :=
  (∃ v, Document loose maxDepth (utf8 input) v) ∧ leadingZero .outside (utf8 input) = true

/-- No document of the grammar has a superfluous zero. -/
theorem Document.no_leadingZero {input : Bytes} {v : JsonValue}
    (h : Document abnf levels input v) : leadingZero .outside input = false := by
  rcases h with ⟨w, text, w', hw, hderives, hw', rfl⟩
  have hnil := leadingZero_ws hw' []
  rw [List.append_nil] at hnil
  rw [leadingZero_ws hw, hderives.passes_abnf _ hw'.stops_end, hnil]
  rfl

/-- What is parsed is derivable, unless a number has a superfluous zero. -/
theorem parse_strict_iff (input : String) :
    ((∃ v, parse input = .ok v) → Derivable input) ↔ ¬ LooseOnly input := by
  constructor
  · rintro hstrict ⟨⟨v, hloose⟩, hzero⟩
    rcases hstrict ⟨v, parse_eq_ok_iff_document.mpr hloose⟩ with ⟨v', habnf⟩
    rw [habnf.no_leadingZero] at hzero
    cases hzero
  · rintro hnot ⟨v, hparse⟩
    have hloose := parse_eq_ok_iff_document.mp hparse
    rcases hloose with ⟨w, text, w', hw, hderives, hw', hinput⟩
    rcases hderives.rfc_or_found with hrfc | hfound
    · exact ⟨v, w, text, w', hw, hrfc.abnf_of_rfc, hw', hinput⟩
    · exfalso
      refine hnot ⟨⟨v, w, text, w', hw, hderives, hw', hinput⟩, ?_⟩
      rw [hinput, leadingZero_ws hw]
      exact hfound _ hw'.stops_end

/-- A number that starts with two zeros is parsed. -/
theorem parse_not_strict :
    ¬ ((∃ v, parse "007" = .ok v) → Derivable "007") := by
  intro hstrict
  have hseven : Digits [0x30, 0x30, 0x37] := ⟨by decide, by simp [isAsciiDigit]⟩
  have hnumber : NumberText Digits [0x30, 0x30, 0x37] (parseF64 false [0x30, 0x30, 0x37] [] 0) :=
    @NumberText.mk _ false _ _ _ _ _ hseven .absent .absent
  have hnone : Ws [] := by simp [Ws]
  have hloose : Document loose maxDepth (utf8 "007")
      (.number (parseF64 false [0x30, 0x30, 0x37] [] 0)) :=
    ⟨[], _, [], hnone, .number hnumber, hnone, by decide⟩
  rcases hstrict ⟨_, hloose.parse_ok⟩ with ⟨v, habnf⟩
  have hzero : leadingZero .outside (utf8 "007") = true := by decide
  rw [habnf.no_leadingZero] at hzero
  cases hzero

end Documents

end Json

end FerroHttp
