import FerroHttp.Json.Grammar
import FerroHttp.Json.Reading

/-!
# Json.Complete — what the grammar derives is parsed

Token by token and production by production: a text that a phrase of the grammar derives
is read to what it denotes, with whatever may follow it left over. The induction is on
the derivation; an array or an object is read by a loop whose iterations are the
productions of its body.
-/

namespace FerroHttp

namespace Json

open Exec Text

variable {n levels : Nat} {text rest w : Bytes} {v : JsonValue}

/-! ## Strings -/

section Strings

variable {out s : String} {c : Char} {cs : List Char} {ds : Bytes} {u : Nat}

theorem Hex4.read (h : Hex4 ds u) (rest : Bytes) : readHex4 n (ds ++ rest) = .ok (u, rest) := by
  cases h with
  | mk h₁ h₂ h₃ h₄ =>
    simp only [readHex4, readHex, List.cons_append, List.nil_append, h₁, h₂, h₃, h₄, Nat.zero_mul,
      Nat.zero_add]

/-- The code of a character is no surrogate. -/
theorem Char.not_surrogate (c : Char) : ¬ HighSurrogate c.toNat ∧ ¬ LowSurrogate c.toNat := by
  have hvalid := c.valid
  have hval : c.val.toNat = c.toNat := rfl
  simp only [UInt32.isValidChar, Nat.isValidChar, hval] at hvalid
  unfold HighSurrogate LowSurrogate
  omega

theorem charFromU32_toNat (c : Char) : charFromU32 c.toNat = some c := by
  have hvalid : c.toNat.isValidChar := c.valid
  rw [charFromU32, if_pos hvalid, Char.ofNat_toNat]

/-- A character is read from its own code unit. -/
theorem unicodeScalar_single (h : Hex4 ds c.toNat) (rest : Bytes) :
    unicodeScalar n (ds ++ rest) = .ok (c.toNat, rest) := by
  have hsurrogate := Char.not_surrogate c
  unfold HighSurrogate LowSurrogate at hsurrogate
  simp only [unicodeScalar, h.read, Outcome.ok_bind]
  rw [if_neg hsurrogate.1, if_neg hsurrogate.2]

/-- A pair of surrogates is read as one scalar. -/
theorem unicodeScalar_pair {ds' : Bytes} {u' : Nat} (h : Hex4 ds u) (hu : HighSurrogate u)
    (h' : Hex4 ds' u') (hu' : LowSurrogate u') (rest : Bytes) :
    unicodeScalar n (ds ++ (0x5c :: 0x75 :: (ds' ++ rest))) =
      .ok (0x10000 + (u - 0xd800) * 0x400 + (u' - 0xdc00), rest) := by
  unfold HighSurrogate at hu
  unfold LowSurrogate at hu'
  have hslash : (0x5c != (0x5c : UInt8)) = false := by decide
  have hletter : (0x75 != (0x75 : UInt8)) = false := by decide
  simp only [unicodeScalar, h.read, Outcome.ok_bind, hslash, hletter, Bool.false_eq_true, if_false,
    h'.read]
  rw [if_pos hu, if_pos hu']

theorem parseEscape_short {b : UInt8} (h : (b, c) ∈ shortEscapes) (rest : Bytes) :
    parseEscape n out (b :: rest) = .ok (out.push c, rest) := by
  simp only [shortEscapes, List.mem_cons, Prod.mk.injEq, List.not_mem_nil, or_false] at h
  -- the escapes in the order of the source
  rcases h with ⟨rfl, rfl⟩ | ⟨rfl, rfl⟩ | ⟨rfl, rfl⟩ | ⟨rfl, rfl⟩ | ⟨rfl, rfl⟩ | ⟨rfl, rfl⟩ |
    ⟨rfl, rfl⟩ | ⟨rfl, rfl⟩ <;> rfl

theorem parseEscape_unicode {tail : Bytes} (h : unicodeScalar n tail = .ok (c.toNat, rest)) :
    parseEscape n out (0x75 :: tail) = .ok (out.push c, rest) := by
  show parseUnicodeEscape n out tail = _
  simp only [parseUnicodeEscape, h, Outcome.ok_bind, charFromU32_toNat]

/-- Whichever way a character is written, one step of the loop reads it. -/
theorem stringStep_charText (h : CharText text c) (rest : Bytes) :
    stringStep n (out, text ++ rest) = .ok (.again (out.push c, rest)) := by
  cases h with
  | raw h => exact stringStep_plain h.2.1 h.2.2 (Nat.not_lt.mpr h.1)
  | short h => exact stringStep_escape (parseEscape_short h rest)
  | unicode h => exact stringStep_escape (parseEscape_unicode (unicodeScalar_single h rest))
  | pair h hu h' hv hc =>
    have hscalar := unicodeScalar_pair (n := n) h hu h' hv rest
    rw [← hc] at hscalar
    have hread := stringStep_escape (@parseEscape_unicode n rest out c _ hscalar)
    simpa only [List.cons_append, List.append_assoc] using hread

/-- The loop over the inside of a string ends behind its closing quote. -/
theorem runLoop_charsText (h : CharsText text cs) (rest : Bytes) : ∀ out, ∃ fuel,
    runLoop (stringStep n) fuel (out, text ++ 0x22 :: rest) =
      .ok (out ++ String.ofList cs, rest) := by
  induction h with
  | nil =>
    intro out
    refine ⟨1, ?_⟩
    rw [runLoop_done (r := (out, rest)) rfl]
    simp
  | cons h _ ih =>
    intro out
    rcases ih (out.push _) with ⟨fuel, hfuel⟩
    refine ⟨fuel + 1, ?_⟩
    rw [List.append_assoc, runLoop_again (stringStep_charText h _), hfuel]
    congr 2
    apply String.toList_inj.mp
    simp

/-- A string of the grammar is a string literal for what it denotes. -/
theorem StringText.quoted (h : StringText text s) : Quoted text s := by
  cases h with
  | @mk text cs h =>
    intro n rest
    rcases runLoop_charsText (n := n) h rest "" with ⟨fuel, hfuel⟩
    have hreturns := (runLoop_shrinks (stringStep_sat n) "" (text ++ 0x22 :: rest)).returns
    have hopen : 0x22 :: (text ++ [0x22]) ++ rest = 0x22 :: (text ++ 0x22 :: rest) := by simp
    rw [String.empty_append] at hfuel
    rw [hopen]
    show runLoop (stringStep n) _ _ = _
    exact runLoop_unique hreturns hfuel

end Strings

/-! ## Numbers -/

section Numbers

variable {integer fractionText fraction exponentText ds : Bytes} {exponent : Int} {x : Float}

theorem Digits.consume (h : Digits ds) (hends : ∀ b, rest.head? = some b → isAsciiDigit b = false) :
    consumeDigits n (ds ++ rest) = .ok (ds, rest) :=
  consumeDigits_append n h.nonempty (List.all_eq_true.mpr h.digit) hends

/-- Behind an exponent, or where there is none, the number is over. -/
theorem ExponentText.read (h : ExponentText exponentText exponent) (hends : Ends rest) :
    parseExponent n (exponentText ++ rest) = .ok (exponent, rest) := by
  have hdigit : ∀ b, rest.head? = some b → isAsciiDigit b = false := by
    intro b hb
    exact (hends b hb).1
  have hletter : ∀ e : UInt8, e = 0x65 ∨ e = 0x45 → (e == 0x65 || e == 0x45) = true := by
    intro e he
    simpa using he
  cases h with
  | absent =>
    cases rest with
    | nil => rfl
    | cons b tail =>
      have hb : (b == 0x65 || b == 0x45) = false := by simpa using (hends b rfl).2.2
      simp only [List.nil_append, parseExponent, hb, Bool.false_eq_true, if_false]
  | @unsigned e ds he hds =>
    cases ds with
    | nil => exact (hds.nonempty rfl).elim
    | cons d ds =>
      -- the first digit is no sign
      have hd : (d == 0x2b || d == 0x2d) = false := by
        have hdig := hds.digit d List.mem_cons_self
        rw [Bool.or_eq_false_iff, beq_eq_false_iff_ne, beq_eq_false_iff_ne]
        refine ⟨?_, ?_⟩
        · rintro rfl
          exact absurd hdig (by decide)
        · rintro rfl
          exact absurd hdig (by decide)
      have hread := hds.consume (n := n) hdigit
      rw [List.cons_append] at hread
      simp only [List.cons_append, parseExponent, hletter e he, if_true, hd, Bool.false_eq_true,
        if_false, hread, Outcome.ok_bind]
  | @plus e ds he hds =>
    have hplus : ((0x2b : UInt8) == 0x2d) = false := by decide
    simp only [List.cons_append, parseExponent, hletter e he, if_true, BEq.rfl, Bool.true_or,
      hds.consume hdigit, Outcome.ok_bind, hplus, Bool.false_eq_true, if_false]
  | @minus e ds he hds =>
    simp only [List.cons_append, parseExponent, hletter e he, if_true, BEq.rfl, Bool.or_true,
      hds.consume hdigit, Outcome.ok_bind]

/-- An exponent does not start like a fraction or a further digit. -/
theorem ExponentText.head (h : ExponentText exponentText exponent) (hends : Ends rest) {b : UInt8}
    (hb : (exponentText ++ rest).head? = some b) : isAsciiDigit b = false ∧ b ≠ 0x2e := by
  have hletter : ∀ e : UInt8, e = 0x65 ∨ e = 0x45 → isAsciiDigit e = false ∧ e ≠ 0x2e := by
    intro e he
    rcases he with rfl | rfl <;> decide
  cases h with
  | absent => exact ⟨(hends b hb).1, (hends b hb).2.1⟩
  | unsigned he => cases hb; exact hletter b he
  | plus he => cases hb; exact hletter b he
  | minus he => cases hb; exact hletter b he

theorem FractionText.read (h : FractionText fractionText fraction)
    (hends : ∀ b, rest.head? = some b → isAsciiDigit b = false ∧ b ≠ 0x2e) :
    parseFraction n (fractionText ++ rest) = .ok (fraction, rest) := by
  cases h with
  | absent =>
    cases rest with
    | nil => rfl
    | cons b tail =>
      have hb : (b == 0x2e) = false := by simpa using (hends b rfl).2
      simp only [List.nil_append, parseFraction, hb, Bool.false_eq_true, if_false]
  | digits hds =>
    simp only [List.cons_append, parseFraction, BEq.rfl, if_true]
    exact hds.consume fun b hb => (hends b hb).1

theorem FractionText.head (h : FractionText fractionText fraction)
    (hends : ∀ b, rest.head? = some b → isAsciiDigit b = false ∧ b ≠ 0x2e) {b : UInt8}
    (hb : (fractionText ++ rest).head? = some b) : isAsciiDigit b = false := by
  cases h with
  | absent => exact (hends b hb).1
  | digits => cases hb; decide

/-- The first byte of a number is its sign or a digit. -/
theorem NumberText.head (h : NumberText Digits text x) :
    ∃ b tail, text = b :: tail ∧ (b = 0x2d ∨ isAsciiDigit b = true) := by
  cases h with
  | @mk negative integer _ _ _ _ hint =>
    cases negative with
    | true => exact ⟨_, _, rfl, .inl rfl⟩
    | false =>
      rcases List.exists_cons_of_ne_nil hint.nonempty with ⟨d, ds, rfl⟩
      exact ⟨d, _, rfl, .inr (hint.digit d List.mem_cons_self)⟩

/-- A number starts with a minus sign exactly if it is negative, and with no other sign. -/
theorem Digits.signText_head (h : Digits integer) (negative : Bool) (rest : Bytes) :
    ((signText negative ++ (integer ++ rest)).head? == some 0x2d) = negative ∧
      (negative || (signText negative ++ (integer ++ rest)).head? == some 0x2b) = negative := by
  cases negative with
  | true => exact ⟨rfl, rfl⟩
  | false =>
    rcases List.exists_cons_of_ne_nil h.nonempty with ⟨d, ds, rfl⟩
    have hd := h.digit d List.mem_cons_self
    have hother : ∀ c : UInt8, isAsciiDigit c = false → (some d == some c) = false := by
      intro c hc
      rw [beq_eq_false_iff_ne]
      intro heq
      cases heq
      rw [hc] at hd
      cases hd
    exact ⟨hother 0x2d (by decide), hother 0x2b (by decide)⟩

theorem signText_tail (negative : Bool) (rest : Bytes) :
    (if negative then (signText negative ++ rest).tail else signText negative ++ rest) = rest := by
  cases negative with
  | true => rfl
  | false => rfl

/-- A number is read in its parts. -/
theorem NumberText.read (h : NumberText Digits text x) (hends : Ends rest) :
    parseNumber n (text ++ rest) = .ok (.number x, rest) := by
  cases h with
  | @mk negative integer fractionText fraction exponentText exponent hint hfraction hexponent =>
    have hexp := hexponent.read (n := n) hends
    have hfrac := hfraction.read (n := n) fun b hb => hexponent.head hends hb
    have hread := hint.consume (n := n) fun b hb =>
      hfraction.head (fun b hb => hexponent.head hends hb) hb
    have hsplit : signText negative ++ (integer ++ (fractionText ++ exponentText)) ++ rest =
        signText negative ++ (integer ++ (fractionText ++ (exponentText ++ rest))) := by simp
    have hsign := (hint.signText_head negative (fractionText ++ (exponentText ++ rest))).1
    have hdrop := signText_tail negative (integer ++ (fractionText ++ (exponentText ++ rest)))
    rw [hsplit]
    simp only [parseNumber, hsign, hdrop, hread, Outcome.ok_bind, hfrac, hexp]

/-- A number of the grammar is a value, unless it goes on. -/
theorem NumberText.spells (h : NumberText Digits text x) : Spells levels text (.number x) := by
  intro n rest hends
  rcases parseValue_eq n levels with ⟨parseItem, heq⟩
  have hread := h.read (n := n) hends
  rcases h.head with ⟨b, tail, rfl, hb⟩
  have hdispatch : parseValueWith n parseItem (b :: tail ++ rest) =
      parseNumber n (b :: tail ++ rest) := by
    have hother : ∀ c : UInt8, c ≠ 0x2d → isAsciiDigit c = false → (b == c) = false := by
      intro c hc hdigit
      rw [beq_eq_false_iff_ne]
      rintro rfl
      rcases hb with hb | hb
      · exact hc hb
      · rw [hb] at hdigit
        cases hdigit
    have hnumber : (b == 0x2d || isAsciiDigit b) = true := by
      rcases hb with rfl | hb
      · rfl
      · rw [hb, Bool.or_true]
    have hbool : (b == 0x74 || b == 0x66) = false := by
      rw [hother 0x74 (by decide) rfl, hother 0x66 (by decide) rfl]
      rfl
    simp only [List.cons_append, parseValueWith, hother 0x7b (by decide) rfl,
      hother 0x5b (by decide) rfl, hother 0x22 (by decide) rfl, hbool, hother 0x6e (by decide) rfl,
      hnumber, if_true, Bool.false_eq_true, if_false]
  rw [heq, hdispatch, hread]

end Numbers

/-! ## Values -/

section Values

variable {vs : List JsonValue} {ms : List (String × JsonValue)} {p : Phrase}

theorem Ws.blank (h : Ws w) : ∀ b ∈ w, isWs b = true := by
  intro b hb
  rcases h b hb with rfl | rfl | rfl | rfl <;> rfl

theorem Ws.skip (h : Ws w) (rest : Bytes) : skipWs (w ++ rest) = skipWs rest :=
  skipWs_append h.blank rest

/-- White space in front of something that ends a number ends it too. -/
theorem Ws.ends (h : Ws w) (hends : Ends rest) : Ends (w ++ rest) := by
  cases w with
  | nil => exact hends
  | cons c w =>
    refine ends_cons ?_
    rcases h c List.mem_cons_self with rfl | rfl | rfl | rfl <;> decide

/-- Behind an item: white space and a comma, or the closing byte. -/
theorem closing_ws {σ : Type} {close b : UInt8} {next : σ} {value : JsonValue} (h : Ws w)
    (hb : isWs b = false) :
    closing n close next value (w ++ b :: rest) = closing n close next value (b :: rest) := by
  simp only [closing, h.skip, skipWs_cons hb]

/-- What a phrase is to be read as: a value, or the rest of an array or an object. -/
def Reads (levels : Nat) : Phrase → Bytes → Prop
  | .value v, text => Spells levels text v
  | .items vs, text => ∀ n acc rest, ∃ fuel,
      runLoop (itemStep n (parseValue n levels)) fuel (acc, text ++ 0x5d :: rest) =
        .ok (.array (acc ++ vs), rest)
  | .members ms, text => ∀ n acc rest, ∃ fuel,
      runLoop (memberStep n (parseValue n levels)) fuel (acc, text ++ 0x7d :: rest) =
        .ok (.object (acc ++ ms), rest)

/-- An item between white space is one step of the loop. -/
theorem itemStep_spells {w' : Bytes} {b : UInt8} {acc : List JsonValue} (hw : Ws w)
    (h : Spells levels text v) (hw' : Ws w') (hb : Ends (b :: rest)) (hblank : isWs b = false) :
    itemStep n (parseValue n levels) (acc, w ++ (text ++ (w' ++ b :: rest))) =
      closing n 0x5d (acc ++ [v]) (.array (acc ++ [v])) (b :: rest) := by
  simp only [itemStep, hw.skip, skipWs_spells h, h n _ (hw'.ends hb), Outcome.ok_bind,
    closing_ws hw' hblank]

/-- A member between white space is one step of the loop. -/
theorem memberStep_spells {key w₁ w₂ w' : Bytes} {b : UInt8} {k : String}
    {acc : List (String × JsonValue)} (hw : Ws w) (hkey : Quoted key k) (hw₁ : Ws w₁)
    (hw₂ : Ws w₂) (h : Spells levels text v) (hw' : Ws w') (hb : Ends (b :: rest))
    (hblank : isWs b = false) :
    memberStep n (parseValue n levels)
        (acc, w ++ (key ++ (w₁ ++ 0x3a :: (w₂ ++ (text ++ (w' ++ b :: rest)))))) =
      closing n 0x7d (acc ++ [(k, v)]) (.object (acc ++ [(k, v)])) (b :: rest) := by
  have hcolon : isWs 0x3a = false := by decide
  have hskip : ∀ rest, skipWs (key ++ rest) = key ++ rest := by
    intro rest
    rcases hkey.cons with ⟨tail, rfl⟩
    exact skipWs_cons (by decide)
  have hhead : ∀ rest, ¬ (key ++ rest).head? ≠ some 0x22 := by
    intro rest
    rcases hkey.cons with ⟨tail, rfl⟩
    simp
  simp only [memberStep, hw.skip, hskip, hhead, if_false, hkey n, Outcome.ok_bind, hw₁.skip,
    skipWs_cons hcolon, expect, BEq.rfl, if_true, hw₂.skip, skipWs_spells h, h n _ (hw'.ends hb),
    closing_ws hw' hblank]

/-- The items of an array, and its brackets around them. -/
theorem spells_array (h : Reads levels (.items vs) text) :
    Spells (levels + 1) (0x5b :: (text ++ [0x5d])) (.array vs) := by
  intro n rest _
  have hopen : 0x5b :: (text ++ [0x5d]) ++ rest = 0x5b :: (text ++ 0x5d :: rest) := by simp
  rcases h n [] rest with ⟨fuel, hloop⟩
  cases fuel with
  | zero => cases hloop
  | succ fuel =>
    rw [List.nil_append, ← runLoop_congr (itemStep_skipWs [] _)] at hloop
    have hreturns := (runLoop_shrinks (itemStep_sat n (parseValue_sat n levels)) []
      (skipWs (text ++ 0x5d :: rest))).returns
    have hhead : (skipWs (text ++ 0x5d :: rest)).head? ≠ some 0x5d := by
      intro hbracket
      -- the loop would refuse to start with the closing bracket
      rcases List.head?_eq_some_iff.mp hbracket with ⟨tail, htail⟩
      rcases parseValue_eq n levels with ⟨parseItem, heq⟩
      have hskip : skipWs (0x5d :: tail) = 0x5d :: tail := skipWs_cons (by decide)
      rw [htail, runLoop, loop] at hloop
      simp only [itemStep, hskip, heq] at hloop
      cases hloop
    rw [hopen]
    show parseArray n (parseValue n levels) (0x5b :: _) = _
    simp only [parseArray, expect, BEq.rfl, if_true, Outcome.ok_bind, hhead, if_false]
    exact runLoop_unique hreturns hloop

/-- The members of an object, and its braces around them. -/
theorem spells_object (h : Reads levels (.members ms) text) :
    Spells (levels + 1) (0x7b :: (text ++ [0x7d])) (.object ms) := by
  intro n rest _
  have hopen : 0x7b :: (text ++ [0x7d]) ++ rest = 0x7b :: (text ++ 0x7d :: rest) := by simp
  rcases h n [] rest with ⟨fuel, hloop⟩
  cases fuel with
  | zero => cases hloop
  | succ fuel =>
    rw [List.nil_append, ← runLoop_congr (memberStep_skipWs [] _)] at hloop
    have hreturns := (runLoop_shrinks (memberStep_sat n (parseValue_sat n levels)) []
      (skipWs (text ++ 0x7d :: rest))).returns
    have hhead : (skipWs (text ++ 0x7d :: rest)).head? ≠ some 0x7d := by
      intro hbrace
      rw [runLoop, loop] at hloop
      simp only [memberStep, skipWs_skipWs, hbrace] at hloop
      cases hloop
    rw [hopen]
    show parseObject n (parseValue n levels) (0x7b :: _) = _
    simp only [parseObject, expect, BEq.rfl, if_true, Outcome.ok_bind, hhead, if_false]
    exact runLoop_unique hreturns hloop

section Bodies

variable {w₁ w₂ w' key texts : Bytes} {k : String} {vs : List JsonValue}
  {ms : List (String × JsonValue)}

theorem Reads.item (hw : Ws w) (h : Spells levels text v) (hw' : Ws w') :
    Reads levels (.items [v]) (w ++ (text ++ w')) := by
  intro n acc rest
  have hbracket : isWs 0x5d = false := by decide
  refine ⟨1, runLoop_done ?_⟩
  simp only [List.append_assoc]
  rw [itemStep_spells hw h hw' (ends_cons (by decide)) hbracket]
  simp only [closing, skipWs_cons hbracket]
  rfl

/-- The comma goes on with the items behind it. -/
theorem Reads.items (hw : Ws w) (h : Spells levels text v) (hw' : Ws w')
    (hs : Reads levels (.items vs) texts) :
    Reads levels (.items (v :: vs)) (w ++ (text ++ (w' ++ 0x2c :: texts))) := by
  intro n acc rest
  have hcomma : isWs 0x2c = false := by decide
  rcases hs n (acc ++ [v]) rest with ⟨fuel, hfuel⟩
  refine ⟨fuel + 1, ?_⟩
  simp only [List.append_assoc, List.cons_append]
  rw [runLoop_again, hfuel, List.append_assoc, List.singleton_append]
  rw [itemStep_spells hw h hw' (ends_cons (by decide)) hcomma]
  simp only [closing, skipWs_cons hcomma]
  rfl

theorem Reads.member (hw : Ws w) (hkey : Quoted key k) (hw₁ : Ws w₁) (hw₂ : Ws w₂)
    (h : Spells levels text v) (hw' : Ws w') :
    Reads levels (.members [(k, v)]) (w ++ (key ++ (w₁ ++ 0x3a :: (w₂ ++ (text ++ w'))))) := by
  intro n acc rest
  have hbrace : isWs 0x7d = false := by decide
  refine ⟨1, runLoop_done ?_⟩
  simp only [List.append_assoc, List.cons_append]
  rw [memberStep_spells hw hkey hw₁ hw₂ h hw' (ends_cons (by decide)) hbrace]
  simp only [closing, skipWs_cons hbrace]
  rfl

theorem Reads.members (hw : Ws w) (hkey : Quoted key k) (hw₁ : Ws w₁) (hw₂ : Ws w₂)
    (h : Spells levels text v) (hw' : Ws w') (hs : Reads levels (.members ms) texts) :
    Reads levels (.members ((k, v) :: ms))
      (w ++ (key ++ (w₁ ++ 0x3a :: (w₂ ++ (text ++ (w' ++ 0x2c :: texts)))))) := by
  intro n acc rest
  have hcomma : isWs 0x2c = false := by decide
  rcases hs n (acc ++ [(k, v)]) rest with ⟨fuel, hfuel⟩
  refine ⟨fuel + 1, ?_⟩
  simp only [List.append_assoc, List.cons_append]
  rw [runLoop_again, hfuel, List.append_assoc, List.singleton_append]
  rw [memberStep_spells hw hkey hw₁ hw₂ h hw' (ends_cons (by decide)) hcomma]
  simp only [closing, skipWs_cons hcomma]
  rfl

theorem spells_emptyArray (hw : Ws w) :
    Spells (levels + 1) (0x5b :: (w ++ [0x5d])) (.array []) := by
  intro n rest _
  have hskip : skipWs (w ++ [0x5d] ++ rest) = 0x5d :: rest := by
    rw [List.append_assoc, hw.skip]
    exact skipWs_cons (by decide)
  show parseArray n (parseValue n levels) (0x5b :: (w ++ [0x5d] ++ rest)) = _
  simp only [parseArray, expect, BEq.rfl, if_true, Outcome.ok_bind, hskip, List.head?_cons,
    List.tail_cons]

theorem spells_emptyObject (hw : Ws w) :
    Spells (levels + 1) (0x7b :: (w ++ [0x7d])) (.object []) := by
  intro n rest _
  have hskip : skipWs (w ++ [0x7d] ++ rest) = 0x7d :: rest := by
    rw [List.append_assoc, hw.skip]
    exact skipWs_cons (by decide)
  show parseObject n (parseValue n levels) (0x7b :: (w ++ [0x7d] ++ rest)) = _
  simp only [parseObject, expect, BEq.rfl, if_true, Outcome.ok_bind, hskip, List.head?_cons,
    List.tail_cons]

end Bodies

/-- Whatever a phrase derives is read as the phrase. -/
theorem Derives.reads (h : Derives loose levels p text) : Reads levels p text := by
  induction h with
  | null =>
    intro n rest _
    rcases parseValue_eq n _ with ⟨parseItem, heq⟩
    have htext : utf8 "null" = [0x6e, 0x75, 0x6c, 0x6c] := by decide
    rw [heq, htext]
    rfl
  | bool b =>
    have hname : (if b then "true" else "false") = toString b := by cases b <;> rfl
    rw [hname]
    exact spells_bool b
  | number h => exact NumberText.spells h
  | string h => exact (StringText.quoted h).spells
  | emptyArray hw => exact spells_emptyArray hw
  | array _ ih => exact spells_array ih
  | emptyObject hw => exact spells_emptyObject hw
  | object _ ih => exact spells_object ih
  | item hw _ hw' ih => exact .item hw ih hw'
  | items hw _ hw' _ ih ihs => exact .items hw ih hw' ihs
  | member hw hkey hw₁ hw₂ _ hw' ih => exact .member hw (StringText.quoted hkey) hw₁ hw₂ ih hw'
  | members hw hkey hw₁ hw₂ _ hw' _ ih ihs =>
    exact .members hw (StringText.quoted hkey) hw₁ hw₂ ih hw' ihs

/-- A value between white space is a document. -/
theorem Document.parse_ok {input : String} (h : Document loose maxDepth (utf8 input) v) :
    parse input = .ok v := by
  rcases h with ⟨w, text, w', hw, hderives, hw', hinput⟩
  have hspells : Spells maxDepth text v := hderives.reads
  have hends : Ends w' := by
    have hnil : Ends [] := by
      intro b hb
      cases hb
    have happend := hw'.ends hnil
    rwa [List.append_nil] at happend
  have hskip : skipWs w' = [] := by
    have happend := hw'.skip []
    rwa [List.append_nil] at happend
  rw [parse_eq_ok_iff, hinput]
  simp only [parseDocument, hw.skip, skipWs_spells hspells, hspells _ _ hends, Outcome.ok_bind,
    hskip, List.isEmpty_nil, if_true]

/-- Completeness: a text of the RFC, whatever its spelling and white space, is parsed to
exactly the value that it denotes. -/
theorem parse_complete {input : String} {v : JsonValue}
    (h : Document rfc maxDepth (utf8 input) v) : parse input = .ok v := by
  rcases h with ⟨w, text, w', hw, hderives, hw', hinput⟩
  exact Document.parse_ok ⟨w, text, w', hw, hderives.loose_of_rfc, hw', hinput⟩

theorem parse_complete_array :
    parse "[ \"\\u00e9\\n\" ,-0.5E+1]" =
      .ok (.array [.string "é\n", .number (parseF64 true [0x30] [0x35] 1)]) := by
  have heAcute : Hex4 [0x30, 0x30, 0x65, 0x39] 'é'.toNat := @Hex4.mk _ _ _ _ 0 0 14 9 rfl rfl rfl rfl
  have hchars : CharsText ([0x5c, 0x75, 0x30, 0x30, 0x65, 0x39] ++ ([0x5c, 0x6e] ++ []))
      ['é', '\n'] := .cons (.unicode heAcute) (.cons (.short (by decide)) .nil)
  have hzero : IntText [0x30] := Or.inl rfl
  have hfive : Digits [0x35] := ⟨by decide, by simp [isAsciiDigit]⟩
  have hone : Digits [0x31] := ⟨by decide, by simp [isAsciiDigit]⟩
  have hnumber : NumberText IntText [0x2d, 0x30, 0x2e, 0x35, 0x45, 0x2b, 0x31]
      (parseF64 true [0x30] [0x35] 1) :=
    @NumberText.mk _ true _ _ _ _ _ hzero (.digits hfive) (.plus (.inr rfl) hone)
  have hspace : Ws [0x20] := by simp [Ws]
  have hnone : Ws [] := by simp [Ws]
  refine parse_complete ⟨[], _, [], hnone, .array (.items hspace (.string (.mk hchars)) hspace
    (.item hnone (.number hnumber) hnone)), hnone, ?_⟩
  decide

end Values

end Json

end FerroHttp
