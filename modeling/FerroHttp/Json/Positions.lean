import FerroHttp.Json.LeadingZeros
import FerroHttp.Json.Parser

/-!
# Json.Positions — strings and numbers by position

The functions of the parser with a position simulate those that are given what is left: they
end alike, and the position has not gone back, is not past the end of the text, and is where
a character starts if it has moved. Here for white space, strings, literals and numbers.
-/

namespace FerroHttp

namespace Json

open Exec Text Cursor

/-- The positions of a text: its boundaries are marked, and errors name where they occur. -/
def terrain (input : String) : Terrain JsonError where
  size := (utf8 input).length
  mark := IsCharBoundary input
  error e pos := e.offset = pos

/-- The scanner simulates the parser of what is left, from every position of the text. -/
def Follows {α : Type} (input : String) (m : Scan JsonError α)
    (parser : Bytes → Outcome JsonError (α × Bytes)) : Prop :=
  ∀ i ≤ (utf8 input).length,
    Simulates (terrain input) i (Behind (utf8 input)) (m i) (parser ((utf8 input).drop i))

/-! ## Strings -/

section Strings

variable {α γ : Type} {input : String} {n i j : Nat} {R : α → Nat → γ → Prop}

/-- Both report an error at the same place. -/
theorem simulates_err {rest : Bytes} (kind : JsonErrorKind) (hn : n = (utf8 input).length)
    (hrest : (utf8 input).drop j = rest) (hij : i ≤ j) (hj : j ≤ (utf8 input).length) :
    Simulates (terrain input) i R (Parser.err kind j) (err n rest kind) := by
  have hlength := congrArg List.length hrest
  rw [List.length_drop] at hlength
  have hoffset : n - rest.length = j := by omega
  rw [err, hoffset]
  exact .err hij hj rfl

/-- An ASCII byte is passed. -/
theorem simulates_ascii {b : UInt8} {tail : Bytes} {x : Outcome (JsonError × Nat) (α × Nat)}
    {y : Outcome JsonError γ} (hdrop : (utf8 input).drop i = b :: tail) (hb : b.toNat < 128)
    (h : Simulates (terrain input) (i + 1) R x y) : Simulates (terrain input) i R x y :=
  Simulates.start (Nat.le_succ i) (.inr (.ascii hdrop hb)) h

theorem simulates_skipWs {f : Unit → Scan JsonError α} {y : Outcome JsonError γ}
    (hi : i ≤ (utf8 input).length)
    (h : ∀ j, i ≤ j → j ≤ (utf8 input).length →
      (utf8 input).drop j = skipWs ((utf8 input).drop i) →
      Simulates (terrain input) j R (f () j) y) :
    Simulates (terrain input) i R ((Parser.skipWs (utf8 input) >>= f) i) y := by
  refine Simulates.advanceWhile ?_ hi h
  intro k b tail hdrop hb
  -- white space is ASCII
  have hlow : b.toNat < 128 := by
    simp only [isWs, Bool.or_eq_true, beq_iff_eq] at hb
    rcases hb with ((rfl | rfl) | rfl) | rfl <;> decide
  exact .ascii hdrop hlow

theorem simulates_expect {b : UInt8} (hb : b.toNat < 128) (hn : n = (utf8 input).length)
    (hi : i ≤ (utf8 input).length) :
    Simulates (terrain input) i (fun _ j rest => rest = (utf8 input).drop j)
      (Parser.expect (utf8 input) b i) (expect n b ((utf8 input).drop i)) := by
  refine Simulates.peek ?_ ?_
  · intro hdrop
    rw [hdrop]
    have hend : (utf8 input).length ≤ i := List.drop_eq_nil_iff.mp hdrop
    rw [Scan.position_bind, if_neg (by simp), if_pos hend]
    exact simulates_err _ hn hdrop (Nat.le_refl i) hi
  · intro c tail hdrop hlt htail
    rw [hdrop]
    have hnot : ¬ (utf8 input).length ≤ i := by omega
    rw [Scan.position_bind, if_neg hnot, Option.some_beq_some]
    refine Simulates.ite ?_ ?_
    · intro hc
      rw [beq_iff_eq] at hc
      rw [← hc] at hb
      exact .ok (Nat.le_succ i) hlt (.inr (.ascii hdrop hb)) htail.symm
    · intro _
      exact simulates_err _ hn hdrop (Nat.le_refl i) hi

/-- One given byte, with an error of its own kind. -/
theorem simulates_byte {b : UInt8} {kind : JsonErrorKind} {m : Scan JsonError α}
    {g : Bytes → Outcome JsonError γ} (hb : b.toNat < 128) (hn : n = (utf8 input).length)
    (hi : i ≤ (utf8 input).length)
    (h : i < (utf8 input).length →
      Simulates (terrain input) (i + 1) R (m (i + 1)) (g ((utf8 input).drop (i + 1)))) :
    Simulates (terrain input) i R
      ((Scan.peek (utf8 input) >>= fun next =>
        if next != some b then Parser.err kind else Scan.advance 1 >>= fun _ => m) i)
      (match (utf8 input).drop i with
        | [] => err n ((utf8 input).drop i) kind
        | c :: tail => if c != b then err n ((utf8 input).drop i) kind else g tail) := by
  refine Simulates.peek ?_ ?_
  · intro hdrop
    rw [hdrop]
    exact simulates_err _ hn hdrop (Nat.le_refl i) hi
  · intro c tail hdrop hlt htail
    rw [hdrop]
    refine Simulates.ite ?_ ?_
    · intro _
      exact simulates_err _ hn hdrop (Nat.le_refl i) hi
    · intro hc
      have hcb : c = b := by simpa using hc
      rw [← hcb] at hb
      rw [← htail]
      exact simulates_ascii hdrop hb (h hlt)

/-- A hexadecimal digit is ASCII, and below 16. -/
theorem hexDigit_bounds {b : UInt8} {digit : Nat} (h : hexDigit b = some digit) :
    digit < 16 ∧ b.toNat < 128 := by
  have hall : ∀ b : UInt8, ∀ digit ∈ hexDigit b, digit < 16 ∧ b.toNat < 128 :=
    forall_byte (by decide +kernel)
  exact hall b digit h

/-- The digits that are still to come fit into the word. -/
theorem follows_readHex (k value : Nat) (hvalue : (value + 1) * 16 ^ k ≤ 0x10000) :
    Follows input (Parser.readHex (utf8 input) k value) (readHex (utf8 input).length k value) := by
  induction k generalizing value with
  | zero =>
    intro i hi
    exact .ok (Nat.le_refl i) hi (.inl rfl) rfl
  | succ k ih =>
    intro i hi
    refine Simulates.peek ?_ ?_
    · intro hdrop
      rw [hdrop]
      exact simulates_err _ rfl hdrop (Nat.le_refl i) hi
    · intro b tail hdrop hlt htail
      rw [hdrop]
      simp only [readHex]
      cases hdigit : hexDigit b with
      | none => exact simulates_err _ rfl hdrop (Nat.le_refl i) hi
      | some digit =>
        obtain ⟨hsmall, hlow⟩ := hexDigit_bounds hdigit
        have hnext : (value * 16 + digit + 1) * 16 ^ k ≤ 0x10000 :=
          calc (value * 16 + digit + 1) * 16 ^ k
            _ ≤ ((value + 1) * 16) * 16 ^ k := Nat.mul_le_mul_right _ (by omega)
            _ = (value + 1) * 16 ^ (k + 1) := by rw [Nat.mul_assoc, Nat.pow_succ, Nat.mul_comm 16]
            _ ≤ 0x10000 := hvalue
        have hfits : value * 16 + digit < 0x10000 :=
          (Nat.le_mul_of_pos_right _ (Nat.pow_pos (by omega))).trans hnext
        simp only [Parser.u16, hfits, if_true, Scan.checked_bind, Scan.advance_bind]
        rw [← htail]
        refine simulates_ascii hdrop hlow ?_
        exact ih (value * 16 + digit) hnext (i + 1) hlt

theorem follows_readHex4 :
    Follows input (Parser.readHex4 (utf8 input)) (readHex4 (utf8 input).length) :=
  follows_readHex 4 0 (by decide)

theorem follows_unicodeScalar :
    Follows input (Parser.unicodeScalar (utf8 input)) (unicodeScalar (utf8 input).length) := by
  intro i hi
  refine Simulates.bind (follows_readHex4 i hi) ?_
  rintro first j _ hij hj _ rfl
  refine Simulates.ite ?_ ?_
  · -- a high surrogate needs `\u` and a low one behind it
    intro _
    refine simulates_byte (b := 0x5c) (by decide) rfl hj ?_
    intro hlt
    refine simulates_byte (b := 0x75) (by decide) rfl hlt ?_
    intro hlt'
    refine Simulates.bind (follows_readHex4 _ hlt') ?_
    rintro low k _ hjk hk _ rfl
    refine Simulates.ite ?_ ?_
    · intro _
      exact .ok (Nat.le_refl k) hk (.inl rfl) rfl
    · intro _
      exact simulates_err _ rfl rfl (Nat.le_refl k) hk
  · intro _
    refine Simulates.ite ?_ ?_
    · intro _
      exact simulates_err _ rfl rfl (Nat.le_refl j) hj
    · intro _
      exact .ok (Nat.le_refl j) hj (.inl rfl) rfl

theorem follows_parseUnicodeEscape (out : String) :
    Follows input (Parser.parseUnicodeEscape (utf8 input) out)
      (parseUnicodeEscape (utf8 input).length out) := by
  intro i hi
  refine Simulates.bind (follows_unicodeScalar i hi) ?_
  rintro scalar j _ hij hj _ rfl
  simp only
  cases charFromU32 scalar with
  | none => exact simulates_err _ rfl rfl (Nat.le_refl j) hj
  | some ch => exact .ok (Nat.le_refl j) hj (.inl rfl) rfl

theorem follows_parseEscape (out : String) :
    Follows input (Parser.parseEscape (utf8 input) out) (parseEscape (utf8 input).length out) := by
  intro i hi
  refine Simulates.peek ?_ ?_
  · intro hdrop
    rw [hdrop]
    exact simulates_err _ rfl hdrop (Nat.le_refl i) hi
  · intro e tail hdrop hlt htail
    rw [hdrop]
    -- a short escape is the byte itself
    have hshort : ∀ (b : UInt8) (c : Char), b.toNat < 128 → (e == b) = true →
        Simulates (terrain input) i (Behind (utf8 input)) ((pure (out.push c) : Scan _ _) (i + 1))
          (.ok (out.push c, tail)) := by
      intro b c hb he
      rw [← beq_iff_eq.mp he] at hb
      exact .ok (Nat.le_succ i) hlt (.inr (.ascii hdrop hb)) (by rw [Behind, htail])
    simp only [Scan.advance_bind, parseEscape]
    iterate 8 refine Simulates.ite (hshort _ _ (by decide)) fun _ => ?_
    refine Simulates.ite ?_ ?_
    · intro hu
      have hlow : e.toNat < 128 := by
        rw [beq_iff_eq.mp hu]
        decide
      rw [← htail]
      exact simulates_ascii hdrop hlow
        (follows_parseUnicodeEscape out (i + 1) hlt)
    · intro _
      exact simulates_err _ rfl htail (Nat.le_succ i) hlt

/-- What starts a sequence is no continuation byte. -/
theorem isUTF8FirstByte_of_utf8Len {b : UInt8} (h : utf8Len b ≠ 0) : b.IsUTF8FirstByte := by
  have hall : ∀ b : UInt8, utf8Len b ≠ 0 → b.IsUTF8FirstByte := forall_byte (by decide +kernel)
  exact hall b h

/-- A multi-byte sequence is decoded from its first byte, over which the position is. -/
theorem simulates_stringStep (out : String) (hi : i ≤ (utf8 input).length) :
    Simulates (terrain input) i (FlowRel (Behind (utf8 input)) (Behind (utf8 input)))
      (Parser.stringStep (utf8 input) out i)
      (stringStep (utf8 input).length (out, (utf8 input).drop i)) := by
  refine Simulates.peek ?_ ?_
  · intro hdrop
    rw [hdrop]
    exact simulates_err _ rfl hdrop (Nat.le_refl i) hi
  · intro b tail hdrop hlt htail
    rw [hdrop]
    simp only [stringStep, Scan.advance_bind]
    refine Simulates.ite ?_ ?_
    · intro hquote
      have hlow : b.toNat < 128 := by
        rw [beq_iff_eq.mp hquote]
        decide
      exact .ok (Nat.le_succ i) hlt (.inr (.ascii hdrop hlow))
        (.done (by rw [Behind, htail]))
    intro _
    refine Simulates.ite ?_ ?_
    · intro hslash
      have hlow : b.toNat < 128 := by
        rw [beq_iff_eq.mp hslash]
        decide
      refine simulates_ascii hdrop hlow ?_
      rw [← htail]
      refine Simulates.bind (follows_parseEscape out (i + 1) hlt) ?_
      intro out' j next hij hj _ hnext
      exact .ok (Nat.le_refl j) hj (.inl rfl) (.again hnext)
    intro _
    refine Simulates.ite ?_ ?_
    · intro _
      exact simulates_err _ rfl htail (Nat.le_succ i) hlt
    intro _
    have hrest : (b :: tail).length = (utf8 input).length - i := by rw [← hdrop, List.length_drop]
    rw [Scan.position_bind, Nat.add_sub_cancel]
    by_cases hlen : utf8Len b = 0 ∨ (b :: tail).length < utf8Len b
    · have hlen' : utf8Len b = 0 ∨ (utf8 input).length < i + utf8Len b := by omega
      rw [if_pos hlen, if_pos hlen']
      exact simulates_err _ rfl htail (Nat.le_succ i) hlt
    · have hlen' : ¬ (utf8Len b = 0 ∨ (utf8 input).length < i + utf8Len b) := by omega
      have hfits : i + utf8Len b ≤ (utf8 input).length := by omega
      rw [if_neg hlen, if_neg hlen', slice_of_le (Nat.le_add_right i _) hfits,
        Nat.add_sub_cancel_left, hdrop, Scan.checked_bind]
      cases hchunk : fromUtf8 ((b :: tail).take (utf8Len b)) with
      | none => exact simulates_err _ rfl htail (Nat.le_succ i) hlt
      | some chunk =>
        refine .ok (Nat.le_add_right i _) hfits ?_ (.again ?_)
        · -- the first byte of a character tells its length
          have hfirst : b.IsUTF8FirstByte := isUTF8FirstByte_of_utf8Len (by omega)
          obtain ⟨c, rest, hc, hnext⟩ := (IsCharBoundary.of_lead hdrop hfirst).next hdrop
          rw [utf8Len_utf8EncodeChar hc]
          exact .inr hnext
        · rw [Behind, ← List.drop_drop, hdrop]

theorem follows_parseString :
    Follows input (Parser.parseString (utf8 input)) (parseString (utf8 input).length) := by
  intro i hi
  refine Simulates.bind (simulates_expect (by decide) rfl hi) ?_
  rintro _ j _ hij hj _ rfl
  exact Simulates.iterateTo rfl (fun out j hj => simulates_stringStep out hj) "" hj

end Strings

/-! ## Literals and numbers -/

section Scalars

variable {α γ : Type} {input : String} {i j : Nat} {R : α → Nat → γ → Prop}

/-- A literal that stands at the position is consumed. -/
theorem simulates_literal {literal : Bytes} {k : Nat} {v : JsonValue} {m : Scan JsonError JsonValue}
    {y : Outcome JsonError (JsonValue × Bytes)} (hlength : literal.length = k)
    (hascii : literal.all (· < 0x80) = true) (hi : i ≤ (utf8 input).length)
    (h : Simulates (terrain input) i (Behind (utf8 input)) (m i) y) :
    Simulates (terrain input) i (Behind (utf8 input))
      ((if literal.isPrefixOf ((utf8 input).drop i) then Scan.advance k >>= fun _ => pure v
        else m) i)
      (if literal.isPrefixOf ((utf8 input).drop i) then .ok (v, ((utf8 input).drop i).drop k)
        else y) := by
  refine Simulates.ite ?_ fun _ => h
  intro hprefix
  have hdrop := eq_append_drop hlength hprefix
  have htotal := congrArg List.length hdrop
  rw [List.length_append, List.length_drop, hlength] at htotal
  refine .ok (Nat.le_add_right i k) ?_ ?_ ?_
  · show i + k ≤ (utf8 input).length
    omega
  · rw [← hlength]
    refine IsCharBoundary.ascii_append hdrop ?_
    intro b hb
    exact UInt8.lt_iff_toNat_lt.mp (of_decide_eq_true (List.all_eq_true.mp hascii b hb))
  · rw [Behind, List.drop_drop]

theorem follows_parseBool :
    Follows input (Parser.parseBool (utf8 input)) (parseBool (utf8 input).length) := by
  intro i hi
  rw [Parser.parseBool, Scan.position_bind, sliceFrom_of_le hi, Scan.checked_bind]
  refine simulates_literal (by decide) (by decide) hi ?_
  refine simulates_literal (by decide) (by decide) hi ?_
  exact simulates_err _ rfl rfl (Nat.le_refl i) hi

theorem follows_parseNull :
    Follows input (Parser.parseNull (utf8 input)) (parseNull (utf8 input).length) := by
  intro i hi
  rw [Parser.parseNull, Scan.position_bind, sliceFrom_of_le hi, Scan.checked_bind]
  refine simulates_literal (by decide) (by decide) hi ?_
  exact simulates_err _ rfl rfl (Nat.le_refl i) hi

/-- The digits are left out of what a scanner returns. -/
theorem simulates_consumeDigits (hi : i ≤ (utf8 input).length) :
    Simulates (terrain input) i (fun _ j r => r.2 = (utf8 input).drop j)
      (Parser.consumeDigits (utf8 input) i)
      (consumeDigits (utf8 input).length ((utf8 input).drop i)) := by
  have hascii : ∀ (k : Nat) (b : UInt8) (tail : Bytes), (utf8 input).drop k = b :: tail →
      isAsciiDigit b = true → IsCharBoundary input (k + 1) := by
    intro k b tail hdrop hb
    rw [isAsciiDigit, Bool.and_eq_true, decide_eq_true_eq, decide_eq_true_eq,
      UInt8.le_iff_toNat_le, UInt8.le_iff_toNat_le] at hb
    exact .ascii hdrop (Nat.lt_of_le_of_lt hb.2 (by decide))
  rw [Parser.consumeDigits, Scan.position_bind]
  refine Simulates.advanceWhile hascii hi ?_
  intro j hij hj hdrop
  have hsplit := congrArg List.length
    (List.takeWhile_append_dropWhile (p := isAsciiDigit) (l := (utf8 input).drop i))
  rw [List.length_append, ← hdrop, List.length_drop, List.length_drop] at hsplit
  -- no digit means that the position is where it was
  have hempty : (j == i) = (((utf8 input).drop i).takeWhile isAsciiDigit).isEmpty := by
    rw [Bool.eq_iff_iff, beq_iff_eq, List.isEmpty_iff_length_eq_zero]
    omega
  rw [Scan.position_bind, hempty, consumeDigits, ← hdrop]
  refine Simulates.ite ?_ ?_
  · intro _
    exact simulates_err _ rfl rfl (Nat.le_refl j) hj
  · intro _
    exact .ok (Nat.le_refl j) hj (.inl rfl) rfl

theorem simulates_skipMinus {f : Unit → Scan JsonError α} {y : Outcome JsonError γ}
    (hi : i ≤ (utf8 input).length)
    (h : ∀ j, i ≤ j → j ≤ (utf8 input).length → (utf8 input).drop j =
      (if ((utf8 input).drop i).head? == some 0x2d then ((utf8 input).drop i).tail
        else (utf8 input).drop i) → Simulates (terrain input) j R (f () j) y) :
    Simulates (terrain input) i R ((Parser.skipMinus (utf8 input) >>= f) i) y := by
  rw [Scan.bind_run, Parser.skipMinus, Scan.peek_bind, ← List.head?_drop]
  by_cases hminus : ((utf8 input).drop i).head? = some 0x2d
  · rw [if_pos (beq_iff_eq.mpr hminus)]
    rcases List.head?_eq_some_iff.mp hminus with ⟨tail, hdrop⟩
    obtain ⟨_, hlt, htail⟩ := drop_cons hdrop
    refine simulates_ascii hdrop (by decide) ?_
    refine h (i + 1) (Nat.le_succ i) hlt ?_
    rw [if_pos (beq_iff_eq.mpr hminus), hdrop]
    exact htail
  · rw [if_neg (by simpa using hminus)]
    refine h i (Nat.le_refl i) hi ?_
    rw [if_neg (by simpa using hminus)]

theorem simulates_skipFraction (hi : i ≤ (utf8 input).length) :
    Simulates (terrain input) i (fun _ j r => r.2 = (utf8 input).drop j)
      (Parser.skipFraction (utf8 input) i)
      (parseFraction (utf8 input).length ((utf8 input).drop i)) := by
  refine Simulates.peek ?_ ?_
  · intro hdrop
    rw [hdrop]
    exact .ok (Nat.le_refl i) hi (.inl rfl) hdrop.symm
  · intro b tail hdrop hlt htail
    rw [hdrop]
    refine Simulates.ite ?_ ?_
    · intro hpoint
      have hlow : b.toNat < 128 := by
        have hb : b = 0x2e := by simpa using hpoint
        rw [hb]
        decide
      rw [← htail]
      exact simulates_ascii hdrop hlow (simulates_consumeDigits hlt)
    · intro _
      exact .ok (Nat.le_refl i) hi (.inl rfl) hdrop.symm

theorem simulates_skipExponent (hi : i ≤ (utf8 input).length) :
    Simulates (terrain input) i (fun _ j r => r.2 = (utf8 input).drop j)
      (Parser.skipExponent (utf8 input) i)
      (parseExponent (utf8 input).length ((utf8 input).drop i)) := by
  refine Simulates.peek ?_ ?_
  · intro hdrop
    rw [hdrop]
    exact .ok (Nat.le_refl i) hi (.inl rfl) hdrop.symm
  · intro e tail hdrop hlt htail
    rw [hdrop]
    refine Simulates.ite ?_ ?_
    · intro hletter
      have hlow : e.toNat < 128 := by
        have he : e = 0x65 ∨ e = 0x45 := by simpa using hletter
        rcases he with rfl | rfl <;> decide
      refine simulates_ascii hdrop hlow ?_
      rw [Scan.advance_bind, ← htail]
      refine Simulates.peek ?_ ?_
      · -- no digits are left
        intro hdrop'
        rw [hdrop']
        have hdigits := Simulates.bind_right (S := fun _ j r => r.2 = (utf8 input).drop j)
          (g := fun r : Bytes × Bytes => ((0 : Int), r.2)) (simulates_consumeDigits hlt)
          fun _ _ _ h => h
        rw [hdrop'] at hdigits
        exact hdigits
      · intro sign digits hdrop' hlt' htail'
        rw [hdrop']
        refine Simulates.ite ?_ ?_
        · intro hsign
          have hlow' : sign.toNat < 128 := by
            have hs : sign = 0x2b ∨ sign = 0x2d := by simpa using hsign
            rcases hs with rfl | rfl <;> decide
          rw [← htail']
          refine simulates_ascii hdrop' hlow' ?_
          exact Simulates.bind_right (simulates_consumeDigits hlt') fun _ _ _ h => h
        · intro _
          rw [← hdrop']
          exact Simulates.bind_right (simulates_consumeDigits hlt) fun _ _ _ h => h
    · intro _
      exact .ok (Nat.le_refl i) hi (.inl rfl) hdrop.symm

/-- The bytes of a number are ASCII. -/
theorem NumberText.ascii {text : Bytes} {x : Float} (h : NumberText Digits text x) :
    ∀ b ∈ text, b.toNat < 128 := by
  have hlow : ∀ b : UInt8, continuesNumber b = true → b.toNat < 128 :=
    forall_byte (by decide +kernel)
  cases h with
  | @mk negative integer fractionText fraction exponentText exponent hint hfraction hexponent =>
    intro b hb
    rw [List.mem_append, List.mem_append, List.mem_append] at hb
    rcases hb with hb | hb | hb | hb
    · cases negative with
      | true =>
        rw [List.mem_singleton.mp hb]
        decide
      | false => cases hb
    · exact hlow b (hint.continues b hb)
    · exact hlow b (hfraction.continues b hb)
    · exact hlow b (hexponent.continues b hb)

/-- Digits end where no digit follows. -/
theorem Digits.span {ds rest : Bytes} (h : Digits ds)
    (hends : ∀ b, rest.head? = some b → isAsciiDigit b = false) :
    (ds ++ rest).takeWhile isAsciiDigit = ds ∧ (ds ++ rest).dropWhile isAsciiDigit = rest := by
  have hread := h.consume (n := 0) hends
  unfold consumeDigits at hread
  simp only at hread
  split at hread
  · cases hread
  · rw [Outcome.ok.injEq, Prod.mk.injEq] at hread
    exact hread

/-- A number of the grammar is one of the standard library's, with the same value. -/
theorem NumberText.f64FromStr {text : String} {x : Float}
    (h : NumberText Digits (utf8 text) x) : Parser.f64FromStr text = some x := by
  unfold Parser.f64FromStr
  generalize utf8 text = bytes at h ⊢
  cases h with
  | @mk negative integer fractionText fraction exponentText exponent hint hfraction hexponent =>
    have hends : Ends [] := by
      intro b hb
      cases hb
    have hexp : Parser.readExponent exponentText = some exponent := by
      have hread := hexponent.read (n := exponentText.length) hends
      rw [List.append_nil] at hread
      simp only [Parser.readExponent, hread]
    have hexpHead : ∀ b, exponentText.head? = some b → isAsciiDigit b = false ∧ b ≠ 0x2e := by
      intro b hb
      rw [← List.append_nil exponentText] at hb
      exact hexponent.head hends hb
    obtain ⟨htake, hdrop⟩ := hint.span fun b hb => hfraction.head hexpHead hb
    obtain ⟨hminus, hsign⟩ := hint.signText_head negative (fractionText ++ exponentText)
    have htail := signText_tail negative (integer ++ (fractionText ++ exponentText))
    have hne : integer.isEmpty = false := by simpa using hint.nonempty
    simp only [hminus, hsign, htail, htake, hdrop, hne, Bool.false_and, Bool.false_eq_true,
      if_false]
    cases hfraction with
    | absent =>
      have hpoint : (exponentText.head? == some 0x2e) = false := by
        rw [beq_eq_false_iff_ne]
        intro heq
        exact (hexpHead 0x2e heq).2 rfl
      simp only [List.nil_append, hpoint, Bool.false_eq_true, if_false, hexp, Option.map_some]
    | digits hds =>
      have hpoint : ((0x2e :: (fraction ++ exponentText)).head? == some 0x2e) = true := rfl
      have hspan := hds.span fun b hb => (hexpHead b hb).1
      simp only [List.cons_append, hpoint, if_true, List.tail_cons, hspan.1, hspan.2, hexp,
        Option.map_some]

theorem follows_parseNumber :
    Follows input (Parser.parseNumber (utf8 input)) (parseNumber (utf8 input).length) := by
  intro i hi
  rw [Parser.parseNumber, Scan.position_bind]
  refine simulates_skipMinus hi ?_
  intro j hij hj hsign
  simp only [parseNumber]
  rw [← hsign]
  refine Simulates.bind (simulates_consumeDigits hj) ?_
  rintro _ j₁ ⟨integer, _⟩ hj₁ hle₁ hinteger rfl
  refine Simulates.bind (simulates_skipFraction hle₁) ?_
  rintro _ j₂ ⟨fraction, _⟩ hj₂ hle₂ hfraction rfl
  refine Simulates.bind (simulates_skipExponent hle₂) ?_
  rintro _ j₃ ⟨exponent, _⟩ hj₃ hle₃ hexponent rfl
  -- the slice is what the grammar calls a number
  have hparse : parseNumber (utf8 input).length ((utf8 input).drop i) =
      .ok (.number (parseF64 (((utf8 input).drop i).head? == some 0x2d) integer fraction exponent),
        (utf8 input).drop j₃) := by
    simp only [parseNumber]
    rw [← hsign, hinteger, Outcome.ok_bind, hfraction, Outcome.ok_bind, hexponent]
    rfl
  obtain ⟨text, x, hnumber, hsplit, hvalue⟩ := parseNumber_eq_ok hparse
  have hlength := congrArg List.length hsplit
  rw [List.length_append, List.length_drop, List.length_drop] at hlength
  have hend : j₃ ≤ (utf8 input).length := hle₃
  have hslice : (slice (utf8 input) i j₃ : Outcome JsonError Bytes) = .ok text := by
    rw [slice_of_le (by omega) hend, hsplit]
    exact congrArg Outcome.ok (List.take_left' (by omega))
  obtain ⟨s, rfl⟩ := exists_utf8_of_ascii hnumber.ascii
  rw [Scan.position_bind, hslice, Scan.checked_bind, fromUtf8_utf8]
  simp only [hnumber.f64FromStr]
  rw [hvalue]
  exact .ok (Nat.le_refl j₃) hle₃ (.inl rfl) rfl

end Scalars

end Json

end FerroHttp
