import FerroHttp.Lib.Text

/-!
# Percent — percent-encoded text

What it means for a text to be a percent-encoding of another one, whoever chose which
characters to escape and in which case (`Encodes`), and which bytes a text denotes once
its escapes are replaced (`Decodes`). Both are relations on characters: a decoder is
right when it computes the second one.
-/

namespace Percent

open Text

/-- `c` is the hexadecimal digit with value `v`, in either case. -/
def IsHexDigit (c : Char) (v : Nat) : Prop :=
  v < 16 ∧ (c = Nat.digitChar v ∨ c = (Nat.digitChar v).toUpper)

instance (c : Char) (v : Nat) : Decidable (IsHexDigit c v) :=
  inferInstanceAs (Decidable (v < 16 ∧ (c = Nat.digitChar v ∨ c = (Nat.digitChar v).toUpper)))

/-- `%XX` for every byte of a byte string. -/
inductive Escapes : Bytes → List Char → Prop
  | nil : Escapes [] []
  | cons {b : UInt8} {bs : Bytes} {hi lo : Char} {es : List Char}
      (high : IsHexDigit hi (b.toNat / 16)) (low : IsHexDigit lo (b.toNat % 16))
      (rest : Escapes bs es) : Escapes (b :: bs) ('%' :: hi :: lo :: es)

/-- Every character stands for itself or is escaped byte by byte; `%` is escaped. -/
inductive Encodes : List Char → List Char → Prop
  | nil : Encodes [] []
  | plain {c : Char} {cs es : List Char} (hc : c ≠ '%') (rest : Encodes cs es) :
      Encodes (c :: cs) (c :: es)
  | escaped {c : Char} {cs w es : List Char} (hw : Escapes (String.utf8EncodeChar c) w)
      (rest : Encodes cs es) : Encodes (c :: cs) (w ++ es)

/-- The bytes a text denotes: those of its plain characters and of its escapes. -/
inductive Decodes : List Char → Bytes → Prop
  | nil : Decodes [] []
  | plain {c : Char} {es : List Char} {bs : Bytes} (hc : c ≠ '%') (rest : Decodes es bs) :
      Decodes (c :: es) (String.utf8EncodeChar c ++ bs)
  | escape {hi lo : Char} {v w : Nat} {es : List Char} {bs : Bytes} (high : IsHexDigit hi v)
      (low : IsHexDigit lo w) (rest : Decodes es bs) :
      Decodes ('%' :: hi :: lo :: es) (UInt8.ofNat (16 * v + w) :: bs)

/-- Some `%` is not followed by two hexadecimal digits. -/
def Malformed (es : List Char) : Prop :=
  ∃ pre post, es = pre ++ '%' :: post ∧
    ¬ ∃ hi lo rest v w, post = hi :: lo :: rest ∧ IsHexDigit hi v ∧ IsHexDigit lo w

theorem IsHexDigit.ne_percent {c : Char} {v : Nat} (h : IsHexDigit c v) : c ≠ '%' := by
  rcases h with ⟨hlt, hc⟩
  have hall : ∀ v < 16, Nat.digitChar v ≠ '%' ∧ (Nat.digitChar v).toUpper ≠ '%' := by decide
  rcases hc with rfl | rfl
  · exact (hall v hlt).1
  · exact (hall v hlt).2

theorem Escapes.decodes {bs out : Bytes} {w es : List Char} (h : Escapes bs w)
    (hes : Decodes es out) : Decodes (w ++ es) (bs ++ out) := by
  induction h with
  | nil => exact hes
  | @cons b bs hi lo w high low _ ih =>
    have hbyte : UInt8.ofNat (16 * (b.toNat / 16) + b.toNat % 16) = b := by
      rw [Nat.div_add_mod, UInt8.ofNat_toNat]
    have hstep := Decodes.escape high low ih
    rw [hbyte] at hstep
    exact hstep

/-- An encoding of a text denotes the text. -/
theorem Encodes.decodes {cs es : List Char} (h : Encodes cs es) :
    Decodes es (cs.flatMap String.utf8EncodeChar) := by
  induction h with
  | nil => exact .nil
  | plain hc _ ih =>
    rw [List.flatMap_cons]
    exact .plain hc ih
  | escaped hw _ ih =>
    rw [List.flatMap_cons]
    exact hw.decodes ih

/-- What denotes bytes has no malformed escape. -/
theorem Decodes.not_malformed {es : List Char} {bs : Bytes} (h : Decodes es bs) :
    ¬ Malformed es := by
  induction h with
  | nil =>
    rintro ⟨pre, post, hes, _⟩
    cases pre <;> cases hes
  | @plain c es bs hc _ ih =>
    rintro ⟨pre, post, hes, hbad⟩
    cases pre with
    | nil => exact hc (List.cons.inj hes).1
    | cons d pre => exact ih ⟨pre, post, (List.cons.inj hes).2, hbad⟩
  | @escape hi lo v w es bs high low _ ih =>
    rintro ⟨pre, post, hes, hbad⟩
    -- the digits of an escape are no `%`: the malformed one is this escape or comes after it
    cases pre with
    | nil => exact hbad ⟨hi, lo, es, v, w, (List.cons.inj hes).2.symm, high, low⟩
    | cons c pre =>
      have htail := (List.cons.inj hes).2
      cases pre with
      | nil => exact high.ne_percent (List.cons.inj htail).1
      | cons d pre =>
        have htail' := (List.cons.inj htail).2
        cases pre with
        | nil => exact low.ne_percent (List.cons.inj htail').1
        | cons e pre => exact ih ⟨pre, post, (List.cons.inj htail').2, hbad⟩

end Percent
