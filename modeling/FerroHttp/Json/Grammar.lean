import FerroHttp.Json

/-!
# Json.Grammar — RFC 8259

The grammar of JSON texts in UTF-8, with the value that a text denotes. Arrays and objects
carry how many levels they may still open. The grammar is stated over its tokens, since
three readings of it occur below:

1. `rfc`: strings are decoded, numbers are those of the RFC;
2. `loose`: as `rfc`, with an integer part of any digits;
3. `abnf`: the bare grammar, in which a `\u` escape may be any four digits.
-/

namespace FerroHttp

namespace Json

open Text

/-! ## Tokens -/

/-- White space. -/
def Ws (w : Bytes) : Prop := ∀ b ∈ w, b = 0x20 ∨ b = 0x09 ∨ b = 0x0a ∨ b = 0x0d

/-- At least one digit. -/
structure Digits (ds : Bytes) : Prop where
  nonempty : ds ≠ []
  digit : ∀ b ∈ ds, isAsciiDigit b = true

/-- `int`: a zero, or digits of which the first is none. -/
def IntText (ds : Bytes) : Prop := ds = [0x30] ∨ (Digits ds ∧ ds.head? ≠ some 0x30)

/-- `frac`, with its digits. -/
inductive FractionText : Bytes → Bytes → Prop
  | absent : FractionText [] []
  | digits {ds : Bytes} (h : Digits ds) : FractionText (0x2e :: ds) ds

/-- `exp`, with its value. -/
inductive ExponentText : Bytes → Int → Prop
  | absent : ExponentText [] 0
  | unsigned {e : UInt8} {ds : Bytes} (he : e = 0x65 ∨ e = 0x45) (h : Digits ds) :
      ExponentText (e :: ds) (decimal ds)
  | plus {e : UInt8} {ds : Bytes} (he : e = 0x65 ∨ e = 0x45) (h : Digits ds) :
      ExponentText (e :: 0x2b :: ds) (decimal ds)
  | minus {e : UInt8} {ds : Bytes} (he : e = 0x65 ∨ e = 0x45) (h : Digits ds) :
      ExponentText (e :: 0x2d :: ds) (-(decimal ds : Int))

/-- `[ minus ]`. -/
def signText (negative : Bool) : Bytes := if negative then [0x2d] else []

/-- `number`, with the float that its text is parsed to. -/
inductive NumberText (int : Bytes → Prop) : Bytes → Float → Prop
  | mk {negative : Bool} {integer fractionText fraction exponentText : Bytes} {exponent : Int}
      (hint : int integer) (hfraction : FractionText fractionText fraction)
      (hexponent : ExponentText exponentText exponent) :
      NumberText int (signText negative ++ (integer ++ (fractionText ++ exponentText)))
        (parseF64 negative integer fraction exponent)

/-- The escapes of two characters. -/
def shortEscapes : List (UInt8 × Char) :=
  [(0x22, '"'), (0x5c, '\\'), (0x2f, '/'), (0x62, '\x08'), (0x66, '\x0c'), (0x6e, '\n'),
    (0x72, '\r'), (0x74, '\t')]

/-- Four hexadecimal digits of either case. -/
inductive Hex4 : Bytes → Nat → Prop
  | mk {b₁ b₂ b₃ b₄ : UInt8} {x₁ x₂ x₃ x₄ : Nat} (h₁ : hexDigit b₁ = some x₁)
      (h₂ : hexDigit b₂ = some x₂) (h₃ : hexDigit b₃ = some x₃) (h₄ : hexDigit b₄ = some x₄) :
      Hex4 [b₁, b₂, b₃, b₄] (((x₁ * 16 + x₂) * 16 + x₃) * 16 + x₄)

/-- A code unit that is the first of a pair. -/
def HighSurrogate (u : Nat) : Prop := 0xd800 ≤ u ∧ u ≤ 0xdbff

/-- A code unit that is the second of a pair. -/
def LowSurrogate (u : Nat) : Prop := 0xdc00 ≤ u ∧ u ≤ 0xdfff

/-- `unescaped`. -/
def Unescaped (c : Char) : Prop := 0x20 ≤ c.toNat ∧ c ≠ '"' ∧ c ≠ '\\'

/-- A character as a string may write it. -/
inductive CharText : Bytes → Char → Prop
  | raw {c : Char} (h : Unescaped c) : CharText (String.utf8EncodeChar c) c
  | short {b : UInt8} {c : Char} (h : (b, c) ∈ shortEscapes) : CharText [0x5c, b] c
  | unicode {ds : Bytes} {c : Char} (h : Hex4 ds c.toNat) : CharText (0x5c :: 0x75 :: ds) c
  | pair {ds ds' : Bytes} {u v : Nat} {c : Char} (h : Hex4 ds u) (hu : HighSurrogate u)
      (h' : Hex4 ds' v) (hv : LowSurrogate v)
      (hc : c.toNat = 0x10000 + (u - 0xd800) * 0x400 + (v - 0xdc00)) :
      CharText (0x5c :: 0x75 :: (ds ++ 0x5c :: 0x75 :: ds')) c

/-- The inside of a string. -/
inductive CharsText : Bytes → List Char → Prop
  | nil : CharsText [] []
  | cons {text texts : Bytes} {c : Char} {cs : List Char} (h : CharText text c)
      (hs : CharsText texts cs) : CharsText (text ++ texts) (c :: cs)

/-- `string`, with the string it denotes. -/
inductive StringText : Bytes → String → Prop
  | mk {text : Bytes} {cs : List Char} (h : CharsText text cs) :
      StringText (0x22 :: (text ++ [0x22])) (String.ofList cs)

/-- `char` of the bare grammar: any four digits may follow `\u`. -/
inductive CharForm : Bytes → Prop
  | raw {c : Char} (h : Unescaped c) : CharForm (String.utf8EncodeChar c)
  | short {b : UInt8} {c : Char} (h : (b, c) ∈ shortEscapes) : CharForm [0x5c, b]
  | unicode {ds : Bytes} {u : Nat} (h : Hex4 ds u) : CharForm (0x5c :: 0x75 :: ds)

/-- `*char` of the bare grammar. -/
inductive CharsForm : Bytes → Prop
  | nil : CharsForm []
  | cons {text texts : Bytes} (h : CharForm text) (hs : CharsForm texts) :
      CharsForm (text ++ texts)

/-- `string` of the bare grammar. -/
inductive StringForm : Bytes → Prop
  | mk {text : Bytes} (h : CharsForm text) : StringForm (0x22 :: (text ++ [0x22]))

/-! ## Values -/

/-- What the tokens of a grammar are, with what they denote. -/
structure Tokens where
  string : Bytes → String → Prop
  number : Bytes → Float → Prop

def rfc : Tokens := ⟨StringText, NumberText IntText⟩

def loose : Tokens := ⟨StringText, NumberText Digits⟩

def abnf : Tokens := ⟨fun text _ => StringForm text, NumberText IntText⟩

/-- What a piece of a text denotes: a value, or what stands between brackets. -/
inductive Phrase where
  | value (v : JsonValue)
  | items (vs : List JsonValue)
  | members (ms : List (String × JsonValue))

/-- The productions; `levels` is how deep arrays and objects may nest. -/
inductive Derives (T : Tokens) : Nat → Phrase → Bytes → Prop
  | null {levels : Nat} : Derives T levels (.value .null) (utf8 "null")
  | bool {levels : Nat} (b : Bool) :
      Derives T levels (.value (.bool b)) (utf8 (if b then "true" else "false"))
  | number {levels : Nat} {text : Bytes} {x : Float} (h : T.number text x) :
      Derives T levels (.value (.number x)) text
  | string {levels : Nat} {text : Bytes} {s : String} (h : T.string text s) :
      Derives T levels (.value (.string s)) text
  | emptyArray {levels : Nat} {w : Bytes} (hw : Ws w) :
      Derives T (levels + 1) (.value (.array [])) (0x5b :: (w ++ [0x5d]))
  | array {levels : Nat} {text : Bytes} {vs : List JsonValue}
      (h : Derives T levels (.items vs) text) :
      Derives T (levels + 1) (.value (.array vs)) (0x5b :: (text ++ [0x5d]))
  | emptyObject {levels : Nat} {w : Bytes} (hw : Ws w) :
      Derives T (levels + 1) (.value (.object [])) (0x7b :: (w ++ [0x7d]))
  | object {levels : Nat} {text : Bytes} {ms : List (String × JsonValue)}
      (h : Derives T levels (.members ms) text) :
      Derives T (levels + 1) (.value (.object ms)) (0x7b :: (text ++ [0x7d]))
  | item {levels : Nat} {w text w' : Bytes} {v : JsonValue} (hw : Ws w)
      (h : Derives T levels (.value v) text) (hw' : Ws w') :
      Derives T levels (.items [v]) (w ++ (text ++ w'))
  | items {levels : Nat} {w text w' texts : Bytes} {v : JsonValue} {vs : List JsonValue}
      (hw : Ws w) (h : Derives T levels (.value v) text) (hw' : Ws w')
      (hs : Derives T levels (.items vs) texts) :
      Derives T levels (.items (v :: vs)) (w ++ (text ++ (w' ++ 0x2c :: texts)))
  | member {levels : Nat} {w key w₁ w₂ text w' : Bytes} {k : String} {v : JsonValue} (hw : Ws w)
      (hkey : T.string key k) (hw₁ : Ws w₁) (hw₂ : Ws w₂) (h : Derives T levels (.value v) text)
      (hw' : Ws w') :
      Derives T levels (.members [(k, v)]) (w ++ (key ++ (w₁ ++ 0x3a :: (w₂ ++ (text ++ w')))))
  | members {levels : Nat} {w key w₁ w₂ text w' texts : Bytes} {k : String} {v : JsonValue}
      {ms : List (String × JsonValue)} (hw : Ws w) (hkey : T.string key k) (hw₁ : Ws w₁)
      (hw₂ : Ws w₂) (h : Derives T levels (.value v) text) (hw' : Ws w')
      (hs : Derives T levels (.members ms) texts) :
      Derives T levels (.members ((k, v) :: ms))
        (w ++ (key ++ (w₁ ++ 0x3a :: (w₂ ++ (text ++ (w' ++ 0x2c :: texts))))))

/-- `JSON-text`: a value that nests at most `levels` deep, between white space. -/
def Document (T : Tokens) (levels : Nat) (input : Bytes) (v : JsonValue) : Prop :=
  ∃ w text w', Ws w ∧ Derives T levels (.value v) text ∧ Ws w' ∧ input = w ++ (text ++ w')

/-- Characters that need no escape stand for themselves. -/
theorem CharsText.plain {cs : List Char} (h : ∀ c ∈ cs, Unescaped c) :
    CharsText (cs.flatMap String.utf8EncodeChar) cs := by
  induction cs with
  | nil => exact .nil
  | cons c cs ih =>
    have htail : ∀ d ∈ cs, Unescaped d := by
      intro d hd
      exact h d (List.mem_cons_of_mem c hd)
    exact .cons (.raw (h c List.mem_cons_self)) (ih htail)

/-- Tokens with further spellings derive further texts. -/
theorem Derives.mono {T T' : Tokens} {levels : Nat} {p : Phrase} {text : Bytes}
    (hstring : ∀ text s, T.string text s → T'.string text s)
    (hnumber : ∀ text x, T.number text x → T'.number text x) (h : Derives T levels p text) :
    Derives T' levels p text := by
  induction h with
  | null => exact .null
  | bool b => exact .bool b
  | number h => exact .number (hnumber _ _ h)
  | string h => exact .string (hstring _ _ h)
  | emptyArray hw => exact .emptyArray hw
  | array _ ih => exact .array ih
  | emptyObject hw => exact .emptyObject hw
  | object _ ih => exact .object ih
  | item hw _ hw' ih => exact .item hw ih hw'
  | items hw _ hw' _ ih ihs => exact .items hw ih hw' ihs
  | member hw hkey hw₁ hw₂ _ hw' ih => exact .member hw (hstring _ _ hkey) hw₁ hw₂ ih hw'
  | members hw hkey hw₁ hw₂ _ hw' _ ih ihs =>
    exact .members hw (hstring _ _ hkey) hw₁ hw₂ ih hw' ihs

theorem NumberText.mono {int int' : Bytes → Prop} {text : Bytes} {x : Float}
    (hint : ∀ ds, int ds → int' ds) (h : NumberText int text x) : NumberText int' text x := by
  cases h with
  | mk hi hfraction hexponent => exact .mk (hint _ hi) hfraction hexponent

theorem IntText.digits {ds : Bytes} (h : IntText ds) : Digits ds := by
  rcases h with rfl | h
  · exact ⟨by simp, by simp [isAsciiDigit]⟩
  · exact h.1

/-- A text of the RFC is one of the loose grammar. -/
theorem Derives.loose_of_rfc {levels : Nat} {p : Phrase} {text : Bytes}
    (h : Derives rfc levels p text) : Derives loose levels p text := by
  refine h.mono ?_ ?_
  · intro text s hs
    exact hs
  · intro text x hx
    exact NumberText.mono (fun ds => IntText.digits) hx

end Json

end FerroHttp
