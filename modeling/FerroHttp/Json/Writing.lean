import FerroHttp.Config
import FerroHttp.Json.Complete

/-!
# Json.Writing — what a writer writes is read back

The rules below build texts the way a writer does: escaped strings, decimal numbers, and
objects and arrays laid out with line breaks and indentation. Strings and numbers are
tokens of the grammar, and the layout is white space of it, so `Json.Complete` reads them.
-/

namespace FerroHttp

namespace Json

open Exec Text

/-! ## Strings -/

section Strings

variable {c : Char}

/-- The digits of the four-digit escape of a control character. -/
theorem utf8_hex4 : ∀ k < 32, ∃ x y, utf8 (hex4 k) = [0x30, 0x30, x, y] ∧
    hexDigit x = some (k / 16) ∧ hexDigit y = some (k % 16) := by
  intro k hk
  have hall : ∀ k < 32, (utf8 (hex4 k)).take 2 = [0x30, 0x30] ∧ (utf8 (hex4 k)).length = 4 ∧
      hexDigit ((utf8 (hex4 k)).getD 2 0) = some (k / 16) ∧
      hexDigit ((utf8 (hex4 k)).getD 3 0) = some (k % 16) := by decide
  rcases hall k hk with ⟨htake, hlen, hx, hy⟩
  -- four bytes, of which the first two are known
  match hbytes : utf8 (hex4 k), hlen with
  | [a, b, x, y], _ =>
    rw [hbytes] at htake hx hy
    have hab := List.cons.inj htake
    refine ⟨x, y, ?_, hx, hy⟩
    rw [hab.1, (List.cons.inj hab.2).1]

/-- Every character is written as the grammar lets a string write it. -/
theorem escapeChar_charText (c : Char) : CharText (utf8 (escapeChar c)) c := by
  have hquoteBytes : utf8 "\\\"" = [0x5c, 0x22] := by decide
  have hslashBytes : utf8 "\\\\" = [0x5c, 0x5c] := by decide
  have hnewlineBytes : utf8 "\\n" = [0x5c, 0x6e] := by decide
  have hreturnBytes : utf8 "\\r" = [0x5c, 0x72] := by decide
  have htabBytes : utf8 "\\t" = [0x5c, 0x74] := by decide
  have hunicodeBytes : utf8 "\\u" = [0x5c, 0x75] := by decide
  -- the cases of the writer, in its order
  unfold escapeChar
  split
  · rename_i hc
    rw [hquoteBytes, hc]
    exact .short (by decide)
  rename_i hquote
  split
  · rename_i hc
    rw [hslashBytes, hc]
    exact .short (by decide)
  rename_i hslash
  split
  · rename_i hc
    rw [hnewlineBytes, hc]
    exact .short (by decide)
  split
  · rename_i hc
    rw [hreturnBytes, hc]
    exact .short (by decide)
  split
  · rename_i hc
    rw [htabBytes, hc]
    exact .short (by decide)
  split
  · rename_i hcontrol
    rcases utf8_hex4 c.toNat hcontrol with ⟨x, y, hbytes, hx, hy⟩
    have hzero : hexDigit 0x30 = some 0 := by decide
    have hdigits := Hex4.mk hzero hzero hx hy
    have hvalue : ((0 * 16 + 0) * 16 + c.toNat / 16) * 16 + c.toNat % 16 = c.toNat := by omega
    rw [hvalue] at hdigits
    rw [utf8_append, hunicodeBytes, hbytes]
    exact .unicode hdigits
  · rename_i hcontrol
    have hbytes : utf8 (String.singleton c) = String.utf8EncodeChar c := by simp [utf8]
    rw [hbytes]
    exact .raw ⟨by omega, hquote, hslash⟩

theorem utf8_escapeJson (s : String) :
    utf8 (escapeJson s) = s.toList.flatMap fun c => utf8 (escapeChar c) := by
  rw [escapeJson, utf8_join, List.flatMap_map]

/-- An escaped string between quotes is a string of the grammar. -/
theorem escapeJson_stringText (s : String) :
    StringText (utf8 ("\"" ++ escapeJson s ++ "\"")) s := by
  have hquote : utf8 "\"" = [0x22] := by decide
  have hchars : ∀ cs : List Char, CharsText (cs.flatMap fun c => utf8 (escapeChar c)) cs := by
    intro cs
    induction cs with
    | nil => exact .nil
    | cons c cs ih => exact .cons (escapeChar_charText c) ih
  have hstring := StringText.mk (hchars s.toList)
  rw [String.ofList_toList] at hstring
  rw [utf8_append, utf8_append, utf8_escapeJson, hquote]
  exact hstring

theorem quoted_escapeJson (s : String) : Quoted (utf8 ("\"" ++ escapeJson s ++ "\"")) s :=
  (escapeJson_stringText s).quoted

/-- A natural number in decimal is read back as its float. -/
theorem spells_nat {levels : Nat} (k : Nat) :
    Spells levels (utf8 (toString k)) (.number (Binary64.ofNat k)) := by
  rcases decimal_toString k with ⟨hne, hdigits, hvalue⟩
  have hnumber : NumberText Digits (utf8 (toString k))
      (parseF64 false (utf8 (toString k)) [] 0) := by
    have hmk := @NumberText.mk Digits false _ _ _ _ _ ⟨hne, List.all_eq_true.mp hdigits⟩
      .absent .absent
    rw [List.append_nil, List.append_nil] at hmk
    exact hmk
  have hfloat : parseF64 false (utf8 (toString k)) [] 0 = Binary64.ofNat k := by
    rw [parseF64, List.append_nil, hvalue]
    rfl
  rw [hfloat] at hnumber
  exact hnumber.spells

end Strings

/-! ## Objects and arrays -/

/-- White space only. -/
def Blank (w : String) : Prop := ∀ b ∈ utf8 w, isWs b = true

instance : DecidablePred Blank := fun w => List.decidableBAll (isWs · = true) (utf8 w)

/-- A member as it is written, with its key and value. -/
structure Member where
  rawKey : String
  key : String
  text : String
  value : JsonValue

/-- A member with a plain key. -/
def Member.plain (key text : String) (value : JsonValue) : Member := ⟨key, key, text, value⟩

/-- What is written is the key and the value. -/
structure Member.Spelled (levels : Nat) (e : Member) : Prop where
  quoted : Quoted (utf8 ("\"" ++ e.rawKey ++ "\"")) e.key
  spells : Spells levels (utf8 e.text) e.value

/-- One member on a line of its own. -/
def Member.line (indent : String) (e : Member) : String :=
  "\n" ++ indent ++ "\"" ++ e.rawKey ++ "\": " ++ e.text

/-- The members of an object, up to its closing brace. -/
def memberLines (indent close : String) : List Member → String
  | [] => "\n" ++ close ++ "\x7d"
  | [e] => e.line indent ++ "\n" ++ close ++ "\x7d"
  | e :: entries => e.line indent ++ "," ++ memberLines indent close entries

/-- An object with its members on lines of their own. -/
def objectText (indent close : String) (entries : List Member) : String :=
  "\x7b" ++ memberLines indent close entries

section Objects

variable {levels : Nat} {indent close w : String} {entries : List Member}

/-- White space is white space of the grammar. -/
theorem Blank.ws (h : Blank w) : Ws (utf8 w) := by
  intro b hb
  have hblank := h b hb
  simp only [isWs, Bool.or_eq_true, beq_iff_eq] at hblank
  tauto

theorem Blank.newline (h : Blank w) : Blank ("\n" ++ w) := by
  intro b hb
  rw [utf8_append, List.mem_append] at hb
  rcases hb with hb | hb
  · have hline : utf8 "\n" = [0x0a] := by decide
    rw [hline, List.mem_singleton] at hb
    rw [hb]
    rfl
  · exact h b hb

/-- The parts of a member line. -/
theorem utf8_line (indent : String) (e : Member) :
    utf8 (e.line indent) = utf8 ("\n" ++ indent) ++
      (utf8 ("\"" ++ e.rawKey ++ "\"") ++ ([] ++ 0x3a :: ([0x20] ++ utf8 e.text))) := by
  have hcolon : utf8 "\": " = [0x22, 0x3a, 0x20] := by decide
  have hquote : utf8 "\"" = [0x22] := by decide
  simp only [Member.line, utf8_append, hcolon, hquote, List.append_assoc, List.cons_append,
    List.nil_append]

/-- The lines of an object are its members, up to the closing brace. -/
theorem reads_memberLines (hindent : Blank indent) (hclose : Blank close) (hne : entries ≠ [])
    (h : ∀ e ∈ entries, e.Spelled levels) :
    ∃ text, utf8 (memberLines indent close entries) = text ++ [0x7d] ∧
      Reads levels (.members (entries.map fun e => (e.key, e.value))) text := by
  have hbrace : utf8 "\x7d" = [0x7d] := by decide
  have hcomma : utf8 "," = [0x2c] := by decide
  have hspace : Ws [0x20] := by simp [Ws]
  have hnil : Ws [] := by simp [Ws]
  induction entries with
  | nil => exact (hne rfl).elim
  | cons e entries ih =>
    have he := h e List.mem_cons_self
    cases entries with
    | nil =>
      -- the last line, with the line break in front of the brace behind it
      refine ⟨_, ?_, Reads.member hindent.newline.ws he.quoted hnil hspace he.spells
        hclose.newline.ws⟩
      simp only [memberLines, utf8_append, utf8_line, hbrace, List.append_assoc, List.cons_append]
    | cons e' entries =>
      rcases ih (by simp) fun e he => h e (List.mem_cons_of_mem _ he) with ⟨texts, htexts, hreads⟩
      refine ⟨_, ?_, Reads.members hindent.newline.ws he.quoted hnil hspace he.spells hnil hreads⟩
      have hlines : memberLines indent close (e :: e' :: entries) =
          e.line indent ++ "," ++ memberLines indent close (e' :: entries) := rfl
      rw [hlines, utf8_append, utf8_append, utf8_line, htexts, hcomma]
      simp only [List.append_assoc, List.cons_append, List.nil_append]

/-- An object with lines for its members is read back. -/
theorem spells_objectText (hindent : Blank indent) (hclose : Blank close) (hne : entries ≠ [])
    (h : ∀ e ∈ entries, e.Spelled levels) :
    Spells (levels + 1) (utf8 (objectText indent close entries))
      (.object (entries.map fun e => (e.key, e.value))) := by
  have hbrace : utf8 "\x7b" = [0x7b] := by decide
  rcases reads_memberLines hindent hclose hne h with ⟨text, htext, hreads⟩
  rw [objectText, utf8_append, hbrace, htext]
  exact spells_object hreads

/-! ## Arrays -/

/-- The items of an array, up to its closing bracket. -/
def itemList : List (String × JsonValue) → String
  | [] => "]"
  | [item] => item.1 ++ "]"
  | item :: items => item.1 ++ ", " ++ itemList items

/-- The items of an array are read, up to the closing bracket. -/
theorem reads_itemList {items : List (String × JsonValue)} (hne : items ≠ [])
    (h : ∀ item ∈ items, Spells levels (utf8 item.1) item.2) {w : Bytes} (hw : Ws w) :
    ∃ text, w ++ utf8 (itemList items) = text ++ [0x5d] ∧
      Reads levels (.items (items.map (·.2))) text := by
  have hbracket : utf8 "]" = [0x5d] := by decide
  have hcomma : utf8 ", " = [0x2c, 0x20] := by decide
  have hspace : Ws [0x20] := by simp [Ws]
  have hnil : Ws [] := by simp [Ws]
  induction items generalizing w with
  | nil => exact (hne rfl).elim
  | cons item items ih =>
    have hitem := h item List.mem_cons_self
    cases items with
    | nil =>
      refine ⟨_, ?_, Reads.item hw hitem hnil⟩
      rw [itemList, utf8_append, hbracket, List.append_nil, List.append_assoc]
    | cons item' items =>
      -- the blank behind the comma goes with the next item
      rcases ih (by simp) (fun item hi => h item (List.mem_cons_of_mem _ hi)) hspace with
        ⟨texts, htexts, hreads⟩
      refine ⟨_, ?_, Reads.items hw hitem hnil hreads⟩
      have hlist : itemList (item :: item' :: items) = item.1 ++ ", " ++ itemList (item' :: items) :=
        rfl
      rw [hlist, utf8_append, utf8_append, hcomma]
      simp only [List.append_assoc, List.cons_append, List.nil_append, ← htexts]

/-- An array of values is read back. -/
theorem spells_itemList {items : List (String × JsonValue)}
    (h : ∀ item ∈ items, Spells levels (utf8 item.1) item.2) :
    Spells (levels + 1) (utf8 ("[" ++ itemList items)) (.array (items.map (·.2))) := by
  have hbracket : utf8 "[" = [0x5b] := by decide
  have hnil : Ws [] := by simp [Ws]
  by_cases hitems : items = []
  · subst hitems
    have htext : utf8 ("[" ++ itemList []) = 0x5b :: ([] ++ [0x5d]) := by decide
    rw [htext]
    exact spells_emptyArray hnil
  · rcases reads_itemList hitems h hnil with ⟨text, htext, hreads⟩
    rw [List.nil_append] at htext
    rw [utf8_append, hbracket, htext]
    exact spells_array hreads

end Objects

/-- A document is a value, perhaps with white space behind it. -/
theorem parse_of_spells {text w : String} {v : JsonValue} (h : Spells maxDepth (utf8 text) v)
    (hw : Blank w) (hends : Ends (utf8 w)) : parse (text ++ w) = .ok v := by
  rw [parse_eq_ok_iff, utf8_append]
  have hskip : skipWs (utf8 w) = [] := by
    have happend := skipWs_append hw []
    rw [List.append_nil] at happend
    exact happend
  simp only [parseDocument, skipWs_spells h, h _ _ hends, Outcome.ok_bind, hskip, List.isEmpty_nil,
    if_true]

end Json

end FerroHttp
