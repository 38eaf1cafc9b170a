import Mathlib.Data.List.DropRight
import Mathlib.Data.List.TakeWhile
import FerroHttp.Lib.Numeral

/-!
# Text — byte strings and UTF-8 strings

A byte string is a list of bytes; a text is a Lean `String`, seen on the wire
through its UTF-8 encoding `utf8`. `fromUtf8` decodes strictly, and the two are
inverse (`fromUtf8_eq_some_iff`). The operations are those of a systems
language's standard library: ASCII case-folding on bytes, whitespace trimming
on characters, splitting, and bounded integer parsing.
-/

namespace Text

/-- A byte string. -/
abbrev Bytes := List UInt8

/-! ## Encoding and decoding -/

/-- The UTF-8 encoding of a text. -/
def utf8 (s : String) : Bytes := s.toList.flatMap String.utf8EncodeChar

/-- Strict decoding: `none` on anything that is not well-formed UTF-8. -/
def fromUtf8 (bs : Bytes) : Option String := String.fromUTF8? ⟨bs.toArray⟩

theorem toByteArray_eq_utf8 (s : String) : s.toByteArray = ⟨(utf8 s).toArray⟩ := by
  rw [← String.utf8Encode_toList, List.utf8Encode, utf8]
  exact ByteArray.ext (by simp)

theorem fromUtf8_eq_some_iff {bs : Bytes} {s : String} : fromUtf8 bs = some s ↔ utf8 s = bs := by
  unfold fromUtf8 String.fromUTF8?
  constructor
  · intro h
    split at h
    · cases h
      have hbytes := toByteArray_eq_utf8 (String.fromUTF8 ⟨bs.toArray⟩ ‹_›)
      have harr : (⟨bs.toArray⟩ : ByteArray) = ⟨(utf8 (String.fromUTF8 ⟨bs.toArray⟩ ‹_›)).toArray⟩ := hbytes
      have hdata := congrArg (fun b : ByteArray => b.data.toList) harr
      simpa using hdata.symm
    · cases h
  · rintro rfl
    have harr := toByteArray_eq_utf8 s
    have hvalid : ByteArray.IsValidUTF8 ⟨(utf8 s).toArray⟩ := harr ▸ s.isValidUTF8
    rw [dif_pos hvalid]
    congr 1
    exact String.toByteArray_inj.mp harr.symm

@[simp] theorem fromUtf8_utf8 (s : String) : fromUtf8 (utf8 s) = some s :=
  fromUtf8_eq_some_iff.mpr rfl

theorem utf8_injective {s t : String} (h : utf8 s = utf8 t) : s = t := by
  have hs : fromUtf8 (utf8 t) = some s := fromUtf8_eq_some_iff.mpr h
  rw [fromUtf8_utf8] at hs
  exact (Option.some.inj hs).symm

@[simp] theorem utf8_append (s t : String) : utf8 (s ++ t) = utf8 s ++ utf8 t := by
  simp [utf8]

theorem utf8_join (l : List String) : utf8 (String.join l) = l.flatMap utf8 := by
  induction l with
  | nil => rfl
  | cons t l ih => rw [String.join_cons, utf8_append, ih, List.flatMap_cons]

@[simp] theorem utf8_ofList (cs : List Char) :
    utf8 (String.ofList cs) = cs.flatMap String.utf8EncodeChar := by
  simp [utf8]

/-- A character below 256 is kept by its low byte. -/
theorem toUInt8_toNat {c : Char} (h : c.toNat < 256) : c.toUInt8.toNat = c.toNat := by
  show (UInt8.ofNat c.toNat).toNat = c.toNat
  simp [Nat.mod_eq_of_lt h]

/-- An ASCII character is its own byte. -/
theorem utf8EncodeChar_of_ascii {c : Char} (h : c.toNat < 128) :
    String.utf8EncodeChar c = [c.toUInt8] := by
  have hv : c.val.toNat ≤ 127 := by
    change c.toNat ≤ 127
    omega
  simp only [String.utf8EncodeChar, hv, if_true, Char.toUInt8]
  congr 1

theorem encode_of_ascii {cs : List Char} (h : ∀ c ∈ cs, c.toNat < 128) :
    cs.flatMap String.utf8EncodeChar = cs.map Char.toUInt8 := by
  induction cs with
  | nil => rfl
  | cons c cs ih =>
    rw [List.flatMap_cons, utf8EncodeChar_of_ascii (h c (by simp)),
      ih (fun d hd => h d (by simp [hd]))]
    rfl

/-- A character outside ASCII is encoded with high bytes only. -/
theorem high_of_mem_utf8EncodeChar {c : Char} (h : 128 ≤ c.toNat) {b : UInt8}
    (hb : b ∈ String.utf8EncodeChar c) : 128 ≤ b.toNat := by
  have hv : ¬ c.val.toNat ≤ 127 := by
    change ¬ c.toNat ≤ 127
    omega
  have hmod : ∀ n, n < 256 → (UInt8.ofNat n).toNat = n := fun n hn => by
    simp [Nat.mod_eq_of_lt hn]
  simp only [String.utf8EncodeChar, hv, if_false] at hb
  split at hb
  · simp only [List.mem_cons, List.not_mem_nil, or_false] at hb
    rcases hb with rfl | rfl <;> rw [hmod _ (by omega)] <;> omega
  · split at hb
    · simp only [List.mem_cons, List.not_mem_nil, or_false] at hb
      rcases hb with rfl | rfl | rfl <;> rw [hmod _ (by omega)] <;> omega
    · simp only [List.mem_cons, List.not_mem_nil, or_false] at hb
      rcases hb with rfl | rfl | rfl | rfl <;> rw [hmod _ (by omega)] <;> omega

theorem utf8EncodeChar_ne_nil (c : Char) : String.utf8EncodeChar c ≠ [] := by
  simp only [String.utf8EncodeChar]
  split
  · simp
  · split
    · simp
    · split <;> simp

/-- A text whose bytes are all ASCII consists of ASCII characters. -/
theorem ascii_of_utf8 {s : String} (h : ∀ b ∈ utf8 s, b.toNat < 128) :
    ∀ c ∈ s.toList, c.toNat < 128 := by
  intro c hc
  by_contra hge
  obtain ⟨b, hb⟩ := List.exists_mem_of_ne_nil _ (utf8EncodeChar_ne_nil c)
  have hlow := h b (List.mem_flatMap.mpr ⟨c, hc, hb⟩)
  have hhigh := high_of_mem_utf8EncodeChar (by omega) hb
  omega

/-- Bytes of ASCII are a text. -/
theorem exists_utf8_of_ascii {bs : Bytes} (h : ∀ b ∈ bs, b.toNat < 128) : ∃ s, utf8 s = bs := by
  induction bs with
  | nil => exact ⟨"", rfl⟩
  | cons b bs ih =>
    obtain ⟨s, rfl⟩ := ih fun c hc => h c (List.mem_cons_of_mem b hc)
    have hb : (Char.ofUInt8 b).toNat = b.toNat := UInt8.toNat_toUInt32 b
    have hlow := h b List.mem_cons_self
    rw [← hb] at hlow
    have hbyte : (Char.ofUInt8 b).toUInt8 = b := by
      apply UInt8.toNat_inj.mp
      rw [toUInt8_toNat (by omega), hb]
    refine ⟨String.singleton (Char.ofUInt8 b) ++ s, ?_⟩
    rw [utf8_append]
    simp [utf8, utf8EncodeChar_of_ascii hlow, hbyte]

/-! ## Bytes -/

/-- `u8::is_ascii_digit`. -/
def isAsciiDigit (b : UInt8) : Bool := 0x30 ≤ b && b ≤ 0x39

/-- `u8::is_ascii_alphabetic`. -/
def isAsciiAlphabetic (b : UInt8) : Bool := (0x41 ≤ b && b ≤ 0x5a) || (0x61 ≤ b && b ≤ 0x7a)

/-- `u8::is_ascii_alphanumeric`. -/
def isAsciiAlphanumeric (b : UInt8) : Bool := isAsciiAlphabetic b || isAsciiDigit b

/-- `u8::to_ascii_lowercase`. -/
def toAsciiLowercase (b : UInt8) : UInt8 := if 0x41 ≤ b && b ≤ 0x5a then b + 0x20 else b

/-- `[u8]::eq_ignore_ascii_case`. -/
def eqIgnoreAsciiCase (a b : Bytes) : Bool := a.map toAsciiLowercase == b.map toAsciiLowercase

theorem eqIgnoreAsciiCase_iff {a b : Bytes} :
    eqIgnoreAsciiCase a b = true ↔ a.map toAsciiLowercase = b.map toAsciiLowercase := by
  simp [eqIgnoreAsciiCase]

@[simp] theorem eqIgnoreAsciiCase_self (a : Bytes) : eqIgnoreAsciiCase a a = true := by
  simp [eqIgnoreAsciiCase]

/-- A predicate on bytes that holds of all 256 of them holds of every byte. -/
theorem forall_byte {P : UInt8 → Prop} (h : ∀ n : Nat, n < 256 → P (UInt8.ofNat n)) :
    ∀ b : UInt8, P b := by
  intro b
  have hb := h b.toNat b.toNat_lt
  rwa [UInt8.ofNat_toNat] at hb

/-! ## Character boundaries -/

/-- `str::is_char_boundary`: a character starts at the position, or the text ends there. -/
def IsCharBoundary (s : String) (i : Nat) : Prop :=
  ∃ before after, s = before ++ after ∧ (utf8 before).length = i

/-- An ASCII byte is the first of its character. -/
theorem isUTF8FirstByte_of_ascii {b : UInt8} (h : b.toNat < 128) : b.IsUTF8FirstByte := by
  have hall : ∀ b : UInt8, b.toNat < 128 → b.IsUTF8FirstByte := forall_byte (by decide +kernel)
  exact hall b h

/-- What may be the first byte of a character starts one. -/
theorem exists_split_of_lead {cs : List Char} {i : Nat} {b : UInt8} {tail : Bytes}
    (hdrop : (cs.flatMap String.utf8EncodeChar).drop i = b :: tail)
    (hb : b.IsUTF8FirstByte) :
    ∃ before after, cs = before ++ after ∧ (before.flatMap String.utf8EncodeChar).length = i := by
  induction cs generalizing i with
  | nil =>
    rw [List.flatMap_nil, List.drop_nil] at hdrop
    cases hdrop
  | cons c cs ih =>
    rw [List.flatMap_cons] at hdrop
    rcases Nat.lt_or_ge i (String.utf8EncodeChar c).length with hlt | hge
    · -- only the first byte of the character can be meant
      rw [List.drop_append_of_le_length (by omega), List.drop_eq_getElem_cons hlt,
        List.cons_append, List.cons.injEq] at hdrop
      rw [← hdrop.1, UInt8.isUTF8FirstByte_getElem_utf8EncodeChar] at hb
      exact ⟨[], c :: cs, rfl, hb.symm⟩
    · rw [List.drop_append, List.drop_eq_nil_of_le hge, List.nil_append] at hdrop
      obtain ⟨before, after, hsplit, hlength⟩ := ih hdrop
      refine ⟨c :: before, after, by rw [hsplit]; rfl, ?_⟩
      rw [List.flatMap_cons, List.length_append, hlength]
      omega

namespace IsCharBoundary

variable {s : String} {i : Nat} {b : UInt8} {tail : Bytes}

theorem of_lead (hdrop : (utf8 s).drop i = b :: tail) (hb : b.IsUTF8FirstByte) :
    IsCharBoundary s i := by
  obtain ⟨before, after, hsplit, hlength⟩ := exists_split_of_lead hdrop hb
  refine ⟨String.ofList before, String.ofList after, ?_, ?_⟩
  · rw [← String.ofList_append, ← hsplit, String.ofList_toList]
  · rw [utf8_ofList, hlength]

/-- A whole character starts at a boundary, and there is another boundary behind it. -/
theorem next (h : IsCharBoundary s i) (hdrop : (utf8 s).drop i = b :: tail) :
    ∃ c rest, String.utf8EncodeChar c = b :: rest ∧ IsCharBoundary s (i + (rest.length + 1)) := by
  obtain ⟨before, after, rfl, rfl⟩ := h
  rw [utf8_append, List.drop_left] at hdrop
  cases hafter : after.toList with
  | nil =>
    rw [utf8, hafter] at hdrop
    cases hdrop
  | cons c cs =>
    have hchar : after = String.singleton c ++ String.ofList cs := by
      apply String.toList_inj.mp
      rw [hafter]
      simp
    rw [utf8, hafter, List.flatMap_cons] at hdrop
    obtain ⟨first, rest, hc⟩ := List.exists_cons_of_ne_nil (utf8EncodeChar_ne_nil c)
    rw [hc, List.cons_append, List.cons.injEq] at hdrop
    rw [hdrop.1] at hc
    refine ⟨c, rest, hc, before ++ String.singleton c, String.ofList cs, ?_, ?_⟩
    · rw [hchar, String.append_assoc]
    · rw [utf8_append, List.length_append]
      simp [utf8, hc]

/-- Behind an ASCII byte there is a boundary. -/
theorem ascii (hdrop : (utf8 s).drop i = b :: tail) (hb : b.toNat < 128) :
    IsCharBoundary s (i + 1) := by
  obtain ⟨c, rest, hc, hnext⟩ := (of_lead hdrop (isUTF8FirstByte_of_ascii hb)).next hdrop
  have hlow : c.toNat < 128 := by
    by_contra hge
    have hhigh := high_of_mem_utf8EncodeChar (c := c) (by omega) (b := b) (by rw [hc]; simp)
    omega
  rw [utf8EncodeChar_of_ascii hlow, List.cons.injEq] at hc
  rwa [← hc.2] at hnext

/-- The same for a whole piece of ASCII. -/
theorem ascii_append {bs rest : Bytes} (hdrop : (utf8 s).drop i = bs ++ rest)
    (hascii : ∀ b ∈ bs, b.toNat < 128) : i = i + bs.length ∨ IsCharBoundary s (i + bs.length) := by
  induction bs generalizing i with
  | nil => exact .inl rfl
  | cons b bs ih =>
    have hnext := ascii hdrop (hascii b List.mem_cons_self)
    have htail : (utf8 s).drop (i + 1) = bs ++ rest := by
      rw [← List.tail_drop, hdrop]
      rfl
    have hlength : i + 1 + bs.length = i + (b :: bs).length := by
      rw [List.length_cons]
      omega
    rw [← hlength]
    rcases ih htail fun c hc => hascii c (List.mem_cons_of_mem b hc) with hend | hend
    · rw [← hend]
      exact .inr hnext
    · exact .inr hend

end IsCharBoundary

/-! ## Trimming -/

section Trim

variable {α : Type}

/-- Drop the longest prefix and suffix of elements satisfying `p`. -/
def trimWith (p : α → Bool) (l : List α) : List α := (l.dropWhile p).rdropWhile p

/-- Neither end of the list satisfies `p`. -/
def CleanEnds (p : α → Bool) (l : List α) : Prop :=
  (∀ a, l.head? = some a → p a = false) ∧ ∀ a, l.getLast? = some a → p a = false

variable {p : α → Bool}

/-- Trimming removes elements satisfying `p`, on both sides. -/
theorem trimWith_split (l : List α) :
    ∃ pre post, l = pre ++ trimWith p l ++ post ∧ (∀ a ∈ pre, p a = true) ∧
      ∀ a ∈ post, p a = true := by
  refine ⟨l.takeWhile p, (l.dropWhile p).rtakeWhile p, ?_, ?_, ?_⟩
  · rw [List.append_assoc, trimWith, List.rdropWhile_append_rtakeWhile,
      List.takeWhile_append_dropWhile]
  · intro a ha
    exact List.mem_takeWhile_imp ha
  · intro a ha
    exact List.mem_rtakeWhile_imp ha

theorem dropWhile_of_head {l : List α} (h : ∀ a, l.head? = some a → p a = false) :
    l.dropWhile p = l := by
  cases l with
  | nil => rfl
  | cons a as => simp [h a rfl]

theorem rdropWhile_of_getLast {l : List α} (h : ∀ a, l.getLast? = some a → p a = false) :
    l.rdropWhile p = l := by
  rw [List.rdropWhile, dropWhile_of_head, List.reverse_reverse]
  intro a ha
  rw [List.head?_reverse] at ha
  exact h a ha

/-- A list with clean ends is left alone. -/
theorem trimWith_of_cleanEnds {l : List α} (h : CleanEnds p l) : trimWith p l = l := by
  rw [trimWith, dropWhile_of_head h.1, rdropWhile_of_getLast h.2]

/-- Padding around a list with clean ends is what trimming removes. -/
theorem trimWith_append {pre m post : List α} (hpre : ∀ a ∈ pre, p a = true)
    (hpost : ∀ a ∈ post, p a = true) (hm : CleanEnds p m) :
    trimWith p (pre ++ m ++ post) = m := by
  have hleft : (pre ++ m ++ post).dropWhile p = (m ++ post).dropWhile p := by
    rw [List.append_assoc]
    exact List.dropWhile_append_of_pos hpre
  rw [trimWith, hleft]
  cases hm' : m with
  | nil =>
    rw [List.nil_append, List.dropWhile_eq_nil_iff.mpr hpost]
    simp
  | cons a as =>
    have hhead : p a = false := hm.1 a (by simp [hm'])
    have hmid : (a :: as ++ post).dropWhile p = a :: as ++ post := by
      simp [hhead]
    rw [hmid, List.rdropWhile, List.reverse_append,
      List.dropWhile_append_of_pos (by simpa using hpost), ← hm']
    exact rdropWhile_of_getLast hm.2

theorem mem_of_mem_trimWith {l : List α} {a : α} (h : a ∈ trimWith p l) : a ∈ l := by
  obtain ⟨pre, post, hl, _, _⟩ := trimWith_split (p := p) l
  rw [hl]
  simp [h]

/-- The result of trimming has clean ends. -/
theorem cleanEnds_trimWith (l : List α) : CleanEnds p (trimWith p l) := by
  have hlast : ∀ a, (trimWith p l).getLast? = some a → p a = false := by
    intro a ha
    rw [trimWith, List.rdropWhile, List.getLast?_reverse] at ha
    have hnot := List.head?_dropWhile_not p (l.dropWhile p).reverse
    rw [ha] at hnot
    simpa using hnot
  refine ⟨?_, hlast⟩
  intro a ha
  -- the head of the result is the head of what the left trim leaves
  have hpre : trimWith p l <+: l.dropWhile p := List.rdropWhile_prefix p _
  obtain ⟨t, ht⟩ := hpre
  have hhead : (l.dropWhile p).head? = some a := by
    rw [← ht, List.head?_append, ha]
    rfl
  have hnot := List.head?_dropWhile_not p l
  rw [hhead] at hnot
  simpa using hnot

/-- Padding does not change what is left. -/
theorem trimWith_pad {pre post : List α} (hpre : ∀ a ∈ pre, p a = true)
    (hpost : ∀ a ∈ post, p a = true) (l : List α) :
    trimWith p (pre ++ l ++ post) = trimWith p l := by
  obtain ⟨pre', post', hl, hpre', hpost'⟩ := trimWith_split (p := p) l
  have hpad : pre ++ l ++ post = pre ++ pre' ++ trimWith p l ++ (post' ++ post) := by
    conv_lhs => rw [hl]
    simp only [List.append_assoc]
  rw [hpad]
  refine trimWith_append ?_ ?_ (cleanEnds_trimWith l)
  · intro a ha
    exact (List.mem_append.mp ha).elim (hpre a) (hpre' a)
  · intro a ha
    exact (List.mem_append.mp ha).elim (hpost' a) (hpost a)

theorem trimWith_dropWhile (l : List α) : trimWith p (l.dropWhile p) = trimWith p l := by
  have hpre : ∀ a ∈ l.takeWhile p, p a = true := fun a ha => List.mem_takeWhile_imp ha
  have hpad := trimWith_pad hpre (fun a ha => absurd ha List.not_mem_nil) (l.dropWhile p)
  rw [List.append_nil, List.takeWhile_append_dropWhile] at hpad
  exact hpad.symm

theorem trimWith_rdropWhile (l : List α) : trimWith p (l.rdropWhile p) = trimWith p l := by
  have hpost : ∀ a ∈ l.rtakeWhile p, p a = true := fun a ha => List.mem_rtakeWhile_imp ha
  have hpad := trimWith_pad (fun a ha => absurd ha List.not_mem_nil) hpost (l.rdropWhile p)
  rw [List.nil_append, List.rdropWhile_append_rtakeWhile] at hpad
  exact hpad.symm

/-- Around an element that stays, each side is trimmed at its outer end. -/
theorem trimWith_append_cons {c : α} (hc : p c = false) (a b : List α) :
    trimWith p (a ++ c :: b) = a.dropWhile p ++ c :: b.rdropWhile p := by
  have hpad : a ++ c :: b =
      a.takeWhile p ++ (a.dropWhile p ++ c :: b.rdropWhile p) ++ b.rtakeWhile p := by
    conv_lhs =>
      rw [← List.takeWhile_append_dropWhile (p := p) (l := a),
        ← List.rdropWhile_append_rtakeWhile (p := p) (l := b)]
    simp only [List.append_assoc, List.cons_append]
  rw [hpad]
  refine trimWith_append (fun x hx => List.mem_takeWhile_imp hx)
    (fun x hx => List.mem_rtakeWhile_imp hx) ⟨?_, ?_⟩
  · intro x hx
    rw [List.head?_append, Option.or_eq_some_iff] at hx
    rcases hx with hx | ⟨_, hx⟩
    · have hnot := List.head?_dropWhile_not p a
      rw [hx] at hnot
      simpa using hnot
    · cases hx
      exact hc
  · intro x hx
    rw [List.getLast?_append, List.getLast?_cons, Option.some_or, Option.some.injEq] at hx
    cases hlast : (b.rdropWhile p).getLast? with
    | none =>
      rw [hlast, Option.getD_none] at hx
      rw [← hx]
      exact hc
    | some y =>
      rw [hlast, Option.getD_some] at hx
      rw [← hx]
      rw [List.rdropWhile, List.getLast?_reverse] at hlast
      have hnot := List.head?_dropWhile_not p b.reverse
      rw [hlast] at hnot
      simpa using hnot

/-- Trimming keeps the elements that it does not drop at the ends. -/
theorem mem_trimWith_iff {l : List α} {a : α} (ha : p a = false) : a ∈ trimWith p l ↔ a ∈ l := by
  refine ⟨mem_of_mem_trimWith, ?_⟩
  intro h
  obtain ⟨pre, post, hl, hpre, hpost⟩ := trimWith_split (p := p) l
  rw [hl, List.mem_append, List.mem_append] at h
  rcases h with (h | h) | h
  · rw [hpre a h] at ha
    cases ha
  · exact h
  · rw [hpost a h] at ha
    cases ha

/-- Clean ends are what trimming leaves alone. -/
theorem cleanEnds_iff {l : List α} : CleanEnds p l ↔ trimWith p l = l := by
  refine ⟨trimWith_of_cleanEnds, ?_⟩
  intro h
  rw [← h]
  exact cleanEnds_trimWith l

instance [DecidableEq α] (l : List α) : Decidable (CleanEnds p l) :=
  decidable_of_iff _ cleanEnds_iff.symm

end Trim

/-- `char::is_whitespace`: the Unicode `White_Space` property. -/
def isWhitespace (c : Char) : Bool :=
  let n := c.toNat
  (0x09 ≤ n && n ≤ 0x0d) || n == 0x20 || n == 0x85 || n == 0xa0 || n == 0x1680 ||
    (0x2000 ≤ n && n ≤ 0x200a) || n == 0x2028 || n == 0x2029 || n == 0x202f ||
    n == 0x205f || n == 0x3000

/-- `str::trim`. -/
def trim (s : String) : String := String.ofList (trimWith isWhitespace s.toList)

/-- A text without white space at its ends is left alone. -/
theorem trim_of_cleanEnds {s : String} (h : CleanEnds isWhitespace s.toList) : trim s = s := by
  rw [trim, trimWith_of_cleanEnds h, String.ofList_toList]

/-! ## Splitting and integers -/

/-- `[T]::splitn`: at most `n` pieces, the last one keeping what is left. -/
def splitn {α : Type} (p : α → Bool) : Nat → List α → List (List α)
  | 0, _ => []
  | 1, l => [l]
  | n + 2, l =>
    match l.findIdx? p with
    | some i => l.take i :: splitn p (n + 1) (l.drop (i + 1))
    | none => [l]

/-- `str::parse` for an unsigned integer type with `bound` values: an optional
`+`, then decimal digits whose value fits. -/
def parseUnsigned (bound : Nat) (s : String) : Option Nat :=
  let digits := match s.toList with
    | '+' :: rest => rest
    | cs => cs
  if digits.isEmpty || !digits.all Char.isDigit then none
  else Numeral.checked bound 10 0 (digits.map Numeral.ofDigitChar)

/-- `str::parse` for a signed integer type with values from `-bound` on and below `bound`. -/
def parseSigned (bound : Nat) (s : String) : Option Int :=
  match s.toList with
  | '-' :: digits =>
    if digits.isEmpty || !digits.all Char.isDigit then none
    else (Numeral.checked (bound + 1) 10 0 (digits.map Numeral.ofDigitChar)).map fun n => -(n : Int)
  | _ => (parseUnsigned bound s).map fun n => (n : Int)

/-- `str::split` at a character. -/
def split (c : Char) (s : String) : List String := (s.toList.splitOn c).map String.ofList

/-- `str::split_once` at a character. -/
def splitOnce (c : Char) (s : String) : Option (String × String) :=
  match s.toList.findIdx? (· == c) with
  | some i => some (String.ofList (s.toList.take i), String.ofList (s.toList.drop (i + 1)))
  | none => none

/-- `str::strip_prefix`. -/
def stripPrefix (pre s : String) : Option String :=
  if pre.toList.isPrefixOf s.toList then some (String.ofList (s.toList.drop pre.toList.length))
  else none

/-- `str::starts_with`. -/
def startsWith (pre s : String) : Bool := pre.toList.isPrefixOf s.toList

/-- The text from the last `c` on, which `str::rfind` finds; empty if there is none. -/
def fromLast (c : Char) (s : String) : String :=
  match s.toList.reverse.findIdx? (· == c) with
  | some i => String.ofList (s.toList.drop (s.toList.length - 1 - i))
  | none => ""

/-- `str::to_ascii_lowercase`. -/
def lowercase (s : String) : String := String.ofList (s.toList.map Char.toLower)

/-- A number in lowercase hexadecimal. -/
def hex (n : Nat) : String := String.ofList (Nat.toDigits 16 n)

/-- Searching for an element cuts a list at its first occurrence. -/
theorem findIdx?_beq_eq_some_iff {α : Type} [BEq α] [LawfulBEq α] {l : List α} {c : α} {i : Nat} :
    l.findIdx? (· == c) = some i ↔ ∃ a b, l = a ++ c :: b ∧ c ∉ a ∧ i = a.length := by
  induction l generalizing i with
  | nil => simp
  | cons x xs ih =>
    rw [List.findIdx?_cons]
    by_cases hx : x = c
    · subst hx
      simp only [BEq.rfl, if_true, Option.some.injEq]
      constructor
      · rintro rfl
        exact ⟨[], xs, rfl, by simp, rfl⟩
      · rintro ⟨a, b, hab, ha, rfl⟩
        cases a with
        | nil => rfl
        | cons y ys =>
          rw [List.cons_append, List.cons.injEq] at hab
          rw [hab.1] at ha
          simp at ha
    · have hbeq : (x == c) = false := by simpa using hx
      simp only [hbeq, Bool.false_eq_true, if_false, Option.map_eq_some_iff]
      constructor
      · rintro ⟨k, hk, rfl⟩
        rcases ih.mp hk with ⟨a, b, rfl, ha, rfl⟩
        refine ⟨x :: a, b, rfl, ?_, rfl⟩
        intro hmem
        rcases List.mem_cons.mp hmem with h | h
        · exact hx h.symm
        · exact ha h
      · rintro ⟨a, b, hab, ha, rfl⟩
        cases a with
        | nil =>
          rw [List.nil_append, List.cons.injEq] at hab
          exact absurd hab.1 hx
        | cons y ys =>
          rw [List.cons_append, List.cons.injEq] at hab
          exact ⟨ys.length, ih.mpr ⟨ys, b, hab.2, fun h => ha (List.mem_cons_of_mem _ h), rfl⟩, rfl⟩

/-- A list is cut at the first occurrence of an element in one way. -/
theorem append_cons_inj {α : Type} [BEq α] [LawfulBEq α] {a b a' b' : List α} {c : α}
    (h : a ++ c :: b = a' ++ c :: b') (ha : c ∉ a) (ha' : c ∉ a') : a = a' ∧ b = b' := by
  have hfirst : (a ++ c :: b).findIdx? (· == c) = some a.length :=
    findIdx?_beq_eq_some_iff.mpr ⟨a, b, rfl, ha, rfl⟩
  have hsecond : (a ++ c :: b).findIdx? (· == c) = some a'.length :=
    findIdx?_beq_eq_some_iff.mpr ⟨a', b', h, ha', rfl⟩
  have hlen : a.length = a'.length := Option.some.inj (hfirst.symm.trans hsecond)
  rcases List.append_inj h hlen with ⟨heq, hcons⟩
  exact ⟨heq, (List.cons.inj hcons).2⟩

theorem findIdx?_beq_eq_none_iff {α : Type} [BEq α] [LawfulBEq α] {l : List α} {c : α} :
    l.findIdx? (· == c) = none ↔ c ∉ l := by
  rw [List.findIdx?_eq_none_iff]
  constructor
  · intro h hmem
    simpa using h c hmem
  · intro h x hx
    rw [beq_eq_false_iff_ne]
    rintro rfl
    exact h hx

/-- The number a string of ASCII digits denotes. -/
def decimal (bs : Bytes) : Nat := Numeral.value 10 (bs.map fun b => (b - 0x30).toNat)

theorem isDigit_of_isAsciiDigit {c : Char} (hlow : c.toNat < 128)
    (h : isAsciiDigit c.toUInt8 = true) :
    c.isDigit = true ∧ (c.toUInt8 - 0x30).toNat = Numeral.ofDigitChar c := by
  have hnat : c.toUInt8.toNat = c.toNat := toUInt8_toNat (by omega)
  simp only [isAsciiDigit, Bool.and_eq_true, decide_eq_true_eq, UInt8.le_iff_toNat_le, hnat] at h
  replace h : 48 ≤ c.toNat ∧ c.toNat ≤ 57 := h
  refine ⟨?_, ?_⟩
  · simp only [Char.isDigit, Bool.and_eq_true, decide_eq_true_eq, ge_iff_le, UInt32.le_iff_toNat_le]
    exact h
  · rw [UInt8.toNat_sub_of_le _ _ (by rw [UInt8.le_iff_toNat_le, hnat]; exact h.1), hnat]
    rfl

/-- An integer type reads a non-empty string of ASCII digits whose value it holds. -/
theorem parseUnsigned_of_digits {bound n : Nat} {s : String} (hbound : 0 < bound)
    (hne : utf8 s ≠ []) (hdigits : (utf8 s).all isAsciiDigit = true) :
    parseUnsigned bound s = some n ↔ decimal (utf8 s) < bound ∧ n = decimal (utf8 s) := by
  have hlow : ∀ c ∈ s.toList, c.toNat < 128 := by
    apply ascii_of_utf8
    intro b hb
    have hd := List.all_eq_true.mp hdigits b hb
    simp only [isAsciiDigit, Bool.and_eq_true, decide_eq_true_eq, UInt8.le_iff_toNat_le] at hd
    have hle : b.toNat ≤ 57 := hd.2
    omega
  have henc : utf8 s = s.toList.map Char.toUInt8 := encode_of_ascii hlow
  have hall : ∀ c ∈ s.toList, c.isDigit = true ∧
      (c.toUInt8 - 0x30).toNat = Numeral.ofDigitChar c := by
    intro c hc
    refine isDigit_of_isAsciiDigit (hlow c hc) ?_
    exact List.all_eq_true.mp hdigits _ (by rw [henc]; exact List.mem_map_of_mem hc)
  have hplus : (match s.toList with
      | '+' :: rest => rest
      | cs => cs) = s.toList := by
    split
    · -- a digit string does not start with a sign
      rename_i rest heq
      have hd := (hall '+' (by rw [heq]; exact List.mem_cons_self)).1
      exact absurd hd (by decide)
    · rfl
  have hvalue : decimal (utf8 s) = Numeral.value 10 (s.toList.map Numeral.ofDigitChar) := by
    rw [decimal, henc, List.map_map]
    congr 1
    exact List.map_congr_left fun c hc => (hall c hc).2
  have hempty : s.toList.isEmpty = false := by
    rw [henc] at hne
    simpa using hne
  have hdig : s.toList.all Char.isDigit = true := by
    rw [List.all_eq_true]
    exact fun c hc => (hall c hc).1
  unfold parseUnsigned
  simp only [hplus, hempty, hdig, Bool.not_true, Bool.or_self, Bool.false_eq_true, if_false]
  rw [Numeral.checked_eq_some_iff (by omega) hbound, hvalue]
  simp

/-- An ASCII digit character is an ASCII digit byte, with the same value. -/
theorem isAsciiDigit_of_isDigit {c : Char} (h : c.isDigit = true) :
    c.toNat < 128 ∧ isAsciiDigit c.toUInt8 = true ∧
      (c.toUInt8 - 0x30).toNat = Numeral.ofDigitChar c := by
  have hrange : 48 ≤ c.toNat ∧ c.toNat ≤ 57 := by
    simp only [Char.isDigit, Bool.and_eq_true, decide_eq_true_eq, ge_iff_le,
      UInt32.le_iff_toNat_le] at h
    exact h
  have hnat : c.toUInt8.toNat = c.toNat := toUInt8_toNat (by omega)
  have hdigit : isAsciiDigit c.toUInt8 = true := by
    simp only [isAsciiDigit, Bool.and_eq_true, decide_eq_true_eq, UInt8.le_iff_toNat_le, hnat]
    exact hrange
  exact ⟨by omega, hdigit, (isDigit_of_isAsciiDigit (by omega) hdigit).2⟩

/-- The decimal numeral of a number, as bytes. -/
theorem utf8_toString (n : Nat) :
    utf8 (toString n) = (Nat.toDigits 10 n).map Char.toUInt8 ∧
      ∀ c ∈ Nat.toDigits 10 n, c.isDigit = true := by
  have hdigit : ∀ c ∈ Nat.toDigits 10 n, c.isDigit = true := fun c hc =>
    Nat.isDigit_of_mem_toDigits (by omega) (by omega) hc
  refine ⟨?_, hdigit⟩
  rw [Nat.toString_eq_ofList_toDigits, utf8_ofList]
  exact encode_of_ascii fun c hc => (isAsciiDigit_of_isDigit (hdigit c hc)).1

/-- A decimal numeral is digits, at least one, denoting the number. -/
theorem decimal_toString (n : Nat) :
    utf8 (toString n) ≠ [] ∧ (utf8 (toString n)).all isAsciiDigit = true ∧
      decimal (utf8 (toString n)) = n := by
  rcases utf8_toString n with ⟨henc, hdigit⟩
  rw [henc]
  refine ⟨by simp [Nat.toDigits_ne_nil], ?_, ?_⟩
  · rw [List.all_map, List.all_eq_true]
    exact fun c hc => (isAsciiDigit_of_isDigit (hdigit c hc)).2.1
  · rw [decimal, List.map_map]
    have hmap : (Nat.toDigits 10 n).map ((fun b => (b - 0x30).toNat) ∘ Char.toUInt8) =
        (Nat.toDigits 10 n).map Numeral.ofDigitChar :=
      List.map_congr_left fun c hc => (isAsciiDigit_of_isDigit (hdigit c hc)).2.2
    rw [hmap, Numeral.value_toDigits]

/-- Decimal numerals are cut apart by a byte that is not a digit. -/
theorem toString_append_cons_inj {m n : Nat} {c : UInt8} {b b' : Bytes}
    (hc : isAsciiDigit c = false)
    (h : utf8 (toString m) ++ c :: b = utf8 (toString n) ++ c :: b') : m = n ∧ b = b' := by
  have hfree : ∀ k : Nat, c ∉ utf8 (toString k) := by
    intro k hmem
    rw [List.all_eq_true.mp (decimal_toString k).2.1 c hmem] at hc
    cases hc
  rcases append_cons_inj h (hfree m) (hfree n) with ⟨heq, hrest⟩
  refine ⟨?_, hrest⟩
  calc m = decimal (utf8 (toString m)) := (decimal_toString m).2.2.symm
    _ = decimal (utf8 (toString n)) := by rw [heq]
    _ = n := (decimal_toString n).2.2

theorem length_utf8_toString_le_iff {n k : Nat} (hk : 0 < k) :
    (utf8 (toString n)).length ≤ k ↔ n < 10 ^ k := by
  rw [(utf8_toString n).1, List.length_map]
  exact Nat.length_toDigits_le_iff (by omega) hk

end Text
