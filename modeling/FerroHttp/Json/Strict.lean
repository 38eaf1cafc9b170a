import FerroHttp.Json.Complete

/-!
# Json.Strict — what is parsed is derived

Every reader is inverted: if it returns, what it took off the front of the text is a token
or a phrase of the grammar. With `Json.Complete` this makes the accepted texts exactly the
documents of the `loose` grammar.
-/

namespace FerroHttp

namespace Json

open Exec Text

variable {n levels : Nat} {text rest rest' w : Bytes} {v : JsonValue}

/-! ## Strings -/

section Strings

variable {out out' s : String} {u : Nat}

theorem skipWs_split (rest : Bytes) : ∃ w, Ws w ∧ rest = w ++ skipWs rest := by
  refine ⟨rest.takeWhile isWs, ?_, (List.takeWhile_append_dropWhile ..).symm⟩
  intro b hb
  have hws := List.mem_takeWhile_imp hb
  simp only [isWs, Bool.or_eq_true, beq_iff_eq] at hws
  tauto

theorem expect_eq_ok {b : UInt8} (h : expect n b rest = .ok rest') : rest = b :: rest' := by
  cases rest with
  | nil => cases h
  | cons c tail =>
    simp only [expect] at h
    split at h
    · rename_i hc
      cases h
      rw [beq_iff_eq.mp hc]
    · cases h

theorem readHex_eq_ok {k value : Nat} (h : readHex n (k + 1) value rest = .ok (u, rest')) :
    ∃ b x tail, hexDigit b = some x ∧ rest = b :: tail ∧
      readHex n k (value * 16 + x) tail = .ok (u, rest') := by
  cases rest with
  | nil => cases h
  | cons b tail =>
    simp only [readHex] at h
    split at h
    · cases h
    · rename_i x hx
      exact ⟨b, x, tail, hx, rfl, h⟩

theorem readHex4_eq_ok (h : readHex4 n rest = .ok (u, rest')) :
    ∃ ds, Hex4 ds u ∧ rest = ds ++ rest' := by
  rcases readHex_eq_ok h with ⟨b₁, x₁, tail₁, h₁, rfl, hread₁⟩
  rcases readHex_eq_ok hread₁ with ⟨b₂, x₂, tail₂, h₂, rfl, hread₂⟩
  rcases readHex_eq_ok hread₂ with ⟨b₃, x₃, tail₃, h₃, rfl, hread₃⟩
  rcases readHex_eq_ok hread₃ with ⟨b₄, x₄, tail₄, h₄, rfl, hread₄⟩
  cases hread₄
  refine ⟨[b₁, b₂, b₃, b₄], ?_, rfl⟩
  have hmk := Hex4.mk h₁ h₂ h₃ h₄
  simpa only [Nat.zero_mul, Nat.zero_add] using hmk

/-- A scalar is one code unit, or a pair of surrogates. -/
theorem unicodeScalar_eq_ok (h : unicodeScalar n rest = .ok (u, rest')) :
    (∃ ds, Hex4 ds u ∧ rest = ds ++ rest') ∨
    ∃ ds ds' hi lo, Hex4 ds hi ∧ HighSurrogate hi ∧ Hex4 ds' lo ∧ LowSurrogate lo ∧
      u = 0x10000 + (hi - 0xd800) * 0x400 + (lo - 0xdc00) ∧
      rest = ds ++ 0x5c :: 0x75 :: (ds' ++ rest') := by
  unfold unicodeScalar at h
  rw [Outcome.bind_eq_ok] at h
  rcases h with ⟨⟨first, rest₁⟩, hfirst, h⟩
  rcases readHex4_eq_ok hfirst with ⟨ds, hds, rfl⟩
  simp only at h
  split at h
  · rename_i hhigh
    right
    -- a backslash, the letter and the second code unit
    rcases rest₁ with _ | ⟨b, tail⟩
    · cases h
    simp only at h
    split at h
    · cases h
    rename_i hb
    rcases tail with _ | ⟨c, tail⟩
    · cases h
    simp only at h
    split at h
    · cases h
    rename_i hc
    rw [Outcome.bind_eq_ok] at h
    rcases h with ⟨⟨low, rest₂⟩, hlow, h⟩
    rcases readHex4_eq_ok hlow with ⟨ds', hds', rfl⟩
    simp only at h
    split at h
    · rename_i hlowRange
      rw [Outcome.ok.injEq, Prod.mk.injEq] at h
      have hb' : b = 0x5c := by simpa using hb
      have hc' : c = 0x75 := by simpa using hc
      exact ⟨ds, ds', first, low, hds, hhigh, hds', hlowRange, h.1.symm, by rw [hb', hc', h.2]⟩
    · cases h
  · split at h
    · cases h
    · cases h
      exact .inl ⟨ds, hds, rfl⟩

theorem charFromU32_eq_some {c : Char} (h : charFromU32 u = some c) : c.toNat = u := by
  unfold charFromU32 at h
  split at h
  · rename_i hvalid
    rw [← Option.some.inj h]
    simp [Char.ofNat, hvalid, Char.ofNatAux, Char.toNat]
  · cases h

/-- What stands behind a backslash is the rest of a character. -/
theorem parseEscape_eq_ok (h : parseEscape n out rest = .ok (out', rest')) :
    ∃ text c, CharText (0x5c :: text) c ∧ rest = text ++ rest' ∧ out' = out.push c := by
  rcases rest with _ | ⟨e, tail⟩
  · cases h
  have hshort : ∀ b c, (b, c) ∈ shortEscapes → (e == b) = true →
      (Outcome.ok (out.push c, tail) : Outcome JsonError (String × Bytes)) = .ok (out', rest') →
      ∃ text c, CharText (0x5c :: text) c ∧ e :: tail = text ++ rest' ∧ out' = out.push c := by
    intro b c hmem he hok
    cases hok
    exact ⟨[b], c, .short hmem, by rw [beq_iff_eq.mp he]; rfl, rfl⟩
  simp only [parseEscape] at h
  split at h
  · exact hshort 0x22 '"' (by decide) ‹_› h
  split at h
  · exact hshort 0x5c '\\' (by decide) ‹_› h
  split at h
  · exact hshort 0x2f '/' (by decide) ‹_› h
  split at h
  · exact hshort 0x62 '\x08' (by decide) ‹_› h
  split at h
  · exact hshort 0x66 '\x0c' (by decide) ‹_› h
  split at h
  · exact hshort 0x6e '\n' (by decide) ‹_› h
  split at h
  · exact hshort 0x72 '\r' (by decide) ‹_› h
  split at h
  · exact hshort 0x74 '\t' (by decide) ‹_› h
  split at h
  · rename_i he
    unfold parseUnicodeEscape at h
    rw [Outcome.bind_eq_ok] at h
    rcases h with ⟨⟨scalar, rest₁⟩, hscalar, h⟩
    simp only at h
    split at h
    · cases h
    rename_i c hc
    cases h
    have hcode := charFromU32_eq_some hc
    rw [beq_iff_eq.mp he]
    rcases unicodeScalar_eq_ok hscalar with ⟨ds, hds, rfl⟩ |
      ⟨ds, ds', hi, lo, hds, hhi, hds', hlo, hvalue, rfl⟩
    · rw [← hcode] at hds
      exact ⟨0x75 :: ds, c, .unicode hds, rfl, rfl⟩
    · rw [← hcode] at hvalue
      exact ⟨0x75 :: (ds ++ 0x5c :: 0x75 :: ds'), c, .pair hds hhi hds' hlo hvalue, by simp, rfl⟩
  · cases h

/-- The first byte of a character tells whether it may stand unescaped. -/
theorem unescaped_of_head {c : Char} {b : UInt8} {tail : Bytes}
    (hc : String.utf8EncodeChar c = b :: tail) (hquote : b ≠ 0x22) (hslash : b ≠ 0x5c)
    (hcontrol : ¬ b < 0x20) : Unescaped c := by
  by_cases hlow : c.toNat < 128
  · rw [utf8EncodeChar_of_ascii hlow, List.cons.injEq] at hc
    have hnat : b.toNat = c.toNat := by
      rw [← hc.1]
      show (UInt8.ofNat c.toNat).toNat = c.toNat
      simp [Nat.mod_eq_of_lt (by omega : c.toNat < 256)]
    rw [UInt8.lt_iff_toNat_lt, hnat] at hcontrol
    refine ⟨Nat.not_lt.mp hcontrol, ?_, ?_⟩
    · rintro rfl
      exact hquote (UInt8.toNat_inj.mp hnat)
    · rintro rfl
      exact hslash (UInt8.toNat_inj.mp hnat)
  · have hhigh : 128 ≤ c.toNat := by omega
    refine ⟨by omega, ?_, ?_⟩
    · rintro rfl
      exact absurd hhigh (by decide)
    · rintro rfl
      exact absurd hhigh (by decide)

/-- As many bytes as the first one asks for are one character. -/
theorem chunk_eq_singleton {b : UInt8} {tail : Bytes} {chunk : String} (hlen : utf8Len b ≠ 0)
    (hshort : utf8Len b ≤ (b :: tail).length)
    (h : fromUtf8 ((b :: tail).take (utf8Len b)) = some chunk) :
    ∃ c, chunk = String.singleton c ∧ (b :: tail).take (utf8Len b) = String.utf8EncodeChar c := by
  rw [fromUtf8_eq_some_iff] at h
  obtain ⟨k, hk⟩ : ∃ k, utf8Len b = k + 1 := ⟨utf8Len b - 1, by omega⟩
  have htake : (b :: tail).take (utf8Len b) = b :: tail.take k := by rw [hk, List.take_succ_cons]
  cases hchars : chunk.toList with
  | nil =>
    rw [utf8, hchars, htake] at h
    cases h
  | cons c cs =>
    rw [utf8, hchars, List.flatMap_cons] at h
    rcases List.exists_cons_of_ne_nil (utf8EncodeChar_ne_nil c) with ⟨b', tail', hc⟩
    rw [hc, htake, List.cons_append, List.cons.injEq] at h
    have hcount : tail'.length + 1 = k + 1 := by
      rw [← hk, ← h.1]
      exact (utf8Len_utf8EncodeChar hc).symm
    have hk' : k ≤ tail.length := by
      rw [hk, List.length_cons] at hshort
      omega
    have hlength := congrArg List.length h.2
    rw [List.length_append, List.length_take, Nat.min_eq_left hk'] at hlength
    -- the first character fills the chunk, so nothing is left for another one
    have hrest : cs.flatMap String.utf8EncodeChar = [] := List.length_eq_zero_iff.mp (by omega)
    have hcs : cs = [] := by
      cases cs with
      | nil => rfl
      | cons c' cs =>
        rw [List.flatMap_cons, List.append_eq_nil_iff] at hrest
        exact absurd hrest.1 (utf8EncodeChar_ne_nil c')
    subst hcs
    refine ⟨c, ?_, ?_⟩
    · apply String.toList_inj.mp
      rw [hchars, String.toList_singleton]
    · rw [htake, hc, ← h.1, ← h.2]
      simp

/-- A step that goes on has read one character. -/
theorem stringStep_again (h : stringStep n (out, rest) = .ok (.again (out', rest'))) :
    ∃ text c, CharText text c ∧ rest = text ++ rest' ∧ out' = out.push c := by
  rcases rest with _ | ⟨b, tail⟩
  · cases h
  simp only [stringStep] at h
  split at h
  · cases h
  rename_i hquote
  split at h
  · rename_i hslash
    rw [Outcome.bind_eq_ok] at h
    rcases h with ⟨next, hescape, h⟩
    cases h
    rcases parseEscape_eq_ok hescape with ⟨text, c, hc, rfl, hout⟩
    exact ⟨0x5c :: text, c, hc, by rw [beq_iff_eq.mp hslash]; rfl, hout⟩
  rename_i hslash
  split at h
  · cases h
  rename_i hcontrol
  split at h
  · cases h
  rename_i hlen
  rw [not_or, Nat.not_lt] at hlen
  split at h
  · cases h
  rename_i chunk hchunk
  cases h
  rcases chunk_eq_singleton hlen.1 hlen.2 hchunk with ⟨c, rfl, htake⟩
  have hhead : ∃ tail', String.utf8EncodeChar c = b :: tail' := by
    obtain ⟨k, hk⟩ : ∃ k, utf8Len b = k + 1 := ⟨utf8Len b - 1, by omega⟩
    exact ⟨tail.take k, by rw [← htake, hk, List.take_succ_cons]⟩
  rcases hhead with ⟨tail', htail⟩
  refine ⟨String.utf8EncodeChar c, c, .raw ?_, ?_, String.append_singleton⟩
  · exact unescaped_of_head htail (by simpa using hquote) (by simpa using hslash) hcontrol
  · rw [← htake, List.take_append_drop]

/-- A step that is done has read the closing quote. -/
theorem stringStep_done {r : String × Bytes} (h : stringStep n (out, rest) = .ok (.done r)) :
    rest = 0x22 :: r.2 ∧ r.1 = out := by
  rcases rest with _ | ⟨b, tail⟩
  · cases h
  simp only [stringStep] at h
  split at h
  · rename_i hquote
    cases h
    exact ⟨by rw [beq_iff_eq.mp hquote], rfl⟩
  split at h
  · rw [Outcome.bind_eq_ok] at h
    rcases h with ⟨next, _, h⟩
    cases h
  split at h
  · cases h
  split at h
  · cases h
  split at h
  · cases h
  · cases h

theorem CharsText.append {text text' : Bytes} {cs cs' : List Char} (h : CharsText text cs)
    (h' : CharsText text' cs') : CharsText (text ++ text') (cs ++ cs') := by
  induction h with
  | nil => exact h'
  | cons hc _ ih =>
    rw [List.append_assoc, List.cons_append]
    exact .cons hc ih

theorem parseString_eq_ok (h : parseString n rest = .ok (s, rest')) :
    ∃ text, StringText text s ∧ rest = text ++ rest' := by
  unfold parseString at h
  rw [Outcome.bind_eq_ok] at h
  rcases h with ⟨rest₁, hquote, h⟩
  rw [expect_eq_ok hquote]
  rcases exists_reaches_of_runLoop h with ⟨⟨out, rest₂⟩, hreach, hdone⟩
  -- what the loop has read are the characters it has collected
  have hinv := hreach.invariant
    (I := fun t => ∃ text, CharsText text t.1.toList ∧ rest₁ = text ++ t.2) ⟨[], .nil, rfl⟩ (by
      intro t t' hstep hI
      rcases hI with ⟨text, hchars, hsplit⟩
      rcases stringStep_again (Flow.ofOutcome_eq_again.mp hstep) with ⟨one, c, hc, hrest, hout⟩
      refine ⟨text ++ one, ?_, ?_⟩
      · rw [hout, String.toList_push]
        have hone : CharsText (one ++ []) [c] := .cons hc .nil
        rw [List.append_nil] at hone
        exact hchars.append hone
      · rw [hsplit, hrest, List.append_assoc])
  rcases hinv with ⟨text, hchars, hsplit⟩
  rcases stringStep_done hdone with ⟨hrest, hout⟩
  simp only at hrest hout hchars hsplit
  refine ⟨0x22 :: (text ++ [0x22]), ?_, ?_⟩
  · have hmk := StringText.mk hchars
    rwa [String.ofList_toList, ← hout] at hmk
  · rw [hsplit, hrest]
    simp

end Strings

/-! ## Numbers and literals -/

section Numbers

variable {ds fraction : Bytes} {exponent : Int}

theorem consumeDigits_eq_ok (h : consumeDigits n rest = .ok (ds, rest')) :
    Digits ds ∧ rest = ds ++ rest' := by
  unfold consumeDigits at h
  simp only at h
  split at h
  · cases h
  · rename_i hne
    rw [Outcome.ok.injEq, Prod.mk.injEq] at h
    rcases h with ⟨rfl, rfl⟩
    refine ⟨⟨?_, fun b hb => List.mem_takeWhile_imp hb⟩, (List.takeWhile_append_dropWhile ..).symm⟩
    intro hnil
    exact hne (by rw [hnil]; rfl)

theorem parseFraction_eq_ok (h : parseFraction n rest = .ok (fraction, rest')) :
    ∃ text, FractionText text fraction ∧ rest = text ++ rest' := by
  rcases rest with _ | ⟨b, tail⟩
  · cases h
    exact ⟨[], .absent, rfl⟩
  simp only [parseFraction] at h
  split at h
  · rename_i hb
    rcases consumeDigits_eq_ok h with ⟨hds, rfl⟩
    exact ⟨0x2e :: fraction, .digits hds, by rw [beq_iff_eq.mp hb]; rfl⟩
  · cases h
    exact ⟨[], .absent, rfl⟩

theorem parseExponent_eq_ok (h : parseExponent n rest = .ok (exponent, rest')) :
    ∃ text, ExponentText text exponent ∧ rest = text ++ rest' := by
  rcases rest with _ | ⟨e, tail⟩
  · cases h
    exact ⟨[], .absent, rfl⟩
  simp only [parseExponent] at h
  split at h
  · rename_i hletter
    have he : e = 0x65 ∨ e = 0x45 := by simpa using hletter
    rcases tail with _ | ⟨sign, digits⟩
    · cases h
    simp only at h
    split at h
    · rename_i hsign
      rw [Outcome.bind_eq_ok] at h
      rcases h with ⟨⟨ds, rest₁⟩, hdigits, h⟩
      rcases consumeDigits_eq_ok hdigits with ⟨hds, rfl⟩
      cases h
      have hsigns : sign = 0x2b ∨ sign = 0x2d := by simpa using hsign
      rcases hsigns with rfl | rfl
      · exact ⟨e :: 0x2b :: ds, .plus he hds, rfl⟩
      · exact ⟨e :: 0x2d :: ds, .minus he hds, rfl⟩
    · rw [Outcome.bind_eq_ok] at h
      rcases h with ⟨⟨ds, rest₁⟩, hdigits, h⟩
      rcases consumeDigits_eq_ok hdigits with ⟨hds, hrest⟩
      cases h
      exact ⟨e :: ds, .unsigned he hds, by rw [hrest]; rfl⟩
  · cases h
    exact ⟨[], .absent, rfl⟩

theorem parseNumber_eq_ok (h : parseNumber n rest = .ok (v, rest')) :
    ∃ text x, NumberText Digits text x ∧ rest = text ++ rest' ∧ v = .number x := by
  obtain ⟨negative, tail, hnegative, hrest⟩ : ∃ negative tail,
      (rest.head? == some 0x2d) = negative ∧ rest = signText negative ++ tail := by
    by_cases hsign : rest.head? = some 0x2d
    · rcases List.head?_eq_some_iff.mp hsign with ⟨tail, rfl⟩
      exact ⟨true, tail, rfl, rfl⟩
    · exact ⟨false, rest, by simpa using hsign, rfl⟩
  have hdrop : (if negative then rest.tail else rest) = tail := by
    rw [hrest]
    cases negative <;> rfl
  unfold parseNumber at h
  simp only [hnegative, hdrop] at h
  rw [Outcome.bind_eq_ok] at h
  rcases h with ⟨⟨integer, rest₁⟩, hinteger, h⟩
  rcases consumeDigits_eq_ok hinteger with ⟨hint, rfl⟩
  rw [Outcome.bind_eq_ok] at h
  rcases h with ⟨⟨fraction, rest₂⟩, hfraction, h⟩
  rcases parseFraction_eq_ok hfraction with ⟨fractionText, hfrac, rfl⟩
  rw [Outcome.bind_eq_ok] at h
  rcases h with ⟨⟨exponent, rest₃⟩, hexponent, h⟩
  rcases parseExponent_eq_ok hexponent with ⟨exponentText, hexp, rfl⟩
  cases h
  exact ⟨_, _, .mk hint hfrac hexp, by rw [hrest]; simp, rfl⟩

/-- A text that starts with a literal, and what is behind it. -/
theorem eq_append_drop {literal : Bytes} {k : Nat} (hlen : literal.length = k)
    (h : literal.isPrefixOf rest = true) : rest = literal ++ rest.drop k := by
  rcases List.isPrefixOf_iff_prefix.mp h with ⟨tail, rfl⟩
  rw [List.drop_left' hlen]

theorem parseBool_eq_ok (h : parseBool n rest = .ok (v, rest')) :
    ∃ b : Bool, v = .bool b ∧ rest = utf8 (if b then "true" else "false") ++ rest' := by
  unfold parseBool at h
  split at h
  · rename_i htrue
    cases h
    exact ⟨true, rfl, eq_append_drop (by decide) htrue⟩
  split at h
  · rename_i hfalse
    cases h
    exact ⟨false, rfl, eq_append_drop (by decide) hfalse⟩
  · cases h

theorem parseNull_eq_ok (h : parseNull n rest = .ok (v, rest')) :
    v = .null ∧ rest = utf8 "null" ++ rest' := by
  unfold parseNull at h
  split at h
  · rename_i hnull
    cases h
    exact ⟨rfl, eq_append_drop (by decide) hnull⟩
  · cases h

end Numbers

/-! ## Values -/

section Values

variable {parseItem : Bytes → Outcome JsonError (JsonValue × Bytes)}

/-- A reader of values that takes only what the grammar derives. -/
def Sound (levels : Nat) (parseItem : Bytes → Outcome JsonError (JsonValue × Bytes)) : Prop :=
  ∀ rest v rest', parseItem rest = .ok (v, rest') →
    ∃ text, Derives loose levels (.value v) text ∧ rest = text ++ rest'

/-- Behind an item stands a comma, or the closing byte. -/
theorem closing_eq_ok {σ : Type} {close : UInt8} {next : σ} {value : JsonValue}
    {flow : Flow (σ × Bytes) (JsonValue × Bytes)} (h : closing n close next value rest = .ok flow) :
    ∃ w tail, Ws w ∧ ((rest = w ++ 0x2c :: tail ∧ flow = .again (next, tail)) ∨
      (rest = w ++ close :: tail ∧ flow = .done (value, tail))) := by
  rcases skipWs_split rest with ⟨w, hw, hsplit⟩
  unfold closing at h
  cases hskip : skipWs rest with
  | nil =>
    rw [hskip] at h
    cases h
  | cons b tail =>
    rw [hskip] at h hsplit
    simp only at h
    split at h
    · rename_i hb
      cases h
      exact ⟨w, tail, hw, .inl ⟨by rw [hsplit, beq_iff_eq.mp hb], rfl⟩⟩
    split at h
    · rename_i hb
      cases h
      exact ⟨w, tail, hw, .inr ⟨by rw [hsplit, beq_iff_eq.mp hb], rfl⟩⟩
    · cases h

/-- One iteration over the items reads one of them. -/
theorem itemStep_eq_ok (hsound : Sound levels parseItem) {acc : List JsonValue}
    {flow : Flow (List JsonValue × Bytes) (JsonValue × Bytes)}
    (h : itemStep n parseItem (acc, rest) = .ok flow) :
    ∃ w text w' v tail, Ws w ∧ Derives loose levels (.value v) text ∧ Ws w' ∧
      ((rest = w ++ (text ++ (w' ++ 0x2c :: tail)) ∧ flow = .again (acc ++ [v], tail)) ∨
        (rest = w ++ (text ++ (w' ++ 0x5d :: tail)) ∧
          flow = .done (.array (acc ++ [v]), tail))) := by
  rcases skipWs_split rest with ⟨w, hw, hsplit⟩
  unfold itemStep at h
  rw [Outcome.bind_eq_ok] at h
  rcases h with ⟨⟨v, rest₁⟩, hitem, h⟩
  rcases hsound _ _ _ hitem with ⟨text, htext, hrest⟩
  rcases closing_eq_ok h with ⟨w', tail, hw', ⟨rfl, hflow⟩ | ⟨rfl, hflow⟩⟩
  · exact ⟨w, text, w', v, tail, hw, htext, hw', .inl ⟨by rw [hsplit, hrest], hflow⟩⟩
  · exact ⟨w, text, w', v, tail, hw, htext, hw', .inr ⟨by rw [hsplit, hrest], hflow⟩⟩

/-- What the loop over the items has read: with further items behind it, the inside of an
array. -/
def ItemsRead (levels : Nat) (rest : Bytes) (s : List JsonValue × Bytes) : Prop :=
  ∃ consumed, rest = consumed ++ s.2 ∧ ∀ vs text, Derives loose levels (.items vs) text →
    Derives loose levels (.items (s.1 ++ vs)) (consumed ++ text)

theorem ItemsRead.init : ItemsRead levels rest ([], rest) := by
  refine ⟨[], rfl, ?_⟩
  intro vs text hs
  exact hs

/-- The loop over the items reads the inside of an array. -/
theorem runLoop_items (hsound : Sound levels parseItem) {fuel : Nat}
    (h : runLoop (itemStep n parseItem) fuel ([], rest) = .ok (v, rest')) :
    ∃ text vs, Derives loose levels (.items vs) text ∧ v = .array vs ∧
      rest = text ++ 0x5d :: rest' := by
  rcases exists_reaches_of_runLoop h with ⟨⟨acc, rest₁⟩, hreach, hdone⟩
  have hinv : ItemsRead levels rest (acc, rest₁) := by
    refine hreach.invariant ItemsRead.init ?_
    intro t t' hstep hI
    rcases hI with ⟨consumed, hsplit, hderives⟩
    rcases itemStep_eq_ok hsound (Flow.ofOutcome_eq_again.mp hstep) with
      ⟨w, text, w', v, tail, hw, htext, hw', ⟨hrest, hflow⟩ | ⟨_, hflow⟩⟩
    · cases hflow
      refine ⟨consumed ++ (w ++ (text ++ (w' ++ [0x2c]))), by rw [hsplit, hrest]; simp, ?_⟩
      intro vs texts hs
      have hitems := hderives _ _ (.items hw htext hw' hs)
      simpa using hitems
    · cases hflow
  rcases hinv with ⟨consumed, hsplit, hderives⟩
  rcases itemStep_eq_ok hsound hdone with
    ⟨w, text, w', v', tail, hw, htext, hw', ⟨_, hflow⟩ | ⟨hrest, hflow⟩⟩
  · cases hflow
  · cases hflow
    refine ⟨consumed ++ (w ++ (text ++ w')), acc ++ [v'], hderives _ _ (.item hw htext hw'), rfl, ?_⟩
    simp only at hsplit
    rw [hsplit, hrest]
    simp

/-- One iteration over the members reads one of them. -/
theorem memberStep_eq_ok (hsound : Sound levels parseItem) {acc : List (String × JsonValue)}
    {flow : Flow (List (String × JsonValue) × Bytes) (JsonValue × Bytes)}
    (h : memberStep n parseItem (acc, rest) = .ok flow) :
    ∃ w key w₁ w₂ text w' k v tail, Ws w ∧ StringText key k ∧ Ws w₁ ∧ Ws w₂ ∧
      Derives loose levels (.value v) text ∧ Ws w' ∧
      ((rest = w ++ (key ++ (w₁ ++ 0x3a :: (w₂ ++ (text ++ (w' ++ 0x2c :: tail))))) ∧
          flow = .again (acc ++ [(k, v)], tail)) ∨
        (rest = w ++ (key ++ (w₁ ++ 0x3a :: (w₂ ++ (text ++ (w' ++ 0x7d :: tail))))) ∧
          flow = .done (.object (acc ++ [(k, v)]), tail))) := by
  rcases skipWs_split rest with ⟨w, hw, hsplit⟩
  unfold memberStep at h
  simp only at h
  split at h
  · cases h
  rw [Outcome.bind_eq_ok] at h
  rcases h with ⟨⟨k, rest₁⟩, hkey, h⟩
  rcases parseString_eq_ok hkey with ⟨key, hkeyText, hrest⟩
  rw [Outcome.bind_eq_ok] at h
  rcases h with ⟨rest₂, hcolon, h⟩
  rcases skipWs_split rest₁ with ⟨w₁, hw₁, hsplit₁⟩
  simp only [expect_eq_ok hcolon] at hsplit₁
  rw [Outcome.bind_eq_ok] at h
  rcases h with ⟨⟨v, rest₃⟩, hitem, h⟩
  rcases skipWs_split rest₂ with ⟨w₂, hw₂, hsplit₂⟩
  rcases hsound _ _ _ hitem with ⟨text, htext, hrest₂⟩
  rcases closing_eq_ok h with ⟨w', tail, hw', ⟨rfl, hflow⟩ | ⟨rfl, hflow⟩⟩
  · exact ⟨w, key, w₁, w₂, text, w', k, v, tail, hw, hkeyText, hw₁, hw₂, htext, hw',
      .inl ⟨by rw [hsplit, hrest, hsplit₁, hsplit₂, hrest₂], hflow⟩⟩
  · exact ⟨w, key, w₁, w₂, text, w', k, v, tail, hw, hkeyText, hw₁, hw₂, htext, hw',
      .inr ⟨by rw [hsplit, hrest, hsplit₁, hsplit₂, hrest₂], hflow⟩⟩

/-- What the loop over the members has read. -/
def MembersRead (levels : Nat) (rest : Bytes) (s : List (String × JsonValue) × Bytes) : Prop :=
  ∃ consumed, rest = consumed ++ s.2 ∧ ∀ ms text, Derives loose levels (.members ms) text →
    Derives loose levels (.members (s.1 ++ ms)) (consumed ++ text)

theorem MembersRead.init : MembersRead levels rest ([], rest) := by
  refine ⟨[], rfl, ?_⟩
  intro ms text hs
  exact hs

/-- The loop over the members reads the inside of an object. -/
theorem runLoop_members (hsound : Sound levels parseItem) {fuel : Nat}
    (h : runLoop (memberStep n parseItem) fuel ([], rest) = .ok (v, rest')) :
    ∃ text ms, Derives loose levels (.members ms) text ∧ v = .object ms ∧
      rest = text ++ 0x7d :: rest' := by
  rcases exists_reaches_of_runLoop h with ⟨⟨acc, rest₁⟩, hreach, hdone⟩
  have hinv : MembersRead levels rest (acc, rest₁) := by
    refine hreach.invariant MembersRead.init ?_
    intro t t' hstep hI
    rcases hI with ⟨consumed, hsplit, hderives⟩
    rcases memberStep_eq_ok hsound (Flow.ofOutcome_eq_again.mp hstep) with
      ⟨w, key, w₁, w₂, text, w', k, v, tail, hw, hkey, hw₁, hw₂, htext, hw',
        ⟨hrest, hflow⟩ | ⟨_, hflow⟩⟩
    · cases hflow
      refine ⟨consumed ++ (w ++ (key ++ (w₁ ++ 0x3a :: (w₂ ++ (text ++ (w' ++ [0x2c])))))),
        by rw [hsplit, hrest]; simp, ?_⟩
      intro ms texts hs
      have hmembers := hderives _ _ (.members hw hkey hw₁ hw₂ htext hw' hs)
      simpa using hmembers
    · cases hflow
  rcases hinv with ⟨consumed, hsplit, hderives⟩
  rcases memberStep_eq_ok hsound hdone with
    ⟨w, key, w₁, w₂, text, w', k, v', tail, hw, hkey, hw₁, hw₂, htext, hw',
      ⟨_, hflow⟩ | ⟨hrest, hflow⟩⟩
  · cases hflow
  · cases hflow
    refine ⟨consumed ++ (w ++ (key ++ (w₁ ++ 0x3a :: (w₂ ++ (text ++ w'))))), acc ++ [(k, v')],
      hderives _ _ (.member hw hkey hw₁ hw₂ htext hw'), rfl, ?_⟩
    simp only at hsplit
    rw [hsplit, hrest]
    simp

theorem Ws.append {w' : Bytes} (hw : Ws w) (hw' : Ws w') : Ws (w ++ w') := by
  intro b hb
  rcases List.mem_append.mp hb with hb | hb
  · exact hw b hb
  · exact hw' b hb

/-- White space in front of the items belongs to them. -/
theorem Derives.ws_items {vs : List JsonValue} (hw : Ws w)
    (h : Derives loose levels (.items vs) text) : Derives loose levels (.items vs) (w ++ text) := by
  cases h with
  | item hw₀ h hw' =>
    rw [← List.append_assoc]
    exact .item (hw.append hw₀) h hw'
  | items hw₀ h hw' hs =>
    rw [← List.append_assoc]
    exact .items (hw.append hw₀) h hw' hs

theorem Derives.ws_members {ms : List (String × JsonValue)} (hw : Ws w)
    (h : Derives loose levels (.members ms) text) :
    Derives loose levels (.members ms) (w ++ text) := by
  cases h with
  | member hw₀ hkey hw₁ hw₂ h hw' =>
    rw [← List.append_assoc]
    exact .member (hw.append hw₀) hkey hw₁ hw₂ h hw'
  | members hw₀ hkey hw₁ hw₂ h hw' hs =>
    rw [← List.append_assoc]
    exact .members (hw.append hw₀) hkey hw₁ hw₂ h hw' hs

theorem parseArray_eq_ok (hsound : Sound levels parseItem)
    (h : parseArray n parseItem rest = .ok (v, rest')) :
    ∃ text, Derives loose (levels + 1) (.value v) text ∧ rest = text ++ rest' := by
  unfold parseArray at h
  rw [Outcome.bind_eq_ok] at h
  rcases h with ⟨rest₁, hopen, h⟩
  rw [expect_eq_ok hopen]
  rcases skipWs_split rest₁ with ⟨w, hw, hsplit⟩
  simp only at h
  split at h
  · rename_i hclose
    rcases List.head?_eq_some_iff.mp hclose with ⟨tail, htail⟩
    rw [htail] at h hsplit
    cases h
    exact ⟨_, .emptyArray hw, by rw [hsplit]; simp⟩
  · rcases runLoop_items hsound h with ⟨text, vs, htext, rfl, hrest⟩
    exact ⟨_, .array (htext.ws_items hw), by rw [hsplit, hrest]; simp⟩

theorem parseObject_eq_ok (hsound : Sound levels parseItem)
    (h : parseObject n parseItem rest = .ok (v, rest')) :
    ∃ text, Derives loose (levels + 1) (.value v) text ∧ rest = text ++ rest' := by
  unfold parseObject at h
  rw [Outcome.bind_eq_ok] at h
  rcases h with ⟨rest₁, hopen, h⟩
  rw [expect_eq_ok hopen]
  rcases skipWs_split rest₁ with ⟨w, hw, hsplit⟩
  simp only at h
  split at h
  · rename_i hclose
    rcases List.head?_eq_some_iff.mp hclose with ⟨tail, htail⟩
    rw [htail] at h hsplit
    cases h
    exact ⟨_, .emptyObject hw, by rw [hsplit]; simp⟩
  · rcases runLoop_members hsound h with ⟨text, ms, htext, rfl, hrest⟩
    exact ⟨_, .object (htext.ws_members hw), by rw [hsplit, hrest]; simp⟩

/-- A value that nests nothing: a token. -/
theorem parseScalar_eq_ok {b : UInt8} {tail : Bytes} (hbrace : (b == 0x7b) = false)
    (hbracket : (b == 0x5b) = false) {parseItem : Option _}
    (h : parseValueWith n parseItem (b :: tail) = .ok (v, rest')) :
    ∃ text, Derives loose levels (.value v) text ∧ b :: tail = text ++ rest' := by
  simp only [parseValueWith, hbrace, hbracket, Bool.false_eq_true, if_false] at h
  split at h
  · rw [Outcome.bind_eq_ok] at h
    rcases h with ⟨⟨s, rest₁⟩, hstring, h⟩
    rcases parseString_eq_ok hstring with ⟨text, htext, hrest⟩
    cases h
    exact ⟨text, .string htext, hrest⟩
  split at h
  · rcases parseBool_eq_ok h with ⟨b, rfl, hrest⟩
    exact ⟨_, .bool b, hrest⟩
  split at h
  · rcases parseNull_eq_ok h with ⟨rfl, hrest⟩
    exact ⟨_, .null, hrest⟩
  split at h
  · rcases parseNumber_eq_ok h with ⟨text, x, htext, hrest, rfl⟩
    exact ⟨text, .number htext, hrest⟩
  · cases h

/-- Whatever a value is parsed from is derived by the grammar, at every depth. -/
theorem parseValue_sound (n levels : Nat) : Sound levels (parseValue n levels) := by
  induction levels with
  | zero =>
    intro rest v rest' h
    rcases rest with _ | ⟨b, tail⟩
    · cases h
    by_cases hbrace : (b == 0x7b) = true
    · simp only [parseValue, parseValueWith, hbrace, if_true] at h
      cases h
    by_cases hbracket : (b == 0x5b) = true
    · simp only [parseValue, parseValueWith, hbrace, hbracket, if_true] at h
      cases h
    exact parseScalar_eq_ok (Bool.eq_false_of_not_eq_true hbrace)
      (Bool.eq_false_of_not_eq_true hbracket) h
  | succ levels ih =>
    intro rest v rest' h
    rcases rest with _ | ⟨b, tail⟩
    · cases h
    by_cases hbrace : (b == 0x7b) = true
    · simp only [parseValue, parseValueWith, hbrace, if_true] at h
      exact parseObject_eq_ok ih h
    by_cases hbracket : (b == 0x5b) = true
    · simp only [parseValue, parseValueWith, hbrace, hbracket, if_true] at h
      exact parseArray_eq_ok ih h
    exact parseScalar_eq_ok (Bool.eq_false_of_not_eq_true hbrace)
      (Bool.eq_false_of_not_eq_true hbracket) h

/-- The accepted texts are the documents of the loose grammar. -/
theorem parse_eq_ok_iff_document {input : String} :
    parse input = .ok v ↔ Document loose maxDepth (utf8 input) v := by
  constructor
  · intro h
    rw [parse_eq_ok_iff, parseDocument, Outcome.bind_eq_ok] at h
    rcases h with ⟨⟨v', rest⟩, hvalue, h⟩
    simp only at h
    split at h
    · rename_i hend
      cases h
      rcases skipWs_split (utf8 input) with ⟨w, hw, hsplit⟩
      rcases skipWs_split rest with ⟨w', hw', hsplit'⟩
      rcases parseValue_sound _ _ _ _ _ hvalue with ⟨text, htext, hrest⟩
      rw [List.isEmpty_iff.mp hend, List.append_nil] at hsplit'
      exact ⟨w, text, w', hw, htext, hw', by rw [hsplit, hrest, hsplit']⟩
    · cases h
  · exact Document.parse_ok

end Values

end Json

end FerroHttp
