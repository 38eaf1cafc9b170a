import FerroHttp.Lib.Percent
import FerroHttp.Lib.Split
import FerroHttp.StaticFiles

/-!
# StaticFiles.Containment — which names a request path can address

`Safe` names are the relative names below a root: no empty, `.` or `..` segment, no
backslash and no control byte. A request path addresses safe names only, whatever is
encoded in it, and every encoding of a safe name addresses exactly that name.
-/

namespace FerroHttp

open Text Percent

/-! ## Safe names -/

/-- A segment that stays below its directory. -/
def SafeSegment (segment : String) : Prop :=
  segment ≠ "" ∧ segment ≠ "." ∧ segment ≠ ".." ∧ ∀ b ∈ utf8 segment, ¬ b < 0x20 ∧ b ≠ 0x5c

/-- A relative name that stays below a root. -/
def Safe (p : String) : Prop := ∀ segment ∈ split '/' p, SafeSegment segment

theorem isBadSegment_eq_false_iff {segment : String} :
    isBadSegment segment = false ↔ ∀ b ∈ utf8 segment, ¬ b < 0x20 ∧ b ≠ 0x5c := by
  simp [isBadSegment]

instance : DecidablePred SafeSegment := fun segment => decidable_of_iff
  (segment ≠ "" ∧ segment ≠ "." ∧ segment ≠ ".." ∧ isBadSegment segment = false)
  (by rw [isBadSegment_eq_false_iff, SafeSegment])

instance : DecidablePred Safe := fun p => List.decidableBAll SafeSegment (split '/' p)

/-- What is left of a path is safe segments of it. -/
theorem safe_of_sanitizeSegments {segments out : List String}
    (h : sanitizeSegments segments = some out) :
    ∀ segment ∈ out, segment ∈ segments ∧ SafeSegment segment := by
  induction segments generalizing out with
  | nil =>
    cases h
    simp
  | cons s rest ih =>
    unfold sanitizeSegments at h
    split at h
    · -- an empty segment or `.` is dropped
      intro segment hmem
      rcases ih h segment hmem with ⟨hin, hsafe⟩
      exact ⟨List.mem_cons_of_mem _ hin, hsafe⟩
    · rename_i hkept
      rw [not_or] at hkept
      -- `..` and bad bytes end the whole path
      split at h
      · cases h
      · rename_i hup
        split at h
        · cases h
        · rename_i hclean
          rw [Option.map_eq_some_iff] at h
          rcases h with ⟨out, hout, rfl⟩
          intro segment hmem
          rcases List.mem_cons.mp hmem with rfl | hmem
          · refine ⟨List.mem_cons_self, hkept.1, hkept.2, hup, ?_⟩
            exact isBadSegment_eq_false_iff.mp (by simpa using hclean)
          · rcases ih hout segment hmem with ⟨hin, hsafe⟩
            exact ⟨List.mem_cons_of_mem _ hin, hsafe⟩

/-- Safe segments pass, and empty ones around them are dropped. -/
theorem sanitizeSegments_of_safe {segments : List String}
    (h : ∀ segment ∈ segments, SafeSegment segment) :
    sanitizeSegments segments = some segments ∧
      sanitizeSegments (segments ++ [""]) = some segments := by
  induction segments with
  | nil => exact ⟨rfl, rfl⟩
  | cons s rest ih =>
    rcases h s List.mem_cons_self with ⟨hne, hdot, hup, hclean⟩
    rcases ih fun segment hmem => h segment (List.mem_cons_of_mem _ hmem) with ⟨hrest, hrest'⟩
    have hbad := isBadSegment_eq_false_iff.mpr hclean
    constructor
    · simp only [sanitizeSegments, hne, hdot, hup, hbad, or_self, if_false, Bool.false_eq_true,
        hrest, Option.map_some]
    · simp only [List.cons_append, sanitizeSegments, hne, hdot, hup, hbad, or_self, if_false,
        Bool.false_eq_true, hrest', Option.map_some]

/-- A name of safe segments is safe, and so is a safe name below it. -/
theorem safe_join {segments : List String} (hne : segments ≠ [])
    (hfree : ∀ segment ∈ segments, '/' ∉ segment.toList)
    (hsafe : ∀ segment ∈ segments, SafeSegment segment) :
    Safe (String.intercalate "/" segments) := by
  intro segment hmem
  rw [split_join rfl hne hfree] at hmem
  exact hsafe segment hmem

theorem split_below (a b : String) : split '/' (a ++ "/" ++ b) = split '/' a ++ split '/' b := by
  have h := split_append_cons (c := '/') a.toList b.toList
  have htext : a ++ "/" ++ b = String.ofList (a.toList ++ '/' :: b.toList) := by
    apply String.toList_inj.mp
    simp
  rw [htext, h, String.ofList_toList, String.ofList_toList]

theorem safe_below {a b : String} (ha : Safe a) (hb : Safe b) : Safe (a ++ "/" ++ b) := by
  intro segment hmem
  rw [split_below, List.mem_append] at hmem
  exact hmem.elim (ha segment) (hb segment)

/-! ## Decoding -/

section Decode

variable {c : Char} {es : List Char} {out : Bytes}

theorem percentDecodeBytes_cons {b : UInt8} (h : b ≠ 0x25) (rest : Bytes) :
    percentDecodeBytes (b :: rest) = (percentDecodeBytes rest).map (b :: ·) := by
  have hb : (b == 0x25) = false := by simpa using h
  conv_lhs => unfold percentDecodeBytes
  simp only [hb, Bool.false_eq_true, if_false]
  cases percentDecodeBytes rest <;> rfl

theorem percentDecodeBytes_plain {bs : Bytes} (h : (0x25 : UInt8) ∉ bs) (rest : Bytes) :
    percentDecodeBytes (bs ++ rest) = (percentDecodeBytes rest).map (bs ++ ·) := by
  induction bs with
  | nil => simp
  | cons b bs ih =>
    rw [List.mem_cons, not_or] at h
    rw [List.cons_append, percentDecodeBytes_cons (Ne.symm h.1), ih h.2, Option.map_map]
    rfl

theorem percentDecodeBytes_escape (hi lo : UInt8) (rest : Bytes) :
    percentDecodeBytes (0x25 :: hi :: lo :: rest) = (hexDigitValue hi).bind fun hi =>
      (hexDigitValue lo).bind fun lo =>
        (percentDecodeBytes rest).bind fun out => some ((hi * 16 + lo) :: out) := by
  rw [percentDecodeBytes]
  rfl

/-- Only `%` is encoded with the byte of `%`. -/
theorem percent_not_mem (hc : c ≠ '%') : (0x25 : UInt8) ∉ String.utf8EncodeChar c := by
  intro hmem
  by_cases hlow : c.toNat < 128
  · rw [utf8EncodeChar_of_ascii hlow, List.mem_singleton] at hmem
    apply hc
    have hnat : c.toUInt8.toNat = c.toNat := toUInt8_toNat (by omega)
    rw [← hmem] at hnat
    exact Char.toNat_inj.mp hnat.symm
  · -- the bytes of other characters are above 127
    have hhigh := high_of_mem_utf8EncodeChar (by omega) hmem
    exact absurd hhigh (by decide)

theorem hexDigitValue_high {b : UInt8} (h : 128 ≤ b.toNat) : hexDigitValue b = none := by
  have hall : ∀ b : UInt8, 128 ≤ b.toNat → hexDigitValue b = none :=
    forall_byte (by decide +kernel)
  exact hall b h

theorem hexDigitValue_lt {b w : UInt8} (h : hexDigitValue b = some w) : w.toNat < 16 := by
  have hall : ∀ b : UInt8, ((hexDigitValue b).getD 0).toNat < 16 := forall_byte (by decide +kernel)
  have hb := hall b
  rw [h] at hb
  exact hb

theorem hexDigitValue_ascii : ∀ n < 128, ∀ v < 16,
    hexDigitValue (UInt8.ofNat n) = some (UInt8.ofNat v) ↔
      (Char.ofNat n = Nat.digitChar v ∨ Char.ofNat n = (Nat.digitChar v).toUpper) := by
  decide

/-- The bytes read as hexadecimal digits are the hexadecimal digits. -/
theorem hexDigitValue_eq_some_iff {w : UInt8} {rest : Bytes} {b : UInt8}
    (hb : String.utf8EncodeChar c = b :: rest) :
    hexDigitValue b = some w ↔ IsHexDigit c w.toNat ∧ rest = [] := by
  by_cases hlow : c.toNat < 128
  · rw [utf8EncodeChar_of_ascii hlow, List.cons.injEq] at hb
    rcases hb with ⟨rfl, rfl⟩
    constructor
    · intro h
      have hlt := hexDigitValue_lt h
      have hchar := hexDigitValue_ascii c.toNat hlow w.toNat hlt
      rw [UInt8.ofNat_toNat, Char.ofNat_toNat] at hchar
      exact ⟨⟨hlt, hchar.mp h⟩, rfl⟩
    · rintro ⟨⟨hlt, hc⟩, _⟩
      have hchar := hexDigitValue_ascii c.toNat hlow w.toNat hlt
      rw [UInt8.ofNat_toNat, Char.ofNat_toNat] at hchar
      exact hchar.mpr hc
  · have hhigh : 128 ≤ b.toNat := high_of_mem_utf8EncodeChar (c := c) (by omega) (by rw [hb]; simp)
    rw [hexDigitValue_high hhigh]
    constructor
    · intro h
      cases h
    · rintro ⟨⟨hlt, hc⟩, _⟩
      have hall : ∀ v < 16, (Nat.digitChar v).toNat < 128 ∧ (Nat.digitChar v).toUpper.toNat < 128 := by
        decide
      rcases hc with rfl | rfl
      · exact absurd (hall _ hlt).1 hlow
      · exact absurd (hall _ hlt).2 hlow

theorem IsHexDigit.utf8 {v : Nat} (h : IsHexDigit c v) :
    String.utf8EncodeChar c = [c.toUInt8] ∧ hexDigitValue c.toUInt8 = some (UInt8.ofNat v) := by
  rcases List.exists_cons_of_ne_nil (utf8EncodeChar_ne_nil c) with ⟨b, rest, hb⟩
  have hv : (UInt8.ofNat v).toNat = v := by
    simp [Nat.mod_eq_of_lt (by have := h.1; omega : v < 256)]
  have hlow : c.toNat < 128 := by
    have hall : ∀ v < 16, (Nat.digitChar v).toNat < 128 ∧ (Nat.digitChar v).toUpper.toNat < 128 := by
      decide
    rcases h with ⟨hlt, rfl | rfl⟩
    · exact (hall v hlt).1
    · exact (hall v hlt).2
  have henc := utf8EncodeChar_of_ascii hlow
  refine ⟨henc, (hexDigitValue_eq_some_iff henc).mpr ⟨?_, rfl⟩⟩
  rw [hv]
  exact h

/-- A text whose first byte is read as a hexadecimal digit starts with that digit. -/
theorem exists_digit_of_flatMap {b w : UInt8} {rest : Bytes}
    (h : es.flatMap String.utf8EncodeChar = b :: rest) (hw : hexDigitValue b = some w) :
    ∃ c es', es = c :: es' ∧ IsHexDigit c w.toNat ∧ es'.flatMap String.utf8EncodeChar = rest := by
  cases es with
  | nil => cases h
  | cons c es =>
    rcases List.exists_cons_of_ne_nil (utf8EncodeChar_ne_nil c) with ⟨x, xs, hx⟩
    rw [List.flatMap_cons, hx, List.cons_append, List.cons.injEq] at h
    rcases h with ⟨rfl, hrest⟩
    rcases (hexDigitValue_eq_some_iff hx).mp hw with ⟨hdigit, rfl⟩
    exact ⟨c, es, rfl, hdigit, hrest⟩

/-- A decoded escape is two hexadecimal digits. -/
theorem exists_digits_of_escape
    (h : percentDecodeBytes (String.utf8EncodeChar '%' ++ es.flatMap String.utf8EncodeChar) =
      some out) :
    ∃ hi lo v w rest out', es = hi :: lo :: rest ∧ out = UInt8.ofNat (16 * v + w) :: out' ∧
      IsHexDigit hi v ∧ IsHexDigit lo w ∧
      percentDecodeBytes (rest.flatMap String.utf8EncodeChar) = some out' := by
  have hpercent : String.utf8EncodeChar '%' = [0x25] := by decide
  rw [hpercent, List.singleton_append] at h
  cases hbytes : es.flatMap String.utf8EncodeChar with
  | nil =>
    rw [hbytes] at h
    cases h
  | cons b rest =>
    cases rest with
    | nil =>
      -- one byte behind the `%` is not enough
      rw [hbytes] at h
      cases h
    | cons b' rest =>
      rw [hbytes, percentDecodeBytes_escape] at h
      simp only [Option.bind_eq_some_iff] at h
      rcases h with ⟨v, hv, w, hw, out', hout, heq⟩
      cases heq
      rcases exists_digit_of_flatMap hbytes hv with ⟨hi, es', rfl, high, hbytes'⟩
      rcases exists_digit_of_flatMap hbytes' hw with ⟨lo, es, rfl, low, rfl⟩
      refine ⟨hi, lo, v.toNat, w.toNat, es, out', rfl, ?_, high, low, hout⟩
      rw [Nat.mul_comm, UInt8.ofNat_add, UInt8.ofNat_mul, UInt8.ofNat_toNat, UInt8.ofNat_toNat]
      rfl

/-- What the decoder returns is what the text denotes. -/
theorem decodes_of_percentDecodeBytes
    (h : percentDecodeBytes (es.flatMap String.utf8EncodeChar) = some out) : Decodes es out := by
  -- induction on the number of characters, as an escape takes three
  generalize hn : es.length = n
  induction n using Nat.strong_induction_on generalizing es out with
  | _ n ih =>
    cases es with
    | nil =>
      cases h
      exact .nil
    | cons c es =>
      rw [List.flatMap_cons] at h
      rw [List.length_cons] at hn
      by_cases hc : c = '%'
      · subst hc
        rcases exists_digits_of_escape h with ⟨hi, lo, v, w, es, out, rfl, rfl, high, low, hrest⟩
        simp only [List.length_cons] at hn
        exact .escape high low (ih es.length (by omega) hrest rfl)
      · rw [percentDecodeBytes_plain (percent_not_mem hc), Option.map_eq_some_iff] at h
        rcases h with ⟨out, hout, rfl⟩
        exact .plain hc (ih es.length (by omega) hout rfl)

/-- And what the text denotes is returned. -/
theorem percentDecodeBytes_of_decodes (h : Decodes es out) :
    percentDecodeBytes (es.flatMap String.utf8EncodeChar) = some out := by
  induction h with
  | nil => rfl
  | plain hc _ ih =>
    rw [List.flatMap_cons, percentDecodeBytes_plain (percent_not_mem hc), ih]
    rfl
  | @escape hi lo v w es out high low _ ih =>
    have hbyte : UInt8.ofNat v * 16 + UInt8.ofNat w = UInt8.ofNat (16 * v + w) := by
      rw [Nat.mul_comm, UInt8.ofNat_add, UInt8.ofNat_mul]
      rfl
    -- both digits are single bytes, so the escape stands in front of the rest
    rw [List.flatMap_cons, List.flatMap_cons, List.flatMap_cons, (IsHexDigit.utf8 high).1,
      (IsHexDigit.utf8 low).1]
    have hstep := percentDecodeBytes_escape hi.toUInt8 lo.toUInt8
      (es.flatMap String.utf8EncodeChar)
    rw [(IsHexDigit.utf8 high).2, (IsHexDigit.utf8 low).2, ih] at hstep
    simp only [Option.bind_some, hbyte] at hstep
    exact hstep

/-- The decoder computes what a text denotes. -/
theorem percentDecodeBytes_eq_some_iff :
    percentDecodeBytes (es.flatMap String.utf8EncodeChar) = some out ↔ Decodes es out :=
  ⟨decodes_of_percentDecodeBytes, percentDecodeBytes_of_decodes⟩

end Decode

/-! ## Candidates -/

section Candidates

variable {path p decoded : String} {indexFiles segments candidates : List String}

theorem percentDecode_eq_some_iff :
    percentDecode path = some decoded ↔ Decodes path.toList (utf8 decoded) := by
  rw [← percentDecodeBytes_eq_some_iff]
  simp only [percentDecode, Option.bind_eq_bind, Option.bind_eq_some_iff, fromUtf8_eq_some_iff]
  constructor
  · rintro ⟨bs, hbs, rfl⟩
    exact hbs
  · intro h
    exact ⟨_, h, rfl⟩

/-- An encoding decodes to the text. -/
theorem percentDecode_of_encodes (h : Encodes decoded.toList path.toList) :
    percentDecode path = some decoded :=
  percentDecode_eq_some_iff.mpr h.decodes

/-- The candidates of a decoded path. -/
theorem candidatePaths_of_segments (hdecode : percentDecode path = some decoded)
    (hsanitize : sanitize decoded = some segments) :
    candidatePaths path indexFiles =
      if (segments.isEmpty || decoded.toList.getLast? == some '/') = true then
        some (indexFiles.map fun index =>
          if (String.intercalate "/" segments).isEmpty then index
          else String.intercalate "/" segments ++ "/" ++ index)
      else some [String.intercalate "/" segments] := by
  simp only [candidatePaths, hdecode, hsanitize, Option.bind_eq_bind, Option.bind_some]

/-- Every candidate is a safe name. -/
theorem safe_of_candidatePaths (hindex : ∀ index ∈ indexFiles, Safe index)
    (h : candidatePaths path indexFiles = some candidates) : ∀ p ∈ candidates, Safe p := by
  have h' := h
  simp only [candidatePaths, Option.bind_eq_bind, Option.bind_eq_some_iff] at h'
  rcases h' with ⟨decoded, hdecode, segments, hsanitize, _⟩
  rw [candidatePaths_of_segments hdecode hsanitize] at h
  have hsafe := safe_of_sanitizeSegments hsanitize
  have hbase : segments ≠ [] → Safe (String.intercalate "/" segments) := by
    intro hne
    refine safe_join hne ?_ ?_
    · intro segment hmem
      exact not_mem_of_mem_split (hsafe segment hmem).1
    · intro segment hmem
      exact (hsafe segment hmem).2
  intro p hp
  split at h
  · cases h
    rcases List.mem_map.mp hp with ⟨index, hmem, rfl⟩
    split
    · -- the root itself: the index files stand alone
      exact hindex index hmem
    · rename_i hne
      refine safe_below (hbase ?_) (hindex index hmem)
      rintro rfl
      exact hne rfl
  · rename_i hfile
    cases h
    rw [List.mem_singleton.mp hp]
    apply hbase
    rintro rfl
    exact hfile rfl

/-- A safe name ends in its last segment, which is not empty. -/
theorem Safe.getLast_ne (h : Safe p) : p.toList.getLast? ≠ some '/' := by
  intro hlast
  rcases List.getLast?_eq_some_iff.mp hlast with ⟨init, hinit⟩
  have hp : p = String.ofList (init ++ '/' :: []) := by
    rw [← hinit, String.ofList_toList]
  have hempty : "" ∈ split '/' p := by
    rw [hp, split_append_cons]
    exact List.mem_append_right _ (by decide)
  exact (h "" hempty).1 rfl

theorem split_slash (p : String) : split '/' ("/" ++ p) = "" :: split '/' p := by
  have h := split_below "" p
  rw [String.empty_append] at h
  rw [h]
  rfl

theorem Safe.ne_empty (h : Safe p) : p ≠ "" := by
  rintro rfl
  exact (h "" (by decide)).1 rfl

/-- An encoding of a safe name addresses the name. -/
theorem candidatePaths_of_encodes (hsafe : Safe p)
    (h : Encodes ("/" ++ p).toList path.toList) :
    candidatePaths path indexFiles = some [p] := by
  have hsanitize : sanitize ("/" ++ p) = some (split '/' p) := by
    rw [sanitize, split_slash, sanitizeSegments, if_pos (.inl rfl)]
    exact (sanitizeSegments_of_safe hsafe).1
  have hlast : ("/" ++ p).toList.getLast? ≠ some '/' := by
    rw [String.toList_append, List.getLast?_append]
    cases hp : p.toList.getLast? with
    | none =>
      rw [List.getLast?_eq_none_iff, String.toList_eq_nil_iff] at hp
      exact (hsafe.ne_empty hp).elim
    | some c =>
      have hne := hsafe.getLast_ne
      rw [hp] at hne
      exact hne
  have hdirectory : ¬ ((split '/' p).isEmpty || ("/" ++ p).toList.getLast? == some '/') = true := by
    rw [Bool.or_eq_true, List.isEmpty_iff, beq_iff_eq, not_or]
    exact ⟨split_ne_nil, hlast⟩
  rw [candidatePaths_of_segments (percentDecode_of_encodes h) hsanitize, if_neg hdirectory,
    join_split rfl]

/-- With a slash behind it, it addresses the index files of a directory. -/
theorem candidatePaths_of_encodes_slash (hsafe : Safe p)
    (h : Encodes ("/" ++ p ++ "/").toList path.toList) :
    candidatePaths path indexFiles = some (indexFiles.map fun index => p ++ "/" ++ index) := by
  have hsplit : split '/' ("/" ++ p ++ "/") = "" :: (split '/' p ++ [""]) := by
    have hb := split_below ("/" ++ p) ""
    rw [String.append_empty] at hb
    rw [hb, split_slash]
    rfl
  have hsanitize : sanitize ("/" ++ p ++ "/") = some (split '/' p) := by
    rw [sanitize, hsplit, sanitizeSegments, if_pos (.inl rfl)]
    exact (sanitizeSegments_of_safe hsafe).2
  have hdirectory : ((split '/' p).isEmpty ||
      ("/" ++ p ++ "/").toList.getLast? == some '/') = true := by
    rw [Bool.or_eq_true, beq_iff_eq, String.toList_append]
    exact .inr List.getLast?_concat
  have hbase : p.isEmpty = false := by simpa using hsafe.ne_empty
  have hjoin : String.intercalate "/" (split '/' p) = p := join_split rfl p
  rw [candidatePaths_of_segments (percentDecode_of_encodes h) hsanitize, if_pos hdirectory]
  simp only [hjoin, hbase, Bool.false_eq_true, if_false]

/-- What does not denote a text addresses nothing. -/
theorem candidatePaths_eq_none
    (h : Malformed path.toList ∨ ∃ out, Decodes path.toList out ∧ ∀ text, utf8 text ≠ out) :
    candidatePaths path indexFiles = none := by
  cases hdecode : percentDecode path with
  | none => simp only [candidatePaths, hdecode, Option.bind_eq_bind, Option.bind_none]
  | some decoded =>
    have hdecodes := percentDecode_eq_some_iff.mp hdecode
    rcases h with hbad | ⟨out, hout, hnot⟩
    · exact (hdecodes.not_malformed hbad).elim
    · -- a text denotes one sequence of bytes at most
      have hsame : some (utf8 decoded) = some out := by
        rw [← percentDecodeBytes_eq_some_iff.mpr hdecodes, percentDecodeBytes_eq_some_iff.mpr hout]
      exact (hnot decoded (Option.some.inj hsame)).elim

/-- Candidates are safe names; the encodings of a safe name address it, or the index files
below it; and what denotes no text addresses nothing. -/
theorem candidatePaths_contained_complete (indexFiles : List String) :
    ((∀ index ∈ indexFiles, Safe index) → ∀ path candidates,
        candidatePaths path indexFiles = some candidates → ∀ p ∈ candidates, Safe p) ∧
      (∀ p path, Safe p → Encodes ("/" ++ p).toList path.toList →
        candidatePaths path indexFiles = some [p]) ∧
      (∀ p path, Safe p → Encodes ("/" ++ p ++ "/").toList path.toList →
        candidatePaths path indexFiles = some (indexFiles.map fun index => p ++ "/" ++ index)) ∧
      (∀ path, (Malformed path.toList ∨
          ∃ out, Decodes path.toList out ∧ ∀ text, utf8 text ≠ out) →
        candidatePaths path indexFiles = none) := by
  refine ⟨?_, ?_, ?_, ?_⟩
  · intro hindex path candidates h
    exact safe_of_candidatePaths hindex h
  · intro p path hsafe h
    exact candidatePaths_of_encodes hsafe h
  · intro p path hsafe h
    exact candidatePaths_of_encodes_slash hsafe h
  · intro path h
    exact candidatePaths_eq_none h

/-- An escaped slash is a slash. -/
theorem candidatePaths_contained_complete_slash :
    candidatePaths "/a%2Fb" ["index.html"] = some ["a/b"] := by
  have hslash : Escapes (String.utf8EncodeChar '/') ['%', '2', 'F'] :=
    .cons (by decide) (by decide) .nil
  have hencodes : Encodes ("/" ++ "a/b").toList "/a%2Fb".toList :=
    .plain (by decide) (.plain (by decide) (.escaped hslash (.plain (by decide) .nil)))
  exact (candidatePaths_contained_complete ["index.html"]).2.1 "a/b" "/a%2Fb" (by decide) hencodes

end Candidates

end FerroHttp
