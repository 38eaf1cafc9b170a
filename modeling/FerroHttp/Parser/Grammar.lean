import FerroHttp.Parser.Lines

/-!
# Parser.Grammar — what each part of an accepted head looks like

One characterization for each parsing function of the head, complete in both
directions: the function returns a value exactly on the byte strings of its
production. The soundness of the parser reads them from left to right, its
completeness on rendered requests from right to left.
-/

namespace FerroHttp

open Exec Text Search

/-! ## Request line -/

/-- Two pieces are cut at the first separator. -/
theorem splitn_two (c : UInt8) (l : Bytes) :
    splitn (· == c) 2 l = match l.findIdx? (· == c) with
      | some i => [l.take i, l.drop (i + 1)]
      | none => [l] := by
  rw [splitn]
  cases l.findIdx? (· == c) <;> rfl

/-- Three pieces are cut off at the first two separators. -/
theorem splitn_three_eq_iff {c : UInt8} {l x y z : Bytes} :
    splitn (· == c) 3 l = [x, y, z] ↔ l = x ++ c :: (y ++ c :: z) ∧ c ∉ x ∧ c ∉ y := by
  rw [splitn]
  constructor
  · intro h
    cases hi : l.findIdx? (· == c) with
    | none => simp [hi] at h
    | some i =>
      rw [hi] at h
      rcases findIdx?_beq_eq_some_iff.mp hi with ⟨a, b, rfl, ha, rfl⟩
      simp only [List.take_left, List.drop_length_add_append, List.drop_one, List.tail_cons,
        Nat.reduceAdd, List.cons.injEq] at h
      rcases h with ⟨rfl, h⟩
      rw [splitn_two] at h
      cases hj : b.findIdx? (· == c) with
      | none => simp [hj] at h
      | some j =>
        rw [hj] at h
        rcases findIdx?_beq_eq_some_iff.mp hj with ⟨a', b', rfl, ha', rfl⟩
        simp only [List.take_left, List.drop_length_add_append, List.drop_one, List.tail_cons,
          List.cons.injEq, and_true] at h
        rcases h with ⟨rfl, rfl⟩
        exact ⟨rfl, ha, ha'⟩
  · rintro ⟨rfl, hx, hy⟩
    -- neither `x` nor `y` has a separator, so the two cuts are where they should be
    rw [findIdx?_beq_eq_some_iff.mpr ⟨x, y ++ c :: z, rfl, hx, rfl⟩]
    simp only [List.take_left, List.drop_length_add_append, List.drop_one, List.tail_cons,
      Nat.reduceAdd, List.cons.injEq, true_and]
    rw [splitn_two, findIdx?_beq_eq_some_iff.mpr ⟨y, z, rfl, hy, rfl⟩]
    simp

/-- There are never more pieces than were asked for. -/
theorem length_splitn_le {α : Type} (p : α → Bool) (n : Nat) (l : List α) :
    (splitn p n l).length ≤ n := by
  induction n generalizing l with
  | zero => simp [splitn]
  | succ n ih =>
    cases n with
    | zero => simp [splitn]
    | succ n =>
      rw [splitn]
      cases l.findIdx? p with
      | none => simp
      | some i =>
        have hrec := ih (l.drop (i + 1))
        simp only [List.length_cons]
        omega

/-- A method is accepted under its own name, in capital letters. -/
theorem parseMethod_eq_ok_iff {tok : Bytes} {m : Method} :
    parseMethod tok = .ok m ↔ tok = utf8 m.asStr := by
  rw [← Method.fromBytes_eq_some_iff]
  unfold parseMethod
  cases Method.fromBytes tok with
  | some m' => simp
  | none =>
    simp only [reduceCtorEq, iff_false]
    split <;> simp

theorem utf8_eq_nil_iff {s : String} : utf8 s = [] ↔ s = "" := by
  constructor
  · intro h
    exact utf8_injective h
  · rintro rfl
    rfl

/-- A target is any text that is not empty and not too long. -/
theorem parseTarget_eq_ok_iff {tok : Bytes} {target : String} :
    parseTarget tok = .ok target ↔
      utf8 target = tok ∧ tok ≠ [] ∧ tok.length ≤ maxTargetBytes := by
  unfold parseTarget
  -- the length is checked before the bytes are decoded
  by_cases hlong : maxTargetBytes < tok.length
  · rw [if_pos hlong]
    simp only [reduceCtorEq, false_iff]
    rintro ⟨_, _, hle⟩
    omega
  · rw [if_neg hlong, ← fromUtf8_eq_some_iff]
    cases hs : fromUtf8 tok with
    | none => simp
    | some s =>
      have hstok := fromUtf8_eq_some_iff.mp hs
      have hempty : tok = [] ↔ s = "" := by rw [← hstok, utf8_eq_nil_iff]
      by_cases hs' : s = ""
      · simp [hs', hempty.mpr hs']
      · simp [hs', hempty]
        omega

/-- Digits beyond 32 bits all count as the largest number. -/
theorem asciiToU32Saturating_eq (bs : Bytes) :
    asciiToU32Saturating bs = min (2 ^ 32 - 1) (decimal bs) := by
  have h : Numeral.saturating (2 ^ 32 - 1) 10 (min (2 ^ 32 - 1) 0)
      (bs.map fun b => (b - 0x30).toNat) = _ := Numeral.saturating_eq (by omega) _ 0
  simpa [asciiToU32Saturating, decimal] using h

/-- `HTTP/` digits `.` digits, with major version 1; the minor version only tells
1.0 from the rest. -/
structure VersionToken (tok : Bytes) (version : Version) (major minor : Bytes) : Prop where
  shape : tok = utf8 "HTTP/" ++ (major ++ dot :: minor)
  majorDigits : major ≠ [] ∧ major.all isAsciiDigit = true
  minorDigits : minor ≠ [] ∧ minor.all isAsciiDigit = true
  majorOne : decimal major = 1
  minorZero : version = .http10 ↔ decimal minor = 0

/-- What is no digit does not occur among digits. -/
theorem not_mem_of_all_digits {bs : Bytes} {c : UInt8} (h : bs.all isAsciiDigit = true)
    (hc : isAsciiDigit c = false) : c ∉ bs := by
  intro hmem
  have hd := List.all_eq_true.mp h c hmem
  rw [hc] at hd
  cases hd

/-- A version is accepted for its major number; the minor one may have any length. -/
theorem parseVersion_eq_ok_iff {tok : Bytes} {version : Version} :
    parseVersion tok = .ok version ↔ ∃ major minor, VersionToken tok version major minor := by
  unfold parseVersion
  constructor
  · intro h
    -- `HTTP/`, a dot, digits on both sides, and a major version of 1
    split at h
    · cases h
    · rename_i hprefix
      have hpre : utf8 "HTTP/" <+: tok := by simpa using hprefix
      rcases hpre with ⟨rest, rfl⟩
      rw [List.drop_left] at h
      simp only at h
      split at h
      · cases h
      · rename_i i hi
        -- the first dot is where the major version ends
        rcases findIdx?_beq_eq_some_iff.mp hi with ⟨major, minor, rfl, _, rfl⟩
        rw [List.take_left, List.drop_length_add_append, List.drop_one, List.tail_cons] at h
        split at h
        · cases h
        · rename_i hdigits
          simp only [Bool.or_eq_true, Bool.not_eq_true', not_or, Bool.not_eq_true,
            Bool.not_eq_false, List.isEmpty_eq_false_iff] at hdigits
          rcases hdigits with ⟨⟨⟨hne, hne'⟩, hall⟩, hall'⟩
          split at h
          · cases h
          · rename_i hone
            -- saturated or not, the conversion gives 1 for 1 only
            rw [asciiToU32Saturating_eq, not_not] at hone
            have hmajor : decimal major = 1 := by omega
            refine ⟨major, minor, rfl, ⟨hne, hall⟩, ⟨hne', hall'⟩, hmajor, ?_⟩
            rw [asciiToU32Saturating_eq] at h
            split at h
            · cases h
              simp only [true_iff]
              omega
            · cases h
              simp only [reduceCtorEq, false_iff]
              omega
  · rintro ⟨major, minor, rfl, ⟨hne, hall⟩, ⟨hne', hall'⟩, hone, hzero⟩
    -- digits hold no dot, so the cut is the first one
    have hdot : dot ∉ major := not_mem_of_all_digits hall (by decide)
    have hpre : (utf8 "HTTP/").isPrefixOf (utf8 "HTTP/" ++ (major ++ dot :: minor)) = true := by
      rw [List.isPrefixOf_iff_prefix]
      exact List.prefix_append _ _
    rw [hpre, List.drop_left]
    simp only [Bool.not_true, Bool.false_eq_true, if_false]
    rw [findIdx?_beq_eq_some_iff.mpr ⟨major, minor, rfl, hdot, rfl⟩]
    simp only [List.take_left, List.drop_length_add_append, List.drop_one, List.tail_cons, hall,
      hall', List.isEmpty_eq_false_iff.mpr hne, List.isEmpty_eq_false_iff.mpr hne', Bool.not_true,
      Bool.or_self, Bool.false_eq_true, if_false, asciiToU32Saturating_eq, hone]
    cases version with
    | http10 =>
      rw [if_neg (by omega), if_pos (by rw [hzero.mp rfl]; rfl)]
    | http11 =>
      have hminor : decimal minor ≠ 0 := fun h => by cases hzero.mpr h
      rw [if_neg (by omega), if_neg (by omega)]

/-- A request line: three tokens around two spaces. -/
structure RequestLine (line : Bytes) (method : Method) (target : String) (version : Version)
    (versionTok : Bytes) : Prop where
  shape : line = utf8 method.asStr ++ sp :: (utf8 target ++ sp :: versionTok)
  targetNonempty : target ≠ ""
  targetLimit : (utf8 target).length ≤ maxTargetBytes
  targetNoSpace : sp ∉ utf8 target
  versionOk : ∃ major minor, VersionToken versionTok version major minor

/-- The first space of a request line is the one behind the method. -/
theorem sp_not_mem_method (m : Method) : sp ∉ utf8 m.asStr := by
  cases m <;> decide

/-- A version has no space in it, so a third space is never part of one. -/
theorem VersionToken.sp_not_mem {tok major minor : Bytes} {version : Version}
    (h : VersionToken tok version major minor) : sp ∉ tok := by
  rw [h.shape]
  intro hmem
  simp only [List.mem_append, List.mem_cons] at hmem
  rcases hmem with hmem | hmem | hmem | hmem
  · exact absurd hmem (by decide)
  · exact not_mem_of_all_digits h.majorDigits.2 (by decide) hmem
  · exact absurd hmem (by decide)
  · exact not_mem_of_all_digits h.minorDigits.2 (by decide) hmem

/-- The request line is cut at two spaces, a third one is an error, and each piece is
parsed on its own. -/
theorem parseRequestLine_eq_ok_iff_pieces {line : Bytes} {method : Method} {target : String}
    {version : Version} :
    parseRequestLine line = .ok (method, target, version) ↔
      ∃ methodTok targetTok versionTok,
        splitn (· == sp) 3 line = [methodTok, targetTok, versionTok] ∧ sp ∉ versionTok ∧
          parseMethod methodTok = .ok method ∧ parseTarget targetTok = .ok target ∧
          parseVersion versionTok = .ok version := by
  constructor
  · intro h
    unfold parseRequestLine at h
    split at h
    · rename_i methodTok targetTok versionTok more hsplit
      -- `splitn` gives three pieces at most
      have hlen := length_splitn_le (· == sp) 3 line
      rw [hsplit] at hlen
      have hmore : more = [] := by
        simp only [List.length_cons] at hlen
        exact List.length_eq_zero_iff.mp (by omega)
      subst hmore
      split at h
      · cases h
      · rename_i hcont
        rw [Outcome.except_bind_eq_ok] at h
        rcases h with ⟨m, hm, h⟩
        rw [Outcome.except_bind_eq_ok] at h
        rcases h with ⟨s, ht, h⟩
        rw [Outcome.except_bind_eq_ok] at h
        rcases h with ⟨v, hv, h⟩
        cases h
        exact ⟨_, _, _, hsplit, by simpa using hcont, hm, ht, hv⟩
    · cases h
  · rintro ⟨methodTok, targetTok, versionTok, hsplit, hsp, hm, ht, hv⟩
    have hcont : versionTok.contains sp = false := by simpa using hsp
    rw [parseRequestLine, hsplit]
    simp only [hcont, Bool.false_eq_true, if_false]
    rw [hm, ht, hv]
    rfl

/-- A line is accepted when it is three tokens with single spaces between them. -/
theorem parseRequestLine_eq_ok_iff {line : Bytes} {method : Method} {target : String}
    {version : Version} :
    parseRequestLine line = .ok (method, target, version) ↔
      ∃ versionTok, RequestLine line method target version versionTok := by
  rw [parseRequestLine_eq_ok_iff_pieces]
  constructor
  · rintro ⟨methodTok, targetTok, versionTok, hsplit, _, hm, ht, hv⟩
    rcases splitn_three_eq_iff.mp hsplit with ⟨rfl, _, hsp⟩
    rw [parseMethod_eq_ok_iff] at hm
    rw [parseTarget_eq_ok_iff] at ht
    rw [parseVersion_eq_ok_iff] at hv
    rcases ht with ⟨rfl, hne, hle⟩
    subst hm
    refine ⟨versionTok, rfl, ?_, hle, hsp, hv⟩
    rintro rfl
    exact hne rfl
  · rintro ⟨versionTok, rfl, hne, hle, hsp, hv⟩
    rcases hv with ⟨major, minor, hversion⟩
    refine ⟨_, _, _, splitn_three_eq_iff.mpr ⟨rfl, sp_not_mem_method method, hsp⟩,
      hversion.sp_not_mem, parseMethod_eq_ok_iff.mpr rfl, ?_,
      parseVersion_eq_ok_iff.mpr ⟨major, minor, hversion⟩⟩
    rw [parseTarget_eq_ok_iff]
    exact ⟨rfl, fun h => hne (utf8_eq_nil_iff.mp h), hle⟩

/-! ## Header fields -/

theorem colon_not_token : isTokenByte colon = false := by decide

/-- `name:raw`, with a non-empty token for a name and the trimmed rest for a value. -/
structure HeaderLine (line : Bytes) (h : Header) (raw : Bytes) : Prop where
  shape : line = utf8 h.name ++ colon :: raw
  nameNonempty : h.name ≠ ""
  nameToken : (utf8 h.name).all isTokenByte = true
  value : utf8 h.value = trimOws raw

/-- The colon behind the name is the first one of the line. -/
theorem HeaderLine.colon_not_mem {line raw : Bytes} {h : Header} (hl : HeaderLine line h raw) :
    colon ∉ utf8 h.name := by
  intro hmem
  have htok := List.all_eq_true.mp hl.nameToken colon hmem
  rw [colon_not_token] at htok
  cases htok

/-- A field is accepted when its name is a token right before the colon; its value may hold
anything that is text. -/
theorem parseHeaderLine_eq_ok_iff {line : Bytes} {h : Header} :
    parseHeaderLine line = .ok h ↔ ∃ raw, HeaderLine line h raw := by
  constructor
  · intro hp
    unfold parseHeaderLine at hp
    split at hp
    · cases hp
    · rename_i i hi
      rcases findIdx?_beq_eq_some_iff.mp hi with ⟨name, raw, rfl, _, rfl⟩
      simp only [List.take_left, List.drop_length_add_append, List.drop_one, List.tail_cons] at hp
      split at hp
      · cases hp
      · rename_i hname
        -- a name of token bytes, and a value that is text
        simp only [Bool.or_eq_true, Bool.not_eq_true', not_or, Bool.not_eq_true,
          Bool.not_eq_false, List.isEmpty_eq_false_iff] at hname
        rcases hname with ⟨hne, htok⟩
        split at hp
        · rename_i n v hn hv
          cases hp
          rw [fromUtf8_eq_some_iff] at hn hv
          subst hn
          refine ⟨raw, rfl, ?_, htok, hv⟩
          rintro rfl
          exact hne rfl
        · cases hp
  · rintro ⟨raw, hl⟩
    have hne : utf8 h.name ≠ [] := fun h' => hl.nameNonempty (utf8_eq_nil_iff.mp h')
    rw [parseHeaderLine, hl.shape,
      findIdx?_beq_eq_some_iff.mpr ⟨utf8 h.name, raw, rfl, hl.colon_not_mem, rfl⟩]
    simp only [List.take_left, List.drop_length_add_append, List.drop_one, List.tail_cons,
      List.isEmpty_eq_false_iff.mpr hne, hl.nameToken, Bool.not_true, Bool.or_self,
      Bool.false_eq_true, if_false]
    rw [← hl.value, fromUtf8_utf8, fromUtf8_utf8]

/-- An empty line is no field. -/
theorem parseHeaderLine_nil : parseHeaderLine [] = .error .malformedHeader := rfl

/-- The header loop appends one field for each line, while there is room. -/
theorem parseHeaders_eq_ok_iff {acc hs : List Header} {lines : List Bytes}
    (hacc : acc.length ≤ maxHeaders) :
    parseHeaders acc lines = .ok hs ↔
      ∃ new, hs = acc ++ new ∧ acc.length + new.length ≤ maxHeaders ∧
        List.Forall₂ (fun line h => parseHeaderLine line = .ok h) lines new := by
  -- induction on the lines; the fields that were read before are only counted
  induction lines generalizing acc with
  | nil =>
    rw [parseHeaders]
    constructor
    · intro h
      cases h
      exact ⟨[], by simp, by simpa using hacc, .nil⟩
    · rintro ⟨new, rfl, _, hnew⟩
      cases hnew
      simp
  | cons line lines ih =>
    rw [parseHeaders]
    constructor
    · intro h
      -- an empty line and one field too many are errors
      split at h
      · cases h
      · split at h
        · cases h
        · cases hl : parseHeaderLine line with
          | error e =>
            rw [hl] at h
            cases h
          | ok hd =>
            rw [hl] at h
            have hacc' : (acc ++ [hd]).length ≤ maxHeaders := by
              rw [List.length_append, List.length_singleton]
              omega
            rcases (ih hacc').mp h with ⟨new, rfl, hle, hnew⟩
            refine ⟨hd :: new, by simp, ?_, .cons hl hnew⟩
            simp only [List.length_append, List.length_cons, List.length_nil] at hle ⊢
            omega
    · rintro ⟨new, rfl, hle, hnew⟩
      cases hnew with
      | @cons _ hd _ new hl hnew =>
        -- a field was read from the line, so there is something on it
        have hne : line.isEmpty = false := by
          cases line with
          | nil =>
            rw [parseHeaderLine_nil] at hl
            cases hl
          | cons b bs => rfl
        simp only [List.length_cons] at hle
        rw [hne, if_neg (by simp), if_neg (by omega), hl]
        have hacc' : (acc ++ [hd]).length ≤ maxHeaders := by
          rw [List.length_append, List.length_singleton]
          omega
        refine (ih hacc').mpr ⟨new, by simp, ?_, hnew⟩
        simp only [List.length_append, List.length_cons, List.length_nil]
        omega

/-- A host is not empty, and holds no blank and no control character. -/
theorem isValidHostValue_iff {host : String} :
    isValidHostValue host = true ↔
      host ≠ "" ∧ ∀ b ∈ utf8 host, 0x20 < b ∧ b ≠ 0x7f := by
  unfold isValidHostValue
  rw [Bool.and_eq_true, Bool.not_eq_true', Bool.not_eq_true', List.isEmpty_eq_false_iff,
    List.any_eq_false, ne_eq, utf8_eq_nil_iff]
  simp

/-- Exactly one valid `Host`, or none in a 1.0 request. -/
theorem validateHost_eq_ok_iff {headers : List Header} {version : Version} :
    validateHost headers version = .ok () ↔
      (∃ h, headers.filter (Header.named "host") = [h] ∧ isValidHostValue h.value = true) ∨
        (headers.filter (Header.named "host") = [] ∧ version = .http10) := by
  unfold validateHost
  -- no field, one, or several
  cases hf : headers.filter (Header.named "host") with
  | nil => cases version <;> simp
  | cons h hs =>
    cases hs with
    | nil =>
      simp only [List.cons.injEq, and_true, exists_eq_left', reduceCtorEq, false_and, or_false]
      split <;> simp_all
    | cons g gs => simp

/-! ## Framing -/

/-- How the fields of an accepted head frame its body. -/
inductive FramedAs (t : Target) (headers : List Header) : Framing → Prop
  | none (noTe : headers.filter (Header.named "transfer-encoding") = [])
      (noCl : headers.filter (Header.named "content-length") = []) :
      FramedAs t headers (.fixed 0)
  | chunked {h : Header} (te : headers.filter (Header.named "transfer-encoding") = [h])
      (noCl : headers.filter (Header.named "content-length") = [])
      (value : eqIgnoreAsciiCase (utf8 (trim h.value)) (utf8 "chunked") = true) :
      FramedAs t headers .chunked
  | length {h : Header} {len : Nat}
      (noTe : headers.filter (Header.named "transfer-encoding") = [])
      (cl : headers.filter (Header.named "content-length") = [h])
      (nonempty : utf8 (trim h.value) ≠ [])
      (digits : (utf8 (trim h.value)).all isAsciiDigit = true)
      (value : decimal (utf8 (trim h.value)) = len) (word : len < t.modulus) :
      FramedAs t headers (.fixed len)

/-- The framing is accepted in these three forms only: a length beside a coding, or two of one
kind, is refused. -/
theorem bodyFraming_eq_ok_iff {t : Target} {headers : List Header} {f : Framing} :
    bodyFraming t headers = .ok f ↔ FramedAs t headers f := by
  unfold bodyFraming
  constructor
  · intro h
    simp only at h
    -- the cases of the source: both fields, one of them, repeated ones, none
    split at h
    · cases h
    · rename_i te hte hcl
      split at h
      · cases h
        exact .chunked hte hcl ‹_›
      · cases h
    · cases h
    · cases h
    · rename_i cl hte hcl
      split at h
      · cases h
      · rename_i hraw
        simp only [Bool.or_eq_true, decide_eq_true_eq, Bool.not_eq_true', not_or,
          Bool.not_eq_false] at hraw
        have hne : utf8 (trim cl.value) ≠ [] := by
          rw [ne_eq, utf8_eq_nil_iff]
          exact hraw.1
        split at h
        · rename_i len hlen
          cases h
          rw [parseUnsigned_of_digits t.modulus_pos hne hraw.2] at hlen
          exact .length hte hcl hne hraw.2 hlen.2.symm (hlen.2 ▸ hlen.1)
        · cases h
    · rename_i hte hcl
      cases h
      exact .none hte hcl
  · intro h
    cases h with
    | none noTe noCl => simp only [noTe, noCl]
    | chunked te noCl value => simp only [te, noCl, value, if_true]
    | @length cl len noTe hcl nonempty digits value word =>
      have hne : trim cl.value ≠ "" := by
        rw [ne_eq, ← utf8_eq_nil_iff]
        exact nonempty
      simp only [noTe, hcl, hne, decide_false, digits, Bool.not_true, Bool.or_self,
        Bool.false_eq_true, if_false]
      rw [(parseUnsigned_of_digits t.modulus_pos nonempty digits).mpr ⟨value ▸ word, value.symm⟩]

/-! ## The whole head -/

/-- What `parseHead` requires of a head, and what it reads from it. -/
structure HeadParts (t : Target) (head : Bytes) (h : Head) (line : Bytes) (lines : List Bytes) :
    Prop where
  noBareCr : hasBareCr head = false
  split : splitCrlf (head.take (head.length - 4)) = line :: lines
  requestLine : parseRequestLine line = .ok (h.method, h.target, h.version)
  headers : parseHeaders [] lines = .ok h.headers
  host : validateHost h.headers h.version = .ok ()
  framing : bodyFraming t h.headers = .ok h.framing

/-- A head is accepted when each of its parts is. -/
theorem parseHead_eq_ok_iff {t : Target} {head : Bytes} {h : Head} :
    parseHead t head = .ok h ↔ ∃ line lines, HeadParts t head h line lines := by
  constructor
  · intro hp
    unfold parseHead at hp
    split at hp
    · cases hp
    · rename_i hbare
      split at hp
      · cases hp
      · rename_i line lines hsplit
        -- request line, fields, host and framing, each of which may fail
        rw [Outcome.except_bind_eq_ok] at hp
        rcases hp with ⟨⟨method, target, version⟩, hr, hp⟩
        rw [Outcome.except_bind_eq_ok] at hp
        rcases hp with ⟨headers, hh, hp⟩
        rw [Outcome.except_bind_eq_ok] at hp
        rcases hp with ⟨_, hv, hp⟩
        rw [Outcome.except_bind_eq_ok] at hp
        rcases hp with ⟨framing, hf, hp⟩
        cases hp
        exact ⟨line, lines, by simpa using hbare, hsplit, hr, hh, hv, hf⟩
  · rintro ⟨line, lines, hp⟩
    rw [parseHead, hp.noBareCr]
    simp only [Bool.false_eq_true, if_false, hp.split]
    rw [Outcome.except_bind_eq_ok]
    refine ⟨_, hp.requestLine, ?_⟩
    rw [Outcome.except_bind_eq_ok]
    refine ⟨_, hp.headers, ?_⟩
    rw [Outcome.except_bind_eq_ok]
    refine ⟨_, hp.host, ?_⟩
    rw [Outcome.except_bind_eq_ok]
    exact ⟨_, hp.framing, rfl⟩

end FerroHttp
