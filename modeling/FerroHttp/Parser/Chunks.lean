import FerroHttp.Parser.Lines

/-!
# Parser.Chunks — the chunk and trailer loops

The two loops of the chunked decoder, read without machine arithmetic:

1. `hexValue` is the number a size token denotes, `SizeLine` a complete size line
   at a position, and `Chunks buf maxBody pos body` says that `buf` holds complete,
   well-formed chunks up to `pos` whose data is `body`. `Trailers` is the same for
   the trailer lines after the last chunk.
2. `reaches_chunkStep_iff`: the states the chunk loop reaches are exactly those of
   `Chunks`, in every build. An overflow never leads to a further iteration.
3. `decodeChunked_eq_iff`: the decoder ends, and `ChunkStop` lists where and with
   what, including what a wrapped addition makes of the rest of the buffer.

What has been read is stable when the buffer grows (`Chunks.append`,
`Trailers.append`).
-/

namespace FerroHttp

open Exec Text Search

/-! ## Chunk sizes -/

/-- The number a size token denotes, of any magnitude. -/
def hexValue (tok : Bytes) : Option Nat :=
  if tok = [] then none else (tok.mapM hexDigit).map (Numeral.value 16)

theorem parseHexDigits_eq_ok_iff {t : Target} {v n : Nat} {bs : Bytes} (hv : v < t.modulus) :
    parseHexDigits t v bs = .ok n ↔
      ∃ ds, bs.mapM hexDigit = some ds ∧ Numeral.checked t.modulus 16 v ds = some n := by
  induction bs generalizing v with
  | nil => simp [parseHexDigits, Numeral.checked]
  | cons b bs ih =>
    rw [parseHexDigits, List.mapM_cons]
    cases hexDigit b with
    | none => simp
    | some digit =>
      simp only [Option.bind_eq_bind, Option.bind_some]
      by_cases hfit : v * 16 + digit < t.modulus
      · rw [if_pos ⟨by omega, hfit⟩, ih hfit]
        cases bs.mapM hexDigit <;> simp [Numeral.checked, hfit]
      · rw [if_neg (fun h => hfit h.2)]
        cases bs.mapM hexDigit <;> simp [Numeral.checked, hfit]

/-- A chunk size is read exactly when the token denotes a number that fits. -/
theorem parseHex_eq_ok_iff {t : Target} {tok : Bytes} {n : Nat} :
    parseHex t tok = .ok n ↔ hexValue tok = some n ∧ n < t.modulus := by
  have hpos := t.modulus_pos
  unfold parseHex hexValue
  cases tok with
  | nil => simp
  | cons b bs =>
    simp only [List.isEmpty_cons, Bool.false_eq_true, if_false, reduceCtorEq,
      Option.map_eq_some_iff]
    rw [parseHexDigits_eq_ok_iff hpos]
    constructor
    · rintro ⟨ds, hds, hval⟩
      rw [Numeral.checked_eq_some_iff (by omega) hpos] at hval
      simp only [Nat.zero_mul, Nat.zero_add] at hval
      exact ⟨⟨ds, hds, hval.2.symm⟩, by omega⟩
    · rintro ⟨⟨ds, hds, rfl⟩, hlt⟩
      refine ⟨ds, hds, ?_⟩
      rw [Numeral.checked_eq_some_iff (by omega) hpos]
      simpa using hlt

/-- Otherwise the chunk is malformed. -/
theorem parseHex_eq_error {t : Target} {tok : Bytes}
    (h : ∀ n, hexValue tok = some n → t.modulus ≤ n) :
    parseHex t tok = .error .malformedChunk := by
  cases hp : parseHex t tok with
  | ok n =>
    rw [parseHex_eq_ok_iff] at hp
    have hge := h n hp.1
    omega
  | error e =>
    -- no digit and no overflow give the same error
    have herr : ∀ (bs : Bytes) (v : Nat), parseHexDigits t v bs = .error e →
        e = .malformedChunk := by
      intro bs
      induction bs with
      | nil => intro v hd; cases hd
      | cons b bs ih =>
        intro v hd
        unfold parseHexDigits at hd
        split at hd
        · cases hd
          rfl
        · split at hd
          · exact ih _ hd
          · cases hd
            rfl
    unfold parseHex at hp
    split at hp
    · cases hp
      rfl
    · rw [herr _ _ hp]

/-- Past the first `;` of a size line, more bytes are more extensions. -/
theorem sizeToken_append_of_mem {line : Bytes} (h : semicolon ∈ line) (more : Bytes) :
    sizeToken (line ++ more) = sizeToken line := by
  cases hi : line.findIdx? (· == semicolon) with
  | none => exact absurd h (findIdx?_beq_eq_none_iff.mp hi)
  | some i =>
    rcases findIdx?_beq_eq_some_iff.mp hi with ⟨a, b, rfl, _, rfl⟩
    rw [sizeToken, sizeToken, List.findIdx?_append, hi]
    simp

/-- Before it, they continue the token. -/
theorem sizeToken_append_of_not_mem {line : Bytes} (h : semicolon ∉ line) (more : Bytes) :
    sizeToken (line ++ more) = line ++ sizeToken more := by
  rw [sizeToken, sizeToken, List.findIdx?_append, findIdx?_beq_eq_none_iff.mpr h]
  cases more.findIdx? (· == semicolon) with
  | none => rfl
  | some i => simp [List.take_append, List.take_of_length_le]

/-- The digits that start a number denote one that is not larger. -/
theorem hexValue_of_append {a b : Bytes} {n : Nat} (hne : a ≠ [])
    (h : hexValue (a ++ b) = some n) : ∃ m, hexValue a = some m ∧ m ≤ n := by
  unfold hexValue at h ⊢
  -- both halves are digits, and the second one only adds
  rw [if_neg (by simp [hne]), List.mapM_append, Option.map_eq_some_iff] at h
  rw [if_neg hne]
  rcases h with ⟨ds, hds, rfl⟩
  cases ha : a.mapM hexDigit with
  | none => simp [ha] at hds
  | some xs =>
    cases hb : b.mapM hexDigit with
    | none => simp [ha, hb] at hds
    | some ys =>
      simp only [ha, hb, Option.bind_eq_bind, Option.bind_some, Option.pure_def,
        Option.some.injEq] at hds
      subst hds
      exact ⟨_, rfl, Numeral.value_le_append (by omega) xs ys⟩

/-! ## Size lines and chunks -/

/-- A complete chunk-size line at `pos`: `lineLen` bytes before its CRLF, whose
size part denotes `size`. -/
structure SizeLine (buf : Bytes) (pos lineLen size : Nat) : Prop where
  line : FirstAt crlf (buf.drop pos) lineLen
  size : hexValue (sizeToken ((buf.drop pos).take lineLen)) = some size

/-- `buf` holds complete chunks up to `pos`; their data, at most `maxBody` bytes,
is `body`. -/
inductive Chunks (buf : Bytes) (maxBody : Nat) : Nat → Bytes → Prop
  | start : Chunks buf maxBody 0 []
  | chunk {pos lineLen size : Nat} {body : Bytes} (before : Chunks buf maxBody pos body)
      (line : SizeLine buf pos lineLen size) (nonzero : size ≠ 0)
      (terminator : crlf <+: buf.drop (pos + lineLen + 2 + size))
      (limit : body.length + size ≤ maxBody) :
      Chunks buf maxBody (pos + lineLen + 2 + size + 2)
        (body ++ (buf.drop (pos + lineLen + 2)).take size)

/-- `buf` holds non-empty trailer lines from `start` up to the given position. -/
inductive Trailers (buf : Bytes) (start : Nat) : Nat → Prop
  | start : Trailers buf start start
  | line {tpos trailerLen : Nat} (before : Trailers buf start tpos)
      (line : FirstAt crlf (buf.drop tpos) trailerLen) (nonempty : trailerLen ≠ 0) :
      Trailers buf start (tpos + (trailerLen + 2))

/-- A line found from `pos` on ends inside the buffer. -/
theorem firstAt_crlf_end_le {buf : Bytes} {pos lineLen : Nat}
    (h : FirstAt crlf (buf.drop pos) lineLen) : pos + lineLen + 2 ≤ buf.length := by
  have hend := h.end_le crlf_ne_nil
  rw [List.length_drop, length_crlf] at hend
  omega

theorem crlf_prefix_drop_end_le {buf : Bytes} {pos : Nat} (h : crlf <+: buf.drop pos) :
    pos + 2 ≤ buf.length := by
  have hend := h.length_le
  rw [List.length_drop, length_crlf] at hend
  omega

theorem firstAt_zero_iff {buf : Bytes} : FirstAt crlf buf 0 ↔ crlf <+: buf := by
  simp [FirstAt]

namespace SizeLine

variable {buf : Bytes} {pos lineLen lineLen' size size' : Nat}

theorem end_le (h : SizeLine buf pos lineLen size) : pos + lineLen + 2 ≤ buf.length :=
  firstAt_crlf_end_le h.line

theorem unique (h : SizeLine buf pos lineLen size) (h' : SizeLine buf pos lineLen' size') :
    lineLen = lineLen' ∧ size = size' := by
  have hlen := h.line.unique h'.line
  subst hlen
  exact ⟨rfl, Option.some.inj (h.size.symm.trans h'.size)⟩

theorem append (h : SizeLine buf pos lineLen size) (ext : Bytes) :
    SizeLine (buf ++ ext) pos lineLen size := by
  have hend := h.end_le
  have hdrop : (buf ++ ext).drop pos = buf.drop pos ++ ext :=
    List.drop_append_of_le_length (by omega)
  constructor
  · rw [hdrop]
    exact h.line.append crlf_ne_nil
  · rw [hdrop, List.take_append_of_le_length (by rw [List.length_drop]; omega)]
    exact h.size

end SizeLine

namespace Chunks

variable {buf : Bytes} {maxBody pos : Nat} {body : Bytes}

theorem pos_le (h : Chunks buf maxBody pos body) : pos ≤ buf.length := by
  cases h with
  | start => exact Nat.zero_le _
  | chunk before line nonzero terminator limit => exact crlf_prefix_drop_end_le terminator

theorem length_le (h : Chunks buf maxBody pos body) : body.length ≤ maxBody := by
  cases h with
  | start => exact Nat.zero_le _
  | chunk before line nonzero terminator limit =>
    rw [List.length_append, List.length_take]
    omega

/-- Complete chunks stay complete when more bytes arrive. -/
theorem append (h : Chunks buf maxBody pos body) (ext : Bytes) :
    Chunks (buf ++ ext) maxBody pos body := by
  induction h with
  | start => exact .start
  | @chunk pos lineLen size body before line nonzero terminator limit ih =>
    have hend := crlf_prefix_drop_end_le terminator
    -- the data of the chunk lies inside the old buffer
    have hdata : ((buf ++ ext).drop (pos + lineLen + 2)).take size =
        (buf.drop (pos + lineLen + 2)).take size := by
      rw [List.drop_append_of_le_length (by omega),
        List.take_append_of_le_length (by rw [List.length_drop]; omega)]
    rw [← hdata]
    refine .chunk ih (line.append ext) nonzero ?_ limit
    exact (prefix_drop_append_iff hend).mpr terminator

end Chunks

namespace Trailers

variable {buf : Bytes} {start tpos : Nat}

theorem tpos_le (hstart : start ≤ buf.length) (h : Trailers buf start tpos) :
    tpos ≤ buf.length := by
  cases h with
  | start => exact hstart
  | line before line nonempty =>
    have hend := firstAt_crlf_end_le line
    omega

theorem append (h : Trailers buf start tpos) (ext : Bytes) : Trailers (buf ++ ext) start tpos := by
  induction h with
  | start => exact .start
  | line before line nonempty ih =>
    refine .line ih ?_ nonempty
    have hend := firstAt_crlf_end_le line
    rw [List.drop_append_of_le_length (by omega)]
    exact line.append crlf_ne_nil

end Trailers

/-! ## The trailer loop -/

/-- Where the trailer loop stops, and with what. -/
inductive TrailerStop (buf body : Bytes) (start : Nat) : Outcome ParseError ChunkOutcome → Prop
  | needLine {tpos : Nat} (trailers : Trailers buf start tpos)
      (noLine : ¬ crlf <:+: buf.drop tpos) (short : buf.length - tpos ≤ maxChunkLineBytes) :
      TrailerStop buf body start (.ok .partialBody)
  | longLine {tpos : Nat} (trailers : Trailers buf start tpos)
      (noLine : ¬ crlf <:+: buf.drop tpos) (long : maxChunkLineBytes < buf.length - tpos) :
      TrailerStop buf body start (.err .malformedChunk)
  | blank {tpos : Nat} (trailers : Trailers buf start tpos) (blank : crlf <+: buf.drop tpos) :
      TrailerStop buf body start (.ok (.complete body (tpos + 2)))

section TrailerLoop

variable {t : Target} {buf body : Bytes} {start tpos trailerLen : Nat}

theorem trailerStep_noLine (htpos : tpos ≤ buf.length) (hno : ¬ crlf <:+: buf.drop tpos) :
    trailerStep t buf body tpos =
      if maxChunkLineBytes < buf.length - tpos then .err .malformedChunk
      else .ok (.done .partialBody) := by
  rw [trailerStep, sliceFrom_of_le htpos, Outcome.ok_bind,
    (findSubslice_eq_none crlf_ne_nil).mpr hno]

theorem trailerStep_blank (hbuf : buf.length < t.modulus) (h : crlf <+: buf.drop tpos) :
    trailerStep t buf body tpos = .ok (.done (.complete body (tpos + 2))) := by
  have hend := crlf_prefix_drop_end_le h
  rw [trailerStep, sliceFrom_of_le (by omega), Outcome.ok_bind,
    (findSubslice_eq_some crlf_ne_nil).mpr (firstAt_zero_iff.mpr h)]
  simp only [if_true]
  rw [Target.add_of_lt (by omega), Outcome.ok_bind]

theorem trailerStep_line (hbuf : buf.length < t.modulus)
    (h : FirstAt crlf (buf.drop tpos) trailerLen) (hne : trailerLen ≠ 0) :
    trailerStep t buf body tpos = .ok (.again (tpos + (trailerLen + 2))) := by
  have hend := firstAt_crlf_end_le h
  rw [trailerStep, sliceFrom_of_le (by omega), Outcome.ok_bind,
    (findSubslice_eq_some crlf_ne_nil).mpr h]
  simp only [hne, if_false]
  rw [Target.add_of_lt (by omega), Outcome.ok_bind, Target.add_of_lt (by omega), Outcome.ok_bind]

/-- At every position the trailer loop waits, ends or goes on past one line. -/
theorem trailer_cases (buf : Bytes) (tpos : Nat) :
    ¬ crlf <:+: buf.drop tpos ∨ crlf <+: buf.drop tpos ∨
      ∃ trailerLen, FirstAt crlf (buf.drop tpos) trailerLen ∧ trailerLen ≠ 0 := by
  by_cases hline : crlf <:+: buf.drop tpos
  · rcases exists_firstAt_iff.mpr hline with ⟨n, hn⟩
    by_cases hzero : n = 0
    · subst hzero
      exact .inr (.inl (firstAt_zero_iff.mp hn))
    · exact .inr (.inr ⟨n, hn, hzero⟩)
  · exact .inl hline

theorem trailerStep_eq_again (hbuf : buf.length < t.modulus) (htpos : tpos ≤ buf.length)
    {tpos' : Nat} (h : trailerStep t buf body tpos = .ok (.again tpos')) :
    ∃ trailerLen, FirstAt crlf (buf.drop tpos) trailerLen ∧ trailerLen ≠ 0 ∧
      tpos' = tpos + (trailerLen + 2) := by
  rcases trailer_cases buf tpos with hno | hblank | ⟨n, hn, hne⟩
  · rw [trailerStep_noLine htpos hno] at h
    split at h <;> cases h
  · rw [trailerStep_blank hbuf hblank] at h
    cases h
  · rw [trailerStep_line hbuf hn hne] at h
    cases h
    exact ⟨n, hn, hne, rfl⟩

theorem reaches_trailerStep_iff (hbuf : buf.length < t.modulus) (hstart : start ≤ buf.length) :
    Reaches (fun p => Flow.ofOutcome (trailerStep t buf body p)) start tpos ↔
      Trailers buf start tpos := by
  constructor
  · intro h
    refine h.invariant .start ?_
    intro u u' hstep hu
    rw [Flow.ofOutcome_eq_again] at hstep
    rcases trailerStep_eq_again hbuf (hu.tpos_le hstart) hstep with ⟨n, hn, hne, rfl⟩
    exact .line hu hn hne
  · intro h
    induction h with
    | start => exact .refl
    | line before line nonempty ih =>
      exact ih.tail (by rw [Flow.ofOutcome_eq_again]; exact trailerStep_line hbuf line nonempty)

/-- Every further line moves the position forward, inside the buffer. -/
theorem exists_loop_trailerStep (hbuf : buf.length < t.modulus) (hstart : start ≤ buf.length) :
    ∃ r, loop (fun p => Flow.ofOutcome (trailerStep t buf body p)) (buf.length + 1) start =
      some r := by
  refine loop_terminates (fun p => p ≤ buf.length) (fun p => buf.length - p) ?_ _ _ hstart
    (by omega)
  intro u u' hstep hu
  rw [Flow.ofOutcome_eq_again] at hstep
  -- the measure is what is left of the buffer
  rcases trailerStep_eq_again hbuf hu hstep with ⟨n, hn, _, rfl⟩
  have hend := firstAt_crlf_end_le hn
  omega

/-- The trailer loop ends, with the verdict of the line it stops at. -/
theorem skipTrailers_eq_iff (hbuf : buf.length < t.modulus) (hstart : start ≤ buf.length)
    {r : Outcome ParseError ChunkOutcome} :
    skipTrailers t buf body start = r ↔ TrailerStop buf body start r := by
  rw [skipTrailers, runLoop_eq_iff (exists_loop_trailerStep hbuf hstart)]
  constructor
  · rintro ⟨u, hreach, hdone⟩
    -- the loop stopped behind non-empty lines, at one of three things
    rw [reaches_trailerStep_iff hbuf hstart] at hreach
    rcases trailer_cases buf u with hno | hblank | ⟨n, hn, hne⟩
    · rw [trailerStep_noLine (hreach.tpos_le hstart) hno] at hdone
      split at hdone
      · cases hdone
        exact .longLine hreach hno ‹_›
      · cases hdone
        exact .needLine hreach hno (by omega)
    · rw [trailerStep_blank hbuf hblank] at hdone
      cases hdone
      exact .blank hreach hblank
    · rw [trailerStep_line hbuf hn hne] at hdone
      cases hdone
  · intro h
    cases h with
    | needLine trailers noLine short =>
      refine ⟨_, (reaches_trailerStep_iff hbuf hstart).mpr trailers, ?_⟩
      rw [trailerStep_noLine (trailers.tpos_le hstart) noLine, if_neg (by omega)]
      rfl
    | longLine trailers noLine long =>
      refine ⟨_, (reaches_trailerStep_iff hbuf hstart).mpr trailers, ?_⟩
      rw [trailerStep_noLine (trailers.tpos_le hstart) noLine, if_pos long]
      rfl
    | blank trailers blank =>
      refine ⟨_, (reaches_trailerStep_iff hbuf hstart).mpr trailers, ?_⟩
      rw [trailerStep_blank hbuf blank]
      rfl

end TrailerLoop

/-! ## The chunk loop -/

/-- What is left of a chunk whose end does not fit in a word: a panic in a checked
build; in a release build the wrapped position decides. -/
def wrappedChunk (t : Target) (buf : Bytes) (dataStart size : Nat) :
    Outcome ParseError ChunkOutcome :=
  if t.checked || dataStart + size < t.modulus then .panic
  else
    let dataEnd := dataStart + size - t.modulus
    if buf.length < dataEnd + 2 then .ok .partialBody
    else if crlf.isPrefixOf (buf.drop dataEnd) then .panic
    else .err .malformedChunk

/-- Where the chunk loop stops, and with what. -/
inductive ChunkStop (t : Target) (buf : Bytes) (maxBody : Nat) :
    Outcome ParseError ChunkOutcome → Prop
  | needLine {pos : Nat} {body : Bytes} (chunks : Chunks buf maxBody pos body)
      (noLine : ¬ crlf <:+: buf.drop pos) (short : buf.length - pos ≤ maxChunkLineBytes) :
      ChunkStop t buf maxBody (.ok .partialBody)
  | longLine {pos : Nat} {body : Bytes} (chunks : Chunks buf maxBody pos body)
      (noLine : ¬ crlf <:+: buf.drop pos) (long : maxChunkLineBytes < buf.length - pos) :
      ChunkStop t buf maxBody (.err .malformedChunk)
  | badSize {pos lineLen : Nat} {body : Bytes} (chunks : Chunks buf maxBody pos body)
      (line : FirstAt crlf (buf.drop pos) lineLen)
      (bad : ∀ n, hexValue (sizeToken ((buf.drop pos).take lineLen)) = some n → t.modulus ≤ n) :
      ChunkStop t buf maxBody (.err .malformedChunk)
  | last {pos lineLen : Nat} {body : Bytes} {r : Outcome ParseError ChunkOutcome}
      (chunks : Chunks buf maxBody pos body) (line : SizeLine buf pos lineLen 0)
      (trailers : TrailerStop buf body (pos + lineLen + 2) r) : ChunkStop t buf maxBody r
  | needData {pos lineLen size : Nat} {body : Bytes} (chunks : Chunks buf maxBody pos body)
      (line : SizeLine buf pos lineLen size) (nonzero : size ≠ 0)
      (fits : pos + lineLen + 2 + size + 2 < t.modulus)
      (short : buf.length < pos + lineLen + 2 + size + 2) :
      ChunkStop t buf maxBody (.ok .partialBody)
  | noTerminator {pos lineLen size : Nat} {body : Bytes} (chunks : Chunks buf maxBody pos body)
      (line : SizeLine buf pos lineLen size) (nonzero : size ≠ 0)
      (inside : pos + lineLen + 2 + size + 2 ≤ buf.length)
      (terminator : ¬ crlf <+: buf.drop (pos + lineLen + 2 + size)) :
      ChunkStop t buf maxBody (.err .malformedChunk)
  | tooLarge {pos lineLen size : Nat} {body : Bytes} (chunks : Chunks buf maxBody pos body)
      (line : SizeLine buf pos lineLen size) (nonzero : size ≠ 0)
      (terminator : crlf <+: buf.drop (pos + lineLen + 2 + size))
      (limit : maxBody < body.length + size) : ChunkStop t buf maxBody (.err .bodyTooLarge)
  | overflow {pos lineLen size : Nat} {body : Bytes} (chunks : Chunks buf maxBody pos body)
      (line : SizeLine buf pos lineLen size) (nonzero : size ≠ 0) (word : size < t.modulus)
      (exceeds : t.modulus ≤ pos + lineLen + 2 + size + 2) :
      ChunkStop t buf maxBody (wrappedChunk t buf (pos + lineLen + 2) size)

section ChunkLoop

variable {t : Target} {buf body : Bytes} {maxBody pos lineLen size dataStart : Nat}

theorem chunkStep_noLine (hpos : pos ≤ buf.length) (hno : ¬ crlf <:+: buf.drop pos) :
    chunkStep t buf maxBody ⟨pos, body⟩ =
      if maxChunkLineBytes < buf.length - pos then .err .malformedChunk
      else .ok (.done .partialBody) := by
  rw [chunkStep, sliceFrom_of_le hpos, Outcome.ok_bind,
    (findSubslice_eq_none crlf_ne_nil).mpr hno]

/-- Once the size line is complete, its size decides. -/
theorem chunkStep_line (hbuf : buf.length < t.modulus)
    (h : FirstAt crlf (buf.drop pos) lineLen) :
    chunkStep t buf maxBody ⟨pos, body⟩ =
      (Outcome.ofExcept (parseHex t (sizeToken ((buf.drop pos).take lineLen))) >>= fun size =>
        if size = 0 then do
          let outcome ← skipTrailers t buf body (pos + lineLen + 2)
          .ok (.done outcome)
        else chunkData t buf maxBody body (pos + lineLen + 2) size) := by
  have hend := firstAt_crlf_end_le h
  have hpos : pos ≤ buf.length := by omega
  rw [chunkStep, sliceFrom_of_le hpos, Outcome.ok_bind,
    (findSubslice_eq_some crlf_ne_nil).mpr h]
  simp only
  rw [Target.add_of_lt (by omega), Outcome.ok_bind, slice_of_le (by omega) (by omega),
    Outcome.ok_bind, Nat.add_sub_cancel_left]
  congr 1
  funext size
  rw [Target.add_of_lt (by omega), Outcome.ok_bind]

theorem chunkStep_badSize (hbuf : buf.length < t.modulus)
    (h : FirstAt crlf (buf.drop pos) lineLen)
    (hbad : ∀ n, hexValue (sizeToken ((buf.drop pos).take lineLen)) = some n → t.modulus ≤ n) :
    chunkStep t buf maxBody ⟨pos, body⟩ = .err .malformedChunk := by
  rw [chunkStep_line hbuf h, parseHex_eq_error hbad]
  rfl

theorem chunkStep_last (hbuf : buf.length < t.modulus) (h : SizeLine buf pos lineLen 0) :
    chunkStep t buf maxBody ⟨pos, body⟩ =
      (skipTrailers t buf body (pos + lineLen + 2) >>= fun outcome => .ok (.done outcome)) := by
  have hpos := t.modulus_pos
  rw [chunkStep_line hbuf h.line, parseHex_eq_ok_iff.mpr ⟨h.size, hpos⟩]
  rfl

theorem chunkStep_data (hbuf : buf.length < t.modulus) (h : SizeLine buf pos lineLen size)
    (hne : size ≠ 0) (hword : size < t.modulus) :
    chunkStep t buf maxBody ⟨pos, body⟩ =
      chunkData t buf maxBody body (pos + lineLen + 2) size := by
  rw [chunkStep_line hbuf h.line, parseHex_eq_ok_iff.mpr ⟨h.size, hword⟩, Outcome.ofExcept_ok,
    Outcome.ok_bind, if_neg hne]

theorem chunkData_short (hfits : dataStart + size + 2 < t.modulus)
    (hshort : buf.length < dataStart + size + 2) :
    chunkData t buf maxBody body dataStart size = .ok (.done .partialBody) := by
  rw [chunkData, Target.add_of_lt (by omega), Outcome.ok_bind, Target.add_of_lt hfits,
    Outcome.ok_bind, if_pos hshort]

/-- Two bytes are CRLF exactly when CRLF starts there. -/
theorem take_two_eq_crlf_iff {bs : Bytes} (k : Nat) :
    (bs.drop k).take 2 = crlf ↔ crlf <+: bs.drop k := by
  rw [List.prefix_iff_eq_take, length_crlf, eq_comm]

theorem chunkData_inside (hbuf : buf.length < t.modulus)
    (hinside : dataStart + size + 2 ≤ buf.length) :
    chunkData t buf maxBody body dataStart size =
      if crlf <+: buf.drop (dataStart + size) then
        if maxBody < body.length + size then .err .bodyTooLarge
        else .ok (.again ⟨dataStart + size + 2, body ++ (buf.drop dataStart).take size⟩)
      else .err .malformedChunk := by
  have hlen : ((buf.drop dataStart).take size).length = size := by
    rw [List.length_take, List.length_drop]
    omega
  rw [chunkData, Target.add_of_lt (by omega), Outcome.ok_bind, Target.add_of_lt (by omega),
    Outcome.ok_bind, if_neg (by omega), slice_of_le (by omega) (by omega), Outcome.ok_bind,
    Nat.add_sub_cancel_left]
  -- the terminator is checked before the limit
  by_cases hterm : crlf <+: buf.drop (dataStart + size)
  · rw [if_neg (by rw [ne_eq, not_not, take_two_eq_crlf_iff]; exact hterm), if_pos hterm,
      slice_of_le (by omega) (by omega), Outcome.ok_bind, Nat.add_sub_cancel_left]
    simp only [List.length_append, hlen]
  · rw [if_pos (by rw [ne_eq, take_two_eq_crlf_iff]; exact hterm), if_neg hterm]

/-- Where the end of the data fits in a word and the end of its terminator does not,
the terminator's range is inverted: a panic in every build. -/
theorem chunkData_overflow_crlf (htwo : 2 ≤ dataStart) (hstart : dataStart ≤ buf.length)
    (hfits : dataStart + size < t.modulus) (hover : t.modulus ≤ dataStart + size + 2) :
    chunkData t buf maxBody body dataStart size = .panic := by
  have hM := t.modulus_ge
  rw [chunkData, Target.add_of_lt hfits, Outcome.ok_bind, Target.add_of_ge hover (by omega)]
  cases t.checked with
  | true => rfl
  | false =>
    simp only [Bool.false_eq_true, if_false, Outcome.ok_bind]
    rw [if_neg (by omega), slice_of_lt (.inl (by omega))]
    rfl

/-- Where the end of the data does not fit, the release build reads the terminator at
the wrapped position. -/
theorem chunkData_overflow_data (hbuf : buf.length + 1 < t.modulus)
    (hstart : dataStart ≤ buf.length) (hword : size < t.modulus)
    (hover : t.modulus ≤ dataStart + size) :
    Flow.ofOutcome (chunkData t buf maxBody body dataStart size) =
      .done (wrappedChunk t buf dataStart size) := by
  have hfits : ¬ dataStart + size < t.modulus := by omega
  rw [chunkData, Target.add_of_ge hover (by omega), wrappedChunk]
  cases hchk : t.checked with
  | true =>
    -- the first addition of the source panics
    simp only [if_true, Bool.true_or, Outcome.panic_bind]
    rfl
  | false =>
    simp only [hfits, decide_false, Bool.or_false, Bool.false_eq_true, if_false, Outcome.ok_bind]
    rw [Target.add_of_lt (by omega), Outcome.ok_bind]
    by_cases hshort : buf.length < dataStart + size - t.modulus + 2
    · rw [if_pos hshort, if_pos hshort]
      rfl
    · rw [if_neg hshort, if_neg hshort, slice_of_le (by omega) (by omega), Outcome.ok_bind,
        Nat.add_sub_cancel_left]
      by_cases hterm : crlf <+: buf.drop (dataStart + size - t.modulus)
      · -- the wrapped end is before the start of the data
        rw [if_neg (by rw [ne_eq, not_not, take_two_eq_crlf_iff]; exact hterm),
          slice_of_lt (.inl (by omega)), if_pos (List.isPrefixOf_iff_prefix.mpr hterm)]
        rfl
      · rw [if_pos (by rw [ne_eq, take_two_eq_crlf_iff]; exact hterm),
          if_neg (by rw [List.isPrefixOf_iff_prefix]; exact hterm)]
        rfl

/-- An overflow ends the loop, in every build. -/
theorem chunkData_overflow (hbuf : buf.length + 1 < t.modulus) (htwo : 2 ≤ dataStart)
    (hstart : dataStart ≤ buf.length) (hword : size < t.modulus)
    (hover : t.modulus ≤ dataStart + size + 2) :
    Flow.ofOutcome (chunkData t buf maxBody body dataStart size) =
      .done (wrappedChunk t buf dataStart size) := by
  by_cases hfits : dataStart + size < t.modulus
  · rw [chunkData_overflow_crlf htwo hstart hfits hover, wrappedChunk, if_pos (by simp [hfits])]
    rfl
  · exact chunkData_overflow_data hbuf hstart hword (by omega)

/-- At every position the chunk loop waits for a size line, or reads one. -/
theorem chunk_cases (t : Target) (buf : Bytes) (pos : Nat) :
    ¬ crlf <:+: buf.drop pos ∨
      ∃ lineLen, FirstAt crlf (buf.drop pos) lineLen ∧
        ((∀ n, hexValue (sizeToken ((buf.drop pos).take lineLen)) = some n → t.modulus ≤ n) ∨
          SizeLine buf pos lineLen 0 ∨
          ∃ size, SizeLine buf pos lineLen size ∧ size ≠ 0 ∧ size < t.modulus) := by
  by_cases hline : crlf <:+: buf.drop pos
  · rcases exists_firstAt_iff.mpr hline with ⟨n, hn⟩
    refine .inr ⟨n, hn, ?_⟩
    by_cases hbad : ∀ m, hexValue (sizeToken ((buf.drop pos).take n)) = some m → t.modulus ≤ m
    · exact .inl hbad
    · push Not at hbad
      rcases hbad with ⟨m, hm, hlt⟩
      by_cases hzero : m = 0
      · subst hzero
        exact .inr (.inl ⟨hn, hm⟩)
      · exact .inr (.inr ⟨m, ⟨hn, hm⟩, hzero, hlt⟩)
  · exact .inl hline

/-- The chunk loop goes on exactly past a complete chunk within the limit. -/
theorem chunkStep_eq_again_iff (hbuf : buf.length + 1 < t.modulus) (hpos : pos ≤ buf.length)
    {s' : ChunkState} :
    chunkStep t buf maxBody ⟨pos, body⟩ = .ok (.again s') ↔
      ∃ lineLen size, SizeLine buf pos lineLen size ∧ size ≠ 0 ∧
        crlf <+: buf.drop (pos + lineLen + 2 + size) ∧ body.length + size ≤ maxBody ∧
        s' = ⟨pos + lineLen + 2 + size + 2,
          body ++ (buf.drop (pos + lineLen + 2)).take size⟩ := by
  constructor
  · intro h
    rcases chunk_cases t buf pos with hno | ⟨n, hn, hbad | hlast | ⟨m, hm, hne, hword⟩⟩
    · rw [chunkStep_noLine hpos hno] at h
      split at h <;> cases h
    · rw [chunkStep_badSize (by omega) hn hbad] at h
      cases h
    · rw [chunkStep_last (by omega) hlast, Outcome.bind_eq_ok] at h
      rcases h with ⟨o, _, ho⟩
      cases ho
    · have hend := hm.end_le
      rw [chunkStep_data (by omega) hm hne hword] at h
      -- an overflow ends the loop, and so does data that has not arrived
      by_cases hover : t.modulus ≤ pos + n + 2 + m + 2
      · have hdone : Flow.ofOutcome (chunkData t buf maxBody body (pos + n + 2) m) = _ :=
          chunkData_overflow hbuf (by omega) hend hword hover
        rw [h] at hdone
        cases hdone
      · by_cases hinside : pos + n + 2 + m + 2 ≤ buf.length
        · rw [chunkData_inside (by omega) hinside] at h
          split at h
          · split at h
            · cases h
            · cases h
              exact ⟨n, m, hm, hne, ‹_›, by omega, rfl⟩
          · cases h
        · rw [chunkData_short (by omega) (by omega)] at h
          cases h
  · rintro ⟨n, m, hm, hne, hterm, hlimit, rfl⟩
    have hend := crlf_prefix_drop_end_le hterm
    rw [chunkStep_data (by omega) hm hne (by omega), chunkData_inside (by omega) (by omega),
      if_pos hterm, if_neg (by omega)]

theorem reaches_chunkStep_iff (hbuf : buf.length + 1 < t.modulus) {s : ChunkState} :
    Reaches (fun s => Flow.ofOutcome (chunkStep t buf maxBody s)) ⟨0, []⟩ s ↔
      Chunks buf maxBody s.pos s.body := by
  constructor
  · intro h
    refine Reaches.invariant (I := fun s : ChunkState => Chunks buf maxBody s.pos s.body) h
      .start ?_
    rintro ⟨p, b⟩ u' hstep hu
    have hpos : p ≤ buf.length := hu.pos_le
    rw [Flow.ofOutcome_eq_again, chunkStep_eq_again_iff hbuf hpos] at hstep
    rcases hstep with ⟨n, m, hm, hne, hterm, hlimit, rfl⟩
    exact .chunk hu hm hne hterm hlimit
  · rcases s with ⟨p, b⟩
    intro h
    -- each complete chunk is one iteration
    replace h : Chunks buf maxBody p b := h
    induction h with
    | start => exact .refl
    | chunk before line nonzero terminator limit ih =>
      refine ih.tail ?_
      rw [Flow.ofOutcome_eq_again, chunkStep_eq_again_iff hbuf before.pos_le]
      exact ⟨_, _, line, nonzero, terminator, limit, rfl⟩

/-- A last chunk ends the loop with the verdict of its trailers. -/
theorem ofOutcome_chunkStep_last (hbuf : buf.length < t.modulus) (h : SizeLine buf pos lineLen 0) :
    Flow.ofOutcome (chunkStep t buf maxBody ⟨pos, body⟩) =
      .done (skipTrailers t buf body (pos + lineLen + 2)) := by
  rw [chunkStep_last hbuf h]
  cases skipTrailers t buf body (pos + lineLen + 2) <;> rfl

/-- One iteration for each byte is enough: every further chunk moves the position
forward, inside the buffer. -/
theorem exists_loop_chunkStep (hbuf : buf.length + 1 < t.modulus) :
    ∃ r, loop (fun s => Flow.ofOutcome (chunkStep t buf maxBody s)) (buf.length + 1) ⟨0, []⟩ =
      some r := by
  refine loop_terminates (fun s => s.pos ≤ buf.length) (fun s => buf.length - s.pos) ?_ _ _
    (Nat.zero_le _) (Nat.lt_succ_self _)
  rintro ⟨p, b⟩ u' hstep hu
  replace hu : p ≤ buf.length := hu
  rw [Flow.ofOutcome_eq_again, chunkStep_eq_again_iff hbuf hu] at hstep
  rcases hstep with ⟨n, m, _, _, hterm, _, rfl⟩
  have hend := crlf_prefix_drop_end_le hterm
  simp only
  omega

/-- An iteration after complete chunks that ends the loop stops in a listed way. -/
theorem chunkStop_of_done (hbuf : buf.length + 1 < t.modulus) (chunks : Chunks buf maxBody pos body)
    {r : Outcome ParseError ChunkOutcome}
    (hdone : Flow.ofOutcome (chunkStep t buf maxBody ⟨pos, body⟩) = .done r) :
    ChunkStop t buf maxBody r := by
  have hbuf' : buf.length < t.modulus := by omega
  have hp := chunks.pos_le
  -- the cases of one iteration, of which the one that goes on is excluded
  rcases chunk_cases t buf pos with hno | ⟨n, hn, hbad | hlast | ⟨m, hm, hne, hword⟩⟩
  · rw [chunkStep_noLine hp hno] at hdone
    split at hdone
    · cases hdone
      exact .longLine chunks hno ‹_›
    · cases hdone
      exact .needLine chunks hno (by omega)
  · rw [chunkStep_badSize hbuf' hn hbad] at hdone
    cases hdone
    exact .badSize chunks hn hbad
  · rw [ofOutcome_chunkStep_last hbuf' hlast] at hdone
    cases hdone
    exact .last chunks hlast ((skipTrailers_eq_iff hbuf' hlast.end_le).mp rfl)
  · have hend := hm.end_le
    rw [chunkStep_data hbuf' hm hne hword] at hdone
    by_cases hover : t.modulus ≤ pos + n + 2 + m + 2
    · rw [chunkData_overflow hbuf (by omega) hend hword hover] at hdone
      cases hdone
      exact .overflow chunks hm hne hword hover
    · by_cases hinside : pos + n + 2 + m + 2 ≤ buf.length
      · rw [chunkData_inside hbuf' hinside] at hdone
        split at hdone
        · split at hdone
          · cases hdone
            exact .tooLarge chunks hm hne ‹_› ‹_›
          · cases hdone
        · cases hdone
          exact .noTerminator chunks hm hne hinside ‹_›
      · rw [chunkData_short (by omega) (by omega)] at hdone
        cases hdone
        exact .needData chunks hm hne (by omega) (by omega)

/-- Every listed way to stop is an iteration's, after complete chunks. -/
theorem exists_done_of_chunkStop (hbuf : buf.length + 1 < t.modulus)
    {r : Outcome ParseError ChunkOutcome} (h : ChunkStop t buf maxBody r) :
    ∃ s : ChunkState, Chunks buf maxBody s.pos s.body ∧
      Flow.ofOutcome (chunkStep t buf maxBody s) = .done r := by
  have hbuf' : buf.length < t.modulus := by omega
  -- the state in which the loop stops is named by the constructor
  cases h with
  | @needLine p b chunks noLine short =>
    refine ⟨⟨p, b⟩, chunks, ?_⟩
    rw [chunkStep_noLine chunks.pos_le noLine, if_neg (by omega)]
    rfl
  | @longLine p b chunks noLine long =>
    refine ⟨⟨p, b⟩, chunks, ?_⟩
    rw [chunkStep_noLine chunks.pos_le noLine, if_pos long]
    rfl
  | @badSize p n b chunks line bad =>
    refine ⟨⟨p, b⟩, chunks, ?_⟩
    rw [chunkStep_badSize hbuf' line bad]
    rfl
  | @last p n b _ chunks line trailers =>
    refine ⟨⟨p, b⟩, chunks, ?_⟩
    rw [ofOutcome_chunkStep_last hbuf' line, (skipTrailers_eq_iff hbuf' line.end_le).mpr trailers]
  | @needData p n m b chunks line nonzero fits short =>
    refine ⟨⟨p, b⟩, chunks, ?_⟩
    rw [chunkStep_data hbuf' line nonzero (by omega), chunkData_short fits short]
    rfl
  | @noTerminator p n m b chunks line nonzero inside terminator =>
    refine ⟨⟨p, b⟩, chunks, ?_⟩
    rw [chunkStep_data hbuf' line nonzero (by omega), chunkData_inside hbuf' inside,
      if_neg terminator]
    rfl
  | @tooLarge p n m b chunks line nonzero terminator limit =>
    have hend := crlf_prefix_drop_end_le terminator
    refine ⟨⟨p, b⟩, chunks, ?_⟩
    rw [chunkStep_data hbuf' line nonzero (by omega), chunkData_inside hbuf' hend,
      if_pos terminator, if_pos limit]
    rfl
  | @overflow p n m b chunks line nonzero word exceeds =>
    have hend := line.end_le
    refine ⟨⟨p, b⟩, chunks, ?_⟩
    rw [chunkStep_data hbuf' line nonzero word,
      chunkData_overflow hbuf (by omega) hend word exceeds]

/-- The decoder ends, in one of the ways `ChunkStop` lists. -/
theorem decodeChunked_eq_iff (hbuf : buf.length + 1 < t.modulus)
    {r : Outcome ParseError ChunkOutcome} :
    decodeChunked t buf maxBody = r ↔ ChunkStop t buf maxBody r := by
  rw [decodeChunked, runLoop_eq_iff (exists_loop_chunkStep hbuf)]
  constructor
  · rintro ⟨s, hreach, hdone⟩
    exact chunkStop_of_done hbuf ((reaches_chunkStep_iff hbuf).mp hreach) hdone
  · intro h
    rcases exists_done_of_chunkStop hbuf h with ⟨s, chunks, hdone⟩
    exact ⟨s, (reaches_chunkStep_iff hbuf).mpr chunks, hdone⟩

/-- The decoder's verdict in one piece: it always stops. -/
theorem chunkStop_decodeChunked (hbuf : buf.length + 1 < t.modulus) :
    ChunkStop t buf maxBody (decodeChunked t buf maxBody) :=
  (decodeChunked_eq_iff hbuf).mp rfl

/-- A body is complete exactly when its last chunk, its trailers and the blank line
have arrived. -/
theorem decodeChunked_eq_complete_iff (hbuf : buf.length + 1 < t.modulus) {consumed : Nat} :
    decodeChunked t buf maxBody = .ok (.complete body consumed) ↔
      ∃ pos lineLen tpos, Chunks buf maxBody pos body ∧ SizeLine buf pos lineLen 0 ∧
        Trailers buf (pos + lineLen + 2) tpos ∧ crlf <+: buf.drop tpos ∧ consumed = tpos + 2 := by
  rw [decodeChunked_eq_iff hbuf]
  constructor
  · intro h
    generalize hr : (Outcome.ok (ChunkOutcome.complete body consumed) :
      Outcome ParseError ChunkOutcome) = r at h
    cases h with
    | @last p n b _ chunks line trailers =>
      cases trailers with
      | @blank tpos trailers blank =>
        cases hr
        exact ⟨p, n, tpos, chunks, line, trailers, blank, rfl⟩
      | needLine trailers noLine short => cases hr
      | longLine trailers noLine long => cases hr
    | overflow chunks line nonzero word exceeds =>
      -- whatever the wrapped position gives, it is not a complete body
      unfold wrappedChunk at hr
      split at hr
      · cases hr
      · simp only at hr
        split at hr
        · cases hr
        · split at hr <;> cases hr
    | needLine => cases hr
    | longLine => cases hr
    | badSize => cases hr
    | needData => cases hr
    | noTerminator => cases hr
    | tooLarge => cases hr
  · rintro ⟨p, n, tpos, chunks, line, trailers, blank, rfl⟩
    exact .last chunks line (.blank trailers blank)

end ChunkLoop

end FerroHttp
