import FerroHttp.Parser.Verdict

/-!
# Parser.Permanence — when a rejection survives more input

Almost every check of the parser reads bytes that later input cannot change. The
exceptions are the limits on what has no terminator yet: a head, a chunk-size line
or a trailer line that is rejected for its length while it is open may turn out
acceptable once its terminator arrives, because the terminated line is measured
differently or not at all. `Rescuable` lists these three situations, and
`permanent_iff` shows that there are no others.
-/

namespace FerroHttp

open Exec Text Search

/-- The bytes that can end an open line: a CRLF, or the LF after a CR it ends in. -/
def LineEnd (e : Bytes) : Prop := e = crlf ∨ e = [lf]

/-- `buf` is rejected for the length of something that has no terminator yet, and
its terminator makes it acceptable. -/
inductive Rescuable (w : Width) (buf : Bytes) (maxBody : Nat) : Prop
  | head {ext : Bytes} {i : Nat} {h : Head} (noBlank : ¬ crlf ++ crlf <:+: buf)
      (long : maxHeadBytes < buf.length) (short : ext.length ≤ 3)
      (head : HeadAt ⟨w, false⟩ (buf ++ ext) i h) (whole : i + 4 = (buf ++ ext).length)
      (limit : ∀ len, h.framing = .fixed len → len ≤ maxBody) : Rescuable w buf maxBody
  | sizeLine {i pos lineLen size : Nat} {h : Head} {body e : Bytes}
      (head : HeadAt ⟨w, false⟩ buf i h) (chunked : h.framing = .chunked)
      (chunks : Chunks (buf.drop (i + 4)) maxBody pos body)
      (noLine : ¬ crlf <:+: (buf.drop (i + 4)).drop pos)
      (long : maxChunkLineBytes < (buf.drop (i + 4)).length - pos)
      (ends : LineEnd e) (room : Addressable ⟨w, false⟩ (buf ++ e))
      (line : SizeLine (buf.drop (i + 4) ++ e) pos lineLen size) (word : size < w.modulus)
      (whole : pos + lineLen + 2 = (buf.drop (i + 4) ++ e).length) : Rescuable w buf maxBody
  | trailer {i pos lineLen tpos trailerLen : Nat} {h : Head} {body e : Bytes}
      (head : HeadAt ⟨w, false⟩ buf i h) (chunked : h.framing = .chunked)
      (chunks : Chunks (buf.drop (i + 4)) maxBody pos body)
      (line : SizeLine (buf.drop (i + 4)) pos lineLen 0)
      (trailers : Trailers (buf.drop (i + 4)) (pos + lineLen + 2) tpos)
      (noLine : ¬ crlf <:+: (buf.drop (i + 4)).drop tpos)
      (long : maxChunkLineBytes < (buf.drop (i + 4)).length - tpos)
      (ends : LineEnd e) (room : Addressable ⟨w, false⟩ (buf ++ e))
      (ended : FirstAt crlf ((buf.drop (i + 4) ++ e).drop tpos) trailerLen)
      (whole : tpos + trailerLen + 2 = (buf.drop (i + 4) ++ e).length) : Rescuable w buf maxBody

/-- In either build, once `buf` is rejected every extension of it is. -/
def Permanent (w : Width) (buf : Bytes) (maxBody : Nat) : Prop :=
  ∀ checked, (parseWith ⟨w, checked⟩ buf maxBody).IsErr → ∀ ext,
    Addressable ⟨w, checked⟩ (buf ++ ext) → (parseWith ⟨w, checked⟩ (buf ++ ext) maxBody).IsErr

/-! ## Open lines -/

/-- Where more input ends an open line, one of the two line ends would have done,
and the line it ends is a prefix of the one that was found. -/
theorem exists_lineEnd {l ext : Bytes} {n : Nat} (hno : ¬ crlf <:+: l)
    (h : FirstAt crlf (l ++ ext) n) :
    ∃ e m, LineEnd e ∧ e.length ≤ ext.length ∧ FirstAt crlf (l ++ e) m ∧
      m + 2 = (l ++ e).length ∧ (l ++ e).take m <+: (l ++ ext).take n := by
  have hpast := h.end_of_not_infix hno
  have hend := h.end_le crlf_ne_nil
  rw [length_crlf] at hpast hend
  rw [List.length_append] at hend
  by_cases hstraddle : n + 1 = l.length
  · -- the line ends in a CR, and the extension starts with the LF
    rcases firstAt_append_lf h hstraddle with ⟨hfirst, more, rfl⟩
    refine ⟨[lf], n, .inr rfl, by simp, hfirst, by simp; omega, ?_⟩
    have hcut : l ++ lf :: more = (l ++ [lf]) ++ more := by simp
    rw [hcut]
    exact (List.prefix_append _ _).take n
  · refine ⟨crlf, l.length, .inl rfl, by rw [length_crlf]; omega, firstAt_append_crlf hno, by simp,
      ?_⟩
    rw [List.take_left]
    refine List.prefix_of_prefix_length_le (List.prefix_append l ext) (List.take_prefix n _) ?_
    rw [List.length_take, List.length_append]
    omega

/-- A number read from a longer size token can be read from a non-empty prefix of
the line, and is not smaller there. -/
theorem hexValue_of_prefix {line line' : Bytes} {size : Nat} (hne : line ≠ [])
    (hpre : line <+: line') (h : hexValue (sizeToken line') = some size) :
    ∃ size', hexValue (sizeToken line) = some size' ∧ size' ≤ size := by
  rcases hpre with ⟨more, rfl⟩
  by_cases hsemi : semicolon ∈ line
  · -- the extensions start inside the prefix: the token is the same
    rw [sizeToken_append_of_mem hsemi] at h
    exact ⟨size, h, Nat.le_refl _⟩
  · -- the whole prefix belongs to the token
    have htok : sizeToken line = line := by
      rw [sizeToken, findIdx?_beq_eq_none_iff.mpr hsemi]
    rw [sizeToken_append_of_not_mem hsemi] at h
    rw [htok]
    exact hexValue_of_append hne h

/-! ## Rejections that stay -/

section Decoder

variable {t : Target} {buf ext : Bytes} {maxBody : Nat}

theorem isErr_bind_ok {ε α β : Type} {x : Outcome ε α} {f : α → β} :
    (x >>= fun a => (.ok (f a) : Outcome ε β)).IsErr ↔ x.IsErr := by
  cases x with
  | ok a => simp
  | err e => simp
  | panic => simp
  | diverge => simp

theorem wrappedChunk_append {dataStart size : Nat} {e : ParseError}
    (h : wrappedChunk t buf dataStart size = .err e) :
    wrappedChunk t (buf ++ ext) dataStart size = .err e := by
  unfold wrappedChunk at h ⊢
  split at h
  · cases h
  · rename_i hover
    rw [if_neg hover]
    simp only at h ⊢
    split at h
    · cases h
    · rename_i hshort
      have hend : dataStart + size - t.modulus + 2 ≤ buf.length := by omega
      split at h
      · cases h
      · rename_i hterm
        have hterm' : ¬ crlf.isPrefixOf ((buf ++ ext).drop (dataStart + size - t.modulus)) = true := by
          rw [List.isPrefixOf_iff_prefix, prefix_drop_append_iff hend, ← List.isPrefixOf_iff_prefix]
          exact hterm
        rw [if_neg (by rw [List.length_append]; omega), if_neg hterm']
        exact h

/-- The decoder rejects `buf` for the length of an open line at `pos`. -/
inductive OpenLine (buf : Bytes) (maxBody : Nat) : Prop
  | size {pos : Nat} {body : Bytes} (chunks : Chunks buf maxBody pos body)
      (noLine : ¬ crlf <:+: buf.drop pos) (long : maxChunkLineBytes < buf.length - pos) :
      OpenLine buf maxBody
  | trailer {pos lineLen tpos : Nat} {body : Bytes} (chunks : Chunks buf maxBody pos body)
      (line : SizeLine buf pos lineLen 0) (trailers : Trailers buf (pos + lineLen + 2) tpos)
      (noLine : ¬ crlf <:+: buf.drop tpos) (long : maxChunkLineBytes < buf.length - tpos) :
      OpenLine buf maxBody

/-- Every other rejection of the decoder reads bytes that stay where they are. -/
theorem decodeChunked_err_append (hbuf : (buf ++ ext).length + 1 < t.modulus) {e : ParseError}
    (h : decodeChunked t buf maxBody = .err e) :
    (decodeChunked t (buf ++ ext) maxBody).IsErr ∨ OpenLine buf maxBody := by
  have hlen : buf.length ≤ (buf ++ ext).length := by
    rw [List.length_append]
    omega
  rw [decodeChunked_eq_iff (by omega)] at h
  generalize hr : (Outcome.err e : Outcome ParseError ChunkOutcome) = r at h
  cases h with
  | longLine chunks noLine long => exact .inr (.size chunks noLine long)
  | @badSize pos lineLen body chunks line bad =>
    have hend := firstAt_crlf_end_le line
    have hdrop : (buf ++ ext).drop pos = buf.drop pos ++ ext :=
      List.drop_append_of_le_length (by omega)
    have hline : FirstAt crlf ((buf ++ ext).drop pos) lineLen := by
      rw [hdrop]
      exact line.append crlf_ne_nil
    refine .inl ⟨.malformedChunk, (decodeChunked_eq_iff hbuf).mpr ?_⟩
    refine .badSize (chunks.append ext) hline ?_
    rw [hdrop, List.take_append_of_le_length (by rw [List.length_drop]; omega)]
    exact bad
  | last chunks line trailers =>
    cases trailers with
    | longLine trailers noLine long => exact .inr (.trailer chunks line trailers noLine long)
    | needLine => cases hr
    | blank => cases hr
  | noTerminator chunks line nonzero inside terminator =>
    refine .inl ⟨.malformedChunk, (decodeChunked_eq_iff hbuf).mpr ?_⟩
    refine .noTerminator (chunks.append ext) (line.append ext) nonzero (by omega) ?_
    rw [prefix_drop_append_iff inside]
    exact terminator
  | tooLarge chunks line nonzero terminator limit =>
    have hend := crlf_prefix_drop_end_le terminator
    refine .inl ⟨.bodyTooLarge, (decodeChunked_eq_iff hbuf).mpr ?_⟩
    refine .tooLarge (chunks.append ext) (line.append ext) nonzero ?_ limit
    exact (prefix_drop_append_iff hend).mpr terminator
  | overflow chunks line nonzero word exceeds =>
    refine .inl ⟨e, ?_⟩
    rw [← wrappedChunk_append hr.symm, decodeChunked_eq_iff hbuf]
    exact .overflow (chunks.append ext) (line.append ext) nonzero word exceeds
  | needLine => cases hr
  | needData => cases hr

/-- The decoder waits for a first trailer, or for another one. -/
theorem decodeChunked_trailers_wait (hbuf : buf.length + 1 < t.modulus) {pos lineLen tpos : Nat}
    {body : Bytes} (chunks : Chunks buf maxBody pos body) (line : SizeLine buf pos lineLen 0)
    (trailers : Trailers buf (pos + lineLen + 2) tpos) (hall : buf.length ≤ tpos) :
    decodeChunked t buf maxBody = .ok .partialBody := by
  rw [decodeChunked_eq_iff hbuf]
  refine .last chunks line (.needLine trailers ?_ (by omega))
  rw [List.drop_eq_nil_iff.mpr hall]
  simp [crlf]

/-- A size line that has just arrived is not rejected by a checked build: the decoder
waits for what follows it, or panics on the sum. -/
theorem decodeChunked_sizeLine_not_err (hbuf : buf.length + 1 < t.modulus)
    (hchecked : t.checked = true) {pos lineLen size : Nat} {body : Bytes}
    (chunks : Chunks buf maxBody pos body) (line : SizeLine buf pos lineLen size)
    (hword : size < t.modulus) (hwhole : pos + lineLen + 2 = buf.length) :
    ¬ (decodeChunked t buf maxBody).IsErr := by
  by_cases hzero : size = 0
  · subst hzero
    rw [decodeChunked_trailers_wait hbuf chunks line .start (by omega)]
    simp
  · by_cases hover : t.modulus ≤ pos + lineLen + 2 + size + 2
    · rw [(decodeChunked_eq_iff hbuf).mpr (.overflow chunks line hzero hword hover), wrappedChunk,
        hchecked]
      simp
    · rw [(decodeChunked_eq_iff hbuf).mpr
        (.needData chunks line hzero (by omega) (by omega))]
      simp

/-- An open size line that more input makes acceptable is a good size line with one
of the two line ends. -/
theorem exists_sizeLine_end {pos : Nat} {body : Bytes} (chunks : Chunks buf maxBody pos body)
    (noLine : ¬ crlf <:+: buf.drop pos) (long : maxChunkLineBytes < buf.length - pos)
    (hbuf : (buf ++ ext).length + 1 < t.modulus)
    (h : ¬ (decodeChunked t (buf ++ ext) maxBody).IsErr) :
    ∃ e lineLen size, LineEnd e ∧ e.length ≤ ext.length ∧ SizeLine (buf ++ e) pos lineLen size ∧
      size < t.modulus ∧ pos + lineLen + 2 = (buf ++ e).length := by
  have hpos := chunks.pos_le
  have hdrop : ∀ e : Bytes, (buf ++ e).drop pos = buf.drop pos ++ e := fun e =>
    List.drop_append_of_le_length hpos
  have hline : crlf <:+: (buf ++ ext).drop pos := by
    by_contra hno
    refine h ⟨.malformedChunk, (decodeChunked_eq_iff hbuf).mpr ?_⟩
    refine .longLine (chunks.append ext) hno ?_
    rw [List.length_append]
    omega
  rcases exists_firstAt_iff.mpr hline with ⟨n, hn⟩
  have hgood : ∃ size, hexValue (sizeToken (((buf ++ ext).drop pos).take n)) = some size ∧
      size < t.modulus := by
    by_contra hbad
    push Not at hbad
    exact h ⟨.malformedChunk, (decodeChunked_eq_iff hbuf).mpr
      (.badSize (chunks.append ext) hn hbad)⟩
  rcases hgood with ⟨size, hsize, hlt⟩
  rw [hdrop] at hn hsize
  rcases exists_lineEnd noLine hn with ⟨e, m, hend, hle, hm, hwhole, hpre⟩
  have hlen : (buf.drop pos).length = buf.length - pos := List.length_drop
  have hne : (buf.drop pos ++ e).take m ≠ [] := by
    intro hnil
    rw [List.length_append, hlen] at hwhole
    have htwo : e.length ≤ 2 := by
      rcases hend with rfl | rfl <;> simp
    have hzero := congrArg List.length hnil
    rw [List.length_take, List.length_append, hlen] at hzero
    simp only [List.length_nil, maxChunkLineBytes] at hzero long
    omega
  rcases hexValue_of_prefix hne hpre hsize with ⟨size', hsize', hle'⟩
  refine ⟨e, m, size', hend, hle, ⟨?_, ?_⟩, by omega, ?_⟩
  · rw [hdrop]
    exact hm
  · rw [hdrop]
    exact hsize'
  · rw [List.length_append, hlen] at hwhole
    rw [List.length_append]
    omega

/-- The same for an open trailer line, which any line end makes acceptable. -/
theorem exists_trailer_end {pos lineLen tpos : Nat} {body : Bytes}
    (chunks : Chunks buf maxBody pos body) (line : SizeLine buf pos lineLen 0)
    (trailers : Trailers buf (pos + lineLen + 2) tpos)
    (noLine : ¬ crlf <:+: buf.drop tpos) (long : maxChunkLineBytes < buf.length - tpos)
    (hbuf : (buf ++ ext).length + 1 < t.modulus)
    (h : ¬ (decodeChunked t (buf ++ ext) maxBody).IsErr) :
    ∃ e trailerLen, LineEnd e ∧ e.length ≤ ext.length ∧
      FirstAt crlf ((buf ++ e).drop tpos) trailerLen ∧
      tpos + trailerLen + 2 = (buf ++ e).length := by
  have hpos : tpos ≤ buf.length := trailers.tpos_le line.end_le
  have hdrop : ∀ e : Bytes, (buf ++ e).drop tpos = buf.drop tpos ++ e := fun e =>
    List.drop_append_of_le_length hpos
  have hline : crlf <:+: (buf ++ ext).drop tpos := by
    by_contra hno
    refine h ⟨.malformedChunk, (decodeChunked_eq_iff hbuf).mpr ?_⟩
    refine .last (chunks.append ext) (line.append ext) (.longLine (trailers.append ext) hno ?_)
    rw [List.length_append]
    omega
  rcases exists_firstAt_iff.mpr hline with ⟨n, hn⟩
  rw [hdrop] at hn
  rcases exists_lineEnd noLine hn with ⟨e, m, hend, hle, hm, hwhole, _⟩
  refine ⟨e, m, hend, hle, by rw [hdrop]; exact hm, ?_⟩
  rw [List.length_append, List.length_drop] at hwhole
  rw [List.length_append]
  omega

end Decoder

section Permanence

variable {t : Target} {w : Width} {buf ext : Bytes} {maxBody i : Nat} {h : Head}

/-- A chunked request is rejected exactly when its decoder rejects. -/
theorem parseWith_chunked_isErr_iff (hbuf : Addressable t buf) (hh : HeadAt t buf i h)
    (hf : h.framing = .chunked) :
    (parseWith t buf maxBody).IsErr ↔ (decodeChunked t (buf.drop (i + 4)) maxBody).IsErr := by
  rw [parseWith_head hbuf hh, parseBody_chunked hbuf hf hh.end_le]
  exact isErr_bind_ok

/-- The part of an extended buffer after an accepted head. -/
theorem drop_head_append (hh : HeadAt t buf i h) (ext : Bytes) :
    (buf ++ ext).drop (i + 4) = buf.drop (i + 4) ++ ext :=
  List.drop_append_of_le_length hh.end_le

/-- A fixed-length body is rejected for its declared length only. -/
theorem parseWith_fixed_isErr_iff (hbuf : Addressable t buf) (hh : HeadAt t buf i h) {len : Nat}
    (hf : h.framing = .fixed len) : (parseWith t buf maxBody).IsErr ↔ maxBody < len := by
  have hlen := hbuf.length_lt
  rw [parseWith_head hbuf hh]
  by_cases hlarge : maxBody < len
  · rw [parseBody_fixed_tooLarge hf hlarge]
    simp [hlarge]
  · simp only [hlarge, iff_false]
    by_cases hfits : i + 4 + len < t.modulus
    · rw [parseBody_fixed hf (by omega) hfits]
      split <;> simp
    · rw [parseBody_fixed_overflow hf (by omega) (hh.len_lt hf) hh.end_le (by omega) (by omega)]
      simp

/-- An open head that more input makes acceptable lacks at most three bytes. -/
theorem rescuable_of_head {c : Bool} (hbuf : Addressable ⟨w, c⟩ (buf ++ ext))
    (hno : ¬ crlf ++ crlf <:+: buf) (hlong : maxHeadBytes < buf.length)
    (hok : ¬ (parseWith ⟨w, c⟩ (buf ++ ext) maxBody).IsErr) : Rescuable w buf maxBody := by
  rcases head_cases ⟨w, c⟩ (buf ++ ext) with hno' | ⟨i, hi, hlarge⟩ | ⟨i, e, hi, hlimit, he⟩ |
    ⟨i, h, hh⟩
  · rw [parseWith_open hno', if_pos (by rw [List.length_append]; omega)] at hok
    exact absurd (Outcome.isErr_err _) hok
  · rw [parseWith_tooLarge hbuf hi hlarge] at hok
    exact absurd (Outcome.isErr_err _) hok
  · rw [parseWith_badHead hbuf hi hlimit he] at hok
    exact absurd (Outcome.isErr_err _) hok
  · have hpast := hh.blank.end_of_not_infix hno
    have hend := hh.end_le
    have hlimit := hh.limit
    simp only [List.length_append, length_crlf] at hpast hend
    -- cut the extension where the blank line ends
    have hcut : buf ++ ext = (buf ++ ext.take (i + 4 - buf.length)) ++
        ext.drop (i + 4 - buf.length) := by simp
    have hlen : (buf ++ ext.take (i + 4 - buf.length)).length = i + 4 := by
      rw [List.length_append, List.length_take]
      omega
    have hh' : HeadAt ⟨w, c⟩ (buf ++ ext.take (i + 4 - buf.length)) i h := by
      refine ⟨?_, hlimit, ?_⟩
      · have hblank := hh.blank
        rw [hcut] at hblank
        apply hblank.of_append
        rw [hlen]
        simp
      · have hhead := hh.head
        rw [hcut, List.take_append_of_le_length (by omega)] at hhead
        exact hhead
    refine .head hno hlong ?_ hh'.build hlen.symm ?_
    · rw [List.length_take]
      omega
    · intro len hf
      by_contra hlarge
      exact hok ((parseWith_fixed_isErr_iff hbuf hh hf).mpr (by omega))

/-- A chunked body that more input makes acceptable has an open line over the limit,
which one of the two line ends would have done for. -/
theorem rescuable_of_chunked {c : Bool} (hh : HeadAt ⟨w, c⟩ buf i h) (hf : h.framing = .chunked)
    (herr : (decodeChunked ⟨w, c⟩ (buf.drop (i + 4)) maxBody).IsErr)
    (hbuf : Addressable ⟨w, c⟩ (buf ++ ext))
    (hok : ¬ (decodeChunked ⟨w, c⟩ (buf.drop (i + 4) ++ ext) maxBody).IsErr) :
    Rescuable w buf maxBody := by
  have hrest := (hbuf.drop (i + 4)).length_lt
  rw [drop_head_append hh] at hrest
  have hroom : ∀ e : Bytes, e.length ≤ ext.length → Addressable ⟨w, false⟩ (buf ++ e) := by
    intro e hle
    have hb : 2 * (buf ++ ext).length < (⟨w, false⟩ : Target).modulus := hbuf
    show 2 * (buf ++ e).length < (⟨w, false⟩ : Target).modulus
    rw [List.length_append] at hb ⊢
    omega
  rcases herr with ⟨e, he⟩
  rcases decodeChunked_err_append hrest he with herr' | hopen
  · exact absurd herr' hok
  · cases hopen with
    | size chunks noLine long =>
      rcases exists_sizeLine_end chunks noLine long hrest hok with
        ⟨e, n, size, hend, hle, hline, hword, hwhole⟩
      exact .sizeLine hh.build hf chunks noLine long hend (hroom e hle) hline hword hwhole
    | trailer chunks line trailers noLine long =>
      rcases exists_trailer_end chunks line trailers noLine long hrest hok with
        ⟨e, n, hend, hle, hended, hwhole⟩
      exact .trailer hh.build hf chunks line trailers noLine long hend (hroom e hle) hended hwhole

/-- Whatever is rejected now and not later is one of the three situations. -/
theorem rescuable_of_not_permanent {c : Bool} (herr : (parseWith ⟨w, c⟩ buf maxBody).IsErr)
    (hbuf : Addressable ⟨w, c⟩ (buf ++ ext))
    (hok : ¬ (parseWith ⟨w, c⟩ (buf ++ ext) maxBody).IsErr) : Rescuable w buf maxBody := by
  have hbuf' := hbuf.of_append
  rcases head_cases ⟨w, c⟩ buf with hno | ⟨i, hi, hlarge⟩ | ⟨i, e, hi, hlimit, he⟩ | ⟨i, h, hh⟩
  · rw [parseWith_open hno] at herr
    by_cases hlong : maxHeadBytes < buf.length
    · exact rescuable_of_head hbuf hno hlong hok
    · rw [if_neg hlong] at herr
      exact absurd herr (Outcome.not_isErr_ok _)
  · rw [parseWith_tooLarge hbuf (hi.append blankLine_ne_nil) hlarge] at hok
    exact absurd (Outcome.isErr_err _) hok
  · have he' : parseHead ⟨w, c⟩ ((buf ++ ext).take (i + 4)) = .error e := by
      rw [List.take_append_of_le_length (blankLine_end_le hi)]
      exact he
    rw [parseWith_badHead hbuf (hi.append blankLine_ne_nil) hlimit he'] at hok
    exact absurd (Outcome.isErr_err _) hok
  · cases hf : h.framing with
    | fixed len =>
      rw [parseWith_fixed_isErr_iff hbuf' hh hf] at herr
      rw [parseWith_fixed_isErr_iff hbuf (hh.append ext) hf] at hok
      exact absurd herr hok
    | chunked =>
      rw [parseWith_chunked_isErr_iff hbuf' hh hf] at herr
      rw [parseWith_chunked_isErr_iff hbuf (hh.append ext) hf, drop_head_append hh] at hok
      exact rescuable_of_chunked hh hf herr hbuf hok

/-- A head completed with the last byte of the buffer is not rejected, whatever its
body, within the limit, will be. -/
theorem not_isErr_of_whole_head (hbuf : Addressable t buf) (hh : HeadAt t buf i h)
    (whole : i + 4 = buf.length) (limit : ∀ len, h.framing = .fixed len → len ≤ maxBody) :
    ¬ (parseWith t buf maxBody).IsErr := by
  cases hf : h.framing with
  | fixed len =>
    rw [parseWith_fixed_isErr_iff hbuf hh hf]
    have hle := limit len hf
    omega
  | chunked =>
    have hM := t.modulus_ge
    have hnil : buf.drop (i + 4) = [] := List.drop_eq_nil_iff.mpr (by omega)
    rw [parseWith_chunked_isErr_iff hbuf hh hf, hnil,
      (decodeChunked_eq_iff (by simp only [List.length_nil]; omega)).mpr
        (.needLine .start (by simp [crlf]) (by simp))]
    exact Outcome.not_isErr_ok _

/-- A decoder that rejects `buf` and not `buf ++ e` makes the parser do so. -/
theorem rescued_of_decodeChunked {e : Bytes} (hbuf : Addressable t buf) (hh : HeadAt t buf i h)
    (hf : h.framing = .chunked) (hroom : Addressable t (buf ++ e))
    (herr : (decodeChunked t (buf.drop (i + 4)) maxBody).IsErr)
    (hok : ¬ (decodeChunked t (buf.drop (i + 4) ++ e) maxBody).IsErr) :
    (parseWith t buf maxBody).IsErr ∧ ¬ (parseWith t (buf ++ e) maxBody).IsErr := by
  rw [parseWith_chunked_isErr_iff hbuf hh hf,
    parseWith_chunked_isErr_iff hroom (hh.append e) hf, drop_head_append hh]
  exact ⟨herr, hok⟩

/-- In each of the three situations a checked build rejects now and not later. -/
theorem not_permanent_of_rescuable (hbuf : Addressable ⟨w, true⟩ buf)
    (hr : Rescuable w buf maxBody) :
    ∃ ext, Addressable ⟨w, true⟩ (buf ++ ext) ∧ (parseWith ⟨w, true⟩ buf maxBody).IsErr ∧
      ¬ (parseWith ⟨w, true⟩ (buf ++ ext) maxBody).IsErr := by
  cases hr with
  | @head ext i h noBlank long short head whole limit =>
    have hh : HeadAt ⟨w, true⟩ (buf ++ ext) i h := head.build
    have hM := Target.modulus_ge ⟨w, true⟩
    have hroom : Addressable ⟨w, true⟩ (buf ++ ext) := by
      have hlimit := hh.limit
      unfold Addressable
      rw [← whole]
      unfold maxHeadBytes at hlimit
      omega
    refine ⟨ext, hroom, ?_, not_isErr_of_whole_head hroom hh whole limit⟩
    rw [parseWith_open noBlank, if_pos long]
    exact Outcome.isErr_err _
  | @sizeLine i pos lineLen size h body e head chunked chunks noLine long ends room line word
      whole =>
    have hh : HeadAt ⟨w, true⟩ buf i h := head.build
    have hroom : Addressable ⟨w, true⟩ (buf ++ e) := room
    have hrest := (hroom.drop (i + 4)).length_lt
    rw [drop_head_append hh] at hrest
    refine ⟨e, hroom, rescued_of_decodeChunked hbuf hh chunked hroom ?_ ?_⟩
    · rw [(decodeChunked_eq_iff (hbuf.drop (i + 4)).length_lt).mpr (.longLine chunks noLine long)]
      exact Outcome.isErr_err _
    · exact decodeChunked_sizeLine_not_err hrest rfl (chunks.append e) line word whole
  | @trailer i pos lineLen tpos n h body e head chunked chunks line trailers noLine long ends room
      ended whole =>
    have hh : HeadAt ⟨w, true⟩ buf i h := head.build
    have hroom : Addressable ⟨w, true⟩ (buf ++ e) := room
    have hrest := (hroom.drop (i + 4)).length_lt
    rw [drop_head_append hh] at hrest
    refine ⟨e, hroom, rescued_of_decodeChunked hbuf hh chunked hroom ?_ ?_⟩
    · rw [(decodeChunked_eq_iff (hbuf.drop (i + 4)).length_lt).mpr
        (.last chunks line (.longLine trailers noLine long))]
      exact Outcome.isErr_err _
    · -- the line is over the limit, so its end does not make it the blank line
      have hnonempty : n ≠ 0 := by
        have htwo : e.length ≤ 2 := by
          rcases ends with rfl | rfl <;> simp
        rw [List.length_append] at whole
        unfold maxChunkLineBytes at long
        omega
      rw [decodeChunked_trailers_wait hrest (chunks.append e) (line.append e)
        (.line (trailers.append e) ended hnonempty) (by omega)]
      exact Outcome.not_isErr_ok _

/-- A rejection is permanent exactly when it is not one of the three that a
terminator can undo. -/
theorem permanent_iff (hbuf : Addressable ⟨w, false⟩ buf) :
    Permanent w buf maxBody ↔ ¬ Rescuable w buf maxBody := by
  constructor
  · intro hperm hr
    rcases not_permanent_of_rescuable hbuf hr with ⟨ext, hext, herr, hok⟩
    exact hok (hperm true herr ext hext)
  · intro hnot c herr ext hext
    by_contra hok
    exact hnot (rescuable_of_not_permanent herr hext hok)

/-- A head that announces a chunked body, and the start of a last chunk's size line. -/
def longExtensionStart : Bytes :=
  utf8 "POST / HTTP/1.1\r\nHost: h\r\nTransfer-Encoding: chunked\r\n\r\n0;"

set_option maxRecDepth 10000 in
theorem longExtensionStart_permanent_iff :
    Permanent .w64 longExtensionStart 16 ↔ ¬ Rescuable .w64 longExtensionStart 16 :=
  permanent_iff (by decide)

/-- The size line of the last chunk, with an extension over the line limit. -/
def longExtensionLine : Bytes := utf8 "0;" ++ List.replicate 9000 0x61

def longExtension : Bytes := longExtensionStart ++ List.replicate 9000 0x61

set_option maxRecDepth 10000 in
theorem headAt_longExtension (ext : Bytes) :
    HeadAt ⟨.w64, false⟩ (longExtension ++ ext) 52
      ⟨.post, "/", .http11, [⟨"Host", "h"⟩, ⟨"Transfer-Encoding", "chunked"⟩], .chunked⟩ := by
  have hstart : HeadAt ⟨.w64, false⟩ longExtensionStart 52
      ⟨.post, "/", .http11, [⟨"Host", "h"⟩, ⟨"Transfer-Encoding", "chunked"⟩], .chunked⟩ := by
    refine ⟨(findSubslice_eq_some blankLine_ne_nil).mp ?_, by decide, ?_⟩
    · decide
    · decide
  exact (hstart.append _).append ext

theorem drop_longExtension (ext : Bytes) :
    (longExtension ++ ext).drop (52 + 4) = longExtensionLine ++ ext := by
  have hlen : 52 + 4 ≤ longExtensionStart.length := by decide
  have hdrop : longExtensionStart.drop (52 + 4) = utf8 "0;" := by decide
  rw [longExtension, List.append_assoc, List.drop_append_of_le_length hlen, hdrop,
    longExtensionLine, List.append_assoc]

theorem length_longExtensionLine : longExtensionLine.length = 9002 := by
  have hstart : (utf8 "0;").length = 2 := by decide
  rw [longExtensionLine, List.length_append, List.length_replicate, hstart]

theorem cr_not_mem_longExtensionLine : cr ∉ longExtensionLine := by
  rw [longExtensionLine, List.mem_append, List.mem_replicate]
  decide

theorem sizeLine_longExtensionLine : SizeLine (longExtensionLine ++ crlf) 0 9002 0 := by
  have hfirst : FirstAt crlf (longExtensionLine ++ crlf ++ []) longExtensionLine.length :=
    FirstAt.of_not_mem cr_not_mem_longExtensionLine
  rw [List.append_nil, length_longExtensionLine] at hfirst
  refine ⟨hfirst, ?_⟩
  have htake : ((longExtensionLine ++ crlf).drop 0).take 9002 = longExtensionLine := by
    rw [List.drop_zero, ← length_longExtensionLine, List.take_left]
  have htok : sizeToken longExtensionLine = utf8 "0" := by
    have hsplit : longExtensionLine = utf8 "0" ++ semicolon :: List.replicate 9000 0x61 := by
      rw [longExtensionLine]
      rfl
    have hsemi : semicolon ∉ utf8 "0" := by decide
    rw [sizeToken, findIdx?_beq_eq_some_iff.mpr ⟨_, _, hsplit, hsemi, rfl⟩]
    simp only [hsplit, List.take_left]
  rw [htake, htok]
  decide

/-- The line is rejected while it is open, and skipped once it is terminated. -/
theorem longExtension_rescued :
    Addressable ⟨.w64, false⟩ (longExtension ++ crlf) ∧
      parseWith ⟨.w64, false⟩ longExtension 16 = .err .malformedChunk ∧
      parseWith ⟨.w64, false⟩ (longExtension ++ crlf) 16 = .ok .partialRequest := by
  have hlen : (longExtension ++ crlf).length = 9060 := by
    have hstart : longExtensionStart.length = 58 := by decide
    rw [longExtension, List.length_append, List.length_append, List.length_replicate, hstart,
      length_crlf]
  have haddr : Addressable ⟨.w64, false⟩ (longExtension ++ crlf) := by
    rw [Addressable, hlen]
    decide
  have hrest := (haddr.drop (52 + 4)).length_lt
  rw [drop_longExtension] at hrest
  refine ⟨haddr, ?_, ?_⟩
  · have hh := headAt_longExtension []
    have hdrop := drop_longExtension []
    rw [List.append_nil] at hh hdrop
    rw [List.append_nil] at hdrop
    have hlt : longExtensionLine.length + 1 < (⟨.w64, false⟩ : Target).modulus := by
      rw [length_longExtensionLine]
      decide
    rw [parseWith_head haddr.of_append hh, parseBody_chunked haddr.of_append rfl hh.end_le, hdrop,
      (decodeChunked_eq_iff hlt).mpr (.longLine .start ?_ ?_)]
    · rfl
    · exact not_crlf_infix_of_not_mem cr_not_mem_longExtensionLine
    · rw [length_longExtensionLine]
      decide
  · have hh := headAt_longExtension crlf
    rw [parseWith_head haddr hh, parseBody_chunked haddr rfl hh.end_le, drop_longExtension,
      decodeChunked_trailers_wait hrest .start sizeLine_longExtensionLine .start ?_]
    · rfl
    · rw [List.length_append, length_longExtensionLine]
      decide

end Permanence

end FerroHttp
