import FerroHttp.Parser.Verdict

/-!
# Parser.Buffering — how much a waiting parser has buffered

While `parseWith` asks for more bytes the caller keeps the whole buffer. Three of
the places where it does so are bounded by the limits: an open head, a fixed-length
body, and a chunked body as long as every size line is short and every declared
size stays within `maxBody`. What is not bounded:

* the data of a chunk whose declared size exceeds what is left of `maxBody`, since
  the body length is only tested once the chunk has arrived;
* a size line that arrived with its terminator, and the trailer section, whose
  lines are only tested while they are unterminated.

`parseWith_partial_bound_iff` shows that there are no others.
-/

namespace FerroHttp

open Exec Text Search

/-- What the limits promise of a buffer that is waiting for more bytes. -/
def bufferBound (maxBody : Nat) : Nat :=
  maxHeadBytes + 4 + (maxBody + 2) * (maxChunkLineBytes + 5)

/-- What a chunked body that is not complete is waiting for. -/
inductive Awaited where
  | sizeLine
  | data (lineLen size : Nat)
  | trailers

/-- The data of a chunk, or its terminator, has not arrived. In a release build a
size one short of the word limit looks the same right after its size line. -/
def DataOutstanding (t : Target) (len dataStart size : Nat) : Prop :=
  len < dataStart + size + 2 ∧
    (dataStart + size + 2 < t.modulus ∨
      (t.checked = false ∧ size + 1 = t.modulus ∧ len = dataStart))

/-- The chunks up to `pos` are complete, and the decoder waits. -/
inductive Waiting (t : Target) (buf : Bytes) (maxBody : Nat) : Nat → Bytes → Awaited → Prop
  | sizeLine {pos : Nat} {body : Bytes} (chunks : Chunks buf maxBody pos body)
      (noLine : ¬ crlf <:+: buf.drop pos) (short : buf.length - pos ≤ maxChunkLineBytes) :
      Waiting t buf maxBody pos body .sizeLine
  | data {pos lineLen size : Nat} {body : Bytes} (chunks : Chunks buf maxBody pos body)
      (line : SizeLine buf pos lineLen size) (nonzero : size ≠ 0)
      (outstanding : DataOutstanding t buf.length (pos + lineLen + 2) size) :
      Waiting t buf maxBody pos body (.data lineLen size)
  | trailers {pos lineLen tpos : Nat} {body : Bytes} (chunks : Chunks buf maxBody pos body)
      (line : SizeLine buf pos lineLen 0) (trailers : Trailers buf (pos + lineLen + 2) tpos)
      (noLine : ¬ crlf <:+: buf.drop tpos) (short : buf.length - tpos ≤ maxChunkLineBytes) :
      Waiting t buf maxBody pos body .trailers

/-- Some size line that starts before `pos` is longer than the line limit. -/
def LongLineBefore (buf : Bytes) (maxBody pos : Nat) : Prop :=
  ∃ pos' body lineLen size, Chunks buf maxBody pos' body ∧ SizeLine buf pos' lineLen size ∧
    pos' < pos ∧ maxChunkLineBytes < lineLen

/-- The wait is one that no limit bounds. -/
def Unbounded (buf : Bytes) (maxBody pos : Nat) (body : Bytes) : Awaited → Prop
  | .sizeLine => LongLineBefore buf maxBody pos
  | .data lineLen size =>
    maxBody < body.length + size ∨ LongLineBefore buf maxBody (pos + lineLen + 2)
  | .trailers => True

section Buffering

variable {t : Target} {buf : Bytes} {maxBody : Nat}

theorem wrappedChunk_eq_partial_iff {dataStart size : Nat} (htwo : 2 ≤ dataStart)
    (hstart : dataStart ≤ buf.length) (hbuf : buf.length + 1 < t.modulus) (hword : size < t.modulus)
    (hover : t.modulus ≤ dataStart + size + 2) :
    wrappedChunk t buf dataStart size = .ok .partialBody ↔
      DataOutstanding t buf.length dataStart size := by
  unfold wrappedChunk DataOutstanding
  cases hchk : t.checked with
  | true =>
    simp only [Bool.true_or, if_true, reduceCtorEq, false_iff, false_and, or_false]
    rintro ⟨_, hfits⟩
    omega
  | false =>
    by_cases hfirst : dataStart + size < t.modulus
    · simp only [hfirst, decide_true, Bool.or_true, if_true, reduceCtorEq, false_iff]
      rintro ⟨_, hfits | ⟨_, hsize, _⟩⟩ <;> omega
    · simp only [hfirst, decide_false, Bool.or_false, Bool.false_eq_true, if_false, true_and]
      by_cases hshort : buf.length < dataStart + size - t.modulus + 2
      · rw [if_pos hshort]
        simp only [true_iff]
        omega
      · rw [if_neg hshort]
        constructor
        · intro h
          split at h <;> cases h
        · rintro ⟨_, h | h⟩ <;> omega

/-- The decoder waits exactly in the three places listed. -/
theorem decodeChunked_eq_partial_iff (hbuf : buf.length + 1 < t.modulus) :
    decodeChunked t buf maxBody = .ok .partialBody ↔
      ∃ pos body place, Waiting t buf maxBody pos body place := by
  rw [decodeChunked_eq_iff hbuf]
  constructor
  · intro h
    generalize hr : (Outcome.ok ChunkOutcome.partialBody :
      Outcome ParseError ChunkOutcome) = r at h
    cases h with
    | needLine chunks noLine short => exact ⟨_, _, _, .sizeLine chunks noLine short⟩
    | last chunks line trailers =>
      cases trailers with
      | needLine trailers noLine short =>
        exact ⟨_, _, _, .trailers chunks line trailers noLine short⟩
      | longLine trailers noLine long => cases hr
      | blank trailers blank => cases hr
    | needData chunks line nonzero fits short =>
      exact ⟨_, _, _, .data chunks line nonzero ⟨short, .inl fits⟩⟩
    | overflow chunks line nonzero word exceeds =>
      rw [eq_comm, wrappedChunk_eq_partial_iff (by omega) line.end_le hbuf word exceeds] at hr
      exact ⟨_, _, _, .data chunks line nonzero hr⟩
    | longLine => cases hr
    | badSize => cases hr
    | noTerminator => cases hr
    | tooLarge => cases hr
  · rintro ⟨pos, body, place, h⟩
    cases h with
    | sizeLine chunks noLine short => exact .needLine chunks noLine short
    | trailers chunks line trailers noLine short =>
      exact .last chunks line (.needLine trailers noLine short)
    | @data lineLen size _ chunks line nonzero outstanding =>
      by_cases hover : t.modulus ≤ pos + lineLen + 2 + size + 2
      · have hword : size < t.modulus := by
          rcases outstanding with ⟨_, h | ⟨_, h, _⟩⟩ <;> omega
        rw [← wrappedChunk_eq_partial_iff (by omega) line.end_le hbuf hword hover] at outstanding
        rw [← outstanding]
        exact .overflow chunks line nonzero hword hover
      · exact .needData chunks line nonzero (by omega) outstanding.1

/-- While the size lines are short, the chunks before a position take at most a
line's worth of bytes for each byte of data. -/
theorem Chunks.pos_le_of_shortLines {pos : Nat} {body : Bytes} (h : Chunks buf maxBody pos body)
    (hshort : ¬ LongLineBefore buf maxBody pos) :
    pos ≤ body.length * (maxChunkLineBytes + 5) := by
  induction h with
  | start => exact Nat.zero_le _
  | @chunk pos lineLen size body before line nonzero terminator limit ih =>
    have hprev : ¬ LongLineBefore buf maxBody pos := by
      rintro ⟨p, b, l, s, hc, hl, hlt, hlong⟩
      exact hshort ⟨p, b, l, s, hc, hl, by omega, hlong⟩
    have hline : lineLen ≤ maxChunkLineBytes := by
      by_contra hlong
      exact hshort ⟨pos, body, lineLen, size, before, line, by omega, by omega⟩
    have hend := crlf_prefix_drop_end_le terminator
    have hlen : (body ++ (buf.drop (pos + lineLen + 2)).take size).length = body.length + size := by
      rw [List.length_append, List.length_take, List.length_drop]
      omega
    have hpos := ih hprev
    rw [hlen, Nat.add_mul]
    -- one more chunk adds at least one byte of data
    have hsize : 1 ≤ size := by omega
    simp only [maxChunkLineBytes] at hline hpos ⊢
    omega

/-- A wait that is not one of the unbounded ones stays within the bound. -/
theorem Waiting.length_le {pos : Nat} {body : Bytes} {place : Awaited}
    (h : Waiting t buf maxBody pos body place) (hmax : buf.length < t.modulus)
    (hbounded : ¬ Unbounded buf maxBody pos body place) :
    buf.length ≤ (maxBody + 2) * (maxChunkLineBytes + 5) := by
  cases h with
  | sizeLine chunks noLine short =>
    have hpos := chunks.pos_le_of_shortLines hbounded
    have hbody := chunks.length_le
    simp only [maxChunkLineBytes] at hpos short ⊢
    omega
  | @data lineLen size _ chunks line nonzero outstanding =>
    have hsum : body.length + size ≤ maxBody := by
      by_contra hover
      exact hbounded (.inl (by omega))
    have hlong : ¬ LongLineBefore buf maxBody (pos + lineLen + 2) := fun h => hbounded (.inr h)
    have hprev : ¬ LongLineBefore buf maxBody pos := by
      rintro ⟨p, b, l, s, hc, hl, hlt, hlong'⟩
      exact hlong ⟨p, b, l, s, hc, hl, by omega, hlong'⟩
    have hline : lineLen ≤ maxChunkLineBytes := by
      by_contra h
      exact hlong ⟨pos, body, lineLen, size, chunks, line, by omega, by omega⟩
    have hpos := chunks.pos_le_of_shortLines hprev
    rcases outstanding with ⟨hlen, hfits | ⟨_, hsize, _⟩⟩
    · simp only [maxChunkLineBytes] at hpos hline ⊢
      omega
    · -- a size that wraps is as large as the word, and so is the body limit
      simp only [maxChunkLineBytes]
      omega
  | trailers chunks line trailers noLine short => exact absurd trivial hbounded

/-- A waiting parser holds no more than the limits promise, unless it waits inside a
chunked body for something that no limit bounds. -/
theorem parseWith_partial_bound_iff (hbuf : Addressable t buf) :
    (parseWith t buf maxBody = .ok .partialRequest → buf.length ≤ bufferBound maxBody) ↔
      ¬ (bufferBound maxBody < buf.length ∧
        ∃ i h pos body place, HeadAt t buf i h ∧ h.framing = .chunked ∧
          Waiting t (buf.drop (i + 4)) maxBody pos body place ∧
          Unbounded (buf.drop (i + 4)) maxBody pos body place) := by
  have hlt := hbuf.length_lt
  constructor
  · rintro hbound ⟨hlong, i, h, pos, body, place, hh, hf, hwait, _⟩
    have hd : decodeChunked t (buf.drop (i + 4)) maxBody = .ok .partialBody :=
      (decodeChunked_eq_partial_iff (hbuf.drop (i + 4)).length_lt).mpr ⟨pos, body, place, hwait⟩
    have hwaits : parseWith t buf maxBody = .ok .partialRequest := by
      rw [parseWith_head hbuf hh, parseBody_chunked hbuf hf hh.end_le, hd]
      rfl
    have hle := hbound hwaits
    omega
  · intro hcond hwaits
    by_contra hlong
    have hstop := parseStop_parseWith hbuf maxBody
    rw [hwaits] at hstop
    rcases hstop with hshort | _ | @⟨i, h, len, hh, hf, hle, hshort⟩ | _ | _ | @⟨i, h, r, hh, hf, hr⟩
    · unfold bufferBound at hlong
      omega
    · -- a body of known length is at most the limit, and its head is
      have hlimit := hh.limit
      simp only [bufferBound, maxChunkLineBytes] at hlong
      omega
    · rcases Outcome.bind_eq_ok.mp hr.symm with ⟨o, ho, hr⟩
      cases o with
      | complete body consumed => cases hr
      | partialBody =>
        rw [decodeChunked_eq_partial_iff (hbuf.drop (i + 4)).length_lt] at ho
        rcases ho with ⟨pos, body, place, hwait⟩
        have hlimit := hh.limit
        have hrest : (buf.drop (i + 4)).length = buf.length - (i + 4) := List.length_drop
        refine hcond ⟨by omega, i, h, pos, body, place, hh, hf, hwait, ?_⟩
        by_contra hbounded
        have hle := hwait.length_le (by omega) hbounded
        unfold bufferBound at hlong
        omega

/-- A head that announces a chunked body, and the size line of a 4 GiB chunk. -/
def hugeChunkStart : Bytes :=
  utf8 "POST / HTTP/1.1\r\nHost: h\r\nTransfer-Encoding: chunked\r\n\r\nffffffff\r\n"

set_option maxRecDepth 10000 in
theorem hugeChunkStart_bound_iff :
    (parseWith ⟨.w64, false⟩ hugeChunkStart 16 = .ok .partialRequest →
        hugeChunkStart.length ≤ bufferBound 16) ↔
      ¬ (bufferBound 16 < hugeChunkStart.length ∧
        ∃ i h pos body place, HeadAt ⟨.w64, false⟩ hugeChunkStart i h ∧ h.framing = .chunked ∧
          Waiting ⟨.w64, false⟩ (hugeChunkStart.drop (i + 4)) 16 pos body place ∧
          Unbounded (hugeChunkStart.drop (i + 4)) 16 pos body place) :=
  parseWith_partial_bound_iff (by decide)

/-- The chunk's data keeps coming. -/
def hugeChunk : Bytes := hugeChunkStart ++ List.replicate 200000 0x61

theorem length_hugeChunk : hugeChunk.length = 200066 := by
  have hstart : hugeChunkStart.length = 66 := by decide
  rw [hugeChunk, List.length_append, List.length_replicate, hstart]

/-- The fields of that head. -/
def hugeChunkHeader : Head :=
  ⟨.post, "/", .http11, [⟨"Host", "h"⟩, ⟨"Transfer-Encoding", "chunked"⟩], .chunked⟩

set_option maxRecDepth 10000 in
theorem headAt_hugeChunkStart : HeadAt ⟨.w64, false⟩ hugeChunkStart 52 hugeChunkHeader := by
  refine ⟨(findSubslice_eq_some blankLine_ne_nil).mp ?_, by decide, ?_⟩
  · decide
  · decide

theorem sizeLine_hugeChunkStart : SizeLine (hugeChunkStart.drop 56) 0 8 0xffffffff := by
  refine ⟨(findSubslice_eq_some crlf_ne_nil).mp ?_, ?_⟩
  · decide
  · decide

/-- With a limit of 16 body bytes, far more than the bound is buffered. -/
theorem hugeChunk_unbounded :
    Addressable ⟨.w64, false⟩ hugeChunk ∧
      parseWith ⟨.w64, false⟩ hugeChunk 16 = .ok .partialRequest ∧
      bufferBound 16 < hugeChunk.length := by
  have hlen := length_hugeChunk
  have haddr : Addressable ⟨.w64, false⟩ hugeChunk := by
    rw [Addressable, hlen]
    decide
  have hh : HeadAt ⟨.w64, false⟩ hugeChunk 52 hugeChunkHeader := headAt_hugeChunkStart.append _
  have hrest : (hugeChunk.drop 56).length = 200010 := by rw [List.length_drop, hlen]
  have hline : SizeLine (hugeChunk.drop 56) 0 8 0xffffffff := by
    have happ := sizeLine_hugeChunkStart.append (List.replicate 200000 0x61)
    rwa [← List.drop_append_of_le_length headAt_hugeChunkStart.end_le] at happ
  have hd : decodeChunked ⟨.w64, false⟩ (hugeChunk.drop 56) 16 = .ok .partialBody := by
    rw [decodeChunked_eq_partial_iff (haddr.drop 56).length_lt]
    refine ⟨0, [], _, .data .start hline (by decide) ⟨?_, .inl (by decide)⟩⟩
    rw [hrest]
    decide
  refine ⟨haddr, ?_, ?_⟩
  · rw [parseWith_head haddr hh, parseBody_chunked haddr rfl hh.end_le, hd]
    rfl
  · rw [hlen]
    decide

end Buffering

end FerroHttp
