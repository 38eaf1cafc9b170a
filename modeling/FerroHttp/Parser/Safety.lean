import FerroHttp.Parser.Verdict

/-!
# Parser.Safety — when a parse attempt cannot panic

`parseWith` adds a peer-chosen size to a position in two places: the body length of
a `Content-Length` request, and the size of every chunk. `SizesFit` says that each
of these sums is a word. `parseWith_returns_iff` shows this to be exactly what
separates the buffers on which the parser returns, in a checked and in a release
build, from those on which an addition overflows.
-/

namespace FerroHttp

open Exec Text Search

/-- Every sum of a position and a size the parser comes to is a word. -/
structure SizesFit (w : Width) (buf : Bytes) (maxBody : Nat) : Prop where
  length : ∀ i h len, HeadAt ⟨w, false⟩ buf i h → h.framing = .fixed len → len ≤ maxBody →
    i + 4 + len < w.modulus
  chunk : ∀ i h pos body lineLen size, HeadAt ⟨w, false⟩ buf i h → h.framing = .chunked →
    Chunks (buf.drop (i + 4)) maxBody pos body →
    SizeLine (buf.drop (i + 4)) pos lineLen size → size ≠ 0 → size < w.modulus →
    pos + lineLen + 2 + size + 2 < w.modulus

section Safety

variable {t : Target} {w : Width} {buf : Bytes} {maxBody : Nat}

theorem TrailerStop.returns {body : Bytes} {start : Nat} {r : Outcome ParseError ChunkOutcome}
    (h : TrailerStop buf body start r) : r.Returns := by
  cases h <;> trivial

/-- Where no chunk overflows, the decoder returns. -/
theorem ChunkStop.returns {r : Outcome ParseError ChunkOutcome}
    (hfit : ∀ pos body lineLen size, Chunks buf maxBody pos body →
      SizeLine buf pos lineLen size → size ≠ 0 → size < t.modulus →
      pos + lineLen + 2 + size + 2 < t.modulus)
    (h : ChunkStop t buf maxBody r) : r.Returns := by
  cases h with
  | last chunks line trailers => exact trailers.returns
  | overflow chunks line nonzero word exceeds =>
    have hlt := hfit _ _ _ _ chunks line nonzero word
    omega
  | needLine => trivial
  | longLine => trivial
  | badSize => trivial
  | needData => trivial
  | noTerminator => trivial
  | tooLarge => trivial

theorem ChunkStop.ne_diverge {r : Outcome ParseError ChunkOutcome}
    (h : ChunkStop t buf maxBody r) : r ≠ .diverge := by
  cases h with
  | last chunks line trailers => cases trailers <;> simp
  | overflow chunks line nonzero word exceeds =>
    unfold wrappedChunk
    split
    · simp
    · dsimp only
      split
      · simp
      · split <;> simp
  | _ => simp

/-- A checked build panics on the chunk that overflows. -/
theorem decodeChunked_overflow {pos lineLen size : Nat} {body : Bytes}
    (hbuf : buf.length + 1 < t.modulus) (hchecked : t.checked = true)
    (hchunks : Chunks buf maxBody pos body) (hline : SizeLine buf pos lineLen size)
    (hne : size ≠ 0) (hword : size < t.modulus)
    (hover : t.modulus ≤ pos + lineLen + 2 + size + 2) :
    decodeChunked t buf maxBody = .panic := by
  have hstop : ChunkStop t buf maxBody (wrappedChunk t buf (pos + lineLen + 2) size) :=
    .overflow hchunks hline hne hword hover
  rw [(decodeChunked_eq_iff hbuf).mpr hstop, wrappedChunk, hchecked]
  rfl

theorem parseWith_returns (hbuf : Addressable t buf) (hfit : SizesFit t.width buf maxBody) :
    (parseWith t buf maxBody).Returns := by
  have hstop := parseStop_parseWith hbuf maxBody
  generalize parseWith t buf maxBody = r at hstop
  rcases hstop with _ | _ | _ | _ | @⟨i, h, len, hh, hf, hle, hexceeds⟩ | @⟨i, h, r, hh, hf, hr⟩
  · trivial
  · trivial
  · trivial
  · trivial
  · -- the body length does not fit after the head
    have hlt := hfit.length i h len hh.build hf hle
    exact absurd hexceeds (Nat.not_le_of_lt hlt)
  · have hreturns := (chunkStop_decodeChunked (hbuf.drop (i + 4)).length_lt).returns
      fun pos body lineLen size => hfit.chunk i h pos body lineLen size hh.build hf
    rw [hr]
    revert hreturns
    cases decodeChunked t (buf.drop (i + 4)) maxBody with
    | ok o => exact id
    | err e => exact id
    | panic => exact id
    | diverge => exact id

/-- The loops of the parser always end, if only in a panic. -/
theorem parseWith_ne_diverge (hbuf : Addressable t buf) : parseWith t buf maxBody ≠ .diverge := by
  intro hdiv
  have hstop := parseStop_parseWith hbuf maxBody
  rw [hdiv] at hstop
  rcases hstop with _ | _ | _ | _ | _ | @⟨i, h, r, _, _, hr⟩
  have hchunks : ChunkStop t (buf.drop (i + 4)) maxBody _ :=
    chunkStop_decodeChunked (hbuf.drop (i + 4)).length_lt
  have hne := hchunks.ne_diverge
  revert hr hne
  cases decodeChunked t (buf.drop (i + 4)) maxBody with
  | ok o => intro hr; cases hr
  | err e => intro hr; cases hr
  | panic => intro hr; cases hr
  | diverge => exact fun _ hne => hne rfl

/-- The parser returns, with no addition overflowing, exactly when every size it
comes to fits in a word after its position. -/
theorem parseWith_returns_iff (hbuf : Addressable ⟨w, false⟩ buf) :
    (∀ checked, (parseWith ⟨w, checked⟩ buf maxBody).Returns) ↔ SizesFit w buf maxBody := by
  constructor
  · intro hret
    have hchecked := hret true
    have hbuf' : Addressable ⟨w, true⟩ buf := hbuf
    constructor
    · intro i h len hh hf hle
      by_contra hover
      have hh' : HeadAt ⟨w, true⟩ buf i h := hh.build
      have hlt : buf.length < (⟨w, true⟩ : Target).modulus := by
        have hlt := hbuf'.length_lt
        omega
      rw [parseWith_head hbuf' hh', parseBody_fixed_overflow hf hle (hh'.len_lt hf) hh'.end_le
        hlt (Nat.le_of_not_lt hover)] at hchecked
      exact hchecked
    · intro i h pos body lineLen size hh hf hchunks hline hne hword
      by_contra hover
      rw [parseWith_head hbuf' hh.build, parseBody_chunked hbuf' hf hh.end_le,
        decodeChunked_overflow (hbuf'.drop (i + 4)).length_lt rfl hchunks hline hne hword
          (Nat.le_of_not_lt hover)] at hchecked
      exact hchecked
  · intro hfit checked
    exact parseWith_returns hbuf hfit

/-- A chunk size two short of the word limit: the sum with its position wraps to
the size line's own CRLF, in front of the data. -/
def wrappingChunk : Bytes :=
  utf8 "POST / HTTP/1.1\r\nHost: h\r\nTransfer-Encoding: chunked\r\n\r\nfffffffffffffffe\r\n"

set_option maxRecDepth 10000 in
/-- On this input a release build takes the slice of a negative range. -/
theorem wrappingChunk_panics :
    Addressable ⟨.w64, false⟩ wrappingChunk ∧
      ¬ (parseWith ⟨.w64, false⟩ wrappingChunk maxBodyBytes).Returns := by
  decide +kernel

/-- A request with a body that has not arrived yet. -/
def shortPost : Bytes := utf8 "POST / HTTP/1.1\r\nHost: h\r\nContent-Length: 3\r\n\r\n"

set_option maxRecDepth 10000 in
theorem shortPost_returns_iff :
    (∀ checked, (parseWith ⟨.w64, checked⟩ shortPost maxBodyBytes).Returns) ↔
      SizesFit .w64 shortPost maxBodyBytes :=
  parseWith_returns_iff (by decide +kernel)

end Safety

end FerroHttp
