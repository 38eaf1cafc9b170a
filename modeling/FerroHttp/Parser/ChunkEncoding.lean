import FerroHttp.Parser.Soundness

/-!
# Parser.ChunkEncoding — chunked decoding undoes chunked encoding

A `ChunkedMessage` is what a sender chooses: the chunks, how each size is spelled, the
extensions, the trailer lines. It is encoded as a list of pieces, each with its CRLF.

1. `chunks_walk`, `trailers_walk`: the loops read the pieces one by one, whatever the
   data looks like;
2. `partial_of_open`: a framing line that has not ended is waited for, up to the limit;
3. `decodeChunked_encode`: so the decoder gives back the data and the length of the
   encoding, whatever follows it, and on the beginning of an encoding it waits.
-/

namespace FerroHttp

open Exec Text Search

/-! ## Sizes -/

/-- The byte is a hexadecimal digit for `d`, in lower or in upper case. -/
def IsHexByte (b : UInt8) (d : Nat) : Prop :=
  d < 16 ∧ (b = (Nat.digitChar d).toUInt8 ∨ b = (Nat.digitChar d).toUpper.toUInt8)

/-- The bytes spell `n` in hexadecimal, with any number of leading zeros. -/
structure HexSpelling (digits : Bytes) (n : Nat) : Prop where
  nonempty : digits ≠ []
  value : ∃ ds, List.Forall₂ IsHexByte digits ds ∧ Numeral.value 16 ds = n

theorem hexDigit_digitChar : ∀ d < 16, hexDigit (Nat.digitChar d).toUInt8 = some d ∧
    hexDigit (Nat.digitChar d).toUpper.toUInt8 = some d := by
  decide

theorem IsHexByte.hexDigit_eq {b : UInt8} {d : Nat} (h : IsHexByte b d) : hexDigit b = some d := by
  rcases h with ⟨hlt, rfl | rfl⟩
  · exact (hexDigit_digitChar d hlt).1
  · exact (hexDigit_digitChar d hlt).2

namespace HexSpelling

variable {digits : Bytes} {n : Nat}

theorem hexValue_eq (h : HexSpelling digits n) : hexValue digits = some n := by
  rcases h with ⟨hne, ds, hds, rfl⟩
  have hmap : digits.mapM hexDigit = some ds := by
    clear hne
    induction hds with
    | nil => rfl
    | cons hd _ ih =>
      rw [List.mapM_cons, hd.hexDigit_eq, ih]
      rfl
  rw [hexValue, if_neg hne, hmap, Option.map_some]

end HexSpelling

/-- What is not a digit does not occur in a spelling. -/
theorem not_mem_of_digits {digits : Bytes} {ds : List Nat} (h : List.Forall₂ IsHexByte digits ds)
    {c : UInt8} (hc : hexDigit c = none) : c ∉ digits := by
  intro hmem
  induction h with
  | nil => cases hmem
  | cons hd _ ih =>
    rcases List.mem_cons.mp hmem with rfl | hmem
    · rw [hd.hexDigit_eq] at hc
      cases hc
    · exact ih hmem

/-! ## Messages -/

/-- A size line for `n`: the digits, then nothing or a semicolon and an extension. -/
structure SizeText (n : Nat) where
  digits : Bytes
  extension : Bytes
  spelling : HexSpelling digits n
  shape : extension = [] ∨ extension.head? = some semicolon
  noCr : cr ∉ extension

/-- A chunk, with the size line chosen for it. -/
structure Chunk where
  data : Bytes
  size : SizeText data.length
  nonempty : data ≠ []

/-- A chunked message, as a sender spells it. -/
structure ChunkedMessage where
  chunks : List Chunk
  last : SizeText 0
  trailers : List Bytes
  trailers_ok : ∀ l ∈ trailers, l ≠ [] ∧ cr ∉ l

/-- A piece of the encoding: a framing line, or the data of a chunk. -/
inductive Piece where
  | line (l : Bytes)
  | data (d : Bytes)

namespace Piece

/-- A piece with its CRLF. -/
def bytes : Piece → Bytes
  | line l => l ++ crlf
  | data d => d ++ crlf

/-- The part of a framing line that has arrived. -/
def opened : Piece → Bytes → Option Bytes
  | line _, p => some p
  | data _, _ => none

end Piece

def encodePieces (pieces : List Piece) : Bytes := pieces.flatMap Piece.bytes

/-- The framing line that the beginning `p` of an encoding leaves open. -/
def openLine : List Piece → Bytes → Option Bytes
  | [], _ => none
  | piece :: rest, p =>
    if p.length < piece.bytes.length then piece.opened p
    else openLine rest (p.drop piece.bytes.length)

namespace SizeText

def text {n : Nat} (s : SizeText n) : Bytes := s.digits ++ s.extension

end SizeText

def Chunk.pieces (c : Chunk) : List Piece := [.line c.size.text, .data c.data]

namespace ChunkedMessage

/-- The trailer lines and the blank line. -/
def trailerPieces (m : ChunkedMessage) : List Piece := m.trailers.map .line ++ [.line []]

def pieces (m : ChunkedMessage) : List Piece :=
  m.chunks.flatMap Chunk.pieces ++ (.line m.last.text :: m.trailerPieces)

def encode (m : ChunkedMessage) : Bytes := encodePieces m.pieces

/-- What the message carries. -/
def body (m : ChunkedMessage) : Bytes := m.chunks.flatMap Chunk.data

end ChunkedMessage

/-! ## Lines -/

section Lines

variable {t : Target} {buf p q : Bytes} {maxBody pos n : Nat} {body : Bytes}

theorem SizeText.text_ok (s : SizeText n) : cr ∉ s.text ∧ sizeToken s.text = s.digits := by
  rcases s.spelling.value with ⟨ds, hds, _⟩
  have hcr : cr ∉ s.digits := not_mem_of_digits hds (by decide)
  have hsemi : semicolon ∉ s.digits := not_mem_of_digits hds (by decide)
  constructor
  · rw [text, List.mem_append, not_or]
    exact ⟨hcr, s.noCr⟩
  · rw [text, sizeToken_append_of_not_mem hsemi]
    rcases s.shape with hempty | hhead
    · rw [hempty]
      simp [sizeToken]
    · rcases hext : s.extension with _ | ⟨b, rest⟩
      · simp [sizeToken]
      · rw [hext, List.head?_cons, Option.some.injEq] at hhead
        rw [hhead, sizeToken, List.findIdx?_cons, if_pos BEq.rfl]
        simp

/-- A size line is read where it stands. -/
theorem SizeText.sizeLine (s : SizeText n) {rest : Bytes}
    (h : buf.drop pos = s.text ++ crlf ++ rest) : SizeLine buf pos s.text.length n := by
  rcases s.text_ok with ⟨hcr, htoken⟩
  constructor
  · rw [h]
    exact FirstAt.of_not_mem hcr
  · rw [h, List.append_assoc, List.take_left, htoken, s.spelling.hexValue_eq]

/-- The beginning of a line does not contain its CRLF. -/
theorem not_crlf_infix_of_open {l : Bytes} (hcr : cr ∉ l) (hpre : q <+: l ++ crlf)
    (hlt : q.length < (l ++ crlf).length) : ¬ crlf <:+: q := by
  intro hin
  rcases exists_firstAt_iff.mpr hin with ⟨i, hi⟩
  rcases hpre with ⟨rest, hrest⟩
  have hend := hi.end_le crlf_ne_nil
  have hfirst : FirstAt crlf (q ++ rest) i := hi.append crlf_ne_nil
  have hline : FirstAt crlf (l ++ crlf) l.length :=
    firstAt_append_crlf (not_crlf_infix_of_not_mem hcr)
  rw [hrest] at hfirst
  have hsame := hfirst.unique hline
  rw [List.length_append, length_crlf] at hlt
  rw [length_crlf] at hend
  omega

end Lines

/-! ## Prefixes -/

section Prefixes

variable {α β : Type}

/-- A prefix ends inside the first part, or has all of it. -/
theorem prefix_append_cases {a b q : List α} (h : q <+: a ++ b) :
    (q <+: a ∧ q.length < a.length) ∨ ∃ r, q = a ++ r ∧ r <+: b := by
  by_cases hlt : q.length < a.length
  · exact .inl ⟨List.prefix_of_prefix_length_le h (List.prefix_append a b) (by omega), hlt⟩
  · right
    rcases List.prefix_of_prefix_length_le (List.prefix_append a b) h (by omega) with ⟨r, rfl⟩
    exact ⟨r, rfl, (List.prefix_append_right_inj a).mp h⟩

/-- A prefix of encoded items ends inside one of them, or has all of them. -/
theorem prefix_flatMap_cases {f : α → List β} {l : List α} {b q : List β}
    (h : q <+: l.flatMap f ++ b) :
    (∃ before x after r, l = before ++ x :: after ∧ q = before.flatMap f ++ r ∧ r <+: f x ∧
      r.length < (f x).length) ∨ ∃ r, q = l.flatMap f ++ r ∧ r <+: b := by
  induction l generalizing q with
  | nil => exact .inr ⟨q, rfl, h⟩
  | cons x xs ih =>
    rw [List.flatMap_cons, List.append_assoc] at h
    rcases prefix_append_cases h with ⟨hpre, hlt⟩ | ⟨r, rfl, hr⟩
    · exact .inl ⟨[], x, xs, q, rfl, rfl, hpre, hlt⟩
    · rcases ih hr with ⟨before, y, after, s, rfl, rfl, hs⟩ | ⟨s, rfl, hs⟩
      · exact .inl ⟨x :: before, y, after, s, rfl, by simp, hs⟩
      · exact .inr ⟨s, by simp, hs⟩

end Prefixes

/-- Complete pieces leave no line open. -/
theorem openLine_append (ps qs : List Piece) (q : Bytes) :
    openLine (ps ++ qs) (encodePieces ps ++ q) = openLine qs q := by
  induction ps with
  | nil => rfl
  | cons piece rest ih =>
    have hbytes : encodePieces (piece :: rest) ++ q = piece.bytes ++ (encodePieces rest ++ q) := by
      simp [encodePieces]
    rw [hbytes, List.cons_append, openLine, if_neg (by simp), List.drop_left, ih]

theorem openLine_line {l q : Bytes} (qs : List Piece) (h : q.length < (l ++ crlf).length) :
    openLine (.line l :: qs) q = some q := by
  have hbytes : (Piece.line l).bytes = l ++ crlf := rfl
  rw [openLine, hbytes, if_pos h]
  rfl

/-! ## Pieces in a row -/

section Walk

variable {t : Target} {buf pre rest : Bytes} {maxBody : Nat} {body : Bytes}

/-- A chunk as it is sent. -/
def Chunk.bytes (c : Chunk) : Bytes := c.size.text ++ crlf ++ (c.data ++ crlf)

theorem length_bytes (c : Chunk) : c.bytes.length = c.size.text.length + 2 + c.data.length + 2 := by
  simp only [Chunk.bytes, List.length_append, length_crlf]
  omega

theorem encode_chunks (chunks : List Chunk) :
    encodePieces (chunks.flatMap Chunk.pieces) = chunks.flatMap Chunk.bytes := by
  induction chunks with
  | nil => rfl
  | cons c cs ih =>
    rw [List.flatMap_cons, List.flatMap_cons, ← ih]
    simp [encodePieces, Chunk.pieces, Chunk.bytes, Piece.bytes]

/-- One more chunk is read, or is one too many. -/
theorem chunk_walk (c : Chunk) (hbuf : buf = pre ++ (c.bytes ++ rest))
    (chunks : Chunks buf maxBody pre.length body) :
    (body.length + c.data.length ≤ maxBody ∧
      Chunks buf maxBody (pre ++ c.bytes).length (body ++ c.data)) ∨
    (maxBody < body.length + c.data.length ∧ ChunkStop t buf maxBody (.err .bodyTooLarge)) := by
  have hline : SizeLine buf pre.length c.size.text.length c.data.length := by
    have hfront : buf.drop pre.length = c.size.text ++ crlf ++ (c.data ++ crlf ++ rest) := by
      rw [hbuf, List.drop_left, Chunk.bytes]
      simp only [List.append_assoc]
    exact c.size.sizeLine hfront
  have hnonzero : c.data.length ≠ 0 := by
    rw [ne_eq, List.length_eq_zero_iff]
    exact c.nonempty
  have hdata : buf.drop (pre.length + c.size.text.length + 2) = c.data ++ crlf ++ rest := by
    have hcut : buf = (pre ++ c.size.text ++ crlf) ++ (c.data ++ crlf ++ rest) := by
      rw [hbuf, Chunk.bytes]
      simp only [List.append_assoc]
    have hlen : (pre ++ c.size.text ++ crlf).length = pre.length + c.size.text.length + 2 := by
      rw [List.length_append, List.length_append, length_crlf]
    rw [← hlen, hcut, List.drop_left]
  have hterm : crlf <+: buf.drop (pre.length + c.size.text.length + 2 + c.data.length) := by
    rw [← List.drop_drop, hdata, List.append_assoc, List.drop_left]
    exact List.prefix_append _ _
  by_cases hlimit : body.length + c.data.length ≤ maxBody
  · left
    refine ⟨hlimit, ?_⟩
    have hnext := Chunks.chunk chunks hline hnonzero hterm hlimit
    rw [hdata, List.append_assoc, List.take_left] at hnext
    rw [List.length_append, length_bytes]
    simpa only [Nat.add_assoc] using hnext
  · right
    exact ⟨by omega, .tooLarge chunks hline hnonzero hterm (by omega)⟩

/-- Chunks are read one by one, until there are too many of them. -/
theorem chunks_walk (cs : List Chunk) (hbuf : buf = pre ++ (cs.flatMap Chunk.bytes ++ rest))
    (chunks : Chunks buf maxBody pre.length body) :
    (body.length + (cs.flatMap Chunk.data).length ≤ maxBody ∧
      Chunks buf maxBody (pre ++ cs.flatMap Chunk.bytes).length (body ++ cs.flatMap Chunk.data)) ∨
    (maxBody < body.length + (cs.flatMap Chunk.data).length ∧
      ChunkStop t buf maxBody (.err .bodyTooLarge)) := by
  induction cs generalizing pre body with
  | nil =>
    have hle := chunks.length_le
    left
    simp only [List.flatMap_nil, List.append_nil, List.length_nil]
    exact ⟨by omega, chunks⟩
  | cons c cs ih =>
    rw [List.flatMap_cons, List.append_assoc] at hbuf
    have hsum : (c.data ++ cs.flatMap Chunk.data).length =
        c.data.length + (cs.flatMap Chunk.data).length := List.length_append
    rw [List.flatMap_cons, List.flatMap_cons, hsum]
    rcases @chunk_walk t _ _ _ _ _ c hbuf chunks with ⟨_, hnext⟩ | ⟨hlimit, hstop⟩
    · have hcut : buf = (pre ++ c.bytes) ++ (cs.flatMap Chunk.bytes ++ rest) := by
        rw [hbuf]
        simp only [List.append_assoc]
      rcases ih hcut hnext with ⟨hle, hall⟩ | ⟨hlt, hstop⟩
      · rw [List.length_append] at hle
        rw [← List.append_assoc, ← List.append_assoc]
        exact .inl ⟨by omega, hall⟩
      · rw [List.length_append] at hlt
        exact .inr ⟨by omega, hstop⟩
    · exact .inr ⟨by omega, hstop⟩

/-- So are trailer lines. -/
theorem trailers_walk {start tpos : Nat} (lines : List Bytes) (hok : ∀ l ∈ lines, l ≠ [] ∧ cr ∉ l)
    (hbuf : buf.drop tpos = crlfLines lines ++ rest) (trailers : Trailers buf start tpos) :
    Trailers buf start (tpos + (crlfLines lines).length) := by
  induction lines generalizing tpos with
  | nil => simpa [crlfLines] using trailers
  | cons l ls ih =>
    have hcons : crlfLines (l :: ls) = l ++ crlf ++ crlfLines ls := by simp [crlfLines]
    have hlen : (l ++ crlf).length = l.length + 2 := by rw [List.length_append, length_crlf]
    rw [hcons, List.append_assoc] at hbuf
    have hfirst : FirstAt crlf (buf.drop tpos) l.length := by
      rw [hbuf]
      exact FirstAt.of_not_mem (hok l List.mem_cons_self).2
    have hnonempty : l.length ≠ 0 := by
      rw [ne_eq, List.length_eq_zero_iff]
      exact (hok l List.mem_cons_self).1
    have hrest : buf.drop (tpos + (l.length + 2)) = crlfLines ls ++ rest := by
      rw [← List.drop_drop, hbuf, ← hlen, List.drop_left]
    have hnext := ih (fun x hx => hok x (List.mem_cons_of_mem _ hx)) hrest
      (.line trailers hfirst hnonempty)
    rw [hcons, List.length_append, hlen]
    simpa only [Nat.add_assoc] using hnext

end Walk

/-! ## The round trip -/

section RoundTrip

variable {t : Target} {p q : Bytes} {maxBody : Nat} {body : Bytes}

namespace ChunkedMessage

/-- The last size line, the trailer lines and the blank line. -/
def tail (m : ChunkedMessage) : Bytes := m.last.text ++ crlf ++ (crlfLines m.trailers ++ crlf)

theorem encode_trailerPieces (m : ChunkedMessage) :
    encodePieces m.trailerPieces = crlfLines m.trailers ++ crlf := by
  rw [encodePieces, trailerPieces, List.flatMap_append, List.flatMap_map]
  rfl

theorem encode_eq (m : ChunkedMessage) : m.encode = m.chunks.flatMap Chunk.bytes ++ m.tail := by
  have happend : m.encode = encodePieces (m.chunks.flatMap Chunk.pieces) ++
      (m.last.text ++ crlf ++ encodePieces m.trailerPieces) := by
    simp [encode, pieces, encodePieces, Piece.bytes]
  rw [happend, encode_chunks, encode_trailerPieces]
  rfl

end ChunkedMessage

/-- A size line that has not ended is waited for. -/
theorem partial_of_open {pre l : Bytes} (hp : p = pre ++ q)
    (chunks : Chunks p maxBody pre.length body) (hcr : cr ∉ l) (hpre : q <+: l ++ crlf)
    (hlt : q.length < (l ++ crlf).length) (hshort : q.length ≤ maxChunkLineBytes) :
    ChunkStop t p maxBody (.ok .partialBody) := by
  have hdrop : p.drop pre.length = q := by rw [hp, List.drop_left]
  have hlen : p.length = pre.length + q.length := by rw [hp, List.length_append]
  refine .needLine chunks ?_ (by omega)
  rw [hdrop]
  exact not_crlf_infix_of_open hcr hpre hlt

/-- A trailer line that has not ended is waited for. -/
theorem partial_of_openTrailer {start : Nat} {pre l : Bytes} (hp : p = pre ++ q)
    (trailers : Trailers p start pre.length) (hcr : cr ∉ l) (hpre : q <+: l ++ crlf)
    (hlt : q.length < (l ++ crlf).length) (hshort : q.length ≤ maxChunkLineBytes) :
    TrailerStop p body start (.ok .partialBody) := by
  have hdrop : p.drop pre.length = q := by rw [hp, List.drop_left]
  have hlen : p.length = pre.length + q.length := by rw [hp, List.length_append]
  refine .needLine trailers ?_ (by omega)
  rw [hdrop]
  exact not_crlf_infix_of_open hcr hpre hlt

/-- The whole encoding is read, up to its end. -/
theorem complete_of_encode (m : ChunkedMessage) (suffix : Bytes) :
    (m.body.length ≤ maxBody ∧
      ChunkStop t (m.encode ++ suffix) maxBody (.ok (.complete m.body m.encode.length))) ∨
    (maxBody < m.body.length ∧
      ChunkStop t (m.encode ++ suffix) maxBody (.err .bodyTooLarge)) := by
  have hbuf : m.encode ++ suffix =
      [] ++ (m.chunks.flatMap Chunk.bytes ++ (m.tail ++ suffix)) := by
    rw [m.encode_eq, List.nil_append, List.append_assoc]
  rcases @chunks_walk t _ _ _ maxBody _ m.chunks hbuf .start with ⟨hle, chunks⟩ | ⟨hlt, hstop⟩
  · rw [List.nil_append] at chunks
    simp only [List.length_nil, Nat.zero_add] at hle
    have htail : (m.encode ++ suffix).drop (m.chunks.flatMap Chunk.bytes).length =
        m.last.text ++ crlf ++ (crlfLines m.trailers ++ (crlf ++ suffix)) := by
      rw [hbuf, List.nil_append, List.drop_left, ChunkedMessage.tail]
      simp only [List.append_assoc]
    have hline := m.last.sizeLine htail
    have hstart : (m.encode ++ suffix).drop
        ((m.chunks.flatMap Chunk.bytes).length + m.last.text.length + 2) =
          crlfLines m.trailers ++ (crlf ++ suffix) := by
      have hlen : (m.last.text ++ crlf).length = m.last.text.length + 2 := by
        rw [List.length_append, length_crlf]
      rw [Nat.add_assoc, ← hlen, ← List.drop_drop, htail, List.drop_left]
    have htrailers := trailers_walk m.trailers m.trailers_ok hstart .start
    have hblank : crlf <+: (m.encode ++ suffix).drop
        ((m.chunks.flatMap Chunk.bytes).length + m.last.text.length + 2 +
          (crlfLines m.trailers).length) := by
      rw [← List.drop_drop, hstart, List.drop_left]
      exact List.prefix_append _ _
    have hend : m.encode.length = (m.chunks.flatMap Chunk.bytes).length + m.last.text.length + 2 +
        (crlfLines m.trailers).length + 2 := by
      rw [m.encode_eq, ChunkedMessage.tail]
      simp only [List.length_append, length_crlf]
      omega
    rw [hend]
    exact .inl ⟨hle, .last chunks hline (.blank htrailers hblank)⟩
  · simp only [List.length_nil, Nat.zero_add] at hlt
    exact .inr ⟨hlt, hstop⟩

/-- Inside a chunk, the decoder waits for the size line or for the data. -/
theorem partial_in_chunk {pre : Bytes} {qs : List Piece} (c : Chunk) (hp : p = pre ++ q)
    (chunks : Chunks p maxBody pre.length body) (hpre : q <+: c.bytes)
    (hlt : q.length < c.bytes.length) (hword : pre.length + c.bytes.length < t.modulus)
    (hshort : ∀ w, openLine (c.pieces ++ qs) q = some w → w.length ≤ maxChunkLineBytes) :
    ChunkStop t p maxBody (.ok .partialBody) := by
  rw [length_bytes] at hlt hword
  rcases prefix_append_cases hpre with ⟨hline, hopen⟩ | ⟨r, rfl, _⟩
  · exact partial_of_open hp chunks c.size.text_ok.1 hline hopen
      (hshort q (openLine_line _ hopen))
  · have hsize : SizeLine p pre.length c.size.text.length c.data.length := by
      have hfront : p.drop pre.length = c.size.text ++ crlf ++ r := by rw [hp, List.drop_left]
      exact c.size.sizeLine hfront
    have hnonzero : c.data.length ≠ 0 := by
      rw [ne_eq, List.length_eq_zero_iff]
      exact c.nonempty
    refine .needData chunks hsize hnonzero (by omega) ?_
    rw [hp]
    simp only [List.length_append, length_crlf] at hlt ⊢
    omega

theorem encodePieces_lines (lines : List Bytes) : encodePieces (lines.map .line) = crlfLines lines := by
  rw [encodePieces, List.flatMap_map]
  rfl

/-- Behind whole trailers, the decoder waits for the end of the next line, which is the
blank line if there are none left. -/
theorem partial_in_line {start : Nat} {pre l r : Bytes} {m : ChunkedMessage} (before : List Bytes)
    (rest : List Piece) (hpieces : m.trailerPieces = before.map .line ++ (.line l :: rest))
    (hok : ∀ x ∈ before, x ≠ [] ∧ cr ∉ x) (hcr : cr ∉ l) (hp : p = pre ++ (crlfLines before ++ r))
    (hstart : start = pre.length) (hpre : r <+: l ++ crlf) (hopen : r.length < (l ++ crlf).length)
    (hshort : ∀ w, openLine m.trailerPieces (crlfLines before ++ r) = some w →
      w.length ≤ maxChunkLineBytes) : TrailerStop p body start (.ok .partialBody) := by
  have hdrop : p.drop start = crlfLines before ++ r := by rw [hp, hstart, List.drop_left]
  have htrailers : Trailers p start (pre ++ crlfLines before).length := by
    rw [List.length_append, ← hstart]
    exact trailers_walk before hok hdrop .start
  have hline : openLine m.trailerPieces (crlfLines before ++ r) = some r := by
    rw [hpieces, ← encodePieces_lines, openLine_append, openLine_line _ hopen]
  have hcut : p = (pre ++ crlfLines before) ++ r := by rw [hp, List.append_assoc]
  exact partial_of_openTrailer hcut htrailers hcr hpre hopen (hshort r hline)

/-- After the last size line, the decoder waits for a trailer line or the blank line. -/
theorem partial_in_trailers {start : Nat} {pre : Bytes} (m : ChunkedMessage) (hp : p = pre ++ q)
    (hstart : start = pre.length) (hpre : q <+: crlfLines m.trailers ++ crlf)
    (hlt : q.length < (crlfLines m.trailers ++ crlf).length)
    (hshort : ∀ w, openLine m.trailerPieces q = some w → w.length ≤ maxChunkLineBytes) :
    TrailerStop p body start (.ok .partialBody) := by
  rcases prefix_flatMap_cases hpre with ⟨before, l, after, r, hl, rfl, hr, hopen⟩ | ⟨r, rfl, hr⟩
  · have hok : ∀ x ∈ before, x ≠ [] ∧ cr ∉ x := by
      intro x hx
      exact m.trailers_ok x (by rw [hl]; exact List.mem_append_left _ hx)
    have hlast : cr ∉ l := (m.trailers_ok l (by rw [hl]; simp)).2
    have hpieces : m.trailerPieces =
        before.map .line ++ (.line l :: (after.map .line ++ [.line []])) := by
      simp [ChunkedMessage.trailerPieces, hl]
    exact partial_in_line before _ hpieces hok hlast hp hstart hr hopen hshort
  · have hopen : r.length < ([] ++ crlf : Bytes).length := by
      simp only [crlfLines, List.length_append] at hlt ⊢
      omega
    exact partial_in_line m.trailers [] rfl m.trailers_ok List.not_mem_nil hp hstart hr hopen hshort

/-- After the chunks, the decoder waits for the last size line, or in the trailers. -/
theorem partial_in_tail {pre : Bytes} (m : ChunkedMessage) (hp : p = pre ++ q)
    (chunks : Chunks p maxBody pre.length body) (hpre : q <+: m.tail) (hlt : q.length < m.tail.length)
    (hshort : ∀ w, openLine (.line m.last.text :: m.trailerPieces) q = some w →
      w.length ≤ maxChunkLineBytes) : ChunkStop t p maxBody (.ok .partialBody) := by
  rcases prefix_append_cases hpre with ⟨hline, hopen⟩ | ⟨w, rfl, hw⟩
  · exact partial_of_open hp chunks m.last.text_ok.1 hline hopen (hshort q (openLine_line _ hopen))
  · have hdrop : p.drop pre.length = m.last.text ++ crlf ++ w := by rw [hp, List.drop_left]
    have hcut : p = (pre ++ (m.last.text ++ crlf)) ++ w := by
      rw [hp]
      simp only [List.append_assoc]
    refine .last chunks (m.last.sizeLine hdrop) (partial_in_trailers m hcut ?_ hw ?_ ?_)
    · simp only [List.length_append, length_crlf]
      omega
    · simp only [ChunkedMessage.tail, List.length_append] at hlt ⊢
      omega
    · intro v hv
      refine hshort v ?_
      have hpiece : (Piece.line m.last.text).bytes = m.last.text ++ crlf := rfl
      have hlong : ¬ (m.last.text ++ crlf ++ w).length < (m.last.text ++ crlf).length := by
        rw [List.length_append]
        omega
      rw [openLine, hpiece, if_neg hlong, List.drop_left]
      exact hv

/-- On the beginning of an encoding the decoder waits, or has seen too much already. -/
theorem partial_of_prefix (m : ChunkedMessage) (hword : m.encode.length < t.modulus)
    (hpre : p <+: m.encode) (hne : p ≠ m.encode)
    (hshort : ∀ w, openLine m.pieces p = some w → w.length ≤ maxChunkLineBytes) :
    ChunkStop t p maxBody (.ok .partialBody) ∨ ChunkStop t p maxBody (.err .bodyTooLarge) := by
  have hlt : p.length < m.encode.length := by
    have hle := hpre.length_le
    have hlen : p.length ≠ m.encode.length := fun h => hne (hpre.eq_of_length h)
    omega
  rw [m.encode_eq] at hpre hlt hword
  rw [List.length_append] at hlt hword
  rcases prefix_flatMap_cases hpre with ⟨before, c, after, r, hc, rfl, hr, hopen⟩ | ⟨r, rfl, hr⟩
  · -- inside a chunk
    rcases @chunks_walk t _ _ r maxBody _ before (List.nil_append _).symm .start with
      ⟨_, chunks⟩ | ⟨_, hstop⟩
    · left
      rw [List.nil_append] at chunks
      have hpieces : m.pieces = before.flatMap Chunk.pieces ++
          (c.pieces ++ (after.flatMap Chunk.pieces ++ (.line m.last.text :: m.trailerPieces))) := by
        simp [ChunkedMessage.pieces, hc]
      refine @partial_in_chunk t _ r maxBody _ _ (after.flatMap Chunk.pieces ++
        (.line m.last.text :: m.trailerPieces)) c rfl chunks hr hopen ?_ ?_
      · have hsum := congrArg (fun l : List Chunk => (l.flatMap Chunk.bytes).length) hc
        simp only [List.flatMap_append, List.flatMap_cons, List.length_append] at hsum
        omega
      · intro w hw
        refine hshort w ?_
        rw [hpieces, ← encode_chunks, openLine_append]
        exact hw
    · exact .inr hstop
  · -- after the chunks
    rcases @chunks_walk t _ _ r maxBody _ m.chunks (List.nil_append _).symm .start with
      ⟨_, chunks⟩ | ⟨_, hstop⟩
    · left
      rw [List.nil_append] at chunks
      have hopened : openLine m.pieces (m.chunks.flatMap Chunk.bytes ++ r) =
          openLine (.line m.last.text :: m.trailerPieces) r := by
        rw [ChunkedMessage.pieces, ← encode_chunks, openLine_append]
      rw [hopened] at hshort
      refine partial_in_tail m rfl chunks hr ?_ hshort
      rw [List.length_append] at hlt
      omega
    · exact .inr hstop

/-- Decoding undoes encoding: on an encoding, whatever follows it, the decoder gives
back the data and the length of the encoding, or refuses what is too large; on the
beginning of one whose open line is not too long it waits, or has seen too much. -/
theorem decodeChunked_encode (m : ChunkedMessage) (suffix : Bytes) (maxBody : Nat)
    (hbuf : Addressable t (m.encode ++ suffix)) :
    decodeChunked t (m.encode ++ suffix) maxBody =
        (if m.body.length ≤ maxBody then .ok (.complete m.body m.encode.length)
        else .err .bodyTooLarge) ∧
      ∀ p, p <+: m.encode → p ≠ m.encode →
        (∀ w, openLine m.pieces p = some w → w.length ≤ maxChunkLineBytes) →
        decodeChunked t p maxBody = .ok .partialBody ∨
          decodeChunked t p maxBody = .err .bodyTooLarge := by
  have hword := hbuf.length_lt
  constructor
  · rw [decodeChunked_eq_iff hword]
    rcases @complete_of_encode t maxBody m suffix with ⟨hle, hstop⟩ | ⟨hlt, hstop⟩
    · rw [if_pos hle]
      exact hstop
    · rw [if_neg (by omega)]
      exact hstop
  · intro p hpre hne hshort
    rw [List.length_append] at hword
    have hp : p.length + 1 < t.modulus := by
      have hle := hpre.length_le
      omega
    rw [decodeChunked_eq_iff hp, decodeChunked_eq_iff hp]
    exact partial_of_prefix m (by omega) hpre hne hshort

theorem spells_0A : HexSpelling (utf8 "0A") 10 :=
  ⟨by decide, [0, 10], .cons ⟨by decide, .inl rfl⟩ (.cons ⟨by decide, .inr rfl⟩ .nil), rfl⟩

theorem spells_00 : HexSpelling (utf8 "00") 0 :=
  ⟨by decide, [0, 0], .cons ⟨by decide, .inl rfl⟩ (.cons ⟨by decide, .inl rfl⟩ .nil), rfl⟩

/-- Ten bytes that look like chunks, in one chunk with an extension, and a trailer line. -/
def crlfMessage : ChunkedMessage where
  chunks := [⟨utf8 "5\r\n0\r\n\r\nab", ⟨utf8 "0A", utf8 ";x", spells_0A, by decide,
    by decide⟩, by decide⟩]
  last := ⟨utf8 "00", [], spells_00, by decide, by decide⟩
  trailers := [utf8 "T: 1"]
  trailers_ok := by decide

theorem decodeChunked_crlfMessage :
    decodeChunked ⟨.w64, false⟩ (crlfMessage.encode ++ utf8 "GET") 10 =
        (if crlfMessage.body.length ≤ 10 then
          .ok (.complete crlfMessage.body crlfMessage.encode.length) else .err .bodyTooLarge) ∧
      ∀ p, p <+: crlfMessage.encode → p ≠ crlfMessage.encode →
        (∀ w, openLine crlfMessage.pieces p = some w → w.length ≤ maxChunkLineBytes) →
        decodeChunked ⟨.w64, false⟩ p 10 = .ok .partialBody ∨
          decodeChunked ⟨.w64, false⟩ p 10 = .err .bodyTooLarge :=
  decodeChunked_encode crlfMessage (utf8 "GET") 10 (by decide)

end RoundTrip

end FerroHttp
