import Mathlib.Data.List.Forall2
import FerroHttp.Parser.Verdict

/-!
# Parser.Framing — which field values frame a body

The header parser strips SP and HTAB around a field value; the framing code then
strips what Unicode calls white space. `wireFields` reads the fields of a head off
the wire, `Framed` states what their values, stripped of SP and HTAB only, must be
for the request to be framed as HTTP says, and `complete_framed_iff` shows that an
accepted request is framed so exactly when the second strip removes nothing.
-/

namespace FerroHttp

open Exec Text Search

/-! ## Fields on the wire -/

/-- A header line cut at its first colon: the name, and the raw value. -/
def cutField (line : Bytes) : Bytes × Bytes :=
  match line.findIdx? (· == colon) with
  | some i => (line.take i, line.drop (i + 1))
  | none => (line, [])

/-- The fields of the head at the front of `buf`, as they are on the wire. -/
def wireFields (buf : Bytes) : List (Bytes × Bytes) :=
  match findSubslice buf (crlf ++ crlf) with
  | some i => (splitCrlf (buf.take i)).tail.map cutField
  | none => []

/-- The wire fields called `name`, whatever the case. -/
def fieldsNamed (name : String) (buf : Bytes) : List (Bytes × Bytes) :=
  (wireFields buf).filter fun f => eqIgnoreAsciiCase f.1 (utf8 name)

/-- `h` is the field `f`: the same name, and the value without SP and HTAB around it. -/
def ReadsAs (f : Bytes × Bytes) (h : Header) : Prop :=
  utf8 h.name = f.1 ∧ utf8 h.value = trimOws f.2

theorem readsAs_cutField {line : Bytes} {h : Header} (hp : parseHeaderLine line = .ok h) :
    ReadsAs (cutField line) h := by
  rcases parseHeaderLine_eq_ok_iff.mp hp with ⟨raw, hl⟩
  rw [cutField, hl.shape,
    findIdx?_beq_eq_some_iff.mpr ⟨utf8 h.name, raw, rfl, hl.colon_not_mem, rfl⟩]
  simp only [List.take_left, List.drop_length_add_append, List.drop_one, List.tail_cons]
  exact ⟨rfl, hl.value⟩

section Framing

variable {t : Target} {buf : Bytes} {maxBody i : Nat} {h : Head}

/-- The block that `parseHead` splits is the head without its blank line. -/
theorem take_take_head (hend : i + 4 ≤ buf.length) :
    (buf.take (i + 4)).take ((buf.take (i + 4)).length - 4) = buf.take i := by
  rw [List.length_take, Nat.min_eq_left hend, Nat.add_sub_cancel, List.take_take,
    Nat.min_eq_left (by omega)]

/-- The fields of an accepted head, in wire order. -/
theorem HeadAt.readsAs (hh : HeadAt t buf i h) :
    List.Forall₂ ReadsAs (wireFields buf) h.headers := by
  rcases parseHead_eq_ok_iff.mp hh.head with ⟨line, lines, hp⟩
  have hsplit := hp.split
  rw [take_take_head hh.end_le] at hsplit
  have hlines : wireFields buf = lines.map cutField := by
    rw [wireFields, (findSubslice_eq_some blankLine_ne_nil).mpr hh.blank]
    simp only [hsplit, List.tail_cons]
  rcases (parseHeaders_eq_ok_iff (Nat.zero_le _)).mp hp.headers with ⟨new, hnew, _, hall⟩
  rw [List.nil_append] at hnew
  rw [hlines, hnew]
  rw [List.forall₂_map_left_iff]
  exact hall.imp fun line g hg => readsAs_cutField hg

/-- Fields are selected by name alike on the wire and among the parsed headers. -/
theorem HeadAt.readsAs_named (hh : HeadAt t buf i h) (name : String) :
    List.Forall₂ ReadsAs (fieldsNamed name buf) (h.headers.filter (Header.named name)) := by
  refine List.rel_filter (fun f g hfg => ?_) hh.readsAs
  show eqIgnoreAsciiCase f.1 (utf8 name) = true ↔ eqIgnoreAsciiCase (utf8 g.name) (utf8 name) = true
  rw [hfg.1]

end Framing

/-! ## Framing by HTTP whitespace -/

/-- The request is framed by its fields, with only SP and HTAB around the values. -/
structure Framed (buf : Bytes) (maxBody : Nat) (r : Request) : Prop where
  exclusive : fieldsNamed "transfer-encoding" buf = [] ∨ fieldsNamed "content-length" buf = []
  chunkedOnce : (fieldsNamed "transfer-encoding" buf).length ≤ 1
  chunked : ∀ f ∈ fieldsNamed "transfer-encoding" buf,
    eqIgnoreAsciiCase (trimOws f.2) (utf8 "chunked") = true
  lengthOnce : (fieldsNamed "content-length" buf).length ≤ 1
  length : ∀ f ∈ fieldsNamed "content-length" buf,
    trimOws f.2 ≠ [] ∧ (trimOws f.2).all isAsciiDigit = true ∧ decimal (trimOws f.2) = r.body.length
  noBody : fieldsNamed "transfer-encoding" buf = [] → fieldsNamed "content-length" buf = [] →
    r.body = []
  limit : r.body.length ≤ maxBody

/-- No framing field's value, once stripped of SP and HTAB, begins or ends with a
character that Unicode calls white space. -/
def NoOtherWhitespace (buf : Bytes) : Prop :=
  ∀ f ∈ fieldsNamed "transfer-encoding" buf ++ fieldsNamed "content-length" buf,
    ∀ s, utf8 s = trimOws f.2 → trim s = s

section Whitespace

variable {t : Target} {buf : Bytes} {maxBody : Nat} {r : Request} {n : Nat}

/-- Visible ASCII is not white space. -/
theorem trim_eq_self {s : String} (h : ∀ b ∈ utf8 s, 0x20 < b.toNat ∧ b.toNat < 0x7f) :
    trim s = s := by
  have hlow : ∀ c ∈ s.toList, c.toNat < 128 := by
    apply ascii_of_utf8
    intro b hb
    have hb' := h b hb
    omega
  have henc : utf8 s = s.toList.map Char.toUInt8 := encode_of_ascii hlow
  have hclean : ∀ c ∈ s.toList, isWhitespace c = false := by
    intro c hc
    have hb := h c.toUInt8 (by rw [henc]; exact List.mem_map_of_mem hc)
    have hc' := hlow c hc
    have hnat : c.toUInt8.toNat = c.toNat := toUInt8_toNat (by omega)
    rw [hnat] at hb
    simp only [isWhitespace, Bool.or_eq_false_iff, Bool.and_eq_false_iff, beq_eq_false_iff_ne,
      decide_eq_false_iff_not]
    omega
  exact trim_of_cleanEnds
    ⟨fun c hc => hclean c (List.mem_of_mem_head? hc), fun c hc => hclean c (List.mem_of_getLast? hc)⟩

theorem visible_of_isAsciiDigit (b : UInt8) (h : isAsciiDigit b = true) :
    0x20 < b.toNat ∧ b.toNat < 0x7f := by
  revert h b
  exact forall_byte (by decide +kernel)

/-- The letters of `chunked` are visible, in any case. -/
theorem visible_of_eq_chunked {bs : Bytes} (h : eqIgnoreAsciiCase bs (utf8 "chunked") = true) :
    ∀ b ∈ bs, 0x20 < b.toNat ∧ b.toNat < 0x7f := by
  have hletter : ∀ b : UInt8, toAsciiLowercase b ∈ (utf8 "chunked").map toAsciiLowercase →
      0x20 < b.toNat ∧ b.toNat < 0x7f := forall_byte (by decide +kernel)
  intro b hb
  refine hletter b ?_
  rw [← eqIgnoreAsciiCase_iff.mp h]
  exact List.mem_map_of_mem hb

/-- Where the values of the framing fields agree with HTTP, no further white space
was stripped from them. -/
theorem Framed.noOtherWhitespace (h : Framed buf maxBody r) : NoOtherWhitespace buf := by
  intro f hf s hs
  apply trim_eq_self
  rw [hs]
  rcases List.mem_append.mp hf with hte | hcl
  · exact visible_of_eq_chunked (h.chunked f hte)
  · intro b hb
    exact visible_of_isAsciiDigit b (List.all_eq_true.mp (h.length f hcl).2.1 b hb)

/-- One field is read as one header. -/
theorem forall₂_readsAs_singleton {fields : List (Bytes × Bytes)} {g : Header}
    (h : List.Forall₂ ReadsAs fields [g]) : ∃ f, fields = [f] ∧ ReadsAs f g := by
  rcases h with _ | ⟨hf, hnil⟩
  cases hnil
  exact ⟨_, rfl, hf⟩

/-- Where only SP and HTAB surround a framing value, the trimmed value is read. -/
theorem trim_framingValue {fields : List (Bytes × Bytes)} {g : Header}
    (h : List.Forall₂ ReadsAs fields [g]) (hws : NoOtherWhitespace buf)
    (hsub : ∀ f ∈ fields,
      f ∈ fieldsNamed "transfer-encoding" buf ++ fieldsNamed "content-length" buf) :
    ∃ f, fields = [f] ∧ utf8 (trim g.value) = trimOws f.2 := by
  rcases forall₂_readsAs_singleton h with ⟨f, rfl, hfg⟩
  have htrim : trim g.value = g.value := hws f (hsub f List.mem_cons_self) _ hfg.2
  exact ⟨f, rfl, by rw [htrim, hfg.2]⟩

/-- An accepted request is framed by its fields as HTTP says, if its framing values
have no white space of another kind around them. -/
theorem framed_of_complete (hbuf : Addressable t buf)
    (hp : parseWith t buf maxBody = .ok (.complete r n)) (hws : NoOtherWhitespace buf) :
    Framed buf maxBody r := by
  rw [parseWith_eq_complete_iff hbuf] at hp
  rcases hp with ⟨i, h, body, hh, rfl, hbody⟩
  rcases parseHead_eq_ok_iff.mp hh.head with ⟨line, lines, hparts⟩
  have hframed := bodyFraming_eq_ok_iff.mp hparts.framing
  have hte := hh.readsAs_named "transfer-encoding"
  have hcl := hh.readsAs_named "content-length"
  have hlen : (h.request body).body = body := rfl
  rw [← hlen] at hbody
  generalize h.request body = r at hbody ⊢
  clear hlen
  generalize hf : h.framing = f at hframed hbody
  cases hframed with
  | none noTe noCl =>
    rw [noTe, List.forall₂_nil_right_iff] at hte
    rw [noCl, List.forall₂_nil_right_iff] at hcl
    rcases hbody with ⟨len, hlen, hle, hfit, hb, _⟩ | ⟨hchunked, _⟩
    · cases hlen
      rw [List.take_zero] at hb
      constructor <;> simp [hte, hcl, hb]
    · cases hchunked
  | @chunked g te noCl value =>
    rw [te] at hte
    rw [noCl, List.forall₂_nil_right_iff] at hcl
    rcases trim_framingValue hte hws (fun _ => List.mem_append_left _) with ⟨f, hfields, htrim⟩
    rw [htrim] at value
    rcases hbody with ⟨len, hlen, _⟩ | ⟨_, consumed, hd, _⟩
    · cases hlen
    · have hlimit : r.body.length ≤ maxBody := by
        rw [decodeChunked_eq_complete_iff (hbuf.drop (i + 4)).length_lt] at hd
        rcases hd with ⟨_, _, _, hchunks, _⟩
        exact hchunks.length_le
      constructor <;> simp [hfields, hcl, value, hlimit]
  | @length g len noTe cl nonempty digits value word =>
    rw [noTe, List.forall₂_nil_right_iff] at hte
    rw [cl] at hcl
    rcases trim_framingValue hcl hws (fun _ => List.mem_append_right _) with ⟨f, hfields, htrim⟩
    rw [htrim] at nonempty digits value
    rcases hbody with ⟨len', hlen, hle, hfit, hb, _⟩ | ⟨hchunked, _⟩
    · cases hlen
      have hblen : r.body.length = len := by
        rw [hb, List.length_take, List.length_drop]
        omega
      refine ⟨.inl hte, by simp [hte], by simp [hte], by simp [hfields], ?_, by simp [hfields],
        by omega⟩
      intro f' hf'
      rw [hfields, List.mem_singleton] at hf'
      subst hf'
      exact ⟨nonempty, digits, value.trans hblen.symm⟩
    · cases hchunked

/-- An accepted request is framed as HTTP says exactly when its framing values have
only SP and HTAB around them. -/
theorem complete_framed_iff (hbuf : Addressable t buf)
    (hp : parseWith t buf maxBody = .ok (.complete r n)) :
    Framed buf maxBody r ↔ NoOtherWhitespace buf :=
  ⟨fun h => h.noOtherWhitespace, fun h => framed_of_complete hbuf hp h⟩

/-- A vertical tab stands before the coding. -/
def vtabChunked : Bytes :=
  utf8 "POST / HTTP/1.1\r\nHost: h\r\nTransfer-Encoding: \x0bchunked\r\n\r\n0\r\n\r\n"

/-- What is read from it. -/
def vtabRequest : Request :=
  ⟨.post, "/", .http11, [⟨"Host", "h"⟩, ⟨"Transfer-Encoding", "\x0bchunked"⟩], []⟩

set_option maxRecDepth 10000 in
/-- The request is accepted, and framed as chunked. -/
theorem vtabChunked_not_framed :
    Addressable ⟨.w64, false⟩ vtabChunked ∧
      parseWith ⟨.w64, false⟩ vtabChunked 16 = .ok (.complete vtabRequest 62) ∧
      ¬ Framed vtabChunked 16 vtabRequest := by
  refine ⟨by decide, by decide, ?_⟩
  intro h
  have hte := h.chunked (utf8 "Transfer-Encoding", utf8 " \x0bchunked") (by decide)
  revert hte
  decide

/-- A request with three body bytes. -/
def plainPost : Bytes := utf8 "POST / HTTP/1.1\r\nHost: h\r\nContent-Length: 3\r\n\r\nabc"

def plainRequest : Request :=
  ⟨.post, "/", .http11, [⟨"Host", "h"⟩, ⟨"Content-Length", "3"⟩], utf8 "abc"⟩

set_option maxRecDepth 10000 in
theorem plainPost_framed_iff : Framed plainPost 16 plainRequest ↔ NoOtherWhitespace plainPost :=
  complete_framed_iff (t := ⟨.w64, false⟩) (n := 50) (by decide) (by decide)

end Whitespace

end FerroHttp
