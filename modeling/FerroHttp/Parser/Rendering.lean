import FerroHttp.Parser.Soundness

/-!
# Parser.Rendering — parsing undoes rendering

`render r pads` writes a request with any SP and HTAB around its field values.
`parseWith_render`: a request that a server could be sent (`Renderable`) is parsed
back exactly, and exactly its bytes are consumed, whatever follows them.
-/

namespace FerroHttp

open Exec Text Search

/-! ## Rendering -/

/-- The version token of a rendered request. -/
def versionToken : Version → Bytes
  | .http10 => utf8 "HTTP/1.0"
  | .http11 => utf8 "HTTP/1.1"

/-- A field with padding on both sides of its value. -/
def renderField (h : Header) (pad : Bytes × Bytes) : Bytes × Bytes :=
  (utf8 h.name, pad.1 ++ utf8 h.value ++ pad.2)

/-- The head of a request, with its blank line. -/
def renderHead (r : Request) (pads : List (Bytes × Bytes)) : Bytes :=
  headBytes (requestLine r.method r.target (versionToken r.version))
    (List.zipWith renderField r.headers pads)

/-- A request on the wire; `pads` is the padding around each field value. -/
def render (r : Request) (pads : List (Bytes × Bytes)) : Bytes := renderHead r pads ++ r.body

/-- One pair of SP and HTAB strings for every field. -/
structure Padding (r : Request) (pads : List (Bytes × Bytes)) : Prop where
  length : pads.length = r.headers.length
  ows : ∀ p ∈ pads, (∀ b ∈ p.1, isOws b = true) ∧ ∀ b ∈ p.2, isOws b = true

/-- A field that can be sent: a token for a name, and a value that neither breaks the
line nor begins or ends with padding. -/
structure SendableHeader (h : Header) : Prop where
  nameNonempty : h.name ≠ ""
  nameToken : (utf8 h.name).all isTokenByte = true
  noCr : cr ∉ utf8 h.value
  noLf : lf ∉ utf8 h.value
  trimmed : CleanEnds isOws (utf8 h.value)

/-- The length field and the body agree. -/
inductive LengthField (r : Request) (maxBody : Nat) : Prop
  | none (noField : r.headers.filter (Header.named "content-length") = []) (empty : r.body = []) :
      LengthField r maxBody
  | one {h : Header} (field : r.headers.filter (Header.named "content-length") = [h])
      (value : h.value = toString r.body.length) (limit : r.body.length ≤ maxBody) :
      LengthField r maxBody

/-- A request within the limits, with a `Host`, framed by its length. -/
structure Renderable (r : Request) (pads : List (Bytes × Bytes)) (maxBody : Nat) : Prop where
  target : 1 ≤ (utf8 r.target).length ∧ (utf8 r.target).length ≤ maxTargetBytes
  targetBytes : ∀ b ∈ utf8 r.target, b ≠ sp ∧ b ≠ cr ∧ b ≠ lf
  headers : ∀ h ∈ r.headers, SendableHeader h
  headersLimit : r.headers.length ≤ maxHeaders
  host : (∃ h, r.headers.filter (Header.named "host") = [h] ∧ h.value ≠ "" ∧
      ∀ b ∈ utf8 h.value, 0x20 < b ∧ b ≠ 0x7f) ∨
    (r.headers.filter (Header.named "host") = [] ∧ r.version = .http10)
  noTransferEncoding : r.headers.filter (Header.named "transfer-encoding") = []
  lengthField : LengthField r maxBody
  padding : Padding r pads
  headLimit : (renderHead r pads).length - 4 ≤ maxHeadBytes

/-! ## The head is found -/

section Head

/-- Lines without a CR, none of them empty, end at the first blank line. -/
theorem firstAt_blankLine {lines : List Bytes} (hne : lines ≠ [])
    (hlines : ∀ l ∈ lines, l ≠ [] ∧ cr ∉ l) (rest : Bytes) :
    FirstAt (crlf ++ crlf) (crlfLines lines ++ crlf ++ rest) ((crlfLines lines).length - 2) := by
  induction lines with
  | nil => exact absurd rfl hne
  | cons l ls ih =>
    rcases hlines l List.mem_cons_self with ⟨_, hcr⟩
    cases ls with
    | nil =>
      have hfirst : FirstAt (crlf ++ crlf) (l ++ (crlf ++ crlf) ++ rest) l.length :=
        FirstAt.of_not_mem hcr
      simpa [crlfLines] using hfirst
    | cons l' ls' =>
      rcases hlines l' (by simp) with ⟨hne', hcr'⟩
      have htail := ih (by simp) fun x hx => hlines x (List.mem_cons_of_mem _ hx)
      have hlen : 2 ≤ (crlfLines (l' :: ls')).length := by
        simp only [crlfLines, List.flatMap_cons, List.length_append, length_crlf]
        omega
      have hbytes : crlfLines (l :: l' :: ls') ++ crlf ++ rest =
          (l ++ crlf) ++ (crlfLines (l' :: ls') ++ crlf ++ rest) := by
        simp [crlfLines]
      have hpos : (crlfLines (l :: l' :: ls')).length - 2 =
          (l ++ crlf).length + ((crlfLines (l' :: ls')).length - 2) := by
        have hcons : crlfLines (l :: l' :: ls') = (l ++ crlf) ++ crlfLines (l' :: ls') := by
          simp [crlfLines]
        rw [hcons, List.length_append]
        omega
      rw [hbytes, hpos]
      refine htail.append_left ?_
      intro j hj hocc
      rw [List.length_append, length_crlf] at hj
      rcases List.exists_cons_of_ne_nil hne' with ⟨c, cs, rfl⟩
      have hc : c ≠ cr := by
        rintro rfl
        exact hcr' List.mem_cons_self
      have hstart : ∃ more, crlfLines ((c :: cs) :: ls') ++ crlf ++ rest = c :: more := by
        simp [crlfLines]
      rcases hstart with ⟨more, hmore⟩
      rw [hmore] at hocc
      by_cases hin : j < l.length
      · -- inside the line: no CR
        rw [List.append_assoc] at hocc
        exact not_prefix_drop_of_not_mem hcr hin hocc
      · -- at the line's own CRLF: the next line does not start with a CR
        rcases Nat.eq_or_lt_of_le (Nat.le_of_not_lt hin) with heq | hlt
        · subst heq
          rw [List.append_assoc, List.drop_left] at hocc
          simp [crlf] at hocc
          exact hc hocc.1.symm
        · have hj' : j = l.length + 1 := by omega
          subst hj'
          rw [List.append_assoc, List.drop_length_add_append] at hocc
          simp [crlf, cr, lf] at hocc

/-- A head, whatever follows it: where its blank line is, and the lines before it. -/
theorem cut_headBytes {line : Bytes} {fields : List (Bytes × Bytes)} (hne : line ≠ [])
    (hcr : ∀ l ∈ line :: fields.map fieldLine, cr ∉ l) (rest : Bytes) :
    ∃ i, i + 4 = (headBytes line fields).length ∧
      FirstAt (crlf ++ crlf) (headBytes line fields ++ rest) i ∧
      headBytes line fields = joinCrlf (line :: fields.map fieldLine) ++ (crlf ++ crlf) := by
  have hlen : 2 ≤ (crlfLines (line :: fields.map fieldLine)).length := by
    simp only [crlfLines, List.flatMap_cons, List.length_append, length_crlf]
    omega
  refine ⟨(crlfLines (line :: fields.map fieldLine)).length - 2, ?_, ?_, ?_⟩
  · rw [headBytes, List.length_append, length_crlf]
    omega
  · apply firstAt_blankLine (by simp)
    intro l hl
    refine ⟨?_, hcr l hl⟩
    rcases List.mem_cons.mp hl with rfl | hmem
    · exact hne
    · rcases List.mem_map.mp hmem with ⟨f, _, rfl⟩
      simp [fieldLine]
  · rw [headBytes, crlfLines_eq_joinCrlf (by simp), List.append_assoc]

end Head

/-! ## The head is accepted -/

section Rendered

variable {t : Target} {r : Request} {pads : List (Bytes × Bytes)} {maxBody : Nat}

theorem versionToken_ok (v : Version) :
    cr ∉ versionToken v ∧ ∃ major minor, VersionToken (versionToken v) v major minor := by
  cases v with
  | http10 =>
    refine ⟨by decide, utf8 "1", utf8 "0", ?_⟩
    constructor <;> decide
  | http11 =>
    refine ⟨by decide, utf8 "1", utf8 "1", ?_⟩
    constructor <;> decide

theorem cr_not_mem_method (m : Method) : cr ∉ utf8 m.asStr := by
  cases m <;> decide

theorem cr_not_mem_of_token {bs : Bytes} (h : bs.all isTokenByte = true) : cr ∉ bs := by
  intro hmem
  have htok := List.all_eq_true.mp h cr hmem
  revert htok
  decide

theorem cr_not_mem_of_ows {bs : Bytes} (h : ∀ b ∈ bs, isOws b = true) : cr ∉ bs := by
  intro hmem
  have hows := h cr hmem
  revert hows
  decide

theorem requestLine_ok (hr : Renderable r pads maxBody) :
    cr ∉ requestLine r.method r.target (versionToken r.version) ∧
      RequestLine (requestLine r.method r.target (versionToken r.version)) r.method r.target
        r.version (versionToken r.version) := by
  constructor
  · intro hmem
    simp only [requestLine, List.mem_append, List.mem_cons] at hmem
    rcases hmem with hmem | hmem | hmem | hmem | hmem
    · exact cr_not_mem_method _ hmem
    · exact absurd hmem (by decide)
    · exact (hr.targetBytes cr hmem).2.1 rfl
    · exact absurd hmem (by decide)
    · exact (versionToken_ok _).1 hmem
  · refine ⟨rfl, ?_, hr.target.2, ?_, (versionToken_ok _).2⟩
    · rintro hempty
      have hlen := hr.target.1
      rw [hempty] at hlen
      exact absurd hlen (by decide)
    · intro hmem
      exact (hr.targetBytes sp hmem).1 rfl

/-- A rendered field line is read back as its header. -/
theorem fieldLine_renderField {h : Header} {pad : Bytes × Bytes} (hh : SendableHeader h)
    (hpad : (∀ b ∈ pad.1, isOws b = true) ∧ ∀ b ∈ pad.2, isOws b = true) :
    (fieldLine (renderField h pad) ≠ [] ∧ cr ∉ fieldLine (renderField h pad)) ∧
      parseHeaderLine (fieldLine (renderField h pad)) = .ok h := by
  refine ⟨⟨by simp [fieldLine], ?_⟩, ?_⟩
  · intro hmem
    simp only [fieldLine, renderField, List.mem_append, List.mem_cons] at hmem
    rcases hmem with hmem | hmem | (hmem | hmem) | hmem
    · exact cr_not_mem_of_token hh.nameToken hmem
    · exact absurd hmem (by decide)
    · exact cr_not_mem_of_ows hpad.1 hmem
    · exact hh.noCr hmem
    · exact cr_not_mem_of_ows hpad.2 hmem
  · rw [parseHeaderLine_eq_ok_iff]
    refine ⟨pad.1 ++ utf8 h.value ++ pad.2, rfl, hh.nameNonempty, hh.nameToken, ?_⟩
    exact (trimWith_append hpad.1 hpad.2 hh.trimmed).symm

/-- The rendered field lines are read back as the headers, in order. -/
theorem forall₂_renderField {hs : List Header} {ps : List (Bytes × Bytes)}
    (hlen : ps.length = hs.length) (hhs : ∀ h ∈ hs, SendableHeader h)
    (hps : ∀ p ∈ ps, (∀ b ∈ p.1, isOws b = true) ∧ ∀ b ∈ p.2, isOws b = true) :
    (∀ l ∈ (List.zipWith renderField hs ps).map fieldLine, l ≠ [] ∧ cr ∉ l) ∧
      List.Forall₂ (fun line h => parseHeaderLine line = .ok h)
        ((List.zipWith renderField hs ps).map fieldLine) hs := by
  induction hs generalizing ps with
  | nil => simp
  | cons h hs ih =>
    cases ps with
    | nil => simp at hlen
    | cons p ps =>
      rcases fieldLine_renderField (hhs h List.mem_cons_self) (hps p List.mem_cons_self) with
        ⟨hline, hparse⟩
      rcases ih (by simpa using hlen) (fun x hx => hhs x (List.mem_cons_of_mem _ hx))
        (fun x hx => hps x (List.mem_cons_of_mem _ hx)) with ⟨hlines, hall⟩
      refine ⟨?_, .cons hparse hall⟩
      intro l hl
      rcases List.mem_cons.mp hl with rfl | hmem
      · exact hline
      · exact hlines l hmem

theorem bodyFraming_ok (hr : Renderable r pads maxBody) (hword : r.body.length < t.modulus) :
    bodyFraming t r.headers = .ok (.fixed r.body.length) := by
  rw [bodyFraming_eq_ok_iff]
  cases hr.lengthField with
  | none noField empty =>
    rw [empty]
    exact .none hr.noTransferEncoding noField
  | @one h field value limit =>
    rcases decimal_toString r.body.length with ⟨hne, hdigits, hvalue⟩
    have htrim : trim h.value = toString r.body.length := by
      rw [value]
      apply trim_eq_self
      intro b hb
      exact visible_of_isAsciiDigit b (List.all_eq_true.mp hdigits b hb)
    rw [← htrim] at hne hdigits hvalue
    exact .length hr.noTransferEncoding field hne hdigits hvalue hword

/-- The head of a renderable request, as the parser reads it. -/
def renderedHead (r : Request) : Head :=
  ⟨r.method, r.target, r.version, r.headers, .fixed r.body.length⟩

theorem headAt_renderHead (hr : Renderable r pads maxBody) (hword : r.body.length < t.modulus)
    (rest : Bytes) :
    ∃ i, i + 4 = (renderHead r pads).length ∧
      HeadAt t (renderHead r pads ++ rest) i (renderedHead r) := by
  rcases forall₂_renderField hr.padding.length hr.headers hr.padding.ows with ⟨hfields, hall⟩
  rcases requestLine_ok hr with ⟨hcr, hline⟩
  have hhead : renderHead r pads = headBytes (requestLine r.method r.target
      (versionToken r.version)) (List.zipWith renderField r.headers pads) := rfl
  generalize hline' : requestLine r.method r.target (versionToken r.version) = line at *
  have hne : line ≠ [] := by
    rw [← hline', requestLine]
    simp
  have hnocr : ∀ l ∈ line :: (List.zipWith renderField r.headers pads).map fieldLine,
      cr ∉ l := by
    intro l hl
    rcases List.mem_cons.mp hl with rfl | hmem
    · exact hcr
    · exact (hfields l hmem).2
  rcases cut_headBytes hne hnocr rest with ⟨i, hend, hblank, hjoin⟩
  rw [← hhead] at hend hblank hjoin
  generalize hlines : (List.zipWith renderField r.headers pads).map fieldLine = lines at *
  refine ⟨i, hend, hblank, ?_, ?_⟩
  · have hlimit := hr.headLimit
    omega
  · rw [hend, List.take_left, parseHead_eq_ok_iff]
    refine ⟨line, lines, ?_, ?_, ?_, ?_, ?_, ?_⟩
    · rw [hjoin, hasBareCr_joinCrlf_append hnocr]
      decide
    · have htake : (renderHead r pads).take ((renderHead r pads).length - 4) =
          joinCrlf (line :: lines) := by
        rw [hjoin, List.length_append]
        simp
      rw [htake]
      exact splitCrlf_joinCrlf (by simp) hnocr
    · exact parseRequestLine_eq_ok_iff.mpr ⟨_, hline⟩
    · rw [parseHeaders_eq_ok_iff (Nat.zero_le _)]
      exact ⟨r.headers, by simp [renderedHead], by simpa using hr.headersLimit, hall⟩
    · rw [validateHost_eq_ok_iff]
      rcases hr.host with ⟨h, hh, hvalid⟩ | hnone
      · exact .inl ⟨h, hh, isValidHostValue_iff.mpr hvalid⟩
      · exact .inr hnone
    · exact bodyFraming_ok hr hword

/-- Parsing undoes rendering, whatever the padding and whatever follows. -/
theorem parseWith_render {suffix : Bytes} (hr : Renderable r pads maxBody)
    (hbuf : Addressable t (render r pads ++ suffix)) :
    parseWith t (render r pads ++ suffix) maxBody =
      .ok (.complete r (render r pads).length) := by
  have hlen := hbuf.length_lt
  have hbytes : render r pads ++ suffix = renderHead r pads ++ (r.body ++ suffix) := by
    rw [render, List.append_assoc]
  have hsum : (render r pads).length = (renderHead r pads).length + r.body.length := by
    rw [render, List.length_append]
  have hword : r.body.length < t.modulus := by
    rw [List.length_append] at hlen
    omega
  rcases headAt_renderHead hr hword (r.body ++ suffix) with ⟨i, hend, hh⟩
  rw [← hbytes] at hh
  rw [parseWith_eq_complete_iff hbuf]
  refine ⟨i, renderedHead r, r.body, hh, rfl, .inl ⟨r.body.length, rfl, ?_, ?_, ?_, ?_⟩⟩
  · cases hr.lengthField with
    | none noField empty => simp [empty]
    | one field value limit => exact limit
  · rw [List.length_append]
    omega
  · rw [hbytes, hend, List.drop_left, List.take_left]
  · omega

/-- A request with a padded `Host`, a body and its length. -/
def paddedRequest : Request :=
  ⟨.put, "/x", .http11, [⟨"Host", "h"⟩, ⟨"Content-Length", "2"⟩], utf8 "ab"⟩

def paddedPads : List (Bytes × Bytes) := [(utf8 " \t", utf8 " "), (utf8 " ", [])]

theorem renderable_paddedRequest : Renderable paddedRequest paddedPads 16 := by
  constructor
  · decide +kernel
  · decide +kernel
  · intro h hh
    simp only [paddedRequest, List.mem_cons, List.not_mem_nil, or_false] at hh
    rcases hh with rfl | rfl
    · constructor <;> decide +kernel
    · constructor <;> decide +kernel
  · decide +kernel
  · exact .inl ⟨⟨"Host", "h"⟩, by decide +kernel, by decide +kernel, by decide +kernel⟩
  · decide +kernel
  · refine LengthField.one (h := ⟨"Content-Length", "2"⟩) ?_ ?_ ?_ <;> decide +kernel
  · constructor <;> decide +kernel
  · decide +kernel

theorem paddedRequest_render :
    parseWith ⟨.w64, false⟩ (render paddedRequest paddedPads ++ utf8 "GET /") 16 =
      .ok (.complete paddedRequest (render paddedRequest paddedPads).length) :=
  parseWith_render renderable_paddedRequest (by decide)

end Rendered

end FerroHttp
