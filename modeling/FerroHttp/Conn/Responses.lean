import FerroHttp.Conn.Session
import FerroHttp.Parser.Rendering

/-!
# Conn.Responses — the response stream delimits itself

A reference decoder for HTTP/1.1 responses (`decodeResponse`, `decodeStream`) is told
which responses answer a HEAD request and nothing else.

1. `decodeResponse_serialize`: what `Response.serialize` writes is read back, and
   whatever follows is left alone;
2. `wellFormed_*`: each kind of write of a connection is one response;
3. `session_responses`: the writes of a run decode, with no byte left over, into one
   response for each write, and those to dispatched requests are the service's, call by call.
-/

namespace FerroHttp

open Exec Text Search

/-! ## The reference decoder -/

/-- A decoded response; a field is its name and the raw bytes after its colon. -/
structure DecodedResponse where
  status : Nat
  fields : List (Bytes × Bytes)
  body : Bytes
deriving DecidableEq, Repr

/-- `HTTP/1.1`, a three-digit status, a reason phrase. -/
def decodeStatusLine (line : Bytes) : Option Nat :=
  if !(utf8 "HTTP/1.1 ").isPrefixOf line then none
  else
    let rest := line.drop (utf8 "HTTP/1.1 ").length
    let code := rest.take 3
    if code.length = 3 ∧ code.all isAsciiDigit = true ∧ rest[3]? = some sp then some (decimal code)
    else none

/-- A token, a colon, the rest. -/
def decodeField (line : Bytes) : Option (Bytes × Bytes) :=
  match line.findIdx? (· == colon) with
  | none => none
  | some i =>
    let name := line.take i
    if name.isEmpty || !name.all isTokenByte then none else some (name, line.drop (i + 1))

/-- The decoded fields called `name`, whatever the case. -/
def fieldsCalled (name : String) (fields : List (Bytes × Bytes)) : List (Bytes × Bytes) :=
  fields.filter fun f => eqIgnoreAsciiCase f.1 (utf8 name)

/-- 1xx, 204 and 304 responses have no body. -/
def bodiless (status : Nat) : Bool :=
  (100 ≤ status && status ≤ 199) || status == 204 || status == 304

/-- The length of a response's body: none at all, or a single `Content-Length`. -/
def decodeLength (answersHead : Bool) (status : Nat) (fields : List (Bytes × Bytes)) :
    Option Nat :=
  if answersHead || bodiless status then some 0
  else if (fieldsCalled "transfer-encoding" fields) ≠ [] then none
  else
    match fieldsCalled "content-length" fields with
    | [f] =>
      let value := trimOws f.2
      if value.isEmpty || !value.all isAsciiDigit then none else some (decimal value)
    | _ => none

/-- One response from the front of `bs`, and what follows it. -/
def decodeResponse (answersHead : Bool) (bs : Bytes) : Option (DecodedResponse × Bytes) :=
  match findSubslice bs (crlf ++ crlf) with
  | none => none
  | some i =>
    match splitCrlf (bs.take i) with
    | [] => none
    | line :: lines => do
      let status ← decodeStatusLine line
      let fields ← lines.mapM decodeField
      let len ← decodeLength answersHead status fields
      let rest := bs.drop (i + 4)
      if rest.length < len then none else some (⟨status, fields, rest.take len⟩, rest.drop len)

/-- Responses until the stream ends; `heads` tells for each final response whether it
answers a HEAD request. Interim responses answer nothing by themselves. -/
def decodeFrom : Nat → List Bool → Bytes → Option (List DecodedResponse)
  | 0, _, _ => none
  | fuel + 1, heads, bs =>
    if bs = [] then if heads = [] then some [] else none
    else
      match decodeResponse (heads.headD false) bs with
      | none => none
      | some (d, rest) =>
        if 100 ≤ d.status ∧ d.status ≤ 199 then (decodeFrom fuel heads rest).map (d :: ·)
        else
          match heads with
          | [] => none
          | _ :: heads => (decodeFrom fuel heads rest).map (d :: ·)

/-- The whole stream; every response takes a byte at least. -/
def decodeStream (heads : List Bool) (bs : Bytes) : Option (List DecodedResponse) :=
  decodeFrom (bs.length + 1) heads bs

/-! ## Serialization -/

/-- A field as the serializer writes it: one SP before the value. -/
def rawField (field : String × String) : Bytes × Bytes := (utf8 field.1, sp :: utf8 field.2)

theorem rawField_fst (name value : String) : (rawField (name, value)).1 = utf8 name := rfl

/-- The length field the serializer adds. -/
def lengthFields (r : Response) : List (Bytes × Bytes) :=
  if r.status.isEmptyBody then [] else [rawField ("Content-Length", toString r.body.length)]

/-- The fields of a serialized response, in order. -/
def wireFieldsOf (r : Response) : List (Bytes × Bytes) :=
  (r.headers.filter Response.isWritten).map rawField ++ lengthFields r

/-- A status line without its CRLF. -/
def statusLine (status : StatusCode) : Bytes :=
  utf8 "HTTP/1.1 " ++ (utf8 (toString status.code) ++ sp :: utf8 status.reason)

/-- Three digits for a status, tokens for names, and no transfer coding. -/
structure Encodable (r : Response) : Prop where
  status : 100 ≤ r.status.code ∧ r.status.code ≤ 999
  names : ∀ f ∈ r.headers, f.1 ≠ "" ∧ (utf8 f.1).all isTokenByte = true ∧
    eqIgnoreAsciiCase (utf8 f.1) (utf8 "transfer-encoding") = false

section Serialize

variable {r : Response}

theorem utf8_foldl_fields (fields : List (String × String)) (head : String) :
    utf8 (fields.foldl (fun head field => head ++ field.1 ++ ": " ++ field.2 ++ "\r\n") head) =
      utf8 head ++ crlfLines (fields.map fun f => fieldLine (rawField f)) := by
  induction fields generalizing head with
  | nil => simp [crlfLines]
  | cons f fs ih =>
    have hsep : utf8 ": " = [colon, sp] := by decide +kernel
    have hcrlf : utf8 "\r\n" = crlf := by decide +kernel
    rw [List.foldl_cons, ih]
    simp [crlfLines, fieldLine, rawField, hsep, hcrlf]

/-- The serialized head is a status line and field lines. -/
theorem utf8_serializeHead (r : Response) :
    utf8 r.serializeHead = headBytes (statusLine r.status) (wireFieldsOf r) := by
  have hsep : utf8 ": " = [colon, sp] := by decide +kernel
  have hcrlf : utf8 "\r\n" = crlf := by decide +kernel
  have hsp : utf8 " " = [sp] := by decide +kernel
  have hlength : utf8 "Content-Length: " = utf8 "Content-Length" ++ [colon, sp] := by
    decide +kernel
  unfold Response.serializeHead headBytes wireFieldsOf lengthFields
  cases r.status.isEmptyBody with
  | true =>
    simp only [if_true, utf8_append, utf8_foldl_fields, hcrlf, hsp, List.append_nil]
    simp [crlfLines, statusLine, Function.comp_def]
  | false =>
    simp only [Bool.false_eq_true, if_false, utf8_append, utf8_foldl_fields, hcrlf, hsp, hlength]
    simp [crlfLines, statusLine, Function.comp_def, fieldLine, rawField]

/-! ## Reading a serialized response back -/

theorem cr_not_mem_reason (status : StatusCode) : cr ∉ utf8 status.reason := by
  unfold StatusCode.reason
  split <;> decide +kernel

theorem cr_not_mem_digits {bs : Bytes} (h : bs.all isAsciiDigit = true) : cr ∉ bs := by
  intro hmem
  have hdigit := List.all_eq_true.mp h cr hmem
  revert hdigit
  decide +kernel

/-- A status line is a line. -/
theorem statusLine_line (status : StatusCode) : statusLine status ≠ [] ∧ cr ∉ statusLine status := by
  constructor
  · intro hnil
    have hprefix : utf8 "HTTP/1.1 " <+: statusLine status := List.prefix_append _ _
    rw [hnil, List.prefix_nil] at hprefix
    exact absurd hprefix (by decide +kernel)
  · intro hmem
    simp only [statusLine, List.mem_append, List.mem_cons] at hmem
    rcases hmem with hmem | hmem | hmem | hmem
    · exact absurd hmem (by decide +kernel)
    · exact cr_not_mem_digits (decimal_toString status.code).2.1 hmem
    · exact absurd hmem (by decide)
    · exact cr_not_mem_reason status hmem

/-- A three-digit status is read back from its status line. -/
theorem decodeStatusLine_statusLine {status : StatusCode}
    (h : 100 ≤ status.code ∧ status.code ≤ 999) :
    decodeStatusLine (statusLine status) = some status.code := by
  rcases decimal_toString status.code with ⟨_, hdigits, hvalue⟩
  have hprefix : utf8 "HTTP/1.1 " <+: statusLine status := List.prefix_append _ _
  have hlen : (utf8 (toString status.code)).length = 3 := by
    have hle := (length_utf8_toString_le_iff (n := status.code) (k := 3) (by decide)).mpr (by omega)
    have hgt := mt (length_utf8_toString_le_iff (n := status.code) (k := 2) (by decide)).mp (by omega)
    omega
  have hpre : (utf8 "HTTP/1.1 ").isPrefixOf (statusLine status) = true :=
    List.isPrefixOf_iff_prefix.mpr hprefix
  have hcode : (utf8 (toString status.code) ++ sp :: utf8 status.reason).take 3 =
      utf8 (toString status.code) := by
    rw [← hlen, List.take_left]
  have hsp : (utf8 (toString status.code) ++ sp :: utf8 status.reason)[3]? = some sp := by
    rw [← hlen, List.getElem?_append_right (Nat.le_refl _)]
    simp
  rw [decodeStatusLine, hpre, statusLine, List.drop_left]
  simp only [Bool.not_true, Bool.false_eq_true, if_false, hcode, hlen, hdigits, hsp, hvalue,
    and_self, if_true]

/-- A field with a token for a name is read back from its line. -/
theorem decodeField_fieldLine {f : Bytes × Bytes} (hne : f.1 ≠ [])
    (htoken : f.1.all isTokenByte = true) : decodeField (fieldLine f) = some f := by
  have hcolon : (fieldLine f).findIdx? (· == colon) = some f.1.length :=
    findIdx?_beq_eq_some_iff.mpr ⟨f.1, f.2, rfl, fun hmem => by
      have hcol := List.all_eq_true.mp htoken colon hmem
      revert hcol
      decide +kernel, rfl⟩
  have hname : (fieldLine f).take f.1.length = f.1 := List.take_left
  have hvalue : (fieldLine f).drop (f.1.length + 1) = f.2 := by
    rw [fieldLine, List.drop_length_add_append]
    rfl
  have hempty : f.1.isEmpty = false := by simpa using hne
  simp only [decodeField, hcolon, hname, hvalue, hempty, htoken, Bool.not_true, Bool.or_self,
    Bool.false_eq_true, if_false]

theorem cr_not_mem_rawField {f : String × String} (hname : cr ∉ utf8 f.1) (hvalue : cr ∉ utf8 f.2) :
    cr ∉ fieldLine (rawField f) := by
  intro hmem
  simp only [fieldLine, rawField, List.mem_append, List.mem_cons] at hmem
  rcases hmem with hmem | hmem | hmem | hmem
  · exact hname hmem
  · exact absurd hmem (by decide)
  · exact absurd hmem (by decide)
  · exact hvalue hmem

theorem cr_not_mem_of_not_forbidden {s : String} (h : hasForbiddenByte s = false) :
    cr ∉ utf8 s := by
  intro hmem
  unfold hasForbiddenByte at h
  rw [List.any_eq_false] at h
  exact h cr hmem (by decide)

theorem eq_of_mem_lengthFields {f : Bytes × Bytes} (hf : f ∈ lengthFields r) :
    f = rawField ("Content-Length", toString r.body.length) := by
  unfold lengthFields at hf
  split at hf
  · simp at hf
  · exact List.mem_singleton.mp hf

/-- What the name `Content-Length` is, and what it is not. -/
theorem contentLength_name : utf8 "Content-Length" ≠ [] ∧
    (utf8 "Content-Length").all isTokenByte = true ∧
    eqIgnoreAsciiCase (utf8 "Content-Length") (utf8 "content-length") = true ∧
    eqIgnoreAsciiCase (utf8 "Content-Length") (utf8 "transfer-encoding") = false := by
  decide +kernel

/-- Every field of a serialized response is a line of its own. -/
theorem cr_not_mem_wireField {f : Bytes × Bytes} (hf : f ∈ wireFieldsOf r) : cr ∉ fieldLine f := by
  rcases List.mem_append.mp hf with hmem | hmem
  · rcases List.mem_map.mp hmem with ⟨g, hg, rfl⟩
    have hwritten := (List.mem_filter.mp hg).2
    simp only [Response.isWritten, Bool.and_eq_true, Bool.not_eq_true', Bool.or_eq_false_iff]
      at hwritten
    exact cr_not_mem_rawField (cr_not_mem_of_not_forbidden hwritten.2.1)
      (cr_not_mem_of_not_forbidden hwritten.2.2)
  · rw [eq_of_mem_lengthFields hmem]
    exact cr_not_mem_rawField (cr_not_mem_of_token contentLength_name.2.1)
      (cr_not_mem_digits (decimal_toString _).2.1)

/-- The lines of a serialized head. -/
theorem cr_not_mem_headLines (r : Response) :
    ∀ l ∈ statusLine r.status :: (wireFieldsOf r).map fieldLine, cr ∉ l := by
  intro l hl
  rcases List.mem_cons.mp hl with rfl | hmem
  · exact (statusLine_line r.status).2
  · rcases List.mem_map.mp hmem with ⟨f, hf, rfl⟩
    exact cr_not_mem_wireField hf

/-- A field with a token for a name is read back. -/
theorem decodeField_wireField (hr : Encodable r) {f : Bytes × Bytes} (hf : f ∈ wireFieldsOf r) :
    decodeField (fieldLine f) = some f := by
  rcases List.mem_append.mp hf with hmem | hmem
  · rcases List.mem_map.mp hmem with ⟨g, hg, rfl⟩
    rcases hr.names g (List.mem_filter.mp hg).1 with ⟨hne, htoken, _⟩
    refine decodeField_fieldLine ?_ htoken
    rw [rawField, ne_eq, utf8_eq_nil_iff]
    exact hne
  · rcases contentLength_name with ⟨hne, htoken, _⟩
    rw [eq_of_mem_lengthFields hmem]
    apply decodeField_fieldLine <;> rw [rawField_fst]
    · exact hne
    · exact htoken

theorem mapM_decodeField {fields : List (Bytes × Bytes)}
    (h : ∀ f ∈ fields, decodeField (fieldLine f) = some f) :
    (fields.map fieldLine).mapM decodeField = some fields := by
  induction fields with
  | nil => rfl
  | cons f fs ih =>
    have hf := h f List.mem_cons_self
    have hfs := ih fun g hg => h g (List.mem_cons_of_mem _ hg)
    simp [List.mapM_cons, hf, hfs]

theorem fieldsCalled_append (name : String) (a b : List (Bytes × Bytes)) :
    fieldsCalled name (a ++ b) = fieldsCalled name a ++ fieldsCalled name b :=
  List.filter_append ..

/-- No written field is called what none of the response's fields is called. -/
theorem fieldsCalled_rawField_eq_nil {name : String} {headers : List (String × String)}
    (h : ∀ g ∈ headers, eqIgnoreAsciiCase (utf8 g.1) (utf8 name) = false) :
    fieldsCalled name (headers.map rawField) = [] := by
  unfold fieldsCalled
  rw [List.filter_eq_nil_iff]
  intro f hf
  rcases List.mem_map.mp hf with ⟨g, hg, rfl⟩
  simp [rawField, h g hg]

theorem fieldsCalled_lengthFields_eq_nil {name : String} (r : Response)
    (h : eqIgnoreAsciiCase (utf8 "Content-Length") (utf8 name) = false) :
    fieldsCalled name (lengthFields r) = [] := by
  unfold fieldsCalled
  rw [List.filter_eq_nil_iff]
  intro f hf
  rw [eq_of_mem_lengthFields hf, rawField_fst]
  simp [h]

/-- The only length field is the serializer's own. -/
theorem fieldsCalled_contentLength (r : Response) :
    fieldsCalled "content-length" (wireFieldsOf r) = lengthFields r := by
  have hown : fieldsCalled "content-length" (lengthFields r) = lengthFields r := by
    unfold fieldsCalled
    rw [List.filter_eq_self]
    intro f hf
    rw [eq_of_mem_lengthFields hf, rawField_fst]
    exact contentLength_name.2.2.1
  have hsent : fieldsCalled "content-length"
      ((r.headers.filter Response.isWritten).map rawField) = [] := by
    apply fieldsCalled_rawField_eq_nil
    intro g hg
    have hwritten := (List.mem_filter.mp hg).2
    simp only [Response.isWritten, Bool.and_eq_true, Bool.not_eq_true'] at hwritten
    exact hwritten.1
  rw [wireFieldsOf, fieldsCalled_append, hown, hsent, List.nil_append]

theorem fieldsCalled_transferEncoding (hr : Encodable r) :
    fieldsCalled "transfer-encoding" (wireFieldsOf r) = [] := by
  have hsent : fieldsCalled "transfer-encoding"
      ((r.headers.filter Response.isWritten).map rawField) = [] := by
    apply fieldsCalled_rawField_eq_nil
    intro g hg
    exact (hr.names g (List.mem_filter.mp hg).1).2.2
  rw [wireFieldsOf, fieldsCalled_append, hsent,
    fieldsCalled_lengthFields_eq_nil r contentLength_name.2.2.2]
  rfl

theorem bodiless_eq_isEmptyBody (s : StatusCode) : bodiless s.code = s.isEmptyBody := rfl

theorem not_isOws_of_isAsciiDigit (b : UInt8) (h : isAsciiDigit b = true) : isOws b = false := by
  revert h b
  exact forall_byte (by decide +kernel)

/-- The decoder finds the length of what was written. -/
theorem decodeLength_serialize (hr : Encodable r) (head : Bool) :
    decodeLength head r.status.code (wireFieldsOf r) =
      some (if head || r.status.isEmptyBody then 0 else r.body.length) := by
  unfold decodeLength
  rw [bodiless_eq_isEmptyBody, fieldsCalled_transferEncoding hr, fieldsCalled_contentLength]
  cases hbare : head || r.status.isEmptyBody with
  | true => rfl
  | false =>
    have hstatus : r.status.isEmptyBody = false := (Bool.or_eq_false_iff.mp hbare).2
    rcases decimal_toString r.body.length with ⟨hne, hdigits, hvalue⟩
    have hows : ∀ b ∈ utf8 (toString r.body.length), isOws b = false := by
      intro b hb
      exact not_isOws_of_isAsciiDigit b (List.all_eq_true.mp hdigits b hb)
    have hclean : CleanEnds isOws (utf8 (toString r.body.length)) :=
      ⟨fun b hb => hows b (List.mem_of_mem_head? hb), fun b hb => hows b (List.mem_of_mem_getLast? hb)⟩
    have htrim : trimOws (sp :: utf8 (toString r.body.length)) = utf8 (toString r.body.length) := by
      have hsp : ∀ b ∈ [sp], isOws b = true := by
        intro b hb
        rw [List.mem_singleton.mp hb]
        rfl
      have h : trimOws ([sp] ++ utf8 (toString r.body.length) ++ []) = _ :=
        trimWith_append hsp (by simp) hclean
      rwa [List.append_nil] at h
    have hempty : (utf8 (toString r.body.length)).isEmpty = false := by simpa using hne
    simp only [lengthFields, hstatus, rawField, htrim, hempty, hdigits, hvalue, Bool.not_true,
      Bool.or_self, Bool.false_eq_true, if_false, ne_eq, not_true_eq_false]

/-- The bytes a decoder is told to expect after a head. -/
def sentBody (r : Response) (head : Bool) : Bytes :=
  if head || r.status.isEmptyBody then [] else r.body

theorem serialize_eq (r : Response) (head : Bool) :
    r.serialize head = headBytes (statusLine r.status) (wireFieldsOf r) ++ sentBody r head := by
  unfold Response.serialize sentBody
  rw [utf8_serializeHead]
  cases head <;> cases r.status.isEmptyBody <;> simp

/-- What is serialized is read back, and what follows is left alone. A response to HEAD
is one to the decoder too, and where the status forbids a body it need not be told. -/
theorem decodeResponse_serialize (hr : Encodable r) {head told : Bool}
    (htold : told = head ∨ r.status.isEmptyBody = true) (rest : Bytes) :
    decodeResponse told (r.serialize head ++ rest) =
      some (⟨r.status.code, wireFieldsOf r, sentBody r head⟩, rest) := by
  have hstatus := decodeStatusLine_statusLine hr.status
  have hlines := cr_not_mem_headLines r
  rcases cut_headBytes (statusLine_line r.status).1 hlines (sentBody r head ++ rest) with ⟨i, hend, hblank, hjoin⟩
  have hbytes : r.serialize head ++ rest =
      headBytes (statusLine r.status) (wireFieldsOf r) ++ (sentBody r head ++ rest) := by
    rw [serialize_eq, List.append_assoc]
  have hfind : findSubslice (r.serialize head ++ rest) (crlf ++ crlf) = some i := by
    rw [hbytes]
    exact (findSubslice_eq_some blankLine_ne_nil).mpr hblank
  have hsplit : splitCrlf ((r.serialize head ++ rest).take i) =
      statusLine r.status :: (wireFieldsOf r).map fieldLine := by
    have hlen : i = (joinCrlf (statusLine r.status :: (wireFieldsOf r).map fieldLine)).length := by
      rw [hjoin, List.length_append] at hend
      exact Nat.add_right_cancel hend
    rw [hbytes, hjoin, List.append_assoc, hlen, List.take_left]
    exact splitCrlf_joinCrlf (by simp) hlines
  have hdrop : (r.serialize head ++ rest).drop (i + 4) = sentBody r head ++ rest := by
    rw [hbytes, hend, List.drop_left]
  have hlength : decodeLength told r.status.code (wireFieldsOf r) =
      some (sentBody r head).length := by
    rw [decodeLength_serialize hr, sentBody]
    rcases htold with rfl | hempty
    · split <;> rfl
    · simp [hempty]
  have hfields := mapM_decodeField fun f hf => decodeField_wireField hr hf
  simp [decodeResponse, hfind, hsplit, hstatus, hfields, hlength, hdrop]

end Serialize

/-! ## What a connection writes -/

/-- What is asked of a service: a final status, and tokens for names, other than the
connection's own. -/
structure GoodResponse (r : Response) : Prop where
  status : 200 ≤ r.status.code ∧ r.status.code ≤ 599
  names : ∀ f ∈ r.headers, f.1 ≠ "" ∧ (utf8 f.1).all isTokenByte = true ∧
    eqIgnoreAsciiCase (utf8 f.1) (utf8 "connection") = false ∧
    eqIgnoreAsciiCase (utf8 f.1) (utf8 "date") = false ∧
    eqIgnoreAsciiCase (utf8 f.1) (utf8 "transfer-encoding") = false

/-- The value of the `Connection` field. -/
def connectionValue (close : Bool) : String := if close then "close" else "keep-alive"

/-- The names of the fields that are not the service's. -/
def protocolNames : List String :=
  ["Connection", "Date", "X-Content-Type-Options", "X-Frame-Options", "Referrer-Policy",
    "Content-Length"]

/-- `d` is the service's answer in `h`, on a connection that closes or not. -/
structure Delivers (h : Handled) (close : Bool) (d : DecodedResponse) : Prop where
  status : d.status = h.response.status.code
  fields : ∃ added, d.fields = (h.response.headers.filter Response.isWritten).map rawField ++ added ∧
    ∀ f ∈ added, ∃ name ∈ protocolNames, f.1 = utf8 name
  connection : fieldsCalled "connection" d.fields =
    [rawField ("Connection", connectionValue close)]
  length : fieldsCalled "content-length" d.fields =
    if h.response.status.isEmptyBody then []
    else [rawField ("Content-Length", toString h.response.body.length)]
  body : d.body =
    if h.request.method.isHead || h.response.status.isEmptyBody then [] else h.response.body

namespace Entry

/-- What a decoder is told about a write: nothing about an interim response. -/
def flag (e : Entry) : Option Bool :=
  match e.handled with
  | some h => some h.request.method.isHead
  | none => if e.close then some false else none

/-- `d` is what was meant by the write. -/
def Answers (e : Entry) (d : DecodedResponse) : Prop :=
  match e.handled with
  | some h => Delivers h e.close d
  | none =>
    if e.close then d.status = 417 ∨ ∃ err, d.status = (errorStatus err).code
    else d = ⟨100, [], []⟩

/-- The write is one response, whatever follows it. -/
structure Delimits (e : Entry) (d : DecodedResponse) : Prop where
  answers : e.Answers d
  nonempty : e.bytes ≠ []
  interim : e.flag = none ↔ 100 ≤ d.status ∧ d.status ≤ 199
  decodes : ∀ told, (∀ b, e.flag = some b → told = b) →
    ∀ rest, decodeResponse told (e.bytes ++ rest) = some (d, rest)

end Entry

section Writes

variable {r : Response} {now : Nat} {keepAlive : Bool} {policy : ResponsePolicy}

/-- The fields `finalize` appends. -/
def protocolHeaders (now : Nat) (keepAlive : Bool) (policy : ResponsePolicy) :
    List (String × String) :=
  ("Connection", connectionValue (!keepAlive)) ::
    ((if policy.hasClock then [("Date", httpDate now)] else []) ++
      if policy.securityHeaders then
        [("X-Content-Type-Options", "nosniff"), ("X-Frame-Options", "SAMEORIGIN"),
          ("Referrer-Policy", "strict-origin-when-cross-origin")]
      else [])

theorem finalize_eq (r : Response) (now : Nat) (keepAlive : Bool) (policy : ResponsePolicy) :
    finalize r now keepAlive policy =
      { r with headers := r.headers ++ protocolHeaders now keepAlive policy } := by
  rcases policy with ⟨security, clock⟩
  cases security <;> cases clock <;> cases keepAlive <;>
    simp [finalize, protocolHeaders, applySecurityHeaders, Response.withHeader, connectionValue]

theorem protocolHeaders_tail_names (now : Nat) (keepAlive : Bool) (policy : ResponsePolicy)
    {f : String × String} (hf : f ∈ (protocolHeaders now keepAlive policy).tail) : f.1 ∈ protocolNames.tail := by
  rw [protocolHeaders, List.tail_cons, List.mem_append] at hf
  rcases hf with hf | hf
  · split at hf
    · rw [List.mem_singleton.mp hf]
      exact List.mem_cons_self
    · simp at hf
  · split at hf
    · simp only [List.mem_cons, List.not_mem_nil, or_false] at hf
      rcases hf with rfl | rfl | rfl <;> decide
    · simp at hf

theorem protocolHeaders_names {f : String × String}
    (hf : f ∈ protocolHeaders now keepAlive policy) : f.1 ∈ protocolNames := by
  rcases List.mem_cons.mp hf with rfl | hmem
  · exact List.mem_cons_self
  · exact List.mem_of_mem_tail (protocolHeaders_tail_names now keepAlive policy hmem)

/-- The connection's own names are tokens, and none of them is a transfer coding. -/
theorem protocolNames_ok : ∀ name ∈ protocolNames, name ≠ "" ∧
    (utf8 name).all isTokenByte = true ∧
    eqIgnoreAsciiCase (utf8 name) (utf8 "transfer-encoding") = false := by
  decide +kernel

theorem protocolNames_tail_not_connection : ∀ name ∈ protocolNames.tail,
    eqIgnoreAsciiCase (utf8 name) (utf8 "connection") = false := by
  decide +kernel

/-- Finalizing keeps a response encodable. -/
theorem Encodable.finalize (hr : Encodable r) (now : Nat) (keepAlive : Bool)
    (policy : ResponsePolicy) : Encodable (finalize r now keepAlive policy) := by
  rw [finalize_eq]
  refine ⟨hr.status, ?_⟩
  intro f hf
  rcases List.mem_append.mp hf with hmem | hmem
  · exact hr.names f hmem
  · exact protocolNames_ok f.1 (protocolHeaders_names hmem)

theorem GoodResponse.encodable (hr : GoodResponse r) : Encodable r := by
  refine ⟨by have := hr.status; omega, ?_⟩
  intro f hf
  rcases hr.names f hf with ⟨hne, htoken, _, _, hte⟩
  exact ⟨hne, htoken, hte⟩

theorem encodable_text (status : StatusCode) (body : String)
    (h : 100 ≤ status.code ∧ status.code ≤ 999) : Encodable (Response.text status body) := by
  refine ⟨h, ?_⟩
  intro f hf
  rw [List.mem_singleton.mp hf]
  decide +kernel

/-- The wire fields of a finalized response: the service's, and the connection's own. -/
theorem wireFieldsOf_finalize (r : Response) (now : Nat) (keepAlive : Bool)
    (policy : ResponsePolicy) :
    wireFieldsOf (finalize r now keepAlive policy) =
      (r.headers.filter Response.isWritten).map rawField ++
        (((protocolHeaders now keepAlive policy).filter Response.isWritten).map rawField ++
          lengthFields r) := by
  rw [finalize_eq, wireFieldsOf]
  simp [lengthFields]

/-- The one `Connection` field of a finalized response. -/
theorem fieldsCalled_connection (hr : GoodResponse r) (now : Nat) (keepAlive : Bool)
    (policy : ResponsePolicy) :
    fieldsCalled "connection" (wireFieldsOf (finalize r now keepAlive policy)) =
      [rawField ("Connection", connectionValue (!keepAlive))] := by
  have hservice : fieldsCalled "connection"
      ((r.headers.filter Response.isWritten).map rawField) = [] := by
    apply fieldsCalled_rawField_eq_nil
    intro g hg
    exact (hr.names g (List.mem_filter.mp hg).1).2.2.1
  have hrest : fieldsCalled "connection"
      ((((protocolHeaders now keepAlive policy).tail).filter Response.isWritten).map rawField) =
        [] := by
    apply fieldsCalled_rawField_eq_nil
    intro g hg
    exact protocolNames_tail_not_connection g.1
      (protocolHeaders_tail_names now keepAlive policy (List.mem_filter.mp hg).1)
  have hlength : fieldsCalled "connection" (lengthFields r) = [] :=
    fieldsCalled_lengthFields_eq_nil r
      (protocolNames_tail_not_connection "Content-Length" (by decide))
  have hwritten : ∀ close, Response.isWritten ("Connection", connectionValue close) = true := by
    decide +kernel
  have hname : eqIgnoreAsciiCase (utf8 "Connection") (utf8 "connection") = true := by
    decide +kernel
  -- the protocol's fields start with the one looked for
  have hcons : protocolHeaders now keepAlive policy =
      ("Connection", connectionValue (!keepAlive)) :: (protocolHeaders now keepAlive policy).tail :=
    rfl
  rw [wireFieldsOf_finalize, fieldsCalled_append, fieldsCalled_append, hservice, hlength, hcons,
    List.filter_cons_of_pos (hwritten _), List.map_cons]
  unfold fieldsCalled at hrest ⊢
  rw [List.filter_cons_of_pos (by rw [rawField_fst]; exact hname), hrest]
  rfl

theorem bytes_ne_nil (r : Response) (head : Bool) : r.serialize head ≠ [] := by
  rw [serialize_eq, headBytes]
  simp [crlf]

/-- An interim 100 is a response to any decoder. -/
theorem delimits_continue :
    Entry.Delimits ⟨(Response.new ⟨100⟩).serialize false, false, none⟩ ⟨100, [], []⟩ := by
  have hr : Encodable (Response.new ⟨100⟩) := ⟨by decide, by simp [Response.new]⟩
  refine ⟨rfl, bytes_ne_nil (Response.new ⟨100⟩) false, by decide, ?_⟩
  intro told _ rest
  have hdecode : decodeResponse told ((Response.new ⟨100⟩).serialize false ++ rest) = _ :=
    decodeResponse_serialize hr (.inr rfl) rest
  exact hdecode

/-- A refusal is a response with its body: a 417 or the status of a parse error. -/
theorem delimits_refusal {status : StatusCode} {body : String}
    (hstatus : status.code = 417 ∨ ∃ err, status.code = (errorStatus err).code) :
    ∃ d, Entry.Delimits
      ⟨(finalize (Response.text status body) now false policy).serialize false, true, none⟩ d := by
  have hrange : 200 ≤ status.code ∧ status.code ≤ 599 := by
    rcases hstatus with h | ⟨err, h⟩
    · omega
    · rw [h]
      cases err <;> decide
  have hr := (encodable_text status body (by omega)).finalize now false policy
  have hcode : (finalize (Response.text status body) now false policy).status = status := by
    rw [finalize_eq]
    rfl
  refine ⟨_, ?_, bytes_ne_nil _ _, ?_, fun told htold rest =>
    decodeResponse_serialize hr (.inl (htold false rfl)) rest⟩
  · show _ ∨ _
    rw [hcode]
    exact hstatus
  · rw [hcode]
    constructor
    · rintro ⟨⟩
    · rintro ⟨_, hle⟩
      exact absurd (hrange.1.trans hle) (by decide)

/-- A dispatched request has the service's answer. -/
theorem delimits_dispatch {h : Handled} (hr : GoodResponse h.response) (keepAlive : Bool) :
    ∃ d, Entry.Delimits ⟨(finalize h.response now keepAlive policy).serialize
      h.request.method.isHead, !keepAlive, some h⟩ d := by
  have hencodable := hr.encodable.finalize now keepAlive policy
  have hconnection := fieldsCalled_connection hr now keepAlive policy
  have hlength := fieldsCalled_contentLength (finalize h.response now keepAlive policy)
  have hfields := wireFieldsOf_finalize h.response now keepAlive policy
  have hstatus : (finalize h.response now keepAlive policy).status = h.response.status := by
    rw [finalize_eq]
  have hbody : (finalize h.response now keepAlive policy).body = h.response.body := by
    rw [finalize_eq]
  refine ⟨_, ⟨?_, ⟨_, hfields, ?_⟩, hconnection, ?_, ?_⟩, bytes_ne_nil _ _, ?_, fun told htold rest =>
    decodeResponse_serialize hencodable (.inl (htold _ rfl)) rest⟩
  · exact congrArg StatusCode.code hstatus
  · intro f hf
    rcases List.mem_append.mp hf with hmem | hmem
    · rcases List.mem_map.mp hmem with ⟨g, hg, rfl⟩
      exact ⟨g.1, protocolHeaders_names (List.mem_filter.mp hg).1, rfl⟩
    · rw [eq_of_mem_lengthFields hmem]
      exact ⟨"Content-Length", by decide, rawField_fst _ _⟩
  · rw [hlength, lengthFields, hstatus, hbody]
  · show sentBody _ _ = _
    rw [sentBody, hstatus, hbody]
  · have hrange := hr.status
    show some _ = none ↔ _
    rw [hstatus]
    constructor
    · rintro ⟨⟩
    · rintro ⟨_, hle⟩
      exact absurd (hrange.1.trans hle) (by decide)

end Writes

/-! ## Runs -/

section Runs

variable {σ : Type} {t : Target} {svc : Service σ} {policy : ResponsePolicy} {maxBody : Nat}
  {peer : Bytes} {s s' : Session σ}

/-- The writes so far are responses, and only the last one may announce the close. -/
structure Delimited (s : Session σ) : Prop where
  entries : ∀ e ∈ s.log, ∃ d, e.Delimits d
  live : s.phase ≠ .closed → ∀ e ∈ s.log, e.close = false
  closeLast : ∀ e ∈ s.log.dropLast, e.close = false

/-- What is written by one step is one response. -/
theorem delimits_of_step {c : Connection} {state : σ} {now : Nat} {r : StepResult σ} {bytes : Bytes}
    {close : Bool} (good : ∀ state request ctx, GoodResponse (svc.handle state request ctx).1)
    (hstep : c.step t svc state now = .ok r) (hwrite : r.step = .write bytes close) :
    (∃ d, Entry.Delimits ⟨bytes, close, r.handled⟩ d) ∧
      ∀ h, r.handled = some h → ∃ state ctx, (svc.handle state h.request ctx).1 = h.response := by
  rcases Connection.step_cases hstep with ⟨_, rfl⟩ | ⟨request, n, _, rfl⟩ | ⟨e, _, rfl⟩
  · rcases Connection.stepPartial_cases c state now with heq | ⟨_, heq⟩ | heq
    · rw [heq] at hwrite
      cases hwrite
    · rw [heq] at hwrite ⊢
      cases hwrite
      exact ⟨⟨_, delimits_continue⟩, by simp⟩
    · rw [heq] at hwrite ⊢
      cases hwrite
      exact ⟨delimits_refusal (.inl rfl), by simp⟩
  · cases hwrite
    refine ⟨delimits_dispatch (h := ⟨request, _, c.buf.take n⟩) (good state request _) _, ?_⟩
    rintro h ⟨⟩
    exact ⟨state, _, rfl⟩
  · cases hwrite
    exact ⟨delimits_refusal (.inr ⟨e, rfl⟩), by simp [Connection.stepError]⟩

theorem Delimited.move (good : ∀ state request ctx, GoodResponse (svc.handle state request ctx).1)
    (h : Delimited s) (hmove : Session.Move t svc s s') : Delimited s' := by
  cases hmove with
  | feed data live => exact ⟨h.entries, fun _ => h.live live, h.closeLast⟩
  | needMore now due step verdict =>
    have hlive : s.phase ≠ .closed := by
      rw [due]
      decide
    rcases Connection.eq_of_needMore step verdict with ⟨_, rfl⟩
    rw [StepResult.unwritten_none, List.append_nil]
    exact ⟨h.entries, fun _ => h.live hlive, h.closeLast⟩
  | @write r bytes close now due step verdict =>
    rcases delimits_of_step good step verdict with ⟨hentry, _⟩
    have hlive : ∀ e ∈ s.log, e.close = false := h.live (by rw [due]; decide)
    refine ⟨?_, ?_, ?_⟩
    · intro e he
      rcases List.mem_append.mp he with hmem | hmem
      · exact h.entries e hmem
      · rw [List.mem_singleton.mp hmem]
        exact hentry
    · intro hopen e he
      have hclose : close = false := by
        cases close with
        | true => exact absurd rfl hopen
        | false => rfl
      rcases List.mem_append.mp he with hmem | hmem
      · exact hlive e hmem
      · rw [List.mem_singleton.mp hmem]
        exact hclose
    · rw [List.dropLast_concat]
      exact hlive

theorem delimited_of_run (good : ∀ state request ctx, GoodResponse (svc.handle state request ctx).1)
    {s₀ : σ} (run : Session.Run t svc policy maxBody peer s₀ s) : Delimited s := by
  induction run with
  | refl =>
    refine ⟨?_, ?_, ?_⟩ <;> simp [Session.start]
  | tail _ hmove ih => exact ih.move good hmove

/-- Writes that are responses decode one after another, and nothing is left over. -/
theorem decodeFrom_flatMap {log : List Entry} (h : ∀ e ∈ log, ∃ d, e.Delimits d) :
    ∀ fuel, (log.flatMap (·.bytes)).length < fuel →
      ∃ ds, decodeFrom fuel (log.filterMap Entry.flag) (log.flatMap (·.bytes)) = some ds ∧
        List.Forall₂ Entry.Answers log ds := by
  induction log with
  | nil =>
    intro fuel hfuel
    cases fuel with
    | zero => simp at hfuel
    | succ fuel => exact ⟨[], by simp [decodeFrom], .nil⟩
  | cons e es ih =>
    intro fuel hfuel
    rcases h e List.mem_cons_self with ⟨d, hd⟩
    have hpos : 0 < e.bytes.length := List.length_pos_iff.mpr hd.nonempty
    rw [List.flatMap_cons, List.length_append] at hfuel
    cases fuel with
    | zero => omega
    | succ fuel =>
      rcases ih (fun x hx => h x (List.mem_cons_of_mem _ hx)) fuel (by omega) with ⟨ds, hds, hall⟩
      refine ⟨d :: ds, ?_, .cons hd.answers hall⟩
      have hne : e.bytes ++ es.flatMap (·.bytes) ≠ [] := by simp [hd.nonempty]
      rw [List.flatMap_cons, decodeFrom, if_neg hne]
      cases hflag : e.flag with
      | none =>
        have hinterim := hd.interim.mp hflag
        rw [List.filterMap_cons_none hflag, hd.decodes _ (by simp [hflag])]
        simp only [hinterim, and_self, if_true, hds, Option.map_some]
      | some head =>
        have hfinal : ¬ (100 ≤ d.status ∧ d.status ≤ 199) := fun hin => by
          rw [hd.interim.mpr hin] at hflag
          cases hflag
        rw [List.filterMap_cons_some hflag, List.headD_cons, hd.decodes head (by simp [hflag])]
        simp only [hfinal, if_false, hds, Option.map_some]

/-- The response stream delimits itself: a decoder that is told which responses answer
HEAD reads one response for each write. The dispatches among the writes are, one for one
and in order, the calls that the service has in its own record, each with the answer that
it gave to this client in the state it was in; and only the last write may announce the
close. -/
theorem session_responses {s : Session (σ × List Exchange)}
    (good : ∀ state request ctx, GoodResponse (svc.handle state request ctx).1) {s₀ : σ}
    (run : Session.Run t svc.recorded policy maxBody peer (s₀, []) s) :
    (∃ ds, decodeStream (s.log.filterMap Entry.flag) (s.log.flatMap (·.bytes)) = some ds ∧
        List.Forall₂ Entry.Answers s.log ds) ∧
      s.dispatched.map (·.answered) = s.exchanges.map (·.answered) ∧
      svc.Replays s₀ s.exchanges s.service.1 ∧ (∀ x ∈ s.exchanges, x.ctx.peer = peer) ∧
      ∀ e ∈ s.log.dropLast, e.close = false := by
  have hgood : ∀ state request ctx, GoodResponse (svc.recorded.handle state request ctx).1 :=
    fun state request ctx => good state.1 request ctx
  have h := delimited_of_run hgood run
  have hrecorded := recorded_of_run run
  exact ⟨decodeFrom_flatMap h.entries _ (Nat.lt_succ_self _), hrecorded.logged,
    hrecorded.replayed, hrecorded.client, h.closeLast⟩

theorem okService_good (state : Unit) (request : Request) (ctx : RequestContext) :
    GoodResponse (okService.handle state request ctx).1 := by
  refine ⟨⟨Nat.le_refl 200, Nat.le_of_ble_eq_true rfl⟩, ?_⟩
  intro f hf
  rw [List.mem_singleton.mp hf]
  decide +kernel

theorem cutGet_responses : ∃ s : Session (Unit × List Exchange),
    s.fed = cutGet.1 ++ cutGet.2 ∧
      (∃ ds, decodeStream (s.log.filterMap Entry.flag) (s.log.flatMap (·.bytes)) = some ds ∧
        List.Forall₂ Entry.Answers s.log ds) ∧
      s.dispatched.map (·.answered) = s.exchanges.map (·.answered) ∧
      okService.Replays () s.exchanges s.service.1 ∧ (∀ x ∈ s.exchanges, x.ctx.peer = []) ∧
      ∀ e ∈ s.log.dropLast, e.close = false := by
  rcases cutGet_run with ⟨s, run, hfed, _⟩
  exact ⟨s, hfed, session_responses okService_good run⟩

end Runs

end FerroHttp
