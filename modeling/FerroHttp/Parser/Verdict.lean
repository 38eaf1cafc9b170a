import FerroHttp.Parser.Chunks
import FerroHttp.Parser.Grammar

/-!
# Parser.Verdict — what one parse attempt ends in

The verdict of `parseWith`, stage by stage, without machine arithmetic:

* `HeadAt t buf i h`: the head of `buf` is complete and accepted. Its blank line
  starts at `i`, and `h` is what was read from it;
* `parseWith_open`, `parseWith_badHead`, `parseWith_head`: the head decides first;
* `parseBody_fixed_*` and `parseBody_chunked`: then the body does;
* `parseWith_eq_complete_iff`: exactly when a request is complete, from which a
  complete request is seen to be stable under more input (`parseWith_complete_append`).

Buffers are `Addressable`: a slice holds at most half the words of its build.
-/

namespace FerroHttp

open Exec Text Search

/-- A slice is at most `isize::MAX` bytes long. -/
def Addressable (t : Target) (buf : Bytes) : Prop := 2 * buf.length < t.modulus

instance (t : Target) (buf : Bytes) : Decidable (Addressable t buf) :=
  inferInstanceAs (Decidable (_ < _))

theorem Addressable.length_lt {t : Target} {buf : Bytes} (h : Addressable t buf) :
    buf.length + 1 < t.modulus := by
  have hM := t.modulus_ge
  unfold Addressable at h
  omega

theorem Addressable.drop {t : Target} {buf : Bytes} (h : Addressable t buf) (n : Nat) :
    Addressable t (buf.drop n) := by
  unfold Addressable at h ⊢
  rw [List.length_drop]
  omega

theorem Addressable.of_append {t : Target} {buf ext : Bytes} (h : Addressable t (buf ++ ext)) :
    Addressable t buf := by
  unfold Addressable at h ⊢
  rw [List.length_append] at h
  omega

theorem blankLine_ne_nil : crlf ++ crlf ≠ [] := by simp [crlf]

/-! ## The head -/

/-- The blank line of `buf` starts at `i`, within the head limit, and `h` is read
from the head. -/
structure HeadAt (t : Target) (buf : Bytes) (i : Nat) (h : Head) : Prop where
  blank : FirstAt (crlf ++ crlf) buf i
  limit : i ≤ maxHeadBytes
  head : parseHead t (buf.take (i + 4)) = .ok h

/-- A blank line that has been found ends inside the buffer. -/
theorem blankLine_end_le {buf : Bytes} {i : Nat} (h : FirstAt (crlf ++ crlf) buf i) :
    i + 4 ≤ buf.length := by
  have hend := h.end_le blankLine_ne_nil
  simpa using hend

namespace HeadAt

variable {t : Target} {buf : Bytes} {i j : Nat} {h g : Head}

theorem end_le (hh : HeadAt t buf i h) : i + 4 ≤ buf.length := blankLine_end_le hh.blank

theorem unique (hh : HeadAt t buf i h) (hg : HeadAt t buf j g) : i = j ∧ h = g := by
  have hij := hh.blank.unique hg.blank
  subst hij
  exact ⟨rfl, Except.ok.inj (hh.head.symm.trans hg.head)⟩

/-- A `Content-Length` that was accepted is a word. -/
theorem len_lt (hh : HeadAt t buf i h) {len : Nat} (hf : h.framing = .fixed len) :
    len < t.modulus := by
  rcases parseHead_eq_ok_iff.mp hh.head with ⟨line, lines, hp⟩
  have hframed := bodyFraming_eq_ok_iff.mp hp.framing
  rw [hf] at hframed
  cases hframed with
  | none noTe noCl => exact t.modulus_pos
  | length noTe cl nonempty digits value word => exact word

/-- An accepted head stays accepted when more bytes arrive. -/
theorem append (hh : HeadAt t buf i h) (ext : Bytes) : HeadAt t (buf ++ ext) i h := by
  refine ⟨hh.blank.append blankLine_ne_nil, hh.limit, ?_⟩
  rw [List.take_append_of_le_length hh.end_le]
  exact hh.head

end HeadAt

/-- The head is read in the same way by the checked and the release build. -/
theorem parseHead_build (w : Width) (c c' : Bool) (head : Bytes) :
    parseHead ⟨w, c⟩ head = parseHead ⟨w, c'⟩ head := by
  have hmodulus : Target.modulus ⟨w, c⟩ = Target.modulus ⟨w, c'⟩ := rfl
  have hframing : ∀ headers, bodyFraming ⟨w, c⟩ headers = bodyFraming ⟨w, c'⟩ headers := by
    intro headers
    simp only [bodyFraming, hmodulus]
  unfold parseHead
  simp only [hframing]

theorem HeadAt.build {w : Width} {c c' : Bool} {buf : Bytes} {i : Nat} {h : Head}
    (hh : HeadAt ⟨w, c⟩ buf i h) : HeadAt ⟨w, c'⟩ buf i h := by
  have hhead := hh.head
  rw [parseHead_build w c c'] at hhead
  exact ⟨hh.blank, hh.limit, hhead⟩

section Verdict

variable {t : Target} {buf : Bytes} {maxBody i : Nat} {h : Head}

theorem parseWith_open (hno : ¬ crlf ++ crlf <:+: buf) :
    parseWith t buf maxBody =
      if maxHeadBytes < buf.length then .err .headTooLarge else .ok .partialRequest := by
  rw [parseWith, (findSubslice_eq_none blankLine_ne_nil).mpr hno]

theorem parseWith_blank (hbuf : Addressable t buf) (hi : FirstAt (crlf ++ crlf) buf i) :
    parseWith t buf maxBody =
      if maxHeadBytes < i then .err .headTooLarge
      else Outcome.ofExcept (parseHead t (buf.take (i + 4))) >>= parseBody t buf maxBody (i + 4) := by
  have hend := blankLine_end_le hi
  have hlen := hbuf.length_lt
  rw [parseWith, (findSubslice_eq_some blankLine_ne_nil).mpr hi]
  simp only
  rw [Target.add_of_lt (by omega), Outcome.ok_bind, Nat.add_sub_cancel, slice_zero hend]
  rfl

theorem parseWith_head (hbuf : Addressable t buf) (hh : HeadAt t buf i h) :
    parseWith t buf maxBody = parseBody t buf maxBody (i + 4) h := by
  have hlimit := hh.limit
  rw [parseWith_blank hbuf hh.blank, if_neg (by omega), hh.head]
  rfl

theorem parseWith_tooLarge (hbuf : Addressable t buf) (hi : FirstAt (crlf ++ crlf) buf i)
    (hlarge : maxHeadBytes < i) : parseWith t buf maxBody = .err .headTooLarge := by
  rw [parseWith_blank hbuf hi, if_pos hlarge]

theorem parseWith_badHead (hbuf : Addressable t buf) (hi : FirstAt (crlf ++ crlf) buf i)
    (hlimit : i ≤ maxHeadBytes) {e : ParseError}
    (he : parseHead t (buf.take (i + 4)) = .error e) : parseWith t buf maxBody = .err e := by
  rw [parseWith_blank hbuf hi, if_neg (by omega), he]
  rfl

/-- The head is still open, or too large, or rejected, or accepted. -/
theorem head_cases (t : Target) (buf : Bytes) :
    ¬ crlf ++ crlf <:+: buf ∨
      (∃ i, FirstAt (crlf ++ crlf) buf i ∧ maxHeadBytes < i) ∨
      (∃ i e, FirstAt (crlf ++ crlf) buf i ∧ i ≤ maxHeadBytes ∧
        parseHead t (buf.take (i + 4)) = .error e) ∨
      ∃ i h, HeadAt t buf i h := by
  by_cases hblank : crlf ++ crlf <:+: buf
  · rcases exists_firstAt_iff.mpr hblank with ⟨i, hi⟩
    by_cases hlimit : i ≤ maxHeadBytes
    · cases hp : parseHead t (buf.take (i + 4)) with
      | error e => exact .inr (.inr (.inl ⟨i, e, hi, hlimit, hp⟩))
      | ok h => exact .inr (.inr (.inr ⟨i, h, hi, hlimit, hp⟩))
    · exact .inr (.inl ⟨i, hi, by omega⟩)
  · exact .inl hblank

/-! ## The body -/

theorem parseBody_fixed_tooLarge {len headEnd : Nat} (hf : h.framing = .fixed len)
    (hlarge : maxBody < len) : parseBody t buf maxBody headEnd h = .err .bodyTooLarge := by
  rw [parseBody, hf]
  simp only
  rw [if_pos hlarge]

theorem parseBody_fixed {len headEnd : Nat} (hf : h.framing = .fixed len) (hlen : len ≤ maxBody)
    (hfits : headEnd + len < t.modulus) :
    parseBody t buf maxBody headEnd h =
      if buf.length < headEnd + len then .ok .partialRequest
      else .ok (.complete (h.request ((buf.drop headEnd).take len)) (headEnd + len)) := by
  rw [parseBody, hf]
  simp only
  rw [if_neg (by omega), Target.add_of_lt hfits, Outcome.ok_bind]
  by_cases hshort : buf.length < headEnd + len
  · rw [if_pos hshort, if_pos hshort]
  · rw [if_neg hshort, if_neg hshort, slice_of_le (by omega) (by omega), Outcome.ok_bind,
      Nat.add_sub_cancel_left]

/-- A length that does not fit in a word after the head is a panic in every build:
the wrapped end of the body is before its start. -/
theorem parseBody_fixed_overflow {len headEnd : Nat} (hf : h.framing = .fixed len)
    (hlen : len ≤ maxBody) (hword : len < t.modulus) (hend : headEnd ≤ buf.length)
    (hbuf : buf.length < t.modulus) (hover : t.modulus ≤ headEnd + len) :
    parseBody t buf maxBody headEnd h = .panic := by
  rw [parseBody, hf]
  simp only
  rw [if_neg (by omega), Target.add_of_ge hover (by omega)]
  cases t.checked with
  | true => rfl
  | false =>
    simp only [Bool.false_eq_true, if_false, Outcome.ok_bind]
    rw [if_neg (by omega), slice_of_lt (.inl (by omega))]
    rfl

/-- The positions of a chunked body are counted from the end of the head. -/
def Parsed.ofChunks (h : Head) (headEnd : Nat) : ChunkOutcome → Parsed
  | .partialBody => .partialRequest
  | .complete body consumed => .complete (h.request body) (headEnd + consumed)

theorem parseBody_chunked {headEnd : Nat} (hbuf : Addressable t buf)
    (hf : h.framing = .chunked) (hend : headEnd ≤ buf.length) :
    parseBody t buf maxBody headEnd h =
      (decodeChunked t (buf.drop headEnd) maxBody >>= fun o => .ok (.ofChunks h headEnd o)) := by
  rw [parseBody, hf]
  simp only
  rw [sliceFrom_of_le hend, Outcome.ok_bind]
  cases hd : decodeChunked t (buf.drop headEnd) maxBody with
  | ok o =>
    cases o with
    | partialBody => rfl
    | complete body consumed =>
      rw [decodeChunked_eq_complete_iff (hbuf.drop headEnd).length_lt] at hd
      rcases hd with ⟨_, _, tpos, _, _, _, hblank, rfl⟩
      have htpos := crlf_prefix_drop_end_le hblank
      have hlen := hbuf.length_lt
      rw [List.length_drop] at htpos
      simp only [Outcome.ok_bind]
      rw [Target.add_of_lt (by omega)]
      rfl
  | err e => rfl
  | panic => rfl
  | diverge => rfl

/-- Where a parse attempt stops, and with what. -/
inductive ParseStop (t : Target) (buf : Bytes) (maxBody : Nat) : Outcome ParseError Parsed → Prop
  | openHead (short : buf.length ≤ maxHeadBytes) : ParseStop t buf maxBody (.ok .partialRequest)
  | rejected (e : ParseError) : ParseStop t buf maxBody (.err e)
  | needBody {i : Nat} {h : Head} {len : Nat} (head : HeadAt t buf i h)
      (framing : h.framing = .fixed len) (limit : len ≤ maxBody)
      (short : buf.length < i + 4 + len) : ParseStop t buf maxBody (.ok .partialRequest)
  | fixed {i : Nat} {h : Head} {len : Nat} (head : HeadAt t buf i h)
      (framing : h.framing = .fixed len) (limit : len ≤ maxBody)
      (inside : i + 4 + len ≤ buf.length) :
      ParseStop t buf maxBody
        (.ok (.complete (h.request ((buf.drop (i + 4)).take len)) (i + 4 + len)))
  | overflow {i : Nat} {h : Head} {len : Nat} (head : HeadAt t buf i h)
      (framing : h.framing = .fixed len) (limit : len ≤ maxBody)
      (exceeds : t.modulus ≤ i + 4 + len) : ParseStop t buf maxBody .panic
  | chunked {i : Nat} {h : Head} {r : Outcome ParseError Parsed} (head : HeadAt t buf i h)
      (framing : h.framing = .chunked)
      (result : r = decodeChunked t (buf.drop (i + 4)) maxBody >>= fun o =>
        .ok (.ofChunks h (i + 4) o)) : ParseStop t buf maxBody r

/-- Every parse attempt stops at one of these places. -/
theorem parseStop_parseWith (hbuf : Addressable t buf) (maxBody : Nat) :
    ParseStop t buf maxBody (parseWith t buf maxBody) := by
  have hlen := hbuf.length_lt
  rcases head_cases t buf with hno | ⟨i, hi, hlarge⟩ | ⟨i, e, hi, hlimit, he⟩ | ⟨i, h, hh⟩
  · rw [parseWith_open hno]
    split
    · exact .rejected _
    · exact .openHead (by omega)
  · rw [parseWith_tooLarge hbuf hi hlarge]
    exact .rejected _
  · rw [parseWith_badHead hbuf hi hlimit he]
    exact .rejected e
  · have hend := hh.end_le
    rw [parseWith_head hbuf hh]
    cases hf : h.framing with
    | fixed len =>
      by_cases hlarge : maxBody < len
      · rw [parseBody_fixed_tooLarge hf hlarge]
        exact .rejected _
      · -- the limit is checked before the sum is taken
        have hle : len ≤ maxBody := by omega
        by_cases hfits : i + 4 + len < t.modulus
        · rw [parseBody_fixed hf hle hfits]
          split
          · exact .needBody hh hf hle (by assumption)
          · exact .fixed hh hf hle (by omega)
        · have hexceeds : t.modulus ≤ i + 4 + len := by omega
          rw [parseBody_fixed_overflow hf hle (hh.len_lt hf) hend (by omega) hexceeds]
          exact .overflow hh hf hle hexceeds
    | chunked => exact .chunked hh hf (parseBody_chunked hbuf hf hend)

/-! ## Complete requests -/

/-- Exactly when a request is complete. -/
theorem parseWith_eq_complete_iff (hbuf : Addressable t buf) {r : Request} {n : Nat} :
    parseWith t buf maxBody = .ok (.complete r n) ↔
      ∃ i h body, HeadAt t buf i h ∧ r = h.request body ∧
        ((∃ len, h.framing = .fixed len ∧ len ≤ maxBody ∧ i + 4 + len ≤ buf.length ∧
            body = (buf.drop (i + 4)).take len ∧ n = i + 4 + len) ∨
          (h.framing = .chunked ∧
            ∃ consumed, decodeChunked t (buf.drop (i + 4)) maxBody = .ok (.complete body consumed) ∧
              n = i + 4 + consumed)) := by
  have hlen := hbuf.length_lt
  constructor
  · intro hp
    have hstop := parseStop_parseWith hbuf maxBody
    rw [hp] at hstop
    rcases hstop with _ | _ | _ | ⟨hh, hf, hle, hin⟩ | _ | ⟨hh, hf, hr⟩
    · exact ⟨_, _, _, hh, rfl, .inl ⟨_, hf, hle, hin, rfl, rfl⟩⟩
    · rcases Outcome.bind_eq_ok.mp hr.symm with ⟨o, ho, hr⟩
      cases o with
      | partialBody => cases hr
      | complete body consumed =>
        cases hr
        exact ⟨_, _, body, hh, rfl, .inr ⟨hf, consumed, ho, rfl⟩⟩
  · rintro ⟨i, h, body, hh, rfl, ⟨len, hf, hle, hfit, rfl, rfl⟩ | ⟨hf, consumed, hd, rfl⟩⟩
    · rw [parseWith_head hbuf hh, parseBody_fixed hf hle (by omega), if_neg (by omega)]
    · rw [parseWith_head hbuf hh, parseBody_chunked hbuf hf hh.end_le, hd]
      rfl

/-- A complete request stays complete, and the same, when more bytes arrive. -/
theorem parseWith_complete_append {ext : Bytes} (hbuf : Addressable t (buf ++ ext)) {r : Request}
    {n : Nat} (hp : parseWith t buf maxBody = .ok (.complete r n)) :
    parseWith t (buf ++ ext) maxBody = .ok (.complete r n) := by
  rw [parseWith_eq_complete_iff hbuf.of_append] at hp
  rw [parseWith_eq_complete_iff hbuf]
  rcases hp with ⟨i, h, body, hh, rfl, hbody⟩
  have hend := hh.end_le
  have hdrop : (buf ++ ext).drop (i + 4) = buf.drop (i + 4) ++ ext :=
    List.drop_append_of_le_length hend
  refine ⟨i, h, body, hh.append ext, rfl, ?_⟩
  rcases hbody with ⟨len, hf, hle, hfit, rfl, rfl⟩ | ⟨hf, consumed, hd, rfl⟩
  · refine .inl ⟨len, hf, hle, ?_, ?_, rfl⟩
    · rw [List.length_append]
      omega
    · rw [hdrop, List.take_append_of_le_length (by rw [List.length_drop]; omega)]
  · refine .inr ⟨hf, consumed, ?_, rfl⟩
    have hrest := (hbuf.drop (i + 4)).length_lt
    rw [hdrop] at hrest ⊢
    rw [decodeChunked_eq_complete_iff (hbuf.of_append.drop (i + 4)).length_lt] at hd
    rw [decodeChunked_eq_complete_iff hrest]
    rcases hd with ⟨pos, lineLen, tpos, hchunks, hline, htrailers, hblank, rfl⟩
    have hblank' := crlf_prefix_drop_end_le hblank
    exact ⟨pos, lineLen, tpos, hchunks.append ext, hline.append ext, htrailers.append ext,
      (prefix_drop_append_iff hblank').mpr hblank, rfl⟩

/-- A complete request lies inside the buffer. -/
theorem parseWith_consumed_le (hbuf : Addressable t buf) {r : Request} {n : Nat}
    (hp : parseWith t buf maxBody = .ok (.complete r n)) : 0 < n ∧ n ≤ buf.length := by
  rw [parseWith_eq_complete_iff hbuf] at hp
  rcases hp with ⟨i, h, body, hh, _, ⟨len, _, _, hfit, _, rfl⟩ | ⟨_, consumed, hd, rfl⟩⟩
  · omega
  · rw [decodeChunked_eq_complete_iff (hbuf.drop (i + 4)).length_lt] at hd
    rcases hd with ⟨_, _, tpos, _, _, _, hblank, rfl⟩
    have hend := crlf_prefix_drop_end_le hblank
    rw [List.length_drop] at hend
    omega

end Verdict

end FerroHttp
