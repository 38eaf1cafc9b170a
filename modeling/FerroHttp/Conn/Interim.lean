import FerroHttp.Conn.Session
import FerroHttp.Parser.Expectations

/-!
# Conn.Interim — interim responses of a run

`continueSent` says that an interim 100 was written for the request in flight. Over any
run:

1. `Paced`: the invariant. There is one interim response since the last dispatch when
   the flag is set, and none when it is not; and while it is set, the head in the
   buffer is accepted and expects one;
2. `Paced.move`: every move keeps it. A dispatch resets the flag, and what it dispatches
   has the head that was scanned, since more bytes do not change an accepted head;
3. `interim_correct`: at most one interim response between two dispatches, only for a
   complete head that is not rejected, and only for a request that expects it.
-/

namespace FerroHttp

open Exec Text

/-- A write that neither dispatched nor announced the close. -/
def Entry.isInterim (e : Entry) : Bool := e.handled.isNone && !e.close

/-- The writes since the last dispatch. -/
def sinceDispatch (log : List Entry) : List Entry := log.rtakeWhile fun e => e.handled.isNone

/-- The interim responses since the last dispatch. -/
def interimsPending (log : List Entry) : Nat := (sinceDispatch log).countP Entry.isInterim

/-- A run whose buffers are slices. -/
def Session.SlicedRun {σ : Type} (t : Target) (svc : Service σ) (policy : ResponsePolicy)
    (maxBody : Nat) (peer : Bytes) (s₀ : σ) (s : Session σ) : Prop :=
  Relation.ReflTransGen (fun a b => Session.Move t svc a b ∧ Addressable t b.conn.buf)
    (Session.start policy maxBody peer s₀) s

/-- The step sent the interim response: the request is open, expects one and had none;
the flag is set, the buffer kept. -/
structure SendsInterim {σ : Type} (t : Target) (c : Connection) (r : StepResult σ) : Prop where
  parse : parseWith t c.buf c.maxBody = .ok .partialRequest
  expects : expectAction c.buf = .continue
  unsent : c.continueSent = false
  conn : r.conn = { c with continueSent := true }
  handled : r.handled = none
  verdict : r.step = .write ((Response.new ⟨100⟩).serialize false) false

/-- A write that keeps the connection open and is no dispatch is an interim response. -/
theorem sendsInterim_of_write {σ : Type} {t : Target} {c : Connection} {svc : Service σ} {s : σ}
    {now : Nat} {r : StepResult σ} {bytes : Bytes} (hstep : c.step t svc s now = .ok r)
    (hnone : r.handled = none) (hverdict : r.step = .write bytes false) : SendsInterim t c r := by
  rcases Connection.step_cases hstep with ⟨hp, rfl⟩ | ⟨request, n, _, rfl⟩ | ⟨e, _, rfl⟩
  · unfold Connection.stepPartial at hverdict ⊢
    cases hexpect : expectAction c.buf with
    | none =>
      rw [hexpect] at hverdict
      cases hverdict
    | unsupported =>
      rw [hexpect] at hverdict
      cases hverdict
    | «continue» =>
      cases hsent : c.continueSent with
      | true =>
        rw [hexpect, hsent] at hverdict
        cases hverdict
      | false => exact ⟨hp, hexpect, hsent, rfl, rfl, rfl⟩
  · cases hnone
  · cases hverdict

/-- The step that sends it. -/
theorem step_interim {σ : Type} {t : Target} {c : Connection} {svc : Service σ} {s : σ} {now : Nat}
    (hp : parseWith t c.buf c.maxBody = .ok .partialRequest)
    (hexpect : expectAction c.buf = .continue) (hsent : c.continueSent = false) :
    c.step t svc s now = .ok ⟨{ c with continueSent := true }, s,
      .write ((Response.new ⟨100⟩).serialize false) false, none⟩ := by
  rw [Connection.step, hp]
  simp only [Connection.stepPartial, hexpect, hsent, Bool.false_eq_true, if_false]

section Log

variable {log : List Entry} {e : Entry}

theorem sinceDispatch_dispatch (he : e.handled.isSome = true) : sinceDispatch (log ++ [e]) = [] := by
  have hnot : ¬ e.handled.isNone = true := by
    rw [Option.isNone_iff_eq_none]
    intro hnone
    rw [hnone] at he
    cases he
  exact List.rtakeWhile_concat_neg _ _ _ hnot

theorem sinceDispatch_notice (he : e.handled = none) :
    sinceDispatch (log ++ [e]) = sinceDispatch log ++ [e] := by
  apply List.rtakeWhile_concat_pos
  rw [he]
  rfl

theorem interimsPending_dispatch (he : e.handled.isSome = true) :
    interimsPending (log ++ [e]) = 0 := by
  rw [interimsPending, sinceDispatch_dispatch he]
  rfl

theorem interimsPending_notice (he : e.handled = none) :
    interimsPending (log ++ [e]) = interimsPending log + if e.isInterim then 1 else 0 := by
  rw [interimsPending, sinceDispatch_notice he, List.countP_append, List.countP_singleton]
  rfl

end Log

/-! ## The invariant -/

section Paced

variable {σ : Type} {t : Target} {svc : Service σ} {policy : ResponsePolicy} {maxBody : Nat}
  {peer : Bytes} {s s' : Session σ}

/-- The log of a session, as far as interim responses are concerned. -/
structure PacedLog (log : List Entry) : Prop where
  once : ∀ pre, pre <+: log → interimsPending pre ≤ 1
  expected : ∀ pre g h, pre ++ [g] <+: log → g.handled = some h → 0 < interimsPending pre →
    expectOfHeaders h.request.headers = .continue
  bytes : ∀ e ∈ log, e.isInterim = true → e.bytes = (Response.new ⟨100⟩).serialize false

/-- The flag counts the interim responses since the last dispatch, and the request in
flight expects the one there is. -/
structure Paced (t : Target) (s : Session σ) : Prop where
  addressable : Addressable t s.conn.buf
  log : PacedLog s.log
  flag : interimsPending s.log = if s.conn.continueSent then 1 else 0
  flight : s.conn.continueSent = true →
    ∃ i h, HeadAt t s.conn.buf i h ∧ expectOfHeaders h.headers = .continue

theorem pacedLog_nil : PacedLog [] := by
  constructor
  · intro pre hpre
    rw [List.prefix_nil.mp hpre]
    exact Nat.zero_le 1
  · intro pre g h hpre
    exact absurd (List.prefix_nil.mp hpre) (by simp)
  · intro e he
    exact absurd he List.not_mem_nil

/-- One more entry, of which the conditions have to be shown. -/
theorem PacedLog.concat {log : List Entry} {e : Entry} (hlog : PacedLog log)
    (honce : interimsPending (log ++ [e]) ≤ 1)
    (hexpected : ∀ h, e.handled = some h → 0 < interimsPending log →
      expectOfHeaders h.request.headers = .continue)
    (hbytes : e.isInterim = true → e.bytes = (Response.new ⟨100⟩).serialize false) :
    PacedLog (log ++ [e]) := by
  constructor
  · intro pre hpre
    rcases List.prefix_concat_iff.mp hpre with rfl | hpre
    · exact honce
    · exact hlog.once pre hpre
  · intro pre g h hpre hg hpending
    rcases List.prefix_concat_iff.mp hpre with heq | hpre
    · -- the new entry is the dispatch
      rcases List.append_inj' heq rfl with ⟨rfl, hlast⟩
      cases hlast
      exact hexpected h hg hpending
    · exact hlog.expected pre g h hpre hg hpending
  · intro x hx
    rcases List.mem_append.mp hx with hx | hx
    · exact hlog.bytes x hx
    · rw [List.mem_singleton.mp hx]
      exact hbytes

theorem paced_start (s₀ : σ) : Paced t (Session.start policy maxBody peer s₀) := by
  constructor
  · show 2 * 0 < t.modulus
    exact t.modulus_pos
  · exact pacedLog_nil
  · rfl
  · intro h
    cases h

/-- Feeding changes nothing in front of the new bytes. -/
theorem Paced.feed (h : Paced t s) (data : Bytes) (haddr : Addressable t (s.conn.feed data).buf) :
    Paced t { s with conn := s.conn.feed data, fed := s.fed ++ data, phase := .stepping } := by
  constructor
  · exact haddr
  · exact h.log
  · exact h.flag
  · intro hsent
    rcases h.flight hsent with ⟨i, head, hh, hexpects⟩
    exact ⟨i, head, hh.append data, hexpects⟩

/-- A write that is no dispatch leaves the buffer. -/
theorem Paced.notice {conn : Connection} {service : σ} {e : Entry} {phase : Phase}
    (h : Paced t s) (he : e.handled = none) (hbuf : conn.buf = s.conn.buf)
    (hcount : interimsPending s.log + (if e.isInterim then 1 else 0) =
      if conn.continueSent then 1 else 0)
    (hflight : conn.continueSent = true →
      ∃ i g, HeadAt t s.conn.buf i g ∧ expectOfHeaders g.headers = .continue)
    (hbytes : e.isInterim = true → e.bytes = (Response.new ⟨100⟩).serialize false) :
    Paced t ⟨conn, service, s.fed, s.log ++ [e], phase⟩ := by
  have hflag : interimsPending (s.log ++ [e]) = if conn.continueSent then 1 else 0 := by
    rw [interimsPending_notice he, hcount]
  constructor
  · show Addressable t conn.buf
    rw [hbuf]
    exact h.addressable
  · refine h.log.concat ?_ ?_ hbytes
    · rw [hflag]
      split
      · exact Nat.le_refl 1
      · exact Nat.zero_le 1
    · intro g hg
      rw [he] at hg
      cases hg
  · exact hflag
  · intro hsent
    show ∃ i g, HeadAt t conn.buf i g ∧ _
    rw [hbuf]
    exact hflight hsent

/-- A dispatched request has the head that was scanned while it was in flight. -/
theorem Paced.dispatch_expects (h : Paced t s) {request : Request} {consumed : Nat}
    (hp : parseWith t s.conn.buf s.conn.maxBody = .ok (.complete request consumed))
    (hpending : 0 < interimsPending s.log) : expectOfHeaders request.headers = .continue := by
  have hsent : s.conn.continueSent = true := by
    cases hsent : s.conn.continueSent with
    | true => rfl
    | false =>
      have hflag := h.flag
      rw [hsent] at hflag
      simp only [Bool.false_eq_true, if_false] at hflag
      omega
  rcases h.flight hsent with ⟨i, head, hh, hexpects⟩
  rcases (parseWith_eq_complete_iff h.addressable).mp hp with ⟨j, head', body, hh', rfl, _⟩
  rcases hh.unique hh' with ⟨_, rfl⟩
  exact hexpects

theorem Paced.dispatch {service : σ} {e : Entry} {phase : Phase} {handled : Handled}
    {consumed : Nat} (h : Paced t s)
    (hp : parseWith t s.conn.buf s.conn.maxBody = .ok (.complete handled.request consumed))
    (he : e.handled = some handled) :
    Paced t ⟨{ s.conn with buf := s.conn.buf.drop consumed, continueSent := false }, service,
      s.fed, s.log ++ [e], phase⟩ := by
  have hzero : interimsPending (s.log ++ [e]) = 0 := by
    apply interimsPending_dispatch
    rw [he]
    rfl
  constructor
  · exact h.addressable.drop consumed
  · refine h.log.concat ?_ ?_ ?_
    · rw [hzero]
      exact Nat.zero_le 1
    · intro g hg hpending
      rw [he] at hg
      cases hg
      exact h.dispatch_expects hp hpending
    · intro hinterim
      rw [Entry.isInterim, he] at hinterim
      cases hinterim
  · exact hzero
  · intro hsent
    cases hsent

/-- The interim response goes to an accepted head that expects it. -/
theorem Paced.interim {r : StepResult σ} {phase : Phase} (h : Paced t s)
    (hsends : SendsInterim t s.conn r) :
    Paced t ⟨r.conn, r.service, s.fed,
      s.log ++ [⟨(Response.new ⟨100⟩).serialize false, false, r.handled⟩], phase⟩ := by
  have hblank : crlf ++ crlf <:+: s.conn.buf := by
    by_contra hno
    have hnone := hsends.expects
    rw [expectAction_open hno] at hnone
    cases hnone
  rcases exists_headAt_of_partial h.addressable hsends.parse hblank with ⟨i, head, hh⟩
  have hexpects : expectOfHeaders head.headers = .continue := by
    rw [← hh.expectAction_eq]
    exact hsends.expects
  have hflag := h.flag
  rw [hsends.unsent] at hflag
  rw [hsends.conn, hsends.handled]
  refine h.notice rfl rfl ?_ (fun _ => ⟨i, head, hh, hexpects⟩) (fun _ => rfl)
  rw [hflag]
  rfl

/-- A step that writes keeps the invariant, whatever it writes. -/
theorem Paced.write {r : StepResult σ} {bytes : Bytes} {close : Bool} {now : Nat} {phase : Phase}
    (h : Paced t s) (step : s.conn.step t svc s.service now = .ok r)
    (verdict : r.step = .write bytes close) :
    Paced t ⟨r.conn, r.service, s.fed, s.log ++ [⟨bytes, close, r.handled⟩], phase⟩ := by
  rcases Connection.step_cases step with ⟨hp, rfl⟩ | ⟨request, n, hp, rfl⟩ | ⟨e, _, rfl⟩
  · rcases Connection.stepPartial_cases s.conn s.service now with heq | ⟨hsent, heq⟩ | heq
    · rw [heq] at verdict
      cases verdict
    · have hsends : SendsInterim t s.conn (s.conn.stepPartial s.service now) := by
        apply sendsInterim_of_write step
        · rw [heq]
        · rw [heq]
      cases hsends.verdict.symm.trans verdict
      exact h.interim hsends
    · -- a refusal
      rw [heq] at verdict ⊢
      cases verdict
      exact h.notice rfl rfl h.flag h.flight (fun hinterim => by cases hinterim)
  · cases verdict
    exact h.dispatch hp rfl
  · -- a parse error
    cases verdict
    exact h.notice rfl rfl h.flag h.flight (fun hinterim => by cases hinterim)

theorem Paced.move (h : Paced t s) (hmove : Session.Move t svc s s')
    (haddr : Addressable t s'.conn.buf) : Paced t s' := by
  cases hmove with
  | feed data live => exact h.feed data haddr
  | @needMore r now due step verdict =>
    -- a step that waits leaves the connection and the log alone
    rcases Connection.eq_of_needMore step verdict with ⟨_, rfl⟩
    rw [StepResult.unwritten_none, List.append_nil]
    exact ⟨h.addressable, h.log, h.flag, h.flight⟩
  | write now due step verdict => exact h.write step verdict

theorem paced_of_run {s₀ : σ} (run : Session.SlicedRun t svc policy maxBody peer s₀ s) :
    Paced t s := by
  induction run with
  | refl => exact paced_start s₀
  | tail _ hmove ih => exact ih.move hmove.1 hmove.2

/-- The first `Expect` of parsed headers, read as the source reads a header. -/
theorem expectOfHeaders_eq_continue_iff {r : Request} :
    expectOfHeaders r.headers = .continue ↔
      ∃ v, r.header "expect" = some v ∧ eqIgnoreAsciiCase (utf8 v) (utf8 "100-continue") = true := by
  unfold expectOfHeaders Request.header
  cases r.headers.find? (Header.named "expect") with
  | none => simp
  | some h =>
    simp only [Option.map_some, Option.some.injEq, exists_eq_left']
    split <;> simp_all

/-- Interim responses are sent correctly: over any run, at most one between two
dispatches, only where the buffered head is complete and not rejected, and only for a
request whose parsed headers expect it; the scan of the raw head never disagrees with
the parsed headers. -/
theorem interim_correct {s₀ : σ} (run : Session.SlicedRun t svc policy maxBody peer s₀ s) :
    (∀ pre, pre <+: s.log → interimsPending pre ≤ 1) ∧
    (∀ now r bytes, s.conn.step t svc s.service now = .ok r → r.handled = none →
      r.step = .write bytes false → bytes = (Response.new ⟨100⟩).serialize false ∧
        crlf ++ crlf <:+: s.conn.buf ∧
        parseWith t s.conn.buf s.conn.maxBody = .ok .partialRequest) ∧
    (∀ pre g h, pre ++ [g] <+: s.log → g.handled = some h → 0 < interimsPending pre →
      ∃ v, h.request.header "expect" = some v ∧
        eqIgnoreAsciiCase (utf8 v) (utf8 "100-continue") = true) ∧
    (∀ e ∈ s.log, e.isInterim = true → e.bytes = (Response.new ⟨100⟩).serialize false) ∧
    ∀ buf i h, HeadAt t buf i h → expectAction buf = expectOfHeaders h.headers := by
  have hpaced := paced_of_run run
  refine ⟨hpaced.log.once, ?_, ?_, hpaced.log.bytes, fun buf i h hh => hh.expectAction_eq⟩
  · intro now r bytes hstep hnone hverdict
    have hsends := sendsInterim_of_write hstep hnone hverdict
    refine ⟨?_, ?_, hsends.parse⟩
    · cases hsends.verdict.symm.trans hverdict
      rfl
    · by_contra hno
      have hexpects := hsends.expects
      rw [expectAction_open hno] at hexpects
      cases hexpects
  · intro pre g h hpre hg hpending
    exact expectOfHeaders_eq_continue_iff.mp (hpaced.log.expected pre g h hpre hg hpending)

/-- A request that expects the interim response, cut behind its head. -/
def expectingPost : Bytes × Bytes :=
  (utf8 "POST / HTTP/1.1\r\nHost: h\r\nContent-Length: 3\r\nExpect: 100-Continue\r\n\r\n", utf8 "abc")

def expectingRequest : Request :=
  ⟨.post, "/", .http11,
    [⟨"Host", "h"⟩, ⟨"Content-Length", "3"⟩, ⟨"Expect", "100-Continue"⟩], utf8 "abc"⟩

set_option maxRecDepth 10000 in
/-- The head draws the interim response, the body the final one. -/
theorem expectingPost_run : ∃ s : Session Unit, ∃ e g : Entry, ∃ h : Handled,
    Session.SlicedRun ⟨.w64, false⟩ okService ⟨false, false⟩ 16 [] () s ∧ s.log = [e, g] ∧
      e.isInterim = true ∧ g.handled = some h ∧ h.request = expectingRequest := by
  have hopen : parseWith ⟨.w64, false⟩ expectingPost.1 16 = .ok .partialRequest := by decide
  have hexpect : expectAction expectingPost.1 = .continue := by decide
  have hwhole : parseWith ⟨.w64, false⟩ (expectingPost.1 ++ expectingPost.2) 16 =
      .ok (.complete expectingRequest 72) := by decide
  have hhead : Addressable ⟨.w64, false⟩ expectingPost.1 := by decide
  have hall : Addressable ⟨.w64, false⟩ (expectingPost.1 ++ expectingPost.2) := by decide
  refine ⟨_, _, _, _, (((Relation.ReflTransGen.refl.tail
    ⟨.feed expectingPost.1 (by decide), hhead⟩).tail
    ⟨.write 0 rfl (step_interim hopen hexpect rfl) rfl, hhead⟩).tail
    ⟨.feed expectingPost.2 (by decide), hall⟩).tail
    ⟨.write 0 rfl (Connection.step_complete hwhole) rfl, by exact hall.drop 72⟩, rfl, rfl, rfl, rfl⟩

theorem expectingPost_interim : ∃ s : Session Unit, ∃ e g : Entry,
    s.log = [e, g] ∧ interimsPending [e] ≤ 1 ∧
      ∃ v, expectingRequest.header "expect" = some v ∧
        eqIgnoreAsciiCase (utf8 v) (utf8 "100-continue") = true := by
  rcases expectingPost_run with ⟨s, e, g, h, run, hlog, hinterim, hg, hrequest⟩
  have hcorrect := interim_correct run
  have hnone : e.handled = none := by
    rw [Entry.isInterim, Bool.and_eq_true] at hinterim
    exact Option.isNone_iff_eq_none.mp hinterim.1
  have hpending : interimsPending [e] = 1 := by
    have hcount : interimsPending ([] ++ [e]) = _ := interimsPending_notice hnone
    rw [List.nil_append, hinterim] at hcount
    exact hcount
  refine ⟨s, e, g, hlog, ?_, ?_⟩
  · exact hcorrect.1 [e] (by rw [hlog]; exact ⟨[g], rfl⟩)
  · rw [← hrequest]
    refine hcorrect.2.2.1 [e] g h ?_ hg (by omega)
    rw [hlog]
    exact List.prefix_rfl

end Paced

end FerroHttp
