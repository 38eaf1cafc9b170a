import FerroHttp.Conn.Interim
import FerroHttp.Conn.Responses
import FerroHttp.Transport.Output

/-!
# Conn.Refusal — expectations that cannot be met

A request with an `Expect` other than `100-continue` is refused with a 417. `step` looks
for one only while the request is incomplete, so what happens depends on how the bytes
arrive.

1. `advance_refuses`, `advance_waits`: one drive over an open request;
2. `refused_iff_of_feeds`: by induction on the feeds, the connection refuses the request
   exactly when some feed stops behind the head but inside the request
   (`StopsBehindHead`);
3. `refused_iff`: this, for a whole request over a fresh connection.
   `impossibleGet_dispatched` comes in one piece.
-/

namespace FerroHttp

open Exec Text Search

/-! ## Feeds -/

/-- Bytes, and the clock when they were fed. -/
structure Feed where
  bytes : Bytes
  now : Nat
deriving DecidableEq, Repr

/-- All bytes fed. -/
def bytesOf (feeds : List Feed) : Bytes := feeds.flatMap (·.bytes)

/-- Feed a connection and drive it after each feed, up to the close. -/
def serveFeeds {σ : Type} (t : Target) (svc : Service σ) :
    List Feed → Advance σ → Outcome Empty (Advance σ)
  | [], a => pure a
  | f :: fs, a =>
    if a.state.close then pure a
    else do
      let a' ← advance t svc f.now
        { a with state := { a.state with conn := a.state.conn.feed f.bytes } }
      serveFeeds t svc fs a'

/-- The answer to an expectation that cannot be met. -/
def refusal (policy : ResponsePolicy) (now : Nat) : Entry :=
  ⟨(finalize (Response.text ⟨417⟩ "417 Expectation Failed") now false policy).serialize false,
    true, none⟩

/-- A fresh connection answers 417, announces the close, and does nothing else; the service
is not asked. -/
def Refuses {σ : Type} (t : Target) (svc : Service σ) (policy : ResponsePolicy) (maxBody : Nat)
    (peer : Bytes) (s : σ) (feeds : List Feed) : Prop :=
  ∃ a now, serveFeeds t svc feeds
      ⟨⟨Connection.create policy maxBody peer, [], false, policy.hasClock⟩, s, []⟩ = .ok a ∧
    a.writes = [refusal policy now] ∧ a.service = s

/-- Behind some feed the head is complete and the request is not, and up to there all
that was fed is an open request. -/
def StopsBehindHead (t : Target) (maxBody : Nat) : Bytes → List Feed → Prop
  | _, [] => False
  | seen, f :: fs =>
    parseWith t (seen ++ f.bytes) maxBody = .ok .partialRequest ∧
      (crlf ++ crlf <:+: seen ++ f.bytes ∨ StopsBehindHead t maxBody (seen ++ f.bytes) fs)

/-! ## One drive -/

section Drive

variable {σ : Type} {t : Target} {svc : Service σ} {now : Nat} {a b : Advance σ}

/-- An open request that expects the impossible is refused. -/
theorem advance_refuses
    (hp : parseWith t a.state.conn.buf a.state.conn.maxBody = .ok .partialRequest)
    (hexpect : expectAction a.state.conn.buf = .unsupported) :
    ∃ b, advance t svc now a = .ok b ∧ b.state.close = true ∧
      b.writes = a.writes ++ [refusal a.state.conn.policy now] ∧ b.service = a.service := by
  have hstep : advanceStep t svc now a = .ok (.done ⟨{ a.state with
      out := a.state.out ++ (refusal a.state.conn.policy now).bytes, close := true }, a.service,
      a.writes ++ [refusal a.state.conn.policy now]⟩) := by
    rw [advanceStep, Connection.step, hp]
    simp only [Connection.stepPartial, hexpect]
    rfl
  exact ⟨_, runLoop_done hstep, rfl, rfl, rfl⟩

/-- An open request without a complete head waits. -/
theorem advance_waits
    (hp : parseWith t a.state.conn.buf a.state.conn.maxBody = .ok .partialRequest)
    (hnone : expectAction a.state.conn.buf = .none) : advance t svc now a = .ok a := by
  exact runLoop_done (advanceStep_waits (Connection.step_wait hp hnone))

/-- A report of a status starts with its status line. -/
theorem report_bytes (status : StatusCode) (body : String) (now : Nat) (policy : ResponsePolicy) :
    ∃ rest, (finalize (Response.text status body) now false policy).serialize false =
      statusLine status ++ rest := by
  rw [serialize_eq, headBytes, crlfLines, List.flatMap_cons, finalize_eq, List.append_assoc,
    List.append_assoc, List.append_assoc]
  exact ⟨_, rfl⟩

/-- The status lines of parse errors are not that of a 417. -/
theorem errorStatus_line (e : ParseError) : 12 ≤ (statusLine (errorStatus e)).length ∧
    (statusLine (errorStatus e)).take 12 ≠ (statusLine ⟨417⟩).take 12 := by
  cases e <;> decide

/-- No parse error is reported as a 417. -/
theorem error_ne_refusal (e : ParseError) (now now' : Nat) (policy policy' : ResponsePolicy) :
    (finalize (Response.text (errorStatus e) (errorStatus e).reason) now false policy).serialize false ≠
      (refusal policy' now').bytes := by
  intro heq
  rcases errorStatus_line e with ⟨hlen, hne⟩
  rcases report_bytes (errorStatus e) (errorStatus e).reason now policy with ⟨rest, hrest⟩
  rcases report_bytes ⟨417⟩ "417 Expectation Failed" now' policy' with ⟨rest', hrest'⟩
  have hlines : statusLine (errorStatus e) ++ rest = statusLine ⟨417⟩ ++ rest' := by
    rw [← hrest, ← hrest', heq]
    rfl
  have htake := congrArg (List.take 12) hlines
  rw [List.take_append_of_le_length hlen, List.take_append_of_le_length (by decide)] at htake
  exact hne htake

/-- A step over anything but an open request writes something else than a refusal. -/
theorem step_ne_refusal {c : Connection} {s : σ} {r : StepResult σ}
    (hstep : c.step t svc s now = .ok r)
    (hp : parseWith t c.buf c.maxBody ≠ .ok .partialRequest) :
    ∃ bytes close, r.step = .write bytes close ∧
      ∀ policy now', (⟨bytes, close, r.handled⟩ : Entry) ≠ refusal policy now' := by
  rcases Connection.step_cases hstep with ⟨hopen, _⟩ | ⟨request, n, _, rfl⟩ | ⟨e, _, rfl⟩
  · exact absurd hopen hp
  · refine ⟨_, _, rfl, ?_⟩
    intro policy now' heq
    cases congrArg Entry.handled heq
  · refine ⟨_, _, rfl, ?_⟩
    intro policy now' heq
    exact error_ne_refusal e now now' c.policy policy (congrArg Entry.bytes heq)

theorem drives_ne_refusal {c c' : Connection} {s s' : σ} {log : List Entry} {closed : Bool}
    (h : Drives t svc now c s c' s' log closed)
    (hp : parseWith t c.buf c.maxBody ≠ .ok .partialRequest) :
    ∃ x rest, log = x :: rest ∧ ∀ policy now', x ≠ refusal policy now' := by
  cases h with
  | wait step verdict =>
    rcases step_ne_refusal step hp with ⟨bytes, close, hwrite, _⟩
    rw [hwrite] at verdict
    cases verdict
  | close step verdict =>
    rcases step_ne_refusal step hp with ⟨bytes, close, hwrite, hne⟩
    cases hwrite.symm.trans verdict
    exact ⟨_, _, rfl, hne⟩
  | more step verdict rest =>
    rcases step_ne_refusal step hp with ⟨bytes, close, hwrite, hne⟩
    cases hwrite.symm.trans verdict
    exact ⟨_, _, rfl, hne⟩

/-- So does a drive. -/
theorem advance_ne_refusal (h : advance t svc now a = .ok b)
    (hp : parseWith t a.state.conn.buf a.state.conn.maxBody ≠ .ok .partialRequest) :
    ∃ x rest, b.writes = a.writes ++ x :: rest ∧ ∀ policy now', x ≠ refusal policy now' := by
  rcases drives_of_advance h with ⟨log, closed, hdriven⟩
  rcases drives_ne_refusal hdriven.drives hp with ⟨x, rest, hlog, hne⟩
  exact ⟨x, rest, by rw [hdriven.writes, hlog], hne⟩

end Drive

/-! ## All feeds -/

section Feeds

variable {σ : Type} {t : Target} {svc : Service σ} {a b : Advance σ} {wire : Bytes} {i : Nat}
  {h : Head}

/-- What has been written stays in front. -/
theorem serveFeeds_writes (feeds : List Feed) (hserve : serveFeeds t svc feeds a = .ok b) :
    a.writes <+: b.writes := by
  induction feeds generalizing a with
  | nil =>
    cases hserve
    exact List.prefix_rfl
  | cons f fs ih =>
    rw [serveFeeds] at hserve
    split at hserve
    · cases hserve
      exact List.prefix_rfl
    · rcases Outcome.bind_eq_ok.mp hserve with ⟨a', hadvance, hrest⟩
      rcases drives_of_advance hadvance with ⟨log, closed, hdriven⟩
      have hwrites : a'.writes = a.writes ++ log := hdriven.writes
      exact (List.prefix_append a.writes log).trans (hwrites ▸ ih hrest)

/-- Behind the close nothing is fed. -/
theorem serveFeeds_closed (feeds : List Feed) (hclose : a.state.close = true) :
    serveFeeds t svc feeds a = .ok a := by
  cases feeds with
  | nil => rfl
  | cons f fs =>
    rw [serveFeeds, if_pos hclose]
    rfl

/-- An open request that expects the impossible is refused, and nothing comes after it. -/
theorem refuses_of_open {now : Nat} (feeds : List Feed) (hempty : a.writes = [])
    (hp : parseWith t a.state.conn.buf a.state.conn.maxBody = .ok .partialRequest)
    (hexpect : expectAction a.state.conn.buf = .unsupported) :
    ∃ b, (advance t svc now a >>= serveFeeds t svc feeds) = .ok b ∧
      b.writes = [refusal a.state.conn.policy now] ∧ b.service = a.service := by
  rcases @advance_refuses _ t svc now a hp hexpect with ⟨b, hadvance, hclosed, hwrote, hservice⟩
  rw [hempty, List.nil_append] at hwrote
  refine ⟨b, ?_, hwrote, hservice⟩
  rw [hadvance, Outcome.ok_bind]
  exact serveFeeds_closed feeds hclosed

/-- Where a dispatch or a parse error comes first, no refusal is all that is written. -/
theorem not_refuses_of_settled {now : Nat} {feeds : List Feed} (hempty : a.writes = [])
    (hp : parseWith t a.state.conn.buf a.state.conn.maxBody ≠ .ok .partialRequest)
    (hserved : (advance t svc now a >>= serveFeeds t svc feeds) = .ok b)
    (policy : ResponsePolicy) (now' : Nat) : b.writes ≠ [refusal policy now'] := by
  intro hrefusal
  rcases Outcome.bind_eq_ok.mp hserved with ⟨a', hadvance, hrest⟩
  rcases advance_ne_refusal hadvance hp with ⟨x, rest, hwrote, hne⟩
  rw [hempty, List.nil_append] at hwrote
  have hprefix := serveFeeds_writes feeds hrest
  rw [hwrote, hrefusal, List.cons_prefix_cons] at hprefix
  exact hne policy now' hprefix.1

/-- In front of the end of a request, the head is that of the request. -/
theorem expectAction_inside {buf : Bytes} {maxBody : Nat} (hh : HeadAt t wire i h)
    (hbuf : Addressable t wire) (hpre : buf <+: wire) (hblank : crlf ++ crlf <:+: buf)
    (hp : parseWith t buf maxBody = .ok .partialRequest) :
    expectAction buf = expectOfHeaders h.headers := by
  rcases hpre with ⟨ext, rfl⟩
  rcases exists_headAt_of_partial hbuf.of_append hp hblank with ⟨j, g, hg⟩
  rcases hh.unique (hg.append ext) with ⟨_, rfl⟩
  exact hg.expectAction_eq

/-- The refusal depends on where the feeds stop. -/
theorem refused_iff_of_feeds (hh : HeadAt t wire i h) (hbuf : Addressable t wire)
    (hexpect : expectOfHeaders h.headers = .unsupported) (feeds : List Feed) :
    ∀ a : Advance σ, a.writes = [] → a.state.close = false →
      a.state.conn.buf ++ bytesOf feeds <+: wire →
      ((∃ b now, serveFeeds t svc feeds a = .ok b ∧
          b.writes = [refusal a.state.conn.policy now] ∧ b.service = a.service) ↔
        StopsBehindHead t a.state.conn.maxBody a.state.conn.buf feeds) := by
  induction feeds with
  | nil =>
    intro a hwrites _ _
    refine iff_of_false ?_ id
    rintro ⟨b, now, hserve, hrefusal, _⟩
    cases hserve
    rw [hwrites] at hrefusal
    cases hrefusal
  | cons f fs ih =>
    intro a hwrites hclose hpre
    have hnext : a.state.conn.buf ++ f.bytes ++ bytesOf fs <+: wire := by
      rw [List.append_assoc]
      exact hpre
    generalize hfed : (⟨{ a.state with conn := a.state.conn.feed f.bytes }, a.service, a.writes⟩ :
      Advance σ) = fed
    have hconn : fed.state.conn = a.state.conn.feed f.bytes := by rw [← hfed]
    have hserve : serveFeeds t svc (f :: fs) a =
        advance t svc f.now fed >>= serveFeeds t svc fs := by
      rw [serveFeeds, hclose, ← hfed]
      rfl
    have hbytes : fed.state.conn.buf = a.state.conn.buf ++ f.bytes := by
      rw [hconn, Connection.feed_buf]
    have hlimit : fed.state.conn.maxBody = a.state.conn.maxBody := by
      rw [hconn, Connection.feed_maxBody]
    have hpolicy : fed.state.conn.policy = a.state.conn.policy := by
      rw [hconn, Connection.feed_policy]
    have hservice : fed.service = a.service := by rw [← hfed]
    have hempty : fed.writes = [] := by
      rw [← hfed]
      exact hwrites
    have hstart : fed.state.close = false := by
      rw [← hfed]
      exact hclose
    rw [hserve, StopsBehindHead, ← hbytes, ← hlimit, ← hpolicy, ← hservice]
    by_cases hp : parseWith t fed.state.conn.buf fed.state.conn.maxBody = .ok .partialRequest
    · by_cases hblank : crlf ++ crlf <:+: fed.state.conn.buf
      · -- the head is there, the body is not: the refusal, and nothing after it
        have hexpects : expectAction fed.state.conn.buf = .unsupported := by
          have hpre' : fed.state.conn.buf <+: wire := by
            rw [hbytes]
            exact (List.prefix_append _ _).trans hnext
          rw [expectAction_inside hh hbuf hpre' hblank hp, hexpect]
        rcases refuses_of_open fs hempty hp hexpects with ⟨b, hserved, hwrote, hkept⟩
        exact iff_of_true ⟨b, f.now, hserved, hwrote, hkept⟩ ⟨hp, Or.inl hblank⟩
      · -- the head is still open
        rw [advance_waits hp (expectAction_open hblank), Outcome.ok_bind]
        have hrest := ih fed hempty hstart (by rw [hbytes]; exact hnext)
        rw [hrest]
        constructor
        · intro hstops
          exact ⟨hp, Or.inr hstops⟩
        · intro hstops
          exact hstops.2.resolve_left hblank
    · -- a dispatch or a parse error comes first
      refine iff_of_false ?_ (fun hstops => hp hstops.1)
      rintro ⟨b, now, hserved, hrefusal, _⟩
      exact not_refuses_of_settled hempty hp hserved fed.state.conn.policy now hrefusal

/-- A request with an expectation that cannot be met is refused exactly when some feed
stops behind its head but before its end. -/
theorem refused_iff {maxBody : Nat} {request : Request} {feeds : List Feed} {expectation : String}
    (hbuf : Addressable t wire)
    (hp : parseWith t wire maxBody = .ok (.complete request wire.length))
    (hexpect : request.header "expect" = some expectation)
    (hunsupported : eqIgnoreAsciiCase (utf8 expectation) (utf8 "100-continue") = false)
    (hfeeds : bytesOf feeds = wire) (svc : Service σ) (policy : ResponsePolicy) (peer : Bytes)
    (s : σ) : Refuses t svc policy maxBody peer s feeds ↔ StopsBehindHead t maxBody [] feeds := by
  rcases (parseWith_eq_complete_iff hbuf).mp hp with ⟨i, h, body, hh, rfl, _⟩
  have hheaders : expectOfHeaders h.headers = .unsupported := by
    rcases Option.map_eq_some_iff.mp hexpect with ⟨g, hg, rfl⟩
    have hfind : h.headers.find? (Header.named "expect") = some g := hg
    rw [expectOfHeaders, hfind]
    simp only [hunsupported, Bool.false_eq_true, if_false]
  refine refused_iff_of_feeds hh hbuf hheaders feeds _ rfl rfl ?_
  rw [← hfeeds]
  exact List.prefix_rfl

/-- A whole request in one feed. -/
def impossibleGet : Bytes := utf8 "GET / HTTP/1.1\r\nHost: h\r\nExpect: x\r\n\r\n"

def impossibleRequest : Request := ⟨.get, "/", .http11, [⟨"Host", "h"⟩, ⟨"Expect", "x"⟩], []⟩

set_option maxRecDepth 10000 in
theorem impossibleGet_parse : parseWith ⟨.w64, false⟩ impossibleGet 16 =
    .ok (.complete impossibleRequest impossibleGet.length) := by decide

set_option maxRecDepth 10000 in
theorem impossibleGet_requests :
    (serveFeeds ⟨.w64, false⟩ okService [⟨impossibleGet, 0⟩]
        ⟨⟨Connection.create ⟨false, false⟩ 16 [], [], false, false⟩, (), []⟩ >>=
      fun a => pure (a.writes.map fun e => e.handled.map (·.request))) =
        .ok [some impossibleRequest] := by decide

/-- It is dispatched, and not refused. -/
theorem impossibleGet_dispatched :
    impossibleRequest.header "expect" = some "x" ∧
      ¬ Refuses ⟨.w64, false⟩ okService ⟨false, false⟩ 16 [] () [⟨impossibleGet, 0⟩] := by
  refine ⟨by decide, ?_⟩
  intro hrefuses
  rcases hrefuses with ⟨a, now, hserve, hwrites, _⟩
  have hrequests := impossibleGet_requests
  rw [hserve, Outcome.ok_bind, hwrites] at hrequests
  cases hrequests

theorem impossibleGet_refused_iff :
    Refuses ⟨.w64, false⟩ okService ⟨false, false⟩ 16 [] () [⟨impossibleGet, 0⟩] ↔
      StopsBehindHead ⟨.w64, false⟩ 16 [] [⟨impossibleGet, 0⟩] := by
  have hexpect : impossibleRequest.header "expect" = some "x" := by decide
  have hunsupported : eqIgnoreAsciiCase (utf8 "x") (utf8 "100-continue") = false := by decide
  have hfeeds : bytesOf [⟨impossibleGet, 0⟩] = impossibleGet := by decide
  exact refused_iff (by decide) impossibleGet_parse hexpect hunsupported hfeeds okService
    ⟨false, false⟩ [] ()

end Feeds

end FerroHttp
