import FerroHttp.Conn
import FerroHttp.Parser.Verdict

/-!
# Conn.Session — runs of a connection

A `Session` is a connection under some driver: bytes are fed in pieces of any size,
and after a feed the connection is stepped until it needs more or announces the
close. `Session.Move` has one case for each thing that can happen, so a run is a
chain of moves, with any segmentation, any clock and any service.

What was dispatched is what the service was asked, so it is read off the service:
`Service.recorded` keeps a record of its calls, out of the reach of the connection.

1. `step_cases` / `stepPartial_cases`: everything one step can do;
2. `requestsOf`: the reference, which reads all requests from one buffer, and
   `Consumes`, which reads them one by one off a stream;
3. `Tracks`: the invariant that ties a session to the reference. It speaks about
   every continuation of the stream, which is what makes it survive a feed;
4. `Recorded`: the log of a session and the service's own record agree;
5. `session_dispatch`: what was dispatched does not depend on the segmentation.
-/

namespace FerroHttp

open Exec Text

/-! ## What a step can do -/

namespace Connection

variable {σ : Type} {t : Target} {c : Connection} {svc : Service σ} {s : σ} {now : Nat}
  {r : StepResult σ}

/-- A step reports on an open request, dispatches a complete one, or rejects. -/
theorem step_cases (h : c.step t svc s now = .ok r) :
    (parseWith t c.buf c.maxBody = .ok .partialRequest ∧ r = c.stepPartial s now) ∨
      (∃ request consumed, parseWith t c.buf c.maxBody = .ok (.complete request consumed) ∧
        r = c.stepComplete svc s now request consumed) ∨
      ∃ e, parseWith t c.buf c.maxBody = .err e ∧ r = c.stepError s now e := by
  unfold step at h
  cases hp : parseWith t c.buf c.maxBody with
  | ok p =>
    rw [hp] at h
    cases p with
    | partialRequest =>
      cases h
      exact .inl ⟨rfl, rfl⟩
    | complete request consumed =>
      cases h
      exact .inr (.inl ⟨request, consumed, rfl, rfl⟩)
  | err e =>
    rw [hp] at h
    cases h
    exact .inr (.inr ⟨e, rfl, rfl⟩)
  | panic =>
    rw [hp] at h
    cases h
  | diverge =>
    rw [hp] at h
    cases h

/-- The three reports on an open request: wait, an interim 100, a refusal. None of
them touches the buffer or the service. -/
theorem stepPartial_cases (c : Connection) (s : σ) (now : Nat) :
    c.stepPartial s now = ⟨c, s, .needMore, none⟩ ∨
      (c.continueSent = false ∧ c.stepPartial s now = ⟨{ c with continueSent := true }, s,
        .write ((Response.new ⟨100⟩).serialize false) false, none⟩) ∨
      c.stepPartial s now = ⟨c, s, .write ((finalize (Response.text ⟨417⟩ "417 Expectation Failed")
        now false c.policy).serialize false) true, none⟩ := by
  unfold stepPartial
  cases expectAction c.buf with
  | none => exact .inl rfl
  | «continue» =>
    cases hsent : c.continueSent with
    | true => exact .inl rfl
    | false => exact .inr (.inl ⟨rfl, rfl⟩)
  | unsupported => exact .inr (.inr rfl)

/-- A step that waits has seen an open request, and changes nothing. -/
theorem eq_of_needMore (h : c.step t svc s now = .ok r) (hverdict : r.step = .needMore) :
    parseWith t c.buf c.maxBody = .ok .partialRequest ∧ r = ⟨c, s, .needMore, none⟩ := by
  rcases step_cases h with ⟨hp, rfl⟩ | ⟨request, consumed, _, rfl⟩ | ⟨e, _, rfl⟩
  · rcases stepPartial_cases c s now with heq | ⟨_, heq⟩ | heq
    · exact ⟨hp, heq⟩
    · rw [heq] at hverdict
      cases hverdict
    · rw [heq] at hverdict
      cases hverdict
  · cases hverdict
  · cases hverdict

theorem step_wait (hp : parseWith t c.buf c.maxBody = .ok .partialRequest)
    (hnone : expectAction c.buf = .none) :
    c.step t svc s now = .ok ⟨c, s, .needMore, none⟩ := by
  rw [step, hp]
  simp only [stepPartial, hnone]

theorem step_complete {request : Request} {consumed : Nat}
    (hp : parseWith t c.buf c.maxBody = .ok (.complete request consumed)) :
    c.step t svc s now = .ok (c.stepComplete svc s now request consumed) := by
  rw [step, hp]

/-- What a step rejects: a parse error, or an open request with an expectation that
cannot be met. -/
def Rejects (t : Target) (c : Connection) : Prop :=
  (∃ e, parseWith t c.buf c.maxBody = .err e) ∨
    (parseWith t c.buf c.maxBody = .ok .partialRequest ∧ expectAction c.buf = .unsupported)

/-- A step that does not reject closes only behind a dispatch. -/
theorem rejects_or_handled {bytes : Bytes} (h : c.step t svc s now = .ok r)
    (hverdict : r.step = .write bytes true) :
    (c.Rejects t ∧ r.handled = none) ∨ ∃ g, r.handled = some g ∧ ¬ c.Rejects t := by
  rcases step_cases h with ⟨hp, rfl⟩ | ⟨request, consumed, hp, rfl⟩ | ⟨e, hp, rfl⟩
  · unfold stepPartial at hverdict ⊢
    cases haction : expectAction c.buf with
    | none => simp [haction] at hverdict
    | «continue» => cases hsent : c.continueSent <;> simp [haction, hsent] at hverdict
    | unsupported => exact .inl ⟨.inr ⟨hp, haction⟩, rfl⟩
  · refine .inr ⟨_, rfl, ?_⟩
    rintro (⟨e, he⟩ | ⟨hopen, _⟩)
    · rw [hp] at he
      cases he
    · rw [hp] at hopen
      cases hopen
  · exact .inl ⟨.inl ⟨e, hp⟩, rfl⟩

end Connection

/-! ## Calls of a service -/

/-- One call of a service, with its answer. -/
structure Exchange where
  request : Request
  ctx : RequestContext
  response : Response
deriving DecidableEq, Repr

/-- The service, with a record of its calls in its own state. No caller can ask it
anything without leaving a trace. -/
def Service.recorded {σ : Type} (svc : Service σ) : Service (σ × List Exchange) where
  handle s request ctx :=
    let (response, state) := svc.handle s.1 request ctx
    (response, state, s.2 ++ [⟨request, ctx, response⟩])

/-- Exchanges one after another, each with the service's answer in the state it was in. -/
inductive Service.Replays {σ : Type} (svc : Service σ) : σ → List Exchange → σ → Prop
  | nil (s : σ) : Replays svc s [] s
  | snoc {s₀ s : σ} {xs : List Exchange} (before : Replays svc s₀ xs s) (request : Request)
      (ctx : RequestContext) :
      Replays svc s₀ (xs ++ [⟨request, ctx, (svc.handle s request ctx).1⟩])
        (svc.handle s request ctx).2

/-! ## Sessions -/

/-- Where the driver of a connection stands: free to feed, due to step, or done. -/
inductive Phase where
  | waiting
  | stepping
  | closed
deriving DecidableEq, Repr

/-- One write: its bytes, whether it announced the close, and what was dispatched. -/
structure Entry where
  bytes : Bytes
  close : Bool
  handled : Option Handled
deriving DecidableEq, Repr

/-- What a step that writes nothing leaves in a log: what it dispatched, if anything. -/
def StepResult.unwritten {σ : Type} (r : StepResult σ) : List Entry :=
  r.handled.toList.map fun h => ⟨[], false, some h⟩

@[simp] theorem StepResult.unwritten_none {σ : Type} (c : Connection) (s : σ) (step : Step) :
    StepResult.unwritten ⟨c, s, step, none⟩ = [] := rfl

/-- A connection, its service, the bytes fed so far, and the writes so far. -/
structure Session (σ : Type) where
  conn : Connection
  service : σ
  fed : Bytes
  log : List Entry
  phase : Phase

namespace Session

variable {σ : Type}

/-- A fresh connection. -/
def start (policy : ResponsePolicy) (maxBody : Nat) (peer : Bytes) (s : σ) : Session σ :=
  ⟨Connection.create policy maxBody peer, s, [], [], .waiting⟩

/-- What can happen to a session. -/
inductive Move (t : Target) (svc : Service σ) : Session σ → Session σ → Prop
  | feed {s : Session σ} (data : Bytes) (live : s.phase ≠ .closed) :
      Move t svc s { s with conn := s.conn.feed data, fed := s.fed ++ data, phase := .stepping }
  | needMore {s : Session σ} {r : StepResult σ} (now : Nat) (due : s.phase = .stepping)
      (step : s.conn.step t svc s.service now = .ok r) (verdict : r.step = .needMore) :
      Move t svc s { s with
        conn := r.conn, service := r.service, log := s.log ++ r.unwritten, phase := .waiting }
  | write {s : Session σ} {r : StepResult σ} {bytes : Bytes} {close : Bool} (now : Nat)
      (due : s.phase = .stepping) (step : s.conn.step t svc s.service now = .ok r)
      (verdict : r.step = .write bytes close) :
      Move t svc s ⟨r.conn, r.service, s.fed, s.log ++ [⟨bytes, close, r.handled⟩],
        if close then .closed else .stepping⟩

/-- A run from a fresh connection. -/
def Run (t : Target) (svc : Service σ) (policy : ResponsePolicy) (maxBody : Nat) (peer : Bytes)
    (s₀ : σ) (s : Session σ) : Prop :=
  Relation.ReflTransGen (Move t svc) (start policy maxBody peer s₀) s

/-- What the log has on dispatched requests, in order. -/
def dispatched (s : Session σ) : List Handled := s.log.filterMap (·.handled)

/-- The requests of these, in order. -/
def requests (s : Session σ) : List Request := s.dispatched.map (·.request)

/-- The bytes the dispatched requests took from the buffer. -/
def consumed (s : Session σ) : Bytes := s.dispatched.flatMap (·.consumed)

/-- What the service has in its own record. -/
def exchanges (s : Session (σ × List Exchange)) : List Exchange := s.service.2

/-- The run ended in a rejection: the step that closed the connection saw one. -/
def EndedByRejection (t : Target) (svc : Service σ) (policy : ResponsePolicy) (maxBody : Nat)
    (peer : Bytes) (s₀ : σ) (s : Session σ) : Prop :=
  s.phase = .closed ∧ ∃ before, Run t svc policy maxBody peer s₀ before ∧ Move t svc before s ∧
    before.conn.Rejects t

end Session

/-! ## The reference -/

/-- Parse requests from one buffer, one after another. -/
def requestsFrom (t : Target) (maxBody : Nat) : Nat → Bytes → List Request
  | 0, _ => []
  | fuel + 1, buf =>
    match parseWith t buf maxBody with
    | .ok (.complete request consumed) =>
      request :: if request.keepAlive then requestsFrom t maxBody fuel (buf.drop consumed) else []
    | _ => []

/-- The requests of a whole stream: up to the first that is not complete, or that
closes the connection. Every request takes a byte at least. -/
def requestsOf (t : Target) (maxBody : Nat) (stream : Bytes) : List Request :=
  requestsFrom t maxBody (stream.length + 1) stream

section Reference

variable {t : Target} {maxBody : Nat} {buf : Bytes}

theorem requestsFrom_of_lt {n m : Nat} (hbuf : Addressable t buf) (hn : buf.length < n)
    (hm : buf.length < m) : requestsFrom t maxBody n buf = requestsFrom t maxBody m buf := by
  induction n generalizing m buf with
  | zero => omega
  | succ n ih =>
    cases m with
    | zero => omega
    | succ m =>
      unfold requestsFrom
      cases hp : parseWith t buf maxBody with
      | ok p =>
        cases p with
        | partialRequest => rfl
        | complete request consumed =>
          rcases parseWith_consumed_le hbuf hp with ⟨hpos, hle⟩
          have hlen : (buf.drop consumed).length = buf.length - consumed := List.length_drop
          simp only
          rw [ih (hbuf.drop consumed) (m := m) (by omega) (by omega)]
      | err e => rfl
      | panic => rfl
      | diverge => rfl

theorem requestsOf_complete (hbuf : Addressable t buf) {request : Request} {consumed : Nat}
    (hp : parseWith t buf maxBody = .ok (.complete request consumed)) :
    requestsOf t maxBody buf =
      request :: if request.keepAlive then requestsOf t maxBody (buf.drop consumed) else [] := by
  rcases parseWith_consumed_le hbuf hp with ⟨hpos, hle⟩
  have hlen : (buf.drop consumed).length = buf.length - consumed := List.length_drop
  rw [requestsOf, requestsFrom, hp]
  simp only [requestsOf]
  rw [requestsFrom_of_lt (n := buf.length) (m := (buf.drop consumed).length + 1)
    (hbuf.drop consumed) (by omega) (by omega)]

theorem requestsOf_partial (hp : parseWith t buf maxBody = .ok .partialRequest) :
    requestsOf t maxBody buf = [] := by
  rw [requestsOf, requestsFrom, hp]

end Reference

/-- The requests at the start of a stream, one behind the other: each is what the parser
finds where the one before it ended. -/
inductive Consumes (t : Target) (maxBody : Nat) : Bytes → List Handled → Bytes → Prop
  | nil (stream : Bytes) : Consumes t maxBody stream [] stream
  | cons {stream rest : Bytes} {h : Handled} {hs : List Handled} {n : Nat}
      (parsed : parseWith t stream maxBody = .ok (.complete h.request n))
      (taken : h.consumed = stream.take n) (later : Consumes t maxBody (stream.drop n) hs rest) :
      Consumes t maxBody stream (h :: hs) rest

section Consumes

variable {σ : Type} {t : Target} {svc : Service σ} {maxBody now : Nat} {a b c stream rest ext : Bytes}
  {hs hs' : List Handled} {conn : Connection} {s : σ}

theorem Consumes.trans (h : Consumes t maxBody a hs b) (h' : Consumes t maxBody b hs' c) :
    Consumes t maxBody a (hs ++ hs') c := by
  induction h with
  | nil stream => exact h'
  | cons parsed taken later ih => exact .cons parsed taken (ih h')

/-- More bytes behind a stream stay behind what is left of it. -/
theorem Consumes.append (h : Consumes t maxBody stream hs rest)
    (haddr : Addressable t (stream ++ ext)) :
    Consumes t maxBody (stream ++ ext) hs (rest ++ ext) := by
  induction h with
  | nil stream => exact .nil _
  | @cons stream rest h hs n parsed taken later ih =>
    -- what was parsed ended before the bytes that were added
    have hle := (parseWith_consumed_le haddr.of_append parsed).2
    have hdrop : (stream ++ ext).drop n = stream.drop n ++ ext :=
      List.drop_append_of_le_length hle
    refine .cons (parseWith_complete_append haddr parsed) ?_ ?_
    · rw [taken, List.take_append_of_le_length hle]
    · rw [hdrop]
      apply ih
      rw [← hdrop]
      exact haddr.drop n

/-- One step takes a request off the buffer, or leaves the buffer alone. -/
theorem consumes_of_step {r : StepResult σ} (hstep : conn.step t svc s now = .ok r) :
    r.conn.maxBody = conn.maxBody ∧ r.conn.policy = conn.policy ∧
      Consumes t conn.maxBody conn.buf r.handled.toList r.conn.buf := by
  rcases Connection.step_cases hstep with ⟨_, rfl⟩ | ⟨request, n, hp, rfl⟩ | ⟨e, _, rfl⟩
  · rcases Connection.stepPartial_cases conn s now with heq | ⟨_, heq⟩ | heq
    · rw [heq]
      exact ⟨rfl, rfl, .nil _⟩
    · rw [heq]
      exact ⟨rfl, rfl, .nil _⟩
    · rw [heq]
      exact ⟨rfl, rfl, .nil _⟩
  · exact ⟨rfl, rfl, .cons hp rfl (.nil _)⟩
  · exact ⟨rfl, rfl, .nil _⟩

end Consumes

/-! ## Sessions against the reference -/

section Tracks

variable {σ : Type} {t : Target} {svc : Service σ} {policy : ResponsePolicy} {maxBody : Nat}
  {peer : Bytes} {s s' : Session σ}

/-- A session follows the reference: what was fed is what was consumed and what is
buffered, and as long as the connection is open the requests of any continuation of
the stream are those dispatched and those of what the buffer will then hold. -/
structure Tracks (t : Target) (maxBody : Nat) (s : Session σ) : Prop where
  limit : s.conn.maxBody = maxBody
  conserved : s.fed = s.consumed ++ s.conn.buf
  ahead : s.phase ≠ .closed → ∀ ext, Addressable t (s.fed ++ ext) →
    requestsOf t maxBody (s.fed ++ ext) = s.requests ++ requestsOf t maxBody (s.conn.buf ++ ext)
  waiting : s.phase = .waiting → requestsOf t maxBody s.conn.buf = []
  closed : s.phase = .closed → Addressable t s.fed →
    s.requests <+: requestsOf t maxBody s.fed ∧
      ((∃ e h, s.log.getLast? = some e ∧ e.handled = some h) →
        s.requests = requestsOf t maxBody s.fed)

theorem requestsOf_nil (t : Target) (maxBody : Nat) : requestsOf t maxBody [] = [] := by
  apply requestsOf_partial
  rw [parseWith_open (by simp [crlf]), if_neg (by simp)]

theorem tracks_start (s₀ : σ) : Tracks t maxBody (Session.start policy maxBody peer s₀) := by
  constructor
  · rfl
  · rfl
  · intro _ ext _
    rfl
  · intro _
    exact requestsOf_nil t maxBody
  · intro h
    cases h

/-- A suffix of a slice is one. -/
theorem Addressable.of_suffix {a b : Bytes} (h : Addressable t (a ++ b)) : Addressable t b := by
  unfold Addressable at h ⊢
  rw [List.length_append] at h
  omega

/-- Feeding moves the boundary between what was fed and what is still to come. -/
theorem Tracks.feed (h : Tracks t maxBody s) (data : Bytes) (live : s.phase ≠ .closed) :
    Tracks t maxBody
      { s with conn := s.conn.feed data, fed := s.fed ++ data, phase := .stepping } := by
  constructor
  · exact h.limit
  · show s.fed ++ data = s.consumed ++ (s.conn.buf ++ data)
    rw [h.conserved, List.append_assoc]
  · intro _ ext hext
    show requestsOf t maxBody (s.fed ++ data ++ ext) =
      s.requests ++ requestsOf t maxBody (s.conn.buf ++ data ++ ext)
    rw [List.append_assoc] at hext ⊢
    rw [List.append_assoc]
    exact h.ahead live (data ++ ext) hext
  · intro hphase
    cases hphase
  · intro hphase
    cases hphase

/-- A step that waits leaves a buffer without a complete request. -/
theorem Tracks.needMore {r : StepResult σ} {now : Nat} (h : Tracks t maxBody s)
    (due : s.phase = .stepping) (hstep : s.conn.step t svc s.service now = .ok r)
    (hverdict : r.step = .needMore) :
    Tracks t maxBody { s with
      conn := r.conn, service := r.service, log := s.log ++ r.unwritten, phase := .waiting } := by
  rcases Connection.eq_of_needMore hstep hverdict with ⟨hp, rfl⟩
  have hopen : s.phase ≠ .closed := by
    rw [due]
    decide
  rw [h.limit] at hp
  rw [StepResult.unwritten_none, List.append_nil]
  constructor
  · exact h.limit
  · exact h.conserved
  · intro _
    exact h.ahead hopen
  · intro _
    exact requestsOf_partial hp
  · intro hphase
    cases hphase

/-- A write that dispatched nothing and keeps the buffer: an interim 100, which leaves
the connection open, or a refusal, which closes it. -/
theorem Tracks.notice {conn : Connection} {service : σ} {bytes : Bytes} {close : Bool}
    (h : Tracks t maxBody s) (due : s.phase = .stepping) (hbuf : conn.buf = s.conn.buf)
    (hlimit : conn.maxBody = s.conn.maxBody) :
    Tracks t maxBody ⟨conn, service, s.fed, s.log ++ [⟨bytes, close, none⟩],
      if close then .closed else .stepping⟩ := by
  have hopen : s.phase ≠ .closed := by
    rw [due]
    decide
  have hdispatched : Session.dispatched ⟨conn, service, s.fed, s.log ++ [⟨bytes, close, none⟩],
      if close then .closed else .stepping⟩ = s.dispatched := by
    simp [Session.dispatched]
  constructor
  · exact hlimit.trans h.limit
  · rw [Session.consumed, hdispatched, hbuf]
    exact h.conserved
  · intro _ ext hext
    rw [Session.requests, hdispatched, hbuf]
    exact h.ahead hopen ext hext
  · intro hphase
    cases close <;> cases hphase
  · intro _ haddr
    rw [Session.requests, hdispatched]
    constructor
    · -- the requests still in the buffer come after those dispatched
      have hahead := h.ahead hopen [] (by rwa [List.append_nil])
      rw [List.append_nil] at hahead
      exact ⟨_, hahead.symm⟩
    · rintro ⟨e, g, he, hg⟩
      rw [List.getLast?_concat] at he
      cases he
      cases hg

/-- A complete request at the start of the buffer is the next one of the stream, and
the last one if the client does not keep the connection. -/
theorem Tracks.ahead_complete {request : Request} {consumed : Nat} (h : Tracks t maxBody s)
    (hopen : s.phase ≠ .closed)
    (hp : parseWith t s.conn.buf maxBody = .ok (.complete request consumed)) (ext : Bytes)
    (hext : Addressable t (s.fed ++ ext)) :
    requestsOf t maxBody (s.fed ++ ext) = s.requests ++ request ::
      if request.keepAlive then requestsOf t maxBody (s.conn.buf.drop consumed ++ ext) else [] := by
  have hbuf : Addressable t (s.conn.buf ++ ext) := by
    rw [h.conserved, List.append_assoc] at hext
    exact hext.of_suffix
  have hle := (parseWith_consumed_le hbuf.of_append hp).2
  rw [h.ahead hopen ext hext, requestsOf_complete hbuf (parseWith_complete_append hbuf hp),
    List.drop_append_of_le_length hle]

/-- A dispatch takes the first request of the buffer, whatever comes after it. -/
theorem Tracks.dispatch {service : σ} {bytes : Bytes} {request : Request} {response : Response}
    {consumed : Nat} {continueSent : Bool} (h : Tracks t maxBody s) (due : s.phase = .stepping)
    (hp : parseWith t s.conn.buf s.conn.maxBody = .ok (.complete request consumed)) :
    Tracks t maxBody
      ⟨{ s.conn with buf := s.conn.buf.drop consumed, continueSent := continueSent }, service,
        s.fed, s.log ++ [⟨bytes, !request.keepAlive,
          some ⟨request, response, s.conn.buf.take consumed⟩⟩],
        if !request.keepAlive then .closed else .stepping⟩ := by
  have hopen : s.phase ≠ .closed := by
    rw [due]
    decide
  rw [h.limit] at hp
  generalize hs' : (⟨{ s.conn with buf := s.conn.buf.drop consumed, continueSent := continueSent },
    service, s.fed, s.log ++ [⟨bytes, !request.keepAlive,
      some ⟨request, response, s.conn.buf.take consumed⟩⟩],
    if !request.keepAlive then .closed else .stepping⟩ : Session σ) = s'
  have hconn : s'.conn.buf = s.conn.buf.drop consumed := by rw [← hs']
  have hfed : s'.fed = s.fed := by rw [← hs']
  have hphase : s'.phase = if !request.keepAlive then .closed else .stepping := by rw [← hs']
  have hrequests : s'.requests = s.requests ++ [request] := by
    rw [← hs']
    simp [Session.requests, Session.dispatched]
  have hconsumed : s'.consumed = s.consumed ++ s.conn.buf.take consumed := by
    rw [← hs']
    simp [Session.consumed, Session.dispatched]
  constructor
  · rw [← hs']
    exact h.limit
  · rw [hfed, hconsumed, hconn, List.append_assoc, List.take_append_drop]
    exact h.conserved
  · intro hlive ext hext
    rw [hfed] at hext ⊢
    rw [h.ahead_complete hopen hp ext hext, hrequests, hconn]
    cases hkeep : request.keepAlive with
    | true => simp
    | false =>
      rw [hphase, hkeep] at hlive
      exact absurd rfl hlive
  · intro hwait
    rw [hphase] at hwait
    cases hkeep : request.keepAlive <;> rw [hkeep] at hwait <;> cases hwait
  · -- the connection closes because this request is the last one
    intro hclosed haddr
    rw [hfed] at haddr ⊢
    have hkeep : request.keepAlive = false := by
      rw [hphase] at hclosed
      cases hkeep : request.keepAlive with
      | true =>
        rw [hkeep] at hclosed
        cases hclosed
      | false => rfl
    have hall := h.ahead_complete hopen hp [] (by rwa [List.append_nil])
    rw [List.append_nil, hkeep, if_neg (by simp)] at hall
    rw [hall, hrequests]
    exact ⟨List.prefix_rfl, fun _ => rfl⟩

/-- Every move keeps the session on the reference. -/
theorem Tracks.move (h : Tracks t maxBody s) (hmove : Session.Move t svc s s') :
    Tracks t maxBody s' := by
  cases hmove with
  | feed data live => exact h.feed data live
  | needMore now due step verdict => exact h.needMore due step verdict
  | @write r bytes close now due step verdict =>
    rcases Connection.step_cases step with ⟨_, rfl⟩ | ⟨request, n, hp, rfl⟩ | ⟨e, _, rfl⟩
    · rcases Connection.stepPartial_cases s.conn s.service now with heq | ⟨_, heq⟩ | heq
      · rw [heq] at verdict
        cases verdict
      · rw [heq] at verdict ⊢
        cases verdict
        exact h.notice due rfl rfl
      · rw [heq] at verdict ⊢
        cases verdict
        exact h.notice due rfl rfl
    · cases verdict
      exact h.dispatch due hp
    · cases verdict
      exact h.notice due rfl rfl

theorem tracks_of_run {s₀ : σ} (run : Session.Run t svc policy maxBody peer s₀ s) :
    Tracks t maxBody s := by
  induction run with
  | refl => exact tracks_start s₀
  | tail _ hmove ih => exact ih.move hmove

/-- What was fed is the dispatched requests, each where the parser finds it, and the buffer. -/
theorem consumes_of_run {s₀ : σ} (run : Session.Run t svc policy maxBody peer s₀ s)
    (haddr : Addressable t s.fed) : Consumes t maxBody s.fed s.dispatched s.conn.buf := by
  induction run with
  | refl => exact .nil _
  | @tail before after run hmove ih =>
    have hlimit := (tracks_of_run run).limit
    cases hmove with
    | feed data live => exact (ih haddr.of_append).append haddr
    | @needMore r now due step verdict =>
      rcases Connection.eq_of_needMore step verdict with ⟨_, rfl⟩
      rw [StepResult.unwritten_none, List.append_nil]
      exact ih haddr
    | @write r bytes close now due step verdict =>
      have hstep := (consumes_of_step step).2.2
      rw [hlimit] at hstep
      have hdispatched : Session.dispatched ⟨r.conn, r.service, before.fed,
          before.log ++ [⟨bytes, close, r.handled⟩], if close then .closed else .stepping⟩ =
          before.dispatched ++ r.handled.toList := by
        cases hhandled : r.handled <;> simp [Session.dispatched]
      rw [hdispatched]
      exact (ih haddr).trans hstep

end Tracks

/-! ## Sessions against the service's record -/

def Handled.answered (h : Handled) : Request × Response := (h.request, h.response)

def Exchange.answered (x : Exchange) : Request × Response := (x.request, x.response)

section Recorded

variable {σ : Type} {t : Target} {svc : Service σ} {policy : ResponsePolicy} {maxBody : Nat}
  {peer : Bytes} {s₀ : σ} {s s' : Session (σ × List Exchange)}

/-- The service's record is a history of its answers to this client, and the log of the
session has the same exchanges in the same order. -/
structure Recorded (svc : Service σ) (s₀ : σ) (peer : Bytes) (s : Session (σ × List Exchange)) :
    Prop where
  connected : s.conn.peer = peer
  replayed : svc.Replays s₀ s.exchanges s.service.1
  logged : s.dispatched.map (·.answered) = s.exchanges.map (·.answered)
  client : ∀ x ∈ s.exchanges, x.ctx.peer = peer

/-- A step asks the service nothing, or one thing, and says so. -/
theorem exchanges_of_step {c : Connection} {state : σ × List Exchange} {now : Nat}
    {r : StepResult (σ × List Exchange)} (h : c.step t svc.recorded state now = .ok r) :
    r.conn.peer = c.peer ∧ ((r.handled = none ∧ r.service = state) ∨
      ∃ g, r.handled = some g ∧ g.response = (svc.handle state.1 g.request ⟨c.peer, now⟩).1 ∧
        r.service = ((svc.handle state.1 g.request ⟨c.peer, now⟩).2,
          state.2 ++ [⟨g.request, ⟨c.peer, now⟩, g.response⟩])) := by
  rcases Connection.step_cases h with ⟨_, rfl⟩ | ⟨request, n, _, rfl⟩ | ⟨e, _, rfl⟩
  · rcases Connection.stepPartial_cases c state now with heq | ⟨_, heq⟩ | heq <;> rw [heq]
    · exact ⟨rfl, .inl ⟨rfl, rfl⟩⟩
    · exact ⟨rfl, .inl ⟨rfl, rfl⟩⟩
    · exact ⟨rfl, .inl ⟨rfl, rfl⟩⟩
  · exact ⟨rfl, .inr ⟨_, rfl, rfl, rfl⟩⟩
  · exact ⟨rfl, .inl ⟨rfl, rfl⟩⟩

/-- Whatever a step leaves in the log, it agrees with what the service was asked. -/
theorem Recorded.step {r : StepResult (σ × List Exchange)} {now : Nat} {entries : List Entry}
    {phase : Phase} (h : Recorded svc s₀ peer s)
    (hstep : s.conn.step t svc.recorded s.service now = .ok r)
    (hentries : entries.filterMap (·.handled) = r.handled.toList) :
    Recorded svc s₀ peer ⟨r.conn, r.service, s.fed, s.log ++ entries, phase⟩ := by
  have hlogged : Session.dispatched ⟨r.conn, r.service, s.fed, s.log ++ entries, phase⟩ =
      s.dispatched ++ r.handled.toList := by
    rw [Session.dispatched, List.filterMap_append, hentries]
    rfl
  rcases exchanges_of_step hstep with ⟨hpeer, ⟨hnone, hservice⟩ | ⟨g, hsome, hanswer, hservice⟩⟩
  · rw [hnone, Option.toList_none, List.append_nil] at hlogged
    refine ⟨hpeer.trans h.connected, ?_, ?_, ?_⟩
    · rw [Session.exchanges, hservice]
      exact h.replayed
    · rw [hlogged, Session.exchanges, hservice]
      exact h.logged
    · rw [Session.exchanges, hservice]
      exact h.client
  · have hexchanges : Session.exchanges ⟨r.conn, r.service, s.fed, s.log ++ entries, phase⟩ =
        s.exchanges ++ [⟨g.request, ⟨s.conn.peer, now⟩, g.response⟩] := by
      rw [Session.exchanges, hservice]
      rfl
    refine ⟨hpeer.trans h.connected, ?_, ?_, ?_⟩
    · rw [hexchanges, hservice, hanswer]
      exact .snoc h.replayed g.request ⟨s.conn.peer, now⟩
    · rw [hlogged, hexchanges, hsome, List.map_append, List.map_append, h.logged]
      rfl
    · rw [hexchanges]
      intro x hx
      rcases List.mem_append.mp hx with hx | hx
      · exact h.client x hx
      · rw [List.mem_singleton.mp hx]
        exact h.connected

theorem Recorded.move (h : Recorded svc s₀ peer s) (hmove : Session.Move t svc.recorded s s') :
    Recorded svc s₀ peer s' := by
  cases hmove with
  | feed data live => exact ⟨h.connected, h.replayed, h.logged, h.client⟩
  | @needMore r now due step verdict =>
    refine h.step step ?_
    cases hhandled : r.handled <;> simp [StepResult.unwritten, hhandled]
  | @write r bytes close now due step verdict =>
    refine h.step step ?_
    cases hhandled : r.handled <;> simp

theorem recorded_of_run
    (run : Session.Run t svc.recorded policy maxBody peer (s₀, []) s) :
    Recorded svc s₀ peer s := by
  induction run with
  | refl => exact ⟨rfl, .nil s₀, rfl, by simp [Session.exchanges, Session.start]⟩
  | tail _ hmove ih => exact ih.move hmove

/-- A run that is over, and was not ended by a rejection, has dispatched all requests. -/
theorem requests_of_run {σ : Type} {svc : Service σ} {s₀ : σ} {s : Session σ}
    (run : Session.Run t svc policy maxBody peer s₀ s) (haddr : Addressable t s.fed)
    (hover : s.phase ≠ .stepping)
    (haccepted : ¬ s.EndedByRejection t svc policy maxBody peer s₀) :
    s.requests = requestsOf t maxBody s.fed := by
  have h := tracks_of_run run
  cases hphase : s.phase with
  | stepping => exact absurd hphase hover
  | waiting =>
    have hahead := h.ahead (by simp [hphase]) [] (by rwa [List.append_nil])
    rw [List.append_nil, List.append_nil, h.waiting hphase, List.append_nil] at hahead
    exact hahead.symm
  | closed =>
    -- the last move is the step that closed the connection
    rcases Relation.ReflTransGen.cases_tail run with rfl | ⟨before, hbefore, hmove⟩
    · cases hphase
    · have hlast := hmove
      cases hmove with
      | feed data live => cases hphase
      | needMore now due step verdict => cases hphase
      | @write r bytes close now due step verdict =>
        have hclose : close = true := by
          cases close with
          | true => rfl
          | false => cases hphase
        rw [hclose] at verdict
        rcases Connection.rejects_or_handled step verdict with ⟨hrejects, _⟩ | ⟨g, hsome, _⟩
        · exact absurd ⟨hphase, before, hbefore, hlast, hrejects⟩ haccepted
        · exact (h.closed hphase haddr).2 ⟨_, g, List.getLast?_concat, hsome⟩

/-- Dispatch does not depend on the segmentation of the stream: the requests that the
service was asked are the first of those the whole stream holds, and all of them if the run
is over and was not ended by a rejection; nothing of the stream is lost or read twice. -/
theorem session_dispatch
    (run : Session.Run t svc.recorded policy maxBody peer (s₀, []) s)
    (haddr : Addressable t s.fed) :
    s.exchanges.map (·.request) <+: requestsOf t maxBody s.fed ∧
      (s.phase ≠ .stepping →
        ¬ s.EndedByRejection t svc.recorded policy maxBody peer (s₀, []) →
          s.exchanges.map (·.request) = requestsOf t maxBody s.fed) ∧
      s.requests = s.exchanges.map (·.request) ∧
      Consumes t maxBody s.fed s.dispatched s.conn.buf ∧ s.fed = s.consumed ++ s.conn.buf := by
  have h := tracks_of_run run
  have hrequests : s.requests = s.exchanges.map (·.request) := by
    have hlogged := congrArg (List.map Prod.fst) (recorded_of_run run).logged
    rw [List.map_map, List.map_map] at hlogged
    exact hlogged
  rw [← hrequests]
  refine ⟨?_, requests_of_run run haddr, rfl, consumes_of_run run haddr, h.conserved⟩
  by_cases hclosed : s.phase = .closed
  · exact (h.closed hclosed haddr).1
  · have hahead := h.ahead hclosed [] (by rwa [List.append_nil])
    rw [List.append_nil, List.append_nil] at hahead
    exact ⟨_, hahead.symm⟩

/-- A service with one answer. -/
def okService : Service Unit := ⟨fun _ _ _ => (Response.text ⟨200⟩ "ok", ())⟩

/-- A request, cut inside its head. -/
def cutGet : Bytes × Bytes :=
  (utf8 "GET / HTTP/1.1\r\nHo", utf8 "st: h\r\nConnection: close\r\n\r\nGET")

def closingGet : Request :=
  ⟨.get, "/", .http11, [⟨"Host", "h"⟩, ⟨"Connection", "close"⟩], []⟩

set_option maxRecDepth 10000 in
/-- The request arrives in two pieces, is dispatched, and closes the connection. -/
theorem cutGet_run : ∃ s : Session (Unit × List Exchange),
    Session.Run ⟨.w64, false⟩ okService.recorded ⟨false, false⟩ 16 [] ((), []) s ∧
      s.fed = cutGet.1 ++ cutGet.2 ∧ s.phase = .closed ∧
      ∃ e h, s.log.getLast? = some e ∧ e.handled = some h := by
  have hopen : parseWith ⟨.w64, false⟩ cutGet.1 16 = .ok .partialRequest := by decide
  have hnone : expectAction cutGet.1 = .none := by decide
  have hwhole : parseWith ⟨.w64, false⟩ (cutGet.1 ++ cutGet.2) 16 =
      .ok (.complete closingGet 46) := by decide
  refine ⟨_, (((Relation.ReflTransGen.refl.tail (.feed cutGet.1 (by decide))).tail
    (.needMore 0 rfl (Connection.step_wait hopen hnone) rfl)).tail
    (.feed cutGet.2 (by decide))).tail
    (.write 0 rfl (Connection.step_complete hwhole) rfl), rfl, ?_, _, _,
    List.getLast?_concat, rfl⟩
  have hclose : closingGet.keepAlive = false := by decide
  show (if !closingGet.keepAlive then Phase.closed else Phase.stepping) = .closed
  rw [hclose]
  rfl

/-- A run whose last write answers a request was not ended by a rejection. -/
theorem not_endedByRejection {σ : Type} {svc : Service σ} {s₀ : σ} {s : Session σ} {e : Entry}
    {g : Handled} (he : s.log.getLast? = some e) (hg : e.handled = some g) :
    ¬ s.EndedByRejection t svc policy maxBody peer s₀ := by
  rintro ⟨hclosed, before, _, hmove, hrejects⟩
  cases hmove with
  | feed data live => cases hclosed
  | needMore now due step verdict => cases hclosed
  | @write r bytes close now due step verdict =>
    have hclose : close = true := by
      cases close with
      | true => rfl
      | false => cases hclosed
    rw [hclose] at verdict
    rw [List.getLast?_concat] at he
    cases he
    rcases Connection.rejects_or_handled step verdict with ⟨_, hnone⟩ | ⟨_, _, hnot⟩
    · rw [hnone] at hg
      cases hg
    · exact hnot hrejects

set_option maxRecDepth 10000 in
theorem cutGet_dispatch : ∃ s : Session (Unit × List Exchange),
    s.fed = cutGet.1 ++ cutGet.2 ∧ s.phase = .closed ∧
      s.exchanges.map (·.request) = requestsOf ⟨.w64, false⟩ 16 s.fed ∧
      s.requests = s.exchanges.map (·.request) ∧
      Consumes ⟨.w64, false⟩ 16 s.fed s.dispatched s.conn.buf ∧ s.fed = s.consumed ++ s.conn.buf := by
  rcases cutGet_run with ⟨s, run, hfed, hclosed, e, g, he, hg⟩
  have haddr : Addressable ⟨.w64, false⟩ s.fed := by
    rw [hfed]
    decide
  rcases session_dispatch run haddr with ⟨_, hall, hrest⟩
  exact ⟨s, hfed, hclosed, hall (by simp [hclosed]) (not_endedByRejection he hg), hrest⟩

end Recorded

end FerroHttp
