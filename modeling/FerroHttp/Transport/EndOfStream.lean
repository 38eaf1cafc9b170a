import FerroHttp.Embedded.Close
import FerroHttp.Transport.Output

/-!
# Transport.EndOfStream — a request and the end of the stream in one drain

`handleReady` drops the connection as soon as a read returns the end of the stream,
before it drives what the same drain received and before it writes what is pending.

1. `Drives.requests`: a drive dispatches every complete request in the buffer;
2. `answered_iff`: so an event answers what was received, and offers what is pending to
   the socket, unless it ends with the stream and leaves something undone (`CutShort`).
   `halfClosedGet_not_answered` is one that does.
-/

namespace FerroHttp

open Exec Text

variable {σ : Type}

/-! ## Drives -/

/-- The requests that were dispatched, in order. -/
def requestsIn (log : List Entry) : List Request := (log.filterMap (·.handled)).map (·.request)

section Drives

variable {t : Target} {svc : Service σ} {now maxBody : Nat} {c c' first : Connection} {s s' : σ}
  {log : List Entry} {closed : Bool} {rounds : List (Round σ)}

theorem requestsOf_err {buf : Bytes} {e : ParseError} (hp : parseWith t buf maxBody = .err e) :
    requestsOf t maxBody buf = [] := by
  rw [requestsOf, requestsFrom, hp]

/-- One step dispatches the first request of the buffer, or leaves it as it is and there
is none. -/
theorem step_requests {r : StepResult σ} (haddr : Addressable t c.buf)
    (h : c.step t svc s now = .ok r) :
    r.conn.maxBody = c.maxBody ∧
      ((r.handled = none ∧ r.conn.buf = c.buf ∧ requestsOf t c.maxBody c.buf = []) ∨
        ∃ g close bytes, r.handled = some g ∧ r.step = .write bytes close ∧
          Addressable t r.conn.buf ∧ requestsOf t c.maxBody c.buf =
            g.request :: if close then [] else requestsOf t c.maxBody r.conn.buf) := by
  rcases Connection.step_cases h with ⟨hp, rfl⟩ | ⟨request, n, hp, rfl⟩ | ⟨e, hp, rfl⟩
  · have hnone := requestsOf_partial hp
    rcases Connection.stepPartial_cases c s now with heq | ⟨_, heq⟩ | heq
    · rw [heq]
      exact ⟨rfl, .inl ⟨rfl, rfl, hnone⟩⟩
    · rw [heq]
      exact ⟨rfl, .inl ⟨rfl, rfl, hnone⟩⟩
    · rw [heq]
      exact ⟨rfl, .inl ⟨rfl, rfl, hnone⟩⟩
  · refine ⟨rfl, .inr ⟨_, !request.keepAlive, _, rfl, rfl, haddr.drop n, ?_⟩⟩
    rw [requestsOf_complete haddr hp]
    cases hkeep : request.keepAlive with
    | true => rfl
    | false => rfl
  · exact ⟨rfl, .inl ⟨rfl, rfl, requestsOf_err hp⟩⟩

/-- A drive dispatches every complete request of the buffer, up to the close, and where
it does not close it leaves none. -/
theorem Drives.requests (h : Drives t svc now c s c' s' log closed) (haddr : Addressable t c.buf) :
    c'.maxBody = c.maxBody ∧ requestsIn log = requestsOf t c.maxBody c.buf ∧
      (closed = false → requestsOf t c'.maxBody c'.buf = []) := by
  induction h with
  | wait step verdict =>
    rcases Connection.eq_of_needMore step verdict with ⟨hp, rfl⟩
    rw [ requestsOf_partial hp]
    exact ⟨rfl, rfl, fun _ => rfl⟩
  | close step verdict =>
    rcases step_requests haddr step with
      ⟨hmax, ⟨hnothing, _, hnone⟩ | ⟨g, close, bytes, hsome, hwrite, _, hall⟩⟩
    · refine ⟨hmax, ?_, by simp⟩
      rw [hnone]
      simp [requestsIn, hnothing]
    · rw [verdict] at hwrite
      cases hwrite
      refine ⟨hmax, ?_, by simp⟩
      rw [hall]
      simp [requestsIn, hsome]
  | more step verdict rest ih =>
    rcases step_requests haddr step with
      ⟨hmax, ⟨hnothing, hbuf, _⟩ | ⟨g, close, bytes, hsome, hwrite, haddr', hall⟩⟩
    · -- an interim response
      rw [← hbuf] at haddr
      rcases ih haddr with ⟨hmax', hrequests, hleft⟩
      refine ⟨hmax'.trans hmax, ?_, hleft⟩
      rw [← hmax, ← hbuf, ← hrequests]
      simp [requestsIn, hnothing]
    · rw [verdict] at hwrite
      cases hwrite
      rcases ih haddr' with ⟨hmax', hrequests, hleft⟩
      refine ⟨hmax'.trans hmax, ?_, hleft⟩
      rw [hall, ← hmax, if_neg (by simp), ← hrequests]
      simp [requestsIn, hsome]

end Drives

/-! ## Events -/

section Event

variable {t : Target} {svc : Service σ} {security : Bool} {maxBody : Nat} {live : Live σ} {s : σ}
  {conn : Conn} {event : Event} {r : Ready σ} {v : Reactor σ}

/-- The event reads the socket. -/
def Event.drains (event : Event) (conn : Conn) : Bool := event.readable && !conn.closeAfterFlush

/-- The buffer once everything the drain returns is in it. -/
def Event.buffered (event : Event) (conn : Conn) : Bytes :=
  conn.state.buf ++ receivedOf event.reads

/-- Every complete request received so far is dispatched, up to the close, and what was
pending is offered to the socket together with what was written. -/
structure Conn.Answered (t : Target) (conn : Conn) (event : Event) (r : Ready σ) : Prop where
  dispatched : requestsIn r.log =
    if event.drains conn then requestsOf t conn.state.maxBody (event.buffered conn) else []
  offered : conn.out ++ r.log.flatMap (·.bytes) ≠ [] →
    conn.out ++ r.log.flatMap (·.bytes) ∈ r.offered

/-- The drain ends with the stream, while output is pending or a request is complete. -/
structure CutShort (t : Target) (conn : Conn) (event : Event) : Prop where
  drains : event.drains conn = true
  ended : lastRead event.reads = some (.ok [])
  undone : conn.out ≠ [] ∨ ∃ request n,
    parseWith t (event.buffered conn) conn.state.maxBody = .ok (.complete request n)

theorem requestsOf_eq_nil_iff {buf : Bytes} :
    requestsOf t maxBody buf = [] ↔
      ¬ ∃ request n, parseWith t buf maxBody = .ok (.complete request n) := by
  rw [requestsOf, requestsFrom]
  cases parseWith t buf maxBody with
  | ok p => cases p <;> simp
  | err e => simp
  | panic => simp
  | diverge => simp

theorem plainWriteOut_ne_diverge (writes : List WriteResult) (out : Bytes) :
    plainWriteOut writes out ≠ .diverge := by
  induction writes generalizing out with
  | nil => simp [plainWriteOut]
  | cons result rest ih =>
    unfold plainWriteOut
    split
    · simp
    · cases result with
      | ok n =>
        dsimp only
        split
        · simp
        · split
          · intro hdiv
            rcases Outcome.bind_eq_diverge.mp hdiv with hrest | ⟨_, _, hdone⟩
            · exact ih _ hrest
            · cases hdone
          · simp
      | wouldBlock => simp
      | interrupted =>
        intro hdiv
        rcases Outcome.bind_eq_diverge.mp hdiv with hrest | ⟨_, _, hdone⟩
        · exact ih _ hrest
        · cases hdone
      | failed => simp

theorem writeReady_ne_diverge (event : Event) (rounds : List (Round σ)) (conn : Conn) (s : σ)
    (log : List Entry) : writeReady event rounds conn s log ≠ .diverge := by
  intro hdiv
  rcases Outcome.bind_eq_diverge.mp hdiv with hwrite | ⟨w, _, hdone⟩
  · exact plainWriteOut_ne_diverge _ _ hwrite
  · dsimp only at hdone
    split at hdone <;> cases hdone

/-- What is buffered after a drain that goes on. -/
theorem buffered_eq (event : Event) (conn : Conn) :
    (plainReadIn event.reads conn.state).state.buf = event.buffered conn := by
  rw [plainReadIn_state, (plainReadIn_eq _ _).1]
  rfl

/-- The loops of an event end. -/
theorem handleReady_ne_diverge (haddr : Addressable t (event.buffered conn)) :
    handleReady t svc conn s event ≠ .diverge := by
  unfold handleReady
  split
  · dsimp only
    split
    · simp
    · intro hdiv
      rcases Outcome.bind_eq_diverge.mp hdiv with hdrive | ⟨_, _, hwrite⟩
      · rcases Outcome.bind_eq_diverge.mp hdrive with hadvance | ⟨_, _, hdone⟩
        · refine advance_ne_diverge ?_ hadvance
          rw [buffered_eq]
          exact haddr
        · cases hdone
      · exact writeReady_ne_diverge _ _ _ _ _ hwrite
  · exact writeReady_ne_diverge _ _ _ _ _

/-- An event that does not drop the connection while it reads answers what it received. -/
theorem HandlesReady.answered {driven : Conn} {rounds : List (Round σ)} {log : List Entry}
    (h : HandlesReady t svc conn s event r driven rounds log)
    (haddr : Addressable t (event.buffered conn)) : Conn.Answered t conn event r := by
  have hwrites := h.writes
  constructor
  · rw [hwrites.log]
    cases hdrains : event.drains conn with
    | true =>
      rcases h.reads hdrains with ⟨_, _, s', hdrives⟩
      rw [if_pos rfl]
      exact (hdrives.requests haddr).2.1
    | false =>
      rcases h.idle hdrains with ⟨_, _, rfl⟩
      rfl
  · rw [hwrites.log, ← h.out]
    exact hwrites.offered

/-- In every reachable table, every event on every connection ends, and answers what was
received exactly when it is not cut short. -/
theorem answered_iff (hreach : v.Reachable t svc security maxBody) {token : Nat}
    (hlive : v.conns token = some live) (hread : lastRead event.reads ≠ some .failed)
    (haddr : Addressable t (event.buffered live.conn)) :
    handleReady t svc live.conn v.service event ≠ .diverge ∧
      ∀ r, handleReady t svc live.conn v.service event = .ok r →
        (Conn.Answered t live.conn event r ↔ ¬ CutShort t live.conn event) := by
  refine ⟨handleReady_ne_diverge haddr, ?_⟩
  intro r hready
  have hreg := (intact_of_reachable hreach token live hlive).conn_registered
  rcases handleReady_spec hreg hready with
    ⟨hdrains, hgone, rfl⟩ | ⟨driven, rounds, log, hhandles⟩
  · -- the drain ended with the stream, and nothing was done
    have hended : lastRead event.reads = some (.ok []) := by
      rcases (plainReadIn_eq event.reads live.conn.state).2.mp hgone with hend | hfailed
      · exact hend
      · exact absurd hfailed hread
    constructor
    · intro hanswered hcut
      rcases hcut.undone with hout | hcomplete
      · exact absurd (hanswered.offered (by simpa using hout)) (by simp)
      · have hall := hanswered.dispatched
        rw [if_pos hcut.drains] at hall
        exact requestsOf_eq_nil_iff.mp hall.symm hcomplete
    · intro hnot
      have hdone : live.conn.out = [] ∧ ¬ ∃ request n,
          parseWith t (event.buffered live.conn) live.conn.state.maxBody =
            .ok (.complete request n) := by
        rw [← not_ne_iff, ← not_or]
        exact fun hundone => hnot ⟨hdrains, hended, hundone⟩
      constructor
      · have hnone := requestsOf_eq_nil_iff.mpr hdone.2
        rw [hnone, ite_self]
        rfl
      · intro hne
        exact absurd hdone.1 (by simpa using hne)
  · constructor
    · intro _ hcut
      rcases hhandles.reads hcut.drains with ⟨hgone, _⟩
      have hyes := (plainReadIn_eq event.reads live.conn.state).2.mpr (.inl hcut.ended)
      rw [hgone] at hyes
      cases hyes
    · intro _
      exact hhandles.answered haddr

/-- A reactor that has accepted one connection. -/
def oneConn : Reactor Unit :=
  ⟨Function.update (fun _ => none) 1 (some (.accept (Connection.create ⟨false, true⟩ 16 []))), ()⟩

theorem oneConn_reachable : oneConn.Reachable ⟨.w64, false⟩ okService false 16 :=
  ⟨(), .single (.accept 1 [] rfl)⟩

theorem oneConn_conns :
    oneConn.conns 1 = some (.accept (Connection.create ⟨false, true⟩ 16 [])) := by
  simp [oneConn]

/-- The socket has a request and the end of the stream. -/
def halfClosedGet : Event := ⟨true, [.ok (cutGet.1 ++ cutGet.2), .ok []], [.ok 200], 0⟩

set_option maxRecDepth 10000 in
theorem halfClosedGet_requests : requestsOf ⟨.w64, false⟩ 16
    (halfClosedGet.buffered (Conn.new (Connection.create ⟨false, true⟩ 16 []))) = [closingGet] := by
  have hwhole : parseWith ⟨.w64, false⟩ (cutGet.1 ++ cutGet.2) 16 =
      .ok (.complete closingGet 46) := by decide
  have hclose : closingGet.keepAlive = false := by decide
  show requestsOf ⟨.w64, false⟩ 16 (cutGet.1 ++ cutGet.2) = [closingGet]
  rw [requestsOf_complete (by decide) hwhole, hclose, if_neg (by simp)]

/-- The request is received, and the connection dropped before it is dispatched. -/
theorem halfClosedGet_not_answered : ∃ live r, oneConn.conns 1 = some live ∧
    handleReady ⟨.w64, false⟩ okService live.conn oneConn.service halfClosedGet = .ok r ∧
      r.fate = .peerGone ∧ ¬ Conn.Answered ⟨.w64, false⟩ live.conn halfClosedGet r := by
  refine ⟨_, _, oneConn_conns, rfl, rfl, ?_⟩
  intro hanswered
  have hnone : ([] : List Request) = [closingGet] :=
    hanswered.dispatched.trans halfClosedGet_requests
  cases hnone

set_option maxRecDepth 10000 in
/-- Without the end of the stream the same request is answered. -/
theorem closingEvent_answered_iff :
    handleReady ⟨.w64, false⟩ okService (Conn.new (Connection.create ⟨false, true⟩ 16 []))
        oneConn.service closingEvent ≠ .diverge ∧
      ∀ r, handleReady ⟨.w64, false⟩ okService (Conn.new (Connection.create ⟨false, true⟩ 16 []))
          oneConn.service closingEvent = .ok r →
        (Conn.Answered ⟨.w64, false⟩ (Conn.new (Connection.create ⟨false, true⟩ 16 [])) closingEvent r ↔
          ¬ CutShort ⟨.w64, false⟩ (Conn.new (Connection.create ⟨false, true⟩ 16 []))
            closingEvent) :=
  answered_iff oneConn_reachable oneConn_conns (by decide) (by decide)

end Event

end FerroHttp
