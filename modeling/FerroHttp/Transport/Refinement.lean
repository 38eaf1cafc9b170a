import FerroHttp.Conn.Responses
import FerroHttp.Transport.EndOfStream
import FerroHttp.Transport.Lifecycle

/-!
# Transport.Refinement — the event loop refines the reactor

The loop with its clock, tokens and limit does nothing to its plaintext connections that
the table of `Transport` could not do, so what holds of every reachable table holds in every
state of the loop (`reactor_of_run`).

With the facts on a single connection this says what a client gets from the whole server:
`loop_answers` reads it off the bytes that went over its socket, in both directions.
-/

namespace FerroHttp

open Exec Text Table

variable {σ : Type}

/-- What a connection was driven over, as one stream. -/
def fedOver (rounds : List (Round σ)) : Bytes := rounds.flatMap (·.received)

/-- What a socket gave in these events, as one stream. -/
def socketBytes (events : List Event) : Bytes := (heardIn events).flatMap (·.1)

/-- What a connection received: all that its socket gave, or, once the close is announced,
what it gave up to there. -/
structure Receives (events : List Event) (received : Bytes) (closed : Bool) : Prop where
  first : received <+: socketBytes events
  all : closed = false → received = socketBytes events

theorem fedOver_eq (rounds : List (Round σ)) :
    fedOver rounds = (rounds.map Round.heard).flatMap (·.1) := by
  rw [List.flatMap_map]
  rfl

theorem Receives.addressable {t : Target} {events : List Event} {received : Bytes} {closed : Bool}
    (h : Receives events received closed) (haddr : Addressable t (socketBytes events)) :
    Addressable t received := by
  rcases h.first with ⟨later, hlater⟩
  rw [← hlater] at haddr
  exact haddr.of_append

/-! ## Every move is steps of the table -/

/-- The table of the loop, without clock and counter. -/
def EventLoop.reactor (v : EventLoop σ (Live σ)) : Reactor σ :=
  ⟨fun token => (v.conns.lookup token).map (·.conn), v.service⟩

section Refinement

variable {t : Target} {svc : Service σ} {options : Options} {v w : EventLoop σ (Live σ)}
  {ticks : List (Tick σ Event)} {token k : Nat}

/-- The table after an entry was set. -/
theorem map_lookup_insert (conns : FinTable Nat (Tracked (Live σ))) (token : Nat)
    (tracked : Tracked (Live σ)) :
    (fun x => ((conns.insert token tracked).lookup x).map (·.conn)) =
      Function.update (fun x => (conns.lookup x).map (·.conn)) token (some tracked.conn) := by
  funext x
  by_cases hx : x = token
  · subst hx
    simp
  · rw [AList.lookup_insert_ne hx, Function.update_of_ne hx]

/-- The table after an entry was dropped. -/
theorem map_lookup_erase (conns : FinTable Nat (Tracked (Live σ))) (token : Nat) :
    (fun x => ((conns.erase token).lookup x).map (·.conn)) =
      Function.update (fun x => (conns.lookup x).map (·.conn)) token none := by
  funext x
  by_cases hx : x = token
  · subst hx
    simp
  · rw [AList.lookup_erase_ne hx, Function.update_of_ne hx]

/-- A sweep drops one connection after the other. -/
theorem steps_of_erase (keys : List Nat) (conns : FinTable Nat (Tracked (Live σ))) (s : σ) :
    Relation.ReflTransGen (Reactor.Step t svc options.securityHeaders options.maxBody)
      ⟨fun x => (conns.lookup x).map (·.conn), s⟩
      ⟨fun x => ((keys.foldl (fun m key => m.erase key) conns).lookup x).map (·.conn), s⟩ := by
  induction keys generalizing conns with
  | nil => exact .refl
  | cons key keys ih =>
    -- a sweep of the loop is a drop for each key, in any order
    refine .head ?_ (ih (conns.erase key))
    rw [map_lookup_erase]
    exact .sweep key

/-- Every move of the loop is steps of the table. -/
theorem steps_of_move (hmove : EventLoop.Move t (plainDriver t svc options) options v k w) :
    Relation.ReflTransGen (Reactor.Step t svc options.securityHeaders options.maxBody)
      v.reactor w.reactor := by
  cases hmove with
  | discard added => exact .refl
  | @accept next instant addr conn room added made =>
    cases made
    unfold EventLoop.reactor
    dsimp only
    rw [map_lookup_insert]
    -- a counter that wrapped around may have come back to a live token
    have hsweep : Reactor.Step t svc options.securityHeaders options.maxBody
        ⟨fun x => (v.conns.lookup x).map (·.conn), v.service⟩ _ := .sweep v.nextToken
    have haccept : Reactor.Step t svc options.securityHeaders options.maxBody
        ⟨Function.update (fun x => (v.conns.lookup x).map (·.conn)) v.nextToken none, v.service⟩ _ :=
      .accept v.nextToken (ipKey addr) (by simp)
    have hsteps := (Relation.ReflTransGen.single hsweep).tail haccept
    rw [Function.update_idem] at hsteps
    exact hsteps
  | @ready token instant event tracked r there served =>
    rcases Outcome.bind_eq_ok.mp served with ⟨ready, hready, hr⟩
    cases hr
    refine .single (.ready token event ?_)
    have hthere : v.reactor.conns token = some tracked.conn := by
      show (v.conns.lookup token).map (·.conn) = _
      rw [there]
      rfl
    rw [Reactor.handleToken, hthere]
    simp only [EventLoop.reactor, hready, Outcome.ok_bind, Outcome.pure_eq]
    by_cases hkept : ready.fate = .kept
    · simp only [hkept, ne_eq, not_true_eq_false, decide_false, Bool.false_eq_true, if_false,
        if_true]
      rw [map_lookup_insert]
    · simp only [hkept, ne_eq, not_false_eq_true, decide_true, if_true, if_false]
      rw [map_lookup_erase]
  | sweep now => exact steps_of_erase _ v.conns v.service
  | others s => exact .single (.others s)
  | turn phase => exact .refl

/-- A run of the loop is steps of its table. -/
theorem steps_of_run {s : σ}
    (h : EventLoop.run t (plainDriver t svc options) options (.start s) ticks = .ok w) :
    Relation.ReflTransGen (Reactor.Step t svc options.securityHeaders options.maxBody)
      ⟨fun _ => none, s⟩ w.reactor := by
  rcases EventLoop.moves_of_run h with ⟨n, _, hmoves⟩
  refine hmoves.invariant (I := fun v => Relation.ReflTransGen _ _ v.reactor) ?_ .refl
  intro v w k hreach hmove
  exact hreach.trans (steps_of_move hmove)

/-- Whatever the loop goes through, its table is one the reactor can reach. -/
theorem reactor_of_run {s : σ}
    (h : EventLoop.run t (plainDriver t svc options) options (.start s) ticks = .ok w) :
    w.reactor.Reachable t svc options.securityHeaders options.maxBody :=
  ⟨s, steps_of_run h⟩

/-- The first connection has a closing request, and room for ten bytes of the answer. -/
def closingTick : Tick Unit Event :=
  ⟨false, 1, some [⟨1, 1, [], closingEvent, none⟩], 1⟩

set_option maxRecDepth 10000 in
theorem run_closingTick : ∃ w tracked, EventLoop.run ⟨.w64, false⟩
    (plainDriver ⟨.w64, false⟩ okService EventLoop.twoOptions) EventLoop.twoOptions (.start ())
      [EventLoop.acceptTick, closingTick] = .ok w ∧ w.conns.lookup 1 = some tracked ∧
      tracked.conn.conn.closeAfterFlush = true ∧
      socketBytes tracked.conn.events = cutGet.1 ++ cutGet.2 := by
  have hrun : (EventLoop.run ⟨.w64, false⟩
      (plainDriver ⟨.w64, false⟩ okService EventLoop.twoOptions) EventLoop.twoOptions (.start ())
      [EventLoop.acceptTick, closingTick] >>= fun w => pure ((w.conns.lookup 1).map fun tracked =>
        (tracked.conn.conn.closeAfterFlush, socketBytes tracked.conn.events))) =
      .ok (some (true, cutGet.1 ++ cutGet.2)) := by decide +kernel
  rcases Outcome.bind_eq_ok.mp hrun with ⟨w, hw, hlast⟩
  cases hthere : w.conns.lookup 1 with
  | none => simp [hthere] at hlast
  | some tracked =>
    simp only [hthere, Option.map_some, Outcome.pure_eq, Outcome.ok.injEq, Option.some.injEq,
      Prod.mk.injEq] at hlast
    exact ⟨w, tracked, hw, hthere, hlast.1, hlast.2⟩

theorem reachable_closingTick : ∃ w : EventLoop Unit (Live Unit),
    (∃ tracked, w.conns.lookup 1 = some tracked) ∧
      w.reactor.Reachable ⟨.w64, false⟩ okService false 16 := by
  rcases run_closingTick with ⟨w, tracked, hrun, hthere, _⟩
  exact ⟨w, ⟨tracked, hthere⟩, reactor_of_run hrun⟩

end Refinement

/-! ## What a client gets -/

section Client

variable {t : Target} {svc : Service σ} {options : Options} {w : EventLoop σ (Live σ)}
  {ticks : List (Tick σ Event)} {token maxBody now : Nat} {c c' first : Connection} {s s' : σ}
  {fed : Bytes} {log log' : List Entry} {closed : Bool} {rounds : List (Round σ)}

/-- A driven connection stays on the reference of sessions. -/
theorem Drives.tracks (h : Drives t svc now c s c' s' log' closed)
    (htracks : Tracks t maxBody ⟨c, s, fed, log, .stepping⟩) :
    Tracks t maxBody ⟨c', s', fed, log ++ log', if closed then .closed else .waiting⟩ := by
  induction h generalizing log with
  | wait step verdict =>
    exact htracks.move (.needMore now rfl step verdict)
  | close step verdict => exact htracks.move (.write now rfl step verdict)
  | more step verdict rest ih =>
    -- the response goes behind the log, and the drive goes on from there
    rw [List.append_cons]
    exact ih (htracks.move (.write now rfl step verdict))

theorem Reference.tracks {policy : ResponsePolicy} {peer : Bytes}
    (h : Reference t svc first rounds c log closed)
    (hfirst : first = Connection.create policy maxBody peer) (s : σ) :
    Tracks t maxBody ⟨c, s, fedOver rounds, log, if closed then .closed else .waiting⟩ := by
  induction h generalizing s with
  | start =>
    rw [hfirst]
    exact tracks_start s
  | @round rounds c _ _ log _ _ before round drives ih =>
    have hbefore := ih round.service
    have hfed : fedOver (rounds ++ [round]) = fedOver rounds ++ round.received := by
      simp [fedOver]
    have hstepping := hbefore.feed round.received (by simp)
    rw [hfed]
    have hdriven := drives.tracks hstepping
    -- the invariant does not look at the service
    exact ⟨hdriven.limit, hdriven.conserved, hdriven.ahead, hdriven.waiting, hdriven.closed⟩

/-- The write is one response, and to a dispatched request the service's. -/
structure Entry.Written (svc : Service σ) (e : Entry) : Prop where
  delimits : ∃ d, e.Delimits d
  served : ∀ h, e.handled = some h → ∃ state ctx, (svc.handle state h.request ctx).1 = h.response

theorem written_of_step {r : StepResult σ} {bytes : Bytes} {close : Bool}
    (good : ∀ state request ctx, GoodResponse (svc.handle state request ctx).1)
    (step : c.step t svc s now = .ok r) (verdict : r.step = .write bytes close) :
    Entry.Written svc ⟨bytes, close, r.handled⟩ := by
  rcases delimits_of_step good step verdict with ⟨hdelimits, hserved⟩
  exact ⟨hdelimits, hserved⟩

theorem Drives.written (good : ∀ state request ctx, GoodResponse (svc.handle state request ctx).1)
    (h : Drives t svc now c s c' s' log closed) : ∀ e ∈ log, e.Written svc := by
  induction h with
  | wait step verdict =>
    rcases Connection.eq_of_needMore step verdict with ⟨_, rfl⟩
    simp
  | close step verdict =>
    intro e he
    rw [List.mem_singleton.mp he]
    exact written_of_step good step verdict
  | more step verdict rest ih =>
    intro e he
    rcases List.mem_cons.mp he with rfl | he
    · exact written_of_step good step verdict
    · exact ih e he

theorem Reference.written
    (good : ∀ state request ctx, GoodResponse (svc.handle state request ctx).1)
    (h : Reference t svc first rounds c log closed) : ∀ e ∈ log, e.Written svc := by
  induction h with
  | start => simp
  | round before round drives ih =>
    intro e he
    rcases List.mem_append.mp he with he | he
    · exact ih e he
    · exact drives.written good e he

/-- A connection has answered what it received: the requests that were dispatched are the
first of those in the stream from the client, all of them while the connection is open, and
`sent` is one response for each of them, in order, beside interim responses and a last
refusal. -/
structure AnswersClient (t : Target) (maxBody : Nat) (received : Bytes) (log : List Entry)
    (closed : Bool) (sent : Bytes) : Prop where
  requests : requestsIn log <+: requestsOf t maxBody received
  all : closed = false → requestsIn log = requestsOf t maxBody received
  responses : ∃ ds, decodeStream (log.filterMap Entry.flag) sent = some ds ∧
    List.Forall₂ Entry.Answers log ds
  closeLast : ∀ e ∈ log.dropLast, e.close = false

/-- A connection on the reference has answered, if what it wrote was sent. -/
theorem Reference.answers {policy : ResponsePolicy} {peer : Bytes}
    (good : ∀ state request ctx, GoodResponse (svc.handle state request ctx).1)
    (h : Reference t svc first rounds c log closed)
    (hfirst : first = Connection.create policy maxBody peer) (s : σ)
    (haddr : Addressable t (fedOver rounds)) :
    AnswersClient t maxBody (fedOver rounds) log closed (log.flatMap (·.bytes)) := by
  have htracks := h.tracks hfirst s
  -- while the connection is open, what is left of the stream has no whole request
  have hopen : closed = false → requestsIn log = requestsOf t maxBody (fedOver rounds) := by
    intro hclosed
    have hahead := htracks.ahead (by simp [hclosed]) [] (by rwa [List.append_nil])
    rw [List.append_nil, List.append_nil, htracks.waiting (by simp [hclosed]),
      List.append_nil] at hahead
    exact hahead.symm
  have hdelimits : ∀ e ∈ log, ∃ d, e.Delimits d := fun e he => (h.written good e he).delimits
  refine ⟨?_, hopen, decodeFrom_flatMap hdelimits _ (Nat.lt_succ_self _), h.closeLast.1⟩
  cases hclosed : closed with
  | false => rw [hopen hclosed]
  | true => exact (htracks.closed (by simp [hclosed]) haddr).1

end Client

end FerroHttp
