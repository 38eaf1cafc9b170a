import FerroHttp.Lib.Table
import FerroHttp.Startup
import FerroHttp.Transport

/-!
# Transport.EventLoop — the poll loop of a reactor

`Reactor.Step` says what can happen to a table of connections. Here is the loop that makes
it happen: it polls, accepts up to the limit of connections under fresh tokens, handles the
events of each token, drops the connections that are idle, and drains the table after a
shutdown signal. The clock, the signal and what the calls return are the environment's, so a
run is determined by its ticks.

How a connection is made and what an event does to it is a parameter (`Driver`): the loop is
the same for plaintext and for TLS. `Move` lists what a run does to the table, one change at
a time, and `moves_of_run` is the rule by which invariants of the table are proved.
-/

namespace FerroHttp

open Exec Text Table

/-! ## The clock and the addresses -/

/-- A duration; the clock counts nanoseconds. -/
def fromSecs (secs : Nat) : Nat := secs * 1000000000

/-- How long in-flight connections may take to finish after a shutdown signal. -/
def shutdownGrace : Nat := fromSecs 5

/-- The token of the listener. -/
def listener : Nat := 0

/-- The address of a peer, by its octets. -/
inductive IpAddr where
  | v4 (octets : Bytes) (length : octets.length = 4)
  | v6 (octets : Bytes) (length : octets.length = 16)

/-- A peer's address as a 16-byte key; IPv4 is mapped into IPv6. -/
def ipKey : IpAddr → Bytes
  | .v4 octets _ => List.replicate 10 0 ++ [0xff, 0xff] ++ octets
  | .v6 octets _ => octets

/-! ## Events -/

/-- What `accept` returns: a socket, which the poll may fail to register, or an error. -/
inductive AcceptResult where
  | ok (addr : IpAddr) (registered : Bool) (instant : Nat)
  | wouldBlock
  | interrupted
  | failed

/-- An event of the poll: the token, and when it is handled. The rest is what happens
meanwhile: what `accept` returns if the token is the listener's, what happens to the socket
if it is a connection's, and what other reactors have made of the service since. -/
structure PollEvent (σ ω : Type) where
  token : Nat
  instant : Nat
  accepts : List AcceptResult
  event : ω
  others : Option σ

/-- One iteration: the shutdown flag and the clock at its head, what the poll returns, if
it does not fail, and the clock at the sweep. -/
structure Tick (σ ω : Type) where
  shutdown : Bool
  instant : Nat
  polled : Option (List (PollEvent σ ω))
  swept : Nat

/-! ## Connections -/

/-- What handling an event leaves; `drop` when the connection is to be dropped. -/
structure Served (σ γ : Type) where
  conn : γ
  service : σ
  drop : Bool

/-- How a connection is made for a peer, and what an event does to it. -/
structure Driver (σ γ ω : Type) where
  accept : Bytes → Option γ
  ready : γ → σ → ω → Outcome Empty (Served σ γ)

/-- Plaintext connections. -/
def plainDriver {σ : Type} (t : Target) (svc : Service σ) (options : Options) :
    Driver σ (Live σ) Event where
  accept peer := some (.accept (Connection.create ⟨options.securityHeaders, true⟩
    options.maxBody peer))
  ready live s event := do
    let r ← handleReady t svc live.conn s event
    pure ⟨live.after event r, r.service, r.fate ≠ .kept⟩

/-- A connection of the table. -/
structure Tracked (γ : Type) where
  conn : γ
  lastActivity : Nat

/-- Where a reactor is in its life. -/
inductive LoopPhase where
  | serving
  | draining (deadline : Nat)
  | stopped
deriving DecidableEq, Repr

/-- A reactor: its connections by token, the next token, and the service it shares. -/
structure EventLoop (σ γ : Type) where
  conns : FinTable Nat (Tracked γ)
  nextToken : Nat
  service : σ
  phase : LoopPhase

namespace EventLoop

variable {σ γ ω : Type}

def start (s : σ) : EventLoop σ γ := ⟨∅, 1, s, .serving⟩

/-- Accept every pending connection, up to the limit. -/
def acceptAll (t : Target) (d : Driver σ γ ω) (options : Options) :
    List AcceptResult → EventLoop σ γ → Outcome Empty (EventLoop σ γ)
  | [], v => pure v
  | .ok addr registered instant :: rest, v =>
    -- over capacity: the socket is dropped
    if options.maxConnections ≤ v.conns.keys.length then acceptAll t d options rest v
    else do
      let next ← t.add v.nextToken 1
      let token := v.nextToken
      let v := { v with nextToken := next }
      if !registered then acceptAll t d options rest v
      else
        match d.accept (ipKey addr) with
        | none => acceptAll t d options rest v
        | some conn =>
          let v := { v with conns := v.conns.insert token ⟨conn, instant⟩ }
          acceptAll t d options rest v
  | .wouldBlock :: _, v => pure v
  | .interrupted :: rest, v => acceptAll t d options rest v
  | .failed :: _, v => pure v

/-- Process a readiness event for a token; a connection that is done is dropped. -/
def handleToken (d : Driver σ γ ω) (v : EventLoop σ γ) (token instant : Nat) (event : ω) :
    Outcome Empty (EventLoop σ γ) :=
  match v.conns.lookup token with
  | none => pure v
  | some tracked => do
    let r ← d.ready tracked.conn v.service event
    pure { v with
      conns := if r.drop then v.conns.erase token else v.conns.insert token ⟨r.conn, instant⟩
      service := r.service }

/-- A connection has been idle for longer than the timeout. -/
def isIdle (options : Options) (now : Nat) (tracked : Tracked γ) : Bool :=
  fromSecs options.idleTimeout < now - tracked.lastActivity

/-- Drop the connections that are idle. -/
def sweepIdle (options : Options) (now : Nat) (v : EventLoop σ γ) : EventLoop σ γ :=
  { v with conns := sweep (isIdle options now) v.conns }

/-- Handle one event of the poll; while draining, nothing is accepted. -/
def handleEvent (t : Target) (d : Driver σ γ ω) (options : Options) (accepting : Bool)
    (v : EventLoop σ γ) (e : PollEvent σ ω) : Outcome Empty (EventLoop σ γ) :=
  let v := { v with service := e.others.getD v.service }
  if e.token = listener then
    if accepting then acceptAll t d options e.accepts v else pure v
  else handleToken d v e.token e.instant e.event

/-- What an iteration does after the poll: its events, and the sweep. -/
def pass (t : Target) (d : Driver σ γ ω) (options : Options) (accepting : Bool)
    (events : List (PollEvent σ ω)) (swept : Nat) (v : EventLoop σ γ) :
    Outcome Empty (EventLoop σ γ) := do
  let v ← events.foldlM (handleEvent t d options accepting) v
  pure (v.sweepIdle options swept)

/-- One iteration of the loop that serves, and after a shutdown signal of the one that
drains. -/
def iterate (t : Target) (d : Driver σ γ ω) (options : Options) (v : EventLoop σ γ)
    (tick : Tick σ ω) : Outcome Empty (EventLoop σ γ) :=
  match v.phase with
  | .serving =>
    if tick.shutdown then pure { v with phase := .draining (tick.instant + shutdownGrace) }
    else
      match tick.polled with
      | some events => pass t d options true events tick.swept v
      | none => pure { v with phase := .stopped }
  | .draining deadline =>
    if v.conns.keys.isEmpty || deadline ≤ tick.instant then pure { v with phase := .stopped }
    else
      match tick.polled with
      | some events => pass t d options false events tick.swept v
      | none => pure { v with phase := .stopped }
  | .stopped => pure v

/-- The loop of `run_reactor`. -/
def run (t : Target) (d : Driver σ γ ω) (options : Options) (v : EventLoop σ γ)
    (ticks : List (Tick σ ω)) : Outcome Empty (EventLoop σ γ) :=
  ticks.foldlM (iterate t d options) v

/-! ## What a step can do -/

section Cases

variable {t : Target} {d : Driver σ γ ω} {options : Options} {v w : EventLoop σ γ}
  {tick : Tick σ ω}

/-- A socket is dropped over capacity, dropped with its token used up, or accepted. -/
theorem acceptAll_cases {addr : IpAddr} {registered : Bool} {instant : Nat}
    {rest : List AcceptResult}
    (h : acceptAll t d options (.ok addr registered instant :: rest) v = .ok w) :
    (options.maxConnections ≤ v.conns.keys.length ∧ acceptAll t d options rest v = .ok w) ∨
    ∃ next, (t.add v.nextToken 1 : Outcome Empty Nat) = .ok next ∧
      (acceptAll t d options rest { v with nextToken := next } = .ok w ∨
        ∃ conn, v.conns.keys.length < options.maxConnections ∧ d.accept (ipKey addr) = some conn ∧
          acceptAll t d options rest { v with
            nextToken := next
            conns := v.conns.insert v.nextToken ⟨conn, instant⟩ } = .ok w) := by
  unfold acceptAll at h
  split at h
  · rename_i hfull
    exact .inl ⟨hfull, h⟩
  · rename_i hroom
    rcases Outcome.bind_eq_ok.mp h with ⟨next, hadd, h⟩
    refine .inr ⟨next, hadd, ?_⟩
    dsimp only at h
    split at h
    · exact .inl h
    · split at h
      · exact .inl h
      · rename_i conn hmade
        exact .inr ⟨conn, Nat.lt_of_not_le hroom, hmade, h⟩

/-- An event of a connection that is gone is ignored. -/
theorem handleToken_cases {token instant : Nat} {event : ω}
    (h : handleToken d v token instant event = .ok w) :
    w = v ∨ ∃ tracked r, v.conns.lookup token = some tracked ∧
      d.ready tracked.conn v.service event = .ok r ∧
      w = { v with
        conns := if r.drop then v.conns.erase token else v.conns.insert token ⟨r.conn, instant⟩
        service := r.service } := by
  unfold handleToken at h
  split at h
  · cases h
    exact .inl rfl
  · rename_i tracked hthere
    rcases Outcome.bind_eq_ok.mp h with ⟨r, hserved, h⟩
    cases h
    exact .inr ⟨tracked, r, hthere, hserved, rfl⟩

theorem iterate_serving (hphase : v.phase = .serving) (h : iterate t d options v tick = .ok w) :
    (tick.shutdown = true ∧ w = { v with phase := .draining (tick.instant + shutdownGrace) }) ∨
    (tick.shutdown = false ∧ tick.polled = none ∧ w = { v with phase := .stopped }) ∨
    (tick.shutdown = false ∧ ∃ events, tick.polled = some events ∧
      pass t d options true events tick.swept v = .ok w) := by
  unfold iterate at h
  rw [hphase] at h
  dsimp only at h
  split at h
  · rename_i hsignal
    cases h
    exact .inl ⟨hsignal, rfl⟩
  · rename_i hsignal
    split at h
    · rename_i events hpolled
      exact .inr (.inr ⟨Bool.eq_false_iff.mpr hsignal, events, hpolled, h⟩)
    · rename_i hpolled
      cases h
      exact .inr (.inl ⟨Bool.eq_false_iff.mpr hsignal, hpolled, rfl⟩)

theorem iterate_draining {deadline : Nat} (hphase : v.phase = .draining deadline)
    (h : iterate t d options v tick = .ok w) :
    ((v.conns.keys = [] ∨ deadline ≤ tick.instant ∨ tick.polled = none) ∧
      w = { v with phase := .stopped }) ∨
    (tick.instant < deadline ∧ ∃ events, tick.polled = some events ∧
      pass t d options false events tick.swept v = .ok w) := by
  unfold iterate at h
  rw [hphase] at h
  dsimp only at h
  split at h
  · rename_i hdone
    rw [Bool.or_eq_true, List.isEmpty_iff, decide_eq_true_eq] at hdone
    cases h
    rcases hdone with hempty | hlate
    · exact .inl ⟨.inl hempty, rfl⟩
    · exact .inl ⟨.inr (.inl hlate), rfl⟩
  · rename_i hgoes
    rw [Bool.or_eq_true, not_or, decide_eq_true_eq] at hgoes
    split at h
    · rename_i events hpolled
      exact .inr ⟨Nat.lt_of_not_le hgoes.2, events, hpolled, h⟩
    · rename_i hpolled
      cases h
      exact .inl ⟨.inr (.inr hpolled), rfl⟩

theorem iterate_stopped (hphase : v.phase = .stopped) : iterate t d options v tick = .ok v := by
  unfold iterate
  rw [hphase]
  rfl

/-- An iteration changes the phase and nothing else, or is a pass over its events. -/
theorem iterate_cases (h : iterate t d options v tick = .ok w) :
    (∃ phase, w = { v with phase := phase } ∧ (phase = v.phase → v.phase = .stopped)) ∨
    ∃ accepting events, tick.polled = some events ∧
      pass t d options accepting events tick.swept v = .ok w := by
  cases hphase : v.phase with
  | serving =>
    rcases iterate_serving hphase h with ⟨_, hw⟩ | ⟨_, _, hw⟩ | ⟨_, events, hpolled, hpass⟩
    · exact .inl ⟨_, hw, by simp⟩
    · exact .inl ⟨_, hw, by simp⟩
    · exact .inr ⟨true, events, hpolled, hpass⟩
  | draining deadline =>
    rcases iterate_draining hphase h with ⟨_, hw⟩ | ⟨_, events, hpolled, hpass⟩
    · exact .inl ⟨_, hw, by simp⟩
    · exact .inr ⟨false, events, hpolled, hpass⟩
  | stopped =>
    rw [iterate_stopped hphase] at h
    cases h
    exact .inl ⟨v.phase, rfl, fun _ => rfl⟩

end Cases

/-! ## Moves -/

/-- What a run does to a reactor, one change at a time, with the number of tokens that the
change uses up. -/
inductive Move (t : Target) (d : Driver σ γ ω) (options : Options) :
    EventLoop σ γ → Nat → EventLoop σ γ → Prop
  | discard {v : EventLoop σ γ} {next : Nat}
      (added : (t.add v.nextToken 1 : Outcome Empty Nat) = .ok next) :
      Move t d options v 1 { v with nextToken := next }
  | accept {v : EventLoop σ γ} {next instant : Nat} {addr : IpAddr} {conn : γ}
      (room : v.conns.keys.length < options.maxConnections)
      (added : (t.add v.nextToken 1 : Outcome Empty Nat) = .ok next)
      (made : d.accept (ipKey addr) = some conn) :
      Move t d options v 1
        { v with nextToken := next, conns := v.conns.insert v.nextToken ⟨conn, instant⟩ }
  | ready {v : EventLoop σ γ} {token instant : Nat} {event : ω} {tracked : Tracked γ}
      {r : Served σ γ} (there : v.conns.lookup token = some tracked)
      (served : d.ready tracked.conn v.service event = .ok r) :
      Move t d options v 0 { v with
        conns := if r.drop then v.conns.erase token else v.conns.insert token ⟨r.conn, instant⟩
        service := r.service }
  | sweep {v : EventLoop σ γ} (now : Nat) : Move t d options v 0 (v.sweepIdle options now)
  | others {v : EventLoop σ γ} (s : σ) : Move t d options v 0 { v with service := s }
  | turn {v : EventLoop σ γ} (phase : LoopPhase) : Move t d options v 0 { v with phase := phase }

/-- Moves one after the other, with the tokens they use up together. -/
inductive Moves (t : Target) (d : Driver σ γ ω) (options : Options) :
    EventLoop σ γ → Nat → EventLoop σ γ → Prop
  | refl {v : EventLoop σ γ} : Moves t d options v 0 v
  | tail {u v w : EventLoop σ γ} {n k : Nat} (before : Moves t d options u n v)
      (move : Move t d options v k w) : Moves t d options u (n + k) w

section Moves

variable {t : Target} {d : Driver σ γ ω} {options : Options} {u v w : EventLoop σ γ} {k m n : Nat}

theorem Moves.single (h : Move t d options v k w) : Moves t d options v k w := by
  have hmoves := Moves.refl.tail h
  rw [Nat.zero_add] at hmoves
  exact hmoves

theorem Moves.trans (h : Moves t d options u m v) (h' : Moves t d options v n w) :
    Moves t d options u (m + n) w := by
  induction h' with
  | refl => exact h
  | tail _ move ih =>
    rw [← Nat.add_assoc]
    exact ih.tail move

/-- What every move keeps, a run keeps. -/
theorem Moves.invariant {I : EventLoop σ γ → Prop} (h : Moves t d options v n w)
    (hkeep : ∀ {v w k}, I v → Move t d options v k w → I w) (hv : I v) : I w := by
  induction h with
  | refl => exact hv
  | tail _ move ih => exact hkeep ih move

/-- A step that is moves, in front of others. -/
theorem Moves.head {b : Nat} (h : Moves t d options u m v)
    (hrest : ∃ n, n ≤ b ∧ Moves t d options v n w) : ∃ n, n ≤ m + b ∧ Moves t d options u n w := by
  rcases hrest with ⟨n, hn, hmoves⟩
  exact ⟨m + n, Nat.add_le_add_left hn m, h.trans hmoves⟩

/-- The sockets among what `accept` returns. -/
def admitted : List AcceptResult → Nat
  | [] => 0
  | .ok _ _ _ :: rest => admitted rest + 1
  | _ :: rest => admitted rest

/-- The sockets that the listener returns in a list of events. -/
def admittedIn (events : List (PollEvent σ ω)) : Nat := (events.map fun e => admitted e.accepts).sum

/-- The sockets that the listener returns in a run. -/
def admittedOver (ticks : List (Tick σ ω)) : Nat :=
  (ticks.map fun tick => admittedIn (tick.polled.getD [])).sum

theorem moves_of_acceptAll {accepts : List AcceptResult}
    (h : acceptAll t d options accepts v = .ok w) :
    ∃ n, n ≤ admitted accepts ∧ Moves t d options v n w := by
  induction accepts generalizing v with
  | nil =>
    cases h
    exact ⟨0, Nat.le_refl _, .refl⟩
  | cons result rest ih =>
    cases result with
    | ok addr registered instant =>
      have hbound : 1 + admitted rest = admitted (.ok addr registered instant :: rest) :=
        Nat.add_comm 1 _
      rcases acceptAll_cases h with ⟨_, hrest⟩ | ⟨next, hadd, hrest | ⟨conn, hroom, hmade, hrest⟩⟩
      · -- over capacity no token is used up
        rcases ih hrest with ⟨n, hn, hmoves⟩
        exact ⟨n, Nat.le_succ_of_le hn, hmoves⟩
      · rw [← hbound]
        exact (Moves.single (.discard hadd)).head (ih hrest)
      · rw [← hbound]
        exact (Moves.single (.accept hroom hadd hmade)).head (ih hrest)
    | wouldBlock =>
      cases h
      exact ⟨0, Nat.zero_le _, .refl⟩
    | interrupted => exact ih h
    | failed =>
      cases h
      exact ⟨0, Nat.zero_le _, .refl⟩

theorem moves_of_handleToken {token instant : Nat} {event : ω}
    (h : handleToken d v token instant event = .ok w) : Moves t d options v 0 w := by
  rcases handleToken_cases h with rfl | ⟨tracked, r, hthere, hserved, rfl⟩
  · exact .refl
  · exact .single (.ready hthere hserved)

theorem moves_of_handleEvent {accepting : Bool} {e : PollEvent σ ω}
    (h : handleEvent t d options accepting v e = .ok w) :
    ∃ n, n ≤ admitted e.accepts ∧ Moves t d options v n w := by
  have hothers : Moves t d options v 0 { v with service := e.others.getD v.service } :=
    .single (.others _)
  rw [← Nat.zero_add (admitted e.accepts)]
  apply hothers.head
  unfold handleEvent at h
  dsimp only at h
  split at h
  · split at h
    · exact moves_of_acceptAll h
    · cases h
      exact ⟨0, Nat.zero_le _, .refl⟩
  · exact ⟨0, Nat.zero_le _, moves_of_handleToken h⟩

theorem moves_of_events {accepting : Bool} {events : List (PollEvent σ ω)}
    (h : events.foldlM (handleEvent t d options accepting) v = .ok w) :
    ∃ n, n ≤ admittedIn events ∧ Moves t d options v n w := by
  induction events generalizing v with
  | nil =>
    cases h
    exact ⟨0, Nat.zero_le _, .refl⟩
  | cons e events ih =>
    rw [List.foldlM_cons] at h
    rcases Outcome.bind_eq_ok.mp h with ⟨v', he, hrest⟩
    rcases moves_of_handleEvent he with ⟨m, hm, hmoves⟩
    rcases hmoves.head (ih hrest) with ⟨n, hn, hall⟩
    refine ⟨n, ?_, hall⟩
    rw [admittedIn, List.map_cons, List.sum_cons]
    exact hn.trans (Nat.add_le_add_right hm _)

theorem moves_of_pass {accepting : Bool} {events : List (PollEvent σ ω)} {swept : Nat}
    (h : pass t d options accepting events swept v = .ok w) :
    ∃ n, n ≤ admittedIn events ∧ Moves t d options v n w := by
  rcases Outcome.bind_eq_ok.mp h with ⟨v', hevents, h⟩
  cases h
  rcases moves_of_events hevents with ⟨n, hn, hmoves⟩
  exact ⟨n, hn, hmoves.tail (.sweep swept)⟩

/-- Everything an iteration does is moves. -/
theorem moves_of_iterate {tick : Tick σ ω} (h : iterate t d options v tick = .ok w) :
    ∃ n, n ≤ admittedIn (tick.polled.getD []) ∧ Moves t d options v n w := by
  rcases iterate_cases h with ⟨phase, rfl, _⟩ | ⟨accepting, events, hpolled, hpass⟩
  · exact ⟨0, Nat.zero_le _, .single (.turn phase)⟩
  · rw [hpolled]
    exact moves_of_pass hpass

/-- So is everything a run does. -/
theorem moves_of_run {ticks : List (Tick σ ω)} (h : run t d options v ticks = .ok w) :
    ∃ n, n ≤ admittedOver ticks ∧ Moves t d options v n w := by
  induction ticks generalizing v with
  | nil =>
    cases h
    exact ⟨0, Nat.zero_le _, .refl⟩
  | cons tick ticks ih =>
    rw [run, List.foldlM_cons] at h
    rcases Outcome.bind_eq_ok.mp h with ⟨v', htick, hrest⟩
    rcases moves_of_iterate htick with ⟨m, hm, hmoves⟩
    rcases hmoves.head (ih hrest) with ⟨n, hn, hall⟩
    refine ⟨n, ?_, hall⟩
    rw [admittedOver, List.map_cons, List.sum_cons]
    exact hn.trans (Nat.add_le_add_right hm _)

/-- Every connection of the table satisfies `I`. -/
def All (I : γ → Prop) (v : EventLoop σ γ) : Prop :=
  ∀ token tracked, v.conns.lookup token = some tracked → I tracked.conn

/-- What holds of accepted connections, and of a connection after every event that keeps it,
holds of all connections throughout. -/
theorem all_of_run {I : γ → Prop} {s : σ} {ticks : List (Tick σ ω)}
    (haccept : ∀ peer conn, d.accept peer = some conn → I conn)
    (hready : ∀ conn s event r, I conn → d.ready conn s event = .ok r → r.drop = false → I r.conn)
    (h : run t d options (start s) ticks = .ok w) : w.All I := by
  rcases moves_of_run h with ⟨n, _, hmoves⟩
  have hstart : (start s : EventLoop σ γ).All I := by
    intro token tracked htracked
    cases htracked
  refine hmoves.invariant ?_ hstart
  intro v w k hall hmove token tracked htracked
  -- only an accept and an event that keeps the connection put one into the table
  cases hmove with
  | discard added => exact hall token tracked htracked
  | accept room added made =>
    by_cases heq : token = v.nextToken
    · rw [heq, AList.lookup_insert] at htracked
      cases htracked
      exact haccept _ _ made
    · rw [AList.lookup_insert_ne heq] at htracked
      exact hall token tracked htracked
  | @ready token' _ _ before r there served =>
    dsimp only at htracked
    split at htracked
    · by_cases heq : token = token'
      · rw [heq, AList.lookup_erase] at htracked
        cases htracked
      · rw [AList.lookup_erase_ne heq] at htracked
        exact hall token tracked htracked
    · rename_i hkept
      by_cases heq : token = token'
      · rw [heq, AList.lookup_insert] at htracked
        cases htracked
        exact hready _ _ _ _ (hall token' before there) served (Bool.eq_false_iff.mpr hkept)
      · rw [AList.lookup_insert_ne heq] at htracked
        exact hall token tracked htracked
  | sweep now =>
    rw [sweepIdle, lookup_sweep, Option.filter_eq_some_iff] at htracked
    exact hall token tracked htracked.1
  | others s => exact hall token tracked htracked
  | turn phase => exact hall token tracked htracked

end Moves

end EventLoop

end FerroHttp
