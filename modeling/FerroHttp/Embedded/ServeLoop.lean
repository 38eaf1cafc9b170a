import FerroHttp.Embedded.HalfClose
import FerroHttp.Transport.Refinement

/-!
# Embedded.ServeLoop — many sockets, one client after another

`serve_smoltcp` pumps every server socket in each iteration, and a socket serves one client
after another. The results keep the two apart.

1. `Board.sockets_independent`: whatever the other sockets do, each socket of the loop goes
   through states that the loop over this socket alone goes through;
2. `Board.attends`: what an open socket took for the client it has now, with what is
   pending, is the answer to what this client sent. Nothing is left of an earlier client,
   and none of it was sent to another;
3. `Board.dateless`: on a board without a clock no response has a `Date`.
-/

namespace FerroHttp

open Exec Text

variable {σ κ ε : Type}

/-! ## The loop -/

/-- What `serve_smoltcp` works on: the sockets of the stack by handle, the handles of the
server sockets with their states, and the service. -/
structure Board (σ κ : Type) where
  sockets : List κ
  server : List (Nat × ConnState)
  service : σ

/-- The pass over the server sockets. The stack panics on a handle that it does not know. -/
def serveAll (io : Stack κ ε) (t : Target) (svc : Service σ) (listenPort now : Nat) :
    List (Nat × ConnState) → List κ → σ → Outcome Empty (Board σ κ)
  | [], sockets, s => pure ⟨sockets, [], s⟩
  | (handle, state) :: rest, sockets, s =>
    match sockets[handle]? with
    | none => .panic
    | some socket => do
      let v ← servePass io t svc listenPort now ⟨socket, state, s⟩
      let b ← serveAll io t svc listenPort now rest (sockets.set handle v.socket) v.service
      pure { b with server := (handle, v.state) :: b.server }

namespace Board

/-- One iteration: the clock, the interface on all sockets, and the pass. -/
inductive Turn (io : Stack κ ε) (t : Target) (svc : Service σ) (listenPort : Nat) :
    Board σ κ → Board σ κ → Prop
  | turn {b b' : Board σ κ} {sockets : List κ} (now : Nat)
      (polled : List.Forall₂ io.poll b.sockets sockets)
      (served : serveAll io t svc listenPort now b.server sockets b.service = .ok b') :
      Turn io t svc listenPort b b'

/-- The board at start: the states are new. -/
def start (sockets : List κ) (handles : List Nat) (hasClock : Bool) (s : σ) : Board σ κ :=
  ⟨sockets, handles.map fun handle => (handle, .withClock hasClock), s⟩

/-- A run from the start over sockets that are closed. `SocketSet.add` returns each handle
once, and every handle is one that it returned. -/
structure Reachable (io : Stack κ ε) (t : Target) (svc : Service σ) (listenPort : Nat)
    (handles : List Nat) (hasClock : Bool) (b : Board σ κ) : Prop where
  distinct : handles.Nodup
  run : ∃ sockets s, (∀ socket ∈ sockets, io.isOpen socket = false) ∧
    (∀ handle ∈ handles, handle < sockets.length) ∧
    Relation.ReflTransGen (Turn io t svc listenPort) (start sockets handles hasClock s) b

/-- A server socket of the board, seen alone. -/
structure Holds (b : Board σ κ) (handle : Nat) (v : Server σ κ) : Prop where
  state : (handle, v.state) ∈ b.server
  socket : b.sockets[handle]? = some v.socket
  service : v.service = b.service

/-- Where the first handle is that of the first socket, the board holds that socket. -/
theorem holds_first {β : Type} {f : κ → β} {x : β} {xs : List β} {rest : List Nat} (b : Board σ κ)
    (hsockets : b.sockets.map f = x :: xs) (hhandles : b.server.map (·.1) = 0 :: rest) :
    ∃ v, b.Holds 0 v ∧ f v.socket = x := by
  rcases List.map_eq_cons_iff.mp hsockets with ⟨k, _, hk, hx, _⟩
  rcases List.map_eq_cons_iff.mp hhandles with ⟨⟨handle, state⟩, _, hstate, hzero, _⟩
  cases hzero
  refine ⟨⟨k, state, b.service⟩, ⟨?_, ?_, rfl⟩, hx⟩
  · rw [hstate]
    exact List.mem_cons_self
  · rw [hk]
    rfl

end Board

/-! ## One socket of many -/

section Projection

variable {io : Stack κ ε} {t : Target} {svc : Service σ} {listenPort now handle : Nat}
  {server : List (Nat × ConnState)} {sockets : List κ} {s : σ} {b b' : Board σ κ}
  {handles : List Nat} {hasClock : Bool}

/-- The handles stay, the sockets are as many, and one that is not the server's stays too. -/
theorem serveAll_frame (h : serveAll io t svc listenPort now server sockets s = .ok b) :
    b.server.map (·.1) = server.map (·.1) ∧ b.sockets.length = sockets.length ∧
      (handle ∉ server.map (·.1) → b.sockets[handle]? = sockets[handle]?) := by
  induction server generalizing sockets s b with
  | nil =>
    cases h
    exact ⟨rfl, rfl, fun _ => rfl⟩
  | cons entry rest ih =>
    unfold serveAll at h
    cases hsocket : sockets[entry.1]? with
    | none => simp [hsocket] at h
    | some socket =>
      rw [hsocket] at h
      rcases Outcome.bind_eq_ok.mp h with ⟨v, _, hrest⟩
      rcases Outcome.bind_eq_ok.mp hrest with ⟨u, hu, hdone⟩
      cases hdone
      -- the pass goes on with the one socket replaced
      rcases ih hu with ⟨hhandles, hlength, hsame⟩
      refine ⟨congrArg (entry.1 :: ·) hhandles, hlength.trans List.length_set, ?_⟩
      intro hnot
      rw [List.map_cons, List.mem_cons, not_or] at hnot
      rw [hsame hnot.2, List.getElem?_set_ne (Ne.symm hnot.1)]

/-- Each entry of the pass is served once, on its own socket, with the service as the
entries before it left it. -/
theorem serveAll_entry (h : serveAll io t svc listenPort now server sockets s = .ok b)
    (hdistinct : (server.map (·.1)).Nodup) {state : ConnState} (hmem : (handle, state) ∈ b.server) :
    ∃ before v socket, (handle, before) ∈ server ∧ sockets[handle]? = some socket ∧
      (∃ s', servePass io t svc listenPort now ⟨socket, before, s'⟩ = .ok v) ∧
      v.state = state ∧ b.sockets[handle]? = some v.socket := by
  induction server generalizing sockets s b with
  | nil =>
    cases h
    cases hmem
  | cons entry rest ih =>
    rw [List.map_cons, List.nodup_cons] at hdistinct
    unfold serveAll at h
    cases hsocket : sockets[entry.1]? with
    | none => simp [hsocket] at h
    | some socket =>
      rw [hsocket] at h
      rcases Outcome.bind_eq_ok.mp h with ⟨v, hv, hrest⟩
      rcases Outcome.bind_eq_ok.mp hrest with ⟨u, hu, hdone⟩
      cases hdone
      rcases List.mem_cons.mp hmem with heq | hlater
      · -- the head is served first, and the rest leaves its socket alone
        cases heq
        have hset : (sockets.set entry.1 v.socket)[entry.1]? = some v.socket :=
          List.getElem?_set_self (List.getElem?_eq_some_iff.mp hsocket).1
        refine ⟨entry.2, v, socket, List.mem_cons_self, hsocket, ⟨s, hv⟩, rfl, ?_⟩
        show u.sockets[entry.1]? = _
        rw [(serveAll_frame hu).2.2 hdistinct.1, hset]
      · rcases ih hu hdistinct.2 hlater with ⟨before, w, socket', hbefore, hthere, hserved, hstate, hdone⟩
        have hne : handle ≠ entry.1 := by
          intro heq
          apply hdistinct.1
          rw [← heq]
          exact List.mem_map_of_mem hbefore
        rw [List.getElem?_set_ne (Ne.symm hne)] at hthere
        exact ⟨before, w, socket', List.mem_cons_of_mem _ hbefore, hthere, hserved, hstate, hdone⟩

/-- An iteration of the loop is passes of each of its sockets, between which the others
use the service. -/
theorem Board.Turn.passes (h : Turn io t svc listenPort b b') {v' : Server σ κ}
    (hdistinct : (b.server.map (·.1)).Nodup) (hholds : b'.Holds handle v') :
    ∃ v, b.Holds handle v ∧ Relation.ReflTransGen (Pass io t svc listenPort) v v' := by
  rcases h with ⟨now, polled, served⟩
  rcases serveAll_entry served hdistinct hholds.state with
    ⟨before, w, socket, hbefore, hthere, ⟨s', hserved⟩, hstate, hafter⟩
  rcases List.getElem?_eq_some_iff.mp hthere with ⟨hbound, hget⟩
  have hlength : handle < b.sockets.length := by
    rw [polled.length_eq]
    exact hbound
  have hpoll : io.poll b.sockets[handle] socket := by
    rw [← hget]
    exact polled.get hlength hbound
  have hsocket : w.socket = v'.socket := by
    rw [hholds.socket] at hafter
    exact (Option.some.inj hafter).symm
  have hlast : ({ w with service := v'.service } : Server σ κ) = v' := by
    rw [hstate, hsocket]
  -- the others use the service before and after the pass over this socket
  refine ⟨⟨b.sockets[handle], before, b.service⟩, ⟨hbefore, List.getElem?_eq_getElem hlength, rfl⟩, ?_⟩
  exact (Relation.ReflTransGen.single (.others s')).tail (.pass now hpoll hserved) |>.tail
    (hlast ▸ .others v'.service)

/-- A run over one socket, from a closed one with a new state. -/
def Server.RunsTo (io : Stack κ ε) (t : Target) (svc : Service σ) (listenPort : Nat)
    (hasClock : Bool) (v : Server σ κ) : Prop :=
  ∃ socket s, io.isOpen socket = false ∧
    Relation.ReflTransGen (Pass io t svc listenPort) ⟨socket, .withClock hasClock, s⟩ v

/-- The handles of the board stay the ones it started with, and every one has its socket. -/
theorem Board.Reachable.handles_eq (h : b.Reachable io t svc listenPort handles hasClock) :
    b.server.map (·.1) = handles ∧ ∀ handle ∈ handles, handle < b.sockets.length := by
  rcases h.run with ⟨sockets, s, _, hknown, hrun⟩
  clear h
  induction hrun with
  | refl => exact ⟨by simp [Board.start, Function.comp_def], hknown⟩
  | tail _ hturn ih =>
    rcases hturn with ⟨now, polled, served⟩
    rcases @serveAll_frame _ _ _ _ _ _ _ _ 0 _ _ _ _ served with ⟨hhandles, hlength, _⟩
    rw [hhandles, hlength, ← polled.length_eq]
    exact ih

theorem Board.Reachable.runsTo (h : b.Reachable io t svc listenPort handles hasClock)
    {v : Server σ κ} (hholds : b.Holds handle v) : v.RunsTo io t svc listenPort hasClock := by
  have hdistinct := h.distinct
  rcases h.run with ⟨sockets, s, hclosed, hknown, hrun⟩
  clear h
  induction hrun generalizing v with
  | refl =>
    rcases List.mem_map.mp hholds.state with ⟨_, _, heq⟩
    have hstate : v.state = .withClock hasClock := (Prod.mk.inj heq).2.symm
    refine ⟨v.socket, v.service, hclosed _ (List.mem_of_getElem? hholds.socket), ?_⟩
    rw [← hstate]
  | @tail b b' hbefore hturn ih =>
    have hreach : b.Reachable io t svc listenPort handles hasClock :=
      ⟨hdistinct, sockets, s, hclosed, hknown, hbefore⟩
    rcases hturn.passes (by rw [hreach.handles_eq.1]; exact hdistinct) hholds with ⟨u, hu, hpasses⟩
    rcases ih hu with ⟨socket₀, s₀, hstart, hruns⟩
    exact ⟨socket₀, s₀, hstart, hruns.trans hpasses⟩

/-- No server socket is ever lost from the loop, and each goes through what the loop over
this socket alone goes through, whatever the others do, errors included. -/
theorem Board.sockets_independent (h : b.Reachable io t svc listenPort handles hasClock)
    (hhandle : handle ∈ handles) :
    ∃ v, b.Holds handle v ∧ v.RunsTo io t svc listenPort hasClock := by
  rcases h.handles_eq with ⟨hhandles, hknown⟩
  have hmem : handle ∈ b.server.map (·.1) := by
    rw [hhandles]
    exact hhandle
  rcases List.mem_map.mp hmem with ⟨⟨_, state⟩, hentry, rfl⟩
  have hholds : b.Holds _ ⟨b.sockets.get ⟨_, hknown _ hhandle⟩, state, b.service⟩ :=
    ⟨hentry, List.getElem?_eq_getElem (hknown _ hhandle), rfl⟩
  exact ⟨_, hholds, h.runsTo hholds⟩

end Projection

/-! ## One client after another -/

/-- Steps of a connection over what the polls received, one poll after the other. The pump
goes on behind a closing response. -/
inductive Replies (t : Target) (svc : Service σ) (first : Connection) :
    List (Round σ) → Connection → List Entry → Prop
  | none : Replies t svc first [] first []
  | poll {rounds : List (Round σ)} {c c' : Connection} {s' : σ} {log log' : List Entry}
      {closed : Bool} (before : Replies t svc first rounds c log) (round : Round σ)
      (drives : Drives t svc round.now (c.feed round.received) round.service c' s' log' closed) :
      Replies t svc first (rounds ++ [round]) c' (log ++ log')

/-- What the stack documents of the bytes of a socket: `received` is what was handed out
since the socket was last armed, and `sent` what was taken to be sent. The network changes
neither, and reopens no closed socket. -/
structure Accounts (io : Stack κ ε) (received sent : κ → Bytes) : Prop where
  listen : ∀ k port k', io.listen k port = (.ok (), k') → received k' = [] ∧ sent k' = []
  recv : ∀ k bytes k', io.recv k = (.ok bytes, k') →
    received k' = received k ++ bytes ∧ sent k' = sent k
  sendSlice : ∀ k bytes n k', io.sendSlice k bytes = (.ok n, k') →
    received k' = received k ∧ sent k' = sent k ++ bytes.take n
  close : ∀ k, received (io.close k) = received k ∧ sent (io.close k) = sent k
  abort : ∀ k, io.isOpen (io.abort k) = false
  poll : ∀ k k', io.poll k k' → io.isOpen k' = true →
    io.isOpen k = true ∧ received k' = received k ∧ sent k' = sent k

/-- A socket has one client: what was received from it was driven, and what was sent to it
and is pending is what the drives wrote. -/
structure Attends (t : Target) (svc : Service σ) (hasClock : Bool) (received sent : Bytes)
    (st : ConnState) (rounds : List (Round σ)) (log : List Entry) : Prop where
  replies : Replies t svc (Connection.new.clock hasClock) rounds st.conn log
  received : fedOver rounds = received
  sent : sent ++ st.out = log.flatMap (·.bytes)

section Clients

variable {io : Stack κ ε} {received sent : κ → Bytes} {t : Target} {svc : Service σ}
  {listenPort now handle : Nat} {hasClock : Bool} {socket : κ} {st : ConnState} {s : σ}
  {v v' : Server σ κ} {p : Pumped σ κ ε}

/-- No operation of the pump changes the clock of a state. -/
theorem hasClock_of_advance {a b : Advance σ} (h : advance t svc now a = .ok b) :
    b.state.hasClock = a.state.hasClock := by
  have hstep : ∀ (u : Advance σ) f, advanceStep t svc now u = .ok f →
      ∀ w, (f = .again w ∨ f = .done w) → w.state.hasClock = u.state.hasClock := by
    intro u f hf w hw
    unfold advanceStep at hf
    rcases Outcome.bind_eq_ok.mp hf with ⟨r, _, hf⟩
    cases hverdict : r.step with
    | needMore =>
      rw [hverdict] at hf
      cases hf
      rcases hw with hw | hw
      · cases hw
      · cases hw
        rfl
    | write bytes close =>
      rw [hverdict] at hf
      cases close with
      | true =>
        cases hf
        rcases hw with hw | hw
        · cases hw
        · cases hw
          rfl
      | false =>
        cases hf
        rcases hw with hw | hw
        · cases hw
          rfl
        · cases hw
  -- the loop ends with a step as well
  rcases exists_reaches_of_runLoop h with ⟨u, hreach, hlast⟩
  rw [hstep u _ hlast b (.inr rfl)]
  refine hreach.invariant (I := fun w => w.state.hasClock = a.state.hasClock) rfl ?_
  intro w w' hagain hw
  rw [hstep w _ (Flow.ofOutcome_eq_again.mp hagain) w' (.inl rfl), hw]

/-- A close behind the output leaves the bytes alone. -/
theorem closeFlushed_bytes (hstack : Accounts io received sent) :
    received (closeFlushed io.toSocket st socket).2 = received socket ∧
      sent (closeFlushed io.toSocket st socket).2 = sent socket ∧
      (closeFlushed io.toSocket st socket).1.conn = st.conn ∧
      (closeFlushed io.toSocket st socket).1.out = st.out := by
  rcases closeFlushed_conn io.toSocket st socket with ⟨hconn, hout⟩
  refine ⟨?_, ?_, hconn, hout⟩
  · unfold closeFlushed
    split
    · exact (hstack.close socket).1
    · rfl
  · unfold closeFlushed
    split
    · exact (hstack.close socket).2
    · rfl

theorem hasClock_of_closeFlushed :
    (closeFlushed io.toSocket st socket).1.hasClock = st.hasClock := by
  unfold closeFlushed
  split <;> rfl

theorem hasClock_of_flush {a : Advance σ} (h : flush io.toSocket a socket = .ok p) :
    p.state.hasClock = a.state.hasClock := by
  unfold flush at h
  split at h
  · split at h
    · cases h
      rfl
    · split at h
      · cases h
        exact hasClock_of_closeFlushed
      · cases h
  · cases h
    exact hasClock_of_closeFlushed

/-- A flush that succeeds moves bytes from the pending output to the socket. -/
theorem flush_bytes (hstack : Accounts io received sent) {a : Advance σ}
    (h : flush io.toSocket a socket = .ok p) (hok : p.result = .ok ()) :
    received p.socket = received socket ∧
      sent p.socket ++ p.state.out = sent socket ++ a.state.out ∧
      p.state.conn = a.state.conn := by
  unfold flush at h
  split at h
  · cases hsend : io.sendSlice socket a.state.out with
    | mk result socket' =>
      rw [hsend] at h
      cases result with
      | error e =>
        cases h
        cases hok
      | ok n =>
        simp only at h
        split at h
        · cases h
          rcases hstack.sendSlice _ _ _ _ hsend with ⟨hreceived, hsent⟩
          rcases @closeFlushed_bytes _ _ io received sent socket'
            { a.state with out := a.state.out.drop n } hstack with ⟨h1, h2, h3, h4⟩
          refine ⟨h1.trans hreceived, ?_, h3⟩
          dsimp only
          rw [h2, h4, hsent, List.append_assoc, List.take_append_drop]
        · cases h
  · cases h
    rcases @closeFlushed_bytes _ _ io received sent socket a.state hstack with ⟨h1, h2, h3, h4⟩
    refine ⟨h1, ?_, h3⟩
    show sent (closeFlushed io.toSocket a.state socket).2 ++
      (closeFlushed io.toSocket a.state socket).1.out = _
    rw [h2, h4]

/-- What is taken from a socket is what it hands out. -/
theorem receive_bytes (hstack : Accounts io received sent) {bytes : Bytes} {socket' : κ}
    (h : receive io.toSocket socket = (.ok bytes, socket')) :
    received socket' = received socket ++ bytes ∧ sent socket' = sent socket := by
  unfold receive at h
  split at h
  · exact hstack.recv _ _ _ h
  · cases h
    exact ⟨(List.append_nil _).symm, rfl⟩

/-- A poll of an open socket answers what it received. -/
theorem Attends.poll {rounds : List (Round σ)} {log : List Entry}
    (hbefore : Attends t svc hasClock (received socket) (sent socket) st rounds log)
    (hstack : Accounts io received sent) {bytes : Bytes} {a : Advance σ}
    (hreceive : (receive io.toSocket socket).1 = .ok bytes)
    (hadvance : advance t svc now ⟨{ st with conn := st.conn.feed bytes }, s, []⟩ = .ok a)
    (hflush : flush io.toSocket a (receive io.toSocket socket).2 = .ok p)
    (hok : p.result = .ok ()) :
    ∃ log', Attends t svc hasClock (received p.socket) (sent p.socket) p.state
      (rounds ++ [⟨bytes, now, s⟩]) (log ++ log') := by
  rcases drives_of_advance hadvance with ⟨log', closed, hdriven⟩
  rcases receive_bytes hstack (Prod.ext hreceive rfl) with ⟨hreceived, hsent⟩
  rcases flush_bytes hstack hflush hok with ⟨hreceived', hsent', hconn⟩
  have hfed : fedOver (rounds ++ [⟨bytes, now, s⟩]) = fedOver rounds ++ bytes := by
    simp [fedOver]
  refine ⟨log', ?_, ?_, ?_⟩
  · rw [hconn]
    exact .poll hbefore.replies ⟨bytes, now, s⟩ hdriven.drives
  · rw [hfed, hbefore.received, hreceived', hreceived]
  · rw [hsent', hsent, hdriven.out, ← List.append_assoc, hbefore.sent, List.flatMap_append]

/-- What holds of a socket between two passes. -/
def Attended (io : Stack κ ε) (received sent : κ → Bytes) (t : Target) (svc : Service σ)
    (hasClock : Bool) (v : Server σ κ) : Prop :=
  v.state.hasClock = hasClock ∧ (io.isOpen v.socket = true → ∃ rounds log,
    Attends t svc hasClock (received v.socket) (sent v.socket) v.state rounds log)

/-- A new client starts with nothing. -/
theorem attends_reset (hclock : st.hasClock = hasClock) :
    Attends t svc hasClock [] [] st.reset [] [] := by
  rw [← hclock]
  exact ⟨.none, rfl, rfl⟩

/-- A pump that succeeds serves the client that the socket has, or arms it for the next. -/
theorem attended_of_pumped (hstack : Accounts io received sent)
    (hattended : Attended io received sent t svc hasClock ⟨socket, st, s⟩)
    (h : pumpConnection io.toSocket t svc listenPort now socket st s = .ok p) :
    p.state.hasClock = hasClock ∧ (p.result = .ok () →
      Attended io received sent t svc hasClock ⟨p.socket, p.state, p.service⟩) := by
  rcases hattended with ⟨hclock, hattends⟩
  cases hopen : io.isOpen socket with
  | false =>
    rw [pumpConnection, hopen] at h
    simp only [Bool.not_false, if_true] at h
    cases hlisten : io.listen socket listenPort with
    | mk result socket' =>
      rw [hlisten] at h
      cases result with
      | error e =>
        cases h
        exact ⟨hclock, fun hok => by cases hok⟩
      | ok _ =>
        cases h
        rcases hstack.listen _ _ _ hlisten with ⟨hreceived, hsent⟩
        -- armed again: the next client starts with an empty state
        refine ⟨hclock, fun _ => ⟨hclock, fun _ => ⟨[], [], ?_⟩⟩⟩
        dsimp only
        rw [hreceived, hsent]
        exact attends_reset hclock
  | true =>
    rcases hattends hopen with ⟨rounds, log, hbefore⟩
    rcases pumpConnection_open hopen h with
      ⟨e, _, _, hstate, _, herror⟩ | ⟨bytes, a, hreceive, hadvance, hflush⟩
    · rw [hstate, herror]
      exact ⟨hclock, fun hok => by cases hok⟩
    · have hclock' : p.state.hasClock = hasClock :=
        (hasClock_of_flush hflush).trans ((hasClock_of_advance hadvance).trans hclock)
      refine ⟨hclock', ?_⟩
      intro hok
      rcases hbefore.poll hstack hreceive hadvance hflush hok with ⟨log', hafter⟩
      exact ⟨hclock', fun _ => ⟨_, _, hafter⟩⟩

/-- A socket that was aborted has no client. -/
theorem attended_of_closed (hclock : v.state.hasClock = hasClock)
    (hclosed : io.isOpen v.socket = false) : Attended io received sent t svc hasClock v := by
  refine ⟨hclock, ?_⟩
  intro hopen
  rw [hclosed] at hopen
  cases hopen

theorem Attended.pass (h : Attended io received sent t svc hasClock v)
    (hstack : Accounts io received sent) (hpass : Pass io t svc listenPort v v') :
    Attended io received sent t svc hasClock v' := by
  cases hpass with
  | @pass _ socket now polled served =>
    rcases Outcome.bind_eq_ok.mp served with ⟨p, hpumped, hdone⟩
    -- the network does not touch the bytes, and reopens nothing
    have hpolled : Attended io received sent t svc hasClock ⟨socket, v.state, v.service⟩ := by
      refine ⟨h.1, ?_⟩
      intro hopen
      rcases hstack.poll _ _ polled hopen with ⟨hbefore, hreceived, hsent⟩
      dsimp only
      rw [hreceived, hsent]
      exact h.2 hbefore
    rcases attended_of_pumped hstack hpolled hpumped with ⟨hclock, hattended⟩
    cases hresult : p.result with
    | ok _ =>
      rw [hresult] at hdone
      cases hdone
      exact hattended hresult
    | error e =>
      rw [hresult] at hdone
      cases hdone
      exact attended_of_closed hclock (hstack.abort p.socket)
  | others s => exact h

theorem attended_of_runsTo (hstack : Accounts io received sent)
    (h : v.RunsTo io t svc listenPort hasClock) :
    Attended io received sent t svc hasClock v := by
  rcases h with ⟨socket₀, s₀, hclosed, hrun⟩
  induction hrun with
  | refl => exact attended_of_closed rfl hclosed
  | tail _ hpass ih => exact ih.pass hstack hpass

end Clients

/-! ## What a client gets -/

section Meaning

variable {t : Target} {svc : Service σ} {now : Nat} {conn conn' first : Connection} {s s' : σ} {log : List Entry}
  {closed : Bool} {rounds : List (Round σ)}

theorem filterMap_handled_cons (e : Entry) (log : List Entry) :
    (e :: log).filterMap (·.handled) = e.handled.toList ++ log.filterMap (·.handled) := by
  cases hhandled : e.handled <;> simp [hhandled]

/-- A drive takes requests off the buffer, and keeps the policy of the connection. -/
theorem Drives.consumes (h : Drives t svc now conn s conn' s' log closed) :
    conn'.maxBody = conn.maxBody ∧ conn'.policy = conn.policy ∧
      Consumes t conn.maxBody conn.buf (log.filterMap (·.handled)) conn'.buf := by
  induction h with
  | wait step verdict =>
    rcases Connection.eq_of_needMore step verdict with ⟨_, rfl⟩
    exact ⟨rfl, rfl, .nil _⟩
  | close step verdict =>
    rw [filterMap_handled_cons]
    rcases consumes_of_step step with ⟨hlimit, hpolicy, hconsumes⟩
    exact ⟨hlimit, hpolicy, hconsumes.trans (.nil _)⟩
  | more step verdict rest ih =>
    rcases consumes_of_step step with ⟨hlimit, hpolicy, hconsumes⟩
    rcases ih with ⟨hlimit', hpolicy', hrest⟩
    rw [hlimit] at hrest
    rw [filterMap_handled_cons]
    exact ⟨hlimit'.trans hlimit, hpolicy'.trans hpolicy, hconsumes.trans hrest⟩

/-- The requests dispatched over all polls are those at the start of what was received. -/
theorem Replies.consumes (h : Replies t svc first rounds conn log) (hempty : first.buf = [])
    (haddr : Addressable t (fedOver rounds)) :
    conn.maxBody = first.maxBody ∧ conn.policy = first.policy ∧
      Consumes t first.maxBody (fedOver rounds) (log.filterMap (·.handled)) conn.buf := by
  induction h with
  | none => exact ⟨rfl, rfl, by rw [hempty]; exact .nil _⟩
  | @poll rounds c _ _ log _ _ before round drives ih =>
    have hfed : fedOver (rounds ++ [round]) = fedOver rounds ++ round.received := by
      simp [fedOver]
    rw [hfed] at haddr ⊢
    rcases ih haddr.of_append with ⟨hlimit, hpolicy, hbefore⟩
    rcases drives.consumes with ⟨hlimit', hpolicy', hdriven⟩
    rw [Connection.feed_maxBody, Connection.feed_buf, hlimit] at hdriven
    rw [List.filterMap_append]
    exact ⟨hlimit'.trans hlimit, hpolicy'.trans hpolicy, (hbefore.append haddr).trans hdriven⟩

theorem Replies.written
    (good : ∀ state request ctx, GoodResponse (svc.handle state request ctx).1)
    (h : Replies t svc first rounds conn log) : ∀ e ∈ log, e.Written svc := by
  induction h with
  | none => simp
  | poll before round drives ih =>
    intro e he
    rcases List.mem_append.mp he with he | he
    · exact ih e he
    · exact drives.written good e he

/-! ## No clock -/

/-- A decoder that is told what it should be reads one response only. -/
theorem Entry.Delimits.unique {e : Entry} {d d' : DecodedResponse} {told : Bool}
    (h : e.Delimits d) (htold : ∀ b, e.flag = some b → told = b)
    (hdecode : decodeResponse told (e.bytes ++ []) = some (d', [])) : d = d' := by
  have hd := h.decodes told htold []
  rw [hdecode] at hd
  exact (Prod.mk.inj (Option.some.inj hd)).1.symm

/-- Without a clock `finalize` adds no `Date`. -/
theorem dateless_finalize {r : Response} (keepAlive : Bool) {policy : ResponsePolicy}
    (hclock : policy.hasClock = false)
    (hnames : ∀ f ∈ r.headers, eqIgnoreAsciiCase (utf8 f.1) (utf8 "date") = false) :
    fieldsCalled "date" (wireFieldsOf (finalize r now keepAlive policy)) = [] := by
  have hothers : ∀ name ∈ protocolNames, name ≠ "Date" →
      eqIgnoreAsciiCase (utf8 name) (utf8 "date") = false := by
    decide +kernel
  -- without a clock `Date` is not among the connection's own fields
  have hown : ∀ f ∈ protocolHeaders now keepAlive policy,
      eqIgnoreAsciiCase (utf8 f.1) (utf8 "date") = false := by
    intro f hf
    apply hothers f.1 (protocolHeaders_names hf)
    unfold protocolHeaders at hf
    rw [hclock, if_neg (by simp), List.nil_append] at hf
    rcases List.mem_cons.mp hf with rfl | hf
    · simp
    · split at hf
      · simp only [List.mem_cons, List.not_mem_nil, or_false] at hf
        rcases hf with rfl | rfl | rfl <;> simp
      · cases hf
  have hservice : fieldsCalled "date" ((r.headers.filter Response.isWritten).map rawField) = [] := by
    apply fieldsCalled_rawField_eq_nil
    intro f hf
    exact hnames f (List.mem_filter.mp hf).1
  have hprotocol : fieldsCalled "date"
      (((protocolHeaders now keepAlive policy).filter Response.isWritten).map rawField) = [] := by
    apply fieldsCalled_rawField_eq_nil
    intro f hf
    exact hown f (List.mem_filter.mp hf).1
  have hlength : fieldsCalled "date" (lengthFields r) = [] :=
    fieldsCalled_lengthFields_eq_nil r (hothers "Content-Length" (by simp [protocolNames]) (by simp))
  rw [wireFieldsOf_finalize, fieldsCalled_append, fieldsCalled_append, hservice, hprotocol, hlength]
  rfl

/-- A finalized response is read back without `Date`. -/
theorem dateless_of_delimits {r : Response} {keepAlive head : Bool} {policy : ResponsePolicy}
    {e : Entry} {d : DecodedResponse} (hclock : policy.hasClock = false) (hr : Encodable r)
    (hnames : ∀ f ∈ r.headers, eqIgnoreAsciiCase (utf8 f.1) (utf8 "date") = false)
    (hbytes : e.bytes = (finalize r now keepAlive policy).serialize head)
    (hflag : e.flag = some head) (hd : e.Delimits d) : fieldsCalled "date" d.fields = [] := by
  have hdecode := @decodeResponse_serialize _ (hr.finalize now keepAlive policy) head head (.inl rfl) []
  rw [← hbytes] at hdecode
  have htold : ∀ b, e.flag = some b → head = b := by
    intro b hb
    rw [hflag] at hb
    exact Option.some.inj hb
  rw [hd.unique htold hdecode]
  exact dateless_finalize keepAlive hclock hnames

/-- The step of a connection without a clock writes no `Date`. -/
theorem dateless_of_step {r : StepResult σ} {bytes : Bytes} {close : Bool} {d : DecodedResponse}
    (good : ∀ state request ctx, GoodResponse (svc.handle state request ctx).1)
    (hclock : conn.policy.hasClock = false) (hstep : conn.step t svc s now = .ok r)
    (hwrite : r.step = .write bytes close) (hd : Entry.Delimits ⟨bytes, close, r.handled⟩ d) :
    fieldsCalled "date" d.fields = [] := by
  have htext : ∀ status body, ∀ f ∈ (Response.text status body).headers,
      eqIgnoreAsciiCase (utf8 f.1) (utf8 "date") = false := by
    intro status body f hf
    rw [List.mem_singleton.mp hf]
    decide +kernel
  -- an interim response, the service's, or a refusal
  rcases Connection.step_cases hstep with ⟨_, rfl⟩ | ⟨request, n, _, rfl⟩ | ⟨e, _, rfl⟩
  · rcases Connection.stepPartial_cases conn s now with heq | ⟨_, heq⟩ | heq
    · rw [heq] at hwrite
      cases hwrite
    · rw [heq] at hwrite hd
      cases hwrite
      have hcontinue := delimits_continue.decodes false (by simp [Entry.flag]) []
      rw [hd.unique (by simp [Entry.flag]) hcontinue]
      rfl
    · rw [heq] at hwrite hd
      cases hwrite
      exact dateless_of_delimits hclock (encodable_text _ _ (by simp)) (htext _ _) rfl rfl hd
  · cases hwrite
    have hgood := good s request ⟨conn.peer, now⟩
    refine dateless_of_delimits hclock hgood.encodable ?_ rfl rfl hd
    intro f hf
    exact (hgood.names f hf).2.2.2.1
  · cases hwrite
    have hrange : 100 ≤ (errorStatus e).code ∧ (errorStatus e).code ≤ 999 := by
      cases e <;> simp [errorStatus]
    exact dateless_of_delimits hclock (encodable_text _ _ hrange) (htext _ _) rfl rfl hd

theorem Drives.no_date
    (good : ∀ state request ctx, GoodResponse (svc.handle state request ctx).1)
    (h : Drives t svc now conn s conn' s' log closed) (hclock : conn.policy.hasClock = false) :
    ∀ e ∈ log, ∀ d, e.Delimits d → fieldsCalled "date" d.fields = [] := by
  induction h with
  | wait step verdict =>
    rcases Connection.eq_of_needMore step verdict with ⟨_, rfl⟩
    simp
  | close step verdict =>
    intro e he d hd
    rw [List.mem_singleton.mp he] at hd
    exact dateless_of_step good hclock step verdict hd
  | more step verdict rest ih =>
    intro e he d hd
    rcases List.mem_cons.mp he with rfl | he
    · exact dateless_of_step good hclock step verdict hd
    · have hpolicy := (consumes_of_step step).2.1
      exact ih (by rw [hpolicy]; exact hclock) e he d hd

theorem Replies.no_date
    (good : ∀ state request ctx, GoodResponse (svc.handle state request ctx).1)
    (h : Replies t svc first rounds conn log) (hclock : first.policy.hasClock = false) :
    conn.policy.hasClock = false ∧
      ∀ e ∈ log, ∀ d, e.Delimits d → fieldsCalled "date" d.fields = [] := by
  induction h with
  | none => exact ⟨hclock, by simp⟩
  | poll before round drives ih =>
    rcases ih with ⟨hkept, hbefore⟩
    refine ⟨?_, ?_⟩
    · rw [drives.consumes.2.1]
      exact hkept
    · intro e he
      rcases List.mem_append.mp he with he | he
      · exact hbefore e he
      · exact drives.no_date good hkept e he

end Meaning

/-! ## The board -/

section Board

variable {io : Stack κ ε} {received sent : κ → Bytes} {t : Target} {svc : Service σ}
  {listenPort handle : Nat} {hasClock : Bool} {handles : List Nat} {b : Board σ κ}
  {v : Server σ κ}

/-- A client that a socket attends to is served. -/
theorem Attends.serves {rounds : List (Round σ)} {log : List Entry} {received sent : Bytes}
    {st : ConnState} (good : ∀ state request ctx, GoodResponse (svc.handle state request ctx).1)
    (h : Attends t svc hasClock received sent st rounds log) (haddr : Addressable t received) :
    Consumes t maxBodyBytes received (log.filterMap (·.handled)) st.conn.buf ∧
      ∃ ds, decodeStream (log.filterMap Entry.flag) (sent ++ st.out) = some ds ∧
        List.Forall₂ Entry.Answers log ds := by
  constructor
  · rw [← h.received] at haddr ⊢
    exact (h.replies.consumes rfl haddr).2.2
  · rw [h.sent]
    have hdelimits : ∀ e ∈ log, ∃ d, e.Delimits d := fun e he => (h.replies.written good e he).delimits
    exact decodeFrom_flatMap hdelimits _ (Nat.lt_succ_self _)

structure WireSocket where
  state : TcpState
  rx : Bytes
  received : Bytes
  sent : Bytes
deriving DecidableEq, Repr

/-- The send window takes ten bytes at a time. -/
def wireStack : Stack WireSocket Empty where
  isOpen k := k.state != .closed && k.state != .timeWait
  canRecv k := !k.rx.isEmpty
  canSend k := k.state == .established || k.state == .closeWait
  listen _ _ := (.ok (), ⟨.listen, [], [], []⟩)
  recv k := (.ok k.rx, { k with rx := [], received := k.received ++ k.rx })
  sendSlice k bytes :=
    (.ok (min 10 bytes.length), { k with sent := k.sent ++ bytes.take (min 10 bytes.length) })
  close k := { k with state := k.state.afterClose }
  abort k := { k with state := .closed }
  poll k k' := k' = k ∨ (k.state = .listen ∧ k'.state = .established ∧
    k'.received = k.received ∧ k'.sent = k.sent)

theorem wireStack_accounts : Accounts wireStack WireSocket.received WireSocket.sent := by
  constructor
  · intro k port k' h
    cases h
    exact ⟨rfl, rfl⟩
  · intro k bytes k' h
    cases h
    exact ⟨rfl, rfl⟩
  · intro k bytes n k' h
    cases h
    exact ⟨rfl, rfl⟩
  · intro k
    exact ⟨rfl, rfl⟩
  · intro k
    rfl
  · intro k k' hpoll hopen
    rcases hpoll with rfl | ⟨hlisten, _, hreceived, hsent⟩
    · exact ⟨hopen, rfl, rfl⟩
    · refine ⟨?_, hreceived, hsent⟩
      simp [wireStack, hlisten]

/-- Two sockets that listen. -/
def twoListening : Board Unit WireSocket :=
  ⟨[⟨.listen, [], [], []⟩, ⟨.listen, [], [], []⟩],
    [(0, .withClock false), (1, .withClock false)], ()⟩

/-- A client has connected to the first of them, and sent a request. -/
def oneConnected : List WireSocket :=
  [⟨.established, cutGet.1 ++ cutGet.2, [], []⟩, ⟨.listen, [], [], []⟩]

set_option maxRecDepth 10000 in
theorem reachable_oneConnected : ∃ (b : Board Unit WireSocket) (v : Server Unit WireSocket),
    b.Reachable wireStack ⟨.w64, false⟩ okService 80 [0, 1] false ∧ b.Holds 0 v ∧
      wireStack.isOpen v.socket = true ∧ v.socket.received = cutGet.1 ++ cutGet.2 := by
  have hserved : (serveAll wireStack ⟨.w64, false⟩ okService 80 0 twoListening.server oneConnected ()
      >>= fun b => pure (b.sockets.map fun k => (wireStack.isOpen k, k.received))) =
      .ok [(true, cutGet.1 ++ cutGet.2), (true, [])] := by decide +kernel
  rcases Outcome.bind_eq_ok.mp hserved with ⟨b, hb, hlast⟩
  have hsockets : b.sockets.map (fun k => (wireStack.isOpen k, k.received)) =
      [(true, cutGet.1 ++ cutGet.2), (true, [])] := Outcome.ok.inj hlast
  have hhandles : b.server.map (·.1) = [0, 1] := (@serveAll_frame _ _ _ _ _ _ _ _ 0 _ _ _ _ hb).1
  have hreach : b.Reachable wireStack ⟨.w64, false⟩ okService 80 [0, 1] false := by
    refine ⟨by decide, [⟨.closed, [], [], []⟩, ⟨.closed, [], [], []⟩], (), by decide, by decide, ?_⟩
    have harmed : Board.Turn wireStack ⟨.w64, false⟩ okService 80
        (Board.start [⟨.closed, [], [], []⟩, ⟨.closed, [], [], []⟩] [0, 1] false ()) twoListening :=
      .turn 0 (.cons (.inl rfl) (.cons (.inl rfl) .nil)) rfl
    refine (Relation.ReflTransGen.single harmed).tail (.turn 0 ?_ hb)
    exact .cons (.inr ⟨rfl, rfl, rfl, rfl⟩) (.cons (.inl rfl) .nil)
  rcases b.holds_first hsockets hhandles with ⟨v, hholds, hv⟩
  exact ⟨b, v, hreach, hholds, (Prod.mk.inj hv).1, (Prod.mk.inj hv).2⟩

theorem oneConnected_independent : ∃ b : Board Unit WireSocket,
    (∃ v, b.Holds 1 v ∧ v.RunsTo wireStack ⟨.w64, false⟩ okService 80 false) ∧
      ∃ v, b.Holds 0 v ∧ v.socket.received = cutGet.1 ++ cutGet.2 := by
  rcases reachable_oneConnected with ⟨b, v, hreach, hholds, _, hreceived⟩
  exact ⟨b, Board.sockets_independent hreach (by decide), v, hholds, hreceived⟩

/-- On a board without a clock, no response that any client is sent has a `Date`. -/
theorem Board.dateless (good : ∀ state request ctx, GoodResponse (svc.handle state request ctx).1)
    (hstack : Accounts io received sent)
    (h : b.Reachable io t svc listenPort handles false) (hholds : b.Holds handle v)
    (hopen : io.isOpen v.socket = true) :
    ∃ rounds log, Attends t svc false (received v.socket) (sent v.socket) v.state rounds log ∧
      ∀ e ∈ log, ∃ d, e.Delimits d ∧ fieldsCalled "date" d.fields = [] := by
  rcases (attended_of_runsTo hstack (h.runsTo hholds)).2 hopen with
    ⟨rounds, log, hattends⟩
  refine ⟨rounds, log, hattends, ?_⟩
  intro e he
  rcases (hattends.replies.written good e he).delimits with ⟨d, hd⟩
  exact ⟨d, hd, (hattends.replies.no_date good rfl).2 e he d hd⟩

theorem oneConnected_dateless : ∃ v : Server Unit WireSocket,
    v.socket.received = cutGet.1 ++ cutGet.2 ∧ ∃ rounds log,
      Attends ⟨.w64, false⟩ okService false v.socket.received v.socket.sent v.state rounds log ∧
        ∀ e ∈ log, ∃ d, e.Delimits d ∧ fieldsCalled "date" d.fields = [] := by
  rcases reachable_oneConnected with ⟨b, v, hreach, hholds, hopen, hreceived⟩
  exact ⟨v, hreceived, Board.dateless okService_good wireStack_accounts hreach hholds hopen⟩

end Board

end FerroHttp
