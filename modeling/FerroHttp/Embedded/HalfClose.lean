import FerroHttp.Embedded.Close
import FerroHttp.Transport.Output

/-!
# Embedded.HalfClose — a peer that stops sending

The pump closes a socket behind a response that asked for it, and nowhere else. What
the stack documents of a socket is `Documented`.

1. `settled_of_pumped`: after a pump the server has closed the socket, or a closing
   response is still to be sent, or the connection is quiet and nothing is to close;
2. `pumpConnection_idle`: the pump of a quiet connection with nothing to send does
   nothing;
3. `halfClosed_not_closed`: so whenever the peer has stopped sending, and nothing is
   to be received or sent, the socket is not closed. `halfClosed_forever`: it never is.
-/

namespace FerroHttp

open Exec Text

variable {σ κ ε : Type}

/-! ## TCP states -/

inductive TcpState where
  | closed
  | listen
  | synSent
  | synReceived
  | established
  | finWait1
  | finWait2
  | closeWait
  | closing
  | lastAck
  | timeWait
deriving DecidableEq, Repr

namespace TcpState

/-- The TCP close has begun on this side, or there is nothing to close. -/
def isClosing : TcpState → Bool
  | closed | finWait1 | finWait2 | closing | lastAck | timeWait => true
  | listen | synSent | synReceived | established | closeWait => false

/-- Where a close leads to. -/
def afterClose : TcpState → TcpState
  | listen | synSent => closed
  | synReceived | established => finWait1
  | closeWait => lastAck
  | s => s

end TcpState

/-- What the stack documents: which sockets are open, where `close` and `abort` lead to,
that receiving and sending leave the state as it is, and that the network never takes
back a close. -/
structure Documented (io : Stack κ ε) (state : κ → TcpState) : Prop where
  isOpen : ∀ k, io.isOpen k = true ↔ state k ≠ .closed ∧ state k ≠ .timeWait
  close : ∀ k, state (io.close k) = (state k).afterClose
  abort : ∀ k, state (io.abort k) = .closed
  recv : ∀ k, state (io.recv k).2 = state k
  sendSlice : ∀ k bytes, state (io.sendSlice k bytes).2 = state k
  poll : ∀ k k', io.poll k k' → (state k).isClosing = true → (state k').isClosing = true

/-! ## Runs -/

/-- One pass of the serve loop over a socket, and what the other sockets do to the
service. -/
inductive Pass (io : Stack κ ε) (t : Target) (svc : Service σ) (listenPort : Nat) :
    Server σ κ → Server σ κ → Prop
  | pass {v v' : Server σ κ} {socket : κ} (now : Nat) (polled : io.poll v.socket socket)
      (served : servePass io t svc listenPort now { v with socket := socket } = .ok v') :
      Pass io t svc listenPort v v'
  | others {v : Server σ κ} (s : σ) : Pass io t svc listenPort v { v with service := s }

/-- A state between two passes of the serve loop. -/
def Server.Reachable (io : Stack κ ε) (t : Target) (svc : Service σ) (listenPort : Nat)
    (v : Server σ κ) : Prop :=
  ∃ socket₀ hasClock s₀,
    Relation.ReflTransGen (Pass io t svc listenPort) ⟨socket₀, .withClock hasClock, s₀⟩ v

/-! ## After a pump -/

section Pump

variable {io : Stack κ ε} {state : κ → TcpState} {t : Target} {svc : Service σ}
  {listenPort now : Nat} {socket : κ} {st : ConnState} {s : σ} {v v' : Server σ κ}
  {p : Pumped σ κ ε}

/-- The server has closed the socket, or a closing response is still to be sent, or the
connection is quiet and nothing is to close. -/
def Settled (state : κ → TcpState) (t : Target) (socket : κ) (st : ConnState) : Prop :=
  (state socket).isClosing = true ∨ (st.close = true ∧ st.out ≠ []) ∨
    (st.close = false ∧ st.conn.Quiet t)

theorem TcpState.isClosing_afterClose (s : TcpState) : s.afterClose.isClosing = true := by
  cases s <;> rfl

/-- A connection without input is quiet. -/
theorem quiet_new (t : Target) (hasClock : Bool) : (Connection.new.clock hasClock).Quiet t := by
  constructor
  · show parseWith t [] maxBodyBytes = .ok .partialRequest
    rw [parseWith_open (by simp [crlf]), if_neg (by simp)]
  · exact .inl rfl

/-- A drive stops at a close, or where there is nothing to do. -/
theorem Drives.quiet {c c' : Connection} {s' : σ} {log : List Entry} {closed : Bool}
    (h : Drives t svc now c s c' s' log closed) : closed = true ∨ c'.Quiet t := by
  induction h with
  | wait step verdict =>
    rcases Connection.step_quiet step with ⟨hquiet, rfl⟩ | ⟨_, bytes, close, hwrite, _⟩
    · exact .inr hquiet
    · rw [verdict] at hwrite
      cases hwrite
  | close step verdict => exact .inl rfl
  | more step verdict rest ih => exact ih

/-- What is left once the closing response is out, or was not asked for. -/
theorem settled_of_closeFlushed (hdoc : Documented io state)
    (h : st.close = true ∨ st.conn.Quiet t) :
    Settled state t (closeFlushed io.toSocket st socket).2
      (closeFlushed io.toSocket st socket).1 := by
  unfold closeFlushed
  split
  · left
    show (state (io.close socket)).isClosing = true
    rw [hdoc.close]
    exact TcpState.isClosing_afterClose _
  · rename_i hnot
    right
    cases hclose : st.close with
    | true =>
      left
      refine ⟨rfl, ?_⟩
      intro hout
      have hempty : st.out = [] := hout
      exact hnot (by simp [hclose, hempty])
    | false =>
      right
      rw [hclose] at h
      exact ⟨rfl, h.resolve_left (by simp)⟩

theorem settled_of_flush (hdoc : Documented io state) {a : Advance σ}
    (h : a.state.close = true ∨ a.state.conn.Quiet t) (hflush : flush io.toSocket a socket = .ok p)
    (hok : p.result = .ok ()) : Settled state t p.socket p.state := by
  unfold flush at hflush
  split at hflush
  · split at hflush
    · cases hflush
      cases hok
    · split at hflush
      · cases hflush
        exact settled_of_closeFlushed hdoc h
      · cases hflush
  · cases hflush
    exact settled_of_closeFlushed hdoc h

/-- Whatever the state before, a pump that succeeds settles the socket. -/
theorem settled_of_pumped (hdoc : Documented io state)
    (h : pumpConnection io.toSocket t svc listenPort now socket st s = .ok p)
    (hok : p.result = .ok ()) : Settled state t p.socket p.state := by
  cases hopen : io.isOpen socket with
  | false =>
    rw [pumpConnection, hopen] at h
    simp only [Bool.not_false, if_true] at h
    split at h
    · cases h
      cases hok
    · cases h
      exact .inr (.inr ⟨rfl, quiet_new t st.hasClock⟩)
  | true =>
    rcases pumpConnection_open hopen h with ⟨e, _, _, _, _, herror⟩ | ⟨received, a, _, hadvance, hflush⟩
    · rw [hok] at herror
      cases herror
    · rcases drives_of_advance hadvance with ⟨log, closed, hdriven⟩
      refine settled_of_flush hdoc ?_ hflush hok
      rcases hdriven.drives.quiet with hclosed | hquiet
      · left
        rw [hdriven.close, hclosed, Bool.or_true]
      · exact .inr hquiet

theorem settled_of_pass (hdoc : Documented io state) (h : Settled state t v.socket v.state)
    (hpass : Pass io t svc listenPort v v') : Settled state t v'.socket v'.state := by
  cases hpass with
  | pass now polled served =>
    rcases Outcome.bind_eq_ok.mp served with ⟨p, hpumped, hdone⟩
    cases hresult : p.result with
    | ok _ =>
      rw [hresult] at hdone
      cases hdone
      exact settled_of_pumped hdoc hpumped hresult
    | error e =>
      rw [hresult] at hdone
      cases hdone
      left
      show (state (io.abort p.socket)).isClosing = true
      rw [hdoc.abort]
      rfl
  | others s => exact h

/-- Between two passes every socket is settled. -/
theorem settled_of_reachable (hdoc : Documented io state) (hreach : v.Reachable io t svc listenPort) :
    Settled state t v.socket v.state := by
  rcases hreach with ⟨socket₀, hasClock, s₀, hreach⟩
  induction hreach with
  | refl => exact .inr (.inr ⟨rfl, quiet_new t hasClock⟩)
  | tail _ hpass ih => exact settled_of_pass hdoc ih hpass

/-! ## Idle pumps -/

/-- The loop has nothing to do for a quiet connection. -/
theorem advance_of_quiet {a : Advance σ} (h : a.state.conn.Quiet t) :
    advance t svc now a = .ok a := by
  have hstep : a.state.conn.step t svc a.service now =
      .ok ⟨a.state.conn, a.service, .needMore, none⟩ := by
    rw [Connection.step, h.1]
    rcases h.2 with hnone | ⟨hcontinue, hsent⟩
    · simp only [Connection.stepPartial, hnone]
    · simp only [Connection.stepPartial, hcontinue, hsent, if_true]
  exact runLoop_done (advanceStep_waits hstep)

/-- Nothing to receive, nothing to do, nothing to send and nothing to close. -/
theorem pumpConnection_idle (hopen : io.isOpen socket = true) (hempty : io.canRecv socket = false)
    (hquiet : st.conn.Quiet t) (hclose : st.close = false) (hout : st.out = []) :
    pumpConnection io.toSocket t svc listenPort now socket st s =
      .ok ⟨st, s, socket, .ok (), []⟩ := by
  have hreceive : receive io.toSocket socket = (.ok [], socket) := by
    rw [receive, hempty]
    rfl
  have hfeed : { st with conn := st.conn.feed [] } = st := by rw [Connection.feed_nil]
  rw [pumpConnection, hopen, hreceive]
  simp only [Bool.not_true, Bool.false_eq_true, if_false, hfeed]
  rw [advance_of_quiet hquiet, Outcome.ok_bind, flush, closeFlushed]
  simp [hclose, hout]

/-- The peer has stopped sending, all it sent was received, and nothing is to be sent. -/
structure HalfClosed (io : Stack κ ε) (state : κ → TcpState) (socket : κ) (st : ConnState) :
    Prop where
  closeWait : state socket = .closeWait
  received : io.canRecv socket = false
  sent : st.out = []

/-- The pump returns, and begins the TCP close. -/
def StartsClose (io : Stack κ ε) (state : κ → TcpState) (t : Target) (svc : Service σ)
    (listenPort now : Nat) (v : Server σ κ) : Prop :=
  ∃ p, pumpConnection io.toSocket t svc listenPort now v.socket v.state v.service = .ok p ∧
    (state p.socket).isClosing = true

theorem pump_halfClosed (hdoc : Documented io state) (hreach : v.Reachable io t svc listenPort)
    (polled : io.poll v.socket socket) (hhalf : HalfClosed io state socket v.state) :
    pumpConnection io.toSocket t svc listenPort now socket v.state v.service =
      .ok ⟨v.state, v.service, socket, .ok (), []⟩ := by
  have hopen : io.isOpen socket = true := by
    rw [hdoc.isOpen, hhalf.closeWait]
    decide
  rcases settled_of_reachable hdoc hreach with hclosing | ⟨_, hout⟩ | ⟨hclose, hquiet⟩
  · have hstill := hdoc.poll _ _ polled hclosing
    rw [hhalf.closeWait] at hstill
    cases hstill
  · exact absurd hhalf.sent hout
  · exact pumpConnection_idle hopen hhalf.received hquiet hclose hhalf.sent

/-- In every reachable state in which the peer has stopped sending, with nothing to be
received, sent or dispatched, the pump leaves everything as it is: it never begins the
TCP close. -/
theorem halfClosed_not_closed (hdoc : Documented io state)
    (hreach : v.Reachable io t svc listenPort) (polled : io.poll v.socket socket)
    (hhalf : HalfClosed io state socket v.state) (now : Nat) :
    ¬ StartsClose io state t svc listenPort now { v with socket := socket } ∧
      servePass io t svc listenPort now { v with socket := socket } =
        .ok { v with socket := socket } := by
  have hpump : pumpConnection io.toSocket t svc listenPort now socket v.state v.service =
      .ok ⟨v.state, v.service, socket, .ok (), []⟩ := pump_halfClosed hdoc hreach polled hhalf
  constructor
  · intro hstarts
    rcases hstarts with ⟨p, hp, hclosing⟩
    rw [hpump] at hp
    cases hp
    rw [hhalf.closeWait] at hclosing
    cases hclosing
  · rw [servePass, hpump]
    rfl

/-- If the network leaves such a socket as it is until the server closes it, then so
does every run. -/
theorem halfClosed_forever (hdoc : Documented io state) (hreach : v.Reachable io t svc listenPort)
    (hstays : ∀ k k', state k = .closeWait → io.canRecv k = false → io.poll k k' →
      state k' = .closeWait ∧ io.canRecv k' = false)
    (hhalf : HalfClosed io state v.socket v.state)
    (hrun : Relation.ReflTransGen (Pass io t svc listenPort) v v') :
    HalfClosed io state v'.socket v'.state := by
  induction hrun with
  | refl => exact hhalf
  | @tail u w hbefore hpass ih =>
    cases hpass with
    | @pass _ socket now polled served =>
      rcases hstays _ _ ih.closeWait ih.received polled with ⟨hwait, hempty⟩
      have hhalf' : HalfClosed io state socket u.state := ⟨hwait, hempty, ih.sent⟩
      have hmid : u.Reachable io t svc listenPort := by
        rcases hreach with ⟨socket₀, hasClock, s₀, hstart⟩
        exact ⟨socket₀, hasClock, s₀, hstart.trans hbefore⟩
      rw [servePass, pump_halfClosed hdoc hmid polled hhalf'] at served
      cases served
      exact hhalf'
    | others s => exact ih

end Pump

/-! A stack whose peers connect and leave. -/

structure LineSocket where
  state : TcpState
  rx : Bytes
deriving DecidableEq, Repr

def lineStack : Stack LineSocket Empty where
  isOpen k := k.state != .closed && k.state != .timeWait
  canRecv k := !k.rx.isEmpty
  canSend k := k.state == .established || k.state == .closeWait
  listen _ _ := (.ok (), ⟨.listen, []⟩)
  recv k := (.ok k.rx, { k with rx := [] })
  sendSlice k bytes := (.ok bytes.length, k)
  close k := { k with state := k.state.afterClose }
  abort k := { k with state := .closed }
  poll k k' := k' = k ∨ (k.state = .listen ∧ k'.state = .established) ∨
    (k.state = .established ∧ k' = { k with state := .closeWait }) ∨
    (k.state = .lastAck ∧ k'.state = .closed)

theorem lineStack_documented : Documented lineStack LineSocket.state := by
  constructor
  · intro k
    simp [lineStack]
  · intro k
    rfl
  · intro k
    rfl
  · intro k
    rfl
  · intro k bytes
    rfl
  · intro k k' hpoll hclosing
    rcases hpoll with rfl | ⟨hlisten, _⟩ | ⟨hopen, _⟩ | ⟨_, hclosed⟩
    · exact hclosing
    · rw [hlisten] at hclosing
      cases hclosing
    · rw [hopen] at hclosing
      cases hclosing
    · rw [hclosed]
      rfl

/-- The socket after a client has connected. -/
def connected : Server Unit LineSocket := ⟨⟨.established, []⟩, .withClock true, ()⟩

theorem connected_reachable : connected.Reachable lineStack ⟨.w64, false⟩ okService 80 := by
  have hlisten : Pass lineStack ⟨.w64, false⟩ okService 80 ⟨⟨.closed, []⟩, .withClock true, ()⟩
      ⟨⟨.listen, []⟩, .withClock true, ()⟩ := .pass 0 (.inl rfl) rfl
  have hconnect : Pass lineStack ⟨.w64, false⟩ okService 80 ⟨⟨.listen, []⟩, .withClock true, ()⟩
      connected := by
    have hidle : pumpConnection lineStack.toSocket ⟨.w64, false⟩ okService 80 0
        ⟨.established, []⟩ (.withClock true) () =
        .ok ⟨.withClock true, (), ⟨.established, []⟩, .ok (), []⟩ :=
      pumpConnection_idle rfl rfl (quiet_new ⟨.w64, false⟩ true) rfl rfl
    have hserved : servePass lineStack ⟨.w64, false⟩ okService 80 0
        ⟨⟨.established, []⟩, .withClock true, ()⟩ = .ok connected := by
      rw [servePass, hidle]
      rfl
    exact .pass 0 (.inr (.inl ⟨rfl, rfl⟩)) hserved
  exact ⟨_, true, (), (Relation.ReflTransGen.single hlisten).tail hconnect⟩

/-- The client has left without a request. -/
theorem left_halfClosed : lineStack.poll connected.socket ⟨.closeWait, []⟩ ∧
    HalfClosed lineStack LineSocket.state ⟨.closeWait, []⟩ connected.state :=
  ⟨.inr (.inr (.inl ⟨rfl, rfl⟩)), rfl, rfl, rfl⟩

theorem left_not_closed : connected.Reachable lineStack ⟨.w64, false⟩ okService 80 ∧
    lineStack.poll connected.socket ⟨.closeWait, []⟩ ∧
    HalfClosed lineStack LineSocket.state ⟨.closeWait, []⟩ connected.state ∧
    ¬ StartsClose lineStack LineSocket.state ⟨.w64, false⟩ okService 80 0
      { connected with socket := ⟨.closeWait, []⟩ } := by
  refine ⟨connected_reachable, left_halfClosed.1, left_halfClosed.2, ?_⟩
  intro hstarts
  rcases hstarts with ⟨p, hp, hclosing⟩
  rw [pump_halfClosed lineStack_documented connected_reachable left_halfClosed.1
    left_halfClosed.2] at hp
  cases hp
  cases hclosing

theorem left_unchanged :
    ¬ StartsClose lineStack LineSocket.state ⟨.w64, false⟩ okService 80 0
        { connected with socket := ⟨.closeWait, []⟩ } ∧
      servePass lineStack ⟨.w64, false⟩ okService 80 0
          { connected with socket := ⟨.closeWait, []⟩ } =
        .ok { connected with socket := ⟨.closeWait, []⟩ } :=
  halfClosed_not_closed lineStack_documented connected_reachable left_halfClosed.1
    left_halfClosed.2 0


end FerroHttp
