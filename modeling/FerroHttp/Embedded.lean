import FerroHttp.Conn.Session

/-!
# Embedded — the smoltcp transport

`pumpConnection` is one poll of one server socket: re-arm it if it is closed, take
what was received, advance the connection, flush, and begin the TCP close once a
closing response is out. The socket is the network stack's: `Socket` lists what the
pump uses of one.
-/

namespace FerroHttp

open Exec Text

/-- The operations of a TCP socket; `κ` is its state, `ε` the errors of the stack.
`recv` hands out what can be read in one piece and drops it from the receive buffer,
`sendSlice` returns how much fitted into the send window, and `poll` is what the
interface may do to the socket between two pumps. -/
structure Socket (κ ε : Type) where
  isOpen : κ → Bool
  canRecv : κ → Bool
  canSend : κ → Bool
  listen : κ → Nat → Except ε Unit × κ
  recv : κ → Except ε Bytes × κ
  sendSlice : κ → Bytes → Except ε Nat × κ
  close : κ → κ
  poll : κ → κ → Prop

/-- A transport-level failure. -/
inductive TransportError (ε : Type) where
  | listen (err : ε)
  | recv (err : ε)
  | send (err : ε)

/-- Per-socket state carried across polls: the connection, the response bytes still to
be sent, and whether the connection must close once they are. -/
structure ConnState where
  conn : Connection
  out : Bytes
  close : Bool
  hasClock : Bool

namespace ConnState

def withClock (hasClock : Bool) : ConnState :=
  ⟨Connection.new.clock hasClock, [], false, hasClock⟩

/-- Clear all state for the next client on the same socket. -/
def reset (st : ConnState) : ConnState :=
  { st with conn := Connection.new.clock st.hasClock, out := [], close := false }

end ConnState

variable {σ κ ε : Type}

/-! ## The inner loop -/

/-- The loop's state: the connection's, the service's, and for the record what was
written so far. -/
structure Advance (σ : Type) where
  state : ConnState
  service : σ
  writes : List Entry

/-- One iteration: append what the connection writes, stop at a close. -/
def advanceStep (t : Target) (svc : Service σ) (now : Nat) (a : Advance σ) :
    Outcome Empty (Flow (Advance σ) (Advance σ)) := do
  let r ← a.state.conn.step t svc a.service now
  let state := { a.state with conn := r.conn }
  match r.step with
  | .needMore => pure (.done ⟨state, r.service, a.writes ++ r.unwritten⟩)
  | .write bytes close =>
    let state := { state with out := state.out ++ bytes }
    let writes := a.writes ++ [⟨bytes, close, r.handled⟩]
    if close then pure (.done ⟨{ state with close := true }, r.service, writes⟩)
    else pure (.again ⟨state, r.service, writes⟩)

/-- A connection that waits ends the loop, and nothing is changed. -/
theorem advanceStep_waits {t : Target} {svc : Service σ} {now : Nat} {a : Advance σ}
    (h : a.state.conn.step t svc a.service now = .ok ⟨a.state.conn, a.service, .needMore, none⟩) :
    advanceStep t svc now a = .ok (.done a) := by
  rw [advanceStep, h, Outcome.ok_bind]
  simp only [StepResult.unwritten_none, List.append_nil]
  rfl

/-- Advance the connection for every complete request now buffered. A write takes a
request off the buffer, or is the one interim response to it. -/
def advance (t : Target) (svc : Service σ) (now : Nat) (a : Advance σ) :
    Outcome Empty (Advance σ) :=
  runLoop (advanceStep t svc now) (2 * a.state.conn.buf.length + 2) a

/-! ## The pump -/

/-- What a pump leaves behind; `writes` is for the record. -/
structure Pumped (σ κ ε : Type) where
  state : ConnState
  service : σ
  socket : κ
  result : Except (TransportError ε) Unit
  writes : List Entry

/-- Take the received bytes, if there are any. -/
def receive (io : Socket κ ε) (socket : κ) : Except ε Bytes × κ :=
  if io.canRecv socket then io.recv socket else (.ok [], socket)

/-- Begin the TCP close once the closing response is out. -/
def closeFlushed (io : Socket κ ε) (state : ConnState) (socket : κ) : ConnState × κ :=
  if state.close && state.out.isEmpty then ({ state with close := false }, io.close socket)
  else (state, socket)

/-- Send what the window takes, and close behind the closing response. -/
def flush (io : Socket κ ε) (a : Advance σ) (socket : κ) : Outcome Empty (Pumped σ κ ε) :=
  if !a.state.out.isEmpty && io.canSend socket then
    match io.sendSlice socket a.state.out with
    | (.error e, socket) => .ok ⟨a.state, a.service, socket, .error (.send e), a.writes⟩
    | (.ok sent, socket) =>
      if sent ≤ a.state.out.length then
        let (state, socket) := closeFlushed io { a.state with out := a.state.out.drop sent } socket
        .ok ⟨state, a.service, socket, .ok (), a.writes⟩
      else .panic
  else
    let (state, socket) := closeFlushed io a.state socket
    .ok ⟨state, a.service, socket, .ok (), a.writes⟩

/-- Advance one server socket by a single poll's worth of work. -/
def pumpConnection (io : Socket κ ε) (t : Target) (svc : Service σ) (listenPort now : Nat)
    (socket : κ) (state : ConnState) (s : σ) : Outcome Empty (Pumped σ κ ε) :=
  if !io.isOpen socket then
    match io.listen socket listenPort with
    | (.error e, socket) => .ok ⟨state, s, socket, .error (.listen e), []⟩
    | (.ok (), socket) => .ok ⟨state.reset, s, socket, .ok (), []⟩
  else
    match receive io socket with
    | (.error e, socket) => .ok ⟨state, s, socket, .error (.recv e), []⟩
    | (.ok received, socket) => do
      let a ← advance t svc now ⟨{ state with conn := state.conn.feed received }, s, []⟩
      flush io a socket

/-! ## The serve loop -/

/-- A socket that can also be aborted. -/
structure Stack (κ ε : Type) extends Socket κ ε where
  abort : κ → κ

/-- A server socket with its state, and the service behind it. -/
structure Server (σ κ : Type) where
  socket : κ
  state : ConnState
  service : σ

/-- What `serve_smoltcp` does with a socket in each pass: pump it, and abort it on an
error, so that the next pass re-arms it. -/
def servePass (io : Stack κ ε) (t : Target) (svc : Service σ) (listenPort now : Nat)
    (v : Server σ κ) : Outcome Empty (Server σ κ) := do
  let p ← pumpConnection io.toSocket t svc listenPort now v.socket v.state v.service
  match p.result with
  | .ok () => pure ⟨p.socket, p.state, p.service⟩
  | .error _ => pure ⟨io.abort p.socket, p.state.reset, p.service⟩

end FerroHttp
