import FerroHttp.Embedded
import Mathlib.Logic.Function.Basic

/-!
# Transport — the event loop of the std profile

`handleReady` is one readiness event of one plaintext connection: drain the socket,
drive the connection over what was received, write what the socket takes, and register
the interest. What the socket's calls return is part of the event; where the list ends,
the call would block. `Reactor.Step` is everything that can happen to the table of
connections of one reactor. TLS sessions and the clock of the idle sweep are left out.
-/

namespace FerroHttp

open Exec Text

/-! ## Sockets and events -/

/-- What `read` returns; `ok []` is the end of the stream. -/
inductive ReadResult where
  | ok (bytes : Bytes)
  | wouldBlock
  | interrupted
  | failed
deriving DecidableEq, Repr

/-- What `write` returns: how many bytes were taken, or an error. -/
inductive WriteResult where
  | ok (n : Nat)
  | wouldBlock
  | interrupted
  | failed
deriving DecidableEq, Repr

/-- What a socket is registered for. -/
inductive Interest where
  | readable
  | readableWritable
deriving DecidableEq, Repr

/-- A readiness event, with what the calls on the socket return meanwhile. -/
structure Event where
  readable : Bool
  reads : List ReadResult
  writes : List WriteResult
  now : Nat
deriving DecidableEq, Repr

/-- A connection of the event loop; `interest` is what the poll has for its socket. -/
structure Conn where
  state : Connection
  out : Bytes
  wantsWrite : Bool
  closeAfterFlush : Bool
  interest : Interest
deriving DecidableEq, Repr

/-- A connection that was just accepted. -/
def Conn.new (state : Connection) : Conn := ⟨state, [], false, false, .readable⟩

/-! ## Reading -/

/-- What a drain of the socket leaves; `gone` when the peer closed, or on an error. -/
structure ReadIn where
  state : Connection
  received : Bytes
  gone : Bool
deriving DecidableEq, Repr

/-- Feed what the socket has to the connection, until a read would block. -/
def plainReadIn : List ReadResult → Connection → ReadIn
  | [], state => ⟨state, [], false⟩
  | .ok bytes :: rest, state =>
    if bytes.isEmpty then ⟨state, [], true⟩
    else
      let read := plainReadIn rest (state.feed bytes)
      { read with received := bytes ++ read.received }
  | .wouldBlock :: _, state => ⟨state, [], false⟩
  | .interrupted :: rest, state => plainReadIn rest state
  | .failed :: _, state => ⟨state, [], true⟩

/-! ## Driving -/

/-- What one drive of a connection starts from: the bytes received for it, the clock,
and the service as other connections left it. -/
structure Round (σ : Type) where
  received : Bytes
  now : Nat
  service : σ

variable {σ : Type}

/-- The inner loop is the pump's: append what the connection writes, stop at a close. -/
def Conn.drive (t : Target) (svc : Service σ) (now : Nat) (conn : Conn) (s : σ) :
    Outcome Empty (Conn × σ × List Entry) := do
  let a ← advance t svc now ⟨⟨conn.state, conn.out, conn.closeAfterFlush, true⟩, s, []⟩
  pure ({ conn with state := a.state.conn, out := a.state.out, closeAfterFlush := a.state.close },
    a.service, a.writes)

/-! ## Writing -/

/-- What a write-out leaves: the bytes still to be written, those the socket accepted,
the slices it was offered, and whether a write failed. -/
structure WriteOut where
  out : Bytes
  accepted : Bytes
  offered : List Bytes
  failed : Bool
deriving DecidableEq, Repr

/-- Write until nothing is left or a write would block. -/
def plainWriteOut : List WriteResult → Bytes → Outcome Empty WriteOut
  | [], out => pure ⟨out, [], if out.isEmpty then [] else [out], false⟩
  | result :: rest, out =>
    if out.isEmpty then pure ⟨out, [], [], false⟩
    else
      match result with
      | .ok n =>
        if n = 0 then pure ⟨out, [], [out], true⟩
        else if n ≤ out.length then do
          let w ← plainWriteOut rest (out.drop n)
          pure { w with accepted := out.take n ++ w.accepted, offered := out :: w.offered }
        else .panic
      | .wouldBlock => pure ⟨out, [], [out], false⟩
      | .interrupted => do
        let w ← plainWriteOut rest out
        pure { w with offered := out :: w.offered }
      | .failed => pure ⟨out, [], [out], true⟩

/-- Register what the connection waits for, and report whether it is done. -/
def updateInterest (conn : Conn) : Conn × Bool :=
  if conn.out.isEmpty then
    if conn.closeAfterFlush then (conn, true)
    else if conn.wantsWrite then ({ conn with interest := .readable, wantsWrite := false }, false)
    else (conn, false)
  else if !conn.wantsWrite then
    ({ conn with interest := .readableWritable, wantsWrite := true }, false)
  else (conn, false)

/-! ## Events -/

/-- What an event decides on the connection: it stays in the table, or it is dropped
because the peer is gone, a write failed, or its last response is out. -/
inductive Fate where
  | kept
  | peerGone
  | writeFailed
  | flushed
deriving DecidableEq, Repr

/-- What an event leaves behind; from `rounds` on it is for the record. -/
structure Ready (σ : Type) where
  conn : Conn
  service : σ
  fate : Fate
  rounds : List (Round σ)
  log : List Entry
  accepted : Bytes
  offered : List Bytes

/-- The second half of an event: write, and register the interest. -/
def writeReady (event : Event) (rounds : List (Round σ)) (conn : Conn) (s : σ)
    (log : List Entry) : Outcome Empty (Ready σ) := do
  let w ← plainWriteOut event.writes conn.out
  let conn := { conn with out := w.out }
  if w.failed then pure ⟨conn, s, .writeFailed, rounds, log, w.accepted, w.offered⟩
  else
    let (conn, done) := updateInterest conn
    pure ⟨conn, s, if done then .flushed else .kept, rounds, log, w.accepted, w.offered⟩

/-- Handle a readiness event for one connection. -/
def handleReady (t : Target) (svc : Service σ) (conn : Conn) (s : σ) (event : Event) :
    Outcome Empty (Ready σ) :=
  if event.readable && !conn.closeAfterFlush then
    let read := plainReadIn event.reads conn.state
    if read.gone then pure ⟨{ conn with state := read.state }, s, .peerGone, [], [], [], []⟩
    else do
      let (conn, s', log) ← { conn with state := read.state }.drive t svc event.now s
      writeReady event [⟨read.received, event.now, s⟩] conn s' log
  else writeReady event [] conn s []

/-! ## The reactor -/

/-- A connection of the table. For the record: how it was accepted, the events of its
socket, what it was driven over, what it wrote, and what its socket accepted of that. -/
structure Live (σ : Type) where
  conn : Conn
  first : Connection
  events : List Event
  rounds : List (Round σ)
  log : List Entry
  accepted : Bytes

namespace Live

def accept (state : Connection) : Live σ := ⟨Conn.new state, state, [], [], [], []⟩

/-- The connection after an event. -/
def after (live : Live σ) (event : Event) (r : Ready σ) : Live σ :=
  ⟨r.conn, live.first, live.events ++ [event], live.rounds ++ r.rounds, live.log ++ r.log,
    live.accepted ++ r.accepted⟩

end Live

/-- The table of connections of a reactor, by token, and the service. -/
structure Reactor (σ : Type) where
  conns : Nat → Option (Live σ)
  service : σ

namespace Reactor

/-- Process a readiness event for a token; a connection that is done is dropped. -/
def handleToken (t : Target) (svc : Service σ) (v : Reactor σ) (token : Nat) (event : Event) :
    Outcome Empty (Reactor σ) :=
  match v.conns token with
  | none => pure v
  | some live => do
    let r ← handleReady t svc live.conn v.service event
    let next := if r.fate = .kept then some (live.after event r) else none
    pure ⟨Function.update v.conns token next, r.service⟩

/-- What can happen: a connection is accepted, an event is handled, an idle connection
is dropped, another reactor uses the service. -/
inductive Step (t : Target) (svc : Service σ) (security : Bool) (maxBody : Nat) :
    Reactor σ → Reactor σ → Prop
  | accept {v : Reactor σ} (token : Nat) (peer : Bytes) (free : v.conns token = none) :
      Step t svc security maxBody v ⟨Function.update v.conns token
        (some (.accept (Connection.create ⟨security, true⟩ maxBody peer))), v.service⟩
  | ready {v v' : Reactor σ} (token : Nat) (event : Event)
      (handled : v.handleToken t svc token event = .ok v') : Step t svc security maxBody v v'
  | sweep {v : Reactor σ} (token : Nat) :
      Step t svc security maxBody v ⟨Function.update v.conns token none, v.service⟩
  | others {v : Reactor σ} (s : σ) : Step t svc security maxBody v ⟨v.conns, s⟩

/-- A state of a reactor that started with an empty table. -/
def Reachable (t : Target) (svc : Service σ) (security : Bool) (maxBody : Nat) (v : Reactor σ) :
    Prop :=
  ∃ s₀, Relation.ReflTransGen (Step t svc security maxBody) ⟨fun _ => none, s₀⟩ v

end Reactor

end FerroHttp
