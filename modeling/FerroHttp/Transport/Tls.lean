import FerroHttp.Transport.Refinement

/-!
# Transport.Tls — connections over TLS

A TLS connection pumps ciphertext between its socket and a session of the TLS library, and
plaintext between the session and the connection. The session is the library's: `Rustls`
lists what the transport uses of one. Its calls are recorded with what they returned, and
the record only stands if the session is what these calls make of a new one.

1. `Fed` and `WritesTls`: what the two loops over the socket do;
2. `TlsIntact.handles`: everything an event can do;
3. `TlsIntact`: what holds of a connection in the table. The session had the ciphertext of
   the socket and was emptied behind each piece of it; the connection is driven over that
   plaintext as a plaintext connection would be, and what it writes is handed to the session
   in order. The close alert is sent once, behind all of it, when the last response announces
   the close: the library drops what is written after the alert;
4. `tls_of_run`: it holds in every state of the event loop;
5. `tls_answers`: so the session was handed the answers. It has taken them whole unless a
   write to it broke off: what is left then is dropped (`Short`).
-/

namespace FerroHttp

open Exec Text Table

/-! ## Sessions -/

/-- What the transport uses of a session; `τ` is its state. `readTls` takes ciphertext from
the socket and may refuse it, `read` hands out plaintext, none of it when it is empty or
fails, `writeAll` is offered plaintext and says how much of it was taken, fewer bytes than
all when it fails, and `writeTls` moves that many bytes of ciphertext to the socket. A
session holds `buffered` bytes of plaintext, and a new one of a server waits for the client
to speak. -/
structure Rustls (τ : Type) where
  new : Option τ
  readTls : τ → Bytes → Option τ
  processNewPackets : τ → Option τ
  read : τ → Bytes × τ
  buffered : τ → Nat
  read_lt : ∀ s, (read s).1 ≠ [] → buffered (read s).2 < buffered s
  writeAll : τ → Bytes → Nat × τ
  writeAll_le : ∀ s bytes, (writeAll s bytes).1 ≤ bytes.length
  sendCloseNotify : τ → τ
  wantsWrite : τ → Bool
  writeTls : τ → Nat → τ
  new_silent : ∀ s, new = some s → wantsWrite s = false

/-- A call on a session that changes it: what `read` gave, how much `writeAll` took. -/
inductive TlsCall where
  | readTls (bytes : Bytes)
  | processNewPackets
  | read (bytes : Bytes)
  | writeAll (bytes : Bytes) (taken : Nat)
  | sendCloseNotify
  | writeTls (n : Nat)
deriving DecidableEq, Repr

namespace Rustls

variable {τ : Type}

/-- What a call makes of the session; `none` is an error, or a call that returns something
else. -/
def call (io : Rustls τ) (s : τ) : TlsCall → Option τ
  | .readTls bytes => io.readTls s bytes
  | .processNewPackets => io.processNewPackets s
  | .read bytes => if (io.read s).1 = bytes then some (io.read s).2 else none
  | .writeAll bytes taken =>
    if (io.writeAll s bytes).1 = taken then some (io.writeAll s bytes).2 else none
  | .sendCloseNotify => some (io.sendCloseNotify s)
  | .writeTls n => some (io.writeTls s n)

/-- Calls one after the other. -/
def calls (io : Rustls τ) (s : τ) (cs : List TlsCall) : Option τ := cs.foldlM io.call s

theorem calls_append {io : Rustls τ} {s s' : τ} {cs : List TlsCall} (h : io.calls s cs = some s')
    (cs' : List TlsCall) : io.calls s (cs ++ cs') = io.calls s' cs' := by
  rw [calls, List.foldlM_append]
  have hfirst : List.foldlM io.call s cs = some s' := h
  rw [hfirst]
  rfl

end Rustls

/-! ## Reading -/

/-- What a read-in leaves. -/
structure TlsReadIn (τ : Type) where
  state : Connection
  session : τ
  received : Bytes
  calls : List TlsCall
  gone : Bool

variable {σ τ : Type}

/-- Drain the decrypted plaintext. -/
def drainPlaintext (io : Rustls τ) (session : τ) (state : Connection) : TlsReadIn τ :=
  match _hread : io.read session with
  | ([], next) => ⟨state, next, [], [.read []], false⟩
  | (b :: bs, next) =>
    let rest := drainPlaintext io next (state.feed (b :: bs))
    { rest with received := b :: bs ++ rest.received, calls := .read (b :: bs) :: rest.calls }
termination_by io.buffered session
decreasing_by
  have hlt := io.read_lt session (by simp [_hread])
  rwa [_hread] at hlt

/-- Pump ciphertext through the session, and feed what it decrypts. -/
def tlsReadIn (io : Rustls τ) : List ReadResult → τ → Connection → TlsReadIn τ
  | [], session, state => ⟨state, session, [], [], false⟩
  | .ok bytes :: rest, session, state =>
    if bytes.isEmpty then ⟨state, session, [], [], true⟩
    else
      match io.readTls session bytes with
      | none => ⟨state, session, [], [], true⟩
      | some session =>
        match io.processNewPackets session with
        | none => ⟨state, session, [], [.readTls bytes], true⟩
        | some session =>
          let drained := drainPlaintext io session state
          let read := tlsReadIn io rest drained.session drained.state
          { read with
            received := drained.received ++ read.received
            calls := [.readTls bytes, .processNewPackets] ++ drained.calls ++ read.calls }
  | .wouldBlock :: _, session, state => ⟨state, session, [], [], false⟩
  | .interrupted :: rest, session, state => tlsReadIn io rest session state
  | .failed :: _, session, state => ⟨state, session, [], [], true⟩

/-! ## Writing -/

/-- What a write-out leaves. -/
structure TlsWriteOut (τ : Type) where
  session : τ
  calls : List TlsCall
  failed : Bool

/-- Drain the ciphertext to the socket. -/
def tlsWriteOut (io : Rustls τ) : List WriteResult → τ → TlsWriteOut τ
  | [], session => ⟨session, [], false⟩
  | result :: rest, session =>
    if !io.wantsWrite session then ⟨session, [], false⟩
    else
      match result with
      | .ok n =>
        if n = 0 then ⟨session, [], true⟩
        else
          let w := tlsWriteOut io rest (io.writeTls session n)
          { w with calls := .writeTls n :: w.calls }
      | .wouldBlock => ⟨session, [], false⟩
      | .interrupted => tlsWriteOut io rest session
      | .failed => ⟨session, [], true⟩

/-- Encrypt what is queued. What the session does not take is dropped. -/
def tlsQueueOut (io : Rustls τ) (session : τ) (out : Bytes) : τ × Bytes × List TlsCall :=
  if out.isEmpty then (session, out, [])
  else
    let (taken, session) := io.writeAll session out
    (session, [], [.writeAll out taken])

/-- Begin a clean shutdown, when the response asks to close. -/
def tlsBeginClose (io : Rustls τ) (close : Bool) (session : τ) : τ × List TlsCall :=
  if close then (io.sendCloseNotify session, [.sendCloseNotify]) else (session, [])

/-- `updateInterest`, given whether something is to be written. -/
def updateInterestWhen (pending : Bool) (conn : Conn) : Conn × Bool :=
  if !pending then
    if conn.closeAfterFlush then (conn, true)
    else if conn.wantsWrite then ({ conn with interest := .readable, wantsWrite := false }, false)
    else (conn, false)
  else if !conn.wantsWrite then
    ({ conn with interest := .readableWritable, wantsWrite := true }, false)
  else (conn, false)

/-! ## Events -/

/-- A connection with its session. -/
structure TlsConn (τ : Type) where
  conn : Conn
  session : τ

/-- What an event leaves behind; from `rounds` on it is for the record. -/
structure TlsReady (σ τ : Type) where
  conn : TlsConn τ
  service : σ
  fate : Fate
  rounds : List (Round σ)
  log : List Entry
  calls : List TlsCall

/-- The second half of an event: write, and register the interest. -/
def tlsWriteReady (io : Rustls τ) (event : Event) (c : TlsConn τ) (s : σ) (rounds : List (Round σ))
    (log : List Entry) (calls : List TlsCall) : TlsReady σ τ :=
  let w := tlsWriteOut io event.writes c.session
  let calls := calls ++ w.calls
  if w.failed then ⟨⟨c.conn, w.session⟩, s, .writeFailed, rounds, log, calls⟩
  else
    let (conn, done) := updateInterestWhen (io.wantsWrite w.session) c.conn
    ⟨⟨conn, w.session⟩, s, if done then .flushed else .kept, rounds, log, calls⟩

/-- Handle a readiness event for one connection. -/
def TlsConn.handleReady (io : Rustls τ) (t : Target) (svc : Service σ) (c : TlsConn τ) (s : σ)
    (event : Event) : Outcome Empty (TlsReady σ τ) :=
  if event.readable && !c.conn.closeAfterFlush then
    let read := tlsReadIn io event.reads c.session c.conn.state
    if read.gone then
      pure ⟨⟨{ c.conn with state := read.state }, read.session⟩, s, .peerGone, [], [], read.calls⟩
    else do
      let (conn, s', log) ← { c.conn with state := read.state }.drive t svc event.now s
      let (session, out, queued) := tlsQueueOut io read.session conn.out
      let conn := { conn with out := out }
      -- data first: what is written after the alert is dropped
      let (session, closing) := tlsBeginClose io conn.closeAfterFlush session
      pure (tlsWriteReady io event ⟨conn, session⟩ s' [⟨read.received, event.now, s⟩] log
        (read.calls ++ queued ++ closing))
  else pure (tlsWriteReady io event c s [] [] [])

/-- A connection of the table. For the record: how it was accepted, the events of its
socket, what it was driven over, what it wrote, and the calls on its session. -/
structure TlsLive (σ τ : Type) where
  conn : TlsConn τ
  first : Connection
  events : List Event
  rounds : List (Round σ)
  log : List Entry
  calls : List TlsCall

namespace TlsLive

def accept (state : Connection) (session : τ) : TlsLive σ τ :=
  ⟨⟨Conn.new state, session⟩, state, [], [], [], []⟩

/-- The connection after an event. -/
def after (live : TlsLive σ τ) (event : Event) (r : TlsReady σ τ) : TlsLive σ τ :=
  ⟨r.conn, live.first, live.events ++ [event], live.rounds ++ r.rounds, live.log ++ r.log,
    live.calls ++ r.calls⟩

end TlsLive

/-- Connections over TLS. -/
def tlsDriver (io : Rustls τ) (t : Target) (svc : Service σ) (options : Options) :
    Driver σ (TlsLive σ τ) Event where
  accept peer := io.new.map fun session =>
    .accept (Connection.create ⟨options.securityHeaders, true⟩ options.maxBody peer) session
  ready live s event := do
    let r ← live.conn.handleReady io t svc s event
    pure ⟨live.after event r, r.service, r.fate ≠ .kept⟩

/-! ## The loops over the socket -/

/-- The call hands something to the session to be sent. -/
def TlsCall.isSend : TlsCall → Bool
  | .writeAll _ _ => true
  | .sendCloseNotify => true
  | _ => false

/-- What is handed to the session to be sent, in order. -/
def sends (calls : List TlsCall) : List TlsCall := calls.filter TlsCall.isSend

theorem sends_append (a b : List TlsCall) : sends (a ++ b) = sends a ++ sends b :=
  List.filter_append ..

/-- The call takes something in, or hands out what was taken in. -/
def TlsCall.isPull : TlsCall → Bool
  | .readTls _ => true
  | .processNewPackets => true
  | .read _ => true
  | _ => false

/-- What the session was given by the socket and asked for, in order. -/
def pulls (calls : List TlsCall) : List TlsCall := calls.filter TlsCall.isPull

theorem pulls_append (a b : List TlsCall) : pulls (a ++ b) = pulls a ++ pulls b :=
  List.filter_append ..

/-- The plaintext that a call had of the session. -/
def TlsCall.given : TlsCall → Bytes
  | .read bytes => bytes
  | _ => []

/-- The plaintext that the session took. -/
def TlsCall.taken : TlsCall → Bytes
  | .writeAll bytes taken => bytes.take taken
  | _ => []

/-- The session did not take all of it. -/
def TlsCall.isShort : TlsCall → Bool
  | .writeAll bytes taken => taken < bytes.length
  | _ => false

/-- The plaintext that the session handed out. -/
def decrypted (calls : List TlsCall) : Bytes := calls.flatMap TlsCall.given

/-- Calls that have no part in a stream may be left out. -/
theorem flatMap_filter_calls {p : TlsCall → Bool} {f : TlsCall → Bytes}
    (h : ∀ c, p c = false → f c = []) (calls : List TlsCall) :
    (calls.filter p).flatMap f = calls.flatMap f := by
  induction calls with
  | nil => rfl
  | cons c cs ih =>
    cases hc : p c with
    | true => rw [List.filter_cons_of_pos hc, List.flatMap_cons, List.flatMap_cons, ih]
    | false =>
      rw [List.filter_cons_of_neg (by simp [hc]), List.flatMap_cons, h c hc, ih, List.nil_append]

theorem decrypted_eq (calls : List TlsCall) : decrypted calls = (pulls calls).flatMap TlsCall.given := by
  refine (flatMap_filter_calls ?_ calls).symm
  intro c hc
  cases c <;> simp [TlsCall.isPull] at hc <;> rfl

/-- A piece of ciphertext, and the plaintext that was read behind it. -/
structure Packet where
  cipher : Bytes
  plain : List Bytes
deriving DecidableEq, Repr

/-- The session takes the ciphertext in, and is read until it has no plaintext left. -/
def Packet.calls (packet : Packet) : List TlsCall :=
  .readTls packet.cipher :: .processNewPackets :: (packet.plain.map .read ++ [.read []])

/-- What an event pulls through a session, and its clock. -/
structure Pull where
  packets : List Packet
  now : Nat
deriving DecidableEq, Repr

namespace Pull

def calls (pull : Pull) : List TlsCall := pull.packets.flatMap Packet.calls

def cipher (pull : Pull) : List Bytes × Nat := (pull.packets.map (·.cipher), pull.now)

def plain (pull : Pull) : Bytes := pull.packets.flatMap (·.plain.flatten)

end Pull

/-- A pulling call hands nothing to the session. -/
theorem sends_packets (packets : List Packet) : sends (packets.flatMap Packet.calls) = [] := by
  unfold sends
  rw [List.filter_eq_nil_iff]
  intro c hc
  rcases List.mem_flatMap.mp hc with ⟨packet, _, hc⟩
  simp only [Packet.calls, List.mem_cons, List.mem_append, List.mem_map, List.not_mem_nil,
    or_false] at hc
  rcases hc with rfl | rfl | ⟨_, _, rfl⟩ | rfl <;> simp [TlsCall.isSend]

theorem pulls_packets (packets : List Packet) :
    pulls (packets.flatMap Packet.calls) = packets.flatMap Packet.calls := by
  unfold pulls
  rw [List.filter_eq_self]
  intro c hc
  rcases List.mem_flatMap.mp hc with ⟨packet, _, hc⟩
  simp only [Packet.calls, List.mem_cons, List.mem_append, List.mem_map, List.not_mem_nil,
    or_false] at hc
  rcases hc with rfl | rfl | ⟨_, _, rfl⟩ | rfl <;> rfl

theorem given_packets (packets : List Packet) :
    (packets.flatMap Packet.calls).flatMap TlsCall.given = packets.flatMap (·.plain.flatten) := by
  have hreads : ∀ plain : List Bytes,
      (plain.map TlsCall.read).flatMap TlsCall.given = plain.flatten := by
    intro plain
    rw [List.flatMap_map, List.flatten_eq_flatMap]
    rfl
  induction packets with
  | nil => rfl
  | cons packet packets ih =>
    rw [List.flatMap_cons, List.flatMap_append, ih, List.flatMap_cons, Packet.calls,
      List.flatMap_cons, List.flatMap_cons, List.flatMap_append, hreads]
    simp [TlsCall.given]

theorem given_pulls (ps : List Pull) :
    (ps.flatMap Pull.calls).flatMap TlsCall.given = ps.flatMap Pull.plain := by
  rw [List.flatMap_assoc]
  congr 1
  funext pull
  exact given_packets pull.packets

/-- The piece of a read. -/
def ReadResult.piece : ReadResult → Option Bytes
  | .ok bytes => some bytes
  | _ => none

/-- The pieces of ciphertext that the drain of a socket returns. -/
def piecesOf (reads : List ReadResult) : List Bytes :=
  (reads.takeWhile ReadResult.goesOn).filterMap ReadResult.piece

/-- The ciphertext that the socket gave in these events: for each that finds it readable, the
pieces its drain returns, and the clock. -/
def cipherIn (events : List Event) : List (List Bytes × Nat) :=
  (events.filter (·.readable)).map fun event => (piecesOf event.reads, event.now)

theorem cipherIn_concat (events : List Event) (event : Event) :
    cipherIn (events ++ [event]) =
      cipherIn events ++ if event.readable then [(piecesOf event.reads, event.now)] else [] := by
  cases hreadable : event.readable <;> simp [cipherIn, hreadable]

section Loops

variable {io : Rustls τ} {session session' : τ} {state : Connection}

/-- What a read-in does, if the connection is still there: it pulls each piece of ciphertext
through the session, and feeds the plaintext. -/
structure Fed (io : Rustls τ) (pieces : List Bytes) (session : τ) (state : Connection)
    (read : TlsReadIn τ) (packets : List Packet) : Prop where
  state : read.state = state.feed read.received
  replayed : io.calls session read.calls = some read.session
  calls : read.calls = packets.flatMap Packet.calls
  cipher : packets.map (·.cipher) = pieces
  plain : read.received = packets.flatMap (·.plain.flatten)
  emptied : ∀ packet ∈ packets, ∀ bytes ∈ packet.plain, bytes ≠ []

theorem calls_nil : io.calls session [] = some session := rfl

theorem calls_cons {c : TlsCall} {cs : List TlsCall} (h : io.call session c = some session') :
    io.calls session (c :: cs) = io.calls session' cs := by
  rw [Rustls.calls, List.foldlM_cons, h]
  rfl

/-- What a drain of the plaintext does: it reads until there is none left. -/
structure Drained (io : Rustls τ) (session : τ) (state : Connection) (read : TlsReadIn τ)
    (plain : List Bytes) : Prop where
  state : read.state = state.feed read.received
  replayed : io.calls session read.calls = some read.session
  calls : read.calls = plain.map .read ++ [.read []]
  received : read.received = plain.flatten
  nonempty : ∀ bytes ∈ plain, bytes ≠ []

theorem drained_drainPlaintext (session : τ) (state : Connection) :
    ∃ plain, Drained io session state (drainPlaintext io session state) plain := by
  induction session, state using drainPlaintext.induct io with
  | case1 session state next hread =>
    rw [drainPlaintext]
    split
    · rename_i next' hread'
      cases hread.symm.trans hread'
      have hcall : io.call session (.read []) = some next := by
        rw [Rustls.call, hread, if_pos rfl]
      exact ⟨[], state.feed_nil.symm, calls_cons hcall, rfl, rfl, by simp⟩
    · rename_i hread'
      cases hread.symm.trans hread'
  | case2 session state b bs next hread ih =>
    rw [drainPlaintext]
    split
    · rename_i hread'
      cases hread.symm.trans hread'
    · rename_i hread'
      cases hread.symm.trans hread'
      have hcall : io.call session (.read (b :: bs)) = some next := by
        rw [Rustls.call, hread, if_pos rfl]
      rcases ih with ⟨plain, hdrained⟩
      refine ⟨(b :: bs) :: plain, ?_, (calls_cons hcall).trans hdrained.replayed, ?_, ?_, ?_⟩
      · show (drainPlaintext io next (state.feed (b :: bs))).state = _
        rw [hdrained.state]
        simp only [Connection.feed, List.append_assoc]
      · dsimp only
        rw [hdrained.calls]
        rfl
      · dsimp only
        rw [hdrained.received]
        rfl
      · intro bytes hbytes
        rcases List.mem_cons.mp hbytes with rfl | hbytes
        · exact List.cons_ne_nil _ _
        · exact hdrained.nonempty bytes hbytes

theorem fed_tlsReadIn {reads : List ReadResult} {session : τ} {state : Connection}
    (hhere : (tlsReadIn io reads session state).gone = false) :
    ∃ packets, Fed io (piecesOf reads) session state (tlsReadIn io reads session state)
      packets := by
  induction reads generalizing session state with
  | nil => exact ⟨[], state.feed_nil.symm, rfl, rfl, rfl, rfl, by simp⟩
  | cons read rest ih =>
    cases read with
    | ok bytes =>
      unfold tlsReadIn at hhere ⊢
      split at hhere
      · cases hhere
      · rename_i hsome
        rw [if_neg hsome]
        split at hhere
        · cases hhere
        · rename_i taken htaken
          dsimp only
          split at hhere
          · cases hhere
          · rename_i processed hprocessed
            -- ciphertext in, packets processed, and all the plaintext of them fed
            rcases @drained_drainPlaintext _ io processed state with ⟨plain, hdrained⟩
            rcases ih hhere with ⟨packets, hrest⟩
            have hread : io.call session (.readTls bytes) = some taken := htaken
            have hprocess : io.call taken .processNewPackets = some processed := hprocessed
            have htls : io.calls session [.readTls bytes, .processNewPackets] = some processed :=
              (calls_cons hread).trans ((calls_cons hprocess).trans calls_nil)
            have hpieces : piecesOf (.ok bytes :: rest) = bytes :: piecesOf rest := by
              have hgoes : ReadResult.goesOn (.ok bytes) = true := by simpa [ReadResult.goesOn] using hsome
              simp [piecesOf, hgoes, ReadResult.piece]
            refine ⟨⟨bytes, plain⟩ :: packets, ?_, ?_, ?_, ?_, ?_, ?_⟩
            · dsimp only
              rw [hrest.state, hdrained.state]
              simp only [Connection.feed, List.append_assoc]
            · dsimp only
              rw [List.append_assoc, Rustls.calls_append htls,
                Rustls.calls_append hdrained.replayed]
              exact hrest.replayed
            · dsimp only
              rw [hdrained.calls, hrest.calls]
              rfl
            · rw [hpieces, List.map_cons, hrest.cipher]
            · dsimp only
              rw [hdrained.received, hrest.plain]
              rfl
            · intro packet hpacket
              rcases List.mem_cons.mp hpacket with rfl | hpacket
              · exact hdrained.nonempty
              · exact hrest.emptied packet hpacket
    | wouldBlock => exact ⟨[], state.feed_nil.symm, rfl, rfl, rfl, rfl, by simp⟩
    | interrupted =>
      rcases ih hhere with ⟨packets, hfed⟩
      exact ⟨packets, hfed⟩
    | failed => cases hhere

/-- What a write-out does: it sends nothing more, and pulls nothing. -/
structure WritesTls (io : Rustls τ) (session : τ) (w : TlsWriteOut τ) : Prop where
  replayed : io.calls session w.calls = some w.session
  silent : sends w.calls = []
  still : pulls w.calls = []

theorem writesTls_tlsWriteOut (writes : List WriteResult) (session : τ) :
    WritesTls io session (tlsWriteOut io writes session) := by
  induction writes generalizing session with
  | nil => exact ⟨rfl, rfl, rfl⟩
  | cons result rest ih =>
    unfold tlsWriteOut
    split
    · exact ⟨rfl, rfl, rfl⟩
    · cases result with
      | ok n =>
        dsimp only
        split
        · exact ⟨rfl, rfl, rfl⟩
        · have hrest := ih (io.writeTls session n)
          exact ⟨(calls_cons rfl).trans hrest.replayed, hrest.silent, hrest.still⟩
      | wouldBlock => exact ⟨rfl, rfl, rfl⟩
      | interrupted => exact ih session
      | failed => exact ⟨rfl, rfl, rfl⟩

end Loops

/-! ## Events -/

section Event

variable {io : Rustls τ} {t : Target} {svc : Service σ} {security : Bool} {maxBody : Nat}
  {live : TlsLive σ τ} {s : σ} {event : Event} {r : TlsReady σ τ}

/-- What `updateInterestWhen` leaves: the flag says whether something is to be written, and
a connection is done when nothing is and it was to be closed. -/
theorem updateInterestWhen_spec (pending : Bool) (conn : Conn) (h : conn.Registered) :
    ((updateInterestWhen pending conn).2 = true ↔ pending = false ∧ conn.closeAfterFlush = true) ∧
      (updateInterestWhen pending conn).1.state = conn.state ∧
      (updateInterestWhen pending conn).1.out = conn.out ∧
      (updateInterestWhen pending conn).1.closeAfterFlush = conn.closeAfterFlush ∧
      ((updateInterestWhen pending conn).2 = false →
        ((updateInterestWhen pending conn).1.wantsWrite = true ↔ pending = true) ∧
          (updateInterestWhen pending conn).1.Registered) := by
  rcases conn with ⟨state, out, wantsWrite, closeAfterFlush, interest⟩
  unfold updateInterestWhen
  cases pending with
  | false =>
    cases closeAfterFlush with
    | true => simp
    | false =>
      cases wantsWrite with
      | true => simp [Conn.Registered]
      | false => simpa using h
  | true =>
    cases wantsWrite with
    | true => simpa using h
    | false => simp [Conn.Registered]

/-- What the second half of an event does. -/
structure WritesTlsReady (io : Rustls τ) (c : TlsConn τ) (calls : List TlsCall)
    (r : TlsReady σ τ) : Prop where
  state : r.conn.conn.state = c.conn.state
  out : r.conn.conn.out = c.conn.out
  closeAfterFlush : r.conn.conn.closeAfterFlush = c.conn.closeAfterFlush
  calls : ∃ written, r.calls = calls ++ written ∧ sends written = [] ∧ pulls written = [] ∧
    io.calls c.session written = some r.conn.session
  here : r.fate ≠ .peerGone
  kept : r.fate = .kept →
    (r.conn.conn.wantsWrite = true ↔ io.wantsWrite r.conn.session = true) ∧
      r.conn.conn.Registered
  flushed : r.fate = .flushed →
    io.wantsWrite r.conn.session = false ∧ c.conn.closeAfterFlush = true

theorem writesTlsReady_of_eq {c : TlsConn τ} {rounds : List (Round σ)} {log : List Entry}
    {calls : List TlsCall} (hreg : c.conn.Registered)
    (h : tlsWriteReady io event c s rounds log calls = r) :
    WritesTlsReady io c calls r ∧ r.rounds = rounds ∧ r.log = log := by
  have hwrites := @writesTls_tlsWriteOut _ io event.writes c.session
  have hcalls : ∃ written, calls ++ (tlsWriteOut io event.writes c.session).calls =
      calls ++ written ∧ sends written = [] ∧ pulls written = [] ∧
        io.calls c.session written = some (tlsWriteOut io event.writes c.session).session :=
    ⟨_, rfl, hwrites.silent, hwrites.still, hwrites.replayed⟩
  -- a socket that fails drops the connection; else its interest is updated
  unfold tlsWriteReady at h
  dsimp only at h
  split at h
  · cases h
    exact ⟨⟨rfl, rfl, rfl, hcalls, by simp, by simp, by simp⟩, rfl, rfl⟩
  · rcases updateInterestWhen_spec
      (io.wantsWrite (tlsWriteOut io event.writes c.session).session) c.conn hreg with
      ⟨hdone, hstate, hout, hclose, hkept⟩
    cases h
    refine ⟨⟨hstate, hout, hclose, hcalls, ?_, ?_, ?_⟩, rfl, rfl⟩
    · dsimp only
      split <;> simp
    · intro hfate
      apply hkept
      dsimp only at hfate
      split at hfate
      · cases hfate
      · rename_i hnot
        exact Bool.eq_false_iff.mpr hnot
    · intro hfate
      dsimp only at hfate
      split at hfate
      · rename_i hyes
        exact hdone.mp hyes
      · cases hfate

/-- What went into a session, and what was had of it: the ciphertext that the socket gave, in
order, all of it or what it gave up to the close; behind each piece all the plaintext there
was; and the connection was driven over that plaintext. -/
structure Pulled (events : List Event) (calls : List TlsCall) (rounds : List (Round σ))
    (closed : Bool) (ps : List Pull) : Prop where
  calls : pulls calls = ps.flatMap Pull.calls
  first : ps.map Pull.cipher <+: cipherIn events
  all : closed = false → ps.map Pull.cipher = cipherIn events
  plain : rounds.map Round.heard = ps.map fun pull => (pull.plain, pull.now)
  emptied : ∀ pull ∈ ps, ∀ packet ∈ pull.packets, ∀ bytes ∈ packet.plain, bytes ≠ []

/-- An event that gives nothing, or that is not read any more. -/
theorem Pulled.idle {events : List Event} {calls more : List TlsCall} {rounds : List (Round σ)}
    {closed : Bool} {ps : List Pull} (h : Pulled events calls rounds closed ps)
    (hidle : (event.readable && !closed) = false) (hmore : pulls more = []) :
    Pulled (events ++ [event]) (calls ++ more) rounds closed ps := by
  refine ⟨?_, ?_, ?_, h.plain, h.emptied⟩
  · rw [pulls_append, hmore, List.append_nil]
    exact h.calls
  · rw [cipherIn_concat]
    exact h.first.trans (List.prefix_append _ _)
  · intro hopen
    rw [hopen, Bool.not_false, Bool.and_true] at hidle
    rw [cipherIn_concat, hidle, if_neg (by simp), List.append_nil]
    exact h.all hopen

/-- A round over what an event pulled through the session. -/
theorem Pulled.read {events : List Event} {calls more : List TlsCall} {rounds : List (Round σ)}
    {ps : List Pull} {packets : List Packet} (h : Pulled events calls rounds false ps)
    (hreadable : event.readable = true) (hcipher : packets.map (·.cipher) = piecesOf event.reads)
    (hemptied : ∀ packet ∈ packets, ∀ bytes ∈ packet.plain, bytes ≠ [])
    (hmore : pulls more = packets.flatMap Packet.calls) (s : σ) (closed : Bool) :
    Pulled (events ++ [event]) (calls ++ more)
      (rounds ++ [⟨packets.flatMap (·.plain.flatten), event.now, s⟩]) closed
      (ps ++ [⟨packets, event.now⟩]) := by
  have hall : (ps ++ [(⟨packets, event.now⟩ : Pull)]).map Pull.cipher =
      cipherIn (events ++ [event]) := by
    rw [cipherIn_concat, hreadable, if_pos rfl, List.map_append, h.all rfl, List.map_singleton,
      Pull.cipher, hcipher]
  refine ⟨?_, by rw [hall], fun _ => hall, ?_, ?_⟩
  · rw [pulls_append, h.calls, hmore, List.flatMap_append, List.flatMap_singleton]
    rfl
  · rw [List.map_append, List.map_append, h.plain]
    rfl
  · intro pull hpull
    rcases List.mem_append.mp hpull with hpull | hpull
    · exact h.emptied pull hpull
    · rw [List.mem_singleton.mp hpull]
      exact hemptied

/-- The calls that offer data to a session, with how much of each was taken. -/
def offers (data : List (Bytes × Nat)) : List TlsCall := data.map fun d => .writeAll d.1 d.2

/-- What holds of a connection and its session: the session is what its calls made of it;
the connection was driven over all the plaintext of what the socket gave, up to the close;
and what it wrote was offered to the session in order, with the close alert behind it once
the close was announced. -/
structure TlsDriven (io : Rustls τ) (t : Target) (svc : Service σ) (security : Bool) (maxBody : Nat)
    (live : TlsLive σ τ) : Prop where
  fresh : ∃ peer, live.first = Connection.create ⟨security, true⟩ maxBody peer
  replayed : ∃ session, io.new = some session ∧
    io.calls session live.calls = some live.conn.session
  pulled : ∃ ps, Pulled live.events live.calls live.rounds live.conn.conn.closeAfterFlush ps
  driven : Reference t svc live.first live.rounds live.conn.conn.state live.log
    live.conn.conn.closeAfterFlush
  drained : live.conn.conn.out = []
  sent : ∃ data : List (Bytes × Nat), data.flatMap (·.1) = live.log.flatMap (·.bytes) ∧
    (∀ d ∈ data, d.1 ≠ [] ∧ d.2 ≤ d.1.length) ∧ sends live.calls = offers data ++
      if live.conn.conn.closeAfterFlush then [.sendCloseNotify] else []

/-- And it waits for writability, and the poll knows, iff the session has ciphertext. -/
structure TlsIntact (io : Rustls τ) (t : Target) (svc : Service σ) (security : Bool) (maxBody : Nat)
    (live : TlsLive σ τ) : Prop extends TlsDriven io t svc security maxBody live where
  armed : live.conn.conn.wantsWrite = true ↔ io.wantsWrite live.conn.session = true
  registered : live.conn.conn.Registered

theorem tlsIntact_accept {session : τ} (hnew : io.new = some session) (peer : Bytes) :
    TlsIntact io t svc security maxBody
      (.accept (Connection.create ⟨security, true⟩ maxBody peer) session) := by
  have hpulled : Pulled (σ := σ) [] [] [] false [] :=
    ⟨rfl, List.prefix_rfl, fun _ => rfl, rfl, by simp⟩
  refine ⟨⟨⟨peer, rfl⟩, ⟨session, hnew, rfl⟩, ⟨[], hpulled⟩, .start, rfl, ⟨[], rfl, by simp, rfl⟩⟩,
    ?_, ?_⟩
  · simp [TlsLive.accept, Conn.new, io.new_silent session hnew]
  · simp [Conn.Registered, TlsLive.accept, Conn.new]

/-- What is queued is offered whole. -/
theorem tlsQueueOut_spec (io : Rustls τ) (session : τ) (out : Bytes) :
    (tlsQueueOut io session out).2.1 = [] ∧
      io.calls session (tlsQueueOut io session out).2.2 = some (tlsQueueOut io session out).1 ∧
      pulls (tlsQueueOut io session out).2.2 = [] ∧
      ∃ data : List (Bytes × Nat), data.flatMap (·.1) = out ∧
        (∀ d ∈ data, d.1 ≠ [] ∧ d.2 ≤ d.1.length) ∧
        sends (tlsQueueOut io session out).2.2 = offers data := by
  unfold tlsQueueOut
  cases out with
  | nil => exact ⟨rfl, rfl, rfl, [], rfl, by simp, rfl⟩
  | cons b bs =>
    have hcall : io.call session (.writeAll (b :: bs) (io.writeAll session (b :: bs)).1) =
        some (io.writeAll session (b :: bs)).2 := by
      rw [Rustls.call, if_pos rfl]
    refine ⟨rfl, calls_cons hcall, rfl, [(b :: bs, (io.writeAll session (b :: bs)).1)], ?_, ?_, rfl⟩
    · exact List.append_nil _
    · intro d hd
      rw [List.mem_singleton.mp hd]
      exact ⟨List.cons_ne_nil _ _, io.writeAll_le session (b :: bs)⟩

theorem tlsBeginClose_spec (io : Rustls τ) (close : Bool) (session : τ) :
    io.calls session (tlsBeginClose io close session).2 = some (tlsBeginClose io close session).1 ∧
      pulls (tlsBeginClose io close session).2 = [] ∧
      sends (tlsBeginClose io close session).2 = if close then [.sendCloseNotify] else [] := by
  unfold tlsBeginClose
  cases close with
  | false => exact ⟨rfl, rfl, rfl⟩
  | true => exact ⟨rfl, rfl, rfl⟩

/-- An event that only writes. -/
theorem TlsDriven.writes (h : TlsDriven io t svc security maxBody live)
    (hidle : (event.readable && !live.conn.conn.closeAfterFlush) = false)
    (hwrites : WritesTlsReady io live.conn [] r) (hrounds : r.rounds = []) (hlog : r.log = []) :
    TlsDriven io t svc security maxBody (live.after event r) := by
  rcases h.replayed with ⟨new, hnew, hreplayed⟩
  rcases h.pulled with ⟨ps, hpulled⟩
  rcases h.sent with ⟨data, hdata, hpartly, hsends⟩
  rcases hwrites.calls with ⟨written, hcalls, hsilent, hstill, hwritten⟩
  refine ⟨h.fresh, ⟨new, hnew, ?_⟩, ⟨ps, ?_⟩, ?_, hwrites.out.trans h.drained, data, ?_, hpartly, ?_⟩
  · show io.calls new (live.calls ++ r.calls) = some r.conn.session
    rw [hcalls, List.nil_append, Rustls.calls_append hreplayed]
    exact hwritten
  · show Pulled (live.events ++ [event]) (live.calls ++ r.calls) (live.rounds ++ r.rounds)
      r.conn.conn.closeAfterFlush ps
    rw [hcalls, hrounds, hwrites.closeAfterFlush, List.nil_append, List.append_nil]
    exact hpulled.idle hidle hstill
  · show Reference t svc live.first (live.rounds ++ r.rounds) r.conn.conn.state
      (live.log ++ r.log) r.conn.conn.closeAfterFlush
    rw [hrounds, hlog, List.append_nil, List.append_nil, hwrites.state, hwrites.closeAfterFlush]
    exact h.driven
  · show data.flatMap (·.1) = (live.log ++ r.log).flatMap (·.bytes)
    rw [hlog, List.append_nil]
    exact hdata
  · show sends (live.calls ++ r.calls) = offers data ++
      if r.conn.conn.closeAfterFlush then [.sendCloseNotify] else []
    rw [sends_append, hcalls, List.nil_append, hsilent, List.append_nil, hwrites.closeAfterFlush]
    exact hsends

/-- An event that read plaintext, drove the connection over it, queued what it wrote, and
began to close if the close was announced. -/
theorem TlsDriven.reads (h : TlsDriven io t svc security maxBody live)
    (hreadable : event.readable = true) (hopen : live.conn.conn.closeAfterFlush = false)
    {read : TlsReadIn τ} {packets : List Packet} {c : TlsConn τ} {s' : σ} {log : List Entry}
    (hfed : Fed io (piecesOf event.reads) live.conn.session live.conn.conn.state read packets)
    (hdrives : Drives t svc event.now read.state s c.conn.state s' log c.conn.closeAfterFlush)
    (hout : c.conn.out = (tlsQueueOut io read.session (log.flatMap (·.bytes))).2.1)
    (hsession : c.session = (tlsBeginClose io c.conn.closeAfterFlush
      (tlsQueueOut io read.session (log.flatMap (·.bytes))).1).1)
    (hwrites : WritesTlsReady io c (read.calls ++
      (tlsQueueOut io read.session (log.flatMap (·.bytes))).2.2 ++ (tlsBeginClose io
        c.conn.closeAfterFlush (tlsQueueOut io read.session (log.flatMap (·.bytes))).1).2) r)
    (hrounds : r.rounds = [⟨read.received, event.now, s⟩]) (hlog : r.log = log) :
    TlsDriven io t svc security maxBody (live.after event r) := by
  rcases h.replayed with ⟨new, hnew, hreplayed⟩
  rcases h.pulled with ⟨ps, hpulled⟩
  rcases h.sent with ⟨data, hdata, hpartly, hsends⟩
  rcases hwrites.calls with ⟨written, hcalls, hsilent, hstill, hwritten⟩
  rcases tlsQueueOut_spec io read.session (log.flatMap (·.bytes)) with
    ⟨hqueued, hhanded, hstillQueued, more, hmore, hpartly', hsends'⟩
  rcases tlsBeginClose_spec io c.conn.closeAfterFlush
    (tlsQueueOut io read.session (log.flatMap (·.bytes))).1 with
    ⟨hclosing, hstillClosing, hsendsClosing⟩
  have hreference := h.driven
  rw [hopen] at hreference hsends hpulled
  -- the calls of the event, in their order: read, queue, close, write
  refine ⟨h.fresh, ⟨new, hnew, ?_⟩, ⟨ps ++ [⟨packets, event.now⟩], ?_⟩, ?_,
    hwrites.out.trans (hout.trans hqueued), data ++ more, ?_, ?_, ?_⟩
  · show io.calls new (live.calls ++ r.calls) = some r.conn.session
    rw [hcalls, Rustls.calls_append hreplayed, List.append_assoc, List.append_assoc,
      Rustls.calls_append hfed.replayed, Rustls.calls_append hhanded,
      Rustls.calls_append hclosing, ← hsession]
    exact hwritten
  · show Pulled (live.events ++ [event]) (live.calls ++ r.calls) (live.rounds ++ r.rounds)
      r.conn.conn.closeAfterFlush (ps ++ [⟨packets, event.now⟩])
    rw [hrounds, hfed.plain]
    apply hpulled.read hreadable hfed.cipher hfed.emptied
    rw [hcalls, pulls_append, pulls_append, pulls_append, hstillQueued, hstillClosing, hstill,
      hfed.calls, pulls_packets]
    simp only [List.append_nil]
  · show Reference t svc live.first (live.rounds ++ r.rounds) r.conn.conn.state
      (live.log ++ r.log) r.conn.conn.closeAfterFlush
    rw [hrounds, hlog, hwrites.state, hwrites.closeAfterFlush]
    rw [hfed.state] at hdrives
    exact .round hreference _ hdrives
  · show (data ++ more).flatMap (·.1) = (live.log ++ r.log).flatMap (·.bytes)
    rw [List.flatMap_append, hdata, hmore, hlog, List.flatMap_append]
  · intro d hd
    rcases List.mem_append.mp hd with hd | hd
    · exact hpartly d hd
    · exact hpartly' d hd
  · show sends (live.calls ++ r.calls) = offers (data ++ more) ++
      if r.conn.conn.closeAfterFlush then [.sendCloseNotify] else []
    rw [sends_append, hsends, hcalls, sends_append, sends_append, sends_append, hfed.calls,
      sends_packets, hsends', hsendsClosing, hsilent, hwrites.closeAfterFlush]
    simp [offers]

/-- Whatever an event does to a connection that is still there, it stays on the reference,
and what it writes goes to the session behind what it wrote before. -/
theorem TlsIntact.handles (h : TlsIntact io t svc security maxBody live)
    (hready : live.conn.handleReady io t svc s event = .ok r) (hhere : r.fate ≠ .peerGone) :
    TlsDriven io t svc security maxBody (live.after event r) ∧
      (r.fate = .kept → TlsIntact io t svc security maxBody (live.after event r)) ∧
      (r.fate = .flushed → io.wantsWrite r.conn.session = false ∧
        r.conn.conn.closeAfterFlush = true) := by
  -- what is waited for is what the second half leaves
  have hfinish : ∀ {c : TlsConn τ} {calls : List TlsCall}, WritesTlsReady io c calls r →
      TlsDriven io t svc security maxBody (live.after event r) →
      TlsDriven io t svc security maxBody (live.after event r) ∧
        (r.fate = .kept → TlsIntact io t svc security maxBody (live.after event r)) ∧
        (r.fate = .flushed → io.wantsWrite r.conn.session = false ∧
          r.conn.conn.closeAfterFlush = true) := by
    intro c calls hwrites hdriven
    refine ⟨hdriven, fun hkept => ⟨hdriven, (hwrites.kept hkept).1, (hwrites.kept hkept).2⟩, ?_⟩
    intro hflushed
    rw [hwrites.closeAfterFlush]
    exact hwrites.flushed hflushed
  unfold TlsConn.handleReady at hready
  split at hready
  · rename_i hreads
    rw [Bool.and_eq_true, Bool.not_eq_true'] at hreads
    dsimp only at hready
    split at hready
    · cases hready
      exact absurd rfl hhere
    · rename_i hgone
      rcases fed_tlsReadIn (Bool.eq_false_iff.mpr hgone) with ⟨packets, hfed⟩
      rcases Outcome.bind_eq_ok.mp hready with ⟨⟨driven, s', log⟩, hdrive, hready⟩
      rcases Outcome.bind_eq_ok.mp hdrive with ⟨b, hadvance, hb⟩
      cases hb
      -- what was read is driven, and everything pending is what the drive wrote
      rcases drives_of_advance hadvance with ⟨log, closed, hdriven⟩
      have hlog : b.writes = log := by rw [hdriven.writes, List.nil_append]
      have hclose : b.state.close = closed := by
        rw [hdriven.close]
        show (live.conn.conn.closeAfterFlush || closed) = closed
        rw [hreads.2, Bool.false_or]
      have hout : b.state.out = log.flatMap (·.bytes) := by
        rw [hdriven.out]
        show live.conn.conn.out ++ log.flatMap (·.bytes) = _
        rw [h.drained, List.nil_append]
      have hdrives := hdriven.drives
      rw [hlog] at hready
      rw [hout] at hready
      rw [← hclose] at hdrives
      rcases writesTlsReady_of_eq (by exact h.registered) (Outcome.ok.inj hready) with
        ⟨hwrites, hrounds, hlog'⟩
      exact hfinish hwrites (h.toTlsDriven.reads hreads.1 hreads.2 hfed hdrives rfl rfl hwrites
        hrounds hlog')
  · rename_i hidle
    rcases writesTlsReady_of_eq h.registered (Outcome.ok.inj hready) with ⟨hwrites, hrounds, hlog⟩
    exact hfinish hwrites (h.toTlsDriven.writes (Bool.eq_false_iff.mpr hidle) hwrites hrounds hlog)

end Event

/-! ## The event loop -/

section Loop

variable {io : Rustls τ} {t : Target} {svc : Service σ} {options : Options}
  {w : EventLoop σ (TlsLive σ τ)} {ticks : List (Tick σ Event)} {token : Nat} {s : σ}
  {tracked : Tracked (TlsLive σ τ)}

theorem intact_of_tls
    (h : EventLoop.run t (tlsDriver io t svc options) options (.start s) ticks = .ok w) :
    w.All (TlsIntact io t svc options.securityHeaders options.maxBody) := by
  refine EventLoop.all_of_run ?_ ?_ h
  · intro peer conn haccept
    rcases Option.map_eq_some_iff.mp haccept with ⟨session, hnew, rfl⟩
    exact tlsIntact_accept hnew peer
  · intro conn s event r hintact hserved hkept
    rcases Outcome.bind_eq_ok.mp hserved with ⟨ready, hready, hr⟩
    cases hr
    have hfate : ready.fate = .kept := by simpa using hkept
    have hhere : ready.fate ≠ .peerGone := by
      rw [hfate]
      decide
    exact (hintact.handles hready hhere).2.1 hfate

/-- In every state of the event loop, every TLS connection is intact; and an event that
reports one done has handed all of its bytes and then the close alert to the session, which
has no ciphertext left. -/
theorem tls_of_run
    (h : EventLoop.run t (tlsDriver io t svc options) options (.start s) ticks = .ok w)
    (hthere : w.conns.lookup token = some tracked) :
    TlsIntact io t svc options.securityHeaders options.maxBody tracked.conn ∧
      ∀ event r, tracked.conn.conn.handleReady io t svc w.service event = .ok r →
        r.fate = .flushed →
        TlsDriven io t svc options.securityHeaders options.maxBody (tracked.conn.after event r) ∧
          r.conn.conn.closeAfterFlush = true ∧ io.wantsWrite r.conn.session = false := by
  have hintact := intact_of_tls h token tracked hthere
  refine ⟨hintact, ?_⟩
  intro event r hready hflushed
  have hhere : r.fate ≠ .peerGone := by
    rw [hflushed]
    decide
  rcases hintact.handles hready hhere with ⟨hdriven, _, hdone⟩
  exact ⟨hdriven, (hdone hflushed).2, (hdone hflushed).1⟩

/-- What a connection was driven over is the plaintext that its session handed out. -/
theorem Pulled.fed {events : List Event} {calls : List TlsCall} {rounds : List (Round σ)}
    {closed : Bool} {ps : List Pull} (h : Pulled events calls rounds closed ps) :
    fedOver rounds = decrypted calls := by
  rw [fedOver_eq, h.plain, decrypted_eq, h.calls, given_pulls, List.flatMap_map]

/-- A session that leaves the bytes as they are, with an alert of one byte, and takes no more
than `limit` bytes of a write. -/
def clearSession (limit : Nat) : Rustls (Bytes × Bytes) where
  new := some ([], [])
  readTls s bytes := some (s.1 ++ bytes, s.2)
  processNewPackets s := some s
  read s := (s.1, [], s.2)
  buffered s := s.1.length
  read_lt s h := List.length_pos_iff.mpr h
  writeAll s bytes := ((bytes.take limit).length, s.1, s.2 ++ bytes.take limit)
  writeAll_le s bytes := by
    rw [List.length_take]
    exact Nat.min_le_right ..
  sendCloseNotify s := (s.1, s.2 ++ [0x15])
  wantsWrite s := !s.2.isEmpty
  writeTls s n := (s.1, s.2.drop n)
  new_silent s h := by
    cases h
    rfl

/-- A session with room for the answer, and one that has none. -/
theorem run_clearSession {limit : Nat} (hlimit : limit = 65536 ∨ limit = 16) :
    ∃ w tracked, EventLoop.run ⟨.w64, false⟩
      (tlsDriver (clearSession limit) ⟨.w64, false⟩ okService EventLoop.twoOptions)
        EventLoop.twoOptions (.start ()) [EventLoop.acceptTick, closingTick] = .ok w ∧
      w.conns.lookup 1 = some tracked ∧ tracked.conn.conn.conn.closeAfterFlush = true ∧
      decrypted tracked.conn.calls = cutGet.1 ++ cutGet.2 ∧
      tracked.conn.calls.any TlsCall.isShort = decide (limit = 16) := by
  have hrun : (EventLoop.run ⟨.w64, false⟩
      (tlsDriver (clearSession limit) ⟨.w64, false⟩ okService EventLoop.twoOptions)
        EventLoop.twoOptions (.start ()) [EventLoop.acceptTick, closingTick] >>= fun w =>
        pure ((w.conns.lookup 1).map fun tracked => (tracked.conn.conn.conn.closeAfterFlush,
          decrypted tracked.conn.calls, tracked.conn.calls.any TlsCall.isShort))) =
      .ok (some (true, cutGet.1 ++ cutGet.2, decide (limit = 16))) := by
    rcases hlimit with rfl | rfl <;> decide +kernel
  rcases Outcome.bind_eq_ok.mp hrun with ⟨w, hw, hlast⟩
  cases hthere : w.conns.lookup 1 with
  | none => simp [hthere] at hlast
  | some tracked =>
    simp only [hthere, Option.map_some, Outcome.pure_eq, Outcome.ok.injEq, Option.some.injEq,
      Prod.mk.injEq] at hlast
    exact ⟨w, tracked, hw, hthere, hlast⟩

/-- A request arrived, and its answer is only partly out when the alert is queued. -/
theorem intact_clearSession : ∃ live : TlsLive Unit (Bytes × Bytes),
    live.conn.conn.closeAfterFlush = true ∧ decrypted live.calls = cutGet.1 ++ cutGet.2 ∧
      TlsIntact (clearSession 65536) ⟨.w64, false⟩ okService false 16 live := by
  rcases run_clearSession (.inl rfl) with ⟨w, tracked, hrun, hthere, hclosing, hgave, _⟩
  exact ⟨tracked.conn, hclosing, hgave, (tls_of_run hrun hthere).1⟩

end Loop

end FerroHttp
