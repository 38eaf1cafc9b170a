import FerroHttp.Conn.Session
import FerroHttp.Transport

/-!
# Transport.Output — no byte lost, repeated or reordered

`Drives` steps a connection until it waits or announces the close, and `Reference` does
so for each piece of what was received, up to the close. It knows of no socket.

1. `drives_of_advance`: the inner loop of an event is a drive;
2. `plainReadIn_eq`: a drain receives what the reads of the socket returned, all of it;
3. `handleReady_spec`: everything an event can do;
4. `Intact`: what holds of a connection in the table. It was driven over what its socket
   returned, and the bytes the socket accepted and those still to be written are together
   the writes of the reference;
5. `reactor_intact`: it holds of every connection in every reachable table, and a
   connection that is reported done has had all its bytes accepted.
-/

namespace FerroHttp

open Exec Text

variable {σ : Type}

/-! ## The reference -/

/-- Step a connection until it waits or announces the close. -/
inductive Drives (t : Target) (svc : Service σ) (now : Nat) :
    Connection → σ → Connection → σ → List Entry → Bool → Prop
  | wait {c : Connection} {s : σ} {r : StepResult σ} (step : c.step t svc s now = .ok r)
      (verdict : r.step = .needMore) :
      Drives t svc now c s r.conn r.service r.unwritten false
  | close {c : Connection} {s : σ} {r : StepResult σ} {bytes : Bytes}
      (step : c.step t svc s now = .ok r) (verdict : r.step = .write bytes true) :
      Drives t svc now c s r.conn r.service [⟨bytes, true, r.handled⟩] true
  | more {c c' : Connection} {s s' : σ} {r : StepResult σ} {bytes : Bytes} {log : List Entry}
      {closed : Bool} (step : c.step t svc s now = .ok r) (verdict : r.step = .write bytes false)
      (rest : Drives t svc now r.conn r.service c' s' log closed) :
      Drives t svc now c s c' s' (⟨bytes, false, r.handled⟩ :: log) closed

/-- Drive a connection over pieces of a stream, up to the close. -/
inductive Reference (t : Target) (svc : Service σ) (first : Connection) :
    List (Round σ) → Connection → List Entry → Bool → Prop
  | start : Reference t svc first [] first [] false
  | round {rounds : List (Round σ)} {c c' : Connection} {s' : σ} {log log' : List Entry}
      {closed : Bool} (before : Reference t svc first rounds c log false) (round : Round σ)
      (drives : Drives t svc round.now (c.feed round.received) round.service c' s' log' closed) :
      Reference t svc first (rounds ++ [round]) c' (log ++ log') closed

section Reference

variable {t : Target} {svc : Service σ} {now : Nat} {c c' c'' first : Connection} {s s' s'' : σ}
  {log log' : List Entry} {closed closed' : Bool} {rounds : List (Round σ)}

theorem Drives.unique (h : Drives t svc now c s c' s' log closed)
    (h' : Drives t svc now c s c'' s'' log' closed') :
    c' = c'' ∧ s' = s'' ∧ log = log' ∧ closed = closed' := by
  induction h generalizing c'' s'' log' closed' with
  | wait step verdict =>
    cases h' with
    | wait step' verdict' =>
      cases step.symm.trans step'
      exact ⟨rfl, rfl, rfl, rfl⟩
    | close step' verdict' =>
      cases step.symm.trans step'
      cases verdict.symm.trans verdict'
    | more step' verdict' rest' =>
      cases step.symm.trans step'
      cases verdict.symm.trans verdict'
  | close step verdict =>
    cases h' with
    | wait step' verdict' =>
      cases step.symm.trans step'
      cases verdict.symm.trans verdict'
    | close step' verdict' =>
      cases step.symm.trans step'
      cases verdict.symm.trans verdict'
      exact ⟨rfl, rfl, rfl, rfl⟩
    | more step' verdict' rest' =>
      cases step.symm.trans step'
      cases verdict.symm.trans verdict'
  | more step verdict rest ih =>
    cases h' with
    | wait step' verdict' =>
      cases step.symm.trans step'
      cases verdict.symm.trans verdict'
    | close step' verdict' =>
      cases step.symm.trans step'
      cases verdict.symm.trans verdict'
    | more step' verdict' rest' =>
      cases step.symm.trans step'
      cases verdict.symm.trans verdict'
      rcases ih rest' with ⟨rfl, rfl, rfl, rfl⟩
      exact ⟨rfl, rfl, rfl, rfl⟩

/-- The reference has one result: it is what driving the connection writes. -/
theorem Reference.unique (h : Reference t svc first rounds c log closed)
    (h' : Reference t svc first rounds c' log' closed') :
    c = c' ∧ log = log' ∧ closed = closed' := by
  induction h generalizing c' log' closed' with
  | start =>
    generalize hrounds : ([] : List (Round σ)) = rounds at h'
    cases h' with
    | start => exact ⟨rfl, rfl, rfl⟩
    | round before' round' drives' => simp at hrounds
  | @round rounds c _ _ log _ _ before round drives ih =>
    generalize hrounds : rounds ++ [round] = all at h'
    cases h' with
    | start => simp at hrounds
    | round before' round' drives' =>
      rcases List.append_inj' hrounds rfl with ⟨rfl, hround⟩
      cases hround
      rcases ih before' with ⟨rfl, rfl, _⟩
      rcases drives.unique drives' with ⟨rfl, _, rfl, rfl⟩
      exact ⟨rfl, rfl, rfl⟩

/-- A drive stops at the first write that announces the close. -/
theorem Drives.closeLast (h : Drives t svc now c s c' s' log closed) :
    (∀ e ∈ log.dropLast, e.close = false) ∧ (closed = false → ∀ e ∈ log, e.close = false) := by
  induction h with
  | wait step verdict =>
    rcases Connection.eq_of_needMore step verdict with ⟨_, rfl⟩
    simp
  | close step verdict => simp
  | more step verdict rest ih =>
    rcases ih with ⟨hlast, hopen⟩
    constructor
    · intro e he
      rcases hlog : ‹List Entry› with _ | ⟨x, xs⟩
      · rw [hlog] at he
        cases he
      · rw [hlog, List.dropLast_cons_of_ne_nil (List.cons_ne_nil _ _)] at he
        rcases List.mem_cons.mp he with rfl | he
        · rfl
        · exact hlast e (by rw [hlog]; exact he)
    · intro hclosed e he
      rcases List.mem_cons.mp he with rfl | he
      · rfl
      · exact hopen hclosed e he

/-- So does the reference. -/
theorem Reference.closeLast (h : Reference t svc first rounds c log closed) :
    (∀ e ∈ log.dropLast, e.close = false) ∧ (closed = false → ∀ e ∈ log, e.close = false) := by
  induction h with
  | start => simp
  | @round rounds c _ _ log log' closed before round drives ih =>
    have hbefore := ih.2 rfl
    rcases drives.closeLast with ⟨hlast, hopen⟩
    constructor
    · intro e he
      rcases log'.eq_nil_or_concat with rfl | ⟨front, last, rfl⟩
      · rw [List.append_nil] at he
        exact hbefore e (List.mem_of_mem_dropLast he)
      · rw [List.concat_eq_append] at he hlast
        rw [← List.append_assoc, List.dropLast_concat, List.mem_append] at he
        rcases he with he | he
        · exact hbefore e he
        · exact hlast e (by rw [List.dropLast_concat]; exact he)
    · intro hclosed e he
      rcases List.mem_append.mp he with he | he
      · exact hbefore e he
      · exact hopen hclosed e he

end Reference

/-! ## The inner loop -/

section Drive

variable {t : Target} {svc : Service σ} {now : Nat}

/-- What the loop leaves behind when the connection was driven. -/
structure DrivenBy (t : Target) (svc : Service σ) (now : Nat) (a b : Advance σ)
    (log : List Entry) (closed : Bool) : Prop where
  drives : Drives t svc now a.state.conn a.service b.state.conn b.service log closed
  writes : b.writes = a.writes ++ log
  out : b.state.out = a.state.out ++ log.flatMap (·.bytes)
  close : b.state.close = (a.state.close || closed)

/-- The last iteration. -/
theorem drivenBy_of_done {a b : Advance σ} (h : advanceStep t svc now a = .ok (.done b)) :
    ∃ log closed, DrivenBy t svc now a b log closed := by
  unfold advanceStep at h
  rcases Outcome.bind_eq_ok.mp h with ⟨r, hstep, h⟩
  cases hverdict : r.step with
  | needMore =>
    rw [hverdict] at h
    cases h
    have hdrives := Drives.wait hstep hverdict
    rcases Connection.eq_of_needMore hstep hverdict with ⟨_, rfl⟩
    exact ⟨[], false, hdrives, by simp, by simp, by simp⟩
  | write bytes close =>
    rw [hverdict] at h
    cases close with
    | true =>
      cases h
      exact ⟨_, true, .close hstep hverdict, rfl, by simp, by simp⟩
    | false => cases h

/-- One iteration in front of others. -/
theorem drivenBy_of_again {a u b : Advance σ} {log : List Entry} {closed : Bool}
    (h : advanceStep t svc now a = .ok (.again u)) (hrest : DrivenBy t svc now u b log closed) :
    ∃ log closed, DrivenBy t svc now a b log closed := by
  unfold advanceStep at h
  rcases Outcome.bind_eq_ok.mp h with ⟨r, hstep, h⟩
  cases hverdict : r.step with
  | needMore =>
    rw [hverdict] at h
    cases h
  | write bytes close =>
    rw [hverdict] at h
    cases close with
    | true => cases h
    | false =>
      cases h
      refine ⟨_, closed, .more hstep hverdict hrest.drives, ?_, ?_, hrest.close⟩
      · rw [hrest.writes, List.append_assoc]
        rfl
      · rw [hrest.out, List.flatMap_cons, List.append_assoc]

/-- The inner loop drives the connection. -/
theorem drives_of_advance {a b : Advance σ} (h : advance t svc now a = .ok b) :
    ∃ log closed, DrivenBy t svc now a b log closed := by
  rcases exists_reaches_of_runLoop h with ⟨u, hreach, hlast⟩
  clear h
  induction hreach using Relation.ReflTransGen.head_induction_on with
  | refl => exact drivenBy_of_done hlast
  | head hfirst _ ih =>
    rcases ih with ⟨log, closed, hrest⟩
    exact drivenBy_of_again (Flow.ofOutcome_eq_again.mp hfirst) hrest

end Drive

/-! ## Reading and writing -/

/-- Whatever the reads return, what they returned was fed. -/
theorem plainReadIn_state (reads : List ReadResult) (c : Connection) :
    (plainReadIn reads c).state = c.feed (plainReadIn reads c).received := by
  induction reads generalizing c with
  | nil => exact c.feed_nil.symm
  | cons read rest ih =>
    cases read with
    | ok bytes =>
      rw [plainReadIn]
      split
      · exact c.feed_nil.symm
      · show (plainReadIn rest (c.feed bytes)).state =
          c.feed (bytes ++ (plainReadIn rest (c.feed bytes)).received)
        rw [ih]
        simp only [Connection.feed, List.append_assoc]
    | wouldBlock => exact c.feed_nil.symm
    | interrupted => exact ih c
    | failed => exact c.feed_nil.symm

/-- After this result the drain goes on. -/
def ReadResult.goesOn : ReadResult → Bool
  | .ok bytes => !bytes.isEmpty
  | .interrupted => true
  | _ => false

/-- The bytes of a read. -/
def ReadResult.bytes : ReadResult → Bytes
  | .ok bytes => bytes
  | _ => []

/-- The bytes the drain of a socket returns. -/
def receivedOf (reads : List ReadResult) : Bytes :=
  (reads.takeWhile ReadResult.goesOn).flatMap ReadResult.bytes

/-- The result that ends a drain. -/
def lastRead (reads : List ReadResult) : Option ReadResult :=
  (reads.dropWhile ReadResult.goesOn).head?

/-- A drain feeds the bytes it returns, and the connection is gone at the end of the
stream and on an error. -/
theorem plainReadIn_eq (reads : List ReadResult) (c : Connection) :
    (plainReadIn reads c).received = receivedOf reads ∧
      ((plainReadIn reads c).gone = true ↔
        lastRead reads = some (.ok []) ∨ lastRead reads = some .failed) := by
  induction reads generalizing c with
  | nil => simp [plainReadIn, receivedOf, lastRead]
  | cons read rest ih =>
    cases read with
    | ok bytes =>
      cases bytes with
      | nil => simp [plainReadIn, receivedOf, lastRead, ReadResult.goesOn]
      | cons b bs =>
        rcases ih (c.feed (b :: bs)) with ⟨hreceived, hgone⟩
        constructor
        · show b :: bs ++ (plainReadIn rest (c.feed (b :: bs))).received = _
          rw [hreceived]
          simp [receivedOf, ReadResult.goesOn, ReadResult.bytes]
        · show (plainReadIn rest (c.feed (b :: bs))).gone = true ↔ _
          rw [hgone]
          simp [lastRead, ReadResult.goesOn]
    | wouldBlock => simp [plainReadIn, receivedOf, lastRead, ReadResult.goesOn]
    | interrupted => exact ih c
    | failed => simp [plainReadIn, receivedOf, lastRead, ReadResult.goesOn]

/-- What the socket gave in these events: for each that finds it readable, the bytes its
drain returns, and the clock. -/
def heardIn (events : List Event) : List (Bytes × Nat) :=
  (events.filter (·.readable)).map fun event => (receivedOf event.reads, event.now)

/-- What a round had from the socket. -/
def Round.heard (round : Round σ) : Bytes × Nat := (round.received, round.now)

/-- A connection was driven over what its socket gave, in order: all of it, or, once the
close is announced, what it gave up to there. -/
structure Heard (events : List Event) (rounds : List (Round σ)) (closed : Bool) : Prop where
  first : rounds.map Round.heard <+: heardIn events
  all : closed = false → rounds.map Round.heard = heardIn events

theorem heardIn_concat (events : List Event) (event : Event) :
    heardIn (events ++ [event]) =
      heardIn events ++ if event.readable then [(receivedOf event.reads, event.now)] else [] := by
  cases hreadable : event.readable <;> simp [heardIn, hreadable]

/-- A round over what an event gave. -/
theorem Heard.read {events : List Event} {event : Event} {rounds : List (Round σ)}
    (h : Heard events rounds false) (hreadable : event.readable = true) (s : σ) (closed : Bool) :
    Heard (events ++ [event]) (rounds ++ [⟨receivedOf event.reads, event.now, s⟩]) closed := by
  have heq : (rounds ++ [(⟨receivedOf event.reads, event.now, s⟩ : Round σ)]).map Round.heard =
      heardIn (events ++ [event]) := by
    rw [heardIn_concat, hreadable, if_pos rfl, List.map_append, h.all rfl]
    rfl
  exact ⟨by rw [heq], fun _ => heq⟩

/-- An event that gives nothing, or that is not read any more. -/
theorem Heard.idle {events : List Event} {event : Event} {rounds : List (Round σ)} {closed : Bool}
    (h : Heard events rounds closed) (hidle : (event.readable && !closed) = false) :
    Heard (events ++ [event]) rounds closed := by
  constructor
  · rw [heardIn_concat]
    exact h.first.trans (List.prefix_append _ _)
  · intro hopen
    rw [hopen, Bool.not_false, Bool.and_true] at hidle
    rw [heardIn_concat, hidle, if_neg (by simp), List.append_nil]
    exact h.all hopen

/-- What a write-out does: bytes move from the output to the socket in order, and all of
the output is offered before anything else happens to it. -/
structure WritesOut (out : Bytes) (w : WriteOut) : Prop where
  conserved : w.accepted ++ w.out = out
  offered : out ≠ [] → out ∈ w.offered

theorem writesOut_of_plainWriteOut {writes : List WriteResult} {out : Bytes} {w : WriteOut}
    (h : plainWriteOut writes out = .ok w) : WritesOut out w := by
  induction writes generalizing out w with
  | nil =>
    cases h
    refine ⟨rfl, fun hne => ?_⟩
    have hempty : out.isEmpty = false := by simpa using hne
    simp [hempty]
  | cons result rest ih =>
    unfold plainWriteOut at h
    split at h
    · rename_i hempty
      cases h
      exact ⟨rfl, fun hne => absurd (List.isEmpty_iff.mp hempty) hne⟩
    · cases result with
      | ok n =>
        dsimp only at h
        split at h
        · cases h
          exact ⟨rfl, fun _ => List.mem_singleton_self _⟩
        · split at h
          · rcases Outcome.bind_eq_ok.mp h with ⟨w', hrest, h⟩
            cases h
            refine ⟨?_, fun _ => List.mem_cons_self⟩
            show out.take n ++ w'.accepted ++ w'.out = out
            rw [List.append_assoc, (ih hrest).conserved, List.take_append_drop]
          · cases h
      | wouldBlock =>
        cases h
        exact ⟨rfl, fun _ => List.mem_singleton_self _⟩
      | interrupted =>
        rcases Outcome.bind_eq_ok.mp h with ⟨w', hrest, h⟩
        cases h
        exact ⟨(ih hrest).conserved, fun _ => List.mem_cons_self⟩
      | failed =>
        cases h
        exact ⟨rfl, fun _ => List.mem_singleton_self _⟩

/-! ## One event -/

section Event

variable {t : Target} {svc : Service σ} {conn : Conn} {s : σ} {event : Event} {r : Ready σ}

/-- The flag for writability and what the poll has for the socket agree. -/
def Conn.Registered (conn : Conn) : Prop :=
  conn.interest = .readableWritable ↔ conn.wantsWrite = true

/-- What `updateInterest` leaves: the flag says whether output is pending, and a
connection is done when none is and it was to be closed. -/
theorem updateInterest_spec (conn : Conn) (h : conn.Registered) :
    ((updateInterest conn).2 = true ↔ conn.out = [] ∧ conn.closeAfterFlush = true) ∧
      (updateInterest conn).1.state = conn.state ∧ (updateInterest conn).1.out = conn.out ∧
      (updateInterest conn).1.closeAfterFlush = conn.closeAfterFlush ∧
      ((updateInterest conn).2 = false →
        ((updateInterest conn).1.wantsWrite = true ↔ conn.out ≠ []) ∧
          (updateInterest conn).1.Registered) := by
  rcases conn with ⟨state, out, wantsWrite, closeAfterFlush, interest⟩
  unfold updateInterest
  cases out with
  | nil =>
    cases closeAfterFlush with
    | true => simp
    | false =>
      cases wantsWrite with
      | true => simp [Conn.Registered]
      | false => simpa using h
  | cons b bs =>
    cases wantsWrite with
    | true => simpa using h
    | false => simp [Conn.Registered]

/-- What the second half of an event does. -/
structure WritesReady (conn : Conn) (rounds : List (Round σ)) (log : List Entry) (r : Ready σ) :
    Prop where
  rounds : r.rounds = rounds
  log : r.log = log
  state : r.conn.state = conn.state
  closeAfterFlush : r.conn.closeAfterFlush = conn.closeAfterFlush
  conserved : r.accepted ++ r.conn.out = conn.out
  offered : conn.out ≠ [] → conn.out ∈ r.offered
  here : r.fate ≠ .peerGone
  kept : r.fate = .kept → (r.conn.wantsWrite = true ↔ r.conn.out ≠ []) ∧ r.conn.Registered
  flushed : r.fate = .flushed → r.conn.out = [] ∧ r.conn.closeAfterFlush = true

theorem writesReady_of_writeReady {rounds : List (Round σ)} {log : List Entry}
    (hreg : conn.Registered) (h : writeReady event rounds conn s log = .ok r) :
    WritesReady conn rounds log r := by
  unfold writeReady at h
  rcases Outcome.bind_eq_ok.mp h with ⟨w, hwrite, h⟩
  rcases writesOut_of_plainWriteOut hwrite with ⟨hconserved, hoffered⟩
  dsimp only at h
  split at h
  · cases h
    exact ⟨rfl, rfl, rfl, rfl, hconserved, hoffered, by simp, by simp, by simp⟩
  · rcases updateInterest_spec { conn with out := w.out } hreg with
      ⟨hdone, hstate, hout, hclose, hkept⟩
    cases h
    refine ⟨rfl, rfl, hstate, hclose, ?_, hoffered, ?_, ?_, ?_⟩
    · show w.accepted ++ (updateInterest { conn with out := w.out }).1.out = conn.out
      rw [hout]
      exact hconserved
    · dsimp only
      split <;> simp
    · intro hfate
      have hno : (updateInterest { conn with out := w.out }).2 = false := by
        cases hd : (updateInterest { conn with out := w.out }).2 with
        | true => simp [hd] at hfate
        | false => rfl
      rcases hkept hno with ⟨hwants, hreg'⟩
      refine ⟨?_, hreg'⟩
      show (updateInterest { conn with out := w.out }).1.wantsWrite = true ↔
        (updateInterest { conn with out := w.out }).1.out ≠ []
      rw [hwants, hout]
    · intro hfate
      have hyes : (updateInterest { conn with out := w.out }).2 = true := by
        cases hd : (updateInterest { conn with out := w.out }).2 with
        | true => rfl
        | false => simp [hd] at hfate
      rcases hdone.mp hyes with ⟨hempty, hclosing⟩
      exact ⟨hout.trans hempty, hclose.trans hclosing⟩

/-- What an event does, unless the peer turned out to be gone: it drives the connection
over what was received, unless there is nothing to read or nothing is read any more,
and then writes. -/
structure HandlesReady (t : Target) (svc : Service σ) (conn : Conn) (s : σ) (event : Event)
    (r : Ready σ) (driven : Conn) (rounds : List (Round σ)) (log : List Entry) : Prop where
  reads : (event.readable && !conn.closeAfterFlush) = true →
    (plainReadIn event.reads conn.state).gone = false ∧
      rounds = [⟨receivedOf event.reads, event.now, s⟩] ∧
      ∃ s', Drives t svc event.now (conn.state.feed (receivedOf event.reads)) s driven.state s' log
        driven.closeAfterFlush
  idle : (event.readable && !conn.closeAfterFlush) = false →
    driven = conn ∧ rounds = [] ∧ log = []
  out : driven.out = conn.out ++ log.flatMap (·.bytes)
  writes : WritesReady driven rounds log r

theorem handleReady_spec (hreg : conn.Registered) (h : handleReady t svc conn s event = .ok r) :
    ((event.readable && !conn.closeAfterFlush) = true ∧
      (plainReadIn event.reads conn.state).gone = true ∧
      r = ⟨{ conn with state := (plainReadIn event.reads conn.state).state }, s, .peerGone, [], [],
        [], []⟩) ∨
    ∃ driven rounds log, HandlesReady t svc conn s event r driven rounds log := by
  unfold handleReady at h
  split at h
  · rename_i hreads
    rw [Bool.and_eq_true, Bool.not_eq_true'] at hreads
    dsimp only at h
    split at h
    · rename_i hgone
      cases h
      exact .inl ⟨by simp [hreads], hgone, rfl⟩
    · rename_i hgone
      right
      rcases Outcome.bind_eq_ok.mp h with ⟨⟨driven, s', log⟩, hdrive, hwrite⟩
      rcases Outcome.bind_eq_ok.mp hdrive with ⟨b, hadvance, hb⟩
      cases hb
      rcases drives_of_advance hadvance with ⟨log, closed, hdriven⟩
      have hlog : b.writes = log := by rw [hdriven.writes, List.nil_append]
      have hclose : b.state.close = closed := by
        rw [hdriven.close]
        show (conn.closeAfterFlush || closed) = closed
        rw [hreads.2, Bool.false_or]
      have hdrives := hdriven.drives
      dsimp only at hdrives hwrite
      rw [plainReadIn_state, (plainReadIn_eq _ _).1, ← hclose] at hdrives
      rw [hlog, (plainReadIn_eq _ _).1] at hwrite
      refine ⟨_, _, _, ⟨fun _ => ⟨by simpa using hgone, rfl, _, hdrives⟩, ?_, ?_,
        writesReady_of_writeReady (by exact hreg) hwrite⟩⟩
      · intro hidle
        simp [hreads] at hidle
      · exact hdriven.out
  · rename_i hreads
    right
    refine ⟨conn, [], [], ⟨fun hread => absurd hread hreads, fun _ => ⟨rfl, rfl, rfl⟩, ?_,
      writesReady_of_writeReady hreg h⟩⟩
    simp

/-- A connection that is still there was driven over what the event received. -/
theorem exists_handlesReady (hreg : conn.Registered) (h : handleReady t svc conn s event = .ok r)
    (hhere : r.fate ≠ .peerGone) :
    ∃ driven rounds log, HandlesReady t svc conn s event r driven rounds log := by
  rcases handleReady_spec hreg h with ⟨_, _, rfl⟩ | hhandles
  · exact absurd rfl hhere
  · exact hhandles

end Event

/-! ## The table -/

section Table

variable {t : Target} {svc : Service σ} {security : Bool} {maxBody : Nat} {live : Live σ} {s : σ}
  {event : Event} {r : Ready σ} {v v' : Reactor σ}

/-- What holds of a connection in the table: it was driven over all that its socket gave, up
to the close; what its socket accepted and what is still to be written are what it
wrote; and it waits for writability, and the poll knows, iff something is to be written. -/
structure Intact (t : Target) (svc : Service σ) (security : Bool) (maxBody : Nat)
    (live : Live σ) : Prop where
  fresh : ∃ peer, live.first = Connection.create ⟨security, true⟩ maxBody peer
  heard : Heard live.events live.rounds live.conn.closeAfterFlush
  driven : Reference t svc live.first live.rounds live.conn.state live.log
    live.conn.closeAfterFlush
  conserved : live.accepted ++ live.conn.out = live.log.flatMap (·.bytes)
  armed : live.conn.wantsWrite = true ↔ live.conn.out ≠ []
  registered : live.conn.interest = .readableWritable ↔ live.conn.out ≠ []

theorem intact_accept (t : Target) (svc : Service σ) (peer : Bytes) :
    Intact t svc security maxBody (.accept (Connection.create ⟨security, true⟩ maxBody peer)) := by
  refine ⟨⟨peer, rfl⟩, ⟨List.prefix_rfl, fun _ => rfl⟩, .start, rfl, ?_, ?_⟩ <;>
    simp [Live.accept, Conn.new]

theorem Intact.conn_registered (h : Intact t svc security maxBody live) : live.conn.Registered :=
  h.registered.trans h.armed.symm

/-- Whatever an event does to a connection that is still there, it stays on the
reference, and no byte is lost. -/
theorem Intact.handles (h : Intact t svc security maxBody live)
    (hready : handleReady t svc live.conn s event = .ok r) (hhere : r.fate ≠ .peerGone) :
    Heard (live.events ++ [event]) (live.rounds ++ r.rounds) r.conn.closeAfterFlush ∧
      Reference t svc live.first (live.rounds ++ r.rounds) r.conn.state (live.log ++ r.log)
        r.conn.closeAfterFlush ∧
      live.accepted ++ r.accepted ++ r.conn.out = (live.log ++ r.log).flatMap (·.bytes) := by
  rcases exists_handlesReady h.conn_registered hready hhere with ⟨driven, rounds, log, hhandles⟩
  have hwrites := hhandles.writes
  rw [hwrites.rounds, hwrites.log, hwrites.state, hwrites.closeAfterFlush]
  have hconserved : live.accepted ++ r.accepted ++ r.conn.out =
      (live.log ++ log).flatMap (·.bytes) := by
    rw [List.append_assoc, hwrites.conserved, hhandles.out, ← List.append_assoc, h.conserved,
      List.flatMap_append]
  have hheard := h.heard
  have hreference := h.driven
  cases hreads : (event.readable && !live.conn.closeAfterFlush) with
  | true =>
    -- the event read, so the close was not announced yet
    rcases hhandles.reads hreads with ⟨_, rfl, s', hdrives⟩
    rw [Bool.and_eq_true, Bool.not_eq_true'] at hreads
    rw [hreads.2] at hreference hheard
    exact ⟨hheard.read hreads.1 s _, .round hreference _ hdrives, hconserved⟩
  | false =>
    rcases hhandles.idle hreads with ⟨rfl, rfl, rfl⟩
    rw [List.append_nil] at hconserved
    rw [List.append_nil, List.append_nil]
    exact ⟨hheard.idle hreads, hreference, hconserved⟩

/-- An event that keeps the connection keeps all of it. -/
theorem Intact.kept (h : Intact t svc security maxBody live)
    (hready : handleReady t svc live.conn s event = .ok r) (hkept : r.fate = .kept) :
    Intact t svc security maxBody (live.after event r) := by
  have hhere : r.fate ≠ .peerGone := by
    rw [hkept]
    decide
  rcases h.handles hready hhere with ⟨hheard, hdriven, hconserved⟩
  rcases exists_handlesReady h.conn_registered hready hhere with ⟨driven, rounds, log, hhandles⟩
  rcases hhandles.writes.kept hkept with ⟨hwants, hregistered⟩
  exact ⟨h.fresh, hheard, hdriven, hconserved, hwants, hregistered.trans hwants⟩

/-- Every connection of the table is intact, and every step keeps it so. -/
theorem intact_step (h : ∀ token live, v.conns token = some live → Intact t svc security maxBody live)
    (hstep : Reactor.Step t svc security maxBody v v') :
    ∀ token live, v'.conns token = some live → Intact t svc security maxBody live := by
  intro token live hlive
  cases hstep with
  | accept token' peer free =>
    by_cases htoken : token = token'
    · subst htoken
      simp only [Function.update_self, Option.some.injEq] at hlive
      rw [← hlive]
      exact intact_accept t svc peer
    · exact h token live (by simpa [Function.update_of_ne htoken] using hlive)
  | ready token' event handled =>
    unfold Reactor.handleToken at handled
    split at handled
    · cases handled
      exact h token live hlive
    · rename_i before hbefore
      rcases Outcome.bind_eq_ok.mp handled with ⟨r, hready, hr⟩
      cases hr
      by_cases htoken : token = token'
      · subst htoken
        simp only [Function.update_self] at hlive
        split at hlive
        · rename_i hkept
          cases hlive
          exact (h token before hbefore).kept hready hkept
        · cases hlive
      · exact h token live (by simpa [Function.update_of_ne htoken] using hlive)
  | sweep token' =>
    by_cases htoken : token = token'
    · subst htoken
      simp at hlive
    · exact h token live (by simpa [Function.update_of_ne htoken] using hlive)
  | others s => exact h token live hlive

theorem intact_of_reachable (hreach : v.Reachable t svc security maxBody) :
    ∀ token live, v.conns token = some live → Intact t svc security maxBody live := by
  rcases hreach with ⟨s₀, hreach⟩
  induction hreach with
  | refl =>
    intro token live hlive
    cases hlive
  | tail _ hstep ih => exact intact_step ih hstep

/-- Output integrity. In every reachable table, every connection is intact, so only its
last write may announce the close; and if an event reports it done, then the bytes its
socket accepted are all that the reference writes over what the socket gave, up to the
close. -/
theorem reactor_intact (hreach : v.Reachable t svc security maxBody) {token : Nat}
    (hlive : v.conns token = some live) :
    Intact t svc security maxBody live ∧ (∀ e ∈ live.log.dropLast, e.close = false) ∧
      ∀ event r, handleReady t svc live.conn v.service event = .ok r → r.fate = .flushed →
        Heard (live.events ++ [event]) (live.rounds ++ r.rounds) true ∧
          Reference t svc live.first (live.rounds ++ r.rounds) r.conn.state (live.log ++ r.log)
            true ∧
          live.accepted ++ r.accepted = (live.log ++ r.log).flatMap (·.bytes) := by
  have h := intact_of_reachable hreach token live hlive
  refine ⟨h, h.driven.closeLast.1, ?_⟩
  intro event r hready hflushed
  have hhere : r.fate ≠ .peerGone := by
    rw [hflushed]
    decide
  rcases h.handles hready hhere with ⟨hheard, hdriven, hconserved⟩
  rcases exists_handlesReady h.conn_registered hready hhere with ⟨driven, rounds, log, hhandles⟩
  rcases hhandles.writes.flushed hflushed with ⟨hempty, hclosing⟩
  rw [hempty, List.append_nil] at hconserved
  rw [hclosing] at hheard hdriven
  exact ⟨hheard, hdriven, hconserved⟩

/-- The socket has a closing request, and takes ten bytes of the answer. -/
def closingEvent : Event :=
  ⟨true, [.interrupted, .ok (cutGet.1 ++ cutGet.2), .wouldBlock], [.ok 10, .wouldBlock], 0⟩

set_option maxRecDepth 10000 in
theorem closingEvent_kept : ∃ r, handleReady ⟨.w64, false⟩ okService
    (Conn.new (Connection.create ⟨false, true⟩ 16 [])) () closingEvent = .ok r ∧
      r.fate = .kept ∧ r.conn.closeAfterFlush = true := by
  have hrun : (handleReady ⟨.w64, false⟩ okService
      (Conn.new (Connection.create ⟨false, true⟩ 16 [])) () closingEvent >>= fun r =>
        pure (r.fate, r.conn.closeAfterFlush)) = .ok (.kept, true) := by decide +kernel
  rcases Outcome.bind_eq_ok.mp hrun with ⟨r, hready, hr⟩
  cases hr' : r.fate <;> cases hc : r.conn.closeAfterFlush <;> simp [hr', hc] at hr
  exact ⟨r, hready, hr', hc⟩

/-- Such a connection is in the table, with its close announced, and is intact. -/
theorem closingEvent_intact : ∃ live : Live Unit, live.conn.closeAfterFlush = true ∧
    Intact ⟨.w64, false⟩ okService false 16 live ∧ (∀ e ∈ live.log.dropLast, e.close = false) ∧
      ∀ event r, handleReady ⟨.w64, false⟩ okService live.conn () event = .ok r →
        r.fate = .flushed →
          Heard (live.events ++ [event]) (live.rounds ++ r.rounds) true ∧
          Reference ⟨.w64, false⟩ okService live.first (live.rounds ++ r.rounds) r.conn.state
            (live.log ++ r.log) true ∧
          live.accepted ++ r.accepted = (live.log ++ r.log).flatMap (·.bytes) := by
  rcases closingEvent_kept with ⟨r, hready, hkept, hclosing⟩
  have haccept : Reactor.Step ⟨.w64, false⟩ okService false 16 ⟨fun _ => none, ()⟩ _ :=
    .accept 1 [] rfl
  have hevent : Reactor.handleToken ⟨.w64, false⟩ okService
      ⟨Function.update (fun _ => none) 1
        (some (.accept (Connection.create ⟨false, true⟩ 16 []))), ()⟩ 1 closingEvent = .ok
      ⟨Function.update (Function.update (fun _ => none) 1
        (some (.accept (Connection.create ⟨false, true⟩ 16 [])))) 1
          (some ((Live.accept (Connection.create ⟨false, true⟩ 16 [])).after closingEvent r)), ()⟩ := by
    have hconn : (@Live.accept Unit (Connection.create ⟨false, true⟩ 16 [])).conn =
        Conn.new (Connection.create ⟨false, true⟩ 16 []) := rfl
    simp only [Reactor.handleToken, Function.update_self, hconn, hready, Outcome.ok_bind, hkept,
      if_true]
    rfl
  have hreach : Reactor.Reachable ⟨.w64, false⟩ okService false 16 _ :=
    ⟨(), (Relation.ReflTransGen.single haccept).tail (.ready 1 closingEvent hevent)⟩
  exact ⟨_, hclosing, reactor_intact hreach (Function.update_self ..)⟩

end Table

end FerroHttp
