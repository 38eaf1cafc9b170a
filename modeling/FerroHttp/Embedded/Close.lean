import FerroHttp.Conn.Responses
import FerroHttp.Embedded
import FerroHttp.Parser.Safety

/-!
# Embedded.Close — after the closing response

A run of `pumpConnection` between two re-arms. Nothing in `ConnState` remembers that
a closing response was written, and the connection keeps its buffer, so every later
poll steps the connection again.

1. `advance_cases`: the inner loop writes nothing exactly when the buffer is quiet, and
   then leaves the connection alone;
2. `calls_silent_iff`: so a run is silent exactly when the buffer stays quiet under
   everything that is still received;
3. `pump_close_final_iff`: the close is final exactly in the runs whose closing step
   leaves such a buffer. `pipelinedPair_not_final` is one that does not.
-/

namespace FerroHttp

open Exec Text

/-! ## Quiet connections -/

/-- A step has nothing to do: the request is not complete, and no `Expect` is to be
answered. -/
def Connection.Quiet (t : Target) (c : Connection) : Prop :=
  parseWith t c.buf c.maxBody = .ok .partialRequest ∧
    (expectAction c.buf = .none ∨ (expectAction c.buf = .continue ∧ c.continueSent = true))

/-- The connection stays quiet under everything a sequence of polls receives; a poll
that fails to receive does not step. -/
def Connection.StaysQuiet (t : Target) (c : Connection) : List (Option Bytes) → Prop
  | [] => True
  | none :: later => c.StaysQuiet t later
  | some received :: later => (c.feed received).Quiet t ∧ (c.feed received).StaysQuiet t later

section Step

variable {σ : Type} {t : Target} {c : Connection} {svc : Service σ} {s : σ} {now : Nat}
  {r : StepResult σ}

/-- A quiet connection waits as it is, and any other one writes something. -/
theorem Connection.step_quiet (h : c.step t svc s now = .ok r) :
    (c.Quiet t ∧ r = ⟨c, s, .needMore, none⟩) ∨
      (¬ c.Quiet t ∧ ∃ bytes close, r.step = .write bytes close ∧ bytes ≠ []) := by
  rcases Connection.step_cases h with ⟨hp, rfl⟩ | ⟨request, n, hp, rfl⟩ | ⟨e, hp, rfl⟩
  · cases haction : expectAction c.buf with
    | none =>
      left
      exact ⟨⟨hp, .inl haction⟩, by simp only [stepPartial, haction]⟩
    | «continue» =>
      cases hsent : c.continueSent with
      | true =>
        left
        refine ⟨⟨hp, .inr ⟨haction, hsent⟩⟩, ?_⟩
        simp only [stepPartial, haction, hsent, if_true]
      | false =>
        right
        refine ⟨?_, (Response.new ⟨100⟩).serialize false, false, ?_, bytes_ne_nil _ _⟩
        · rintro ⟨_, hnone | ⟨_, htrue⟩⟩
          · rw [haction] at hnone
            cases hnone
          · rw [hsent] at htrue
            cases htrue
        · simp only [stepPartial, haction, hsent, Bool.false_eq_true, if_false]
    | unsupported =>
      right
      simp only [stepPartial, haction]
      refine ⟨?_, _, _, rfl, bytes_ne_nil _ _⟩
      rintro ⟨_, hnone | ⟨hcontinue, _⟩⟩
      · rw [haction] at hnone
        cases hnone
      · rw [haction] at hcontinue
        cases hcontinue
  · right
    refine ⟨?_, _, _, rfl, bytes_ne_nil _ _⟩
    intro hquiet
    rw [hquiet.1] at hp
    cases hp
  · right
    refine ⟨?_, _, _, rfl, bytes_ne_nil _ _⟩
    intro hquiet
    rw [hquiet.1] at hp
    cases hp

end Step

/-! ## The inner loop -/

/-- A poll found nothing to write. -/
def Silent (writes : List Entry) : Prop :=
  writes.filterMap (·.handled) = [] ∧ writes.flatMap (·.bytes) = []

section Advance

variable {σ : Type} {t : Target} {svc : Service σ} {now : Nat} {a b : Advance σ}

/-- One iteration: nothing to do, or one write of some bytes. -/
theorem advanceStep_cases {f : Flow (Advance σ) (Advance σ)}
    (h : advanceStep t svc now a = .ok f) :
    (a.state.conn.Quiet t ∧ f = .done a) ∨
      (¬ a.state.conn.Quiet t ∧ ∃ u e, (f = .again u ∨ f = .done u) ∧ e.bytes ≠ [] ∧
        u.writes = a.writes ++ [e] ∧ u.state.out = a.state.out ++ e.bytes) := by
  have hloop := h
  unfold advanceStep at h
  rcases Outcome.bind_eq_ok.mp h with ⟨r, hstep, h⟩
  rcases Connection.step_quiet hstep with ⟨hquiet, rfl⟩ | ⟨hloud, bytes, close, hwrite, hne⟩
  · left
    refine ⟨hquiet, ?_⟩
    rw [advanceStep_waits hstep] at hloop
    exact (Outcome.ok.inj hloop).symm
  · right
    refine ⟨hloud, ?_⟩
    rw [hwrite] at h
    cases close with
    | true =>
      cases h
      exact ⟨_, ⟨bytes, true, r.handled⟩, .inr rfl, hne, rfl, rfl⟩
    | false =>
      cases h
      exact ⟨_, ⟨bytes, false, r.handled⟩, .inl rfl, hne, rfl, rfl⟩

/-- The writes of a loop so far; the output grows by their bytes and nothing else. -/
structure Wrote (a u : Advance σ) (more : List Entry) : Prop where
  writes : u.writes = a.writes ++ more
  out : u.state.out = a.state.out ++ more.flatMap (·.bytes)

theorem Wrote.trans {u v : Advance σ} {more more' : List Entry} (h : Wrote a u more)
    (h' : Wrote u v more') : Wrote a v (more ++ more') := by
  constructor
  · rw [h'.writes, h.writes, List.append_assoc]
  · rw [h'.out, h.out, List.append_assoc, List.flatMap_append]

/-- Whatever iterations follow, they only add to the writes. -/
theorem exists_wrote {u : Advance σ}
    (hreach : Reaches (fun a => Flow.ofOutcome (advanceStep t svc now a)) a u)
    (hlast : advanceStep t svc now u = .ok (.done b)) : ∃ more, Wrote a b more := by
  have hreached : ∃ more, Wrote a u more := by
    refine hreach.invariant (I := fun u => ∃ more, Wrote a u more) ⟨[], by simp, by simp⟩ ?_
    rintro u v hagain ⟨more, hwrote⟩
    rw [Flow.ofOutcome_eq_again] at hagain
    rcases advanceStep_cases hagain with ⟨_, hdone⟩ | ⟨_, w, e, hw | hw, _, hwrites, hout⟩
    · cases hdone
    · cases hw
      exact ⟨_, hwrote.trans ⟨hwrites, by simpa using hout⟩⟩
    · cases hw
  rcases hreached with ⟨more, hwrote⟩
  rcases advanceStep_cases hlast with ⟨_, hdone⟩ | ⟨_, w, e, hw | hw, _, hwrites, hout⟩
  · cases hdone
    exact ⟨more, hwrote⟩
  · cases hw
  · cases hw
    exact ⟨_, hwrote.trans ⟨hwrites, by simpa using hout⟩⟩

/-- The loop of a quiet connection is over at once; any other one writes something. -/
theorem advance_cases (h : advance t svc now a = .ok b) :
    (a.state.conn.Quiet t ∧ b = a) ∨
      (¬ a.state.conn.Quiet t ∧ ∃ more, Wrote a b more ∧ more.flatMap (·.bytes) ≠ []) := by
  rcases exists_reaches_of_runLoop h with ⟨u, hreach, hlast⟩
  rcases Relation.ReflTransGen.cases_head hreach with rfl | ⟨v, hfirst, hrest⟩
  · rcases advanceStep_cases hlast with ⟨hquiet, hdone⟩ | ⟨hloud, w, e, hw | hw, hne, hwrites, hout⟩
    · cases hdone
      exact .inl ⟨hquiet, rfl⟩
    · cases hw
    · cases hw
      exact .inr ⟨hloud, [e], ⟨hwrites, by simpa using hout⟩, by simpa using hne⟩
  · -- the first write stays in front of all that follow
    have hagain : advanceStep t svc now a = .ok (.again v) := Flow.ofOutcome_eq_again.mp hfirst
    rcases exists_wrote hrest hlast with ⟨more, hwrote⟩
    rcases advanceStep_cases hagain with ⟨_, hdone⟩ | ⟨hloud, w, e, hw | hw, hne, hwrites, hout⟩
    · cases hdone
    · cases hw
      have hfirst' : Wrote a v [e] := ⟨hwrites, by simpa using hout⟩
      exact .inr ⟨hloud, _, hfirst'.trans hwrote, by simp [hne]⟩
    · cases hw

/-- What the loop still has to do: two writes at most for each buffered byte, and an
interim response to the request in flight. -/
def Advance.work (a : Advance σ) : Nat :=
  2 * a.state.conn.buf.length + if a.state.conn.continueSent then 0 else 1

/-- An iteration that goes on took a request off the buffer, or answered its `Expect`. -/
theorem advanceStep_again {u : Advance σ} (haddr : Addressable t a.state.conn.buf)
    (h : advanceStep t svc now a = .ok (.again u)) :
    Addressable t u.state.conn.buf ∧ u.work < a.work := by
  unfold advanceStep at h
  rcases Outcome.bind_eq_ok.mp h with ⟨r, hstep, h⟩
  rcases Connection.step_cases hstep with ⟨_, rfl⟩ | ⟨request, n, hp, rfl⟩ | ⟨e, _, rfl⟩
  · rcases Connection.stepPartial_cases a.state.conn a.service now with heq | ⟨hsent, heq⟩ | heq
    · rw [heq] at h
      cases h
    · rw [heq] at h
      cases h
      exact ⟨haddr, by simp [Advance.work, hsent]⟩
    · rw [heq] at h
      cases h
  · rcases parseWith_consumed_le haddr hp with ⟨hpos, hle⟩
    have hu : u.state.conn.buf = a.state.conn.buf.drop n ∧ u.state.conn.continueSent = false := by
      cases hkeep : request.keepAlive with
      | true =>
        simp only [Connection.stepComplete, hkeep] at h
        cases h
        exact ⟨rfl, rfl⟩
      | false =>
        simp only [Connection.stepComplete, hkeep] at h
        cases h
    rw [Advance.work, Advance.work, hu.1, hu.2, List.length_drop]
    refine ⟨haddr.drop n, ?_⟩
    simp only [Bool.false_eq_true, if_false]
    omega
  · cases h

theorem advanceStep_ne_diverge (haddr : Addressable t a.state.conn.buf) :
    advanceStep t svc now a ≠ .diverge := by
  have hparse : parseWith t a.state.conn.buf a.state.conn.maxBody ≠ .diverge :=
    parseWith_ne_diverge haddr
  unfold advanceStep Connection.step
  cases hp : parseWith t a.state.conn.buf a.state.conn.maxBody with
  | ok parsed =>
    cases parsed with
    | partialRequest =>
      rcases Connection.stepPartial_cases a.state.conn a.service now with heq | ⟨_, heq⟩ | heq <;>
        simp [heq]
    | complete request n =>
      cases hkeep : request.keepAlive <;> simp [Connection.stepComplete, hkeep]
  | err e => simp [Connection.stepError]
  | panic => simp
  | diverge => exact absurd hp hparse

/-- The fuel of the loop is enough: it ends in a result, or in a panic of the parser. -/
theorem advance_ne_diverge (haddr : Addressable t a.state.conn.buf) :
    advance t svc now a ≠ .diverge := by
  have hfuel : ∃ r, loop (fun a => Flow.ofOutcome (advanceStep t svc now a))
      (2 * a.state.conn.buf.length + 2) a = some r := by
    refine loop_terminates (fun u => Addressable t u.state.conn.buf) Advance.work ?_ _ _ haddr ?_
    · intro u v hagain hu
      exact advanceStep_again hu (Flow.ofOutcome_eq_again.mp hagain)
    · unfold Advance.work
      split <;> omega
  intro hdiv
  rcases (runLoop_eq_iff hfuel).mp hdiv with ⟨u, hreach, hlast⟩
  have hu : Addressable t u.state.conn.buf :=
    hreach.invariant (I := fun u => Addressable t u.state.conn.buf) haddr
      fun v w hagain hv => (advanceStep_again hv (Flow.ofOutcome_eq_again.mp hagain)).1
  have hne : advanceStep t svc now u ≠ .diverge := advanceStep_ne_diverge hu
  revert hlast hne
  cases advanceStep t svc now u with
  | ok f =>
    intro hlast _
    cases f <;> cases hlast
  | err e => cases e
  | panic =>
    intro hlast _
    cases hlast
  | diverge =>
    intro _ hne
    exact hne rfl

end Advance

/-! ## Polls -/

section Pump

variable {σ κ ε : Type} {io : Socket κ ε} {t : Target} {svc : Service σ} {listenPort now : Nat}
  {socket : κ} {state : ConnState} {s : σ} {p : Pumped σ κ ε}

theorem closeFlushed_conn (io : Socket κ ε) (state : ConnState) (socket : κ) :
    (closeFlushed io state socket).1.conn = state.conn ∧
      (closeFlushed io state socket).1.out = state.out := by
  unfold closeFlushed
  split <;> exact ⟨rfl, rfl⟩

/-- A flush changes neither the connection nor the record, and only sends. -/
theorem flush_cases {a : Advance σ} (h : flush io a socket = .ok p) :
    p.state.conn = a.state.conn ∧ p.service = a.service ∧ p.writes = a.writes ∧
      p.state.out <:+ a.state.out := by
  unfold flush at h
  split at h
  · cases hsend : io.sendSlice socket a.state.out with
    | mk result socket' =>
      rw [hsend] at h
      cases result with
      | error e =>
        cases h
        exact ⟨rfl, rfl, rfl, List.suffix_refl _⟩
      | ok sent =>
        simp only at h
        split at h
        · cases h
          rcases closeFlushed_conn io { a.state with out := a.state.out.drop sent } socket' with
            ⟨hconn, hout⟩
          refine ⟨hconn, rfl, rfl, ?_⟩
          show (closeFlushed io _ socket').1.out <:+ a.state.out
          rw [hout]
          exact List.drop_suffix _ _
        · cases h
  · cases h
    rcases closeFlushed_conn io a.state socket with ⟨hconn, hout⟩
    refine ⟨hconn, rfl, rfl, ?_⟩
    show (closeFlushed io a.state socket).1.out <:+ a.state.out
    rw [hout]

/-- What a poll of an open socket does: it fails to receive and changes nothing, or it
receives and advances. -/
theorem pumpConnection_open (hopen : io.isOpen socket = true)
    (h : pumpConnection io t svc listenPort now socket state s = .ok p) :
    (∃ e, (receive io socket).1 = .error e ∧ p.writes = [] ∧ p.state = state ∧ p.service = s ∧
      p.result = .error (.recv e)) ∨
      ∃ received a, (receive io socket).1 = .ok received ∧
        advance t svc now ⟨{ state with conn := state.conn.feed received }, s, []⟩ = .ok a ∧
        flush io a (receive io socket).2 = .ok p := by
  rw [pumpConnection, hopen] at h
  simp only [Bool.not_true, Bool.false_eq_true, if_false] at h
  rcases hreceive : receive io socket with ⟨result, socket'⟩
  rw [hreceive] at h
  cases result with
  | error e =>
    cases h
    exact .inl ⟨e, rfl, rfl, rfl, rfl, rfl⟩
  | ok received =>
    rcases Outcome.bind_eq_ok.mp h with ⟨a, hadvance, hflush⟩
    exact .inr ⟨received, a, rfl, hadvance, hflush⟩

end Pump

/-! ## Runs between two re-arms -/

/-- One poll: what it received, unless that failed, what its steps wrote, and the
connection it left. -/
structure Call where
  fed : Option Bytes
  writes : List Entry
  after : Connection

/-- Some step of the poll announced the close. -/
def Call.Closes (c : Call) : Prop := ∃ e ∈ c.writes, e.close = true

section Runs

variable {σ κ ε : Type}

/-- The interface moves the socket, and an open one is pumped. -/
inductive Called (io : Socket κ ε) (t : Target) (svc : Service σ) (listenPort : Nat) :
    Server σ κ → Call → Server σ κ → Prop
  | call {v : Server σ κ} {socket : κ} {p : Pumped σ κ ε} (now : Nat)
      (polled : io.poll v.socket socket) (isOpen : io.isOpen socket = true)
      (pumped : pumpConnection io t svc listenPort now socket v.state v.service = .ok p) :
      Called io t svc listenPort v ⟨(receive io socket).1.toOption, p.writes, p.state.conn⟩
        ⟨p.socket, p.state, p.service⟩

/-- Polls of one socket, none of which re-arms it. -/
inductive Calls (io : Socket κ ε) (t : Target) (svc : Service σ) (listenPort : Nat) :
    Server σ κ → List Call → Server σ κ → Prop
  | nil (v : Server σ κ) : Calls io t svc listenPort v [] v
  | cons {v v' w : Server σ κ} {c : Call} {calls : List Call}
      (first : Called io t svc listenPort v c v') (rest : Calls io t svc listenPort v' calls w) :
      Calls io t svc listenPort v (c :: calls) w

/-- After a poll that announced the close, no poll dispatches or writes. -/
def CloseFinal (calls : List Call) : Prop :=
  calls.Pairwise fun c later => c.Closes → Silent later.writes

/-- What a closing poll leaves in the buffer stays quiet under all that is received
after it. -/
def QuietAfterClose (t : Target) : List Call → Prop
  | [] => True
  | c :: calls =>
    (c.Closes → c.after.StaysQuiet t (calls.map (·.fed))) ∧ QuietAfterClose t calls

variable {io : Socket κ ε} {t : Target} {svc : Service σ} {listenPort : Nat}
  {v v' w : Server σ κ} {c : Call} {calls : List Call}

/-- A poll fails to receive, finds nothing to do, or writes. -/
theorem called_cases (h : Called io t svc listenPort v c v') :
    c.after = v'.state.conn ∧
      ((c.fed = none ∧ c.writes = [] ∧ v'.state.conn = v.state.conn) ∨
        ∃ received, c.fed = some received ∧
          (((v.state.conn.feed received).Quiet t ∧ c.writes = [] ∧
              v'.state.conn = v.state.conn.feed received) ∨
            (¬ (v.state.conn.feed received).Quiet t ∧ c.writes.flatMap (·.bytes) ≠ []))) := by
  rcases h with ⟨now, polled, isOpen, pumped⟩
  refine ⟨rfl, ?_⟩
  rcases pumpConnection_open isOpen pumped with
    ⟨e, hreceive, hwrites, hstate, _⟩ | ⟨received, a, hreceive, hadvance, hflush⟩
  · left
    rw [hreceive, hstate]
    exact ⟨rfl, hwrites, rfl⟩
  · right
    rcases flush_cases hflush with ⟨hconn, _, hwrites, _⟩
    refine ⟨received, by rw [hreceive]; rfl, ?_⟩
    rcases advance_cases hadvance with ⟨hquiet, rfl⟩ | ⟨hloud, more, hwrote, hne⟩
    · exact .inl ⟨hquiet, hwrites, hconn⟩
    · right
      refine ⟨hloud, ?_⟩
      have hmore : a.writes = more := hwrote.writes
      rw [hwrites, hmore]
      exact hne

theorem silent_nil : Silent [] := ⟨rfl, rfl⟩

/-- Polls are silent exactly when the connection they start from stays quiet under what
they receive. -/
theorem calls_silent_iff (h : Calls io t svc listenPort v calls w) :
    (∀ c ∈ calls, Silent c.writes) ↔ v.state.conn.StaysQuiet t (calls.map (·.fed)) := by
  induction h with
  | nil v => simp [Connection.StaysQuiet]
  | @cons v v' w c calls first rest ih =>
    rw [List.forall_mem_cons, ih, List.map_cons]
    rcases called_cases first with ⟨_, ⟨hfed, hwrites, hconn⟩ | ⟨received, hfed, hcase⟩⟩
    · rw [hfed, hwrites, hconn]
      exact and_iff_right silent_nil
    · rw [hfed, Connection.StaysQuiet]
      rcases hcase with ⟨hquiet, hwrites, hconn⟩ | ⟨hloud, hne⟩
      · rw [hwrites, hconn]
        exact and_congr_left fun _ => iff_of_true silent_nil hquiet
      · constructor
        · rintro ⟨hsilent, _⟩
          exact absurd hsilent.2 hne
        · rintro ⟨hquiet, _⟩
          exact absurd hquiet hloud

/-- From any state, a run's close is final exactly when what it leaves stays quiet. -/
theorem closeFinal_iff_of_calls (h : Calls io t svc listenPort v calls w) :
    CloseFinal calls ↔ QuietAfterClose t calls := by
  induction h with
  | nil v => simp [CloseFinal, QuietAfterClose]
  | @cons v v' w c calls first rest ih =>
    rw [CloseFinal, List.pairwise_cons, QuietAfterClose]
    refine and_congr ?_ ih
    rw [(called_cases first).1, ← calls_silent_iff rest]
    constructor
    · intro hall hcloses later hlater
      exact hall later hlater hcloses
    · intro hall later hlater hcloses
      exact hall hcloses later hlater

/-- The close of a socket is final in exactly the runs whose closing step leaves a
buffer that, extended by everything received later, is at each later poll an incomplete
request with no `Expect` to answer. -/
theorem pump_close_final_iff {socket₀ : κ} {st₀ : ConnState} {s₀ : σ}
    (run : Calls io t svc listenPort ⟨socket₀, st₀.reset, s₀⟩ calls w) :
    CloseFinal calls ↔ QuietAfterClose t calls :=
  closeFinal_iff_of_calls run

/-! A stack with one socket, whose send window is never full. -/

inductive TcpPhase where
  | established
  | closing
  | closed
deriving DecidableEq, Repr

structure ToySocket where
  rx : Bytes
  phase : TcpPhase
deriving DecidableEq, Repr

def toyStack : Socket ToySocket Empty where
  isOpen s := s.phase != .closed
  canRecv s := !s.rx.isEmpty
  canSend s := s.phase == .established
  listen s _ := (.ok (), { s with phase := .established })
  recv s := (.ok s.rx, { s with rx := [] })
  sendSlice s bytes := (.ok bytes.length, s)
  close s := { s with phase := .closing }
  poll s s' := s' = s ∨ (s.phase = .closing ∧ s' = { s with phase := .closed })

/-- A closed socket stays open until the TCP close completes, and sends no more. -/
structure Lingers (io : Socket κ ε) (closing : κ → Prop) : Prop where
  close : ∀ s, closing (io.close s)
  recv : ∀ s, closing s → closing (io.recv s).2
  poll : ∀ s s', closing s → io.poll s s' → closing s' ∨ io.isOpen s' = false
  isOpen : ∀ s, closing s → io.isOpen s = true
  canSend : ∀ s, closing s → io.canSend s = false

theorem toyStack_lingers : Lingers toyStack fun s => s.phase = .closing := by
  constructor
  · intro s
    rfl
  · intro s h
    exact h
  · rintro s s' h (rfl | ⟨_, rfl⟩)
    · exact .inl h
    · exact .inr rfl
  · intro s h
    show (s.phase != .closed) = true
    rw [h]
    rfl
  · intro s h
    show (s.phase == .established) = false
    rw [h]
    rfl

/-- The loop stops behind a request that closes the connection. -/
theorem advance_closing (svc : Service σ) (now : Nat) (a : Advance σ) {request : Request}
    {n : Nat} (hp : parseWith t a.state.conn.buf a.state.conn.maxBody = .ok (.complete request n))
    (hkeep : request.keepAlive = false) :
    ∃ b e h, advance t svc now a = .ok b ∧ b.writes = a.writes ++ [e] ∧ e.close = true ∧
      e.handled = some h ∧ h.request = request ∧
      b.state.conn = { a.state.conn with buf := a.state.conn.buf.drop n, continueSent := false } := by
  have hstep : ∃ b e h, advanceStep t svc now a = .ok (.done b) ∧ b.writes = a.writes ++ [e] ∧
      e.close = true ∧ e.handled = some h ∧ h.request = request ∧
      b.state.conn =
        { a.state.conn with buf := a.state.conn.buf.drop n, continueSent := false } := by
    rw [advanceStep, Connection.step_complete hp, Outcome.ok_bind]
    simp only [Connection.stepComplete, hkeep, Bool.not_false, if_true]
    exact ⟨_, _, _, rfl, rfl, rfl, rfl, rfl, rfl⟩
  rcases hstep with ⟨b, e, h, hdone, hb⟩
  refine ⟨b, e, h, ?_, hb⟩
  rw [advance, runLoop, loop, hdone]
  rfl

/-- The toy stack takes whatever is flushed. -/
theorem toyStack_flush (a : Advance σ) (s : ToySocket) (h : s.phase ≠ .closed) :
    ∃ p, flush toyStack a s = .ok p ∧ p.socket.phase ≠ .closed ∧ p.socket.rx = s.rx := by
  have hclose : ∀ state, (closeFlushed toyStack state s).2.phase ≠ .closed ∧
      (closeFlushed toyStack state s).2.rx = s.rx := by
    intro state
    unfold closeFlushed
    split
    · exact ⟨by simp [toyStack], rfl⟩
    · exact ⟨h, rfl⟩
  unfold flush
  split
  · simp only [toyStack, Nat.le_refl, if_true]
    exact ⟨_, rfl, hclose _⟩
  · exact ⟨_, rfl, hclose _⟩

/-- One poll of an open toy socket whose buffer then holds a closing request. -/
theorem toyStack_called (svc : Service σ) (listenPort : Nat) {v : Server σ ToySocket}
    {request : Request} {n : Nat} (hopen : v.socket.phase ≠ .closed)
    (hp : parseWith t (v.state.conn.buf ++ v.socket.rx) v.state.conn.maxBody =
      .ok (.complete request n)) (hkeep : request.keepAlive = false) :
    ∃ c v', Called toyStack t svc listenPort v c v' ∧ c.Closes ∧
      (∃ h, c.writes.filterMap (·.handled) = [h] ∧ h.request = request) ∧
      v'.socket.phase ≠ .closed ∧ v'.socket.rx = [] ∧
      v'.state.conn = { v.state.conn with
        buf := (v.state.conn.buf ++ v.socket.rx).drop n, continueSent := false } := by
  have hreceive : ∃ socket', receive toyStack v.socket = (.ok v.socket.rx, socket') ∧
      socket'.phase ≠ .closed ∧ socket'.rx = [] := by
    by_cases hrx : v.socket.rx = []
    · refine ⟨v.socket, ?_, hopen, hrx⟩
      simp [receive, toyStack, hrx]
    · refine ⟨{ v.socket with rx := [] }, ?_, hopen, rfl⟩
      simp [receive, toyStack, hrx]
  rcases hreceive with ⟨socket', hreceive, hopen', hrx⟩
  rcases advance_closing svc 0
    ⟨{ v.state with conn := v.state.conn.feed v.socket.rx }, v.service, []⟩ hp hkeep with
    ⟨b, e, h, hadvance, hwrites, hclose, hhandled, hrequest, hconn⟩
  rcases toyStack_flush b socket' hopen' with ⟨p, hflush, hphase, hprx⟩
  have hpump : pumpConnection toyStack t svc listenPort 0 v.socket v.state v.service = .ok p := by
    have hisOpen : toyStack.isOpen v.socket = true := by simpa [toyStack] using hopen
    rw [pumpConnection, hisOpen, hreceive]
    simp only [Bool.not_true, Bool.false_eq_true, if_false, hadvance, Outcome.ok_bind]
    exact hflush
  rcases flush_cases hflush with ⟨hpconn, _, hpwrites, _⟩
  have hp' : p.writes = [e] := by rw [hpwrites, hwrites, List.nil_append]
  refine ⟨_, _, .call 0 (.inl rfl) (by simpa [toyStack] using hopen) hpump, ?_, ?_, hphase, ?_, ?_⟩
  · exact ⟨e, by simp [hp'], hclose⟩
  · exact ⟨h, by simp [hp', hhandled], hrequest⟩
  · rw [← hrx]
    exact hprx
  · exact hpconn.trans hconn

/-- Two requests in one segment; the first closes the connection. -/
def pipelinedPair : Bytes :=
  utf8 "GET / HTTP/1.1\r\nHost: h\r\nConnection: close\r\n\r\nGET / HTTP/1.1\r\nHost: h\r\nConnection: close\r\n\r\n"


set_option maxRecDepth 10000 in
/-- The second request is dispatched by the poll after the close. -/
theorem pipelinedPair_run : ∃ c later w,
    Calls toyStack ⟨.w64, false⟩ okService 80
      ⟨⟨pipelinedPair, .established⟩, (ConnState.withClock false).reset, ()⟩ [c, later] w ∧
      c.Closes ∧ ∃ h, later.writes.filterMap (·.handled) = [h] := by
  have hfirst : parseWith ⟨.w64, false⟩ pipelinedPair maxBodyBytes =
      .ok (.complete closingGet 46) := by decide
  have hsecond : parseWith ⟨.w64, false⟩ (pipelinedPair.drop 46) maxBodyBytes =
      .ok (.complete closingGet 46) := by decide
  have hkeep : closingGet.keepAlive = false := by decide
  rcases toyStack_called okService 80
    (v := ⟨⟨pipelinedPair, .established⟩, (ConnState.withClock false).reset, ()⟩) (by decide)
    hfirst hkeep with ⟨c, v, hcall, hcloses, _, hopen, hrx, hconn⟩
  have hsecond' : parseWith ⟨.w64, false⟩ (v.state.conn.buf ++ v.socket.rx) v.state.conn.maxBody =
      .ok (.complete closingGet 46) := by
    rw [hrx, hconn, List.append_nil]
    exact hsecond
  rcases toyStack_called okService 80 hopen hsecond' hkeep with
    ⟨later, w, hcall', _, ⟨h, hlater, _⟩, _⟩
  exact ⟨c, later, w, .cons hcall (.cons hcall' (.nil w)), hcloses, h, hlater⟩

/-- So the close of that socket is not final. -/
theorem pipelinedPair_not_final : Lingers toyStack (fun s => s.phase = .closing) ∧
    ∃ calls w, Calls toyStack ⟨.w64, false⟩ okService 80
      ⟨⟨pipelinedPair, .established⟩, (ConnState.withClock false).reset, ()⟩ calls w ∧
      ¬ CloseFinal calls := by
  refine ⟨toyStack_lingers, ?_⟩
  rcases pipelinedPair_run with ⟨c, later, w, run, hcloses, h, hlater⟩
  refine ⟨_, w, run, ?_⟩
  intro hfinal
  rcases (List.pairwise_cons.mp hfinal).1 later List.mem_cons_self hcloses with ⟨hnone, _⟩
  rw [hlater] at hnone
  cases hnone

theorem pipelinedPair_final_iff : ∃ c later w,
    Calls toyStack ⟨.w64, false⟩ okService 80
      ⟨⟨pipelinedPair, .established⟩, (ConnState.withClock false).reset, ()⟩ [c, later] w ∧
      (CloseFinal [c, later] ↔ QuietAfterClose ⟨.w64, false⟩ [c, later]) := by
  rcases pipelinedPair_run with ⟨c, later, w, run, _⟩
  exact ⟨c, later, w, run, pump_close_final_iff run⟩

end Runs

end FerroHttp
