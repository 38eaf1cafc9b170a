import FerroHttp.Conn.Interim
import FerroHttp.Embedded.Close
import FerroHttp.Parser.Safety

/-!
# Conn.Progress — the drive loop ends

Both transports step a connection until it waits or announces the close. As long as no
size overflows (`StreamFits`), a step that goes on has dispatched a request, which
takes bytes off the buffer, or has sent the one interim response, behind which the
connection waits.

1. `step_progress`: everything a step can do, as far as the loop is concerned;
2. `repeatStep_ends`: two more steps than bytes are enough, by induction on the steps;
3. `advance_returns`: the loop of the transports comes to a result;
4. `drive_loop_ends`: all of it, for a connection in any state.
-/

namespace FerroHttp

open Exec Text

/-! ## Repeated steps -/

/-- The step ends the loop of its driver. -/
def Step.ends : Step → Bool
  | .needMore => true
  | .write _ close => close

/-- Step a connection again and again without feeding it, once for each reading of the
clock, until a step ends the loop. -/
def Connection.repeatStep {σ : Type} (t : Target) (svc : Service σ) :
    List Nat → Connection → σ → Outcome Empty (List Step)
  | [], _, _ => pure []
  | now :: later, c, s => do
    let r ← c.step t svc s now
    if r.step.ends then pure [r.step]
    else do
      let steps ← repeatStep t svc later r.conn r.service
      pure (r.step :: steps)

/-- No size overflows, wherever in the buffer a request starts. -/
structure StreamFits (t : Target) (c : Connection) : Prop where
  addressable : Addressable t c.buf
  sizes : ∀ n, SizesFit t.width (c.buf.drop n) c.maxBody

/-- A step that dispatched. -/
structure Dispatches {σ : Type} (c : Connection) (r : StepResult σ) : Prop where
  handled : r.handled.isSome = true
  shorter : r.conn.buf.length < c.buf.length

section Progress

variable {σ : Type} {t : Target} {c : Connection} {svc : Service σ} {s : σ} {now : Nat}
  {r : StepResult σ}

/-- Dropping bytes off the front keeps the sizes in range. -/
theorem StreamFits.drop (h : StreamFits t c) (n : Nat) {conn : Connection}
    (hbuf : conn.buf = c.buf.drop n) (hlimit : conn.maxBody = c.maxBody) : StreamFits t conn := by
  constructor
  · rw [hbuf]
    exact h.addressable.drop n
  · intro m
    rw [hbuf, hlimit, List.drop_drop]
    exact h.sizes (n + m)

theorem StreamFits.same (h : StreamFits t c) {conn : Connection} (hbuf : conn.buf = c.buf)
    (hlimit : conn.maxBody = c.maxBody) : StreamFits t conn :=
  h.drop 0 (by rw [hbuf, List.drop_zero]) hlimit

/-- Where the sizes fit, the step returns. -/
theorem exists_step (h : StreamFits t c) (svc : Service σ) (s : σ) (now : Nat) :
    ∃ r, c.step t svc s now = .ok r := by
  have hsizes := h.sizes 0
  rw [List.drop_zero] at hsizes
  have hreturns := parseWith_returns h.addressable hsizes
  unfold Connection.step
  revert hreturns
  cases parseWith t c.buf c.maxBody with
  | ok p =>
    intro _
    cases p with
    | partialRequest => exact ⟨_, rfl⟩
    | complete request consumed => exact ⟨_, rfl⟩
  | err e => exact fun _ => ⟨_, rfl⟩
  | panic => exact False.elim
  | diverge => exact False.elim

/-- A step ends the loop, or dispatches, or sends the interim response. -/
theorem step_progress (h : StreamFits t c) (hstep : c.step t svc s now = .ok r) :
    StreamFits t r.conn ∧ (r.handled.isSome = true → Dispatches c r) ∧
      (r.step.ends = true ∨ Dispatches c r ∨ SendsInterim t c r) := by
  rcases Connection.step_cases hstep with ⟨hp, rfl⟩ | ⟨request, n, hp, rfl⟩ | ⟨e, _, rfl⟩
  · unfold Connection.stepPartial
    cases hexpect : expectAction c.buf with
    | none => exact ⟨h, fun hno => absurd hno (by simp), .inl rfl⟩
    | unsupported => exact ⟨h, fun hno => absurd hno (by simp), .inl rfl⟩
    | «continue» =>
      cases hsent : c.continueSent with
      | true => exact ⟨h, fun hno => absurd hno (by simp), .inl rfl⟩
      | false =>
        exact ⟨h.same rfl rfl, fun hno => absurd hno (by simp),
          .inr (.inr ⟨hp, hexpect, hsent, rfl, rfl, rfl⟩)⟩
  · -- at least one byte was consumed
    rcases parseWith_consumed_le h.addressable hp with ⟨hpos, hle⟩
    have hdispatch : Dispatches c (c.stepComplete svc s now request n) := by
      refine ⟨rfl, ?_⟩
      show (c.buf.drop n).length < c.buf.length
      rw [List.length_drop]
      omega
    exact ⟨h.drop n rfl rfl, fun _ => hdispatch, .inr (.inl hdispatch)⟩
  · exact ⟨h, fun hno => absurd hno (by simp [Connection.stepError]), .inl rfl⟩

/-- Behind an interim response the connection waits. -/
theorem SendsInterim.waits (h : SendsInterim t c r) (svc : Service σ) (s : σ) (now : Nat) :
    r.conn.step t svc s now = .ok ⟨r.conn, s, .needMore, none⟩ := by
  rw [h.conn, Connection.step]
  simp only [h.parse, Connection.stepPartial, h.expects, if_true]

theorem repeatStep_cons_ends {later : List Nat} (hstep : c.step t svc s now = .ok r)
    (hends : r.step.ends = true) :
    c.repeatStep t svc (now :: later) s = .ok [r.step] := by
  rw [Connection.repeatStep, hstep, Outcome.ok_bind, if_pos hends]
  rfl

theorem repeatStep_cons {later : List Nat} {steps : List Step}
    (hstep : c.step t svc s now = .ok r) (hends : r.step.ends = false)
    (hrest : r.conn.repeatStep t svc later r.service = .ok steps) :
    c.repeatStep t svc (now :: later) s = .ok (r.step :: steps) := by
  rw [Connection.repeatStep, hstep, Outcome.ok_bind, hends, hrest]
  rfl

/-- Two more steps than there are bytes in the buffer are enough for the loop to end. -/
theorem repeatStep_ends (svc : Service σ) (times : List Nat) :
    ∀ (c : Connection) (s : σ), StreamFits t c → c.buf.length + 2 ≤ times.length →
      ∃ steps last, c.repeatStep t svc times s = .ok steps ∧ steps.length ≤ c.buf.length + 2 ∧
        steps.getLast? = some last ∧ last.ends = true := by
  induction times with
  | nil =>
    intro c s _ hlen
    simp only [List.length_nil] at hlen
    omega
  | cons now later ih =>
    intro c s hfits hlen
    rw [List.length_cons] at hlen
    rcases exists_step hfits svc s now with ⟨r, hstep⟩
    cases hends : r.step.ends with
    | true => exact ⟨[r.step], r.step, repeatStep_cons_ends hstep hends, by simp, rfl, hends⟩
    | false =>
      rcases step_progress hfits hstep with ⟨hfits', _, hcase⟩
      rw [hends] at hcase
      rcases hcase.resolve_left Bool.false_ne_true with hdispatch | hinterim
      · -- the rest of the buffer is shorter
        have hshorter := hdispatch.shorter
        rcases ih r.conn r.service hfits' (by omega) with ⟨steps, last, hsteps, hle, hlast, hdone⟩
        refine ⟨r.step :: steps, last, repeatStep_cons hstep hends hsteps, ?_, ?_, hdone⟩
        · rw [List.length_cons]
          omega
        · rw [List.getLast?_cons, hlast, Option.getD_some]
      · -- the next step waits
        cases later with
        | nil =>
          rw [List.length_nil] at hlen
          omega
        | cons now' later =>
          have hwait := hinterim.waits svc r.service now'
          exact ⟨[r.step, .needMore], .needMore,
            repeatStep_cons hstep hends (repeatStep_cons_ends hwait rfl), by simp, rfl, rfl⟩

/-- An iteration of the transports' loop returns, and goes on with less to do. -/
theorem advanceStep_sat {a : Advance σ} (h : StreamFits t a.state.conn) :
    (advanceStep t svc now a).Sat
      (Flow.Sat (fun u => StreamFits t u.state.conn ∧ u.work < a.work) fun _ => True) := by
  cases hstep : advanceStep t svc now a with
  | ok flow =>
    cases flow with
    | again u =>
      refine ⟨?_, (advanceStep_again h.addressable hstep).2⟩
      unfold advanceStep at hstep
      rcases Outcome.bind_eq_ok.mp hstep with ⟨r, hr, hrest⟩
      have hfits := (step_progress h hr).1
      cases hverdict : r.step with
      | needMore =>
        rw [hverdict] at hrest
        cases hrest
      | write bytes close =>
        rw [hverdict] at hrest
        cases close with
        | true => cases hrest
        | false =>
          cases hrest
          exact hfits
    | done u => trivial
  | err e => trivial
  | panic =>
    -- the step itself would have panicked
    unfold advanceStep at hstep
    rcases exists_step h svc a.service now with ⟨r, hr⟩
    rw [hr, Outcome.ok_bind] at hstep
    split at hstep
    · cases hstep
    · split at hstep <;> cases hstep
  | diverge => exact absurd hstep (advanceStep_ne_diverge h.addressable)

/-- The loop of the transports comes to a result. -/
theorem advance_returns (h : StreamFits t c) (svc : Service σ) (s : σ) (now : Nat) (out : Bytes)
    (close clock : Bool) (writes : List Entry) :
    (advance t svc now ⟨⟨c, out, close, clock⟩, s, writes⟩).Returns := by
  have hsat : (advance t svc now ⟨⟨c, out, close, clock⟩, s, writes⟩).Sat fun _ => True := by
    refine runLoop_sat (fun a => StreamFits t a.state.conn) Advance.work
      (fun _ ha => advanceStep_sat ha) h ?_
    unfold Advance.work
    split <;> omega
  exact hsat.returns

/-- The drive loop ends: without feeding, at most two more steps than there are bytes in
the buffer lead to one that waits or closes. Every dispatch takes bytes off the buffer,
and behind an interim response the connection waits. -/
theorem drive_loop_ends (h : StreamFits t c) (svc : Service σ) (s : σ) :
    (∀ times : List Nat, c.buf.length + 2 ≤ times.length →
      ∃ steps last, c.repeatStep t svc times s = .ok steps ∧ steps.length ≤ c.buf.length + 2 ∧
        steps.getLast? = some last ∧ last.ends = true) ∧
    (∀ now r, c.step t svc s now = .ok r →
      (r.handled.isSome = true → r.conn.buf.length < c.buf.length) ∧
      (r.handled = none → r.step.ends = false → ∀ now',
        r.conn.step t svc r.service now' = .ok ⟨r.conn, r.service, .needMore, none⟩)) ∧
    ∀ now, (advance t svc now ⟨⟨c, [], false, true⟩, s, []⟩).Returns := by
  refine ⟨fun times hlen => repeatStep_ends svc times c s h hlen, ?_, ?_⟩
  · intro now r hstep
    rcases step_progress h hstep with ⟨_, hdispatch, hcase⟩
    refine ⟨fun hhandled => (hdispatch hhandled).shorter, ?_⟩
    intro hnone hends now'
    rw [hends] at hcase
    rcases hcase.resolve_left Bool.false_ne_true with hsome | hinterim
    · have hhandled := hsome.handled
      rw [hnone] at hhandled
      cases hhandled
    · exact hinterim.waits svc r.service now'
  · intro now
    exact advance_returns h svc s now [] false true []

/-- A connection with a whole request in the buffer. -/
def loadedConn : Connection := Connection.new.feed (utf8 "GET / HTTP/1.0\r\n\r\n")

theorem loadedConn_fits : StreamFits ⟨.w64, false⟩ loadedConn := by
  have haddr : Addressable ⟨.w64, false⟩ loadedConn.buf := by decide
  refine ⟨haddr, ?_⟩
  intro n
  apply (parseWith_returns_iff (haddr.drop n)).mp
  by_cases hn : n < 18
  · revert n
    decide
  · have hnil : loadedConn.buf.drop n = [] := by
      apply List.drop_eq_nil_of_le
      have hlen : loadedConn.buf.length = 18 := by decide
      omega
    rw [hnil]
    decide

theorem loadedConn_ends : ∃ steps last,
    loadedConn.repeatStep ⟨.w64, false⟩ okService (List.replicate 20 0) () = .ok steps ∧
      steps.length ≤ 20 ∧ steps.getLast? = some last ∧ last.ends = true :=
  (drive_loop_ends loadedConn_fits okService ()).1 (List.replicate 20 0) (by decide)

end Progress

end FerroHttp
