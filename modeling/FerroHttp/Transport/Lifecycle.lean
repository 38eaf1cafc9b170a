import FerroHttp.Transport.EventLoop
import Mathlib.Algebra.Order.BigOperators.Group.Finset

/-!
# Transport.Lifecycle — how long connections are in the table

1. `serve_bounded`: the tables of all reactors together respect the configured limit;
2. `Fresh`: no socket gets the token of a connection that is in the table;
3. `idle_exact`: a connection is dropped by the first sweep that finds it idle for longer
   than the timeout, and events of other connections make no difference to it;
4. `drain_spec`: after a shutdown signal nothing is accepted, and the loop ends when the
   table is empty or the grace period is over.
-/

namespace FerroHttp

open Exec Text Table

namespace EventLoop

variable {σ γ ω : Type} {t : Target} {d : Driver σ γ ω} {options : Options}
  {v w : EventLoop σ γ} {k n token : Nat} {ticks : List (Tick σ ω)}

/-! ## The limit -/

def Bounded (options : Options) (v : EventLoop σ γ) : Prop :=
  v.conns.keys.length ≤ options.maxConnections

theorem Bounded.move (h : Bounded options v) (hmove : Move t d options v k w) :
    Bounded options w := by
  unfold Bounded at h ⊢
  cases hmove with
  | discard added => exact h
  | accept room added made => exact (length_insert_le _ _ _).trans room
  | @ready token _ _ tracked r there served =>
    dsimp only
    split
    · exact (length_erase_le _ _).trans h
    · have hmem : token ∈ v.conns := AList.lookup_isSome.mp (by rw [there]; rfl)
      rw [length_insert_of_mem hmem]
      exact h
  | sweep now => exact (length_sweep_le _ _).trans h
  | others s => exact h
  | turn phase => exact h

/-- A reactor never has more connections than its limit. -/
theorem bounded_of_run {s : σ} (h : run t d options (start s) ticks = .ok w) :
    Bounded options w := by
  rcases moves_of_run h with ⟨n, _, hmoves⟩
  exact hmoves.invariant Bounded.move (Nat.zero_le _)

end EventLoop

/-- The number of reactors: as configured, or one for each processor. -/
def workerCount (unix : Bool) (parallelism : Option Nat) (configured : Nat) : Nat :=
  if !unix then 1 else if 0 < configured then configured else parallelism.getD 1

/-- The limit of connections is shared out among the reactors. -/
def Options.perWorker (options : Options) (workers : Nat) : Options :=
  { options with maxConnections := max (options.maxConnections / workers) 1 }

theorem workerCount_pos {unix : Bool} {parallelism : Option Nat} {configured : Nat}
    (h : parallelism ≠ some 0) : 0 < workerCount unix parallelism configured := by
  unfold workerCount
  split
  · exact Nat.one_pos
  · split
    · assumption
    · cases parallelism with
      | none => exact Nat.one_pos
      | some n => exact Nat.pos_of_ne_zero fun hn => h (congrArg some hn)

/-- The shares add up to the limit, short of one connection for each reactor but the first,
and exceed it only where every reactor is given the one it needs. -/
theorem perWorker_total (options : Options) {workers : Nat} (h : 0 < workers) :
    workers * (options.perWorker workers).maxConnections ≤ max options.maxConnections workers ∧
      options.maxConnections < workers * (options.perWorker workers).maxConnections + workers := by
  have hdiv := Nat.div_add_mod options.maxConnections workers
  have hmod := Nat.mod_lt options.maxConnections h
  unfold Options.perWorker
  dsimp only
  rcases Nat.eq_zero_or_pos (options.maxConnections / workers) with hzero | hpos
  · rw [hzero] at hdiv ⊢
    simp only [Nat.zero_le, sup_of_le_right, Nat.mul_one]
    omega
  · rw [max_eq_left hpos]
    omega

namespace EventLoop

variable {σ γ ω : Type} {t : Target} {d : Driver σ γ ω} {options : Options}
  {v w : EventLoop σ γ} {k n token : Nat} {ticks : List (Tick σ ω)}

/-- Whatever each of the reactors went through, their tables together have no more
connections than configured, or one for each of them if that is more. -/
theorem serve_bounded (unix : Bool) (parallelism : Option Nat) (hparallelism : parallelism ≠ some 0)
    (v : Fin (workerCount unix parallelism options.workerThreads) → EventLoop σ γ)
    (hreach : ∀ i, ∃ s ticks, run t d
      (options.perWorker (workerCount unix parallelism options.workerThreads)) (start s) ticks =
        .ok (v i)) :
    ∑ i, (v i).conns.keys.length ≤
      max options.maxConnections (workerCount unix parallelism options.workerThreads) := by
  have hshare : ∀ i, (v i).conns.keys.length ≤
      (options.perWorker (workerCount unix parallelism options.workerThreads)).maxConnections := by
    intro i
    rcases hreach i with ⟨s, ticks, hrun⟩
    exact bounded_of_run hrun
  -- as many shares as there are reactors
  have hsum := Finset.sum_le_card_nsmul Finset.univ _ _ fun i _ => hshare i
  rw [Finset.card_univ, Fintype.card_fin, smul_eq_mul] at hsum
  exact hsum.trans (perWorker_total options (workerCount_pos hparallelism)).1

/-- A reactor with room for two connections and a timeout of 15 seconds. -/
def twoOptions : Options := ⟨15, 2, false, 16, 2⟩

def localhost : IpAddr := .v4 [127, 0, 0, 1] rfl

/-- The listener has one socket. -/
def acceptTick : Tick Unit Event :=
  ⟨false, 0, some [⟨listener, 0, [.ok localhost true 0, .wouldBlock],
    ⟨false, [], [], 0⟩, none⟩], 0⟩

/-- The reactor after it. -/
def oneConnLoop : EventLoop Unit (Live Unit) :=
  ⟨(∅ : FinTable Nat (Tracked (Live Unit))).insert 1
    ⟨.accept (Connection.create ⟨false, true⟩ 16 (List.replicate 10 0 ++ [0xff, 0xff, 127, 0, 0, 1])), 0⟩,
    2, (), .serving⟩

theorem run_acceptTick : run ⟨.w64, false⟩ (plainDriver ⟨.w64, false⟩ okService twoOptions)
    twoOptions (start ()) [acceptTick] = .ok oneConnLoop := rfl

/-- Two reactors with one connection each. -/
theorem serve_bounded_two : ∑ _i : Fin 2, oneConnLoop.conns.keys.length ≤ max 2 2 :=
  @serve_bounded Unit (Live Unit) Event ⟨.w64, false⟩
    (plainDriver ⟨.w64, false⟩ okService twoOptions) twoOptions true (some 8) (by simp)
    (fun _ => oneConnLoop) fun _ => ⟨(), [acceptTick], rfl⟩

/-! ## Tokens -/

/-- The tokens in the table are not the listener's, and lie below the next one. -/
structure Fresh (v : EventLoop σ γ) : Prop where
  positive : listener < v.nextToken
  below : ∀ token ∈ v.conns.keys, listener < token ∧ token < v.nextToken

theorem fresh_start (s : σ) : Fresh (start s : EventLoop σ γ) := by
  refine ⟨Nat.one_pos, ?_⟩
  intro token htoken
  cases htoken

/-- Where the counter does not wrap around, a move leaves the tokens fresh. -/
theorem Fresh.move (h : Fresh v) (hroom : v.nextToken + k < t.modulus)
    (hmove : Move t d options v k w) : Fresh w ∧ w.nextToken = v.nextToken + k := by
  cases hmove with
  | discard added =>
    rw [Target.add_of_lt hroom] at added
    cases added
    refine ⟨⟨Nat.succ_pos _, ?_⟩, rfl⟩
    intro token htoken
    have hbelow := h.below token htoken
    exact ⟨hbelow.1, Nat.lt_succ_of_lt hbelow.2⟩
  | accept room added made =>
    rw [Target.add_of_lt hroom] at added
    cases added
    refine ⟨⟨Nat.succ_pos _, ?_⟩, rfl⟩
    intro token htoken
    rcases (AList.mem_insert v.conns).mp htoken with rfl | htoken
    · exact ⟨h.positive, Nat.lt_succ_self _⟩
    · have hbelow := h.below token htoken
      exact ⟨hbelow.1, Nat.lt_succ_of_lt hbelow.2⟩
  | @ready token _ _ tracked r there served =>
    have hmem : token ∈ v.conns := AList.lookup_isSome.mp (by rw [there]; rfl)
    refine ⟨⟨h.positive, ?_⟩, rfl⟩
    intro token' htoken'
    dsimp only at htoken'
    split at htoken'
    · exact h.below token' (AList.mem_erase.mp htoken').2
    · rcases (AList.mem_insert v.conns).mp htoken' with rfl | htoken'
      · exact h.below token' hmem
      · exact h.below token' htoken'
  | sweep now =>
    refine ⟨⟨h.positive, ?_⟩, rfl⟩
    intro token htoken
    rcases mem_keys_iff.mp htoken with ⟨tracked, htracked⟩
    rw [sweepIdle, lookup_sweep, Option.filter_eq_some_iff] at htracked
    exact h.below token (mem_keys_iff.mpr ⟨tracked, htracked.1⟩)
  | others s => exact ⟨⟨h.positive, h.below⟩, rfl⟩
  | turn phase => exact ⟨⟨h.positive, h.below⟩, rfl⟩

theorem Fresh.moves (h : Fresh v) (hroom : v.nextToken + n < t.modulus)
    (hmoves : Moves t d options v n w) : Fresh w ∧ w.nextToken = v.nextToken + n := by
  induction hmoves with
  | refl => exact ⟨h, rfl⟩
  | @tail v' w' n k _ move ih =>
    rcases ih (by omega) with ⟨hfresh, hnext⟩
    rcases hfresh.move (by omega) move with ⟨hfresh', hnext'⟩
    exact ⟨hfresh', by omega⟩

/-- A run that is not offered a wrap-around of sockets keeps its tokens fresh. -/
theorem fresh_of_run {s : σ} (hroom : admittedOver ticks + 1 < t.modulus)
    (h : run t d options (start s) ticks = .ok w) :
    Fresh w ∧ w.nextToken ≤ admittedOver ticks + 1 := by
  rcases moves_of_run h with ⟨n, hn, hmoves⟩
  have hstart : (start s : EventLoop σ γ).nextToken = 1 := rfl
  rcases (fresh_start s).moves (by omega) hmoves with ⟨hfresh, hnext⟩
  exact ⟨hfresh, by omega⟩

/-! ## Idle connections -/

/-- What is left alone: the entry of a token, and the phase; the counter moves by at most
`n`. -/
structure Untouched (token n : Nat) (v w : EventLoop σ γ) : Prop where
  lookup : w.conns.lookup token = v.conns.lookup token
  phase : w.phase = v.phase
  next_ge : v.nextToken ≤ w.nextToken
  next_le : w.nextToken ≤ v.nextToken + n

theorem Untouched.refl (v : EventLoop σ γ) : Untouched token n v v :=
  ⟨rfl, rfl, Nat.le_refl _, Nat.le_add_right _ _⟩

theorem Untouched.trans {u : EventLoop σ γ} {m : Nat} (h : Untouched token m u v)
    (h' : Untouched token n v w) : Untouched token (m + n) u w := by
  refine ⟨h'.lookup.trans h.lookup, h'.phase.trans h.phase, h.next_ge.trans h'.next_ge, ?_⟩
  have hm := h.next_le
  have hn := h'.next_le
  omega

theorem untouched_acceptAll {accepts : List AcceptResult} (htoken : token < v.nextToken)
    (hroom : v.nextToken + admitted accepts < t.modulus)
    (h : acceptAll t d options accepts v = .ok w) : Untouched token (admitted accepts) v w := by
  induction accepts generalizing v with
  | nil =>
    cases h
    exact .refl _
  | cons result rest ih =>
    cases result with
    | ok addr registered instant =>
      have hadmitted : admitted (.ok addr registered instant :: rest) = 1 + admitted rest :=
        Nat.add_comm _ 1
      rw [hadmitted] at hroom ⊢
      rcases acceptAll_cases h with ⟨_, h⟩ | ⟨next, hadd, h⟩
      · have hrest := ih htoken (by omega) h
        exact ⟨hrest.lookup, hrest.phase, hrest.next_ge, by have := hrest.next_le; omega⟩
      · -- there is room for the token, so the counter moves past it
        rw [Target.add_of_lt (by omega)] at hadd
        cases hadd
        rcases h with h | ⟨conn, _, _, h⟩
        · have hburnt : Untouched token 1 v { v with nextToken := v.nextToken + 1 } :=
            ⟨rfl, rfl, Nat.le_succ _, Nat.le_refl _⟩
          exact hburnt.trans (ih (Nat.lt_succ_of_lt htoken) (by dsimp only; omega) h)
        · have hinserted : Untouched token 1 v { v with
              nextToken := v.nextToken + 1
              conns := v.conns.insert v.nextToken ⟨conn, instant⟩ } :=
            ⟨AList.lookup_insert_ne (Nat.ne_of_lt htoken), rfl, Nat.le_succ _, Nat.le_refl _⟩
          exact hinserted.trans (ih (Nat.lt_succ_of_lt htoken) (by dsimp only; omega) h)
    | wouldBlock =>
      cases h
      exact .refl _
    | interrupted => exact ih htoken hroom h
    | failed =>
      cases h
      exact .refl _

theorem untouched_handleToken {token' instant : Nat} {event : ω} (hne : token ≠ token')
    (h : handleToken d v token' instant event = .ok w) : Untouched token 0 v w := by
  rcases handleToken_cases h with rfl | ⟨tracked, r, _, _, rfl⟩
  · exact .refl _
  · refine ⟨?_, rfl, Nat.le_refl _, Nat.le_refl _⟩
    dsimp only
    split
    · exact AList.lookup_erase_ne hne
    · exact AList.lookup_insert_ne hne

/-- An event of another token leaves a connection alone. -/
theorem untouched_handleEvent {accepting : Bool} {e : PollEvent σ ω} (hne : e.token ≠ token)
    (htoken : token < v.nextToken) (hroom : v.nextToken + admitted e.accepts < t.modulus)
    (h : handleEvent t d options accepting v e = .ok w) :
    Untouched token (admitted e.accepts) v w := by
  have hothers : Untouched token 0 v { v with service := e.others.getD v.service } :=
    ⟨rfl, rfl, Nat.le_refl _, Nat.le_refl _⟩
  rw [← Nat.zero_add (admitted e.accepts)]
  unfold handleEvent at h
  dsimp only at h
  split at h
  · split at h
    · exact hothers.trans (untouched_acceptAll htoken hroom h)
    · cases h
      exact hothers.trans (.refl _)
  · have hhandled := untouched_handleToken (Ne.symm hne) h
    exact hothers.trans ⟨hhandled.lookup, hhandled.phase, hhandled.next_ge,
      hhandled.next_le.trans (Nat.le_add_right _ _)⟩

theorem untouched_events {accepting : Bool} {events : List (PollEvent σ ω)}
    (hquiet : ∀ e ∈ events, e.token ≠ token) (htoken : token < v.nextToken)
    (hroom : v.nextToken + admittedIn events < t.modulus)
    (h : events.foldlM (handleEvent t d options accepting) v = .ok w) :
    Untouched token (admittedIn events) v w := by
  induction events generalizing v with
  | nil =>
    cases h
    exact .refl _
  | cons e events ih =>
    rw [List.foldlM_cons] at h
    rcases Outcome.bind_eq_ok.mp h with ⟨v', he, hrest⟩
    have hsum : admittedIn (e :: events) = admitted e.accepts + admittedIn events := rfl
    rw [hsum] at hroom ⊢
    rw [List.forall_mem_cons] at hquiet
    -- the counter only grows, so the token stays below it
    have hfirst := untouched_handleEvent hquiet.1 htoken (by omega) he
    have hnext := hfirst.next_le
    exact hfirst.trans (ih hquiet.2 (Nat.lt_of_lt_of_le htoken hfirst.next_ge) (by omega) hrest)

/-- The iteration serves: no shutdown signal, and the poll does not fail. -/
structure Serves (tick : Tick σ ω) (events : List (PollEvent σ ω)) : Prop where
  noSignal : tick.shutdown = false
  polled : tick.polled = some events

/-- A run that serves throughout, with no event for a token. -/
def Quiet (token : Nat) (ticks : List (Tick σ ω)) : Prop :=
  ∀ tick ∈ ticks, ∃ events, Serves tick events ∧ ∀ e ∈ events, e.token ≠ token

/-- Where nothing happens to a connection, only the sweep touches it. -/
theorem lookup_iterate_of_quiet {tick : Tick σ ω} {events : List (PollEvent σ ω)}
    (hphase : v.phase = .serving) (hserves : Serves tick events)
    (hquiet : ∀ e ∈ events, e.token ≠ token) (htoken : token < v.nextToken)
    (hroom : v.nextToken + admittedIn events < t.modulus)
    (h : iterate t d options v tick = .ok w) :
    w.conns.lookup token =
        (v.conns.lookup token).filter (fun tracked => !isIdle options tick.swept tracked) ∧
      w.phase = .serving ∧ token < w.nextToken ∧
      w.nextToken ≤ v.nextToken + admittedIn events := by
  have hpass : pass t d options true events tick.swept v = .ok w := by
    rcases iterate_serving hphase h with ⟨hsignal, _⟩ | ⟨_, hpolled, _⟩ | ⟨_, _, hpolled, hpass⟩
    · cases hsignal.symm.trans hserves.noSignal
    · cases hpolled.symm.trans hserves.polled
    · cases hpolled.symm.trans hserves.polled
      exact hpass
  rcases Outcome.bind_eq_ok.mp hpass with ⟨v', hevents, hswept⟩
  cases hswept
  have huntouched := untouched_events hquiet htoken hroom hevents
  refine ⟨?_, huntouched.phase.trans hphase, Nat.lt_of_lt_of_le htoken huntouched.next_ge,
    huntouched.next_le⟩
  rw [sweepIdle, lookup_sweep, huntouched.lookup]

/-- The sweeps of a run decide alone. -/
theorem lookup_run_of_quiet (hphase : v.phase = .serving) (hquiet : Quiet token ticks)
    (htoken : token < v.nextToken) (hroom : v.nextToken + admittedOver ticks < t.modulus)
    (h : run t d options v ticks = .ok w) :
    w.conns.lookup token = (v.conns.lookup token).filter fun tracked =>
      ticks.all fun tick => !isIdle options tick.swept tracked := by
  induction ticks generalizing v with
  | nil =>
    cases h
    cases w.conns.lookup token <;> rfl
  | cons tick ticks ih =>
    rw [run, List.foldlM_cons] at h
    rcases Outcome.bind_eq_ok.mp h with ⟨v', htick, hrest⟩
    rcases hquiet tick List.mem_cons_self with ⟨events, hserves, hother⟩
    have hsum : admittedOver (tick :: ticks) = admittedIn events + admittedOver ticks := by
      rw [admittedOver, List.map_cons, List.sum_cons, hserves.polled]
      rfl
    rw [hsum] at hroom
    -- the sweep of this iteration, then those of the rest
    rcases lookup_iterate_of_quiet hphase hserves hother htoken (by omega) htick with
      ⟨hlookup, hphase', htoken', hnext⟩
    rw [ih hphase' (fun tick' h' => hquiet tick' (List.mem_cons_of_mem _ h')) htoken' (by omega) hrest,
      hlookup, Option.filter_filter]
    cases v.conns.lookup token with
    | none => rfl
    | some tracked =>
      rw [Option.filter_some, Option.filter_some, List.all_cons, Bool.and_comm]

/-- A connection without events stays exactly as it is until the first sweep at which it
has been idle for longer than the timeout, and is gone from then on. -/
theorem idle_exact {s : σ} {before : List (Tick σ ω)} {tracked : Tracked γ}
    (hbefore : run t d options (start s) before = .ok v) (hphase : v.phase = .serving)
    (hthere : v.conns.lookup token = some tracked) (hquiet : Quiet token ticks)
    (hroom : admittedOver before + admittedOver ticks + 1 < t.modulus)
    (h : run t d options v ticks = .ok w) :
    w.conns.lookup token =
      if ∀ tick ∈ ticks, tick.swept - tracked.lastActivity ≤ fromSecs options.idleTimeout
      then some tracked else none := by
  rcases fresh_of_run (by omega) hbefore with ⟨hfresh, hnext⟩
  have htoken := (hfresh.below token (mem_keys_iff.mpr ⟨tracked, hthere⟩)).2
  rw [lookup_run_of_quiet hphase hquiet htoken (by omega) h, hthere, Option.filter_some]
  have hall : (ticks.all fun tick => !isIdle options tick.swept tracked) = true ↔
      ∀ tick ∈ ticks, tick.swept - tracked.lastActivity ≤ fromSecs options.idleTimeout := by
    simp [isIdle, List.all_eq_true]
  simp only [hall]

/-- A serving iteration without events. -/
def quietTick (instant : Nat) : Tick Unit Event := ⟨false, instant, some [], instant⟩

theorem quiet_quietTicks (token : Nat) (instants : List Nat) :
    Quiet token (instants.map quietTick) := by
  intro tick htick
  rcases List.mem_map.mp htick with ⟨instant, _, rfl⟩
  exact ⟨[], ⟨rfl, rfl⟩, by simp⟩

/-- A connection that was accepted and never sent anything outlives the sweep after 15
seconds, and not the next one. -/
theorem idle_oneConnLoop :
    (∃ w, run ⟨.w64, false⟩ (plainDriver ⟨.w64, false⟩ okService twoOptions) twoOptions oneConnLoop
        [quietTick (fromSecs 15)] = .ok w ∧ w.conns.lookup 1 ≠ none) ∧
      ∃ w, run ⟨.w64, false⟩ (plainDriver ⟨.w64, false⟩ okService twoOptions) twoOptions oneConnLoop
        [quietTick (fromSecs 15), quietTick (fromSecs 16)] = .ok w ∧ w.conns.lookup 1 = none := by
  have hthere : oneConnLoop.conns.lookup 1 = some ⟨_, 0⟩ := rfl
  constructor
  · refine ⟨_, rfl, ?_⟩
    have hlookup := idle_exact run_acceptTick rfl hthere (quiet_quietTicks 1 [fromSecs 15])
      (by decide) rfl
    rw [if_pos (by decide)] at hlookup
    exact fun hnone => by cases hlookup.symm.trans hnone
  · refine ⟨_, rfl, ?_⟩
    have hlookup := idle_exact run_acceptTick rfl hthere
      (quiet_quietTicks 1 [fromSecs 15, fromSecs 16]) (by decide) rfl
    rw [if_neg (by decide)] at hlookup
    exact hlookup

/-! ## Activity -/

/-- What is known of the connections' last activity. -/
def ActiveAt (P : Nat → Nat → Prop) (conns : FinTable Nat (Tracked γ)) : Prop :=
  ∀ token tracked, conns.lookup token = some tracked → P token tracked.lastActivity

/-- Something happened to the token at that instant: it had an event, or the listener's
event accepted a socket. -/
def SeenAt (e : PollEvent σ ω) (token instant : Nat) : Prop :=
  (e.token = token ∧ e.instant = instant) ∨
    (e.token = listener ∧ ∃ addr registered, .ok addr registered instant ∈ e.accepts)

theorem ActiveAt.insert {P : Nat → Nat → Prop} {conns : FinTable Nat (Tracked γ)} {instant : Nat}
    (h : ActiveAt P conns) (hP : P token instant) (conn : γ) :
    ActiveAt P (conns.insert token ⟨conn, instant⟩) := by
  intro token' tracked htracked
  by_cases heq : token' = token
  · rw [heq, AList.lookup_insert] at htracked
    cases htracked
    rw [heq]
    exact hP
  · rw [AList.lookup_insert_ne heq] at htracked
    exact h token' tracked htracked

theorem ActiveAt.erase {P : Nat → Nat → Prop} {conns : FinTable Nat (Tracked γ)}
    (h : ActiveAt P conns) (token : Nat) : ActiveAt P (conns.erase token) := by
  intro token' tracked htracked
  by_cases heq : token' = token
  · rw [heq, AList.lookup_erase] at htracked
    cases htracked
  · rw [AList.lookup_erase_ne heq] at htracked
    exact h token' tracked htracked

theorem activeAt_acceptAll {P : Nat → Nat → Prop} {accepts : List AcceptResult}
    (hP : ∀ addr registered instant, .ok addr registered instant ∈ accepts → ∀ token, P token instant)
    (haccept : acceptAll t d options accepts v = .ok w) (h : ActiveAt P v.conns) :
    ActiveAt P w.conns := by
  induction accepts generalizing v with
  | nil =>
    cases haccept
    exact h
  | cons result rest ih =>
    have hrest : ∀ addr registered instant, .ok addr registered instant ∈ rest →
        ∀ token, P token instant :=
      fun addr registered instant hmem => hP addr registered instant (List.mem_cons_of_mem _ hmem)
    cases result with
    | ok addr registered instant =>
      rcases acceptAll_cases haccept with ⟨_, hlast⟩ | ⟨next, _, hlast | ⟨conn, _, _, hlast⟩⟩
      · exact ih hrest hlast h
      · exact ih hrest hlast h
      · exact ih hrest hlast (h.insert (hP addr registered instant List.mem_cons_self _) _)
    | wouldBlock =>
      cases haccept
      exact h
    | interrupted => exact ih hrest haccept h
    | failed =>
      cases haccept
      exact h

theorem activeAt_handleEvent {P : Nat → Nat → Prop} {accepting : Bool} {e : PollEvent σ ω}
    (hP : ∀ token instant, SeenAt e token instant → P token instant)
    (hhandled : handleEvent t d options accepting v e = .ok w) (h : ActiveAt P v.conns) :
    ActiveAt P w.conns := by
  unfold handleEvent at hhandled
  dsimp only at hhandled
  split at hhandled
  · rename_i hlistener
    split at hhandled
    · refine activeAt_acceptAll ?_ hhandled h
      intro addr registered instant hmem token
      exact hP token instant (.inr ⟨hlistener, addr, registered, hmem⟩)
    · cases hhandled
      exact h
  · rcases handleToken_cases hhandled with rfl | ⟨tracked, r, _, _, rfl⟩
    · exact h
    · dsimp only
      split
      · exact h.erase e.token
      · exact h.insert (hP e.token e.instant (.inl ⟨rfl, rfl⟩)) _

theorem activeAt_events {P : Nat → Nat → Prop} {accepting : Bool} {events : List (PollEvent σ ω)}
    (hP : ∀ e ∈ events, ∀ token instant, SeenAt e token instant → P token instant)
    (hevents : events.foldlM (handleEvent t d options accepting) v = .ok w)
    (h : ActiveAt P v.conns) : ActiveAt P w.conns := by
  induction events generalizing v with
  | nil =>
    cases hevents
    exact h
  | cons e events ih =>
    rw [List.foldlM_cons] at hevents
    rcases Outcome.bind_eq_ok.mp hevents with ⟨v', he, hrest⟩
    rw [List.forall_mem_cons] at hP
    exact ih hP.2 hrest (activeAt_handleEvent hP.1 he h)

/-- After a sweep, the last activity is recent. -/
theorem activeAt_pass {P : Nat → Nat → Prop} {accepting : Bool} {events : List (PollEvent σ ω)}
    {swept : Nat} (hP : ∀ e ∈ events, ∀ token instant, SeenAt e token instant → P token instant)
    (hpass : pass t d options accepting events swept v = .ok w) (h : ActiveAt P v.conns) :
    ActiveAt (fun token instant => P token instant ∧
      swept - instant ≤ fromSecs options.idleTimeout) w.conns := by
  rcases Outcome.bind_eq_ok.mp hpass with ⟨v', hevents, hswept⟩
  cases hswept
  intro token tracked htracked
  rw [sweepIdle, lookup_sweep, Option.filter_eq_some_iff] at htracked
  refine ⟨activeAt_events hP hevents h token tracked htracked.1, ?_⟩
  simpa [isIdle] using htracked.2

/-- What was seen in the events of a run. -/
def SeenIn (ticks : List (Tick σ ω)) (token instant : Nat) : Prop :=
  ∃ tick ∈ ticks, ∃ events, tick.polled = some events ∧ ∃ e ∈ events, SeenAt e token instant

theorem SeenIn.mono {ticks' : List (Tick σ ω)} {instant : Nat} (h : SeenIn ticks token instant)
    (hsub : ticks ⊆ ticks') : SeenIn ticks' token instant := by
  rcases h with ⟨tick, htick, hseen⟩
  exact ⟨tick, hsub htick, hseen⟩

/-- The last activity of a connection is something that happened to it in the run. -/
theorem activeAt_run {s : σ} (h : run t d options (start s) ticks = .ok w) :
    ActiveAt (SeenIn ticks) w.conns := by
  -- what was seen before is still seen in the longer run
  have hgeneral : ∀ (rest before : List (Tick σ ω)) (v : EventLoop σ γ),
      ActiveAt (SeenIn before) v.conns → run t d options v rest = .ok w →
      ActiveAt (SeenIn (before ++ rest)) w.conns := by
    intro rest
    induction rest with
    | nil =>
      intro before v hactive hrun
      cases hrun
      rw [List.append_nil]
      exact hactive
    | cons tick rest ih =>
      intro before v hactive hrun
      rw [run, List.foldlM_cons] at hrun
      rcases Outcome.bind_eq_ok.mp hrun with ⟨v', htick, hrest⟩
      rw [List.append_cons]
      refine ih (before ++ [tick]) v' ?_ hrest
      have hold : ActiveAt (SeenIn (before ++ [tick])) v.conns :=
        fun token tracked hlookup =>
          (hactive token tracked hlookup).mono (List.subset_append_left _ _)
      rcases iterate_cases htick with ⟨_, rfl, _⟩ | ⟨accepting, events, hpolled, hpass⟩
      · exact hold
      · have hnew : ∀ e ∈ events, ∀ token instant, SeenAt e token instant →
            SeenIn (before ++ [tick]) token instant :=
          fun e he token instant hseen =>
            ⟨tick, List.mem_append_right _ (List.mem_singleton_self _), events, hpolled, e, he, hseen⟩
        exact fun token tracked hlookup => (activeAt_pass hnew hpass hold token tracked hlookup).1
  have hstart : ActiveAt (SeenIn ([] : List (Tick σ ω))) (start s : EventLoop σ γ).conns := by
    intro token tracked hlookup
    cases hlookup
  exact hgeneral ticks [] (start s) hstart h

/-- After every iteration that goes on, whether it serves or drains, each connection in the
table had an event, or was accepted, no longer ago than the timeout. -/
theorem recent_of_iterate {s : σ} {tick : Tick σ ω}
    (hrun : run t d options (start s) ticks = .ok v) (h : iterate t d options v tick = .ok w)
    (hgoes : w.phase = v.phase ∧ w.phase ≠ .stopped) {tracked : Tracked γ}
    (hthere : w.conns.lookup token = some tracked) :
    SeenIn (ticks ++ [tick]) token tracked.lastActivity ∧
      tick.swept - tracked.lastActivity ≤ fromSecs options.idleTimeout := by
  have hall : run t d options (start s) (ticks ++ [tick]) = .ok w := by
    rw [run, List.foldlM_append, ← run, hrun, Outcome.ok_bind, List.foldlM_cons, h]
    rfl
  refine ⟨activeAt_run hall token tracked hthere, ?_⟩
  -- an iteration that goes on has swept
  rcases iterate_cases h with ⟨_, rfl, hstopped⟩ | ⟨accepting, events, _, hpass⟩
  · exact absurd (hgoes.1.trans (hstopped hgoes.1)) hgoes.2
  · exact (activeAt_pass (fun _ _ _ _ _ => trivial) hpass
      (show ActiveAt (fun _ _ => True) v.conns from fun _ _ _ => trivial) token tracked hthere).2

theorem recent_oneConnLoop : SeenIn ([acceptTick] ++ [quietTick (fromSecs 15)]) 1 0 ∧
    fromSecs 15 - 0 ≤ fromSecs 15 := by
  have hiterate : iterate ⟨.w64, false⟩ (plainDriver ⟨.w64, false⟩ okService twoOptions) twoOptions
      oneConnLoop (quietTick (fromSecs 15)) = .ok oneConnLoop := rfl
  have hthere : oneConnLoop.conns.lookup 1 = some ⟨_, 0⟩ := rfl
  exact recent_of_iterate run_acceptTick hiterate ⟨rfl, by decide⟩ hthere

/-! ## Draining -/

theorem run_of_stopped (h : v.phase = .stopped) : run t d options v ticks = .ok v := by
  induction ticks with
  | nil => rfl
  | cons tick ticks ih =>
    rw [run, List.foldlM_cons, iterate_stopped h]
    exact ih

/-- While draining, connections leave the table and none enters it. -/
structure Shrinks (v w : EventLoop σ γ) : Prop where
  keys : w.conns.keys ⊆ v.conns.keys
  nextToken : w.nextToken = v.nextToken

theorem shrinks_handleEvent {e : PollEvent σ ω}
    (h : handleEvent t d options false v e = .ok w) : Shrinks v w ∧ w.phase = v.phase := by
  unfold handleEvent at h
  dsimp only at h
  split at h
  · cases h
    exact ⟨⟨List.Subset.refl _, rfl⟩, rfl⟩
  · rcases handleToken_cases h with rfl | ⟨tracked, r, hthere, _, rfl⟩
    · exact ⟨⟨List.Subset.refl _, rfl⟩, rfl⟩
    · -- an event puts back the connection that was there, or drops it
      have hmem : e.token ∈ v.conns := AList.lookup_isSome.mp (by rw [hthere]; rfl)
      refine ⟨⟨?_, rfl⟩, rfl⟩
      intro token htoken
      dsimp only at htoken
      split at htoken
      · exact (AList.mem_erase.mp htoken).2
      · rcases (AList.mem_insert v.conns).mp htoken with rfl | htoken
        · exact hmem
        · exact htoken

theorem shrinks_pass {events : List (PollEvent σ ω)} {swept : Nat}
    (h : pass t d options false events swept v = .ok w) : Shrinks v w ∧ w.phase = v.phase := by
  rcases Outcome.bind_eq_ok.mp h with ⟨v', hevents, hswept⟩
  cases hswept
  have hshrinks : Shrinks v v' ∧ v'.phase = v.phase := by
    clear h
    induction events generalizing v with
    | nil =>
      cases hevents
      exact ⟨⟨List.Subset.refl _, rfl⟩, rfl⟩
    | cons e events ih =>
      rw [List.foldlM_cons] at hevents
      rcases Outcome.bind_eq_ok.mp hevents with ⟨v₁, he, hrest⟩
      rcases shrinks_handleEvent he with ⟨hfirst, hphase⟩
      rcases ih hrest with ⟨hlater, hphase'⟩
      exact ⟨⟨List.Subset.trans hlater.keys hfirst.keys, hlater.nextToken.trans hfirst.nextToken⟩,
        hphase'.trans hphase⟩
  refine ⟨⟨?_, hshrinks.1.nextToken⟩, hshrinks.2⟩
  intro token htoken
  rcases mem_keys_iff.mp htoken with ⟨tracked, htracked⟩
  rw [sweepIdle, lookup_sweep, Option.filter_eq_some_iff] at htracked
  exact hshrinks.1.keys (mem_keys_iff.mpr ⟨tracked, htracked.1⟩)

/-- What draining up to a deadline amounts to. -/
structure Drains (deadline : Nat) (ticks : List (Tick σ ω)) (v w : EventLoop σ γ) : Prop where
  shrinks : Shrinks v w
  phase : w.phase = .draining deadline ∨ w.phase = .stopped
  ends : (∃ tick ∈ ticks, deadline ≤ tick.instant) → w.phase = .stopped
  reason : w.phase = .stopped →
    w.conns.keys = [] ∨ ∃ tick ∈ ticks, deadline ≤ tick.instant ∨ tick.polled = none

theorem drains_of_run {deadline : Nat} (hphase : v.phase = .draining deadline)
    (h : run t d options v ticks = .ok w) : Drains deadline ticks v w := by
  induction ticks generalizing v with
  | nil =>
    cases h
    refine ⟨⟨List.Subset.refl _, rfl⟩, .inl hphase, by simp, ?_⟩
    intro hstopped
    rw [hphase] at hstopped
    cases hstopped
  | cons tick ticks ih =>
    rw [run, List.foldlM_cons] at h
    rcases Outcome.bind_eq_ok.mp h with ⟨v', htick, hrest⟩
    rcases iterate_draining hphase htick with ⟨hreason, rfl⟩ | ⟨hearly, events, _, hpass⟩
    · -- the loop ends here, and what follows changes nothing
      have hw : run t d options { v with phase := .stopped } ticks = .ok w := hrest
      rw [run_of_stopped rfl] at hw
      cases hw
      refine ⟨⟨List.Subset.refl _, rfl⟩, .inr rfl, fun _ => rfl, fun _ => ?_⟩
      rcases hreason with hempty | hlate
      · exact .inl hempty
      · exact .inr ⟨tick, List.mem_cons_self, hlate⟩
    · rcases shrinks_pass hpass with ⟨hshrinks, hsame⟩
      have hdrains := ih (hsame.trans hphase) hrest
      refine ⟨⟨List.Subset.trans hdrains.shrinks.keys hshrinks.keys,
        hdrains.shrinks.nextToken.trans hshrinks.nextToken⟩, hdrains.phase, ?_, ?_⟩
      · intro hlate
        rcases hlate with ⟨late, hmem, hlate⟩
        rcases List.mem_cons.mp hmem with rfl | hmem
        · exact absurd hlate (Nat.not_le_of_lt hearly)
        · exact hdrains.ends ⟨late, hmem, hlate⟩
      · intro hstopped
        rcases hdrains.reason hstopped with hempty | ⟨late, hmem, hlate⟩
        · exact .inl hempty
        · exact .inr ⟨late, List.mem_cons_of_mem _ hmem, hlate⟩

/-- After a shutdown signal: no connection enters the table any more, the loop is over by
the first iteration at which the grace period is, and it is over only then, or when no
connection is left, or when a poll failed. -/
theorem drain_spec {tick : Tick σ ω} (hphase : v.phase = .serving)
    (hsignal : tick.shutdown = true) (h : run t d options v (tick :: ticks) = .ok w) :
    Drains (tick.instant + shutdownGrace) ticks v w := by
  rw [run, List.foldlM_cons] at h
  rcases Outcome.bind_eq_ok.mp h with ⟨v', htick, hrest⟩
  rcases iterate_serving hphase htick with ⟨_, rfl⟩ | ⟨hserves, _⟩ | ⟨hserves, _⟩
  case inr.inl | inr.inr => cases hsignal.symm.trans hserves
  have hdrains := drains_of_run rfl hrest
  exact ⟨⟨hdrains.shrinks.keys, hdrains.shrinks.nextToken⟩, hdrains.phase, hdrains.ends,
    hdrains.reason⟩

/-- A connection that sends nothing more is in the table when the grace period is over. -/
theorem drain_oneConnLoop : Drains (0 + shutdownGrace) [quietTick shutdownGrace] oneConnLoop
    { oneConnLoop with phase := .stopped } := by
  have hrun : run ⟨.w64, false⟩ (plainDriver ⟨.w64, false⟩ okService twoOptions) twoOptions
      oneConnLoop [{ quietTick 0 with shutdown := true }, quietTick shutdownGrace] =
        .ok { oneConnLoop with phase := .stopped } := rfl
  exact drain_spec rfl rfl hrun

end EventLoop

end FerroHttp
