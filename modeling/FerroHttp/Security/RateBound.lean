import FerroHttp.Security.FewPeers

/-!
# Security.RateBound — how many requests a peer gets through

Between two windows of a peer lie at least `min windowSecs banSecs` seconds, whether the
first one ran out or ended in a ban. `Paced` ties the requests allowed from a time on to
the windows opened since: each window allows `requests` of them.

The counter is a `u64`. In a build whose additions wrap it bounds nothing when
`requests` is the largest `u64`, and `rateBound_iff` says that this is the only case.
-/

namespace FerroHttp

namespace RateLimiter

open Exec Text

/-- The requests of a peer allowed in `[a, b)`. -/
def allowedIn (log : List Answered) (peer : Bytes) (a b : Nat) : Nat :=
  log.countP fun c => c.decision == .allow && decide (a ≤ c.now) && decide (c.now < b) &&
    c.peer == peer

/-- No ban of the run was computed with an overflow. -/
def BansFit (config : RateLimitConfig) (log : List Answered) : Prop :=
  ∀ a ∈ log, a.decision = .deny config.banSecs → a.now + config.banSecs < u64Values

/-- The shortest time between two windows of a peer. -/
def spacing (config : RateLimitConfig) : Nat := min config.windowSecs config.banSecs

/-- In every run with few peers and without an overflowing ban, every peer is allowed at
most `requests * (⌈length / spacing⌉ + 1)` requests in every interval. -/
def RateBound (t : Target) (config : RateLimitConfig) : Prop :=
  ∀ log l, Run t config log l → distinctPeers log < maxEntries → BansFit config log →
    ∀ peer a length, 1 ≤ length → allowedIn log peer a (a + length) ≤
      config.requests * ((length + spacing config - 1) / spacing config + 1)

variable {t : Target} {config : RateLimitConfig} {checks : List Answered} {e e' : PeerEntry}
  {peer : Bytes} {a now k : Nat} {decision : Decision}

/-! ## Pacing -/

/-- The requests allowed from `a` on. -/
def allowedFrom (checks : List Answered) (a : Nat) : Nat :=
  checks.countP fun c => c.decision == .allow && decide (a ≤ c.now)

theorem allowedFrom_snoc (c : Answered) : allowedFrom (checks ++ [c]) a =
    allowedFrom checks a + if c.decision == .allow && decide (a ≤ c.now) then 1 else 0 := by
  rw [allowedFrom, allowedFrom, List.countP_append, List.countP_singleton]

/-- Nothing is allowed from a time that no check has reached. -/
theorem allowedFrom_eq_zero (hlater : ∀ c ∈ checks, c.now ≤ now) (h : now < a) :
    allowedFrom checks a = 0 := by
  rw [allowedFrom, List.countP_eq_zero]
  intro c hc
  have hle := hlater c hc
  simp only [Bool.and_eq_true, decide_eq_true_eq, not_and]
  intro _
  omega

/-- The entry of a peer after `checks`, of which those from `a` on opened `k` windows. -/
structure Paced (config : RateLimitConfig) (a : Nat) (checks : List Answered) (e : PeerEntry)
    (k : Nat) : Prop where
  spaced : ∀ j, k = j + 1 → a + j * spacing config ≤ e.windowStart
  counted : e.bannedUntil = 0 → e.count ≤ config.requests ∧
    allowedFrom checks a + config.requests ≤ config.requests * (k + 1) + e.count
  banned : e.bannedUntil ≠ 0 → e.windowStart + config.banSecs ≤ e.bannedUntil ∧
    allowedFrom checks a ≤ config.requests * (k + 1)

theorem Paced.fresh (config : RateLimitConfig) (a now : Nat) : Paced config a [] ⟨now, 0, 0⟩ 0 := by
  refine ⟨?_, ?_, ?_⟩
  · intro j hj
    omega
  · intro _
    simp [allowedFrom]
  · intro h
    exact (h rfl).elim

/-- However a window ended, the requests allowed so far are paid for. -/
theorem Paced.allowedFrom_le (h : Paced config a checks e k) :
    allowedFrom checks a ≤ config.requests * (k + 1) := by
  by_cases hban : e.bannedUntil = 0
  · have := h.counted hban
    omega
  · exact (h.banned hban).2

/-- The next window opens no earlier than `spacing` after the last one. -/
theorem Paced.opened (h : Paced config a checks e k)
    (hstart : e.windowStart ≤ now) (hlater : ∀ c ∈ checks, c.now ≤ now)
    (hend : e.bannedUntil ≤ now) :
    (∃ k', Paced config a checks (opened config e now) k') ∧
      (RateLimiter.opened config e now).bannedUntil = 0 ∧
      (RateLimiter.opened config e now).windowStart ≤ now := by
  rcases opened_cases config e now with ⟨heq, hwhy⟩ | ⟨heq, hban, _⟩
  · rw [heq]
    refine ⟨?_, rfl, Nat.le_refl _⟩
    -- the old window has run out, or its ban has, and a ban is set inside its window
    have hspace : e.windowStart + spacing config ≤ now := by
      unfold spacing
      by_cases hban : e.bannedUntil = 0
      · omega
      · have := (h.banned hban).1
        omega
    by_cases ha : now < a
    · -- nothing before `a` counts: the windows are counted from here
      refine ⟨0, ?_, ?_, ?_⟩
      · intro j hj
        omega
      · intro _
        rw [allowedFrom_eq_zero hlater ha]
        simp
      · intro hne
        exact (hne rfl).elim
    · refine ⟨k + 1, ?_, ?_, ?_⟩
      · intro j hj
        obtain rfl : k = j := by omega
        -- the first window after `a` starts at `a` or later, the others are spaced
        cases k with
        | zero => simp only [Nat.zero_mul]; omega
        | succ j =>
          have := h.spaced j rfl
          rw [Nat.succ_mul]
          simp only
          omega
      · intro _
        have hle := h.allowedFrom_le
        have hmul : config.requests * (k + 1 + 1) =
            config.requests * (k + 1) + config.requests := Nat.mul_succ _ _
        exact ⟨Nat.zero_le _, by omega⟩
      · intro hne
        exact (hne rfl).elim
  · rw [heq]
    exact ⟨⟨k, h⟩, hban, hstart⟩

/-- The counter counts: it reaches its largest value only past the limit. -/
theorem u64_count {count n : Nat} (hword : t.checked = true ∨ config.requests + 1 < u64Values)
    (hle : n ≤ config.requests) (h : t.u64 (n + 1) = (.ok count : Outcome Empty Nat)) :
    count = n + 1 := by
  unfold Target.u64 at h
  split at h
  · cases h
    rfl
  · rcases hword with hchecked | hlt
    · rw [hchecked, if_pos rfl] at h
      cases h
    · omega

/-- A tick keeps the pace. -/
theorem Paced.tick (h : Paced config a checks e k) (hlasts : 1 ≤ config.banSecs)
    (hword : t.checked = true ∨ config.requests + 1 < u64Values)
    (hstart : e.windowStart ≤ now) (hlater : ∀ c ∈ checks, c.now ≤ now)
    (hfit : decision = .deny config.banSecs → now + config.banSecs < u64Values)
    (htick : tick t e config now = .ok (decision, e')) :
    (∃ k', Paced config a (checks ++ [⟨peer, now, decision, true⟩]) e' k') ∧
      e'.windowStart ≤ now := by
  rcases tick_cases htick with ⟨_, rfl, rfl⟩ | ⟨hend, count, hcount, hcase⟩
  · -- banned: the entry stays, and nothing is allowed
    have hsame : allowedFrom (checks ++ [⟨peer, now, .deny (e'.bannedUntil - now), true⟩]) a =
        allowedFrom checks a := by
      rw [allowedFrom_snoc]
      rfl
    refine ⟨⟨k, h.spaced, ?_, ?_⟩, hstart⟩
    · rw [hsame]
      exact h.counted
    · rw [hsame]
      exact h.banned
  · rcases h.opened hstart hlater hend with ⟨⟨k', hpaced⟩, hzero, hopen⟩
    rcases hpaced.counted hzero with ⟨hle, hpaid⟩
    obtain rfl := u64_count hword hle hcount
    rcases hcase with ⟨_, rfl, rfl⟩ | ⟨_, bannedUntil, hban, rfl, rfl⟩
    · -- one more is allowed, and the counter has paid for it
      refine ⟨⟨k', hpaced.spaced, ?_, ?_⟩, hopen⟩
      · intro _
        have hone : allowedFrom (checks ++ [⟨peer, now, .allow, true⟩]) a ≤
            allowedFrom checks a + 1 := by
          rw [allowedFrom_snoc]
          split <;> omega
        exact ⟨by assumption, by simp only; omega⟩
      · intro hne
        exact (hne hzero).elim
    · have hsame : allowedFrom (checks ++ [⟨peer, now, .deny config.banSecs, true⟩]) a =
          allowedFrom checks a := by
        rw [allowedFrom_snoc]
        rfl
      have huntil : bannedUntil = now + config.banSecs := by
        rw [Target.u64, if_pos (hfit rfl)] at hban
        cases hban
        rfl
      refine ⟨⟨k', hpaced.spaced, ?_, ?_⟩, hopen⟩
      · -- a ban that ends at 0 would be none, but bans last
        intro hnone
        simp only [huntil] at hnone
        omega
      · intro _
        rw [hsame]
        exact ⟨by simp only [huntil]; omega, hpaced.allowedFrom_le⟩

/-- The same of a peer that may have no entry yet. -/
def PacedPeer (config : RateLimitConfig) (a : Nat) (checks : List Answered)
    (e : Option PeerEntry) : Prop :=
  (checks = [] ∧ e = none) ∨ ∃ entry k, e = some entry ∧ Paced config a checks entry k ∧
    ∃ c ∈ checks, entry.windowStart ≤ c.now

theorem PacedPeer.tick {e : Option PeerEntry} (h : PacedPeer config a checks e)
    (hlasts : 1 ≤ config.banSecs)
    (hword : t.checked = true ∨ config.requests + 1 < u64Values)
    (hlater : ∀ c ∈ checks, c.now ≤ now)
    (hfit : decision = .deny config.banSecs → now + config.banSecs < u64Values)
    (htick : RateLimiter.tick t (e.getD ⟨now, 0, 0⟩) config now = .ok (decision, e')) :
    PacedPeer config a (checks ++ [⟨peer, now, decision, true⟩]) (some e') := by
  have hstep : (∃ k', Paced config a (checks ++ [⟨peer, now, decision, true⟩]) e' k') ∧
      e'.windowStart ≤ now := by
    rcases h with ⟨rfl, rfl⟩ | ⟨entry, k, rfl, hpaced, c, hc, hstart⟩
    · exact (Paced.fresh config a now).tick hlasts hword (Nat.le_refl _) hlater hfit htick
    · exact hpaced.tick hlasts hword (hstart.trans (hlater c hc)) hlater hfit htick
  rcases hstep with ⟨⟨k', hpaced⟩, hstart⟩
  exact .inr ⟨e', k', rfl, hpaced, _, List.mem_append_right _ (List.mem_singleton_self _), hstart⟩

/-- Windows opened in an interval fit into it. -/
theorem PacedPeer.allowedFrom_le {e : Option PeerEntry} {length : Nat}
    (h : PacedPeer config a checks e) (hwindow : 1 ≤ config.windowSecs)
    (hlasts : 1 ≤ config.banSecs) (hbefore : ∀ c ∈ checks, c.now < a + length) :
    allowedFrom checks a ≤
      config.requests * ((length + spacing config - 1) / spacing config + 1) := by
  rcases h with ⟨rfl, _⟩ | ⟨entry, k, _, hpaced, c, hc, hstart⟩
  · simp [allowedFrom]
  · refine hpaced.allowedFrom_le.trans (Nat.mul_le_mul_left _ (Nat.succ_le_succ ?_))
    have hpos : 0 < spacing config := by
      unfold spacing
      omega
    cases k with
    | zero => exact Nat.zero_le _
    | succ j =>
      -- the last of the windows started inside the interval
      have hspaced := hpaced.spaced j rfl
      have hlast := hbefore c hc
      rw [Nat.le_div_iff_mul_le hpos, Nat.succ_mul]
      omega

/-! ## The bound -/

/-- The requests of one peer allowed in `[a, b)`, counted in its own checks. -/
theorem allowedIn_eq (log : List Answered) (peer : Bytes) (a b : Nat) : allowedIn log peer a b =
    (checksOf log peer).countP fun c =>
      c.decision == .allow && decide (a ≤ c.now) && decide (c.now < b) := by
  rw [checksOf, List.countP_filter]
  rfl

/-- Below the end of the interval, allowed in it is allowed from its start on. -/
theorem countP_before {b : Nat} (hbefore : ∀ c ∈ checks, c.now < b) :
    (checks.countP fun c => c.decision == .allow && decide (a ≤ c.now) && decide (c.now < b)) =
      allowedFrom checks a := by
  refine List.countP_congr ?_
  intro c hc
  simp only [hbefore c hc, decide_true, Bool.and_true]

theorem rateBound_of_fits (henabled : config.enabled = true) (hwindow : 1 ≤ config.windowSecs)
    (hlasts : 1 ≤ config.banSecs) (hword : t.checked = true ∨ config.requests + 1 < u64Values) :
    RateBound t config := by
  intro log l run few hfit peer a length _
  let P : List Answered → Option PeerEntry → Prop := fun checks e => BansFit config checks →
    PacedPeer config a checks e ∧
    (checks.countP fun c =>
        c.decision == .allow && decide (a ≤ c.now) && decide (c.now < a + length)) ≤
      config.requests * ((length + spacing config - 1) / spacing config + 1)
  have hstart : P [] none := fun _ => ⟨.inl ⟨rfl, rfl⟩, Nat.zero_le _⟩
  have hticked : ∀ checks e now decision entry, P checks e → (∀ c ∈ checks, c.now ≤ now) →
      tick t (e.getD ⟨now, 0, 0⟩) config now = .ok (decision, entry) →
      P (checks ++ [⟨peer, now, decision, true⟩]) (some entry) := by
    intro checks e now decision entry ih hlater htick hfit
    rcases ih fun c hc => hfit c (List.mem_append_left _ hc) with ⟨hpaced, hbound⟩
    have hpaced' : PacedPeer config a (checks ++ [⟨peer, now, decision, true⟩]) (some entry) :=
      hpaced.tick hlasts hword hlater
        (hfit _ (List.mem_append_right _ (List.mem_singleton_self _))) htick
    refine ⟨hpaced', ?_⟩
    by_cases hin : now < a + length
    · -- the interval is still open: what it allowed is what was allowed from its start on
      have hbefore : ∀ c ∈ checks ++ [⟨peer, now, decision, true⟩], c.now < a + length := by
        intro c hc
        rcases List.mem_append.mp hc with hc | hc
        · exact (hlater c hc).trans_lt hin
        · rw [List.mem_singleton.mp hc]
          exact hin
      rw [countP_before hbefore]
      exact hpaced'.allowedFrom_le hwindow hlasts hbefore
    · -- the interval is over: later checks do not count
      rw [List.countP_append, List.countP_singleton]
      simp only [hin, decide_false, Bool.and_false, Bool.false_eq_true, if_false, Nat.add_zero]
      exact hbound
  rw [allowedIn_eq]
  refine (peer_induction hstart hticked henabled run few ?_).2
  intro c hc
  exact hfit c (mem_of_mem_checksOf hc).1

/-! ## The counter -/

/-- A wrapping counter never passes the largest `u64`. -/
theorem tick_wraps (hwraps : t.checked = false) (hmax : u64Values ≤ config.requests + 1)
    (hwindow : 1 ≤ config.windowSecs) (k : Nat) :
    tick t ⟨0, k % u64Values, 0⟩ config 0 = .ok (.allow, ⟨0, (k + 1) % u64Values, 0⟩) := by
  have hopen : opened config ⟨0, k % u64Values, 0⟩ 0 = ⟨0, k % u64Values, 0⟩ := by
    rcases opened_cases config ⟨0, k % u64Values, 0⟩ 0 with ⟨_, hwhy⟩ | ⟨heq, _⟩
    · simp only at hwhy
      omega
    · exact heq
  have hpos : 0 < u64Values := by decide
  have hlt := Nat.mod_lt (k + 1) hpos
  have hcount : t.u64 ((opened config ⟨0, k % u64Values, 0⟩ 0).count + 1) =
      (.ok ((k + 1) % u64Values) : Outcome Empty Nat) := by
    rw [hopen]
    unfold Target.u64
    simp only [hwraps, Bool.false_eq_true, if_false]
    split
    · rename_i hfits
      -- no wrap at this step
      rw [← Nat.mod_add_mod, Nat.mod_eq_of_lt hfits]
    · rw [Nat.mod_add_mod]
  rw [tick_of_allow (Nat.zero_le _) hcount (by omega), hopen]

/-- A flood at one time, against a wrapping counter with the largest limit. -/
theorem not_rateBound (henabled : config.enabled = true) (hwindow : 1 ≤ config.windowSecs)
    (hlasts : 1 ≤ config.banSecs) (hwraps : t.checked = false)
    (hmax : u64Values ≤ config.requests + 1) : ¬ RateBound t config := by
  intro hbound
  let n := config.requests * 2 + 1
  have hticks : ∀ k, k < n → tick t ⟨0, k % u64Values, 0⟩ config 0 =
      .ok (.allow, ⟨0, (k + 1) % u64Values, 0⟩) := fun k _ => tick_wraps hwraps hmax hwindow k
  have hburst : ∃ l, Run t config (burst [] 0 n fun _ => .allow) l := by
    rcases @run_burst t config [] 0 n (fun _ => .allow) (fun k => k % u64Values) henabled
      (Nat.zero_mod _) hticks with ⟨l, run, _⟩
    exact ⟨l, run⟩
  rcases hburst with ⟨l, run⟩
  have few : distinctPeers (burst [] 0 n fun _ => .allow) < maxEntries :=
    distinctPeers_burst.trans_lt (by decide)
  have hfit : BansFit config (burst [] 0 n fun _ => .allow) := by
    intro c hc hdeny
    rcases mem_burst hc with ⟨k, _, rfl⟩
    cases hdeny
  -- all of them fall into the first second
  have hle := hbound _ _ run few hfit [] 0 1 (Nat.le_refl _)
  have hall : allowedIn (burst [] 0 n fun _ => .allow) [] 0 (0 + 1) = n := by
    have hlen : (burst [] 0 n fun _ => .allow).length = n := by simp [burst]
    rw [allowedIn]
    conv_rhs => rw [← hlen]
    rw [List.countP_eq_length]
    intro c hc
    rcases mem_burst hc with ⟨k, _, rfl⟩
    rfl
  have hpos : 0 < spacing config := by
    unfold spacing
    omega
  have hone : (1 + spacing config - 1) / spacing config = 1 := by
    rw [Nat.add_sub_cancel_left, Nat.div_self hpos]
  rw [hall, hone] at hle
  omega

/-- The rate bound holds exactly when the counter cannot wrap: in a build whose additions
are checked, or below the largest limit. -/
theorem rateBound_iff (henabled : config.enabled = true) (hwindow : 1 ≤ config.windowSecs)
    (hlasts : 1 ≤ config.banSecs) :
    RateBound t config ↔ t.checked = true ∨ config.requests + 1 < u64Values := by
  constructor
  · intro hbound
    by_contra hnot
    rw [not_or, Bool.not_eq_true] at hnot
    exact not_rateBound henabled hwindow hlasts hnot.1 (by omega) hbound
  · exact rateBound_of_fits henabled hwindow hlasts

theorem rateBound_iff_one_per_ten : RateBound ⟨.w64, false⟩ ⟨true, 1, 10, 60⟩ ↔
    (⟨.w64, false⟩ : Target).checked = true ∨ 1 + 1 < u64Values :=
  rateBound_iff rfl (by decide) (by decide)

theorem not_rateBound_largest : ¬ RateBound ⟨.w64, false⟩ ⟨true, u64Values - 1, 10, 60⟩ :=
  not_rateBound rfl (by decide) (by decide) rfl (by decide)

end RateLimiter

end FerroHttp
