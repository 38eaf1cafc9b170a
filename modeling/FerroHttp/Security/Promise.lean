import FerroHttp.Config
import FerroHttp.Security.FewPeers

/-!
# Security.Promise — Retry-After as a promise

A denial at `t` with `r` seconds promises that the peer is denied until `t + r`, with the
seconds that are left, and allowed at its first check after that. `Tracked` ties the entry
of a peer to the promises that are still open: its ban ends when they do.

The deadline `t + banSecs` and the counter are `u64`, and no configuration is refused for
being too large: `promise_iff` says up to which time the promises are kept.
-/

namespace FerroHttp

namespace RateLimiter

open Exec Text

/-! ## The promise -/

/-- Every denial of the run is kept: the peer's later checks before the deadline are denied
with what is left, and its first check from the deadline on is allowed. -/
def Promised (config : RateLimitConfig) (log : List Answered) : Prop :=
  ∀ (pre : List Answered) (a : Answered) (mid : List Answered) (b : Answered)
    (post : List Answered), log = pre ++ a :: (mid ++ b :: post) → b.peer = a.peer →
    ∀ r, a.decision = .deny r →
      (b.now < a.now + r → b.decision = .deny (a.now + r - b.now)) ∧
      (1 ≤ config.requests → 1 ≤ config.banSecs → a.now + r ≤ b.now →
        (∀ c ∈ mid, c.peer = a.peer → c.now < a.now + r) → b.decision = .allow)

/-- In every run with few peers up to the time `last`, in any build: every denial is kept,
and no further check overflows. -/
def Promise (config : RateLimitConfig) (last : Nat) : Prop :=
  ∀ t log l, Run t config log l → distinctPeers log < maxEntries → (∀ a ∈ log, a.now ≤ last) →
    Promised config log ∧
    ∀ peer now, (∀ a ∈ log, a.now ≤ now) → now ≤ last → l.check ⟨t.width, true⟩ peer now ≠ .panic

/-- The deadlines up to `last` and the counters fit. Without a window the counter never
passes 1; with one it keeps counting through denials whose ban is 0 at time 0. -/
def Fits (config : RateLimitConfig) (last : Nat) : Prop :=
  if config.windowSecs = 0 then 1 ≤ config.requests ∨ last + config.banSecs < u64Values
  else 1 ≤ config.banSecs ∧ config.requests + 1 < u64Values ∧ last + config.banSecs < u64Values

instance (config : RateLimitConfig) (last : Nat) : Decidable (Fits config last) := by
  unfold Fits
  infer_instance

variable {t : Target} {config : RateLimitConfig} {last now : Nat} {peer : Bytes}
  {checks log : List Answered} {l : RateLimiter} {e e' : PeerEntry} {decision : Decision}

/-! ## One peer -/

/-- The check keeps the promises made before it to the same peer. -/
def Kept (config : RateLimitConfig) (before : List Answered) (b : Answered) : Prop :=
  ∀ a ∈ before, ∀ r, a.decision = .deny r →
    (b.now < a.now + r → b.decision = .deny (a.now + r - b.now)) ∧
    (1 ≤ config.requests → 1 ≤ config.banSecs → a.now + r ≤ b.now →
      (∀ c ∈ before, c.now < a.now + r) → b.decision = .allow)

/-- The entry of a peer after its checks. -/
structure Tracked (config : RateLimitConfig) (checks : List Answered) (e : PeerEntry) : Prop where
  counted : 1 ≤ config.windowSecs → e.bannedUntil = 0 → e.count ≤ config.requests
  pending : ∀ a ∈ checks, ∀ r, a.decision = .deny r →
    a.now + r = e.bannedUntil ∨ ∃ c ∈ checks, a.now + r ≤ c.now
  lasting : ∀ a ∈ checks, ∀ r, a.decision = .deny r → 1 ≤ config.banSecs → 1 ≤ r

theorem Tracked.fresh (config : RateLimitConfig) (now : Nat) :
    Tracked config [] ⟨now, 0, 0⟩ := by
  refine ⟨?_, ?_, ?_⟩
  · intro _ _
    exact Nat.zero_le _
  · intro a ha
    cases ha
  · intro a ha
    cases ha

/-- Where the counters and deadlines fit, a tick adds without overflow. -/
theorem Tracked.adds (h : Tracked config checks e) (hfits : Fits config last) (hnow : now ≤ last) :
    (opened config e now).count + 1 < u64Values ∧
      (config.requests < (opened config e now).count + 1 → now + config.banSecs < u64Values) := by
  have hone : 1 < u64Values := by decide
  unfold Fits at hfits
  -- the request is counted in a fresh window, or in the one that is open
  rcases opened_cases config e now with ⟨heq, _⟩ | ⟨heq, hban, hwindow⟩
  · -- a fresh window starts at 0
    rw [heq]
    refine ⟨hone, ?_⟩
    intro hover
    simp only at hover
    split at hfits
    · rcases hfits with hrequests | hlast
      · omega
      · omega
    · omega
  · rw [heq]
    rw [if_neg (by omega)] at hfits
    have hcount := h.counted (by omega) hban
    constructor
    · omega
    · intro _
      omega

/-- So it does not panic, in any build. -/
theorem Tracked.not_panic (h : Tracked config checks e) (hfits : Fits config last)
    (hnow : now ≤ last) : tick t e config now ≠ .panic := by
  rcases h.adds hfits hnow with ⟨hcount, hdeadline⟩
  by_cases hbanned : now < e.bannedUntil
  · rw [tick_of_banned hbanned]
    intro hcon
    cases hcon
  · have hu64 : t.u64 ((opened config e now).count + 1) =
        (.ok ((opened config e now).count + 1) : Outcome Empty Nat) := if_pos hcount
    by_cases hover : config.requests < (opened config e now).count + 1
    · rw [tick_of_deny (by omega) hu64 hover (if_pos (hdeadline hover))]
      intro hcon
      cases hcon
    · rw [tick_of_allow (by omega) hu64 (by omega)]
      intro hcon
      cases hcon

/-- A promise that no check has come after is the ban of the entry. -/
theorem Tracked.deadline (h : Tracked config checks e) {a : Answered} {r : Nat} (ha : a ∈ checks)
    (hr : a.decision = .deny r) (hopen : ∀ c ∈ checks, c.now < a.now + r) :
    a.now + r = e.bannedUntil := by
  rcases h.pending a ha r hr with heq | ⟨c, hc, hle⟩
  · exact heq
  · have := hopen c hc
    omega

/-- A check that is denied during the ban is denied until its end. -/
theorem Tracked.kept_of_banned (h : Tracked config checks e) (peer : Bytes)
    (hlater : ∀ a ∈ checks, a.now ≤ now) (hbanned : now < e.bannedUntil) :
    Kept config checks ⟨peer, now, .deny (e.bannedUntil - now), true⟩ := by
  intro a ha r hr
  constructor
  · intro hlt
    rw [h.deadline ha hr fun c hc => (hlater c hc).trans_lt hlt]
  · -- a promise that is over was no ban of this entry
    intro _ _ hpast hmid
    have huntil := h.deadline ha hr hmid
    simp only at hpast
    omega

/-- Once the ban is over no promise is open, and the count has been reset. -/
theorem Tracked.kept_of_end (h : Tracked config checks e) (peer : Bytes)
    (hlater : ∀ a ∈ checks, a.now ≤ now) (hend : e.bannedUntil ≤ now)
    (hreset : 1 ≤ config.requests → e.bannedUntil ≠ 0 → decision = .allow) :
    Kept config checks ⟨peer, now, decision, true⟩ := by
  intro a ha r hr
  constructor
  · intro hlt
    have huntil := h.deadline ha hr fun c hc => (hlater c hc).trans_lt hlt
    simp only at hlt
    omega
  · intro hrequests hbans _ hmid
    have huntil := h.deadline ha hr hmid
    have hlasting := h.lasting a ha r hr hbans
    apply hreset hrequests
    omega

/-- One more check: the ban of the entry is the same, or is over, and a denial is until its
end. -/
theorem Tracked.append {b : Answered} (h : Tracked config checks e)
    (hcounted : 1 ≤ config.windowSecs → e'.bannedUntil = 0 → e'.count ≤ config.requests)
    (hban : e'.bannedUntil = e.bannedUntil ∨ e.bannedUntil ≤ b.now)
    (hdeny : ∀ r, b.decision = .deny r →
      b.now + r = e'.bannedUntil ∧ (1 ≤ config.banSecs → 1 ≤ r)) :
    Tracked config (checks ++ [b]) e' := by
  refine ⟨hcounted, ?_, ?_⟩
  · intro a ha r hr
    rw [List.mem_append, List.mem_singleton] at ha
    rcases ha with ha | rfl
    · rcases h.pending a ha r hr with heq | ⟨c, hc, hle⟩
      · rcases hban with hsame | hover
        · exact .inl (heq.trans hsame.symm)
        · -- the check itself comes after the old ban
          exact .inr ⟨b, List.mem_append_right _ (List.mem_singleton_self _), heq ▸ hover⟩
      · exact .inr ⟨c, List.mem_append_left _ hc, hle⟩
    · exact .inl (hdeny r hr).1
  · intro a ha r hr hbans
    rw [List.mem_append, List.mem_singleton] at ha
    rcases ha with ha | rfl
    · exact h.lasting a ha r hr hbans
    · exact (hdeny r hr).2 hbans

/-- A tick keeps the promises made and the ties of the entry to them. -/
theorem Tracked.tick (h : Tracked config checks e) (peer : Bytes) (hfits : Fits config last)
    (hlater : ∀ a ∈ checks, a.now ≤ now) (hnow : now ≤ last)
    (htick : tick t e config now = .ok (decision, e')) :
    Kept config checks ⟨peer, now, decision, true⟩ ∧
      Tracked config (checks ++ [⟨peer, now, decision, true⟩]) e' := by
  -- banned, within the limit, or past it
  rcases tick_cases htick with ⟨hbanned, rfl, rfl⟩ | ⟨hend, count, hcount, hcase⟩
  · refine ⟨h.kept_of_banned peer hlater hbanned, h.append h.counted (.inl rfl) ?_⟩
    intro r hr
    cases hr
    simp only
    omega
  rcases h.adds hfits hnow with ⟨hlt, hdeadline⟩
  obtain rfl : (opened config e now).count + 1 = count := by
    rw [Target.u64, if_pos hlt] at hcount
    cases hcount
    rfl
  rcases hcase with ⟨hle, rfl, rfl⟩ | ⟨hgt, bannedUntil, hban, rfl, rfl⟩
  · refine ⟨h.kept_of_end peer hlater hend fun _ _ => rfl, h.append (fun _ _ => hle) (.inr hend) ?_⟩
    intro r hr
    cases hr
  · obtain rfl : now + config.banSecs = bannedUntil := by
      rw [Target.u64, if_pos (hdeadline hgt)] at hban
      cases hban
      rfl
    constructor
    · apply h.kept_of_end peer hlater hend
      -- a ban that has just ended resets the count, so one more is within the limit
      intro hrequests hbanned
      rcases opened_cases config e now with ⟨heq, _⟩ | ⟨_, hnone, _⟩
      · rw [heq] at hgt
        simp only at hgt
        omega
      · exact (hbanned hnone).elim
    · apply h.append _ (.inr hend)
      · intro r hr
        cases hr
        exact ⟨rfl, id⟩
      · intro hwindow hnone
        unfold Fits at hfits
        rw [if_neg (by omega)] at hfits
        simp only at hnone
        omega

/-! ## Whole runs -/

/-- The same of a peer that may have no entry yet: its promises so far are kept. -/
def KeptPeer (config : RateLimitConfig) (checks : List Answered) (e : Option PeerEntry) : Prop :=
  (∀ before b after, checks = before ++ b :: after → Kept config before b) ∧
    ∀ now, Tracked config checks (e.getD ⟨now, 0, 0⟩)

theorem keptPeer_nil (config : RateLimitConfig) : KeptPeer config [] none := by
  constructor
  · intro before b after heq
    have hlen := congrArg List.length heq
    simp at hlen
  · intro now
    exact Tracked.fresh config now

theorem KeptPeer.tick {e : Option PeerEntry} (h : KeptPeer config checks e)
    (hfits : Fits config last) (hlater : ∀ a ∈ checks, a.now ≤ now) (hnow : now ≤ last)
    (htick : RateLimiter.tick t (e.getD ⟨now, 0, 0⟩) config now = .ok (decision, e')) :
    KeptPeer config (checks ++ [⟨peer, now, decision, true⟩]) (some e') := by
  rcases (h.2 now).tick peer hfits hlater hnow htick with ⟨hkept, htracked⟩
  constructor
  · -- a check of the extended log is the new one, or was there before
    intro before b after heq
    rcases List.eq_nil_or_concat after with rfl | ⟨after', c, rfl⟩
    · rcases List.append_inj' heq rfl with ⟨rfl, hb⟩
      rw [← List.head_eq_of_cons_eq hb]
      exact hkept
    · rw [List.concat_eq_append, ← List.cons_append, ← List.append_assoc] at heq
      rcases List.append_inj' heq rfl with ⟨heq, _⟩
      exact h.1 before b after' heq
  · intro _
    exact htracked

/-- Time does not go back in a run. -/
theorem pairwise_of_run (run : Run t config log l) : log.Pairwise fun a b => a.now ≤ b.now := by
  induction run with
  | start => exact List.Pairwise.nil
  | check _ later _ ih =>
    rw [List.pairwise_append]
    refine ⟨ih, List.pairwise_singleton _ _, ?_⟩
    intro a ha b hb
    rw [List.mem_singleton.mp hb]
    exact later a ha

theorem keptPeer_of_run (henabled : config.enabled = true) (hfits : Fits config last)
    (run : Run t config log l) (few : distinctPeers log < maxEntries)
    (hlast : ∀ a ∈ log, a.now ≤ last) (peer : Bytes) :
    KeptPeer config (checksOf log peer) (l.entries.lookup peer) := by
  let P : List Answered → Option PeerEntry → Prop := fun checks e =>
    (∀ a ∈ checks, a.now ≤ last) → KeptPeer config checks e
  have hstart : P [] none := fun _ => keptPeer_nil config
  have hticked : ∀ checks e now decision entry, P checks e → (∀ a ∈ checks, a.now ≤ now) →
      RateLimiter.tick t (e.getD ⟨now, 0, 0⟩) config now = .ok (decision, entry) →
      P (checks ++ [⟨peer, now, decision, true⟩]) (some entry) := by
    intro checks e now decision entry ih hlater htick hbound
    have hnow : now ≤ last := hbound _ (List.mem_append_right _ (List.mem_singleton_self _))
    exact (ih fun a ha => hbound a (List.mem_append_left _ ha)).tick hfits hlater hnow htick
  apply peer_induction hstart hticked henabled run few
  intro a ha
  exact hlast a (mem_of_mem_checksOf ha).1

theorem promised_of_fits (henabled : config.enabled = true) (hfits : Fits config last)
    (run : Run t config log l) (few : distinctPeers log < maxEntries)
    (hlast : ∀ a ∈ log, a.now ≤ last) : Promised config log := by
  intro pre a mid b post hlog hpeer r hr
  have hsplit : checksOf log a.peer =
      (checksOf pre a.peer ++ a :: checksOf mid a.peer) ++ b :: checksOf post a.peer := by
    have hb : (b.peer == a.peer) = true := by simpa using hpeer
    simp only [hlog, checksOf, List.filter_append, List.filter_cons, BEq.rfl, if_true, hb,
      List.append_assoc, List.cons_append]
  rcases keptPeer_of_run henabled hfits run few hlast a.peer with ⟨hkept, htracked⟩
  have hmem : a ∈ checksOf pre a.peer ++ a :: checksOf mid a.peer := by simp
  rcases hkept _ b _ hsplit a hmem r hr with ⟨hdenied, hallowed⟩
  refine ⟨hdenied, ?_⟩
  intro hrequests hbans hpast hmid
  apply hallowed hrequests hbans hpast
  -- the checks before the denial are no later than it, and a ban lasts
  have hlasting : 1 ≤ r := by
    refine (htracked 0).lasting a ?_ r hr hbans
    rw [hsplit]
    exact List.mem_append_left _ hmem
  have hsorted := pairwise_of_run run
  rw [hlog, List.pairwise_append] at hsorted
  intro c hc
  rcases List.mem_append.mp hc with hc | hc
  · have hle := hsorted.2.2 c (mem_of_mem_checksOf hc).1 a List.mem_cons_self
    omega
  · rcases List.mem_cons.mp hc with rfl | hc
    · omega
    · exact hmid c (mem_of_mem_checksOf hc).1 (mem_of_mem_checksOf hc).2

theorem promise_of_fits (henabled : config.enabled = true) (hfits : Fits config last) :
    Promise config last := by
  intro t log l run few hlast
  refine ⟨promised_of_fits henabled hfits run few hlast, ?_⟩
  intro peer now _ hnow
  rcases tracksOnly_of_run henabled run few with ⟨hconfig, honly⟩
  rw [Ne, check_eq_panic_iff (by rw [hconfig, henabled]) (honly.length_le.trans_lt few), hconfig]
  have htracked := (keptPeer_of_run henabled hfits run few hlast peer).2 now
  exact htracked.not_panic hfits hnow

/-! ## Where it overflows -/

theorem u64_panic {n : Nat} (hchecked : t.checked = true) (h : u64Values ≤ n) :
    t.u64 n = (.panic : Outcome Empty Nat) := by
  rw [Target.u64, if_neg (by omega), if_pos hchecked]

/-- A counter that is not over the limit, or whose bans are 0 at time 0, keeps counting. -/
theorem opened_counting {k : Nat} (hwindow : 1 ≤ config.windowSecs) :
    opened config ⟨now, k, 0⟩ now = ⟨now, k, 0⟩ := by
  rcases opened_cases config ⟨now, k, 0⟩ now with ⟨_, hwhy⟩ | ⟨heq, _⟩
  · simp only at hwhy
    omega
  · exact heq

/-- A burst that is followed by an overflow. -/
theorem not_promise_of_burst {n : Nat} {answer : Nat → Decision} (henabled : config.enabled = true)
    (hnow : now ≤ last)
    (hticks : ∀ k, k < n → tick ⟨.w64, true⟩ ⟨now, k, 0⟩ config now =
      .ok (answer k, ⟨now, k + 1, 0⟩))
    (hpanic : tick ⟨.w64, true⟩ ⟨now, n, 0⟩ config now = .panic) : ¬ Promise config last := by
  intro hpromise
  rcases @run_burst _ config [] now n answer id henabled rfl hticks with ⟨l, run, hentry⟩
  have few : distinctPeers (burst [] now n answer) < maxEntries :=
    distinctPeers_burst.trans_lt (by decide)
  have hat : ∀ a ∈ burst [] now n answer, a.now = now := by
    intro a ha
    rcases mem_burst ha with ⟨k, _, rfl⟩
    rfl
  have hlast : ∀ a ∈ burst [] now n answer, a.now ≤ last := by
    intro a ha
    rw [hat a ha]
    exact hnow
  rcases tracksOnly_of_run henabled run few with ⟨hconfig, honly⟩
  -- one more check at the same time is promised not to panic
  refine (hpromise _ _ _ run few hlast).2 [] now (fun a ha => (hat a ha).le) hnow ?_
  rw [check_eq_panic_iff (by rw [hconfig, henabled]) (honly.length_le.trans_lt few), hentry,
    hconfig]
  exact hpanic

theorem tick_eq_panic_of_count {k : Nat} (hend : e.bannedUntil ≤ now)
    (hcount : (opened config e now).count = k) (hk : u64Values ≤ k + 1) :
    tick ⟨.w64, true⟩ e config now = .panic := by
  subst hcount
  have hpanic : (⟨.w64, true⟩ : Target).u64 ((opened config e now).count + 1) =
      (.panic : Outcome Empty Nat) := u64_panic rfl hk
  unfold opened at hpanic
  rw [tick, if_neg (by omega)]
  simp only [hpanic, Outcome.panic_bind]

theorem tick_eq_panic_of_deadline {n : Nat} (hend : e.bannedUntil ≤ now)
    (hcount : (⟨.w64, true⟩ : Target).u64 ((opened config e now).count + 1) =
      (.ok n : Outcome Empty Nat)) (hover : config.requests < n)
    (hlate : u64Values ≤ now + config.banSecs) :
    tick ⟨.w64, true⟩ e config now = .panic := by
  have hpanic : (⟨.w64, true⟩ : Target).u64 (now + config.banSecs) =
      (.panic : Outcome Empty Nat) := u64_panic rfl hlate
  unfold opened at hcount
  rw [tick, if_neg (by omega)]
  simp only [hcount, Outcome.ok_bind, hover, if_true, hpanic, Outcome.panic_bind]

/-- The answers of a counter that keeps counting past the limit. -/
def countingAnswer (config : RateLimitConfig) (k : Nat) : Decision :=
  if k < config.requests then .allow else .deny config.banSecs

/-- Within the limit, or where a ban is none, a tick only counts. -/
theorem tick_counting {k : Nat} (hwindow : 1 ≤ config.windowSecs) (hk : k + 1 < u64Values)
    (h : k < config.requests ∨ (now = 0 ∧ config.banSecs = 0)) :
    tick ⟨.w64, true⟩ ⟨now, k, 0⟩ config now = .ok (countingAnswer config k, ⟨now, k + 1, 0⟩) := by
  have hopened : opened config ⟨now, k, 0⟩ now = ⟨now, k, 0⟩ := opened_counting hwindow
  have hcount : (⟨.w64, true⟩ : Target).u64 ((opened config ⟨now, k, 0⟩ now).count + 1) =
      (.ok (k + 1) : Outcome Empty Nat) := by
    rw [hopened]
    exact if_pos hk
  unfold countingAnswer
  -- past the limit a ban is set, and it is none
  by_cases hlt : k < config.requests
  · rw [if_pos hlt, tick_of_allow (Nat.zero_le _) hcount (by omega), hopened]
  · rcases h with h | ⟨hnow, hban⟩
    · exact (hlt h).elim
    · have hnone : (⟨.w64, true⟩ : Target).u64 (now + config.banSecs) =
          (.ok 0 : Outcome Empty Nat) := by
        rw [hnow, hban]
        rfl
      rw [if_neg hlt, tick_of_deny (Nat.zero_le _) hcount (by omega) hnone, hopened]

theorem not_promise (henabled : config.enabled = true) (hfits : ¬ Fits config last) :
    ¬ Promise config last := by
  unfold Fits at hfits
  split at hfits
  · rename_i hwindow
    -- the first check is denied until a deadline that does not fit
    have hpanic : tick ⟨.w64, true⟩ ⟨last, 0, 0⟩ config last = .panic := by
      refine tick_eq_panic_of_deadline (n := 1) (Nat.zero_le _) ?_ (by omega) (by omega)
      rcases opened_cases config ⟨last, 0, 0⟩ last with ⟨heq, _⟩ | ⟨heq, _⟩
      · rw [heq]
        rfl
      · rw [heq]
        rfl
    have hnone : ∀ k, k < 0 → tick ⟨.w64, true⟩ ⟨last, k, 0⟩ config last =
        .ok (countingAnswer config k, ⟨last, k + 1, 0⟩) := by
      intro k hk
      exact (Nat.not_lt_zero k hk).elim
    exact not_promise_of_burst henabled (Nat.le_refl _) hnone hpanic
  · rename_i hwindow
    have hpos : 1 ≤ config.windowSecs := by omega
    by_cases hcounter : config.banSecs = 0 ∨ u64Values ≤ config.requests + 1
    · -- the counter runs over at time 0
      have hticks : ∀ k, k < u64Values - 1 → tick ⟨.w64, true⟩ ⟨0, k, 0⟩ config 0 =
          .ok (countingAnswer config k, ⟨0, k + 1, 0⟩) := by
        intro k hk
        exact tick_counting hpos (by omega) (by omega)
      apply not_promise_of_burst henabled (Nat.zero_le _) hticks
      · apply tick_eq_panic_of_count (Nat.zero_le _) (k := u64Values - 1)
        · rw [opened_counting hpos]
        · omega
    · -- the limit is reached at the last time, and the deadline runs over
      have hticks : ∀ k, k < config.requests → tick ⟨.w64, true⟩ ⟨last, k, 0⟩ config last =
          .ok (countingAnswer config k, ⟨last, k + 1, 0⟩) := by
        intro k hk
        exact tick_counting hpos (by omega) (.inl hk)
      apply not_promise_of_burst henabled (Nat.le_refl last) hticks
      · apply tick_eq_panic_of_deadline (n := config.requests + 1) (Nat.zero_le _)
        · have hlt : config.requests + 1 < u64Values := by omega
          rw [opened_counting hpos]
          exact if_pos hlt
        · exact Nat.lt_succ_self _
        · omega

/-- Up to which time the promises are kept and nothing overflows. -/
theorem promise_iff (henabled : config.enabled = true) : Promise config last ↔ Fits config last := by
  constructor
  · intro hpromise
    by_contra hfits
    exact not_promise henabled hfits hpromise
  · exact promise_of_fits henabled

/-- The default limits keep their promises until the year 2100. -/
theorem promise_iff_default :
    Promise RateLimitConfig.default 4102444800 ↔ Fits RateLimitConfig.default 4102444800 :=
  promise_iff rfl

/-- An accepted configuration whose ban is the longest one. -/
def longestBan : String :=
  "\x7b\"security\": \x7b\"rate_limit\": \x7b\"requests\": 1, \"ban_secs\": 18446744073709551615\x7d\x7d\x7d"

/-- A release build wraps the deadline around: the ban is over after a second. -/
theorem run_longestBan : ∃ l, Run ⟨.w64, false⟩ ⟨true, 1, 600, u64Values - 1⟩
    [⟨[], 2, .allow, true⟩, ⟨[], 2, .deny (u64Values - 1), true⟩, ⟨[], 3, .allow, true⟩] l := by
  have htick₁ : tick ⟨.w64, false⟩ ⟨2, 0, 0⟩ ⟨true, 1, 600, u64Values - 1⟩ 2 =
      .ok (.allow, ⟨2, 1, 0⟩) := rfl
  have htick₂ : tick ⟨.w64, false⟩ ⟨2, 1, 0⟩ ⟨true, 1, 600, u64Values - 1⟩ 2 =
      .ok (.deny (u64Values - 1), ⟨2, 2, 1⟩) := rfl
  have htick₃ : tick ⟨.w64, false⟩ ⟨2, 2, 1⟩ ⟨true, 1, 600, u64Values - 1⟩ 3 =
      .ok (.allow, ⟨3, 1, 0⟩) := rfl
  rcases @run_tick _ _ _ _ [] _ _ _ _ rfl .start (by decide) (by simp) rfl htick₁ with
    ⟨l₁, run₁, hlook₁⟩
  rcases run_tick rfl run₁ (by decide) (by simp) hlook₁ htick₂ with ⟨l₂, run₂, hlook₂⟩
  rcases run_tick rfl run₂ (by decide) (by simp) hlook₂ htick₃ with ⟨l₃, run₃, _⟩
  exact ⟨l₃, run₃⟩

theorem not_promise_longestBan : ¬ ∀ t text (c : Config), Config.fromJsonStr t text = .ok c →
    c.security.rateLimit.enabled = true → ∀ log l, Run t c.security.rateLimit log l →
    distinctPeers log < maxEntries → Promised c.security.rateLimit log := by
  intro h
  have haccepted : Config.fromJsonStr ⟨.w64, false⟩ longestBan = .ok { Config.default with
      security := { SecurityConfig.default with
        rateLimit := ⟨true, 1, 600, u64Values - 1⟩ } } := by
    decide +kernel
  rcases run_longestBan with ⟨l, run⟩
  have hkept := h _ _ _ haccepted rfl _ l run (by decide) [⟨[], 2, .allow, true⟩]
    ⟨[], 2, .deny (u64Values - 1), true⟩ [] ⟨[], 3, .allow, true⟩ [] rfl rfl _ rfl
  have hdenied := hkept.1 (by decide)
  cases hdenied

end RateLimiter

end FerroHttp
