import FerroHttp.Security.Isolation

/-!
# Security.FewPeers — runs in which nobody is evicted

With fewer distinct peers than places, every check is recorded and an entry changes
only by the ticks of its own peer. `peer_induction` is the resulting induction rule: a
property of one peer's checks and entry need only be kept by a tick.

`run_burst` builds the runs that show where the bounds on the counters are sharp: one
peer, any number of checks at one time.
-/

namespace FerroHttp

namespace RateLimiter

open Exec Text

/-- The number of distinct peers of a run. -/
def distinctPeers (log : List Answered) : Nat := (log.map (·.peer)).dedup.length

/-- The checks of one peer. -/
def checksOf (log : List Answered) (peer : Bytes) : List Answered :=
  log.filter fun a => a.peer == peer

variable {t : Target} {config : RateLimitConfig} {log : List Answered} {l l' : RateLimiter}
  {peer : Bytes} {now : Nat} {decision : Decision}

/-! ## One peer at a time -/

theorem distinctPeers_le_snoc (log : List Answered) (a : Answered) :
    distinctPeers log ≤ distinctPeers (log ++ [a]) := by
  -- more checks, more peers
  unfold distinctPeers
  refine List.Subperm.length_le (List.subperm_of_subset (List.nodup_dedup _) ?_)
  intro p hp
  rw [List.mem_dedup] at hp ⊢
  rw [List.map_append]
  exact List.mem_append_left _ hp

theorem checksOf_snoc (log : List Answered) (a : Answered) (peer : Bytes) :
    checksOf (log ++ [a]) peer = checksOf log peer ++ if a.peer == peer then [a] else [] := by
  rw [checksOf, checksOf, List.filter_append, List.filter_singleton]
  cases a.peer == peer <;> rfl

theorem mem_of_mem_checksOf {a : Answered} (h : a ∈ checksOf log peer) :
    a ∈ log ∧ a.peer = peer := by
  rw [checksOf, List.mem_filter] at h
  exact ⟨h.1, by simpa using h.2⟩

/-- The tracked peers are peers of the run. -/
def TracksOnly (log : List Answered) (l : RateLimiter) : Prop :=
  l.entries.keys ⊆ log.map (·.peer)

theorem TracksOnly.length_le (h : TracksOnly log l) :
    l.entries.keys.length ≤ distinctPeers log := by
  refine List.Subperm.length_le (List.subperm_of_subset l.entries.keys_nodup ?_)
  intro p hp
  exact List.mem_dedup.mpr (h hp)

/-- With a place for everybody, a check ticks the peer's entry and leaves the others. -/
theorem check_few (henabled : l.config.enabled = true) (hroom : l.entries.keys.length < maxEntries)
    (step : l.check t peer now = .ok (decision, l')) :
    ∃ entry, tick t ((l.entries.lookup peer).getD ⟨now, 0, 0⟩) l.config now =
        .ok (decision, entry) ∧
      l' = { l with entries := l.entries.insert peer entry } := by
  unfold check at step
  rw [henabled, Bool.not_true, if_neg Bool.false_ne_true] at step
  cases hlook : l.entries.lookup peer with
  | some entry =>
    rw [hlook] at step
    rcases Outcome.bind_eq_ok.mp step with ⟨⟨d, entry'⟩, htick, heq⟩
    cases heq
    exact ⟨entry', htick, rfl⟩
  | none =>
    rw [hlook] at step
    -- there is room, so nothing is evicted
    simp only [show ¬ maxEntries ≤ l.entries.keys.length by omega, if_false] at step
    rcases Outcome.bind_eq_ok.mp step with ⟨⟨d, entry'⟩, htick, heq⟩
    cases heq
    exact ⟨entry', htick, rfl⟩

/-- The converse: the tick decides the check. -/
theorem check_of_tick {entry : PeerEntry} (henabled : l.config.enabled = true)
    (hroom : l.entries.keys.length < maxEntries)
    (htick : tick t ((l.entries.lookup peer).getD ⟨now, 0, 0⟩) l.config now =
      .ok (decision, entry)) :
    l.check t peer now =
      .ok (decision, { l with entries := l.entries.insert peer entry }) := by
  unfold check
  rw [henabled, Bool.not_true, if_neg Bool.false_ne_true]
  cases hlook : l.entries.lookup peer with
  | some old =>
    rw [hlook, Option.getD_some] at htick
    simp only [htick, Outcome.ok_bind, Outcome.pure_eq]
  | none =>
    rw [hlook, Option.getD_none] at htick
    simp only [show ¬ maxEntries ≤ l.entries.keys.length by omega, if_false, track, htick,
      Outcome.ok_bind, Outcome.pure_eq]

/-- A check panics exactly when the tick does. -/
theorem check_eq_panic_iff (henabled : l.config.enabled = true)
    (hroom : l.entries.keys.length < maxEntries) :
    l.check t peer now = .panic ↔
      tick t ((l.entries.lookup peer).getD ⟨now, 0, 0⟩) l.config now = .panic := by
  unfold check
  rw [henabled, Bool.not_true, if_neg Bool.false_ne_true]
  cases hlook : l.entries.lookup peer with
  | some old =>
    simp only [Outcome.bind_eq_panic, Option.getD_some]
    exact ⟨fun h => h.elim id (by rintro ⟨a, _, ha⟩; cases ha), .inl⟩
  | none =>
    simp only [show ¬ maxEntries ≤ l.entries.keys.length by omega, if_false, track,
      Outcome.bind_eq_panic, Option.getD_none]
    exact ⟨fun h => h.elim id (by rintro ⟨a, _, ha⟩; cases ha), .inl⟩

/-- What a run with few peers looks like from the map. -/
theorem tracksOnly_of_run (henabled : config.enabled = true) (run : Run t config log l)
    (few : distinctPeers log < maxEntries) : l.config = config ∧ TracksOnly log l := by
  induction run with
  | start => exact ⟨rfl, List.nil_subset _⟩
  | @check log l l' peer now decision _ _ step ih =>
    rcases ih ((distinctPeers_le_snoc ..).trans_lt few) with ⟨hconfig, honly⟩
    have hroom : l.entries.keys.length < maxEntries :=
      (honly.length_le.trans (distinctPeers_le_snoc ..)).trans_lt few
    rcases check_few (by rw [hconfig, henabled]) hroom step with ⟨entry, _, rfl⟩
    refine ⟨hconfig, ?_⟩
    intro p hp
    rw [← AList.mem_keys, AList.mem_insert] at hp
    rw [List.map_append, List.mem_append]
    rcases hp with rfl | hp
    · exact .inr (List.mem_singleton_self _)
    · exact .inl (honly (AList.mem_keys.mp hp))

/-- The induction rule of runs with few peers: what holds of a peer without checks and is
kept by a tick holds of the peer's checks and entry. -/
theorem peer_induction {P : List Answered → Option PeerEntry → Prop} (start : P [] none)
    (ticked : ∀ checks e now decision entry, P checks e → (∀ a ∈ checks, a.now ≤ now) →
      tick t (e.getD ⟨now, 0, 0⟩) config now = .ok (decision, entry) →
      P (checks ++ [⟨peer, now, decision, true⟩]) (some entry))
    (henabled : config.enabled = true) (run : Run t config log l)
    (few : distinctPeers log < maxEntries) :
    P (checksOf log peer) (l.entries.lookup peer) := by
  induction run with
  | start => exact start
  | @check log l l' p now decision before later step ih =>
    -- the prefix of the run has few peers too
    have few' := (distinctPeers_le_snoc ..).trans_lt few
    rcases tracksOnly_of_run henabled before few' with ⟨hconfig, honly⟩
    rcases check_few (by rw [hconfig, henabled]) (honly.length_le.trans_lt few') step with
      ⟨entry, htick, rfl⟩
    rw [checksOf_snoc]
    by_cases hp : p = peer
    · subst hp
      -- a check of the peer itself is a tick of its entry
      simp only [BEq.rfl, if_true, AList.lookup_insert, Option.isSome_some]
      rw [hconfig] at htick
      refine ticked _ _ _ _ _ (ih few') ?_ htick
      intro a ha
      exact later a (mem_of_mem_checksOf ha).1
    · have hbeq : (p == peer) = false := by simpa using hp
      rw [hbeq, if_neg (by simp), List.append_nil, AList.lookup_insert_ne (Ne.symm hp)]
      exact ih few'

/-- One more tick, with a place for everybody. -/
theorem run_tick {e : Option PeerEntry} {entry : PeerEntry} (henabled : config.enabled = true)
    (run : Run t config log l) (few : distinctPeers log < maxEntries)
    (later : ∀ a ∈ log, a.now ≤ now) (hlook : l.entries.lookup peer = e)
    (htick : tick t (e.getD ⟨now, 0, 0⟩) config now = .ok (decision, entry)) :
    ∃ l', Run t config (log ++ [⟨peer, now, decision, true⟩]) l' ∧
      l'.entries.lookup peer = some entry := by
  rcases tracksOnly_of_run henabled run few with ⟨hconfig, honly⟩
  rw [← hlook, ← hconfig] at htick
  have step := check_of_tick (by rw [hconfig, henabled]) (honly.length_le.trans_lt few) htick
  have run' := Run.check run later step
  simp only [AList.lookup_insert, Option.isSome_some] at run'
  refine ⟨_, run', ?_⟩
  simp only [AList.lookup_insert]

/-! ## Bursts -/

/-- The checks of a burst: `n` checks of one peer at one time. -/
def burst (peer : Bytes) (now n : Nat) (answer : Nat → Decision) : List Answered :=
  (List.range n).map fun k => ⟨peer, now, answer k, true⟩

variable {n : Nat} {answer : Nat → Decision} {count : Nat → Nat}

theorem burst_succ : burst peer now (n + 1) answer =
    burst peer now n answer ++ [⟨peer, now, answer n, true⟩] := by
  rw [burst, List.range_succ, List.map_append]
  rfl

theorem mem_burst {a : Answered} (h : a ∈ burst peer now n answer) :
    ∃ k, k < n ∧ a = ⟨peer, now, answer k, true⟩ := by
  rcases List.mem_map.mp h with ⟨k, hk, rfl⟩
  exact ⟨k, List.mem_range.mp hk, rfl⟩

theorem distinctPeers_burst : distinctPeers (burst peer now n answer) ≤ 1 := by
  have hsub : ((burst peer now n answer).map (·.peer)).dedup ⊆ [peer] := by
    intro p hp
    rcases List.mem_map.mp (List.mem_dedup.mp hp) with ⟨a, ha, rfl⟩
    rcases mem_burst ha with ⟨k, _, rfl⟩
    exact List.mem_singleton_self _
  exact (List.subperm_of_subset (List.nodup_dedup _) hsub).length_le

/-- A burst is a run, as long as its ticks go through in one window. -/
theorem run_burst (henabled : config.enabled = true) (hzero : count 0 = 0)
    (hticks : ∀ k, k < n → tick t ⟨now, count k, 0⟩ config now =
      .ok (answer k, ⟨now, count (k + 1), 0⟩)) :
    ∃ l, Run t config (burst peer now n answer) l ∧
      (l.entries.lookup peer).getD ⟨now, 0, 0⟩ = ⟨now, count n, 0⟩ := by
  induction n with
  | zero =>
    refine ⟨_, .start, ?_⟩
    rw [hzero]
    rfl
  | succ n ih =>
    rcases ih fun k hk => hticks k (by omega) with ⟨l, run, hentry⟩
    have few : distinctPeers (burst peer now n answer) < maxEntries :=
      distinctPeers_burst.trans_lt (by decide)
    have htick : tick t ((l.entries.lookup peer).getD ⟨now, 0, 0⟩) config now =
        .ok (answer n, ⟨now, count (n + 1), 0⟩) := by
      rw [hentry]
      exact hticks n (by omega)
    -- all checks of a burst have the same time
    have hlater : ∀ a ∈ burst peer now n answer, a.now ≤ now := by
      intro a ha
      rcases mem_burst ha with ⟨k, _, rfl⟩
      exact Nat.le_refl _
    rcases run_tick henabled run few hlater rfl htick with ⟨l', run', hlook⟩
    rw [burst_succ]
    refine ⟨l', run', ?_⟩
    rw [hlook]
    rfl

end RateLimiter

end FerroHttp
