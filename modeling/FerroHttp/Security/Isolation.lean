import FerroHttp.Lib.Table
import FerroHttp.Security.Reference

/-!
# Security.Isolation — the limiter refines one reference per peer

Peers share a bounded map, and the entries of idle peers are evicted on behalf of
others. None of this shows: a tracked peer's entry is the reference's, and the entry
of an evicted peer is one the reference would reset at its next check anyway.

* `Mirrors` is that invariant; `Mirrors.evict` and `Mirrors.recorded` are its two steps
  and `mirrors_of_run` the induction over a run;
* `check_isolated` reads the decisions off it.
-/

namespace FerroHttp

namespace RateLimiter

open Exec Text

variable {t : Target} {config : RateLimitConfig}

/-! ## Stale entries -/

section Stale

variable {e : PeerEntry} {now now' : Nat}

theorem isStale_iff : isStale config now e = true ↔
    e.bannedUntil ≤ now ∧ config.windowSecs ≤ now - e.windowStart := by
  simp [isStale]

/-- A stale entry stays stale. -/
theorem isStale_mono (h : isStale config now e = true) (hle : now ≤ now') :
    isStale config now' e = true := by
  rw [isStale_iff] at h ⊢
  omega

/-- The next tick of a stale entry is the first tick of a fresh one. -/
theorem tick_of_isStale (h : isStale config now e = true) :
    tick t e config now = tick t ⟨now, 0, 0⟩ config now := by
  rw [isStale_iff] at h
  have hold : ¬ now < e.bannedUntil := by omega
  have hnew : ¬ now < 0 := by omega
  unfold tick
  simp only [hold, hnew, h.2, if_false, or_true, if_true, ne_eq, not_true_eq_false, false_or,
    Nat.sub_self, ite_self]

end Stale

/-! ## Eviction -/

section Evict

variable {l : RateLimiter} {now : Nat} {peer : Bytes}

@[simp] theorem evictExpired_config : (l.evictExpired now).config = l.config := by
  unfold evictExpired
  split <;> rfl

theorem length_evictExpired_le :
    (l.evictExpired now).entries.keys.length ≤ l.entries.keys.length := by
  unfold evictExpired
  split
  · exact Nat.le_refl _
  · exact Table.length_foldl_erase_le _ _

/-- Eviction keeps an entry, or drops a stale one. -/
theorem lookup_evictExpired (l : RateLimiter) (now : Nat) (peer : Bytes) :
    (l.evictExpired now).entries.lookup peer = l.entries.lookup peer ∨
      ((l.evictExpired now).entries.lookup peer = none ∧
        ∃ e, l.entries.lookup peer = some e ∧ isStale l.config now e = true) := by
  unfold evictExpired
  split
  · exact .inl rfl
  · simp only
    rw [Table.lookup_foldl_erase]
    split
    · rename_i hmem
      have hstale := (List.mem_filter.mp hmem).2
      rcases (Option.any_eq_true ..).mp hstale with ⟨e, he, hstale⟩
      exact .inr ⟨rfl, e, he, hstale⟩
    · exact .inl rfl

end Evict

/-! ## The invariant -/

/-- The map knows of a peer what its reference knows, or it has evicted an entry that
is stale from the last check on. -/
def Mirrors1 (config : RateLimitConfig) (log : List Answered) (tracked e : Option PeerEntry) :
    Prop :=
  tracked = e ∨ (tracked = none ∧ ∃ entry, e = some entry ∧
    ∀ now, (∀ a ∈ log, a.now ≤ now) → isStale config now entry = true)

/-- The limiter after `log` mirrors the references of all peers. -/
structure Mirrors (t : Target) (config : RateLimitConfig) (log : List Answered) (l : RateLimiter) :
    Prop where
  sameConfig : l.config = config
  bounded : l.entries.keys.length ≤ maxEntries
  peers : ∀ peer, ∃ e,
    reference t config ((recordedOf log peer).map (·.now)) =
      .ok ((recordedOf log peer).map (·.decision), e) ∧
    Mirrors1 config log (l.entries.lookup peer) e

section Invariant

variable {log : List Answered} {l l' : RateLimiter} {peer : Bytes} {now : Nat}
  {decision : Decision} {tracked e : Option PeerEntry} {entry : PeerEntry} {a : Answered}

theorem mirrors_start : Mirrors t config [] (RateLimiter.new config) := by
  refine ⟨rfl, Nat.zero_le _, ?_⟩
  intro peer
  exact ⟨none, reference_nil, .inl rfl⟩

/-- Staleness outlives later checks. -/
theorem Mirrors1.snoc (h : Mirrors1 config log tracked e) (a : Answered) :
    Mirrors1 config (log ++ [a]) tracked e := by
  rcases h with h | ⟨hnone, entry, he, hstale⟩
  · exact .inl h
  · refine .inr ⟨hnone, entry, he, ?_⟩
    intro now hnow
    exact hstale now fun b hb => hnow b (List.mem_append_left _ hb)

/-- Eviction for a check is invisible. -/
theorem Mirrors1.evict (h : Mirrors1 config log (l.entries.lookup peer) e)
    (hconfig : l.config = config) (a : Answered) :
    Mirrors1 config (log ++ [a]) ((l.evictExpired a.now).entries.lookup peer) e := by
  rcases lookup_evictExpired l a.now peer with hsame | ⟨hnone, entry, hentry, hstale⟩
  · rw [hsame]
    exact h.snoc a
  · rcases h with heq | ⟨htracked, _⟩
    · -- the entry was evicted: it stays stale from this check on
      refine .inr ⟨hnone, entry, by rw [← heq, hentry], ?_⟩
      intro now hnow
      rw [hconfig] at hstale
      exact isStale_mono hstale (hnow a (by simp))
    · rw [hentry] at htracked
      cases htracked

theorem recordedOf_snoc (log : List Answered) (a : Answered) (peer : Bytes) :
    recordedOf (log ++ [a]) peer =
      recordedOf log peer ++ if a.recorded && a.peer == peer then [a] else [] := by
  rw [recordedOf, recordedOf, List.filter_append, List.filter_singleton]
  cases a.recorded && a.peer == peer <;> rfl

/-- A check that tracks nobody new leaves the references as they are. -/
theorem Mirrors.unrecorded (h : Mirrors t config log l) (a : Answered) (ha : a.recorded = false) :
    Mirrors t config (log ++ [a]) (l.evictExpired a.now) := by
  refine ⟨by rw [evictExpired_config, h.sameConfig], ?_, ?_⟩
  · exact length_evictExpired_le.trans h.bounded
  · intro peer
    rcases h.peers peer with ⟨e, href, hm⟩
    rw [recordedOf_snoc, ha, Bool.false_and, if_neg (by simp), List.append_nil]
    exact ⟨e, href, hm.evict h.sameConfig a⟩

/-- A recorded check is one more check of its peer's reference. The map before it is
`m`: the limiter's, perhaps after an eviction. -/
theorem Mirrors.recorded {m : RateLimiter} (h : Mirrors t config log l)
    (hm : ∀ p e, Mirrors1 config log (l.entries.lookup p) e →
      Mirrors1 config (log ++ [⟨peer, now, decision, true⟩]) (m.entries.lookup p) e)
    (hconfig : m.config = config)
    (hroom : (m.entries.insert peer entry).keys.length ≤ maxEntries)
    (htick : ∀ e, Mirrors1 config log (l.entries.lookup peer) e →
      tick t (e.getD ⟨now, 0, 0⟩) config now = .ok (decision, entry)) :
    Mirrors t config (log ++ [⟨peer, now, decision, true⟩])
      { m with entries := m.entries.insert peer entry } := by
  refine ⟨hconfig, hroom, ?_⟩
  intro p
  rcases h.peers p with ⟨e, href, hp⟩
  by_cases hsame : peer = p
  · subst hsame
    -- the peer's own reference ticks along
    refine ⟨some entry, ?_, .inl (AList.lookup_insert _)⟩
    rw [recordedOf_snoc, Bool.true_and, if_pos BEq.rfl, List.map_append, List.map_append]
    exact reference_snoc href (htick e hp)
  · have hbeq : (peer == p) = false := by simpa using hsame
    refine ⟨e, ?_, ?_⟩
    · rw [recordedOf_snoc, Bool.true_and, hbeq, if_neg (by simp), List.append_nil]
      exact href
    · rw [AList.lookup_insert_ne (Ne.symm hsame)]
      exact hm p e hp

/-! ## Runs -/

/-- What an enabled limiter does with a check: an untracked peer goes unrecorded when
the map stays full, and every other check ticks the peer's entry. -/
theorem check_cases (henabled : l.config.enabled = true)
    (step : l.check t peer now = .ok (decision, l')) :
    (l.entries.lookup peer = none ∧ maxEntries ≤ (l.evictExpired now).entries.keys.length ∧
        decision = .allow ∧ l' = l.evictExpired now) ∨
      ∃ m entry, (m = l ∨ m = l.evictExpired now) ∧
        (l.entries.lookup peer = none → m.entries.keys.length < maxEntries) ∧
        (l.entries.lookup peer ≠ none → m = l) ∧
        tick t ((l.entries.lookup peer).getD ⟨now, 0, 0⟩) l.config now = .ok (decision, entry) ∧
        l' = { m with entries := m.entries.insert peer entry } := by
  unfold check at step
  rw [henabled, Bool.not_true, if_neg Bool.false_ne_true] at step
  cases hlook : l.entries.lookup peer with
  | some entry =>
    -- a known peer is ticked without an eviction
    rw [hlook] at step
    rcases Outcome.bind_eq_ok.mp step with ⟨⟨d, entry'⟩, htick, heq⟩
    cases heq
    refine .inr ⟨l, entry', .inl rfl, ?_, fun _ => rfl, htick, rfl⟩
    intro hnone
    cases hnone
  | none =>
    rw [hlook] at step
    simp only at step
    by_cases hfull : maxEntries ≤ l.entries.keys.length
    · rw [if_pos hfull] at step
      by_cases hstill : maxEntries ≤ (l.evictExpired now).entries.keys.length
      · rw [if_pos hstill] at step
        cases step
        exact .inl ⟨rfl, hstill, rfl, rfl⟩
      · -- the eviction made room
        rw [if_neg hstill] at step
        rcases Outcome.bind_eq_ok.mp step with ⟨⟨d, entry'⟩, htick, heq⟩
        rw [evictExpired_config] at htick
        cases heq
        exact .inr ⟨l.evictExpired now, entry', .inr rfl, fun _ => by omega,
          fun h => (h rfl).elim, htick, rfl⟩
    · rw [if_neg hfull] at step
      rcases Outcome.bind_eq_ok.mp step with ⟨⟨d, entry'⟩, htick, heq⟩
      cases heq
      exact .inr ⟨l, entry', .inl rfl, fun _ => by omega, fun _ => rfl, htick, rfl⟩

/-- Tracking a peer stays within the bound: it takes a free place or its own. -/
theorem length_insert_le {entries : AList fun _ : Bytes => PeerEntry}
    (hbounded : entries.keys.length ≤ maxEntries)
    (hroom : entries.lookup peer = none → entries.keys.length < maxEntries) :
    (entries.insert peer entry).keys.length ≤ maxEntries := by
  -- inserting erases the old place first
  rw [AList.keys_insert, List.length_cons, ← AList.keys_erase]
  cases hlook : entries.lookup peer with
  | none =>
    have hle := Table.length_erase_le peer entries
    have hlt := hroom hlook
    omega
  | some old =>
    have hmem : peer ∈ entries.keys := by
      rw [← AList.mem_keys, ← AList.lookup_isSome, hlook]
      rfl
    have hlen := @List.length_erase_of_mem _ instBEqOfDecidableEq _ peer entries.keys hmem
    have hpos := List.length_pos_of_mem hmem
    rw [AList.keys_erase]
    omega

/-- Every check keeps the invariant. -/
theorem Mirrors.check (h : Mirrors t config log l) (henabled : config.enabled = true)
    (later : ∀ a ∈ log, a.now ≤ now) (step : l.check t peer now = .ok (decision, l')) :
    Mirrors t config (log ++ [⟨peer, now, decision, (l'.entries.lookup peer).isSome⟩]) l' := by
  have henabled' : l.config.enabled = true := by rw [h.sameConfig, henabled]
  rcases check_cases henabled' step with
    ⟨hnone, _, rfl, rfl⟩ | ⟨m, entry, hm, hroom, hsame, htick, rfl⟩
  · refine h.unrecorded ⟨peer, now, _, _⟩ ?_
    -- an untracked peer is not tracked by evicting others
    rcases lookup_evictExpired l now peer with heq | ⟨heq, _⟩
    · simp only [heq, hnone, Option.isSome_none]
    · simp only [heq, Option.isSome_none]
  · simp only [AList.lookup_insert, Option.isSome_some]
    refine h.recorded ?_ ?_ ?_ ?_
    · intro p e hp
      rcases hm with rfl | rfl
      · exact hp.snoc _
      · exact hp.evict h.sameConfig _
    · rcases hm with rfl | rfl
      · exact h.sameConfig
      · rw [evictExpired_config, h.sameConfig]
    · refine length_insert_le ?_ ?_
      · rcases hm with rfl | rfl
        · exact h.bounded
        · exact length_evictExpired_le.trans h.bounded
      · intro hmnone
        by_cases hlook : l.entries.lookup peer = none
        · exact hroom hlook
        · rw [hsame hlook] at hmnone
          exact (hlook hmnone).elim
    · intro e he
      rw [h.sameConfig] at htick
      rcases he with rfl | ⟨hnone, old, rfl, hstale⟩
      · exact htick
      · -- the reference still has the evicted entry, and resets it now
        rw [hnone] at htick
        exact (tick_of_isStale (hstale now later)).trans htick

/-- Along every run the limiter mirrors the references. -/
theorem mirrors_of_run (henabled : config.enabled = true) (run : Run t config log l) :
    Mirrors t config log l := by
  induction run with
  | start => exact mirrors_start
  | check _ later step ih => exact ih.check henabled later step

end Invariant

/-! ## Isolation -/

section Isolated

variable {log : List Answered} {l l' : RateLimiter} {peer : Bytes} {now : Nat}
  {decision : Decision}

/-- In every run the map stays bounded, a check goes unrecorded exactly when its peer is
untracked and eviction leaves the map full, and every other decision is that of the
peer's reference limiter after the peer's own recorded checks. -/
theorem check_isolated (henabled : config.enabled = true) (run : Run t config log l)
    (later : ∀ a ∈ log, a.now ≤ now) (step : l.check t peer now = .ok (decision, l')) :
    l'.entries.keys.length ≤ maxEntries ∧
      ((decision = .allow ∧ l'.entries.lookup peer = none) ↔
        l.entries.lookup peer = none ∧
          maxEntries ≤ (l.evictExpired now).entries.keys.length) ∧
      (¬ (decision = .allow ∧ l'.entries.lookup peer = none) → ∃ e,
        reference t config ((recordedOf log peer).map (·.now) ++ [now]) =
          .ok ((recordedOf log peer).map (·.decision) ++ [decision], e)) := by
  have hmirrors := mirrors_of_run henabled run
  have hafter := hmirrors.check henabled later step
  have henabled' : l.config.enabled = true := by rw [hmirrors.sameConfig, henabled]
  refine ⟨hafter.bounded, ?_⟩
  rcases check_cases henabled' step with
    ⟨hnone, hfull, rfl, rfl⟩ | ⟨m, entry, hm, hroom, hsame, htick, rfl⟩
  · have hgone : (l.evictExpired now).entries.lookup peer = none := by
      rcases lookup_evictExpired l now peer with heq | ⟨heq, _⟩
      · rw [heq, hnone]
      · exact heq
    exact ⟨⟨fun _ => ⟨hnone, hfull⟩, fun _ => ⟨rfl, hgone⟩⟩, fun hother => (hother ⟨rfl, hgone⟩).elim⟩
  · refine ⟨⟨?_, ?_⟩, ?_⟩
    · rintro ⟨_, hlook⟩
      rw [AList.lookup_insert] at hlook
      cases hlook
    · -- a peer that found room did so before or after the eviction
      rintro ⟨hnone, hfull⟩
      have hlt := hroom hnone
      have hle : (l.evictExpired now).entries.keys.length ≤ l.entries.keys.length :=
        length_evictExpired_le
      rcases hm with rfl | rfl <;> omega
    · intro _
      rcases hafter.peers peer with ⟨e, href, _⟩
      refine ⟨e, ?_⟩
      simp only [AList.lookup_insert, Option.isSome_some] at href
      rw [recordedOf_snoc, Bool.true_and, if_pos BEq.rfl, List.map_append, List.map_append] at href
      exact href

/-- A configuration of one request per ten seconds. -/
def onePerTen : RateLimitConfig := ⟨true, 1, 10, 60⟩

/-- The limiter after the first check of its only peer, and after the second. -/
def afterFirst : RateLimiter := ⟨onePerTen, (∅ : AList _).insert [1] ⟨5, 1, 0⟩, 0⟩

def afterSecond : RateLimiter := ⟨onePerTen, afterFirst.entries.insert [1] ⟨5, 2, 66⟩, 0⟩

theorem check_isolated_second :
    afterSecond.entries.keys.length ≤ maxEntries ∧
      ((Decision.deny 60 = .allow ∧ afterSecond.entries.lookup [1] = none) ↔
        afterFirst.entries.lookup [1] = none ∧
          maxEntries ≤ (afterFirst.evictExpired 6).entries.keys.length) ∧
      (¬ (Decision.deny 60 = .allow ∧ afterSecond.entries.lookup [1] = none) → ∃ e,
        reference ⟨.w64, false⟩ onePerTen ([5] ++ [6]) = .ok ([.allow] ++ [.deny 60], e)) := by
  have step : (new onePerTen).check ⟨.w64, false⟩ [1] 5 = .ok (.allow, afterFirst) := rfl
  have run := Run.check .start (by simp) step
  have step' : afterFirst.check ⟨.w64, false⟩ [1] 6 = .ok (.deny 60, afterSecond) := rfl
  exact check_isolated rfl run (by simp) step'

end Isolated

end RateLimiter

end FerroHttp
