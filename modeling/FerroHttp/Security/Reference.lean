import FerroHttp.Security
import Mathlib.Data.List.Dedup

/-!
# Security.Reference — runs of the limiter, and one peer at a time

A run of the limiter is a sequence of checks with non-decreasing times, each with its
answer (`RateLimiter.Run`). The reference is a limiter for a single peer: one entry
that is never evicted, fed the times of that peer's checks (`reference`).

`tick_cases` is everything a tick can do to an entry: the proofs about runs use it and
never unfold `tick`.
-/

namespace FerroHttp

open Exec Text

/-- One check of a run: who, when, the answer, and whether it left the peer tracked. -/
structure Answered where
  peer : Bytes
  now : Nat
  decision : Decision
  recorded : Bool
deriving DecidableEq, Repr

namespace RateLimiter

/-- A run from an empty limiter: the checks so far with their answers, and the limiter
after them. Time does not go back. -/
inductive Run (t : Target) (config : RateLimitConfig) : List Answered → RateLimiter → Prop
  | start : Run t config [] (new config)
  | check {log : List Answered} {l l' : RateLimiter} {peer : Bytes} {now : Nat}
      {decision : Decision} (before : Run t config log l) (later : ∀ a ∈ log, a.now ≤ now)
      (step : l.check t peer now = .ok (decision, l')) :
      Run t config (log ++ [⟨peer, now, decision, (l'.entries.lookup peer).isSome⟩]) l'

/-- The recorded checks of one peer. -/
def recordedOf (log : List Answered) (peer : Bytes) : List Answered :=
  log.filter fun a => a.recorded && a.peer == peer

/-- The entry a tick counts in: a fresh window where the old one is over or a ban has
just ended. -/
def opened (config : RateLimitConfig) (e : PeerEntry) (now : Nat) : PeerEntry :=
  if e.bannedUntil ≠ 0 ∨ config.windowSecs ≤ now - e.windowStart then ⟨now, 0, 0⟩ else e

/-! ## The reference -/

/-- One check of the reference; the entry is created at the first one. -/
def soloCheck (t : Target) (config : RateLimitConfig) (s : List Decision × Option PeerEntry)
    (now : Nat) : Outcome Empty (List Decision × Option PeerEntry) := do
  let (decision, entry) ← tick t (s.2.getD ⟨now, 0, 0⟩) config now
  pure (s.1 ++ [decision], some entry)

/-- The reference limiter of one peer: its decisions at the given times, and its entry. -/
def reference (t : Target) (config : RateLimitConfig) (times : List Nat) :
    Outcome Empty (List Decision × Option PeerEntry) :=
  times.foldlM (soloCheck t config) ([], none)

section Reference

variable {t : Target} {config : RateLimitConfig} {times : List Nat} {now : Nat}
  {ds : List Decision} {e : Option PeerEntry} {decision : Decision} {entry entry' : PeerEntry}

theorem reference_nil : reference t config [] = .ok ([], none) := rfl

/-- One more check of the reference is one more tick of its entry. -/
theorem reference_snoc (h : reference t config times = .ok (ds, e))
    (htick : tick t (e.getD ⟨now, 0, 0⟩) config now = .ok (decision, entry)) :
    reference t config (times ++ [now]) = .ok (ds ++ [decision], some entry) := by
  have hlast : ([now] : List Nat).foldlM (soloCheck t config) (ds, e) =
      .ok (ds ++ [decision], some entry) := by
    rw [List.foldlM_cons, soloCheck, htick]
    rfl
  unfold reference at h ⊢
  rw [List.foldlM_append, h, Outcome.ok_bind]
  exact hlast

end Reference

/-! ## What a tick can do -/

section Tick

variable {t : Target} {config : RateLimitConfig} {e e' : PeerEntry} {now n : Nat}
  {decision : Decision}

theorem tick_of_banned (h : now < e.bannedUntil) :
    tick t e config now = .ok (.deny (e.bannedUntil - now), e) := by
  rw [tick, if_pos h]
  rfl

/-- A request within the limit. -/
theorem tick_of_allow (hend : e.bannedUntil ≤ now)
    (hcount : t.u64 ((opened config e now).count + 1) = (.ok n : Outcome Empty Nat))
    (hle : n ≤ config.requests) :
    tick t e config now = .ok (.allow, { opened config e now with count := n }) := by
  have hover : ¬ config.requests < n := by omega
  unfold opened at hcount ⊢
  rw [tick, if_neg (by omega)]
  simp only [hcount, Outcome.ok_bind, hover, if_false, Outcome.pure_eq]

/-- A request past the limit. -/
theorem tick_of_deny {bannedUntil : Nat} (hend : e.bannedUntil ≤ now)
    (hcount : t.u64 ((opened config e now).count + 1) = (.ok n : Outcome Empty Nat))
    (hlt : config.requests < n)
    (hban : t.u64 (now + config.banSecs) = (.ok bannedUntil : Outcome Empty Nat)) :
    tick t e config now = .ok (.deny config.banSecs,
      { opened config e now with count := n, bannedUntil := bannedUntil }) := by
  unfold opened at hcount ⊢
  rw [tick, if_neg (by omega)]
  simp only [hcount, Outcome.ok_bind, hlt, if_true, hban, Outcome.pure_eq]

/-- A ban that is over, or a window, opens at most a fresh entry. -/
theorem opened_cases (config : RateLimitConfig) (e : PeerEntry) (now : Nat) :
    (opened config e now = ⟨now, 0, 0⟩ ∧
        (e.bannedUntil ≠ 0 ∨ config.windowSecs ≤ now - e.windowStart)) ∨
      (opened config e now = e ∧ e.bannedUntil = 0 ∧ now - e.windowStart < config.windowSecs) := by
  unfold opened
  split
  · rename_i h
    exact .inl ⟨rfl, h⟩
  · rename_i h
    exact .inr ⟨rfl, by omega, by omega⟩

/-- A tick denies a banned peer, or counts the request in the open window: within the
limit it is allowed, past it a ban starts. -/
theorem tick_cases (h : tick t e config now = .ok (decision, e')) :
    (now < e.bannedUntil ∧ decision = .deny (e.bannedUntil - now) ∧ e' = e) ∨
      (e.bannedUntil ≤ now ∧ ∃ count, t.u64 ((opened config e now).count + 1) =
          (.ok count : Outcome Empty Nat) ∧
        ((count ≤ config.requests ∧ decision = .allow ∧
            e' = { opened config e now with count := count }) ∨
          (config.requests < count ∧ ∃ bannedUntil,
            t.u64 (now + config.banSecs) = (.ok bannedUntil : Outcome Empty Nat) ∧
            decision = .deny config.banSecs ∧
            e' = { opened config e now with count := count, bannedUntil := bannedUntil }))) := by
  unfold tick at h
  by_cases hbanned : now < e.bannedUntil
  · rw [if_pos hbanned] at h
    cases h
    exact .inl ⟨hbanned, rfl, rfl⟩
  · rw [if_neg hbanned] at h
    refine .inr ⟨by omega, ?_⟩
    -- the two additions of the source, of which the second is made past the limit only
    rw [Outcome.bind_eq_ok] at h
    rcases h with ⟨count, hcount, h⟩
    refine ⟨count, hcount, ?_⟩
    by_cases hover : config.requests < count
    · rw [if_pos hover, Outcome.bind_eq_ok] at h
      rcases h with ⟨bannedUntil, hban, h⟩
      cases h
      exact .inr ⟨hover, bannedUntil, hban, rfl, rfl⟩
    · rw [if_neg hover] at h
      cases h
      exact .inl ⟨by omega, rfl, rfl⟩

end Tick

end RateLimiter

end FerroHttp
