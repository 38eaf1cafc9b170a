import FerroHttp.Lib.Exec
import FerroHttp.Lib.Text
import Mathlib.Data.List.AList

/-!
# Security — per-peer rate limiting

A fixed window for every peer, with temporary bans. The tracked peers are a finite
map; additions are those of `u64`.
-/

namespace FerroHttp

open Exec Text

/-- The most peers that are tracked. -/
def maxEntries : Nat := 100000

structure RateLimitConfig where
  enabled : Bool
  requests : Nat
  windowSecs : Nat
  banSecs : Nat
deriving DecidableEq, Repr

/-- The outcome of a check. -/
inductive Decision where
  | allow
  | deny (retryAfterSecs : Nat)
deriving DecidableEq, Repr

/-- What is known of one peer. -/
structure PeerEntry where
  windowStart : Nat
  count : Nat
  bannedUntil : Nat
deriving DecidableEq, Repr

structure RateLimiter where
  config : RateLimitConfig
  entries : AList fun _ : Bytes => PeerEntry
  lastEvict : Nat

namespace RateLimiter

def new (config : RateLimitConfig) : RateLimiter := ⟨config, ∅, 0⟩

/-- Count one request of a peer; the entry is changed in place. -/
def tick (t : Target) (entry : PeerEntry) (config : RateLimitConfig) (now : Nat) :
    Outcome Empty (Decision × PeerEntry) :=
  if now < entry.bannedUntil then pure (.deny (entry.bannedUntil - now), entry)
  else do
    -- a new window: the old one is over, or a ban just ended
    let entry : PeerEntry :=
      if entry.bannedUntil ≠ 0 ∨ config.windowSecs ≤ now - entry.windowStart then ⟨now, 0, 0⟩
      else entry
    let count ← t.u64 (entry.count + 1)
    let entry := { entry with count := count }
    if config.requests < entry.count then
      let bannedUntil ← t.u64 (now + config.banSecs)
      pure (.deny config.banSecs, { entry with bannedUntil := bannedUntil })
    else pure (.allow, entry)

/-- An entry that no longer says anything about its peer. -/
def isStale (config : RateLimitConfig) (now : Nat) (e : PeerEntry) : Bool :=
  e.bannedUntil ≤ now && config.windowSecs ≤ now - e.windowStart

/-- Drop the stale entries, at most once per second. -/
def evictExpired (l : RateLimiter) (now : Nat) : RateLimiter :=
  if now ≤ l.lastEvict then l
  else
    let stale := l.entries.keys.filter fun peer =>
      (l.entries.lookup peer).any (isStale l.config now)
    { l with entries := stale.foldl (fun entries peer => entries.erase peer) l.entries,
             lastEvict := now }

/-- Start tracking a peer. -/
def track (t : Target) (l : RateLimiter) (peer : Bytes) (now : Nat) :
    Outcome Empty (Decision × RateLimiter) := do
  let (decision, entry) ← tick t ⟨now, 0, 0⟩ l.config now
  pure (decision, { l with entries := l.entries.insert peer entry })

/-- Record a request from a peer and decide whether to allow it. -/
def check (t : Target) (l : RateLimiter) (peer : Bytes) (now : Nat) :
    Outcome Empty (Decision × RateLimiter) :=
  if !l.config.enabled then pure (.allow, l)
  else
    match l.entries.lookup peer with
    | some entry => do
      let (decision, entry) ← tick t entry l.config now
      pure (decision, { l with entries := l.entries.insert peer entry })
    | none =>
      if maxEntries ≤ l.entries.keys.length then
        let l := l.evictExpired now
        -- still full of active peers: fail open
        if maxEntries ≤ l.entries.keys.length then pure (.allow, l) else l.track t peer now
      else l.track t peer now

end RateLimiter

end FerroHttp
