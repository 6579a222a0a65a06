import Mathlib

/-!
# Backing off from addresses that fail to authenticate

Each address has a count of failures in a row; the failure that reaches the limit blocks the
address for a time that doubles while the failures come at machine speed.
-/

namespace Nscp.Net

open Function

/-- Times are seconds since the epoch. -/
structure LimiterEntry where
  failures : ℕ := 0
  offenses : ℕ := 0
  firstFailure : ℤ := 0
  blockedUntil : ℤ := 0
  deriving DecidableEq

structure AuthRateLimiter where
  entries : List Char → Option LimiterEntry
  maxFailures : ℤ
  blockSeconds : ℤ

namespace AuthRateLimiter

def kMaxBackoffShift : ℕ := 6

def kMaxBlockSeconds : ℤ := 3600

def kOffenseDecaySeconds : ℤ := 3600

def kBurstGapSeconds : ℤ := 2

def isBlocked (l : AuthRateLimiter) (ip : List Char) (now : ℤ) : Bool :=
  if l.maxFailures ≤ 0 then false
  else
    match l.entries ip with
    | none => false
    | some e => e.blockedUntil > now

def isBurst (l : AuthRateLimiter) (elapsed : ℤ) : Bool :=
  elapsed < (if l.maxFailures > 1 then l.maxFailures - 1 else 1) * kBurstGapSeconds

def doubled : ℕ → ℤ → ℤ
  | 0, delay => delay
  | n + 1, delay => if delay < kMaxBlockSeconds then doubled n (delay * 2) else delay

def blockDurationSeconds (baseSeconds : ℤ) (offenses : ℕ) : ℤ :=
  if baseSeconds ≤ 0 then 0
  else if baseSeconds ≥ kMaxBlockSeconds then baseSeconds
  else min (doubled (min (offenses - 1) kMaxBackoffShift) baseSeconds) kMaxBlockSeconds

def decayed (e : LimiterEntry) (now : ℤ) : LimiterEntry :=
  if e.blockedUntil ≠ 0 ∧ now > e.blockedUntil + kOffenseDecaySeconds then { e with offenses := 0 }
  else e

def counted (e : LimiterEntry) (now : ℤ) : LimiterEntry :=
  { e with
    failures := e.failures + 1
    firstFailure := if e.failures = 0 then now else e.firstFailure }

section

variable (l : AuthRateLimiter)

def nextOffenses (e : LimiterEntry) (now : ℤ) : ℕ :=
  if l.isBurst (now - e.firstFailure) then
    if e.offenses < kMaxBackoffShift + 1 then e.offenses + 1 else e.offenses
  else 1

def blocked (e : LimiterEntry) (now : ℤ) : LimiterEntry :=
  if (e.failures : ℤ) ≥ l.maxFailures then
    { failures := 0
      offenses := l.nextOffenses e now
      firstFailure := 0
      blockedUntil := now + blockDurationSeconds l.blockSeconds (l.nextOffenses e now) }
  else e

def recordFailureAt (ip : List Char) (now : ℤ) : AuthRateLimiter :=
  if l.maxFailures ≤ 0 then l
  else
    { l with
      entries := update l.entries ip
        (some (l.blocked (counted (decayed ((l.entries ip).getD {}) now) now) now)) }

def recordSuccess (ip : List Char) : AuthRateLimiter :=
  { l with entries := update l.entries ip none }

end

theorem recordSuccess_eq_self_iff {l : AuthRateLimiter} {ip : List Char} :
    l.recordSuccess ip = l ↔ l.entries ip = none := by
  constructor
  · intro h
    have hentry := congrArg (fun l => l.entries ip) h
    rw [← hentry]
    exact update_self ip none l.entries
  · intro h
    rw [recordSuccess, ← h, update_eq_self]

end AuthRateLimiter

end Nscp.Net
