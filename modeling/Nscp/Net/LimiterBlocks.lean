import Nscp.Net.AuthRateLimiter

/-!
# When an address is blocked

The failures of an address since its last success fall into consecutive runs of the limit's length,
and each complete run sets the end of a block.  How long the block is depends on how fast the run
was and on the level of the block before; neither other addresses nor an incomplete run matter.
-/

namespace Nscp.Net

open Function Option
open List hiding after

/-! ## Histories -/

/-- Times are readings of the clock, in seconds since the epoch. -/
inductive LimiterEvent
  | failure (ip : List Char) (now : ℕ)
  | success (ip : List Char)

namespace AuthRateLimiter

def step (l : AuthRateLimiter) : LimiterEvent → AuthRateLimiter
  | .failure ip now => l.recordFailureAt ip now
  | .success ip => l.recordSuccess ip

def run (m b : ℕ) (events : List LimiterEvent) : AuthRateLimiter :=
  events.foldl step ⟨fun _ => none, m, b⟩

def recordOwn (ip : List Char) (ts : List ℕ) : LimiterEvent → List ℕ
  | .failure ip' now => if ip' = ip then ts ++ [now] else ts
  | .success ip' => if ip' = ip then [] else ts

/-- The failures of an address since its last success. -/
def failuresOf (ip : List Char) (events : List LimiterEvent) : List ℕ :=
  events.foldl (recordOwn ip) []

end AuthRateLimiter

/-! ## Blocks as documented -/

structure LimiterBlock where
  level : ℕ
  ends : ℕ
  deriving DecidableEq

namespace LimiterBlock

def duration (b k : ℕ) : ℕ :=
  if 3600 ≤ b then b else min (b * 2 ^ (k - 1)) 3600

/-- The level before a run: none at the start, and none if a failure of the run comes more than an
hour after the block. -/
def previousLevel (previous : Option LimiterBlock) (run : List ℕ) : ℕ :=
  match previous with
  | none => 0
  | some block => if ∃ t ∈ run, block.ends + 3600 < t then 0 else block.level

/-- The level a run leads to: the lowest if its failures are apart, and otherwise the next. -/
def levelAfter (m : ℕ) (previous : Option LimiterBlock) (run : List ℕ) : ℕ :=
  if run.head?.getD 0 + 2 * max (m - 1) 1 ≤ run.getLast?.getD 0 then 1
  else min 7 (previousLevel previous run + 1)

def ofRun (m b : ℕ) (previous : Option LimiterBlock) (run : List ℕ) : LimiterBlock :=
  ⟨levelAfter m previous run, run.getLast?.getD 0 + duration b (levelAfter m previous run)⟩

def completeRuns (m : ℕ) (ts : List ℕ) : List (List ℕ) :=
  (range (ts.length / m)).map fun i => (ts.drop (i * m)).take m

/-- The block that failures lead to. -/
def after (m b : ℕ) (ts : List ℕ) : Option LimiterBlock :=
  (completeRuns m ts).foldl (fun previous run => some (ofRun m b previous run)) none

/-! ## Complete and incomplete runs -/

section Runs

variable {m b : ℕ} {done current run : List ℕ}

theorem runs_append {q : ℕ} (hq : done.length = m * q) (rest : List ℕ) :
    (range q).map (fun i => ((done ++ rest).drop (i * m)).take m) =
      (range q).map fun i => (done.drop (i * m)).take m := by
  apply map_congr_left
  intro i hi
  have hle : i * m + m ≤ done.length := by
    rw [hq, Nat.mul_comm m q, ← Nat.succ_mul]
    exact Nat.mul_le_mul_right m (mem_range.mp hi)
  rw [drop_append_of_le_length (by omega), take_append_of_le_length]
  rw [length_drop]
  omega

theorem completeRuns_append_of_lt (hdone : m ∣ done.length) (hcurrent : current.length < m) :
    completeRuns m (done ++ current) = completeRuns m done := by
  obtain ⟨q, hq⟩ := hdone
  have hcount : (done ++ current).length / m = q := by
    rw [length_append, hq, Nat.mul_add_div (by omega), Nat.div_eq_of_lt hcurrent]
    rfl
  have hcount' : done.length / m = q := by
    rw [hq, Nat.mul_div_cancel_left _ (by omega)]
  rw [completeRuns, completeRuns, hcount, hcount', runs_append hq]

theorem completeRuns_append_run (hm : 0 < m) (hdone : m ∣ done.length) (hrun : run.length = m) :
    completeRuns m (done ++ run) = completeRuns m done ++ [run] := by
  obtain ⟨q, hq⟩ := hdone
  have hcount : (done ++ run).length / m = q + 1 := by
    rw [length_append, hq, hrun, ← Nat.mul_succ, Nat.mul_div_cancel_left _ hm]
  have hcount' : done.length / m = q := by
    rw [hq, Nat.mul_div_cancel_left _ hm]
  have hdrop : q * m = done.length := by rw [hq, Nat.mul_comm]
  rw [completeRuns, completeRuns, hcount, hcount', range_succ, map_append,
    runs_append hq, map_singleton, hdrop, drop_left, ← hrun, take_length]

theorem after_append_of_lt (hdone : m ∣ done.length) (hcurrent : current.length < m) :
    after m b (done ++ current) = after m b done := by
  rw [after, completeRuns_append_of_lt hdone hcurrent, after]

theorem after_append_run (hm : 0 < m) (hdone : m ∣ done.length) (hrun : run.length = m) :
    after m b (done ++ run) = some (ofRun m b (after m b done) run) := by
  rw [after, completeRuns_append_run hm hdone hrun, foldl_append]
  rfl

theorem duration_pos (hb : 0 < b) (k : ℕ) : 0 < duration b k := by
  rw [duration]
  split_ifs
  · exact hb
  · exact lt_min (Nat.mul_pos hb (Nat.two_pow_pos _)) (by decide)

variable {block : LimiterBlock} {ts : List ℕ}

theorem exists_of_after (h : after m b ts = some block) :
    ∃ previous run, block = ofRun m b previous run := by
  rw [after] at h
  cases hruns : completeRuns m ts using reverseRecOn with
  | nil =>
    rw [hruns] at h
    cases h
  | append_singleton runs run =>
    rw [hruns, foldl_append] at h
    exact ⟨_, run, (some.inj h).symm⟩

theorem ends_pos (hb : 0 < b) (h : after m b ts = some block) : 0 < block.ends := by
  obtain ⟨previous, run, rfl⟩ := exists_of_after h
  exact Nat.add_pos_right _ (duration_pos hb _)

theorem levelAfter_le (previous : Option LimiterBlock) (run : List ℕ) :
    levelAfter m previous run ≤ 7 := by
  rw [levelAfter]
  split_ifs
  · decide
  · exact Nat.min_le_left _ _

theorem previousLevel_le (ts run : List ℕ) : previousLevel (after m b ts) run ≤ 7 := by
  rcases hblock : after m b ts with _ | block
  · exact Nat.zero_le _
  obtain ⟨previous, run', rfl⟩ := exists_of_after hblock
  rw [previousLevel]
  split_ifs
  · exact Nat.zero_le _
  · exact levelAfter_le previous run'

end Runs

end LimiterBlock

open LimiterBlock

/-! ## The entry of an address -/

namespace AuthRateLimiter

open LimiterBlock

section Entries

variable {m b : ℕ} {done current ts : List ℕ}

/-- The entry after complete runs and the failures behind them. -/
def entryAfter (m b : ℕ) (done current : List ℕ) : LimiterEntry where
  failures := current.length
  offenses := previousLevel (after m b done) current
  firstFailure := current.head?.getD 0
  blockedUntil := ((after m b done).elim 0 ends : ℕ)

theorem doubled_eq (n : ℕ) (delay : ℕ) :
    min (doubled n delay) kMaxBlockSeconds = (min (delay * 2 ^ n) 3600 : ℕ) := by
  induction n generalizing delay with
  | zero => simp [doubled, kMaxBlockSeconds]
  | succ n ih =>
    rw [doubled]
    split_ifs with hlt
    · have hdouble := ih (delay * 2)
      push_cast at hdouble ⊢
      rw [hdouble, pow_succ', mul_assoc]
    · have hpos := Nat.two_pow_pos (n + 1)
      have hle : delay ≤ delay * 2 ^ (n + 1) := Nat.le_mul_of_pos_right _ hpos
      rw [kMaxBlockSeconds] at hlt ⊢
      omega

theorem blockDurationSeconds_eq (hb : 0 < b) {k : ℕ} (hk : k ≤ 7) :
    blockDurationSeconds b k = (duration b k : ℕ) := by
  have hshift : min (k - 1) kMaxBackoffShift = k - 1 := by
    rw [kMaxBackoffShift]
    omega
  rw [blockDurationSeconds, duration, if_neg (by omega), hshift, doubled_eq]
  by_cases hbase : 3600 ≤ b
  · rw [if_pos hbase, if_pos]
    rw [kMaxBlockSeconds]
    omega
  · rw [if_neg hbase, if_neg]
    rw [kMaxBlockSeconds]
    omega

theorem previousLevel_append (previous : Option LimiterBlock) (now : ℕ) :
    previousLevel previous (current ++ [now]) =
      if ∃ block ∈ previous, block.ends + 3600 < now then 0
      else previousLevel previous current := by
  rcases previous with _ | block
  · simp [previousLevel]
  have hsome : (∃ t ∈ current ++ [now], block.ends + 3600 < t) ↔
      block.ends + 3600 < now ∨ ∃ t ∈ current, block.ends + 3600 < t := by
    simp [or_and_right, exists_or, or_comm]
  simp only [previousLevel, hsome, mem_some_iff, exists_eq_left']
  by_cases hnow : block.ends + 3600 < now
  · rw [if_pos (.inl hnow), if_pos hnow]
  · rw [if_neg hnow]
    exact if_congr (or_iff_right hnow) rfl rfl

theorem decayed_entryAfter (hb : 0 < b) (now : ℕ) :
    decayed (entryAfter m b done current) now = { entryAfter m b done current with
        offenses := previousLevel (after m b done) (current ++ [now]) } := by
  have hlate : ((entryAfter m b done current).blockedUntil ≠ 0 ∧
      (now : ℤ) > (entryAfter m b done current).blockedUntil + kOffenseDecaySeconds) ↔
      ∃ block ∈ after m b done, block.ends + 3600 < now := by
    rw [entryAfter, kOffenseDecaySeconds]
    rcases hblock : after m b done with _ | block
    · simp
    have hpos := ends_pos hb hblock
    simp only [elim_some, mem_some_iff, exists_eq_left']
    omega
  rw [decayed, previousLevel_append]
  by_cases h : ∃ block ∈ after m b done, block.ends + 3600 < now
  · rw [if_pos (hlate.mpr h), if_pos h]
  · rw [if_neg (mt hlate.mp h), if_neg h]
    rfl

theorem counted_entryAfter (now offenses : ℕ) :
    counted { entryAfter m b done current with offenses } now =
      { failures := (current ++ [now]).length
        offenses
        firstFailure := ((current ++ [now]).head?.getD 0 : ℕ)
        blockedUntil := ((after m b done).elim 0 ends : ℕ) } := by
  rw [counted, entryAfter]
  cases current with
  | nil => rfl
  | cons t current => simp

variable {l : AuthRateLimiter}

theorem blocked_of_lt (hb : 0 < b) (hl : l.maxFailures = m) (now : ℕ)
    (hlt : current.length + 1 < m) :
    l.blocked (counted (decayed (entryAfter m b done current) now) now) now =
      entryAfter m b done (current ++ [now]) := by
  rw [decayed_entryAfter hb, counted_entryAfter, blocked, if_neg, entryAfter]
  rw [hl, length_append, length_singleton]
  dsimp only
  omega

theorem isBurst_iff (hm : 0 < m) (hl : l.maxFailures = m) (first now : ℕ) :
    l.isBurst (now - first) = true ↔ ¬ first + 2 * max (m - 1) 1 ≤ now := by
  rw [isBurst, decide_eq_true_eq, hl, kBurstGapSeconds]
  split_ifs <;> omega

theorem nextOffenses_eq (hm : 0 < m) (hl : l.maxFailures = m) {e : LimiterEntry} {run : List ℕ}
    {now : ℕ} {previous : Option LimiterBlock} (hfirst : e.firstFailure = (run.head?.getD 0 : ℕ))
    (hlast : run.getLast?.getD 0 = now) (hoffenses : e.offenses = previousLevel previous run)
    (hle : e.offenses ≤ 7) : l.nextOffenses e now = levelAfter m previous run := by
  rw [nextOffenses, levelAfter, hfirst, hlast, ← hoffenses, kMaxBackoffShift]
  by_cases hslow : run.head?.getD 0 + 2 * max (m - 1) 1 ≤ now
  · rw [if_pos hslow, if_neg]
    rw [isBurst_iff hm hl]
    exact not_not.mpr hslow
  · rw [if_neg hslow, if_pos ((isBurst_iff hm hl _ _).mpr hslow)]
    split_ifs <;> omega

theorem blocked_of_eq (hb : 0 < b) (hl : l.maxFailures = m) (hseconds : l.blockSeconds = b)
    (hdone : m ∣ done.length) (now : ℕ) (heq : current.length + 1 = m) :
    l.blocked (counted (decayed (entryAfter m b done current) now) now) now =
      entryAfter m b (done ++ (current ++ [now])) [] := by
  have hrun : (current ++ [now]).length = m := by
    rw [length_append, length_singleton, heq]
  have hafter := after_append_run (b := b) (by omega) hdone hrun
  have hlast : (current ++ [now]).getLast?.getD 0 = now := by
    rw [getLast?_concat, getD_some]
  rw [decayed_entryAfter hb, counted_entryAfter, blocked, if_pos, entryAfter, hafter]
  · rw [nextOffenses_eq (by omega) hl rfl hlast rfl (previousLevel_le done _), hseconds,
      blockDurationSeconds_eq hb (levelAfter_le _ _), elim_some, ofRun, hlast]
    simp [previousLevel]
  · rw [hl, hrun]

end Entries

/-! ## Whole histories -/

def Represents (m b : ℕ) (ts : List ℕ) (entry : Option LimiterEntry) : Prop :=
  ∃ done current, ts = done ++ current ∧ m ∣ done.length ∧ current.length < m ∧
    entry.getD {} = entryAfter m b done current

section Histories

variable {m b : ℕ}

theorem represents_nil (hm : 0 < m) : Represents m b [] none := by
  refine ⟨[], [], rfl, dvd_zero m, hm, ?_⟩
  rw [entryAfter, after, completeRuns]
  simp [previousLevel]

variable {entry : Option LimiterEntry} {ts : List ℕ} {l : AuthRateLimiter}

theorem Represents.failure (hm : 0 < m) (hb : 0 < b) (hl : l.maxFailures = m)
    (hseconds : l.blockSeconds = b) (h : Represents m b ts entry) (now : ℕ) :
    Represents m b (ts ++ [now])
      (some (l.blocked (counted (decayed (entry.getD {}) now) now) now)) := by
  obtain ⟨done, current, rfl, hdone, hcurrent, hentry⟩ := h
  rw [hentry]
  rcases Nat.lt_or_ge (current.length + 1) m with hlt | hge
  · refine ⟨done, current ++ [now], append_assoc _ _ _, hdone, ?_, ?_⟩
    · rwa [length_append, length_singleton]
    · exact blocked_of_lt hb hl now hlt
  · have heq : current.length + 1 = m := by omega
    refine ⟨done ++ (current ++ [now]), [], ?_, ?_, hm, ?_⟩
    · rw [append_nil, append_assoc]
    · rw [length_append, length_append, length_singleton, heq]
      exact (Nat.dvd_add_right hdone).mpr dvd_rfl
    · exact blocked_of_eq hb hl hseconds hdone now heq

theorem Represents.blockedUntil (h : Represents m b ts entry) :
    (entry.getD {}).blockedUntil = ((after m b ts).elim 0 ends : ℕ) := by
  obtain ⟨done, current, rfl, hdone, hcurrent, hentry⟩ := h
  rw [hentry, entryAfter, after_append_of_lt hdone hcurrent]

theorem represents_step (hm : 0 < m) (hb : 0 < b) (hl : l.maxFailures = m)
    (hseconds : l.blockSeconds = b) {ip : List Char} (h : Represents m b ts (l.entries ip))
    (event : LimiterEvent) :
    Represents m b (recordOwn ip ts event) ((l.step event).entries ip) := by
  cases event with
  | failure ip' now =>
    have hactive : ¬ l.maxFailures ≤ 0 := by omega
    rw [recordOwn, step, recordFailureAt, if_neg hactive]
    dsimp only
    by_cases hip : ip' = ip
    · subst hip
      rw [if_pos rfl, update_self]
      exact h.failure hm hb hl hseconds now
    · rw [if_neg hip, update_of_ne (Ne.symm hip)]
      exact h
  | success ip' =>
    rw [recordOwn, step, recordSuccess]
    dsimp only
    by_cases hip : ip' = ip
    · subst hip
      rw [if_pos rfl, update_self]
      exact represents_nil hm
    · rw [if_neg hip, update_of_ne (Ne.symm hip)]
      exact h

theorem step_settings (l : AuthRateLimiter) (event : LimiterEvent) :
    (l.step event).maxFailures = l.maxFailures ∧ (l.step event).blockSeconds = l.blockSeconds := by
  cases event with
  | failure ip now =>
    rw [step, recordFailureAt]
    split_ifs
    all_goals exact ⟨rfl, rfl⟩
  | success ip => exact ⟨rfl, rfl⟩

theorem represents_run (hm : 0 < m) (hb : 0 < b) (ip : List Char) (events : List LimiterEvent) :
    Represents m b (failuresOf ip events) ((run m b events).entries ip) ∧
      (run m b events).maxFailures = m ∧ (run m b events).blockSeconds = b := by
  induction events using reverseRecOn with
  | nil => exact ⟨represents_nil hm, rfl, rfl⟩
  | append_singleton events event ih =>
    obtain ⟨hrep, hl, hseconds⟩ := ih
    obtain ⟨hl', hseconds'⟩ := step_settings (run m b events) event
    rw [failuresOf, foldl_append, run, foldl_append]
    refine ⟨represents_step hm hb hl hseconds hrep event, ?_, ?_⟩
    · exact hl'.trans hl
    · exact hseconds'.trans hseconds

/-- The end of an address's block is the one its own failures since the last success lead to, and
the address is blocked up to it. -/
theorem block_as_documented (m b : ℕ) (hm : 1 ≤ m) (hb : 1 ≤ b) (events : List LimiterEvent)
    (ip : List Char) :
    (((run m b events).entries ip).getD {}).blockedUntil =
        ((after m b (failuresOf ip events)).elim 0 ends : ℕ) ∧
      ∀ now : ℕ, (run m b events).isBlocked ip now = true ↔
        ∃ block ∈ after m b (failuresOf ip events), now < block.ends := by
  obtain ⟨hrep, hl, -⟩ := represents_run hm hb ip events
  have hends := hrep.blockedUntil
  have hactive : ¬ (run m b events).maxFailures ≤ 0 := by omega
  refine ⟨hends, fun now => ?_⟩
  have hblocked : (run m b events).isBlocked ip now = true ↔
      (now : ℤ) < (((run m b events).entries ip).getD {}).blockedUntil := by
    rw [isBlocked, if_neg hactive]
    cases (run m b events).entries ip with
    | none =>
      rw [getD_none]
      exact ⟨(nomatch ·), fun h => absurd h (by dsimp only; omega)⟩
    | some e => rw [getD_some, decide_eq_true_eq, gt_iff_lt]
  rw [hblocked, hends, Nat.cast_lt]
  cases after m b (failuresOf ip events) with
  | none => simp
  | some block => simp

/-- Two fast failures block for ten seconds, and two more right behind the block for twenty. -/
theorem block_as_documented_twice :
    1 ≤ 2 ∧ 1 ≤ 10 ∧
      (((run 2 10 [.failure ['a'] 5, .failure ['b'] 5, .failure ['a'] 6, .failure ['a'] 16,
        .failure ['a'] 17]).entries ['a']).getD {}).blockedUntil = 37 :=
  ⟨by decide, by decide,
    (block_as_documented 2 10 (by decide) (by decide) _ ['a']).1.trans (by decide +kernel)⟩

end Histories

end AuthRateLimiter

end Nscp.Net
