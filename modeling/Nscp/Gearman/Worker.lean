import Nscp.Gearman.Connection

/-!
# Submitting a result

A worker submits the result of a job and waits for the acknowledgement.  If the submission fails
before the request has left, it is made again on a connection of its own; once the request has left
it must not be.  Only then the job is reported complete.
-/

namespace Nscp.Gearman

open List

/-! ## One submission -/

/-- How the write of a request ends; one that is given up may have completed all the same. -/
inductive WriteOutcome
  | done
  | failed
  | expired (completed : Bool)
  deriving DecidableEq

structure Exchange where
  write : WriteOutcome
  polls : List Poll

/-- `unconfirmed` and `failed` are the two kinds of exception. -/
inductive SubmitOutcome
  | acknowledged
  | unconfirmed
  | failed
  deriving DecidableEq

/-- What is seen of an answer: a request completely written to a connection, its acknowledgement,
and the report that the job is complete. -/
inductive Event
  | submitted (connection : ℕ)
  | acknowledged (connection : ℕ)
  | workComplete
  deriving DecidableEq

def maxPacketsBeforeJobCreated : ℕ := 8

/-- The wait for the acknowledgement.  An exception of `receive` is passed on. -/
def awaitCreated : ℕ → Connection → List Poll → SubmitOutcome × Connection
  | 0, c, _ => (.unconfirmed, c)
  | n + 1, c, polls =>
    match receive c polls with
    | (.packet reply, c', polls') =>
      if reply.kind = .known .jobCreated then (.acknowledged, c')
      else if reply.kind = .known .error then (.unconfirmed, c')
      else awaitCreated n c' polls'
    | (.timedOut, c', _) => (.unconfirmed, c')
    | (.closed, c', _) => (.unconfirmed, c')
    | (.failed _, c', _) => (.failed, c')

def acknowledgement (k : ℕ) : SubmitOutcome → List Event
  | .acknowledged => [.acknowledged k]
  | _ => []

def submitBackground (k : ℕ) (c : Connection) (queue payload : List UInt8) (exchange : Exchange) :
    SubmitOutcome × Connection × List Event :=
  if !c.isOpen then (.failed, c, [])
  else
    match encodePacket (.known .submitJobBg) [queue, [], payload] .request with
    | .error _ => (.failed, c, [])
    | .ok _ =>
      match exchange.write with
      | .failed => (.failed, c, [])
      | .expired completed => (.failed, c, if completed then [.submitted k] else [])
      | .done =>
        match awaitCreated maxPacketsBeforeJobCreated c exchange.polls with
        | (outcome, c') => (outcome, c', .submitted k :: acknowledgement k outcome)

/-! ## The answer to a job -/

/-- What happens during an answer. -/
structure Surroundings where
  first : Exchange
  stopping : Bool
  retryConnects : Bool
  retry : Exchange

section

variable (c : Connection) (queue payload : List UInt8) (s : Surroundings)

def submit :
    Option Connection × List Event :=
  match submitBackground 0 c queue payload s.first with
  | (.acknowledged, c', events) => (some c', events)
  | (.unconfirmed, _, events) => (none, events)
  | (.failed, _, events) =>
    if s.stopping || !s.retryConnects then (none, events)
    else (none, events ++ (submitBackground 1 {} queue payload s.retry).2.2)

def answer : List Event :=
  match submit c queue payload s with
  | (some c', events) => events ++ (if c'.isOpen then [.workComplete] else [])
  | (none, events) => events

end

/-! ## At most once -/

def isSubmitted : Event → Bool
  | .submitted _ => true
  | _ => false

def isAcknowledged : Event → Bool
  | .acknowledged _ => true
  | _ => false

/-- The result is written at most once, and the job is complete only behind an acknowledgement. -/
def AtMostOnce (events : List Event) : Prop :=
  events.countP isSubmitted ≤ 1 ∧
    ∀ before after, events = before ++ .workComplete :: after →
      ∃ e ∈ before, isAcknowledged e = true

def Encodes (queue payload : List UInt8) : Prop :=
  ∃ bytes, encodePacket (.known .submitJobBg) [queue, [], payload] .request = .ok bytes

def Exchange.Leaves (exchange : Exchange) : Prop :=
  exchange.write = .done ∨ exchange.write = .expired true

/-- The request has left, but the exchange ends in an exception that says it may be made again. -/
def LostAfterWrite (c : Connection) (exchange : Exchange) : Prop :=
  exchange.write = .expired true ∨ exchange.write = .done ∧
      (awaitCreated maxPacketsBeforeJobCreated c exchange.polls).1 = .failed

section Submissions

variable (k : ℕ) (c : Connection) (queue payload : List UInt8) (exchange : Exchange)
  (outcome : SubmitOutcome)

/-- The events of a submission: none if the request did not leave, and otherwise the request and
its acknowledgement. -/
theorem submitBackground_events :
    ((submitBackground k c queue payload exchange).2.2 = [] ∧
        (submitBackground k c queue payload exchange).1 = .failed ∧
        ¬ (c.isOpen = true ∧ Encodes queue payload ∧ exchange.Leaves)) ∨
      (submitBackground k c queue payload exchange).2.2 = .submitted k ::
          acknowledgement k (submitBackground k c queue payload exchange).1 ∧
        ((submitBackground k c queue payload exchange).1 = .failed ↔ LostAfterWrite c exchange) ∧
        c.isOpen = true ∧ Encodes queue payload ∧ exchange.Leaves := by
  rw [submitBackground, Encodes, Exchange.Leaves, LostAfterWrite]
  cases hopen : c.isOpen with
  | false => exact .inl ⟨rfl, rfl, fun h => nomatch h.1⟩
  | true =>
    rcases encodePacket (.known .submitJobBg) [queue, [], payload] .request with _ | bytes
    · exact .inl ⟨rfl, rfl, fun ⟨_, ⟨_, h⟩, _⟩ => nomatch h⟩
    cases exchange.write with
    | failed => exact .inl ⟨rfl, rfl, by simp⟩
    | expired completed =>
      cases completed with
      | false => exact .inl ⟨rfl, rfl, by simp⟩
      | true => exact .inr ⟨rfl, by simp, rfl, ⟨bytes, rfl⟩, .inr rfl⟩
    | done => exact .inr ⟨rfl, by simp, rfl, ⟨bytes, rfl⟩, .inl rfl⟩

theorem workComplete_not_mem : .workComplete ∉ .submitted k :: acknowledgement k outcome := by
  cases outcome <;> simp [acknowledgement]

theorem countP_submission : (.submitted k :: acknowledgement k outcome).countP isSubmitted = 1 := by
  cases outcome <;> rfl

theorem atMostOnce_of_not_mem {events : List Event} (h : .workComplete ∉ events)
    (hcount : events.countP isSubmitted ≤ 1) : AtMostOnce events := by
  refine ⟨hcount, fun before after hsplit => absurd ?_ h⟩
  rw [hsplit]
  exact mem_append_right before mem_cons_self

theorem atMostOnce_acknowledged {tail : List Event} (htail : tail.countP isSubmitted = 0) :
    AtMostOnce (.submitted k :: .acknowledged k :: tail) := by
  refine ⟨?_, fun before after hsplit => ?_⟩
  · rw [countP_cons_of_pos rfl, countP_cons_of_neg Bool.false_ne_true, htail]
  · -- the report is behind the first two events
    cases before with
    | nil => cases hsplit
    | cons e before =>
      cases before with
      | nil => cases hsplit
      | cons e' before =>
        obtain ⟨-, hsplit⟩ := cons.inj hsplit
        obtain ⟨rfl, -⟩ := cons.inj hsplit
        exact ⟨_, mem_cons_of_mem _ mem_cons_self, rfl⟩

theorem LostAfterWrite.leaves {c : Connection} {exchange : Exchange}
    (h : LostAfterWrite c exchange) : exchange.Leaves := by
  rcases h with h | ⟨h, -⟩
  · exact .inr h
  · exact .inl h

end Submissions

/-- The request leaves twice: the first exchange is lost after the write, and the retry is made and
gets its request out. -/
def Resubmits (c : Connection) (queue payload : List UInt8) (s : Surroundings) : Prop :=
  c.isOpen = true ∧ Encodes queue payload ∧ LostAfterWrite c s.first ∧ s.stopping = false ∧
    s.retryConnects = true ∧ s.retry.Leaves

section Answers

variable {c : Connection} {queue payload : List UInt8} {s : Surroundings}

/-- The first submission, and what its outcome adds. -/
theorem answer_eq : answer c queue payload s = (submitBackground 0 c queue payload s.first).2.2 ++
    match (submitBackground 0 c queue payload s.first).1 with
    | .acknowledged =>
      if (submitBackground 0 c queue payload s.first).2.1.isOpen then [.workComplete] else []
    | .unconfirmed => []
    | .failed => if s.stopping || !s.retryConnects then []
      else (submitBackground 1 {} queue payload s.retry).2.2 := by
  rw [answer, submit]
  obtain ⟨outcome, c', events⟩ := submitBackground 0 c queue payload s.first
  cases outcome with
  | acknowledged => rfl
  | unconfirmed => exact (append_nil events).symm
  | failed =>
    dsimp only
    split_ifs
    · exact (append_nil events).symm
    · rfl

theorem atMostOnce_retry :
    AtMostOnce (if s.stopping || !s.retryConnects then []
      else (submitBackground 1 {} queue payload s.retry).2.2) := by
  split_ifs
  · exact atMostOnce_of_not_mem not_mem_nil (Nat.zero_le 1)
  · rcases submitBackground_events 1 {} queue payload s.retry with ⟨hevents, -⟩ | ⟨hevents, -⟩
    · rw [hevents]
      exact atMostOnce_of_not_mem not_mem_nil (Nat.zero_le 1)
    · rw [hevents]
      exact atMostOnce_of_not_mem (workComplete_not_mem 1 _) (countP_submission 1 _).le

theorem atMostOnce_lost_iff (hencodes : Encodes queue payload) :
    AtMostOnce (.submitted 0 :: if s.stopping || !s.retryConnects then []
        else (submitBackground 1 {} queue payload s.retry).2.2) ↔
      ¬ (s.stopping = false ∧ s.retryConnects = true ∧ s.retry.Leaves) := by
  have hsingle : AtMostOnce [.submitted 0] :=
    atMostOnce_of_not_mem (workComplete_not_mem 0 .failed) le_rfl
  by_cases hskip : (s.stopping || !s.retryConnects) = true
  · rw [if_pos hskip]
    refine iff_of_true hsingle ?_
    rintro ⟨hstopping, hconnects, -⟩
    rw [hstopping, hconnects] at hskip
    cases hskip
  · rw [if_neg hskip]
    have hretried : s.stopping = false ∧ s.retryConnects = true := by
      simpa [not_or] using hskip
    rcases submitBackground_events 1 {} queue payload s.retry with
      ⟨hevents, -, hstays⟩ | ⟨hevents, -, -, -, hleaves⟩
    · rw [hevents]
      exact iff_of_true hsingle fun h => hstays ⟨rfl, hencodes, h.2.2⟩
    · rw [hevents]
      refine iff_of_false ?_ (not_not.mpr ⟨hretried.1, hretried.2, hleaves⟩)
      rintro ⟨hcount, -⟩
      rw [countP_cons_of_pos rfl, countP_submission] at hcount
      exact absurd hcount (by decide)

end Answers

def malformedReply : Surroundings where
  first := ⟨.done, [.completed (.bytes [72, 84, 84, 80, 47, 49, 46, 49, 32, 52, 48, 48])]⟩
  stopping := false
  retryConnects := true
  retry := ⟨.done, [.completed (.bytes [0, 82, 69, 83, 0, 0, 0, 8, 0, 0, 0, 1, 72])]⟩

end Nscp.Gearman
