import Nscp.Library.Runs
import Nscp.Scheduler.SimpleScheduler

/-!
# Which instance a worker waits for

A worker takes the instance that is due first and then waits with it outside the queue, where a
later push does not reach it.  An instance in the queue that is due before one a worker holds has
been passed over; as long as each of these has a free worker of its own, none is held up.
-/

namespace Nscp.Scheduler

open State List Scheduler

variable {localTime : ℤ → ℤ} {s s' : State} {a : Action} {x y : Worker} {time : ℤ} {w : ℕ}

def Worker.free : Worker → Bool
  | .idle | .ready | .asleep => true
  | _ => false

def Worker.waitsBeyond (time : ℤ) : Worker → Bool
  | .waiting inst _ => time < inst.time
  | _ => false

def Worker.holdsBeyond (time : ℤ) : Worker → Bool
  | .holding inst | .waiting inst _ => time < inst.time
  | _ => false

def State.passes (s : State) (time : ℤ) : Bool := s.workers.any (·.holdsBeyond time)

def State.passedOver (s : State) : ℕ := s.queue.countP (s.passes ·.time)

def State.freeWorkers (s : State) : ℕ := s.workers.countP Worker.free

/-- An instance in the queue is due while every worker waits for one that is due later. -/
def Starved (localTime : ℤ → ℤ) (s : State) : Prop :=
  ∃ inst ∈ s.queue, inst.time ≤ now localTime s.sys ∧ (∃ worker ∈ s.workers, worker ≠ .gone) ∧
    ∀ worker ∈ s.workers, worker = .gone ∨ worker.waitsBeyond inst.time = true

/-- What a worker waits for is due no later than all that is queued, or another worker is free. -/
def InOrder (s : State) : Prop :=
  ∀ worker ∈ s.workers, ∀ inst deadline, worker = .waiting inst deadline →
    (∀ queued ∈ s.queue, inst.time ≤ queued.time) ∨ ∃ other ∈ s.workers, other.free = true

/-- What the scheduler is to be asked: an instance that is pushed is not due before one that a
worker holds, or there are more free workers than instances passed over; and no worker ends. -/
def orderly (s : State) : Action → Bool
  | .pushPending i => s.pending[i]?.all fun inst =>
    !s.passes inst.time || decide (s.passedOver < s.freeWorkers)
  | .check _ => !s.stopRequested
  | .wake _ interrupted => !interrupted
  | .pushBack w =>
    match s.workers[w]? with
    | some (.returning _ reason) => !leaves s reason
    | _ => true
  | _ => true

def Attended (s : State) : Prop := s.passedOver ≤ s.freeWorkers

/-! ## What a step does to the two numbers -/

theorem passes_setWorker (hx : s.workers[w]? = some x)
    (hy : y.holdsBeyond time = true → x.holdsBeyond time = true)
    (h : (s.setWorker w y).passes time = true) : s.passes time = true := by
  obtain ⟨worker, hmem, hbeyond⟩ := any_eq_true.mp h
  obtain hworker | rfl := mem_or_eq_of_mem_set hmem
  · exact any_eq_true.mpr ⟨worker, hworker, hbeyond⟩
  · exact any_eq_true.mpr ⟨x, mem_of_getElem? hx, hy hbeyond⟩

theorem passedOver_setWorker_le (hx : s.workers[w]? = some x)
    (hy : ∀ time, y.holdsBeyond time = true → x.holdsBeyond time = true) :
    (s.setWorker w y).passedOver ≤ s.passedOver :=
  countP_mono_left fun inst _ h => passes_setWorker hx (hy inst.time) h

theorem freeWorkers_setWorker (hx : s.workers[w]? = some x) (y : Worker) :
    (s.setWorker w y).freeWorkers + (if x.free then 1 else 0) =
      s.freeWorkers + if y.free then 1 else 0 := countP_set hx y

theorem Attended.move (h : Attended s) (hx : s.workers[w]? = some x)
    (hy : ∀ time, y.holdsBeyond time = true → x.holdsBeyond time = true)
    (hfree : x.free = true → y.free = true) : Attended (s.setWorker w y) := by
  have hpassed := passedOver_setWorker_le hx hy
  have hcount := freeWorkers_setWorker hx y
  rw [Attended] at h ⊢
  cases hxf : x.free <;> simp_all <;> omega

/-- A worker that puts an instance in the queue is free to take it. -/
theorem Attended.put (h : Attended s) (hx : s.workers[w]? = some x) (hbusy : x.free = false)
    (inst : Instance) : Attended { s.setWorker w .idle with queue := inst :: s.queue } := by
  have hpassed := passedOver_setWorker_le hx (y := .idle) fun _ h => nomatch h
  have hcount := freeWorkers_setWorker hx .idle
  rw [Attended] at h ⊢
  change (inst :: s.queue).countP _ ≤ (s.setWorker w .idle).freeWorkers
  rw [countP_cons]
  change (s.setWorker w .idle).passedOver + _ ≤ _
  rw [hbusy] at hcount
  simp only [Worker.free, if_true, Bool.false_eq_true, if_false] at hcount
  split <;> omega

theorem passes_of_le {time time' : ℤ} (hle : time ≤ time') (h : s.passes time' = true) :
    s.passes time = true := by
  obtain ⟨worker, hmem, hbeyond⟩ := any_eq_true.mp h
  refine any_eq_true.mpr ⟨worker, hmem, ?_⟩
  cases worker with
  | holding inst | waiting inst deadline =>
    exact decide_eq_true (hle.trans_lt (of_decide_eq_true hbeyond))
  | _ => cases hbeyond

/-- The instance that is taken is due first, so if any has been passed over it has. -/
theorem Attended.take (h : Attended s) (hx : s.workers[w]? = some .ready) {i : ℕ}
    {inst : Instance} (hi : s.queue[i]? = some inst)
    (hfirst : ∀ other ∈ s.queue, inst.time ≤ other.time) :
    Attended { s.setWorker w (.holding inst) with queue := s.queue.eraseIdx i } := by
  have hcount := freeWorkers_setWorker hx (.holding inst)
  have hrest := countP_eraseIdx (p := (s.passes ·.time)) hi
  have hle : (s.queue.eraseIdx i).countP ((s.setWorker w (.holding inst)).passes ·.time) ≤
      (s.queue.eraseIdx i).countP (s.passes ·.time) := by
    refine countP_mono_left fun other hother => passes_setWorker hx fun hbeyond => ?_
    have hlt : other.time < inst.time := of_decide_eq_true hbeyond
    exact absurd (hfirst other (mem_of_mem_eraseIdx hother)) (not_le.mpr hlt)
  simp only [Worker.free, if_true, Bool.false_eq_true, if_false] at hcount
  change s.queue.countP _ ≤ _ at h
  refine hle.trans (?_ : _ ≤ (s.setWorker w (.holding inst)).freeWorkers)
  cases hinst : s.passes inst.time with
  | true =>
    rw [hinst, if_pos rfl] at hrest
    omega
  | false =>
    have hnone : (s.queue.eraseIdx i).countP (s.passes ·.time) = 0 :=
      countP_eq_zero.mpr fun other hother hpasses => by
        rw [passes_of_le (hfirst other (mem_of_mem_eraseIdx hother)) hpasses] at hinst
        cases hinst
    omega

/-- An orderly action leaves as many free workers as there are instances passed over. -/
theorem Attended.step (h : Attended s) (ha : orderly s a = true)
    (hs : step localTime s a = some s') : Attended s' := by
  cases a
  case tick | start | stop | prepareShutdown | removeTask | clearTasks => cases hs; exact h
  case addTask | runNow =>
    simp only [step, addTask, runNow] at hs
    repeat' split at hs
    all_goals cases hs
    all_goals exact h
  case spawn =>
    rw [step, spawn] at hs
    split at hs <;> cases hs
    simp only [Attended, passedOver, freeWorkers, passes, any_append, countP_append] at h ⊢
    simpa [Worker.holdsBeyond] using Nat.le_add_right_of_le h
  case pushPending i =>
    rw [step, pushPending] at hs
    split at hs <;> cases hs
    next inst hi =>
      rw [orderly, hi, Option.all_some] at ha
      change (inst :: s.queue).countP (s.passes ·.time) ≤ s.freeWorkers
      rw [countP_cons]
      change s.passedOver + _ ≤ _
      rw [Attended] at h
      split
      next hpasses =>
        rw [hpasses] at ha
        exact of_decide_eq_true ha
      next => exact h
  case clearQueue =>
    rw [step, clearQueue] at hs
    split at hs <;> cases hs
    exact Nat.zero_le _
  case check | wake =>
    simp only [step, check, wake] at hs
    split at hs <;> cases hs
    rw [if_neg (by simpa [orderly] using ha)]
    exact h.move ‹_› (fun _ h => nomatch h) fun _ => rfl
  case pop w i =>
    rw [step, pop] at hs
    split at hs
    · next hx hi =>
      split_ifs at hs with hfirst
      cases hs
      exact h.take hx hi hfirst
    · cases hs
  case pushBack w =>
    rw [step, pushBack] at hs
    split at hs <;> cases hs
    next inst reason hx =>
      rw [if_neg (by simpa [orderly, hx] using ha)]
      exact h.put hx rfl inst
  case push w =>
    rw [step, push] at hs
    split at hs <;> cases hs
    exact h.put ‹_› rfl _
  case popEmpty | beginWait | seeStop | fail | timeout | getTask | handled =>
    simp only [step, popEmpty, beginWait, seeStop, fail, timeout, getTask, handled] at hs
    repeat' split at hs
    all_goals cases hs
    all_goals exact h.move ‹_› (by simp [Worker.holdsBeyond]) (by simp [Worker.free])

theorem Attended.exists_free (h : Attended s) {worker : Worker} {queued : Instance}
    (hworker : worker ∈ s.workers) (hqueued : queued ∈ s.queue)
    (hbeyond : worker.holdsBeyond queued.time = true) : ∃ other ∈ s.workers, other.free = true := by
  have hpassed : 0 < s.passedOver :=
    countP_pos_iff.mpr ⟨queued, hqueued, any_eq_true.mpr ⟨worker, hworker, hbeyond⟩⟩
  exact countP_pos_iff.mp (hpassed.trans_le h)

theorem Attended.inOrder (h : Attended s) : InOrder s := by
  rintro worker hworker inst deadline rfl
  refine or_iff_not_imp_left.mpr fun hlater => ?_
  push Not at hlater
  obtain ⟨queued, hqueued, hlt⟩ := hlater
  exact h.exists_free hworker hqueued (decide_eq_true hlt)

theorem Attended.not_starved (h : Attended s) : ¬ Starved localTime s := by
  rintro ⟨inst, hinst, -, ⟨worker, hworker, hlive⟩, hall⟩
  have hbeyond : worker.holdsBeyond inst.time = true := by
    have hwaits := (hall worker hworker).resolve_left hlive
    cases worker with
    | waiting => exact hwaits
    | _ => cases hwaits
  obtain ⟨other, hother, hfree⟩ := h.exists_free hworker hinst hbeyond
  obtain rfl | hwaits := hall other hother
  · cases hfree
  · cases other with
    | waiting => cases hfree
    | _ => cases hwaits

/-- In a run in which a push that passes an instance over finds a free worker for it, and in which
no worker ends, no instance in the queue is held up by a later one. -/
theorem no_overtaking (localTime : ℤ → ℤ) (sys : ℤ) (actions : List Action)
    (h : Runs.Guarded (next localTime) (orderly · · = true) (initial sys) actions) :
    ∀ l, l <+: actions →
      ¬ Starved localTime (run localTime sys l) ∧ InOrder (run localTime sys l) := by
  rintro l ⟨rest, rfl⟩
  have hattended : Attended (run localTime sys l) := by
    refine Runs.Guarded.invariant (p := fun _ => True) ?_ (Runs.guarded_append.mp h).1
      (fun _ _ => trivial) le_rfl
    intro s a _ ha hs
    rw [next]
    cases hstep : step localTime s a with
    | none => exact hs
    | some s' => exact hs.step ha hstep
  exact ⟨hattended.not_starved, hattended.inOrder⟩

def pushedLater (workers : List Action) (first second : ℤ) : List Action :=
  .start :: workers ++ [.addTask [] (some first), .pushPending 0, .check 0, .pop 0 0,
    .beginWait 0, .addTask [] (some second), .pushPending 0]

/-- The second worker is free for the instance that is due before the one the first waits for. -/
theorem no_overtaking_spare : InOrder (run id 0 (pushedLater [.spawn, .spawn] 5 0)) :=
  (no_overtaking id 0 (pushedLater [.spawn, .spawn] 5 0) (by decide) _ (prefix_refl _)).2

/-- The instance that is due now stays in the queue until the one due in five microseconds has
been run. -/
theorem later_holds_up_earlier : Starved id (run id 0 (pushedLater [.spawn] 5 0)) := by
  rw [Starved]
  decide

end Nscp.Scheduler
