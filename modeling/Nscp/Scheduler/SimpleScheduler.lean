import Mathlib

/-!
# The scheduler's workers and its queue

Tasks are registered under an id, and instances of them stand in a queue with the time they are
due.  A worker takes an instance, waits until it is due, runs the task behind it and puts the next
instance in the queue; an instance it does not run goes back.  Workers and the operations of other
threads interleave between the locked steps.
-/

namespace Nscp.Scheduler

/-! ## Tasks and instances -/

/-- What a task runs on (its interval or its cron fields) only matters for its next run, which is
given to the steps that ask for it. -/
structure Task where
  id : ℕ
  tag : List Char
  deriving DecidableEq

structure Instance where
  time : ℤ
  tag : List Char
  scheduleId : ℕ
  deriving DecidableEq

/-- Why an instance is put back without having been run. -/
inductive Return
  | stopped
  | interrupted
  | failed
  deriving DecidableEq

inductive Worker
  | idle
  | ready
  | asleep
  | holding (inst : Instance)
  | waiting (inst : Instance) (deadline : ℤ)
  | returning (inst : Instance) (reason : Return)
  | due (inst : Instance)
  | running (task : Task)
  | rescheduling (inst : Instance)
  | gone
  deriving DecidableEq

def Worker.taskId : Worker → Option ℕ
  | .holding inst | .waiting inst _ | .returning inst _ | .due inst | .rescheduling inst =>
    some inst.scheduleId
  | .running task => some task.id
  | .idle | .ready | .asleep | .gone => none

/-- The life of an id: a task added without a first run is dormant, one whose first instance is on
its way is pending, and a task is abandoned when its handler answers false. -/
inductive Phase
  | unborn
  | dormant
  | pending
  | scheduled
  | abandoned
  deriving DecidableEq

/-- Fewer than 2^32 tasks are added, so ids are natural numbers.  `pending` are the instances that
`add_task` and `run_now` are about to push, `clearing` the
calls of `clear_tasks` that have not emptied the queue yet.  `phase` is history, and no step of the
code reads it. -/
structure State where
  sys : ℤ
  running : Bool
  stopRequested : Bool
  scheduleId : ℕ
  tasks : ℕ → Option Task
  queue : List Instance
  workers : List Worker
  pending : List Instance
  clearing : ℕ
  phase : ℕ → Phase

def State.initial (sys : ℤ) : State :=
  ⟨sys, false, false, 0, fun _ => none, [], [], [], 0, fun _ => .unborn⟩

def State.setWorker (s : State) (w : ℕ) (worker : Worker) : State :=
  { s with workers := s.workers.set w worker }

def State.setPhase (s : State) (id : ℕ) (phase : Phase) : State :=
  { s with phase := Function.update s.phase id phase }

def State.instances (s : State) (id : ℕ) : ℕ :=
  s.queue.countP (·.scheduleId = id) + s.workers.countP (·.taskId = some id)

inductive Answer
  | again
  | enough
  | threw
  deriving DecidableEq

inductive Action
  | tick (elapsed : ℕ)
  | start
  | stop
  | prepareShutdown
  | spawn
  | addTask (tag : List Char) (firstRun : Option ℤ)
  | runNow (id : ℕ) (delay : ℤ)
  | pushPending (i : ℕ)
  | removeTask (id : ℕ)
  | clearTasks
  | clearQueue
  | check (w : ℕ)
  | pop (w i : ℕ)
  | popEmpty (w : ℕ)
  | wake (w : ℕ) (interrupted : Bool)
  | beginWait (w : ℕ)
  | seeStop (w : ℕ)
  | fail (w : ℕ) (interrupted : Bool)
  | pushBack (w : ℕ)
  | timeout (w : ℕ)
  | getTask (w : ℕ)
  | handled (w : ℕ) (answer : Answer) (next : ℤ)
  | push (w : ℕ)

/-! ## The clocks

Time is in microseconds.  `localTime` is the time in the scheduler's time zone at a time of the
system clock. -/

section Steps

variable (localTime : ℤ → ℤ)

def second : ℤ := 1000000

/-- The scheduler's clock gives whole seconds. -/
def now (sys : ℤ) : ℤ :=
  localTime sys / second * second

/-! ## The operations of other threads -/

section

variable (s : State)

def start : State :=
  { s with running := true, stopRequested := false }

def requestStop : State :=
  { s with running := false, stopRequested := true }

def spawn : Option State :=
  if s.running ∧ !s.stopRequested then some { s with workers := s.workers ++ [.idle] } else none

def register (tag : List Char) : State :=
  { s with
    scheduleId := s.scheduleId + 1
    tasks := Function.update s.tasks (s.scheduleId + 1) (some ⟨s.scheduleId + 1, tag⟩) }

/-- Not while `clear_tasks` is under way. -/
def addTask (tag : List Char) (firstRun : Option ℤ) : Option State :=
  if s.clearing = 0 then
    match firstRun with
    | none => some ((register s tag).setPhase (s.scheduleId + 1) .dormant)
    | some time =>
      some { (register s tag).setPhase (s.scheduleId + 1) .pending with
        pending := s.pending ++ [⟨time, tag, s.scheduleId + 1⟩] }
  else none

/-- Once for a task that was added without a first run. -/
def runNow (id : ℕ) (delay : ℤ) : Option State :=
  match s.tasks id with
  | none => some s
  | some task =>
    if s.phase id = .dormant then
      some { s.setPhase id .pending with
        pending := s.pending ++ [⟨now localTime s.sys + delay, task.tag, id⟩] }
    else none

def pushPending (i : ℕ) : Option State :=
  match s.pending[i]? with
  | none => none
  | some inst =>
    some { s.setPhase inst.scheduleId .scheduled with
      pending := s.pending.eraseIdx i
      queue := inst :: s.queue }

def removeTask (id : ℕ) : State :=
  { s with tasks := Function.update s.tasks id none }

def clearTasks : State :=
  { s with tasks := fun _ => none, clearing := s.clearing + 1 }

def clearQueue : Option State :=
  if 0 < s.clearing then some { s with queue := [], clearing := s.clearing - 1 } else none

/-! ## The steps of a worker -/

def check (w : ℕ) : Option State :=
  match s.workers[w]? with
  | some .idle => some (s.setWorker w (if s.stopRequested then .gone else .ready))
  | _ => none

/-- The top of the queue is one of the instances that are due first. -/
def pop (w i : ℕ) : Option State :=
  match s.workers[w]?, s.queue[i]? with
  | some .ready, some inst =>
    if ∀ other ∈ s.queue, inst.time ≤ other.time then
      some { s.setWorker w (.holding inst) with queue := s.queue.eraseIdx i }
    else none
  | _, _ => none

def popEmpty (w : ℕ) : Option State :=
  match s.workers[w]?, s.queue with
  | some .ready, [] => some (s.setWorker w .asleep)
  | _, _ => none

/-- An interrupt that meets a worker without an instance ends it. -/
def wake (w : ℕ) (interrupted : Bool) : Option State :=
  match s.workers[w]? with
  | some .asleep => some (s.setWorker w (if interrupted then .gone else .idle))
  | _ => none

/-- `wait_for_stop` carries the distance to the due time over to the system clock. -/
def beginWait (w : ℕ) : Option State :=
  match s.workers[w]? with
  | some (.holding inst) =>
    some (s.setWorker w (.waiting inst (s.sys + (inst.time - now localTime s.sys))))
  | _ => none

def seeStop (w : ℕ) : Option State :=
  match s.workers[w]? with
  | some (.waiting inst _) =>
    if s.stopRequested then some (s.setWorker w (.returning inst .stopped)) else none
  | _ => none

/-- An interrupt or another exception, before the wait or in it. -/
def fail (w : ℕ) (interrupted : Bool) : Option State :=
  match s.workers[w]? with
  | some (.holding inst) | some (.waiting inst _) =>
    some (s.setWorker w (.returning inst (if interrupted then .interrupted else .failed)))
  | _ => none

def leaves : Return → Bool
  | .stopped => true
  | .interrupted => s.stopRequested || !s.running
  | .failed => false

def pushBack (w : ℕ) : Option State :=
  match s.workers[w]? with
  | some (.returning inst reason) =>
    some { s.setWorker w (if leaves s reason then .gone else .idle) with
      queue := inst :: s.queue }
  | _ => none

def timeout (w : ℕ) : Option State :=
  match s.workers[w]? with
  | some (.waiting inst deadline) =>
    if deadline ≤ s.sys ∧ !s.stopRequested then some (s.setWorker w (.due inst)) else none
  | _ => none

def getTask (w : ℕ) : Option State :=
  match s.workers[w]? with
  | some (.due inst) =>
    match s.tasks inst.scheduleId with
    | none => some (s.setWorker w .idle)
    | some task => some (s.setWorker w (.running task))
  | _ => none

/-- The next run is asked for after a true answer and after an exception. -/
def handled (w : ℕ) (answer : Answer) (next : ℤ) : Option State :=
  match s.workers[w]? with
  | some (.running task) =>
    match answer with
    | .again | .threw => some (s.setWorker w (.rescheduling ⟨next, task.tag, task.id⟩))
    | .enough => some ((s.setWorker w .idle).setPhase task.id .abandoned)
  | _ => none

def push (w : ℕ) : Option State :=
  match s.workers[w]? with
  | some (.rescheduling inst) => some { s.setWorker w .idle with queue := inst :: s.queue }
  | _ => none

/-! ## Runs -/

def step : Action → Option State
  | .tick elapsed => some { s with sys := s.sys + elapsed }
  | .start => some (start s)
  | .stop => some (requestStop s)
  | .prepareShutdown => some (requestStop s)
  | .spawn => spawn s
  | .addTask tag firstRun => addTask s tag firstRun
  | .runNow id delay => runNow localTime s id delay
  | .pushPending i => pushPending s i
  | .removeTask id => some (removeTask s id)
  | .clearTasks => some (clearTasks s)
  | .clearQueue => clearQueue s
  | .check w => check s w
  | .pop w i => pop s w i
  | .popEmpty w => popEmpty s w
  | .wake w interrupted => wake s w interrupted
  | .beginWait w => beginWait localTime s w
  | .seeStop w => seeStop s w
  | .fail w interrupted => fail s w interrupted
  | .pushBack w => pushBack s w
  | .timeout w => timeout s w
  | .getTask w => getTask s w
  | .handled w answer next => handled s w answer next
  | .push w => push s w

/-- An action that is not possible does nothing. -/
def next (a : Action) : State :=
  (step localTime s a).getD s

end

/-- A run of a new scheduler that is made at a time of the system clock. -/
def run (sys : ℤ) (actions : List Action) : State :=
  actions.foldl (next localTime) (State.initial sys)

def starts (s : State) : Action → Option (Instance × Task)
  | .getTask w =>
    match s.workers[w]? with
    | some (.due inst) => (s.tasks inst.scheduleId).map (inst, ·)
    | _ => none
  | _ => none

end Steps

/-! ## Counting instances -/

section Counts

variable {s : State} {w i : ℕ} {x : Worker} {α : Type}

def share (owner : Option ℕ) (id : ℕ) : ℕ :=
  if owner = some id then 1 else 0

section

variable {p : α → Bool} {xs : List α} {x : α} (hx : xs[i]? = some x)
include hx

theorem countP_eraseIdx : xs.countP p = (xs.eraseIdx i).countP p + if p x then 1 else 0 := by
  obtain ⟨hi, rfl⟩ := List.getElem?_eq_some_iff.mp hx
  rw [← (List.getElem_cons_eraseIdx_perm hi).countP_eq p, List.countP_cons]

theorem countP_set (y : α) :
    (xs.set i y).countP p + (if p x then 1 else 0) = xs.countP p + if p y then 1 else 0 := by
  obtain ⟨hi, -⟩ := List.getElem?_eq_some_iff.mp hx
  rw [(List.set_perm_cons_eraseIdx hi y).countP_eq p, List.countP_cons, countP_eraseIdx hx]
  omega

end

theorem State.instances_setWorker (hx : s.workers[w]? = some x) (y : Worker) (id : ℕ) :
    (s.setWorker w y).instances id + share x.taskId id = s.instances id + share y.taskId id := by
  have h := countP_set (p := (·.taskId = some id)) hx y
  simp only [decide_eq_true_eq] at h
  simp only [State.instances, State.setWorker, share]
  omega

theorem State.instances_setWorker_of_eq (hx : s.workers[w]? = some x) {y : Worker}
    (hy : y.taskId = x.taskId) (id : ℕ) : (s.setWorker w y).instances id = s.instances id := by
  have h := State.instances_setWorker hx y id
  rw [hy] at h
  omega

theorem countP_cons_scheduleId (inst : Instance) (queue : List Instance) (id : ℕ) :
    (inst :: queue).countP (·.scheduleId = id) =
      queue.countP (·.scheduleId = id) + share (some inst.scheduleId) id := by
  simp [List.countP_cons, share]

theorem countP_eraseIdx_scheduleId {queue : List Instance} {inst : Instance}
    (hi : queue[i]? = some inst) (id : ℕ) : queue.countP (·.scheduleId = id) =
      (queue.eraseIdx i).countP (·.scheduleId = id) + share (some inst.scheduleId) id := by
  have h := countP_eraseIdx (p := (·.scheduleId = id)) hi
  simpa only [decide_eq_true_eq, share, Option.some.injEq] using h

end Counts

end Nscp.Scheduler
