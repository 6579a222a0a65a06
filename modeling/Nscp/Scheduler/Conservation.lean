import Nscp.Scheduler.SimpleScheduler
import Nscp.Library.Runs

/-!
# Scheduled tasks are conserved

Each id has an account: whether it is registered, how far it has come, how many instances are about
to be pushed and how many are queued or with a worker.  A step exchanges one account for another in
one of a few ways, and every way keeps the account in balance.
-/

namespace Nscp.Scheduler

open List Worker Option State

/-! ## Accounts -/

structure Account where
  registered : Bool
  phase : Phase
  pending : ℕ
  instances : ℕ

def State.account (s : State) (id : ℕ) : Account :=
  ⟨(s.tasks id).isSome, s.phase id, s.pending.countP (·.scheduleId = id), s.instances id⟩

/-- A registered task that has been scheduled has one instance, and no task has two. -/
def Account.Balanced (account : Account) : Prop :=
  match account.phase with
  | .unborn | .dormant | .abandoned => account.pending = 0 ∧ account.instances = 0
  | .pending => account.pending = 1 ∧ account.instances = 0
  | .scheduled => account.pending = 0 ∧ account.instances ≤ 1 ∧
      (account.registered = true → account.instances = 1)

/-- What a step can do to the account of an id. -/
inductive Exchange : Account → Account → Prop
  | same (account : Account) : Exchange account account
  | unregister (r : Bool) (phase : Phase) (p n : ℕ) : Exchange ⟨r, phase, p, n⟩ ⟨false, phase, p, n⟩
  | drop (phase : Phase) {p n m : ℕ} (h : m ≤ n) :
      Exchange ⟨false, phase, p, n⟩ ⟨false, phase, p, m⟩
  | abandon (r : Bool) (phase : Phase) (p n : ℕ) :
      Exchange ⟨r, phase, p, n + 1⟩ ⟨r, .abandoned, p, n⟩
  | await (r : Bool) (p n : ℕ) : Exchange ⟨r, .unborn, p, n⟩ ⟨true, .dormant, p, n⟩
  | prepare (r : Bool) {phase : Phase} (h : phase = .unborn ∨ phase = .dormant) (p n : ℕ) :
      Exchange ⟨r, phase, p, n⟩ ⟨true, .pending, p + 1, n⟩
  | push (r : Bool) (phase : Phase) (p n : ℕ) :
      Exchange ⟨r, phase, p + 1, n⟩ ⟨r, .scheduled, p, n + 1⟩

open Exchange

variable {before after account : Account}

theorem Exchange.balanced (h : Exchange before after) (hb : before.Balanced) : after.Balanced := by
  cases h with
  | same => exact hb
  | unregister r phase p n | drop phase h => cases phase <;> grind [Account.Balanced]
  | abandon r phase p n => cases phase <;> grind [Account.Balanced]
  | await r p n => exact hb
  | prepare r h p n =>
    rcases h with rfl | rfl
    all_goals exact ⟨congrArg (· + 1) hb.1, hb.2⟩
  | push r phase p n => cases phase <;> grind [Account.Balanced]

theorem Exchange.unborn (h : Exchange before after) (hb : before.Balanced)
    (hphase : before.phase = .unborn) (hr : after.registered = false) : after.phase = .unborn := by
  cases h <;> simp_all [Account.Balanced]

/-! ## What a step does to the accounts -/

section Steps

variable {localTime offset : ℤ → ℤ} {s s' : State} {w id i : ℕ} {x y : Worker}

structure Invariant (s : State) : Prop where
  balanced : ∀ id, (s.account id).Balanced
  named : ∀ {id task}, s.tasks id = some task → task.id = id
  issued : ∀ {id}, s.scheduleId < id → s.phase id = .unborn
  known : ∀ {id}, s.scheduleId < id → s.tasks id = none
  cleared : 0 < s.clearing → ∀ id, s.tasks id = none

theorem account_setWorker (hx : s.workers[w]? = some x) (hy : y.taskId = x.taskId) (id : ℕ) :
    (s.setWorker w y).account id = s.account id := by
  have h := instances_setWorker_of_eq hx hy id
  simp only [account, h]
  simp [setWorker]

variable {inst : Instance}

theorem share_none (id : ℕ) : share none id = 0 := if_neg (nomatch ·)

theorem account_take (hx : s.workers[w]? = some x) (hfree : x.taskId = none)
    (hi : s.queue[i]? = some inst) (hy : y.taskId = some inst.scheduleId) (id : ℕ) :
    ({ s.setWorker w y with queue := s.queue.eraseIdx i } : State).account id = s.account id := by
  have hworker := instances_setWorker hx y id
  have hqueue := countP_eraseIdx_scheduleId hi id
  rw [hfree, hy] at hworker
  have hnone := share_none id
  have hcount : ({ s.setWorker w y with queue := s.queue.eraseIdx i } : State).instances id =
      s.instances id := by
    simp only [instances, setWorker] at hworker ⊢
    omega
  simp only [account, hcount]
  simp [setWorker]

theorem account_put (hx : s.workers[w]? = some x) (hhas : x.taskId = some inst.scheduleId)
    (hy : y.taskId = none) (id : ℕ) :
    ({ s.setWorker w y with queue := inst :: s.queue } : State).account id = s.account id := by
  have hworker := instances_setWorker hx y id
  have hqueue := countP_cons_scheduleId inst s.queue id
  rw [hhas, hy] at hworker
  have hnone := share_none id
  have hcount : ({ s.setWorker w y with queue := inst :: s.queue } : State).instances id =
      s.instances id := by
    simp only [instances, setWorker] at hworker ⊢
    omega
  simp only [account, hcount]
  simp [setWorker]

theorem exchange_of_eq (h : after = before) : Exchange before after :=
  h ▸ same before

def Worker.OnTime (localTime : ℤ → ℤ) (sys : ℤ) : Worker → Prop
  | .waiting inst deadline => ∃ t ≤ sys, deadline = t + (inst.time - now localTime t)
  | .due inst => ∃ t ≤ sys, inst.time ≤ now localTime t + (sys - t)
  | _ => True

inductive Effect (localTime : ℤ → ℤ) (s : State) : State → Prop
  | tick (elapsed : ℕ) : Effect localTime s { s with sys := s.sys + elapsed }
  | flags (running stopRequested : Bool) :
      Effect localTime s { s with running := running, stopRequested := stopRequested }
  | spawn : Effect localTime s { s with workers := s.workers ++ [.idle] }
  | await (h : s.clearing = 0) (tag : List Char) :
      Effect localTime s ((register s tag).setPhase (s.scheduleId + 1) .dormant)
  | prepare (h : s.clearing = 0) (tag : List Char) (time : ℤ) :
      Effect localTime s { (register s tag).setPhase (s.scheduleId + 1) .pending with
        pending := s.pending ++ [⟨time, tag, s.scheduleId + 1⟩] }
  | runNow {id : ℕ} {task : Task} (htask : s.tasks id = some task)
      (hphase : s.phase id = .dormant) (time : ℤ) :
      Effect localTime s { s.setPhase id .pending with
        pending := s.pending ++ [⟨time, task.tag, id⟩] }
  | pushPending {i : ℕ} {inst : Instance} (hi : s.pending[i]? = some inst) :
      Effect localTime s { s.setPhase inst.scheduleId .scheduled with
        pending := s.pending.eraseIdx i
        queue := inst :: s.queue }
  | removeTask (id : ℕ) : Effect localTime s (removeTask s id)
  | clearTasks : Effect localTime s (clearTasks s)
  | clearQueue (h : 0 < s.clearing) :
      Effect localTime s { s with queue := [], clearing := s.clearing - 1 }
  | move {w : ℕ} {x y : Worker} (hx : s.workers[w]? = some x) (hy : y.taskId = x.taskId)
      (htime : x.OnTime localTime s.sys → y.OnTime localTime s.sys) :
      Effect localTime s (s.setWorker w y)
  | take {w i : ℕ} {inst : Instance} (hx : s.workers[w]? = some .ready)
      (hi : s.queue[i]? = some inst) :
      Effect localTime s { s.setWorker w (.holding inst) with queue := s.queue.eraseIdx i }
  | put {w : ℕ} {x y : Worker} {inst : Instance} (hx : s.workers[w]? = some x)
      (hhas : x.taskId = some inst.scheduleId) (hy : y = .idle ∨ y = .gone) :
      Effect localTime s { s.setWorker w y with queue := inst :: s.queue }
  | drop {w : ℕ} {inst : Instance} (hx : s.workers[w]? = some (.due inst))
      (hnone : s.tasks inst.scheduleId = none) : Effect localTime s (s.setWorker w .idle)
  | run {w : ℕ} {inst : Instance} {task : Task} (hx : s.workers[w]? = some (.due inst))
      (htask : s.tasks inst.scheduleId = some task) :
      Effect localTime s (s.setWorker w (.running task))
  | abandon {w : ℕ} {task : Task} (hx : s.workers[w]? = some (.running task)) :
      Effect localTime s ((s.setWorker w .idle).setPhase task.id .abandoned)

variable {a : Action} {task : Task}

/-- Every action has one of the effects; what follows looks at the effects alone. -/
theorem effect_step (hs : step localTime s a = some s') : Effect localTime s s' := by
  cases a
  case tick elapsed => cases hs; exact .tick elapsed
  case start | stop | prepareShutdown => cases hs; exact .flags _ _
  case removeTask id => cases hs; exact .removeTask id
  case clearTasks => cases hs; exact .clearTasks
  case spawn =>
    rw [step, spawn] at hs
    split at hs <;> cases hs
    exact .spawn
  case addTask tag firstRun =>
    rw [step, addTask.eq_def] at hs
    split_ifs at hs with hclearing
    cases firstRun with
    | none => cases hs; exact .await hclearing tag
    | some time => cases hs; exact .prepare hclearing tag time
  case runNow id delay =>
    rw [step, runNow] at hs
    split at hs
    · cases hs
      exact .flags s.running s.stopRequested
    · split_ifs at hs with hdormant
      cases hs
      exact .runNow ‹_› hdormant _
  case pushPending i =>
    rw [step, pushPending] at hs
    split at hs <;> cases hs
    exact .pushPending ‹_›
  case clearQueue =>
    rw [step, clearQueue] at hs
    split at hs <;> cases hs
    exact .clearQueue ‹_›
  case pop w i =>
    rw [step, pop] at hs
    repeat' split at hs
    all_goals cases hs
    exact .take ‹_› ‹_›
  case getTask w =>
    rw [step, getTask] at hs
    repeat' split at hs
    all_goals cases hs
    · exact .drop ‹_› ‹_›
    · exact .run ‹_› ‹_›
  case check | wake =>
    simp only [step, check, wake] at hs
    split at hs <;> cases hs
    exact .move ‹_› (by split_ifs <;> rfl) fun _ => by split_ifs <;> trivial
  case popEmpty | seeStop | fail =>
    simp only [step, popEmpty, seeStop, fail] at hs
    repeat' split at hs
    all_goals cases hs
    all_goals exact .move ‹_› (by rfl) fun _ => trivial
  case handled w answer time =>
    rw [step, handled] at hs
    repeat' split at hs
    all_goals cases hs
    case h_3 => exact .abandon ‹_›
    all_goals exact .move ‹_› (by rfl) fun _ => trivial
  case push | pushBack =>
    simp only [step, push, pushBack] at hs
    split at hs <;> cases hs
    exact .put ‹_› (by rfl) (by grind)
  case beginWait w =>
    rw [step, beginWait] at hs
    split at hs <;> cases hs
    exact .move ‹_› (by rfl) fun _ => ⟨s.sys, le_rfl, rfl⟩
  case timeout w =>
    rw [step, timeout] at hs
    split at hs
    · next hx =>
        split_ifs at hs with hdue
        cases hs
        refine .move hx (by rfl) fun ⟨t, ht, hdeadline⟩ => ⟨t, ht, ?_⟩
        have := hdue.1
        omega
    · cases hs

theorem exchange_pushPending (hi : s.pending[i]? = some inst) (id : ℕ) :
    Exchange (s.account id) (({ s.setPhase inst.scheduleId .scheduled with
      pending := s.pending.eraseIdx i, queue := inst :: s.queue } : State).account id) := by
  have hpending := countP_eraseIdx_scheduleId hi id
  have hqueue := countP_cons_scheduleId inst s.queue id
  by_cases hid : inst.scheduleId = id
  · have hshare : share (some inst.scheduleId) id = 1 := if_pos (congrArg some hid)
    rw [hshare] at hpending hqueue
    have hafter := Exchange.push (s.tasks id).isSome (s.phase id)
      ((s.pending.eraseIdx i).countP (·.scheduleId = id)) (s.instances id)
    rw [← hpending] at hafter
    subst hid
    simpa [account, setPhase, instances, hqueue, Nat.add_right_comm] using hafter
  · have hshare : share (some inst.scheduleId) id = 0 := if_neg fun h => hid (some.inj h)
    rw [hshare, Nat.add_zero] at hpending hqueue
    refine exchange_of_eq ?_
    simp [account, instances, setPhase, hqueue, hpending, Function.update_of_ne (Ne.symm hid)]

theorem exchange_drop (hx : s.workers[w]? = some (.due inst))
    (hnone : s.tasks inst.scheduleId = none) (id : ℕ) :
    Exchange (s.account id) ((s.setWorker w .idle).account id) := by
  have hworker := instances_setWorker hx .idle id
  have hfree : share idle.taskId id = 0 := share_none id
  by_cases hid : inst.scheduleId = id
  · subst hid
    have hle : (s.setWorker w .idle).instances inst.scheduleId ≤ s.instances inst.scheduleId := by
      omega
    have hafter := drop (s.phase inst.scheduleId) hle
      (p := s.pending.countP (·.scheduleId = inst.scheduleId))
    simpa only [account, setWorker, hnone, isSome_none] using hafter
  · have hhad : share (due inst).taskId id = 0 := if_neg fun h => hid (some.inj h)
    have hcount : (s.setWorker w .idle).instances id = s.instances id := by omega
    refine exchange_of_eq ?_
    simp only [account, hcount]
    simp [setWorker]

theorem exchange_abandon (hx : s.workers[w]? = some (.running task)) (id : ℕ) :
    Exchange (s.account id)
      (((s.setWorker w .idle).setPhase task.id .abandoned).account id) := by
  have hworker := instances_setWorker hx .idle id
  have hfree : share idle.taskId id = 0 := share_none id
  have hphase : ((s.setWorker w .idle).setPhase task.id .abandoned).instances id =
      (s.setWorker w .idle).instances id := rfl
  by_cases hid : id = task.id
  · subst hid
    have hhad : share (running task).taskId task.id = 1 := if_pos rfl
    have hcount : s.instances task.id = (s.setWorker w .idle).instances task.id + 1 := by omega
    have hafter := abandon (s.tasks task.id).isSome (s.phase task.id)
      (s.pending.countP (·.scheduleId = task.id)) ((s.setWorker w .idle).instances task.id)
    rw [← hcount] at hafter
    simp only [account, hphase]
    simpa only [setPhase, setWorker, Function.update_self] using hafter
  · have hhad : share (running task).taskId id = 0 :=
      if_neg fun h => hid (some.inj h).symm
    have hcount : (s.setWorker w .idle).instances id = s.instances id := by omega
    refine exchange_of_eq ?_
    simp only [account, hphase, hcount]
    simp [setPhase, setWorker, Function.update_of_ne hid]

/-- What an effect does to the account of one id, whichever id it was about. -/
theorem exchange_effect (h : Invariant s) (he : Effect localTime s s') (id : ℕ) :
    Exchange (s.account id) (s'.account id) := by
  have hphase := h.issued (Nat.lt_succ_self s.scheduleId)
  cases he with
  | tick | flags => exact .same _
  | spawn =>
    refine exchange_of_eq ?_
    simp only [account, instances, countP_append]
    rfl
  | await hclearing tag =>
    by_cases hid : id = s.scheduleId + 1
    · subst hid
      have hafter := await (s.tasks (s.scheduleId + 1)).isSome
        (s.pending.countP (·.scheduleId = s.scheduleId + 1)) (s.instances (s.scheduleId + 1))
      simpa [account, setPhase, register, instances, hphase] using hafter
    · refine exchange_of_eq ?_
      simp [account, setPhase, register, instances, hid]
  | prepare hclearing tag time =>
    by_cases hid : id = s.scheduleId + 1
    · subst hid
      have hafter := prepare (s.tasks (s.scheduleId + 1)).isSome (.inl rfl)
        (s.pending.countP (·.scheduleId = s.scheduleId + 1)) (s.instances (s.scheduleId + 1))
      simpa [account, setPhase, register, instances, hphase] using hafter
    · refine exchange_of_eq ?_
      simp [account, setPhase, register, instances, hid, Ne.symm hid]
  | @runNow id' task htask hdormant time =>
    by_cases hid : id = id'
    · subst hid
      have hafter := prepare true (.inr hdormant)
        (s.pending.countP (·.scheduleId = id)) (s.instances id)
      simpa [account, setPhase, instances, htask] using hafter
    · refine exchange_of_eq ?_
      simp [account, setPhase, instances, hid, Ne.symm hid]
  | pushPending hi => exact exchange_pushPending hi id
  | removeTask id' =>
    by_cases hid : id = id'
    · subst hid
      have hafter := unregister (s.tasks id).isSome (s.phase id)
        (s.pending.countP (·.scheduleId = id)) (s.instances id)
      simpa [account, removeTask, instances] using hafter
    · refine exchange_of_eq ?_
      simp [account, removeTask, instances, hid]
  | clearTasks => exact .unregister _ _ _ _
  | clearQueue hclearing =>
    have hnone := h.cleared hclearing id
    have hle : ({ s with queue := [], clearing := s.clearing - 1 } : State).instances id ≤
        s.instances id := by
      simp only [instances, countP_nil]
      omega
    have hafter := drop (s.phase id) hle (p := s.pending.countP (·.scheduleId = id))
    simpa only [account, hnone, isSome_none] using hafter
  | move hx hy => exact exchange_of_eq (account_setWorker hx hy id)
  | take hx hi => exact exchange_of_eq (account_take hx rfl hi rfl id)
  | put hx hhas hy =>
    exact exchange_of_eq (account_put hx hhas (by rcases hy with rfl | rfl <;> rfl) id)
  | drop hx hnone => exact exchange_drop hx hnone id
  | run hx htask =>
    exact exchange_of_eq (account_setWorker hx (by exact congrArg some (h.named htask)) id)
  | abandon hx => exact exchange_abandon hx id

theorem registry_effect (he : Effect localTime s s') :
    (s'.scheduleId = s.scheduleId ∧ (∀ id, s'.tasks id = none ∨ s'.tasks id = s.tasks id) ∧
      (s'.clearing ≤ s.clearing ∨ ∀ id, s'.tasks id = none)) ∨
    (s'.scheduleId = s.scheduleId + 1 ∧ s'.clearing = 0 ∧
      (∃ tag, s'.tasks (s.scheduleId + 1) = some ⟨s.scheduleId + 1, tag⟩) ∧
      ∀ id ≠ s.scheduleId + 1, s'.tasks id = s.tasks id) := by
  cases he with
  | await hclearing tag | prepare hclearing tag time =>
    exact .inr (by simp +contextual [register, setPhase, hclearing])
  | removeTask id' =>
    refine .inl ⟨rfl, fun id => ?_, .inl le_rfl⟩
    by_cases hid : id = id' <;> simp [removeTask, hid]
  | clearTasks => exact .inl ⟨rfl, fun _ => .inl rfl, .inr fun _ => rfl⟩
  | clearQueue => exact .inl ⟨rfl, fun _ => .inr rfl, .inl (Nat.sub_le _ _)⟩
  | _ => exact .inl ⟨rfl, fun _ => .inr rfl, .inl le_rfl⟩

theorem scheduleId_le_step (hs : step localTime s a = some s') : s.scheduleId ≤ s'.scheduleId := by
  obtain ⟨hid, -⟩ | ⟨hid, -⟩ := registry_effect (effect_step hs)
  · exact hid.ge
  · omega

theorem Invariant.step (h : Invariant s) (hs : step localTime s a = some s') : Invariant s' := by
  have hle := scheduleId_le_step hs
  have hexchange := exchange_effect h (effect_step hs)
  have hissued : (∀ {id}, s'.scheduleId < id → s'.tasks id = none) → ∀ {id},
      s'.scheduleId < id → s'.phase id = .unborn := fun hknown id hid =>
    (hexchange id).unborn (h.balanced id) (h.issued (hle.trans_lt hid))
      (isSome_eq_false_iff.mpr (isNone_iff_eq_none.mpr (hknown hid)))
  have hbalanced := fun id => (hexchange id).balanced (h.balanced id)
  obtain ⟨-, htasks, hclearing⟩ | ⟨hnew, hclearing, ⟨tag, htask⟩, hothers⟩ :=
    registry_effect (effect_step hs)
  · have hkept : ∀ {id}, s.tasks id = none → s'.tasks id = none := fun {id} hnone =>
      (htasks id).elim (fun hn => hn) fun he => he.trans hnone
    have hknown : ∀ {id}, s'.scheduleId < id → s'.tasks id = none := fun hid =>
      hkept (h.known (hle.trans_lt hid))
    refine ⟨hbalanced, fun {id} _ ht => ?_, hissued hknown, hknown, fun hc id => ?_⟩
    · exact h.named (((htasks id).resolve_left fun hn => nomatch hn.symm.trans ht).symm.trans ht)
    · exact hclearing.elim (fun hle => hkept (h.cleared (hc.trans_le hle) id)) fun hnone => hnone id
  · have hknown : ∀ {id}, s'.scheduleId < id → s'.tasks id = none := fun {id} hid =>
      (hothers id (by omega)).trans (h.known (hle.trans_lt hid))
    refine ⟨hbalanced, fun {id} _ ht => ?_, hissued hknown, hknown, fun hc => ?_⟩
    · by_cases hid : id = s.scheduleId + 1
      · subst hid
        obtain rfl := some.inj (htask.symm.trans ht)
        rfl
      · exact h.named ((hothers id hid).symm.trans ht)
    · omega

variable (sys : ℤ) (actions : List Action)

theorem invariant_initial : Invariant (initial sys) :=
  ⟨fun _ => ⟨rfl, rfl⟩, (nomatch ·), fun _ => rfl, fun _ => rfl, fun _ _ => rfl⟩

theorem invariant_run : Invariant (run localTime sys actions) := by
  refine Runs.foldl_invariant (fun s a h => ?_) (invariant_initial sys) actions
  rw [next]
  cases hs : Scheduler.step localTime s a with
  | none => exact h
  | some s' => exact h.step hs

/-! ## Tasks that are gone -/

theorem unregistered_step (hid : id ≤ s.scheduleId) (hnone : s.tasks id = none) (a : Action) :
    id ≤ (next localTime s a).scheduleId ∧ (next localTime s a).tasks id = none := by
  rw [next]
  cases hs : Scheduler.step localTime s a with
  | none => exact ⟨hid, hnone⟩
  | some s' =>
    refine ⟨hid.trans (scheduleId_le_step hs), ?_⟩
    obtain ⟨-, htasks, -⟩ | ⟨-, -, -, hothers⟩ := registry_effect (effect_step hs)
    · exact (htasks id).elim (fun hn => hn) fun he => he.trans hnone
    · exact (hothers id (by omega)).trans hnone

theorem unregistered_run {sys : ℤ} {actions : List Action}
    (hid : id ≤ (run localTime sys actions).scheduleId)
    (hnone : (run localTime sys actions).tasks id = none) (later : List Action) :
    (run localTime sys (actions ++ later)).tasks id = none := by
  rw [run, foldl_append]
  exact (Runs.foldl_invariant (I := fun s : State => id ≤ s.scheduleId ∧ s.tasks id = none)
    (fun _ a h => unregistered_step h.1 h.2 a) ⟨hid, hnone⟩ later).2

theorem starts_eq_some (h : starts s a = some (inst, task)) :
    due inst ∈ s.workers ∧ s.tasks inst.scheduleId = some task := by
  cases a with
  | getTask w =>
    rw [starts] at h
    split at h
    · next inst' hx =>
        obtain ⟨task', htask, hpair⟩ := map_eq_some_iff.mp h
        cases hpair
        exact ⟨mem_of_getElem? hx, htask⟩
    · cases h
  | _ => cases h

/-! ## Due times -/

/-- Between two moments the time in the scheduler's zone advances by no less than the system
clock, measured from what the scheduler's clock shows at the first. -/
def KeepsPace (localTime : ℤ → ℤ) : Prop :=
  ∀ t t', t ≤ t' → now localTime t + (t' - t) ≤ localTime t'

theorem now_le (localTime : ℤ → ℤ) (t : ℤ) : now localTime t ≤ localTime t :=
  Int.ediv_mul_le _ (by decide)

theorem keepsPace_of_monotone (h : Monotone offset) : KeepsPace fun t => t + offset t := by
  intro t t' ht
  have hnow := now_le (fun t => t + offset t) t
  have hoffset := h ht
  dsimp only at hnow ⊢
  omega

def Timed (localTime : ℤ → ℤ) (s : State) : Prop :=
  ∀ worker ∈ s.workers, worker.OnTime localTime s.sys

theorem Worker.OnTime.tick {sys : ℤ} {worker : Worker} (h : worker.OnTime localTime sys)
    (elapsed : ℕ) : worker.OnTime localTime (sys + elapsed) := by
  cases worker with
  | waiting inst deadline =>
    obtain ⟨t, ht, hdeadline⟩ := h
    exact ⟨t, by omega, hdeadline⟩
  | due inst =>
    obtain ⟨t, ht, htime⟩ := h
    exact ⟨t, by omega, by omega⟩
  | _ => trivial

theorem Timed.setWorker (h : Timed localTime s) (hy : y.OnTime localTime s.sys) (w : ℕ) :
    Timed localTime (s.setWorker w y) := by
  intro worker hmem
  rcases mem_or_eq_of_mem_set hmem with hold | rfl
  · exact h worker hold
  · exact hy

theorem Timed.effect (h : Timed localTime s) (he : Effect localTime s s') :
    Timed localTime s' := by
  cases he with
  | tick elapsed => exact fun worker hmem => (h worker hmem).tick elapsed
  | spawn =>
    intro worker hmem
    rcases mem_append.mp hmem with hold | hnew
    · exact h worker hold
    · cases mem_singleton.mp hnew
      trivial
  | move hx _ htime => exact h.setWorker (htime (h _ (mem_of_getElem? hx))) _
  | put _ _ hy => exact h.setWorker (by rcases hy with rfl | rfl <;> trivial) _
  | take | drop | run | abandon => exact h.setWorker (by trivial) _
  | _ => exact h

theorem timed_run : Timed localTime (run localTime sys actions) := by
  refine Runs.foldl_invariant (fun s a h => ?_) (fun _ hmem => nomatch hmem) actions
  rw [next]
  cases hs : Scheduler.step localTime s a with
  | none => exact h
  | some s' => exact h.effect (effect_step hs)

end Steps

/-! ## Conservation -/

/-- What the scheduler promises after a run, for the state and for the action that comes next. -/
structure Conserved (localTime : ℤ → ℤ) (sys : ℤ) (actions : List Action) : Prop where
  atMostOne : ∀ id, (run localTime sys actions).instances id ≤ 1
  exactlyOne : ∀ id, (run localTime sys actions).tasks id ≠ none →
    (run localTime sys actions).phase id = .scheduled →
    (run localTime sys actions).instances id = 1
  onTime : ∀ a inst task, starts (run localTime sys actions) a = some (inst, task) →
    inst.time ≤ localTime (run localTime sys actions).sys
  own : ∀ a inst task, starts (run localTime sys actions) a = some (inst, task) →
    (run localTime sys actions).tasks inst.scheduleId = some task ∧ task.id = inst.scheduleId
  gone : ∀ id ≤ (run localTime sys actions).scheduleId,
    (run localTime sys actions).tasks id = none → ∀ later a inst task,
      starts (run localTime sys (actions ++ later)) a = some (inst, task) →
        inst.scheduleId ≠ id ∧ task.id ≠ id

theorem Account.Balanced.instances_le (h : account.Balanced) : account.instances ≤ 1 := by
  rw [Account.Balanced] at h
  split at h <;> omega

theorem Account.Balanced.instances_eq (h : account.Balanced) (hphase : account.phase = .scheduled)
    (hr : account.registered = true) : account.instances = 1 := by
  rw [Account.Balanced, hphase] at h
  exact h.2.2 hr

theorem conserved_of_keepsPace {localTime : ℤ → ℤ} (h : KeepsPace localTime) (sys : ℤ)
    (actions : List Action) : Conserved localTime sys actions := by
  have hinv : Invariant (run localTime sys actions) := invariant_run sys actions
  refine ⟨fun id => (hinv.balanced id).instances_le, fun id hid hphase => ?_,
    fun a inst task hstart => ?_, fun a inst task hstart => ?_, fun id hid hnone later a inst task
      hstart => ?_⟩
  · exact (hinv.balanced id).instances_eq hphase (isSome_iff_ne_none.mpr hid)
  · obtain ⟨hdue, -⟩ := starts_eq_some hstart
    obtain ⟨t, ht, htime⟩ := timed_run sys actions _ hdue
    exact htime.trans (h t _ ht)
  · obtain ⟨-, htask⟩ := starts_eq_some hstart
    exact ⟨htask, hinv.named htask⟩
  · obtain ⟨-, htask⟩ := starts_eq_some hstart
    have hgone := unregistered_run hid hnone later
    have hname := (invariant_run sys (actions ++ later)).named htask
    have hne : inst.scheduleId ≠ id := by
      rintro rfl
      exact nomatch hgone.symm.trans htask
    exact ⟨hne, hname ▸ hne⟩

def delayed (elapsed : ℕ) : List Action :=
  [.start, .spawn, .addTask [] none, .runNow 1 elapsed, .pushPending 0, .check 0, .pop 0 0,
    .beginWait 0, .tick elapsed, .timeout 0]

theorem run_delayed (localTime : ℤ → ℤ) (sys : ℤ) (elapsed : ℕ) :
    (run localTime sys (delayed elapsed)).sys = sys + elapsed ∧
      starts (run localTime sys (delayed elapsed)) (.getTask 0) =
        some (⟨now localTime sys + elapsed, [], 1⟩, ⟨1, []⟩) := by
  simp [run, delayed, initial, next, step, start, spawn, addTask, register, setPhase,
    runNow, pushPending, check, pop, beginWait, timeout, setWorker, starts]

/-- For every interleaving of any number of workers with the operations of other threads: a task
has at most one instance and, from its first scheduling to its end, exactly one; an instance starts
the task it was made for and no other, and none of a task that is gone; and no instance is started
before it is due.  The last part holds for all runs exactly when the time in the scheduler's zone
keeps pace with the system clock, as a worker waits out the distance to the due time on the
latter. -/
theorem conserved_iff (localTime : ℤ → ℤ) :
    (∀ sys actions, Conserved localTime sys actions) ↔ KeepsPace localTime := by
  constructor
  · intro h t t' ht
    obtain ⟨elapsed, rfl⟩ := Int.le.dest ht
    obtain ⟨hsys, hstart⟩ := run_delayed localTime t elapsed
    have htime := (h t (delayed elapsed)).onTime _ _ _ hstart
    rw [hsys] at htime
    rw [add_sub_cancel_left]
    exact htime
  · exact fun h sys actions => conserved_of_keepsPace h sys actions

theorem conserved_fixedOffset (offset sys : ℤ) (actions : List Action) :
    Conserved (fun t => t + offset) sys actions :=
  conserved_of_keepsPace (keepsPace_of_monotone monotone_const) sys actions

def summerTimeEnds (t : ℤ) : ℤ :=
  t + if t < 0 then 7200 * second else 3600 * second

/-- An instance that is due at three in the morning is started at two, when summer time ends while
a worker waits with it. -/
theorem summerTimeEnds_startsEarly :
    ¬ Conserved summerTimeEnds (-3600 * second)
      [.start, .spawn, .addTask [] (some (7200 * second)), .pushPending 0, .check 0, .pop 0 0,
        .beginWait 0, .tick 3600000000, .timeout 0] := by
  intro h
  have hstart := h.onTime (.getTask 0) ⟨7200 * second, [], 1⟩ ⟨1, []⟩ (by decide +kernel)
  exact absurd hstart (by decide +kernel)

end Nscp.Scheduler
