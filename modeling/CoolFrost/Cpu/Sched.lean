import CoolFrost.Fs.Node

/-!
# The scheduler

The task pool of `cpu/sched.c`: submitting tasks, the end of a task, and the switch at the end of an
interrupt.  The part of a task that matters here is its state, its place in the run queues and its
own table of open files; a run queue is the list of the tasks in it, oldest first.
-/

namespace CoolFrost

/-- `task_state_t`. -/
inductive TaskState where
  | free
  | ready
  | running
  | blocked
  | done
  deriving DecidableEq, Repr

/-- A task (`task_t`). -/
structure Task where
  state : TaskState
  priority : ℕ
  isUser : Bool
  cr3 : ℕ
  timeslice : ℕ
  quantum : ℕ
  fdTable : ℕ → FileDescriptor

/-- The state of the scheduler.  The current task is `none` for the idle task. -/
structure Sched where
  taskPool : ℕ → Task
  taskCount : ℕ
  idleTask : Task
  curTask : Option ℕ
  runQueue : ℕ → List ℕ
  wantSchedule : Bool
  schedulerActive : Bool
  userStackNext : ℕ
  loadedCr3 : ℕ

namespace Sched

/-- `MAX_TASKS`. -/
def maxTasks : ℕ := 32
/-- `MAX_USER_TASKS`. -/
def maxUserTasks : ℕ := 8
/-- `PRIO_LEVELS`. -/
def prioLevels : ℕ := 4
/-- `PRIO_NORMAL`. -/
def prioNormal : ℕ := 2
/-- `MASTER_CR3_PHYS`. -/
def masterCr3 : ℕ := 0x1000

/-- `prio_quantum`. -/
def prioQuantum (priority : ℕ) : ℕ := [5, 10, 20, 50].getD priority 0

/-- The task a pointer like `cur_task` refers to. -/
def task (s : Sched) : Option ℕ → Task
  | none => s.idleTask
  | some i => s.taskPool i

/-- Change the task a pointer refers to. -/
def setTask (s : Sched) (t : Option ℕ) (new : Task) : Sched :=
  match t with
  | none => { s with idleTask := new }
  | some i => { s with taskPool := Function.update s.taskPool i new }

/-- `rq_push`. -/
def rqPush (s : Sched) (p i : ℕ) : Sched :=
  if maxTasks ≤ (s.runQueue p).length then s
  else { s with runQueue := Function.update s.runQueue p (s.runQueue p ++ [i]) }

/-- A slot can be used again. -/
def reusable (s : Sched) (i : ℕ) : Bool :=
  (s.taskPool i).state = .free ∨ (s.taskPool i).state = .done

/-- `find_free_slot`: the slot, and the scheduler with the number of slots in use adjusted. -/
def findFreeSlot (s : Sched) : Option ℕ × Sched :=
  match (List.range s.taskCount).find? s.reusable with
  | some i => (some i, s)
  | none =>
    if maxTasks ≤ s.taskCount then (none, s)
    else (some s.taskCount, { s with taskCount := s.taskCount + 1 })

/-- A task as the submit functions set it up, with all its descriptors closed. -/
def newTask (priority : ℕ) (isUser : Bool) (cr3 : ℕ) : Task where
  state := .ready
  priority := priority
  isUser := isUser
  cr3 := cr3
  timeslice := prioQuantum priority
  quantum := prioQuantum priority
  fdTable := fun _ => .closed

/-- The common part of the submit functions: find a slot, get a stack for it (`stackOk` is whether
`kmalloc` has one), set the task up and queue it. -/
def submitTask (s : Sched) (stackOk : Bool) (t : Task) : Option ℕ × Sched :=
  match findFreeSlot s with
  | (none, s) => (none, s)
  | (some i, s) =>
    if stackOk then
      (some i, rqPush { s with taskPool := Function.update s.taskPool i t } t.priority i)
    else (none, s)

/-- `sched_submit_prio`, for a task function that is not null. -/
def schedSubmitPrio (s : Sched) (priority : ℕ) (stackOk : Bool) : Option ℕ × Sched :=
  if prioLevels ≤ priority then (none, s)
  else submitTask s stackOk (newTask priority false 0)

/-- `sched_submit_user`.  Its ring-3 stack is taken only once the task has been set up. -/
def schedSubmitUser (s : Sched) (stackOk : Bool) : Option ℕ × Sched :=
  if maxUserTasks ≤ s.userStackNext then (none, s)
  else
    match submitTask s stackOk (newTask prioNormal true 0) with
    | (none, s) => (none, s)
    | (some i, s) => (some i, { s with userStackNext := s.userStackNext + 1 })

/-- `sched_submit_user_as`. -/
def schedSubmitUserAs (s : Sched) (cr3 : ℕ) (stackOk : Bool) : Option ℕ × Sched :=
  if cr3 = 0 then (none, s) else submitTask s stackOk (newTask prioNormal true cr3)

/-- `sched_run`. -/
def schedRun (s : Sched) : Sched := { s with schedulerActive := true }

/-- `sched_tick`. -/
def schedTick (s : Sched) : Sched :=
  if s.schedulerActive then { s with wantSchedule := true } else s

/-- `sched_want_reschedule`. -/
def schedWantReschedule (s : Sched) : Sched :=
  let t := s.task s.curTask
  let s := if s.curTask ≠ none ∧ t.state = .running then
    s.setTask s.curTask { t with timeslice := 1 } else s
  { s with wantSchedule := true }

/-- `sched_kill_current`, which is also how `SYS_EXIT` ends a task. -/
def schedKillCurrent (s : Sched) : Sched :=
  match s.curTask with
  | none => s
  | some i =>
    { s.setTask (some i) { s.taskPool i with state := .done } with wantSchedule := true }

/-- `sched_exit`, up to the interrupt it raises. -/
def schedExit (s : Sched) : Sched :=
  { s.setTask s.curTask { s.task s.curTask with state := .done } with wantSchedule := true }

/-- Take the oldest task of the first queue that has one, among the queues from `p` on. -/
def popReady (s : Sched) : ℕ → ℕ → Option ℕ × Sched
  | 0, _ => (none, s)
  | n + 1, p =>
    match s.runQueue p with
    | [] => popReady s n (p + 1)
    | i :: l => (some i, { s with runQueue := Function.update s.runQueue p l })

/-- Switch to the next ready task, or to the idle task. -/
def pickNext (s : Sched) : Sched :=
  let (next, s) := popReady s prioLevels 0
  let s := if next = s.curTask then s else
    { s with
      curTask := next
      loadedCr3 := if (s.task next).cr3 = 0 then masterCr3 else (s.task next).cr3 }
  s.setTask s.curTask { s.task s.curTask with state := .running }

/-- `sched_irq_end`. -/
def schedIrqEnd (s : Sched) : Sched :=
  if !s.schedulerActive || !s.wantSchedule then s
  else
    let s := { s with wantSchedule := false }
    let t := s.task s.curTask
    match s.curTask with
    | some i =>
      if t.state = .running then
        if 0 < u32sub t.timeslice 1 then
          s.setTask (some i) { t with timeslice := u32sub t.timeslice 1 }
        else
          let s := s.setTask (some i) { t with timeslice := t.quantum, state := .ready }
          pickNext (rqPush s t.priority i)
      else pickNext s
    | none => pickNext s

/-- `sched_init`. -/
def schedInit : Sched where
  taskPool := fun _ => ⟨.free, 0, false, 0, 0, 0, fun _ => .closed⟩
  taskCount := 0
  idleTask := ⟨.running, 3, false, 0, 0, 0, fun _ => .closed⟩
  curTask := none
  runQueue := fun _ => []
  wantSchedule := false
  schedulerActive := false
  userStackNext := 0
  loadedCr3 := masterCr3

end Sched

end CoolFrost
