import CoolFrost.Cpu.Sched
import CoolFrost.Lib.RingBuffer

/-!
# The scheduler with its run queues and contexts

`cpu/sched.c` as it is: the run queues are ring buffers, a task has its stacks, its saved stack
pointer and the bounds of its heap, and the scheduler loads `CR3` and the stack of the trap frame
(`RSP0`) when it switches.  What `kmalloc` returns is an argument of each submission, and so are the
stack pointers that the interrupt stubs hand to `sched_irq_end`.  `Sched` is this scheduler with
lists for queues and without the contexts.
-/

namespace CoolFrost

namespace Cpu

open Sched (maxTasks maxUserTasks prioLevels prioNormal masterCr3 prioQuantum)

/-- A task (`task_t`) with its context. -/
structure Task extends CoolFrost.Task where
  rsp : ℕ
  stack : ℕ
  userStack : ℕ
  func : ℕ
  arg : ℕ
  addrSpace : ℕ
  heapStart : ℕ
  heapBrk : ℕ
  heapEnd : ℕ

/-- The state of the scheduler and of what it switches.  The current task is `none` for the idle
task; `lost` records the tasks that `rq_push` has dropped because the queue was full. -/
structure Scheduler where
  taskPool : ℕ → Task
  taskCount : ℕ
  idleTask : Task
  curTask : Option ℕ
  rq : ℕ → RingBuf ℕ
  lost : List ℕ
  wantSchedule : Bool
  schedulerActive : Bool
  loadedCr3 : ℕ
  userStackNext : ℕ
  rsp0 : ℕ
  mem : ℕ → ℕ

/-- The addresses that the linker gives to what the scheduler points tasks at. -/
structure Image where
  taskTrampoline : ℕ
  userTaskTrampoline : ℕ
  userStackPool : ℕ

/-- `TASK_STACK_SZ`. -/
def taskStackSz : ℕ := 8192
/-- `USER_STACK_SZ`. -/
def userStackSz : ℕ := 65536
/-- `GDT_KERNEL_CS`. -/
def gdtKernelCs : ℕ := 0x08
/-- `GDT_KERNEL_DS`. -/
def gdtKernelDs : ℕ := 0x10
/-- `GDT_USER_CS`. -/
def gdtUserCs : ℕ := 0x20
/-- `GDT_USER_DS`. -/
def gdtUserDs : ℕ := 0x28

/-- What differs between the initial frames of tasks. -/
structure Frame where
  rip : ℕ
  cs : ℕ
  ss : ℕ
  targetRsp : ℕ
  rdi : ℕ
  rsi : ℕ

/-- The words of an initial frame in the order in which they are pushed. -/
def Frame.words (f : Frame) : List ℕ :=
  [f.ss, f.targetRsp, 0x202, f.cs, f.rip, 0, 0, 0, 0, 0, 0, f.rsi, f.rdi, 0, 0, 0, 0, 0, 0, 0, 0, 0]

/-- Push a word. -/
def pushWord (x : ℕ × (ℕ → ℕ)) (w : ℕ) : ℕ × (ℕ → ℕ) :=
  (x.1 - 8, Function.update x.2 (x.1 - 8) w)

/-- `frame_build`: the new stack pointer, and the memory with the frame in it. -/
def frameBuild (mem : ℕ → ℕ) (kstackTop : ℕ) (f : Frame) : ℕ × (ℕ → ℕ) :=
  f.words.foldl pushWord (kstackTop, mem)

/-- `task_init_stack`, up to building the frame. -/
def taskInitStack (img : Image) (t : Task) : Frame :=
  ⟨img.taskTrampoline, gdtKernelCs, gdtKernelDs, t.stack + taskStackSz, 0, 0⟩

/-- `task_init_stack_user_as`, up to building the frame. -/
def taskInitStackUserAs (img : Image) (t : Task) (ustackTop : ℕ) : Frame :=
  ⟨img.userTaskTrampoline, gdtUserCs ||| 3, gdtUserDs ||| 3, ustackTop, t.func, t.arg⟩

/-- `task_init_stack_user`, up to building the frame. -/
def taskInitStackUser (img : Image) (t : Task) : Frame :=
  taskInitStackUserAs img t (t.userStack + userStackSz)

namespace Scheduler

/-- The task a pointer like `cur_task` refers to. -/
def task (s : Scheduler) : Option ℕ → Task
  | none => s.idleTask
  | some i => s.taskPool i

/-- Change the task a pointer refers to. -/
def setTask (s : Scheduler) (t : Option ℕ) (new : Task) : Scheduler :=
  match t with
  | none => { s with idleTask := new }
  | some i => { s with taskPool := Function.update s.taskPool i new }

/-- The tasks in a run queue, oldest first. -/
def queue (s : Scheduler) (p : ℕ) : List ℕ := (s.rq p).toList maxTasks

/-- `rq_push`. -/
def rqPush (s : Scheduler) (p i : ℕ) : Scheduler :=
  { s with
    rq := Function.update s.rq p ((s.rq p).push maxTasks i)
    lost := if maxTasks ≤ (s.rq p).size then i :: s.lost else s.lost }

/-- `rq_pop`. -/
def rqPop (s : Scheduler) (p : ℕ) : Option (ℕ × Scheduler) :=
  ((s.rq p).pop maxTasks).map fun x => (x.1, { s with rq := Function.update s.rq p x.2 })

/-- A slot can be used again. -/
def reusable (s : Scheduler) (i : ℕ) : Bool :=
  (s.taskPool i).state = .free ∨ (s.taskPool i).state = .done

/-- `find_free_slot`: the slot, and the scheduler with the number of slots in use adjusted. -/
def findFreeSlot (s : Scheduler) : Option ℕ × Scheduler :=
  match (List.range s.taskCount).find? s.reusable with
  | some i => (some i, s)
  | none =>
    if maxTasks ≤ s.taskCount then (none, s)
    else (some s.taskCount, { s with taskCount := s.taskCount + 1 })

/-- A task as the submit functions set it up. -/
def newTask (priority : ℕ) (isUser : Bool) (cr3 stack userStack func arg : ℕ) : Task where
  toTask := Sched.newTask priority isUser cr3
  rsp := 0
  stack := stack
  userStack := userStack
  func := func
  arg := arg
  addrSpace := 0
  heapStart := 0
  heapBrk := 0
  heapEnd := 0

/-- The common part of the submit functions: find a slot, get a stack for it (`t.stack`, what
`kmalloc` returned), set the task up with its initial frame and queue it. -/
def submitTask (s : Scheduler) (t : Task) (f : Frame) : Option ℕ × Scheduler :=
  match findFreeSlot s with
  | (none, s) => (none, s)
  | (some i, s) =>
    if t.stack = 0 then (none, s)
    else
      let (rsp, mem) := frameBuild s.mem (t.stack + taskStackSz) f
      (some i, rqPush { s with
        taskPool := Function.update s.taskPool i { t with rsp := rsp }
        mem := mem } t.priority i)

/-- `sched_submit_prio`. -/
def schedSubmitPrio (img : Image) (s : Scheduler) (func arg priority stack : ℕ) :
    Option ℕ × Scheduler :=
  if func = 0 ∨ prioLevels ≤ priority then (none, s)
  else
    let t := newTask priority false 0 stack 0 func arg
    submitTask s t (taskInitStack img t)

/-- `sched_submit_user`.  Its ring-3 stack is taken only once the task has been set up. -/
def schedSubmitUser (img : Image) (s : Scheduler) (entry arg stack : ℕ) : Option ℕ × Scheduler :=
  if entry = 0 ∨ maxUserTasks ≤ s.userStackNext then (none, s)
  else
    let t := newTask prioNormal true 0 stack (img.userStackPool + s.userStackNext * userStackSz)
      entry arg
    match submitTask s t (taskInitStackUser img t) with
    | (none, s) => (none, s)
    | (some i, s) => (some i, { s with userStackNext := s.userStackNext + 1 })

/-- `sched_submit_user_as`. -/
def schedSubmitUserAs (img : Image) (s : Scheduler) (entry arg cr3 userStackTop stack : ℕ) :
    Option ℕ × Scheduler :=
  if entry = 0 ∨ cr3 = 0 then (none, s)
  else
    let t := newTask prioNormal true cr3 stack 0 entry arg
    submitTask s t (taskInitStackUserAs img t userStackTop)

/-- `sched_run`. -/
def schedRun (s : Scheduler) : Scheduler := { s with schedulerActive := true }

/-- `sched_tick`. -/
def schedTick (s : Scheduler) : Scheduler :=
  if s.schedulerActive then { s with wantSchedule := true } else s

/-- `sched_want_reschedule`. -/
def schedWantReschedule (s : Scheduler) : Scheduler :=
  let t := s.task s.curTask
  let s := if s.curTask ≠ none ∧ t.state = .running then
    s.setTask s.curTask { t with timeslice := 1 } else s
  { s with wantSchedule := true }

/-- `sched_kill_current`, which is also how `SYS_EXIT` ends a task. -/
def schedKillCurrent (s : Scheduler) : Scheduler :=
  match s.curTask with
  | none => s
  | some i =>
    { s.setTask (some i) { s.taskPool i with state := .done } with wantSchedule := true }

/-- `sched_exit`, up to the interrupt it raises. -/
def schedExit (s : Scheduler) : Scheduler :=
  { s.setTask s.curTask { s.task s.curTask with state := .done } with wantSchedule := true }

/-- The loop of `sched_irq_end` that takes the oldest task of the first queue that has one, over `n`
queues from `p` on. -/
def popReady (s : Scheduler) : ℕ → ℕ → Option ℕ × Scheduler
  | 0, _ => (none, s)
  | n + 1, p =>
    match rqPop s p with
    | none => popReady s n (p + 1)
    | some (i, s) => (some i, s)

/-- The `cr3` a task runs under. -/
def wantCr3 (t : Task) : ℕ := if t.cr3 = 0 then masterCr3 else t.cr3

/-- The end of `sched_irq_end`: switch to the task picked, unless it is the current one. -/
def switchTo (s : Scheduler) (next : Option ℕ) (curRsp : ℕ) : ℕ × Scheduler :=
  if next = s.curTask then
    (curRsp, s.setTask s.curTask { s.task s.curTask with state := .running })
  else
    let t := s.task next
    let s := if t.isUser then { s with rsp0 := t.stack + taskStackSz } else s
    let s := if wantCr3 t ≠ s.loadedCr3 then { s with loadedCr3 := wantCr3 t } else s
    let s := { s with curTask := next }
    (t.rsp, s.setTask next { t with state := .running })

/-- Pick the next task, or the idle task if no task is ready, and switch to it. -/
def pickNext (s : Scheduler) (curRsp : ℕ) : ℕ × Scheduler :=
  let (next, s) := popReady s prioLevels 0
  switchTo s next curRsp

/-- `sched_irq_end`: the stack pointer to go on with, and the scheduler afterwards. -/
def schedIrqEnd (s : Scheduler) (curRsp : ℕ) : ℕ × Scheduler :=
  if !s.schedulerActive || !s.wantSchedule then (curRsp, s)
  else
    let s := { s with wantSchedule := false }
    let t := { s.task s.curTask with rsp := curRsp }
    let s := s.setTask s.curTask t
    match s.curTask with
    | some i =>
      if t.state = .running then
        if 0 < u32sub t.timeslice 1 then
          (curRsp, s.setTask (some i) { t with timeslice := u32sub t.timeslice 1 })
        else
          let s := s.setTask (some i) { t with timeslice := t.quantum, state := .ready }
          pickNext (rqPush s t.priority i) curRsp
      else pickNext s curRsp
    | none => pickNext s curRsp

/-- The all-zero task. -/
def zeroTask : Task where
  toTask := ⟨.free, 0, false, 0, 0, 0, fun _ => .closed⟩
  rsp := 0
  stack := 0
  userStack := 0
  func := 0
  arg := 0
  addrSpace := 0
  heapStart := 0
  heapBrk := 0
  heapEnd := 0

/-- `sched_init`, on the all-zero data of the scheduler and whatever is in memory. -/
def schedInit (mem : ℕ → ℕ) (rsp0 : ℕ) : Scheduler where
  taskPool := fun _ => zeroTask
  taskCount := 0
  idleTask := { zeroTask with state := .running, priority := 3 }
  curTask := none
  rq := fun _ => ⟨fun _ => 0, 0, 0, 0⟩
  lost := []
  wantSchedule := false
  schedulerActive := false
  loadedCr3 := masterCr3
  userStackNext := 0
  rsp0 := rsp0
  mem := mem

end Scheduler

end Cpu

end CoolFrost
