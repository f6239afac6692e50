import CoolFrost.Cpu.RunQueues

/-!
# The order of dispatch and the context of the running task

A `History` is a scheduler together with what an observer of its steps notes down: when each task
last became ready, how many scheduling points the current task has had since it was dispatched,
whether it has yielded since, and the stack pointer with which each task was last switched out or
that was built for it.  None of it is used by the scheduler.
-/

namespace CoolFrost

namespace Cpu

open Scheduler
open Sched (maxTasks prioLevels prioNormal)

namespace Scheduler

instance (s : Scheduler) : Decidable s.SchedulingPoint := inferInstanceAs (Decidable (_ ∧ _))

/-- From `m` to `s'` the processor was given to a task: another one than before, or the same one
with its whole quantum again. -/
def Dispatches (m s' : Scheduler) : Prop :=
  m.SchedulingPoint ∧ (s'.curTask ≠ m.curTask ∨
    (s'.task s'.curTask).timeslice = (s'.task s'.curTask).quantum)

instance (m s' : Scheduler) : Decidable (m.Dispatches s') := inferInstanceAs (Decidable (_ ∧ _))

/-- The tasks of priority `p` that `sched_irq_end` chooses from: the queue, and the current task if
it is still running. -/
def waiting (m : Scheduler) (p : ℕ) : List ℕ :=
  m.queue p ++ m.curTask.toList.filter fun i =>
    (m.taskPool i).state = .running ∧ (m.taskPool i).priority = p

section release

variable (m : Scheduler) (curRsp : ℕ)

@[simp] lemma release_curTask : (m.release curRsp).curTask = m.curTask := by
  unfold release
  cases hcur : m.curTask with
  | none => simp [setTask]
  | some i =>
    simp only
    split_ifs <;> simp [rqPush, setTask]

@[simp] lemma release_loadedCr3 : (m.release curRsp).loadedCr3 = m.loadedCr3 := by
  unfold release
  cases m.curTask with
  | none => rfl
  | some i =>
    simp only
    split_ifs <;> rfl

@[simp] lemma release_rsp0 : (m.release curRsp).rsp0 = m.rsp0 := by
  unfold release
  cases m.curTask with
  | none => rfl
  | some i =>
    simp only
    split_ifs <;> rfl

/-- A pool task that is still running is made ready with its whole quantum. -/
lemma release_task (t : Option ℕ) : (m.release curRsp).task t =
    if t = m.curTask then
      if t ≠ none ∧ (m.task t).state = .running then
        { m.task t with rsp := curRsp, timeslice := (m.task t).quantum, state := .ready }
      else { m.task t with rsp := curRsp }
    else m.task t := by
  unfold release
  cases hcur : m.curTask with
  | none => cases t <;> simp [task, setTask]
  | some i =>
    by_cases hstate : (m.taskPool i).state = .running
    · cases t with
      | none => simp [task, setTask, rqPush, hstate]
      | some j =>
        by_cases hj : j = i
        · subst hj
          simp [task, setTask, rqPush, hstate]
        · simp [task, setTask, rqPush, hstate, hj]
    · cases t with
      | none => simp [task, setTask, hstate]
      | some j =>
        by_cases hj : j = i
        · subst hj
          simp [task, setTask, hstate]
        · simp [task, setTask, hstate, hj]

variable {m} {run : Option ℕ}

/-- The queues that `sched_irq_end` picks from. -/
lemma release_queue (h : m.Inv run) (p : ℕ) : (m.release curRsp).queue p = m.waiting p := by
  unfold release waiting
  cases hcur : m.curTask with
  | none => simp [setTask, queue]
  | some i =>
    by_cases hstate : (m.taskPool i).state = .running
    · have hi : i < maxTasks := lt_of_lt_of_le (h.lt_count (by rw [hstate]; decide)) h.count
      have hsize := h.size_lt hi (by rw [hstate]; decide) (m.taskPool i).priority
      simp only [task, hstate, if_true]
      rw [queue_rqPush (by exact h.ring _) (by exact hsize)]
      by_cases hp : p = (m.taskPool i).priority
      · subst hp
        simp [setTask, queue, hstate]
      · simp [setTask, queue, hp, Ne.symm hp]
    · simp [task, hstate, setTask, queue]

end release

/-- The task picked, and the state in which it is switched to. -/
lemma pickNext_cases {s : Scheduler} (h : s.Inv none) (curRsp : ℕ) :
    ∃ (next : Option ℕ) (rq : ℕ → RingBuf ℕ),
      s.pickNext curRsp = switchTo { s with rq := rq } next curRsp ∧
      match next with
      | none => rq = s.rq ∧ ∀ p < prioLevels, s.queue p = []
      | some j => ∃ p < prioLevels, (∀ q < p, s.queue q = []) ∧
          s.queue p = j :: (rq p).toList maxTasks ∧ ∀ q, q ≠ p →
          (rq q).toList maxTasks = s.queue q := by
  unfold pickNext
  rcases popReady_cases s prioLevels 0 with ⟨heq, hall⟩ | ⟨q, j, r, hlt, hbefore, hpop, heq⟩
  · rw [heq]
    refine ⟨none, s.rq, rfl, rfl, fun p hp => hall p (Nat.zero_le p) ?_⟩
    rwa [Nat.zero_add]
  · rw [heq]
    refine ⟨some j, Function.update s.rq q r, rfl, q, ?_, ?_, ?_, ?_⟩
    · rwa [Nat.zero_add] at hlt
    · exact fun q' hq' => hbefore q' (Nat.zero_le q') hq'
    · rw [Function.update_self]
      exact (RingBuf.pop_eq_some (h.ring q) hpop).2
    · intro q' hq'
      rw [Function.update_of_ne hq', queue]

end Scheduler

/-- The state in which a step calls `sched_irq_end`, and the stack pointer it passes. -/
def Step.interrupt (s : Scheduler) : Step → Option (Scheduler × ℕ)
  | .irqEnd curRsp => some (s, curRsp)
  | .killCurrent curRsp => some (s.schedKillCurrent, curRsp)
  | .exit curRsp => some (s.schedExit, curRsp)
  | _ => none

/-- The slot that a submission returns, and the stack it was given. -/
def Step.submitted (img : Image) (s : Scheduler) : Step → Option (ℕ × ℕ)
  | .submitPrio func arg priority stack =>
    (schedSubmitPrio img s func arg priority stack).1.map (·, stack)
  | .submitUser entry arg stack => (schedSubmitUser img s entry arg stack).1.map (·, stack)
  | .submitUserAs entry arg cr3 top stack =>
    (schedSubmitUserAs img s entry arg cr3 top stack).1.map (·, stack)
  | _ => none

/-- The size of an initial frame: 22 words. -/
def frameSz : ℕ := 176

/-- A scheduler with the notes of an observer. -/
structure History where
  sched : Scheduler
  clock : ℕ
  readySince : ℕ → ℕ
  points : ℕ
  yielded : Bool
  savedRsp : Option ℕ → ℕ

namespace History

/-- The notes after `sched_irq_end` has led from `m` to `s'`. -/
def afterIrqEnd (h : History) (m : Scheduler) (curRsp : ℕ) (s' : Scheduler) : History where
  sched := s'
  clock := h.clock + 1
  readySince := fun i =>
    if (s'.taskPool i).state = .ready ∧ (h.sched.taskPool i).state ≠ .ready then h.clock
    else h.readySince i
  points := if m.Dispatches s' then 0 else if m.SchedulingPoint then h.points + 1 else h.points
  yielded := if m.Dispatches s' then false else h.yielded
  savedRsp := if s'.curTask ≠ m.curTask then Function.update h.savedRsp m.curTask curRsp
    else h.savedRsp

/-- The notes after another step, which may have submitted a task. -/
def afterCall (h : History) (a : Step) (submitted : Option (ℕ × ℕ)) (s' : Scheduler) : History where
  sched := s'
  clock := h.clock + 1
  readySince := fun i =>
    if (s'.taskPool i).state = .ready ∧ (h.sched.taskPool i).state ≠ .ready then h.clock
    else h.readySince i
  points := h.points
  yielded := match a with
    | .wantReschedule => true
    | _ => h.yielded
  savedRsp := match submitted with
    | some (i, stack) => Function.update h.savedRsp (some i) (stack + taskStackSz - frameSz)
    | none => h.savedRsp

/-- The history after a step. -/
def next (img : Image) (h : History) (a : Step) : History :=
  match a.interrupt h.sched with
  | some (m, curRsp) => h.afterIrqEnd m curRsp (exec img h.sched a)
  | none => h.afterCall a (a.submitted img h.sched) (exec img h.sched a)

/-- The history of a run. -/
def run (img : Image) (h : History) (steps : List Step) : History := steps.foldl (next img) h

/-- The history when preemption starts. -/
def start (mem : ℕ → ℕ) (rsp0 : ℕ) : History where
  sched := started mem rsp0
  clock := 0
  readySince := fun _ => 0
  points := 0
  yielded := false
  savedRsp := fun _ => 0

lemma sched_next (img : Image) (h : History) (a : Step) :
    (h.next img a).sched = exec img h.sched a := by
  unfold next
  split <;> rfl

lemma sched_run (img : Image) (h : History) (steps : List Step) :
    (h.run img steps).sched = runSteps img h.sched steps := by
  induction steps generalizing h with
  | nil => rfl
  | cons a steps ih =>
    refine (ih (h.next img a)).trans ?_
    rw [sched_next]
    rfl

/-- What `sched_irq_end` does when a step calls it in the state `m`: it returns the stack pointer
`r` and leaves the state `s'`. -/
structure DispatchOk (h h' : History) (m : Scheduler) (curRsp r : ℕ) (s' : Scheduler) : Prop where
  /-- The processor goes to the oldest task of the first queue that is not empty, and to the idle
  task only if all are empty. -/
  first : s'.curTask ≠ m.curTask ∨ m.Dispatches s' →
    match s'.curTask with
    | some j => ∃ p < prioLevels, (∃ l, m.waiting p = j :: l) ∧ ∀ q < p, m.waiting q = []
    | none => ∀ p < prioLevels, m.waiting p = []
  /-- The tasks of its priority that stay ready became ready later. -/
  order : s'.curTask ≠ m.curTask ∨ m.Dispatches s' → ∀ j, s'.curTask = some j →
    ∀ k, (s'.taskPool k).state = .ready →
      (s'.taskPool k).priority = (s'.taskPool j).priority → h'.readySince j < h'.readySince k
  /-- A task that has not yielded loses the processor at the scheduling point that ends its
  quantum. -/
  quantum : m.SchedulingPoint → h.yielded = false → ∀ i, m.curTask = some i →
    (m.taskPool i).state = .running →
    (m.Dispatches s' ↔ h.points + 1 = (m.taskPool i).quantum)
  /-- The address space of the current task is loaded. -/
  cr3 : s'.loadedCr3 = wantCr3 (s'.task s'.curTask)
  /-- A user task traps to its own stack. -/
  rsp0 : (s'.task s'.curTask).isUser → s'.rsp0 = (s'.task s'.curTask).stack + taskStackSz
  /-- A switch goes on where the new task was switched out. -/
  switched : s'.curTask ≠ m.curTask → r = h.savedRsp s'.curTask
  /-- Without a switch the same task goes on. -/
  stayed : s'.curTask = m.curTask → r = curRsp

/-- What the notes say about the scheduler in the state `m`, with `run` the pool task running. -/
structure Tracks (h : History) (m : Scheduler) (run : Option ℕ) : Prop where
  inv : m.Inv run
  current : m.Current run
  sorted : ∀ p, (m.queue p).Pairwise fun i j => h.readySince i < h.readySince j
  past : ∀ i, (m.taskPool i).state = .ready → h.readySince i < h.clock
  full : ∀ i, (m.taskPool i).state = .ready → (m.taskPool i).timeslice = (m.taskPool i).quantum
  slice : ∀ i, run = some i → h.yielded = false →
    (m.taskPool i).timeslice + h.points = (m.taskPool i).quantum
  cr3 : m.loadedCr3 = wantCr3 (m.task m.curTask)
  rsp0 : (m.task m.curTask).isUser → m.rsp0 = (m.task m.curTask).stack + taskStackSz
  saved : ∀ i, (m.taskPool i).state = .ready → (m.taskPool i).rsp = h.savedRsp (some i)
  savedIdle : m.curTask ≠ none → m.idleTask.rsp = h.savedRsp none
  same : ∀ i, (m.taskPool i).state = .ready ↔ (h.sched.taskPool i).state = .ready

section irqEnd

variable {h : History} {m : Scheduler} {run : Option ℕ}

/-- A task that was ready became so at the time noted before. -/
lemma Tracks.readySince_old (ht : h.Tracks m run) (curRsp : ℕ) (s' : Scheduler) {i : ℕ}
    (hi : (m.taskPool i).state = .ready) :
    (h.afterIrqEnd m curRsp s').readySince i = h.readySince i := by
  have hold := (ht.same i).mp hi
  simp [afterIrqEnd, hold]

/-- A task that has just become ready. -/
lemma Tracks.readySince_new (ht : h.Tracks m run) (curRsp : ℕ) (s' : Scheduler) {i : ℕ}
    (hi : (m.taskPool i).state ≠ .ready) (hi' : (s'.taskPool i).state = .ready) :
    (h.afterIrqEnd m curRsp s').readySince i = h.clock := by
  have hold : (h.sched.taskPool i).state ≠ .ready := fun hr => hi ((ht.same i).mpr hr)
  simp [afterIrqEnd, hold, hi']

/-- Between scheduling points nothing happens. -/
lemma Tracks.irqEnd_none (ht : h.Tracks m m.curTask) (curRsp : ℕ) (hpoint : ¬ m.SchedulingPoint) :
    DispatchOk h (h.afterIrqEnd m curRsp m) m curRsp curRsp m ∧
      (h.afterIrqEnd m curRsp m).Tracks m m.curTask := by
  have hnot : ¬ m.Dispatches m := fun hd => hpoint hd.1
  constructor
  · refine ⟨?_, ?_, ?_, ht.cr3, ht.rsp0, fun hne => absurd rfl hne, fun _ => rfl⟩
    · rintro (hne | hd)
      · exact absurd rfl hne
      · exact absurd hd hnot
    · rintro (hne | hd)
      · exact absurd rfl hne
      · exact absurd hd hnot
    · intro hp
      exact absurd hp hpoint
  · refine ⟨ht.inv, ht.current, ?_, ?_, ht.full, ?_, ht.cr3, ht.rsp0, ?_, ?_, fun _ => Iff.rfl⟩
    · intro p
      refine (ht.sorted p).imp_of_mem fun hi hj hlt => ?_
      rw [ht.readySince_old curRsp m ((ht.inv.queued _ p).mp hi).1,
        ht.readySince_old curRsp m ((ht.inv.queued _ p).mp hj).1]
      exact hlt
    · intro i hi
      rw [ht.readySince_old curRsp m hi]
      exact Nat.lt_succ_of_lt (ht.past i hi)
    · simpa [afterIrqEnd, hnot, hpoint] using ht.slice
    · simpa [afterIrqEnd] using ht.saved
    · simpa [afterIrqEnd] using ht.savedIdle

/-- The current task goes on for another tick. -/
lemma Tracks.irqEnd_keep {i : ℕ} (ht : h.Tracks m (some i)) (curRsp : ℕ)
    (hpoint : m.SchedulingPoint)
    (hcur : m.curTask = some i) (hslice : 1 < (m.taskPool i).timeslice) :
    DispatchOk h (h.afterIrqEnd m curRsp (m.keep i curRsp)) m curRsp curRsp (m.keep i curRsp) ∧
      (h.afterIrqEnd m curRsp (m.keep i curRsp)).Tracks (m.keep i curRsp) (some i) := by
  have hstate := (ht.inv.running i).mpr rfl
  have hlive := ht.inv.live i (.inr hstate)
  have hkeep : (m.keep i curRsp).Inv (some i) := by
    have hinv := ht.inv.schedIrqEnd ht.current (.inr hpoint) curRsp
    rcases schedIrqEnd_cases ht.inv ht.current curRsp with ⟨hno, -⟩ | ⟨j, -, hj, -, -, heq⟩ |
      ⟨-, hone, -⟩
    · exact absurd hpoint hno
    · cases hj
      rw [heq] at hinv
      have hcur' : (m.keep i curRsp).curTask = some i := hcur
      rw [hcur'] at hinv
      exact hinv
    · exact absurd (hone i rfl) (Nat.ne_of_gt hslice)
  have hne : ∀ j, (m.taskPool j).state = .ready → j ≠ i := by
    rintro j hj rfl
    rw [hstate] at hj
    cases hj
  have htask : ∀ j, j ≠ i → (m.keep i curRsp).taskPool j = m.taskPool j :=
    fun j hj => Function.update_of_ne hj _ _
  have htask_i : (m.keep i curRsp).taskPool i = { m.taskPool i with
      rsp := curRsp
      timeslice := (m.taskPool i).timeslice - 1 } := Function.update_self i _ _
  have hready : ∀ j, ((m.keep i curRsp).taskPool j).state = .ready ↔
      (m.taskPool j).state = .ready := by
    intro j
    by_cases hj : j = i
    · subst hj
      rw [htask_i]
    · rw [htask j hj]
  have hnot : ¬ m.Dispatches (m.keep i curRsp) := by
    rintro ⟨-, hd | hd⟩
    · exact hd rfl
    · have hcur' : (m.keep i curRsp).curTask = some i := hcur
      rw [hcur', task, htask_i] at hd
      have := hlive.timeslice_le
      simp only at hd
      omega
  have hcur' : (m.keep i curRsp).curTask = m.curTask := rfl
  have hrun : (m.keep i curRsp).task (m.keep i curRsp).curTask = { m.taskPool i with
      rsp := curRsp
      timeslice := (m.taskPool i).timeslice - 1 } := by
    rw [hcur', hcur]
    exact htask_i
  have hmrun : m.task m.curTask = m.taskPool i := by
    rw [hcur]
    rfl
  have hcr3 : (m.keep i curRsp).loadedCr3 =
      wantCr3 ((m.keep i curRsp).task (m.keep i curRsp).curTask) := by
    rw [hrun]
    refine Eq.trans ht.cr3 ?_
    rw [hmrun]
    rfl
  have hrsp0 : ((m.keep i curRsp).task (m.keep i curRsp).curTask).isUser →
      (m.keep i curRsp).rsp0 =
        ((m.keep i curRsp).task (m.keep i curRsp).curTask).stack + taskStackSz := by
    have hold := ht.rsp0
    rw [hmrun] at hold
    rw [hrun]
    exact hold
  constructor
  · refine ⟨?_, ?_, ?_, hcr3, hrsp0, fun hd => absurd rfl hd, fun _ => rfl⟩
    · rintro (hd | hd)
      · exact absurd rfl hd
      · exact absurd hd hnot
    · rintro (hd | hd)
      · exact absurd rfl hd
      · exact absurd hd hnot
    · intro _ hy j hj _
      obtain rfl : i = j := Option.some.inj (hcur.symm.trans hj)
      have := ht.slice i rfl hy
      refine iff_of_false hnot ?_
      omega
  · refine ⟨hkeep, .inl hcur.symm, ?_, ?_, ?_, ?_, hcr3, hrsp0, ?_, ?_, fun _ => Iff.rfl⟩
    · intro p
      refine (ht.sorted p).imp_of_mem fun hi hj hlt => ?_
      rw [ht.readySince_old curRsp _ ((ht.inv.queued _ p).mp hi).1,
        ht.readySince_old curRsp _ ((ht.inv.queued _ p).mp hj).1]
      exact hlt
    · intro j hj
      have hj' := (hready j).mp hj
      rw [ht.readySince_old curRsp _ hj']
      exact Nat.lt_succ_of_lt (ht.past j hj')
    · intro j hj
      have hj' := (hready j).mp hj
      rw [htask j (hne j hj')]
      exact ht.full j hj'
    · rintro j ⟨⟩ hy
      have hy' : h.yielded = false := by simpa [afterIrqEnd, hnot] using hy
      have hsum := ht.slice i rfl hy'
      rw [htask_i]
      simp only [afterIrqEnd, hnot, hpoint, if_true, if_false]
      omega
    · intro j hj
      have hj' := (hready j).mp hj
      rw [htask j (hne j hj')]
      simpa [afterIrqEnd, hcur'] using ht.saved j hj'
    · intro hne'
      simpa [afterIrqEnd, hcur', keep] using ht.savedIdle hne'

/-- The current task is in no queue. -/
lemma Tracks.cur_not_ready (ht : h.Tracks m run) {i : ℕ} (hcur : m.curTask = some i) :
    (m.taskPool i).state ≠ .ready := by
  intro hr
  rcases ht.current with hc | ⟨-, hdone⟩
  · have hstate := (ht.inv.running i).mpr (hc.trans hcur)
    rw [hstate] at hr
    cases hr
  · rw [hdone i hcur] at hr
    cases hr

/-- The tasks that are ready while one of them is picked. -/
lemma Tracks.release_ready (ht : h.Tracks m run) (curRsp : ℕ) {i : ℕ}
    (hi : ((m.release curRsp).taskPool i).state = .ready) :
    ((m.taskPool i).state = .ready ∧ m.curTask ≠ some i ∧
      (m.release curRsp).taskPool i = m.taskPool i) ∨
    ((m.taskPool i).state = .running ∧ m.curTask = some i) := by
  have htask : (m.release curRsp).taskPool i = _ := m.release_task curRsp (some i)
  by_cases hcur : some i = m.curTask
  · refine .inr ⟨?_, hcur.symm⟩
    by_contra hstate
    rw [htask, if_pos hcur, if_neg (fun hand => hstate hand.2)] at hi
    exact ht.cur_not_ready hcur.symm hi
  · rw [if_neg hcur] at htask
    refine .inl ⟨?_, fun heq => hcur heq.symm, htask⟩
    rw [htask] at hi
    exact hi

/-- They have their whole quantum. -/
lemma Tracks.release_full (ht : h.Tracks m run) (curRsp : ℕ) {i : ℕ}
    (hi : ((m.release curRsp).taskPool i).state = .ready) :
    ((m.release curRsp).taskPool i).timeslice = ((m.release curRsp).taskPool i).quantum := by
  rcases ht.release_ready curRsp hi with ⟨hready, -, heq⟩ | ⟨hstate, hcur⟩
  · rw [heq]
    exact ht.full i hready
  · have htask : (m.release curRsp).taskPool i = _ := m.release_task curRsp (some i)
    rw [if_pos hcur.symm, if_pos ⟨by simp, hstate⟩] at htask
    rw [htask]

/-- When a task became ready that is ready while one is picked. -/
def pickSince (h : History) (m : Scheduler) (i : ℕ) : ℕ :=
  if (m.taskPool i).state = .ready then h.readySince i else h.clock

/-- The queues that a task is picked from are in the order in which the tasks became ready. -/
lemma Tracks.release_sorted (ht : h.Tracks m run) (curRsp p : ℕ) :
    ((m.release curRsp).queue p).Pairwise fun i j => h.pickSince m i < h.pickSince m j := by
  rw [release_queue curRsp ht.inv, waiting, List.pairwise_append]
  refine ⟨?_, ?_, ?_⟩
  · refine (ht.sorted p).imp_of_mem fun hi hj hlt => ?_
    simp only [pickSince, ((ht.inv.queued _ p).mp hi).1, ((ht.inv.queued _ p).mp hj).1, if_true]
    exact hlt
  · cases m.curTask with
    | none => exact List.Pairwise.nil
    | some i => exact List.Pairwise.sublist List.filter_sublist (List.pairwise_singleton _ i)
  · intro i hi j hj
    have hready := ((ht.inv.queued i p).mp hi).1
    have hj' := List.mem_filter.mp hj
    have hnot := ht.cur_not_ready (Option.mem_toList.mp hj'.1)
    simp only [pickSince, hready, hnot, if_true, if_false]
    exact ht.past i hready

lemma pickSince_le (ht : h.Tracks m run) (i : ℕ) : h.pickSince m i ≤ h.clock := by
  unfold pickSince
  split_ifs with hi
  · exact (ht.past i hi).le
  · exact le_rfl

/-- The stack pointer that a task has, while one is picked, is the one noted when it was last
switched out. -/
lemma Tracks.release_saved (ht : h.Tracks m run) {curRsp : ℕ} {t : Option ℕ}
    (hcur : t ≠ m.curTask)
    (hready : ∀ i, t = some i → ((m.release curRsp).taskPool i).state = .ready) :
    ((m.release curRsp).task t).rsp = h.savedRsp t := by
  rw [release_task, if_neg hcur]
  cases t with
  | none => exact ht.savedIdle (Ne.symm hcur)
  | some i =>
    rcases ht.release_ready curRsp (hready i rfl) with ⟨hold, -, -⟩ | ⟨-, heq⟩
    · exact ht.saved i hold
    · exact absurd heq.symm hcur

/-- The context of a task is not changed while one is picked. -/
lemma release_context (curRsp : ℕ) (t : Option ℕ) :
    ((m.release curRsp).task t).cr3 = (m.task t).cr3 ∧
      ((m.release curRsp).task t).isUser = (m.task t).isUser ∧
      ((m.release curRsp).task t).stack = (m.task t).stack := by
  rw [release_task]
  split_ifs <;> exact ⟨rfl, rfl, rfl⟩

/-- The state after `sched_irq_end` has picked the task `next`, and how it comes from the state in
which it was picked. -/
structure Picked (m : Scheduler) (curRsp : ℕ) (next : Option ℕ) (r : ℕ) (s' : Scheduler) :
    Prop where
  inv : s'.Inv next
  curTask : s'.curTask = next
  task : ∀ t, s'.task t = if t = next then { (m.release curRsp).task next with state := .running }
    else (m.release curRsp).task t
  loadedCr3 : s'.loadedCr3 = if next = m.curTask then m.loadedCr3
    else wantCr3 ((m.release curRsp).task next)
  rsp0 : s'.rsp0 = if next ≠ m.curTask ∧ ((m.release curRsp).task next).isUser then
    ((m.release curRsp).task next).stack + taskStackSz else m.rsp0
  rsp : r = if next = m.curTask then curRsp else ((m.release curRsp).task next).rsp
  idle : next = none → ∀ p, s'.queue p = (m.release curRsp).queue p ∧
    (p < prioLevels → (m.release curRsp).queue p = [])
  pool : ∀ j, next = some j → ∃ p < prioLevels, (∀ q < p, (m.release curRsp).queue q = []) ∧
    (m.release curRsp).queue p = j :: s'.queue p ∧
    ∀ q, q ≠ p → s'.queue q = (m.release curRsp).queue q

lemma picked_pickNext (ht : h.Tracks m run) (curRsp : ℕ) : ∃ next,
    Picked m curRsp next ((m.release curRsp).pickNext curRsp).1
      ((m.release curRsp).pickNext curRsp).2 := by
  have hrel := ht.inv.release ht.current curRsp
  have hpick := hrel.pickNext curRsp
  obtain ⟨next, rq, heq, hnext⟩ := pickNext_cases hrel curRsp
  rw [heq] at hpick ⊢
  rw [switchTo_curTask] at hpick
  refine ⟨next, hpick, switchTo_curTask _ _ _, ?_, ?_, ?_, ?_, ?_, ?_⟩
  · intro t
    rw [switchTo_task]
    cases next <;> cases t <;> rfl
  · rw [switchTo_eq]
    simp only [release_curTask, release_loadedCr3]
    cases next <;> rfl
  · rw [switchTo_eq]
    simp only [release_curTask, release_rsp0]
    cases next <;> rfl
  · rw [switchTo_eq]
    simp only [release_curTask]
    cases next <;> rfl
  · rintro rfl p
    obtain ⟨rfl, hall⟩ := hnext
    refine ⟨?_, hall p⟩
    rw [queue, switchTo_rq, queue]
  · rintro j rfl
    obtain ⟨p, hp, hbefore, hqueue, hother⟩ := hnext
    refine ⟨p, hp, hbefore, ?_, fun q hq => ?_⟩
    · rw [hqueue, queue, switchTo_rq]
    · rw [queue, switchTo_rq]
      exact hother q hq

section picked

variable {curRsp r : ℕ} {next : Option ℕ} {s' : Scheduler}

/-- A task that is ready after the switch was ready while one was picked, and is not the one
picked. -/
lemma Picked.ready (hp : Picked m curRsp next r s') {i : ℕ} (hi : (s'.taskPool i).state = .ready) :
    some i ≠ next ∧ s'.taskPool i = (m.release curRsp).taskPool i := by
  have htask : s'.taskPool i = _ := hp.task (some i)
  by_cases hne : some i = next
  · rw [htask, if_pos hne] at hi
    cases hi
  · rw [if_neg hne] at htask
    exact ⟨hne, htask⟩

/-- When it became ready. -/
lemma Tracks.readySince_irqEnd (ht : h.Tracks m run) {i : ℕ} (hi : (s'.taskPool i).state = .ready) :
    (h.afterIrqEnd m curRsp s').readySince i = h.pickSince m i := by
  unfold pickSince
  split_ifs with hold
  · exact ht.readySince_old curRsp s' hold
  · exact ht.readySince_new curRsp s' hold hi

/-- The queues are still in order. -/
lemma Picked.sorted (hp : Picked m curRsp next r s') (ht : h.Tracks m run) (p : ℕ) :
    (s'.queue p).Pairwise fun i j => h.pickSince m i < h.pickSince m j := by
  have hrel := ht.release_sorted curRsp p
  cases hnext : next with
  | none =>
    rw [(hp.idle hnext p).1]
    exact hrel
  | some j =>
    obtain ⟨q, -, -, hqueue, hother⟩ := hp.pool j hnext
    by_cases hpq : p = q
    · subst hpq
      rw [hqueue] at hrel
      exact hrel.of_cons
    · rw [hother p hpq]
      exact hrel

/-- The task picked was ready. -/
lemma Picked.was_ready (hp : Picked m curRsp next r s') (ht : h.Tracks m run) {j : ℕ}
    (hj : next = some j) : ((m.release curRsp).taskPool j).state = .ready := by
  obtain ⟨p, -, -, hqueue, -⟩ := hp.pool j hj
  have hmem : j ∈ (m.release curRsp).queue p := by
    rw [hqueue]
    exact List.mem_cons_self
  exact (((ht.inv.release ht.current curRsp).queued j p).mp hmem).1

/-- It has its whole quantum. -/
lemma Picked.full (hp : Picked m curRsp next r s') (ht : h.Tracks m run) {j : ℕ}
    (hj : next = some j) : (s'.taskPool j).timeslice = (s'.taskPool j).quantum := by
  have htask : s'.taskPool j = _ := hp.task (some j)
  rw [if_pos hj.symm, hj] at htask
  rw [htask]
  exact ht.release_full curRsp (hp.was_ready ht hj)

/-- The other tasks of its priority became ready later. -/
lemma Picked.order (hp : Picked m curRsp next r s') (ht : h.Tracks m run) {j k : ℕ}
    (hj : next = some j) (hk : (s'.taskPool k).state = .ready)
    (hprio : (s'.taskPool k).priority = (s'.taskPool j).priority) :
    (h.afterIrqEnd m curRsp s').readySince j < (h.afterIrqEnd m curRsp s').readySince k := by
  obtain ⟨p, -, -, hqueue, -⟩ := hp.pool j hj
  have hmem : j ∈ (m.release curRsp).queue p := by
    rw [hqueue]
    exact List.mem_cons_self
  have hjp := (((ht.inv.release ht.current curRsp).queued j p).mp hmem).2
  have htask : s'.taskPool j = _ := hp.task (some j)
  rw [if_pos hj.symm, hj] at htask
  have hkq : k ∈ s'.queue p := by
    refine (hp.inv.queued k p).mpr ⟨hk, ?_⟩
    rw [hprio, htask]
    exact hjp
  have hlt : h.pickSince m j < h.pickSince m k := by
    have hrel := ht.release_sorted curRsp p
    rw [hqueue] at hrel
    exact List.rel_of_pairwise_cons hrel hkq
  rw [ht.readySince_irqEnd hk]
  -- the current task is last in its queue, so the one picked was ready before
  have hready : (m.taskPool j).state = .ready := by
    by_contra hnot
    have hle := pickSince_le ht k
    rw [pickSince, if_neg hnot] at hlt
    omega
  rw [ht.readySince_old curRsp s' hready]
  rw [pickSince, if_pos hready] at hlt
  exact hlt

lemma Picked.cr3 (hp : Picked m curRsp next r s') (ht : h.Tracks m run) :
    s'.loadedCr3 = wantCr3 (s'.task s'.curTask) := by
  have hsame := release_context (m := m) curRsp next
  rw [hp.loadedCr3, hp.curTask, hp.task, if_pos rfl]
  split_ifs with hcur
  · refine ht.cr3.trans ?_
    rw [← hcur]
    simp only [wantCr3, hsame.1]
  · rfl

lemma Picked.trapStack (hp : Picked m curRsp next r s') (ht : h.Tracks m run)
    (huser : (s'.task s'.curTask).isUser) :
    s'.rsp0 = (s'.task s'.curTask).stack + taskStackSz := by
  have hsame := release_context (m := m) curRsp next
  rw [hp.curTask, hp.task, if_pos rfl] at huser ⊢
  rw [hp.rsp0]
  by_cases hcur : next = m.curTask
  · rw [if_neg (fun hand => hand.1 hcur)]
    have hold := ht.rsp0
    rw [← hcur] at hold
    simp only [hsame.2.1, hsame.2.2] at huser ⊢
    exact hold huser
  · rw [if_pos ⟨hcur, huser⟩]

/-- The stack pointers noted for the tasks that do not run. -/
lemma Picked.saved (hp : Picked m curRsp next r s') (ht : h.Tracks m run) {t : Option ℕ}
    (hne : t ≠ next) (hready : ∀ i, t = some i → (s'.taskPool i).state = .ready) :
    (s'.task t).rsp = (h.afterIrqEnd m curRsp s').savedRsp t := by
  rw [hp.task, if_neg hne]
  simp only [afterIrqEnd, hp.curTask]
  by_cases hcur : t = m.curTask
  · subst hcur
    rw [if_pos (Ne.symm hne), Function.update_self, release_task, if_pos rfl]
    split_ifs <;> rfl
  · have hold : ((m.release curRsp).task t).rsp = h.savedRsp t := by
      refine ht.release_saved hcur fun i hi => ?_
      have hi' := hready i hi
      rw [(hp.ready hi').2] at hi'
      exact hi'
    rw [hold]
    split_ifs
    · rw [Function.update_of_ne hcur]
    · rfl

/-- The stack pointer that a switch goes on with. -/
lemma Picked.switched (hp : Picked m curRsp next r s') (ht : h.Tracks m run)
    (hne : s'.curTask ≠ m.curTask) : r = h.savedRsp s'.curTask := by
  rw [hp.curTask] at hne ⊢
  rw [hp.rsp, if_neg hne]
  exact ht.release_saved hne fun i hi => hp.was_ready ht hi

/-- The processor is given to a task of the pool. -/
lemma Picked.dispatches (hp : Picked m curRsp next r s') (ht : h.Tracks m run)
    (hpoint : m.SchedulingPoint) {j : ℕ} (hj : next = some j) : m.Dispatches s' := by
  refine ⟨hpoint, .inr ?_⟩
  rw [hp.curTask, hj]
  exact hp.full ht hj

lemma Picked.dispatchOk (hp : Picked m curRsp next r s') (ht : h.Tracks m run)
    (hpoint : m.SchedulingPoint) (hone : ∀ i, run = some i → (m.taskPool i).timeslice = 1) :
    DispatchOk h (h.afterIrqEnd m curRsp s') m curRsp r s' where
  first _ := by
    rw [hp.curTask]
    cases hnext : next with
    | none =>
      intro p hlt
      rw [← release_queue curRsp ht.inv]
      exact (hp.idle hnext p).2 hlt
    | some j =>
      obtain ⟨p, hlt, hbefore, hqueue, -⟩ := hp.pool j hnext
      refine ⟨p, hlt, ⟨s'.queue p, ?_⟩, fun q hq => ?_⟩
      · rw [← release_queue curRsp ht.inv]
        exact hqueue
      · rw [← release_queue curRsp ht.inv]
        exact hbefore q hq
  order _ j hj k hk hprio := by
    rw [hp.curTask] at hj
    exact hp.order ht hj hk hprio
  quantum _ hy i hcur hstate := by
    have hrun := (ht.inv.running i).mp hstate
    have hsum := ht.slice i hrun hy
    rw [hone i hrun] at hsum
    refine iff_of_true ⟨hpoint, ?_⟩ (by omega)
    by_cases hnext : next = some i
    · refine .inr ?_
      rw [hp.curTask, hnext]
      exact hp.full ht hnext
    · refine .inl ?_
      rw [hp.curTask, hcur]
      exact hnext
  cr3 := hp.cr3 ht
  rsp0 := hp.trapStack ht
  switched := hp.switched ht
  stayed heq := by
    rw [hp.curTask] at heq
    rw [hp.rsp, if_pos heq]

lemma Picked.tracks (hp : Picked m curRsp next r s') (ht : h.Tracks m run)
    (hpoint : m.SchedulingPoint) : (h.afterIrqEnd m curRsp s').Tracks s' next where
  inv := hp.inv
  current := .inl hp.curTask.symm
  sorted p := by
    refine (hp.sorted ht p).imp_of_mem fun hi hj hlt => ?_
    rw [ht.readySince_irqEnd ((hp.inv.queued _ p).mp hi).1,
      ht.readySince_irqEnd ((hp.inv.queued _ p).mp hj).1]
    exact hlt
  past i hi := by
    rw [ht.readySince_irqEnd hi]
    exact Nat.lt_succ_of_le (pickSince_le ht i)
  full i hi := by
    have heq := (hp.ready hi).2
    rw [heq] at hi ⊢
    exact ht.release_full curRsp hi
  slice i hi _ := by
    simp only [afterIrqEnd, hp.dispatches ht hpoint hi, if_true, Nat.add_zero]
    exact hp.full ht hi
  cr3 := hp.cr3 ht
  rsp0 := hp.trapStack ht
  saved i hi := by
    refine hp.saved ht (hp.ready hi).1 fun j hj => ?_
    cases hj
    exact hi
  savedIdle hne := by
    rw [hp.curTask] at hne
    exact hp.saved ht (Ne.symm hne) fun j hj => by cases hj
  same _ := Iff.rfl

end picked

/-- What `sched_irq_end` does, and that the notes go on to fit. -/
lemma Tracks.irqEnd (ht : h.Tracks m run) (hpoint : run = m.curTask ∨ m.SchedulingPoint)
    (curRsp : ℕ) :
    DispatchOk h (h.afterIrqEnd m curRsp (m.schedIrqEnd curRsp).2) m curRsp
        (m.schedIrqEnd curRsp).1 (m.schedIrqEnd curRsp).2 ∧
      (h.afterIrqEnd m curRsp (m.schedIrqEnd curRsp).2).Tracks (m.schedIrqEnd curRsp).2
        (m.schedIrqEnd curRsp).2.curTask := by
  rcases schedIrqEnd_cases ht.inv ht.current curRsp with ⟨hno, heq⟩ | ⟨i, hp, hi,
    hcur, hslice, heq⟩ |
    ⟨hp, hone, heq⟩
  · rw [heq]
    obtain rfl := hpoint.resolve_right hno
    exact ht.irqEnd_none curRsp hno
  · rw [heq]
    subst hi
    have hcur' : (m.keep i curRsp).curTask = some i := hcur
    simp only [hcur']
    exact ht.irqEnd_keep curRsp hp hcur hslice
  · rw [heq]
    obtain ⟨next, hpick⟩ := picked_pickNext ht curRsp
    refine ⟨hpick.dispatchOk ht hp hone, ?_⟩
    rw [hpick.curTask]
    exact hpick.tracks ht hp

end irqEnd

section calls

variable {h : History} {s : Scheduler}

/-- The notes are about the tasks, the queues and the loaded context only. -/
lemma Tracks.of_same {s' : Scheduler} (ht : h.Tracks s s.curTask) (hpool : s'.taskPool = s.taskPool)
    (hidle : s'.idleTask.rsp = s.idleTask.rsp ∧ s'.idleTask.cr3 = s.idleTask.cr3 ∧
      s'.idleTask.isUser = s.idleTask.isUser ∧ s'.idleTask.stack = s.idleTask.stack)
    (hcount : s'.taskCount = s.taskCount) (hrq : s'.rq = s.rq) (hlost : s'.lost = s.lost)
    (hcur : s'.curTask = s.curTask) (hcr3 : s'.loadedCr3 = s.loadedCr3) (hrsp0 : s'.rsp0 = s.rsp0) :
    h.Tracks s' s'.curTask := by
  obtain ⟨hrsp, hicr3, hiuser, histack⟩ := hidle
  have hqueue : s'.queue = s.queue := by
    funext p
    rw [queue, queue, hrq]
  have hcontext : (s'.task s'.curTask).cr3 = (s.task s.curTask).cr3 ∧
      (s'.task s'.curTask).isUser = (s.task s.curTask).isUser ∧
      (s'.task s'.curTask).stack = (s.task s.curTask).stack := by
    rw [hcur]
    cases s.curTask with
    | none => exact ⟨hicr3, hiuser, histack⟩
    | some i =>
      simp only [task, hpool]
      exact ⟨trivial, trivial, trivial⟩
  refine ⟨?_, .inl rfl, ?_, ?_, ?_, ?_, ?_, ?_, ?_, ?_, ?_⟩
  · rw [hcur]
    exact ht.inv.of_same hpool hcount hrq hlost
  · rw [hqueue]
    exact ht.sorted
  · rw [hpool]
    exact ht.past
  · rw [hpool]
    exact ht.full
  · rw [hpool, hcur]
    exact ht.slice
  · rw [hcr3, ht.cr3, wantCr3, wantCr3, hcontext.1]
  · rw [hcontext.2.1, hcontext.2.2, hrsp0]
    exact ht.rsp0
  · rw [hpool]
    exact ht.saved
  · rw [hcur, hrsp]
    exact ht.savedIdle
  · rw [hpool]
    exact ht.same

/-- The current task has ended. -/
lemma Tracks.schedKillCurrent (ht : h.Tracks s s.curTask) (hs : s.Steady) :
    h.Tracks s.schedKillCurrent none := by
  obtain ⟨hinv, hcurrent, -⟩ := hs.schedKillCurrent
  cases hcur : s.curTask with
  | none =>
    have heq : s.schedKillCurrent = s := by simp [Scheduler.schedKillCurrent, hcur]
    rw [heq]
    rw [hcur] at ht
    exact ht
  | some i =>
    have hstate := (ht.inv.running i).mpr hcur
    have heq : s.schedKillCurrent = { s with
        taskPool := Function.update s.taskPool i { s.taskPool i with state := .done }
        wantSchedule := true } := by
      simp [Scheduler.schedKillCurrent, hcur, setTask]
    rw [heq] at hinv hcurrent ⊢
    have hready : ∀ j, (Function.update s.taskPool i { s.taskPool i with state := .done } j).state =
        .ready ↔ (s.taskPool j).state = .ready := by
      intro j
      by_cases hj : j = i
      · subst hj
        simp [hstate]
      · rw [Function.update_of_ne hj]
    have hne : ∀ j, (s.taskPool j).state = .ready →
        Function.update s.taskPool i { s.taskPool i with state := .done } j = s.taskPool j := by
      intro j hj
      refine Function.update_of_ne ?_ _ _
      rintro rfl
      rw [hstate] at hj
      cases hj
    refine ⟨hinv, hcurrent, ht.sorted, ?_, ?_, ?_, ?_, ?_, ?_, ht.savedIdle, ?_⟩
    · exact fun j hj => ht.past j ((hready j).mp hj)
    · intro j hj
      have hj' := (hready j).mp hj
      simp only [hne j hj']
      exact ht.full j hj'
    · rintro j ⟨⟩
    · have hold := ht.cr3
      simp only [hcur, task, Function.update_self, wantCr3] at hold ⊢
      exact hold
    · have hold := ht.rsp0
      simp only [hcur, task, Function.update_self] at hold ⊢
      exact hold
    · intro j hj
      have hj' := (hready j).mp hj
      simp only [hne j hj']
      exact ht.saved j hj'
    · intro j
      rw [← ht.same j]
      exact hready j

/-- A pool task that exits does what one that is killed does. -/
lemma schedExit_pool {i : ℕ} (hcur : s.curTask = some i) : s.schedExit = s.schedKillCurrent := by
  simp [Scheduler.schedExit, Scheduler.schedKillCurrent, hcur, task]

lemma Tracks.schedExit (ht : h.Tracks s s.curTask) (hs : s.Steady) : h.Tracks s.schedExit none := by
  cases hcur : s.curTask with
  | none =>
    have heq : s.schedExit = { s with
        idleTask := { s.idleTask with state := .done }
        wantSchedule := true } := by
      simp [Scheduler.schedExit, hcur, setTask, task]
    have hsame : h.Tracks s.schedExit s.schedExit.curTask := by
      rw [heq]
      exact ht.of_same rfl ⟨rfl, rfl, rfl, rfl⟩ rfl rfl rfl rfl rfl rfl
    have hidle : s.schedExit.curTask = none := by
      rw [heq]
      exact hcur
    rw [hidle] at hsame
    exact hsame
  | some i =>
    rw [schedExit_pool hcur]
    exact ht.schedKillCurrent hs

/-- The state in which a step calls `sched_irq_end` fits the notes. -/
lemma Tracks.interrupt (ht : h.Tracks h.sched h.sched.curTask) (hs : h.sched.Steady) {a : Step}
    {m : Scheduler} {curRsp : ℕ} (ha : a.interrupt h.sched = some (m, curRsp)) :
    ∃ run, h.Tracks m run ∧ (run = m.curTask ∨ m.SchedulingPoint) := by
  cases a with
  | irqEnd r =>
    obtain ⟨rfl, -⟩ : h.sched = m ∧ r = curRsp := by simpa [Step.interrupt] using ha
    exact ⟨_, ht, .inl rfl⟩
  | killCurrent r =>
    obtain ⟨rfl, -⟩ : h.sched.schedKillCurrent = m ∧ r = curRsp := by
      simpa [Step.interrupt] using ha
    exact ⟨none, ht.schedKillCurrent hs, hs.schedKillCurrent.2.2⟩
  | exit r =>
    obtain ⟨rfl, -⟩ : h.sched.schedExit = m ∧ r = curRsp := by simpa [Step.interrupt] using ha
    exact ⟨none, ht.schedExit hs, .inr hs.schedExit.2.2⟩
  | _ => cases ha

lemma exec_interrupt (img : Image) {a : Step} {m : Scheduler} {curRsp : ℕ}
    (ha : a.interrupt s = some (m, curRsp)) : exec img s a = (m.schedIrqEnd curRsp).2 := by
  cases a with
  | irqEnd r =>
    obtain ⟨rfl, rfl⟩ : s = m ∧ r = curRsp := by simpa [Step.interrupt] using ha
    rfl
  | killCurrent r =>
    obtain ⟨rfl, rfl⟩ : s.schedKillCurrent = m ∧ r = curRsp := by simpa [Step.interrupt] using ha
    rfl
  | exit r =>
    obtain ⟨rfl, rfl⟩ : s.schedExit = m ∧ r = curRsp := by simpa [Step.interrupt] using ha
    rfl
  | _ => cases ha

/-- The frame that `frame_build` makes takes 22 words of the stack. -/
lemma frameBuild_rsp (mem : ℕ → ℕ) (top : ℕ) (f : Frame) :
    (frameBuild mem top f).1 = top - frameSz := by
  simp [frameBuild, Frame.words, pushWord, frameSz, Nat.sub_sub]

/-- A call that changes no task notes nothing but the time. -/
lemma Tracks.afterCall (ht : h.Tracks s s.curTask) {a : Step} {s' : Scheduler}
    (hy : (h.afterCall a none s').yielded = false → h.yielded = false)
    (hpool : s'.taskPool = s.taskPool) (hidle : s'.idleTask = s.idleTask)
    (hinv : s'.Inv s'.curTask) (hrq : s'.rq = s.rq) (hcur : s'.curTask = s.curTask)
    (hcr3 : s'.loadedCr3 = s.loadedCr3) (hrsp0 : s'.rsp0 = s.rsp0) :
    (h.afterCall a none s').Tracks s' s'.curTask := by
  have hqueue : s'.queue = s.queue := by
    funext p
    rw [queue, queue, hrq]
  have htask : s'.task = s.task := by
    funext t
    cases t with
    | none => exact hidle
    | some i => exact congrFun hpool i
  have hsince : ∀ i, (s.taskPool i).state = .ready →
      (h.afterCall a none s').readySince i = h.readySince i := by
    intro i hi
    have hold := (ht.same i).mp hi
    simp [History.afterCall, hold]
  refine ⟨hinv, .inl rfl, ?_, ?_, ?_, ?_, ?_, ?_, ?_, ?_, fun _ => Iff.rfl⟩
  · intro p
    rw [hqueue]
    refine (ht.sorted p).imp_of_mem fun hi hj hlt => ?_
    rw [hsince _ ((ht.inv.queued _ p).mp hi).1, hsince _ ((ht.inv.queued _ p).mp hj).1]
    exact hlt
  · intro i hi
    rw [hpool] at hi
    rw [hsince i hi]
    exact Nat.lt_succ_of_lt (ht.past i hi)
  · rw [hpool]
    exact ht.full
  · rw [hpool, hcur]
    exact fun i hi hf => ht.slice i hi (hy hf)
  · rw [hcr3, ht.cr3, htask, hcur]
  · rw [htask, hcur, hrsp0]
    exact ht.rsp0
  · rw [hpool]
    exact ht.saved
  · rw [hcur, hidle]
    exact ht.savedIdle

/-- A new task in a slot whose last task has ended. -/
lemma Tracks.pushed (ht : h.Tracks s s.curTask) {a : Step} {t : Task} {f : Frame} {i n : ℕ}
    (hstate : (s.taskPool i).state = .free ∨ (s.taskPool i).state = .done)
    (hold : ({ s with taskCount := n } : Scheduler).Inv s.curTask) (hi : i < n)
    (hready : t.state = .ready) (hfull : t.timeslice = t.quantum)
    {s' : Scheduler} (heq : s' = rqPush { s with
        taskCount := n
        taskPool := Function.update s.taskPool i
          { t with rsp := (frameBuild s.mem (t.stack + taskStackSz) f).1 }
        mem := (frameBuild s.mem (t.stack + taskStackSz) f).2 } t.priority i)
    (hinv : s'.Inv s'.curTask)
    (hy : (h.afterCall a (some (i, t.stack)) s').yielded = h.yielded) :
    (h.afterCall a (some (i, t.stack)) s').Tracks s' s'.curTask := by
  have hnew : (s.taskPool i).state ≠ .ready := by rcases hstate with hs | hs <;> simp [hs]
  have hcur : s'.curTask = s.curTask := by rw [heq, rqPush]
  have hne : s.curTask ≠ some i := by
    intro hc
    rw [(ht.inv.running i).mpr hc] at hstate
    rcases hstate with hs | hs <;> cases hs
  have hpool : ∀ j, j ≠ i → s'.taskPool j = s.taskPool j := by
    intro j hj
    rw [heq, rqPush]
    exact Function.update_of_ne hj _ _
  have hpool_i : s'.taskPool i =
      { t with rsp := (frameBuild s.mem (t.stack + taskStackSz) f).1 } := by
    rw [heq, rqPush]
    exact Function.update_self i _ _
  have htask : s'.task s'.curTask = s.task s.curTask := by
    rw [hcur]
    cases hc : s.curTask with
    | none => rw [heq, rqPush]; rfl
    | some j => exact hpool j (fun hj => hne (by rw [hc, hj]))
  have hqueue : ∀ p, s'.queue p = if p = t.priority then s.queue p ++ [i] else s.queue p := by
    intro p
    have hsize := hold.size_lt (lt_of_lt_of_le hi hold.count) hnew t.priority
    rw [heq]
    exact queue_rqPush (by exact ht.inv.ring t.priority) (by exact hsize) p
  have hsince : ∀ j, (s.taskPool j).state = .ready →
      (h.afterCall a (some (i, t.stack)) s').readySince j = h.readySince j := by
    intro j hj
    have hj' := (ht.same j).mp hj
    simp [History.afterCall, hj']
  have hsince_i : (h.afterCall a (some (i, t.stack)) s').readySince i = h.clock := by
    have hi' : (h.sched.taskPool i).state ≠ .ready := fun hr => hnew ((ht.same i).mpr hr)
    simp [History.afterCall, hi', hpool_i, hready]
  refine ⟨hinv, .inl rfl, ?_, ?_, ?_, ?_, ?_, ?_, ?_, ?_, fun _ => Iff.rfl⟩
  · intro p
    have hsorted : (s.queue p).Pairwise fun j k =>
        (h.afterCall a (some (i, t.stack)) s').readySince j <
          (h.afterCall a (some (i, t.stack)) s').readySince k := by
      refine (ht.sorted p).imp_of_mem fun hj hk hlt => ?_
      rw [hsince _ ((ht.inv.queued _ p).mp hj).1, hsince _ ((ht.inv.queued _ p).mp hk).1]
      exact hlt
    rw [hqueue]
    split_ifs
    · refine List.pairwise_append.mpr ⟨hsorted, List.pairwise_singleton _ i, ?_⟩
      intro j hj k hk
      rw [List.mem_singleton.mp hk, hsince_i, hsince j ((ht.inv.queued j p).mp hj).1]
      exact ht.past j ((ht.inv.queued j p).mp hj).1
    · exact hsorted
  · intro j hj
    by_cases hji : j = i
    · subst hji
      rw [hsince_i]
      exact Nat.lt_succ_self h.clock
    · rw [hpool j hji] at hj
      rw [hsince j hj]
      exact Nat.lt_succ_of_lt (ht.past j hj)
  · intro j hj
    by_cases hji : j = i
    · subst hji
      rw [hpool_i]
      exact hfull
    · rw [hpool j hji] at hj ⊢
      exact ht.full j hj
  · intro j hj
    rw [hcur] at hj
    rw [hpool j (fun hji => hne (by rw [hj, hji])), hy]
    exact ht.slice j hj
  · rw [htask, ← ht.cr3, heq, rqPush]
  · rw [htask]
    have hold' : s'.rsp0 = s.rsp0 := by rw [heq, rqPush]
    rw [hold']
    exact ht.rsp0
  · intro j hj
    by_cases hji : j = i
    · subst hji
      rw [hpool_i]
      simp [History.afterCall, frameBuild_rsp]
    · rw [hpool j hji] at hj ⊢
      simpa [History.afterCall, hji] using ht.saved j hj
  · intro hidle
    rw [hcur] at hidle
    have hsame : s'.idleTask = s.idleTask := by rw [heq, rqPush]
    simpa [History.afterCall, hsame] using ht.savedIdle hidle

/-- A submission notes the time and the frame of the new task. -/
lemma Tracks.submitTask (ht : h.Tracks s s.curTask) {a : Step} {t : Task} (f : Frame)
    (hready : t.state = .ready) (hlive : Live t) (hfull : t.timeslice = t.quantum)
    (hy : ∀ sub s', (h.afterCall a sub s').yielded = h.yielded) :
    (h.afterCall a ((s.submitTask t f).1.map (·, t.stack)) (s.submitTask t f).2).Tracks
      (s.submitTask t f).2 (s.submitTask t f).2.curTask := by
  have hcur := submitTask_curTask ht.inv t f
  have hinv := ht.inv.submitTask f hready hlive
  rw [← hcur] at hinv
  rcases submitTask_cases ht.inv t f with ⟨hnone, heq, -⟩ | ⟨i, n, hold, hi, hstate, heq⟩
  · rw [hnone]
    refine ht.afterCall (by rw [hy]; exact id) ?_ ?_ hinv ?_ hcur ?_ ?_ <;> rw [heq]
  · rw [heq] at hinv ⊢
    exact ht.pushed hstate hold hi hready hfull rfl hinv (hy _ _)

/-- The number of ring-3 stacks in use is not noted. -/
lemma Tracks.userStackNext (ht : h.Tracks s s.curTask) (n : ℕ) :
    ({ h with sched := { s with userStackNext := n } } : History).Tracks
      { s with userStackNext := n } s.curTask :=
  ⟨ht.inv.of_same rfl rfl rfl rfl, ht.current, ht.sorted, ht.past, ht.full, ht.slice,
    ht.cr3, ht.rsp0, ht.saved, ht.savedIdle, fun _ => Iff.rfl⟩

lemma Tracks.wantReschedule (ht : h.Tracks h.sched h.sched.curTask) (hs : h.sched.Steady) :
    (h.afterCall .wantReschedule none h.sched.schedWantReschedule).Tracks
      h.sched.schedWantReschedule h.sched.schedWantReschedule.curTask := by
  have hinv := hs.schedWantReschedule.inv
  cases hcur : h.sched.curTask with
  | none =>
    rw [schedWantReschedule_idle hcur] at hinv ⊢
    exact ht.afterCall (fun hy => by cases hy) rfl rfl hinv rfl rfl rfl rfl
  | some i =>
    have hstate := (ht.inv.running i).mpr hcur
    rw [schedWantReschedule_pool hcur hstate] at hinv ⊢
    have hsame : ∀ j, (h.sched.taskPool j).state = .ready → Function.update h.sched.taskPool i
        { h.sched.taskPool i with timeslice := 1 } j = h.sched.taskPool j := by
      intro j hj
      refine Function.update_of_ne ?_ _ _
      rintro rfl
      rw [hstate] at hj
      cases hj
    have hready : ∀ j, (Function.update h.sched.taskPool i
        { h.sched.taskPool i with timeslice := 1 } j).state = (h.sched.taskPool j).state := by
      intro j
      by_cases hj : j = i
      · subst hj
        rw [Function.update_self]
      · rw [Function.update_of_ne hj]
    refine ⟨hinv, .inl rfl, ?_, ?_, ?_, ?_, ?_, ?_, ?_, ht.savedIdle, fun _ => Iff.rfl⟩
    · intro p
      simp only [History.afterCall, hready, ne_eq, and_not_self_iff, if_false]
      exact ht.sorted p
    · intro j hj
      simp only [hready] at hj
      simpa only [History.afterCall, hready, ne_eq, and_not_self_iff, if_false] using
        Nat.lt_succ_of_lt (ht.past j hj)
    · intro j hj
      simp only [hready] at hj
      simp only [hsame j hj]
      exact ht.full j hj
    · intro j hj hy
      cases hy
    · have hold := ht.cr3
      simp only [hcur, task, Function.update_self, wantCr3] at hold ⊢
      exact hold
    · have hold := ht.rsp0
      simp only [hcur, task, Function.update_self] at hold ⊢
      exact hold
    · intro j hj
      simp only [hready] at hj
      simp only [hsame j hj]
      exact ht.saved j hj

/-- The notes go on to fit. -/
lemma Tracks.next (img : Image) (ht : h.Tracks h.sched h.sched.curTask) (hs : h.sched.Steady)
    (a : Step) : (h.next img a).Tracks (h.next img a).sched (h.next img a).sched.curTask := by
  rw [sched_next]
  unfold History.next
  cases ha : a.interrupt h.sched with
  | some x =>
    obtain ⟨m, curRsp⟩ := x
    obtain ⟨run, hm, hpoint⟩ := ht.interrupt hs ha
    rw [exec_interrupt img ha]
    exact (hm.irqEnd hpoint curRsp).2
  | none =>
    cases a with
    | submitPrio func arg priority stack =>
      simp only [exec, Step.submitted, schedSubmitPrio]
      split_ifs with hbad
      · exact ht.afterCall id rfl rfl ht.inv rfl rfl rfl rfl
      · rw [not_or] at hbad
        exact ht.submitTask _ rfl (live_newTask (Nat.lt_of_not_le hbad.2) _ _ _ _ _ _) rfl
          fun _ _ => rfl
    | submitUser entry arg stack =>
      simp only [exec, Step.submitted, schedSubmitUser]
      split_ifs with hbad
      · exact ht.afterCall id rfl rfl ht.inv rfl rfl rfl rfl
      · have hsub := ht.submitTask (a := .submitUser entry arg stack)
          (taskInitStackUser img (newTask prioNormal true 0 stack
            (img.userStackPool + h.sched.userStackNext * userStackSz) entry arg)) rfl
          (live_newTask (show prioNormal < prioLevels by decide) true 0 stack
            (img.userStackPool + h.sched.userStackNext * userStackSz) entry arg) rfl fun _ _ => rfl
        rcases hres : h.sched.submitTask _ _ with ⟨_ | i, s'⟩
        · rw [hres] at hsub
          exact hsub
        · rw [hres] at hsub
          exact hsub.userStackNext _
    | submitUserAs entry arg cr3 top stack =>
      simp only [exec, Step.submitted, schedSubmitUserAs]
      split_ifs
      · exact ht.afterCall id rfl rfl ht.inv rfl rfl rfl rfl
      · exact ht.submitTask _ rfl (live_newTask (by decide) _ _ _ _ _ _) rfl fun _ _ => rfl
    | tick =>
      have hinv := (@Steady.exec _ img hs .tick).inv
      simp only [exec, Step.submitted, schedTick, hs.active, if_true] at hinv ⊢
      exact ht.afterCall id rfl rfl hinv rfl rfl rfl rfl
    | wantReschedule => exact ht.wantReschedule hs
    | irqEnd curRsp => cases ha
    | killCurrent curRsp => cases ha
    | exit curRsp => cases ha

lemma start_tracks (mem : ℕ → ℕ) (rsp0 : ℕ) :
    (start mem rsp0).Tracks (start mem rsp0).sched (start mem rsp0).sched.curTask := by
  refine ⟨(started_steady mem rsp0).inv, .inl rfl, fun p => List.Pairwise.nil, ?_, ?_,
    ?_, rfl, ?_, ?_, ?_, fun _ => Iff.rfl⟩
  · rintro i ⟨⟩
  · rintro i ⟨⟩
  · rintro i ⟨⟩
  · rintro ⟨⟩
  · rintro i ⟨⟩
  · intro hne
    exact absurd rfl hne

lemma run_tracks (img : Image) (ht : h.Tracks h.sched h.sched.curTask) (hs : h.sched.Steady)
    (steps : List Step) :
    (h.run img steps).Tracks (h.run img steps).sched (h.run img steps).sched.curTask ∧
      (h.run img steps).sched.Steady := by
  induction steps generalizing h with
  | nil => exact ⟨ht, hs⟩
  | cons a steps ih =>
    refine ih (ht.next img hs a) ?_
    rw [sched_next]
    exact hs.exec a

/-- Along every run, `sched_irq_end` dispatches tasks in the order in which they became ready, lets
each of them have its quantum, and loads the context of the task that goes on. -/
theorem dispatchOk_run (img : Image) (mem : ℕ → ℕ) (rsp0 : ℕ) (steps : List Step) (a : Step)
    (m : Scheduler) (curRsp : ℕ)
    (ha : a.interrupt ((start mem rsp0).run img steps).sched = some (m, curRsp)) :
    DispatchOk ((start mem rsp0).run img steps)
      (((start mem rsp0).run img steps).next img a) m curRsp
      (m.schedIrqEnd curRsp).1 (m.schedIrqEnd curRsp).2 := by
  obtain ⟨ht, hs⟩ := run_tracks img (start_tracks mem rsp0) (started_steady mem rsp0) steps
  obtain ⟨run, hm, hpoint⟩ := ht.interrupt hs ha
  have hnext : ((start mem rsp0).run img steps).next img a =
      ((start mem rsp0).run img steps).afterIrqEnd m curRsp (m.schedIrqEnd curRsp).2 := by
    unfold History.next
    rw [ha, exec_interrupt img ha]
  rw [hnext]
  exact (hm.irqEnd hpoint curRsp).1

/-- A task with a stack at 4096 is submitted, and the timer interrupt after that switches to it. -/
theorem dispatchOk_run_firstTick :
    DispatchOk ((start (fun _ => 0) 0).run ⟨1, 2, 3⟩ [.submitPrio 5 0 2 4096, .tick])
        (((start (fun _ => 0) 0).run ⟨1, 2, 3⟩ [.submitPrio 5 0 2 4096, .tick]).next ⟨1, 2, 3⟩
          (.irqEnd 77)) ((start (fun _ => 0) 0).run ⟨1, 2, 3⟩
          [.submitPrio 5 0 2 4096, .tick]).sched 77
        (((start (fun _ => 0) 0).run ⟨1, 2, 3⟩
          [.submitPrio 5 0 2 4096, .tick]).sched.schedIrqEnd 77).1
        (((start (fun _ => 0) 0).run ⟨1, 2, 3⟩
          [.submitPrio 5 0 2 4096, .tick]).sched.schedIrqEnd 77).2 ∧
      (((start (fun _ => 0) 0).run ⟨1, 2, 3⟩
        [.submitPrio 5 0 2 4096, .tick]).sched.schedIrqEnd 77).1 =
        4096 + 8192 - 176 :=
  ⟨dispatchOk_run ⟨1, 2, 3⟩ (fun _ => 0) 0 [.submitPrio 5 0 2 4096, .tick] (.irqEnd 77) _ 77 rfl, by
    decide⟩

end calls

end History

end Cpu

end CoolFrost
