import CoolFrost.Cpu.Scheduler

/-!
# The run queues

Every ready task is in the run queue of its priority, once, and nothing else is in a run queue,
along every run of the scheduler.  `Inv s run` is the invariant with the pool task that is running
as a parameter: while `sched_irq_end` is at work there is none.
-/

namespace CoolFrost

namespace Cpu

open Sched (maxTasks prioLevels prioNormal prioQuantum)

/-- The scheduling parameters of a task that is ready or running. -/
structure Live (t : Task) : Prop where
  priority_lt : t.priority < prioLevels
  timeslice_pos : 1 ≤ t.timeslice
  timeslice_le : t.timeslice ≤ t.quantum
  quantum_lt : t.quantum < 2 ^ 32

namespace Scheduler

/-- The run queues hold the ready tasks, and `run` is the pool task that is running. -/
structure Inv (s : Scheduler) (run : Option ℕ) : Prop where
  ring : ∀ p, (s.rq p).Ok maxTasks
  lost : s.lost = []
  count : s.taskCount ≤ maxTasks
  fresh : ∀ i, s.taskCount ≤ i → (s.taskPool i).state = .free
  nodup : ∀ p, (s.queue p).Nodup
  queued : ∀ i p, i ∈ s.queue p ↔ (s.taskPool i).state = .ready ∧ (s.taskPool i).priority = p
  running : ∀ i, (s.taskPool i).state = .running ↔ run = some i
  live : ∀ i, (s.taskPool i).state = .ready ∨ (s.taskPool i).state = .running →
    Live (s.taskPool i)

variable {s s' : Scheduler} {run : Option ℕ} {i p : ℕ}

/-- The invariant is about the scheduling data of the tasks and the queues only. -/
lemma Inv.of_toTask (h : s.Inv run) (hpool : ∀ i, (s'.taskPool i).toTask = (s.taskPool i).toTask)
    (hcount : s'.taskCount = s.taskCount) (hrq : s'.rq = s.rq) (hlost : s'.lost = s.lost) :
    s'.Inv run := by
  have hqueue : s'.queue = s.queue := by
    funext p
    rw [queue, queue, hrq]
  refine ⟨?_, hlost.trans h.lost, ?_, ?_, ?_, ?_, ?_, ?_⟩
  · rw [hrq]
    exact h.ring
  · rw [hcount]
    exact h.count
  · intro i hi
    rw [hcount] at hi
    rw [hpool]
    exact h.fresh i hi
  · rw [hqueue]
    exact h.nodup
  · intro i p
    rw [hqueue, hpool]
    exact h.queued i p
  · intro i
    rw [hpool]
    exact h.running i
  · intro i hi
    rw [hpool] at hi
    obtain ⟨hprio, hpos, hle, hlt⟩ := h.live i hi
    rw [← hpool] at hprio hpos hle hlt
    exact ⟨hprio, hpos, hle, hlt⟩

lemma Inv.of_same (h : s.Inv run) (hpool : s'.taskPool = s.taskPool)
    (hcount : s'.taskCount = s.taskCount) (hrq : s'.rq = s.rq) (hlost : s'.lost = s.lost) :
    s'.Inv run :=
  h.of_toTask (fun i => by rw [hpool]) hcount hrq hlost

/-- A slot that is ready or running is in use. -/
lemma Inv.lt_count (h : s.Inv run) (hi : (s.taskPool i).state ≠ .free) : i < s.taskCount := by
  by_contra hge
  exact hi (h.fresh i (Nat.le_of_not_lt hge))

/-- A queue has room for a task that is not in it. -/
lemma Inv.size_lt (h : s.Inv run) (hi : i < maxTasks) (hstate : (s.taskPool i).state ≠ .ready)
    (p : ℕ) : (s.rq p).size < maxTasks := by
  have hnot : i ∉ s.queue p := fun hmem => hstate ((h.queued i p).mp hmem).1
  have hnodup : (i :: s.queue p).Nodup := List.nodup_cons.mpr ⟨hnot, h.nodup p⟩
  have hsub : i :: s.queue p ⊆ List.range maxTasks := by
    intro j hj
    rw [List.mem_range]
    rcases List.mem_cons.mp hj with rfl | hj
    · exact hi
    · refine lt_of_lt_of_le (h.lt_count ?_) h.count
      rw [((h.queued j p).mp hj).1]
      decide
  have hlen := (hnodup.subperm hsub).length_le
  rw [List.length_cons, List.length_range, queue, RingBuf.length_toList] at hlen
  exact hlen

/-- A change to the running task, or to a task that is neither ready nor running, that does not make
it ready. -/
lemma Inv.set (h : s.Inv run) (run' : Option ℕ) (new : Task) (hi : i < s.taskCount)
    (hold : (s.taskPool i).state ≠ .ready) (hnew : new.state ≠ .ready)
    (hrun : ∀ j, run' = some j ↔ if j = i then new.state = .running else run = some j)
    (hlive : new.state = .running → Live new) :
    ({ s with taskPool := Function.update s.taskPool i new } : Scheduler).Inv run' where
  ring := h.ring
  lost := h.lost
  count := h.count
  fresh j hj := by
    have hne : j ≠ i := by
      rintro rfl
      exact absurd hj (Nat.not_le_of_lt hi)
    simp only [Function.update_of_ne hne]
    exact h.fresh j hj
  nodup := h.nodup
  queued j p := by
    by_cases hj : j = i
    · subst hj
      simp only [Function.update_self, hnew, false_and, iff_false]
      intro hmem
      exact hold ((h.queued j p).mp hmem).1
    · simp only [Function.update_of_ne hj]
      exact h.queued j p
  running j := by
    by_cases hj : j = i
    · subst hj
      simp only [Function.update_self, hrun j, if_true]
    · simp only [Function.update_of_ne hj, hrun j, if_neg hj]
      exact h.running j
  live j hj := by
    by_cases hji : j = i
    · subst hji
      simp only [Function.update_self] at hj ⊢
      exact hlive (hj.resolve_left hnew)
    · simp only [Function.update_of_ne hji] at hj ⊢
      exact h.live j hj

/-- The running task ends, or is about to be queued again. -/
lemma Inv.stop (h : s.Inv (some i)) (new : Task) (hready : new.state ≠ .ready)
    (hrunning : new.state ≠ .running) :
    ({ s with taskPool := Function.update s.taskPool i new } : Scheduler).Inv none := by
  have hstate : (s.taskPool i).state = .running := (h.running i).mpr rfl
  refine h.set none new (h.lt_count (by rw [hstate]; decide)) (by rw [hstate]; decide) hready ?_
    (fun hnew => absurd hnew hrunning)
  intro j
  by_cases hj : j = i
  · simp [hj, hrunning]
  · simp [hj, Ne.symm hj]

/-- Pushing to a queue that has room. -/
lemma queue_rqPush (hok : (s.rq p).Ok maxTasks) (hsize : (s.rq p).size < maxTasks) (q : ℕ) :
    (s.rqPush p i).queue q = if q = p then s.queue q ++ [i] else s.queue q := by
  by_cases hq : q = p
  · subst hq
    simp only [queue, rqPush, Function.update_self, if_true]
    exact RingBuf.toList_push hok hsize i
  · simp only [queue, rqPush, Function.update_of_ne hq, if_neg hq]

/-- Queueing a task that is in no queue. -/
lemma Inv.push (h : s.Inv run) (new : Task) (hi : i < s.taskCount)
    (hready : (s.taskPool i).state ≠ .ready) (hrunning : (s.taskPool i).state ≠ .running)
    (hnew : new.state = .ready) (hlive : Live new) :
    (rqPush { s with taskPool := Function.update s.taskPool i new } new.priority i).Inv run := by
  have hsize := h.size_lt (lt_of_lt_of_le hi h.count) hready new.priority
  have hqueue : ∀ p, (rqPush { s with taskPool := Function.update s.taskPool i new }
      new.priority i).queue p = if p = new.priority then s.queue p ++ [i] else s.queue p :=
    queue_rqPush (h.ring _) hsize
  refine ⟨?_, ?_, h.count, ?_, ?_, ?_, ?_, ?_⟩
  · intro p
    by_cases hp : p = new.priority
    · subst hp
      simp only [rqPush, Function.update_self]
      exact RingBuf.push_ok (h.ring _) hsize i
    · simp only [rqPush, Function.update_of_ne hp]
      exact h.ring p
  · simp only [rqPush, if_neg (Nat.not_le_of_lt hsize)]
    exact h.lost
  · intro j hj
    have hne : j ≠ i := by
      rintro rfl
      exact absurd hj (Nat.not_le_of_lt hi)
    simp only [rqPush, Function.update_of_ne hne]
    exact h.fresh j hj
  · intro p
    rw [hqueue]
    split_ifs
    · refine List.Nodup.append (h.nodup p) (List.nodup_singleton i) ?_
      intro j hj hji
      rw [List.mem_singleton] at hji
      subst hji
      exact hready ((h.queued j p).mp hj).1
    · exact h.nodup p
  · intro j p
    rw [hqueue]
    by_cases hj : j = i
    · subst hj
      have hnot : j ∉ s.queue p := fun hmem => hready ((h.queued j p).mp hmem).1
      simp only [rqPush, Function.update_self, hnew, true_and]
      split_ifs with hp
      · simp [hp]
      · simp only [hnot, false_iff]
        exact fun heq => hp heq.symm
    · have hmem : (j ∈ if p = new.priority then s.queue p ++ [i] else s.queue p) ↔
          j ∈ s.queue p := by
        split_ifs
        · simp [hj]
        · rfl
      simp only [rqPush, Function.update_of_ne hj, hmem]
      exact h.queued j p
  · intro j
    by_cases hj : j = i
    · subst hj
      simp only [rqPush, Function.update_self, hnew]
      rw [← h.running j]
      exact iff_of_false (by decide) hrunning
    · simp only [rqPush, Function.update_of_ne hj]
      exact h.running j
  · intro j hj
    by_cases hji : j = i
    · subst hji
      simp only [rqPush, Function.update_self]
      exact hlive
    · simp only [rqPush, Function.update_of_ne hji] at hj ⊢
      exact h.live j hj

/-- Taking the oldest task of a queue and running it. -/
lemma Inv.dispatch (h : s.Inv none) {r : RingBuf ℕ} (hpop : (s.rq p).pop maxTasks = some (i, r)) :
    ({ s with
      rq := Function.update s.rq p r
      taskPool := Function.update s.taskPool i { s.taskPool i with state := .running } } :
      Scheduler).Inv (some i) := by
  obtain ⟨hok, hlist⟩ := RingBuf.pop_eq_some (h.ring p) hpop
  have hqueue : s.queue p = i :: r.toList maxTasks := hlist
  have hqueue' : ∀ q, (Function.update s.rq p r q).toList maxTasks =
      if q = p then r.toList maxTasks else s.queue q := by
    intro q
    by_cases hq : q = p
    · subst hq
      simp
    · simp [hq, queue]
  have hi := (h.queued i p).mp (by rw [hqueue]; exact List.mem_cons_self)
  have hnodup := h.nodup p
  rw [hqueue, List.nodup_cons] at hnodup
  have hcount := h.lt_count (by rw [hi.1]; decide)
  refine ⟨?_, h.lost, h.count, ?_, ?_, ?_, ?_, ?_⟩
  · intro q
    by_cases hq : q = p
    · subst hq
      simpa using hok
    · simpa [hq] using h.ring q
  · intro j hj
    have hne : j ≠ i := by
      rintro rfl
      exact absurd hj (Nat.not_le_of_lt hcount)
    simp only [Function.update_of_ne hne]
    exact h.fresh j hj
  · intro q
    simp only [queue, hqueue']
    split_ifs
    · exact hnodup.2
    · exact h.nodup q
  · intro j q
    simp only [queue, hqueue']
    by_cases hj : j = i
    · subst hj
      simp only [Function.update_self, reduceCtorEq, false_and, iff_false]
      split_ifs with hq
      · exact hnodup.1
      · intro hmem
        exact hq (((h.queued j q).mp hmem).2.symm.trans hi.2)
    · simp only [Function.update_of_ne hj]
      rw [← h.queued j q]
      split_ifs with hq
      · subst hq
        simp [hqueue, hj]
      · rfl
  · intro j
    by_cases hj : j = i
    · subst hj
      simp
    · have hnone := h.running j
      simp only [reduceCtorEq, iff_false] at hnone
      simp only [Function.update_of_ne hj, hnone, Option.some.injEq, false_iff]
      exact fun heq => hj heq.symm
  · intro j hj
    by_cases hji : j = i
    · subst hji
      simp only [Function.update_self]
      obtain ⟨hprio, hpos, hle, hlt⟩ := h.live j (.inl hi.1)
      exact ⟨hprio, hpos, hle, hlt⟩
    · simp only [Function.update_of_ne hji] at hj ⊢
      exact h.live j hj

/-! ## Submissions -/

/-- The slot found is in use afterwards, and its last task, if it had one, has ended. -/
lemma Inv.findFreeSlot (h : s.Inv run) :
    s.findFreeSlot.2.Inv run ∧ ∀ i, s.findFreeSlot.1 = some i → i < s.findFreeSlot.2.taskCount ∧
      ((s.taskPool i).state = .free ∨ (s.taskPool i).state = .done) := by
  unfold Scheduler.findFreeSlot
  split
  · rename_i i hi
    refine ⟨h, ?_⟩
    rintro j ⟨⟩
    refine ⟨List.mem_range.mp (List.mem_of_find?_eq_some hi), ?_⟩
    simpa [reusable] using List.find?_some hi
  · split
    · exact ⟨h, by simp⟩
    · rename_i hlt
      constructor
      · refine ⟨h.ring, h.lost, Nat.lt_of_not_le hlt, ?_, h.nodup, h.queued, h.running, h.live⟩
        intro j hj
        exact h.fresh j (Nat.le_of_succ_le hj)
      · rintro j ⟨⟩
        exact ⟨Nat.lt_succ_self _, .inl (h.fresh _ le_rfl)⟩

/-- Finding a slot changes nothing but the number of slots in use. -/
lemma findFreeSlot_same (s : Scheduler) :
    s.findFreeSlot.2 = { s with taskCount := s.findFreeSlot.2.taskCount } := by
  unfold findFreeSlot
  split
  · rfl
  · split <;> rfl

/-- What a submission does: nothing but to the number of slots in use, or a new task in a free slot,
with its frame, in its queue. -/
lemma submitTask_cases (h : s.Inv run) (t : Task) (f : Frame) :
    ((s.submitTask t f).1 = none ∧
      (s.submitTask t f).2 = { s with taskCount := (s.submitTask t f).2.taskCount } ∧
      (s.submitTask t f).2.Inv run) ∨
    ∃ i n, ({ s with taskCount := n } : Scheduler).Inv run ∧ i < n ∧
      ((s.taskPool i).state = .free ∨ (s.taskPool i).state = .done) ∧
      s.submitTask t f = (some i, rqPush { s with
        taskCount := n
        taskPool := Function.update s.taskPool i
          { t with rsp := (frameBuild s.mem (t.stack + taskStackSz) f).1 }
        mem := (frameBuild s.mem (t.stack + taskStackSz) f).2 } t.priority i) := by
  obtain ⟨hinv, hslot⟩ := h.findFreeSlot
  have hsame := findFreeSlot_same s
  unfold submitTask
  rcases hfind : s.findFreeSlot with ⟨_ | i, s₁⟩
  · rw [hfind] at hinv hsame
    exact .inl ⟨rfl, hsame, hinv⟩
  · rw [hfind] at hinv hsame hslot
    obtain ⟨hlt, hstate⟩ := hslot i rfl
    simp only at hinv hsame hlt ⊢
    by_cases hstack : t.stack = 0
    · simp only [if_pos hstack]
      exact .inl ⟨trivial, hsame, hinv⟩
    · simp only [if_neg hstack]
      refine .inr ⟨i, s₁.taskCount, ?_, hlt, hstate, ?_⟩
      · rw [← hsame]
        exact hinv
      · rw [hsame]

/-- A submission keeps the invariant. -/
lemma Inv.submitTask (h : s.Inv run) {t : Task} (f : Frame) (ht : t.state = .ready)
    (hlive : Live t) : (s.submitTask t f).2.Inv run := by
  rcases submitTask_cases h t f with ⟨-, -, hinv⟩ | ⟨i, n, hinv, hi, hstate, heq⟩
  · exact hinv
  · rw [heq]
    obtain ⟨hprio, hpos, hle, hlt⟩ := hlive
    have hpush := hinv.push { t with rsp := (frameBuild s.mem (t.stack + taskStackSz) f).1 }
      hi (by rcases hstate with hs | hs <;> simp [hs]) (by rcases hstate with hs | hs <;> simp [hs])
      ht ⟨hprio, hpos, hle, hlt⟩
    exact hpush.of_same rfl rfl rfl rfl

/-! ## The end of an interrupt -/

/-- `sched_irq_end` gets past its first check. -/
def SchedulingPoint (s : Scheduler) : Prop := s.schedulerActive = true ∧ s.wantSchedule = true

/-- The scheduler when `sched_irq_end` is about to pick a task: the stack pointer of the current
task is saved, and if it was running it is queued again. -/
def release (s : Scheduler) (curRsp : ℕ) : Scheduler :=
  let t := { s.task s.curTask with rsp := curRsp }
  let s := { s with wantSchedule := false }
  match s.curTask with
  | some i =>
    if t.state = .running then
      rqPush (s.setTask (some i) { t with timeslice := t.quantum, state := .ready }) t.priority i
    else s.setTask (some i) t
  | none => s.setTask none t

/-- The current task goes on: its stack pointer is saved and its time slice is one tick shorter. -/
def keep (s : Scheduler) (i curRsp : ℕ) : Scheduler :=
  { s with
    wantSchedule := false
    taskPool := Function.update s.taskPool i { s.taskPool i with
      rsp := curRsp
      timeslice := (s.taskPool i).timeslice - 1 } }

lemma u32sub_one {n : ℕ} (hpos : 1 ≤ n) (hlt : n < 2 ^ 32) : u32sub n 1 = n - 1 := by
  unfold u32sub u32
  omega

/-- The running task is the current one, unless that has just ended. -/
def Current (s : Scheduler) (run : Option ℕ) : Prop :=
  run = s.curTask ∨ run = none ∧ ∀ i, s.curTask = some i → (s.taskPool i).state = .done

lemma Current.of_idle (h : s.Current run) (hcur : s.curTask = none) : run = none := by
  rcases h with h | h
  · exact h.trans hcur
  · exact h.1

/-- If the current task is not running it has ended. -/
lemma Current.of_not_running (h : s.Current run) (hinv : s.Inv run) (hcur : s.curTask = some i)
    (hstate : (s.taskPool i).state ≠ .running) : run = none ∧ (s.taskPool i).state = .done := by
  rcases h with h | h
  · exact absurd ((hinv.running i).mpr (h.trans hcur)) hstate
  · exact ⟨h.1, h.2 i hcur⟩

/-- The ways through `sched_irq_end`. -/
lemma schedIrqEnd_cases (h : s.Inv run) (hrun : s.Current run) (curRsp : ℕ) :
    (¬ s.SchedulingPoint ∧ s.schedIrqEnd curRsp = (curRsp, s)) ∨
    (∃ i, s.SchedulingPoint ∧ run = some i ∧ s.curTask = some i ∧
      1 < (s.taskPool i).timeslice ∧ s.schedIrqEnd curRsp = (curRsp, s.keep i curRsp)) ∨
    (s.SchedulingPoint ∧ (∀ i, run = some i → (s.taskPool i).timeslice = 1) ∧
      s.schedIrqEnd curRsp = pickNext (s.release curRsp) curRsp) := by
  unfold schedIrqEnd
  by_cases hpoint : s.SchedulingPoint
  swap
  · refine .inl ⟨hpoint, if_pos ?_⟩
    unfold SchedulingPoint at hpoint
    cases hact : s.schedulerActive <;> cases hwant : s.wantSchedule <;> simp_all
  right
  rw [if_neg (by simp [hpoint.1, hpoint.2])]
  cases hcur : s.curTask with
  | none =>
    refine .inr ⟨hpoint, fun i hi => ?_, ?_⟩
    · rw [hrun.of_idle hcur] at hi
      cases hi
    · simp only [release, hcur, setTask, task]
  | some i =>
    by_cases hstate : (s.taskPool i).state = .running
    · have hi : run = some i := (h.running i).mp hstate
      obtain ⟨-, hpos, hle, hlt⟩ := h.live i (.inr hstate)
      have hsub := u32sub_one hpos (lt_of_le_of_lt hle hlt)
      by_cases hslice : 1 < (s.taskPool i).timeslice
      · refine .inl ⟨i, hpoint, hi, rfl, hslice, ?_⟩
        simp only [hcur, setTask, task, hstate, hsub, if_true, Nat.sub_pos_of_lt hslice, keep,
          Function.update_idem]
      · refine .inr ⟨hpoint, fun j hj => ?_, ?_⟩
        · rw [hi] at hj
          cases hj
          exact le_antisymm (Nat.le_of_not_lt hslice) hpos
        · have hzero : ¬ 0 < (s.taskPool i).timeslice - 1 :=
            fun hlt' => hslice (Nat.lt_of_sub_pos hlt')
          simp only [hcur, setTask, task, hstate, hsub, hzero, if_true, if_false, release,
            Function.update_idem]
    · refine .inr ⟨hpoint, fun j hj => ?_, ?_⟩
      · rw [(hrun.of_not_running h hcur hstate).1] at hj
        cases hj
      · simp only [hcur, setTask, task, hstate, if_false, release]

/-- No task is running while `sched_irq_end` picks one. -/
lemma Inv.release (h : s.Inv run) (hrun : s.Current run) (curRsp : ℕ) :
    (s.release curRsp).Inv none := by
  unfold Scheduler.release
  cases hcur : s.curTask with
  | none =>
    obtain rfl := hrun.of_idle hcur
    exact h.of_same rfl rfl rfl rfl
  | some i =>
    by_cases hstate : (s.taskPool i).state = .running
    · obtain rfl : run = some i := (h.running i).mp hstate
      obtain ⟨hprio, hpos, hle, hlt⟩ := h.live i (.inr hstate)
      simp only [task, setTask, hstate, if_true]
      have hstop := h.stop { s.taskPool i with state := .done } (by simp) (by simp)
      have hpush := hstop.push { s.taskPool i with
        rsp := curRsp
        timeslice := (s.taskPool i).quantum
        state := .ready } (h.lt_count (by rw [hstate]; decide)) (by simp) (by simp) rfl
        ⟨hprio, hpos.trans hle, le_rfl, hlt⟩
      rw [Function.update_idem] at hpush
      exact hpush.of_same rfl rfl rfl rfl
    · obtain ⟨rfl, hdone⟩ := hrun.of_not_running h hcur hstate
      simp only [task, setTask, hstate, if_false]
      have hset := h.set none { s.taskPool i with rsp := curRsp }
        (h.lt_count (by rw [hdone]; decide)) (by rw [hdone]; decide) (by simp [hdone])
        (by simp [hdone]) (by simp [hdone])
      exact hset.of_same rfl rfl rfl rfl

/-- The task that the loop of `sched_irq_end` picks: the oldest one of the first queue that is not
empty. -/
lemma popReady_cases (s : Scheduler) (n p : ℕ) :
    (popReady s n p = (none, s) ∧ ∀ q, p ≤ q → q < p + n → s.queue q = []) ∨
    ∃ q j r, q < p + n ∧ (∀ q', p ≤ q' → q' < q → s.queue q' = []) ∧
      (s.rq q).pop maxTasks = some (j, r) ∧
      popReady s n p = (some j, { s with rq := Function.update s.rq q r }) := by
  induction n generalizing p with
  | zero => exact .inl ⟨rfl, fun q hq hlt => absurd hlt (Nat.not_lt_of_le hq)⟩
  | succ n ih =>
    unfold popReady rqPop
    cases hpop : (s.rq p).pop maxTasks with
    | some x =>
      obtain ⟨j, r⟩ := x
      refine .inr ⟨p, j, r, by omega, ?_, hpop, rfl⟩
      intro q hq hlt
      exact absurd hlt (Nat.not_lt_of_le hq)
    | none =>
      have hempty : s.queue p = [] := RingBuf.pop_eq_none.mp hpop
      rcases ih (p + 1) with ⟨heq, hall⟩ | ⟨q, j, r, hlt, hbefore, hsome, heq⟩
      · refine .inl ⟨heq, fun q hq hlt => ?_⟩
        rcases Nat.eq_or_lt_of_le hq with rfl | hq
        · exact hempty
        · exact hall q hq (by omega)
      · refine .inr ⟨q, j, r, by omega, fun q' hq' hlt' => ?_, hsome, heq⟩
        rcases Nat.eq_or_lt_of_le hq' with rfl | hq'
        · exact hempty
        · exact hbefore q' hq' hlt'

section setTask

variable (s) (t : Option ℕ) (new : Task)

@[simp] lemma setTask_taskCount : (s.setTask t new).taskCount = s.taskCount := by cases t <;> rfl

@[simp] lemma setTask_curTask : (s.setTask t new).curTask = s.curTask := by cases t <;> rfl

@[simp] lemma setTask_rq : (s.setTask t new).rq = s.rq := by cases t <;> rfl

@[simp] lemma setTask_lost : (s.setTask t new).lost = s.lost := by cases t <;> rfl

@[simp] lemma setTask_wantSchedule : (s.setTask t new).wantSchedule = s.wantSchedule := by
  cases t <;> rfl

@[simp] lemma setTask_schedulerActive : (s.setTask t new).schedulerActive = s.schedulerActive := by
  cases t <;> rfl

@[simp] lemma setTask_loadedCr3 : (s.setTask t new).loadedCr3 = s.loadedCr3 := by cases t <;> rfl

@[simp] lemma setTask_rsp0 : (s.setTask t new).rsp0 = s.rsp0 := by cases t <;> rfl

lemma setTask_task (u : Option ℕ) : (s.setTask t new).task u = if u = t then new else s.task u := by
  cases t <;> cases u <;> simp [task, setTask, Function.update_apply]

end setTask

section switchTo

variable (s) (next : Option ℕ) (curRsp : ℕ)

/-- All of what switching to a task does. -/
lemma switchTo_eq : s.switchTo next curRsp =
    (if next = s.curTask then curRsp else (s.task next).rsp,
      { s.setTask next { s.task next with state := .running } with
        curTask := next
        rsp0 := if next ≠ s.curTask ∧ (s.task next).isUser then (s.task next).stack + taskStackSz
          else s.rsp0
        loadedCr3 := if next = s.curTask then s.loadedCr3 else wantCr3 (s.task next) }) := by
  unfold switchTo
  by_cases h : next = s.curTask
  · subst h
    simp only [if_true, ne_eq, not_true, false_and, if_false]
    cases hcur : s.curTask <;> simp [setTask, hcur]
  · simp only [h, if_false, ne_eq, not_false_iff, true_and]
    congr 1
    by_cases hcr3 : wantCr3 (s.task next) = s.loadedCr3
    · split_ifs <;> cases next <;> simp_all [setTask]
    · split_ifs <;> cases next <;> simp_all [setTask]

@[simp] lemma switchTo_curTask : (s.switchTo next curRsp).2.curTask = next := by
  rw [switchTo_eq]

@[simp] lemma switchTo_taskCount : (s.switchTo next curRsp).2.taskCount = s.taskCount := by
  simp [switchTo_eq]

@[simp] lemma switchTo_rq : (s.switchTo next curRsp).2.rq = s.rq := by simp [switchTo_eq]

@[simp] lemma switchTo_lost : (s.switchTo next curRsp).2.lost = s.lost := by simp [switchTo_eq]

/-- The task switched to is running. -/
lemma switchTo_task (t : Option ℕ) : (s.switchTo next curRsp).2.task t =
    if t = next then { s.task next with state := .running } else s.task t := by
  rw [switchTo_eq]
  refine Eq.trans ?_ (setTask_task s next { s.task next with state := .running } t)
  cases t <;> rfl

lemma switchTo_taskPool_none : (s.switchTo none curRsp).2.taskPool = s.taskPool := by
  funext i
  exact switchTo_task s none curRsp (some i)

lemma switchTo_taskPool_some (j : ℕ) : (s.switchTo (some j) curRsp).2.taskPool =
    Function.update s.taskPool j { s.taskPool j with state := .running } := by
  funext i
  refine (switchTo_task s (some j) curRsp (some i)).trans ?_
  by_cases hij : i = j
  · subst hij
    simp [task]
  · simp [task, hij]

end switchTo

/-- The task picked runs, and it is the current one. -/
lemma Inv.pickNext (h : s.Inv none) (curRsp : ℕ) :
    (s.pickNext curRsp).2.Inv (s.pickNext curRsp).2.curTask := by
  unfold Scheduler.pickNext
  rcases popReady_cases s prioLevels 0 with ⟨heq, -⟩ | ⟨q, j, r, -, -, hpop, heq⟩
  · rw [heq]
    simp only [switchTo_curTask]
    exact h.of_same (switchTo_taskPool_none s curRsp) (by simp) (by simp) (by simp)
  · rw [heq]
    simp only [switchTo_curTask]
    exact (h.dispatch hpop).of_same (switchTo_taskPool_some _ curRsp j) (by simp)
      (by simp) (by simp)

/-- `sched_irq_end` keeps the invariant.  If the current task has ended, it switches. -/
lemma Inv.schedIrqEnd (h : s.Inv run) (hrun : s.Current run)
    (hpoint : run = s.curTask ∨ s.SchedulingPoint) (curRsp : ℕ) :
    (s.schedIrqEnd curRsp).2.Inv (s.schedIrqEnd curRsp).2.curTask := by
  rcases schedIrqEnd_cases h hrun curRsp with ⟨hno, heq⟩ | ⟨i, -, hi, hcur, hslice,
    heq⟩ | ⟨-, -, heq⟩
  · rw [heq]
    obtain rfl := hpoint.resolve_right hno
    exact h
  · rw [heq]
    subst hi
    have hstate := (h.running i).mpr rfl
    obtain ⟨hprio, -, hle, hlt⟩ := h.live i (.inr hstate)
    have hset := h.set (some i) { s.taskPool i with
      rsp := curRsp
      timeslice := (s.taskPool i).timeslice - 1 } (h.lt_count (by rw [hstate]; decide))
      (by rw [hstate]; decide) (by simp [hstate])
      (fun j => by by_cases hj : j = i <;> simp [hj, hstate])
      (fun _ => ⟨hprio, by simp only; omega, by simp only; omega, hlt⟩)
    simp only [keep, hcur]
    exact hset.of_same rfl rfl rfl rfl
  · rw [heq]
    exact (h.release hrun curRsp).pickNext curRsp

end Scheduler

open Scheduler

/-! ## Runs -/

/-- A step of the scheduler, with what `kmalloc` returns in a submission and the stack pointer that
the interrupt stub passes to `sched_irq_end`.  A task that is killed or exits does so inside an
interrupt, or raises one, so `sched_irq_end` comes next. -/
inductive Step where
  | submitPrio (func arg priority stack : ℕ)
  | submitUser (entry arg stack : ℕ)
  | submitUserAs (entry arg cr3 userStackTop stack : ℕ)
  | tick
  | irqEnd (curRsp : ℕ)
  | wantReschedule
  | killCurrent (curRsp : ℕ)
  | exit (curRsp : ℕ)

/-- The scheduler after a step. -/
def exec (img : Image) (s : Scheduler) : Step → Scheduler
  | .submitPrio func arg priority stack => (schedSubmitPrio img s func arg priority stack).2
  | .submitUser entry arg stack => (schedSubmitUser img s entry arg stack).2
  | .submitUserAs entry arg cr3 top stack => (schedSubmitUserAs img s entry arg cr3 top stack).2
  | .tick => s.schedTick
  | .irqEnd curRsp => (s.schedIrqEnd curRsp).2
  | .wantReschedule => s.schedWantReschedule
  | .killCurrent curRsp => (s.schedKillCurrent.schedIrqEnd curRsp).2
  | .exit curRsp => (s.schedExit.schedIrqEnd curRsp).2

/-- The scheduler after a run. -/
def runSteps (img : Image) (s : Scheduler) (steps : List Step) : Scheduler :=
  steps.foldl (exec img) s

/-- The scheduler when preemption starts. -/
def started (mem : ℕ → ℕ) (rsp0 : ℕ) : Scheduler := (schedInit mem rsp0).schedRun

/-- What holds between the steps of a run. -/
structure Scheduler.Steady (s : Scheduler) : Prop where
  inv : s.Inv s.curTask
  active : s.schedulerActive = true

namespace Scheduler

variable {s : Scheduler} {img : Image}

lemma live_newTask {priority : ℕ} (hprio : priority < prioLevels) (isUser : Bool)
    (cr3 stack userStack func arg : ℕ) :
    Live (newTask priority isUser cr3 stack userStack func arg) := by
  have hquantum : 1 ≤ prioQuantum priority ∧ prioQuantum priority < 2 ^ 32 := by
    unfold prioLevels at hprio
    interval_cases priority <;> decide
  exact ⟨hprio, hquantum.1, le_rfl, hquantum.2⟩

@[simp] lemma submitTask_curTask (h : s.Inv s.curTask) (t : Task) (f : Frame) :
    (s.submitTask t f).2.curTask = s.curTask := by
  rcases submitTask_cases h t f with ⟨-, heq, -⟩ | ⟨i, n, -, -, -, heq⟩ <;> rw [heq]
  rfl

@[simp] lemma submitTask_schedulerActive (h : s.Inv s.curTask) (t : Task) (f : Frame) :
    (s.submitTask t f).2.schedulerActive = s.schedulerActive := by
  rcases submitTask_cases h t f with ⟨-, heq, -⟩ | ⟨i, n, -, -, -, heq⟩ <;> rw [heq]
  rfl

lemma Steady.submitTask (h : s.Steady) {t : Task} (f : Frame) (ht : t.state = .ready)
    (hlive : Live t) : (s.submitTask t f).2.Steady := by
  refine ⟨?_, ?_⟩
  · rw [submitTask_curTask h.inv]
    exact h.inv.submitTask f ht hlive
  · rw [submitTask_schedulerActive h.inv]
    exact h.active

lemma release_schedulerActive (s : Scheduler) (curRsp : ℕ) :
    (s.release curRsp).schedulerActive = s.schedulerActive := by
  unfold release
  cases s.curTask with
  | none => rfl
  | some i =>
    simp only
    split_ifs <;> rfl

lemma pickNext_schedulerActive (s : Scheduler) (curRsp : ℕ) :
    (s.pickNext curRsp).2.schedulerActive = s.schedulerActive := by
  unfold Scheduler.pickNext
  rcases popReady_cases s prioLevels 0 with ⟨heq, -⟩ | ⟨q, j, r, -, -, -, heq⟩
  · simp [heq, switchTo_eq]
  · simp [heq, switchTo_eq]

lemma schedKillCurrent_schedulerActive (s : Scheduler) :
    s.schedKillCurrent.schedulerActive = s.schedulerActive := by
  unfold schedKillCurrent
  cases s.curTask <;> rfl

lemma Steady.schedIrqEnd {run : Option ℕ} (h : s.Inv run) (hactive : s.schedulerActive = true)
    (hrun : s.Current run) (hpoint : run = s.curTask ∨ s.SchedulingPoint) (curRsp : ℕ) :
    (s.schedIrqEnd curRsp).2.Steady := by
  refine ⟨h.schedIrqEnd hrun hpoint curRsp, ?_⟩
  rcases schedIrqEnd_cases h hrun curRsp with ⟨-, heq⟩ | ⟨i, -, -, -, -, heq⟩ | ⟨-, -, heq⟩
  · rw [heq]
    exact hactive
  · rw [heq]
    exact hactive
  · rw [heq, pickNext_schedulerActive, release_schedulerActive]
    exact hactive

/-- The scheduler after `sched_kill_current`: no pool task is running, and the switch is due. -/
lemma Steady.schedKillCurrent (h : s.Steady) :
    s.schedKillCurrent.Inv none ∧ s.schedKillCurrent.Current none ∧
      (none = s.schedKillCurrent.curTask ∨ s.schedKillCurrent.SchedulingPoint) := by
  have hinv := h.inv
  unfold Scheduler.schedKillCurrent
  cases hcur : s.curTask with
  | none =>
    rw [hcur] at hinv
    exact ⟨hinv, .inl hcur.symm, .inl hcur.symm⟩
  | some i =>
    rw [hcur] at hinv
    refine ⟨?_, .inr ⟨rfl, ?_⟩, .inr ⟨h.active, rfl⟩⟩
    · exact (hinv.stop { s.taskPool i with state := .done } (by simp) (by simp)).of_same
        rfl rfl rfl rfl
    · intro j hj
      obtain rfl : i = j := Option.some.inj (hcur.symm.trans hj)
      simp [setTask]

/-- The scheduler after `sched_exit`, likewise. -/
lemma Steady.schedExit (h : s.Steady) :
    s.schedExit.Inv none ∧ s.schedExit.Current none ∧ s.schedExit.SchedulingPoint := by
  have hinv := h.inv
  unfold Scheduler.schedExit
  cases hcur : s.curTask with
  | none =>
    rw [hcur] at hinv
    exact ⟨hinv.of_same rfl rfl rfl rfl, .inl hcur.symm, h.active, rfl⟩
  | some i =>
    rw [hcur] at hinv
    refine ⟨?_, .inr ⟨rfl, ?_⟩, h.active, rfl⟩
    · exact (hinv.stop { s.taskPool i with state := .done } (by simp) (by simp)).of_same
        rfl rfl rfl rfl
    · intro j hj
      obtain rfl : i = j := Option.some.inj (hcur.symm.trans hj)
      simp [setTask, task]

lemma schedWantReschedule_idle (hcur : s.curTask = none) :
    s.schedWantReschedule = { s with wantSchedule := true } := by
  simp [schedWantReschedule, hcur]

lemma schedWantReschedule_pool {i : ℕ} (hcur : s.curTask = some i)
    (hstate : (s.taskPool i).state = .running) :
    s.schedWantReschedule = { s with
      wantSchedule := true
      taskPool := Function.update s.taskPool i { s.taskPool i with timeslice := 1 } } := by
  simp [schedWantReschedule, hcur, task, hstate, setTask]

lemma Steady.schedWantReschedule (h : s.Steady) : s.schedWantReschedule.Steady := by
  have hinv := h.inv
  cases hcur : s.curTask with
  | none =>
    rw [schedWantReschedule_idle hcur]
    exact ⟨hinv.of_same rfl rfl rfl rfl, h.active⟩
  | some i =>
    rw [hcur] at hinv
    have hstate := (hinv.running i).mpr rfl
    obtain ⟨hprio, hpos, hle, hlt⟩ := hinv.live i (.inr hstate)
    rw [schedWantReschedule_pool hcur hstate]
    refine ⟨?_, h.active⟩
    have hset := hinv.set (some i) { s.taskPool i with timeslice := 1 }
      (hinv.lt_count (by rw [hstate]; decide)) (by rw [hstate]; decide) (by simp [hstate])
      (fun j => by by_cases hj : j = i <;> simp [hj, hstate])
      (fun _ => ⟨hprio, le_rfl, hpos.trans hle, hlt⟩)
    simp only [hcur]
    exact hset.of_same rfl rfl rfl rfl

/-- One step of a run. -/
lemma Steady.exec (h : s.Steady) (a : Step) : (exec img s a).Steady := by
  cases a with
  | submitPrio func arg priority stack =>
    simp only [Cpu.exec, schedSubmitPrio]
    split_ifs with hbad
    · exact h
    · rw [not_or] at hbad
      exact h.submitTask _ rfl (live_newTask (Nat.lt_of_not_le hbad.2) _ _ _ _ _ _)
  | submitUser entry arg stack =>
    simp only [Cpu.exec, schedSubmitUser]
    split_ifs with hbad
    · exact h
    · have hsub := h.submitTask (taskInitStackUser img (newTask prioNormal true 0 stack
          (img.userStackPool + s.userStackNext * userStackSz) entry arg)) rfl
        (live_newTask (show prioNormal < prioLevels by decide) true 0 stack
          (img.userStackPool + s.userStackNext * userStackSz) entry arg)
      rcases hres : s.submitTask _ _ with ⟨_ | i, s'⟩
      · rw [hres] at hsub
        exact hsub
      · rw [hres] at hsub
        exact ⟨hsub.inv.of_same rfl rfl rfl rfl, hsub.active⟩
  | submitUserAs entry arg cr3 top stack =>
    simp only [Cpu.exec, schedSubmitUserAs]
    split_ifs
    · exact h
    · exact h.submitTask _ rfl (live_newTask (by decide) _ _ _ _ _ _)
  | tick =>
    simp only [Cpu.exec, schedTick, h.active, if_true]
    exact ⟨h.inv.of_same rfl rfl rfl rfl, rfl⟩
  | irqEnd curRsp => exact .schedIrqEnd h.inv h.active (.inl rfl) (.inl rfl) curRsp
  | wantReschedule => exact h.schedWantReschedule
  | killCurrent curRsp =>
    obtain ⟨hinv, hcur, hpoint⟩ := h.schedKillCurrent
    refine .schedIrqEnd hinv ?_ hcur hpoint curRsp
    rw [schedKillCurrent_schedulerActive]
    exact h.active
  | exit curRsp =>
    obtain ⟨hinv, hcur, hpoint⟩ := h.schedExit
    exact .schedIrqEnd hinv hpoint.1 hcur (.inr hpoint) curRsp

lemma started_steady (mem : ℕ → ℕ) (rsp0 : ℕ) : (started mem rsp0).Steady := by
  refine ⟨⟨?_, rfl, Nat.zero_le _, fun _ _ => rfl, ?_, ?_, ?_, ?_⟩, rfl⟩
  · intro p
    exact ⟨Nat.zero_lt_succ _, Nat.zero_le _, rfl⟩
  · intro p
    exact List.nodup_nil
  · intro i p
    simp [started, schedRun, schedInit, queue, RingBuf.toList, zeroTask]
  · intro i
    simp [started, schedRun, schedInit, zeroTask]
  · intro i hi
    simp [started, schedRun, schedInit, zeroTask] at hi

lemma steady_runSteps (h : s.Steady) (steps : List Step) : (runSteps img s steps).Steady := by
  induction steps generalizing s with
  | nil => exact h
  | cons a steps ih => exact ih (h.exec a)

/-- The run queues are as they should be. -/
structure QueuesOk (s : Scheduler) : Prop where
  /-- A ready task is once in the queue of its priority and in no other. -/
  ready : ∀ i, (s.taskPool i).state = .ready → (s.taskPool i).priority < prioLevels ∧
    (s.queue (s.taskPool i).priority).count i = 1 ∧
    ∀ p, p ≠ (s.taskPool i).priority → i ∉ s.queue p
  /-- A queued task is a task of the pool that is ready. -/
  queued : ∀ p, ∀ i ∈ s.queue p, i < maxTasks ∧ (s.taskPool i).state = .ready
  /-- A running task of the pool is the current one, with ticks left. -/
  running : ∀ i, (s.taskPool i).state = .running →
    s.curTask = some i ∧ 1 ≤ (s.taskPool i).timeslice
  /-- A task that is free or has ended is in no queue. -/
  ended : ∀ i, (s.taskPool i).state = .free ∨ (s.taskPool i).state = .done → ∀ p, i ∉ s.queue p
  /-- The size of a queue is the number of cells from its head to its tail. -/
  ring : ∀ p, (s.rq p).head < maxTasks ∧ (s.rq p).size ≤ maxTasks ∧
    (s.rq p).tail = ((s.rq p).head + (s.rq p).size) % maxTasks
  /-- No task has been dropped by `rq_push`. -/
  lost : s.lost = []

lemma Inv.queuesOk (h : s.Inv s.curTask) : s.QueuesOk where
  ready i hi := by
    have hmem := (h.queued i _).mpr ⟨hi, rfl⟩
    refine ⟨(h.live i (.inl hi)).priority_lt, List.count_eq_one_of_mem (h.nodup _) hmem, ?_⟩
    intro p hp hmem'
    exact hp ((h.queued i p).mp hmem').2.symm
  queued p i hi := by
    have hstate := ((h.queued i p).mp hi).1
    exact ⟨lt_of_lt_of_le (h.lt_count (by rw [hstate]; decide)) h.count, hstate⟩
  running i hi := ⟨(h.running i).mp hi, (h.live i (.inr hi)).timeslice_pos⟩
  ended i hi p hmem := by
    rw [((h.queued i p).mp hmem).1] at hi
    rcases hi with hi | hi <;> cases hi
  ring p := ⟨(h.ring p).head_lt, (h.ring p).size_le, (h.ring p).tail_eq⟩
  lost := h.lost

/-- The run queues hold exactly the ready tasks after every step of every run. -/
theorem queuesOk_runSteps (img : Image) (mem : ℕ → ℕ) (rsp0 : ℕ) (steps : List Step) :
    (runSteps img (started mem rsp0) steps).QueuesOk :=
  (steady_runSteps (started_steady mem rsp0) steps).inv.queuesOk

end Scheduler

end Cpu

end CoolFrost
