import CoolFrost.Cpu.Dispatch
import CoolFrost.Kernel.Elf

/-!
# A process is submitted before its heap is set up

The end of `elf_exec` (`kernel/elf.c`): the task is submitted, with interrupts disabled only inside
`sched_submit_user_as`, and its address space and the bounds of its heap are stored afterwards, one
store after the other.  A `System` is the scheduler with, for each task, how far it is in this part
of `elf_exec`; `wanted` records the heap that the process of each slot should have.  Timer
interrupts can come between any two steps.
-/

namespace CoolFrost

namespace Elf

open Cpu Cpu.Scheduler

/-- The address space of a task and the bounds of its heap. -/
structure Heap where
  addrSpace : ℕ
  heapStart : ℕ
  heapBrk : ℕ
  heapEnd : ℕ

/-- The heap that is set for a task. -/
def heapOf (t : Cpu.Task) : Heap := ⟨t.addrSpace, t.heapStart, t.heapBrk, t.heapEnd⟩

/-- The answer of a system call that is refused. -/
def refused : ℕ := 2 ^ 64 - 1

/-- The end of the whole pages that a heap from `heapStart` to `brk` takes, in 64-bit arithmetic. -/
def pagesEnd (heapStart brk : ℕ) : ℕ :=
  (heapStart + (brk + (2 ^ 64 - heapStart) + 0xFFF) % 2 ^ 64 / 4096 * 4096) % 2 ^ 64

/-- `SYS_SBRK`: the answer, and the scheduler with the new break of the calling task.  `mapped` is
whether every page that is missing could be allocated and mapped. -/
def sysSbrk (s : Scheduler) (rdi : UInt64) (mapped : Bool) : ℕ × Scheduler :=
  let cur := s.task s.curTask
  if cur.addrSpace = 0 ∨ cur.heapEnd = 0 then (refused, s)
  else if rdi = 0 then (cur.heapBrk, s)
  else if 2 ^ 63 ≤ rdi.toNat then (refused, s)
  else
    let newBrk := (cur.heapBrk + rdi.toNat) % 2 ^ 64
    if newBrk < cur.heapBrk ∨ cur.heapEnd < newBrk then (refused, s)
    else
      let mappedEnd := pagesEnd cur.heapStart cur.heapBrk
      let neededEnd := pagesEnd cur.heapStart newBrk
      if mappedEnd < neededEnd ∧ !mapped then (refused, s)
      else (cur.heapBrk, s.setTask s.curTask { cur with heapBrk := newBrk })

/-- How far a task is in `elf_exec`, between the submission of the new task and its last store. -/
structure Window where
  slot : ℕ
  addrSpace : ℕ
  maxSegEnd : ℕ
  written : ℕ

/-- The scheduler, the tasks inside of `elf_exec`, and the heaps that processes should have. -/
structure System where
  sched : Scheduler
  windows : Option ℕ → Option Window
  wanted : ℕ → Option Heap

/-- The next store of `elf_exec` to the task it has submitted. -/
def storeNext (w : Window) (t : Cpu.Task) : Cpu.Task :=
  match w.written with
  | 0 => { t with addrSpace := w.addrSpace }
  | 1 => { t with heapStart := w.maxSegEnd }
  | 2 => { t with heapBrk := w.maxSegEnd }
  | _ => { t with heapEnd := argvVa }

/-- A step of the system: a step of `elf_exec`, an interrupt, or something else that a task does. -/
inductive ExecStep where
  /-- The call of `sched_submit_user_as`, for the address space at `addrSpace`. -/
  | submit (entry cr3 stack addrSpace maxSegEnd : ℕ)
  /-- The next store to the task. -/
  | store
  /-- A timer interrupt. -/
  | timer (curRsp : ℕ)
  /-- Another interrupt. -/
  | irq (curRsp : ℕ)
  /-- `SYS_SBRK` of the current task. -/
  | sbrk (rdi : UInt64) (mapped : Bool)
  /-- Another call of the scheduler by the current task. -/
  | other (a : Step)

/-- The state after a step.  A task that is inside of `elf_exec` does only what comes next there. -/
def execStep (img : Image) (y : System) : ExecStep → System
  | .submit entry cr3 stack addrSpace maxSegEnd =>
    if y.windows y.sched.curTask ≠ none ∨ addrSpace = 0 then y
    else
      match schedSubmitUserAs img y.sched entry argvVa cr3 stackTop stack with
      | (none, s) => { y with sched := s }
      | (some i, s) =>
        { sched := s
          windows := Function.update y.windows y.sched.curTask (some ⟨i, addrSpace, maxSegEnd, 0⟩)
          wanted := Function.update y.wanted i (some ⟨addrSpace, maxSegEnd, maxSegEnd, argvVa⟩) }
  | .store =>
    match y.windows y.sched.curTask with
    | none => y
    | some w =>
      { y with
        sched := y.sched.setTask (some w.slot) (storeNext w (y.sched.taskPool w.slot))
        windows := Function.update y.windows y.sched.curTask
          (if w.written < 3 then some { w with written := w.written + 1 } else none) }
  | .timer curRsp => { y with sched := (y.sched.schedTick.schedIrqEnd curRsp).2 }
  | .irq curRsp => { y with sched := (y.sched.schedIrqEnd curRsp).2 }
  | .sbrk rdi mapped =>
    if y.windows y.sched.curTask ≠ none then y
    else
      { y with
        sched := (sysSbrk y.sched rdi mapped).2
        wanted := match y.sched.curTask with
          | none => y.wanted
          | some i => Function.update y.wanted i ((y.wanted i).map fun hp =>
            { hp with heapBrk := ((sysSbrk y.sched rdi mapped).2.taskPool i).heapBrk }) }
  | .other a =>
    if y.windows y.sched.curTask ≠ none then y
    else
      { y with
        sched := exec img y.sched a
        wanted := match a.submitted img y.sched with
          | some (i, _) => Function.update y.wanted i none
          | none => y.wanted }

/-- The system when preemption starts. -/
def bootSystem (mem : ℕ → ℕ) (rsp0 : ℕ) : System := ⟨started mem rsp0, fun _ => none, fun _ => none⟩

/-- The system after a run. -/
def runExec (img : Image) (y : System) (steps : List ExecStep) : System :=
  steps.foldl (execStep img) y

/-- A process that runs has its heap, and `SYS_SBRK` does not refuse an increment that fits. -/
def Initialised (y : System) : Prop :=
  ∀ i hp, y.wanted i = some hp → (y.sched.taskPool i).state = .running →
    heapOf (y.sched.taskPool i) = hp ∧ hp.addrSpace ≠ 0 ∧ hp.heapEnd ≠ 0 ∧
    ∀ rdi : UInt64, rdi ≠ 0 → rdi.toNat < 2 ^ 63 → hp.heapBrk + rdi.toNat ≤ hp.heapEnd →
      (sysSbrk y.sched rdi true).1 = hp.heapBrk

/-- An interrupt that ends with `sched_irq_end` in the state `s` does not take the processor from
the current task. -/
def Stays (s : Scheduler) : Prop :=
  s.SchedulingPoint → ∃ i, s.curTask = some i ∧ 1 < (s.taskPool i).timeslice

/-- An interrupt that comes while the current task is inside of `elf_exec` does not switch. -/
def Undisturbed (y : System) : ExecStep → Prop
  | .timer _ => y.windows y.sched.curTask ≠ none → Stays y.sched.schedTick
  | .irq _ => y.windows y.sched.curTask ≠ none → Stays y.sched
  | _ => True

/-- Every interrupt of a run is of this kind. -/
def AllUndisturbed (img : Image) (y : System) : List ExecStep → Prop
  | [] => True
  | a :: steps => Undisturbed y a ∧ AllUndisturbed img (execStep img y a) steps

/-! ## What the scheduler leaves alone -/

/-- A task is ready or running. -/
def Alive (t : Cpu.Task) : Prop := t.state = .ready ∨ t.state = .running

/-- A task keeps its heap, and it is not brought back to life. -/
def Framed (t t' : Cpu.Task) : Prop := heapOf t' = heapOf t ∧ (Alive t' → Alive t)

lemma Framed.refl (t : Cpu.Task) : Framed t t := ⟨rfl, id⟩

lemma Framed.trans {t t' t'' : Cpu.Task} (h : Framed t t') (h' : Framed t' t'') : Framed t t'' :=
  ⟨h'.1.trans h.1, fun ha => h.2 (h'.2 ha)⟩

variable {s m : Scheduler} {run : Option ℕ} {img : Image}

lemma framed_release (m : Scheduler) (curRsp i : ℕ) :
    Framed (m.taskPool i) ((m.release curRsp).taskPool i) := by
  have htask : (m.release curRsp).taskPool i = _ := m.release_task curRsp (some i)
  rw [htask]
  split_ifs with hcur hrun
  · exact ⟨rfl, fun _ => .inr hrun.2⟩
  · exact ⟨rfl, id⟩
  · exact .refl _

/-- `sched_irq_end` changes no heap and revives no task. -/
lemma framed_irqEnd (h : m.Inv run) (hc : m.Current run) (curRsp i : ℕ) :
    Framed (m.taskPool i) ((m.schedIrqEnd curRsp).2.taskPool i) := by
  rcases schedIrqEnd_cases h hc curRsp with ⟨-, heq⟩ | ⟨j, -, -, -, -, heq⟩ | ⟨-, -, heq⟩
  · rw [heq]
    exact .refl _
  · rw [heq]
    by_cases hij : i = j
    · subst hij
      simp only [keep, Function.update_self]
      exact ⟨rfl, id⟩
    · simp only [keep, Function.update_of_ne hij]
      exact .refl _
  · rw [heq]
    have hrel := h.release hc curRsp
    obtain ⟨next, rq, hpick, hnext⟩ := pickNext_cases hrel curRsp
    rw [hpick]
    refine (framed_release m curRsp i).trans ?_
    have htask : (switchTo { m.release curRsp with rq := rq } next curRsp).2.taskPool i = _ :=
      switchTo_task _ next curRsp (some i)
    rw [htask]
    split_ifs with hi
    · subst hi
      obtain ⟨p, -, -, hqueue, -⟩ := hnext
      have hready := ((hrel.queued i p).mp (by rw [hqueue]; exact List.mem_cons_self)).1
      exact ⟨rfl, fun _ => .inl hready⟩
    · exact .refl _

/-- A submission changes the task of its slot only. -/
lemma submitTask_taskPool (h : s.Inv run) (t : Cpu.Task) (f : Frame) {i : ℕ}
    (hi : (s.submitTask t f).1 ≠ some i) : (s.submitTask t f).2.taskPool i = s.taskPool i := by
  rcases submitTask_cases h t f with ⟨-, heq, -⟩ | ⟨j, n, -, -, -, heq⟩
  · rw [heq]
  · rw [heq] at hi ⊢
    have hij : i ≠ j := fun h' => hi (by rw [h'])
    simp only [rqPush, Function.update_of_ne hij]

lemma framed_kill (hs : s.Steady) (i : ℕ) :
    Framed (s.taskPool i) (s.schedKillCurrent.taskPool i) := by
  unfold schedKillCurrent
  cases hcur : s.curTask with
  | none => exact .refl _
  | some j =>
    have hstate := (hs.inv.running j).mpr hcur
    by_cases hij : i = j
    · subst hij
      simp only [setTask, Function.update_self]
      exact ⟨rfl, fun _ => .inr hstate⟩
    · simp only [setTask, Function.update_of_ne hij]
      exact .refl _

lemma framed_exit (hs : s.Steady) (i : ℕ) : Framed (s.taskPool i) (s.schedExit.taskPool i) := by
  cases hcur : s.curTask with
  | none =>
    simp only [schedExit, hcur, setTask]
    exact .refl _
  | some j =>
    rw [History.schedExit_pool hcur]
    exact framed_kill hs i

/-- A step of the scheduler keeps the heap of every task it does not submit. -/
lemma framed_exec (hs : s.Steady) (a : Step) {i : ℕ}
    (hi : ∀ stack, a.submitted img s ≠ some (i, stack)) :
    Framed (s.taskPool i) ((exec img s a).taskPool i) := by
  cases a with
  | submitPrio func arg priority stack =>
    simp only [exec, Step.submitted, schedSubmitPrio] at hi ⊢
    split_ifs at hi ⊢
    · exact .refl _
    · rw [submitTask_taskPool hs.inv]
      · exact .refl _
      · intro heq
        rw [heq] at hi
        exact hi stack rfl
  | submitUser entry arg stack =>
    simp only [exec, Step.submitted, schedSubmitUser] at hi ⊢
    split_ifs at hi ⊢
    · exact .refl _
    · have hpool := @submitTask_taskPool s s.curTask hs.inv (newTask Sched.prioNormal true 0 stack
        (img.userStackPool + s.userStackNext * userStackSz) entry arg)
        (taskInitStackUser img (newTask Sched.prioNormal true 0 stack
          (img.userStackPool + s.userStackNext * userStackSz) entry arg)) i
      rcases hres : s.submitTask _ _ with ⟨_ | j, s'⟩
      · rw [hres] at hpool
        rw [hpool (by simp)]
        exact .refl _
      · rw [hres] at hpool hi
        have hne : (some j : Option ℕ) ≠ some i := by
          rintro heq
          cases heq
          exact hi stack rfl
        rw [hpool hne]
        exact .refl _
  | submitUserAs entry arg cr3 top stack =>
    simp only [exec, Step.submitted, schedSubmitUserAs] at hi ⊢
    split_ifs at hi ⊢
    · exact .refl _
    · rw [submitTask_taskPool hs.inv]
      · exact .refl _
      · intro heq
        rw [heq] at hi
        exact hi stack rfl
  | tick =>
    simp only [exec, schedTick]
    split_ifs <;> exact .refl _
  | irqEnd curRsp => exact framed_irqEnd hs.inv (.inl rfl) curRsp i
  | wantReschedule =>
    cases hcur : s.curTask with
    | none =>
      simp only [exec, schedWantReschedule_idle hcur]
      exact .refl _
    | some j =>
      have hstate := (hs.inv.running j).mpr hcur
      simp only [exec, schedWantReschedule_pool hcur hstate]
      by_cases hij : i = j
      · subst hij
        simp only [Function.update_self]
        exact ⟨rfl, id⟩
      · simp only [Function.update_of_ne hij]
        exact .refl _
  | killCurrent curRsp =>
    obtain ⟨hinv, hcur, -⟩ := hs.schedKillCurrent
    exact (framed_kill hs i).trans (framed_irqEnd hinv hcur curRsp i)
  | exit curRsp =>
    obtain ⟨hinv, hcur, -⟩ := hs.schedExit
    exact (framed_exit hs i).trans (framed_irqEnd hinv hcur curRsp i)

/-- An interrupt that does not take the processor from the current task changes no other task. -/
lemma irqEnd_of_stays (h : s.Inv s.curTask) (hstay : Stays s) (curRsp : ℕ) :
    (s.schedIrqEnd curRsp).2.curTask = s.curTask ∧
      ∀ i, s.curTask ≠ some i → (s.schedIrqEnd curRsp).2.taskPool i = s.taskPool i := by
  rcases schedIrqEnd_cases h (.inl rfl) curRsp with ⟨-, heq⟩ | ⟨j, -, -, hj, -, heq⟩ |
    ⟨hpoint, hone, -⟩
  · rw [heq]
    exact ⟨rfl, fun _ _ => rfl⟩
  · rw [heq]
    refine ⟨rfl, fun i hi => ?_⟩
    refine Function.update_of_ne ?_ _ _
    rintro rfl
    exact hi hj
  · obtain ⟨i, hi, hlt⟩ := hstay hpoint
    exact absurd (hone i hi) (Nat.ne_of_gt hlt)

/-! ## The invariant -/

/-- The heap of a task that `elf_exec` has not finished. -/
def partialHeap (w : Window) : Heap :=
  ⟨if 0 < w.written then w.addrSpace else 0, if 1 < w.written then w.maxSegEnd else 0,
    if 2 < w.written then w.maxSegEnd else 0, 0⟩

/-- Only the current task is inside of `elf_exec`, and the task it sets up is not running yet; all
other processes have their heaps. -/
structure Ok (y : System) : Prop where
  steady : y.sched.Steady
  window : ∀ t w, y.windows t = some w → t = y.sched.curTask ∧ w.written ≤ 3 ∧
    (y.sched.taskPool w.slot).state = .ready ∧
    y.wanted w.slot = some ⟨w.addrSpace, w.maxSegEnd, w.maxSegEnd, argvVa⟩ ∧
    heapOf (y.sched.taskPool w.slot) = partialHeap w
  set : ∀ i hp, y.wanted i = some hp → Alive (y.sched.taskPool i) →
    (∀ t w, y.windows t = some w → w.slot ≠ i) → heapOf (y.sched.taskPool i) = hp
  sane : ∀ i hp, y.wanted i = some hp → hp.addrSpace ≠ 0 ∧ hp.heapEnd = argvVa

variable {y : System}

lemma Ok.no_window (h : Ok y) (hcur : y.windows y.sched.curTask = none) (t : Option ℕ) :
    y.windows t = none := by
  cases ht : y.windows t with
  | none => rfl
  | some w =>
    have heq := (h.window t w ht).1
    rw [← heq, ht] at hcur
    cases hcur

/-- A step of the scheduler while no task is inside of `elf_exec`. -/
lemma Ok.framed (h : Ok y) (hnone : ∀ t, y.windows t = none) {s' : Scheduler}
    {wanted' : ℕ → Option Heap} (hs' : s'.Steady)
    (hframe : ∀ i hp, wanted' i = some hp →
      y.wanted i = some hp ∧ Framed (y.sched.taskPool i) (s'.taskPool i)) :
    Ok { y with sched := s', wanted := wanted' } where
  steady := hs'
  window t w ht := by
    rw [hnone t] at ht
    cases ht
  set i hp hi halive _ := by
    obtain ⟨hold, hfr⟩ := hframe i hp hi
    refine hfr.1.trans (h.set i hp hold (hfr.2 halive) fun t w ht => ?_)
    rw [hnone t] at ht
    cases ht
  sane i hp hi := h.sane i hp (hframe i hp hi).1

/-- An interrupt. -/
lemma Ok.interrupt (h : Ok y) {m : Scheduler} (hm : m.Steady)
    (hpool : m.taskPool = y.sched.taskPool)
    (hcur : m.curTask = y.sched.curTask) (hstay : y.windows y.sched.curTask ≠ none → Stays m)
    (curRsp : ℕ) : Ok { y with sched := (m.schedIrqEnd curRsp).2 } := by
  have hs' : (m.schedIrqEnd curRsp).2.Steady :=
    .schedIrqEnd hm.inv hm.active (.inl rfl) (.inl rfl) curRsp
  have hfr : ∀ i, Framed (y.sched.taskPool i) ((m.schedIrqEnd curRsp).2.taskPool i) := by
    intro i
    rw [← hpool]
    exact framed_irqEnd hm.inv (.inl rfl) curRsp i
  by_cases hnone : y.windows y.sched.curTask = none
  · exact h.framed (h.no_window hnone) hs' fun i hp hi => ⟨hi, hfr i⟩
  · obtain ⟨hcur', hother⟩ := irqEnd_of_stays hm.inv (hstay hnone) curRsp
    refine ⟨hs', ?_, ?_, h.sane⟩
    · intro t w ht
      obtain ⟨rfl, hw, hready, hwant, hheap⟩ := h.window t w ht
      have hne : m.curTask ≠ some w.slot := by
        intro heq
        have hrun := (h.steady.inv.running w.slot).mpr (hcur.symm.trans heq)
        rw [hready] at hrun
        cases hrun
      have hsame : (m.schedIrqEnd curRsp).2.taskPool w.slot = y.sched.taskPool w.slot := by
        rw [hother w.slot hne, hpool]
      refine ⟨(hcur'.trans hcur).symm, hw, ?_, hwant, ?_⟩
      · simp only [hsame]
        exact hready
      · simp only [hsame]
        exact hheap
    · intro i hp hi halive hslot
      exact (hfr i).1.trans (h.set i hp hi ((hfr i).2 halive) hslot)

/-- The task that `elf_exec` submits is ready and has no heap yet. -/
lemma submitUserAs_cases (img : Image) (hs : s.Steady) (entry arg cr3 top stack : ℕ) :
    (schedSubmitUserAs img s entry arg cr3 top stack).2.Steady ∧
    (schedSubmitUserAs img s entry arg cr3 top stack).2.curTask = s.curTask ∧
    (∀ i, (schedSubmitUserAs img s entry arg cr3 top stack).1 ≠ some i →
      (schedSubmitUserAs img s entry arg cr3 top stack).2.taskPool i = s.taskPool i) ∧
    ∀ i, (schedSubmitUserAs img s entry arg cr3 top stack).1 = some i →
      ((schedSubmitUserAs img s entry arg cr3 top stack).2.taskPool i).state = .ready ∧
      heapOf ((schedSubmitUserAs img s entry arg cr3 top stack).2.taskPool i) = ⟨0, 0, 0, 0⟩ := by
  refine ⟨hs.exec (.submitUserAs entry arg cr3 top stack), ?_⟩
  unfold schedSubmitUserAs
  split_ifs
  · exact ⟨rfl, fun _ _ => rfl, fun i hi => by cases hi⟩
  · dsimp only
    refine ⟨submitTask_curTask hs.inv _ _, fun i hi => submitTask_taskPool hs.inv _ _ hi, ?_⟩
    intro i hi
    rcases submitTask_cases hs.inv (newTask Sched.prioNormal true cr3 stack 0 entry arg)
      (taskInitStackUserAs img (newTask Sched.prioNormal true cr3 stack 0 entry arg) top) with
      ⟨hnone, -, -⟩ | ⟨j, n, -, -, -, heq⟩
    · rw [hnone] at hi
      cases hi
    · rw [heq] at hi ⊢
      cases hi
      simp only [rqPush, Function.update_self]
      exact ⟨rfl, rfl⟩

lemma Ok.submit (h : Ok y) (entry cr3 stack addrSpace maxSegEnd : ℕ) :
    Ok (execStep img y (.submit entry cr3 stack addrSpace maxSegEnd)) := by
  unfold execStep
  dsimp only
  by_cases hbad : y.windows y.sched.curTask ≠ none ∨ addrSpace = 0
  · rw [if_pos hbad]
    exact h
  rw [if_neg hbad]
  rw [not_or, not_not] at hbad
  have hnone := h.no_window hbad.1
  obtain ⟨hs', hcur, hother, hslot⟩ :=
    submitUserAs_cases img h.steady entry argvVa cr3 stackTop stack
  rcases hres : schedSubmitUserAs img y.sched entry argvVa cr3 stackTop stack with ⟨_ | i, s'⟩
  · rw [hres] at hs' hother
    refine h.framed hnone hs' fun i hp hi => ⟨hi, ?_⟩
    rw [hother i (by simp)]
    exact .refl _
  · rw [hres] at hs' hcur hother hslot
    obtain ⟨hready, hheap⟩ := hslot i rfl
    refine ⟨hs', ?_, ?_, ?_⟩
    · intro t w ht
      by_cases htc : t = y.sched.curTask
      · subst htc
        simp only [Function.update_self] at ht
        cases ht
        refine ⟨hcur.symm, Nat.zero_le _, hready, Function.update_self _ _ _, ?_⟩
        exact hheap
      · simp only [Function.update_of_ne htc, hnone t] at ht
        cases ht
    · intro j hp hj halive hw
      have hji : j ≠ i := by
        rintro rfl
        exact hw y.sched.curTask _ (Function.update_self _ _ _) rfl
      have hsame := hother j (by simpa using hji.symm)
      simp only [Function.update_of_ne hji] at hj
      rw [hsame] at halive
      refine (congrArg heapOf hsame).trans (h.set j hp hj halive fun t w ht => ?_)
      rw [hnone t] at ht
      cases ht
    · intro j hp hj
      by_cases hji : j = i
      · subst hji
        simp only [Function.update_self] at hj
        cases hj
        exact ⟨hbad.2, rfl⟩
      · simp only [Function.update_of_ne hji] at hj
        exact h.sane j hp hj

/-- Each store fills in one more field. -/
lemma heapOf_storeNext {w : Window} {t : Cpu.Task} (hw : w.written ≤ 3)
    (h : heapOf t = partialHeap w) :
    heapOf (storeNext w t) = if w.written < 3 then partialHeap { w with written := w.written + 1 }
      else ⟨w.addrSpace, w.maxSegEnd, w.maxSegEnd, argvVa⟩ := by
  obtain ⟨slot, as, seg, n⟩ := w
  simp only [heapOf, partialHeap, Heap.mk.injEq] at h
  obtain ⟨h₁, h₂, h₃, h₄⟩ := h
  simp only at hw
  interval_cases n <;> simp_all [storeNext, heapOf, partialHeap]

lemma toTask_storeNext (w : Window) (t : Cpu.Task) : (storeNext w t).toTask = t.toTask := by
  unfold storeNext
  split <;> rfl

/-- Stores to the heap of a task are nothing to the scheduler. -/
lemma steady_of_toTask {s s' : Scheduler} (h : s.Steady)
    (hpool : ∀ i, (s'.taskPool i).toTask = (s.taskPool i).toTask)
    (hcount : s'.taskCount = s.taskCount)
    (hrq : s'.rq = s.rq) (hlost : s'.lost = s.lost) (hcur : s'.curTask = s.curTask)
    (hactive : s'.schedulerActive = s.schedulerActive) : s'.Steady := by
  refine ⟨?_, hactive.trans h.active⟩
  rw [hcur]
  exact h.inv.of_toTask hpool hcount hrq hlost

lemma Ok.store (h : Ok y) : Ok (execStep img y .store) := by
  unfold execStep
  dsimp only
  cases hwin : y.windows y.sched.curTask with
  | none => exact h
  | some w =>
    obtain ⟨-, hw, hready, hwant, hheap⟩ := h.window _ w hwin
    have hstored := heapOf_storeNext hw hheap
    have hstate : (storeNext w (y.sched.taskPool w.slot)).state = .ready := by
      rw [toTask_storeNext]
      exact hready
    have honly : ∀ t w', y.windows t = some w' → t = y.sched.curTask := fun t w' ht =>
      (h.window t w' ht).1
    dsimp only
    refine ⟨?_, ?_, ?_, h.sane⟩
    · refine steady_of_toTask h.steady (fun i => ?_) rfl rfl rfl rfl rfl
      by_cases hi : i = w.slot
      · subst hi
        simp only [setTask, Function.update_self]
        exact toTask_storeNext w _
      · simp only [setTask, Function.update_of_ne hi]
    · intro t w' ht
      by_cases htc : t = y.sched.curTask
      · subst htc
        simp only [Function.update_self] at ht
        split_ifs at ht with hlt
        cases ht
        rw [if_pos hlt] at hstored
        refine ⟨rfl, hlt, ?_, hwant, ?_⟩
        · simp only [setTask, Function.update_self]
          exact hstate
        · simp only [setTask, Function.update_self]
          exact hstored
      · simp only [Function.update_of_ne htc] at ht
        exact absurd (honly t w' ht) htc
    · intro i hp hi halive hslot
      by_cases his : i = w.slot
      · subst his
        have hdone : ¬ w.written < 3 := by
          intro hlt
          refine hslot y.sched.curTask { w with written := w.written + 1 } ?_ rfl
          simp only [Function.update_self, if_pos hlt]
        rw [if_neg hdone] at hstored
        simp only [setTask, Function.update_self]
        exact hstored.trans (Option.some.inj (hwant.symm.trans hi))
      · simp only [setTask, Function.update_of_ne his] at halive ⊢
        refine h.set i hp hi halive fun t w' ht heq => ?_
        have ht' := honly t w' ht
        subst ht'
        rw [hwin] at ht
        cases ht
        exact his heq.symm

/-- `SYS_SBRK` changes at most the break of the calling task. -/
lemma sysSbrk_eq (s : Scheduler) (rdi : UInt64) (mapped : Bool) : ∃ brk, (sysSbrk s rdi mapped).2 =
    s.setTask s.curTask { s.task s.curTask with heapBrk := brk } := by
  have hsame : ∀ t, s = s.setTask t { s.task t with heapBrk := (s.task t).heapBrk } := by
    rintro (_ | i)
    · rfl
    · simp only [setTask, task, Function.update_eq_self]
  unfold sysSbrk
  dsimp only
  split_ifs
  any_goals exact ⟨_, hsame s.curTask⟩
  exact ⟨_, rfl⟩

lemma Ok.sbrk (h : Ok y) (rdi : UInt64) (mapped : Bool) :
    Ok (execStep img y (.sbrk rdi mapped)) := by
  unfold execStep
  dsimp only
  by_cases hbad : y.windows y.sched.curTask ≠ none
  · rw [if_pos hbad]
    exact h
  rw [if_neg hbad]
  have hnone := h.no_window (not_not.mp hbad)
  obtain ⟨brk, heq⟩ := sysSbrk_eq y.sched rdi mapped
  rw [heq]
  cases hcur : y.sched.curTask with
  | none =>
    refine h.framed hnone ?_ fun i hp hi => ⟨hi, .refl _⟩
    exact steady_of_toTask h.steady (fun _ => rfl) rfl rfl rfl rfl rfl
  | some i =>
    simp only [setTask, task, Function.update_self]
    refine ⟨?_, ?_, ?_, ?_⟩
    · refine steady_of_toTask h.steady (fun j => ?_) rfl rfl rfl rfl rfl
      by_cases hji : j = i
      · subst hji
        simp only [Function.update_self]
      · simp only [Function.update_of_ne hji]
    · intro t w ht
      simp only [hnone t] at ht
      cases ht
    · intro j hp hj halive hslot
      by_cases hji : j = i
      · subst hji
        simp only [Function.update_self] at hj halive ⊢
        obtain ⟨hp', hp'eq, rfl⟩ := Option.map_eq_some_iff.mp hj
        rw [← h.set j hp' hp'eq halive hslot]
        rfl
      · simp only [Function.update_of_ne hji] at hj halive ⊢
        exact h.set j hp hj halive hslot
    · intro j hp hj
      by_cases hji : j = i
      · subst hji
        simp only [Function.update_self] at hj
        obtain ⟨hp', hp'eq, rfl⟩ := Option.map_eq_some_iff.mp hj
        exact h.sane j hp' hp'eq
      · simp only [Function.update_of_ne hji] at hj
        exact h.sane j hp hj

lemma Ok.other (h : Ok y) (a : Step) : Ok (execStep img y (.other a)) := by
  unfold execStep
  dsimp only
  by_cases hbad : y.windows y.sched.curTask ≠ none
  · rw [if_pos hbad]
    exact h
  rw [if_neg hbad]
  have hnone := h.no_window (not_not.mp hbad)
  refine h.framed hnone (h.steady.exec a) fun i hp hi => ?_
  cases hsub : a.submitted img y.sched with
  | none =>
    rw [hsub] at hi
    exact ⟨hi, framed_exec h.steady a fun stack =>
      by rw [hsub]; exact Option.some_ne_none _ |>.symm⟩
  | some x =>
    obtain ⟨j, stack⟩ := x
    rw [hsub] at hi
    have hij : i ≠ j := by
      rintro rfl
      simp only [Function.update_self] at hi
      cases hi
    simp only [Function.update_of_ne hij] at hi
    refine ⟨hi, framed_exec h.steady a fun stack' heq => hij ?_⟩
    rw [hsub] at heq
    cases heq
    rfl

/-- Every step that is undisturbed keeps the invariant. -/
lemma Ok.execStep (h : Ok y) (a : ExecStep) (hu : Undisturbed y a) : Ok (execStep img y a) := by
  cases a with
  | submit entry cr3 stack addrSpace maxSegEnd => exact h.submit entry cr3 stack addrSpace maxSegEnd
  | store => exact h.store
  | timer curRsp =>
    have htick : y.sched.schedTick.Steady := @Steady.exec _ img h.steady .tick
    refine h.interrupt htick ?_ ?_ hu curRsp
    · unfold schedTick
      split_ifs <;> rfl
    · unfold schedTick
      split_ifs <;> rfl
  | irq curRsp => exact h.interrupt h.steady rfl rfl hu curRsp
  | sbrk rdi mapped => exact h.sbrk rdi mapped
  | other a => exact h.other a

/-- A run whose interrupts are all undisturbed keeps the invariant. -/
lemma Ok.runExec (h : Ok y) (steps : List ExecStep) (hu : AllUndisturbed img y steps) :
    Ok (runExec img y steps) := by
  induction steps generalizing y with
  | nil => exact h
  | cons a steps ih => exact ih (h.execStep a hu.1) hu.2

lemma ok_bootSystem (mem : ℕ → ℕ) (rsp0 : ℕ) : Ok (bootSystem mem rsp0) where
  steady := started_steady mem rsp0
  window t w ht := by cases ht
  set i hp hi := by cases hi
  sane i hp hi := by cases hi

/-- `SYS_SBRK` grants an increment that fits to a task that has its heap. -/
lemma sysSbrk_of_heap {rdi : UInt64} (has : (s.task s.curTask).addrSpace ≠ 0)
    (hend : (s.task s.curTask).heapEnd ≠ 0) (hrdi : rdi ≠ 0) (hpos : rdi.toNat < 2 ^ 63)
    (hsmall : (s.task s.curTask).heapEnd < 2 ^ 64)
    (hfit : (s.task s.curTask).heapBrk + rdi.toNat ≤ (s.task s.curTask).heapEnd) :
    (sysSbrk s rdi true).1 = (s.task s.curTask).heapBrk := by
  have hmod : ((s.task s.curTask).heapBrk + rdi.toNat) % 2 ^ 64 =
      (s.task s.curTask).heapBrk + rdi.toNat := Nat.mod_eq_of_lt (hfit.trans_lt hsmall)
  have hup : ¬ ((s.task s.curTask).heapBrk + rdi.toNat < (s.task s.curTask).heapBrk ∨
      (s.task s.curTask).heapEnd < (s.task s.curTask).heapBrk + rdi.toNat) := by
    rintro (hlt | hlt)
    · exact absurd hlt (Nat.not_lt.mpr (Nat.le_add_right _ _))
    · exact absurd hlt (Nat.not_lt.mpr hfit)
  unfold sysSbrk
  dsimp only
  rw [if_neg (not_or.mpr ⟨has, hend⟩), if_neg hrdi, if_neg (Nat.not_le.mpr hpos), hmod, if_neg hup,
    if_neg (by simp)]

lemma Ok.initialised (h : Ok y) : Initialised y := by
  intro i hp hi hrun
  have hcur := (h.steady.inv.running i).mp hrun
  have hheap := h.set i hp hi (.inr hrun) fun t w ht heq => by
    obtain ⟨-, -, hready, -⟩ := h.window t w ht
    rw [heq, hrun] at hready
    cases hready
  obtain ⟨has, hend⟩ := h.sane i hp hi
  have hpos : hp.heapEnd ≠ 0 := by
    rw [hend]
    decide
  have hsmall : hp.heapEnd < 2 ^ 64 := by
    rw [hend]
    decide
  refine ⟨hheap, has, hpos, fun rdi hrdi hlt hfit => ?_⟩
  have htask : y.sched.task y.sched.curTask = y.sched.taskPool i := by
    rw [hcur]
    rfl
  subst hheap
  rw [← htask] at has hpos hsmall hfit ⊢
  exact sysSbrk_of_heap has hpos hrdi hlt hsmall hfit

/-- **A process that runs has its heap**, in every run in which no interrupt takes the processor
from a task that is between the submission and the last store of `elf_exec`. -/
theorem initialised_runExec (img : Image) (mem : ℕ → ℕ) (rsp0 : ℕ) (steps : List ExecStep)
    (hu : AllUndisturbed img (bootSystem mem rsp0) steps) :
    Initialised (runExec img (bootSystem mem rsp0) steps) :=
  ((ok_bootSystem mem rsp0).runExec steps hu).initialised

/-- The idle task starts a process, is not interrupted before the last store, and then the process
runs. -/
def wholeExec : List ExecStep :=
  [.submit 0x40001000 0x9000 4096 0x5000 0x40002000, .store, .store, .store, .store, .timer 77]

theorem initialised_wholeExec :
    ((runExec ⟨1, 2, 3⟩ (bootSystem (fun _ => 0) 0) wholeExec).sched.taskPool 0).state = .running ∧
      Initialised (runExec ⟨1, 2, 3⟩ (bootSystem (fun _ => 0) 0) wholeExec) := by
  refine ⟨by decide +kernel, initialised_runExec _ _ _ _ ?_⟩
  refine ⟨trivial, trivial, trivial, trivial, trivial, fun hne => absurd ?_ hne, trivial⟩
  rfl

/-- A tick right after the submission runs the process without its heap. -/
theorem not_initialised_early_tick :
    ¬ ∀ steps, Initialised (runExec ⟨1, 2, 3⟩ (bootSystem (fun _ => 0) 0) steps) := by
  intro hall
  obtain ⟨hheap, -⟩ := hall [.submit 0x40001000 0x9000 4096 0x5000 0x40002000, .timer 77] 0
    ⟨0x5000, 0x40002000, 0x40002000, argvVa⟩ rfl (by decide +kernel)
  have hzero : ((runExec ⟨1, 2, 3⟩ (bootSystem (fun _ => 0) 0)
    [.submit 0x40001000 0x9000 4096 0x5000 0x40002000, .timer 77]).sched.taskPool
    0).addrSpace = 0 := by
    decide +kernel
  have heq : 0 = 0x5000 := hzero.symm.trans (congrArg Heap.addrSpace hheap)
  cases heq

end Elf

end CoolFrost
