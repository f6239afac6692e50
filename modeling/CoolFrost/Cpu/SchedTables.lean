import CoolFrost.Cpu.Sched

/-!
# The tables of open files across scheduling

The scheduler never changes an entry of a task's table of open files except by clearing the whole
table when a slot of the task pool is given to a new task, and the slots that were never used have
empty tables.
-/

namespace CoolFrost

namespace Sched

/-- The table of open files of a task. -/
def fds (s : Sched) (t : Option ℕ) : ℕ → FileDescriptor := (s.task t).fdTable

/-- The table of a task that has nothing open. -/
def emptyTable : ℕ → FileDescriptor := fun _ => .closed

/-- The current task and the queued ones are in slots in use, and the other slots have nothing
open. -/
structure Ok (s : Sched) : Prop where
  cur : ∀ i, s.curTask = some i → i < s.taskCount
  queue : ∀ p, ∀ i ∈ s.runQueue p, i < s.taskCount
  dormant : ∀ i, s.taskCount ≤ i → s.fds (some i) = emptyTable

/-- A step of the scheduler: it keeps `Ok`, and every table stays as it is or is cleared. -/
def Steps (s s' : Sched) : Prop :=
  (s.Ok → s'.Ok) ∧ ∀ t, s'.fds t = s.fds t ∨ s'.fds t = emptyTable

lemma Steps.refl (s : Sched) : Steps s s := ⟨id, fun _ => .inl rfl⟩

lemma Steps.trans {s s' s'' : Sched} (h : Steps s s') (h' : Steps s' s'') : Steps s s'' := by
  refine ⟨fun hs => h'.1 (h.1 hs), fun t => ?_⟩
  rcases h'.2 t with h'' | h''
  · rw [h'']
    exact h.2 t
  · exact .inr h''

/-- Changes to other fields of the task that a pointer refers to. -/
lemma steps_setTask (s : Sched) (t : Option ℕ) (new : Task) (h : new.fdTable = s.fds t) :
    Steps s (s.setTask t new) := by
  have hfds : ∀ u, (s.setTask t new).fds u = s.fds u := by
    intro u
    cases t with
    | none => cases u <;> simp [fds, task, setTask, h]
    | some i =>
      cases u with
      | none => rfl
      | some j =>
        by_cases hj : j = i
        · subst hj
          simp [fds, task, setTask, h]
        · simp [fds, task, setTask, Function.update_of_ne hj]
  refine ⟨fun hs => ⟨?_, ?_, ?_⟩, fun u => .inl (hfds u)⟩
  · intro i hi
    cases t <;> exact hs.cur i hi
  · intro p i hi
    cases t <;> exact hs.queue p i hi
  · intro i hi
    rw [hfds]
    cases t <;> exact hs.dormant i hi

/-- Changes to the fields that have nothing to do with tasks. -/
lemma steps_of_same {s s' : Sched} (hp : s'.taskPool = s.taskPool) (hi : s'.idleTask = s.idleTask)
    (hn : s'.taskCount = s.taskCount) (hc : s'.curTask = s.curTask)
    (hq : s'.runQueue = s.runQueue) : Steps s s' := by
  have hfds : s'.fds = s.fds := by
    funext t
    cases t <;> simp [fds, task, hp, hi]
  refine ⟨fun hs => ⟨?_, ?_, ?_⟩, fun t => .inl (congrFun hfds t)⟩
  · rw [hc, hn]
    exact hs.cur
  · rw [hq, hn]
    exact hs.queue
  · rw [hfds, hn]
    exact hs.dormant

lemma mem_rqPush {s : Sched} {p q i j : ℕ} (h : j ∈ (s.rqPush p i).runQueue q) :
    j ∈ s.runQueue q ∨ j = i := by
  unfold rqPush at h
  split at h
  · exact .inl h
  · by_cases hq : q = p
    · subst hq
      simpa using h
    · simp only [Function.update_of_ne hq] at h
      exact .inl h

lemma steps_rqPush (s : Sched) (p i : ℕ) (hi : s.Ok → i < s.taskCount) :
    Steps s (s.rqPush p i) := by
  have hcount : (s.rqPush p i).taskCount = s.taskCount := by unfold rqPush; split <;> rfl
  have hcur : (s.rqPush p i).curTask = s.curTask := by unfold rqPush; split <;> rfl
  have hfds : (s.rqPush p i).fds = s.fds := by
    funext t
    unfold rqPush
    split <;> cases t <;> rfl
  refine ⟨fun hs => ⟨?_, ?_, ?_⟩, fun t => .inl (congrFun hfds t)⟩
  · rw [hcount, hcur]
    exact hs.cur
  · intro q j hj
    rw [hcount]
    rcases mem_rqPush hj with hj | rfl
    · exact hs.queue q j hj
    · exact hi hs
  · rw [hcount, hfds]
    exact hs.dormant

/-- The slot found is in use afterwards, and finding it changes no table. -/
lemma findFreeSlot_spec (s : Sched) :
    Steps s s.findFreeSlot.2 ∧ ∀ i, s.findFreeSlot.1 = some i → i < s.findFreeSlot.2.taskCount := by
  unfold findFreeSlot
  split
  · rename_i i hi
    refine ⟨.refl s, ?_⟩
    rintro j ⟨⟩
    exact List.mem_range.mp (List.mem_of_find?_eq_some hi)
  · split
    · exact ⟨.refl s, by simp⟩
    · refine ⟨⟨fun hs => ⟨?_, ?_, ?_⟩, fun t => .inl (by cases t <;> rfl)⟩, ?_⟩
      · exact fun i hi => Nat.lt_succ_of_lt (hs.cur i hi)
      · exact fun p i hi => Nat.lt_succ_of_lt (hs.queue p i hi)
      · exact fun i hi => hs.dormant i (Nat.le_of_succ_le hi)
      · rintro j ⟨⟩
        exact Nat.lt_succ_self _

lemma steps_submitTask (s : Sched) (stackOk : Bool) (t : Task) (ht : t.fdTable = emptyTable) :
    Steps s (s.submitTask stackOk t).2 := by
  obtain ⟨hsteps, hslot⟩ := findFreeSlot_spec s
  unfold submitTask
  split
  · rename_i s' heq
    rw [heq] at hsteps
    exact hsteps
  · rename_i i s' heq
    rw [heq] at hsteps hslot
    split
    · refine hsteps.trans (.trans ?_ (steps_rqPush _ _ _ fun _ => hslot i rfl))
      have hfds : ∀ u, u ≠ some i →
          fds { s' with taskPool := Function.update s'.taskPool i t } u = s'.fds u := by
        intro u hu
        cases u with
        | none => rfl
        | some j =>
          have hj : j ≠ i := fun h => hu (by rw [h])
          simp [fds, task, Function.update_of_ne hj]
      have hnew : fds { s' with taskPool := Function.update s'.taskPool i t } (some i)
          = emptyTable := by
        simp [fds, task, ht]
      refine ⟨fun hs => ⟨hs.cur, hs.queue, fun j hj => ?_⟩, fun u => ?_⟩
      · have hji : j ≠ i := fun h => absurd hj (not_le.mpr (h ▸ hslot i rfl))
        rw [hfds _ (fun h => hji (Option.some.inj h))]
        exact hs.dormant j hj
      · by_cases hu : u = some i
        · rw [hu]
          exact .inr hnew
        · exact .inl (hfds u hu)
    · exact hsteps

/-- Submitting a task of any kind. -/
lemma steps_submit (s : Sched) (stackOk : Bool) :
    (∀ p, Steps s (s.schedSubmitPrio p stackOk).2) ∧ Steps s (s.schedSubmitUser stackOk).2 ∧
      ∀ cr3, Steps s (s.schedSubmitUserAs cr3 stackOk).2 := by
  have hsub : ∀ p u c, Steps s (s.submitTask stackOk (newTask p u c)).2 :=
    fun p u c => steps_submitTask s stackOk _ rfl
  refine ⟨fun p => ?_, ?_, fun cr3 => ?_⟩
  · unfold schedSubmitPrio
    split
    · exact .refl s
    · exact hsub _ _ _
  · unfold schedSubmitUser
    split
    · exact .refl s
    · have h := hsub prioNormal true 0
      cases hr : s.submitTask stackOk (newTask prioNormal true 0) with
      | mk r s' =>
        rw [hr] at h
        cases r with
        | none => exact h
        | some i => exact h.trans (steps_of_same rfl rfl rfl rfl rfl)
  · unfold schedSubmitUserAs
    split
    · exact .refl s
    · exact hsub _ _ _

/-- The end of a task, from a system call or by returning from its function. -/
lemma steps_exit (s : Sched) : Steps s s.schedKillCurrent ∧ Steps s s.schedExit := by
  constructor
  · unfold schedKillCurrent
    split
    · exact .refl s
    · rename_i i _
      exact (steps_setTask s (some i) { s.taskPool i with state := .done } rfl).trans
        (steps_of_same rfl rfl rfl rfl rfl)
  · exact (steps_setTask s s.curTask { s.task s.curTask with state := .done } rfl).trans
      (steps_of_same rfl rfl rfl rfl rfl)

lemma popReady_spec (s : Sched) (n p : ℕ) :
    (popReady s n p).2.taskPool = s.taskPool ∧ (popReady s n p).2.idleTask = s.idleTask ∧
      (popReady s n p).2.taskCount = s.taskCount ∧ (popReady s n p).2.curTask = s.curTask ∧
      (∀ q, ∀ i ∈ (popReady s n p).2.runQueue q, i ∈ s.runQueue q) ∧
      ∀ i, (popReady s n p).1 = some i → ∃ q, i ∈ s.runQueue q := by
  induction n generalizing p with
  | zero => simp [popReady]
  | succ n ih =>
    unfold popReady
    split
    · exact ih (p + 1)
    · rename_i i l hl
      refine ⟨rfl, rfl, rfl, rfl, fun q j hj => ?_, ?_⟩
      · by_cases hq : q = p
        · subst hq
          simp only [Function.update_self] at hj
          rw [hl]
          exact List.mem_cons_of_mem _ hj
        · simpa [Function.update_of_ne hq] using hj
      · rintro j ⟨⟩
        exact ⟨p, by simp [hl]⟩

lemma steps_pickNext (s : Sched) : Steps s s.pickNext := by
  obtain ⟨hp, hi, hn, hc, hq, hnext⟩ := popReady_spec s prioLevels 0
  unfold pickNext
  cases hpop : popReady s prioLevels 0 with
  | mk next s' =>
    simp only [hpop] at hp hi hn hc hq hnext
    refine .trans ?_ (steps_setTask _ _ _ rfl)
    have hfds : ∀ c r, fds { s' with curTask := c, loadedCr3 := r } = s.fds := by
      intro c r
      funext t
      cases t <;> simp [fds, task, hp, hi]
    have hqueue : s.Ok → ∀ p, ∀ i ∈ s'.runQueue p, i < s'.taskCount := by
      intro hs p i hi'
      rw [hn]
      exact hs.queue p i (hq p i hi')
    split
    · refine ⟨fun hs => ⟨?_, hqueue hs, ?_⟩, fun t => .inl (congrFun (hfds _ _) t)⟩
      · rw [hc, hn]
        exact hs.cur
      · rw [hn]
        exact fun i hi' => (congrFun (hfds _ _) _).trans (hs.dormant i hi')
    · refine ⟨fun hs => ⟨fun i hi' => ?_, hqueue hs, ?_⟩, fun t => .inl (congrFun (hfds _ _) t)⟩
      · obtain ⟨q, hmem⟩ := hnext i hi'
        exact (hs.queue q i hmem).trans_eq hn.symm
      · intro i hi'
        rw [hfds]
        exact hs.dormant i (hn ▸ hi')

/-- The end of an interrupt. -/
lemma steps_irqEnd (s : Sched) : Steps s s.schedIrqEnd := by
  unfold schedIrqEnd
  split
  · exact .refl s
  · have hwant : Steps s { s with wantSchedule := false } := steps_of_same rfl rfl rfl rfl rfl
    refine hwant.trans ?_
    generalize hs' : ({ s with wantSchedule := false } : Sched) = s'
    have hcur : s'.curTask = s.curTask := by rw [← hs']
    dsimp only
    split
    · rename_i i hi
      have htable : (s'.task s'.curTask).fdTable = s'.fds (some i) := by rw [hi]; rfl
      split
      · split
        · exact steps_setTask _ _ _ htable
        · refine .trans (steps_setTask s' (some i)
            { s'.task s'.curTask with timeslice := (s'.task s'.curTask).quantum, state := .ready }
            htable) (.trans ?_ (steps_pickNext _))
          exact steps_rqPush _ _ _ fun hs => hs.cur i hi
      · exact steps_pickNext _
    · exact steps_pickNext _

/-- A request to switch tasks. -/
lemma steps_wantReschedule (s : Sched) : Steps s s.schedWantReschedule := by
  unfold schedWantReschedule
  dsimp only
  split
  · exact (steps_setTask s s.curTask { s.task s.curTask with timeslice := 1 } rfl).trans
      (steps_of_same rfl rfl rfl rfl rfl)
  · exact steps_of_same rfl rfl rfl rfl rfl

lemma steps_tick (s : Sched) : Steps s s.schedTick := by
  unfold schedTick
  split
  · exact steps_of_same rfl rfl rfl rfl rfl
  · exact .refl s

end Sched

end CoolFrost
