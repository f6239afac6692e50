import CoolFrost.Fs.Descriptors
import CoolFrost.Fs.Fat32.Coherence
import CoolFrost.Fs.ReadOnlyDrivers

/-!
# Unmounting, and whole runs

`vfs_umount` sweeps the tables of all tasks and closes the descriptors whose nodes lead to the root
that goes away.  With that, the invariant of open files and mounts holds in every state that any
sequence of calls can reach.
-/

namespace CoolFrost

open Program

namespace Vfs

/-- The parents of a descriptor's node lead to `r`. -/
def LeadsTo (k : Kernel) (n : Option VNode) (r : VNode) : Prop :=
  ∃ v, n = some v ∧ (forest k).Leads v r

/-- The walk along the parents decides whether they lead to `r`, and changes nothing. -/
lemma leadsTo_spec (k : Kernel) (r : VNode) (n : Option VNode) :
    wlp (leadsTo (some r) n) (fun b k' => k' = k ∧ (b = true ↔ LeadsTo k n r)) k := by
  refine wlp_iter (fun n' k' => k' = k ∧ (LeadsTo k n' r ↔ LeadsTo k n r)) ?_ ⟨rfl, Iff.rfl⟩
  rintro n' k' ⟨rfl, hiff⟩
  cases n' with
  | none =>
    refine (wlp_pure _ _ _).mpr ⟨rfl, ?_⟩
    rw [← hiff]
    simp [LeadsTo]
  | some v =>
    simp only [wlp_ite, wlp_bind, wlp_get, wlp_pure, Sum.elim_inr, Sum.elim_inl, Option.some.injEq,
      true_and, true_iff]
    split
    · rename_i hv
      exact hiff.mp ⟨v, rfl, hv ▸ Relation.ReflTransGen.refl⟩
    · rename_i hv
      rw [← hiff]
      have hstep := Forest.leads_iff_of_ne (f := forest k') hv
      simp only [LeadsTo, Option.some.injEq, exists_eq_left']
      exact hstep.symm

/-- From `k` to `k'` descriptors have been closed, all of them leading to `r`, and among those in
`T` every one that does. -/
structure Sweeps (r : VNode) (T : Option ℕ → ℕ → Prop) (k k' : Kernel) : Prop where
  rest : ∃ s, k' = { k with sched := s }
  ok : k.sched.Ok → k'.sched.Ok
  count : k'.sched.taskCount = k.sched.taskCount
  fd : ∀ t f, fdTable k' t f = fdTable k t f ∨
    (fdTable k' t f = { fdTable k t f with active := false } ∧ LeadsTo k (fdTable k t f).node r)
  swept : ∀ t f, T t f → (fdTable k' t f).active = true → ¬ LeadsTo k (fdTable k' t f).node r

variable {r : VNode} {T T' : Option ℕ → ℕ → Prop} {k k' k'' : Kernel}

lemma Sweeps.refl (h : ∀ t f, T t f → (fdTable k t f).active = true →
    ¬ LeadsTo k (fdTable k t f).node r) : Sweeps r T k k :=
  ⟨⟨k.sched, rfl⟩, id, rfl, fun _ _ => .inl rfl, h⟩

/-- The nodes are the same before and after a sweep. -/
lemma Sweeps.leadsTo (h : Sweeps r T k k') (n : Option VNode) (v : VNode) :
    LeadsTo k' n v ↔ LeadsTo k n v := by
  obtain ⟨s, rfl⟩ := h.rest
  rfl

lemma Sweeps.trans (h : Sweeps r T k k') (h' : Sweeps r T' k' k'') :
    Sweeps r (fun t f => T t f ∨ T' t f) k k'' where
  rest := by
    obtain ⟨s, rfl⟩ := h.rest
    obtain ⟨s', rfl⟩ := h'.rest
    exact ⟨s', rfl⟩
  ok hs := h'.ok (h.ok hs)
  count := h'.count.trans h.count
  fd t f := by
    rcases h'.fd t f with heq | ⟨heq, hl⟩
    · rw [heq]
      exact h.fd t f
    · rw [h.leadsTo] at hl
      rcases h.fd t f with heq' | ⟨heq', hl'⟩
      · rw [heq, heq']
        exact .inr ⟨rfl, heq' ▸ hl⟩
      · rw [heq, heq']
        exact .inr ⟨rfl, hl'⟩
  swept t f hT ha := by
    have hsw' : T' t f → ¬ LeadsTo k (fdTable k'' t f).node r := by
      intro hT'
      rw [← h.leadsTo]
      exact h'.swept t f hT' ha
    rcases hT with hT | hT
    · rcases h'.fd t f with heq | ⟨heq, -⟩
      · rw [heq] at ha ⊢
        exact h.swept t f hT ha
      · rw [heq] at ha
        simp at ha
    · exact hsw' hT

lemma Sweeps.mono (h : Sweeps r T k k') (hT : ∀ t f, T' t f → T t f) : Sweeps r T' k k' :=
  ⟨h.rest, h.ok, h.count, h.fd, fun t f ht => h.swept t f (hT t f ht)⟩

/-- One entry of a table: closed if it is active and leads to `r`. -/
lemma sweeps_entry {t : Option ℕ} (ht : InPool k t) (f : ℕ)
    (hl : LeadsTo k (fdTable k t f).node r) :
    Sweeps r (fun u g => u = t ∧ g = f) k
    (withFd k t f { fdTable k t f with active := false }) where
  rest := ⟨_, rfl⟩
  ok hs := withFd_ok hs ht f _
  count := by cases t <;> rfl
  fd u g := by
    by_cases hug : u = t ∧ g = f
    · obtain ⟨rfl, rfl⟩ := hug
      rw [fdTable_withFd_self]
      exact .inr ⟨rfl, hl⟩
    · rw [fdTable_withFd_ne _ _ _ _ hug]
      exact .inl rfl
  swept u g hug ha := by
    obtain ⟨rfl, rfl⟩ := hug
    rw [fdTable_withFd_self] at ha
    simp at ha

/-- `close_fds_under` sweeps one table. -/
lemma closeFdsUnder_spec {t : Option ℕ} (ht : InPool k t) (r : VNode) :
    wlp (closeFdsUnder t (some r))
    (fun _ k' => Sweeps r (fun u g => u = t ∧ g < maxFd) k k') k := by
  -- the loop has swept the entries below its counter
  refine wlp_iter (fun f k' => Sweeps r (fun u g => u = t ∧ g < f ∧ g < maxFd) k k') ?_
    (.refl fun u g h => absurd h.2.1 (Nat.not_lt_zero g))
  intro f k₁ h₁
  have ht₁ : InPool k₁ t := fun i hi => (ht i hi).trans_eq h₁.count.symm
  have hnext : ∀ {k₂ : Kernel}, Sweeps r (fun u g => u = t ∧ g = f) k₁ k₂ →
      Sweeps r (fun u g => u = t ∧ g < f + 1 ∧ g < maxFd) k k₂ := by
    intro k₂ h₂
    refine (h₁.trans h₂).mono fun u g hpost => ?_
    obtain ⟨hu, hg, hg'⟩ := hpost
    rcases Nat.lt_succ_iff_lt_or_eq.mp hg with hlt | heq
    · exact .inl ⟨hu, hlt, hg'⟩
    · exact .inr ⟨hu, heq⟩
  simp only [wlp_ite, wlp_bind, wlp_get, wlp_pure, Sum.elim_inl, Sum.elim_inr]
  split
  · split
    · refine wlp_mono (leadsTo_spec k₁ r _) fun b k₂ hpost => ?_
      obtain ⟨hk, hb⟩ := hpost
      subst hk
      cases b with
      | true =>
        simp only [if_true, wlp_setFd]
        exact hnext (sweeps_entry ht₁ f (hb.mp rfl))
      | false =>
        refine hnext (.refl fun u g hentry _ hl => ?_)
        obtain ⟨rfl, rfl⟩ := hentry
        exact absurd (hb.mpr hl) (by simp)
    · rename_i hact
      refine hnext (.refl fun u g hentry ha => ?_)
      obtain ⟨rfl, rfl⟩ := hentry
      exact absurd ha hact
  · rename_i hf
    refine h₁.mono fun u g hentry => ?_
    obtain ⟨hu, hg⟩ := hentry
    exact ⟨hu, hg.trans_le (not_lt.mp hf), hg⟩

/-- All tables, as `vfs_umount` sweeps them. -/
lemma sweepAll_spec (k : Kernel) (r : VNode) :
    wlp (do
      closeFdsUnder none (some r)
      iter (fun t => do
        if t < (← get).sched.taskCount then
          closeFdsUnder (some t) (some r)
          return .inl (t + 1)
        else return .inr ()) loopFuel 0)
      (fun _ k' => Sweeps r (fun t g => (∀ i, t = some i → i < k.sched.taskCount) ∧ g < maxFd) k k')
      k := by
  rw [wlp_bind]
  refine wlp_mono (closeFdsUnder_spec (by rintro i ⟨⟩) r) fun _ k₁ h₁ => ?_
  refine wlp_iter (fun n k' => Sweeps r (fun t g => (∀ i, t = some i → i < n) ∧ g < maxFd) k k')
    ?_ (h₁.mono fun t g hentry => ⟨?_, hentry.2⟩)
  · intro n k₂ h₂
    simp only [wlp_bind, wlp_get, wlp_ite, wlp_pure, Sum.elim_inl, Sum.elim_inr]
    split
    · rename_i hn
      have hpool : InPool k₂ (some n) := by
        rintro i ⟨⟩
        exact hn
      refine wlp_mono (closeFdsUnder_spec hpool r) fun _ k₃ h₃ => ?_
      refine (h₂.trans h₃).mono fun t g hpost => ?_
      obtain ⟨ht, hg⟩ := hpost
      by_cases htn : t = some n
      · exact .inr ⟨htn, hg⟩
      · refine .inl ⟨fun i hi => ?_, hg⟩
        have hin : i ≠ n := fun h => htn (h ▸ hi)
        have := ht i hi
        omega
    · rename_i hn
      rw [h₂.count] at hn
      exact h₂.mono fun t g hentry =>
        ⟨fun i hi => (hentry.1 i hi).trans_le (not_lt.mp hn), hentry.2⟩
  · cases t with
    | none => rfl
    | some i => exact absurd (hentry.1 i rfl) (Nat.not_lt_zero i)

/-- After an unmount: the mount is gone, no descriptor leads to its root any more, and every other
descriptor and mount is as before. -/
structure Unmounted (i : ℕ) (r : VNode) (k k' : Kernel) : Prop where
  mounts : k'.mounts = Function.update k.mounts i { k.mounts i with active := false, root := none }
  forest : forest k' = forest k
  gone : ∀ t f, (fdTable k' t f).active = true → ¬ LeadsTo k' (fdTable k' t f).node r
  others : ∀ t f, ¬ LeadsTo k (fdTable k t f).node r → fdTable k' t f = fdTable k t f

/-- `vfs_umount` on a path that is mounted. -/
theorem vfsUmount_spec (h : Inv k) {path : List UInt8} {i : ℕ} (hi : mountAt k path = some i)
    {r : VNode} (hr : (k.mounts i).root = some r) :
    wlp (vfsUmount path) (fun rc k' => rc = 0 ∧ Unmounted i r k k' ∧ Inv k') k := by
  obtain ⟨hlt, hact⟩ := mountAt_spec hi
  simp only [vfsUmount, wlp_bind, wlp_get, hi, hr]
  have hall := sweepAll_spec k r
  rw [wlp_bind] at hall
  refine wlp_mono hall fun _ k₁ hk₁ => wlp_mono hk₁ fun _ k₂ hsw => ?_
  simp only [setMount, wlp_modify, wlp_pure, true_and]
  obtain ⟨s, rfl⟩ := hsw.rest
  -- no descriptor that is still active leads to the root
  have hgone : ∀ t f, (s.fds t f).active = true → ¬ LeadsTo k (s.fds t f).node r := by
    intro t f ha
    by_cases hT : (∀ i, t = some i → i < k.sched.taskCount) ∧ f < maxFd
    · exact hsw.swept t f hT ha
    · exfalso
      have hold : (fdTable k t f).active = true := by
        rcases hsw.fd t f with heq | ⟨heq, -⟩
        · rw [← heq]
          exact ha
        · have hfalse : (s.fds t f).active = false := congrArg FileDescriptor.active heq
          rw [hfalse] at ha
          cases ha
      refine hT ⟨fun j hj => ?_, (h.fds t f hold).1⟩
      by_contra hge
      subst hj
      have hempty : fdTable k (some j) f = .closed :=
        congrFun (h.sched.dormant j (not_lt.mp hge)) f
      rw [hempty] at hold
      cases hold
  refine ⟨⟨rfl, rfl, hgone, fun t f hl => ?_⟩, ?_⟩
  · rcases hsw.fd t f with heq | ⟨-, hl'⟩
    · exact heq
    · exact absurd hl' hl
  · refine ⟨⟨h.closed.fat32, h.closed.ext2, h.closed.ntfs, h.closed.xfs⟩,
      hsw.ok h.sched, ?_, ?_, ?_⟩
    · intro j hj ha
      have hji : j ≠ i := by rintro rfl; simp at ha
      simp only [Function.update_of_ne hji] at ha ⊢
      exact h.roots j hj ha
    · intro j hj j' hj' ha ha'
      have hji : j ≠ i := by rintro rfl; simp at ha
      have hji' : j' ≠ i := by rintro rfl; simp at ha'
      simp only [Function.update_of_ne hji, Function.update_of_ne hji'] at ha ha' ⊢
      exact h.inj j hj j' hj' ha ha'
    · intro t f ha
      have heq : s.fds t f = fdTable k t f := by
        rcases hsw.fd t f with heq | ⟨heq, -⟩
        · exact heq
        · have hfalse : (s.fds t f).active = false := congrArg FileDescriptor.active heq
          have ha' : (s.fds t f).active = true := ha
          rw [hfalse] at ha'
          cases ha'
      have ha' : (s.fds t f).active = true := ha
      obtain ⟨hf, v, j, r', hv, hj, hact', hr', hu⟩ := h.fds t f (heq ▸ ha')
      have hji : j ≠ i := by
        rintro rfl
        rw [hr] at hr'
        cases hr'
        exact hgone t f ha' ⟨v, heq ▸ hv, hu.2⟩
      refine ⟨hf, v, j, r', ?_, hj, ?_, ?_, hu⟩
      · exact (congrArg FileDescriptor.node heq).trans hv
      · simpa [Function.update_of_ne hji] using hact'
      · simpa [Function.update_of_ne hji] using hr'

lemma vfsUmount_inv (h : Inv k) (path : List UInt8) :
    wlp (vfsUmount path) (fun _ k' => Inv k') k := by
  cases hi : mountAt k path with
  | none =>
    simp only [vfsUmount, wlp_bind, wlp_get, hi]
    exact (wlp_pure _ _ _).mpr h
  | some i =>
    obtain ⟨hlt, hact⟩ := mountAt_spec hi
    obtain ⟨r, hr, -⟩ := h.roots i hlt hact
    exact wlp_mono (vfsUmount_spec h hi hr) fun _ _ h => h.2.2

/-! ## Runs -/

/-- A call of a task, or an event of the scheduler. -/
inductive Call where
  | mount (drive : ℕ) (partition : Fin 4) (path : List UInt8)
  | mountGpt (drive lba : ℕ) (path : List UInt8)
  | mountNvmeGpt (drive lba : ℕ) (path : List UInt8)
  | mountAhciGpt (drive lba : ℕ) (path : List UInt8)
  | mountVblkGpt (drive lba : ℕ) (path : List UInt8)
  | umount (path : List UInt8)
  | defrag (path : List UInt8)
  | openFile (path : List UInt8) (flags : ℕ)
  | close (fd : ℤ)
  | read (fd : ℤ) (buf : Bytes) (size : ℕ)
  | seek (fd : ℤ) (offset : ℕ)
  | write (fd : ℤ) (buf : Bytes) (size : ℕ)
  | readdir (fd : ℤ) (index : ℕ)
  | stat (path : List UInt8)
  | unlink (path : List UInt8)
  | rename (oldPath newPath : List UInt8)
  | submitPrio (priority : ℕ) (stackOk : Bool)
  | submitUser (stackOk : Bool)
  | submitUserAs (cr3 : ℕ) (stackOk : Bool)
  | exit
  | killCurrent
  | startScheduler
  | tick
  | wantReschedule
  | irqEnd

/-- A step of the scheduler, inside the kernel. -/
def onSched (g : Sched → Sched) : Program Kernel PUnit :=
  modify fun k => { k with sched := g k.sched }

/-- Run one call, whatever it returns. -/
def Call.exec (F : RoFormats) : Call → Program Kernel PUnit
  | .mount drive partition path => do let _ ← vfsMount F drive partition path
  | .mountGpt drive lba path => do let _ ← vfsMountGpt F drive lba path
  | .mountNvmeGpt drive lba path => do let _ ← vfsMountNvmeGpt F drive lba path
  | .mountAhciGpt drive lba path => do let _ ← vfsMountAhciGpt F drive lba path
  | .mountVblkGpt drive lba path => do let _ ← vfsMountVblkGpt F drive lba path
  | .umount path => do let _ ← vfsUmount path
  | .defrag path => do let _ ← vfsDefrag path
  | .openFile path flags => do let _ ← vfsOpen F path flags
  | .close fd => do let _ ← vfsClose fd
  | .read fd buf size => do let _ ← vfsRead F fd buf size
  | .seek fd offset => do let _ ← vfsSeek fd offset
  | .write fd buf size => do let _ ← vfsWrite fd buf size
  | .readdir fd index => do let _ ← vfsReaddir F fd index
  | .stat path => do let _ ← vfsStat F path
  | .unlink path => do let _ ← vfsUnlink F path
  | .rename oldPath newPath => do let _ ← vfsRename F oldPath newPath
  | .submitPrio priority stackOk => onSched fun s => (s.schedSubmitPrio priority stackOk).2
  | .submitUser stackOk => onSched fun s => (s.schedSubmitUser stackOk).2
  | .submitUserAs cr3 stackOk => onSched fun s => (s.schedSubmitUserAs cr3 stackOk).2
  | .exit => onSched Sched.schedExit
  | .killCurrent => onSched Sched.schedKillCurrent
  | .startScheduler => onSched Sched.schedRun
  | .tick => onSched Sched.schedTick
  | .wantReschedule => onSched Sched.schedWantReschedule
  | .irqEnd => onSched Sched.schedIrqEnd

/-- Run the calls of a list one after the other. -/
def runCalls (F : RoFormats) : List Call → Program Kernel PUnit
  | [] => return PUnit.unit
  | call :: calls => do
    call.exec F
    runCalls F calls

lemma onSched_inv (h : Inv k) (g : Sched → Sched) (hg : k.sched.Steps (g k.sched)) :
    wlp (onSched g) (fun _ k' => Inv k') k :=
  (wlp_modify _ _ k).mpr (h.sched_steps hg)

/-- Every call keeps the invariant. -/
theorem exec_inv (F : RoFormats) (h : Inv k) (call : Call) :
    wlp (call.exec F) (fun _ k' => Inv k') k := by
  have hdrop : ∀ {α : Type} {m : Program Kernel α}, wlp m (fun _ k' => Inv k') k →
      wlp (do let _ ← m : Program Kernel PUnit) (fun _ k' => Inv k') k := by
    intro α m hm
    rw [wlp_bind]
    exact wlp_mono hm fun _ _ h => (wlp_pure _ _ _).mpr h
  cases call with
  | mount drive partition path => exact hdrop (vfsMount_inv F h drive partition path)
  | mountGpt drive lba path => exact hdrop (mountProbe_inv F h _ lba path)
  | mountNvmeGpt drive lba path => exact hdrop (mountProbe_inv F h _ lba path)
  | mountAhciGpt drive lba path => exact hdrop (mountProbe_inv F h _ lba path)
  | mountVblkGpt drive lba path => exact hdrop (mountProbe_inv F h _ lba path)
  | umount path => exact hdrop (vfsUmount_inv h path)
  | defrag path => exact hdrop (vfsDefrag_inv h path)
  | openFile path flags => exact hdrop (vfsOpen_inv F h path flags)
  | close fd => exact hdrop (vfsClose_inv h fd)
  | read fd buf size => exact hdrop (vfsRead_inv F h fd buf size)
  | seek fd offset => exact hdrop (vfsSeek_inv h fd offset)
  | write fd buf size => exact hdrop (vfsWrite_inv h fd buf size)
  | readdir fd index => exact hdrop (vfsReaddir_inv F h fd index)
  | stat path => exact hdrop (vfsStat_inv F h path)
  | unlink path => exact hdrop (vfsUnlink_inv F h path)
  | rename oldPath newPath => exact hdrop (vfsRename_inv F h oldPath newPath)
  | submitPrio priority stackOk =>
    exact onSched_inv h (fun s => (s.schedSubmitPrio priority stackOk).2)
      ((Sched.steps_submit _ stackOk).1 priority)
  | submitUser stackOk =>
    exact onSched_inv h (fun s => (s.schedSubmitUser stackOk).2) (Sched.steps_submit _ stackOk).2.1
  | submitUserAs cr3 stackOk =>
    exact onSched_inv h (fun s => (s.schedSubmitUserAs cr3 stackOk).2)
      ((Sched.steps_submit _ stackOk).2.2 cr3)
  | exit => exact onSched_inv h _ (Sched.steps_exit _).2
  | killCurrent => exact onSched_inv h _ (Sched.steps_exit _).1
  | startScheduler => exact onSched_inv h _ (Sched.steps_of_same rfl rfl rfl rfl rfl)
  | tick => exact onSched_inv h _ (Sched.steps_tick _)
  | wantReschedule => exact onSched_inv h _ (Sched.steps_wantReschedule _)
  | irqEnd => exact onSched_inv h _ (Sched.steps_irqEnd _)

lemma runCalls_inv (F : RoFormats) (h : Inv k) (calls : List Call) :
    wlp (runCalls F calls) (fun _ k' => Inv k') k := by
  induction calls generalizing k with
  | nil => exact (wlp_pure _ _ _).mpr h
  | cons call calls ih =>
    rw [runCalls, wlp_bind]
    exact wlp_mono (exec_inv F h call) fun _ _ h' => ih h'

/-- The kernel before the first call: nothing is mounted, no node is in use, and only the idle task
exists. -/
structure Boot (k : Kernel) : Prop where
  mounts : ∀ i, (k.mounts i).active = false
  sched : k.sched = Sched.schedInit
  fat32 : k.fat32.nodePoolUsed = 0
  ext2 : k.ext2.nodePoolUsed = 0
  ntfs : k.ntfs.nodePoolUsed = 0
  xfs : k.xfs.nodePoolUsed = 0

lemma Boot.inv (h : Boot k) : Inv k where
  closed := by
    refine ⟨fun i hi => ?_, fun i hi => ?_, fun i hi => ?_, fun i hi => ?_⟩
    · exact absurd hi (by simp [Fat32State.links, h.fat32])
    · exact absurd hi (by simp [Ext2State.links, h.ext2])
    · exact absurd hi (by simp [RoState.links, h.ntfs])
    · exact absurd hi (by simp [RoState.links, h.xfs])
  sched := by
    rw [h.sched]
    exact ⟨by simp [Sched.schedInit], by simp [Sched.schedInit], fun _ _ => rfl⟩
  roots i _ ha := by simp [h.mounts i] at ha
  inj i _ j _ ha := by simp [h.mounts i] at ha
  fds t f ha := by
    have hclosed : fdTable k t f = .closed := by
      rw [fdTable, h.sched]
      cases t <;> rfl
    rw [hclosed] at ha
    cases ha

/-- In every state that calls can reach, the parents of every open file's node lead to the root of
an active mount; and a successful `vfs_umount` leaves no descriptor that leads to the root it
removes, and every descriptor on another mount as it was. -/
theorem descriptors_on_active_mounts (F : RoFormats) {k₀ k : Kernel} (hboot : Boot k₀)
    {calls : List Call} (hrun : runCalls F calls k₀ = some (PUnit.unit, k)) :
    (∀ t f, (fdTable k t f).active = true → ∃ v i r, (fdTable k t f).node = some v ∧
      i < maxMounts ∧ (k.mounts i).active = true ∧ (k.mounts i).root = some r ∧
      (forest k).Leads v r ∧ nodeParent k r = none) ∧
    ∀ path k', vfsUmount path k = some (0, k') → ∃ i r, mountAt k path = some i ∧
      (k.mounts i).root = some r ∧
      (∀ t f v, (fdTable k' t f).active = true → (fdTable k' t f).node = some v →
        ¬ (forest k').Leads v r) ∧
      (∀ j, j ≠ i → k'.mounts j = k.mounts j) ∧
      ∀ t f v j r', (fdTable k t f).active = true → (fdTable k t f).node = some v →
        j < maxMounts → j ≠ i → (k.mounts j).active = true → (k.mounts j).root = some r' →
        (forest k).Leads v r' → fdTable k' t f = fdTable k t f := by
  have h : Inv k := runCalls_inv F hboot.inv calls _ _ hrun
  have hend : ∀ i r, i < maxMounts → (k.mounts i).active = true → (k.mounts i).root = some r →
      (forest k).parent r = none := by
    intro i r hi ha hr
    obtain ⟨r', hr', -, hnone⟩ := h.roots i hi ha
    rw [hr] at hr'
    cases hr'
    exact hnone
  constructor
  · intro t f ha
    obtain ⟨-, v, i, r, hv, hi, hact, hr, hu⟩ := h.fds t f ha
    exact ⟨v, i, r, hv, hi, hact, hr, hu.2, hend i r hi hact hr⟩
  · intro path k' hum
    cases hi : mountAt k path with
    | none =>
      have hfail : wlp (vfsUmount path) (fun rc _ => rc ≠ 0) k := by
        simp only [vfsUmount, wlp_bind, wlp_get, hi, wlp_pure]
        decide
      exact absurd rfl (hfail _ _ hum)
    | some i =>
      obtain ⟨hlt, hact⟩ := mountAt_spec hi
      obtain ⟨r, hr, -, hroot⟩ := h.roots i hlt hact
      obtain ⟨-, hun, -⟩ := vfsUmount_spec h hi hr _ _ hum
      refine ⟨i, r, rfl, hr, ?_, ?_, ?_⟩
      · exact fun t f v ha hv hl => hun.gone t f ha ⟨v, hv, hl⟩
      · intro j hj
        rw [hun.mounts, Function.update_of_ne hj]
      · intro t f v j r' ha hv hj hji hact' hr' hl
        refine hun.others t f ?_
        rintro ⟨v', hv', hl'⟩
        rw [hv] at hv'
        cases hv'
        -- the line of parents has one end, and distinct mounts have distinct roots
        have heq : r = r' := hl'.root_unique hl hroot (hend j r' hj hact' hr')
        exact hji (h.inj j hj i hlt hact' hact (by rw [hr, hr', heq]))

/-- The kernel before the first call, with the same contents on every drive. -/
def bootKernel (disk : Bytes) : Kernel where
  blk := ⟨fun _ => disk, fun _ => false, 0, []⟩
  fat32 := Fat32.bootState disk fun _ => false
  ext2 := ⟨⟨fun _ => disk, fun _ => false, 0, []⟩, 0, fun _ => ⟨[], .file, 0, 0, none,
    ⟨⟨0, 0⟩, 0, 0, 0, 0, 0, 0, 0, 0, 0, 0, 0, false⟩⟩, 0⟩
  ntfs := ⟨⟨fun _ => disk, fun _ => false, 0, []⟩, 0, fun _ => ⟨[], .file, 0, 0, none,
    ⟨⟨0, 0⟩, 0, Bytes.zeros⟩⟩, 0⟩
  xfs := ⟨⟨fun _ => disk, fun _ => false, 0, []⟩, 0, fun _ => ⟨[], .file, 0, 0, none,
    ⟨⟨0, 0⟩, 0, Bytes.zeros⟩⟩, 0⟩
  mounts := fun _ => ⟨[], none, false, .none⟩
  sched := Sched.schedInit

lemma boot_bootKernel (disk : Bytes) : Boot (bootKernel disk) :=
  ⟨fun _ => rfl, rfl, rfl, rfl, rfl, rfl⟩

/-- Mount a volume at `/a`, and create and open the file `/a/B`. -/
def mountAndOpen : List Call := [.mountVblkGpt 0 0 [47, 97], .openFile [47, 97, 47, 66] 4]

set_option maxRecDepth 100000 in
/-- The open file is on the mount, and unmounting closes it. -/
theorem descriptors_on_active_mounts_mountAndOpen : ∃ k k',
    runCalls .drivers mountAndOpen (bootKernel (Fat32.sampleDisk 2 12))
      = some (PUnit.unit, k) ∧
    (fdTable k none 0).active = true ∧ (∃ v i r, (fdTable k none 0).node = some v ∧
      i < maxMounts ∧ (k.mounts i).active = true ∧ (k.mounts i).root = some r ∧
      (forest k).Leads v r ∧ nodeParent k r = none) ∧
    vfsUmount [47, 97] k = some (0, k') ∧ (fdTable k' none 0).active = false ∧
    ∃ i r, mountAt k [47, 97] = some i ∧ (k.mounts i).root = some r ∧
      ∀ t f v, (fdTable k' t f).active = true → (fdTable k' t f).node = some v →
        ¬(forest k').Leads v r := by
  obtain ⟨k, hrun, hk⟩ := exists_of_any (m := runCalls .drivers mountAndOpen)
    (s := bootKernel (Fat32.sampleDisk 2 12)) (p := fun k => (fdTable k none 0).active &&
      (vfsUmount [47, 97] k).any fun r :
      ℤ × Kernel => decide (r.1 = 0 ∧ (fdTable r.2 none 0).active = false))
    (by decide +kernel)
  obtain ⟨hk, humount⟩ := Bool.and_eq_true_iff.mp hk
  obtain ⟨⟨rc, k'⟩, hum, hclosed⟩ := (Option.any_eq_true _ _).mp humount
  obtain ⟨rfl, hclosed⟩ := of_decide_eq_true hclosed
  obtain ⟨hopen, hclose⟩ := descriptors_on_active_mounts .drivers (boot_bootKernel _) hrun
  obtain ⟨i, r, hi, hr, hgone, -⟩ := hclose _ _ hum
  exact ⟨k, k', hrun, hk, hopen none 0 hk, hum, hclosed, i, r, hi, hr, hgone⟩

end Vfs

end CoolFrost
