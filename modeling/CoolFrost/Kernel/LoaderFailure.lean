import CoolFrost.Libc.HeapUse
import CoolFrost.Kernel.Loader
import CoolFrost.Lib.Halting

/-!
# A failed `elf_exec` leaves nothing behind

When `elf_exec` fails, the tasks and the run queues are as they were, the descriptors that were open
are open on the same nodes at the same offsets, and every slot of the kernel heap that it took is
free again.
-/

namespace CoolFrost

open Program

namespace Vfs

/-! ## A descriptor that is used for a while -/

/-- The tables of open files are those of `k`, except for the entry `f` of the current task, which
is not open in `k`. -/
structure Borrowed (k : Kernel) (f : ℕ) (active : Bool) (k' : Kernel) : Prop where
  free : (fdTable k k.sched.curTask f).active = false
  sched : ∃ d : FileDescriptor, d.active = active ∧
    k'.sched = (withFd k k.sched.curTask f d).sched

variable {k k' : Kernel} {f : ℕ} {active : Bool}

@[simp] lemma withFd_curTask (k : Kernel) (t : Option ℕ) (f : ℕ) (d : FileDescriptor) :
    (withFd k t f d).sched.curTask = k.sched.curTask := by
  cases t <;> rfl

/-- The last change of an entry is the one that counts. -/
lemma withFd_withFd {t : Option ℕ} {d d' : FileDescriptor} (h : k'.sched = (withFd k t f d).sched) :
    (withFd k' t f d').sched = (withFd k t f d').sched := by
  have hfds : fdTable k' t = Function.update (fdTable k t) f d := by
    rw [fdTable, h]
    cases t <;> simp [withFd, Sched.setTask, Sched.task]
  have htask : { k'.sched.task t with fdTable := fun _ => d' } =
      { k.sched.task t with fdTable := fun _ => d' } := by
    rw [h]
    cases t <;> simp [withFd, Sched.setTask, Sched.task]
  have hnew : { k'.sched.task t with fdTable := Function.update (fdTable k' t) f d' } =
      { k.sched.task t with fdTable := Function.update (fdTable k t) f d' } := by
    rw [hfds, Function.update_idem]
    exact congrArg (fun x : Task => { x with fdTable := Function.update (fdTable k t) f d' }) htask
  unfold withFd
  dsimp only
  rw [hnew, h]
  unfold withFd
  cases t <;> simp [Sched.setTask, Function.update_idem]

lemma Borrowed.curTask (h : Borrowed k f active k') : k'.sched.curTask = k.sched.curTask := by
  obtain ⟨d, -, hs⟩ := h.sched
  rw [hs, withFd_curTask]

/-- Changing the entry once more. -/
lemma Borrowed.setFd (h : Borrowed k f active k') {d : FileDescriptor} {b : Bool}
    (hd : d.active = b) :
    Borrowed k f b (withFd k' k'.sched.curTask f d) := by
  obtain ⟨d₀, -, hs⟩ := h.sched
  refine ⟨h.free, d, hd, ?_⟩
  rw [h.curTask]
  exact withFd_withFd hs

/-- What a driver does leaves the tables. -/
lemma Borrowed.extends {k'' : Kernel} (h : Borrowed k f active k') (he : Extends k' k'') :
    Borrowed k f active k'' := by
  obtain ⟨d, hd, hs⟩ := h.sched
  exact ⟨h.free, d, hd, he.sched.trans hs⟩

lemma Borrowed.active_eq (h : Borrowed k f active k') :
    (fdTable k' k'.sched.curTask f).active = active := by
  obtain ⟨d, hd, hs⟩ := h.sched
  rw [h.curTask, fdTable, hs]
  have hself := fdTable_withFd_self k k.sched.curTask f d
  unfold fdTable at hself
  rw [hself, hd]

variable (F : RoFormats)

lemma advance_borrowed (h : Borrowed k f true k') (n : ℤ) :
    wlp (advance f n) (fun _ k'' => Borrowed k f true k'') k' := by
  simp only [advance, wlp_bind, wlp_get, wlp_ite, wlp_setFd, wlp_pure, Int.toNat_natCast]
  split_ifs
  · exact h.setFd h.active_eq
  · exact h

lemma vfsRead_borrowed (h : Borrowed k f true k') (buf : Bytes) (size : ℕ) :
    wlp (vfsRead F f buf size) (fun _ k'' => Borrowed k f true k'') k' := by
  simp only [vfsRead, wlp_bind, wlp_get]
  split
  · exact (wlp_pure _ _ _).mpr h
  · split
    · exact (wlp_pure _ _ _).mpr h
    · simp only [wlp_bind, wlp_pure]
      refine wlp_mono (readNode_extends F _ _ _ _) fun r k'' he => ?_
      exact advance_borrowed (h.extends he) _

lemma vfsSeek_borrowed (h : Borrowed k f true k') (offset : ℕ) :
    wlp (vfsSeek f offset) (fun _ k'' => Borrowed k f true k'') k' := by
  simp only [vfsSeek, wlp_bind, wlp_get]
  split
  · exact (wlp_pure _ _ _).mpr h
  · rename_i d hd
    obtain ⟨-, hactive⟩ := openFd_spec hd
    simp only [wlp_bind, wlp_setFd, wlp_pure, Int.toNat_natCast]
    exact h.setFd hactive

lemma vfsClose_borrowed (h : Borrowed k f true k') (hf : f < maxFd) :
    wlp (vfsClose f) (fun _ k'' => Borrowed k f false k'') k' := by
  have hopen : openFd k' f = some (fdTable k' k'.sched.curTask f) := by
    rw [openFd, if_pos ⟨Int.natCast_nonneg f, Int.ofNat_lt.mpr hf⟩, Int.toNat_natCast]
    dsimp only
    rw [if_pos h.active_eq]
  simp only [vfsClose, wlp_bind, wlp_get]
  rw [hopen]
  simp only [wlp_bind, wlp_setFd, wlp_pure, Int.toNat_natCast]
  exact h.setFd rfl

/-- What `vfs_open` leaves: the scheduler as it was, or a new descriptor. -/
def Opened (k : Kernel) (fd : ℤ) (k' : Kernel) : Prop :=
  fd < 0 ∧ k'.sched = k.sched ∨ ∃ f : ℕ, fd = f ∧ f < maxFd ∧ Borrowed k f true k'

lemma openNode_opened (hs : k'.sched = k.sched) (node : VNode) (flags : ℕ) :
    wlp (openNode node flags) (Opened k) k' := by
  simp only [openNode, wlp_bind, wlp_get]
  split
  · exact (wlp_pure _ _ _).mpr (Or.inl ⟨by decide, hs⟩)
  · rename_i f hf
    simp only [wlp_bind, wlp_setFd, wlp_pure]
    have hfree := List.find?_some hf
    rw [Bool.not_eq_true'] at hfree
    rw [fdTable, hs] at hfree
    refine Or.inr ⟨f, rfl, List.mem_range.mp (List.mem_of_find?_eq_some hf), hfree,
      ⟨some node, if flags &&& oAppend ≠ 0 then nodeSize k' node else 0, flags, true⟩, rfl, ?_⟩
    unfold Vfs.withFd fdTable
    rw [hs]

/-- Opening a file that is not to be created. -/
lemma vfsOpen_opened (path : List UInt8) {flags : ℕ} (hflags : flags &&& oCreate = 0) :
    wlp (vfsOpen F path flags) (Opened k) k := by
  simp only [vfsOpen, wlp_bind, wlp_get]
  split
  · exact (wlp_pure _ _ _).mpr (Or.inl ⟨by decide, rfl⟩)
  · rw [wlp_bind]
    refine wlp_mono (walkPath_sched _ _ _) fun res k₁ hs => ?_
    cases res with
    | some node => exact openNode_opened hs node flags
    | none =>
      rw [if_pos hflags, wlp_pure]
      exact Or.inl ⟨by decide, hs⟩

/-- A descriptor that has been given back leaves the open ones as they were. -/
lemma Borrowed.fdTable_eq (h : Borrowed k f false k') (t : Option ℕ) (g : ℕ) :
    (fdTable k' t g).active = (fdTable k t g).active ∧
      ((fdTable k t g).active = true → fdTable k' t g = fdTable k t g) := by
  obtain ⟨d, hd, hs⟩ := h.sched
  have hsame : fdTable k' t g = fdTable (Vfs.withFd k k.sched.curTask f d) t g := by
    rw [fdTable, fdTable, hs]
  by_cases hentry : t = k.sched.curTask ∧ g = f
  · obtain ⟨rfl, rfl⟩ := hentry
    rw [hsame, fdTable_withFd_self, hd, h.free]
    exact ⟨rfl, fun hfalse => absurd hfalse Bool.false_ne_true⟩
  · rw [hsame, fdTable_withFd_ne k _ f d hentry]
    exact ⟨rfl, fun _ => rfl⟩

end Vfs

namespace Memory

open Vmm KHeapState

/-! ## What an address space has taken from the heap -/

variable {area : KHeapArea} {h₀ : KMem} {live : List KAlloc} {m m' : Memory} {p : ℕ}

/-- All that has been taken from the heap `h₀` is the address space at `p` and its pages. -/
def Holding (area : KHeapArea) (h₀ : KMem) (live : List KAlloc) (p : ℕ) (m : Memory) : Prop :=
  ∃ as mine, m.spaces p = some as ∧ KMem.Took area h₀ live m.heap mine ∧
    (mine.map KAlloc.p).Perm (as.ownedPages ++ [p])

/-- The contents of the pages do not matter. -/
lemma Holding.of_mem (h : Holding area h₀ live p m) (hspaces : m'.spaces = m.spaces)
    (hheap : m'.heap = m.heap) : Holding area h₀ live p m' := by
  obtain ⟨as, mine, hs, htook, hperm⟩ := h
  exact ⟨as, mine, by rw [hspaces, hs], by rw [hheap]; exact htook, hperm⟩

lemma page_fits : (4096 : UInt64).toNat + (KMem.extra 1).toNat < 2 ^ 64 := by decide

lemma Holding.alloc (h : Holding area h₀ live p m) :
    Holding area h₀ live p (vmmAllocPage area m p).2 := by
  obtain ⟨as, mine, hs, htook, hperm⟩ := h
  rw [vmmAllocPage, hs]
  dsimp only
  by_cases hfull : maxPages ≤ as.ownedPages.length
  · rw [if_pos hfull]
    exact ⟨as, mine, hs, htook, hperm⟩
  rw [if_neg hfull]
  by_cases hpa : (m.heap.kmalloc area 4096 1).1 = 0
  · rw [if_pos hpa]
    exact ⟨as, mine, hs, htook.kmalloc_failed hpa, hperm⟩
  · rw [if_neg hpa]
    obtain ⟨a, ha, htook'⟩ := htook.kmalloc page_fits hpa
    refine ⟨_, a :: mine, Function.update_self _ _ _, htook', ?_⟩
    rw [List.map_cons, ha, List.append_assoc]
    exact (hperm.cons _).trans List.perm_middle.symm

lemma Holding.ensure (h : Holding area h₀ live p m) (tbl idx : ℕ) :
    Holding area h₀ live p (ensureTable area m p tbl idx).2 := by
  rw [ensureTable]
  split_ifs
  · have halloc := h.alloc
    rcases hres : vmmAllocPage area m p with ⟨pa, m₁⟩
    rw [hres] at halloc
    dsimp only
    split_ifs
    · exact halloc
    · exact halloc.of_mem rfl rfl
  · exact h

lemma Holding.map (h : Holding area h₀ live p m) (va pa flags : ℕ) :
    Holding area h₀ live p (vmmMapPage area m p va pa flags).2 := by
  rw [vmmMapPage]
  rcases m.spaces p with _ | as
  · exact h
  dsimp only
  split_ifs
  · exact h
  · exact h
  have h₁ := h.ensure (pteAddr (m.mem.word as.pml4Phys 0)) (pdptIdx va)
  rcases hres : ensureTable area m p (pteAddr (m.mem.word as.pml4Phys 0))
    (pdptIdx va) with ⟨_ | _, m₁⟩
  · rw [hres] at h₁
    exact h₁
  rw [hres] at h₁
  have h₂ := h₁.ensure (pteAddr (m₁.mem.word (pteAddr (m.mem.word as.pml4Phys 0)) (pdptIdx va)))
    (pdIdx va)
  dsimp only at h₂ ⊢
  rcases hres₂ : ensureTable area m₁ p
    (pteAddr (m₁.mem.word (pteAddr (m.mem.word as.pml4Phys 0)) (pdptIdx va)))
    (pdIdx va) with ⟨_ | _, m₂⟩
  · rw [hres₂] at h₂
    exact h₂
  · rw [hres₂] at h₂
    exact h₂.of_mem rfl rfl

/-- Destroying the address space gives everything back. -/
lemma Holding.destroy (h : Holding area h₀ live p m) :
    KMem.Took area h₀ live (m.vmmDestroyAddressSpace p).heap [] := by
  obtain ⟨as, mine, hs, htook, hperm⟩ := h
  have hall := htook.kfree_all hperm
  rw [List.foldl_append, List.foldl_cons, List.foldl_nil] at hall
  rw [vmmDestroyAddressSpace, hs]
  exact hall

/-- A new address space, or nothing. -/
lemma create_holding (htook : KMem.Took area (m.heap.ensureInit area) live
    (m.heap.ensureInit area) []) :
    ((vmmCreateAddressSpace area m).1 = 0 →
      KMem.Took area (m.heap.ensureInit area) live (vmmCreateAddressSpace area m).2.heap []) ∧
    ((vmmCreateAddressSpace area m).1 ≠ 0 →
      Holding area (m.heap.ensureInit area) live (vmmCreateAddressSpace area m).1
        (vmmCreateAddressSpace area m).2) := by
  have hfits : addrSpaceSize.toNat + (KMem.extra 0).toNat < 2 ^ 64 := by decide
  have hfail : (m.heap.kmalloc area addrSpaceSize 0).1 = 0 →
      KMem.Took area (m.heap.ensureInit area) live (m.heap.kmalloc area addrSpaceSize 0).2 [] := by
    rw [← KMem.kmalloc_ensureInit]
    exact htook.kmalloc_failed
  have hok : (m.heap.kmalloc area addrSpaceSize 0).1 ≠ 0 →
      ∃ a : KAlloc, a.p = (m.heap.kmalloc area addrSpaceSize 0).1 ∧
        KMem.Took area (m.heap.ensureInit area) live
        (m.heap.kmalloc area addrSpaceSize 0).2 [a] := by
    rw [← KMem.kmalloc_ensureInit]
    exact htook.kmalloc hfits
  rw [vmmCreateAddressSpace]
  rcases hres : m.heap.kmalloc area addrSpaceSize 0 with ⟨p, heap⟩
  rw [hres] at hfail hok
  dsimp only at hfail hok ⊢
  by_cases hp : p = 0
  · rw [if_pos hp]
    exact ⟨fun _ => hfail hp, fun hne => absurd rfl hne⟩
  rw [if_neg hp]
  obtain ⟨a, ha, htook'⟩ := hok hp
  have hhold : Holding area (m.heap.ensureInit area) live p
      { m with heap := heap, spaces := Function.update m.spaces p (some ⟨0, []⟩) } := by
    refine ⟨⟨0, []⟩, [a], Function.update_self _ _ _, htook', ?_⟩
    rw [List.map_singleton, ha]
    exact List.Perm.refl _
  have h₁ := hhold.alloc
  rcases hres₁ : vmmAllocPage area
    { m with heap := heap, spaces := Function.update m.spaces p (some ⟨0, []⟩) } p with ⟨pml4, m₁⟩
  rw [hres₁] at h₁
  have h₂ := h₁.alloc
  dsimp only at h₂ ⊢
  rcases hres₂ : vmmAllocPage area m₁ p with ⟨pdpt, m₂⟩
  rw [hres₂] at h₂
  dsimp only at h₂ ⊢
  by_cases hbad : pml4 = 0 ∨ pdpt = 0
  · rw [if_pos hbad]
    exact ⟨fun _ => h₂.destroy, fun hne => absurd rfl hne⟩
  · rw [if_neg hbad]
    refine ⟨fun hzero => absurd hzero hp, fun _ => ?_⟩
    obtain ⟨as, mine, hs, htook', hperm⟩ := h₂
    refine ⟨{ as with pml4Phys := pml4 }, mine, ?_, htook', hperm⟩
    dsimp only
    rw [Function.update_self, hs]
    rfl

/-- The loop over the pages of the stack. -/
lemma Holding.mapStack (h : Holding area h₀ live p m) (ks : List ℕ) :
    Holding area h₀ live p (Machine.mapStack area p ks m).2 := by
  induction ks generalizing m with
  | nil => exact h
  | cons k ks ih =>
    rw [Machine.mapStack]
    have h₁ := h.alloc
    rcases hres₁ : vmmAllocPage area m p with ⟨pa, m₁⟩
    rw [hres₁] at h₁
    have h₂ := h₁.map (Elf.stackTop - (k + 1) * Elf.pageSize) pa pageRwU
    dsimp only at h₂ ⊢
    split_ifs
    · exact h₁
    rcases hres₂ : vmmMapPage area m₁ p (Elf.stackTop - (k + 1) * Elf.pageSize) pa pageRwU with
      ⟨_ | _, m₂⟩
    · rw [hres₂] at h₂
      exact h₂
    · rw [hres₂] at h₂
      exact ih h₂

end Memory

namespace Machine

open Vfs KHeapState

/-! ## The steps of `elf_exec` -/

variable {α : Type} {F : RoFormats} {area : KHeapArea} {s₀ s : Machine}
  {live : List KAlloc} {f p : ℕ}
  {active : Bool}

@[simp] lemma wlp_inFiles (m : Program Kernel α) (Q : α → Machine → Prop) (s : Machine) :
    wlp (inFiles m) Q s ↔ wlp m (fun a k => Q a { s with files := k }) s.files :=
  wlp_zoom _ _ m Q s

@[simp] lemma wlp_onMemory (g : Memory → α × Memory) (Q : α → Machine → Prop) (s : Machine) :
    wlp (onMemory g) Q s ↔ Q (g s.memory).1 { s with memory := (g s.memory).2 } :=
  wlp_pure _ Q _

/-- The descriptor of the file and the pages of the new address space are all that is different from
the state `s₀`. -/
structure Loading (area : KHeapArea) (s₀ : Machine) (live : List KAlloc) (f : ℕ)
    (active : Bool) (p : ℕ) (s : Machine) : Prop where
  heaps : s.heaps = s₀.heaps
  files : Borrowed s₀.files f active s.files
  memory : Memory.Holding area (s₀.memory.heap.ensureInit area) live p s.memory

lemma Loading.onMemory (h : Loading area s₀ live f active p s) {m : Memory}
    (hm : Memory.Holding area (s₀.memory.heap.ensureInit area) live p m) :
    Loading area s₀ live f active p { s with memory := m } := ⟨h.heaps, h.files, hm⟩

lemma Loading.inFiles (h : Loading area s₀ live f active p s) {k : Kernel} {b : Bool}
    (hk : Borrowed s₀.files f b k) : Loading area s₀ live f b p { s with files := k } :=
  ⟨h.heaps, hk, h.memory⟩

/-- The contents of the pages do not matter. -/
lemma Loading.setMem (h : Loading area s₀ live f active p s) (mem : Bytes) :
    Loading area s₀ live f active p { s with memory := { s.memory with mem := mem } } :=
  h.onMemory (h.memory.of_mem rfl rfl)

lemma loadPages_loading (h : Loading area s₀ live f true p s)
    (segStart contentOff n va remaining : ℕ) :
    wlp (loadPages F area f p segStart contentOff n va remaining)
      (fun _ s' => Loading area s₀ live f true p s') s := by
  induction n generalizing s va remaining with
  | zero => exact (wlp_pure _ _ _).mpr h
  | succ n ih =>
    rw [loadPages, wlp_bind, wlp_onMemory]
    have h₁ := h.onMemory h.memory.alloc
    refine wlp_ite_intro (fun _ => (wlp_pure _ _ _).mpr h₁) fun _ => ?_
    rw [wlp_bind, wlp_onMemory]
    have h₂ := h₁.onMemory (h₁.memory.map va (Memory.vmmAllocPage area s.memory p).1 Vmm.pageRwU)
    refine wlp_ite_intro (fun _ => (wlp_pure _ _ _).mpr h₂) fun _ => ?_
    refine wlp_ite_intro (fun _ => ?_) fun _ => ih h₂ _ _
    -- a part of the segment is read into the page
    rw [wlp_bind, wlp_get, wlp_bind, wlp_inFiles]
    refine wlp_mono (vfsRead_borrowed F h₂.files _ _) fun r k hk => ?_
    obtain ⟨got, buf⟩ := r
    have h₃ := h₂.inFiles hk
    rw [wlp_bind, wlp_onMemory]
    refine wlp_ite_intro (fun _ => (wlp_pure _ _ _).mpr ?_) fun _ => ih ?_ _ _
    · exact h₃.setMem _
    · exact h₃.setMem _

lemma loadSegments_loading (h : Loading area s₀ live f true p s) (phs : List Elf.Phdr)
    (maxSegEnd : ℕ) :
    wlp (loadSegments F area f p phs maxSegEnd)
    (fun _ s' => Loading area s₀ live f true p s') s := by
  induction phs generalizing s maxSegEnd with
  | nil => exact (wlp_pure _ _ _).mpr h
  | cons ph phs ih =>
    rw [loadSegments]
    refine wlp_ite_intro (fun _ => ih h _) fun _ => ?_
    refine wlp_ite_intro (fun _ => (wlp_pure _ _ _).mpr h) fun _ => ?_
    rw [wlp_bind, wlp_inFiles]
    refine wlp_mono (vfsSeek_borrowed h.files _) fun rc k hk => ?_
    refine wlp_ite_intro (fun _ => (wlp_pure _ _ _).mpr (h.inFiles hk)) fun _ => ?_
    rw [wlp_bind]
    refine wlp_mono (loadPages_loading (h.inFiles hk) _ _ _ _ _) fun loaded s' h' => ?_
    exact wlp_ite_intro (fun _ => (wlp_pure _ _ _).mpr h') fun _ => ih h' _

/-! ## Failures -/

/-- What a failed `elf_exec` leaves: every task and every open descriptor as it was, nothing new in
the run queues, and every slot of the kernel heap as it was since the heap was set up. -/
structure Untouched (area : KHeapArea) (s s' : Machine) : Prop where
  tasks : ∀ t, ∃ fds, s'.files.sched.task t = { s.files.sched.task t with fdTable := fds }
  heaps : s'.heaps = s.heaps
  current : s'.files.sched.curTask = s.files.sched.curTask
  queued : s'.files.sched.runQueue = s.files.sched.runQueue
  descriptors : ∀ t f, (fdTable s'.files t f).active = (fdTable s.files t f).active ∧
    ((fdTable s.files t f).active = true → fdTable s'.files t f = fdTable s.files t f)
  slots : (s'.memory.heap.ensureInit area).slots = (s.memory.heap.ensureInit area).slots

/-- The same tasks in the same queues, in perhaps more slots. -/
structure SameTasks (σ σ' : Sched) : Prop where
  task : σ'.task = σ.task
  curTask : σ'.curTask = σ.curTask
  runQueue : σ'.runQueue = σ.runQueue

lemma SameTasks.refl (σ : Sched) : SameTasks σ σ := ⟨rfl, rfl, rfl⟩

lemma task_withFd (k : Kernel) (t u : Option ℕ) (g : ℕ) (d : FileDescriptor) :
    (withFd k t g d).sched.task u =
      { k.sched.task u with fdTable := fdTable (withFd k t g d) u } := by
  by_cases hut : u = t
  · subst hut
    cases u <;> simp [withFd, fdTable, Sched.setTask, Sched.task]
  · have htask : (withFd k t g d).sched.task u = k.sched.task u := by
      cases t with
      | none =>
        cases u with
        | none => exact absurd rfl hut
        | some j => rfl
      | some i =>
        cases u with
        | none => rfl
        | some j =>
          have hj : j ≠ i := fun heq => hut (congrArg some heq)
          simp [withFd, Sched.setTask, Sched.task, Function.update_of_ne hj]
    rw [fdTable, htask]

/-- A descriptor that has been given back, on the same tasks. -/
lemma untouched_of_borrowed (hheaps : s.heaps = s₀.heaps) {k : Kernel}
    (hfiles : Borrowed s₀.files f false k) (hsame : SameTasks k.sched s.files.sched)
    (hslots : (s.memory.heap.ensureInit area).slots = (s₀.memory.heap.ensureInit area).slots) :
    Untouched area s₀ s := by
  obtain ⟨d, -, hs⟩ := hfiles.sched
  have hfd : ∀ t, fdTable s.files t = fdTable k t := fun t => by rw [fdTable, fdTable, hsame.task]
  refine ⟨fun t => ⟨fdTable (withFd s₀.files s₀.files.sched.curTask f d) t, ?_⟩, hheaps,
    hsame.curTask.trans hfiles.curTask, ?_, fun t g => ?_, hslots⟩
  · rw [hsame.task, hs]
    exact task_withFd s₀.files _ t f d
  · rw [hsame.runQueue, hs]
    unfold withFd
    cases s₀.files.sched.curTask <;> rfl
  · rw [hfd]
    exact hfiles.fdTable_eq t g

/-- The same files, and nothing more taken from the heap. -/
lemma untouched_of_sched (hheaps : s.heaps = s₀.heaps) (hsched : s.files.sched = s₀.files.sched)
    (hslots : (s.memory.heap.ensureInit area).slots = (s₀.memory.heap.ensureInit area).slots) :
    Untouched area s₀ s := by
  have hfd : ∀ t, fdTable s.files t = fdTable s₀.files t :=
    fun t => by rw [fdTable, fdTable, hsched]
  refine ⟨fun t => ⟨fdTable s₀.files t, ?_⟩, hheaps, ?_, ?_, fun t g => ?_, hslots⟩
  · rw [hsched]
    rfl
  · rw [hsched]
  · rw [hsched]
  · rw [hfd]
    exact ⟨rfl, fun _ => rfl⟩

lemma closeAndFail_untouched (hheaps : s.heaps = s₀.heaps)
    (hfiles : Borrowed s₀.files f true s.files) (hf : f < maxFd)
    (hslots : (s.memory.heap.ensureInit area).slots = (s₀.memory.heap.ensureInit area).slots) :
    wlp (closeAndFail f) (fun _ s' => Untouched area s₀ s') s := by
  rw [closeAndFail, wlp_bind, wlp_inFiles]
  refine wlp_mono (vfsClose_borrowed hfiles hf) fun _ k hk => ?_
  exact (wlp_pure _ _ _).mpr (untouched_of_borrowed hheaps hk (.refl _) hslots)

/-- Destroying the address space leaves the descriptor. -/
lemma Loading.slots_destroy (h : Loading area s₀ live f active p s) :
    ((s.memory.vmmDestroyAddressSpace p).heap.ensureInit area).slots =
      (s₀.memory.heap.ensureInit area).slots := by
  have htook := h.memory.destroy
  rw [htook.ready]
  exact htook.slots_eq

lemma destroy_closeAndFail (h : Loading area s₀ live f true p s) (hf : f < maxFd) :
    wlp (destroy p >>= fun _ => closeAndFail f) (fun _ s' => Untouched area s₀ s') s := by
  rw [wlp_bind, destroy, wlp_onMemory]
  exact closeAndFail_untouched h.heaps h.files hf h.slots_destroy

/-- Looking for a free slot moves no task. -/
lemma sameTasks_findFreeSlot (σ : Sched) : SameTasks σ σ.findFreeSlot.2 := by
  unfold Sched.findFreeSlot
  split
  · exact .refl σ
  · split
    · exact .refl σ
    · refine ⟨funext fun t => ?_, rfl, rfl⟩
      cases t <;> rfl

/-- A task that cannot be submitted. -/
lemma submit_failed {σ : Sched} {cr3 : ℕ} {stackOk : Bool}
    (h : (σ.schedSubmitUserAs cr3 stackOk).1 = none) :
    SameTasks σ (σ.schedSubmitUserAs cr3 stackOk).2 := by
  have hfind := sameTasks_findFreeSlot σ
  unfold Sched.schedSubmitUserAs Sched.submitTask at h ⊢
  by_cases hcr3 : cr3 = 0
  · rw [if_pos hcr3]
    exact .refl σ
  rw [if_neg hcr3] at h ⊢
  rcases hres : σ.findFreeSlot with ⟨_ | i, σ'⟩
  · rw [hres] at hfind
    exact hfind
  · rw [hres] at h hfind
    cases stackOk with
    | false => exact hfind
    | true => cases h

/-- What a failed `sched_submit_user_as` leaves. -/
lemma submit_loading (h : Loading area s₀ live f active p s) (entry cr3 : ℕ) :
    wlp (schedSubmitUserAs area entry cr3)
      (fun r s' => r = none → s'.heaps = s₀.heaps ∧ SameTasks s.files.sched s'.files.sched ∧
        Memory.Holding area (s₀.memory.heap.ensureInit area) live p s'.memory) s := by
  rw [schedSubmitUserAs, wlp_bind, wlp_get]
  refine wlp_ite_intro (fun _ => (wlp_pure _ _ _).mpr fun _ => ⟨h.heaps, .refl _, h.memory⟩)
    fun hok => ?_
  rcases hfind : s.files.sched.findFreeSlot with ⟨_ | i, σ⟩
  · exact (wlp_pure _ _ _).mpr fun _ => ⟨h.heaps, .refl _, h.memory⟩
  dsimp only
  rw [wlp_bind, wlp_onMemory]
  by_cases hstack : (s.memory.heap.kmalloc area 8192 16).1 = 0
  · -- no stack: the heap has nothing more to give back
    have hhold : Memory.Holding area (s₀.memory.heap.ensureInit area) live p
        { s.memory with heap := (s.memory.heap.kmalloc area 8192 16).2 } := by
      obtain ⟨as, mine, hs, htook, hperm⟩ := h.memory
      exact ⟨as, mine, hs, htook.kmalloc_failed hstack, hperm⟩
    rw [wlp_bind, wlp_modify, wlp_pure]
    exact fun hnone => ⟨h.heaps, submit_failed hnone, hhold⟩
  · -- with a stack the task goes into the slot that was found
    rw [wlp_bind, wlp_modify, wlp_pure]
    intro hnone
    exfalso
    rw [decide_eq_true hstack, Sched.schedSubmitUserAs, if_neg fun hcr3 => hok (Or.inr hcr3),
      Sched.submitTask, hfind] at hnone
    cases hnone

/-! ## `elf_exec` -/

/-- The outcome of a function that ends as `elf_exec` does. -/
def Failed (area : KHeapArea) (s₀ : Machine) (r : Option ℕ) (s' : Machine) : Prop :=
  r = none → Untouched area s₀ s'

/-- Once the file is closed, the ends destroy the address space only. -/
lemma Loading.destroyed (h : Loading area s₀ live f false p s) :
    wlp (destroy p >>= fun _ => pure none) (Failed area s₀) s := by
  rw [wlp_bind, destroy, wlp_onMemory, wlp_pure]
  exact fun _ => untouched_of_borrowed h.heaps h.files (.refl _) h.slots_destroy

lemma startTask_failed (h : Loading area s₀ live f false p s) (args : List (List UInt8))
    (eEntry maxSegEnd : ℕ) : wlp (startTask area args eEntry p maxSegEnd) (Failed area s₀) s := by
  rw [startTask, wlp_bind, wlp_onMemory]
  have h₁ := h.onMemory h.memory.alloc
  refine wlp_ite_intro (fun _ => h₁.destroyed) fun _ => ?_
  rw [wlp_bind, wlp_onMemory]
  have h₂ := h₁.onMemory
    (h₁.memory.map Elf.argvVa (Memory.vmmAllocPage area s.memory p).1 Vmm.pageRwU)
  refine wlp_ite_intro (fun _ => h₂.destroyed) fun _ => ?_
  rw [wlp_bind, wlp_onMemory, wlp_bind, wlp_get, wlp_bind]
  have h₃ := h₂.setMem (Elf.fillArgv (Memory.vmmAllocPage area s.memory p).1 args
    (Memory.vmmMapPage area (Memory.vmmAllocPage area s.memory p).2 p Elf.argvVa
      (Memory.vmmAllocPage area s.memory p).1 Vmm.pageRwU).2.mem)
  refine wlp_mono (submit_loading h₃ _ _) fun r s' hr => ?_
  cases r with
  | some slot =>
    rw [wlp_bind, wlp_modify, wlp_pure]
    exact fun hnone => nomatch hnone
  | none =>
    obtain ⟨hheaps, hsame, hhold⟩ := hr rfl
    rw [wlp_bind, destroy, wlp_onMemory, wlp_pure]
    intro _
    have htook := hhold.destroy
    refine untouched_of_borrowed hheaps h₃.files hsame ?_
    rw [htook.ready]
    exact htook.slots_eq

lemma loadImage_failed (h : Loading area s₀ live f true p s) (hf : f < maxFd)
    (args : List (List UInt8)) (eh : Elf.Ehdr) (phdrs : List Elf.Phdr) :
    wlp (loadImage F area f args eh phdrs p) (Failed area s₀) s := by
  have hclose : ∀ {s'}, Loading area s₀ live f true p s' →
      wlp (destroy p >>= fun _ => closeAndFail f) (Failed area s₀) s' := fun h' =>
    wlp_mono (destroy_closeAndFail h' hf) fun _ _ huntouched _ => huntouched
  rw [loadImage, wlp_bind]
  refine wlp_mono (loadSegments_loading h _ _) fun r s₁ h₁ => ?_
  cases r with
  | none => exact hclose h₁
  | some maxSegEnd =>
    refine wlp_ite_intro (fun _ => hclose h₁) fun _ => ?_
    rw [wlp_bind, wlp_onMemory]
    have h₂ := h₁.onMemory (h₁.memory.mapStack (List.range Elf.stackPages))
    refine wlp_ite_intro (fun _ => hclose h₂) fun _ => ?_
    rw [wlp_bind, wlp_inFiles]
    refine wlp_mono (vfsClose_borrowed h₂.files hf) fun _ k hk => ?_
    exact startTask_failed (h₂.inFiles hk) _ _ _

/-- From a heap that works, whatever the files and the tasks. -/
lemma elfExec_spec
    (hheap : KMem.Took area (s.memory.heap.ensureInit area) live (s.memory.heap.ensureInit area) [])
    (path : List UInt8) (args : List (List UInt8)) :
    wlp (elfExec F area path args) (Failed area s) s := by
  rw [elfExec, wlp_bind, wlp_inFiles]
  refine wlp_mono (vfsOpen_opened F path (by decide)) fun fd k hopened => ?_
  refine wlp_ite_intro (fun hneg => (wlp_pure _ _ _).mpr fun _ => ?_) fun hfd => ?_
  · obtain ⟨-, hsched⟩ | ⟨f, rfl, -, -⟩ := hopened
    · exact untouched_of_sched rfl hsched rfl
    · exact absurd hneg (Int.not_lt.mpr (Int.natCast_nonneg f))
  · obtain ⟨hneg, -⟩ | ⟨f, rfl, hf, hk⟩ := hopened
    · exact absurd hneg hfd
    have hclose : ∀ {k'}, Borrowed s.files f true k' →
        wlp (closeAndFail f) (Failed area s) { s with files := k' } := by
      intro k' hk'
      exact wlp_mono (@closeAndFail_untouched area s ⟨k', s.memory, s.heaps⟩ f rfl hk' hf rfl)
        fun _ _ huntouched _ => huntouched
    rw [wlp_bind, wlp_inFiles]
    refine wlp_mono (vfsRead_borrowed F hk _ _) fun r k₁ hk₁ => ?_
    obtain ⟨n, buf⟩ := r
    refine wlp_ite_intro (fun _ => hclose hk₁) fun _ => ?_
    rw [wlp_bind, wlp_inFiles]
    refine wlp_mono (vfsSeek_borrowed hk₁ _) fun rc k₂ hk₂ => ?_
    refine wlp_ite_intro (fun _ => hclose hk₂) fun _ => ?_
    rw [wlp_bind, wlp_inFiles]
    refine wlp_mono (vfsRead_borrowed F hk₂ _ _) fun r k₃ hk₃ => ?_
    obtain ⟨n', buf'⟩ := r
    refine wlp_ite_intro (fun _ => hclose hk₃) fun _ => ?_
    rw [wlp_bind, wlp_onMemory]
    obtain ⟨hnull, hmade⟩ := Memory.create_holding hheap
    refine wlp_ite_intro (fun hzero => ?_) fun hne => ?_
    · have htook := hnull hzero
      have hslots : ((Memory.vmmCreateAddressSpace area s.memory).2.heap.ensureInit area).slots =
          (s.memory.heap.ensureInit area).slots := by
        rw [htook.ready]
        exact htook.slots_eq
      exact wlp_mono (@closeAndFail_untouched area s
        ⟨k₃, (Memory.vmmCreateAddressSpace area s.memory).2, s.heaps⟩ f rfl hk₃ hf hslots)
        fun _ _ huntouched _ => huntouched
    · have hload : Loading area s live f true (Memory.vmmCreateAddressSpace area s.memory).1
          ⟨k₃, (Memory.vmmCreateAddressSpace area s.memory).2, s.heaps⟩ := ⟨rfl, hk₃, hmade hne⟩
      exact loadImage_failed hload hf _ _ _

/-- The heap after a run of requests, set up if it was not yet. -/
lemma took_of_run {ops : List KHeapOp} {h : KMem} (hfits : ∀ op ∈ ops, op.Fits)
    (hrun : KHeapState.run area ops = some ⟨h, live⟩) :
    KMem.Took area (h.ensureInit area) live (h.ensureInit area) [] := by
  have hinv : KHeapState.Inv area ⟨h, live⟩ :=
    PartialRun.invariant (fun h hfits hstep => h.step hfits hstep) (Or.inl rfl) hfits hrun
  rcases hinv with heq | ⟨b, hb⟩
  · obtain ⟨rfl, rfl⟩ := KHeapState.mk.inj heq
    obtain ⟨b, hb⟩ := working_init area
    exact KMem.took_nothing hb
  · have hready : h.ensureInit area = h := if_pos hb.ready
    rw [hready]
    exact KMem.took_nothing hb

/-- Whatever the file, the arguments, the tasks and the state of the heap, a failed `elf_exec`
leaves nothing behind. -/
theorem elfExec_failed_untouched (F : RoFormats) (area : KHeapArea) {ops : List KHeapOp}
    {live : List KAlloc} {s s' : Machine} (hfits : ∀ op ∈ ops, op.Fits)
    (hheap : KHeapState.run area ops = some ⟨s.memory.heap, live⟩) (path : List UInt8)
    (args : List (List UInt8)) (h : elfExec F area path args s = some (none, s')) :
    Untouched area s s' :=
  elfExec_spec (took_of_run hfits hheap) path args none s' h rfl

/-! ## A program that is refused after its first segment -/

/-- The segment is refused before any of it is loaded. -/
abbrev Refused (ph : Elf.Phdr) : Prop :=
  ph.Loaded ∧ (ph.segStart < Vmm.userBase ∨ Vmm.userBase + Vmm.userSize < ph.segEnd ∨
    ph.pMemsz < ph.pFilesz)

lemma wp_inFiles (m : Program Kernel α) (Q : α → Machine → Prop) :
    wp (inFiles m) Q s ↔ wp m (fun a k => Q a { s with files := k }) s.files :=
  wp_zoom _ _ m Q s

lemma wp_onMemory (g : Memory → α × Memory) (Q : α → Machine → Prop) :
    wp (onMemory g) Q s ↔ Q (g s.memory).1 { s with memory := (g s.memory).2 } :=
  wp_pure _ Q _

lemma closeAndFail_none (fd : ℤ) : wp (closeAndFail fd) (fun r _ => r = none) s := by
  rw [closeAndFail, wp_bind, wp_inFiles]
  simp only [vfsClose, wp_bind, wp_get]
  split
  · exact (wp_pure _ _ _).mpr ((wp_pure _ _ _).mpr rfl)
  · rw [wp_bind, setFd, wp_modify, wp_pure, wp_pure]

/-- The pages of a segment that has no bytes in the file. -/
lemma halts_loadPages_bss (fd : ℤ) (segStart contentOff n va : ℕ) :
    Halts (loadPages F area fd p segStart contentOff n va 0) s := by
  induction n generalizing s va with
  | zero => exact (wp_pure _ _ _).mpr trivial
  | succ n ih =>
    rw [loadPages, Halts, wp_bind, wp_onMemory]
    refine wp_ite_intro (fun _ => (wp_pure _ _ _).mpr trivial) fun _ => ?_
    rw [wp_bind, wp_onMemory]
    refine wp_ite_intro (fun _ => (wp_pure _ _ _).mpr trivial) fun _ => ?_
    dsimp only
    rw [Nat.zero_min]
    exact wp_ite_intro (fun h => absurd h (Nat.lt_irrefl 0)) fun _ => ih _

/-- Segments that have no bytes in the file, of which one is refused. -/
lemma loadSegments_none (fd : ℤ) {phs : List Elf.Phdr} (hbss : ∀ ph ∈ phs, ph.pFilesz = 0)
    (maxSegEnd : ℕ) :
    wp (loadSegments F area fd p phs maxSegEnd) (fun r _ => (∃ ph ∈ phs, Refused ph) →
    r = none) s := by
  induction phs generalizing s maxSegEnd with
  | nil => exact (wp_pure _ _ _).mpr fun ⟨_, hmem, _⟩ => absurd hmem List.not_mem_nil
  | cons ph phs ih =>
    have htail : ∀ {s : Machine} (e : ℕ), ¬ Refused ph →
        wp (loadSegments F area fd p phs e) (fun r _ => (∃ q ∈ ph :: phs, Refused q) →
        r = none) s := by
      intro s e hph
      refine wp_mono (ih (fun q hq => hbss q (List.mem_cons_of_mem _ hq)) e) fun r _ hr hex => hr ?_
      obtain ⟨q, hq, hrefused⟩ := hex
      rcases List.mem_cons.mp hq with rfl | hq
      · exact absurd hrefused hph
      · exact ⟨q, hq, hrefused⟩
    rw [loadSegments]
    refine wp_ite_intro (fun hload => htail _ fun hph => hload hph.1) fun _ => ?_
    refine wp_ite_intro (fun _ => (wp_pure _ _ _).mpr fun _ => rfl) fun hfits => ?_
    rw [wp_bind, wp_inFiles]
    simp only [vfsSeek, wp_bind, wp_get]
    split
    · exact (wp_pure _ _ _).mpr ((wp_pure _ _ _).mpr fun _ => rfl)
    · rw [wp_bind, setFd, wp_modify, wp_pure, if_neg (not_not.mpr rfl), wp_bind,
        hbss ph List.mem_cons_self]
      refine Halts.wp (halts_loadPages_bss _ _ _ _ _) fun loaded s' => ?_
      exact wp_ite_intro (fun _ => (wp_pure _ _ _).mpr fun _ => rfl)
        fun _ => htail _ fun hph => hfits hph.2

/-- The reads of `elf_exec` before it asks for memory: every segment is without bytes in the file,
and one of them is refused. -/
def headersRefused (F : RoFormats) (path : List UInt8) : Program Kernel Bool := do
  let fd ← vfsOpen F path oRdonly
  let (_, buf) ← vfsRead F fd Bytes.zeros Elf.ehdrSize
  let eh := Elf.File.ehdr ⟨buf, Elf.ehdrSize⟩
  let _ ← vfsSeek fd eh.ePhoff
  let (_, buf) ← vfsRead F fd Bytes.zeros (eh.ePhnum * Elf.phdrSize)
  let phdrs := (List.range eh.ePhnum).map fun i =>
    Elf.File.phdrAt ⟨buf, eh.ePhnum * Elf.phdrSize⟩ (Elf.phdrSize * i)
  return decide ((∀ ph ∈ phdrs, ph.pFilesz = 0) ∧ ∃ ph ∈ phdrs, Refused ph)

/-- The pages of the segments before the refused one are taken from any heap, and given back. -/
lemma elfExec_none {path : List UInt8}
    (h : wp (headersRefused F path) (fun b _ => b = true) s.files)
    (args : List (List UInt8)) : wp (elfExec F area path args) (fun r _ => r = none) s := by
  rw [headersRefused, wp_bind] at h
  rw [elfExec, wp_bind, wp_inFiles]
  refine wp_mono h fun fd k h₁ => ?_
  refine wp_ite_intro (fun _ => (wp_pure _ _ _).mpr rfl) fun _ => ?_
  rw [wp_bind] at h₁
  rw [wp_bind, wp_inFiles]
  refine wp_mono h₁ fun r k h₂ => ?_
  refine wp_ite_intro (fun _ => closeAndFail_none _) fun _ => ?_
  rw [wp_bind] at h₂
  rw [wp_bind, wp_inFiles]
  refine wp_mono h₂ fun rc k h₃ => ?_
  refine wp_ite_intro (fun _ => closeAndFail_none _) fun _ => ?_
  rw [wp_bind] at h₃
  rw [wp_bind, wp_inFiles]
  refine wp_mono h₃ fun r' k h₄ => ?_
  refine wp_ite_intro (fun _ => closeAndFail_none _) fun _ => ?_
  rw [wp_pure, decide_eq_true_iff] at h₄
  obtain ⟨hbss, hrefused⟩ := h₄
  rw [wp_bind, wp_onMemory]
  refine wp_ite_intro (fun _ => closeAndFail_none _) fun _ => ?_
  rw [loadImage, wp_bind]
  refine wp_mono (loadSegments_none _ hbss _) fun res s' hnone => ?_
  obtain rfl := hnone hrefused
  rw [wp_bind, destroy, wp_onMemory]
  exact closeAndFail_none _

/-- A program of two segments without bytes in the file, of which the second one is below the user
window. -/
def halfProgram : List UInt8 :=
  [0x7F, 0x45, 0x4C, 0x46, 2, 1, 1, 0, 0, 0, 0, 0, 0, 0, 0, 0] ++
  [2, 0, 62, 0, 1, 0, 0, 0, 0, 0, 0, 0x40, 0, 0, 0, 0] ++
  [64, 0, 0, 0, 0, 0, 0, 0, 0, 0, 0, 0, 0, 0, 0, 0] ++
  [0, 0, 0, 0, 64, 0, 56, 0, 2, 0, 0, 0, 0, 0, 0, 0] ++ segment 0x40 ++ segment 0
where
  /-- The program header of a segment of 8 bytes. -/
  segment (window : UInt8) : List UInt8 :=
    [1, 0, 0, 0, 6, 0, 0, 0, 0, 0, 0, 0, 0, 0, 0, 0] ++
    [0, 0, 0, window, 0, 0, 0, 0, 0, 0, 0, 0, 0, 0, 0, 0] ++
    [0, 0, 0, 0, 0, 0, 0, 0, 8, 0, 0, 0, 0, 0, 0, 0, 0, 0x10, 0, 0, 0, 0, 0, 0]

/-- Save the program in the file `/a/B`, which stays open. -/
def saveProgram : List Call := mountAndOpen ++ [.write 0 (Bytes.ofList halfProgram) 176]

/-- A machine with these files on which nothing has been allocated. -/
def withFiles (k : Kernel) : Machine :=
  ⟨k, ⟨Bytes.zeros, KMem.boot, fun _ => none⟩, fun _ => ⟨0, 0, 0, 0⟩⟩

set_option maxRecDepth 100000 in
/-- The first segment of the program is loaded, and undone when the second one is refused. -/
theorem elfExec_failed_untouched_halfProgram : ∃ k s',
    runCalls .drivers saveProgram (bootKernel (Fat32.sampleDisk 2 12)) =
      some (PUnit.unit, k) ∧
    (fdTable k none 0).active = true ∧
    elfExec .drivers kheapArea [47, 97, 47, 66] [] (withFiles k) = some (none, s') ∧
    Untouched kheapArea (withFiles k) s' := by
  obtain ⟨k, hrun, hk⟩ := exists_of_any (m := runCalls .drivers saveProgram)
    (s := bootKernel (Fat32.sampleDisk 2 12)) (p := fun k => (fdTable k none 0).active &&
      (headersRefused .drivers [47, 97, 47, 66] k).any fun r => r.1)
    (by decide +kernel)
  obtain ⟨hactive, hheaders⟩ := Bool.and_eq_true_iff.mp hk
  obtain ⟨⟨b, k'⟩, hres, hb⟩ := (Option.any_eq_true _ _).mp hheaders
  obtain ⟨r, s', hexec, rfl⟩ := @elfExec_none .drivers kheapArea (withFiles k)
    [47, 97, 47, 66] ⟨b, k', hres, hb⟩ []
  exact ⟨k, s', hrun, hactive, hexec, elfExec_failed_untouched .drivers kheapArea
    (fun op hop => absurd hop List.not_mem_nil) rfl _ _ hexec⟩

end Machine

end CoolFrost
