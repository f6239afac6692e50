import CoolFrost.Fs.DescriptorRuns
import CoolFrost.Kernel.Memory

/-!
# Loading programs from files

`elf_exec` (`kernel/elf.c`) with all that it touches: the file is opened and read through the
virtual file system, the pages come from the kernel heap, and the task goes to the scheduler.  A
failure at any point undoes what was done before it.
-/

namespace CoolFrost

/-- The files with the tasks, physical memory with the kernel heap, and the fields of the tasks for
their own heaps. -/
structure Machine where
  files : Kernel
  memory : Memory
  heaps : ℕ → Elf.Heap

namespace Machine

open Bytes Program Vfs Vmm Elf

variable {α : Type}

/-- A call of the virtual file system. -/
def inFiles (m : Program Kernel α) : Program Machine α :=
  zoom (fun s => s.files) (fun k s => { s with files := k }) m

/-- A function of the memory manager. -/
def onMemory (g : Memory → α × Memory) : Program Machine α :=
  modifyGet fun s => ((g s.memory).1, { s with memory := (g s.memory).2 })

/-- `O_RDONLY`. -/
def oRdonly : ℕ := 1

variable (F : RoFormats) (area : KHeapArea)

/-! ## Segments -/

/-- The loop of `load_segment` over `n` pages from `va` on, for the address space at `p`;
`remaining` bytes of the segment are still to be read. -/
def loadPages (fd : ℤ) (p segStart contentOff : ℕ) : ℕ → ℕ → ℕ → Program Machine Bool
  | 0, _, _ => return true
  | n + 1, va, remaining => do
    let pa ← onMemory (fun m => m.vmmAllocPage area p)
    if pa = 0 then return false
    else
      let mapped ← onMemory (fun m => m.vmmMapPage area p va pa pageRwU)
      if !mapped then return false
      else
        let pageOff := if va = segStart then contentOff else 0
        let toRead := min remaining (pageSize - pageOff)
        if 0 < toRead then
          let mem := (← get).memory.mem
          let (got, buf) ← inFiles (vfsRead F fd (shift mem (pa + pageOff)) toRead)
          onMemory (fun m => ((), { m with mem := blit m.mem (pa + pageOff) buf toRead }))
          if got ≠ toRead then return false
          else loadPages fd p segStart contentOff n (va + pageSize) (remaining - toRead)
        else loadPages fd p segStart contentOff n (va + pageSize) remaining

/-- The loop of `elf_exec` over the program headers: the new `max_seg_end`. -/
def loadSegments (fd : ℤ) (p : ℕ) : List Phdr → ℕ → Program Machine (Option ℕ)
  | [], maxSegEnd => return some maxSegEnd
  | ph :: phs, maxSegEnd => do
    if ¬ ph.Loaded then loadSegments fd p phs maxSegEnd
    else if ph.segStart < userBase ∨ userBase + userSize < ph.segEnd ∨ ph.pMemsz < ph.pFilesz then
      return none
    else
      let rc ← inFiles (vfsSeek fd ph.pOffset)
      if rc ≠ 0 then return none
      else
        let loaded ← loadPages F area fd p ph.segStart (ph.pVaddr - ph.segStart)
          ((ph.segEnd - ph.segStart) / pageSize) ph.segStart ph.pFilesz
        if !loaded then return none
        else loadSegments fd p phs (if maxSegEnd < ph.segEnd then ph.segEnd else maxSegEnd)

/-! ## The stack and the task -/

/-- The loop of `elf_exec` over the pages of the stack. -/
def mapStack (p : ℕ) : List ℕ → Memory → Bool × Memory
  | [], m => (true, m)
  | k :: ks, m =>
    let (pa, m) := m.vmmAllocPage area p
    if pa = 0 then (false, m)
    else
      match m.vmmMapPage area p (stackTop - (k + 1) * pageSize) pa pageRwU with
      | (false, m) => (false, m)
      | (true, m) => mapStack p ks m

/-- `sched_submit_user_as`. -/
def schedSubmitUserAs (entry cr3 : ℕ) : Program Machine (Option ℕ) := do
  let s ← get
  if entry = 0 ∨ cr3 = 0 then return none
  else
    match s.files.sched.findFreeSlot with
    | (none, _) => return none
    | (some _, _) =>
      let stack ← onMemory (fun m =>
        let (stack, heap) := m.heap.kmalloc area 8192 16
        (stack, { m with heap := heap }))
      let (slot, sched) := s.files.sched.schedSubmitUserAs cr3 (stack ≠ 0)
      modify fun s => { s with files := { s.files with sched := sched } }
      return slot

/-! ## `elf_exec` -/

/-- `vmm_destroy_address_space`. -/
def destroy (p : ℕ) : Program Machine PUnit := onMemory fun m => ((), m.vmmDestroyAddressSpace p)

/-- The ends of `elf_exec` that close the file. -/
def closeAndFail (fd : ℤ) : Program Machine (Option ℕ) := do
  let _ ← inFiles (vfsClose fd)
  return none

/-- The rest of `elf_exec` once the file is loaded. -/
def startTask (args : List (List UInt8)) (eEntry p maxSegEnd : ℕ) : Program Machine (Option ℕ) := do
  let pa ← onMemory (fun m => m.vmmAllocPage area p)
  if pa = 0 then
    destroy p
    return none
  else
    let mapped ← onMemory (fun m => m.vmmMapPage area p argvVa pa pageRwU)
    if !mapped then
      destroy p
      return none
    else
      onMemory (fun m => ((), { m with mem := fillArgv pa args m.mem }))
      let cr3 := (((← get).memory.spaces p).map AddrSpace.pml4Phys).getD 0
      match ← schedSubmitUserAs area eEntry cr3 with
      | none =>
        destroy p
        return none
      | some slot =>
        modify fun s => { s with heaps := Function.update s.heaps slot ⟨p, maxSegEnd,
          maxSegEnd, argvVa⟩ }
        return some slot

/-- The part of `elf_exec` that fills the address space at `p` from the file. -/
def loadImage (fd : ℤ) (args : List (List UInt8)) (eh : Ehdr) (phdrs : List Phdr) (p : ℕ) :
    Program Machine (Option ℕ) := do
  match ← loadSegments F area fd p phdrs userBase with
  | none =>
    destroy p
    closeAndFail fd
  | some maxSegEnd =>
    if eh.eEntry < userBase ∨ userBase + userSize ≤ eh.eEntry then
      destroy p
      closeAndFail fd
    else
      let mapped ← onMemory (mapStack area p (List.range stackPages))
      if !mapped then
        destroy p
        closeAndFail fd
      else
        let _ ← inFiles (vfsClose fd)
        startTask area args eh.eEntry p maxSegEnd

/-- `elf_exec`: the slot of the new task. -/
def elfExec (path : List UInt8) (args : List (List UInt8)) : Program Machine (Option ℕ) := do
  let fd ← inFiles (vfsOpen F path oRdonly)
  if fd < 0 then return none
  else
    let (n, buf) ← inFiles (vfsRead F fd zeros ehdrSize)
    let eh := File.ehdr ⟨buf, ehdrSize⟩
    if n ≠ ehdrSize ∨ validateEhdr eh = false then closeAndFail fd
    else
      let rc ← inFiles (vfsSeek fd eh.ePhoff)
      if rc ≠ 0 then closeAndFail fd
      else
        let (n, buf) ← inFiles (vfsRead F fd zeros (eh.ePhnum * phdrSize))
        if n ≠ (eh.ePhnum * phdrSize : ℕ) then closeAndFail fd
        else
          let phdrs := (List.range eh.ePhnum).map fun i =>
            File.phdrAt ⟨buf, eh.ePhnum * phdrSize⟩ (phdrSize * i)
          let p ← onMemory (fun m => m.vmmCreateAddressSpace area)
          if p = 0 then closeAndFail fd
          else loadImage F area fd args eh phdrs p

end Machine

end CoolFrost
