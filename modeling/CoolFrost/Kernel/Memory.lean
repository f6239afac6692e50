import CoolFrost.Kernel.Sbrk
import CoolFrost.Libc.Kmalloc

/-!
# Address spaces on the kernel heap

`cpu/vmm.c` and `SYS_SBRK` (`cpu/syscall.c`) over the heap that `kmalloc` really takes its pages
from, so that what a call leaves of the heap can be said.  A pointer to a `vmm_as_t` is the address
that `kmalloc` has returned for it.
-/

namespace CoolFrost

/-- Physical memory, the kernel heap, and the address spaces by the address of their `vmm_as_t`. -/
structure Memory where
  mem : Bytes
  heap : KMem
  spaces : ℕ → Option AddrSpace

namespace Memory

open Bytes Vmm

/-- `sizeof(vmm_as_t)`. -/
def addrSpaceSize : UInt64 := 4112

variable (area : KHeapArea)

/-- `vmm_alloc_page`. -/
def vmmAllocPage (m : Memory) (p : ℕ) : ℕ × Memory :=
  match m.spaces p with
  | none => (0, m)
  | some as =>
    if maxPages ≤ as.ownedPages.length then (0, m)
    else
      let (pa, heap) := m.heap.kmalloc area 4096 1
      if pa = 0 then (0, { m with heap := heap })
      else
        (pa,
          { mem := clearPage m.mem pa
            heap := heap
            spaces := Function.update m.spaces p
              (some { as with ownedPages := as.ownedPages ++ [pa] }) })

/-- `vmm_destroy_address_space`. -/
def vmmDestroyAddressSpace (m : Memory) (p : ℕ) : Memory :=
  match m.spaces p with
  | none => m
  | some as =>
    { m with
      heap := (as.ownedPages.foldl (fun heap pa => heap.kfree pa) m.heap).kfree p
      spaces := Function.update m.spaces p none }

/-- `vmm_create_address_space`; 0 stands for the null pointer. -/
def vmmCreateAddressSpace (m : Memory) : ℕ × Memory :=
  let (p, heap) := m.heap.kmalloc area addrSpaceSize 0
  if p = 0 then (0, { m with heap := heap })
  else
    let m := { m with heap := heap, spaces := Function.update m.spaces p (some ⟨0, []⟩) }
    let (pml4, m) := vmmAllocPage area m p
    let (pdpt, m) := vmmAllocPage area m p
    if pml4 = 0 ∨ pdpt = 0 then (0, vmmDestroyAddressSpace m p)
    else
      let mem := putWord m.mem pml4 0 (pdpt ||| pageRwU)
      let mem := putWord mem pdpt 0 (word mem masterPdpt 0)
      let mem := putWord mem pdpt 3 (word mem masterPdpt 3)
      (p, { m with
        mem := mem
        spaces := Function.update m.spaces p
          ((m.spaces p).map fun as => { as with pml4Phys := pml4 }) })

/-- The part of `vmm_map_page` that adds a missing table: whether there is one afterwards. -/
def ensureTable (m : Memory) (p tbl idx : ℕ) : Bool × Memory :=
  if word m.mem tbl idx &&& pageP = 0 then
    let (pa, m) := vmmAllocPage area m p
    if pa = 0 then (false, m)
    else (true, { m with mem := putWord m.mem tbl idx (pa ||| pageRwU) })
  else (true, m)

/-- `vmm_map_page`: whether it succeeds. -/
def vmmMapPage (m : Memory) (p va pa flags : ℕ) : Bool × Memory :=
  match m.spaces p with
  | none => (false, m)
  | some as =>
    if va < userBase ∨ userBase + userSize ≤ va then (false, m)
    else if va % 4096 ≠ 0 then (false, m)
    else
      let pdptTbl := pteAddr (word m.mem as.pml4Phys 0)
      match ensureTable area m p pdptTbl (pdptIdx va) with
      | (false, m) => (false, m)
      | (true, m) =>
        let pdTbl := pteAddr (word m.mem pdptTbl (pdptIdx va))
        match ensureTable area m p pdTbl (pdIdx va) with
        | (false, m) => (false, m)
        | (true, m) =>
          let ptTbl := pteAddr (word m.mem pdTbl (pdIdx va))
          (true, { m with mem := putWord m.mem ptTbl (ptIdx va) (leafEntry pa flags) })

/-- The loop of `SYS_SBRK` over `n` pages from `va` on. -/
def mapHeap (p : ℕ) : ℕ → ℕ → Memory → Bool × Memory
  | 0, _, m => (true, m)
  | n + 1, va, m =>
    let (pa, m) := vmmAllocPage area m p
    if pa = 0 then (false, m)
    else
      match vmmMapPage area m p va pa pageRwU with
      | (false, m) => (false, m)
      | (true, m) => mapHeap p n (va + 0x1000) m

/-- `SYS_SBRK` of a task with the heap `hp`: the answer, the heap afterwards and the memory. -/
def sbrk (hp : Elf.Heap) (rdi : UInt64) (m : Memory) : ℕ × Elf.Heap × Memory :=
  if hp.addrSpace = 0 ∨ hp.heapEnd = 0 then (Elf.refused, hp, m)
  else if rdi = 0 then (hp.heapBrk, hp, m)
  else if 2 ^ 63 ≤ rdi.toNat then (Elf.refused, hp, m)
  else
    let newBrk := (hp.heapBrk + rdi.toNat) % 2 ^ 64
    if newBrk < hp.heapBrk ∨ hp.heapEnd < newBrk then (Elf.refused, hp, m)
    else
      match mapHeap area hp.addrSpace (Elf.missingPages hp newBrk)
        (Elf.pagesEnd hp.heapStart hp.heapBrk)
        m with
      | (false, m) => (Elf.refused, hp, m)
      | (true, m) => (hp.heapBrk, { hp with heapBrk := newBrk }, m)

end Memory

end CoolFrost
