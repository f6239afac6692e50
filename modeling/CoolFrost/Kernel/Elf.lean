import CoolFrost.Cpu.Scheduler
import CoolFrost.Cpu.Vmm

/-!
# Loading programs

`elf_exec` (`kernel/elf.c`): the headers of an executable are checked, its segments are copied into
a new address space one page at a time, the stack and the page with the arguments are mapped above
them, and the task is submitted.  A file is its bytes; reading it with `vfs_read` gives the bytes
from the offset on, as many as there are.  Closing the descriptor is left out, since nothing here
depends on it.
-/

namespace CoolFrost

namespace Elf

open Bytes Vmm

/-- `ELF_PAGE_SIZE`. -/
def pageSize : ℕ := 4096
/-- `ELF_STACK_PAGES`. -/
def stackPages : ℕ := 4
/-- `ELF_MAX_PHDR`. -/
def maxPhdr : ℕ := 8
/-- `ELF_MAX_ARGS`. -/
def maxArgs : ℕ := 8
/-- `PT_LOAD`. -/
def ptLoad : ℕ := 1
/-- `sizeof(elf64_ehdr_t)`. -/
def ehdrSize : ℕ := 64
/-- `sizeof(elf64_phdr_t)`. -/
def phdrSize : ℕ := 56
/-- `sizeof(proc_args_t)`. -/
def procArgsSize : ℕ := 8 + 8 * maxArgs

/-- `stack_top` in `elf_exec`. -/
def stackTop : ℕ := userBase + userSize - pageSize

/-- `argv_va` in `elf_exec`. -/
def argvVa : ℕ := stackTop - (stackPages + 1) * pageSize

/-! ## Files and headers -/

/-- The contents of a file. -/
structure File where
  bytes : Bytes
  size : ℕ

/-- The number of bytes that `vfs_read` gets when it is asked for `n` bytes at `offset`. -/
def File.read (file : File) (offset n : ℕ) : ℕ := min n (file.size - offset)

/-- The fields of an `elf64_ehdr_t` that are used. -/
structure Ehdr where
  eIdent : List UInt8
  eType : ℕ
  eMachine : ℕ
  eEntry : ℕ
  ePhoff : ℕ
  ePhentsize : ℕ
  ePhnum : ℕ

/-- The fields of an `elf64_phdr_t` that are used. -/
structure Phdr where
  pType : ℕ
  pOffset : ℕ
  pVaddr : ℕ
  pFilesz : ℕ
  pMemsz : ℕ
  deriving DecidableEq

/-- The header of a file. -/
def File.ehdr (file : File) : Ehdr where
  eIdent := slice file.bytes 0 16
  eType := le16 file.bytes 16
  eMachine := le16 file.bytes 18
  eEntry := le64 file.bytes 24
  ePhoff := le64 file.bytes 32
  ePhentsize := le16 file.bytes 54
  ePhnum := le16 file.bytes 56

/-- The program header at `off`. -/
def File.phdrAt (file : File) (off : ℕ) : Phdr where
  pType := le32 file.bytes off
  pOffset := le64 file.bytes (off + 8)
  pVaddr := le64 file.bytes (off + 16)
  pFilesz := le64 file.bytes (off + 32)
  pMemsz := le64 file.bytes (off + 40)

/-- The program headers of a file. -/
def File.phdrs (file : File) : List Phdr :=
  (List.range file.ehdr.ePhnum).map fun i => file.phdrAt (file.ehdr.ePhoff + phdrSize * i)

/-- `validate_ehdr`. -/
def validateEhdr (eh : Ehdr) : Bool :=
  if eh.eIdent.take 4 ≠ [0x7F, 0x45, 0x4C, 0x46] then false
  else if eh.eIdent.getD 4 0 ≠ 2 ∨ eh.eIdent.getD 5 0 ≠ 1 then false
  else if eh.eType ≠ 2 ∨ eh.eMachine ≠ 62 then false
  else if eh.ePhnum = 0 ∨ maxPhdr < eh.ePhnum then false
  else if eh.ePhentsize ≠ phdrSize then false
  else true

/-- `elf_exec` loads the segment. -/
def Phdr.Loaded (ph : Phdr) : Prop := ph.pType = ptLoad ∧ ph.pMemsz ≠ 0

instance (ph : Phdr) : Decidable ph.Loaded := inferInstanceAs (Decidable (_ ∧ _))

/-- `seg_start` in `elf_exec`. -/
def Phdr.segStart (ph : Phdr) : ℕ := ph.pVaddr / pageSize * pageSize

/-- `seg_end` in `elf_exec`, in 64-bit arithmetic. -/
def Phdr.segEnd (ph : Phdr) : ℕ :=
  (ph.pVaddr + ph.pMemsz + pageSize - 1) % 2 ^ 64 / pageSize * pageSize

/-! ## Segments -/

variable (K : Kmalloc)

/-- The loop of `load_segment` over `n` pages from `va` on; `remaining` bytes of the segment are
still to be read, at `pos` in the file. -/
def loadPages (file : File) (i segStart contentOff : ℕ) : ℕ → ℕ → ℕ → ℕ → Vmm → Bool × Vmm
  | 0, _, _, _, v => (true, v)
  | n + 1, va, remaining, pos, v =>
    let (pa, v) := vmmAllocPage K v i
    if pa = 0 then (false, v)
    else
      match vmmMapPage K v i va pa pageRwU with
      | (false, v) => (false, v)
      | (true, v) =>
        let pageOff := if va = segStart then contentOff else 0
        let toRead := min remaining (pageSize - pageOff)
        if 0 < toRead then
          let got := file.read pos toRead
          let v := { v with mem := blit v.mem (pa + pageOff) (shift file.bytes pos) got }
          if got ≠ toRead then (false, v)
          else loadPages file i segStart contentOff n (va + pageSize)
            (remaining - toRead) (pos + got) v
        else loadPages file i segStart contentOff n (va + pageSize) remaining pos v

/-- `load_segment`, after the descriptor has been set to `pos`.  Both ends are multiples of the page
size, so the loop has a turn for each page between them. -/
def loadSegment (file : File) (i segStart segEnd contentOff filesz pos : ℕ)
    (v : Vmm) : Bool × Vmm :=
  loadPages K file i segStart contentOff ((segEnd - segStart) / pageSize) segStart filesz pos v

/-- The loop of `elf_exec` over the program headers: the new `max_seg_end`. -/
def loadSegments (file : File) (i : ℕ) : List Phdr → ℕ → Vmm → Option ℕ × Vmm
  | [], maxSegEnd, v => (some maxSegEnd, v)
  | ph :: phs, maxSegEnd, v =>
    if ¬ ph.Loaded then loadSegments file i phs maxSegEnd v
    else if ph.segStart < userBase ∨ userBase + userSize < ph.segEnd ∨ ph.pMemsz < ph.pFilesz then
      (none, v)
    else
      match loadSegment K file i ph.segStart ph.segEnd (ph.pVaddr - ph.segStart)
        ph.pFilesz ph.pOffset
        v with
      | (false, v) => (none, v)
      | (true, v) =>
        loadSegments file i phs (if maxSegEnd < ph.segEnd then ph.segEnd else maxSegEnd) v

/-! ## The stack and the arguments -/

/-- The loop of `elf_exec` over the pages of the stack. -/
def mapStack (i : ℕ) : List ℕ → Vmm → Bool × Vmm
  | [], v => (true, v)
  | k :: ks, v =>
    let (pa, v) := vmmAllocPage K v i
    if pa = 0 then (false, v)
    else
      match vmmMapPage K v i (stackTop - (k + 1) * pageSize) pa pageRwU with
      | (false, v) => (false, v)
      | (true, v) => mapStack i ks v

/-- The loop of `elf_exec` over the arguments: how many are copied, and the memory with them. -/
def copyArgs (argvPa : ℕ) : List (List UInt8) → ℕ → ℕ → Bytes → ℕ × Bytes
  | [], copied, _, mem => (copied, mem)
  | arg :: args, copied, strOff, mem =>
    if pageSize - procArgsSize < strOff + arg.length + 1 then (copied, mem)
    else
      let mem := blit mem (argvPa + procArgsSize + strOff) (ofList arg) (arg.length + 1)
      let mem := putWord mem argvPa (1 + copied) (argvVa + procArgsSize + strOff)
      copyArgs argvPa args (copied + 1) (strOff + arg.length + 1) mem

/-- The page with the arguments (`proc_args_t` and the texts after it). -/
def fillArgv (argvPa : ℕ) (args : List (List UInt8)) (mem : Bytes) : Bytes :=
  let (copied, mem) := copyArgs argvPa (args.take maxArgs) 0 0 mem
  let mem := putWord mem argvPa 0 copied
  (List.range' copied (maxArgs - copied)).foldl (fun mem k => putWord mem argvPa (1 + k) 0) mem

/-- The part of `elf_exec` that fills the new address space: `max_seg_end`. -/
def buildImage (file : File) (args : List (List UInt8)) (i : ℕ) (v : Vmm) : Option ℕ × Vmm :=
  match loadSegments K file i file.phdrs userBase v with
  | (none, v) => (none, v)
  | (some maxSegEnd, v) =>
    if file.ehdr.eEntry < userBase ∨ userBase + userSize ≤ file.ehdr.eEntry then (none, v)
    else
      match mapStack K i (List.range stackPages) v with
      | (false, v) => (none, v)
      | (true, v) =>
        let (pa, v) := vmmAllocPage K v i
        if pa = 0 then (none, v)
        else
          match vmmMapPage K v i argvVa pa pageRwU with
          | (false, v) => (none, v)
          | (true, v) => (some maxSegEnd, { v with mem := fillArgv pa args v.mem })

/-- The last stores of `elf_exec`, to the task it has submitted. -/
def setHeap (addrSpace maxSegEnd : ℕ) (t : Cpu.Task) : Cpu.Task :=
  { t with
    addrSpace := addrSpace
    heapStart := maxSegEnd
    heapBrk := maxSegEnd
    heapEnd := argvVa }

/-- The pointer to an address space. -/
def asPtr (i : ℕ) : ℕ := i + 1

/-- `elf_exec` for what `vfs_open` finds: the slot of the new task and its address space.  `stack`
is what `kmalloc` answers to `sched_submit_user_as`. -/
def elfExec (img : Cpu.Image) (found : Option File) (args : List (List UInt8)) (stack : ℕ) (v : Vmm)
    (s : Cpu.Scheduler) : Option (ℕ × ℕ) × Vmm × Cpu.Scheduler :=
  match found with
  | none => (none, v, s)
  | some file =>
    if file.read 0 ehdrSize ≠ ehdrSize ∨ validateEhdr file.ehdr = false then (none, v, s)
    else if file.read file.ehdr.ePhoff (file.ehdr.ePhnum * phdrSize) ≠
      file.ehdr.ePhnum * phdrSize then
      (none, v, s)
    else
      match vmmCreateAddressSpace K v with
      | (none, v) => (none, v, s)
      | (some i, v) =>
        match buildImage K file args i v with
        | (none, v) => (none, vmmDestroyAddressSpace v i, s)
        | (some maxSegEnd, v) =>
          let cr3 := ((v.spaces i).map AddrSpace.pml4Phys).getD 0
          match s.schedSubmitUserAs img file.ehdr.eEntry argvVa cr3 stackTop stack with
          | (none, s) => (none, vmmDestroyAddressSpace v i, s)
          | (some slot, s) =>
            (some (slot, i), v,
              s.setTask (some slot) (setHeap (asPtr i) maxSegEnd (s.taskPool slot)))

end Elf

end CoolFrost
