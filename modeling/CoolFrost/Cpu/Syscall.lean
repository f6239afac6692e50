import CoolFrost.Kernel.Sbrk

/-!
# System calls

`is_user_range` (`cpu/paging.c`) and `syscall_dispatch` (`cpu/syscall.c`).  Of the rest of the
kernel only what the system calls ask of it is there, as functions on a state of its own.  The
ranges that `is_user_range` has answered for and the ranges of user memory that are read and written
are logged.
-/

namespace CoolFrost

open Program Vmm Elf

namespace Syscall

/-- The registers that a system call reads and writes (`registers_t`). -/
structure Regs where
  rax : UInt64
  rdi : UInt64
  rsi : UInt64
  rdx : UInt64
  r10 : UInt64

/-- `is_user_range` has answered 1 for the `len` bytes at `p`, with the page tables in `mem` at
`cr3`; or user memory is read or written there. -/
inductive PtrEvent
  | checked (mem : Bytes) (cr3 p len : ℕ)
  | access (p len : ℕ)

/-- The registers, the memory manager with the memory, the root of the page tables that are in use,
the heap of the task, the rest of the kernel, and what has been done with pointers. -/
structure State (σ : Type) where
  regs : Regs
  vmm : Vmm
  cr3 : ℕ
  heap : Heap
  kernel : σ
  log : List PtrEvent

/-- What a system call asks of the rest of the kernel.  A screen is its width and height; paths and
texts come with the zero at their end; `vfs_read` gets the bytes of the buffer and gives those that
it leaves there; the events, the results of `vfs_stat` and the directory entries are bytes, if there
are any. -/
structure Services (σ : Type) where
  schedKillCurrent : σ → σ
  schedWantReschedule : σ → σ
  getTick : σ → UInt64
  eventPoll : σ → Option (List UInt8) × σ
  gfxScreen : σ → Option (Int32 × Int32)
  putPixels : ℕ → List UInt8 → σ → σ
  gfxPresent : σ → σ
  gfxPresentRect : ℤ → ℤ → ℤ → ℤ → σ → σ
  gfxFillRect : ℤ → ℤ → ℤ → ℤ → UInt32 → σ → σ
  gfxDrawText : ℤ → ℤ → List UInt8 → UInt32 → UInt32 → σ → σ
  screenGlyph : ℕ → List UInt8
  vfsOpen : List UInt8 → UInt8 → σ → Int32 × σ
  vfsClose : Int32 → σ → Int32 × σ
  vfsRead : Int32 → List UInt8 → σ → (Int32 × List UInt8) × σ
  vfsSeek : Int32 → UInt64 → σ → Int32 × σ
  vfsWrite : Int32 → List UInt8 → σ → Int32 × σ
  vfsStat : List UInt8 → σ → Option (List UInt8) × σ
  vfsFstat : Int32 → σ → Option (List UInt8) × σ
  vfsReaddir : Int32 → UInt32 → σ → Option (List UInt8) × σ
  vfsUnlink : List UInt8 → σ → Int32 × σ
  vfsRename : List UInt8 → List UInt8 → σ → Int32 × σ
  kprint : List UInt8 → σ → σ

/-- `MAX_PATH`. -/
def maxPath : ℕ := 256
/-- `sizeof(event_t)`. -/
def eventSize : ℕ := 12
/-- `sizeof(vfs_stat_t)`. -/
def statSize : ℕ := 16
/-- `sizeof(dirent_t)`. -/
def direntSize : ℕ := 144

/-! ## Checking a range -/

/-- `in_range`. -/
def inRange (p len start stop : ℕ) : Bool :=
  if len = 0 then start ≤ p && p < stop
  else if p < start ∨ stop ≤ p then false
  else if stop - p < len then false
  else true

section

variable {σ α : Type} (S : Services σ) (K : Kmalloc) (userStart userEnd : UInt64)

/-- `is_user_range`, with the page tables at `cr3`. -/
def isUserRange (mem : Bytes) (cr3 p len : ℕ) : Option Bool :=
  if inRange p len userStart.toNat userEnd.toNat then some true
  else if inRange p len userBase (userBase + userSize) then vmmRangeMapped mem cr3 p len
  else some false

/-- Put a result into `rax`. -/
def setRax (v : UInt64) : Program (State σ) PUnit :=
  modify fun s => { s with regs := { s.regs with rax := v } }

/-- `(uint64_t)-1` is the result. -/
def fail : Program (State σ) PUnit := setRax (-1)

/-- The test `if (!is_user_range(p, len))` of a system call, and what comes behind it. -/
def withRange (p len : ℕ) (m : Program (State σ) PUnit) : Program (State σ) PUnit := do
  let s ← get
  match isUserRange userStart userEnd s.vmm.mem s.cr3 p len with
  | none => fun _ => none
  | some false => fail
  | some true => do
    modify fun s => { s with log := s.log ++ [.checked s.vmm.mem s.cr3 p len] }
    m

/-! ## User memory -/

/-- Where the byte at an address is in memory; the kernel's own addresses are those of the
memory. -/
def place (mem : Bytes) (cr3 a : ℕ) : ℕ :=
  if userBase ≤ a ∧ a < userBase + userSize then
    match walk mem cr3 a with
    | some (frame, _) => frame + a % 4096
    | none => a
  else a

/-- Read user memory. -/
def copyIn (p len : ℕ) : Program (State σ) (List UInt8) := do
  modify fun s => { s with log := s.log ++ [.access p len] }
  let s ← get
  return (List.range len).map fun i => s.vmm.mem (place s.vmm.mem s.cr3 (p + i))

/-- The memory with the bytes of a list at the addresses from `p` on. -/
def stored (mem : Bytes) (cr3 p len : ℕ) (data : List UInt8) : Bytes :=
  (List.range len).foldl (fun mem' i =>
    Function.update mem' (place mem cr3 (p + i)) (data.getD i 0)) mem

/-- Write user memory. -/
def copyOut (p len : ℕ) (data : List UInt8) : Program (State σ) PUnit :=
  modify fun s => { s with
    vmm := { s.vmm with mem := stored s.vmm.mem s.cr3 p len data }
    log := s.log ++ [.access p len] }

/-- A path or a text that is copied to a local buffer, with a zero at the end. -/
def copyString (p len : ℕ) : Program (State σ) (List UInt8) := do
  let data ← copyIn p len
  return data ++ [0]

/-- The test `if (len > max) len = max`. -/
def capped (max len : ℕ) : ℕ := if max < len then max else len

/-- Ask something of the rest of the kernel. -/
def ask (g : σ → α × σ) : Program (State σ) α :=
  modifyGet fun s => ((g s.kernel).1, { s with kernel := (g s.kernel).2 })

/-- Have something done by the rest of the kernel. -/
def order (g : σ → σ) : Program (State σ) PUnit := modify fun s => { s with kernel := g s.kernel }

/-- An `int` as a result. -/
def setRaxInt (r : Int32) : Program (State σ) PUnit := setRax r.toInt64.toUInt64

/-- An argument as an `int`. -/
def toInt (r : UInt64) : Int32 := r.toUInt32.toInt32

/-- A coordinate that is packed into an argument at a bit. -/
def unpacked (r : UInt64) (shift : ℕ) : ℤ := r.toNat / 2 ^ shift % 65536

/-! ## The system calls -/

/-- `SYS_EVENT_POLL`. -/
def sysEventPoll (r : Regs) : Program (State σ) PUnit :=
  withRange userStart userEnd r.rdi.toNat eventSize do
    match ← ask S.eventPoll with
    | none => setRax 0
    | some ev => do
      setRax 1
      copyOut r.rdi.toNat eventSize ev

/-- The number of bytes of a screen, computed as a `size_t`. -/
def screenBytes (w h : Int32) : ℕ := (w.toInt * h.toInt * 4 % 2 ^ 64).toNat

/-- `SYS_GFX_PRESENT`. -/
def sysGfxPresent (r : Regs) : Program (State σ) PUnit := do
  let s ← get
  match S.gfxScreen s.kernel with
  | none => fail
  | some (w, h) =>
    withRange userStart userEnd r.rdi.toNat (screenBytes w h) do
      let pixels ← copyIn r.rdi.toNat (screenBytes w h)
      order (S.putPixels 0 pixels)
      order S.gfxPresent
      setRax 0

/-- A round of the loop of `SYS_GFX_PRESENT_RECT`; the row of the screen is at a `size_t` offset. -/
def presentRow (src : ℕ) (scrW x y w : ℤ) (row : ℕ) : Program (State σ) PUnit := do
  let off := (((y + row) * scrW + x) * 4 % 2 ^ 64).toNat
  let pixels ← copyIn ((src + off) % 2 ^ 64) (w * 4).toNat
  order (S.putPixels off pixels)

/-- The end of `SYS_GFX_PRESENT_RECT`, for a rectangle that is on the screen. -/
def presentClipped (src : ℕ) (scrW scrH : Int32) (x y w h : ℤ) : Program (State σ) PUnit :=
  withRange userStart userEnd src (screenBytes scrW scrH) do
    forM (List.range h.toNat) (presentRow S src scrW.toInt x y w)
    order (S.gfxPresentRect x y w h)
    setRax 0

/-- `SYS_GFX_PRESENT_RECT`. -/
def sysGfxPresentRect (r : Regs) : Program (State σ) PUnit := do
  let s ← get
  match S.gfxScreen s.kernel with
  | none => fail
  | some (scrW, scrH) =>
    let x := unpacked r.rsi 48
    let y := unpacked r.rsi 32
    let w := if x < 0 then unpacked r.rsi 16 + x else unpacked r.rsi 16
    let h := if y < 0 then unpacked r.rsi 0 + y else unpacked r.rsi 0
    let x := if x < 0 then 0 else x
    let y := if y < 0 then 0 else y
    if scrW.toInt ≤ x ∨ scrH.toInt ≤ y ∨ w ≤ 0 ∨ h ≤ 0 then setRax 0
    else
      let w := if scrW.toInt < x + w then scrW.toInt - x else w
      let h := if scrH.toInt < y + h then scrH.toInt - y else h
      presentClipped S userStart userEnd r.rdi.toNat scrW scrH x y w h

/-- `SYS_FB_INFO`. -/
def sysFbInfo : Program (State σ) PUnit := do
  let s ← get
  match S.gfxScreen s.kernel with
  | none => setRax 0
  | some (w, h) => setRax (w.toUInt32.toUInt64 <<< 32 ||| h.toUInt32.toUInt64)

/-- `SYS_GET_FONT`. -/
def sysGetFont (r : Regs) : Program (State σ) PUnit :=
  withRange userStart userEnd r.rdi.toNat (256 * 16) do
    forM (List.range 256) fun ch => copyOut ((r.rdi.toNat + ch * 16) % 2 ^ 64) 16 (S.screenGlyph ch)
    setRax 0

/-- `SYS_OPEN`. -/
def sysOpen (r : Regs) : Program (State σ) PUnit :=
  withRange userStart userEnd r.rdi.toNat (capped (maxPath - 1) r.rsi.toNat) do
    let path ← copyString r.rdi.toNat (capped (maxPath - 1) r.rsi.toNat)
    let fd ← ask (S.vfsOpen path r.rdx.toUInt8)
    setRaxInt fd

/-- `SYS_CLOSE`. -/
def sysClose (r : Regs) : Program (State σ) PUnit := do
  let rc ← ask (S.vfsClose (toInt r.rdi))
  setRaxInt rc

/-- `SYS_READ`. -/
def sysRead (r : Regs) : Program (State σ) PUnit :=
  withRange userStart userEnd r.rsi.toNat r.rdx.toNat do
    let buf ← copyIn r.rsi.toNat r.rdx.toNat
    let res ← ask (S.vfsRead (toInt r.rdi) buf)
    copyOut r.rsi.toNat r.rdx.toNat res.2
    setRaxInt res.1

/-- `SYS_SEEK`. -/
def sysSeek (r : Regs) : Program (State σ) PUnit := do
  let rc ← ask (S.vfsSeek (toInt r.rdi) r.rsi)
  setRaxInt rc

/-- `SYS_FWRITE`. -/
def sysFwrite (r : Regs) : Program (State σ) PUnit :=
  withRange userStart userEnd r.rsi.toNat r.rdx.toNat do
    let buf ← copyIn r.rsi.toNat r.rdx.toNat
    let rc ← ask (S.vfsWrite (toInt r.rdi) buf)
    setRaxInt rc

/-- The end of a system call that gives a result, if there is one. -/
def giveOut (p size : ℕ) (res : Option (List UInt8)) : Program (State σ) PUnit :=
  match res with
  | none => fail
  | some data => do
    copyOut p size data
    setRax 0

/-- `SYS_STAT`. -/
def sysStat (r : Regs) : Program (State σ) PUnit :=
  withRange userStart userEnd r.rdi.toNat (capped (maxPath - 1) r.rsi.toNat)
    (withRange userStart userEnd r.rdx.toNat statSize do
      let path ← copyString r.rdi.toNat (capped (maxPath - 1) r.rsi.toNat)
      let st ← ask (S.vfsStat path)
      giveOut r.rdx.toNat statSize st)

/-- `SYS_FSTAT`. -/
def sysFstat (r : Regs) : Program (State σ) PUnit :=
  withRange userStart userEnd r.rsi.toNat statSize do
    let st ← ask (S.vfsFstat (toInt r.rdi))
    giveOut r.rsi.toNat statSize st

/-- `SYS_READDIR`. -/
def sysReaddir (r : Regs) : Program (State σ) PUnit :=
  withRange userStart userEnd r.rdx.toNat direntSize do
    let de ← ask (S.vfsReaddir (toInt r.rdi) r.rsi.toUInt32)
    giveOut r.rdx.toNat direntSize de

/-- The answer of a system call that only succeeds or fails. -/
def setRaxOk (rc : Int32) : Program (State σ) PUnit := if rc = 0 then setRax 0 else fail

/-- `SYS_UNLINK`. -/
def sysUnlink (r : Regs) : Program (State σ) PUnit :=
  withRange userStart userEnd r.rdi.toNat (capped (maxPath - 1) r.rsi.toNat) do
    let path ← copyString r.rdi.toNat (capped (maxPath - 1) r.rsi.toNat)
    let rc ← ask (S.vfsUnlink path)
    setRaxOk rc

/-- `SYS_SBRK`. -/
def sysSbrk (r : Regs) : Program (State σ) PUnit := do
  let s ← get
  let res := sbrk K s.heap r.rdi s.vmm
  modify fun s => { s with heap := res.2.1, vmm := res.2.2 }
  setRax (.ofNat res.1)

/-- `SYS_RENAME`. -/
def sysRename (r : Regs) : Program (State σ) PUnit :=
  withRange userStart userEnd r.rdi.toNat (capped (maxPath - 1) r.rsi.toNat)
    (withRange userStart userEnd r.rdx.toNat (capped (maxPath - 1) r.r10.toNat) do
      let oldPath ← copyString r.rdi.toNat (capped (maxPath - 1) r.rsi.toNat)
      let newPath ← copyString r.rdx.toNat (capped (maxPath - 1) r.r10.toNat)
      let rc ← ask (S.vfsRename oldPath newPath)
      setRaxOk rc)

/-- `SYS_GFX_FILL_RECT`. -/
def sysGfxFillRect (r : Regs) : Program (State σ) PUnit := do
  let s ← get
  if S.gfxScreen s.kernel = none then fail
  else do
    order (S.gfxFillRect (unpacked r.rdi 48) (unpacked r.rdi 32) (unpacked r.rdi 16)
      (unpacked r.rdi 0)
      r.rsi.toUInt32)
    setRax 0

/-- `SYS_GFX_DRAW_TEXT`. -/
def sysGfxDrawText (r : Regs) : Program (State σ) PUnit := do
  let s ← get
  if S.gfxScreen s.kernel = none then fail
  else
    withRange userStart userEnd r.rsi.toNat (capped 256 r.rdx.toNat) do
      let text ← copyString r.rsi.toNat (capped 256 r.rdx.toNat)
      order (S.gfxDrawText (unpacked r.rdi 16) (unpacked r.rdi 0) text (r.r10 >>> 32).toUInt32
        r.r10.toUInt32)
      setRax 0

/-- `SYS_GFX_FLUSH_RECT`. -/
def sysGfxFlushRect (r : Regs) : Program (State σ) PUnit := do
  let s ← get
  if S.gfxScreen s.kernel = none then fail
  else do
    order (S.gfxPresentRect (unpacked r.rdi 48) (unpacked r.rdi 32) (unpacked r.rdi 16)
      (unpacked r.rdi 0))
    setRax 0

/-- `SYS_WRITE`. -/
def sysWrite (r : Regs) : Program (State σ) PUnit :=
  withRange userStart userEnd r.rdi.toNat (capped 256 r.rsi.toNat) do
    let text ← copyString r.rdi.toNat (capped 256 r.rsi.toNat)
    order (S.kprint text)
    setRax (.ofNat (capped 256 r.rsi.toNat))

/-- `syscall_dispatch`; the numbers 22 to 25 are reserved. -/
def syscallDispatch : Program (State σ) PUnit := do
  let s ← get
  match s.regs.rax.toNat with
  | 0 => do
    order S.schedKillCurrent
    setRax 0
  | 1 => do
    order S.schedWantReschedule
    setRax 0
  | 2 => setRax (S.getTick s.kernel)
  | 3 => sysEventPoll S userStart userEnd s.regs
  | 4 => sysGfxPresent S userStart userEnd s.regs
  | 5 => sysFbInfo S
  | 6 => sysGetFont S userStart userEnd s.regs
  | 7 => sysWrite S userStart userEnd s.regs
  | 8 => sysGfxPresentRect S userStart userEnd s.regs
  | 9 => sysOpen S userStart userEnd s.regs
  | 10 => sysClose S s.regs
  | 11 => sysRead S userStart userEnd s.regs
  | 12 => sysSeek S s.regs
  | 13 => sysFwrite S userStart userEnd s.regs
  | 14 => sysStat S userStart userEnd s.regs
  | 15 => sysFstat S userStart userEnd s.regs
  | 16 => sysReaddir S userStart userEnd s.regs
  | 17 => sysUnlink S userStart userEnd s.regs
  | 18 => sysSbrk K s.regs
  | 19 => sysRename S userStart userEnd s.regs
  | 20 => sysGfxFillRect S s.regs
  | 21 => sysGfxDrawText S userStart userEnd s.regs
  | 26 => sysGfxFlushRect S s.regs
  | _ => fail

end

end Syscall

end CoolFrost
