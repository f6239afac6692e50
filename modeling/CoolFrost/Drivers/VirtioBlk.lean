import CoolFrost.Lib.Bytes

/-!
# The virtio-blk driver

`drivers/virtio_blk.c` together with the devices it drives.  A device is seen through its I/O
window: the driver sets its status, tells it where the queue is and notifies it, and the device then
carries out the requests in the queue that it has not seen yet.  All of the driver's queue state is
static and shared by the drives: the ring, the indices into it and the I/O base.

The polling loop of `vblk_issue` is a single look at the used ring, as a device that carries
requests out does so when it is notified.  `initialised`, `notified` and `served` are a record of
what happens that neither the driver nor a device reads.
-/

namespace CoolFrost

/-- A legacy virtio-blk function as PCI and its configuration registers show it. -/
structure VirtioFunc where
  bar0 : UInt32
  queueSize : UInt16
  capacity : UInt64

namespace VirtioFunc

/-- BAR0 is an I/O window. -/
def isIo (f : VirtioFunc) : Bool := f.bar0 &&& 1 ≠ 0

/-- The first port of the I/O window. -/
def ioBase (f : VirtioFunc) : UInt16 := (f.bar0 &&& 0xFFFC).toUInt16

end VirtioFunc

/-- The virtio-blk functions in the order of the PCI scan.  No two I/O windows are the same. -/
structure VirtioBus where
  funcs : List VirtioFunc
  windows : ∀ {i j : ℕ} {f g : VirtioFunc}, funcs[i]? = some f → funcs[j]? = some g →
    f.isIo → g.isIo → f.ioBase = g.ioBase → i = j

namespace VirtioBus

/-- The function with number `k`. -/
def func (bus : VirtioBus) (k : ℕ) : VirtioFunc := bus.funcs.getD k ⟨0, 0, 0⟩

/-- The function whose I/O window begins at a port. -/
def devAt (bus : VirtioBus) (base : UInt16) : Option ℕ :=
  bus.funcs.findIdx? fun f => f.isIo && f.ioBase == base

end VirtioBus

/-- The state of a device. -/
structure VirtioDev where
  disk : Bytes
  status : UInt8
  queuePfn : UInt32
  /-- The number of entries of the available ring that it has seen, modulo `2 ^ 16`. -/
  seen : UInt16

/-- The buffers that a descriptor can point to; `ring` is what is left of an address that the
available ring lies on. -/
inductive VringAddr where
  | null
  | hdr
  | data
  | stat
  | ring
  deriving DecidableEq, Repr

/-- A descriptor of the queue. -/
structure VringDesc where
  addr : VringAddr
  len : ℕ
  flags : UInt16
  next : UInt16

/-- `vblk_drive_t`. -/
structure VblkDrive where
  active : Bool
  sectorCount : UInt64

/-- The devices, the queue and the static variables of the driver. -/
structure Vblk where
  dev : ℕ → VirtioDev
  desc : ℕ → VringDesc
  availRing : ℕ → UInt16
  availIdx : UInt16
  usedIdx : UInt16
  hdrType : UInt32
  hdrSector : UInt64
  vblkStat : UInt8
  vblkDma : Bytes
  vqSize : UInt16
  vqAvailHead : UInt16
  vqUsedLast : UInt16
  vqIoBase : UInt16
  vblkDrives : ℕ → VblkDrive
  vblkNdrive : ℕ
  /-- The device of each drive. -/
  initialised : List ℕ
  /-- The devices notified. -/
  notified : List ℕ
  /-- The device that carried out each request. -/
  served : List ℕ

namespace Vblk

/-- `VQ_MAXSIZE`. -/
def vqMaxSize : ℕ := 128
/-- `MAX_VBLK`. -/
def maxVblk : ℕ := 4
/-- `VRING_F_NEXT`. -/
def vringNext : UInt16 := 1
/-- `VRING_F_WRITE`. -/
def vringWrite : UInt16 := 2
/-- `VIRTIO_BLK_T_IN`. -/
def blkIn : UInt32 := 0
/-- `VIRTIO_BLK_T_OUT`. -/
def blkOut : UInt32 := 1
/-- `VIRTIO_ACK`. -/
def virtioAck : UInt8 := 1
/-- `VIRTIO_DRV`. -/
def virtioDrv : UInt8 := 2
/-- `VIRTIO_DRV_OK`. -/
def virtioDrvOk : UInt8 := 4
/-- The page frame of `virtq_mem`. -/
def virtqPfn : UInt32 := 0x100

/-! ## The devices -/

/-- Change the state of the device whose window begins at a port. -/
def atPort (bus : VirtioBus) (base : UInt16) (g : VirtioDev → VirtioDev) (s : Vblk) : Vblk :=
  match bus.devAt base with
  | none => s
  | some k => { s with dev := Function.update s.dev k (g (s.dev k)) }

/-- Write the status register; writing 0 resets the device. -/
def outStatus (bus : VirtioBus) (base : UInt16) (v : UInt8) : Vblk → Vblk :=
  atPort bus base fun d =>
    if v = 0 then { d with status := 0, queuePfn := 0, seen := 0 } else { d with status := v }

/-- Write the queue address. -/
def outQueueAddr (bus : VirtioBus) (base : UInt16) (pfn : UInt32) : Vblk → Vblk :=
  atPort bus base fun d => { d with queuePfn := pfn }

/-- Read the queue size; a port that nothing answers reads as all ones. -/
def inQueueSize (bus : VirtioBus) (base : UInt16) : UInt16 :=
  match bus.devAt base with
  | none => 0xFFFF
  | some k => (bus.func k).queueSize

/-- Read the capacity. -/
def inCapacity (bus : VirtioBus) (base : UInt16) : UInt64 :=
  match bus.devAt base with
  | none => 0xFFFFFFFFFFFFFFFF
  | some k => (bus.func k).capacity

/-- What a device does to its disk, the data buffer and the status byte for the request in the
header with `len` bytes of data; requests beyond its capacity fail. -/
def execute (cap : UInt64) (s : Vblk) (disk : Bytes) (len : ℕ) : Bytes × Bytes × UInt8 :=
  if cap.toNat * 512 < s.hdrSector.toNat * 512 + len then (disk, s.vblkDma, 1)
  else if s.hdrType = blkIn then
    (disk, Bytes.blit s.vblkDma 0 (Bytes.shift disk (s.hdrSector.toNat * 512)) len, 0)
  else if s.hdrType = blkOut then
    (Bytes.blit disk (s.hdrSector.toNat * 512) s.vblkDma len, s.vblkDma, 0)
  else (disk, s.vblkDma, 2)

/-- Device `k` takes the next chain of the available ring: a header, a data buffer and a status
byte.  A descriptor with a number that the queue does not have is not one of its own. -/
def serveOne (bus : VirtioBus) (k : ℕ) (s : Vblk) : Vblk :=
  let d := s.dev k
  let n := (bus.func k).queueSize.toNat
  let d0 := s.desc (s.availRing (d.seen.toNat % n)).toNat
  let d1 := s.desc d0.next.toNat
  let d2 := s.desc d1.next.toNat
  if (d0.next.toNat < n ∧ d1.next.toNat < n) ∧
      d0.addr = .hdr ∧ d1.addr = .data ∧ d2.addr = .stat then
    let (disk, dma, stat) := execute (bus.func k).capacity s d.disk d1.len
    { s with
      dev := Function.update s.dev k { d with disk := disk, seen := d.seen + 1 }
      vblkDma := dma
      vblkStat := stat
      usedIdx := s.usedIdx + 1
      served := s.served ++ [k] }
  else { s with dev := Function.update s.dev k { d with seen := d.seen + 1 } }

/-- Notify the device whose window begins at a port.  It carries out the requests that it has not
seen yet, if its driver is ready and has given it the queue. -/
def notify (bus : VirtioBus) (base : UInt16) (s : Vblk) : Vblk :=
  match bus.devAt base with
  | none => s
  | some k =>
    let s := { s with notified := s.notified ++ [k] }
    let d := s.dev k
    if d.status &&& virtioDrvOk ≠ 0 ∧ d.queuePfn = virtqPfn then
      (serveOne bus k)^[(s.availIdx - d.seen).toNat] s
    else s

/-! ## The driver -/

/-- The chain of three descriptors that `vblk_issue` writes. -/
def chain (type : UInt32) (dmaLen : ℕ) (desc : ℕ → VringDesc) (i : ℕ) : VringDesc :=
  if i = 0 then ⟨.hdr, 16, vringNext, 1⟩
  else if i = 1 then ⟨.data, dmaLen, (if type = blkIn then vringWrite else 0) ||| vringNext, 2⟩
  else if i = 2 then ⟨.stat, 1, vringWrite, 0⟩
  else desc i

/-- The first half of `vblk_issue`: write the chain and the header, and put the chain into the
available ring.  The ring lies where the descriptor number `vq_size` would be (`AVAIL_BASE`), so a
queue with one or two descriptors loses the address in one of the chain. -/
def queueChain (type : UInt32) (lba : UInt64) (dmaLen : ℕ) (s : Vblk) : Vblk :=
  { s with
    desc := fun i =>
      let d := chain type dmaLen s.desc i
      if i = s.vqSize.toNat then { d with addr := .ring } else d
    hdrType := type
    hdrSector := lba
    availRing := Function.update s.availRing (s.vqAvailHead.toNat % s.vqSize.toNat) 0
    availIdx := s.vqAvailHead + 1
    vqAvailHead := s.vqAvailHead + 1 }

/-- The second half of `vblk_issue`: look at the used ring and at the status byte. -/
def takeUsed (s : Vblk) : Bool × Vblk :=
  if s.usedIdx = s.vqUsedLast then (false, s)
  else (s.vblkStat = 0, { s with vqUsedLast := s.usedIdx })

/-- `vblk_issue`.  It divides by the queue size, which is 0 after some failed initialisations. -/
def vblkIssue (bus : VirtioBus) (type : UInt32) (lba : UInt64) (dmaLen : ℕ) (s : Vblk) :
    Option (Bool × Vblk) :=
  if s.vqSize = 0 then none
  else some (takeUsed (notify bus s.vqIoBase (queueChain type lba dmaLen s)))

/-- `vblk_init_one` for function `k`, up to what it prints. -/
def vblkInitOne (bus : VirtioBus) (k : ℕ) (s : Vblk) : Bool × Vblk :=
  let f := bus.func k
  if !f.isIo then (false, s)
  else
    let base := f.ioBase
    let s := { s with vqIoBase := base }
    let s := outStatus bus base 0 s
    let s := outStatus bus base virtioAck s
    let s := outStatus bus base (virtioAck ||| virtioDrv) s
    let s := { s with vqSize := inQueueSize bus base }
    if s.vqSize = 0 ∨ vqMaxSize < s.vqSize.toNat then (false, s)
    else
      let s := { s with
        desc := fun _ => ⟨.null, 0, 0, 0⟩
        availRing := fun _ => 0
        availIdx := 0
        usedIdx := 0
        vqAvailHead := 0
        vqUsedLast := 0 }
      let s := outQueueAddr bus base virtqPfn s
      let s := outStatus bus base (virtioAck ||| virtioDrv ||| virtioDrvOk) s
      (true, { s with
        vblkDrives := Function.update s.vblkDrives s.vblkNdrive ⟨true, inCapacity bus base⟩
        vblkNdrive := s.vblkNdrive + 1
        initialised := s.initialised ++ [k] })

/-- One function of the scan of `vblk_init`. -/
def vblkScan (bus : VirtioBus) (s : Vblk) (k : ℕ) : Vblk :=
  if maxVblk ≤ s.vblkNdrive then s else (vblkInitOne bus k s).2

/-- `vblk_init`. -/
def vblkInit (bus : VirtioBus) (s : Vblk) : Vblk :=
  (List.range bus.funcs.length).foldl (vblkScan bus) s

/-- `vblk_read_sectors`: the bytes read, or `none` for the return code -1. -/
def vblkReadSectors (bus : VirtioBus) (drv : UInt8) (lba : UInt64) (count : UInt8) (s : Vblk) :
    Option (Option (List UInt8) × Vblk) :=
  if s.vblkNdrive % 256 ≤ drv.toNat ∨ count = 0 then some (if count = 0 then some [] else none, s)
  else if vqMaxSize * 512 < count.toNat * 512 then some (none, s)
  else
    (vblkIssue bus blkIn lba (count.toNat * 512) s).map fun (ok, s) =>
      (if ok then some (Bytes.slice s.vblkDma 0 (count.toNat * 512)) else none, s)

/-- `vblk_write_sectors`: no bytes, or `none` for the return code -1. -/
def vblkWriteSectors (bus : VirtioBus) (drv : UInt8) (lba : UInt64) (count : UInt8) (buf : Bytes)
    (s : Vblk) : Option (Option (List UInt8) × Vblk) :=
  if s.vblkNdrive % 256 ≤ drv.toNat ∨ count = 0 then some (if count = 0 then some [] else none, s)
  else if vqMaxSize * 512 < count.toNat * 512 then some (none, s)
  else
    let s := { s with vblkDma := Bytes.blit s.vblkDma 0 buf (count.toNat * 512) }
    (vblkIssue bus blkOut lba (count.toNat * 512) s).map fun (ok, s) =>
      (if ok then some [] else none, s)

/-- The driver before `vblk_init`, with the devices as the firmware left them. -/
def boot (dev : ℕ → VirtioDev) : Vblk where
  dev := dev
  desc := fun _ => ⟨.null, 0, 0, 0⟩
  availRing := fun _ => 0
  availIdx := 0
  usedIdx := 0
  hdrType := 0
  hdrSector := 0
  vblkStat := 0
  vblkDma := Bytes.zeros
  vqSize := 0
  vqAvailHead := 0
  vqUsedLast := 0
  vqIoBase := 0
  vblkDrives := fun _ => ⟨false, 0⟩
  vblkNdrive := 0
  initialised := []
  notified := []
  served := []

end Vblk

/-! ## Runs -/

/-- A call of the driver's read or write function. -/
inductive VblkReq where
  | read (drv : UInt8) (lba : UInt64) (count : UInt8)
  | write (drv : UInt8) (lba : UInt64) (count : UInt8) (buf : Bytes)

namespace VblkReq

/-- The drive that a request names. -/
def drv : VblkReq → UInt8
  | .read drv _ _ => drv
  | .write drv _ _ _ => drv

/-- The number of sectors of a request. -/
def count : VblkReq → UInt8
  | .read _ _ count => count
  | .write _ _ count _ => count

end VblkReq

/-- What comes of a request: its reply, the devices notified and the devices that carried it out. -/
structure VblkOutcome where
  reply : Option (List UInt8)
  notified : List ℕ
  served : List ℕ
  deriving DecidableEq

namespace Vblk

/-- Carry out one request, with a fresh record of what happens; `none` is a division by zero. -/
def handle (bus : VirtioBus) (s : Vblk) (r : VblkReq) : Option (VblkOutcome × Vblk) :=
  let s := { s with notified := [], served := [] }
  let res := match r with
    | .read drv lba count => vblkReadSectors bus drv lba count s
    | .write drv lba count buf => vblkWriteSectors bus drv lba count buf s
  res.map fun (reply, s) => (⟨reply, s.notified, s.served⟩, s)

/-- The outcome of each request of a run; nothing comes after a division by zero. -/
def runReqs (bus : VirtioBus) : Vblk → List VblkReq → List (Option VblkOutcome)
  | _, [] => []
  | s, r :: reqs =>
    match handle bus s r with
    | none => [none]
    | some (o, s) => some o :: runReqs bus s reqs

end Vblk

end CoolFrost
