import CoolFrost.Cpu.Sched
import CoolFrost.Fs.Fat32.Ops
import CoolFrost.Fs.Ext2.Ops
import CoolFrost.Fs.ReadOnly

/-!
# The virtual file system

`fs/vfs.c`: the mount table, path resolution, and the operations that tasks call, each acting on the
table of open files of the current task.  A path is the list of its bytes, without the terminating
zero.
-/

namespace CoolFrost

open Program

/-- `fs_type`. -/
inductive FsType where
  | none
  | fat32
  | ext2
  | ntfs
  | xfs
  deriving DecidableEq, Repr

/-- An entry of the mount table (`mount_point_t`). -/
structure MountPoint where
  path : List UInt8
  root : Option VNode
  active : Bool
  fsType : FsType
  deriving DecidableEq, Repr

/-- The decoding of the two read-only formats. -/
structure RoFormats where
  ntfs : RoFormat
  xfs : RoFormat

/-- The state behind the virtual file system.  Every driver works on the one `blk`; the copy that a
driver's own state carries is replaced by it whenever the driver is entered. -/
structure Kernel where
  blk : BlkDev
  fat32 : Fat32State
  ext2 : Ext2State
  ntfs : RoState
  xfs : RoState
  mounts : ℕ → MountPoint
  sched : Sched

namespace Vfs

/-- `MAX_MOUNTS`. -/
def maxMounts : ℕ := 8
/-- `MAX_PATH`. -/
def maxPath : ℕ := 256
/-- The size of `mount_point_t.path`. -/
def mountPathSize : ℕ := 64
/-- The character `/`. -/
def slash : UInt8 := 47

/-! ## Entering a driver -/

/-- Run an operation of the FAT32 driver. -/
def inFat32 {α : Type} (m : Program Fat32State α) : Program Kernel α :=
  zoom (fun k => { k.fat32 with blk := k.blk }) (fun s k => { k with fat32 := s, blk := s.blk }) m

/-- Run an operation of the ext2 driver. -/
def inExt2 {α : Type} (m : Program Ext2State α) : Program Kernel α :=
  zoom (fun k => { k.ext2 with blk := k.blk }) (fun s k => { k with ext2 := s, blk := s.blk }) m

/-- Run an operation of the NTFS driver. -/
def inNtfs {α : Type} (m : Program RoState α) : Program Kernel α :=
  zoom (fun k => { k.ntfs with blk := k.blk }) (fun s k => { k with ntfs := s, blk := s.blk }) m

/-- Run an operation of the XFS driver. -/
def inXfs {α : Type} (m : Program RoState α) : Program Kernel α :=
  zoom (fun k => { k.xfs with blk := k.blk }) (fun s k => { k with xfs := s, blk := s.blk }) m

/-- Run a transfer of the block layer. -/
def io {α : Type} (m : Program BlkDev α) : Program Kernel α :=
  zoom Kernel.blk (fun d k => { k with blk := d }) m

/-- The `type` of a node. -/
def nodeType (k : Kernel) : VNode → VfsType
  | .fat32 i => (k.fat32.nodePool i).type
  | .ext2 i => (k.ext2.nodePool i).type
  | .ntfs i => (k.ntfs.nodePool i).type
  | .xfs i => (k.xfs.nodePool i).type

/-- The `size` of a node. -/
def nodeSize (k : Kernel) : VNode → ℕ
  | .fat32 i => (k.fat32.nodePool i).size
  | .ext2 i => (k.ext2.nodePool i).size
  | .ntfs i => (k.ntfs.nodePool i).size
  | .xfs i => (k.xfs.nodePool i).size

/-- The `inode` of a node. -/
def nodeInode (k : Kernel) : VNode → ℕ
  | .fat32 i => (k.fat32.nodePool i).inode
  | .ext2 i => (k.ext2.nodePool i).inode
  | .ntfs i => (k.ntfs.nodePool i).inode
  | .xfs i => (k.xfs.nodePool i).inode

/-- The `parent` of a node. -/
def nodeParent (k : Kernel) : VNode → Option VNode
  | .fat32 i => (k.fat32.nodePool i).parent.map .fat32
  | .ext2 i => (k.ext2.nodePool i).parent.map .ext2
  | .ntfs i => (k.ntfs.nodePool i).parent.map .ntfs
  | .xfs i => (k.xfs.nodePool i).parent.map .xfs

section Operations

variable (F : RoFormats)

/-- `node->finddir`, which drivers set on directories only. -/
def finddir (node : VNode) (name : List UInt8) : Program Kernel (Option VNode) := do
  let k ← get
  if (nodeType k node).isDirectory then
    match node with
    | .fat32 i => Option.map .fat32 <$> inFat32 (Fat32.fat32Finddir i name)
    | .ext2 i => Option.map .ext2 <$> inExt2 (Ext2.ext2Finddir i name)
    | .ntfs i => Option.map .ntfs <$> inNtfs (RoFs.finddir F.ntfs i name)
    | .xfs i => Option.map .xfs <$> inXfs (RoFs.finddir F.xfs i name)
  else return none

/-- `node->create`, which only the FAT32 and the ext2 driver have. -/
def create (node : VNode) (name : List UInt8) : Program Kernel (Option VNode) := do
  let k ← get
  if (nodeType k node).isDirectory then
    match node with
    | .fat32 i => Option.map .fat32 <$> inFat32 (Fat32.fat32Create i name)
    | .ext2 i => Option.map .ext2 <$> inExt2 (Ext2.ext2Create i name)
    | .ntfs _ => return none
    | .xfs _ => return none
  else return none

/-! ## Paths -/

/-- Whether a mount point is in use and its path is `path` or one of its leading directories. -/
def covers (path : List UInt8) (m : MountPoint) : Bool :=
  m.active && m.path.isPrefixOf path && (path.drop m.path.length).head?.all (· == slash)

/-- `find_mount`: the place of the covering mount with the longest path, and the rest of the
path. -/
def findMount (k : Kernel) (path : List UInt8) : Option (ℕ × List UInt8) :=
  let best := (List.range maxMounts).foldl (fun best i =>
    if covers path (k.mounts i) && best.2 < (k.mounts i).path.length then
      (some i, (k.mounts i).path.length) else best) ((none, 0) : Option ℕ × ℕ)
  best.1.map fun i =>
    (i, let r := path.drop best.2; if r.head? = some slash then r.tail else r)

/-- `first_mount`. -/
def firstMount (k : Kernel) : Option ℕ :=
  (List.range maxMounts).find? fun i => (k.mounts i).active

/-- The mount a path belongs to and the path inside it, as every operation on paths finds them. -/
def locate (k : Kernel) (path : List UInt8) : Option (ℕ × List UInt8) :=
  if path.head? = some slash then findMount k path
  else (firstMount k).map fun i => (i, path)

/-- The components `walk_path` cuts a path into, given the part `cur` of the next one read so far.
A component that outgrows the buffer is cut there and the rest taken as the next one. -/
def components (cur : List UInt8) : List UInt8 → List (List UInt8)
  | [] => if cur = [] then [] else [cur]
  | c :: rest =>
    if c = slash then if cur = [] then components [] rest else cur :: components [] rest
    else if cur.length < maxFilename - 1 then components (cur ++ [c]) rest
    else cur :: components [c] rest

/-- The loop of `walk_path`. -/
def walkComponents : List (List UInt8) → VNode → Program Kernel (Option VNode)
  | [], node => return some node
  | name :: rest, node => do
    match ← finddir F node name with
    | none => return none
    | some child => walkComponents rest child

/-- `walk_path`. -/
def walkPath (root : Option VNode) (relpath : List UInt8) : Program Kernel (Option VNode) :=
  match root with
  | none => return none
  | some r => walkComponents F (components [] relpath) r

/-- `resolve_path`. -/
def resolvePath (path : List UInt8) : Program Kernel (Option VNode) := do
  let k ← get
  match locate k path with
  | none => return none
  | some (i, relpath) => walkPath F (k.mounts i).root relpath

/-- The part of a path before its last slash and the part after it. -/
def splitLast (relpath : List UInt8) : Option (List UInt8 × List UInt8) :=
  if slash ∈ relpath then
    let name := (relpath.reverse.takeWhile (· != slash)).reverse
    some (relpath.take (relpath.length - name.length - 1), name)
  else none

/-- `split_parent`: the directory that the last component of a path is in, and that component. -/
def splitParent (m : MountPoint) (relpath : List UInt8) :
    Program Kernel (Option VNode × List UInt8) := do
  match splitLast relpath with
  | none => return (m.root, relpath.take (maxFilename - 1))
  | some (dirpath, name) =>
    if maxPath ≤ dirpath.length then return (none, [])
    else return (← walkPath F m.root dirpath, name.take (maxFilename - 1))

/-! ## Mounting -/

/-- The first unused place of the mount table. -/
def freeSlot (k : Kernel) : Option ℕ :=
  (List.range maxMounts).find? fun i => !(k.mounts i).active

/-- Change an entry of the mount table. -/
def setMount (i : ℕ) (g : MountPoint → MountPoint) : Program Kernel PUnit :=
  modify fun k => { k with mounts := Function.update k.mounts i (g (k.mounts i)) }

/-- What a driver's mount function does to the mount point: on success it fills in the root and
switches it on. -/
def finishMount (slot : ℕ) (fsType : FsType) (r : Except ℤ VNode) : Program Kernel ℤ :=
  match r with
  | .error rc => return rc
  | .ok root => do
    setMount slot fun m => { m with root := some root, fsType := fsType, active := true }
    return 0

/-- `fat32_mount` on a place of the mount table. -/
def mountFat32 (dev : Drive) (lba slot : ℕ) : Program Kernel ℤ := do
  finishMount slot .fat32 ((← inFat32 (Fat32.fat32Mount dev lba)).map .fat32)

/-- `ext2_mount` on a place of the mount table. -/
def mountExt2 (dev : Drive) (lba slot : ℕ) : Program Kernel ℤ := do
  finishMount slot .ext2 ((← inExt2 (Ext2.ext2Mount dev lba)).map .ext2)

/-- `ntfs_mount` on a place of the mount table. -/
def mountNtfs (dev : Drive) (lba slot : ℕ) : Program Kernel ℤ := do
  finishMount slot .ntfs ((← inNtfs (RoFs.mount F.ntfs dev lba)).map .ntfs)

/-- `xfs_mount` on a place of the mount table. -/
def mountXfs (dev : Drive) (lba slot : ℕ) : Program Kernel ℤ := do
  finishMount slot .xfs ((← inXfs (RoFs.mount F.xfs dev lba)).map .xfs)

/-- `vfs_mount`: mount partition `partition` of the ATA drive `drive`. -/
def vfsMount (drive : ℕ) (partition : Fin 4) (mountPath : List UInt8) : Program Kernel ℤ := do
  match freeSlot (← get) with
  | none => return -1
  | some slot =>
    let dev : Drive := ⟨0, drive⟩
    match ← io (blkRead dev 0 1) with
    | none => return -2
    | some mbr =>
      if mbr 510 ≠ 0x55 ∨ mbr 511 ≠ 0xAA then return -2
      else
        let entry := 446 + 16 * partition.val
        let ptype := mbr (entry + 4)
        let lba := Bytes.le32 mbr (entry + 8)
        if ptype = 0 then return -3
        else
          setMount slot fun m => { m with path := mountPath.take (mountPathSize - 1) }
          if ptype = 0x0B ∨ ptype = 0x0C then mountFat32 dev lba slot
          else if ptype = 0x83 then
            let rc ← mountExt2 dev lba slot
            if rc = -2 then mountXfs F dev lba slot else return rc
          else if ptype = 0x07 then mountNtfs F dev lba slot
          else
            setMount slot fun m => { m with active := false }
            return -4

/-- The common body of the functions that mount a GPT partition: probe the partition itself. -/
def mountProbe (dev : Drive) (lbaStart : ℕ) (mountPath : List UInt8) : Program Kernel ℤ := do
  match freeSlot (← get) with
  | none => return -1
  | some slot =>
    setMount slot fun m => { m with path := mountPath.take (mountPathSize - 1) }
    match ← io (blkRead dev lbaStart 1) with
    | none => return -2
    | some boot =>
      if Bytes.le16 boot 11 = 512 ∧ Bytes.le16 boot 17 = 0 ∧ Bytes.le16 boot 22 = 0 then
        mountFat32 dev lbaStart slot
      else if boot 3 = 0x4E ∧ boot 4 = 0x54 ∧ boot 5 = 0x46 ∧ boot 6 = 0x53 then
        mountNtfs F dev lbaStart slot
      else
        let sb ← io (blkRead dev (lbaStart + 2) 1)
        if sb.any fun sb => Bytes.le16 sb 56 = 0xEF53 then mountExt2 dev lbaStart slot
        else
          setMount slot fun m => { m with active := false }
          return -4

/-- `vfs_mount_gpt`. -/
def vfsMountGpt (drive lbaStart : ℕ) (mountPath : List UInt8) : Program Kernel ℤ :=
  mountProbe F ⟨0, drive⟩ lbaStart mountPath

/-- `vfs_mount_nvme_gpt`. -/
def vfsMountNvmeGpt (nvmeIdx lbaStart : ℕ) (mountPath : List UInt8) : Program Kernel ℤ :=
  mountProbe F ⟨1, nvmeIdx⟩ lbaStart mountPath

/-- `vfs_mount_ahci_gpt`. -/
def vfsMountAhciGpt (ahciIdx lbaStart : ℕ) (mountPath : List UInt8) : Program Kernel ℤ :=
  mountProbe F ⟨2, ahciIdx⟩ lbaStart mountPath

/-- `vfs_mount_vblk_gpt`. -/
def vfsMountVblkGpt (vblkIdx lbaStart : ℕ) (mountPath : List UInt8) : Program Kernel ℤ :=
  mountProbe F ⟨3, vblkIdx⟩ lbaStart mountPath

/-- The first active mount with exactly this path. -/
def mountAt (k : Kernel) (mountPath : List UInt8) : Option ℕ :=
  (List.range maxMounts).find? fun i => (k.mounts i).active && (k.mounts i).path == mountPath

/-- Whether following the parents of a node leads to `root`. -/
def leadsTo (root : Option VNode) (node : Option VNode) : Program Kernel Bool :=
  iter (fun n => do
    match n with
    | none => return .inr (root == none)
    | some v =>
      if some v = root then return .inr true
      else return .inl (nodeParent (← get) v)) loopFuel node

/-- The table of open files of a task. -/
def fdTable (k : Kernel) (t : Option ℕ) : ℕ → FileDescriptor := (k.sched.task t).fdTable

/-- Change an entry of a task's table of open files. -/
def setFd (t : Option ℕ) (fd : ℕ) (new : FileDescriptor) : Program Kernel PUnit :=
  modify fun k =>
    let task := { k.sched.task t with fdTable := Function.update (fdTable k t) fd new }
    { k with sched := k.sched.setTask t task }

/-- `close_fds_under`. -/
def closeFdsUnder (t : Option ℕ) (root : Option VNode) : Program Kernel PUnit :=
  iter (fun f => do
    if f < maxFd then
      let fd := fdTable (← get) t f
      if fd.active then
        if ← leadsTo root fd.node then setFd t f { fd with active := false }
        return .inl (f + 1)
      else return .inl (f + 1)
    else return .inr ()) loopFuel 0

/-- `vfs_umount`. -/
def vfsUmount (mountPath : List UInt8) : Program Kernel ℤ := do
  let k ← get
  match mountAt k mountPath with
  | none => return -1
  | some i =>
    let root := (k.mounts i).root
    closeFdsUnder none root
    iter (fun t => do
      if t < (← get).sched.taskCount then
        closeFdsUnder (some t) root
        return .inl (t + 1)
      else return .inr ()) loopFuel 0
    setMount i fun m => { m with active := false, root := none }
    return 0

/-- `vfs_defrag`: the return code and the counters. -/
def vfsDefrag (mountPath : List UInt8) : Program Kernel (ℤ × DefragCount) := do
  let k ← get
  match mountAt k mountPath with
  | none => return (-1, ⟨0, 0, 0⟩)
  | some i =>
    match (k.mounts i).fsType, (k.mounts i).root with
    | .fat32, some (.fat32 r) => inFat32 (Fat32.fat32Defrag r)
    | .ext2, some (.ext2 r) => inExt2 (Ext2.ext2Defrag r)
    | _, _ => return (-2, ⟨0, 0, 0⟩)

/-! ## Files -/

/-- `O_CREATE`. -/
def oCreate : ℕ := 4
/-- `O_APPEND`. -/
def oAppend : ℕ := 8

/-- The last part of `vfs_open`: put a node into the current task's table. -/
def openNode (node : VNode) (flags : ℕ) : Program Kernel ℤ := do
  let k ← get
  let t := k.sched.curTask
  match (List.range maxFd).find? fun f => !(fdTable k t f).active with
  | none => return -3
  | some f =>
    let offset := if flags &&& oAppend ≠ 0 then nodeSize k node else 0
    setFd t f ⟨some node, offset, flags, true⟩
    return f

/-- `vfs_open`. -/
def vfsOpen (path : List UInt8) (flags : ℕ) : Program Kernel ℤ := do
  let k ← get
  match locate k path with
  | none => return -1
  | some (i, relpath) =>
    match ← walkPath F (k.mounts i).root relpath with
    | some node => openNode node flags
    | none =>
      if flags &&& oCreate = 0 then return -2
      else
        match ← splitParent F (k.mounts i) relpath with
        | (none, _) => return -2
        | (some parent, name) =>
          if name = [] then return -2
          else
            match ← create parent name with
            | none => return -2
            | some node => openNode node flags

/-- The current task's open descriptor `fd`, if there is one. -/
def openFd (k : Kernel) (fd : ℤ) : Option FileDescriptor :=
  if 0 ≤ fd ∧ fd < maxFd then
    let d := fdTable k k.sched.curTask fd.toNat
    if d.active then some d else none
  else none

/-- `vfs_close`. -/
def vfsClose (fd : ℤ) : Program Kernel ℤ := do
  let k ← get
  match openFd k fd with
  | none => return -1
  | some d =>
    setFd k.sched.curTask fd.toNat { d with active := false, node := none }
    return 0

/-- `node->read`, which drivers set on files only. -/
def readNode (node : VNode) (offset size : ℕ) (buf : Bytes) : Program Kernel (ℤ × Bytes) := do
  let k ← get
  if (nodeType k node).isFile then
    match node with
    | .fat32 i => inFat32 (Fat32.fat32Read i offset size buf)
    | .ext2 i => inExt2 (Ext2.ext2Read i offset size buf)
    | .ntfs i => inNtfs (RoFs.read F.ntfs i offset size buf)
    | .xfs i => inXfs (RoFs.read F.xfs i offset size buf)
  else return (-1, buf)

/-- `node->write`, which only the FAT32 and the ext2 driver set, on files. -/
def writeNode (node : VNode) (offset size : ℕ) (buf : Bytes) : Program Kernel ℤ := do
  let k ← get
  if (nodeType k node).isFile then
    match node with
    | .fat32 i => inFat32 (Fat32.fat32Write i offset size buf)
    | .ext2 i => inExt2 (Ext2.ext2Write i offset size buf)
    | .ntfs _ => return -1
    | .xfs _ => return -1
  else return -1

/-- Move the offset of a descriptor of the current task past `n` transferred bytes. -/
def advance (fd : ℤ) (n : ℤ) : Program Kernel PUnit := do
  let k ← get
  let d := fdTable k k.sched.curTask fd.toNat
  if 0 < n then setFd k.sched.curTask fd.toNat { d with offset := (d.offset + n.toNat) % 2 ^ 64 }

/-- `vfs_read`: the return code and the caller's buffer. -/
def vfsRead (fd : ℤ) (buf : Bytes) (size : ℕ) : Program Kernel (ℤ × Bytes) := do
  match openFd (← get) fd with
  | none => return (-1, buf)
  | some d =>
    match d.node with
    | none => return (-1, buf)
    | some node =>
      let (n, buf) ← readNode F node d.offset (u32 size) buf
      advance fd n
      return (n, buf)

/-- `vfs_seek`. -/
def vfsSeek (fd : ℤ) (offset : ℕ) : Program Kernel ℤ := do
  let k ← get
  match openFd k fd with
  | none => return -1
  | some d =>
    setFd k.sched.curTask fd.toNat { d with offset := offset }
    return 0

/-- `vfs_write`. -/
def vfsWrite (fd : ℤ) (buf : Bytes) (size : ℕ) : Program Kernel ℤ := do
  match openFd (← get) fd with
  | none => return -1
  | some d =>
    match d.node with
    | none => return -1
    | some node =>
      let n ← writeNode node d.offset (u32 size) buf
      advance fd n
      return n

/-- `vfs_readdir`. -/
def vfsReaddir (fd : ℤ) (index : ℕ) : Program Kernel (Option Dirent) := do
  let k ← get
  match openFd k fd with
  | none => return none
  | some d =>
    match d.node with
    | none => return none
    | some node =>
      if (nodeType k node).isDirectory then
        match node with
        | .fat32 i => inFat32 (Fat32.fat32Readdir i index)
        | .ext2 i => inExt2 (Ext2.ext2Readdir i index)
        | .ntfs i => inNtfs (RoFs.readdir F.ntfs i index)
        | .xfs i => inXfs (RoFs.readdir F.xfs i index)
      else return none

/-- What `vfs_stat` reports (`vfs_stat_t`). -/
structure VfsStat where
  size : ℕ
  inode : ℕ
  type : VfsType
  deriving DecidableEq, Repr

/-- The metadata of a node. -/
def statNode (k : Kernel) (node : VNode) : VfsStat :=
  ⟨nodeSize k node, nodeInode k node, nodeType k node⟩

/-- `vfs_stat`. -/
def vfsStat (path : List UInt8) : Program Kernel (Option VfsStat) := do
  let node ← resolvePath F path
  let k ← get
  return node.map (statNode k)

/-- `vfs_fstat`. -/
def vfsFstat (fd : ℤ) : Program Kernel (Option VfsStat) := do
  let k ← get
  return (openFd k fd).bind fun d => d.node.map (statNode k)

/-- `vfs_unlink`. -/
def vfsUnlink (path : List UInt8) : Program Kernel ℤ := do
  let k ← get
  match locate k path with
  | none => return -1
  | some (i, relpath) =>
    match ← splitParent F (k.mounts i) relpath with
    | (none, _) => return -2
    | (some parent, name) =>
      let k ← get
      if !(nodeType k parent).isDirectory ∨ name = [] then return -2
      else
        match parent with
        | .fat32 d => inFat32 (Fat32.fat32Unlink d name)
        | .ext2 d => inExt2 (Ext2.ext2Unlink d name)
        | .ntfs _ => return -2
        | .xfs _ => return -2

/-- `vfs_rename`.  Both paths belong to one mount, so the two directories are nodes of one
driver. -/
def vfsRename (oldPath newPath : List UInt8) : Program Kernel ℤ := do
  let k ← get
  match locate k oldPath, locate k newPath with
  | some (i, oldRel), some (j, newRel) =>
    if i ≠ j then return -1
    else
      let (oldDir, oldName) ← splitParent F (k.mounts i) oldRel
      let (newDir, newName) ← splitParent F (k.mounts j) newRel
      let k ← get
      match oldDir, newDir with
      | some od, some nd =>
        if !(nodeType k od).isDirectory ∨ oldName = [] ∨ newName = [] then return -2
        else
          match od, nd with
          | .fat32 o, .fat32 n => inFat32 (Fat32.fat32Rename o oldName n newName)
          | .ext2 o, .ext2 n => inExt2 (Ext2.ext2Rename o oldName n newName)
          | _, _ => return -2
      | _, _ => return -2
  | _, _ => return -1

end Operations

end Vfs

end CoolFrost
