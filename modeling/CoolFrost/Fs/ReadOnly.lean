import CoolFrost.Fs.Node

/-!
# The read-only drivers

`fs/ntfs.c` and `fs/xfs.c` have the same outline: a boot sector is checked, a volume and its root
node are taken from two pools that never give anything back, and looking a name up in a directory
takes one more node.  That outline is modelled here once.  How the two formats lay their records out
on the disk is the parameter `RoFormat`; what the code relies on is part of it, namely that decoding
only reads.
-/

namespace CoolFrost

open Program

/-- A program that never writes to a drive. -/
def ReadsOnly {α : Type} (m : Program BlkDev α) : Prop :=
  ∀ d, wlp m (fun _ d' => d'.disk = d.disk ∧ d'.log = d.log ∧ d'.fails = d.fails) d

/-- A mounted volume (`ntfs_fs_t`, `xfs_fs_t`): all its fields are computed from the boot sector. -/
structure RoVolume where
  dev : Drive
  partLba : ℕ
  boot : Bytes

/-- An entry found in a directory. -/
structure RoEntry where
  name : List UInt8
  type : VfsType
  size : ℕ
  inode : ℕ

/-- The decoding of an on-disk format. -/
structure RoFormat where
  /-- The checks of the boot sector: an error code, or `none` when it is accepted. -/
  check : Bytes → Option ℤ
  /-- The checks after a place for the volume has been taken. -/
  ready : RoVolume → Program BlkDev Bool
  /-- The number of the root directory's record. -/
  rootInode : RoVolume → ℕ
  /-- Look a name up in the directory with the given record. -/
  lookup : RoVolume → ℕ → List UInt8 → Program BlkDev (Option RoEntry)
  /-- The entry with the given index of a directory. -/
  readdir : RoVolume → ℕ → ℕ → Program BlkDev (Option Dirent)
  /-- Read from a file: record, size, offset, count and the caller's buffer. -/
  read : RoVolume → ℕ → ℕ → ℕ → ℕ → Bytes → Program BlkDev (ℤ × Bytes)
  ready_readsOnly : ∀ v, ReadsOnly (ready v)
  lookup_readsOnly : ∀ v i name, ReadsOnly (lookup v i name)
  readdir_readsOnly : ∀ v i idx, ReadsOnly (readdir v i idx)
  read_readsOnly : ∀ v i sz off n buf, ReadsOnly (read v i sz off n buf)

/-- A node of a read-only driver's pool. -/
structure RoNode where
  name : List UInt8
  type : VfsType
  size : ℕ
  inode : ℕ
  parent : Option ℕ
  volume : RoVolume

/-- The static state of a read-only driver. -/
structure RoState where
  blk : BlkDev
  fsPoolUsed : ℕ
  nodePool : ℕ → RoNode
  nodePoolUsed : ℕ

namespace RoFs

/-- `MAX_NTFS_FS` and `MAX_XFS_FS`. -/
def maxRoFs : ℕ := 4
/-- `MAX_NTFS_NODES` and `MAX_XFS_NODES`. -/
def maxRoNodes : ℕ := 128

/-- Run a transfer of the block layer inside the driver. -/
def io {α : Type} (m : Program BlkDev α) : Program RoState α :=
  zoom RoState.blk (fun d s => { s with blk := d }) m

/-- `alloc_node`, with the fields its callers fill in. -/
def allocNode (nd : RoNode) : Program RoState (Option ℕ) := do
  let s ← get
  if maxRoNodes ≤ s.nodePoolUsed then return none
  else
    modify fun s =>
      { s with
        nodePool := Function.update s.nodePool s.nodePoolUsed nd
        nodePoolUsed := s.nodePoolUsed + 1 }
    return some s.nodePoolUsed

/-- `ntfs_finddir` and `xfs_finddir`. -/
def finddir (F : RoFormat) (node : ℕ) (name : List UInt8) : Program RoState (Option ℕ) := do
  let nd := (← get).nodePool node
  match ← io (F.lookup nd.volume nd.inode name) with
  | none => return none
  | some e => allocNode ⟨e.name, e.type, e.size, e.inode, some node, nd.volume⟩

/-- `ntfs_readdir` and `xfs_readdir`. -/
def readdir (F : RoFormat) (node index : ℕ) : Program RoState (Option Dirent) := do
  let nd := (← get).nodePool node
  io (F.readdir nd.volume nd.inode index)

/-- `ntfs_read` and `xfs_read`. -/
def read (F : RoFormat) (node offset size : ℕ) (out : Bytes) : Program RoState (ℤ × Bytes) := do
  let nd := (← get).nodePool node
  io (F.read nd.volume nd.inode nd.size offset size out)

/-- The root node of a volume. -/
def rootNode (F : RoFormat) (v : RoVolume) : RoNode :=
  ⟨[47], .mountRoot, 0, F.rootInode v, none, v⟩

/-- `ntfs_mount` and `xfs_mount`: the root node of the volume, or the error code. -/
def mount (F : RoFormat) (dev : Drive) (partLba : ℕ) : Program RoState (Except ℤ ℕ) := do
  match ← io (blkRead dev partLba 1) with
  | none => return .error (-1)
  | some boot =>
    match F.check boot with
    | some rc => return .error rc
    | none =>
      let s ← get
      if maxRoFs ≤ s.fsPoolUsed then return .error (-4)
      else
        modify fun s => { s with fsPoolUsed := s.fsPoolUsed + 1 }
        if ← io (F.ready ⟨dev, partLba, boot⟩) then
          match ← allocNode (rootNode F ⟨dev, partLba, boot⟩) with
          | none => return .error (-6)
          | some root => return .ok root
        else return .error (-5)

end RoFs

end CoolFrost
