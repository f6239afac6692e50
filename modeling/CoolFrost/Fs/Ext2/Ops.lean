import CoolFrost.Fs.Ext2.Dir

/-!
# ext2: creating, moving, removing and defragmenting files, and mounting
-/

namespace CoolFrost

open Program

namespace Ext2

/-- The inode of a new file: a regular file with mode 0644 and one link. -/
def newFileInode : Bytes := setILinksCount (Bytes.put16 Bytes.zeros 0 (0x8000 + 0o644)) 1

/-- `finish_new_file_node`. -/
def finishNewFileNode (fs : Ext2Fs) (dir ino : ℕ) (name : List UInt8) :
    Program Ext2State (Option ℕ) := do
  if ← writeInode fs ino newFileInode then
    allocNode
      { name := name.take maxNameLen, type := .file, size := 0, inode := ino, parent := some dir
        fs := fs }
  else return none

/-- `ext2_create`: an empty file called `name` in the directory `dir`. -/
def ext2Create (dir : ℕ) (name : List UInt8) : Program Ext2State (Option ℕ) := do
  let nd := (← get).nodePool dir
  let fs := nd.fs
  if !fs.writeSupported then return none
  else if !nd.type.isDirectory then return none
  else if name.length = 0 ∨ 255 < name.length then return none
  else
    let ino ← allocInode fs
    if ino = 0 then return none
    else if ← ext2InsertDirent fs dir name ino ftRegFile then finishNewFileNode fs dir ino name
    else
      let _ ← freeInode fs ino
      return none

/-- `ext2_rename`. -/
def ext2Rename (oldDir : ℕ) (oldName : List UInt8) (newDir : ℕ) (newName : List UInt8) :
    Program Ext2State ℤ := do
  let s ← get
  let fs := (s.nodePool oldDir).fs
  if !fs.writeSupported then return -1
  else if !(s.nodePool oldDir).type.isDirectory || !(s.nodePool newDir).type.isDirectory then
    return -1
  else if oldName.length = 0 ∨ newName.length = 0 ∨ 255 < newName.length then return -1
  else
    match ← readInode fs (s.nodePool oldDir).inode with
    | none => return -1
    | some inode =>
      match ← dirWalk fs inode (fun phys off b _ => findVisit oldName phys off b) () with
      | .badBlock => return -2
      | .ended => return -3
      | .badRecord => return -3
      | .found r =>
        match ← readInode fs (deInode r.buf r.off) with
        | none => return -4
        | some target =>
          if isDirInode target then return -5
          else if oldDir = newDir ∧ align4 (8 + newName.length) ≤ deRecLen r.buf r.off then
            let b := Bytes.put8 r.buf (r.off + 6) (UInt8.ofNat newName.length)
            let b := Bytes.blit b (r.off + 8) (Bytes.ofList newName) newName.length
            if ← writeBlock fs r.phys b then return 0 else return -6
          else if ← ext2InsertDirent fs newDir newName (deInode r.buf r.off)
              (deFileType r.buf r.off) then
            match ← readBlock fs r.phys with
            | none => return -8
            | some b =>
              if ← writeBlock fs r.phys (Bytes.put32 b r.off 0) then return 0 else return -8
          else return -7

/-- The loop of `ext2_unlink` over the block pointers `ptr k`, from `k` on, `n` of them. -/
def freePtrs (fs : Ext2Fs) (ptr : ℕ → ℕ) : ℕ → ℕ → Program Ext2State PUnit
  | 0, _ => return PUnit.unit
  | n + 1, k => do
    if ptr k ≠ 0 then
      let _ ← freeBlock fs (ptr k)
      freePtrs fs ptr n (k + 1)
    else freePtrs fs ptr n (k + 1)

/-- The indirect part of `ext2_unlink`: the blocks behind `i_block[12]`, then that block itself. -/
def freeIndirect (fs : Ext2Fs) (blk : ℕ) : Program Ext2State PUnit := do
  if blk ≠ 0 then
    match ← readBlock fs blk with
    | none =>
      let _ ← freeBlock fs blk
      return PUnit.unit
    | some ind =>
      freePtrs fs (fun k => Bytes.le32 ind (4 * k)) (ptrsPerBlock fs) 0
      let _ ← freeBlock fs blk
      return PUnit.unit
  else return PUnit.unit

/-- What `ext2_unlink` does to the inode after the entry is gone. -/
def dropLink (fs : Ext2Fs) (ino : ℕ) (inode : Bytes) : Program Ext2State PUnit := do
  if 1 < iLinksCount inode then
    let _ ← writeInode fs ino (setILinksCount inode (iLinksCount inode - 1))
    return PUnit.unit
  else
    freePtrs fs (iBlock inode) 12 0
    freeIndirect fs (iBlock inode 12)
    let _ ← freeInode fs ino
    let _ ← writeInode fs ino Bytes.zeros
    return PUnit.unit

/-- `ext2_unlink`. -/
def ext2Unlink (dir : ℕ) (name : List UInt8) : Program Ext2State ℤ := do
  let nd := (← get).nodePool dir
  let fs := nd.fs
  if !fs.writeSupported then return -1
  else if !nd.type.isDirectory then return -1
  else if name.length = 0 then return -1
  else
    match ← readInode fs nd.inode with
    | none => return -1
    | some inode =>
      match ← dirWalk fs inode (fun phys off b _ => findVisit name phys off b) () with
      | .badBlock => return -2
      | .ended => return -3
      | .badRecord => return -3
      | .found r =>
        let ino := deInode r.buf r.off
        match ← readInode fs ino with
        | none => return -4
        | some target =>
          if isDirInode target then return -5
          else if usesExtents target then return -6
          else if iBlock target 13 ≠ 0 ∨ iBlock target 14 ≠ 0 then return -7
          else if ← writeBlock fs r.phys (Bytes.put32 r.buf r.off 0) then
            dropLink fs ino target
            return 0
          else return -8

/-! ## Defragmentation -/

/-- The physical blocks of the first `count` logical blocks; `none` when one is missing. -/
def collectBlocks (fs : Ext2Fs) (inode : Bytes) (count : ℕ) : Program Ext2State (Option (List ℕ)) :=
  iter (fun blocks => do
    if blocks.length < count then
      let phys ← getBlock fs inode blocks.length
      if phys = 0 then return .inr none else return .inl (blocks ++ [phys])
    else return .inr (some blocks)) loopFuel []

/-- Every block is the one after its predecessor. -/
def contiguous : List ℕ → Bool
  | a :: b :: l => (b == u32 (a + 1)) && contiguous (b :: l)
  | _ => true

/-- Free the blocks of a list. -/
def freeBlocks (fs : Ext2Fs) : List ℕ → Program Ext2State PUnit
  | [] => return PUnit.unit
  | b :: l => do
    let _ ← freeBlock fs b
    freeBlocks fs l

/-- Copy the blocks of a list to the run from `new` on. -/
def copyBlocks (fs : Ext2Fs) : List ℕ → ℕ → Program Ext2State Bool
  | [], _ => return true
  | b :: l, new => do
    match ← readBlock fs b with
    | none => return false
    | some buf => if ← writeBlock fs new buf then copyBlocks fs l (new + 1) else return false

/-- Point the first `n` direct blocks of an inode at the run from `start` on. -/
def repointDirect (inode : Bytes) (start : ℕ) : ℕ → Bytes
  | 0 => inode
  | n + 1 => setIBlock (repointDirect inode start n) n (start + n)

/-- Point the first `n` pointers of an indirect block at the run from `start` on. -/
def repointIndirect (ind : Bytes) (start : ℕ) : ℕ → Bytes
  | 0 => ind
  | n + 1 => Bytes.put32 (repointIndirect ind start n) (4 * n) (start + n)

/-- The run of block numbers of length `len` from `start` on. -/
def blockRun (start len : ℕ) : List ℕ := (List.range len).map (start + ·)

/-- The second half of the commit of `ext2_defrag_one`: the indirect block; `false` when it is left
on the old blocks. -/
def commitIndirect (fs : Ext2Fs) (inode : Bytes) (start count : ℕ) : Program Ext2State Bool := do
  if 12 < count then
    match ← readBlock fs (iBlock inode 12) with
    | none => return false
    | some ind => writeBlock fs (iBlock inode 12) (repointIndirect ind (start + 12) (count - 12))
  else return true

/-- The part of `ext2_defrag_one` after the scan: move the file with blocks `old` to a new run. -/
def moveBlocks (fs : Ext2Fs) (ino : ℕ) (inode : Bytes) (old : List ℕ) : Program Ext2State ℤ := do
  let count := old.length
  let (start, got) ← allocBlockRun fs count
  if start = 0 ∨ got ≠ count then
    freeBlocks fs (blockRun start got)
    return -1
  else if ← copyBlocks fs old start then
    let inode := repointDirect inode start (min count 12)
    if ← writeInode fs ino inode then
      if ← commitIndirect fs inode start count then
        freeBlocks fs old
        return 1
      else return 1
    else
      freeBlocks fs (blockRun start count)
      return -1
  else
    freeBlocks fs (blockRun start count)
    return -1

/-- `ext2_defrag_one`: 1 when the file was moved, 0 when there was nothing to do, -1 on failure. -/
def ext2DefragOne (fs : Ext2Fs) (node : ℕ) : Program Ext2State ℤ := do
  let ino := ((← get).nodePool node).inode
  match ← readInode fs ino with
  | none => return -1
  | some inode =>
    if usesExtents inode then return -1
    else if iSize inode = 0 then return 0
    else
      let maxBlocks := 12 + ptrsPerBlock fs
      let count := u32 (iSize inode + fs.blockSize - 1) / fs.blockSize
      if maxBlocks < count then return -1
      else if 12 + 1024 < maxBlocks then return -1
      else
        match ← collectBlocks fs inode count with
        | none => return -1
        | some old => if contiguous old then return 0 else moveBlocks fs ino inode old

/-- `ext2_defrag`: every file directly in the directory `dir`. -/
def ext2Defrag (dir : ℕ) : Program Ext2State (ℤ × DefragCount) := do
  let fs := ((← get).nodePool dir).fs
  iter (fun (idx, count) => do
    match ← ext2Readdir dir idx with
    | none => return .inr (0, count)
    | some de =>
      if de.type.isDirectory then return .inl (idx + 1, count)
      else
        match ← ext2Finddir dir de.name with
        | none => return .inl (idx + 1, count)
        | some node =>
          let rc ← ext2DefragOne fs node
          return .inl (idx + 1, count.add rc)) loopFuel (0, ⟨0, 0, 0⟩)

/-! ## Mounting -/

/-- `MAX_EXT2_FS`. -/
def maxExt2Fs : ℕ := 4
/-- `EXT2_ROOT_INO`. -/
def rootIno : ℕ := 2
/-- `EXT2_SUPPORTED_INCOMPAT`. -/
def supportedIncompat : ℕ := 0x0002 ||| 0x0040
/-- `EXT2_SUPPORTED_ROCOMPAT_FOR_WRITE`. -/
def supportedRoCompatForWrite : ℕ := 0x0001 ||| 0x0002 ||| 0x0008 ||| 0x0020

/-- Whether a superblock allows writing: cleanly unmounted, and no read-only feature that this
driver does not know. -/
def writeAllowed (sb : Bytes) : Bool :=
  Bytes.le32 sb 76 < 1 ∨
    (Bytes.le16 sb 58 % 2 = 1 ∧
      Bytes.le32 sb 100 &&& (0xFFFFFFFF ^^^ supportedRoCompatForWrite) = 0)

/-- The layout of a volume, from its superblock. -/
def layoutOfSuperblock (dev : Drive) (partLba : ℕ) (sb : Bytes) : Ext2Fs :=
  let blockSize := u32 (1024 * 2 ^ (Bytes.le32 sb 24 % 32))
  let bpg := Bytes.le32 sb 32
  { dev := dev, partLba := partLba, blockSize := blockSize, sectorsPerBlock := blockSize / 512
    inodesPerGroup := Bytes.le32 sb 40, blocksPerGroup := bpg
    inodeSize := if 1 ≤ Bytes.le32 sb 76 then Bytes.le16 sb 88 else 128
    firstDataBlock := Bytes.le32 sb 20
    groupsCount := u32sub (u32 (Bytes.le32 sb 4 + bpg)) 1 / bpg
    blocksCount := Bytes.le32 sb 4, inodesCount := Bytes.le32 sb 0
    firstIno := if 1 ≤ Bytes.le32 sb 76 then Bytes.le32 sb 84 else 11
    writeSupported := writeAllowed sb }

/-- The root node of a volume. -/
def rootNode (fs : Ext2Fs) : Ext2Node where
  name := [47]
  type := .mountRoot
  size := 0
  inode := rootIno
  parent := none
  fs := fs

/-- `alloc_fs`; the fields of the volume are kept in its nodes. -/
def allocFs : Program Ext2State PUnit := modify fun s => { s with fsPoolUsed := s.fsPoolUsed + 1 }

/-- `ext2_mount`: the root node of the volume, or the error code. -/
def ext2Mount (dev : Drive) (partLba : ℕ) : Program Ext2State (Except ℤ ℕ) := do
  match ← io (blkRead dev (partLba + 2) 2) with
  | none => return .error (-1)
  | some sb =>
    if Bytes.le16 sb 56 ≠ 0xEF53 then return .error (-2)
    else if 1 ≤ Bytes.le32 sb 76 ∧ Bytes.le32 sb 96 &&& (0xFFFFFFFF ^^^ supportedIncompat) ≠ 0 then
      return .error (-6)
    else
      let s ← get
      if maxExt2Fs ≤ s.fsPoolUsed then return .error (-3)
      else
        allocFs
        match ← allocNode (rootNode (layoutOfSuperblock dev partLba sb)) with
        | none => return .error (-4)
        | some root => return .ok root

end Ext2

end CoolFrost
