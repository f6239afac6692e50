import CoolFrost.Fs.Node

/-!
# ext2: blocks, inodes and the bitmap allocators

The data of a mounted volume (`fs/ext2.h`), the transfer of blocks and inodes, and the functions of
`fs/ext2.c` that take and give back blocks and inodes.  An inode is the 128 bytes it occupies on
disk; its fields are read and written in place.  The driver's static buffers (`block_buf`,
`meta_buf`, `ind_buf`, `bitmap_buf`) are filled before they are looked at in every call, so they are
local values.
-/

namespace CoolFrost

open Program

/-- A mounted volume (`ext2_fs_t`). -/
structure Ext2Fs where
  dev : Drive
  partLba : ℕ
  blockSize : ℕ
  sectorsPerBlock : ℕ
  inodesPerGroup : ℕ
  blocksPerGroup : ℕ
  inodeSize : ℕ
  firstDataBlock : ℕ
  groupsCount : ℕ
  blocksCount : ℕ
  inodesCount : ℕ
  firstIno : ℕ
  writeSupported : Bool
  deriving DecidableEq, Repr

/-- A node of the driver's pool; `fs_private` is the volume. -/
structure Ext2Node where
  name : List UInt8
  type : VfsType
  size : ℕ
  inode : ℕ
  /-- The parent directory, `none` for the root of a volume. -/
  parent : Option ℕ
  fs : Ext2Fs
  deriving DecidableEq, Repr

/-- The static state of the ext2 driver, with the drives it works on. -/
structure Ext2State where
  blk : BlkDev
  fsPoolUsed : ℕ
  nodePool : ℕ → Ext2Node
  nodePoolUsed : ℕ

namespace Ext2

/-- `MAX_EXT2_NODES`. -/
def maxExt2Nodes : ℕ := 128

/-- Run a transfer of the block layer inside the driver. -/
def io {α : Type} (m : Program BlkDev α) : Program Ext2State α :=
  zoom Ext2State.blk (fun d s => { s with blk := d }) m

/-- `read_block`. -/
def readBlock (fs : Ext2Fs) (block : ℕ) : Program Ext2State (Option Bytes) :=
  io (blkRead fs.dev (fs.partLba + block * fs.sectorsPerBlock) fs.sectorsPerBlock)

/-- `write_block`; `true` stands for the return code 0. -/
def writeBlock (fs : Ext2Fs) (block : ℕ) (buf : Bytes) : Program Ext2State Bool :=
  io (blkWrite fs.dev (fs.partLba + block * fs.sectorsPerBlock) fs.sectorsPerBlock buf)

/-- `locate_bgd`: the block and the offset of a group descriptor. -/
def locateBgd (fs : Ext2Fs) (group : ℕ) : ℕ × ℕ :=
  let bgdByte := u32 (group * 32)
  (u32 (u32 (fs.firstDataBlock + 1) + bgdByte / fs.blockSize), bgdByte % fs.blockSize)

/-- `locate_inode`: the block and the offset of an inode in its group's table. -/
def locateInode (fs : Ext2Fs) (inodeTable index : ℕ) : ℕ × ℕ :=
  let inodeByte := u32 (index * fs.inodeSize)
  (u32 (inodeTable + inodeByte / fs.blockSize), inodeByte % fs.blockSize)

/-! ## Fields of a group descriptor in its block -/

/-- `bg_block_bitmap`. -/
def bgBlockBitmap (b : Bytes) (off : ℕ) : ℕ := Bytes.le32 b off
/-- `bg_inode_bitmap`. -/
def bgInodeBitmap (b : Bytes) (off : ℕ) : ℕ := Bytes.le32 b (off + 4)
/-- `bg_inode_table`. -/
def bgInodeTable (b : Bytes) (off : ℕ) : ℕ := Bytes.le32 b (off + 8)
/-- `bg_free_blocks_count`. -/
def bgFreeBlocksCount (b : Bytes) (off : ℕ) : ℕ := Bytes.le16 b (off + 12)
/-- `bg_free_inodes_count`. -/
def bgFreeInodesCount (b : Bytes) (off : ℕ) : ℕ := Bytes.le16 b (off + 14)

/-- Add `delta` to `bg_free_blocks_count`, in 16-bit arithmetic. -/
def bgAddFreeBlocks (b : Bytes) (off : ℕ) (delta : ℤ) : Bytes :=
  Bytes.put16 b (off + 12) (((bgFreeBlocksCount b off : ℤ) + delta) % 65536).toNat

/-- Add `delta` to `bg_free_inodes_count`, in 16-bit arithmetic. -/
def bgAddFreeInodes (b : Bytes) (off : ℕ) (delta : ℤ) : Bytes :=
  Bytes.put16 b (off + 14) (((bgFreeInodesCount b off : ℤ) + delta) % 65536).toNat

/-! ## Inodes -/

/-- `i_mode`. -/
def iMode (ino : Bytes) : ℕ := Bytes.le16 ino 0
/-- `i_size`. -/
def iSize (ino : Bytes) : ℕ := Bytes.le32 ino 4
/-- `i_links_count`. -/
def iLinksCount (ino : Bytes) : ℕ := Bytes.le16 ino 26
/-- `i_blocks`. -/
def iBlocks (ino : Bytes) : ℕ := Bytes.le32 ino 28
/-- `i_flags`. -/
def iFlags (ino : Bytes) : ℕ := Bytes.le32 ino 32
/-- `i_block[k]`. -/
def iBlock (ino : Bytes) (k : ℕ) : ℕ := Bytes.le32 ino (40 + 4 * k)
/-- `i_size_high`. -/
def iSizeHigh (ino : Bytes) : ℕ := Bytes.le32 ino 108

/-- Set `i_block[k]`. -/
def setIBlock (ino : Bytes) (k v : ℕ) : Bytes := Bytes.put32 ino (40 + 4 * k) v
/-- Set `i_size`. -/
def setISize (ino : Bytes) (v : ℕ) : Bytes := Bytes.put32 ino 4 v
/-- Set `i_blocks`. -/
def setIBlocks (ino : Bytes) (v : ℕ) : Bytes := Bytes.put32 ino 28 v
/-- Set `i_links_count`. -/
def setILinksCount (ino : Bytes) (v : ℕ) : Bytes := Bytes.put16 ino 26 v

/-- `i_mode & EXT2_S_IFDIR`. -/
def isDirInode (ino : Bytes) : Bool := iMode ino / 0x4000 % 2 = 1
/-- `i_flags & EXT4_EXTENTS_FL`. -/
def usesExtents (ino : Bytes) : Bool := iFlags ino / 0x80000 % 2 = 1

/-- The block of the inode table that holds inode `ino`, its number and the inode's offset in it:
the common part of `read_inode` and `write_inode`. -/
def loadInodeBlock (fs : Ext2Fs) (ino : ℕ) : Program Ext2State (Option (ℕ × ℕ × Bytes)) := do
  let group := u32sub ino 1 / fs.inodesPerGroup
  let index := u32sub ino 1 % fs.inodesPerGroup
  let (bgdBlk, bgdOff) := locateBgd fs group
  match ← readBlock fs bgdBlk with
  | none => return none
  | some metaBuf =>
    let (inodeBlk, inodeOff) := locateInode fs (bgInodeTable metaBuf bgdOff) index
    match ← readBlock fs inodeBlk with
    | none => return none
    | some metaBuf => return some (inodeBlk, inodeOff, metaBuf)

/-- `read_inode`. -/
def readInode (fs : Ext2Fs) (ino : ℕ) : Program Ext2State (Option Bytes) := do
  match ← loadInodeBlock fs ino with
  | none => return none
  | some (_, off, metaBuf) => return some (Bytes.clip 128 (Bytes.shift metaBuf off))

/-- `write_inode`; `true` stands for the return code 0. -/
def writeInode (fs : Ext2Fs) (ino : ℕ) (inode : Bytes) : Program Ext2State Bool := do
  match ← loadInodeBlock fs ino with
  | none => return false
  | some (blk, off, metaBuf) => writeBlock fs blk (Bytes.blit metaBuf off inode 128)

/-- `x + delta` in 32-bit arithmetic. -/
def u32add (x : ℕ) (delta : ℤ) : ℕ := (((x : ℤ) + delta) % 2 ^ 32).toNat

/-- `sb_adjust_free`: the superblock's counters of free blocks and inodes. -/
def sbAdjustFree (fs : Ext2Fs) (blocksDelta inodesDelta : ℤ) : Program Ext2State PUnit := do
  match ← io (blkRead fs.dev (fs.partLba + 2) 2) with
  | none => return PUnit.unit
  | some sb =>
    let sb := Bytes.put32 sb 12 (u32add (Bytes.le32 sb 12) blocksDelta)
    let sb := Bytes.put32 sb 16 (u32add (Bytes.le32 sb 16) inodesDelta)
    let _ ← io (blkWrite fs.dev (fs.partLba + 2) 2 sb)
    return PUnit.unit

/-! ## Bitmaps -/

/-- The bit number `bit` of a bitmap. -/
def bitAt (b : Bytes) (bit : ℕ) : Bool := (b (bit / 8)).toNat.testBit (bit % 8)

/-- Set a bit. -/
def setBit (b : Bytes) (bit : ℕ) : Bytes :=
  Bytes.put8 b (bit / 8) (UInt8.ofNat ((b (bit / 8)).toNat ||| 2 ^ (bit % 8)))

/-- Clear a bit. -/
def clearBit (b : Bytes) (bit : ℕ) : Bytes :=
  Bytes.put8 b (bit / 8) (UInt8.ofNat ((b (bit / 8)).toNat &&& (255 ^^^ 2 ^ (bit % 8))))

/-- The first clear bit among the `n` bits from `bit` on. -/
def findClear (b : Bytes) : ℕ → ℕ → Option ℕ
  | 0, _ => none
  | n + 1, bit => if bitAt b bit then findClear b n (bit + 1) else some bit

/-- The first block of a group, and the number of blocks in it. -/
def groupRange (fs : Ext2Fs) (group : ℕ) : ℕ × ℕ :=
  let start := u32 (fs.firstDataBlock + group * fs.blocksPerGroup)
  let groupEnd := u32 (start + fs.blocksPerGroup)
  (start, u32sub (if fs.blocksCount < groupEnd then fs.blocksCount else groupEnd) start)

/-- Write back a bitmap and the descriptor of its group, then adjust the superblock. -/
def commitBitmap (fs : Ext2Fs) (bitmapBlk : ℕ) (bitmap : Bytes) (bgdBlk : ℕ) (metaBuf : Bytes)
    (blocksDelta inodesDelta : ℤ) : Program Ext2State Bool := do
  if ← writeBlock fs bitmapBlk bitmap then
    if ← writeBlock fs bgdBlk metaBuf then
      sbAdjustFree fs blocksDelta inodesDelta
      return true
    else return false
  else return false

/-- `alloc_block`: the number of a block that was free and is now taken, or 0. -/
def allocBlock (fs : Ext2Fs) : Program Ext2State ℕ :=
  iter (fun group => do
    if group < fs.groupsCount then
      let (bgdBlk, bgdOff) := locateBgd fs group
      match ← readBlock fs bgdBlk with
      | none => return .inr 0
      | some metaBuf =>
        if bgFreeBlocksCount metaBuf bgdOff = 0 then return .inl (group + 1)
        else
          match ← readBlock fs (bgBlockBitmap metaBuf bgdOff) with
          | none => return .inr 0
          | some bitmap =>
            let (start, count) := groupRange fs group
            match findClear bitmap count 0 with
            | none => return .inl (group + 1)
            | some bit =>
              if ← commitBitmap fs (bgBlockBitmap metaBuf bgdOff) (setBit bitmap bit) bgdBlk
                  (bgAddFreeBlocks metaBuf bgdOff (-1)) (-1) 0 then
                return .inr (u32 (start + bit))
              else return .inr 0
    else return .inr 0) loopFuel 0

/-- The attempt of `alloc_block_near` to take the block `goal` itself. -/
def takeGoal (fs : Ext2Fs) (goal : ℕ) : Program Ext2State Bool := do
  if fs.firstDataBlock ≤ goal ∧ goal < fs.blocksCount then
    let group := (goal - fs.firstDataBlock) / fs.blocksPerGroup
    let bit := (goal - fs.firstDataBlock) % fs.blocksPerGroup
    let (bgdBlk, bgdOff) := locateBgd fs group
    match ← readBlock fs bgdBlk with
    | none => return false
    | some metaBuf =>
      if bgFreeBlocksCount metaBuf bgdOff = 0 then return false
      else
        match ← readBlock fs (bgBlockBitmap metaBuf bgdOff) with
        | none => return false
        | some bitmap =>
          if bitAt bitmap bit then return false
          else
            commitBitmap fs (bgBlockBitmap metaBuf bgdOff) (setBit bitmap bit) bgdBlk
              (bgAddFreeBlocks metaBuf bgdOff (-1)) (-1) 0
  else return false

/-- `alloc_block_near`. -/
def allocBlockNear (fs : Ext2Fs) (goal : ℕ) : Program Ext2State ℕ := do
  if ← takeGoal fs goal then return goal else allocBlock fs

/-- The variables of the search of `alloc_block_run`. -/
structure BitRun where
  runStart : ℕ
  runLen : ℕ
  bestStart : ℕ
  bestLen : ℕ
  deriving DecidableEq, Repr

/-- The search meets the clear bit `bit`. -/
def BitRun.clear (r : BitRun) (bit : ℕ) : BitRun :=
  let runStart := if r.runLen = 0 then bit else r.runStart
  if r.bestLen < r.runLen + 1 then ⟨runStart, r.runLen + 1, runStart, r.runLen + 1⟩
  else ⟨runStart, r.runLen + 1, r.bestStart, r.bestLen⟩

/-- The longest run of clear bits among the `n` bits from `bit` on, stopping at `want`. -/
def searchBits (b : Bytes) (want : ℕ) : ℕ → ℕ → BitRun → BitRun
  | 0, _, r => r
  | n + 1, bit, r =>
    if bitAt b bit then searchBits b want n (bit + 1) { r with runLen := 0 }
    else
      let r := r.clear bit
      if want ≤ r.bestLen then r else searchBits b want n (bit + 1) r

/-- Set the `n` bits from `bit` on. -/
def setBits (b : Bytes) : ℕ → ℕ → Bytes
  | 0, _ => b
  | n + 1, bit => setBits (setBit b bit) n (bit + 1)

/-- `alloc_block_run`: the first block of a run that was free and is now taken, and its length;
`(0, 0)` on failure. -/
def allocBlockRun (fs : Ext2Fs) (want : ℕ) : Program Ext2State (ℕ × ℕ) :=
  let want := if want = 0 then 1 else want
  iter (fun group => do
    if group < fs.groupsCount then
      let (bgdBlk, bgdOff) := locateBgd fs group
      match ← readBlock fs bgdBlk with
      | none => return .inr (0, 0)
      | some metaBuf =>
        if bgFreeBlocksCount metaBuf bgdOff = 0 then return .inl (group + 1)
        else
          match ← readBlock fs (bgBlockBitmap metaBuf bgdOff) with
          | none => return .inr (0, 0)
          | some bitmap =>
            let (start, count) := groupRange fs group
            let r := searchBits bitmap want count 0 ⟨0, 0, 0, 0⟩
            if r.bestLen = 0 then return .inl (group + 1)
            else
              let len := min r.bestLen want
              if ← commitBitmap fs (bgBlockBitmap metaBuf bgdOff) (setBits bitmap len r.bestStart)
                  bgdBlk (bgAddFreeBlocks metaBuf bgdOff (-len)) (-len) 0 then
                return .inr (u32 (start + r.bestStart), len)
              else return .inr (0, 0)
    else return .inr (0, 0)) loopFuel 0

/-- The first clear bit of an inode bitmap that is not a reserved inode, among the `n` bits from
`bit` on; the group's first inode is number `startIno + 1`. -/
def findClearInode (fs : Ext2Fs) (b : Bytes) (startIno : ℕ) : ℕ → ℕ → Option ℕ
  | 0, _ => none
  | n + 1, bit =>
    if u32 (startIno + bit + 1) < fs.firstIno then findClearInode fs b startIno n (bit + 1)
    else if bitAt b bit then findClearInode fs b startIno n (bit + 1)
    else some bit

/-- `alloc_inode`: the number of an inode that was free and is now taken, or 0. -/
def allocInode (fs : Ext2Fs) : Program Ext2State ℕ :=
  iter (fun group => do
    if group < fs.groupsCount then
      let (bgdBlk, bgdOff) := locateBgd fs group
      match ← readBlock fs bgdBlk with
      | none => return .inr 0
      | some metaBuf =>
        if bgFreeInodesCount metaBuf bgdOff = 0 then return .inl (group + 1)
        else
          match ← readBlock fs (bgInodeBitmap metaBuf bgdOff) with
          | none => return .inr 0
          | some bitmap =>
            let startIno := u32 (group * fs.inodesPerGroup)
            let count := min (u32sub fs.inodesCount startIno) fs.inodesPerGroup
            match findClearInode fs bitmap startIno count 0 with
            | none => return .inl (group + 1)
            | some bit =>
              if ← commitBitmap fs (bgInodeBitmap metaBuf bgdOff) (setBit bitmap bit) bgdBlk
                  (bgAddFreeInodes metaBuf bgdOff (-1)) 0 (-1) then
                return .inr (u32 (startIno + bit + 1))
              else return .inr 0
    else return .inr 0) loopFuel 0

/-- `free_block`; `true` stands for the return code 0. -/
def freeBlock (fs : Ext2Fs) (block : ℕ) : Program Ext2State Bool := do
  let group := u32sub block fs.firstDataBlock / fs.blocksPerGroup
  let bit := u32sub block fs.firstDataBlock % fs.blocksPerGroup
  let (bgdBlk, bgdOff) := locateBgd fs group
  match ← readBlock fs bgdBlk with
  | none => return false
  | some metaBuf =>
    match ← readBlock fs (bgBlockBitmap metaBuf bgdOff) with
    | none => return false
    | some bitmap =>
      commitBitmap fs (bgBlockBitmap metaBuf bgdOff) (clearBit bitmap bit) bgdBlk
        (bgAddFreeBlocks metaBuf bgdOff 1) 1 0

/-- `free_inode`; `true` stands for the return code 0. -/
def freeInode (fs : Ext2Fs) (ino : ℕ) : Program Ext2State Bool := do
  let group := u32sub ino 1 / fs.inodesPerGroup
  let bit := u32sub ino 1 % fs.inodesPerGroup
  let (bgdBlk, bgdOff) := locateBgd fs group
  match ← readBlock fs bgdBlk with
  | none => return false
  | some metaBuf =>
    match ← readBlock fs (bgInodeBitmap metaBuf bgdOff) with
    | none => return false
    | some bitmap =>
      commitBitmap fs (bgInodeBitmap metaBuf bgdOff) (clearBit bitmap bit) bgdBlk
        (bgAddFreeInodes metaBuf bgdOff 1) 0 1

end Ext2

end CoolFrost
