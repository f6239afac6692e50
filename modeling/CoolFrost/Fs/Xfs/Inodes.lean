import CoolFrost.Lib.Buffer
import CoolFrost.Fs.Node

/-!
# XFS: mounted state, inodes and extents

The data a mounted volume keeps (`fs/xfs.h`), the driver's static state (`fs/xfs.c`), and the
functions that find a block, an inode and the extent of a block of a file.  Every number on the
drive is big-endian.

The three static buffers, of 4096 bytes each, keep their contents from one call to the next.  Reads
from them are checked against that size (`loadBe`).  Block numbers and sector addresses are natural
numbers; a shift by 64 bits or more is undefined in C and is one by that many bits here.
-/

namespace CoolFrost

open Program

/-- A mounted volume (`xfs_fs_t`). -/
structure XfsFs where
  /-- `drive_type` and `drive`. -/
  dev : Drive
  partLba : ℕ
  blockSize : ℕ
  sectorsPerBlock : ℕ
  agblocks : ℕ
  agblklog : ℕ
  inodesize : ℕ
  inopblog : ℕ
  dirblklog : ℕ
  rootino : ℕ
  deriving DecidableEq, Repr

/-- A node of the driver's pool. -/
structure XfsNode where
  name : List UInt8
  type : VfsType
  size : ℕ
  inode : ℕ
  parent : Option ℕ
  fs : XfsFs
  deriving DecidableEq, Repr

/-- The static state of the XFS driver, with the drives it works on. -/
structure XfsState where
  blk : BlkDev
  /-- One inode, with the area behind its core. -/
  inodeBuf : Bytes
  /-- A directory block or a block of a file. -/
  blockBuf : Bytes
  /-- The block that an inode is taken from. -/
  inodeBlockBuf : Bytes
  fsPoolUsed : ℕ
  nodePool : ℕ → XfsNode
  nodePoolUsed : ℕ

namespace Xfs

variable {σ : Type}

/-- The size of the static buffers. -/
def bufSize : ℕ := 4096

/-- `read_block` into the buffer `buf` at `at`: the buffer after it, or `none` if it fails. -/
def readBlock (fs : XfsFs) (block : ℕ) (buf : Bytes) (start : ℕ) :
    Program XfsState (Option Bytes) := do
  match ← zoom XfsState.blk (fun d s => { s with blk := d })
      (blkRead fs.dev (fs.partLba + block * fs.sectorsPerBlock) fs.sectorsPerBlock) with
  | none => return none
  | some b => return some (Bytes.blit buf start b (fs.sectorsPerBlock % 256 * 512))

/-- `xfs_fsb_to_block`. -/
def xfsFsbToBlock (fs : XfsFs) (fsbno : ℕ) : ℕ :=
  fsbno / 2 ^ fs.agblklog * fs.agblocks + fsbno % 2 ^ fs.agblklog

/-- `xfs_ino_to_loc`: the block of an inode and its place in it. -/
def xfsInoToLoc (fs : XfsFs) (ino : ℕ) : ℕ × ℕ :=
  let agno := ino / 2 ^ (fs.agblklog + fs.inopblog)
  let rest := ino % 2 ^ (fs.agblklog + fs.inopblog)
  (agno * fs.agblocks + rest / 2 ^ fs.inopblog, u32 (u32 (rest % 2 ^ fs.inopblog) * fs.inodesize))

/-- `XFS_DINODE_MAGIC`. -/
def dinodeMagic : ℕ := 0x494E

/-- `read_inode_raw`: the return code. -/
def readInodeRaw (fs : XfsFs) (ino : ℕ) : Program XfsState ℤ := do
  let (block, off) := xfsInoToLoc fs ino
  match ← readBlock fs block (← get).inodeBlockBuf 0 with
  | none => return -1
  | some b =>
    modify fun s => { s with inodeBlockBuf := b }
    if bufSize < u32 (off + fs.inodesize) then return -1
    else
      inside bufSize off fs.inodesize
      modify fun s =>
        { s with inodeBuf := Bytes.blit s.inodeBuf 0 (Bytes.shift b off) fs.inodesize }
      if Bytes.beNat (← get).inodeBuf 0 2 ≠ dinodeMagic then return -1 else return 0

/-- `XFS_DINODE_FMT_LOCAL`. -/
def fmtLocal : UInt8 := 1
/-- `XFS_DINODE_FMT_EXTENTS`. -/
def fmtExtents : UInt8 := 2

/-- `di_format`. -/
def diFormat (b : Bytes) : UInt8 := b 5
/-- `di_size`. -/
def diSize (b : Bytes) : ℕ := Bytes.beNat b 56 8
/-- `di_nextents`. -/
def diNextents (b : Bytes) : ℕ := Bytes.beNat b 76 4

/-- Where the data of an inode starts. -/
def literalArea : ℕ := 100

/-- A decoded extent record (`xfs_extent_t`). -/
structure XfsExtent where
  startoff : ℕ
  startblock : ℕ
  blockcount : ℕ
  unwritten : Bool
  deriving DecidableEq, Repr

/-- `xfs_decode_extent` for the two words of a record. -/
def xfsDecodeExtent (l0 l1 : ℕ) : XfsExtent where
  unwritten := l0 / 2 ^ 63 ≠ 0
  startoff := l0 / 2 ^ 9 % 2 ^ 54
  startblock := l0 % 2 ^ 9 * 2 ^ 43 + l1 / 2 ^ 21
  blockcount := l1 % 2 ^ 21

/-- The extent record at `off`. -/
def loadExtent (b : Bytes) (off : ℕ) : Program σ XfsExtent := do
  let l0 ← loadBe bufSize b off 8
  let l1 ← loadBe bufSize b (off + 8) 8
  return xfsDecodeExtent l0 l1

/-- `xfs_resolve_extent` from record `i` on, with `n` records to go: the block on the drive, or
0. -/
def xfsResolveExtent (fs : XfsFs) (b : Bytes) (lb : ℕ) : ℕ → ℕ → Program σ ℕ
  | _, 0 => pure 0
  | i, n + 1 => do
    let e ← loadExtent b (literalArea + i * 16)
    if e.startoff ≤ lb ∧ lb < e.startoff + e.blockcount then
      return xfsFsbToBlock fs (e.startblock + (lb - e.startoff))
    else xfsResolveExtent fs b lb (i + 1) n

end Xfs

end CoolFrost
