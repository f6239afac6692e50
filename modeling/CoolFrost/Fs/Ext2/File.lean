import CoolFrost.Fs.Ext2.Disk

/-!
# ext2: the block map of a file, reading and writing

`ext4_extent_lookup`, `get_block`, `get_or_alloc_block`, `ext2_read` and `ext2_write`.
-/

namespace CoolFrost

open Program

namespace Ext2

/-! ## Extents -/

/-- `EXT4_EXT_MAGIC`. -/
def ext4ExtMagic : ℕ := 0xF30A

/-- The entries of a leaf node, from entry `k` on, `n` of them: the block mapped to `logical`. -/
def leafLookup (eh : Bytes) (logical : ℕ) : ℕ → ℕ → ℕ
  | 0, _ => 0
  | n + 1, k =>
    let eeBlock := Bytes.le32 eh (12 + 12 * k)
    let len := Bytes.le16 eh (12 + 12 * k + 4)
    if 32768 < len then leafLookup eh logical n (k + 1)
    else if eeBlock ≤ logical ∧ logical < u32 (eeBlock + len) then
      u32 (Bytes.le32 eh (12 + 12 * k + 8) + (logical - eeBlock))
    else leafLookup eh logical n (k + 1)

/-- The last entry of an index node, from `k` on, that starts at or before `logical`; at most `n`
further entries are looked at. -/
def indexLookup (eh : Bytes) (logical : ℕ) : ℕ → ℕ → ℕ
  | 0, k => k
  | n + 1, k =>
    if k + 1 < Bytes.le16 eh 2 ∧ Bytes.le32 eh (12 + 12 * (k + 1)) ≤ logical then
      indexLookup eh logical n (k + 1)
    else k

/-- `ext4_extent_lookup`, from the node `eh` on with `n` levels left. -/
def ext4ExtentLookup (fs : Ext2Fs) (logical : ℕ) : ℕ → Bytes → Program Ext2State ℕ
  | 0, _ => return 0
  | n + 1, eh => do
    if Bytes.le16 eh 0 ≠ ext4ExtMagic then return 0
    else if Bytes.le16 eh 6 = 0 then return leafLookup eh logical (Bytes.le16 eh 2) 0
    else if Bytes.le16 eh 2 = 0 ∨ logical < Bytes.le32 eh 12 then return 0
    else
      let k := indexLookup eh logical (Bytes.le16 eh 2) 0
      match ← readBlock fs (Bytes.le32 eh (12 + 12 * k + 4)) with
      | none => return 0
      | some eh => ext4ExtentLookup fs logical n eh

/-! ## Indirect blocks -/

/-- The number of pointers in an indirect block. -/
def ptrsPerBlock (fs : Ext2Fs) : ℕ := fs.blockSize / 4

/-- The pointer number `k` of the indirect block `blk`; 0 when the block is missing or
unreadable. -/
def readPtr (fs : Ext2Fs) (blk k : ℕ) : Program Ext2State ℕ := do
  if blk = 0 then return 0
  else
    match ← readBlock fs blk with
    | none => return 0
    | some ind => return Bytes.le32 ind (4 * k)

/-- `get_block`: the physical block of the logical block `logical`, 0 for a hole. -/
def getBlock (fs : Ext2Fs) (inode : Bytes) (logical : ℕ) : Program Ext2State ℕ := do
  let ptrs := ptrsPerBlock fs
  if usesExtents inode then ext4ExtentLookup fs logical 8 (Bytes.shift inode 40)
  else if logical < 12 then return iBlock inode logical
  else
    let logical := logical - 12
    if logical < ptrs then readPtr fs (iBlock inode 12) logical
    else
      let logical := logical - ptrs
      if logical < u32 (ptrs * ptrs) then
        let ind2 ← readPtr fs (iBlock inode 13) (logical / ptrs)
        readPtr fs ind2 (logical % ptrs)
      else
        let logical := u32sub logical (u32 (ptrs * ptrs))
        if logical / ptrs / ptrs < ptrs then
          let ind2 ← readPtr fs (iBlock inode 14) (logical / u32 (ptrs * ptrs))
          let ind3 ← readPtr fs ind2 (logical / ptrs % ptrs)
          readPtr fs ind3 (logical % ptrs)
        else return 0

/-- Account for one more block in `i_blocks`. -/
def addIBlocks (fs : Ext2Fs) (inode : Bytes) : Bytes :=
  setIBlocks inode (iBlocks inode + fs.sectorsPerBlock)

/-- The direct part of `get_or_alloc_block`; the result is the block (0 on failure) and the
inode. -/
def getOrAllocDirect (fs : Ext2Fs) (inode : Bytes) (logical : ℕ) :
    Program Ext2State (ℕ × Bytes) := do
  if iBlock inode logical = 0 then
    let goal :=
      if 0 < logical ∧ iBlock inode (logical - 1) ≠ 0 then
        u32 (iBlock inode (logical - 1) + 1) else 0
    let nb ← allocBlockNear fs goal
    if nb = 0 then return (0, inode)
    else return (nb, addIBlocks fs (setIBlock inode logical nb))
  else return (iBlock inode logical, inode)

/-- The indirect block of a file, allocated and zeroed if it has none; `none` on failure. -/
def ensureIndirect (fs : Ext2Fs) (inode : Bytes) : Program Ext2State (Option Bytes) := do
  if iBlock inode 12 = 0 then
    let nb ← allocBlock fs
    if nb = 0 then return none
    else if ← writeBlock fs nb Bytes.zeros then
      return some (addIBlocks fs (setIBlock inode 12 nb))
    else return none
  else return some inode

/-- The single-indirect part of `get_or_alloc_block`, `logical` counted from block 12 on. -/
def getOrAllocIndirect (fs : Ext2Fs) (inode : Bytes) (logical : ℕ) :
    Program Ext2State (ℕ × Bytes) := do
  match ← ensureIndirect fs inode with
  | none => return (0, inode)
  | some inode =>
    match ← readBlock fs (iBlock inode 12) with
    | none => return (0, inode)
    | some ind =>
      if Bytes.le32 ind (4 * logical) = 0 then
        let goal :=
          if 0 < logical ∧ Bytes.le32 ind (4 * (logical - 1)) ≠ 0 then
            u32 (Bytes.le32 ind (4 * (logical - 1)) + 1)
          else if logical = 0 ∧ iBlock inode 11 ≠ 0 then u32 (iBlock inode 11 + 1)
          else 0
        let nb ← allocBlockNear fs goal
        if nb = 0 then return (0, inode)
        else if ← writeBlock fs (iBlock inode 12) (Bytes.put32 ind (4 * logical) nb) then
          return (nb, addIBlocks fs inode)
        else return (0, inode)
      else return (Bytes.le32 ind (4 * logical), inode)

/-- `get_or_alloc_block`: the physical block of the logical block `logical`, allocated if it is
missing (0 on failure), and the inode with what changed in it. -/
def getOrAllocBlock (fs : Ext2Fs) (inode : Bytes) (logical : ℕ) :
    Program Ext2State (ℕ × Bytes) := do
  if usesExtents inode then return (0, inode)
  else if logical < 12 then getOrAllocDirect fs inode logical
  else if logical - 12 < ptrsPerBlock fs then getOrAllocIndirect fs inode (logical - 12)
  else return (0, inode)

/-! ## Reading -/

/-- The loop of `ext2_read`: the return value and the caller's buffer. -/
def readLoop (fs : Ext2Fs) (inode : Bytes) (offset size : ℕ) (out : Bytes) :
    Program Ext2State (ℤ × Bytes) :=
  iter (fun (bytesRead, out) => do
    if bytesRead < size then
      let cur := u32 (offset + bytesRead)
      let phys ← getBlock fs inode (cur / fs.blockSize)
      if phys = 0 then return .inr (int32 bytesRead, out)
      else
        match ← readBlock fs phys with
        | none => return .inr (-1, out)
        | some buf =>
          let copy := min (fs.blockSize - cur % fs.blockSize) (size - bytesRead)
          return .inl (bytesRead + copy,
            Bytes.blit out bytesRead (Bytes.shift buf (cur % fs.blockSize)) copy)
    else return .inr (int32 bytesRead, out)) loopFuel (0, out)

/-- `ext2_read`: the return value and the caller's buffer. -/
def ext2Read (node offset size : ℕ) (out : Bytes) : Program Ext2State (ℤ × Bytes) := do
  let nd := (← get).nodePool node
  let fs := nd.fs
  match ← readInode fs nd.inode with
  | none => return (-1, out)
  | some inode =>
    if iSize inode ≤ offset then return (0, out)
    else
      let size := if iSize inode < offset + size then u32 (iSize inode - offset) else size
      readLoop fs inode offset size out

/-! ## Writing -/

/-- Phase 1 of `ext2_write`: make sure the logical blocks from `lb` to `lastBlk` exist.  The result
is the number of them that do, counted from the first, and the inode. -/
def allocBlocks (fs : Ext2Fs) (lb lastBlk : ℕ) (inode : Bytes) : Program Ext2State (ℕ × Bytes) :=
  iter (fun (lb, got, inode) => do
    if lb ≤ lastBlk then
      let (b, inode) ← getOrAllocBlock fs inode lb
      if b = 0 then return .inr (got, inode) else return .inl (lb + 1, got + 1, inode)
    else return .inr (got, inode)) loopFuel (lb, 0, inode)

/-- Phase 2 of `ext2_write`: the number of bytes written. -/
def writeLoop (fs : Ext2Fs) (inode : Bytes) (offset size : ℕ) (input : Bytes) :
    Program Ext2State ℕ :=
  iter (fun bytesWritten => do
    if bytesWritten < size then
      let cur := offset + bytesWritten
      let phys ← getBlock fs inode (u32 (cur / fs.blockSize))
      if phys = 0 then return .inr bytesWritten
      else
        match ← readBlock fs phys with
        | none => return .inr bytesWritten
        | some buf =>
          let copy := min (fs.blockSize - cur % fs.blockSize) (size - bytesWritten)
          let buf := Bytes.blit buf (cur % fs.blockSize) (Bytes.shift input bytesWritten) copy
          if ← writeBlock fs phys buf then return .inl (bytesWritten + copy)
          else return .inr bytesWritten
    else return .inr bytesWritten) loopFuel 0

/-- Change the fields of a node. -/
def modifyNode (node : ℕ) (g : Ext2Node → Ext2Node) : Program Ext2State PUnit :=
  modify fun s => { s with nodePool := Function.update s.nodePool node (g (s.nodePool node)) }

/-- What `ext2_write` does once the blocks are there: copy `size` bytes, then write the inode
back. -/
def writeData (fs : Ext2Fs) (node : ℕ) (inode : Bytes) (offset size : ℕ) (input : Bytes) :
    Program Ext2State ℤ := do
  let ino := ((← get).nodePool node).inode
  let bytesWritten ← writeLoop fs inode offset size input
  if bytesWritten = 0 then return -1
  else
    let inode :=
      if iSize inode < offset + bytesWritten then setISize inode (offset + bytesWritten) else inode
    if ← writeInode fs ino inode then
      modifyNode node fun nd => { nd with size := iSize inode }
      return int32 bytesWritten
    else return -1

/-- `ext2_write`. -/
def ext2Write (node offset size : ℕ) (input : Bytes) : Program Ext2State ℤ := do
  let nd := (← get).nodePool node
  let fs := nd.fs
  if !fs.writeSupported then return -1
  else if !nd.type.isFile then return -1
  else if size = 0 then return 0
  else
    match ← readInode fs nd.inode with
    | none => return -1
    | some inode =>
      if usesExtents inode then return -1
      else if iSizeHigh inode ≠ 0 then return -1
      else if iSize inode < offset then return -1
      else
        let firstBlk := u32 (offset / fs.blockSize)
        let lastBlk := u32 ((offset + size - 1) / fs.blockSize)
        let (got, inode) ← allocBlocks fs firstBlk lastBlk inode
        let newEnd := min (offset + size) (u32 (firstBlk + got) * fs.blockSize)
        if newEnd - offset = 0 then return 0
        else writeData fs node inode offset (newEnd - offset) input

end Ext2

end CoolFrost
