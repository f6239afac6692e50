import CoolFrost.Fs.Xfs.Inodes

/-!
# XFS: directories

A small directory is stored in its inode (`xfs_sf_entry_at`), a larger one in a directory block of
its own (`xfs_block_entry_at`); other layouts are not read.  Both functions look for the entry with
a given number from the start.
-/

namespace CoolFrost

open Program

namespace Xfs

variable {σ : Type}

/-- A decoded directory entry (`xfs_sf_entry_t`): `name` is the place of the name in the buffer. -/
structure XfsSfEntry where
  name : ℕ
  namelen : ℕ
  inumber : ℕ
  ftype : ℕ
  deriving DecidableEq, Repr

/-- `xfs_sf_entry_at`: the entry number `wantIdx` of the directory stored in the inode `b`. -/
def xfsSfEntryAt (b : Bytes) (wantIdx : ℕ) : Program σ (Option XfsSfEntry) := do
  let count ← loadBe bufSize b literalArea 1
  let i8count ← loadBe bufSize b (literalArea + 1) 1
  let inumSz := if i8count = 0 then 4 else 8
  iter (fun (i, pos) => do
    if i < count then
      let namelen ← loadBe bufSize b (literalArea + pos) 1
      let ftype ← loadBe bufSize b (literalArea + pos + 3 + namelen) 1
      let inumber ← loadBe bufSize b (literalArea + pos + 3 + namelen + 1) inumSz
      if i = wantIdx then return .inr (some ⟨literalArea + pos + 3, namelen, inumber, ftype⟩)
      else return .inl (i + 1, pos + (3 + namelen + 1 + inumSz))
    else return .inr none) loopFuel (0, 2 + inumSz)

/-- A name of `namelen` bytes at `pos` is `.` or `..`. -/
def isDots (b : Bytes) (pos namelen : ℕ) : Prop :=
  (namelen = 1 ∧ b pos = 46) ∨ (namelen = 2 ∧ b pos = 46 ∧ b (pos + 1) = 46)

instance (b : Bytes) (pos namelen : ℕ) : Decidable (isDots b pos namelen) :=
  inferInstanceAs (Decidable (_ ∨ _))

/-- The room that an entry with a name of `namelen` bytes takes. -/
def entryLen (namelen : ℕ) : ℕ := (9 + namelen + 1 + 2 + 7) / 8 * 8

/-- `xfs_block_entry_at`: the entry number `wantIdx` of the directory block `b`. -/
def xfsBlockEntryAt (b : Bytes) (dirblksize wantIdx : ℕ) : Program σ (Option XfsSfEntry) := do
  let tailOff := u32sub dirblksize 8
  inside bufSize tailOff 8
  let leafStart := u32sub tailOff (u32 (Bytes.beNat b tailOff 4 * 8))
  iter (fun (pos, seen) => do
    if pos < leafStart then
      let maybeFree ← loadBe bufSize b pos 2
      if maybeFree = 0xFFFF then
        let length ← loadBe bufSize b (pos + 2) 2
        return .inl (u32 (pos + length), seen)
      else
        let inumber ← loadBe bufSize b pos 8
        let namelen ← loadBe bufSize b (pos + 8) 1
        let ftype ← loadBe bufSize b (pos + 9 + namelen) 1
        if isDots b (pos + 9) namelen then return .inl (u32 (pos + entryLen namelen), seen)
        else if seen = wantIdx then return .inr (some ⟨pos + 9, namelen, inumber, ftype⟩)
        else return .inl (u32 (pos + entryLen namelen), seen + 1)
    else return .inr none) loopFuel (16, 0)

/-- How a directory is stored. -/
inductive DirKind where
  | shortform
  | block (dirblksize : ℕ)
  deriving DecidableEq, Repr

/-- The loop of `xfs_load_dir`: read the file system blocks of a directory block into `block_buf`.
`false` stands for a failed read. -/
def loadDirBlocks (fs : XfsFs) (phys : ℕ) : Program XfsState Bool :=
  iter (fun i => do
    if i < u32 (2 ^ fs.dirblklog) then
      inside bufSize (u32 (i * fs.blockSize)) (fs.sectorsPerBlock % 256 * 512)
      match ← readBlock fs (phys + i) (← get).blockBuf (u32 (i * fs.blockSize)) with
      | none => return .inr false
      | some b =>
        modify fun s => { s with blockBuf := b }
        return .inl (i + 1)
    else return .inr true) loopFuel 0

/-- `xfs_load_dir`: how the directory is stored, or `none` if it is not read. -/
def xfsLoadDir (nd : XfsNode) : Program XfsState (Option DirKind) := do
  if (← readInodeRaw nd.fs nd.inode) ≠ 0 then return none
  else
    let inode := (← get).inodeBuf
    if diFormat inode = fmtLocal then return some .shortform
    else if diFormat inode ≠ fmtExtents then return none
    else
      let dirblksize := u32 (nd.fs.blockSize * 2 ^ nd.fs.dirblklog)
      if diNextents inode ≠ 1 then return none
      else
        let e ← loadExtent inode literalArea
        if e.startoff ≠ 0 ∨ u32 (e.blockcount * nd.fs.blockSize) ≠ dirblksize then return none
        else if bufSize < dirblksize then return none
        else if ← loadDirBlocks nd.fs (xfsFsbToBlock nd.fs e.startblock) then
          return some (.block dirblksize)
        else return none

/-- The buffer that holds the entries of a directory. -/
def DirKind.buf (k : DirKind) (s : XfsState) : Bytes :=
  match k with
  | .shortform => s.inodeBuf
  | .block _ => s.blockBuf

/-- The entry number `idx` of a directory that has been loaded. -/
def entryAt (k : DirKind) (idx : ℕ) : Program XfsState (Option XfsSfEntry) := do
  let s ← get
  match k with
  | .shortform => xfsSfEntryAt s.inodeBuf idx
  | .block dirblksize => xfsBlockEntryAt s.blockBuf dirblksize idx

/-- The entry number `index` of the directory `nd`. -/
def readdirAt (nd : XfsNode) (index : ℕ) : Program XfsState (Option Dirent) := do
  match ← xfsLoadDir nd with
  | none => return none
  | some kind =>
    match ← entryAt kind index with
    | none => return none
    | some e =>
      let name := Bytes.slice (kind.buf (← get)) e.name (min e.namelen (maxFilename - 1))
      let ok ← readInodeRaw nd.fs e.inumber
      let child := (← get).inodeBuf
      return some ⟨name.takeWhile (· ≠ 0), if ok = 0 then diSize child else 0,
        if e.ftype = 2 then .directory else .file⟩

/-- `xfs_readdir`. -/
def xfsReaddir (node index : ℕ) : Program XfsState (Option Dirent) := do
  readdirAt ((← get).nodePool node) index

/-- `MAX_XFS_NODES`. -/
def maxXfsNodes : ℕ := 128

/-- `alloc_node`, with the fields its callers fill in. -/
def allocNode (nd : XfsNode) : Program XfsState (Option ℕ) := do
  let s ← get
  if maxXfsNodes ≤ s.nodePoolUsed then return none
  else
    modify fun s =>
      { s with
        nodePool := Function.update s.nodePool s.nodePoolUsed nd
        nodePoolUsed := s.nodePoolUsed + 1 }
    return some s.nodePoolUsed

/-- A new node for an entry of the directory `node` that is called `name`. -/
def foundNode (fs : XfsFs) (node : ℕ) (name : List UInt8) (e : XfsSfEntry) :
    Program XfsState (Option ℕ) := do
  if (← readInodeRaw fs e.inumber) ≠ 0 then return none
  else
    let child := (← get).inodeBuf
    let type := if Bytes.beNat child 2 2 / 0x1000 = 4 then .directory else .file
    allocNode ⟨name.take (maxFilename - 1), type, diSize child, u32 e.inumber, some node, fs⟩

/-- `xfs_finddir`: a new node for the entry called `name` in the directory `node`. -/
def xfsFinddir (node : ℕ) (name : List UInt8) : Program XfsState (Option ℕ) := do
  let nd := (← get).nodePool node
  match ← xfsLoadDir nd with
  | none => return none
  | some kind =>
    iter (fun idx => do
      match ← entryAt kind idx with
      | none => return .inr none
      | some e =>
        if e.namelen = name.length ∧ Bytes.slice (kind.buf (← get)) e.name e.namelen = name then
          return .inr (← foundNode nd.fs node name e)
        else return .inl (idx + 1)) loopFuel 0

/-!
## Reading files and mounting
-/

/-- The loop of `xfs_read`: copy the blocks of the window to the caller's buffer, up to the first
one that is not mapped or not read.  Returns the number of bytes copied and the buffer. -/
def copyBlocks (fs : XfsFs) (inode : Bytes) (nextents offset remaining : ℕ) (out : Bytes) :
    Program XfsState (ℕ × Bytes) :=
  iter (fun (got, out) => do
    if got < remaining then
      let lb := (offset + got) / fs.blockSize
      let blkOff := (offset + got) % fs.blockSize
      let phys ← xfsResolveExtent fs inode lb 0 nextents
      if phys = 0 then return .inr (got, out)
      else
        match ← readBlock fs phys (← get).blockBuf 0 with
        | none => return .inr (got, out)
        | some b =>
          modify fun s => { s with blockBuf := b }
          let copy := min (fs.blockSize - blkOff) (remaining - got)
          inside bufSize blkOff copy
          return .inl (got + copy, Bytes.blit out got (Bytes.shift b blkOff) copy)
    else return .inr (got, out)) loopFuel (0, out)

/-- What is read of the file `nd`: the return value and the caller's buffer. -/
def readAt (nd : XfsNode) (offset size : ℕ) (out : Bytes) : Program XfsState (ℤ × Bytes) := do
  if nd.size ≤ offset then return (0, out)
  else if (← readInodeRaw nd.fs nd.inode) ≠ 0 then return (-1, out)
  else
    let remaining := if nd.size < offset + size then u32 (nd.size - offset) else size
    if remaining = 0 then return (0, out)
    else
      let inode := (← get).inodeBuf
      if diFormat inode = fmtLocal then
        inside bufSize (literalArea + offset) remaining
        return (int32 remaining, Bytes.blit out 0
          (Bytes.shift inode (literalArea + offset)) remaining)
      else if diFormat inode ≠ fmtExtents then return (-1, out)
      else
        let (got, out) ← copyBlocks nd.fs inode (diNextents inode) offset remaining out
        return (if got = 0 then -1 else int32 got, out)

/-- `xfs_read`. -/
def xfsRead (node offset size : ℕ) (out : Bytes) : Program XfsState (ℤ × Bytes) := do
  readAt ((← get).nodePool node) offset size out

/-! ## Mounting -/

/-- `MAX_XFS_FS`. -/
def maxXfsFs : ℕ := 4

/-- `XFS_SB_MAGIC`. -/
def sbMagic : ℕ := 0x58465342

/-- The fields of a volume, from its superblock. -/
def fsOfSb (dev : Drive) (partLba : ℕ) (sb : Bytes) : XfsFs where
  dev := dev
  partLba := partLba
  blockSize := Bytes.beNat sb 4 4
  sectorsPerBlock := Bytes.beNat sb 4 4 / 512 % 256
  agblocks := Bytes.beNat sb 84 4
  agblklog := Bytes.beNat sb 124 1
  inodesize := Bytes.beNat sb 104 2
  inopblog := Bytes.beNat sb 123 1
  dirblklog := Bytes.beNat sb 192 1
  rootino := Bytes.beNat sb 56 8

/-- The root node of a volume. -/
def rootNode (fs : XfsFs) : XfsNode := ⟨[47], .mountRoot, 0, u32 fs.rootino, none, fs⟩

/-- `xfs_mount`: the root node of the volume, or the error code. -/
def xfsMount (dev : Drive) (partLba : ℕ) : Program XfsState (Except ℤ ℕ) := do
  match ← zoom XfsState.blk (fun d s => { s with blk := d }) (blkRead dev partLba 1) with
  | none => return .error (-1)
  | some sb =>
    if Bytes.beNat sb 0 4 ≠ sbMagic then return .error (-2)
    else if Bytes.beNat sb 100 2 % 16 = 5 then return .error (-3)
    else
      if maxXfsFs ≤ (← get).fsPoolUsed then return .error (-4)
      else
        let fs := fsOfSb dev partLba sb
        modify fun s => { s with fsPoolUsed := s.fsPoolUsed + 1 }
        if fs.blockSize = 0 ∨ bufSize < fs.blockSize ∨ fs.inodesize = 0 ∨
          bufSize < fs.inodesize then
          return .error (-5)
        else
          match ← allocNode (rootNode fs) with
          | none => return .error (-6)
          | some root => return .ok root

end Xfs

end CoolFrost
