import CoolFrost.Fs.Ext2.File

/-!
# ext2: directories

A directory is a file of variable-length records.  `ext2_readdir`, `ext2_finddir`,
`ext2_insert_dirent`, `ext2_rename` and `ext2_unlink` all walk it record by record with the same
loop, which is `dirWalk` here, with what is done at each record as a parameter.
-/

namespace CoolFrost

open Program

namespace Ext2

/-- `MAX_FILENAME - 1`, the longest name a node or a `dirent_t` can hold. -/
def maxNameLen : ℕ := maxFilename - 1

/-! ## Fields of a directory record -/

/-- `inode`. -/
def deInode (b : Bytes) (off : ℕ) : ℕ := Bytes.le32 b off
/-- `rec_len`. -/
def deRecLen (b : Bytes) (off : ℕ) : ℕ := Bytes.le16 b (off + 4)
/-- `name_len`. -/
def deNameLen (b : Bytes) (off : ℕ) : ℕ := (b (off + 6)).toNat
/-- `file_type`. -/
def deFileType (b : Bytes) (off : ℕ) : UInt8 := b (off + 7)
/-- The name. -/
def deName (b : Bytes) (off : ℕ) : List UInt8 := Bytes.slice b (off + 8) (deNameLen b off)

/-- `EXT2_FT_REG_FILE`. -/
def ftRegFile : UInt8 := 1
/-- `EXT2_FT_DIR`. -/
def ftDir : UInt8 := 2

/-- `align4`: round up to a multiple of 4. -/
def align4 (x : ℕ) : ℕ := (x + 3) / 4 * 4

/-- The record at `off` is in use and called `name`.  The lengths are compared as bytes, as in the
source. -/
def nameMatch (b : Bytes) (off : ℕ) (name : List UInt8) : Bool :=
  deInode b off ≠ 0 ∧ deNameLen b off = name.length % 256 ∧
    Bytes.slice b (off + 8) name.length = name

/-! ## The walk -/

variable {α γ : Type}

/-- How a walk ends. -/
inductive WalkEnd (α : Type) where
  /-- The visit of a record ended it. -/
  | found (a : α)
  /-- The end of the directory. -/
  | ended
  /-- A block of the directory is missing or cannot be read. -/
  | badBlock
  /-- A record of length 0. -/
  | badRecord

/-- The block of the directory that holds position `pos`, unless it is the one at hand. -/
def loadDirBlock (fs : Ext2Fs) (inode : Bytes) (blkLog : ℕ) (cur : Option (ℕ × ℕ × Bytes)) :
    Program Ext2State (Option (ℕ × Bytes)) := do
  match cur with
  | some (curLogical, phys, buf) =>
    if curLogical = blkLog then return some (phys, buf) else load
  | none => load
where
  /-- Read the block. -/
  load : Program Ext2State (Option (ℕ × Bytes)) := do
    let phys ← getBlock fs inode blkLog
    if phys = 0 then return none
    else
      match ← readBlock fs phys with
      | none => return none
      | some buf => return some (phys, buf)

/-- The walk over the records of the directory with the given inode; `visit` gets the number of the
block, the offset of the record in it, and the block's contents. -/
def dirWalk (fs : Ext2Fs) (inode : Bytes) (visit : ℕ → ℕ → Bytes → γ → γ ⊕ α) (acc : γ) :
    Program Ext2State (WalkEnd α) :=
  iter (fun (pos, cur, acc) => do
    if pos < iSize inode then
      match ← loadDirBlock fs inode (pos / fs.blockSize) cur with
      | none => return .inr .badBlock
      | some (phys, buf) =>
        let off := pos % fs.blockSize
        if deRecLen buf off = 0 then return .inr .badRecord
        else
          match visit phys off buf acc with
          | .inr a => return .inr (.found a)
          | .inl acc =>
            return .inl (u32 (pos + deRecLen buf off), some (pos / fs.blockSize, phys, buf), acc)
    else return .inr .ended) loopFuel (0, none, acc)

/-! ## Looking up -/

/-- The record is `.` or `..`. -/
def isDotEntry (b : Bytes) (off : ℕ) : Bool := deName b off = [46] ∨ deName b off = [46, 46]

/-- The name of a record as a `dirent_t` holds it: a string, which ends at its first zero byte. -/
def direntName (b : Bytes) (off : ℕ) : List UInt8 :=
  ((deName b off).take maxNameLen).takeWhile (· ≠ 0)

/-- The visit of `ext2_readdir`: count the records in use, up to number `index`; the result is the
name, the type and the inode number. -/
def readdirVisit (index off : ℕ) (b : Bytes) (validCount : ℕ) :
    ℕ ⊕ (List UInt8 × VfsType × ℕ) :=
  if deInode b off ≠ 0 ∧ 0 < deNameLen b off then
    if isDotEntry b off then .inl validCount
    else if validCount = index then
      .inr (direntName b off, if deFileType b off = ftDir then .directory else .file, deInode b off)
    else .inl (validCount + 1)
  else .inl validCount

/-- `ext2_readdir`: the entry number `index` of the directory `node`. -/
def ext2Readdir (node index : ℕ) : Program Ext2State (Option Dirent) := do
  let nd := (← get).nodePool node
  match ← readInode nd.fs nd.inode with
  | none => return none
  | some inode =>
    match ← dirWalk nd.fs inode (fun _ off b c => readdirVisit index off b c) 0 with
    | .found (name, type, ino) =>
      match ← readInode nd.fs ino with
      | none => return some ⟨name, 0, type⟩
      | some child => return some ⟨name, iSize child, type⟩
    | .ended => return none
    | .badBlock => return none
    | .badRecord => return none

/-- A record that a walk found: the block, the offset of the record, and the block's contents. -/
structure RecordAt where
  phys : ℕ
  off : ℕ
  buf : Bytes

/-- The visit that looks for the record called `name`. -/
def findVisit (name : List UInt8) (phys off : ℕ) (b : Bytes) : Unit ⊕ RecordAt :=
  if nameMatch b off name then .inr ⟨phys, off, b⟩ else .inl ()

/-- `alloc_node`. -/
def allocNode (nd : Ext2Node) : Program Ext2State (Option ℕ) := do
  let s ← get
  if maxExt2Nodes ≤ s.nodePoolUsed then return none
  else
    modify fun s =>
      { s with
        nodePool := Function.update s.nodePool s.nodePoolUsed nd
        nodePoolUsed := s.nodePoolUsed + 1 }
    return some s.nodePoolUsed

/-- `ext2_finddir`: a new node for the entry called `name` in the directory `node`. -/
def ext2Finddir (node : ℕ) (name : List UInt8) : Program Ext2State (Option ℕ) := do
  let nd := (← get).nodePool node
  match ← readInode nd.fs nd.inode with
  | none => return none
  | some inode =>
    match ← dirWalk nd.fs inode (fun phys off b _ => findVisit name phys off b) () with
    | .found r =>
      match ← readInode nd.fs (deInode r.buf r.off) with
      | none => return none
      | some child =>
        allocNode
          { name := name.take maxNameLen
            type := if isDirInode child then .directory else .file
            size := iSize child, inode := deInode r.buf r.off, parent := some node, fs := nd.fs }
    | .ended => return none
    | .badBlock => return none
    | .badRecord => return none

/-! ## Inserting -/

/-- The bytes a record needs: its header and name, or nothing for a free record. -/
def deUsed (b : Bytes) (off : ℕ) : ℕ :=
  if deInode b off ≠ 0 then align4 (8 + deNameLen b off) else 0

/-- Fill in a record whose length is already there. -/
def fillRecord (b : Bytes) (off ino : ℕ) (name : List UInt8) (fileType : UInt8) : Bytes :=
  let b := Bytes.put32 b off ino
  let b := Bytes.put8 b (off + 6) (UInt8.ofNat name.length)
  let b := Bytes.put8 b (off + 7) fileType
  Bytes.blit b (off + 8) (Bytes.ofList name) name.length

/-- `a - b` in 16-bit arithmetic. -/
def u16sub (a b : ℕ) : ℕ := (a + (2 ^ 16 - b)) % 2 ^ 16

/-- Put a record into the free record at `off`, or into the slack behind the record at `off`. -/
def placeRecord (b : Bytes) (off ino : ℕ) (name : List UInt8) (fileType : UInt8) : Bytes :=
  let used := deUsed b off
  if used = 0 then fillRecord b off ino name fileType
  else
    let oldRecLen := deRecLen b off
    let b := Bytes.put16 b (off + 4) used
    let b := Bytes.put16 b (off + used + 4) (u16sub oldRecLen used)
    fillRecord b (off + used) ino name fileType

/-- The visit of `ext2_insert_dirent`: the first record with room for `newMin` bytes. -/
def insertVisit (newMin phys off : ℕ) (b : Bytes) : Unit ⊕ RecordAt :=
  if newMin ≤ u32sub (deRecLen b off) (deUsed b off) then .inr ⟨phys, off, b⟩ else .inl ()

/-- `ext2_insert_dirent`: add an entry to the directory `dir`; `true` stands for the return
code 0. -/
def ext2InsertDirent (fs : Ext2Fs) (dir : ℕ) (name : List UInt8) (ino : ℕ) (fileType : UInt8) :
    Program Ext2State Bool := do
  if name.length = 0 ∨ 255 < name.length then return false
  else
    let nd := (← get).nodePool dir
    match ← readInode fs nd.inode with
    | none => return false
    | some inode =>
      let newMin := align4 (8 + name.length)
      match ← dirWalk fs inode (fun phys off b _ => insertVisit newMin phys off b) () with
      | .found r => writeBlock fs r.phys (placeRecord r.buf r.off ino name fileType)
      | .ended => append nd.inode inode
      | .badBlock => append nd.inode inode
      | .badRecord => append nd.inode inode
where
  /-- Append a block that holds just the new entry. -/
  append (dirIno : ℕ) (inode : Bytes) : Program Ext2State Bool := do
    let (newPhys, inode) ← getOrAllocBlock fs inode (iSize inode / fs.blockSize)
    if newPhys = 0 then return false
    else
      let b := fillRecord (Bytes.put16 Bytes.zeros 4 fs.blockSize) 0 ino name fileType
      if ← writeBlock fs newPhys b then
        writeInode fs dirIno (setISize inode (iSize inode + fs.blockSize))
      else return false

end Ext2

end CoolFrost
