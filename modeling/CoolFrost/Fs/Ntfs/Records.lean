import CoolFrost.Lib.Buffer
import CoolFrost.Fs.Node

/-!
# NTFS: mounted state, file records and attributes

The data a mounted volume keeps (`fs/ntfs.h`), the driver's static state (`fs/ntfs.c`), and the
functions that read a record of the master file table and look for an attribute in it.

`mft_buf` and `indx_buf` keep their contents from one call to the next, so they are part of the
state; `data_buf` is always filled before it is looked at and is a local value.  All three have 4096
bytes.  Reads from the first two are checked against that size (`load`).  Differences of cluster
numbers are added to a 32-bit number, as two's complement does it.
-/

namespace CoolFrost

open Program

/-- A mounted volume (`ntfs_fs_t`). -/
structure NtfsFs where
  /-- `drive_type` and `drive`. -/
  dev : Drive
  partLba : ℕ
  sectorsPerCluster : ℕ
  clusterSize : ℕ
  mftLba : ℕ
  mftRecordSize : ℕ
  mftSectors : ℕ
  indexRecordSize : ℕ
  deriving DecidableEq, Repr

/-- A node of the driver's pool. -/
structure NtfsNode where
  name : List UInt8
  type : VfsType
  size : ℕ
  inode : ℕ
  parent : Option ℕ
  fs : NtfsFs
  deriving DecidableEq, Repr

/-- The static state of the NTFS driver, with the drives it works on. -/
structure NtfsState where
  blk : BlkDev
  mftBuf : Bytes
  indxBuf : Bytes
  fsPoolUsed : ℕ
  nodePool : ℕ → NtfsNode
  nodePoolUsed : ℕ

namespace Ntfs

variable {σ : Type}

/-- The size of `mft_buf`, `data_buf` and `indx_buf`. -/
def bufSize : ℕ := 4096

/-- Run a transfer of the block layer inside the driver. -/
def io {α : Type} (m : Program BlkDev α) : Program NtfsState α :=
  zoom NtfsState.blk (fun d s => { s with blk := d }) m

/-- `apply_fixup`: the record with the ends of its sectors put back, and whether all of them had the
update sequence number.  The record is left half restored if one has not. -/
def applyFixup (record : Bytes) (fixupOffset fixupCount recordSize : ℕ) :
    Program σ (Bytes × Bool) := do
  let usn ← load bufSize record fixupOffset 2
  if fixupCount < 2 then return (record, true)
  else
    iter (fun (i, record) => do
      if i < fixupCount ∧ i ≤ recordSize / 512 then
        let sectorEnd ← load bufSize record (i * 512 - 2) 2
        if sectorEnd ≠ usn then return .inr (record, false)
        else
          let v ← load bufSize record (fixupOffset + 2 * i) 2
          return .inl (i + 1, Bytes.put16 record (i * 512 - 2) v)
      else return .inr (record, true)) loopFuel (1, record)

/-- The signature `FILE`. -/
def fileSignature : List UInt8 := [70, 73, 76, 69]
/-- The signature `INDX`. -/
def indxSignature : List UInt8 := [73, 78, 68, 88]

/-- The transfer of `read_mft_record`: the sectors of a record, as they are on the drive. -/
def fetchMftRecord (fs : NtfsFs) (recordNum : ℕ) : Program NtfsState Bool := do
  match ← io (blkRead fs.dev (fs.mftLba + recordNum * fs.mftSectors) fs.mftSectors) with
  | none => return false
  | some b =>
    modify fun s => { s with mftBuf := Bytes.blit s.mftBuf 0 b (fs.mftSectors % 256 * 512) }
    return true

/-- `read_mft_record`: the return code. -/
def readMftRecord (fs : NtfsFs) (recordNum : ℕ) : Program NtfsState ℤ := do
  if ← fetchMftRecord fs recordNum then
    let buf := (← get).mftBuf
    if Bytes.slice buf 0 4 ≠ fileSignature then return -2
    else
      let fixupOffset ← load bufSize buf 4 2
      let fixupCount ← load bufSize buf 6 2
      let (buf, ok) ← applyFixup buf fixupOffset fixupCount fs.mftRecordSize
      modify fun s => { s with mftBuf := buf }
      return if ok then 0 else -1
  else return -1

/-- `NTFS_ATTR_DATA`. -/
def attrData : ℕ := 0x80
/-- `NTFS_ATTR_INDEX_ROOT`. -/
def attrIndexRoot : ℕ := 0x90
/-- `NTFS_ATTR_INDEX_ALLOCATION`. -/
def attrIndexAllocation : ℕ := 0xA0
/-- `NTFS_ATTR_END`. -/
def attrEnd : ℕ := 0xFFFFFFFF

/-- `find_attr`: the offset of the first attribute of the given type. -/
def findAttr (record : Bytes) (type : ℕ) : Program σ (Option ℕ) := do
  let first ← load bufSize record 20 2
  let usedSize ← load bufSize record 24 4
  iter (fun off => do
    if off + 16 ≤ usedSize then
      let attrType ← load bufSize record off 4
      if attrType = attrEnd then return .inr none
      else
        let length ← load bufSize record (off + 4) 4
        if length = 0 then return .inr none
        else if attrType = type then return .inr (some off)
        else return .inl (u32 (off + length))
    else return .inr none) loopFuel first

/-!
## Data runs

`parse_run` and `read_nonresident`: the run list of an attribute says which clusters hold its data,
each run relative to the one before.  A run without an offset field is sparse.
-/

/-- `parse_run`: the bytes taken, the length and the signed offset of the run at `pos`, or `none` at
the end of the runs. -/
def parseRun (b : Bytes) (pos : ℕ) : Program σ (Option (ℕ × ℕ × ℤ)) := do
  let header ← load bufSize b pos 1
  let lenSz := header % 16
  let offSz := header / 16
  if header = 0 then return none
  else if lenSz = 0 ∨ 4 < lenSz then return none
  else if 4 < offSz then return none
  else
    let length ← load bufSize b (pos + 1) lenSz
    let raw ← load bufSize b (pos + 1 + lenSz) offSz
    let offset : ℤ :=
      if 0 < offSz ∧ 128 ≤ (b (pos + lenSz + offSz)).toNat then raw - 256 ^ offSz else raw
    return some (1 + lenSz + offSz, length, offset)

/-- Add a signed difference to a 32-bit number. -/
def addInt32 (a : ℕ) (d : ℤ) : ℕ := ((a + d) % 2 ^ 32).toNat

/-- The sector at which a cluster starts, `clustIdx` clusters after the cluster `lcn`. -/
def clusterLba (fs : NtfsFs) (lcn clustIdx : ℕ) : ℕ :=
  fs.partLba + u32 (lcn + clustIdx) * fs.sectorsPerCluster

/-- The variables of the loop over the clusters of a run. -/
structure CopyLoop where
  runByteOff : ℕ
  remaining : ℕ
  bytesRead : ℕ
  /-- The caller's buffer. -/
  out : Bytes

/-- The inner loop of `read_nonresident`: copy `remaining` bytes of a run to the caller's buffer,
cluster by cluster.  `false` stands for a failed read. -/
def copyRun (fs : NtfsFs) (lcn : ℕ) (v : CopyLoop) : Program NtfsState (Bool × CopyLoop) :=
  iter (fun (v : CopyLoop) => do
    if 0 < v.remaining then
      let withinClust := v.runByteOff % fs.clusterSize
      match ← io (blkRead fs.dev (clusterLba fs lcn (v.runByteOff / fs.clusterSize))
          fs.sectorsPerCluster) with
      | none => return .inr (false, v)
      | some dataBuf =>
        let chunk := min (fs.clusterSize - withinClust) v.remaining
        return .inl ⟨u32 (v.runByteOff + chunk), v.remaining - chunk, u32 (v.bytesRead + chunk),
          Bytes.blit v.out v.bytesRead (Bytes.shift dataBuf withinClust) chunk⟩
    else return .inr (true, v)) loopFuel v

/-- The variables of the loop over the runs. -/
structure RunLoop where
  /-- The place of the next run in the record. -/
  runs : ℕ
  bytesRead : ℕ
  prevLcn : ℕ
  vcnPos : ℕ
  /-- The caller's buffer. -/
  out : Bytes

/-- `read_nonresident` for the attribute at `attr` of a record: the return value and the caller's
buffer. -/
def readNonresident (fs : NtfsFs) (record : Bytes) (attr offset size : ℕ) (out : Bytes) :
    Program NtfsState (ℤ × Bytes) := do
  let dataRunsOffset ← load bufSize record (attr + 32) 2
  iter (fun (v : RunLoop) => do
    if v.bytesRead < size then
      match ← parseRun record v.runs with
      | none => return .inr (int32 v.bytesRead, v.out)
      | some (consumed, runLen, runOff) =>
        let lcn := addInt32 v.prevLcn runOff
        let runEnd := u32 (v.vcnPos + u32 (runLen * fs.clusterSize))
        let readEnd := u32 (offset + size)
        if offset < runEnd ∧ v.vcnPos < readEnd then
          let copyStart := max offset v.vcnPos
          let copyEnd := min readEnd runEnd
          let (ok, c) ← copyRun fs lcn
            ⟨copyStart - v.vcnPos, u32sub copyEnd copyStart, v.bytesRead, v.out⟩
          if ok then return .inl ⟨v.runs + consumed, c.bytesRead, lcn, runEnd, c.out⟩
          else return .inr (-1, c.out)
        else return .inl ⟨v.runs + consumed, v.bytesRead, lcn, runEnd, v.out⟩
    else return .inr (int32 v.bytesRead, v.out)) loopFuel ⟨attr + dataRunsOffset, 0, 0, 0, out⟩

end Ntfs

end CoolFrost
