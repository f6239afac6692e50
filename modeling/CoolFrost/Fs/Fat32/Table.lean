import CoolFrost.Fs.Node

/-!
# FAT32: mounted state and the file allocation table

The data a mounted volume keeps (`fs/fat32.h`), the driver's static state (`fs/fat32.c`) and the
functions that read, write and allocate entries of the file allocation table.

Of the driver's static buffers only `fat_buf` outlives a call: it is the one-sector read cache of
`fat32_next_cluster`, keyed by drive and sector.  `sector_buf` and `cluster_buf` are always filled
before they are looked at, so they are local values here.
-/

namespace CoolFrost

open Program

/-- `FAT32_EOC`: entries from this value on end a chain. -/
def fat32Eoc : ℕ := 0x0FFFFFF8

/-- `FAT32_MAX_CLUSTER_SECTORS`. -/
def fat32MaxClusterSectors : ℕ := 128

/-- `MAX_VFS_NODES`. -/
def maxVfsNodes : ℕ := 128

/-- A mounted volume (`fat32_fs_t`).  `next_free_hint`, the only field that changes after the mount,
is kept in the driver state under the volume's place `id` in `fs_pool`. -/
structure Fat32Fs where
  /-- The place of the volume in `fs_pool`. -/
  id : ℕ
  /-- `drive_type` and `drive`. -/
  dev : Drive
  partLba : ℕ
  sectorsPerCluster : ℕ
  reservedSectors : ℕ
  numFats : ℕ
  fatSize : ℕ
  rootCluster : ℕ
  fatStartLba : ℕ
  dataStartLba : ℕ
  totalSectors : ℕ
  totalClusters : ℕ
  deriving DecidableEq, Repr

/-- The driver's own data about a node (`fat32_file_info_t`). -/
structure Fat32FileInfo where
  fs : Fat32Fs
  hasDirent : Bool
  direntLba : ℕ
  direntOff : ℕ
  deriving DecidableEq, Repr

/-- A node of the driver's pool (`vfs_node_t`); `fs_private` points at the `finfo_pool` entry that
is allocated together with the node. -/
structure Fat32Node where
  name : List UInt8
  type : VfsType
  size : ℕ
  inode : ℕ
  /-- The parent directory, `none` for the root of a volume. -/
  parent : Option ℕ
  fi : Fat32FileInfo
  deriving DecidableEq, Repr

/-- A call that reads or changes sectors that the cached one may be among. -/
inductive FatEvent where
  /-- `fat32_next_cluster` on a cluster. -/
  | lookup (fs : Fat32Fs) (cluster : ℕ)
  /-- `fat32_set_fat_entry` on a cluster, with the number of transfers made before the call. -/
  | setEntry (fs : Fat32Fs) (cluster calls : ℕ)
  /-- A `blk_write` of file data or of directory entries. -/
  | write (dev : Drive) (lba count : ℕ)

/-- The static state of the FAT32 driver, with the drives it works on. -/
structure Fat32State where
  blk : BlkDev
  /-- The cached sector of a file allocation table. -/
  fatBuf : Bytes
  /-- The drive `fat_buf` belongs to (`cached_fat_drive_type`, `cached_fat_drive`). -/
  cachedFatDev : Drive
  /-- The sector `fat_buf` belongs to (`cached_fat_lba`). -/
  cachedFatLba : ℕ
  fsPoolUsed : ℕ
  nextFreeHint : ℕ → ℕ
  nodePool : ℕ → Fat32Node
  nodePoolUsed : ℕ
  /-- The calls so far that matter to the cached sector, the latest first.  No program reads it. -/
  trace : List FatEvent

namespace Fat32

/-- Run a transfer of the block layer inside the driver. -/
def io {α : Type} (m : Program BlkDev α) : Program Fat32State α :=
  zoom Fat32State.blk (fun d s => { s with blk := d }) m

/-- Put a call on record. -/
def note (e : FatEvent) : Program Fat32State PUnit :=
  modify fun s => { s with trace := e :: s.trace }

/-- The `blk_write` of sectors with file data or directory entries. -/
def writeData (dev : Drive) (lba count : ℕ) (buf : Bytes) : Program Fat32State Bool := do
  note (.write dev lba count)
  io (blkWrite dev lba count buf)

/-- `cluster_to_lba`: the first sector of a data cluster. -/
def clusterToLba (fs : Fat32Fs) (cluster : ℕ) : ℕ :=
  fs.dataStartLba + u32sub cluster 2 * fs.sectorsPerCluster

/-- The cached sector is the one asked for. -/
def cacheHit (fs : Fat32Fs) (lba : ℕ) (s : Fat32State) : Bool :=
  s.cachedFatLba = lba ∧ s.cachedFatDev = fs.dev

/-- Make `fat_buf` hold the sector `lba`: the `blk_read` of `fat32_next_cluster`, skipped on a cache
hit.  `false` stands for a failed read. -/
def loadFatSector (fs : Fat32Fs) (lba : ℕ) : Program Fat32State Bool := do
  let s ← get
  if cacheHit fs lba s then return true
  else
    match ← io (blkRead fs.dev lba 1) with
    | none => return false
    | some b =>
      modify fun s => { s with fatBuf := b, cachedFatLba := lba, cachedFatDev := fs.dev }
      return true

/-- `fat32_next_cluster`: the entry of `cluster`, or `FAT32_EOC` when it cannot be read. -/
def fat32NextCluster (fs : Fat32Fs) (cluster : ℕ) : Program Fat32State ℕ := do
  note (.lookup fs cluster)
  let fatOffset := u32 (cluster * 4)
  if ← loadFatSector fs (fs.fatStartLba + fatOffset / 512) then
    let s ← get
    return Bytes.le32 s.fatBuf (fatOffset % 512) % 2 ^ 28
  else return fat32Eoc

/-- The new 32 bits of an entry: the low 28 from `value`, the reserved top 4 as they were. -/
def mergeEntry (value old : ℕ) : ℕ := value % 2 ^ 28 + old / 2 ^ 28 * 2 ^ 28

/-- Patch the entry at byte `off` of a FAT sector. -/
def patchEntry (buf : Bytes) (off value : ℕ) : Bytes :=
  Bytes.put32 buf off (mergeEntry value (Bytes.le32 buf off))

/-- The loop of `fat32_set_fat_entry` over the copies of the table. -/
def setFatCopies (fs : Fat32Fs) (cluster value : ℕ) : Program Fat32State Bool :=
  let fatOffset := u32 (cluster * 4)
  iter (fun copy => do
    if copy < fs.numFats then
      let fatSector := fs.fatStartLba + copy * fs.fatSize + fatOffset / 512
      match ← io (blkRead fs.dev fatSector 1) with
      | none => return .inr false
      | some buf =>
        if ← io (blkWrite fs.dev fatSector 1 (patchEntry buf (fatOffset % 512) value)) then
          return .inl (copy + 1)
        else return .inr false
    else return .inr true) loopFuel 0

/-- `fat32_set_fat_entry`: write one entry to every copy of the table, then bring the cached sector
up to date.  `true` stands for the return code 0. -/
def fat32SetFatEntry (fs : Fat32Fs) (cluster value : ℕ) : Program Fat32State Bool := do
  note (.setEntry fs cluster (← get).blk.calls)
  let fatOffset := u32 (cluster * 4)
  if ← setFatCopies fs cluster value then
    modify fun s =>
      if cacheHit fs (fs.fatStartLba + fatOffset / 512) s then
        { s with fatBuf := patchEntry s.fatBuf (fatOffset % 512) value }
      else s
    return true
  else return false

/-! ## Allocation -/

/-- Where a search for free clusters starts. -/
def searchStart (fs : Fat32Fs) (s : Fat32State) : ℕ :=
  let start := s.nextFreeHint fs.id
  if start < 2 ∨ u32 (fs.totalClusters + 1) < start then 2 else start

/-- Set `next_free_hint`. -/
def setHint (fs : Fat32Fs) (hint : ℕ) : Program Fat32State PUnit :=
  modify fun s => { s with nextFreeHint := Function.update s.nextFreeHint fs.id (u32 hint) }

/-- One of the two loops of `fat32_alloc_cluster`, over the clusters from `lo` to `hi`: `some` is
what the function returns, `none` that the loop found no free cluster. -/
def allocClusterIn (fs : Fat32Fs) (lo hi : ℕ) : Program Fat32State (Option ℕ) :=
  iter (fun c => do
    if c ≤ hi then
      if (← fat32NextCluster fs c) = 0 then
        if ← fat32SetFatEntry fs c fat32Eoc then
          setHint fs (c + 1)
          return .inr (some c)
        else return .inr (some 0)
      else return .inl (u32 (c + 1))
    else return .inr none) loopFuel lo

/-- `fat32_alloc_cluster`: a free cluster, marked as the end of a chain, or 0. -/
def fat32AllocCluster (fs : Fat32Fs) : Program Fat32State ℕ := do
  let s ← get
  let start := searchStart fs s
  match ← allocClusterIn fs start (u32 (fs.totalClusters + 1)) with
  | some c => return c
  | none =>
    match ← allocClusterIn fs 2 (start - 1) with
    | some c => return c
    | none => return 0

/-- The variables of the search of `fat32_alloc_run`. -/
structure RunSearch where
  runStart : ℕ
  runLen : ℕ
  bestStart : ℕ
  bestLen : ℕ
  deriving DecidableEq, Repr

/-- The search meets the free cluster `c`. -/
def RunSearch.free (r : RunSearch) (c : ℕ) : RunSearch :=
  let runStart := if r.runLen = 0 then c else r.runStart
  if r.bestLen < r.runLen + 1 then ⟨runStart, r.runLen + 1, runStart, r.runLen + 1⟩
  else ⟨runStart, r.runLen + 1, r.bestStart, r.bestLen⟩

/-- The inner loop of `fat32_alloc_run`: the clusters from `lo` to `hi`, until a run of `want` free
ones is found. -/
def searchRun (fs : Fat32Fs) (want lo hi : ℕ) (r : RunSearch) : Program Fat32State RunSearch :=
  iter (fun (c, r) => do
    if c ≤ hi then
      if (← fat32NextCluster fs c) = 0 then
        let r := r.free c
        if want ≤ r.bestLen then return .inr r else return .inl (u32 (c + 1), r)
      else return .inl (u32 (c + 1), { r with runLen := 0 })
    else return .inr r) loopFuel (lo, r)

/-- One pass of `fat32_alloc_run`; a run never continues from one pass to the next. -/
def searchPass (fs : Fat32Fs) (want lo hi : ℕ) (r : RunSearch) : Program Fat32State RunSearch :=
  if want ≤ r.bestLen ∨ hi < lo then return r
  else searchRun fs want lo hi ⟨0, 0, r.bestStart, r.bestLen⟩

/-- Chain the clusters of a run together, the last one ending the chain. -/
def chainRun (fs : Fat32Fs) (start len : ℕ) : Program Fat32State Bool :=
  iter (fun i => do
    if i < len then
      let next := if i + 1 < len then start + i + 1 else fat32Eoc
      if ← fat32SetFatEntry fs (start + i) next then return .inl (i + 1)
      else return .inr false
    else return .inr true) loopFuel 0

/-- `fat32_alloc_run`: the first cluster of a run of free clusters, now chained together, and its
length; `(0, 0)` on failure. -/
def fat32AllocRun (fs : Fat32Fs) (want : ℕ) : Program Fat32State (ℕ × ℕ) := do
  let want := if want = 0 then 1 else want
  let s ← get
  let start := searchStart fs s
  let r ← searchPass fs want start (u32 (fs.totalClusters + 1)) ⟨0, 0, 0, 0⟩
  let r ← searchPass fs want 2 (start - 1) r
  if r.bestLen = 0 then return (0, 0)
  else
    let len := min r.bestLen want
    if ← chainRun fs r.bestStart len then
      setHint fs (r.bestStart + len)
      return (r.bestStart, len)
    else return (0, 0)

end Fat32

end CoolFrost
