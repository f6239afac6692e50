import CoolFrost.Fs.Fat32.Dir

/-!
# FAT32: reading and writing files

`fat32_read`, `fat32_write` and `fat32_flush_dirent`.  Both loops over the clusters of a file work
on the run of sectors of a cluster that overlaps the window `[offset, offset + size)`; the loop that
finds this run is `sectorWindow` for both, as it is the same text in the source.
-/

namespace CoolFrost

open Program

namespace Fat32

/-- The bytes in a cluster. -/
def clusterSize (fs : Fat32Fs) : ℕ := fs.sectorsPerCluster * 512

/-- The loop that skips the whole clusters before `offset`; it returns the cluster reached and the
file position of its first byte. -/
def skipClusters (fs : Fat32Fs) (offset cluster : ℕ) : Program Fat32State (ℕ × ℕ) :=
  iter (fun (cluster, pos) => do
    if pos + clusterSize fs ≤ offset ∧ cluster < fat32Eoc then
      return .inl (← fat32NextCluster fs cluster, pos + clusterSize fs)
    else return .inr (cluster, pos)) loopFuel (cluster, 0)

/-- The loop over the sectors of a cluster at file position `pos` that finds the first and the last
sector overlapping the window; `found` is `none` before the first one.  `n` sectors are left. -/
def sectorWindow (spc pos offset size : ℕ) : ℕ → Option (ℕ × ℕ) → Option (ℕ × ℕ)
  | 0, found => found
  | n + 1, found =>
    let s := spc - (n + 1)
    let secStart := u32 (pos + s * 512)
    if u32 (secStart + 512) ≤ offset then sectorWindow spc pos offset size n found
    else if offset + size ≤ secStart then found
    else sectorWindow spc pos offset size n (some ((found.getD (s, s)).1, s))

/-- Where copying starts in the sector at `secStart`, and how many of the `left` bytes it takes. -/
def sectorCopy (secStart offset left : ℕ) : ℕ × ℕ :=
  let copyStart := if secStart < offset then u32 (offset - secStart) else 0
  (copyStart, min (u32sub 512 copyStart) left)

/-- The inner loop of `fat32_read`: copy the wanted part of `n` sectors, starting with sector `s`,
from `cluster_buf` to the caller's buffer. -/
def copyOut (firstS pos offset size : ℕ) (clusterBuf : Bytes) :
    ℕ → ℕ → Bytes × ℕ → Bytes × ℕ
  | 0, _, acc => acc
  | n + 1, s, (out, bytesRead) =>
    let c := sectorCopy (u32 (pos + s * 512)) offset (size - bytesRead)
    copyOut firstS pos offset size clusterBuf n (s + 1)
      (Bytes.blit out bytesRead (Bytes.shift clusterBuf ((s - firstS) * 512 + c.1)) c.2,
        bytesRead + c.2)

/-- The inner loop of `fat32_write`: copy the caller's bytes over the wanted part of `n` sectors of
`cluster_buf`, starting with sector `s`. -/
def copyIn (firstS pos offset size : ℕ) (input : Bytes) : ℕ → ℕ → Bytes × ℕ → Bytes × ℕ
  | 0, _, acc => acc
  | n + 1, s, (clusterBuf, bytesWritten) =>
    let c := sectorCopy (u32 (pos + s * 512)) offset (size - bytesWritten)
    copyIn firstS pos offset size input n (s + 1)
      (Bytes.blit clusterBuf ((s - firstS) * 512 + c.1) (Bytes.shift input bytesWritten) c.2,
        bytesWritten + c.2)

/-- The variables of the two loops over the clusters of a file. -/
structure FileLoop where
  cluster : ℕ
  pos : ℕ
  /-- `bytes_read`, `bytes_written`. -/
  done : ℕ
  /-- The caller's buffer, for a read. -/
  out : Bytes

/-- The loop of `fat32_read` over the clusters: the return value and the caller's buffer. -/
def readLoop (fs : Fat32Fs) (offset size : ℕ) (v : FileLoop) : Program Fat32State (ℤ × Bytes) :=
  iter (fun v => do
    if v.done < size ∧ v.cluster < fat32Eoc then
      match sectorWindow fs.sectorsPerCluster v.pos offset size fs.sectorsPerCluster none with
      | none => return .inr (int32 v.done, v.out)
      | some (firstS, lastS) =>
        let run := lastS - firstS + 1
        match ← io (blkRead fs.dev (clusterToLba fs v.cluster + firstS) run) with
        | none => return .inr (if 0 < v.done then int32 v.done else -1, v.out)
        | some buf =>
          let r := copyOut firstS v.pos offset size buf run firstS (v.out, v.done)
          return .inl ⟨← fat32NextCluster fs v.cluster, v.pos + clusterSize fs, r.2, r.1⟩
    else return .inr (int32 v.done, v.out)) loopFuel v

/-- `fat32_read`: the return value and the caller's buffer. -/
def fat32Read (node offset size : ℕ) (out : Bytes) : Program Fat32State (ℤ × Bytes) := do
  let nd := (← get).nodePool node
  let fs := nd.fi.fs
  if !nd.type.isFile then return (-1, out)
  else if nd.size ≤ offset then return (0, out)
  else
    let size := if nd.size < offset + size then u32 (nd.size - offset) else size
    let (cluster, pos) ← skipClusters fs offset nd.inode
    readLoop fs offset size ⟨cluster, pos, 0, out⟩

/-- `fat32_flush_dirent`: bring the directory entry of `node` up to date.  `true` stands for the
return code 0. -/
def fat32FlushDirent (node : ℕ) : Program Fat32State Bool := do
  let nd := (← get).nodePool node
  if !nd.fi.hasDirent then return true
  else
    match ← io (blkRead nd.fi.fs.dev nd.fi.direntLba 1) with
    | none => return false
    | some buf =>
      writeData nd.fi.fs.dev nd.fi.direntLba 1
        (deSetClusterSize buf nd.fi.direntOff nd.inode nd.size)

/-! ## Growing a file -/

/-- The walk to the last cluster of a chain: that cluster, and the number of clusters. -/
def chainTail (fs : Fat32Fs) (first : ℕ) : Program Fat32State (ℕ × ℕ) :=
  iter (fun (tail, allocated) => do
    let n ← fat32NextCluster fs tail
    if n < fat32Eoc then return .inl (n, allocated + 1)
    else return .inr (tail, allocated)) loopFuel (first, 1)

/-- The loop that zeroes `total` sectors from `lba` on, in pieces that `cluster_buf` can hold. -/
def zeroRun (fs : Fat32Fs) (lba total : ℕ) : Program Fat32State Bool :=
  iter (fun zeroed => do
    if zeroed < total then
      let chunk := min (total - zeroed) fat32MaxClusterSectors
      if ← writeData fs.dev (lba + zeroed) chunk Bytes.zeros then return .inl (zeroed + chunk)
      else return .inr false
    else return .inr true) loopFuel 0

/-- The loop that appends runs of clusters until `needed` are allocated; it returns how many are. -/
def growChain (fs : Fat32Fs) (needed tail allocated : ℕ) : Program Fat32State ℕ :=
  iter (fun (tail, allocated) => do
    if allocated < needed then
      let (runStart, got) ← fat32AllocRun fs (needed - allocated)
      if runStart = 0 then return .inr allocated
      else if ← zeroRun fs (clusterToLba fs runStart) (u32 (got * fs.sectorsPerCluster)) then
        if ← fat32SetFatEntry fs tail runStart then
          return .inl (runStart + got - 1, allocated + got)
        else return .inr allocated
      else return .inr allocated
    else return .inr allocated) loopFuel (tail, allocated)

/-- The loop of `fat32_write` over the clusters: the number of bytes written. -/
def writeLoop (fs : Fat32Fs) (offset size : ℕ) (input : Bytes) (v : FileLoop) :
    Program Fat32State ℕ :=
  iter (fun v => do
    if v.done < size ∧ v.cluster < fat32Eoc then
      match sectorWindow fs.sectorsPerCluster v.pos offset size fs.sectorsPerCluster none with
      | none => return .inr v.done
      | some (firstS, lastS) =>
        let run := lastS - firstS + 1
        let lba := clusterToLba fs v.cluster + firstS
        match ← io (blkRead fs.dev lba run) with
        | none => return .inr v.done
        | some buf =>
          let r := copyIn firstS v.pos offset size input run firstS (buf, v.done)
          if ← writeData fs.dev lba run r.1 then
            return .inl ⟨← fat32NextCluster fs v.cluster, v.pos + clusterSize fs, r.2, v.out⟩
          else return .inr r.2
    else return .inr v.done) loopFuel v

/-- Change the fields of a node. -/
def modifyNode (node : ℕ) (g : Fat32Node → Fat32Node) : Program Fat32State PUnit :=
  modify fun s => { s with nodePool := Function.update s.nodePool node (g (s.nodePool node)) }

/-- The first cluster of the file, allocated now if it has none; 0 when that fails. -/
def ensureFirstCluster (fs : Fat32Fs) (node : ℕ) : Program Fat32State ℕ := do
  let nd := (← get).nodePool node
  if nd.inode = 0 then
    let first ← fat32AllocCluster fs
    if first = 0 then return 0
    else
      modifyNode node fun nd => { nd with inode := first }
      return first
  else return nd.inode

/-- What `fat32_write` does once the clusters are there: copy `size` bytes, then update the size in
the node and the directory entry. -/
def writeWindow (fs : Fat32Fs) (node offset size first : ℕ) (input : Bytes) :
    Program Fat32State ℤ := do
  let (cluster, pos) ← skipClusters fs offset first
  let bytesWritten ← writeLoop fs offset size input ⟨cluster, pos, 0, Bytes.zeros⟩
  if bytesWritten = 0 then return -1
  else
    modifyNode node fun nd => { nd with size := max nd.size (offset + bytesWritten) }
    let _ ← fat32FlushDirent node
    return int32 bytesWritten

/-- `fat32_write`. -/
def fat32Write (node offset size : ℕ) (input : Bytes) : Program Fat32State ℤ := do
  let nd := (← get).nodePool node
  let fs := nd.fi.fs
  if !nd.type.isFile then return -1
  else if size = 0 then return 0
  else if nd.size < offset then return -1
  else
    let first ← ensureFirstCluster fs node
    if first = 0 then return -1
    else
      let (tail, allocated) ← chainTail fs first
      let needed := max 1 (u32 ((offset + size + clusterSize fs - 1) / clusterSize fs))
      let allocated ← growChain fs needed tail allocated
      let newEnd := min (offset + size) (allocated * clusterSize fs)
      if newEnd - offset = 0 then return 0
      else writeWindow fs node offset (newEnd - offset) first input

end Fat32

end CoolFrost
