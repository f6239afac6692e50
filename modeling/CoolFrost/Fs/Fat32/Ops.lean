import CoolFrost.Fs.Fat32.File

/-!
# FAT32: creating, moving, removing and defragmenting files, and mounting
-/

namespace CoolFrost

open Program

namespace Fat32

/-- `fat32_create`: an empty file called `name` in the directory `dir`. -/
def fat32Create (dir : ℕ) (name : List UInt8) : Program Fat32State (Option ℕ) := do
  let nd := (← get).nodePool dir
  let fs := nd.fi.fs
  if !nd.type.isDirectory then return none
  else
    match fat32Parse83 name with
    | none => return none
    | some raw =>
      match ← fat32InsertDirent fs dir raw 0 0 with
      | none => return none
      | some (lba, off) =>
        allocNode
          { name := fat32Format83 (Bytes.ofList raw) 0, type := .file, size := 0, inode := 0
            parent := some dir, fi := ⟨fs, true, lba, off⟩ }

/-- Read the sector of a directory entry, change it and write it back. -/
def updateSector (fs : Fat32Fs) (lba : ℕ) (g : Bytes → Bytes) : Program Fat32State Bool := do
  match ← io (blkRead fs.dev lba 1) with
  | none => return false
  | some buf => writeData fs.dev lba 1 (g buf)

/-- `fat32_rename`. -/
def fat32Rename (oldDir : ℕ) (oldName : List UInt8) (newDir : ℕ) (newName : List UInt8) :
    Program Fat32State ℤ := do
  let s ← get
  let fs := (s.nodePool oldDir).fi.fs
  if !(s.nodePool oldDir).type.isDirectory || !(s.nodePool newDir).type.isDirectory then return -1
  else
    match fat32Parse83 newName with
    | none => return -1
    | some newRaw =>
      match ← fat32Finddir oldDir oldName with
      | none => return -2
      | some target =>
        let nd := (← get).nodePool target
        if !nd.type.isFile then return -3
        else if oldDir = newDir then
          if ← updateSector fs nd.fi.direntLba
              (fun buf => Bytes.blit buf nd.fi.direntOff (Bytes.ofList newRaw) 11) then return 0
          else return -4
        else
          match ← fat32InsertDirent fs newDir newRaw nd.inode nd.size with
          | none => return -5
          | some _ =>
            if ← updateSector fs nd.fi.direntLba
              (fun buf => Bytes.put8 buf nd.fi.direntOff 0xE5) then
              return 0
            else return -6

/-- The loop of `fat32_unlink` that frees a cluster chain. -/
def freeChain (fs : Fat32Fs) (cluster : ℕ) : Program Fat32State PUnit :=
  iter (fun cluster => do
    if cluster ≠ 0 ∧ cluster < fat32Eoc then
      let next ← fat32NextCluster fs cluster
      let _ ← fat32SetFatEntry fs cluster 0
      return .inl next
    else return .inr PUnit.unit) loopFuel cluster

/-- `fat32_unlink`. -/
def fat32Unlink (dir : ℕ) (name : List UInt8) : Program Fat32State ℤ := do
  let nd := (← get).nodePool dir
  let fs := nd.fi.fs
  if !nd.type.isDirectory then return -1
  else
    match ← fat32Finddir dir name with
    | none => return -2
    | some target =>
      let nd := (← get).nodePool target
      if !nd.type.isFile then return -3
      else
        freeChain fs nd.inode
        if ← updateSector fs nd.fi.direntLba (fun buf => Bytes.put8 buf nd.fi.direntOff 0xE5) then
          return 0
        else return -4

/-! ## Defragmentation -/

/-- The walk of `fat32_defrag_one` over a chain: its length, and whether it is one contiguous
run. -/
def measureChain (fs : Fat32Fs) (first : ℕ) : Program Fat32State (ℕ × Bool) :=
  iter (fun (prev, chainLen, alreadyOk) => do
    let c ← fat32NextCluster fs prev
    if c < fat32Eoc then return .inl (c, chainLen + 1, alreadyOk && (c == u32 (prev + 1)))
    else return .inr (chainLen, alreadyOk)) loopFuel (first, 1, true)

/-- Free the clusters of a run. -/
def freeRun (fs : Fat32Fs) (start len : ℕ) : Program Fat32State PUnit :=
  iter (fun i => do
    if i < len then
      let _ ← fat32SetFatEntry fs (start + i) 0
      return .inl (i + 1)
    else return .inr PUnit.unit) loopFuel 0

/-- Copy the clusters of the chain that starts at `old` to the run that starts at `new`. -/
def copyChain (fs : Fat32Fs) (old new len : ℕ) : Program Fat32State Bool :=
  iter (fun (i, oldC) => do
    if i < len then
      match ← io (blkRead fs.dev (clusterToLba fs oldC) fs.sectorsPerCluster) with
      | none => return .inr false
      | some buf =>
        if ← writeData fs.dev (clusterToLba fs (new + i)) fs.sectorsPerCluster buf then
          return .inl (i + 1, ← fat32NextCluster fs oldC)
        else return .inr false
    else return .inr true) loopFuel (0, old)

/-- Free the first `len` clusters of the chain that starts at `old`. -/
def freeOldChain (fs : Fat32Fs) (old len : ℕ) : Program Fat32State PUnit :=
  iter (fun (i, oldC) => do
    if i < len then
      let next ← fat32NextCluster fs oldC
      let _ ← fat32SetFatEntry fs oldC 0
      return .inl (i + 1, next)
    else return .inr PUnit.unit) loopFuel (0, old)

/-- `fat32_defrag_one`: 1 when the file was moved, 0 when there was nothing to do, -1 on failure. -/
def fat32DefragOne (fs : Fat32Fs) (node : ℕ) : Program Fat32State ℤ := do
  let nd := (← get).nodePool node
  if !nd.fi.hasDirent then return -1
  else if nd.inode = 0 then return 0
  else
    let oldStart := nd.inode
    let (chainLen, alreadyOk) ← measureChain fs oldStart
    if alreadyOk then return 0
    else
      let (newStart, got) ← fat32AllocRun fs chainLen
      if newStart = 0 ∨ got ≠ chainLen then
        if newStart ≠ 0 then freeRun fs newStart got
        return -1
      else if ← copyChain fs oldStart newStart chainLen then
        modifyNode node fun nd => { nd with inode := newStart }
        if ← fat32FlushDirent node then
          freeOldChain fs oldStart chainLen
          return 1
        else
          modifyNode node fun nd => { nd with inode := oldStart }
          freeRun fs newStart chainLen
          return -1
      else
        freeRun fs newStart chainLen
        return -1

/-- `fat32_defrag`: every file directly in the directory `dir`. -/
def fat32Defrag (dir : ℕ) : Program Fat32State (ℤ × DefragCount) := do
  let fs := ((← get).nodePool dir).fi.fs
  iter (fun (idx, count) => do
    match ← fat32Readdir dir idx with
    | none => return .inr (0, count)
    | some de =>
      if de.type.isDirectory then return .inl (idx + 1, count)
      else
        match ← fat32Finddir dir (de.name.take (maxFilename - 1)) with
        | none => return .inl (idx + 1, count)
        | some node =>
          let rc ← fat32DefragOne fs node
          return .inl (idx + 1, count.add rc)) loopFuel (0, ⟨0, 0, 0⟩)

/-! ## Mounting -/

/-- `MAX_FAT32_FS`. -/
def maxFat32Fs : ℕ := 4

/-- The layout of a volume, from its boot sector. -/
def layoutOfBoot (id : ℕ) (dev : Drive) (partLba : ℕ) (boot : Bytes) : Fat32Fs :=
  let spc := (boot 13).toNat
  let reserved := Bytes.le16 boot 14
  let numFats := (boot 16).toNat
  let fatSize := Bytes.le32 boot 36
  let totalSectors := Bytes.le32 boot 32
  let fatStart := partLba + reserved
  let dataStart := fatStart + u32 (numFats * fatSize)
  let dataSectors := (totalSectors + (2 ^ 64 - (dataStart - partLba))) % 2 ^ 64
  { id := id, dev := dev, partLba := partLba, sectorsPerCluster := spc, reservedSectors := reserved
    numFats := numFats, fatSize := fatSize, rootCluster := Bytes.le32 boot 44
    fatStartLba := fatStart, dataStartLba := dataStart, totalSectors := totalSectors
    totalClusters := u32 (dataSectors / spc) }

/-- The root node of a volume. -/
def rootNode (fs : Fat32Fs) : Fat32Node where
  name := [47]
  type := .mountRoot
  size := 0
  inode := fs.rootCluster
  parent := none
  fi := ⟨fs, false, 0, 0⟩

/-- `alloc_fs`, for a volume with the given fields. -/
def allocFs (fs : Fat32Fs) : Program Fat32State PUnit :=
  modify fun s =>
    { s with
      fsPoolUsed := s.fsPoolUsed + 1
      nextFreeHint := Function.update s.nextFreeHint fs.id 2 }

/-- `fat32_mount`: the root node of the volume, or the error code. -/
def fat32Mount (dev : Drive) (partLba : ℕ) : Program Fat32State (Except ℤ ℕ) := do
  match ← io (blkRead dev partLba 1) with
  | none => return .error (-1)
  | some boot =>
    if Bytes.le16 boot 11 ≠ 512 then return .error (-2)
    else if Bytes.le16 boot 17 ≠ 0 then return .error (-3)
    else if Bytes.le16 boot 22 ≠ 0 then return .error (-3)
    else if (boot 13).toNat = 0 then return .error (-3)
    else if fat32MaxClusterSectors < (boot 13).toNat then return .error (-3)
    else
      let s ← get
      if maxFat32Fs ≤ s.fsPoolUsed then return .error (-4)
      else
        let fs := layoutOfBoot s.fsPoolUsed dev partLba boot
        allocFs fs
        match ← allocNode (rootNode fs) with
        | none => return .error (-5)
        | some root => return .ok root

end Fat32

end CoolFrost
