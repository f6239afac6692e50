import CoolFrost.Fs.Fat32.Table

/-!
# FAT32: names and directories

Names in the 8.3 format, the 32-byte directory entries, and the driver functions that walk the
cluster chain of a directory: `fat32_readdir`, `fat32_finddir` and `fat32_insert_dirent`.  The three
walks of the source are one definition here, `dirWalk`, with what is done at each sector as a
parameter.
-/

namespace CoolFrost

open Program

namespace Fat32

/-! ## Names -/

/-- Upper case, for the letters `a` to `z`. -/
def upper (c : UInt8) : UInt8 := if 97 ≤ c ∧ c ≤ 122 then c - 32 else c

/-- Pad a name part with spaces to `n` characters. -/
def padTo (n : ℕ) (l : List UInt8) : List UInt8 := l ++ List.replicate (n - l.length) 32

/-- The character `.`. -/
def dot : UInt8 := 46

/-- `fat32_format_83`: the name in the 11 bytes at `off`, up to the NUL that ends it as a string. -/
def fat32Format83 (raw : Bytes) (off : ℕ) : List UInt8 :=
  let base := (Bytes.slice raw off 8).takeWhile (· ≠ 32)
  let ext := (Bytes.slice raw (off + 8) 3).takeWhile (· ≠ 32)
  (if raw (off + 8) ≠ 32 then base ++ dot :: ext else base).takeWhile (· ≠ 0)

/-- `fat32_parse_83`: the 11 bytes stored for a name, or `none` for a name that does not fit. -/
def fat32Parse83 (name : List UInt8) : Option (List UInt8) :=
  let base := name.takeWhile (· ≠ dot)
  let ext := (name.dropWhile (· ≠ dot)).tail
  if 8 < base.length ∨ base = [] then none
  else if dot ∈ ext ∨ 3 < ext.length then none
  else some (padTo 8 (base.map upper) ++ padTo 3 (ext.map upper))

/-- `fat32_strcasecmp`: 0 when the names are equal up to the case of letters. -/
def fat32Strcasecmp : List UInt8 → List UInt8 → ℤ
  | a :: as, b :: bs =>
    if upper a ≠ upper b then ((upper a).toNat : ℤ) - (upper b).toNat else fat32Strcasecmp as bs
  | a, b => ((a.headD 0).toNat : ℤ) - (b.headD 0).toNat

/-! ## Directory entries -/

/-- `FAT32_ATTR_VOLUME_ID`. -/
def attrVolumeId : UInt8 := 0x08
/-- `FAT32_ATTR_DIRECTORY`. -/
def attrDirectory : UInt8 := 0x10
/-- `FAT32_ATTR_ARCHIVE`. -/
def attrArchive : UInt8 := 0x20
/-- `FAT32_ATTR_LFN`. -/
def attrLfn : UInt8 := 0x0F

/-- The attribute byte of the entry at `off`. -/
def deAttr (b : Bytes) (off : ℕ) : UInt8 := b (off + 11)

/-- The first cluster of the entry at `off`. -/
def deCluster (b : Bytes) (off : ℕ) : ℕ := Bytes.le16 b (off + 20) * 65536 + Bytes.le16 b (off + 26)

/-- The size in the entry at `off`. -/
def deSize (b : Bytes) (off : ℕ) : ℕ := Bytes.le32 b (off + 28)

/-- The entry at `off` is a directory. -/
def deIsDir (b : Bytes) (off : ℕ) : Bool := deAttr b off &&& attrDirectory ≠ 0

/-- Store first cluster and size in the entry at `off`. -/
def deSetClusterSize (b : Bytes) (off cluster size : ℕ) : Bytes :=
  Bytes.put16 (Bytes.put16 (Bytes.put32 b (off + 28) size) (off + 20) (cluster / 65536)) (off + 26)
    cluster

/-- What a walk makes of an entry. -/
inductive EntryKind where
  | endOfDir
  | skip
  | valid
  deriving DecidableEq, Repr

/-- `fat32_entry_valid`. -/
def fat32EntryValid (b : Bytes) (off : ℕ) : EntryKind :=
  if b off = 0 then .endOfDir
  else if b off = 0xE5 then .skip
  else if deAttr b off = attrLfn then .skip
  else if deAttr b off &&& attrVolumeId ≠ 0 then .skip
  else .valid

/-- A new entry: name, archive attribute, first cluster and size, everything else zero. -/
def newEntry (raw : List UInt8) (cluster size : ℕ) : Bytes :=
  let b := Bytes.blit Bytes.zeros 0 (Bytes.ofList raw) 11
  deSetClusterSize (Bytes.put8 b 11 attrArchive) 0 cluster size

/-! ## Walking a directory -/

variable {α γ : Type}

/-- The sectors of one cluster, from sector number `lba` on. -/
def sectorWalk (fs : Fat32Fs) (onFail : α) (visit : ℕ → Bytes → γ → γ ⊕ α) (lba : ℕ) (acc : γ) :
    Program Fat32State (γ ⊕ α) :=
  iter (fun (s, acc) => do
    if s < fs.sectorsPerCluster then
      match ← io (blkRead fs.dev (lba + s) 1) with
      | none => return .inr (.inr onFail)
      | some buf =>
        match visit (lba + s) buf acc with
        | .inl acc => return .inl (s + 1, acc)
        | .inr a => return .inr (.inr a)
    else return .inr (.inl acc)) loopFuel (0, acc)

/-- The walk over all sectors of a directory, until `visit` or a failed read ends it (`inr`).  When
it reaches the end of the chain it returns the last cluster (`inl`). -/
def dirWalk (fs : Fat32Fs) (onFail : α) (visit : ℕ → Bytes → γ → γ ⊕ α) (acc : γ) (cluster : ℕ) :
    Program Fat32State (ℕ ⊕ α) :=
  iter (fun (cluster, last, acc) => do
    if cluster < fat32Eoc then
      match ← sectorWalk fs onFail visit (clusterToLba fs cluster) acc with
      | .inr a => return .inr (.inr a)
      | .inl acc => return .inl (← fat32NextCluster fs cluster, cluster, acc)
    else return .inr (.inl last)) loopFuel (cluster, cluster, acc)

/-- The 16 entries of a sector in turn, from entry `16 - n` on. -/
def scanEntries (step : ℕ → γ → γ ⊕ α) : ℕ → γ → γ ⊕ α
  | 0, acc => .inl acc
  | n + 1, acc =>
    match step ((16 - (n + 1)) * 32) acc with
    | .inl acc => scanEntries step n acc
    | .inr a => .inr a

/-- The sector visit of `fat32_readdir`: count valid entries up to `index`. -/
def readdirVisit (index : ℕ) (buf : Bytes) (validCount : ℕ) : ℕ ⊕ Option Dirent :=
  scanEntries (fun off validCount =>
    match fat32EntryValid buf off with
    | .endOfDir => .inr none
    | .skip => .inl validCount
    | .valid =>
      if validCount = index then
        .inr (some ⟨fat32Format83 buf off, deSize buf off,
          if deIsDir buf off then .directory else .file⟩)
      else .inl (validCount + 1)) 16 validCount

/-- `fat32_readdir`: the entry number `index` of the directory `node`. -/
def fat32Readdir (node index : ℕ) : Program Fat32State (Option Dirent) := do
  let nd := (← get).nodePool node
  match ← dirWalk nd.fi.fs none (fun _ buf c => readdirVisit index buf c) 0 nd.inode with
  | .inr r => return r
  | .inl _ => return none

/-- Where a walk found an entry: its sector, its offset there, and the sector's contents. -/
structure EntryAt where
  lba : ℕ
  off : ℕ
  buf : Bytes

/-- The sector visit of `fat32_finddir`: the first valid entry with the given name. -/
def finddirVisit (name : List UInt8) (lba : ℕ) (buf : Bytes) : Unit ⊕ Option EntryAt :=
  scanEntries (fun off _ =>
    match fat32EntryValid buf off with
    | .endOfDir => .inr none
    | .skip => .inl ()
    | .valid =>
      if fat32Strcasecmp (fat32Format83 buf off) name ≠ 0 then .inl ()
      else .inr (some ⟨lba, off, buf⟩)) 16 ()

/-- `alloc_node`, with the `alloc_finfo` that goes with it. -/
def allocNode (nd : Fat32Node) : Program Fat32State (Option ℕ) := do
  let s ← get
  if maxVfsNodes ≤ s.nodePoolUsed then return none
  else
    modify fun s =>
      { s with
        nodePool := Function.update s.nodePool s.nodePoolUsed nd
        nodePoolUsed := s.nodePoolUsed + 1 }
    return some s.nodePoolUsed

/-- The node `fat32_finddir` makes of the entry it found in the directory `node`. -/
def nodeOfEntry (fs : Fat32Fs) (node : ℕ) (e : EntryAt) : Fat32Node where
  name := (fat32Format83 e.buf e.off).take (maxFilename - 1)
  type := if deIsDir e.buf e.off then .directory else .file
  size := deSize e.buf e.off
  inode := deCluster e.buf e.off
  parent := some node
  fi := ⟨fs, true, e.lba, e.off⟩

/-- `fat32_finddir`: a new node for the entry called `name` in the directory `node`. -/
def fat32Finddir (node : ℕ) (name : List UInt8) : Program Fat32State (Option ℕ) := do
  let nd := (← get).nodePool node
  match ← dirWalk nd.fi.fs none (fun lba buf _ => finddirVisit name lba buf) () nd.inode with
  | .inr (some e) => allocNode (nodeOfEntry nd.fi.fs node e)
  | .inr none => return none
  | .inl _ => return none

/-- The sector visit of `fat32_insert_dirent`: the first slot that is free. -/
def insertVisit (lba : ℕ) (buf : Bytes) : Unit ⊕ Option EntryAt :=
  scanEntries (fun off _ =>
    if buf off ≠ 0x00 ∧ buf off ≠ 0xE5 then .inl () else .inr (some ⟨lba, off, buf⟩)) 16 ()

/-- `fat32_insert_dirent`: write a new entry into the first free slot of the directory `dir`, or
into a new cluster appended to it.  The result is the sector and offset of the entry, `none` on
failure. -/
def fat32InsertDirent (fs : Fat32Fs) (dir : ℕ) (raw : List UInt8) (clusterVal sizeVal : ℕ) :
    Program Fat32State (Option (ℕ × ℕ)) := do
  let nd := (← get).nodePool dir
  match ← dirWalk fs none (fun lba buf _ => insertVisit lba buf) () nd.inode with
  | .inr none => return none
  | .inr (some e) =>
    let buf := Bytes.blit e.buf e.off (newEntry raw clusterVal sizeVal) 32
    if ← writeData fs.dev e.lba 1 buf then return some (e.lba, e.off) else return none
  | .inl lastCluster =>
    let newCluster ← fat32AllocCluster fs
    if newCluster = 0 then return none
    else
      let newLba := clusterToLba fs newCluster
      if ← writeData fs.dev newLba fs.sectorsPerCluster Bytes.zeros then
        if ← fat32SetFatEntry fs lastCluster newCluster then
          let buf := Bytes.blit Bytes.zeros 0 (newEntry raw clusterVal sizeVal) 32
          if ← writeData fs.dev newLba 1 buf then return some (newLba, 0) else return none
        else return none
      else return none

end Fat32

end CoolFrost
