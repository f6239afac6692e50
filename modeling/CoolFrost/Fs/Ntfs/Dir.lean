import CoolFrost.Fs.Ntfs.Records

/-!
# NTFS: directories

A directory is an index of file names: a few entries in the attribute `$INDEX_ROOT` of its record,
the others in `INDX` records that the runs of `$INDEX_ALLOCATION` lead to.  `walk_index_entries`
goes over the entries of one such node, `ntfs_dir_lookup` over all nodes of a directory.
-/

namespace CoolFrost

open Program

namespace Ntfs

variable {σ : Type}

/-- `utf16_to_ascii` for the `n` characters at `pos`. -/
def utf16ToAscii (b : Bytes) : ℕ → ℕ → Program σ (List UInt8)
  | _, 0 => pure []
  | pos, n + 1 => do
    let c ← load bufSize b pos 2
    let rest ← utf16ToAscii b (pos + 2) n
    return (if c < 0x80 then UInt8.ofNat c else 63) :: rest

/-- The name of the file name attribute at `fn`, up to the NUL that ends it as a string. -/
def fnName (b : Bytes) (fn : ℕ) : Program σ (List UInt8) := do
  let nameLength ← load bufSize b (fn + 64) 1
  let ascii ← utf16ToAscii b (fn + 66) (min nameLength (maxFilename - 1))
  return ascii.takeWhile (· ≠ 0)

/-- Upper case, for the letters `a` to `z`. -/
def upper (c : UInt8) : UInt8 := if 97 ≤ c ∧ c ≤ 122 then c - 32 else c

/-- `ntfs_strcasecmp`: 0 when the names are equal up to the case of letters. -/
def ntfsStrcasecmp : List UInt8 → List UInt8 → ℤ
  | a :: as, b :: bs =>
    if upper a ≠ upper b then ((upper a).toNat : ℤ) - (upper b).toNat else ntfsStrcasecmp as bs
  | a, b => ((a.headD 0).toNat : ℤ) - (b.headD 0).toNat

/-- What a directory is searched for: `target_index` or `search_name`. -/
inductive Query where
  | index (i : ℤ)
  | name (n : List UInt8)

/-- What is made of the entry at `ie`: the counter after it, or the number of the file record and
the place of the file name attribute if it is the one searched for. -/
def visitEntry (b : Bytes) (ie counter : ℕ) (q : Query) : Program σ (ℕ ⊕ ℕ × ℕ) := do
  let nameNamespace ← load bufSize b (ie + 16 + 65) 1
  if nameNamespace = 2 then return .inl counter
  else
    let name ← fnName b (ie + 16)
    if name = [] ∨ name.head? = some 36 then return .inl counter
    else
      match q with
      | .name n =>
        if ntfsStrcasecmp name n = 0 then
          let ref ← load bufSize b ie 8
          return .inr (ref % 2 ^ 48, ie + 16)
        else return .inl counter
      | .index i =>
        if (counter : ℤ) = i then
          let ref ← load bufSize b ie 8
          return .inr (ref % 2 ^ 48, ie + 16)
        else return .inl (counter + 1)

/-- `walk_index_entries` for the index node at `base`. -/
def walkIndexEntries (b : Bytes) (base counter : ℕ) (q : Query) : Program σ (ℕ ⊕ ℕ × ℕ) := do
  let first ← load bufSize b base 4
  let totalSize ← load bufSize b (base + 4) 4
  iter (fun (off, counter) => do
    if off + 16 ≤ totalSize then
      let flags ← load bufSize b (base + off + 12) 4
      if flags / 2 % 2 = 1 then return .inr (.inl counter)
      else
        let entryLength ← load bufSize b (base + off + 8) 2
        if entryLength = 0 then return .inr (.inl counter)
        else
          let contentLength ← load bufSize b (base + off + 10) 2
          let r ← if 66 ≤ contentLength then visitEntry b (base + off) counter q
            else pure (.inl counter)
          match r with
          | .inl counter => return .inl (u32 (off + entryLength), counter)
          | .inr found => return .inr (.inr found)
    else return .inr (.inl counter)) loopFuel (first, counter)

/-- An entry that a lookup found: the number of its file record, the `INDX` record it is in, as it
came from the drive (`none` for the index root), and the place of its file name attribute in
`indx_buf` or `mft_buf`. -/
structure Found where
  mft : ℕ
  indx : Option Bytes
  fn : ℕ

/-- The body of the loop of `ntfs_dir_lookup` over the `INDX` records: read the one at `off` and
walk its entries.  The result of `apply_fixup` is not looked at. -/
def lookupIndx (fs : NtfsFs) (record : Bytes) (ia off recSize counter : ℕ) (q : Query) :
    Program NtfsState (ℕ ⊕ Found) := do
  let (rd, stored) ← readNonresident fs record ia off recSize (← get).indxBuf
  modify fun s => { s with indxBuf := stored }
  if rd < int32 recSize then return .inl counter
  else if Bytes.slice stored 0 4 ≠ indxSignature then return .inl counter
  else
    let fixupOff ← load bufSize stored 4 2
    let fixupCnt ← load bufSize stored 6 2
    let (buf, _) ← applyFixup stored fixupOff fixupCnt recSize
    modify fun s => { s with indxBuf := buf }
    match ← walkIndexEntries buf 24 counter q with
    | .inl counter => return .inl counter
    | .inr (mft, fn) => return .inr ⟨mft, some stored, fn⟩

/-- Where the `INDX` records of a directory are: the file record, the place of its attribute
`$INDEX_ALLOCATION`, the size of all records and of one, and the number of the first entry. -/
structure IndxRecords where
  record : Bytes
  ia : ℕ
  total : ℕ
  recSize : ℕ
  counter : ℕ

/-- `rec_size`, the size of an `INDX` record. -/
def indxSize (fs : NtfsFs) : ℕ := if fs.indexRecordSize = 0 then 4096 else fs.indexRecordSize

/-- The first part of `ntfs_dir_lookup`: the entries in the index root, and where the others are. -/
def lookupRoot (fs : NtfsFs) (dirMft : ℕ) (q : Query) :
    Program NtfsState (Option Found ⊕ IndxRecords) := do
  if (← readMftRecord fs dirMft) ≠ 0 then return .inl none
  else
    let record := (← get).mftBuf
    match ← findAttr record attrIndexRoot with
    | none => return .inl none
    | some ir =>
      let valueOffset ← load bufSize record (ir + 20) 2
      match ← walkIndexEntries record (ir + valueOffset + 16) 0 q with
      | .inr (mft, fn) => return .inl (some ⟨mft, none, fn⟩)
      | .inl counter =>
        match ← findAttr record attrIndexAllocation with
        | none => return .inl none
        | some ia =>
          let nonResident ← load bufSize record (ia + 8) 1
          if nonResident = 0 then return .inl none
          else
            let realSize ← load bufSize record (ia + 48) 8
            return .inr ⟨record, ia, u32 realSize, indxSize fs, counter⟩

/-- A round of the loop of `ntfs_dir_lookup` over the `INDX` records. -/
def allocationRound (fs : NtfsFs) (a : IndxRecords) (q : Query) (v : ℕ × ℕ) :
    Program NtfsState ((ℕ × ℕ) ⊕ Option Found) := do
  if u32 (v.1 + a.recSize) ≤ a.total then
    match ← lookupIndx fs a.record a.ia v.1 a.recSize v.2 q with
    | .inl counter => return .inl (u32 (v.1 + a.recSize), counter)
    | .inr found => return .inr (some found)
  else return .inr none

/-- The loop of `ntfs_dir_lookup` over the `INDX` records. -/
def lookupAllocation (fs : NtfsFs) (a : IndxRecords) (q : Query) :
    Program NtfsState (Option Found) :=
  iter (allocationRound fs a q) loopFuel (0, a.counter)

/-- `ntfs_dir_lookup`: the entry searched for in the directory with the record `dirMft`. -/
def ntfsDirLookup (fs : NtfsFs) (dirMft : ℕ) (q : Query) : Program NtfsState (Option Found) := do
  match ← lookupRoot fs dirMft q with
  | .inl r => return r
  | .inr a => lookupAllocation fs a q

/-- The buffer that an entry is in. -/
def Found.buf (e : Found) (s : NtfsState) : Bytes :=
  match e.indx with
  | none => s.mftBuf
  | some _ => s.indxBuf

/-- What `ntfs_readdir` and `ntfs_finddir` take from the file name attribute of an entry: the name,
the size and the type. -/
def readFn (e : Found) : Program NtfsState (List UInt8 × ℕ × VfsType) := do
  let b := e.buf (← get)
  let name ← fnName b e.fn
  let realSize ← load bufSize b (e.fn + 48) 8
  let flags ← load bufSize b (e.fn + 56) 4
  return (name, u32 realSize, if flags / 0x10000000 % 2 = 1 then .directory else .file)

/-- The entry number `index` of the directory `nd`. -/
def readdirAt (nd : NtfsNode) (index : ℕ) : Program NtfsState (Option Dirent) := do
  match ← ntfsDirLookup nd.fs nd.inode (.index (int32 index)) with
  | none => return none
  | some e =>
    let (name, size, type) ← readFn e
    return some ⟨name, size, type⟩

/-- `ntfs_readdir`. -/
def ntfsReaddir (node index : ℕ) : Program NtfsState (Option Dirent) := do
  readdirAt ((← get).nodePool node) index

/-- `MAX_NTFS_NODES`. -/
def maxNtfsNodes : ℕ := 128

/-- `alloc_node`, with the fields its callers fill in. -/
def allocNode (nd : NtfsNode) : Program NtfsState (Option ℕ) := do
  let s ← get
  if maxNtfsNodes ≤ s.nodePoolUsed then return none
  else
    modify fun s =>
      { s with
        nodePool := Function.update s.nodePool s.nodePoolUsed nd
        nodePoolUsed := s.nodePoolUsed + 1 }
    return some s.nodePoolUsed

/-- `ntfs_finddir`: a new node for the entry called `name` in the directory `node`. -/
def ntfsFinddir (node : ℕ) (name : List UInt8) : Program NtfsState (Option ℕ) := do
  let nd := (← get).nodePool node
  match ← ntfsDirLookup nd.fs nd.inode (.name name) with
  | none => return none
  | some e =>
    let (found, size, type) ← readFn e
    allocNode ⟨found, type, size, u32 e.mft, some node, nd.fs⟩

/-!
## Reading files and mounting
-/

/-- What is read of the file `nd`: the return value and the caller's buffer. -/
def readAt (nd : NtfsNode) (offset size : ℕ) (out : Bytes) : Program NtfsState (ℤ × Bytes) := do
  if (← readMftRecord nd.fs nd.inode) ≠ 0 then return (-1, out)
  else
    let record := (← get).mftBuf
    match ← findAttr record attrData with
    | none => return (-1, out)
    | some attr =>
      if (← load bufSize record (attr + 8) 1) = 0 then
        let dataLen ← load bufSize record (attr + 16) 4
        let valueOffset ← load bufSize record (attr + 20) 2
        if dataLen ≤ offset then return (0, out)
        else
          let size := if dataLen < offset + size then u32 (dataLen - offset) else size
          inside bufSize (attr + valueOffset + offset) size
          return (int32 size,
            Bytes.blit out 0 (Bytes.shift record (attr + valueOffset + offset)) size)
      else
        let fileSize := u32 (← load bufSize record (attr + 48) 8)
        if fileSize ≤ offset then return (0, out)
        else
          let size := if fileSize < offset + size then u32 (fileSize - offset) else size
          readNonresident nd.fs record attr (u32 offset) size out

/-- `ntfs_read`. -/
def ntfsRead (node offset size : ℕ) (out : Bytes) : Program NtfsState (ℤ × Bytes) := do
  readAt ((← get).nodePool node) offset size out

/-! ## Mounting -/

/-- `MAX_NTFS_FS`. -/
def maxNtfsFs : ℕ := 4

/-- The size that a signed field of the boot sector gives a record: a number of clusters, or the
logarithm of a number of bytes if the field is negative. -/
def recordSize (field clusterSize : ℕ) : ℕ :=
  if 128 ≤ field then u32 (2 ^ ((256 - field) % 32)) else u32 (field * clusterSize)

/-- The fields of a volume, from its boot sector. -/
def fsOfBoot (dev : Drive) (partLba : ℕ) (boot : Bytes) : NtfsFs :=
  let spc := (boot 13).toNat
  let mftRecordSize := recordSize (boot 64).toNat (spc * 512)
  let indexRecordSize := recordSize (boot 68).toNat (spc * 512)
  { dev := dev, partLba := partLba, sectorsPerCluster := spc, clusterSize := spc * 512
    mftLba := partLba + Bytes.leNat boot 48 8 * spc
    mftRecordSize := mftRecordSize
    mftSectors := if mftRecordSize / 512 = 0 then 2 else mftRecordSize / 512
    indexRecordSize := if indexRecordSize = 0 then 4096 else indexRecordSize }

/-- The root node of a volume; `NTFS_MFT_ROOT_DIR` is 5. -/
def rootNode (fs : NtfsFs) : NtfsNode := ⟨[47], .mountRoot, 0, 5, none, fs⟩

/-- The first four characters of the OEM name. -/
def oemId : List UInt8 := [78, 84, 70, 83]

/-- `ntfs_mount`: the root node of the volume, or the error code. -/
def ntfsMount (dev : Drive) (partLba : ℕ) : Program NtfsState (Except ℤ ℕ) := do
  match ← io (blkRead dev partLba 1) with
  | none => return .error (-1)
  | some boot =>
    if Bytes.slice boot 3 4 ≠ oemId then return .error (-2)
    else if Bytes.le16 boot 11 ≠ 512 then return .error (-3)
    else
      if maxNtfsFs ≤ (← get).fsPoolUsed then return .error (-4)
      else
        let fs := fsOfBoot dev partLba boot
        modify fun s => { s with fsPoolUsed := s.fsPoolUsed + 1 }
        if (← readMftRecord fs 0) ≠ 0 then return .error (-5)
        else
          match ← allocNode (rootNode fs) with
          | none => return .error (-6)
          | some root => return .ok root

end Ntfs

end CoolFrost
