import CoolFrost.Lib.Frame
import CoolFrost.Fs.Fat32.Ops

/-!
# FAT32: the steps of the driver

Every function of the driver is put together from a few steps: transfers, looking an entry of the
table up, setting one, and changes to the pools.  A frame condition of the driver is checked for
these steps only.
-/

namespace CoolFrost

open Program

namespace Fat32

/-- The steps that change nothing but the cached sector and the record of calls. -/
inductive ReadStep : (α : Type) → Program Fat32State α → Prop
  | read (dr : Drive) (lba n : ℕ) : ReadStep _ (io (blkRead dr lba n))
  | lookup (fs : Fat32Fs) (c : ℕ) : ReadStep _ (fat32NextCluster fs c)

/-- The steps of the driver, when the parents of new nodes are in `P`. -/
inductive Step (P : Option ℕ → Prop) : (α : Type) → Program Fat32State α → Prop
  | reading {α : Type} {m : Program Fat32State α} (h : ReadStep α m) : Step P α m
  | setEntry (fs : Fat32Fs) (c v : ℕ) : Step P _ (fat32SetFatEntry fs c v)
  | write (dev : Drive) (lba n : ℕ) (buf : Bytes) : Step P _ (writeData dev lba n buf)
  | hint (fs : Fat32Fs) (h : ℕ) : Step P _ (setHint fs h)
  | allocNode (nd : Fat32Node) (h : P nd.parent) : Step P _ (allocNode nd)
  | allocFs (fs : Fat32Fs) : Step P _ (allocFs fs)
  | setInode (i v : ℕ) : Step P _ (modifyNode i fun nd => { nd with inode := v })
  | growSize (i e : ℕ) : Step P _ (modifyNode i fun nd => { nd with size := max nd.size e })

variable {P : Option ℕ → Prop}

/-- Looking an entry of the table up is one step, although it may fill the cache. -/
lemma lookup_built (fs : Fat32Fs) (c : ℕ) : Built ReadStep (fat32NextCluster fs c) :=
  .step (.lookup fs c)

lemma read_built (dr : Drive) (lba n : ℕ) : Built ReadStep (io (blkRead dr lba n)) :=
  .step (.read dr lba n)

/-- A program that only reads is a program of the driver. -/
lemma built_of_reading {α : Type} {m : Program Fat32State α} (h : Built ReadStep m) :
    Built (Step P) m :=
  h.mono fun _ _ => .reading

/-! ## Functions that only read -/

section Reading

variable {α γ : Type}

/-- The walk over the sectors of a cluster only reads, whatever is done with the entries. -/
lemma sectorWalk_built (fs : Fat32Fs) (onFail : α) (visit : ℕ → Bytes → γ → γ ⊕ α) (lba : ℕ)
    (acc : γ) : Built ReadStep (sectorWalk fs onFail visit lba acc) := by
  refine .iter (fun p => .ite (.bind (read_built _ _ _) fun r => ?_) (.ret _)) _ _
  cases r with
  | none => exact .ret _
  | some buf =>
    dsimp only
    split <;> exact .ret _

/-- The walk over a directory looks the table up after each cluster. -/
lemma dirWalk_built (fs : Fat32Fs) (onFail : α) (visit : ℕ → Bytes → γ → γ ⊕ α) (acc : γ)
    (cluster : ℕ) : Built ReadStep (dirWalk fs onFail visit acc cluster) := by
  refine .iter (fun p => .ite (.bind (sectorWalk_built _ _ _ _ _) fun r => ?_) (.ret _)) _ _
  cases r with
  | inl acc => exact .bind (lookup_built _ _) fun _ => .ret _
  | inr a => exact .ret _

end Reading

lemma fat32Readdir_built (node index : ℕ) : Built ReadStep (fat32Readdir node index) := by
  refine .bind .read fun s => .bind (dirWalk_built _ _ _ _ _) fun r => ?_
  cases r <;> exact .ret _

/-- The clusters in front of an offset are passed over by lookups alone. -/
lemma skipClusters_built (fs : Fat32Fs) (offset cluster : ℕ) :
    Built ReadStep (skipClusters fs offset cluster) :=
  .iter (fun _ => .ite (.bind (lookup_built _ _) fun _ => .ret _) (.ret _)) _ _

/-- The loop of `fat32_read` changes nothing, whatever the buffer gets. -/
lemma readLoop_built (fs : Fat32Fs) (offset size : ℕ) (v : FileLoop) :
    Built ReadStep (readLoop fs offset size v) := by
  refine .iter (fun v => .ite ?_ (.ret _)) _ _
  split
  · exact .ret _
  · refine .bind (read_built _ _ _) fun r => ?_
    cases r with
    | none => exact .ret _
    | some buf => exact .bind (lookup_built _ _) fun _ => .ret _

lemma fat32Read_built (node offset size : ℕ) (out : Bytes) :
    Built ReadStep (fat32Read node offset size out) :=
  .bind .read fun _ => .ite (.ret _) (.ite (.ret _)
    (.bind (skipClusters_built _ _ _) fun _ => readLoop_built _ _ _ _))

lemma chainTail_built (fs : Fat32Fs) (first : ℕ) : Built ReadStep (chainTail fs first) :=
  .iter (fun _ => .bind (lookup_built _ _) fun _ => .ite (.ret _) (.ret _)) _ _

/-- `fat32_defrag_one` measures a chain before it changes anything. -/
lemma measureChain_built (fs : Fat32Fs) (first : ℕ) : Built ReadStep (measureChain fs first) :=
  .iter (fun _ => .bind (lookup_built _ _) fun _ => .ite (.ret _) (.ret _)) _ _

/-- The search for a run writes nothing: the run is chained afterwards. -/
lemma searchPass_built (fs : Fat32Fs) (want lo hi : ℕ) (r : RunSearch) :
    Built ReadStep (searchPass fs want lo hi r) :=
  .ite (.ret _) (.iter (fun _ => .ite (.bind (lookup_built _ _) fun _ =>
    .ite (.ite (.ret _) (.ret _)) (.ret _)) (.ret _)) _ _)

/-! ## Functions that write -/

/-- Setting an entry in all copies of the table is one step. -/
lemma setEntry_built (fs : Fat32Fs) (c v : ℕ) : Built (Step P) (fat32SetFatEntry fs c v) :=
  .step (.setEntry fs c v)

lemma write_built (dev : Drive) (lba n : ℕ) (buf : Bytes) :
    Built (Step P) (writeData dev lba n buf) :=
  .step (.write dev lba n buf)

lemma lookup_step (fs : Fat32Fs) (c : ℕ) : Built (Step P) (fat32NextCluster fs c) :=
  built_of_reading (lookup_built fs c)

lemma read_step (dr : Drive) (lba n : ℕ) : Built (Step P) (io (blkRead dr lba n)) :=
  built_of_reading (read_built dr lba n)

/-- A free cluster is marked as the end of a chain as soon as it is found. -/
lemma allocClusterIn_built (fs : Fat32Fs) (lo hi : ℕ) : Built (Step P) (allocClusterIn fs lo hi) :=
  .iter (fun _ => .ite (.bind (lookup_step _ _) fun _ =>
    .ite (.bind (setEntry_built _ _ _) fun _ =>
      .ite (.bind (.step (.hint _ _)) fun _ => .ret _) (.ret _)) (.ret _)) (.ret _)) _ _

lemma fat32AllocCluster_built (fs : Fat32Fs) : Built (Step P) (fat32AllocCluster fs) := by
  refine .bind .read fun s => .bind (allocClusterIn_built _ _ _) fun r => ?_
  cases r with
  | some c => exact .ret _
  | none =>
    refine .bind (allocClusterIn_built _ _ _) fun r => ?_
    cases r <;> exact .ret _

lemma chainRun_built (fs : Fat32Fs) (start len : ℕ) : Built (Step P) (chainRun fs start len) :=
  .iter (fun _ => .ite (.bind (setEntry_built _ _ _) fun _ => .ite (.ret _) (.ret _)) (.ret _)) _ _

/-- `fat32_alloc_run` searches twice, chains the run and moves the hint behind it. -/
lemma fat32AllocRun_built (fs : Fat32Fs) (want : ℕ) : Built (Step P) (fat32AllocRun fs want) :=
  .bind .read fun _ => .bind (built_of_reading (searchPass_built _ _ _ _ _)) fun _ =>
    .bind (built_of_reading (searchPass_built _ _ _ _ _)) fun _ =>
      .ite (.ret _) (.bind (chainRun_built _ _ _) fun _ =>
        .ite (.bind (.step (.hint _ _)) fun _ => .ret _) (.ret _))

/-- The only change that `fat32_finddir` makes is the new node, whose parent is the directory. -/
lemma fat32Finddir_built (node : ℕ) (name : List UInt8) (hP : P (some node)) :
    Built (Step P) (fat32Finddir node name) := by
  refine .bind .read fun s => .bind (built_of_reading (dirWalk_built _ _ _ _ _)) fun r => ?_
  rcases r with _ | _ | e
  · exact .ret _
  · exact .ret _
  · exact .step (.allocNode _ hP)

/-- An entry is put into a free slot, or into the first one of a new cluster. -/
lemma fat32InsertDirent_built (fs : Fat32Fs) (dir : ℕ) (raw : List UInt8) (c v : ℕ) :
    Built (Step P) (fat32InsertDirent fs dir raw c v) := by
  refine .bind .read fun s => .bind (built_of_reading (dirWalk_built _ _ _ _ _)) fun r => ?_
  rcases r with last | _ | e
  · exact .bind (fat32AllocCluster_built _) fun _ => .ite (.ret _)
      (.bind (write_built _ _ _ _) fun _ => .ite (.bind (setEntry_built _ _ _) fun _ =>
        .ite (.bind (write_built _ _ _ _) fun _ => .ite (.ret _) (.ret _)) (.ret _)) (.ret _))
  · exact .ret _
  · exact .bind (write_built _ _ _ _) fun _ => .ite (.ret _) (.ret _)

/-- The entry of a file is read, changed and written back as a sector. -/
lemma fat32FlushDirent_built (node : ℕ) : Built (Step P) (fat32FlushDirent node) := by
  refine .bind .read fun s => .ite (.ret _) (.bind (read_step _ _ _) fun r => ?_)
  cases r with
  | none => exact .ret _
  | some buf => exact write_built _ _ _ _

lemma zeroRun_built (fs : Fat32Fs) (lba total : ℕ) : Built (Step P) (zeroRun fs lba total) :=
  .iter (fun _ => .ite (.bind (write_built _ _ _ _) fun _ => .ite (.ret _) (.ret _)) (.ret _)) _ _

/-- The chain grows by runs, each of them zeroed before it is linked. -/
lemma growChain_built (fs : Fat32Fs) (needed tail allocated : ℕ) :
    Built (Step P) (growChain fs needed tail allocated) :=
  .iter (fun _ => .ite (.bind (fat32AllocRun_built _ _) fun _ => .ite (.ret _)
    (.bind (zeroRun_built _ _ _) fun _ => .ite (.bind (setEntry_built _ _ _) fun _ =>
      .ite (.ret _) (.ret _)) (.ret _))) (.ret _)) _ _

/-- The loop of `fat32_write` reads the sectors before it writes them. -/
lemma writeLoop_built (fs : Fat32Fs) (offset size : ℕ) (input : Bytes) (v : FileLoop) :
    Built (Step P) (writeLoop fs offset size input v) := by
  refine .iter (fun v => .ite ?_ (.ret _)) _ _
  split
  · exact .ret _
  · refine .bind (read_step _ _ _) fun r => ?_
    cases r with
    | none => exact .ret _
    | some buf =>
      exact .bind (write_built _ _ _ _) fun _ =>
        .ite (.bind (lookup_step _ _) fun _ => .ret _) (.ret _)

lemma ensureFirstCluster_built (fs : Fat32Fs) (node : ℕ) :
    Built (Step P) (ensureFirstCluster fs node) :=
  .bind .read fun _ => .ite (.bind (fat32AllocCluster_built _) fun first => .ite (.ret _)
    (.bind (.step (.setInode node first)) fun _ => .ret _)) (.ret _)

lemma writeWindow_built (fs : Fat32Fs) (node offset size first : ℕ) (input : Bytes) :
    Built (Step P) (writeWindow fs node offset size first input) :=
  .bind (built_of_reading (skipClusters_built _ _ _)) fun _ =>
    .bind (writeLoop_built _ _ _ _ _) fun n => .ite (.ret _)
      (.bind (.step (.growSize node (offset + n))) fun _ =>
        .bind (fat32FlushDirent_built _) fun _ => .ret _)

/-- `fat32_write` changes the first cluster and the size of its node, and no other one. -/
lemma fat32Write_built (node offset size : ℕ) (input : Bytes) :
    Built (Step P) (fat32Write node offset size input) :=
  .bind .read fun _ => .ite (.ret _) (.ite (.ret _) (.ite (.ret _)
    (.bind (ensureFirstCluster_built _ _) fun _ => .ite (.ret _)
      (.bind (built_of_reading (chainTail_built _ _)) fun _ =>
        .bind (growChain_built _ _ _ _) fun _ => .ite (.ret _) (writeWindow_built _ _ _ _ _ _)))))

/-- The new node of `fat32_create` has the directory as its parent. -/
lemma fat32Create_built (dir : ℕ) (name : List UInt8) (hP : P (some dir)) :
    Built (Step P) (fat32Create dir name) := by
  refine .bind .read fun s => .ite (.ret _) ?_
  split
  · exact .ret _
  · refine .bind (fat32InsertDirent_built _ _ _ _ _) fun r => ?_
    cases r with
    | none => exact .ret _
    | some p => exact .step (.allocNode _ hP)

lemma updateSector_built (fs : Fat32Fs) (lba : ℕ) (g : Bytes → Bytes) :
    Built (Step P) (updateSector fs lba g) := by
  refine .bind (read_step _ _ _) fun r => ?_
  cases r with
  | none => exact .ret _
  | some buf => exact write_built _ _ _ _

/-- `fat32_rename` looks the old name up, which takes a node from the pool. -/
lemma fat32Rename_built (oldDir : ℕ) (oldName : List UInt8) (newDir : ℕ) (newName : List UInt8)
    (hP : P (some oldDir)) :
    Built (Step P) (fat32Rename oldDir oldName newDir newName) := by
  refine .bind .read fun s => .ite (.ret _) ?_
  split
  · exact .ret _
  · refine .bind (fat32Finddir_built _ _ hP) fun r => ?_
    cases r with
    | none => exact .ret _
    | some target =>
      refine .bind .read fun s => .ite (.ret _) (.ite
        (.bind (updateSector_built _ _ _) fun _ => .ite (.ret _) (.ret _))
        (.bind (fat32InsertDirent_built _ _ _ _ _) fun r => ?_))
      cases r with
      | none => exact .ret _
      | some p => exact .bind (updateSector_built _ _ _) fun _ => .ite (.ret _) (.ret _)

lemma freeChain_built (fs : Fat32Fs) (cluster : ℕ) : Built (Step P) (freeChain fs cluster) :=
  .iter (fun _ => .ite (.bind (lookup_step _ _) fun _ =>
    .bind (setEntry_built _ _ _) fun _ => .ret _) (.ret _)) _ _

/-- `fat32_unlink` frees the chain before it marks the entry deleted. -/
lemma fat32Unlink_built (dir : ℕ) (name : List UInt8) (hP : P (some dir)) :
    Built (Step P) (fat32Unlink dir name) := by
  refine .bind .read fun s => .ite (.ret _) (.bind (fat32Finddir_built _ _ hP) fun r => ?_)
  cases r with
  | none => exact .ret _
  | some target =>
    exact .bind .read fun _ => .ite (.ret _) (.bind (freeChain_built _ _) fun _ =>
      .bind (updateSector_built _ _ _) fun _ => .ite (.ret _) (.ret _))

lemma freeRun_built (fs : Fat32Fs) (start len : ℕ) : Built (Step P) (freeRun fs start len) :=
  .iter (fun _ => .ite (.bind (setEntry_built _ _ _) fun _ => .ret _) (.ret _)) _ _

lemma copyChain_built (fs : Fat32Fs) (old new len : ℕ) :
    Built (Step P) (copyChain fs old new len) := by
  refine .iter (fun p => .ite (.bind (read_step _ _ _) fun r => ?_) (.ret _)) _ _
  cases r with
  | none => exact .ret _
  | some buf =>
    exact .bind (write_built _ _ _ _) fun _ =>
      .ite (.bind (lookup_step _ _) fun _ => .ret _) (.ret _)

lemma freeOldChain_built (fs : Fat32Fs) (old len : ℕ) : Built (Step P) (freeOldChain fs old len) :=
  .iter (fun _ => .ite (.bind (lookup_step _ _) fun _ =>
    .bind (setEntry_built _ _ _) fun _ => .ret _) (.ret _)) _ _

/-- The node gets the new chain, and the old one again when the entry cannot be written. -/
lemma fat32DefragOne_built (fs : Fat32Fs) (node : ℕ) : Built (Step P) (fat32DefragOne fs node) := by
  refine .bind .read fun s => .ite (.ret _) (.ite (.ret _)
    (.bind (built_of_reading (measureChain_built _ _)) fun _ => .ite (.ret _)
      (.bind (fat32AllocRun_built _ _) fun p => .ite ?_ ?_)))
  · exact .ite (.bind (freeRun_built _ _ _) fun _ => .ret _) (.ret _)
  · refine .bind (copyChain_built _ _ _ _) fun _ => .ite ?_
      (.bind (freeRun_built _ _ _) fun _ => .ret _)
    exact .bind (.step (.setInode node p.1)) fun _ => .bind (fat32FlushDirent_built _) fun _ =>
      .ite (.bind (freeOldChain_built _ _ _) fun _ => .ret _)
        (.bind (.step (.setInode node _)) fun _ => .bind (freeRun_built _ _ _) fun _ => .ret _)

/-- `fat32_defrag` takes a node from the pool for every file that it looks up. -/
lemma fat32Defrag_built (dir : ℕ) (hP : P (some dir)) : Built (Step P) (fat32Defrag dir) := by
  refine .bind .read fun s => .iter (fun p =>
    .bind (built_of_reading (fat32Readdir_built _ _)) fun r => ?_) _ _
  cases r with
  | none => exact .ret _
  | some de =>
    refine .ite (.ret _) (.bind (fat32Finddir_built _ _ hP) fun r => ?_)
    cases r with
    | none => exact .ret _
    | some node => exact .bind (fat32DefragOne_built _ _) fun _ => .ret _

/-- The root that `fat32_mount` takes from the pool has no parent. -/
lemma fat32Mount_built (dev : Drive) (partLba : ℕ) (hP : P none) :
    Built (Step P) (fat32Mount dev partLba) := by
  refine .bind (read_step _ _ _) fun r => ?_
  cases r with
  | none => exact .ret _
  | some boot =>
    refine .ite (.ret _) (.ite (.ret _) (.ite (.ret _) (.ite (.ret _) (.ite (.ret _)
      (.bind .read fun s => .ite (.ret _) (.bind (.step (.allocFs _)) fun _ =>
        .bind (.step (.allocNode _ hP)) fun r => ?_))))))
    cases r <;> exact .ret _

end Fat32

end CoolFrost
