import CoolFrost.Lib.Frame
import CoolFrost.Fs.Ext2.Ops

/-!
# ext2: the steps of the driver

As for FAT32, every function of the driver is put together from a few steps, and a frame condition
is checked for these steps only.
-/

namespace CoolFrost

open Program

namespace Ext2

/-- The only step of a function that just reads. -/
inductive ReadStep : (α : Type) → Program Ext2State α → Prop
  | read (dr : Drive) (lba n : ℕ) : ReadStep _ (io (blkRead dr lba n))

/-- The steps of a lookup: reading, and taking a node with a parent in `P` from the pool. -/
inductive LookupStep (P : Option ℕ → Prop) : (α : Type) → Program Ext2State α → Prop
  | reading {α : Type} {m : Program Ext2State α} (h : ReadStep α m) : LookupStep P α m
  | allocNode (nd : Ext2Node) (h : P nd.parent) : LookupStep P _ (allocNode nd)

/-- The steps of the driver, when the parents of new nodes are in `P`. -/
inductive Step (P : Option ℕ → Prop) : (α : Type) → Program Ext2State α → Prop
  | lookup {α : Type} {m : Program Ext2State α} (h : LookupStep P α m) : Step P α m
  | write (dr : Drive) (lba n : ℕ) (buf : Bytes) : Step P _ (io (blkWrite dr lba n buf))
  | allocFs : Step P _ allocFs
  | setSize (i v : ℕ) : Step P _ (modifyNode i fun nd => { nd with size := v })

variable {P : Option ℕ → Prop}

/-- A program that only reads is a lookup. -/
lemma lookup_of_reading {α : Type} {m : Program Ext2State α} (h : Built ReadStep m) :
    Built (LookupStep P) m :=
  h.mono fun _ _ => .reading

/-- A lookup is a program of the driver. -/
lemma built_of_lookup {α : Type} {m : Program Ext2State α} (h : Built (LookupStep P) m) :
    Built (Step P) m :=
  h.mono fun _ _ => .lookup

/-- A program that only reads is a program of the driver. -/
lemma built_of_reading {α : Type} {m : Program Ext2State α} (h : Built ReadStep m) :
    Built (Step P) m :=
  built_of_lookup (lookup_of_reading h)

/-! ## Functions that only read -/

/-- `read_block` is one transfer. -/
lemma readBlock_built (fs : Ext2Fs) (b : ℕ) : Built ReadStep (readBlock fs b) :=
  .step (.read _ _ _)

/-- The block of the inode table with an inode is read once; nothing is kept of it. -/
lemma loadInodeBlock_built (fs : Ext2Fs) (ino : ℕ) : Built ReadStep (loadInodeBlock fs ino) := by
  refine .bind (readBlock_built _ _) fun r => ?_
  cases r with
  | none => exact .ret _
  | some b =>
    refine .bind (readBlock_built _ _) fun r => ?_
    cases r <;> exact .ret _

/-- `read_inode` only reads. -/
lemma readInode_built (fs : Ext2Fs) (ino : ℕ) : Built ReadStep (readInode fs ino) := by
  refine .bind (loadInodeBlock_built _ _) fun r => ?_
  cases r <;> exact .ret _

/-- The search in an extent tree reads one block for each level; the induction is on the depth that
is left. -/
lemma ext4ExtentLookup_built (fs : Ext2Fs) (logical n : ℕ) (eh : Bytes) :
    Built ReadStep (ext4ExtentLookup fs logical n eh) := by
  induction n generalizing eh with
  | zero => exact .ret _
  | succ n ih =>
    refine .ite (.ret _) (.ite (.ret _) (.ite (.ret _) (.bind (readBlock_built _ _) fun r => ?_)))
    cases r with
    | none => exact .ret _
    | some eh => exact ih eh

lemma readPtr_built (fs : Ext2Fs) (blk k : ℕ) : Built ReadStep (readPtr fs blk k) := by
  refine .ite (.ret _) (.bind (readBlock_built _ _) fun r => ?_)
  cases r <;> exact .ret _

/-- `get_block` reads at most three pointer blocks, one after the other. -/
lemma getBlock_built (fs : Ext2Fs) (inode : Bytes) (logical : ℕ) :
    Built ReadStep (getBlock fs inode logical) :=
  .ite (ext4ExtentLookup_built _ _ _ _) (.ite (.ret _) (.ite (readPtr_built _ _ _)
    (.ite (.bind (readPtr_built _ _ _) fun _ => readPtr_built _ _ _)
      (.ite (.bind (readPtr_built _ _ _) fun _ => .bind (readPtr_built _ _ _) fun _ =>
        readPtr_built _ _ _) (.ret _)))))

/-- The loop of `ext2_read` changes nothing, whatever the buffer gets. -/
lemma readLoop_built (fs : Ext2Fs) (inode : Bytes) (offset size : ℕ) (out : Bytes) :
    Built ReadStep (readLoop fs inode offset size out) := by
  refine .iter (fun p => .ite (.bind (getBlock_built _ _ _) fun phys => .ite (.ret _)
    (.bind (readBlock_built _ _) fun r => ?_)) (.ret _)) _ _
  cases r <;> exact .ret _

lemma ext2Read_built (node offset size : ℕ) (out : Bytes) :
    Built ReadStep (ext2Read node offset size out) := by
  refine .bind .read fun s => .bind (readInode_built _ _) fun r => ?_
  cases r with
  | none => exact .ret _
  | some inode => exact .ite (.ret _) (readLoop_built _ _ _ _ _)

section Walk

variable {α γ : Type}

/-- The walk reads a block of the directory only when it comes to another one. -/
lemma loadDirBlock_built (fs : Ext2Fs) (inode : Bytes) (blkLog : ℕ)
    (cur : Option (ℕ × ℕ × Bytes)) : Built ReadStep (loadDirBlock fs inode blkLog cur) := by
  have hload : Built ReadStep (loadDirBlock.load fs inode blkLog) := by
    refine .bind (getBlock_built _ _ _) fun phys => .ite (.ret _)
      (.bind (readBlock_built _ _) fun r => ?_)
    cases r <;> exact .ret _
  rcases cur with _ | ⟨curLogical, phys, buf⟩
  · exact hload
  · exact .ite (.ret _) hload

/-- A walk over a directory only reads, whatever is done with the entries. -/
lemma dirWalk_built (fs : Ext2Fs) (inode : Bytes) (visit : ℕ → ℕ → Bytes → γ → γ ⊕ α) (acc : γ) :
    Built ReadStep (dirWalk fs inode visit acc) := by
  refine .iter (fun p => .ite (.bind (loadDirBlock_built _ _ _ _) fun r => ?_) (.ret _)) _ _
  cases r with
  | none => exact .ret _
  | some p =>
    refine .ite (.ret _) ?_
    split <;> exact .ret _

end Walk

/-- Unlike `ext2_finddir`, `ext2_readdir` takes no node from the pool. -/
lemma ext2Readdir_built (node index : ℕ) : Built ReadStep (ext2Readdir node index) := by
  refine .bind .read fun s => .bind (readInode_built _ _) fun r => ?_
  cases r with
  | none => exact .ret _
  | some inode =>
    refine .bind (dirWalk_built _ _ _ _) fun w => ?_
    cases w with
    | found p =>
      refine .bind (readInode_built _ _) fun r => ?_
      cases r <;> exact .ret _
    | ended => exact .ret _
    | badBlock => exact .ret _
    | badRecord => exact .ret _

lemma collectBlocks_built (fs : Ext2Fs) (inode : Bytes) (count : ℕ) :
    Built ReadStep (collectBlocks fs inode count) :=
  .iter (fun _ => .ite (.bind (getBlock_built _ _ _) fun _ => .ite (.ret _) (.ret _)) (.ret _)) _ _

/-- The only change that `ext2_finddir` makes is the new node, whose parent is the directory. -/
lemma ext2Finddir_built (node : ℕ) (name : List UInt8) (hP : P (some node)) :
    Built (LookupStep P) (ext2Finddir node name) := by
  refine .bind .read fun s => .bind (lookup_of_reading (readInode_built _ _)) fun r => ?_
  cases r with
  | none => exact .ret _
  | some inode =>
    refine .bind (lookup_of_reading (dirWalk_built _ _ _ _)) fun w => ?_
    cases w with
    | found p =>
      refine .bind (lookup_of_reading (readInode_built _ _)) fun r => ?_
      cases r with
      | none => exact .ret _
      | some child => exact .step (.allocNode _ hP)
    | ended => exact .ret _
    | badBlock => exact .ret _
    | badRecord => exact .ret _

/-! ## Functions that write -/

/-- `write_block` is one transfer. -/
lemma writeBlock_built (fs : Ext2Fs) (b : ℕ) (buf : Bytes) : Built (Step P) (writeBlock fs b buf) :=
  .step (.write _ _ _ _)

lemma readBlock_step (fs : Ext2Fs) (b : ℕ) : Built (Step P) (readBlock fs b) :=
  built_of_reading (readBlock_built fs b)

lemma writeInode_built (fs : Ext2Fs) (ino : ℕ) (inode : Bytes) :
    Built (Step P) (writeInode fs ino inode) := by
  refine .bind (built_of_reading (loadInodeBlock_built _ _)) fun r => ?_
  cases r with
  | none => exact .ret _
  | some p => exact writeBlock_built _ _ _

lemma sbAdjustFree_built (fs : Ext2Fs) (b i : ℤ) : Built (Step P) (sbAdjustFree fs b i) := by
  refine .bind (.step (.lookup (.reading (.read _ _ _)))) fun r => ?_
  cases r with
  | none => exact .ret _
  | some sb => exact .bind (.step (.write _ _ _ _)) fun _ => .ret _

/-- A bitmap, its descriptor and the counters of the superblock are written in this order; what has
been written stays when a later one fails. -/
lemma commitBitmap_built (fs : Ext2Fs) (bb : ℕ) (bitmap : Bytes) (gb : ℕ) (desc : Bytes) (b i : ℤ) :
    Built (Step P) (commitBitmap fs bb bitmap gb desc b i) :=
  .bind (writeBlock_built _ _ _) fun _ => .ite (.bind (writeBlock_built _ _ _) fun _ =>
    .ite (.bind (sbAdjustFree_built _ _ _) fun _ => .ret _) (.ret _)) (.ret _)

/-- All allocators read the descriptor and the bitmap of a group and then commit the bitmap. -/
lemma allocBlock_built (fs : Ext2Fs) : Built (Step P) (allocBlock fs) := by
  refine .iter (fun group => .ite (.bind (readBlock_step _ _) fun r => ?_) (.ret _)) _ _
  cases r with
  | none => exact .ret _
  | some desc =>
    refine .ite (.ret _) (.bind (readBlock_step _ _) fun r => ?_)
    cases r with
    | none => exact .ret _
    | some bitmap =>
      dsimp only
      split
      · exact .ret _
      · exact .bind (commitBitmap_built _ _ _ _ _ _ _) fun _ => .ite (.ret _) (.ret _)

lemma takeGoal_built (fs : Ext2Fs) (goal : ℕ) : Built (Step P) (takeGoal fs goal) := by
  refine .ite (.bind (readBlock_step _ _) fun r => ?_) (.ret _)
  cases r with
  | none => exact .ret _
  | some desc =>
    refine .ite (.ret _) (.bind (readBlock_step _ _) fun r => ?_)
    cases r with
    | none => exact .ret _
    | some bitmap => exact .ite (.ret _) (commitBitmap_built _ _ _ _ _ _ _)

lemma allocBlockNear_built (fs : Ext2Fs) (goal : ℕ) : Built (Step P) (allocBlockNear fs goal) :=
  .bind (takeGoal_built _ _) fun _ => .ite (.ret _) (allocBlock_built _)

lemma allocBlockRun_built (fs : Ext2Fs) (want : ℕ) : Built (Step P) (allocBlockRun fs want) := by
  refine .iter (fun group => .ite (.bind (readBlock_step _ _) fun r => ?_) (.ret _)) _ _
  cases r with
  | none => exact .ret _
  | some desc =>
    refine .ite (.ret _) (.bind (readBlock_step _ _) fun r => ?_)
    cases r with
    | none => exact .ret _
    | some bitmap =>
      exact .ite (.ret _) (.bind (commitBitmap_built _ _ _ _ _ _ _) fun _ => .ite (.ret _) (.ret _))

lemma allocInode_built (fs : Ext2Fs) : Built (Step P) (allocInode fs) := by
  refine .iter (fun group => .ite (.bind (readBlock_step _ _) fun r => ?_) (.ret _)) _ _
  cases r with
  | none => exact .ret _
  | some desc =>
    refine .ite (.ret _) (.bind (readBlock_step _ _) fun r => ?_)
    cases r with
    | none => exact .ret _
    | some bitmap =>
      dsimp only
      split
      · exact .ret _
      · exact .bind (commitBitmap_built _ _ _ _ _ _ _) fun _ => .ite (.ret _) (.ret _)

/-- A block is given back through its bitmap, as it was taken. -/
lemma freeBlock_built (fs : Ext2Fs) (b : ℕ) : Built (Step P) (freeBlock fs b) := by
  refine .bind (readBlock_step _ _) fun r => ?_
  cases r with
  | none => exact .ret _
  | some desc =>
    refine .bind (readBlock_step _ _) fun r => ?_
    cases r with
    | none => exact .ret _
    | some bitmap => exact commitBitmap_built _ _ _ _ _ _ _

lemma freeInode_built (fs : Ext2Fs) (ino : ℕ) : Built (Step P) (freeInode fs ino) := by
  refine .bind (readBlock_step _ _) fun r => ?_
  cases r with
  | none => exact .ret _
  | some desc =>
    refine .bind (readBlock_step _ _) fun r => ?_
    cases r with
    | none => exact .ret _
    | some bitmap => exact commitBitmap_built _ _ _ _ _ _ _

/-- `get_or_alloc_block` allocates a pointer block and a data block at most. -/
lemma getOrAllocBlock_built (fs : Ext2Fs) (inode : Bytes) (logical : ℕ) :
    Built (Step P) (getOrAllocBlock fs inode logical) := by
  refine .ite (.ret _) (.ite ?_ (.ite ?_ (.ret _)))
  · exact .ite (.bind (allocBlockNear_built _ _) fun _ => .ite (.ret _) (.ret _)) (.ret _)
  · refine .bind (.ite (.bind (allocBlock_built _) fun _ => .ite (.ret _)
      (.bind (writeBlock_built _ _ _) fun _ => .ite (.ret _) (.ret _))) (.ret _)) fun r => ?_
    cases r with
    | none => exact .ret _
    | some inode =>
      refine .bind (readBlock_step _ _) fun r => ?_
      cases r with
      | none => exact .ret _
      | some ind =>
        exact .ite (.bind (allocBlockNear_built _ _) fun _ => .ite (.ret _)
          (.bind (writeBlock_built _ _ _) fun _ => .ite (.ret _) (.ret _))) (.ret _)

lemma allocBlocks_built (fs : Ext2Fs) (lb lastBlk : ℕ) (inode : Bytes) :
    Built (Step P) (allocBlocks fs lb lastBlk inode) :=
  .iter (fun _ => .ite (.bind (getOrAllocBlock_built _ _ _) fun _ => .ite (.ret _) (.ret _))
    (.ret _)) _ _

/-- The loop of `ext2_write` reads every block before it writes it. -/
lemma writeLoop_built (fs : Ext2Fs) (inode : Bytes) (offset size : ℕ) (input : Bytes) :
    Built (Step P) (writeLoop fs inode offset size input) := by
  refine .iter (fun p => .ite (.bind (built_of_reading (getBlock_built _ _ _)) fun phys =>
    .ite (.ret _) (.bind (readBlock_step _ _) fun r => ?_)) (.ret _)) _ _
  cases r with
  | none => exact .ret _
  | some buf => exact .bind (writeBlock_built _ _ _) fun _ => .ite (.ret _) (.ret _)

/-- The size of the node is the only thing that `ext2_write` changes in the pools. -/
lemma ext2Write_built (node offset size : ℕ) (input : Bytes) :
    Built (Step P) (ext2Write node offset size input) := by
  refine .bind .read fun s => .ite (.ret _) (.ite (.ret _) (.ite (.ret _)
    (.bind (built_of_reading (readInode_built _ _)) fun r => ?_)))
  cases r with
  | none => exact .ret _
  | some inode =>
    exact .ite (.ret _) (.ite (.ret _) (.ite (.ret _) (.bind (allocBlocks_built _ _ _ _) fun _ =>
      .ite (.ret _) (.bind .read fun _ => .bind (writeLoop_built _ _ _ _ _) fun _ => .ite (.ret _)
        (.bind (writeInode_built _ _ _) fun _ => .ite
          (.bind (.step (.setSize _ _)) fun _ => .ret _) (.ret _))))))

/-- An entry is put into a record with room, or into a new block. -/
lemma ext2InsertDirent_built (fs : Ext2Fs) (dir : ℕ) (name : List UInt8) (ino : ℕ)
    (fileType : UInt8) : Built (Step P) (ext2InsertDirent fs dir name ino fileType) := by
  have happend : ∀ d inode, Built (Step P) (ext2InsertDirent.append fs name ino fileType d inode) :=
    fun d inode => .bind (getOrAllocBlock_built _ _ _) fun _ => .ite (.ret _)
      (.bind (writeBlock_built _ _ _) fun _ => .ite (writeInode_built _ _ _) (.ret _))
  refine .ite (.ret _) (.bind .read fun s =>
    .bind (built_of_reading (readInode_built _ _)) fun r => ?_)
  cases r with
  | none => exact .ret _
  | some inode =>
    refine .bind (built_of_reading (dirWalk_built _ _ _ _)) fun w => ?_
    cases w with
    | found p => exact writeBlock_built _ _ _
    | ended => exact happend _ _
    | badBlock => exact happend _ _
    | badRecord => exact happend _ _

/-- The new node of `ext2_create` has the directory as its parent. -/
lemma ext2Create_built (dir : ℕ) (name : List UInt8) (hP : P (some dir)) :
    Built (Step P) (ext2Create dir name) :=
  .bind .read fun _ => .ite (.ret _) (.ite (.ret _) (.ite (.ret _)
    (.bind (allocInode_built _) fun _ => .ite (.ret _)
      (.bind (ext2InsertDirent_built _ _ _ _ _) fun _ => .ite
        (.bind (writeInode_built _ _ _) fun _ => .ite
          (built_of_lookup (.step (.allocNode _ hP))) (.ret _))
        (.bind (freeInode_built _ _) fun _ => .ret _)))))

/-- `ext2_rename` leaves the nodes alone. -/
lemma ext2Rename_built (oldDir : ℕ) (oldName : List UInt8) (newDir : ℕ) (newName : List UInt8) :
    Built (Step P) (ext2Rename oldDir oldName newDir newName) := by
  refine .bind .read fun s => .ite (.ret _) (.ite (.ret _) (.ite (.ret _)
    (.bind (built_of_reading (readInode_built _ _)) fun r => ?_)))
  cases r with
  | none => exact .ret _
  | some inode =>
    refine .bind (built_of_reading (dirWalk_built _ _ _ _)) fun w => ?_
    cases w with
    | badBlock => exact .ret _
    | ended => exact .ret _
    | badRecord => exact .ret _
    | found p =>
      refine .bind (built_of_reading (readInode_built _ _)) fun r => ?_
      cases r with
      | none => exact .ret _
      | some target =>
        refine .ite (.ret _) (.ite (.bind (writeBlock_built _ _ _) fun _ => .ite (.ret _) (.ret _))
          (.bind (ext2InsertDirent_built _ _ _ _ _) fun _ => .ite
            (.bind (readBlock_step _ _) fun r => ?_) (.ret _)))
        cases r with
        | none => exact .ret _
        | some b => exact .bind (writeBlock_built _ _ _) fun _ => .ite (.ret _) (.ret _)

lemma freePtrs_built (fs : Ext2Fs) (ptr : ℕ → ℕ) (n k : ℕ) :
    Built (Step P) (freePtrs fs ptr n k) := by
  induction n generalizing k with
  | zero => exact .ret _
  | succ n ih => exact .ite (.bind (freeBlock_built _ _) fun _ => ih _) (ih _)

/-- The last link of a file gives its blocks and its inode back. -/
lemma dropLink_built (fs : Ext2Fs) (ino : ℕ) (inode : Bytes) :
    Built (Step P) (dropLink fs ino inode) := by
  have hind : Built (Step P) (freeIndirect fs (iBlock inode 12)) := by
    refine .ite (.bind (readBlock_step _ _) fun r => ?_) (.ret _)
    cases r with
    | none => exact .bind (freeBlock_built _ _) fun _ => .ret _
    | some ind =>
      exact .bind (freePtrs_built _ _ _ _) fun _ => .bind (freeBlock_built _ _) fun _ => .ret _
  exact .ite (.bind (writeInode_built _ _ _) fun _ => .ret _)
    (.bind (freePtrs_built _ _ _ _) fun _ => .bind hind fun _ =>
      .bind (freeInode_built _ _) fun _ => .bind (writeInode_built _ _ _) fun _ => .ret _)

/-- `ext2_unlink` leaves the nodes alone, those of the file too. -/
lemma ext2Unlink_built (dir : ℕ) (name : List UInt8) : Built (Step P) (ext2Unlink dir name) := by
  refine .bind .read fun s => .ite (.ret _) (.ite (.ret _) (.ite (.ret _)
    (.bind (built_of_reading (readInode_built _ _)) fun r => ?_)))
  cases r with
  | none => exact .ret _
  | some inode =>
    refine .bind (built_of_reading (dirWalk_built _ _ _ _)) fun w => ?_
    cases w with
    | badBlock => exact .ret _
    | ended => exact .ret _
    | badRecord => exact .ret _
    | found p =>
      refine .bind (built_of_reading (readInode_built _ _)) fun r => ?_
      cases r with
      | none => exact .ret _
      | some target =>
        exact .ite (.ret _) (.ite (.ret _) (.ite (.ret _) (.bind (writeBlock_built _ _ _) fun _ =>
          .ite (.bind (dropLink_built _ _ _) fun _ => .ret _) (.ret _))))

lemma freeBlocks_built (fs : Ext2Fs) (l : List ℕ) : Built (Step P) (freeBlocks fs l) := by
  induction l with
  | nil => exact .ret _
  | cons b l ih => exact .bind (freeBlock_built _ _) fun _ => ih

lemma copyBlocks_built (fs : Ext2Fs) (l : List ℕ) (new : ℕ) :
    Built (Step P) (copyBlocks fs l new) := by
  induction l generalizing new with
  | nil => exact .ret _
  | cons b l ih =>
    refine .bind (readBlock_step _ _) fun r => ?_
    cases r with
    | none => exact .ret _
    | some buf => exact .bind (writeBlock_built _ _ _) fun _ => .ite (ih _) (.ret _)

/-- Moving a file gives the old blocks or the new ones back, and none when the pointer block cannot
be written. -/
lemma moveBlocks_built (fs : Ext2Fs) (ino : ℕ) (inode : Bytes) (old : List ℕ) :
    Built (Step P) (moveBlocks fs ino inode old) := by
  have hcommit : ∀ inode start count, Built (Step P) (commitIndirect fs inode start count) := by
    intro inode start count
    refine .ite (.bind (readBlock_step _ _) fun r => ?_) (.ret _)
    cases r with
    | none => exact .ret _
    | some ind => exact writeBlock_built _ _ _
  exact .bind (allocBlockRun_built _ _) fun _ => .ite
    (.bind (freeBlocks_built _ _) fun _ => .ret _)
    (.bind (copyBlocks_built _ _ _) fun _ => .ite
      (.bind (writeInode_built _ _ _) fun _ => .ite
        (.bind (hcommit _ _ _) fun _ =>
          .ite (.bind (freeBlocks_built _ _) fun _ => .ret _) (.ret _))
        (.bind (freeBlocks_built _ _) fun _ => .ret _))
      (.bind (freeBlocks_built _ _) fun _ => .ret _))

lemma ext2DefragOne_built (fs : Ext2Fs) (node : ℕ) : Built (Step P) (ext2DefragOne fs node) := by
  refine .bind .read fun s => .bind (built_of_reading (readInode_built _ _)) fun r => ?_
  cases r with
  | none => exact .ret _
  | some inode =>
    refine .ite (.ret _) (.ite (.ret _) (.ite (.ret _) (.ite (.ret _)
      (.bind (built_of_reading (collectBlocks_built _ _ _)) fun r => ?_))))
    cases r with
    | none => exact .ret _
    | some old => exact .ite (.ret _) (moveBlocks_built _ _ _ _)

/-- `ext2_defrag` takes a node from the pool for every file that it looks up. -/
lemma ext2Defrag_built (dir : ℕ) (hP : P (some dir)) : Built (Step P) (ext2Defrag dir) := by
  refine .bind .read fun s => .iter (fun p =>
    .bind (built_of_reading (ext2Readdir_built _ _)) fun r => ?_) _ _
  cases r with
  | none => exact .ret _
  | some de =>
    refine .ite (.ret _) (.bind (built_of_lookup (ext2Finddir_built _ _ hP)) fun r => ?_)
    cases r with
    | none => exact .ret _
    | some node => exact .bind (ext2DefragOne_built _ _) fun _ => .ret _

/-- The root that `ext2_mount` takes from the pool has no parent. -/
lemma ext2Mount_built (dev : Drive) (partLba : ℕ) (hP : P none) :
    Built (Step P) (ext2Mount dev partLba) := by
  refine .bind (.step (.lookup (.reading (.read _ _ _)))) fun r => ?_
  cases r with
  | none => exact .ret _
  | some sb =>
    refine .ite (.ret _) (.ite (.ret _) (.bind .read fun s => .ite (.ret _)
      (.bind (.step .allocFs) fun _ => .bind (.step (.lookup (.allocNode _ hP))) fun r => ?_)))
    cases r <;> exact .ret _

end Ext2

end CoolFrost
