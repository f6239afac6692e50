import CoolFrost.Fs.DescriptorRuns

/-!
# Volumes that may not be written

`ext2_mount` accepts a volume that was not cleanly unmounted, or that has a read-only feature the
driver does not know, and marks it `write_supported = 0`.  Creating, writing, removing and renaming
check the mark; `ext2_defrag` does not.  Until a defragmentation finds a file to move, no operation
on such a volume issues a write.
-/

namespace CoolFrost

open Program

namespace Ext2

/-- The drives are as before, and nodes have at most been added. -/
structure Reads (s s' : Ext2State) : Prop where
  disk : s'.blk.disk = s.blk.disk
  log : s'.blk.log = s.blk.log
  used : s.nodePoolUsed ≤ s'.nodePoolUsed
  nodes : ∀ i < s.nodePoolUsed, s'.nodePool i = s.nodePool i

instance : IsPreorder Ext2State Reads where
  refl _ := ⟨rfl, rfl, le_rfl, fun _ _ => rfl⟩
  trans _ _ _ h h' := ⟨h'.disk.trans h.disk, h'.log.trans h.log, h.used.trans h'.used,
    fun i hi => (h'.nodes i (hi.trans_le h.used)).trans (h.nodes i hi)⟩

/-- A read returns the sectors or fails. -/
lemma wlp_read (dr : Drive) (lba n : ℕ) (s : Ext2State) :
    wlp (io (blkRead dr lba n)) (fun r s' => Reads s s' ∧ (r = none ∨
      r = some (Bytes.clip (n % 256 * 512) (Bytes.shift (s.blk.disk dr) (lba * 512))))) s := by
  simp only [io, wlp_zoom, blkRead, wlp_bind, wlp_get, wlp_modify, wlp_ite, wlp_pure]
  split
  · exact ⟨⟨rfl, rfl, le_rfl, fun _ _ => rfl⟩, .inl trivial⟩
  · exact ⟨⟨rfl, rfl, le_rfl, fun _ _ => rfl⟩, .inr trivial⟩

/-- A lookup only reads. -/
lemma lookup_reads {P : Option ℕ → Prop} {α : Type} {m : Program Ext2State α}
    (h : Built (LookupStep P) m) : Keeps Reads m := by
  refine h.keeps fun α m hm s => ?_
  cases hm with
  | reading h =>
    cases h with
    | read dr lba n => exact wlp_mono (wlp_read dr lba n s) fun _ _ h => h.1
  | allocNode nd _ =>
    simp only [allocNode, wlp_bind, wlp_get, wlp_ite, wlp_pure, wlp_modify]
    split
    · exact refl_of Reads s
    · refine ⟨rfl, rfl, Nat.le_succ _, fun i hi => ?_⟩
      exact Function.update_of_ne (Nat.ne_of_lt hi) _ _

lemma reading_reads {α : Type} {m : Program Ext2State α} (h : Built ReadStep m) : Keeps Reads m :=
  lookup_reads (P := fun _ => True) (lookup_of_reading h)

/-- The contents of a block. -/
def blockAt (disk : Drive → Bytes) (fs : Ext2Fs) (b : ℕ) : Bytes :=
  Bytes.clip (fs.sectorsPerBlock % 256 * 512)
    (Bytes.shift (disk fs.dev) ((fs.partLba + b * fs.sectorsPerBlock) * 512))

lemma wlp_readBlock (fs : Ext2Fs) (b : ℕ) (s : Ext2State) :
    wlp (readBlock fs b) (fun r s' => Reads s s' ∧
      (r = none ∨ r = some (blockAt s.blk.disk fs b))) s :=
  wlp_read _ _ _ s

/-! ## What a defragmentation finds to move -/

/-- A call that reads the contents `disk`, whatever transfers fail, can return `a`. -/
def CanReturn {α : Type} (disk : Drive → Bytes) (m : Program Ext2State α) (a : α) : Prop :=
  ∃ s s', s.blk.disk = disk ∧ m s = some (a, s')

/-- The number of blocks of a file, as `ext2_defrag_one` computes it. -/
def fileBlocks (fs : Ext2Fs) (inode : Bytes) : ℕ :=
  u32 (iSize inode + fs.blockSize - 1) / fs.blockSize

/-- The blocks of a file are all there and do not follow each other. -/
def Fragmented (disk : Drive → Bytes) (fs : Ext2Fs) (ino : ℕ) : Prop :=
  ∃ inode old, CanReturn disk (readInode fs ino) (some inode) ∧ usesExtents inode = false ∧
    CanReturn disk (collectBlocks fs inode (fileBlocks fs inode)) (some old) ∧
      contiguous old = false

/-- `ino` is the inode that the name of an entry of the directory `nd` leads to, the entry not being
listed as a directory. -/
def ListsFile (disk : Drive → Bytes) (nd : Ext2Node) (ino : ℕ) : Prop :=
  ∃ (s s' t t' : Ext2State) (dir dir' idx node : ℕ) (de : Dirent),
    s.blk.disk = disk ∧ s.nodePool dir = nd ∧ ext2Readdir dir idx s = some (some de, s') ∧
    de.type.isDirectory = false ∧ t.blk.disk = disk ∧ t.nodePool dir' = nd ∧
    ext2Finddir dir' de.name t = some (some node, t') ∧ (t'.nodePool node).inode = ino

/-- No group has a free block that `alloc_block_run` would take. -/
def NoFreeBlock (disk : Drive → Bytes) (fs : Ext2Fs) : Prop :=
  ∀ group < fs.groupsCount,
    let desc := blockAt disk fs (locateBgd fs group).1
    bgFreeBlocksCount desc (locateBgd fs group).2 = 0 ∨
      ∀ want, (searchBits (blockAt disk fs (bgBlockBitmap desc (locateBgd fs group).2)) want
        (groupRange fs group).2 0 ⟨0, 0, 0, 0⟩).bestLen = 0

/-- A defragmentation of the directory `nd` has nothing to move, or nowhere to move it. -/
def Settled (disk : Drive → Bytes) (nd : Ext2Node) : Prop :=
  NoFreeBlock disk nd.fs ∨ ∀ ino, ListsFile disk nd ino → ¬ Fragmented disk nd.fs ino

lemma allocBlockRun_reads {s : Ext2State} {fs : Ext2Fs} (h : NoFreeBlock s.blk.disk fs) (want : ℕ) :
    wlp (allocBlockRun fs want) (fun r s' => Reads s s' ∧ r = (0, 0)) s := by
  refine wlp_iter (fun _ s' => Reads s s') (fun group s₁ h₁ => ?_) (refl_of Reads s)
  simp only [wlp_ite, wlp_pure, wlp_bind]
  split
  · rename_i hgroup
    refine wlp_mono (wlp_readBlock fs _ s₁) fun r s₂ hpost => ?_
    obtain ⟨h₂, hr⟩ := hpost
    have h₁₂ := trans_of Reads h₁ h₂
    rcases hr with rfl | rfl
    · exact (wlp_pure _ _ _).mpr ⟨h₁₂, rfl⟩
    · simp only [wlp_ite, wlp_pure, wlp_bind]
      split
      · exact h₁₂
      · rename_i hcount
        refine wlp_mono (wlp_readBlock fs _ s₂) fun r s₃ hpost => ?_
        obtain ⟨h₃, hr⟩ := hpost
        have h₁₃ := trans_of Reads h₁₂ h₃
        rcases hr with rfl | rfl
        · exact (wlp_pure _ _ _).mpr ⟨h₁₃, rfl⟩
        · rw [h₁₂.disk, h₁.disk]
          rw [h₁.disk] at hcount
          have hnone := (h group hgroup).resolve_left hcount
          simp only [wlp_ite, wlp_pure]
          rw [if_pos (hnone _)]
          exact h₁₃
  · exact ⟨h₁, rfl⟩

lemma moveBlocks_reads {s : Ext2State} {fs : Ext2Fs} (h : NoFreeBlock s.blk.disk fs) (ino : ℕ)
    (inode : Bytes) (old : List ℕ) :
    wlp (moveBlocks fs ino inode old) (fun _ s' => Reads s s') s := by
  simp only [moveBlocks, wlp_bind]
  refine wlp_mono (allocBlockRun_reads h _) fun r s' hpost => ?_
  obtain ⟨hs, hr⟩ := hpost
  subst hr
  simp only [true_or, if_true, wlp_bind, wlp_pure, blockRun, List.range_zero, List.map_nil]
  exact (wlp_pure _ _ _).mpr hs

/-- A file that is not fragmented is left alone, and so is every file when no block is free. -/
lemma ext2DefragOne_reads {s : Ext2State} {fs : Ext2Fs} {node : ℕ}
    (h : NoFreeBlock s.blk.disk fs ∨ ¬ Fragmented s.blk.disk fs (s.nodePool node).inode) :
    wlp (ext2DefragOne fs node) (fun _ s' => Reads s s') s := by
  simp only [ext2DefragOne, wlp_bind, wlp_get]
  intro r s₁ hread
  have h₁ : Reads s s₁ := reading_reads (readInode_built _ _) s _ _ hread
  cases r with
  | none => exact (wlp_pure _ _ _).mpr h₁
  | some inode =>
    simp only [wlp_ite, wlp_pure, wlp_bind]
    split_ifs with hext
    · exact h₁
    · exact h₁
    · exact h₁
    · exact h₁
    · intro r s₂ hcollect
      have h₂ := trans_of Reads h₁ (reading_reads (collectBlocks_built _ _ _) s₁ _ _ hcollect)
      cases r with
      | none => exact (wlp_pure _ _ _).mpr h₂
      | some old =>
        simp only [wlp_ite, wlp_pure]
        split
        · exact h₂
        · rename_i hcont
          have hfree : NoFreeBlock s₂.blk.disk fs := by
            rw [h₂.disk]
            refine h.resolve_right fun hnot => hnot ⟨inode, old, ⟨s, s₁, rfl, hread⟩, ?_, ?_, ?_⟩
            · simpa using hext
            · exact ⟨s₁, s₂, h₁.disk, hcollect⟩
            · simpa using hcont
          exact wlp_mono (moveBlocks_reads hfree _ _ _) fun _ _ h₃ => trans_of Reads h₂ h₃

/-- A defragmentation with nothing to move does not write. -/
lemma ext2Defrag_reads {s : Ext2State} {dir : ℕ} (hdir : dir < s.nodePoolUsed)
    (h : Settled s.blk.disk (s.nodePool dir)) :
    wlp (ext2Defrag dir) (fun _ s' => Reads s s') s := by
  simp only [ext2Defrag, wlp_bind, wlp_get]
  refine wlp_iter (fun _ s' => Reads s s') (fun p s₁ h₁ => ?_) (refl_of Reads s)
  obtain ⟨idx, count⟩ := p
  simp only [wlp_bind]
  intro r s₂ hreaddir
  have h₂ := trans_of Reads h₁ (reading_reads (ext2Readdir_built _ _) s₁ _ _ hreaddir)
  cases r with
  | none => exact (wlp_pure _ _ _).mpr h₂
  | some de =>
    simp only [wlp_ite, wlp_pure, wlp_bind]
    split
    · exact h₂
    · rename_i hfile
      intro r s₃ hfind
      have hstep := lookup_reads (ext2Finddir_built (P := fun _ => True) _ _ trivial) s₂ _ _ hfind
      have h₃ := trans_of Reads h₂ hstep
      cases r with
      | none => exact (wlp_pure _ _ _).mpr h₃
      | some node =>
        simp only [wlp_bind, wlp_pure]
        have hnode : NoFreeBlock s₃.blk.disk (s.nodePool dir).fs ∨
            ¬ Fragmented s₃.blk.disk (s.nodePool dir).fs (s₃.nodePool node).inode := by
          rw [h₃.disk]
          refine h.imp_right fun hnone => hnone _ ⟨s₁, s₂, s₂, s₃, dir, dir, idx, node, de, h₁.disk,
            h₁.nodes dir hdir, hreaddir, ?_, h₂.disk, h₂.nodes dir hdir, hfind, rfl⟩
          simpa using hfile
        exact wlp_mono (ext2DefragOne_reads hnode) fun _ _ h₄ => trans_of Reads h₃ h₄

/-- A lookup returns a node of the same volume. -/
lemma ext2Finddir_volume (dir : ℕ) (name : List UInt8) (s : Ext2State) :
    wlp (ext2Finddir dir name) (fun r s' => Reads s s' ∧ ∀ i, r = some i →
      i < s'.nodePoolUsed ∧ (s'.nodePool i).fs = (s.nodePool dir).fs) s := by
  refine wlp_and (lookup_reads (ext2Finddir_built (P := fun _ => True) _ _ trivial) s) ?_
  simp only [ext2Finddir, wlp_bind, wlp_get]
  intro r s₁ _
  cases r with
  | none => simp
  | some inode =>
    simp only [wlp_bind]
    intro w s₂ _
    cases w with
    | found p =>
      simp only [wlp_bind]
      intro r s₃ _
      cases r with
      | none => simp
      | some child =>
        simp only [allocNode, wlp_bind, wlp_get, wlp_ite, wlp_pure, wlp_modify]
        split
        · simp
        · rintro i ⟨⟩
          simp
    | ended => simp
    | badBlock => simp
    | badRecord => simp

/-! ## A volume with one file in the root directory -/

/-- The inode `ino`, read off the drives. -/
def inodeAt (disk : Drive → Bytes) (fs : Ext2Fs) (ino : ℕ) : Bytes :=
  let (bgdBlk, bgdOff) := locateBgd fs (u32sub ino 1 / fs.inodesPerGroup)
  let (inodeBlk, inodeOff) := locateInode fs (bgInodeTable (blockAt disk fs bgdBlk) bgdOff)
    (u32sub ino 1 % fs.inodesPerGroup)
  Bytes.clip 128 (Bytes.shift (blockAt disk fs inodeBlk) inodeOff)

lemma wlp_readInode (fs : Ext2Fs) (ino : ℕ) (s : Ext2State) :
    wlp (readInode fs ino) (fun r s' => Reads s s' ∧
      (r = none ∨ r = some (inodeAt s.blk.disk fs ino))) s := by
  simp only [readInode, loadInodeBlock, wlp_bind]
  refine wlp_mono (wlp_readBlock fs _ s) fun r s₁ hpost => ?_
  obtain ⟨h₁, rfl | rfl⟩ := hpost
  · exact (wlp_pure _ _ _).mpr ((wlp_pure _ _ _).mpr ⟨h₁, .inl rfl⟩)
  · simp only [wlp_bind]
    refine wlp_mono (wlp_readBlock fs _ s₁) fun r s₂ hpost => ?_
    obtain ⟨h₂, rfl | rfl⟩ := hpost
    · exact (wlp_pure _ _ _).mpr ((wlp_pure _ _ _).mpr ⟨trans_of Reads h₁ h₂, .inl rfl⟩)
    · refine (wlp_pure _ _ _).mpr ((wlp_pure _ _ _).mpr ⟨trans_of Reads h₁ h₂, .inr ?_⟩)
      rw [h₁.disk]
      rfl

/-- The direct blocks of a file are collected from its inode. -/
lemma wlp_collectBlocks (fs : Ext2Fs) {inode : Bytes} (hext : usesExtents inode = false) {n : ℕ}
    (hn : n ≤ 12) (s : Ext2State) : wlp (collectBlocks fs inode n)
      (fun r _ => ∀ old, r = some old → old = (List.range n).map (iBlock inode)) s := by
  refine wlp_iter (fun blocks _ => blocks.length ≤ n ∧
    blocks = (List.range blocks.length).map (iBlock inode)) (fun blocks s' hI => ?_) ⟨by simp, rfl⟩
  obtain ⟨hle, hblocks⟩ := hI
  simp only [wlp_ite, wlp_pure, wlp_bind, getBlock, hext, Bool.false_eq_true, if_false]
  split_ifs with hlt h12 hzero hzero
  · rintro old ⟨⟩
  · refine ⟨by simpa using hlt, ?_⟩
    rw [List.length_append, List.length_singleton, List.range_succ, List.map_append, ← hblocks]
    rfl
  all_goals try omega
  · rintro old ⟨⟩
    rw [← Nat.le_antisymm hle (Nat.not_lt.mp hlt)]
    exact hblocks

/-- The root directory `nd` has one block, with the records `.`, `..` and that of the file `ino`,
which has at most twelve blocks, one behind the other. -/
structure Tidy (disk : Drive → Bytes) (nd : Ext2Node) (blk ino : ℕ) : Prop where
  size : nd.fs.blockSize = 1024
  blk_ne : blk ≠ 0
  extents : ∀ i ∈ [nd.inode, ino], usesExtents (inodeAt disk nd.fs i) = false
  dirSize : iSize (inodeAt disk nd.fs nd.inode) = 1024
  dirBlock : iBlock (inodeAt disk nd.fs nd.inode) 0 = blk
  records : [0, 12, 24].map (deRecLen (blockAt disk nd.fs blk)) = [12, 12, 1000]
  inodes : [0, 12, 24].map (deInode (blockAt disk nd.fs blk)) = [nd.inode, nd.inode, ino]
  short : ∀ i ∈ [nd.inode, ino], fileBlocks nd.fs (inodeAt disk nd.fs i) ≤ 12
  straight : ∀ i ∈ [nd.inode, ino],
    contiguous ((List.range (fileBlocks nd.fs (inodeAt disk nd.fs i))).map
    (iBlock (inodeAt disk nd.fs i))) = true

section Tidy

variable {disk : Drive → Bytes} {nd : Ext2Node} {blk ino : ℕ}

lemma Tidy.not_fragmented (h : Tidy disk nd blk ino) {i : ℕ} (hi : i ∈ [nd.inode, ino]) :
    ¬Fragmented disk nd.fs i := by
  rintro ⟨inode, old, ⟨s, s', hs, hread⟩, -, ⟨t, t', -, hcollect⟩, hnot⟩
  obtain ⟨-, hnone | hsome⟩ := wlp_readInode _ _ s _ _ hread
  · cases hnone
  · rw [hs] at hsome
    cases hsome
    rw [wlp_collectBlocks _ (h.extents i hi) (h.short i hi) t _ _ hcollect old rfl,
      h.straight i hi] at hnot
    cases hnot

/-- Every record of the directory leads to the directory or to the file. -/
lemma Tidy.wlp_dirWalk (h : Tidy disk nd blk ino) (name : List UInt8) {s : Ext2State}
    (hs : s.blk.disk = disk) :
    wlp (dirWalk nd.fs (inodeAt disk nd.fs nd.inode) (fun phys off b _ =>
      findVisit name phys off b) ())
      (fun w _ => ∀ r, w = .found r → deInode r.buf r.off ∈ [nd.inode, ino]) s := by
  have hrecords := h.records
  have hinodes := h.inodes
  simp only [List.map_cons, List.map_nil, List.cons.injEq, and_true] at hrecords hinodes
  refine wlp_iter (fun p s' => s'.blk.disk = disk ∧ p.1 ∈ [0, 12, 24, 1024] ∧
    (p.2.1 = none ∨ p.2.1 = some (0, blk, blockAt disk nd.fs blk))) (fun p s₁ hI => ?_)
    ⟨hs, by simp, .inl rfl⟩
  obtain ⟨pos, cur, u⟩ := p
  obtain ⟨h₁, hpos, hcur⟩ := hI
  dsimp only at hpos hcur
  rw [wlp_ite, h.dirSize, h.size]
  split_ifs with hlt
  swap
  · simp
  have hpos' : pos = 0 ∨ pos = 12 ∨ pos = 24 := by
    simp only [List.mem_cons, List.not_mem_nil, or_false] at hpos
    omega
  have hload : wlp (loadDirBlock nd.fs (inodeAt disk nd.fs nd.inode) (pos / 1024) cur)
      (fun r s' => s'.blk.disk = disk ∧
      (r = none ∨ r = some (blk, blockAt disk nd.fs blk))) s₁ := by
    have hquot : pos / 1024 = 0 := Nat.div_eq_of_lt hlt
    rw [hquot]
    rcases hcur with rfl | rfl
    · simp only [loadDirBlock, loadDirBlock.load, getBlock, h.extents _ List.mem_cons_self,
        Bool.false_eq_true, if_false, wlp_bind, wlp_ite, wlp_pure, h.dirBlock, h.blk_ne]
      refine wlp_mono (wlp_readBlock nd.fs blk s₁) fun r s₂ hpost => ?_
      obtain ⟨h₂, rfl | rfl⟩ := hpost
      · exact (wlp_pure _ _ _).mpr ⟨h₂.disk.trans h₁, .inl rfl⟩
      · exact (wlp_pure _ _ _).mpr ⟨h₂.disk.trans h₁, .inr (by rw [h₁])⟩
    · simp only [loadDirBlock, if_true, wlp_pure]
      exact ⟨h₁, .inr trivial⟩
  rw [wlp_bind]
  refine wlp_mono hload fun r s₂ hpost => ?_
  obtain ⟨h₂, rfl | rfl⟩ := hpost
  · simp
  have hrem : pos % 1024 = pos := Nat.mod_eq_of_lt hlt
  have hlen : deRecLen (blockAt disk nd.fs blk) pos ≠ 0 ∧
      u32 (pos + deRecLen (blockAt disk nd.fs blk) pos) ∈ [0, 12, 24, 1024] ∧
      deInode (blockAt disk nd.fs blk) pos ∈ [nd.inode, ino] := by
    rcases hpos' with rfl | rfl | rfl
    · rw [hrecords.1, hinodes.1]
      simp [u32]
    · rw [hrecords.2.1, hinodes.2.1]
      simp [u32]
    · rw [hrecords.2.2, hinodes.2.2]
      simp [u32]
  simp only [hrem, if_neg hlen.1, findVisit]
  split_ifs
  · simp only [wlp_pure, Sum.elim_inr]
    rintro _ ⟨⟩
    exact hlen.2.2
  · simp only [wlp_pure, Sum.elim_inl]
    exact ⟨h₂, hlen.2.1, .inr (by rw [Nat.div_eq_of_lt hlt])⟩

lemma Tidy.settled (h : Tidy disk nd blk ino) : Settled disk nd := by
  refine .inr fun i hlists => h.not_fragmented ?_
  obtain ⟨-, -, t, t', -, dir', -, node, de, -, -, -, -, ht, hdir, hfind, rfl⟩ := hlists
  have hwlp : wlp (ext2Finddir dir' de.name) (fun r s' => ∀ n, r = some n →
      (s'.nodePool n).inode ∈ [nd.inode, ino]) t := by
    simp only [ext2Finddir, wlp_bind, wlp_get, hdir]
    refine wlp_mono (wlp_readInode nd.fs nd.inode t) fun r s₁ hpost => ?_
    obtain ⟨h₁, rfl | rfl⟩ := hpost
    · simp
    simp only [wlp_bind, ht]
    refine wlp_mono (h.wlp_dirWalk _ (h₁.disk.trans ht)) fun w s₂ hw => ?_
    cases w with
    | found r =>
      simp only [wlp_bind]
      intro r' s₃ _
      cases r' with
      | none => simp
      | some child =>
        simp only [allocNode, wlp_bind, wlp_get, wlp_ite, wlp_pure, wlp_modify]
        split
        · simp
        · rintro n ⟨⟩
          rw [Function.update_self]
          exact hw r rfl
    | ended => simp
    | badBlock => simp
    | badRecord => simp
  exact hwlp _ _ hfind node rfl

end Tidy

end Ext2

namespace Vfs

open Ext2

/-- A node of the volume `fs`. -/
def OnVolume (fs : Ext2Fs) (k : Kernel) (v : VNode) : Prop :=
  ∃ i, v = .ext2 i ∧ i < k.ext2.nodePoolUsed ∧ (k.ext2.nodePool i).fs = fs

/-- From `k` to `k'` no write has been issued, and the mounts and the nodes of ext2 volumes are as
before, except for new ones. -/
structure Unwritten (k k' : Kernel) : Prop where
  log : k'.blk.log = k.blk.log
  mounts : k'.mounts = k.mounts
  used : k.ext2.nodePoolUsed ≤ k'.ext2.nodePoolUsed
  nodes : ∀ i < k.ext2.nodePoolUsed, (k'.ext2.nodePool i).fs = (k.ext2.nodePool i).fs

lemma Unwritten.refl (k : Kernel) : Unwritten k k := ⟨rfl, rfl, le_rfl, fun _ _ => rfl⟩

lemma Unwritten.trans {k k' k'' : Kernel} (h : Unwritten k k') (h' : Unwritten k' k'') :
    Unwritten k k'' :=
  ⟨h'.log.trans h.log, h'.mounts.trans h.mounts, h.used.trans h'.used,
    fun i hi => (h'.nodes i (hi.trans_le h.used)).trans (h.nodes i hi)⟩

lemma OnVolume.mono {fs : Ext2Fs} {k k' : Kernel} {v : VNode} (h : OnVolume fs k v)
    (hu : Unwritten k k') : OnVolume fs k' v := by
  obtain ⟨i, rfl, hi, hfs⟩ := h
  exact ⟨i, rfl, hi.trans_le hu.used, (hu.nodes i hi).trans hfs⟩

section Gate

variable {F : RoFormats} {fs : Ext2Fs} {k : Kernel}

/-- A call of the ext2 driver that only reads. -/
lemma unwritten_inExt2 {α : Type} {m : Program Ext2State α} {Q : α → Ext2State → Prop}
    (h : wlp m (fun r s' => Reads { k.ext2 with blk := k.blk } s' ∧ Q r s')
      { k.ext2 with blk := k.blk }) :
    wlp (inExt2 m) (fun r k' => Unwritten k k' ∧ Q r k'.ext2) k := by
  rw [inExt2, wlp_zoom]
  refine wlp_mono h fun r s' hpost => ?_
  obtain ⟨hs, hr⟩ := hpost
  refine ⟨⟨hs.log, rfl, hs.used, fun i hi => ?_⟩, hr⟩
  exact congrArg Ext2Node.fs (hs.nodes i hi)

lemma walkComponents_unwritten (names : List (List UInt8)) {node : VNode}
    (hnode : OnVolume fs k node) :
    wlp (walkComponents F names node)
      (fun r k' => Unwritten k k' ∧ ∀ v, r = some v → OnVolume fs k' v) k := by
  induction names generalizing k node with
  | nil =>
    refine (wlp_pure _ _ _).mpr ⟨.refl k, ?_⟩
    rintro v ⟨⟩
    exact hnode
  | cons name rest ih =>
    obtain ⟨i, rfl, hi, hfs⟩ := hnode
    simp only [walkComponents, finddir, wlp_bind, wlp_get, wlp_ite]
    split
    · rw [wlp_map]
      refine wlp_mono (unwritten_inExt2 (ext2Finddir_volume i name _)) fun r k₁ hpost => ?_
      obtain ⟨hu, hr⟩ := hpost
      cases r with
      | none => exact (wlp_pure _ _ _).mpr ⟨hu, by simp⟩
      | some j =>
        have hchild : OnVolume fs k₁ (.ext2 j) := ⟨j, rfl, (hr j rfl).1, (hr j rfl).2.trans hfs⟩
        exact wlp_mono (ih hchild) fun _ _ h => ⟨hu.trans h.1, h.2⟩
    · simp only [wlp_pure]
      exact ⟨.refl k, by simp⟩

/-- The volume `fs` is mounted at place `i` of the mount table. -/
structure Mounted (fs : Ext2Fs) (i : ℕ) (k : Kernel) : Prop where
  active : (k.mounts i).active = true
  root : ∃ r, (k.mounts i).root = some r ∧ OnVolume fs k r

lemma Mounted.mono {i : ℕ} {k' : Kernel} (h : Mounted fs i k) (hu : Unwritten k k') :
    Mounted fs i k' where
  active := hu.mounts ▸ h.active
  root := by
    obtain ⟨r, hr, hv⟩ := h.root
    exact ⟨r, hu.mounts ▸ hr, hv.mono hu⟩

lemma walkPath_unwritten {r : VNode} (hr : OnVolume fs k r) (path : List UInt8) :
    wlp (walkPath F (some r) path)
      (fun res k' => Unwritten k k' ∧ ∀ v, res = some v → OnVolume fs k' v) k :=
  walkComponents_unwritten _ hr

lemma splitParent_unwritten {m : MountPoint} {r : VNode} (hm : m.root = some r)
    (hr : OnVolume fs k r) (path : List UInt8) :
    wlp (splitParent F m path)
      (fun res k' => Unwritten k k' ∧ ∀ v, res.1 = some v → OnVolume fs k' v) k := by
  unfold splitParent
  split
  · refine (wlp_pure _ _ _).mpr ⟨.refl k, fun v hv => ?_⟩
    cases hm.symm.trans hv
    exact hr
  · simp only [wlp_ite, wlp_pure, wlp_bind]
    split
    · exact ⟨.refl k, by simp⟩
    · rw [hm]
      exact walkPath_unwritten hr _

/-- Storing a descriptor is no write to a drive. -/
lemma unwritten_withFd (t : Option ℕ) (f : ℕ) (new : FileDescriptor) :
    Unwritten k (withFd k t f new) := ⟨rfl, rfl, le_rfl, fun _ _ => rfl⟩

lemma openNode_unwritten (node : VNode) (flags : ℕ) :
    wlp (openNode node flags) (fun _ k' => Unwritten k k') k := by
  simp only [openNode, wlp_bind, wlp_get]
  split
  · exact (wlp_pure _ _ _).mpr (.refl k)
  · simp only [wlp_bind, wlp_setFd, wlp_pure]
    exact unwritten_withFd _ _ _

lemma advance_unwritten (fd n : ℤ) : wlp (advance fd n) (fun _ k' => Unwritten k k') k := by
  simp only [advance, wlp_bind, wlp_get, wlp_ite, wlp_setFd, wlp_pure]
  split
  · exact unwritten_withFd _ _ _
  · exact .refl k

lemma readNode_unwritten {node : VNode} (hnode : OnVolume fs k node) (offset size : ℕ)
    (buf : Bytes) : wlp (readNode F node offset size buf) (fun _ k' => Unwritten k k') k := by
  obtain ⟨i, rfl, -, -⟩ := hnode
  simp only [readNode, wlp_bind, wlp_get, wlp_ite]
  split
  · refine wlp_mono (unwritten_inExt2 (Q := fun _ _ => True) ?_) fun _ _ h => h.1
    exact wlp_mono (reading_reads (ext2Read_built _ _ _ _) _) fun _ _ h => ⟨h, trivial⟩
  · exact (wlp_pure _ _ _).mpr (.refl k)

variable (hro : fs.writeSupported = false)
include hro

lemma create_unwritten {node : VNode} (hnode : OnVolume fs k node) (name : List UInt8) :
    wlp (create node name) (fun r k' => Unwritten k k' ∧ r = none) k := by
  obtain ⟨i, rfl, -, hfs⟩ := hnode
  simp only [create, wlp_bind, wlp_get, wlp_ite]
  split
  · rw [wlp_map]
    refine wlp_mono (unwritten_inExt2 (Q := fun r _ => r = none) ?_) fun r k' h =>
      ⟨h.1, by simp [h.2]⟩
    simp only [ext2Create, wlp_bind, wlp_get, hfs, hro, Bool.not_false, if_true, wlp_pure]
    exact ⟨refl_of Reads _, trivial⟩
  · exact (wlp_pure _ _ _).mpr ⟨.refl k, rfl⟩

lemma vfsOpen_unwritten {i : ℕ} (hm : Mounted fs i k) {path relpath : List UInt8}
    (hloc : locate k path = some (i, relpath)) (flags : ℕ) :
    wlp (vfsOpen F path flags) (fun _ k' => Unwritten k k') k := by
  obtain ⟨r, hroot, hr⟩ := hm.root
  simp only [vfsOpen, wlp_bind, wlp_get, hloc, hroot]
  refine wlp_mono (walkPath_unwritten hr relpath) fun res k₁ hpost => ?_
  obtain ⟨h₁, _⟩ := hpost
  cases res with
  | some node => exact wlp_mono (openNode_unwritten _ _) fun _ _ h => h₁.trans h
  | none =>
    simp only [wlp_ite, wlp_pure, wlp_bind]
    split
    · exact h₁
    · refine wlp_mono (splitParent_unwritten hroot (hr.mono h₁) relpath) fun res k₂ hpost => ?_
      obtain ⟨h₂, hv⟩ := hpost
      obtain ⟨parent, name⟩ := res
      cases parent with
      | none => exact (wlp_pure _ _ _).mpr (h₁.trans h₂)
      | some parent =>
        simp only [wlp_ite, wlp_pure, wlp_bind]
        split
        · exact h₁.trans h₂
        · refine wlp_mono (create_unwritten hro (hv parent rfl) name) fun res k₃ hpost => ?_
          obtain ⟨h₃, hres⟩ := hpost
          subst hres
          exact (wlp_pure _ _ _).mpr ((h₁.trans h₂).trans h₃)

lemma writeNode_unwritten {node : VNode} (hnode : OnVolume fs k node) (offset size : ℕ)
    (buf : Bytes) : wlp (writeNode node offset size buf) (fun _ k' => Unwritten k k') k := by
  obtain ⟨i, rfl, -, hfs⟩ := hnode
  simp only [writeNode, wlp_bind, wlp_get, wlp_ite]
  split
  · refine wlp_mono (unwritten_inExt2 (Q := fun _ _ => True) ?_) fun _ _ h => h.1
    simp only [ext2Write, wlp_bind, wlp_get, hfs, hro, Bool.not_false, if_true, wlp_pure]
    exact ⟨refl_of Reads _, trivial⟩
  · exact (wlp_pure _ _ _).mpr (.refl k)

lemma vfsUnlink_unwritten {i : ℕ} (hm : Mounted fs i k) {path relpath : List UInt8}
    (hloc : locate k path = some (i, relpath)) :
    wlp (vfsUnlink F path) (fun _ k' => Unwritten k k') k := by
  obtain ⟨r, hroot, hr⟩ := hm.root
  simp only [vfsUnlink, wlp_bind, wlp_get, hloc]
  refine wlp_mono (splitParent_unwritten hroot hr relpath) fun res k₁ hpost => ?_
  obtain ⟨h₁, hv⟩ := hpost
  obtain ⟨parent, name⟩ := res
  cases parent with
  | none => exact (wlp_pure _ _ _).mpr h₁
  | some parent =>
    obtain ⟨d, rfl, -, hfs⟩ := hv parent rfl
    simp only [wlp_ite, wlp_pure, wlp_bind, wlp_get]
    split
    · exact h₁
    · refine wlp_mono (unwritten_inExt2 (Q := fun _ _ => True) ?_) fun _ _ h => h₁.trans h.1
      simp only [ext2Unlink, wlp_bind, wlp_get, hfs, hro, Bool.not_false, if_true, wlp_pure]
      exact ⟨refl_of Reads _, trivial⟩

lemma vfsRename_unwritten {i : ℕ} (hm : Mounted fs i k) {oldPath oldRel newPath newRel : List UInt8}
    (hold : locate k oldPath = some (i, oldRel)) (hnew : locate k newPath = some (i, newRel)) :
    wlp (vfsRename F oldPath newPath) (fun _ k' => Unwritten k k') k := by
  obtain ⟨r, hroot, hr⟩ := hm.root
  simp only [vfsRename, wlp_bind, wlp_get, hold, hnew, ne_eq, not_true_eq_false, if_false]
  refine wlp_mono (splitParent_unwritten hroot hr oldRel) fun p k₁ hpost => ?_
  obtain ⟨h₁, hp⟩ := hpost
  refine wlp_mono (splitParent_unwritten hroot (hr.mono h₁) newRel) fun q k₂ hpost => ?_
  obtain ⟨h₂, hq⟩ := hpost
  obtain ⟨oldDir, oldName⟩ := p
  obtain ⟨newDir, newName⟩ := q
  have h₁₂ := h₁.trans h₂
  cases oldDir with
  | none => exact (wlp_pure _ _ _).mpr h₁₂
  | some od =>
    cases newDir with
    | none => exact (wlp_pure _ _ _).mpr h₁₂
    | some nd =>
      obtain ⟨o, rfl, -, hfs⟩ := (hp od rfl).mono h₂
      obtain ⟨n, rfl, -, -⟩ := hq nd rfl
      simp only [wlp_ite, wlp_pure]
      split
      · exact h₁₂
      · refine wlp_mono (unwritten_inExt2 (Q := fun _ _ => True) ?_) fun _ _ h => h₁₂.trans h.1
        simp only [ext2Rename, wlp_bind, wlp_get, hfs, hro, Bool.not_false, if_true, wlp_pure]
        exact ⟨refl_of Reads _, trivial⟩

omit hro in
/-- The only operation that is not stopped by the mark: it has to have nothing to move. -/
lemma vfsDefrag_unwritten {i : ℕ} (hm : Mounted fs i k) {path : List UInt8}
    (hi : mountAt k path = some i)
    (hset : ∀ r, (k.mounts i).root = some (.ext2 r) → Settled k.blk.disk (k.ext2.nodePool r)) :
    wlp (vfsDefrag path) (fun _ k' => Unwritten k k') k := by
  obtain ⟨v, hroot, r, rfl, hr, -⟩ := hm.root
  simp only [vfsDefrag, wlp_bind, wlp_get, hi, hroot]
  split
  · rename_i heq
    cases heq
  · rename_i heq
    cases heq
    refine wlp_mono (unwritten_inExt2 (Q := fun _ _ => True) ?_) fun _ _ h => h.1
    exact wlp_mono (ext2Defrag_reads (s := { k.ext2 with blk := k.blk }) hr (hset r hroot))
      fun _ _ h => ⟨h, trivial⟩
  · exact (wlp_pure _ _ _).mpr (.refl k)

end Gate

/-! ## Runs -/

/-- An operation on the volume that is mounted at place `i` of the mount table. -/
def CallOn (fs : Ext2Fs) (i : ℕ) (k : Kernel) : Call → Prop
  | .openFile path _ => ∃ relpath, locate k path = some (i, relpath)
  | .unlink path => ∃ relpath, locate k path = some (i, relpath)
  | .rename oldPath newPath => (∃ relpath, locate k oldPath = some (i, relpath)) ∧
    ∃ relpath, locate k newPath = some (i, relpath)
  | .defrag path => mountAt k path = some i
  | .read fd _ _ => ∀ d v, openFd k fd = some d → d.node = some v → OnVolume fs k v
  | .write fd _ _ => ∀ d v, openFd k fd = some d → d.node = some v → OnVolume fs k v
  | .readdir fd _ => ∀ d v, openFd k fd = some d → d.node = some v → OnVolume fs k v
  | .close _ => True
  | .seek _ _ => True
  | _ => False

/-- A defragmentation has nothing to move. -/
def NothingToMove (i : ℕ) (k : Kernel) : Call → Prop
  | .defrag _ => ∀ r, (k.mounts i).root = some (.ext2 r) →
    Settled k.blk.disk (k.ext2.nodePool r)
  | _ => True

/-- `P` holds of every call of a run, in the state the call is made in. -/
def AllCalls (F : RoFormats) (P : Kernel → Call → Prop) : List Call → Kernel → Prop
  | [], _ => True
  | call :: calls, k =>
    P k call ∧ ∀ k', call.exec F k = some (PUnit.unit, k') → AllCalls F P calls k'

lemma exec_unwritten {F : RoFormats} {fs : Ext2Fs} (hro : fs.writeSupported = false) {i : ℕ}
    {k : Kernel} (hm : Mounted fs i k) {call : Call} (hon : CallOn fs i k call)
    (hset : NothingToMove i k call) : wlp (call.exec F) (fun _ k' => Unwritten k k') k := by
  have hdrop : ∀ {α : Type} {m : Program Kernel α}, wlp m (fun _ k' => Unwritten k k') k →
      wlp (do let _ ← m : Program Kernel PUnit) (fun _ k' => Unwritten k k') k := by
    intro α m hm
    rw [wlp_bind]
    exact wlp_mono hm fun _ _ h => (wlp_pure _ _ _).mpr h
  cases call with
  | openFile path flags =>
    obtain ⟨relpath, hloc⟩ := hon
    exact hdrop (vfsOpen_unwritten hro hm hloc flags)
  | unlink path =>
    obtain ⟨relpath, hloc⟩ := hon
    exact hdrop (vfsUnlink_unwritten hro hm hloc)
  | rename oldPath newPath =>
    obtain ⟨⟨oldRel, hold⟩, newRel, hnew⟩ := hon
    exact hdrop (vfsRename_unwritten hro hm hold hnew)
  | defrag path => exact hdrop (vfsDefrag_unwritten hm hon hset)
  | read fd buf size =>
    refine hdrop ?_
    simp only [vfsRead, wlp_bind, wlp_get]
    cases hfd : openFd k fd with
    | none => exact (wlp_pure _ _ _).mpr (.refl k)
    | some d =>
      dsimp only
      cases hnode : d.node with
      | none => exact (wlp_pure _ _ _).mpr (.refl k)
      | some v =>
        simp only [wlp_bind, wlp_pure]
        refine wlp_mono (readNode_unwritten (hon d v hfd hnode) _ _ _) fun r k₁ h₁ => ?_
        exact wlp_mono (advance_unwritten _ _) fun _ _ h => h₁.trans h
  | write fd buf size =>
    refine hdrop ?_
    simp only [vfsWrite, wlp_bind, wlp_get]
    cases hfd : openFd k fd with
    | none => exact (wlp_pure _ _ _).mpr (.refl k)
    | some d =>
      dsimp only
      cases hnode : d.node with
      | none => exact (wlp_pure _ _ _).mpr (.refl k)
      | some v =>
        simp only [wlp_bind, wlp_pure]
        refine wlp_mono (writeNode_unwritten hro (hon d v hfd hnode) _ _ _) fun r k₁ h₁ => ?_
        exact wlp_mono (advance_unwritten _ _) fun _ _ h => h₁.trans h
  | readdir fd index =>
    refine hdrop ?_
    simp only [vfsReaddir, wlp_bind, wlp_get]
    cases hfd : openFd k fd with
    | none => exact (wlp_pure _ _ _).mpr (.refl k)
    | some d =>
      dsimp only
      cases hnode : d.node with
      | none => exact (wlp_pure _ _ _).mpr (.refl k)
      | some v =>
        obtain ⟨j, rfl, -, -⟩ := hon d v hfd hnode
        simp only [wlp_ite, wlp_pure]
        split
        · refine wlp_mono (unwritten_inExt2 (Q := fun _ _ => True) ?_) fun _ _ h => h.1
          exact wlp_mono (reading_reads (ext2Readdir_built _ _) _) fun _ _ h => ⟨h, trivial⟩
        · exact .refl k
  | close fd =>
    refine hdrop ?_
    simp only [vfsClose, wlp_bind, wlp_get]
    split
    · exact (wlp_pure _ _ _).mpr (.refl k)
    · simp only [wlp_bind, wlp_setFd, wlp_pure]
      exact unwritten_withFd _ _ _
  | seek fd offset =>
    refine hdrop ?_
    simp only [vfsSeek, wlp_bind, wlp_get]
    split
    · exact (wlp_pure _ _ _).mpr (.refl k)
    · simp only [wlp_bind, wlp_setFd, wlp_pure]
      exact unwritten_withFd _ _ _
  | mount | mountGpt | mountNvmeGpt | mountAhciGpt | mountVblkGpt | umount | stat | submitPrio
  | submitUser | submitUserAs | exit | killCurrent | startScheduler | tick | wantReschedule
  | irqEnd => exact hon.elim

/-- In every run of operations on a volume that may not be written, in which every defragmentation
is made when there is nothing to move, no write is issued. -/
theorem readOnly_volume_unwritten {F : RoFormats} {fs : Ext2Fs} (hro : fs.writeSupported = false)
    {i : ℕ} {k k' : Kernel} (hm : Mounted fs i k) {calls : List Call}
    (hon : AllCalls F (fun k call => CallOn fs i k call ∧ NothingToMove i k call) calls k)
    (hrun : runCalls F calls k = some (PUnit.unit, k')) : k'.blk.log = k.blk.log := by
  induction calls generalizing k with
  | nil =>
    have := wlp_pure PUnit.unit (fun _ (k' : Kernel) => k'.blk.log = k.blk.log) k
    exact this.mpr rfl _ _ hrun
  | cons call calls ih =>
    obtain ⟨⟨hcall, hset⟩, hrest⟩ := hon
    obtain ⟨u, k₁, hexec, hrun'⟩ := bind_eq_some.mp hrun
    have h₁ : Unwritten k k₁ := exec_unwritten hro hm hcall hset _ _ hexec
    exact (ih (hm.mono h₁) (hrest k₁ hexec) hrun').trans h₁.log

/-! ## A volume that was not cleanly unmounted -/

/-- A volume of 16 blocks of 1024 bytes with 16 inodes, its state field 0, and the file `F` in
block 8 and a second one. -/
def uncleanDisk (second : ℕ) : Bytes :=
  let sb : Bytes := Bytes.ofList ([16, 0, 0, 0, 16, 0, 0, 0, 0, 0, 0, 0, 6, 0, 0, 0, 5, 0, 0, 0, 1]
    ++ List.replicate 12 0 ++ [32, 0, 0, 0, 0, 0, 0, 16])
  let sb := Bytes.put16 (Bytes.put32 (Bytes.put32 (Bytes.put16 sb 56 0xEF53) 76 1) 84 11) 88 128
  let desc : Bytes := Bytes.ofList [3, 0, 0, 0, 4, 0, 0, 0, 5, 0, 0, 0, 6, 0, 5, 0, 1]
  let root := Bytes.put32 (Bytes.put16 (Bytes.put32 (Bytes.put16 Bytes.zeros 128 0x41ED) 132 1024)
    154 2) 168 7
  let file := Bytes.put32 (Bytes.put32
    (Bytes.put16 (Bytes.put32 (Bytes.put16 Bytes.zeros 256 0x81A4)
    260 2048) 282 1) 296 8) 300 second
  let entries : Bytes := Bytes.ofList [2, 0, 0, 0, 12, 0, 1, 2, 46, 0, 0, 0,
    2, 0, 0, 0, 12, 0, 2, 2, 46, 46, 0, 0, 11, 0, 0, 0, 232, 3, 1, 1, 70]
  let blocks : List Bytes := [Bytes.zeros, sb, desc,
    Bytes.put16 Bytes.zeros 0 (0x00FF + 2 ^ (second - 1)), Bytes.put16 Bytes.zeros 0 0x07FF, root,
    file, entries]
  fun i => blocks.getD (i / 1024) Bytes.zeros (i % 1024)

/-- The volume mounted at `/a`. -/
def mountUnclean : List Call := [.mountVblkGpt 0 0 [47, 97]]

/-- The volume as `ext2_mount` sees it. -/
def uncleanFs : Ext2Fs := layoutOfSuperblock ⟨3, 0⟩ 0 (Bytes.shift (uncleanDisk 9) 1024)

/-- What the mount leaves, as far as it can be evaluated. -/
def mountedUnclean (k : Kernel) : Bool :=
  (k.mounts 0).active ∧ (k.mounts 0).root = some (.ext2 0) ∧ k.ext2.nodePoolUsed = 1 ∧
    (k.ext2.nodePool 0).fs = uncleanFs ∧ uncleanFs.writeSupported = false ∧
    mountAt k [47, 97] = some 0 ∧ locate k [47, 97, 47, 71] = some (0, [71])

lemma mountedUnclean_spec {k : Kernel} (h : mountedUnclean k = true) :
    uncleanFs.writeSupported = false ∧ Mounted uncleanFs 0 k ∧ mountAt k [47, 97] = some 0 ∧
      locate k [47, 97, 47, 71] = some (0, [71]) := by
  obtain ⟨ha, hr, hu, hfs, hro, hm, hl⟩ := of_decide_eq_true h
  exact ⟨hro, ⟨ha, _, hr, 0, rfl, by omega, hfs⟩, hm, hl⟩

/-- The file `F` is in blocks that follow each other, in the root directory that is mounted. -/
def TidyMount (k : Kernel) : Prop :=
  (k.mounts 0).root = some (.ext2 0) ∧ Tidy k.blk.disk (k.ext2.nodePool 0) 7 11

instance (k : Kernel) : Decidable (TidyMount k) :=
  decidable_of_iff
    ((k.mounts 0).root = some (.ext2 0) ∧
      let nd := k.ext2.nodePool 0
      let disk := k.blk.disk
      nd.fs.blockSize = 1024 ∧
      (∀ i ∈ [nd.inode, 11], usesExtents (inodeAt disk nd.fs i) = false) ∧
      iSize (inodeAt disk nd.fs nd.inode) = 1024 ∧ iBlock (inodeAt disk nd.fs nd.inode) 0 = 7 ∧
      [0, 12, 24].map (deRecLen (blockAt disk nd.fs 7)) = [12, 12, 1000] ∧
      [0, 12, 24].map (deInode (blockAt disk nd.fs 7)) = [nd.inode, nd.inode, 11] ∧
      (∀ i ∈ [nd.inode, 11], fileBlocks nd.fs (inodeAt disk nd.fs i) ≤ 12) ∧
      ∀ i ∈ [nd.inode, 11], contiguous ((List.range (fileBlocks nd.fs (inodeAt disk nd.fs i))).map
        (iBlock (inodeAt disk nd.fs i))) = true)
    ⟨fun ⟨hr, h1, h2, h3, h4, h5, h6, h7, h8⟩ => ⟨hr, h1, by decide, h2, h3, h4, h5, h6, h7, h8⟩,
      fun ⟨hr, h1, _, h2, h3, h4, h5, h6, h7, h8⟩ => ⟨hr, h1, h2, h3, h4, h5, h6, h7, h8⟩⟩

/-- A defragmentation of a volume without fragmented files, and the attempt to create a file. -/
def quietCalls : List Call := [.defrag [47, 97], .openFile [47, 97, 47, 71] 4]

set_option maxRecDepth 100000 in
/-- A defragmentation scans a file that is not fragmented, and opening a file that is not there with
`O_CREATE` does not create it. -/
theorem readOnly_volume_unwritten_defrag : ∃ k k',
    runCalls .drivers mountUnclean (bootKernel (uncleanDisk 9)) = some (PUnit.unit, k) ∧
    runCalls .drivers quietCalls k = some (PUnit.unit, k') ∧
    k'.blk.log = k.blk.log := by
  obtain ⟨k, hrun, hk⟩ := exists_of_any (m := runCalls .drivers mountUnclean)
    (s := bootKernel (uncleanDisk 9)) (p := fun k => (mountedUnclean k && decide (TidyMount k)) &&
      (runCalls .drivers quietCalls k).any fun _ => true)
    (by decide +kernel)
  obtain ⟨hk, hcalls⟩ := Bool.and_eq_true_iff.mp hk
  obtain ⟨hk, htidy⟩ := Bool.and_eq_true_iff.mp hk
  obtain ⟨hro, hm, hat, hloc⟩ := mountedUnclean_spec hk
  obtain ⟨hroot, htidy⟩ := of_decide_eq_true htidy
  obtain ⟨k', hrun', -⟩ := exists_of_any (p := fun _ => true) hcalls
  have hnothing : NothingToMove 0 k (.defrag [47, 97]) := by
    intro r hr
    rw [hroot] at hr
    cases hr
    exact htidy.settled
  have hcall : CallOn uncleanFs 0 k (.defrag [47, 97]) := hat
  have hon : AllCalls .drivers
      (fun k call => CallOn uncleanFs 0 k call ∧ NothingToMove 0 k call) quietCalls k := by
    refine ⟨⟨hcall, hnothing⟩, fun k₁ h₁ => ⟨⟨⟨[71], ?_⟩, trivial⟩, fun _ _ => trivial⟩⟩
    have hmounts := (exec_unwritten hro hm hcall hnothing _ _ h₁).mounts
    rw [← hloc]
    unfold locate findMount firstMount
    rw [hmounts]
  exact ⟨k, k', hrun, hrun', readOnly_volume_unwritten hro hm hon hrun'⟩

set_option maxRecDepth 100000 in
/-- A defragmentation of a volume that may not be written moves the file `F`. -/
theorem defrag_writes_readOnly_volume : ∃ k k' fs,
    runCalls .drivers mountUnclean (bootKernel (uncleanDisk 10)) = some (PUnit.unit, k) ∧
    fs.writeSupported = false ∧ Mounted fs 0 k ∧ CallOn fs 0 k (.defrag [47, 97]) ∧
    runCalls .drivers [.defrag [47, 97]] k = some (PUnit.unit, k') ∧
    k.blk.log = [] ∧ k'.blk.log ≠ [] := by
  obtain ⟨k, hrun, hk⟩ := exists_of_any (m := runCalls .drivers mountUnclean)
    (s := bootKernel (uncleanDisk 10)) (p := fun k => mountedUnclean k && (k.blk.log.isEmpty &&
      (runCalls .drivers [.defrag [47, 97]] k).any fun r => !r.2.blk.log.isEmpty))
    (by decide +kernel)
  obtain ⟨hk, hlog⟩ := Bool.and_eq_true_iff.mp hk
  obtain ⟨hempty, hdefrag⟩ := Bool.and_eq_true_iff.mp hlog
  obtain ⟨hro, hm, hat, -⟩ := mountedUnclean_spec hk
  obtain ⟨k', hrun', hlog'⟩ := exists_of_any (p := fun k : Kernel => !k.blk.log.isEmpty) hdefrag
  refine ⟨k, k', uncleanFs, hrun, hro, hm, hat, hrun', List.isEmpty_iff.mp hempty, ?_⟩
  intro h
  simp [h] at hlog'

end Vfs

end CoolFrost
