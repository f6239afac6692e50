import CoolFrost.Fs.Ext2.Counters
import CoolFrost.Fs.Ext2.RejectedWrite

/-!
# ext2: moving a file

What `ext2_defrag_one` does to a volume: the blocks of a file are copied to a run of free blocks,
the inode and the indirect block are made to point there, and the old blocks are given back.
-/

namespace CoolFrost

open Program

namespace Ext2

variable {fs : Ext2Fs} {p : Plan} {v v' : Vol} {inode : Bytes} {ino b g start : ℕ} {l old : List ℕ}

/-! ## Copying the blocks -/

/-- A volume after the blocks of a list were copied to the run from `new` on. -/
def Vol.copied (fs : Ext2Fs) : List ℕ → ℕ → Vol → Vol
  | [], _, v => v
  | b :: l, new, v => Vol.copied fs l (new + 1) (v.write fs new (blockIn fs v b))

lemma copied_eq (l : List ℕ) (new : ℕ) (v : Vol) :
    v.copied fs l new = { v with data := (v.copied fs l new).data } := by
  induction l generalizing new v with
  | nil => rfl
  | cons b l ih =>
    rw [Vol.copied, ih]
    rfl

lemma vol_copyBlocks (hl : Layout fs) (hp : p.Fits fs) {new : ℕ} (hold : ∀ b ∈ l, Plain fs p b)
    (hnew : ∀ i < l.length, Plain fs p (new + i)) :
    (volView fs p).wp (copyBlocks fs l new) (fun r v' => r = true ∧ v' = v.copied fs l new) v := by
  induction l generalizing new v with
  | nil => exact View.wp_pure ⟨rfl, rfl⟩
  | cons b l ih =>
    refine View.wp_bind (vol_readBlock hl (hold b List.mem_cons_self)) ?_
    rintro _ v ⟨rfl, rfl⟩
    have hfirst := hnew 0 (Nat.succ_pos _)
    rw [Nat.add_zero] at hfirst
    refine View.wp_bind (vol_writeBlock hl hp hfirst _) ?_
    rintro _ v' ⟨rfl, rfl⟩
    refine View.wp_ite (fun _ => ?_) fun h => absurd rfl h
    refine ih (fun b' hb' => hold b' (List.mem_cons_of_mem _ hb')) fun i hi => ?_
    have hrest := hnew (i + 1) (Nat.succ_lt_succ hi)
    rwa [show new + (i + 1) = new + 1 + i by omega] at hrest

/-- Blocks outside the new run are as before. -/
lemma blockIn_copied_of_not_mem (hl : Layout fs) {new : ℕ}
    (hb : b < new ∨ new + l.length ≤ b) : blockIn fs (v.copied fs l new) b = blockIn fs v b := by
  induction l generalizing new v with
  | nil => rfl
  | cons b' l ih =>
    rw [List.length_cons] at hb
    rw [Vol.copied, ih (by omega), blockIn_write_of_ne hl (by omega)]

/-- The new run holds what the old blocks hold. -/
lemma blockIn_copied (hl : Layout fs) {new i : ℕ}
    (hold : ∀ b ∈ l, b < new ∨ new + l.length ≤ b) (hi : i < l.length) :
    blockIn fs (v.copied fs l new) (new + i) = blockIn fs v l[i] := by
  induction l generalizing new v i with
  | nil => exact absurd hi (Nat.not_lt_zero i)
  | cons b l ih =>
    rw [List.length_cons] at hi hold
    have hb := hold b List.mem_cons_self
    rw [Vol.copied]
    cases i with
    | zero =>
      change blockIn fs _ new = blockIn fs v b
      rw [blockIn_copied_of_not_mem hl (by omega), blockIn_write_self hl]
      exact Bytes.clip_clip _ _
    | succ i =>
      rw [show new + (i + 1) = new + 1 + i by omega, List.getElem_cons_succ]
      have hi' : i < l.length := Nat.lt_of_succ_lt_succ hi
      rw [ih (fun b' hb' => by have := hold b' (List.mem_cons_of_mem _ hb'); omega) hi',
        blockIn_write_of_ne hl]
      have := hold _ (List.mem_cons_of_mem _ (List.getElem_mem hi'))
      omega

lemma inodeIn_copied (hl : Layout fs) (hp : p.Fits fs) {new : ℕ} (hi : InodeIn fs ino)
    (hnew : ∀ i < l.length, FileBlock fs p v' (new + i)) :
    inodeIn fs p (v.copied fs l new) ino = inodeIn fs p v ino := by
  induction l generalizing new v with
  | nil => rfl
  | cons b l ih =>
    have hfirst := hnew 0 (Nat.succ_pos _)
    rw [Nat.add_zero] at hfirst
    rw [Vol.copied, ih fun i hi => ?_, inodeIn_write hl hp hfirst hi]
    have hrest := hnew (i + 1) (Nat.succ_lt_succ hi)
    rwa [show new + (i + 1) = new + 1 + i by omega] at hrest

/-! ## Repointing -/

lemma iBlock_repointDirect (start n k : ℕ) : iBlock (repointDirect inode start n) k =
    if k < n then (start + k) % 2 ^ 32 else iBlock inode k := by
  induction n with
  | zero => rfl
  | succ n ih =>
    rw [repointDirect, iBlock_setIBlock, ih]
    by_cases h : k = n
    · rw [if_pos h, h, if_pos (Nat.lt_succ_self n)]
    · rw [if_neg h]
      exact if_congr (by omega) rfl rfl

/-- Fields in front of the block pointers stay. -/
lemma le32_repointDirect (start n : ℕ) {off : ℕ} (h : off + 4 ≤ 40) :
    Bytes.le32 (repointDirect inode start n) off = Bytes.le32 inode off := by
  induction n with
  | zero => rfl
  | succ n ih => rw [repointDirect, setIBlock, Bytes.put32,
      Bytes.le32_blit_of_disjoint (by omega), ih]

lemma le32_repointIndirect (ind : Bytes) (start n k : ℕ) :
    Bytes.le32 (repointIndirect ind start n) (4 * k) =
      if k < n then (start + k) % 2 ^ 32 else Bytes.le32 ind (4 * k) := by
  induction n with
  | zero => rfl
  | succ n ih =>
    rw [repointIndirect]
    by_cases h : k = n
    · rw [h, Bytes.le32_put32_self, if_pos (Nat.lt_succ_self n)]
    · rw [Bytes.put32, Bytes.le32_blit_of_disjoint (by omega), ih]
      exact if_congr (by omega) rfl rfl

/-! ## The file -/

/-- The number of blocks that a file has by its size. -/
def blockCount (fs : Ext2Fs) (inode : Bytes) : ℕ :=
  (iSize inode + fs.blockSize - 1) / fs.blockSize

/-- The blocks of a file, in order. -/
def blocksOf (fs : Ext2Fs) (v : Vol) (inode : Bytes) : List ℕ :=
  (List.range (blockCount fs inode)).map (mapOf fs v inode)

/-- A file that is mapped by direct and single-indirect pointers, without holes; its blocks are
different from each other and from the indirect block. -/
structure Solid (fs : Ext2Fs) (p : Plan) (v : Vol) (inode : Bytes) : Prop where
  extents : usesExtents inode = false
  count : blockCount fs inode ≤ 12 + ptrsPerBlock fs
  blocks : ∀ b ∈ blocksOf fs v inode, FileBlock fs p v b
  nodup : (blocksOf fs v inode).Nodup
  indirect : IndirectOk fs p v inode
  apart : iBlock inode 12 ∉ blocksOf fs v inode

@[simp]
lemma length_blocksOf : (blocksOf fs v inode).length = blockCount fs inode := by
  simp [blocksOf]

lemma getElem_blocksOf {i : ℕ} (hi : i < (blocksOf fs v inode).length) :
    (blocksOf fs v inode)[i] = mapOf fs v inode i := by
  simp [blocksOf]

/-- A file of more than 12 blocks has an indirect block. -/
lemma Solid.fileBlock_indirect (h : Solid fs p v inode) (hn : 12 < blockCount fs inode) :
    FileBlock fs p v (iBlock inode 12) := by
  refine h.indirect.resolve_left fun h0 => ?_
  have hmem : mapOf fs v inode 12 ∈ blocksOf fs v inode :=
    List.mem_map.mpr ⟨12, List.mem_range.mpr hn, rfl⟩
  refine (h.blocks _ hmem).ne_zero ?_
  rw [mapOf, if_neg (by norm_num), if_neg fun hc => hc.2 h0]

lemma vol_getBlock (hl : Layout fs) (hx : usesExtents inode = false)
    (hind : IndirectOk fs p v inode) {lb : ℕ} (hlb : lb < 12 + ptrsPerBlock fs) :
    (volView fs p).wp (getBlock fs inode lb) (fun r v' => r = mapOf fs v inode lb ∧ v' = v) v := by
  refine vol_of_returns fun d _ hv => ?_
  rw [← hv] at hind ⊢
  rw [← getBlockOn_eq hl hx hind hlb]
  exact returns_getBlock _ _

lemma vol_collectBlocks (hl : Layout fs) (hx : usesExtents inode = false)
    (hind : IndirectOk fs p v inode) {count : ℕ} (hcount : count ≤ 12 + ptrsPerBlock fs)
    (hne : ∀ i < count, mapOf fs v inode i ≠ 0) :
    (volView fs p).wp (collectBlocks fs inode count) (fun r v' => v' = v ∧
      r = some ((List.range count).map (mapOf fs v inode))) v := by
  have hptrs := ptrsPerBlock_le hl
  refine View.wp_iter (fun l v' => v' = v ∧ l.length ≤ count ∧
      l = (List.range l.length).map (mapOf fs v inode)) (fun l _ => count - l.length) ?_
    ⟨rfl, Nat.zero_le _, rfl⟩ (by unfold loopFuel; omega)
  rintro l v' ⟨rfl, hle, hlist⟩
  refine View.wp_ite (fun hlt => ?_) fun hge => View.wp_pure ⟨rfl, ?_⟩
  · refine View.wp_bind (vol_getBlock hl hx hind (by omega)) ?_
    rintro _ v' ⟨rfl, rfl⟩
    refine View.wp_ite (fun h0 => absurd h0 (hne _ hlt)) fun _ => View.wp_pure ?_
    refine ⟨⟨rfl, ?_, ?_⟩, ?_⟩
    · rw [List.length_append, List.length_singleton]
      exact hlt
    · rw [List.length_append, List.length_singleton, List.range_succ, List.map_append, ← hlist]
      rfl
    · rw [List.length_append, List.length_singleton]
      omega
  · rw [show count = l.length by omega, ← hlist]

/-! ## The move -/

/-- The indirect block points at the new run. -/
def Vol.repointed (fs : Ext2Fs) (ind start count : ℕ) (v : Vol) : Vol :=
  if 12 < count then v.write fs ind (repointIndirect (blockIn fs v ind) (start + 12) (count - 12))
  else v

lemma vol_commitIndirect (hl : Layout fs) (hp : p.Fits fs) {count : ℕ}
    (hind : 12 < count → Plain fs p (iBlock inode 12)) :
    (volView fs p).wp (commitIndirect fs inode start count) (fun r v' => r = true ∧
      v' = v.repointed fs (iBlock inode 12) start count) v := by
  unfold Vol.repointed
  refine View.wp_ite (fun h => ?_) fun h => View.wp_pure ⟨rfl, (if_neg h).symm⟩
  refine View.wp_bind (vol_readBlock hl (hind h)) ?_
  rintro _ v ⟨rfl, rfl⟩
  rw [if_pos h]
  exact vol_writeBlock hl hp (hind h) _

/-- The volume when the inode points at the copies of the blocks. -/
def Vol.pointed (fs : Ext2Fs) (p : Plan) (ino : ℕ) (inode : Bytes) (old : List ℕ) (g start : ℕ)
    (v : Vol) : Vol :=
  ((v.takeRun g start old.length).copied fs old start).putInode fs p ino
    (repointDirect inode start (min old.length 12))

/-- The volume when the file points at the copies of its blocks. -/
def Vol.committed (fs : Ext2Fs) (p : Plan) (ino : ℕ) (inode : Bytes) (old : List ℕ) (g start : ℕ)
    (v : Vol) : Vol :=
  (v.pointed fs p ino inode old g start).repointed fs (iBlock inode 12) start old.length

/-- What moving a file comes to. -/
def MoveOutcome (fs : Ext2Fs) (p : Plan) (v : Vol) (ino : ℕ) (inode : Bytes) (old : List ℕ) (r : ℤ)
    (v' : Vol) : Prop :=
  (r = 1 ∧ ∃ g start, g < fs.groupsCount ∧ start ≠ 0 ∧ FreeRun fs v g start old.length ∧
      v' = (v.committed fs p ino inode old g start).giveAll fs old) ∨ (r = -1 ∧ v' = v)

/-- Blocks of a free run belong to files once they are taken. -/
lemma FreeRun.fileBlock {len : ℕ} (h : FreeRun fs v g start len) (hr : Reserved fs p v) {i : ℕ}
    (hi : i < len) : FileBlock fs p (v.takeRun g start len) (start + i) := by
  obtain ⟨hin, hused, -⟩ := h i hi
  have hnot : ∀ b, v.used b = true → b ≠ start + i := fun b hb heq => by
    rw [heq, hused] at hb
    cases hb
  refine ⟨hin, if_pos (by omega), ?_, fun m hm => hnot _ (hr.books m hm)⟩
  by_contra hlt
  exact hnot _ (hr.low _ (Nat.lt_of_not_le hlt)) rfl

lemma vol_moveBlocks (hl : Layout fs) (hp : p.Fits fs) (hr : Reserved fs p v)
    (hi : InodeIn fs ino) (hs : Solid fs p v inode) (hpos : 0 < (blocksOf fs v inode).length) :
    (volView fs p).wp (moveBlocks fs ino inode (blocksOf fs v inode)) (fun r v' =>
      MoveOutcome fs p v ino inode (blocksOf fs v inode) r v' ∧
        (r = 1 ↔ (blocksOf fs v inode).length ≤ firstRun fs v)) v := by
  refine vol_of_bounded fun hv => ?_
  obtain ⟨old, hold⟩ : ∃ old, old = blocksOf fs v inode := ⟨_, rfl⟩
  have hblocks := hs.blocks
  rw [← hold] at hblocks ⊢
  rw [← hold] at hpos
  refine View.wp_bind (vol_allocBlockRun hl hp hr.used_zero hpos) ?_
  rintro ⟨start, got⟩ v₁ ⟨hlen, hnone, hsome⟩
  simp only at hlen hnone hsome
  by_cases hfirst : firstRun fs v = 0
  · obtain ⟨rfl, rfl⟩ := hnone hfirst
    obtain rfl : got = 0 := by rw [hlen, hfirst, Nat.min_zero]
    refine View.wp_ite (fun _ => ?_) fun h => absurd (.inl rfl) h
    refine View.wp_bind (vol_freeBlocks (l := []) hl hp fun b hb => by cases hb) ?_
    rintro _ v₂ rfl
    refine View.wp_pure ⟨.inr ⟨rfl, rfl⟩, fun h => absurd h (by norm_num), fun h => ?_⟩
    omega
  obtain ⟨hstart, g, hgroup, rfl, hrun⟩ := hsome hfirst
  have hfree : FreeRun fs v g start got := fun i hi =>
    ⟨(hrun i hi).1.1, (hrun i hi).1.2.1, (hrun i hi).2⟩
  have hin : ∀ b ∈ blockRun start got, InVolume fs b := fun b hb =>
    (hfree.mem (mem_blockRun.mp hb)).1
  refine View.wp_ite (fun hshort => ?_) fun hgot => ?_
  · -- the run is too short, and is given back
    refine View.wp_bind (vol_freeBlocks hl hp hin) ?_
    rintro _ v₂ rfl
    refine View.wp_pure ⟨.inr ⟨rfl, giveAll_takeRun hv hfree⟩, fun h => absurd h (by norm_num),
      fun h => ?_⟩
    exact absurd (hlen.trans (Nat.min_eq_left h)) (hshort.resolve_left hstart)
  obtain ⟨-, hgot⟩ := not_or.mp hgot
  rw [not_not] at hgot
  subst hgot
  refine View.wp_bind (vol_copyBlocks hl hp (fun b hb => (hblocks b hb).plain) fun i hi =>
    (hfree.fileBlock hr hi).plain) ?_
  rintro _ v₂ ⟨rfl, rfl⟩
  refine View.wp_ite (fun _ => ?_) fun h => absurd rfl h
  refine View.wp_bind (vol_writeInode hl hp hi _) ?_
  rintro _ v₃ ⟨rfl, rfl⟩
  refine View.wp_ite (fun _ => ?_) fun h => absurd rfl h
  have hptr : iBlock (repointDirect inode start (min old.length 12)) 12 = iBlock inode 12 := by
    rw [iBlock_repointDirect, if_neg (by omega)]
  have hlen : old.length = blockCount fs inode := by rw [hold, length_blocksOf]
  refine View.wp_bind (vol_commitIndirect hl hp fun hn => ?_) ?_
  · rw [hptr]
    exact (hs.fileBlock_indirect (hlen ▸ hn)).plain
  rintro _ v₄ ⟨rfl, rfl⟩
  refine View.wp_ite (fun _ => ?_) fun h => absurd rfl h
  refine View.wp_bind (vol_freeBlocks hl hp fun b hb => (hblocks b hb).inVolume) ?_
  rintro _ v₅ rfl
  rw [hptr]
  exact View.wp_pure ⟨.inl ⟨rfl, g, start, hgroup, hstart, hfree, rfl⟩, iff_of_true rfl (by omega)⟩

/-! ## What has become of the volume -/

lemma pointed_eq : v.pointed fs p ino inode old g start =
    { v.takeRun g start old.length with data := (v.pointed fs p ino inode old g start).data } := by
  unfold Vol.pointed
  rw [copied_eq]
  rfl

/-- The commit changes what is stored, and nothing else after the run was taken. -/
lemma committed_eq : v.committed fs p ino inode old g start =
    { v.takeRun g start old.length with data := (v.committed fs p ino inode old g
    start).data } := by
  unfold Vol.committed Vol.repointed
  split_ifs
  · rw [pointed_eq]
    rfl
  · exact pointed_eq

/-- A file that is about to be moved to a run of free blocks. -/
structure Move (fs : Ext2Fs) (p : Plan) (v : Vol) (ino : ℕ) (inode : Bytes) (old : List ℕ)
    (g start : ℕ) : Prop where
  layout : Layout fs
  fits : p.Fits fs
  reserved : Reserved fs p v
  inVolume : InodeIn fs ino
  blocks : ∀ b ∈ old, FileBlock fs p v b
  indirect : 12 < old.length → FileBlock fs p v (iBlock inode 12)
  run : FreeRun fs v g start old.length

namespace Move

variable (h : Move fs p v ino inode old g start)

include h

/-- Blocks of files are not in the new run. -/
lemma not_mem_run (hb : FileBlock fs p v b) : b < start ∨ start + old.length ≤ b := by
  by_contra hin
  have hused := (h.run.mem (b := b) (by omega)).2.1
  rw [hb.used] at hused
  cases hused

lemma inodeIn_self : inodeIn fs p (v.committed fs p ino inode old g start) ino =
    Bytes.clip 128 (repointDirect inode start (min old.length 12)) := by
  unfold Vol.committed Vol.repointed
  split_ifs with hn
  · rw [inodeIn_write h.layout h.fits (h.indirect hn) h.inVolume, Vol.pointed,
      inodeIn_putInode_self]
  · exact inodeIn_putInode_self

lemma inodeIn_of_ne {ino' : ℕ} (hi : InodeIn fs ino') (hne : ino' ≠ ino) :
    inodeIn fs p (v.committed fs p ino inode old g start) ino' = inodeIn fs p v ino' := by
  have hcopy := inodeIn_copied (l := old) (v := v.takeRun g start old.length) h.layout h.fits hi
    fun i hin => h.run.fileBlock h.reserved hin
  have hput : inodeIn fs p (v.pointed fs p ino inode old g start) ino' = inodeIn fs p v ino' :=
    (inodeIn_putInode_of_ne h.layout h.fits h.inVolume hi hne).trans hcopy
  unfold Vol.committed Vol.repointed
  split_ifs with hn
  · rw [inodeIn_write h.layout h.fits (h.indirect hn) hi, hput]
  · exact hput

/-- Blocks of files are as before. -/
lemma blockIn_pointed (hb : FileBlock fs p v b) :
    blockIn fs (v.pointed fs p ino inode old g start) b = blockIn fs v b :=
  (blockIn_putInode h.layout h.fits hb h.inVolume).trans
    (blockIn_copied_of_not_mem h.layout (h.not_mem_run hb))

lemma blockIn_of_fileBlock (hb : FileBlock fs p v b)
    (hne : 12 < old.length → b ≠ iBlock inode 12) :
    blockIn fs (v.committed fs p ino inode old g start) b = blockIn fs v b := by
  unfold Vol.committed Vol.repointed
  split_ifs with hn
  · rw [blockIn_write_of_ne h.layout (hne hn), h.blockIn_pointed hb]
  · exact h.blockIn_pointed hb

/-- The new run holds the bytes of the old blocks. -/
lemma blockIn_run {i : ℕ} (hi : i < old.length) :
    blockIn fs (v.committed fs p ino inode old g start) (start + i) = blockIn fs v old[i] := by
  have hput : blockIn fs (v.pointed fs p ino inode old g start) (start + i) = blockIn fs v old[i] :=
    (blockIn_putInode h.layout h.fits (h.run.fileBlock h.reserved hi) h.inVolume).trans
      (blockIn_copied h.layout (fun b hb => h.not_mem_run (h.blocks b hb)) hi)
  unfold Vol.committed Vol.repointed
  split_ifs with hn
  · have hnot := h.not_mem_run (h.indirect hn)
    rw [blockIn_write_of_ne h.layout (by omega), hput]
  · exact hput

/-- The pointers of the indirect block. -/
lemma le32_indirect (hn : 12 < old.length) {k : ℕ} (hk : k < ptrsPerBlock fs) :
    Bytes.le32 (blockIn fs (v.committed fs p ino inode old g start) (iBlock inode 12)) (4 * k) =
      if k < old.length - 12 then (start + 12 + k) % 2 ^ 32
      else Bytes.le32 (blockIn fs v (iBlock inode 12)) (4 * k) := by
  unfold Vol.committed Vol.repointed
  rw [if_pos hn, blockIn_write_self h.layout, Bytes.le32_clip (ptr_le fs hk), le32_repointIndirect,
    h.blockIn_pointed (h.indirect hn)]

end Move

/-- The file with the inode `inode` was moved to the run of blocks from `start` on: its blocks are
there and the old ones are free, and everything else is as it was. -/
structure Relocated (fs : Ext2Fs) (p : Plan) (v : Vol) (ino : ℕ) (inode : Bytes) (start : ℕ)
    (v' : Vol) : Prop where
  /-- The blocks of the run were free. -/
  fresh : ∀ i < blockCount fs inode, InVolume fs (start + i) ∧ v.used (start + i) = false
  map : ∀ i < blockCount fs inode, mapOf fs v' (inodeIn fs p v' ino) i = start + i
  content : ∀ i < blockCount fs inode,
    blockIn fs v' (start + i) = blockIn fs v (mapOf fs v inode i)
  /-- What is mapped behind the end of the file stays. -/
  beyond : ∀ i, blockCount fs inode ≤ i →
    mapOf fs v' (inodeIn fs p v' ino) i = mapOf fs v inode i
  size : iSize (inodeIn fs p v' ino) = iSize inode
  blocks : iBlocks (inodeIn fs p v' ino) = iBlocks inode
  indirect : iBlock (inodeIn fs p v' ino) 12 = iBlock inode 12
  otherInodes : ∀ ino', InodeIn fs ino' → ino' ≠ ino → inodeIn fs p v' ino' = inodeIn fs p v ino'
  otherBlocks : ∀ b, FileBlock fs p v b → b ∉ blocksOf fs v inode → b ≠ iBlock inode 12 →
    blockIn fs v' b = blockIn fs v b
  used : ∀ b, v'.used b = if b ∈ blocksOf fs v inode then false
    else if start ≤ b ∧ b < start + blockCount fs inode then true else v.used b
  total : v'.total = v.total
  /-- What a group gains are old blocks, what it loses are new ones. -/
  free : ∀ g < fs.groupsCount,
    v'.free g + (blockRun start (blockCount fs inode)).countP (fun b => groupOf fs b = g) =
      v.free g + (blocksOf fs v inode).countP fun b => groupOf fs b = g
  consistent : Consistent fs v'
  inodeUsed : v'.inodeUsed = v.inodeUsed
  freeInodes : v'.freeInodes = v.freeInodes
  totalInodes : v'.totalInodes = v.totalInodes

lemma Consistent.congr (h : Consistent fs v) (hused : v'.used = v.used) (hfree : v'.free = v.free)
    (htotal : v'.total = v.total) : Consistent fs v' := by
  constructor
  case free =>
    intro g hg
    rw [hfree, h.free g hg, unusedIn, unusedIn, hused]
  case total => rw [htotal, h.total, unused, unused, hused]

/-- Taking a run and giving back as many other blocks leaves the number of free blocks as it is. -/
lemma u32add_cancel {x n : ℕ} (h : x < 2 ^ 32) : u32add (u32add x (-n)) n = x := by
  rw [u32add_add, neg_add_cancel, u32add_zero h]

/-- The pointers of the file after the move. -/
lemma Move.mapOf_committed (h : Move fs p v ino inode (blocksOf fs v inode) g start)
    (hs : Solid fs p v inode) (i : ℕ) :
    mapOf fs (v.committed fs p ino inode (blocksOf fs v inode) g start)
        (inodeIn fs p (v.committed fs p ino inode (blocksOf fs v inode) g start) ino) i =
      if i < blockCount fs inode then start + i else mapOf fs v inode i := by
  have hlt : ∀ k < blockCount fs inode, (start + k) % 2 ^ 32 = start + k := fun k hk => by
    have hin := (h.run k (by rwa [length_blocksOf])).1.2
    exact Nat.mod_eq_of_lt (hin.trans (h.layout.blocksCount.trans_lt h.layout.blocks))
  have hptr : ∀ k ≤ 12, iBlock (inodeIn fs p (v.committed fs p ino inode (blocksOf fs v inode) g
      start) ino) k = if k < min (blockCount fs inode) 12 then (start + k) % 2 ^ 32
        else iBlock inode k := fun k hk => by
    rw [h.inodeIn_self, iBlock, Bytes.le32_clip (by omega), ← iBlock, iBlock_repointDirect,
      length_blocksOf]
  have hind := hptr 12 le_rfl
  rw [if_neg (by omega)] at hind
  by_cases hi : i < 12
  · rw [mapOf_direct hi, mapOf_direct hi, hptr i hi.le]
    by_cases hn : i < blockCount fs inode
    · rw [if_pos (by omega), if_pos hn, hlt i hn]
    · rw [if_neg (by omega), if_neg hn]
  · rw [mapOf, mapOf, if_neg hi, if_neg hi, hind]
    by_cases hp : i - 12 < ptrsPerBlock fs ∧ iBlock inode 12 ≠ 0
    · rw [if_pos hp, if_pos hp]
      by_cases hn : 12 < blockCount fs inode
      · rw [h.le32_indirect (by rwa [length_blocksOf]) hp.1, length_blocksOf]
        by_cases hin : i < blockCount fs inode
        · rw [if_pos (by omega), if_pos hin, show start + 12 + (i - 12) = start + i by omega,
            hlt i hin]
        · rw [if_neg (by omega), if_neg hin]
      · rw [if_neg (by omega), h.blockIn_of_fileBlock
          (hs.indirect.resolve_left hp.2) fun hlen => ?_]
        rw [length_blocksOf] at hlen
        exact absurd hlen hn
    · rw [if_neg hp, if_neg hp, if_neg fun hn => hp ⟨?_, ?_⟩]
      · have := hs.count
        omega
      · exact (hs.fileBlock_indirect (by omega)).ne_zero

/-- What the inode keeps. -/
lemma Move.le32_inode (h : Move fs p v ino inode old g start) (off : ℕ) (hoff : off + 4 ≤ 40) :
    Bytes.le32 (inodeIn fs p (v.committed fs p ino inode old g start) ino) off =
      Bytes.le32 inode off := by
  rw [h.inodeIn_self, Bytes.le32_clip (by omega), le32_repointDirect _ _ hoff]

/-- What the move comes to. -/
lemma Move.relocated (h : Move fs p v ino inode (blocksOf fs v inode) g start)
    (hs : Solid fs p v inode) (hv : Bounded v) (hc : Consistent fs v) (hg : g < fs.groupsCount) :
    Relocated fs p v ino inode start
      ((v.committed fs p ino inode (blocksOf fs v inode) g start).giveAll fs
        (blocksOf fs v inode)) := by
  have hlen := @length_blocksOf fs v inode
  have hcommit := @committed_eq fs p v inode ino g start (blocksOf fs v inode)
  have hmap := h.mapOf_committed hs
  have hsize := h.le32_inode 4 (by norm_num)
  have hblocks := h.le32_inode 28 (by norm_num)
  have hinodes := fun ino' => @Move.inodeIn_of_ne fs p v inode ino g start _ h ino'
  have hfiles := fun b => @Move.blockIn_of_fileBlock fs p v inode ino b g start _ h
  have hcopied := fun i => @Move.blockIn_run fs p v inode ino g start _ h i
  have hself := h.inodeIn_self
  generalize v.committed fs p ino inode (blocksOf fs v inode) g start = c at *
  have hdata : (c.giveAll fs (blocksOf fs v inode)).data = c.data := by rw [giveAll_eq]
  have hinode := @inodeIn_congr fs p c _ hdata
  have hold : ∀ b ∈ blocksOf fs v inode, InVolume fs b ∧ c.used b = true := fun b hb => by
    refine ⟨(hs.blocks b hb).inVolume, ?_⟩
    rw [hcommit]
    simp only [Vol.takeRun]
    split_ifs
    · rfl
    · exact (hs.blocks b hb).used
  have hcons : Consistent fs c := by
    refine (hc.takeRun h.layout hg h.run).congr ?_ ?_ ?_ <;> rw [hcommit]
  have hmap' : ∀ i, mapOf fs (c.giveAll fs (blocksOf fs v inode))
      (inodeIn fs p (c.giveAll fs (blocksOf fs v inode)) ino) i =
        if i < blockCount fs inode then start + i else mapOf fs v inode i := fun i => by
    rw [← hmap i, hinode]
    exact mapOf_congr (fun _ _ => rfl) (fun _ => blockIn_congr hdata _) i
  constructor
  case fresh =>
    intro i hi
    obtain ⟨hin, hused, -⟩ := h.run i (by rwa [hlen])
    exact ⟨hin, hused⟩
  case map =>
    intro i hi
    rw [hmap', if_pos hi]
  case content =>
    intro i hi
    rw [blockIn_congr hdata, hcopied i (by rwa [hlen]), getElem_blocksOf]
  case beyond =>
    intro i hi
    rw [hmap', if_neg (by omega)]
  case size => rw [hinode, iSize, hsize, iSize]
  case blocks => rw [hinode, iBlocks, hblocks, iBlocks]
  case indirect =>
    rw [hinode, hself, iBlock, Bytes.le32_clip (by norm_num), ← iBlock, iBlock_repointDirect,
      if_neg (by omega)]
  case otherInodes =>
    intro ino' hi' hne
    rw [hinode, hinodes ino' hi' hne]
  case otherBlocks =>
    intro b hb _ hne
    rw [blockIn_congr hdata, hfiles b hb fun _ => hne]
  case used =>
    intro b
    rw [used_giveAll, hcommit, ← hlen]
    rfl
  case total =>
    have htotal : c.total = u32add v.total (-(blocksOf fs v inode).length) := by
      rw [hcommit]
      rfl
    rw [total_giveAll (htotal ▸ u32add_lt _ _), htotal, u32add_cancel hv.total]
  case free =>
    intro g' hg'
    have htake := hc.free_takeRun h.layout hg h.run g'
    have hfree : c.free g' = (v.takeRun g start (blocksOf fs v inode).length).free g' := by
      rw [hcommit]
    rw [hcons.free_giveAll h.layout hs.nodup hold hg', hfree, ← hlen]
    omega
  case consistent => exact hcons.giveAll h.layout hs.nodup hold
  case inodeUsed =>
    rw [giveAll_eq, hcommit]
    rfl
  case freeInodes =>
    rw [giveAll_eq, hcommit]
    rfl
  case totalInodes =>
    rw [giveAll_eq, hcommit]
    rfl

/-! ## Defragmenting a file -/

/-- A file moved, or a volume as it was. -/
def DefragOutcome (fs : Ext2Fs) (p : Plan) (v : Vol) (ino : ℕ) (inode : Bytes) (r : ℤ) (v' : Vol) :
    Prop :=
  (r = 1 ∧ ∃ start, Relocated fs p v ino inode start v') ∨ ((r = 0 ∨ r = -1) ∧ v' = v)

lemma vol_moveBlocks_outcome (hl : Layout fs) (hp : p.Fits fs) (hr : Reserved fs p v)
    (hi : InodeIn fs ino) (hs : Solid fs p v inode) (hc : Consistent fs v)
    (hpos : 0 < (blocksOf fs v inode).length) :
    (volView fs p).wp (moveBlocks fs ino inode (blocksOf fs v inode)) (fun r v' =>
      DefragOutcome fs p v ino inode r v' ∧
        (r = 1 ↔ (blocksOf fs v inode).length ≤ firstRun fs v)) v := by
  refine vol_of_bounded fun hv => View.wp_mono (vol_moveBlocks hl hp hr hi hs hpos) ?_
  rintro r v' ⟨⟨rfl, g, start, hg, -, hrun, rfl⟩ | ⟨rfl, rfl⟩, hmoved⟩ <;> refine ⟨?_, hmoved⟩
  · have hmove : Move fs p v ino inode (blocksOf fs v inode) g start := ⟨hl, hp, hr, hi, hs.blocks,
      fun hn => hs.fileBlock_indirect (by rwa [length_blocksOf] at hn), hrun⟩
    exact .inl ⟨rfl, start, hmove.relocated hs hv hc hg⟩
  · exact .inr ⟨.inr rfl, rfl⟩

lemma vol_ext2DefragOne (hl : Layout fs) (hp : p.Fits fs) (hr : Reserved fs p v) {node : ℕ}
    (hi : InodeIn fs (v.nodes node).inode)
    (hs : Solid fs p v (inodeIn fs p v (v.nodes node).inode)) (hc : Consistent fs v) :
    (volView fs p).wp (ext2DefragOne fs node) (fun r v' => DefragOutcome fs p v (v.nodes node).inode
        (inodeIn fs p v (v.nodes node).inode) r v' ∧
      (r = 1 ↔ contiguous (blocksOf fs v (inodeIn fs p v (v.nodes node).inode)) = false ∧
        (blocksOf fs v (inodeIn fs p v (v.nodes node).inode)).length ≤ firstRun fs v)) v := by
  refine View.wp_get fun s _ hv => ?_
  have hnode : (s.nodePool node).inode = (v.nodes node).inode := by
    rw [← hv]
    rfl
  simp only
  rw [hnode]
  refine View.wp_bind (vol_readInode hl hp hi) ?_
  rintro _ v ⟨rfl, rfl⟩
  generalize inodeIn fs p v (v.nodes node).inode = inode at *
  generalize (v.nodes node).inode = ino at *
  have hblocks : ∀ {r : ℤ}, r = 0 → contiguous (blocksOf fs v inode) = true →
      DefragOutcome fs p v ino inode r v ∧ (r = 1 ↔ contiguous (blocksOf fs v inode) = false ∧
        (blocksOf fs v inode).length ≤ firstRun fs v) := fun h0 hcont =>
    ⟨.inr ⟨.inl h0, rfl⟩, iff_of_false (by omega) fun h => by rw [hcont] at h; cases h.1⟩
  have hptrs := ptrsPerBlock_le hl
  refine View.wp_ite (fun hx => ?_) fun _ => ?_
  · rw [hs.extents] at hx
    cases hx
  refine View.wp_ite (fun h0 => View.wp_pure (hblocks rfl ?_)) fun _ => ?_
  · have hcount : blockCount fs inode = 0 := by
      have hbs := hl.blockSize_pos
      rw [blockCount, h0, Nat.zero_add]
      exact Nat.div_eq_of_lt (by omega)
    rw [blocksOf, hcount]
    rfl
  -- the size does not wrap, for then the file would have more blocks than can be mapped
  have hcount : u32 (iSize inode + fs.blockSize - 1) / fs.blockSize = blockCount fs inode := by
    have hbs := hl.blockSize_le
    have hle := hs.count
    rw [blockCount, u32, Nat.mod_eq_of_lt]
    by_contra hge
    have hdiv := Nat.div_le_div_right (c := fs.blockSize) (Nat.le_of_not_lt hge)
    have hbig : 2 ^ 32 / 4096 ≤ 2 ^ 32 / fs.blockSize := Nat.div_le_div_left hbs.2 (by omega)
    rw [← blockCount] at hdiv
    omega
  rw [hcount]
  refine View.wp_ite (fun h => absurd hs.count (Nat.not_le.mpr h)) fun _ => ?_
  refine View.wp_ite (fun h => absurd h (by omega)) fun _ => ?_
  have hne : ∀ i < blockCount fs inode, mapOf fs v inode i ≠ 0 := fun i hi' =>
    (hs.blocks _ (List.mem_map.mpr ⟨i, List.mem_range.mpr hi', rfl⟩)).ne_zero
  refine View.wp_bind (vol_collectBlocks hl hs.extents hs.indirect hs.count hne) ?_
  rintro _ v ⟨rfl, rfl⟩
  refine View.wp_ite (fun hcont => View.wp_pure (hblocks rfl hcont)) fun hcont => ?_
  change ¬contiguous (blocksOf fs v inode) = true at hcont
  rw [Bool.not_eq_true] at hcont
  have hpos : 0 < (blocksOf fs v inode).length := by
    by_contra h0
    rw [List.length_eq_zero_iff.mp (Nat.eq_zero_of_not_pos h0)] at hcont
    cases hcont
  refine View.wp_mono (vol_moveBlocks_outcome hl hp hr hi hs hc hpos) fun r v' h => ⟨h.1, ?_⟩
  rw [h.2]
  exact ⟨fun hle => ⟨hcont, hle⟩, fun h => h.2⟩

variable {s : Ext2State} {node : ℕ}

/-- `ext2_defrag_one` moves the file to a run of free blocks and frees its old blocks, or it leaves
the volume as it is. -/
theorem ext2DefragOne_result (h : MountedFile fs p s node) (hs : Solid fs p ((volView fs p).view s)
      (inodeIn fs p ((volView fs p).view s) (s.nodePool node).inode))
    (hc : Consistent fs ((volView fs p).view s)) :
    wp (ext2DefragOne fs node) (fun r s' => DefragOutcome fs p ((volView fs p).view s)
      (s.nodePool node).inode (inodeIn fs p ((volView fs p).view s) (s.nodePool node).inode) r
      ((volView fs p).view s')) s :=
  wp_mono (vol_ext2DefragOne h.layout h.fits h.reserved h.inode hs hc s h.good rfl)
    fun _ _ hr => hr.2.1

/-- A file of two blocks in the wrong order, which fill the first of two groups. -/
def twoGroups : OneFile := ⟨2, 8, 17, [8, 7], 2048⟩

lemma twoGroups_ok : twoGroups.Ok := ⟨by decide, by decide, by decide⟩

lemma twoGroups_inode : inodeIn twoGroups.fs twoGroups.plan twoGroups.vol 12 =
    inodeOn twoGroups.fs twoGroups.drive 12 :=
  twoGroups_ok.inodeIn_vol (by decide)

lemma twoGroups_mounted : MountedFile twoGroups.fs twoGroups.plan twoGroups.state 0 where
  layout := twoGroups_ok.layout
  fits := twoGroups_ok.fits
  good := twoGroups_ok.good
  reserved := twoGroups_ok.reserved (by decide) (by decide)
  volume := rfl
  inode := by decide
  indirect _ := .inl (by
    change iBlock (inodeIn twoGroups.fs twoGroups.plan twoGroups.vol 12) 12 = 0
    rw [twoGroups_inode]
    decide)

lemma twoGroups_blocks : blocksOf twoGroups.fs twoGroups.vol
    (inodeIn twoGroups.fs twoGroups.plan twoGroups.vol 12) = [8, 7] := by
  rw [twoGroups_inode]
  decide

lemma twoGroups_fileBlock {b : ℕ} (hb : b = 8 ∨ b = 7) :
    FileBlock twoGroups.fs twoGroups.plan twoGroups.vol b := by
  refine ⟨?_, ?_, ?_, fun m hm heq => ?_⟩
  · rcases hb with rfl | rfl <;> decide
  · rcases hb with rfl | rfl <;> decide
  · rw [twoGroups_ok.descEnd_eq]
    omega
  · obtain ⟨g, k, -, -, hk, hat, -⟩ := twoGroups_ok.at_eq hm
    have hno : blockNo twoGroups.fs g k = 1 + g * 8 + k := rfl
    omega

lemma twoGroups_solid : Solid twoGroups.fs twoGroups.plan twoGroups.vol
    (inodeIn twoGroups.fs twoGroups.plan twoGroups.vol 12) where
  extents := by
    rw [twoGroups_inode]
    decide
  count := by
    rw [twoGroups_inode]
    decide
  blocks b hb := by
    rw [twoGroups_blocks] at hb
    exact twoGroups_fileBlock (by simpa using hb)
  nodup := by
    rw [twoGroups_blocks]
    decide
  indirect := twoGroups_mounted.indirect (by
    change usesExtents (inodeIn twoGroups.fs twoGroups.plan twoGroups.vol 12) = false
    rw [twoGroups_inode]
    decide)
  apart := by
    rw [twoGroups_blocks, twoGroups_inode]
    decide

lemma twoGroups_consistent : Consistent twoGroups.fs twoGroups.vol := ⟨by decide, by decide⟩

theorem ext2DefragOne_result_twoGroups :
    wp (ext2DefragOne twoGroups.fs 0) (fun r s' => DefragOutcome twoGroups.fs twoGroups.plan
      twoGroups.vol 12 (inodeIn twoGroups.fs twoGroups.plan twoGroups.vol 12) r
      ((volView twoGroups.fs twoGroups.plan).view s')) twoGroups.state :=
  ext2DefragOne_result twoGroups_mounted twoGroups_solid twoGroups_consistent

/-- The file moves to the second group: the first one has two free blocks more and the second one
two fewer. -/
theorem not_ext2DefragOne_free_unchanged : ¬ ∀ (fs : Ext2Fs) (p : Plan) (s : Ext2State) (node : ℕ),
    MountedFile fs p s node →
    Solid fs p ((volView fs p).view s)
      (inodeIn fs p ((volView fs p).view s) (s.nodePool node).inode) →
    Consistent fs ((volView fs p).view s) →
    wp (ext2DefragOne fs node) (fun r s' => r = 1 →
      ((volView fs p).view s').total = ((volView fs p).view s).total ∧
        ((volView fs p).view s').free = ((volView fs p).view s).free) s := by
  intro h
  obtain ⟨r, s', hm, hr⟩ := h _ _ _ 0 twoGroups_mounted twoGroups_solid twoGroups_consistent
  have hrun : ((ext2DefragOne twoGroups.fs 0 twoGroups.state).map fun r =>
      (r.1, Bytes.le16 (r.2.blk.disk twoGroups.fs.dev) 2060)) = some (1, 2) := by decide +kernel
  rw [hm, Option.map_some, Option.some.injEq, Prod.mk.injEq] at hrun
  have hfree := congrFun (hr hrun.1).2 0
  have hafter : ((volView twoGroups.fs twoGroups.plan).view s').free 0 = 2 := hrun.2
  have hbefore : ((volView twoGroups.fs twoGroups.plan).view twoGroups.state).free 0 = 0 := by
    decide
  rw [hafter, hbefore] at hfree
  cases hfree

end Ext2

end CoolFrost
