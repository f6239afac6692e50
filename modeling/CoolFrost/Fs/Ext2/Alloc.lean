import CoolFrost.Fs.Ext2.Volume
import CoolFrost.Lib.LongestRun

/-!
# ext2: taking and giving back blocks and inodes

What the functions of the driver that change the books do to a volume.
-/

namespace CoolFrost

open Program

namespace Ext2

open LongestRun

variable {fs : Ext2Fs} {p : Plan} {d d' : Bytes} {nodes : ℕ → Ext2Node} {n : ℕ} {v : Vol}

/-! ## Writing the books back -/

/-- A drive with other counters in the superblock. -/
def superAdjusted (fs : Ext2Fs) (d : Bytes) (blocksDelta inodesDelta : ℤ) : Bytes :=
  Bytes.put32 (Bytes.put32 d (superAddr fs + 12)
      (u32add (Bytes.le32 d (superAddr fs + 12)) blocksDelta))
    (superAddr fs + 16) (u32add (Bytes.le32 d (superAddr fs + 16)) inodesDelta)

lemma u32add_lt (x : ℕ) (delta : ℤ) : u32add x delta < 2 ^ 32 := by
  unfold u32add
  omega

lemma u32add_zero {x : ℕ} (h : x < 2 ^ 32) : u32add x 0 = x := by
  unfold u32add
  omega

lemma u32add_add (x : ℕ) (a b : ℤ) : u32add (u32add x a) b = u32add x (a + b) := by
  unfold u32add
  omega

lemma raw_blkRead (lba count : ℕ) {w : Image} : Returns fs (io (blkRead fs.dev lba count)) w
    (some (Bytes.clip (count % 256 * 512) (Bytes.shift w.disk (lba * 512)))) := by
  rintro s hs rfl
  rw [io, wp_zoom, wp_blkRead hs]
  exact ⟨hs, rfl, rfl⟩

lemma raw_blkWrite (lba count : ℕ) (buf : Bytes) {w : Image} :
    (ext2View fs).wp (io (blkWrite fs.dev lba count buf)) (fun _ w' =>
      w' = { w with disk := Bytes.blit w.disk (lba * 512) buf (count % 256 * 512) }) w := by
  rintro s hs rfl
  rw [io, wp_zoom, wp_blkWrite hs]
  exact ⟨hs, by simp only [ext2View, writeSectors, Function.update_self]⟩

lemma raw_sbAdjustFree (blocksDelta inodesDelta : ℤ) {w : Image} :
    (ext2View fs).wp (sbAdjustFree fs blocksDelta inodesDelta) (fun _ w' =>
      w' = { w with disk := superAdjusted fs w.disk blocksDelta inodesDelta }) w := by
  refine (raw_blkRead _ _).bind (View.wp_bind (raw_blkWrite _ _ _) ?_)
  rintro _ w' rfl
  refine View.wp_pure ?_
  -- the two sectors are read, two fields of them are changed and they are written back
  have hsb : ∀ x y, Bytes.blit w.disk ((fs.partLba + 2) * 512)
      (Bytes.put32 (Bytes.put32 (Bytes.clip (2 % 256 * 512) (Bytes.shift w.disk
        ((fs.partLba + 2) * 512))) 12 x) 16 y) (2 % 256 * 512) =
      Bytes.put32 (Bytes.put32 w.disk (superAddr fs + 12) x) (superAddr fs + 16) y := by
    intro x y
    rw [Bytes.put32, Bytes.blit_inside (by norm_num), Bytes.put32,
      Bytes.blit_readModify (by norm_num)]
    rfl
  have hblocks : Bytes.le32 (Bytes.clip (2 % 256 * 512) (Bytes.shift w.disk
      ((fs.partLba + 2) * 512))) 12 = Bytes.le32 w.disk (superAddr fs + 12) := by
    rw [Bytes.le32_clip (by norm_num), Bytes.le32_shift, superAddr]
  have hinodes : ∀ x, Bytes.le32 (Bytes.put32 (Bytes.clip (2 % 256 * 512) (Bytes.shift w.disk
      ((fs.partLba + 2) * 512))) 12 x) 16 = Bytes.le32 w.disk (superAddr fs + 16) := by
    intro x
    rw [Bytes.put32, Bytes.le32_blit_of_disjoint (by norm_num), Bytes.le32_clip (by norm_num),
      Bytes.le32_shift, superAddr]
  rw [hsb, hblocks, hinodes, superAdjusted]

/-- A bitmap, a counter of its group and the counters of the superblock. -/
lemma raw_commitBitmap (hl : Layout fs) {g f x bm : ℕ} {buf : Bytes} (hg : GroupIn fs g)
    (hf : f + 2 ≤ 32) (hbm : descEnd fs ≤ bm) (blocksDelta inodesDelta : ℤ) {w : Image} :
    (ext2View fs).wp (commitBitmap fs bm buf (locateBgd fs g).1
        (Bytes.put16 (blockOn fs w.disk (locateBgd fs g).1) ((locateBgd fs g).2 + f) x)
        blocksDelta inodesDelta) (fun ok w' => ok = true ∧
      w' = { w with disk := superAdjusted fs (Bytes.put16 (Bytes.blit w.disk (blockAddr fs bm) buf
        fs.blockSize) (descAddr fs g + f) x) blocksDelta inodesDelta }) w := by
  obtain ⟨haddr, hoff⟩ := locateBgd_eq hl hg.1
  have hlt := locateBgd_lt hl hg
  refine View.wp_bind (raw_writeBlock hl _ _) ?_
  rintro _ w' ⟨rfl, rfl⟩
  refine View.wp_ite (fun _ => ?_) fun h => absurd rfl h
  refine View.wp_bind (raw_writeBlock hl _ _) ?_
  rintro _ w' ⟨rfl, rfl⟩
  refine View.wp_ite (fun _ => ?_) fun h => absurd rfl h
  refine View.wp_bind (raw_sbAdjustFree _ _) ?_
  rintro _ w' rfl
  refine View.wp_pure ⟨rfl, ?_⟩
  -- the descriptors are not in the bitmap, so the old ones were written back with one field changed
  have hblk := blockAddr_lt hl (hlt.trans_le hbm)
  have hself : Bytes.blit (Bytes.blit w.disk (blockAddr fs bm) buf fs.blockSize)
      (blockAddr fs (locateBgd fs g).1) (blockOn fs w.disk (locateBgd fs g).1) fs.blockSize =
        Bytes.blit w.disk (blockAddr fs bm) buf fs.blockSize := by
    refine Bytes.blit_self fun i hi => ?_
    rw [blockOn_eq hl, Bytes.clip_of_lt hi, Bytes.blit_of_not_mem (by omega), Bytes.shift]
  simp only [Image.mk.injEq, and_true]
  rw [Bytes.put16, Bytes.blit_inside (by omega), hself, ← Nat.add_assoc, haddr, Bytes.put16]

lemma volOn_super (hl : Layout fs) (hp : p.Fits fs) (blocksDelta inodesDelta : ℤ) :
    volOn fs p (superAdjusted fs d blocksDelta inodesDelta) nodes n =
        { volOn fs p d nodes n with
          total := u32add (volOn fs p d nodes n).total blocksDelta
          totalInodes := u32add (volOn fs p d nodes n).totalInodes inodesDelta } ∧
      (Planned fs p d → Planned fs p (superAdjusted fs d blocksDelta inodesDelta)) := by
  have hoff : ∀ x, AgreeOff fs p .total d (Bytes.put32 d (superAddr fs + 12) x) :=
    fun x i hi => Bytes.blit_of_not_mem hi
  have hoff' : ∀ d x, AgreeOff fs p .totalInodes d (Bytes.put32 d (superAddr fs + 16) x) :=
    fun d x i hi => Bytes.blit_of_not_mem hi
  refine ⟨?_, fun hd => ?_⟩
  · rw [superAdjusted, volOn_totalInodes hl hp (hoff' _ _), volOn_total hl hp (hoff _),
      Bytes.le32_put32_self, Bytes.le32_put32_self, Nat.mod_eq_of_lt (u32add_lt _ _),
      Nat.mod_eq_of_lt (u32add_lt _ _)]
    rfl
  · exact (hoff' _ _).planned hl hp trivial ((hoff _).planned hl hp trivial hd)

/-- Another block bitmap and another counter of free blocks of a group. -/
lemma volOn_group (hl : Layout fs) (hp : p.Fits fs) {g x : ℕ} (hg : GroupIn fs g) (buf : Bytes) :
    volOn fs p (Bytes.put16 (Bytes.blit d (blockAddr fs (p.bitmap g)) buf fs.blockSize)
        (descAddr fs g + 12) x) nodes n =
        { volOn fs p d nodes n with
          used := fun b => if InVolume fs b ∧ groupOf fs b = g then bitAt buf (bitOf fs b)
            else (volOn fs p d nodes n).used b
          free := Function.update (volOn fs p d nodes n).free g (x % 65536) } ∧
      (Planned fs p d → Planned fs p (Bytes.put16 (Bytes.blit d (blockAddr fs (p.bitmap g)) buf
        fs.blockSize) (descAddr fs g + 12) x)) := by
  have hoff : AgreeOff fs p (.bitmap g) d
      (Bytes.blit d (blockAddr fs (p.bitmap g)) buf fs.blockSize) :=
    fun i hi => Bytes.blit_of_not_mem hi
  have hoff' : ∀ d, AgreeOff fs p (.free g) d (Bytes.put16 d (descAddr fs g + 12) x) :=
    fun d i hi => Bytes.blit_of_not_mem hi
  refine ⟨?_, fun hd => ?_⟩
  · rw [volOn_free hl hp hg (hoff' _), volOn_bitmap hl hp hg hoff, Bytes.le16_put16_self]
    refine Vol.ext (funext fun b => ?_) rfl rfl rfl rfl rfl rfl rfl rfl
    simp only
    split_ifs with hb
    · have hlt := bitOf_lt_bits hl b
      have hbit := @bitAt_congr buf (Bytes.blit d (blockAddr fs (p.bitmap g)) buf fs.blockSize) 0
        (blockAddr fs (p.bitmap g)) (bitOf fs b)
        (by rw [Bytes.blit_of_mem (by omega), Nat.add_sub_cancel_left, Nat.zero_add])
      rw [hbit, Nat.mul_zero, Nat.zero_add]
    · rfl
  · have hβ : (Book.free g).In fs := hg
    have hβ' : (Book.bitmap g).In fs := hg
    exact (hoff' _).planned hl hp hβ (hoff.planned hl hp hβ' hd)

/-- Another inode bitmap and another counter of free inodes of a group. -/
lemma volOn_inodeGroup (hl : Layout fs) (hp : p.Fits fs) {g x : ℕ} (hg : GroupIn fs g)
    (buf : Bytes) :
    volOn fs p (Bytes.put16 (Bytes.blit d (blockAddr fs (p.inodeBitmap g)) buf fs.blockSize)
        (descAddr fs g + 14) x) nodes n =
        { volOn fs p d nodes n with
          inodeUsed := fun i => if InodeIn fs i ∧ inodeGroup fs i = g then bitAt buf (inodeBit fs i)
            else (volOn fs p d nodes n).inodeUsed i
          freeInodes := Function.update (volOn fs p d nodes n).freeInodes g (x % 65536) } ∧
      (Planned fs p d → Planned fs p (Bytes.put16 (Bytes.blit d (blockAddr fs (p.inodeBitmap g)) buf
        fs.blockSize) (descAddr fs g + 14) x)) := by
  have hoff : AgreeOff fs p (.inodeBitmap g) d
      (Bytes.blit d (blockAddr fs (p.inodeBitmap g)) buf fs.blockSize) :=
    fun i hi => Bytes.blit_of_not_mem hi
  have hoff' : ∀ d, AgreeOff fs p (.freeInodes g) d (Bytes.put16 d (descAddr fs g + 14) x) :=
    fun d i hi => Bytes.blit_of_not_mem hi
  refine ⟨?_, fun hd => ?_⟩
  · rw [volOn_freeInodes hl hp hg (hoff' _), volOn_inodeBitmap hl hp hg hoff,
      Bytes.le16_put16_self]
    refine Vol.ext rfl rfl rfl (funext fun i => ?_) rfl rfl rfl rfl rfl
    simp only
    split_ifs with hb
    · have hlt := inodeBit_lt_bits hl i
      have hbit := @bitAt_congr buf
        (Bytes.blit d (blockAddr fs (p.inodeBitmap g)) buf fs.blockSize) 0
        (blockAddr fs (p.inodeBitmap g)) (inodeBit fs i)
        (by rw [Bytes.blit_of_mem (by omega), Nat.add_sub_cancel_left, Nat.zero_add])
      rw [hbit, Nat.mul_zero, Nat.zero_add]
    · rfl
  · have hβ : (Book.freeInodes g).In fs := hg
    have hβ' : (Book.inodeBitmap g).In fs := hg
    exact (hoff' _).planned hl hp hβ (hoff.planned hl hp hβ' hd)

/-! ## Bits of a bitmap -/

lemma findClear_none {b : Bytes} {n k : ℕ} (h : findClear b n k = none) :
    ∀ j, k ≤ j → j < k + n → bitAt b j = true := by
  induction n generalizing k with
  | zero => intro j hlo hhi; omega
  | succ n ih =>
    intro j hlo hhi
    rw [findClear] at h
    split_ifs at h with hk
    rcases Nat.eq_or_lt_of_le hlo with rfl | hlt
    · exact hk
    · exact ih h j hlt (by omega)

lemma findClear_some {b : Bytes} {n k j : ℕ} (h : findClear b n k = some j) :
    k ≤ j ∧ j < k + n ∧ bitAt b j = false := by
  induction n generalizing k with
  | zero => cases h
  | succ n ih =>
    rw [findClear] at h
    split_ifs at h with hk
    · obtain ⟨hlo, hhi, hj⟩ := ih h
      exact ⟨by omega, by omega, hj⟩
    · cases h
      exact ⟨le_rfl, by omega, by simpa using hk⟩

lemma bitAt_setBits (b : Bytes) (n k j : ℕ) :
    bitAt (setBits b n k) j = if k ≤ j ∧ j < k + n then true else bitAt b j := by
  induction n generalizing b k with
  | zero => rw [setBits, if_neg (by omega)]
  | succ n ih =>
    rw [setBits, ih, bitAt_setBit]
    split_ifs <;> first | rfl | omega

/-! ## Taking and giving back blocks -/

/-- `x + delta` in 16-bit arithmetic. -/
def u16add (x : ℕ) (delta : ℤ) : ℕ := (((x : ℤ) + delta) % 65536).toNat

lemma u16add_zero {x : ℕ} (h : x < 65536) : u16add x 0 = x := by
  unfold u16add
  omega

lemma u16add_add (x : ℕ) (a b : ℤ) : u16add (u16add x a) b = u16add x (a + b) := by
  unfold u16add
  omega

lemma u16add_lt (x : ℕ) (delta : ℤ) : u16add x delta < 65536 := by
  unfold u16add
  omega

/-- The `len` blocks from `start` on, which are blocks of the group `g`, are taken. -/
def Vol.takeRun (g start len : ℕ) (v : Vol) : Vol :=
  { v with
    used := fun b => if start ≤ b ∧ b < start + len then true else v.used b
    free := Function.update v.free g (u16add (v.free g) (-len))
    total := u32add v.total (-len) }

/-- One block is taken. -/
def Vol.take (fs : Ext2Fs) (b : ℕ) (v : Vol) : Vol := v.takeRun (groupOf fs b) b 1

/-- One block is given back. -/
def Vol.give (fs : Ext2Fs) (b : ℕ) (v : Vol) : Vol :=
  { v with
    used := Function.update v.used b false
    free := Function.update v.free (groupOf fs b) (u16add (v.free (groupOf fs b)) 1)
    total := u32add v.total 1 }

/-- The bitmap of a group is written anew, and its counter is changed. -/
def Vol.remap (fs : Ext2Fs) (g : ℕ) (bits : ℕ → Bool) (delta : ℤ) (v : Vol) : Vol :=
  { v with
    used := fun b => if InVolume fs b ∧ groupOf fs b = g then bits (bitOf fs b) else v.used b
    free := Function.update v.free g (u16add (v.free g) delta)
    total := u32add v.total delta }

/-- The block can be allocated. -/
def Available (fs : Ext2Fs) (v : Vol) (b : ℕ) : Prop :=
  InVolume fs b ∧ v.used b = false ∧ v.free (groupOf fs b) ≠ 0

/-- The bitmap of a group, as the code reads it. -/
def bitmapOn (fs : Ext2Fs) (d : Bytes) (g : ℕ) : Bytes :=
  blockOn fs d (bgBlockBitmap (blockOn fs d (locateBgd fs g).1) (locateBgd fs g).2)

lemma desc_free (hl : Layout fs) (hv : volOn fs p d v.nodes v.nodesUsed = v) {g : ℕ}
    (hg : GroupIn fs g) :
    bgFreeBlocksCount (blockOn fs d (locateBgd fs g).1) (locateBgd fs g).2 = v.free g := by
  rw [bgFreeBlocksCount, desc_le16 hl d hg.1 (by norm_num), ← hv]
  exact (if_pos hg).symm

lemma desc_bitmap (hl : Layout fs) (hd : Planned fs p d) {g : ℕ} (hg : GroupIn fs g) :
    bgBlockBitmap (blockOn fs d (locateBgd fs g).1) (locateBgd fs g).2 = p.bitmap g := by
  have h := desc_le32 hl d hg.1 (show 0 + 4 ≤ 32 by norm_num)
  rw [Nat.add_zero, Nat.add_zero, (hd g hg).1] at h
  exact h

/-- The bits of a group's bitmap are those of its blocks. -/
lemma bitmapOn_bit (hl : Layout fs) (hd : Planned fs p d)
    (hv : volOn fs p d v.nodes v.nodesUsed = v) {b : ℕ} (hb : InVolume fs b) :
    bitAt (bitmapOn fs d (groupOf fs b)) (bitOf fs b) = v.used b := by
  rw [bitmapOn, desc_bitmap hl hd (groupIn_groupOf hl hb), blockOn_eq hl,
    bitAt_read (bitOf_lt_bits hl b), ← hv]
  exact (if_pos hb).symm

/-- The bits that the code looks at in a group are those of blocks. -/
lemma inVolume_blockNo (hl : Layout fs) {g k : ℕ} (hg : g < fs.groupsCount)
    (hk : k < (groupRange fs g).2) :
    InVolume fs (blockNo fs g k) ∧ groupOf fs (blockNo fs g k) = g ∧
      bitOf fs (blockNo fs g k) = k ∧ u32 ((groupRange fs g).1 + k) = blockNo fs g k := by
  obtain ⟨hstart, hcount⟩ := groupRange_eq hl hg
  have hlt : fs.blocksCount < 2 ^ 32 := hl.blocksCount.trans_lt hl.blocks
  obtain ⟨hgroup, hbit⟩ := @groupOf_blockNo fs g k (by omega)
  refine ⟨⟨?_, ?_⟩, hgroup, hbit, ?_⟩
  · unfold blockNo
    omega
  · unfold blockNo
    omega
  · rw [hstart, u32, Nat.mod_eq_of_lt (by omega), blockNo]

/-- The drive after a bitmap has been written anew: the counter in the field `f` of the descriptor
of its group and the counters of the superblock have changed too. -/
def commitOn (fs : Ext2Fs) (d : Bytes) (bm g f : ℕ) (buf : Bytes)
    (delta blocksDelta inodesDelta : ℤ) :
    Bytes :=
  superAdjusted fs (Bytes.put16 (Bytes.blit d (blockAddr fs bm) buf fs.blockSize)
    (descAddr fs g + f)
    (u16add (Bytes.le16 d (descAddr fs g + f)) delta)) blocksDelta inodesDelta

lemma raw_commitBlocks (hl : Layout fs) (hp : p.Fits fs) (hd : Planned fs p d) {g : ℕ}
    (hg : GroupIn fs g) (buf : Bytes) (delta : ℤ) (hv : volOn fs p d v.nodes v.nodesUsed = v) :
    (ext2View fs).wp (commitBitmap fs (p.bitmap g) buf (locateBgd fs g).1
        (bgAddFreeBlocks (blockOn fs d (locateBgd fs g).1) (locateBgd fs g).2 delta) delta 0)
      (fun ok w => Planned fs p w.disk ∧ ok = true ∧
        volOn fs p w.disk w.nodes w.used = v.remap fs g (bitAt buf) delta ∧
        w.disk = commitOn fs d (p.bitmap g) g 12 buf delta delta 0)
      ⟨d, v.nodes, v.nodesUsed⟩ := by
  have hraw := @raw_commitBitmap fs hl g 12
    (u16add (bgFreeBlocksCount (blockOn fs d (locateBgd fs g).1) (locateBgd fs g).2) delta)
    (p.bitmap g) buf hg (by norm_num) (hp.range (.bitmap g) hg).1 delta 0
    ⟨d, v.nodes, v.nodesUsed⟩
  refine View.wp_mono hraw ?_
  rintro ok w ⟨rfl, rfl⟩
  obtain ⟨hgroup, hplan⟩ := @volOn_group fs p d v.nodes v.nodesUsed hl hp g
    (u16add (bgFreeBlocksCount (blockOn fs d (locateBgd fs g).1) (locateBgd fs g).2) delta) hg buf
  obtain ⟨hsuper, hplan'⟩ := @volOn_super fs p (Bytes.put16 (Bytes.blit d
    (blockAddr fs (p.bitmap g)) buf fs.blockSize) (descAddr fs g + 12) (u16add (bgFreeBlocksCount
      (blockOn fs d (locateBgd fs g).1) (locateBgd fs g).2) delta))
        v.nodes v.nodesUsed hl hp delta 0
  refine ⟨hplan' (hplan hd), rfl, ?_, ?_⟩
  swap
  · rw [commitOn, ← desc_le16 hl d hg.1 (by norm_num)]
    rfl
  have htotal : v.totalInodes < 2 ^ 32 := by
    have heq := congrArg Vol.totalInodes hv
    rw [← heq]
    exact Bytes.le32_lt d (superAddr fs + 16)
  refine hsuper.trans ?_
  rw [hgroup, hv, desc_free hl hv hg, u32add_zero htotal, Nat.mod_eq_of_lt (u16add_lt _ _)]
  rfl

/-- Setting the bits of a run takes its blocks. -/
lemma remap_setBits (hl : Layout fs) (hd : Planned fs p d)
    (hv : volOn fs p d v.nodes v.nodesUsed = v) {g k len : ℕ} (hg : g < fs.groupsCount)
    (hk : k + len ≤ (groupRange fs g).2) :
    v.remap fs g (bitAt (setBits (bitmapOn fs d g) len k)) (-len) =
      v.takeRun g (blockNo fs g k) len := by
  refine Vol.ext (funext fun b => ?_) rfl rfl rfl rfl rfl rfl rfl rfl
  simp only [Vol.remap, Vol.takeRun]
  have hrun : ∀ j, k ≤ j → j < k + len → InVolume fs (blockNo fs g j) ∧
      groupOf fs (blockNo fs g j) = g ∧ bitOf fs (blockNo fs g j) = j := fun j hlo hhi => by
    obtain ⟨hin, hgroup, hbit, -⟩ := inVolume_blockNo hl hg (show j < (groupRange fs g).2 by omega)
    exact ⟨hin, hgroup, hbit⟩
  by_cases hb : InVolume fs b ∧ groupOf fs b = g
  · have hno := blockNo_groupOf hb.1
    rw [if_pos hb, bitAt_setBits, ← hb.2, bitmapOn_bit hl hd hv hb.1, hb.2]
    rw [hb.2] at hno
    refine if_congr ?_ rfl rfl
    unfold blockNo at hno ⊢
    omega
  · have hout : ¬(blockNo fs g k ≤ b ∧ b < blockNo fs g k + len) := fun hmem => by
      obtain ⟨hin, hgroup, -⟩ := hrun (b - blockNo fs g 0) (by unfold blockNo at hmem ⊢; omega)
        (by unfold blockNo at hmem ⊢; omega)
      have hb' : blockNo fs g (b - blockNo fs g 0) = b := by
        unfold blockNo at hmem ⊢
        omega
      rw [hb'] at hin hgroup
      exact hb ⟨hin, hgroup⟩
    rw [if_neg hb, if_neg hout]

/-- What the code finds in a group, and how it leaves it. -/
lemma raw_group (hl : Layout fs) (hp : p.Fits fs) (hd : Planned fs p d)
    (hv : volOn fs p d v.nodes v.nodesUsed = v) (g : ℕ) :
    ∃ blk off, locateBgd fs g = (blk, off) ∧
      (GroupIn fs g → bgFreeBlocksCount (blockOn fs d blk) off = v.free g) ∧
      (GroupIn fs g → bgBlockBitmap (blockOn fs d blk) off = p.bitmap g) ∧
      blockOn fs d (bgBlockBitmap (blockOn fs d blk) off) = bitmapOn fs d g ∧
      (GroupIn fs g → ∀ buf delta,
        (ext2View fs).wp (commitBitmap fs (p.bitmap g) buf blk
            (bgAddFreeBlocks (blockOn fs d blk) off delta) delta 0)
          (fun ok w => Planned fs p w.disk ∧ ok = true ∧
            volOn fs p w.disk w.nodes w.used = v.remap fs g (bitAt buf) delta ∧
            w.disk = commitOn fs d (p.bitmap g) g 12 buf delta delta 0)
          ⟨d, v.nodes, v.nodesUsed⟩) := by
  exact ⟨_, _, rfl, desc_free hl hv, desc_bitmap hl hd, rfl, fun hgin buf delta =>
    raw_commitBlocks hl hp hd hgin buf delta hv⟩

/-- A clear bit that the code finds is a block that it can take. -/
lemma available_blockNo (hl : Layout fs) (hd : Planned fs p d)
    (hv : volOn fs p d v.nodes v.nodesUsed = v) {g k : ℕ} (hg : g < fs.groupsCount)
    (hk : k < (groupRange fs g).2) (hclear : bitAt (bitmapOn fs d g) k = false)
    (hfree : v.free g ≠ 0) : Available fs v (blockNo fs g k) := by
  obtain ⟨hin, hgroup, hbit, -⟩ := inVolume_blockNo hl hg hk
  have h := bitmapOn_bit hl hd hv hin
  rw [hgroup, hbit, hclear] at h
  exact ⟨hin, h.symm, by rwa [hgroup]⟩

/-- The block has a bit among those that the code looks at. -/
lemma bitOf_lt_range (hl : Layout fs) {b : ℕ} (hb : InVolume fs b) :
    bitOf fs b < (groupRange fs (groupOf fs b)).2 := by
  have hcount := (groupRange_eq hl (groupIn_groupOf hl hb).1).2
  have hlt := bitOf_lt hl b
  have hno := blockNo_groupOf hb
  have hlast := hb.2
  unfold blockNo at hno
  omega

lemma Layout.groups_lt (hl : Layout fs) : fs.groupsCount < loopFuel := by
  have := hl.descriptors
  unfold loopFuel
  omega

/-- The drive after the block `b` has been taken. -/
def takeOn (fs : Ext2Fs) (p : Plan) (d : Bytes) (b : ℕ) : Bytes :=
  commitOn fs d (p.bitmap (groupOf fs b)) (groupOf fs b) 12
    (setBit (bitmapOn fs d (groupOf fs b)) (bitOf fs b)) (-1) (-1) 0

/-- What the allocation of one block comes to. -/
def BlockTaken (fs : Ext2Fs) (p : Plan) (v : Vol) (d : Bytes) (r : ℕ) (w : Image) : Prop :=
  Planned fs p w.disk ∧ ((r = 0 ∧ w = ⟨d, v.nodes, v.nodesUsed⟩ ∧ ∀ b, ¬Available fs v b) ∨
    (r ≠ 0 ∧ Available fs v r ∧ volOn fs p w.disk w.nodes w.used = v.take fs r ∧
      w.disk = takeOn fs p d r))

/-- `alloc_block` takes a block that can be allocated, if there is one. -/
lemma raw_allocBlock (hl : Layout fs) (hp : p.Fits fs) (hd : Planned fs p d)
    (hv : volOn fs p d v.nodes v.nodesUsed = v) (h0 : v.used 0 = true) :
    (ext2View fs).wp (allocBlock fs) (BlockTaken fs p v d) ⟨d, v.nodes, v.nodesUsed⟩ := by
  -- no group before the current one has a block to give
  refine View.wp_iter (fun g w => w = ⟨d, v.nodes, v.nodesUsed⟩ ∧
    ∀ b, Available fs v b → g ≤ groupOf fs b)
    (fun g _ => fs.groupsCount - g) (fun g w hI => ?_) ⟨rfl, fun _ _ => Nat.zero_le _⟩
    ((Nat.sub_le _ _).trans_lt hl.groups_lt)
  obtain ⟨rfl, hskip⟩ := hI
  refine View.wp_ite (fun hg => ?_) fun hg => View.wp_pure ⟨hd, .inl ⟨rfl, rfl, fun b hb =>
    hg ((hskip b hb).trans_lt (groupIn_groupOf hl hb.1).1)⟩⟩
  have hnext : (∀ b, Available fs v b → groupOf fs b ≠ g) →
      ((⟨d, v.nodes, v.nodesUsed⟩ : Image) = ⟨d, v.nodes, v.nodesUsed⟩ ∧
        ∀ b, Available fs v b → g + 1 ≤ groupOf fs b) ∧
        fs.groupsCount - (g + 1) < fs.groupsCount - g := fun hne =>
    ⟨⟨rfl, fun b hb => Nat.lt_of_le_of_ne (hskip b hb) (hne b hb).symm⟩, by omega⟩
  obtain ⟨blk, off, hdesc, hfree, hbitmap, hread, hcommit⟩ := raw_group hl hp hd hv g
  rw [hdesc]
  refine (returns_readBlock _).bind (View.wp_ite (fun h => ?_) fun h => ?_)
  · exact View.wp_pure (hnext fun b hb hbg => hb.2.2 (by
      rw [hbg, ← hfree (hbg ▸ groupIn_groupOf hl hb.1)]
      exact h))
  refine (returns_readBlock _).bind ?_
  simp only
  rw [hread]
  cases hf : findClear (bitmapOn fs d g) (groupRange fs g).2 0 with
  | none =>
    refine View.wp_pure (hnext fun b hb hbg => ?_)
    have hrange := bitOf_lt_range hl hb.1
    have hbit := bitmapOn_bit hl hd hv hb.1
    rw [hb.2.1] at hbit
    rw [hbg] at hrange hbit
    rw [findClear_none hf (bitOf fs b) (Nat.zero_le _) (by omega)] at hbit
    cases hbit
  | some k =>
    obtain ⟨-, hk, hclear⟩ := findClear_some hf
    rw [Nat.zero_add] at hk
    obtain ⟨hin, hgroup, hbit, hno⟩ := inVolume_blockNo hl hg hk
    have hgin : GroupIn fs g := hgroup ▸ groupIn_groupOf hl hin
    have hav := available_blockNo hl hd hv hg hk hclear (by rw [← hfree hgin]; exact h)
    simp only
    rw [hbitmap hgin]
    refine View.wp_bind (hcommit hgin _ (-1)) ?_
    rintro _ w ⟨hplan, rfl, hw, hdisk⟩
    refine View.wp_ite (fun _ => View.wp_pure ?_) fun h => absurd rfl h
    rw [hno]
    refine ⟨hplan, .inr ⟨fun hzero => ?_, hav, ?_, ?_⟩⟩
    · have hused := hav.2.1
      rw [hzero, h0] at hused
      cases hused
    · rw [hw, Vol.take, hgroup]
      exact @remap_setBits fs p d v hl hd hv g k 1 hg (by omega)
    · rw [hdisk, takeOn, hgroup, hbit]

lemma vol_allocBlock (hl : Layout fs) (hp : p.Fits fs) (h0 : v.used 0 = true) :
    (volView fs p).wp (allocBlock fs) (fun r v' =>
      (r = 0 ∧ v' = v ∧ ∀ b, ¬Available fs v b) ∨
        (r ≠ 0 ∧ Available fs v r ∧ v' = v.take fs r)) v := by
  refine vol_of_raw fun d hd hv => View.wp_mono (raw_allocBlock hl hp hd hv h0) ?_
  rintro r w ⟨hplan, ⟨hr, rfl, hno⟩ | ⟨hr, hav, hw, -⟩⟩
  · exact ⟨hplan, .inl ⟨hr, hv, hno⟩⟩
  · exact ⟨hplan, .inr ⟨hr, hav, hw⟩⟩

/-- The attempt to take one block succeeds exactly when the block can be allocated. -/
lemma raw_takeGoal (hl : Layout fs) (hp : p.Fits fs) (hd : Planned fs p d)
    (hv : volOn fs p d v.nodes v.nodesUsed = v) (b : ℕ) :
    (ext2View fs).wp (takeGoal fs b) (fun r w => Planned fs p w.disk ∧
      ((r = false ∧ w = ⟨d, v.nodes, v.nodesUsed⟩ ∧ ¬Available fs v b) ∨
        (r = true ∧ Available fs v b ∧ volOn fs p w.disk w.nodes w.used = v.take fs b ∧
          w.disk = takeOn fs p d b))) ⟨d, v.nodes, v.nodesUsed⟩ := by
  refine View.wp_ite (fun hb => ?_) fun hb => View.wp_pure ⟨hd, .inl ⟨rfl, rfl, fun h => hb h.1⟩⟩
  have hg := groupIn_groupOf hl hb
  obtain ⟨blk, off, hdesc, hfree, hbitmap, hread, hcommit⟩ := raw_group hl hp hd hv (groupOf fs b)
  have hbit := bitmapOn_bit hl hd hv hb
  rw [← groupOf, ← bitOf]
  extract_lets
  rw [hdesc]
  refine (returns_readBlock _).bind (View.wp_ite (fun h => ?_) fun h => ?_)
  · exact View.wp_pure ⟨hd, .inl ⟨rfl, rfl, fun hav => hav.2.2 (by
      rw [← hfree hg]
      exact h)⟩⟩
  refine (returns_readBlock _).bind ?_
  simp only
  rw [hread, hbitmap hg]
  refine View.wp_ite (fun hset => ?_) fun hclear => ?_
  · refine View.wp_pure ⟨hd, .inl ⟨rfl, rfl, fun hav => ?_⟩⟩
    rw [hbit, hav.2.1] at hset
    cases hset
  · refine View.wp_mono (hcommit hg _ (-1)) ?_
    rintro _ w ⟨hplan, rfl, hw, hdisk⟩
    have hused : v.used b = false := by
      rw [← hbit]
      exact Bool.eq_false_of_not_eq_true hclear
    refine ⟨hplan, .inr ⟨rfl, ⟨hb, hused, by rw [← hfree hg]; exact h⟩, ?_, hdisk⟩⟩
    rw [hw, Vol.take]
    conv_rhs => rw [← blockNo_groupOf hb, (groupOf_blockNo (bitOf_lt hl b)).1]
    exact @remap_setBits fs p d v hl hd hv _ (bitOf fs b) 1 hg.1 (bitOf_lt_range hl hb)

/-- `alloc_block_near` takes a block that can be allocated, if there is one, and the goal if that
can be. -/
lemma raw_allocBlockNear (hl : Layout fs) (hp : p.Fits fs) (hd : Planned fs p d)
    (hv : volOn fs p d v.nodes v.nodesUsed = v) (h0 : v.used 0 = true) (goal : ℕ) :
    (ext2View fs).wp (allocBlockNear fs goal) (fun r w =>
      BlockTaken fs p v d r w ∧ (Available fs v goal → r = goal)) ⟨d, v.nodes, v.nodesUsed⟩ := by
  refine View.wp_bind (raw_takeGoal hl hp hd hv goal) ?_
  rintro r w ⟨hplan, ⟨rfl, rfl, hno⟩ | ⟨rfl, hav, hw, hdisk⟩⟩
  · exact View.wp_ite (fun h => by cases h) fun _ =>
      View.wp_mono (raw_allocBlock hl hp hd hv h0) fun _ _ h => ⟨h, fun hav => absurd hav hno⟩
  · refine View.wp_ite (fun _ => View.wp_pure ⟨⟨hplan, .inr ⟨fun h => ?_, hav, hw, hdisk⟩⟩,
      fun _ => rfl⟩) fun h => absurd rfl h
    have hused := hav.2.1
    rw [h, h0] at hused
    cases hused

lemma vol_allocBlockNear (hl : Layout fs) (hp : p.Fits fs) (h0 : v.used 0 = true) (goal : ℕ) :
    (volView fs p).wp (allocBlockNear fs goal) (fun r v' =>
      (r = 0 ∧ v' = v ∧ ∀ b, ¬Available fs v b) ∨
        (r ≠ 0 ∧ Available fs v r ∧ v' = v.take fs r)) v := by
  refine vol_of_raw fun d hd hv => View.wp_mono (raw_allocBlockNear hl hp hd hv h0 goal) ?_
  rintro r w ⟨⟨hplan, ⟨hr, rfl, hno⟩ | ⟨hr, hav, hw, -⟩⟩, -⟩
  · exact ⟨hplan, .inl ⟨hr, hv, hno⟩⟩
  · exact ⟨hplan, .inr ⟨hr, hav, hw⟩⟩

/-- Clearing a bit gives its block back. -/
lemma remap_clearBit (hl : Layout fs) (hd : Planned fs p d)
    (hv : volOn fs p d v.nodes v.nodesUsed = v) {b : ℕ} (hb : InVolume fs b) :
    v.remap fs (groupOf fs b) (bitAt (clearBit (bitmapOn fs d (groupOf fs b)) (bitOf fs b))) 1 =
      v.give fs b := by
  refine Vol.ext (funext fun b' => ?_) rfl rfl rfl rfl rfl rfl rfl rfl
  simp only [Vol.remap, Vol.give]
  by_cases hb' : InVolume fs b' ∧ groupOf fs b' = groupOf fs b
  · have hbit := bitmapOn_bit hl hd hv hb'.1
    rw [hb'.2] at hbit
    rw [if_pos hb', bitAt_clearBit, hbit]
    by_cases heq : b' = b
    · rw [heq, if_pos rfl, Function.update_self]
    · have hne : bitOf fs b' ≠ bitOf fs b := fun h => heq (by
        rw [← blockNo_groupOf hb, ← blockNo_groupOf hb'.1, hb'.2, h])
      rw [if_neg hne, Function.update_of_ne heq]
  · have heq : b' ≠ b := fun h => hb' (by rw [h]; exact ⟨hb, rfl⟩)
    rw [if_neg hb', Function.update_of_ne heq]

/-- `free_block` gives a block back. -/
lemma vol_freeBlock (hl : Layout fs) (hp : p.Fits fs) {b : ℕ} (hb : InVolume fs b) :
    (volView fs p).wp (freeBlock fs b) (fun r v' => r = true ∧ v' = v.give fs b) v := by
  refine vol_of_raw fun d hd hv => ?_
  have hg := groupIn_groupOf hl hb
  have hsub : u32sub b fs.firstDataBlock = b - fs.firstDataBlock := by
    have hlt : fs.blocksCount < 2 ^ 32 := hl.blocksCount.trans_lt hl.blocks
    have hlo := hb.1
    have hhi := hb.2
    unfold u32sub u32
    omega
  obtain ⟨blk, off, hdesc, -, hbitmap, hread, hcommit⟩ := raw_group hl hp hd hv (groupOf fs b)
  unfold freeBlock
  rw [hsub, ← groupOf, ← bitOf]
  extract_lets
  rw [hdesc]
  refine (returns_readBlock _).bind ((returns_readBlock _).bind ?_)
  simp only
  rw [hread, hbitmap hg]
  refine View.wp_mono (hcommit hg _ 1) ?_
  rintro _ w ⟨hplan, rfl, hw, -⟩
  exact ⟨hplan, rfl, by rw [hw, remap_clearBit hl hd hv hb]⟩

/-! ## Runs of blocks -/

/-- The search of a group for a run, when it is at the bit `bit`: it knows the length of the run
that ends there and a longest one of those it has met. -/
structure BitRun.Ok (P : ℕ → Prop) (bit : ℕ) (r : BitRun) : Prop where
  measured : Measured P 0 bit 0 r.runLen r.bestLen
  run : r.runLen ≠ 0 → r.runStart + r.runLen = bit
  best : r.bestLen ≠ 0 → RunIn P 0 bit r.bestStart r.bestLen

lemma BitRun.Ok.init (P : ℕ → Prop) : (⟨0, 0, 0, 0⟩ : BitRun).Ok P 0 :=
  ⟨.start P 0 0, fun h => absurd rfl h, fun h => absurd rfl h⟩

lemma BitRun.Ok.next {P : ℕ → Prop} {bit : ℕ} {r : BitRun} (h : r.Ok P bit) (hbit : P bit) :
    (r.clear bit).Ok P (bit + 1) := by
  obtain ⟨hm, hrun, hbest⟩ := h
  -- the run that ends behind the bit
  obtain ⟨start, hstart⟩ : ∃ start, start = if r.runLen = 0 then bit else r.runStart := ⟨_, rfl⟩
  have hend : start + (r.runLen + 1) = bit + 1 := by
    split_ifs at hstart with h0
    · omega
    · have := hrun h0
      omega
  have hnext := hm.hit hbit
  unfold BitRun.clear
  rw [← hstart]
  simp only
  split_ifs with hlt
  · rw [Nat.max_eq_right hlt.le] at hnext
    refine ⟨hnext, fun _ => hend, fun _ => ⟨Nat.zero_le _, hend.le, fun i hlo hhi => ?_⟩⟩
    simp only at hlo hhi
    exact hnext.tail.all i (by omega) (by omega)
  · rw [Nat.max_eq_left (Nat.le_of_not_lt hlt)] at hnext
    exact ⟨hnext, fun _ => hend, fun h => (hbest h).mono le_rfl (Nat.le_succ bit)⟩

lemma BitRun.Ok.skip {P : ℕ → Prop} {bit : ℕ} {r : BitRun} (h : r.Ok P bit) (hbit : ¬P bit) :
    ({ r with runLen := 0 } : BitRun).Ok P (bit + 1) :=
  ⟨h.measured.miss hbit, fun h => absurd rfl h, fun h0 => (h.best h0).mono le_rfl (Nat.le_succ bit)⟩

/-- The search goes through all bits unless it finds what is wanted. -/
lemma searchBits_ok {b : Bytes} {want n bit : ℕ} {r : BitRun} (h : r.Ok (bitAt b · = false) bit) :
    ∃ bit' ≤ bit + n, (searchBits b want n bit r).Ok (bitAt b · = false) bit' ∧
      ((searchBits b want n bit r).bestLen < want → bit' = bit + n) := by
  induction n generalizing bit r with
  | zero => exact ⟨bit, le_rfl, h, fun _ => rfl⟩
  | succ n ih =>
    rw [searchBits]
    split_ifs with hset
    · obtain ⟨bit', hle, hok, hall⟩ := ih (h.skip (by simp [hset]))
      exact ⟨bit', by omega, hok, fun hz => by have := hall hz; omega⟩
    · have hok := h.next (by simpa using hset)
      extract_lets r'
      split_ifs with hdone
      · exact ⟨bit + 1, by omega, hok, fun hz => by omega⟩
      · obtain ⟨bit', hle, hok', hall⟩ := ih hok
        exact ⟨bit', by omega, hok', fun hz => by have := hall hz; omega⟩

/-- The length of the longest run of blocks of a group that can be allocated. -/
noncomputable def groupLongest (fs : Ext2Fs) (v : Vol) (g : ℕ) : ℕ :=
  longest (fun k => Available fs v (blockNo fs g k)) 0
    (min fs.blocksPerGroup (fs.blocksCount - blockNo fs g 0))

/-- The same for the first group that has such a block, and 0 if there is none. -/
noncomputable def firstRun (fs : Ext2Fs) (v : Vol) : ℕ :=
  (((List.range fs.groupsCount).map (groupLongest fs v)).find? (· ≠ 0)).getD 0

lemma firstRun_eq {g : ℕ} (hg : g < fs.groupsCount) (h : groupLongest fs v g ≠ 0)
    (hbefore : ∀ g' < g, groupLongest fs v g' = 0) : firstRun fs v = groupLongest fs v g := by
  have hfind : (List.range fs.groupsCount).find? (fun g => decide (groupLongest fs v g ≠ 0)) =
      some g := by
    refine List.find?_range_eq_some.mpr ⟨by simpa using h, List.mem_range.mpr hg, fun g' hg' => ?_⟩
    simpa using hbefore g' hg'
  rw [firstRun, List.find?_map]
  simp only [Function.comp_def, hfind, Option.map_some, Option.getD_some]

lemma firstRun_eq_zero (h : ∀ g < fs.groupsCount, groupLongest fs v g = 0) : firstRun fs v = 0 := by
  have hfind : (List.range fs.groupsCount).find? (fun g => decide (groupLongest fs v g ≠ 0)) =
      none := by
    refine List.find?_eq_none.mpr fun g hg => ?_
    simpa using h g (List.mem_range.mp hg)
  rw [firstRun, List.find?_map]
  simp only [Function.comp_def, hfind, Option.map_none, Option.getD_none]

/-- What `alloc_block_run` comes to: it takes as much as is wanted of a longest run in the first
group that has something to give. -/
structure RunTaken (fs : Ext2Fs) (want : ℕ) (v : Vol) (r : ℕ × ℕ) (v' : Vol) : Prop where
  len : r.2 = min want (firstRun fs v)
  none : firstRun fs v = 0 → r.1 = 0 ∧ v' = v
  run : firstRun fs v ≠ 0 → r.1 ≠ 0 ∧ ∃ g < fs.groupsCount, v' = v.takeRun g r.1 r.2 ∧
    ∀ i < r.2, Available fs v (r.1 + i) ∧ groupOf fs (r.1 + i) = g

/-- The bits of a group that has free blocks say which of them can be allocated. -/
lemma available_iff_bit (hl : Layout fs) (hd : Planned fs p d)
    (hv : volOn fs p d v.nodes v.nodesUsed = v) {g k : ℕ} (hg : g < fs.groupsCount)
    (hk : k < (groupRange fs g).2) (hfree : v.free g ≠ 0) :
    Available fs v (blockNo fs g k) ↔ bitAt (bitmapOn fs d g) k = false := by
  obtain ⟨hin, hgroup, hbit, -⟩ := inVolume_blockNo hl hg hk
  have h := bitmapOn_bit hl hd hv hin
  rw [hgroup, hbit] at h
  rw [h]
  exact ⟨fun hav => hav.2.1, fun hu => ⟨hin, hu, by rwa [hgroup]⟩⟩

/-- `alloc_block_run` takes a run in the first group that has a free block. -/
lemma vol_allocBlockRun (hl : Layout fs) (hp : p.Fits fs) (h0 : v.used 0 = true) {want : ℕ}
    (hwant : 0 < want) :
    (volView fs p).wp (allocBlockRun fs want) (RunTaken fs want v) v := by
  unfold allocBlockRun
  extract_lets wanted
  have hwanted : wanted = want := if_neg (by omega)
  rw [hwanted]
  refine View.wp_iter (fun g v' => v' = v ∧ ∀ g' < g, groupLongest fs v g' = 0)
    (fun g _ => fs.groupsCount - g) (fun g v' hI => ?_) ⟨rfl, fun _ h =>
      absurd h (Nat.not_lt_zero _)⟩
    ((Nat.sub_le _ _).trans_lt hl.groups_lt)
  obtain ⟨rfl, hskip⟩ := hI
  refine View.wp_ite (fun hg => ?_) fun hg => ?_
  swap
  · have hzero := @firstRun_eq_zero fs v' fun g' hg' => hskip g' (by omega)
    exact View.wp_pure ⟨by rw [hzero, Nat.min_zero], fun _ => ⟨rfl, rfl⟩, fun h => absurd hzero h⟩
  refine vol_of_raw fun d hd hv => ?_
  have hnext : groupLongest fs v' g = 0 → Planned fs p d ∧
      (volOn fs p d v'.nodes v'.nodesUsed = v' ∧ ∀ g' < g + 1, groupLongest fs v' g' = 0) ∧
        fs.groupsCount - (g + 1) < fs.groupsCount - g := fun hzero =>
    ⟨hd, ⟨hv, fun g' hg' => (Nat.lt_succ_iff_lt_or_eq.mp hg').elim (hskip g') fun h => h ▸ hzero⟩,
      by omega⟩
  obtain ⟨blk, off, hdesc, hfree, hbitmap, hread, hcommit⟩ := raw_group hl hp hd hv g
  obtain ⟨hstart, hcount⟩ := groupRange_eq hl hg
  have hnone : (∀ k < (groupRange fs g).2, ¬Available fs v' (blockNo fs g k)) →
      groupLongest fs v' g = 0 := fun hno =>
    longest_eq_zero_iff.mpr fun k _ hk => hno k (by rw [hcount]; exact hk)
  rw [hdesc]
  refine (returns_readBlock _).bind (View.wp_ite (fun h => ?_) fun h => ?_)
  · refine View.wp_pure (hnext (hnone fun k hk hav => hav.2.2 ?_))
    obtain ⟨hin, hgroup, -⟩ := inVolume_blockNo hl hg hk
    rw [hgroup, ← hfree (hgroup ▸ groupIn_groupOf hl hin)]
    exact h
  refine (returns_readBlock _).bind ?_
  obtain ⟨start, count, hrange⟩ : ∃ start count, groupRange fs g = (start, count) := ⟨_, _, rfl⟩
  have hrange2 : (groupRange fs g).2 = count := by rw [hrange]
  simp only
  rw [hread, hrange]
  obtain ⟨bit, hle, hok, hall⟩ :=
    @searchBits_ok (bitmapOn fs d g) want count 0 _ (BitRun.Ok.init _)
  generalize searchBits (bitmapOn fs d g) want count 0 ⟨0, 0, 0, 0⟩ = r at hok hall ⊢
  rw [Nat.zero_add] at hle hall
  have hmin := hok.measured.min_eq hle hall
  rw [Nat.zero_max] at hmin
  -- the group has blocks, or no bit of it was looked at
  have hbits : groupLongest fs v' g = longest (bitAt (bitmapOn fs d g) · = false) 0 count := by
    rw [groupLongest, ← hrange2, hcount]
    refine longest_congr fun k _ hk => ?_
    have hk' : k < (groupRange fs g).2 := by
      rw [hcount]
      exact hk
    obtain ⟨hin, hgroup, -⟩ := inVolume_blockNo hl hg hk'
    have hgin : GroupIn fs g := hgroup ▸ groupIn_groupOf hl hin
    exact available_iff_bit hl hd hv hg hk' (by rw [← hfree hgin]; exact h)
  rw [← hbits] at hmin
  refine View.wp_ite (fun hz => ?_) fun hz => ?_
  · refine View.wp_pure (hnext ?_)
    rw [hz] at hmin
    omega
  have hbest := hok.best hz
  have hend := hbest.end_le
  obtain ⟨hin, hgroup, -, hno⟩ :=
    inVolume_blockNo hl hg (show r.bestStart < (groupRange fs g).2 by omega)
  have hgin : GroupIn fs g := hgroup ▸ groupIn_groupOf hl hin
  rw [hrange] at hno
  simp only at hno
  have hadd : ∀ i, blockNo fs g (r.bestStart + i) = blockNo fs g r.bestStart + i := fun i => by
    unfold blockNo
    omega
  have hmem : ∀ i < min r.bestLen want, Available fs v' (blockNo fs g r.bestStart + i) ∧
      groupOf fs (blockNo fs g r.bestStart + i) = g := fun i hi => by
    have hk : r.bestStart + i < (groupRange fs g).2 := by omega
    rw [← hadd]
    exact ⟨(available_iff_bit hl hd hv hg hk (by rw [← hfree hgin]; exact h)).mpr
      (hbest.all _ (by omega) (by omega)), (inVolume_blockNo hl hg hk).2.1⟩
  have hpos : groupLongest fs v' g ≠ 0 := fun h => by
    rw [h] at hmin
    omega
  have hfirst := firstRun_eq hg hpos hskip
  simp only
  rw [hbitmap hgin]
  refine View.wp_bind (hcommit hgin _ _) ?_
  rintro _ w' ⟨hplan, rfl, hw', -⟩
  refine View.wp_ite (fun _ => View.wp_pure ?_) fun h => absurd rfl h
  rw [hno]
  refine ⟨hplan, ?_, fun h => absurd h (by rw [hfirst]; exact hpos), fun _ =>
    ⟨fun hzero => ?_, g, hg, ?_, hmem⟩⟩
  · rw [hfirst, ← hmin, Nat.min_comm]
  · have hused := (hmem 0 (by omega)).1.2.1
    simp only at hzero
    rw [Nat.add_zero, hzero, h0] at hused
    cases hused
  · rw [hw', remap_setBits hl hd hv hg (by omega)]

end Ext2

end CoolFrost
