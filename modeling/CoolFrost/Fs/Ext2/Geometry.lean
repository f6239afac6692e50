import CoolFrost.Fs.Ext2.Blocks

/-!
# ext2: where a volume keeps its books

Two bitmaps for each block group, the counters of its group descriptor and those of the superblock
say which blocks and inodes are free.  This module says where on the drive they are, and that they
are apart from each other.
-/

namespace CoolFrost

namespace Ext2

/-! ## Bits -/

lemma bitAt_setBit (b : Bytes) (k j : ℕ) : bitAt (setBit b k) j = if j = k then true
    else bitAt b j := by
  unfold bitAt setBit Bytes.put8
  by_cases hbyte : j / 8 = k / 8
  · have hlt : (b (k / 8)).toNat ||| 2 ^ (k % 8) < 2 ^ 8 :=
      Nat.or_lt_two_pow (b (k / 8)).toNat_lt (Nat.pow_lt_pow_right (by omega) (by omega))
    rw [Bytes.blit_of_mem (by omega), hbyte, UInt8.toNat_ofNat', Nat.mod_eq_of_lt hlt,
      Nat.testBit_or, Nat.testBit_two_pow]
    by_cases hjk : j = k
    · simp [hjk]
    · have hbit : ¬k % 8 = j % 8 := by omega
      simp [hjk, hbit]
  · have hjk : j ≠ k := fun h => hbyte (by rw [h])
    rw [Bytes.blit_of_not_mem (by omega), if_neg hjk]

lemma bitAt_clearBit (b : Bytes) (k j : ℕ) :
    bitAt (clearBit b k) j = if j = k then false else bitAt b j := by
  unfold bitAt clearBit Bytes.put8
  by_cases hbyte : j / 8 = k / 8
  · have hlt : (b (k / 8)).toNat &&& (255 ^^^ 2 ^ (k % 8)) < 2 ^ 8 :=
      Nat.and_lt_two_pow _ (Nat.xor_lt_two_pow (by omega)
        (Nat.pow_lt_pow_right (by omega) (by omega)))
    have hones : Nat.testBit 255 (j % 8) = true := by
      rw [show 255 = 2 ^ 8 - 1 by norm_num, Nat.testBit_two_pow_sub_one]
      exact decide_eq_true (by omega)
    rw [Bytes.blit_of_mem (by omega), hbyte, UInt8.toNat_ofNat', Nat.mod_eq_of_lt hlt,
      Nat.testBit_and, Nat.testBit_xor, hones, Nat.testBit_two_pow]
    by_cases hjk : j = k
    · simp [hjk]
    · have hbit : ¬k % 8 = j % 8 := by omega
      simp [hjk, hbit]
  · have hjk : j ≠ k := fun h => hbyte (by rw [h])
    rw [Bytes.blit_of_not_mem (by omega), if_neg hjk]

/-- A bit depends on its byte only. -/
lemma bitAt_congr {b b' : Bytes} {a a' k : ℕ} (h : b' (a' + k / 8) = b (a + k / 8)) :
    bitAt b' (8 * a' + k) = bitAt b (8 * a + k) := by
  have hdiv : ∀ a, (8 * a + k) / 8 = a + k / 8 := fun a => by omega
  have hmod : ∀ a, (8 * a + k) % 8 = k % 8 := fun a => by omega
  rw [bitAt, bitAt, hdiv, hdiv, hmod, hmod, h]

/-- The bits of a bitmap that was read from the address `a`. -/
lemma bitAt_read {d : Bytes} {a n k : ℕ} (hk : k < 8 * n) :
    bitAt (Bytes.clip n (Bytes.shift d a)) k = bitAt d (8 * a + k) := by
  have h := @bitAt_congr d (Bytes.clip n (Bytes.shift d a)) a 0 k
    (by rw [Nat.zero_add, Bytes.clip_of_lt (by omega), Bytes.shift])
  rwa [Nat.mul_zero, Nat.zero_add] at h

/-- Reading a bitmap, changing one byte of it and writing it back. -/
lemma blit_put8 {d : Bytes} {a n k : ℕ} {x : UInt8} (hk : k < n) :
    Bytes.blit d a (Bytes.put8 (Bytes.clip n (Bytes.shift d a)) k x) n =
    Bytes.put8 d (a + k) x := by
  rw [Bytes.put8, Bytes.blit_readModify (by omega), Bytes.put8]

lemma blit_setBit {d : Bytes} {a n k : ℕ} (hk : k < 8 * n) :
    Bytes.blit d a (setBit (Bytes.clip n (Bytes.shift d a)) k) n = setBit d (8 * a + k) := by
  have hdiv : (8 * a + k) / 8 = a + k / 8 := by omega
  have hmod : (8 * a + k) % 8 = k % 8 := by omega
  rw [setBit, blit_put8 (by omega), Bytes.clip_of_lt (by omega), setBit, hdiv, hmod, Bytes.shift]

/-! ## The layout of a volume -/

/-- The numbers of a mounted volume fit together: blocks of 1024 to 4096 bytes, bitmaps of one
block, and numbers of blocks and inodes that 32 bits can hold. -/
structure Layout (fs : Ext2Fs) : Prop where
  spb : 2 ≤ fs.sectorsPerBlock ∧ fs.sectorsPerBlock ≤ 8
  blockSize : fs.blockSize = fs.sectorsPerBlock * 512
  /-- The superblock is in the block `first_data_block`. -/
  superblock : fs.firstDataBlock * fs.sectorsPerBlock ≤ 2 ∧
    4 ≤ (fs.firstDataBlock + 1) * fs.sectorsPerBlock
  blocksPerGroup : 0 < fs.blocksPerGroup ∧ fs.blocksPerGroup ≤ 8 * fs.blockSize
  inodesPerGroup : 0 < fs.inodesPerGroup ∧ fs.inodesPerGroup ≤ 8 * fs.blockSize
  blocks : fs.firstDataBlock + fs.groupsCount * fs.blocksPerGroup < 2 ^ 32
  blocksCount : fs.blocksCount ≤ fs.firstDataBlock + fs.groupsCount * fs.blocksPerGroup
  /-- No group starts behind the end. -/
  groupStart : ∀ g < fs.groupsCount, fs.firstDataBlock + g * fs.blocksPerGroup ≤ fs.blocksCount
  inodes : fs.groupsCount * fs.inodesPerGroup < 2 ^ 32
  inodesCount : fs.inodesCount ≤ fs.groupsCount * fs.inodesPerGroup
  inodeStart : ∀ g < fs.groupsCount, g * fs.inodesPerGroup ≤ fs.inodesCount
  descriptors : fs.groupsCount * 32 < 2 ^ 32
  inodeSize : 128 ≤ fs.inodeSize ∧ fs.inodeSize ∣ fs.blockSize

variable {fs : Ext2Fs}

/-- The address of a block on the drive. -/
def blockAddr (fs : Ext2Fs) (b : ℕ) : ℕ := (fs.partLba + b * fs.sectorsPerBlock) * 512

/-- The address of the descriptor of a group. -/
def descAddr (fs : Ext2Fs) (g : ℕ) : ℕ := blockAddr fs (fs.firstDataBlock + 1) + 32 * g

/-- The address of the superblock. -/
def superAddr (fs : Ext2Fs) : ℕ := (fs.partLba + 2) * 512

/-- The group `g` has blocks. -/
def GroupIn (fs : Ext2Fs) (g : ℕ) : Prop :=
  g < fs.groupsCount ∧ fs.firstDataBlock + g * fs.blocksPerGroup < fs.blocksCount

/-- The number of groups that have blocks; `ext2_mount` counts from block 0 and may find one
more. -/
def usedGroups (fs : Ext2Fs) : ℕ :=
  (fs.blocksCount - fs.firstDataBlock + fs.blocksPerGroup - 1) / fs.blocksPerGroup

/-- The first block behind the descriptors of these groups. -/
def descEnd (fs : Ext2Fs) : ℕ :=
  fs.firstDataBlock + 1 + (usedGroups fs * 32 + fs.blockSize - 1) / fs.blockSize

lemma descEnd_pos (fs : Ext2Fs) : 0 < descEnd fs := Nat.add_pos_left (Nat.succ_pos _) _

/-- The number of blocks of an inode table. -/
def tableLen (fs : Ext2Fs) : ℕ :=
  (fs.inodesPerGroup * fs.inodeSize + fs.blockSize - 1) / fs.blockSize

lemma Layout.blockSize_pos (hl : Layout fs) : 0 < fs.blockSize := by
  have := hl.spb.1
  rw [hl.blockSize]
  omega

lemma Layout.blockSize_le (hl : Layout fs) : 1024 ≤ fs.blockSize ∧ fs.blockSize ≤ 4096 := by
  have := hl.spb
  rw [hl.blockSize]
  omega

lemma blockAddr_eq (hl : Layout fs) (b : ℕ) :
    blockAddr fs b = fs.partLba * 512 + b * fs.blockSize := by
  rw [blockAddr, hl.blockSize, Nat.add_mul, Nat.mul_assoc]

/-- Blocks do not overlap. -/
lemma blockAddr_lt (hl : Layout fs) {b b' : ℕ} (h : b < b') :
    blockAddr fs b + fs.blockSize ≤ blockAddr fs b' := by
  rw [blockAddr_eq hl, blockAddr_eq hl, Nat.add_assoc, ← Nat.succ_mul]
  exact Nat.add_le_add_left (Nat.mul_le_mul_right _ h) _

lemma blockAddr_le (hl : Layout fs) {b b' : ℕ} (h : b ≤ b') : blockAddr fs b ≤ blockAddr fs b' := by
  rw [blockAddr_eq hl, blockAddr_eq hl]
  exact Nat.add_le_add_left (Nat.mul_le_mul_right _ h) _

/-- What is read from a block. -/
lemma blockOn_eq (hl : Layout fs) (d : Bytes) (b : ℕ) :
    blockOn fs d b = Bytes.clip fs.blockSize (Bytes.shift d (blockAddr fs b)) := by
  have hspb : fs.sectorsPerBlock % 256 = fs.sectorsPerBlock := Nat.mod_eq_of_lt (by
    have := hl.spb.2
    omega)
  rw [blockOn, hspb, ← hl.blockSize, blockAddr]

/-- The superblock is below the descriptors. -/
lemma superAddr_le (hl : Layout fs) :
    superAddr fs + 1024 ≤ blockAddr fs (fs.firstDataBlock + 1) := by
  have := hl.superblock.2
  rw [superAddr, blockAddr]
  omega

lemma GroupIn.lt_usedGroups (hl : Layout fs) {g : ℕ} (hg : GroupIn fs g) : g < usedGroups fs := by
  have hper := hl.blocksPerGroup.1
  have hin := hg.2
  have hle := Nat.div_le_div_right (c := fs.blocksPerGroup) (show g * fs.blocksPerGroup +
    fs.blocksPerGroup ≤ fs.blocksCount - fs.firstDataBlock + fs.blocksPerGroup - 1 by omega)
  rwa [Nat.add_div_right _ hper, Nat.mul_div_cancel _ hper] at hle

/-- The descriptors are between the superblock and the block `descEnd`. -/
lemma descAddr_le (hl : Layout fs) {g : ℕ} (hg : GroupIn fs g) :
    descAddr fs g + 32 ≤ blockAddr fs (descEnd fs) := by
  have hbs := hl.blockSize_pos
  have hlt := hg.lt_usedGroups hl
  obtain ⟨q, hq⟩ : ∃ q, q = (usedGroups fs * 32 + fs.blockSize - 1) / fs.blockSize := ⟨_, rfl⟩
  have hcover : usedGroups fs * 32 ≤ q * fs.blockSize := by
    have hdiv := Nat.div_add_mod' (usedGroups fs * 32 + fs.blockSize - 1) fs.blockSize
    have hmod := Nat.mod_lt (usedGroups fs * 32 + fs.blockSize - 1) hbs
    rw [← hq] at hdiv
    omega
  rw [descAddr, descEnd, ← hq, blockAddr_eq hl, blockAddr_eq hl, Nat.add_mul _ q]
  omega

/-- Where the code finds a descriptor is where `descAddr` says it is. -/
lemma locateBgd_eq (hl : Layout fs) {g : ℕ} (hg : g < fs.groupsCount) :
    blockAddr fs (locateBgd fs g).1 + (locateBgd fs g).2 = descAddr fs g ∧
      (locateBgd fs g).2 + 32 ≤ fs.blockSize := by
  have hbs := hl.blockSize_le
  have hdesc := hl.descriptors
  have hfirst : fs.firstDataBlock ≤ 1 := by
    have h := hl.superblock.1
    have h2 := hl.spb.1
    by_contra hgt
    have := Nat.mul_le_mul (show 2 ≤ fs.firstDataBlock by omega) h2
    omega
  have hbyte : u32 (g * 32) = 32 * g := by
    rw [u32, Nat.mod_eq_of_lt (by omega), Nat.mul_comm]
  have hdiv : 32 * g / fs.blockSize ≤ 32 * g / 1024 := Nat.div_le_div_left hbs.1 (by norm_num)
  have hblk : (locateBgd fs g).1 = fs.firstDataBlock + 1 + 32 * g / fs.blockSize := by
    unfold locateBgd
    simp only [hbyte]
    rw [u32, u32, Nat.mod_eq_of_lt (show fs.firstDataBlock + 1 < 2 ^ 32 by omega),
      Nat.mod_eq_of_lt]
    generalize 32 * g / fs.blockSize = q at hdiv ⊢
    omega
  have hoff : (locateBgd fs g).2 = 32 * g % fs.blockSize := by
    unfold locateBgd
    simp only [hbyte]
  rw [hblk, hoff]
  refine ⟨?_, ?_⟩
  · rw [descAddr, blockAddr_eq hl, blockAddr_eq hl, Nat.add_mul, Nat.add_assoc, Nat.add_assoc,
      Nat.div_add_mod', Nat.add_assoc]
  · -- both the offset and the block size are multiples of 32
    have hdvd : 32 ∣ fs.blockSize := by
      rw [hl.blockSize]
      exact Dvd.dvd.mul_left (by norm_num) _
    have hmod : 32 ∣ 32 * g % fs.blockSize :=
      (Nat.dvd_mod_iff hdvd).mpr (Nat.dvd_mul_right _ _)
    have hlt : 32 * g % fs.blockSize < fs.blockSize := Nat.mod_lt _ (by omega)
    omega

/-- The block of a descriptor is one in front of the block `descEnd`. -/
lemma locateBgd_lt (hl : Layout fs) {g : ℕ} (hg : GroupIn fs g) :
    (locateBgd fs g).1 < descEnd fs := by
  have haddr := (locateBgd_eq hl hg.1).1
  have hle := descAddr_le hl hg
  by_contra hge
  have := blockAddr_le hl (Nat.le_of_not_lt hge)
  omega

/-! ## Groups -/

/-- The block is one of the volume. -/
def InVolume (fs : Ext2Fs) (b : ℕ) : Prop := fs.firstDataBlock ≤ b ∧ b < fs.blocksCount

instance (fs : Ext2Fs) (g : ℕ) : Decidable (GroupIn fs g) := inferInstanceAs (Decidable (_ ∧ _))

instance (fs : Ext2Fs) (b : ℕ) : Decidable (InVolume fs b) := inferInstanceAs (Decidable (_ ∧ _))

/-- The group of a block, and its number in the group. -/
def groupOf (fs : Ext2Fs) (b : ℕ) : ℕ := (b - fs.firstDataBlock) / fs.blocksPerGroup

@[inherit_doc groupOf]
def bitOf (fs : Ext2Fs) (b : ℕ) : ℕ := (b - fs.firstDataBlock) % fs.blocksPerGroup

/-- The block number `k` of the group `g`. -/
def blockNo (fs : Ext2Fs) (g k : ℕ) : ℕ := fs.firstDataBlock + g * fs.blocksPerGroup + k

lemma blockNo_groupOf {b : ℕ} (h : InVolume fs b) : blockNo fs (groupOf fs b) (bitOf fs b) = b := by
  rw [blockNo, groupOf, bitOf, Nat.add_assoc, Nat.div_add_mod']
  exact Nat.add_sub_cancel' h.1

lemma groupOf_blockNo {g k : ℕ} (hk : k < fs.blocksPerGroup) :
    groupOf fs (blockNo fs g k) = g ∧ bitOf fs (blockNo fs g k) = k := by
  have hsub : blockNo fs g k - fs.firstDataBlock = k + fs.blocksPerGroup * g := by
    rw [blockNo, Nat.mul_comm]
    omega
  rw [groupOf, bitOf, hsub, Nat.add_mul_div_left _ _ (by omega), Nat.add_mul_mod_self_left,
    Nat.div_eq_of_lt hk, Nat.zero_add, Nat.mod_eq_of_lt hk]
  exact ⟨rfl, rfl⟩

lemma bitOf_lt (hl : Layout fs) (b : ℕ) : bitOf fs b < fs.blocksPerGroup :=
  Nat.mod_lt _ hl.blocksPerGroup.1

lemma bitOf_lt_bits (hl : Layout fs) (b : ℕ) : bitOf fs b < 8 * fs.blockSize :=
  (bitOf_lt hl b).trans_le hl.blocksPerGroup.2

/-- The group of a block of the volume. -/
lemma groupIn_groupOf (hl : Layout fs) {b : ℕ} (h : InVolume fs b) : GroupIn fs (groupOf fs b) := by
  have hb := blockNo_groupOf h
  have hcount := hl.blocksCount
  have hlast := h.2
  unfold blockNo at hb
  refine ⟨?_, by omega⟩
  by_contra hge
  have := Nat.mul_le_mul_right fs.blocksPerGroup (Nat.le_of_not_lt hge)
  omega

/-- The blocks that the code looks at in a group. -/
lemma groupRange_eq (hl : Layout fs) {g : ℕ} (hg : g < fs.groupsCount) :
    (groupRange fs g).1 = fs.firstDataBlock + g * fs.blocksPerGroup ∧
      (groupRange fs g).2 =
        min fs.blocksPerGroup (fs.blocksCount - (fs.firstDataBlock + g * fs.blocksPerGroup)) := by
  have hblocks := hl.blocks
  have hmul : (g + 1) * fs.blocksPerGroup ≤ fs.groupsCount * fs.blocksPerGroup :=
    Nat.mul_le_mul_right _ hg
  rw [Nat.add_mul, Nat.one_mul] at hmul
  have hstart : u32 (fs.firstDataBlock + g * fs.blocksPerGroup) =
      fs.firstDataBlock + g * fs.blocksPerGroup := Nat.mod_eq_of_lt (by omega)
  have hend : u32 (fs.firstDataBlock + g * fs.blocksPerGroup + fs.blocksPerGroup) =
      fs.firstDataBlock + g * fs.blocksPerGroup + fs.blocksPerGroup := Nat.mod_eq_of_lt (by omega)
  refine ⟨hstart, ?_⟩
  have hle := hl.groupStart g hg
  have hcount := hl.blocksCount
  unfold groupRange
  simp only [hstart, hend]
  split_ifs with hc
  · unfold u32sub u32
    omega
  · unfold u32sub u32
    omega

/-! ## The books -/

/-- Where a volume keeps the bitmaps and the inode tables of its groups. -/
structure Plan where
  bitmap : ℕ → ℕ
  inodeBitmap : ℕ → ℕ
  inodeTable : ℕ → ℕ

/-- A block that holds a bitmap or a part of an inode table. -/
inductive Piece where
  | bitmap (g : ℕ)
  | inodeBitmap (g : ℕ)
  | table (g k : ℕ)

/-- The number of the block. -/
def Plan.at (p : Plan) : Piece → ℕ
  | .bitmap g => p.bitmap g
  | .inodeBitmap g => p.inodeBitmap g
  | .table g k => p.inodeTable g + k

/-- The volume has that block. -/
def Piece.In (fs : Ext2Fs) : Piece → Prop
  | .bitmap g => GroupIn fs g
  | .inodeBitmap g => GroupIn fs g
  | .table g k => GroupIn fs g ∧ k < tableLen fs

/-- The bitmaps and the inode tables are different blocks behind the group descriptors. -/
structure Plan.Fits (fs : Ext2Fs) (p : Plan) : Prop where
  range : ∀ m : Piece, m.In fs → descEnd fs ≤ p.at m ∧ p.at m < fs.blocksCount
  inj : ∀ m m' : Piece, m.In fs → m'.In fs → p.at m = p.at m' → m = m'
  inodes : ∀ n < fs.inodesCount, GroupIn fs (n / fs.inodesPerGroup)

/-- A part of the books: a bitmap, a counter of a group or one of the superblock. -/
inductive Book where
  | bitmap (g : ℕ)
  | inodeBitmap (g : ℕ)
  | free (g : ℕ)
  | freeInodes (g : ℕ)
  | total
  | totalInodes

/-- The address of a part of the books. -/
def Book.addr (fs : Ext2Fs) (p : Plan) : Book → ℕ
  | .bitmap g => blockAddr fs (p.bitmap g)
  | .inodeBitmap g => blockAddr fs (p.inodeBitmap g)
  | .free g => descAddr fs g + 12
  | .freeInodes g => descAddr fs g + 14
  | .total => superAddr fs + 12
  | .totalInodes => superAddr fs + 16

/-- Its length. -/
def Book.len (fs : Ext2Fs) : Book → ℕ
  | .bitmap _ => fs.blockSize
  | .inodeBitmap _ => fs.blockSize
  | .free _ => 2
  | .freeInodes _ => 2
  | .total => 4
  | .totalInodes => 4

/-- The volume has that part. -/
def Book.In (fs : Ext2Fs) : Book → Prop
  | .bitmap g => GroupIn fs g
  | .inodeBitmap g => GroupIn fs g
  | .free g => GroupIn fs g
  | .freeInodes g => GroupIn fs g
  | .total => True
  | .totalInodes => True

variable {p : Plan}

/-- The block that a bitmap is. -/
def Book.piece : Book → Option Piece
  | .bitmap g => some (.bitmap g)
  | .inodeBitmap g => some (.inodeBitmap g)
  | _ => none

/-- Two blocks do not overlap. -/
lemma blockAddr_apart (hl : Layout fs) {b b' : ℕ} (h : b ≠ b') :
    blockAddr fs b + fs.blockSize ≤ blockAddr fs b' ∨
    blockAddr fs b' + fs.blockSize ≤ blockAddr fs b := by
  rcases Nat.lt_or_gt_of_ne h with h | h
  · exact .inl (blockAddr_lt hl h)
  · exact .inr (blockAddr_lt hl h)

/-- A bitmap takes a block. -/
lemma Book.of_piece {β : Book} {m : Piece} (h : β.piece = some m) :
    β.addr fs p = blockAddr fs (p.at m) ∧ β.len fs = fs.blockSize ∧ (β.In fs ↔ m.In fs) := by
  cases β with
  | bitmap g => cases h; exact ⟨rfl, rfl, Iff.rfl⟩
  | inodeBitmap g => cases h; exact ⟨rfl, rfl, Iff.rfl⟩
  | _ => cases h

lemma Book.piece_inj {β β' : Book} {m : Piece} (h : β.piece = some m) (h' : β'.piece = some m) :
    β = β' := by
  cases β with
  | bitmap g =>
    cases h
    cases β' <;> cases h'
    rfl
  | inodeBitmap g =>
    cases h
    cases β' <;> cases h'
    rfl
  | _ => cases h

/-- A bitmap is behind the descriptors. -/
lemma Book.high (hl : Layout fs) (hp : p.Fits fs) {β : Book} {m : Piece} (h : β.piece = some m)
    (hβ : β.In fs) : blockAddr fs (descEnd fs) ≤ β.addr fs p := by
  obtain ⟨haddr, -, hin⟩ := @Book.of_piece fs p β m h
  rw [haddr]
  exact blockAddr_le hl (hp.range m (hin.mp hβ)).1

/-- A counter is in the superblock or in the descriptors. -/
lemma Book.low (hl : Layout fs) {β : Book} (h : β.piece = none) (hβ : β.In fs) :
    β.addr fs p + β.len fs ≤ blockAddr fs (descEnd fs) := by
  have hsuper := superAddr_le hl
  have hlow : blockAddr fs (fs.firstDataBlock + 1) ≤ blockAddr fs (descEnd fs) :=
    blockAddr_le hl (Nat.le_add_right _ _)
  cases β with
  | bitmap g => cases h
  | inodeBitmap g => cases h
  | free g => have := descAddr_le hl hβ; simp only [Book.addr, Book.len]; omega
  | freeInodes g => have := descAddr_le hl hβ; simp only [Book.addr, Book.len]; omega
  | total => simp only [Book.addr, Book.len]; omega
  | totalInodes => simp only [Book.addr, Book.len]; omega

/-- The counters do not overlap. -/
lemma Book.counters_apart (hl : Layout fs) {β β' : Book} (h : β.piece = none) (h' : β'.piece = none)
    (hne : β ≠ β') :
    β.addr fs p + β.len fs ≤ β'.addr fs p ∨ β'.addr fs p + β'.len fs ≤ β.addr fs p := by
  have hsuper := superAddr_le hl
  have hbase : ∀ g, descAddr fs g = blockAddr fs (fs.firstDataBlock + 1) + 32 * g := fun _ => rfl
  cases β <;> cases β' <;> simp only [Book.piece, reduceCtorEq] at h h' <;>
    simp only [Book.addr, Book.len, hbase, ne_eq, Book.free.injEq, Book.freeInodes.injEq,
      not_true_eq_false, reduceCtorEq, not_false_eq_true] at hne ⊢ <;> omega

/-- The parts of the books do not overlap. -/
lemma Book.apart (hl : Layout fs) (hp : p.Fits fs) {β β' : Book} (h : β.In fs) (h' : β'.In fs)
    (hne : β ≠ β') :
    β.addr fs p + β.len fs ≤ β'.addr fs p ∨ β'.addr fs p + β'.len fs ≤ β.addr fs p := by
  cases hm : β.piece with
  | none =>
    cases hm' : β'.piece with
    | none => exact Book.counters_apart hl hm hm' hne
    | some m' =>
      have hlow := Book.low (p := p) hl hm h
      have hhigh := Book.high hl hp hm' h'
      exact .inl (hlow.trans hhigh)
  | some m =>
    cases hm' : β'.piece with
    | none =>
      have hlow := Book.low (p := p) hl hm' h'
      have hhigh := Book.high hl hp hm h
      exact .inr (hlow.trans hhigh)
    | some m' =>
      obtain ⟨haddr, hlen, hin⟩ := @Book.of_piece fs p β m hm
      obtain ⟨haddr', hlen', hin'⟩ := @Book.of_piece fs p β' m' hm'
      rw [haddr, haddr', hlen, hlen']
      refine blockAddr_apart hl fun heq => hne ?_
      rw [hp.inj m m' (hin.mp h) (hin'.mp h') heq] at hm
      exact Book.piece_inj hm hm'

end Ext2

end CoolFrost
