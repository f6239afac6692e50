import CoolFrost.Fs.Ext2.Growth

/-!
# ext2: small volumes with one file

A volume with blocks of 1024 bytes: the superblock in block 1 and the group descriptors in block 2.
Each group keeps its two bitmaps and its 16 inodes in its blocks 2 to 5.  Inode 12 is a file with
some of the other blocks as its direct blocks; the rest is free.
-/

namespace CoolFrost

namespace Ext2

/-- A volume with one file: the number of its groups and of the blocks in a group, the number of its
blocks, the blocks of the file and its size. -/
structure OneFile where
  groups : ℕ
  perGroup : ℕ
  count : ℕ
  blocks : List ℕ
  size : ℕ

namespace OneFile

variable (V : OneFile)

/-- The mounted volume. -/
def fs : Ext2Fs where
  dev := ⟨0, 0⟩
  partLba := 0
  blockSize := 1024
  sectorsPerBlock := 2
  inodesPerGroup := 16
  blocksPerGroup := V.perGroup
  inodeSize := 128
  firstDataBlock := 1
  groupsCount := V.groups
  blocksCount := V.count
  inodesCount := 16 * V.groups
  firstIno := 11
  writeSupported := true

/-- Where its bitmaps and its inode tables are. -/
def plan : Plan :=
  ⟨fun g => blockNo V.fs g 2, fun g => blockNo V.fs g 3, fun g => blockNo V.fs g 4⟩

/-- The block is in use. -/
def isUsed (b : ℕ) : Bool := bitOf V.fs b < 6 || V.blocks.contains b

/-- The number of free blocks in a range. -/
def free (start len : ℕ) : ℕ :=
  ((List.range V.count).filter fun b => start ≤ b ∧ b < start + len ∧ V.isUsed b = false).length

/-- A byte of the descriptor of a group. -/
def descriptor (g off : ℕ) : UInt8 :=
  if off < 4 then Bytes.ofNat (V.plan.bitmap g) off
  else if off < 8 then Bytes.ofNat (V.plan.inodeBitmap g) (off - 4)
  else if off < 12 then Bytes.ofNat (V.plan.inodeTable g) (off - 8)
  else if off < 14 then Bytes.ofNat (V.free (blockNo V.fs g 0) V.perGroup) (off - 12)
  else 0

/-- A byte of the block bitmap of a group. -/
def bitmap (g j : ℕ) : UInt8 :=
  UInt8.ofNat (((List.range 8).filter fun k =>
    V.isUsed (blockNo V.fs g (8 * j + k))).map (2 ^ ·)).sum

/-- A byte of the inode of the file. -/
def inode (i : ℕ) : UInt8 :=
  if i = 1 then 0x80
  else if i < 4 then 0
  else if i < 8 then Bytes.ofNat V.size (i - 4)
  else if 40 ≤ i ∧ i < 100 then Bytes.ofNat (V.blocks.getD ((i - 40) / 4) 0) ((i - 40) % 4)
  else 0

/-- The bytes of the drive; a block that holds nothing else holds its number. -/
def drive : Bytes := fun i =>
  if i < 2048 then
    if 1036 ≤ i ∧ i < 1040 then Bytes.ofNat (V.free 1 (V.groups * V.perGroup)) (i - 1036) else 0
  else if i < 3072 then
    if (i - 2048) / 32 < V.groups then V.descriptor ((i - 2048) / 32) ((i - 2048) % 32) else 0
  else if bitOf V.fs (i / 1024) = 2 then V.bitmap (groupOf V.fs (i / 1024)) (i % 1024)
  else if bitOf V.fs (i / 1024) = 3 then
    if i = 4096 then 255 else if i = 4097 then 15 else 0
  else if bitOf V.fs (i / 1024) < 6 then
    if 6528 ≤ i ∧ i < 6656 then V.inode (i - 6528) else 0
  else UInt8.ofNat (i / 1024)

/-- The driver with the file as node 0. -/
def state : Ext2State where
  blk := ⟨fun _ => V.drive, fun _ => false, 0, []⟩
  fsPoolUsed := 1
  nodePool _ := ⟨[65], .file, V.size, 12, none, V.fs⟩
  nodePoolUsed := 1

/-- The numbers of the volume fit together. -/
structure Ok (V : OneFile) : Prop where
  groups : 0 < V.groups ∧ V.groups ≤ 32
  perGroup : 7 ≤ V.perGroup ∧ V.perGroup ≤ 8192
  count : (V.groups - 1) * V.perGroup + 7 ≤ V.count ∧ V.count ≤ 1 + V.groups * V.perGroup

variable {V}

/-- The first blocks of every group are in the volume. -/
lemma Ok.group_le (h : V.Ok) {g : ℕ} (hg : g < V.groups) : 1 + g * V.perGroup + 6 ≤ V.count := by
  have hmul := Nat.mul_le_mul_right V.perGroup (show g ≤ V.groups - 1 by omega)
  have hcount := h.count.1
  omega

lemma Ok.layout (h : V.Ok) : Layout V.fs := by
  have hgroups := h.groups
  have hper := h.perGroup
  have hmul : V.groups * V.perGroup ≤ 32 * 8192 := Nat.mul_le_mul hgroups.2 hper.2
  constructor
  case blocksPerGroup => exact ⟨by change 0 < V.perGroup; omega, hper.2⟩
  case blocks =>
    change 1 + V.groups * V.perGroup < 2 ^ 32
    omega
  case blocksCount => exact h.count.2
  case groupStart =>
    intro g hg
    have := h.group_le hg
    change 1 + g * V.perGroup ≤ V.count
    omega
  case inodes =>
    change V.groups * 16 < 2 ^ 32
    omega
  case inodesCount =>
    change 16 * V.groups ≤ V.groups * 16
    omega
  case inodeStart =>
    intro g hg
    have hg' : g < V.groups := hg
    change g * 16 ≤ 16 * V.groups
    omega
  case descriptors =>
    change V.groups * 32 < 2 ^ 32
    omega
  all_goals norm_num [fs]

lemma Ok.usedGroups_eq (h : V.Ok) : usedGroups V.fs = V.groups := by
  have hper := h.perGroup
  have hcount := h.count
  obtain ⟨k, hk⟩ : ∃ k, V.groups = k + 1 := ⟨V.groups - 1, by have := h.groups; omega⟩
  rw [hk, Nat.add_sub_cancel, Nat.add_mul, Nat.one_mul] at hcount
  change (V.count - 1 + V.perGroup - 1) / V.perGroup = V.groups
  rw [hk]
  refine Nat.div_eq_of_lt_le ?_ ?_
  · rw [Nat.add_mul, Nat.one_mul]
    omega
  · rw [Nat.add_mul, Nat.add_mul, Nat.one_mul]
    omega

lemma Ok.descEnd_eq (h : V.Ok) : descEnd V.fs = 3 := by
  have hgroups := h.groups
  have hdiv : (V.groups * 32 + 1024 - 1) / 1024 = 1 := by omega
  rw [descEnd, h.usedGroups_eq]
  simp only [fs]
  rw [hdiv]

lemma tableLen_eq : tableLen V.fs = 2 := by norm_num [tableLen, fs]

lemma Ok.groupIn (h : V.Ok) {g : ℕ} : GroupIn V.fs g ↔ g < V.groups := by
  refine ⟨fun hg => hg.1, fun hg => ⟨hg, ?_⟩⟩
  have := h.group_le hg
  change 1 + g * V.perGroup < V.count
  omega

/-- A bitmap or a part of an inode table is one of the first blocks of its group. -/
lemma Ok.at_eq (h : V.Ok) {m : Piece} (hm : m.In V.fs) :
    ∃ g k, g < V.groups ∧ 2 ≤ k ∧ k < 6 ∧ V.plan.at m = blockNo V.fs g k ∧
      m = if k = 2 then .bitmap g else if k = 3 then .inodeBitmap g else .table g (k - 4) := by
  cases m with
  | bitmap g => exact ⟨g, 2, h.groupIn.mp hm, le_rfl, by norm_num, rfl, rfl⟩
  | inodeBitmap g => exact ⟨g, 3, h.groupIn.mp hm, by norm_num, by norm_num, rfl, rfl⟩
  | table g k =>
    have hk := hm.2
    rw [tableLen_eq] at hk
    refine ⟨g, 4 + k, h.groupIn.mp hm.1, by omega, by omega, Nat.add_assoc _ _ _, ?_⟩
    rw [if_neg (by omega), if_neg (by omega), Nat.add_sub_cancel_left]

lemma Ok.fits (h : V.Ok) : V.plan.Fits V.fs where
  range m hm := by
    obtain ⟨g, k, hg, hlo, hhi, hat, -⟩ := h.at_eq hm
    have hle := h.group_le hg
    rw [h.descEnd_eq, hat]
    change 3 ≤ 1 + g * V.perGroup + k ∧ 1 + g * V.perGroup + k < V.count
    omega
  inj m m' hm hm' heq := by
    obtain ⟨g, k, -, -, hk, hat, hpiece⟩ := h.at_eq hm
    obtain ⟨g', k', -, -, hk', hat', hpiece'⟩ := h.at_eq hm'
    have hper := h.perGroup.1
    obtain ⟨hg, hb⟩ := @groupOf_blockNo V.fs g k (show k < V.perGroup by omega)
    obtain ⟨hg', hb'⟩ := @groupOf_blockNo V.fs g' k' (show k' < V.perGroup by omega)
    rw [hat, hat'] at heq
    rw [heq, hg'] at hg
    rw [heq, hb'] at hb
    rw [hpiece, hpiece', hg, hb]
  inodes n hn := by
    rw [h.groupIn]
    exact Nat.div_lt_of_lt_mul hn

/-- The descriptors say where the bitmaps and the inode tables are. -/
lemma Ok.planned (h : V.Ok) : Planned V.fs V.plan V.drive := by
  intro g hg
  have hgroups := h.groups
  have hper := h.perGroup
  have hlt : g < V.groups := h.groupIn.mp hg
  have hmul : g * V.perGroup ≤ 32 * 8192 := Nat.mul_le_mul (by omega) hper.2
  have haddr : descAddr V.fs g = 2048 + 32 * g := by norm_num [descAddr, blockAddr, fs]
  have hbyte : ∀ off < 32, V.drive (2048 + 32 * g + off) = V.descriptor g off := fun off hoff => by
    unfold drive
    rw [if_neg (by omega), if_pos (by omega), show (2048 + 32 * g + off - 2048) / 32 = g by omega,
      if_pos hlt, show (2048 + 32 * g + off - 2048) % 32 = off by omega]
  have hfield : ∀ k off, k < 6 → off + 4 ≤ 32 →
      (∀ i < 4, V.descriptor g (off + i) = Bytes.ofNat (blockNo V.fs g k) i) →
      Bytes.le32 V.drive (2048 + 32 * g + off) = blockNo V.fs g k := fun k off hk hoff heq => by
    have hno : blockNo V.fs g k < 2 ^ 32 := by
      change 1 + g * V.perGroup + k < 2 ^ 32
      omega
    rw [← Nat.mod_eq_of_lt hno, ← Bytes.le32_ofNat]
    refine Bytes.le32_congr fun i hi => ?_
    rw [Nat.add_assoc _ off, hbyte _ (by omega), heq i hi, Nat.zero_add]
  rw [haddr]
  refine ⟨hfield 2 0 (by norm_num) (by norm_num) fun i hi => ?_,
    hfield 3 4 (by norm_num) (by norm_num) fun i hi => ?_,
    hfield 4 8 (by norm_num) (by norm_num) fun i hi => ?_⟩
  · unfold descriptor
    rw [if_pos (by omega), Nat.zero_add]
    rfl
  · unfold descriptor
    rw [if_neg (by omega), if_pos (by omega), Nat.add_sub_cancel_left]
    rfl
  · unfold descriptor
    rw [if_neg (by omega), if_neg (by omega), if_pos (by omega), Nat.add_sub_cancel_left]
    rfl

lemma Ok.good (h : V.Ok) : (volView V.fs V.plan).good V.state := ⟨fun _ => rfl, h.planned⟩

/-- The volume in the driver. -/
noncomputable abbrev vol (V : OneFile) : Vol := (volView V.fs V.plan).view V.state

/-- The blocks in front of block 3 and the first blocks of every group are marked as in use. -/
lemma Ok.reserved (h : V.Ok) (hlow : ∀ b < 3, V.vol.used b = true)
    (hfirst : ∀ g < V.groups, ∀ k < 6, V.vol.used (blockNo V.fs g k) = true) :
    Reserved V.fs V.plan V.vol := by
  refine ⟨fun b hb => hlow b ?_, fun m hm => ?_⟩
  · rwa [h.descEnd_eq] at hb
  · obtain ⟨g, k, hg, -, hk, hat, -⟩ := h.at_eq hm
    rw [hat]
    exact hfirst g hg k hk

/-- The inode of the file on the drive. -/
lemma Ok.inodeIn_vol (h : V.Ok) {ino : ℕ} (hi : InodeIn V.fs ino) :
    inodeIn V.fs V.plan V.vol ino = inodeOn V.fs V.drive ino :=
  inodeIn_eq h.layout h.fits h.planned hi

end OneFile

end Ext2

end CoolFrost
