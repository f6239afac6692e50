import CoolFrost.Fs.Ext2.DirChanges
import CoolFrost.Fs.Ext2.OneFile

/-!
# ext2: small volumes with one directory

A volume of one group, laid out as those of `OneFile`.  Inode 12 is a directory with one block,
inode 13 is a file for its entries or another directory.
-/

namespace CoolFrost

namespace Ext2

section Single

variable {fs : Ext2Fs} {p : Plan} {v : Vol} {ino b : ℕ} {offs : List ℕ}

/-- A directory with one block. -/
lemma DirOn.single (hl : Layout fs) (hi : InodeIn fs ino)
    (hdir : isDirInode (inodeIn fs p v ino) = true) (hx : usesExtents (inodeIn fs p v ino) = false)
    (hsize : iSize (inodeIn fs p v ino) = fs.blockSize)
    (hblock : ∀ k < 13, iBlock (inodeIn fs p v ino) k = if k = 0 then b else 0)
    (hb : FileBlock fs p v b) (hcov : Covered fs.blockSize (blockIn fs v b) offs) :
    DirOn fs p v ino [(b, offs)] := by
  have hroot : iBlock (inodeIn fs p v ino) 12 = 0 := hblock 12 (by norm_num)
  -- the other blocks are not there
  have hmap : ∀ lb, mapOf fs v (inodeIn fs p v ino) lb = if lb = 0 then b else 0 := by
    intro lb
    unfold mapOf
    by_cases h12 : lb < 12
    · rw [if_pos h12, hblock lb (by omega)]
    · rw [if_neg h12, if_neg (by rw [hroot]; simp), if_neg (by omega)]
  have hptrs := ptrsPerBlock_bounds hl
  have hget : getBlockOn fs v.data (inodeIn fs p v ino) 0 = b := by
    rw [getBlockOn_data hl hx (by omega), hmap, if_pos rfl]
  have hfirst : ∀ lb, mapOf fs v (inodeIn fs p v ino) lb ≠ 0 →
      lb = 0 ∧ mapOf fs v (inodeIn fs p v ino) lb = b := by
    intro lb h0
    rw [hmap] at h0 ⊢
    split_ifs at h0 ⊢ with h
    · exact ⟨h, rfl⟩
    · exact absurd rfl h0
  constructor
  case toListed =>
    refine ⟨?_, fun i hi' => ?_, fun x hx' => ?_⟩
    · rw [hsize, List.length_singleton, Nat.one_mul]
    · obtain rfl : i = 0 := Nat.lt_one_iff.mp hi'
      exact hget
    · rw [List.mem_singleton.mp hx']
      exact ⟨hb.ne_zero, hcov⟩
  case inode => exact hi
  case isDir => exact hdir
  case file =>
    intro x hx'
    rw [List.mem_singleton.mp hx']
    exact hb
  case nodup => exact List.nodup_singleton _
  case path =>
    intro i hi' x hx'
    obtain rfl : i = 0 := Nat.lt_one_iff.mp hi'
    rw [mapPath_direct hx (by norm_num)] at hx'
    exact absurd hx' List.not_mem_nil
  case map =>
    refine fun _ => ⟨.inl hroot, fun lb h0 => ?_, fun lb h0 => ?_, fun lb lb' h0 heq => ?_⟩
    · rw [(hfirst lb h0).2]
      exact hb
    · rw [hroot]
      exact h0
    · exact (hfirst lb' (heq.trans_ne h0)).1.trans (hfirst lb h0).1.symm

/-- It has no other blocks. -/
lemma ownBlocks_single {inode : Bytes} (hx : usesExtents inode = false)
    (hblock : ∀ k < 15, iBlock inode k = if k = 0 then b else 0) : ownBlocks fs v inode ⊆ {b} := by
  have h12 : iBlock inode 12 = 0 := hblock 12 (by norm_num)
  have h13 : iBlock inode 13 = 0 := hblock 13 (by norm_num)
  have h14 : iBlock inode 14 = 0 := hblock 14 (by norm_num)
  rintro x ⟨h0, lb, -, hget | hpath⟩
  · by_cases hlow : lb < 12
    · have heq : getBlockOn fs v.data inode lb = iBlock inode lb := by simp [getBlockOn, hx, hlow]
      rw [heq, hblock lb (by omega)] at hget
      split_ifs at hget
      · exact hget.symm
      · exact absurd hget.symm h0
    · refine absurd hget.symm ?_
      simpa [getBlockOn, hx, hlow, h12, h13, h14, ptrOn] using h0
  · refine absurd hpath ?_
    simp [mapPath, hx, h12, h13, h14, ptrOn, ptrPath]

end Single

/-- A volume with a directory: the number of its blocks, the block of the directory, the other
blocks in use, the contents of the directory and of the blocks behind it, and the inode 13. -/
structure OneDir where
  count : ℕ
  block : ℕ
  others : List ℕ
  dir : Bytes
  file : Bytes

namespace OneDir

variable (V : OneDir)

/-- The volume without the directory. -/
def base : OneFile := ⟨1, 8192, V.count, V.block :: V.others, 1024⟩

/-- The mounted volume. -/
def fs : Ext2Fs := V.base.fs

/-- Where its bitmaps and its inode table are. -/
def plan : Plan := V.base.plan

/-- A byte of the inode of the directory. -/
def inode (i : ℕ) : UInt8 :=
  if i = 1 then 0x40
  else if i = 5 then 4
  else if i = 26 then 2
  else if 40 ≤ i ∧ i < 44 then Bytes.ofNat V.block (i - 40)
  else 0

/-- The bytes of the drive: 13 of the 16 inodes are in use. -/
def drive : Bytes := fun i =>
  if i = 1040 ∨ i = 2062 then 3
  else if i = 4097 then 31
  else if 6528 ≤ i ∧ i < 6656 then V.inode (i - 6528)
  else if 6656 ≤ i ∧ i < 6784 then V.file (i - 6656)
  else if V.block ≤ i / 1024 then V.dir (i - V.block * 1024)
  else V.base.drive i

/-- The driver with the directory and those of the next inodes as its nodes, `n` of which are
taken. -/
def state (n : ℕ) : Ext2State where
  blk := ⟨fun _ => V.drive, fun _ => false, 0, []⟩
  fsPoolUsed := 1
  nodePool i := ⟨[68], .directory, 1024, 12 + i, none, V.fs⟩
  nodePoolUsed := n

/-- The numbers of the volume fit together. -/
structure Ok (V : OneDir) : Prop where
  count : V.count ≤ 8193
  block : 7 ≤ V.block ∧ V.block < V.count

variable {V}

lemma Ok.base (h : V.Ok) : V.base.Ok := by
  have hcount := h.count
  have hblock := h.block
  constructor
  · exact ⟨Nat.one_pos, by change 1 ≤ 32; norm_num⟩
  · exact ⟨by change 7 ≤ 8192; norm_num, le_refl 8192⟩
  · change (1 - 1) * 8192 + 7 ≤ V.count ∧ V.count ≤ 1 + 1 * 8192
    omega

lemma Ok.layout (h : V.Ok) : Layout V.fs := h.base.layout

lemma Ok.fits (h : V.Ok) : V.plan.Fits V.fs := h.base.fits

/-- The descriptor says where the bitmaps and the inode table are. -/
lemma Ok.planned (h : V.Ok) : Planned V.fs V.plan V.drive := by
  refine h.base.planned.congr fun g hg i hi => ?_
  have hblock := h.block
  obtain rfl : g = 0 := Nat.lt_one_iff.mp (h.base.groupIn.mp hg)
  have haddr : descAddr V.base.fs 0 = 2048 := by norm_num [descAddr, blockAddr, OneFile.fs]
  rw [haddr]
  unfold drive
  rw [if_neg (by omega), if_neg (by omega), if_neg (by omega), if_neg (by omega), if_neg (by omega)]

lemma Ok.good (h : V.Ok) (n : ℕ) : (volView V.fs V.plan).good (V.state n) :=
  ⟨fun _ => rfl, h.planned⟩

/-- The volume in the driver. -/
noncomputable abbrev vol (V : OneDir) (n : ℕ) : Vol := (volView V.fs V.plan).view (V.state n)

variable {n : ℕ}

/-- The blocks in front of block 7 are marked as in use. -/
lemma Ok.reserved (h : V.Ok) (hlow : ∀ b < 7, (V.vol n).used b = true) :
    Reserved V.fs V.plan (V.vol n) := by
  refine ⟨fun b hb => hlow b ?_, fun m hm => ?_⟩
  · have heq : descEnd V.fs = 3 := h.base.descEnd_eq
    omega
  · obtain ⟨g, k, hg, -, hk, hat, -⟩ := h.base.at_eq hm
    obtain rfl : g = 0 := Nat.lt_one_iff.mp hg
    refine hlow _ ?_
    have heq : V.plan.at m = 1 + 0 * 8192 + k := hat
    omega

/-- The other blocks in use are blocks of files. -/
lemma Ok.fileBlock (h : V.Ok) {b : ℕ} (hb : 7 ≤ b ∧ b < V.count) (hused : (V.vol n).used b = true) :
    FileBlock V.fs V.plan (V.vol n) b := by
  refine ⟨⟨(show 1 ≤ 7 by norm_num).trans hb.1, hb.2⟩, hused, ?_, fun m hm heq => ?_⟩
  · have hend : descEnd V.fs = 3 := h.base.descEnd_eq
    omega
  · obtain ⟨g, k, hg, -, hk, hat, -⟩ := h.base.at_eq hm
    obtain rfl : g = 0 := Nat.lt_one_iff.mp hg
    have hat' : V.plan.at m = 1 + 0 * 8192 + k := hat
    omega

/-- The inodes on the drive. -/
lemma Ok.inodeIn_vol (h : V.Ok) {k : ℕ} (hk : k < 16) : inodeIn V.fs V.plan (V.vol n) (k + 1) =
    Bytes.clip 128 (Bytes.shift V.drive (5120 + k * 128)) := by
  have hi : InodeIn V.fs (k + 1) := by
    change 0 < k + 1 ∧ k + 1 ≤ 16 * 1
    omega
  have haddr : inodeAddr V.fs V.plan (k + 1) = 5120 + k * 128 := by
    have hgroup : inodeGroup V.fs (k + 1) = 0 := Nat.div_eq_of_lt hk
    have hbit : inodeBit V.fs (k + 1) = k := Nat.mod_eq_of_lt hk
    rw [inodeAddr, hgroup, hbit]
    change (0 + (1 + 0 * 8192 + 4) * 2) * 512 + k * 128 = 5120 + k * 128
    norm_num
  obtain ⟨-, hbooks⟩ := inodeAddr_not_inBooks h.layout h.fits h.planned hi
  rw [inodeIn, haddr]
  rw [haddr] at hbooks
  refine Bytes.clip_congr fun i hi' => ?_
  simp only [Bytes.shift]
  exact if_neg (hbooks _ (Nat.le_add_right _ _) (by omega))

lemma Ok.inodeIn_dir (h : V.Ok) : inodeIn V.fs V.plan (V.vol n) 12 = Bytes.clip 128 V.inode := by
  refine (h.inodeIn_vol (k := 11) (by norm_num)).trans (Bytes.clip_congr fun i hi => ?_)
  simp only [Bytes.shift]
  unfold drive
  rw [if_neg (by omega), if_neg (by omega), if_pos (by omega), Nat.add_sub_cancel_left]

lemma Ok.inodeIn_file (h : V.Ok) : inodeIn V.fs V.plan (V.vol n) 13 = Bytes.clip 128 V.file := by
  refine (h.inodeIn_vol (k := 12) (by norm_num)).trans (Bytes.clip_congr fun i hi => ?_)
  simp only [Bytes.shift]
  unfold drive
  rw [if_neg (by omega), if_neg (by omega), if_neg (by omega), if_pos (by omega),
    Nat.add_sub_cancel_left]

/-- The contents of the directory and of the blocks behind it. -/
lemma Ok.blockIn_behind (h : V.Ok) {k : ℕ} (hk : V.block + k < V.count)
    (hused : (V.vol n).used (V.block + k) = true) :
    blockIn V.fs (V.vol n) (V.block + k) = Bytes.clip 1024 (Bytes.shift V.dir (k * 1024)) := by
  have hblock := h.block
  refine (blockIn_eq h.layout (h.fileBlock ⟨by omega, hk⟩ hused).plain).trans ?_
  rw [blockOn_eq h.layout]
  refine Bytes.clip_congr fun i hi => ?_
  have hi : i < 1024 := hi
  have haddr : blockAddr V.fs (V.block + k) = (V.block + k) * 1024 := by
    change (0 + (V.block + k) * 2) * 512 = (V.block + k) * 1024
    omega
  have hdiff : (V.block + k) * 1024 + i - V.block * 1024 = k * 1024 + i := by omega
  rw [haddr]
  simp only [Bytes.shift]
  change V.drive ((V.block + k) * 1024 + i) = V.dir (k * 1024 + i)
  unfold drive
  rw [if_neg (by omega), if_neg (by omega), if_neg (by omega), if_neg (by omega),
    if_pos (by omega), hdiff]

/-- The contents of the directory. -/
lemma Ok.blockIn_dir (h : V.Ok) (hused : (V.vol n).used V.block = true) :
    blockIn V.fs (V.vol n) V.block = Bytes.clip 1024 V.dir := by
  have hbehind := h.blockIn_behind (k := 0) h.block.2 hused
  have hshift : Bytes.shift V.dir (0 * 1024) = V.dir := funext fun i => congrArg V.dir (by omega)
  rw [hshift] at hbehind
  exact hbehind

/-- The directory has one block. -/
lemma Ok.iBlock_dir (h : V.Ok) {k : ℕ} (hk : k < 15) :
    iBlock (Bytes.clip 128 V.inode) k = if k = 0 then V.block else 0 := by
  have hlt : V.block < 2 ^ 32 := by
    have hcount := h.count
    have hblock := h.block.2
    omega
  unfold iBlock
  rw [Bytes.le32_clip (by omega)]
  split_ifs with h0
  · rw [h0, ← Nat.mod_eq_of_lt hlt, ← Bytes.le32_ofNat]
    refine Bytes.le32_congr fun i hi => ?_
    unfold inode
    rw [if_neg (by omega), if_neg (by omega), if_neg (by omega), if_pos (by omega)]
    congr 1
    omega
  · have hzero : Bytes.le32 V.inode (40 + 4 * k) = Bytes.le32 Bytes.zeros 0 := by
      refine Bytes.le32_congr fun i hi => ?_
      unfold inode
      rw [if_neg (by omega), if_neg (by omega), if_neg (by omega), if_neg (by omega)]
      rfl
    rw [hzero]
    rfl

lemma usesExtents_dir : usesExtents (Bytes.clip 128 V.inode) = false := by
  unfold usesExtents iFlags
  rw [Bytes.le32_clip (by norm_num)]
  norm_num [Bytes.le32, Bytes.le16, inode]

/-- It owns no other block. -/
lemma Ok.ownBlocks_dir (h : V.Ok) :
    ownBlocks V.fs (V.vol n) (inodeIn V.fs V.plan (V.vol n) 12) ⊆ {V.block} := by
  rw [h.inodeIn_dir]
  exact ownBlocks_single usesExtents_dir fun k hk => h.iBlock_dir hk

lemma Ok.dirOn (h : V.Ok) {offs : List ℕ} (hused : (V.vol n).used V.block = true)
    (hcov : Covered 1024 V.dir offs) : DirOn V.fs V.plan (V.vol n) 12 [(V.block, offs)] := by
  refine DirOn.single h.layout (by change 0 < 12 ∧ 12 ≤ 16 * 1; norm_num) ?_ ?_ ?_ ?_
    (h.fileBlock h.block hused) ?_
  · rw [h.inodeIn_dir]
    unfold isDirInode iMode
    rw [Bytes.le16_clip (by norm_num)]
    have h0 : V.inode 0 = 0 := rfl
    have h1 : V.inode (0 + 1) = 0x40 := rfl
    rw [Bytes.le16, h0, h1]
    decide
  · rw [h.inodeIn_dir]
    exact usesExtents_dir
  · rw [h.inodeIn_dir]
    unfold iSize
    rw [Bytes.le32_clip (by norm_num)]
    norm_num [Bytes.le32, Bytes.le16, inode]
    rfl
  · rw [h.inodeIn_dir]
    exact fun k hk => h.iBlock_dir (by omega)
  · rw [h.blockIn_dir hused]
    exact hcov.clip.1

lemma Ok.entriesOf_dir (h : V.Ok) {offs : List ℕ} (hused : (V.vol n).used V.block = true)
    (hcov : Covered 1024 V.dir offs) : entriesOf V.fs (V.vol n) [(V.block, offs)] =
      (entriesAt V.dir offs).map fun e => (V.block, e) := by
  have hnil : entriesOf V.fs (V.vol n) [] = [] := rfl
  rw [entriesOf_cons, h.blockIn_dir hused, hcov.clip.2, hnil, List.append_nil]

end OneDir

end Ext2

end CoolFrost
