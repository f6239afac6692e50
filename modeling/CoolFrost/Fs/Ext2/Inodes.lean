import CoolFrost.Fs.Ext2.Alloc

/-!
# ext2: taking and giving back inodes

`alloc_inode` and `free_inode` keep the books of the inodes the way the allocators of blocks keep
theirs, except that the reserved inodes are never given out.
-/

namespace CoolFrost

open Program

namespace Ext2

variable {fs : Ext2Fs} {p : Plan} {d : Bytes} {v : Vol}

/-- The inode can be allocated. -/
def AvailableInode (fs : Ext2Fs) (v : Vol) (ino : ℕ) : Prop :=
  InodeIn fs ino ∧ v.inodeUsed ino = false ∧ v.freeInodes (inodeGroup fs ino) ≠ 0 ∧
    fs.firstIno ≤ ino

/-- The inode bitmap of a group is written anew, and its counter is changed. -/
def Vol.remapInodes (fs : Ext2Fs) (g : ℕ) (bits : ℕ → Bool) (delta : ℤ) (v : Vol) : Vol :=
  { v with
    inodeUsed := fun i => if InodeIn fs i ∧ inodeGroup fs i = g then bits (inodeBit fs i)
      else v.inodeUsed i
    freeInodes := Function.update v.freeInodes g (u16add (v.freeInodes g) delta)
    totalInodes := u32add v.totalInodes delta }

/-- An inode is marked as in use or as free, and the counters change by `delta`. -/
def Vol.markInode (fs : Ext2Fs) (ino : ℕ) (used : Bool) (delta : ℤ) (v : Vol) : Vol :=
  { v with
    inodeUsed := Function.update v.inodeUsed ino used
    freeInodes := Function.update v.freeInodes (inodeGroup fs ino)
      (u16add (v.freeInodes (inodeGroup fs ino)) delta)
    totalInodes := u32add v.totalInodes delta }

/-- An inode is taken. -/
def Vol.takeInode (fs : Ext2Fs) (ino : ℕ) (v : Vol) : Vol := v.markInode fs ino true (-1)

/-- An inode is given back. -/
def Vol.giveInode (fs : Ext2Fs) (ino : ℕ) (v : Vol) : Vol := v.markInode fs ino false 1

/-- The counters of free inodes are 16 and 32 bits wide. -/
structure BoundedInodes (v : Vol) : Prop where
  free : ∀ g, v.freeInodes g < 65536
  total : v.totalInodes < 2 ^ 32

lemma boundedInodes_volOn {nodes : ℕ → Ext2Node} {n : ℕ} :
    BoundedInodes (volOn fs p d nodes n) := by
  refine ⟨fun g => ?_, Bytes.le32_lt _ _⟩
  simp only [volOn]
  split_ifs
  · exact Bytes.le16_lt _ _
  · norm_num

/-- Giving an inode back right after it was taken. -/
lemma giveInode_takeInode (hv : BoundedInodes v) {ino : ℕ} (h : v.inodeUsed ino = false) :
    (v.takeInode fs ino).giveInode fs ino = v := by
  refine Vol.ext rfl rfl rfl ?_ ?_ ?_ rfl rfl rfl
  · simp only [Vol.giveInode, Vol.takeInode, Vol.markInode, Function.update_idem]
    rw [← h, Function.update_eq_self]
  · simp only [Vol.giveInode, Vol.takeInode, Vol.markInode, Function.update_idem,
      Function.update_self]
    rw [u16add_add, neg_add_cancel, u16add_zero (hv.free _), Function.update_eq_self]
  · simp only [Vol.giveInode, Vol.takeInode, Vol.markInode]
    rw [u32add_add, neg_add_cancel, u32add_zero hv.total]

/-! ## The bitmap of a group -/

/-- The inode bitmap of a group, as the code reads it. -/
def inodeBitmapOn (fs : Ext2Fs) (d : Bytes) (g : ℕ) : Bytes :=
  blockOn fs d (bgInodeBitmap (blockOn fs d (locateBgd fs g).1) (locateBgd fs g).2)

lemma desc_inodeBitmap (hl : Layout fs) (hd : Planned fs p d) {g : ℕ} (hg : GroupIn fs g) :
    bgInodeBitmap (blockOn fs d (locateBgd fs g).1) (locateBgd fs g).2 = p.inodeBitmap g := by
  rw [bgInodeBitmap, desc_le32 hl d hg.1 (by norm_num)]
  exact (hd g hg).2.1

lemma desc_freeInodes (hl : Layout fs) (hv : volOn fs p d v.nodes v.nodesUsed = v) {g : ℕ}
    (hg : GroupIn fs g) :
    bgFreeInodesCount (blockOn fs d (locateBgd fs g).1) (locateBgd fs g).2 = v.freeInodes g := by
  rw [bgFreeInodesCount, desc_le16 hl d hg.1 (by norm_num), ← hv]
  exact (if_pos hg).symm

/-- The bits of a group's inode bitmap are those of its inodes. -/
lemma inodeBitmapOn_bit (hl : Layout fs) (hp : p.Fits fs) (hd : Planned fs p d)
    (hv : volOn fs p d v.nodes v.nodesUsed = v) {ino : ℕ} (hi : InodeIn fs ino) :
    bitAt (inodeBitmapOn fs d (inodeGroup fs ino)) (inodeBit fs ino) = v.inodeUsed ino := by
  rw [inodeBitmapOn, desc_inodeBitmap hl hd (hp.groupIn_inodeGroup hi), blockOn_eq hl,
    bitAt_read (inodeBit_lt_bits hl ino), ← hv]
  exact (if_pos hi).symm

lemma raw_commitInodes (hl : Layout fs) (hp : p.Fits fs) (hd : Planned fs p d) {g : ℕ}
    (hg : GroupIn fs g) (buf : Bytes) (delta : ℤ) (hv : volOn fs p d v.nodes v.nodesUsed = v) :
    (ext2View fs).wp (commitBitmap fs (p.inodeBitmap g) buf (locateBgd fs g).1
        (bgAddFreeInodes (blockOn fs d (locateBgd fs g).1) (locateBgd fs g).2 delta) 0 delta)
      (fun ok w => Planned fs p w.disk ∧ ok = true ∧
        volOn fs p w.disk w.nodes w.used = v.remapInodes fs g (bitAt buf) delta ∧
        w.disk = commitOn fs d (p.inodeBitmap g) g 14 buf delta 0 delta)
      ⟨d, v.nodes, v.nodesUsed⟩ := by
  have hraw := @raw_commitBitmap fs hl g 14
    (u16add (bgFreeInodesCount (blockOn fs d (locateBgd fs g).1) (locateBgd fs g).2) delta)
    (p.inodeBitmap g) buf hg (by norm_num) (hp.range (.inodeBitmap g) hg).1 0 delta
    ⟨d, v.nodes, v.nodesUsed⟩
  refine View.wp_mono hraw ?_
  rintro ok w ⟨rfl, rfl⟩
  obtain ⟨hgroup, hplan⟩ := @volOn_inodeGroup fs p d v.nodes v.nodesUsed hl hp g
    (u16add (bgFreeInodesCount (blockOn fs d (locateBgd fs g).1) (locateBgd fs g).2) delta) hg buf
  obtain ⟨hsuper, hplan'⟩ := @volOn_super fs p (Bytes.put16 (Bytes.blit d
    (blockAddr fs (p.inodeBitmap g)) buf fs.blockSize) (descAddr fs g + 14)
      (u16add (bgFreeInodesCount
      (blockOn fs d (locateBgd fs g).1) (locateBgd fs g).2) delta))
        v.nodes v.nodesUsed hl hp 0 delta
  refine ⟨hplan' (hplan hd), rfl, ?_, ?_⟩
  swap
  · rw [commitOn, ← desc_le16 hl d hg.1 (by norm_num)]
    rfl
  have htotal : v.total < 2 ^ 32 := by
    have heq := congrArg Vol.total hv
    rw [← heq]
    exact Bytes.le32_lt d (superAddr fs + 12)
  refine hsuper.trans ?_
  rw [hgroup, hv, desc_freeInodes hl hv hg, u32add_zero htotal, Nat.mod_eq_of_lt (u16add_lt _ _)]
  rfl

/-- Changing the bit of one inode marks that inode. -/
lemma remapInodes_bit (hl : Layout fs) (hp : p.Fits fs) (hd : Planned fs p d)
    (hv : volOn fs p d v.nodes v.nodesUsed = v) {ino : ℕ} (hi : InodeIn fs ino) {used : Bool}
    {bits : ℕ → Bool} (delta : ℤ) (hbits : ∀ j, bits j = if j = inodeBit fs ino then used else
      bitAt (inodeBitmapOn fs d (inodeGroup fs ino)) j) :
    v.remapInodes fs (inodeGroup fs ino) bits delta = v.markInode fs ino used delta := by
  refine Vol.ext rfl rfl rfl (funext fun i => ?_) rfl rfl rfl rfl rfl
  simp only [Vol.remapInodes, Vol.markInode]
  by_cases hmem : InodeIn fs i ∧ inodeGroup fs i = inodeGroup fs ino
  · have hbit := inodeBitmapOn_bit hl hp hd hv hmem.1
    rw [hmem.2] at hbit
    rw [if_pos hmem, hbits, hbit]
    by_cases heq : i = ino
    · rw [heq, if_pos rfl, Function.update_self]
    · have hne : inodeBit fs i ≠ inodeBit fs ino := fun h => heq (by
        have h1 := Nat.div_add_mod' (i - 1) fs.inodesPerGroup
        have h2 := Nat.div_add_mod' (ino - 1) fs.inodesPerGroup
        rw [← inodeGroup, ← inodeBit] at h1 h2
        rw [hmem.2, h, h2] at h1
        have := hi.1
        have := hmem.1.1
        omega)
      rw [if_neg hne, Function.update_of_ne heq]
  · have heq : i ≠ ino := fun h => hmem (by rw [h]; exact ⟨hi, rfl⟩)
    rw [if_neg hmem, Function.update_of_ne heq]

/-- What the code finds in a group, and how it leaves it. -/
lemma raw_inodeGroup (hl : Layout fs) (hp : p.Fits fs) (hd : Planned fs p d)
    (hv : volOn fs p d v.nodes v.nodesUsed = v) (g : ℕ) :
    ∃ blk off, locateBgd fs g = (blk, off) ∧
      (GroupIn fs g → bgFreeInodesCount (blockOn fs d blk) off = v.freeInodes g) ∧
      (GroupIn fs g → bgInodeBitmap (blockOn fs d blk) off = p.inodeBitmap g) ∧
      blockOn fs d (bgInodeBitmap (blockOn fs d blk) off) = inodeBitmapOn fs d g ∧
      (GroupIn fs g → ∀ buf delta,
        (ext2View fs).wp (commitBitmap fs (p.inodeBitmap g) buf blk
            (bgAddFreeInodes (blockOn fs d blk) off delta) 0 delta)
          (fun ok w => Planned fs p w.disk ∧ ok = true ∧
            volOn fs p w.disk w.nodes w.used = v.remapInodes fs g (bitAt buf) delta ∧
            w.disk = commitOn fs d (p.inodeBitmap g) g 14 buf delta 0 delta)
          ⟨d, v.nodes, v.nodesUsed⟩) :=
  ⟨_, _, rfl, desc_freeInodes hl hv, desc_inodeBitmap hl hd, rfl, fun hgin buf delta =>
    raw_commitInodes hl hp hd hgin buf delta hv⟩

/-! ## Taking an inode -/

lemma findClearInode_none {b : Bytes} {start n k : ℕ} (h : findClearInode fs b start n k = none) :
    ∀ j, k ≤ j → j < k + n → u32 (start + j + 1) < fs.firstIno ∨ bitAt b j = true := by
  induction n generalizing k with
  | zero => intro j hlo hhi; omega
  | succ n ih =>
    intro j hlo hhi
    rw [findClearInode] at h
    rcases Nat.eq_or_lt_of_le hlo with rfl | hlt
    · split_ifs at h with hres hset
      · exact .inl hres
      · exact .inr hset
    · split_ifs at h with hres hset
      · exact ih h j hlt (by omega)
      · exact ih h j hlt (by omega)

lemma findClearInode_some {b : Bytes} {start n k j : ℕ}
    (h : findClearInode fs b start n k = some j) :
    j < k + n ∧ fs.firstIno ≤ u32 (start + j + 1) ∧ bitAt b j = false := by
  induction n generalizing k with
  | zero => cases h
  | succ n ih =>
    rw [findClearInode] at h
    split_ifs at h with hres hset
    · obtain ⟨hhi, hj⟩ := ih h
      exact ⟨by omega, hj⟩
    · obtain ⟨hhi, hj⟩ := ih h
      exact ⟨by omega, hj⟩
    · cases h
      exact ⟨by omega, Nat.le_of_not_lt hres, by simpa using hset⟩

/-- The inodes that the code looks at in a group. -/
lemma inodeRange_eq (hl : Layout fs) {g : ℕ} (hg : g < fs.groupsCount) :
    u32 (g * fs.inodesPerGroup) = g * fs.inodesPerGroup ∧
      u32sub fs.inodesCount (g * fs.inodesPerGroup) = fs.inodesCount - g * fs.inodesPerGroup := by
  have hstart := hl.inodeStart g hg
  have hcount := hl.inodesCount
  have hlt := hl.inodes
  refine ⟨Nat.mod_eq_of_lt (by omega), ?_⟩
  unfold u32sub u32
  omega

/-- The inode with the number `k` in the group `g`. -/
lemma inodeIn_of_bit (hl : Layout fs) {g k : ℕ}
    (hk : k < min (fs.inodesCount - g * fs.inodesPerGroup) fs.inodesPerGroup) :
    InodeIn fs (g * fs.inodesPerGroup + k + 1) ∧
      inodeGroup fs (g * fs.inodesPerGroup + k + 1) = g ∧
      inodeBit fs (g * fs.inodesPerGroup + k + 1) = k ∧
      u32 (g * fs.inodesPerGroup + k + 1) = g * fs.inodesPerGroup + k + 1 := by
  have hcount := hl.inodesCount
  have hlt := hl.inodes
  have hlt' : k < fs.inodesPerGroup := by omega
  refine ⟨⟨by omega, by omega⟩, ?_, ?_, Nat.mod_eq_of_lt (by omega)⟩
  · rw [inodeGroup, Nat.add_sub_cancel, Nat.add_comm, Nat.add_mul_div_right _ _ (by omega),
      Nat.div_eq_of_lt hlt', Nat.zero_add]
  · rw [inodeBit, Nat.add_sub_cancel, Nat.add_comm, Nat.add_mul_mod_self_right,
      Nat.mod_eq_of_lt hlt']

/-- The bit of an inode is among those that the code looks at. -/
lemma inodeBit_lt_range (hl : Layout fs) {ino : ℕ} (hi : InodeIn fs ino) :
    inodeGroup fs ino * fs.inodesPerGroup + inodeBit fs ino + 1 = ino ∧
      inodeBit fs ino <
        min (fs.inodesCount - inodeGroup fs ino * fs.inodesPerGroup) fs.inodesPerGroup := by
  have hbit := inodeBit_lt hl ino
  have hdiv := Nat.div_add_mod' (ino - 1) fs.inodesPerGroup
  rw [← inodeGroup, ← inodeBit] at hdiv
  have h1 := hi.1
  have h2 := hi.2
  omega

/-- The drive after the inode `ino` has been taken. -/
def takeInodeOn (fs : Ext2Fs) (p : Plan) (d : Bytes) (ino : ℕ) : Bytes :=
  commitOn fs d (p.inodeBitmap (inodeGroup fs ino)) (inodeGroup fs ino) 14
    (setBit (inodeBitmapOn fs d (inodeGroup fs ino)) (inodeBit fs ino)) (-1) 0 (-1)

/-- What the allocation of an inode comes to. -/
def InodeTaken (fs : Ext2Fs) (p : Plan) (v : Vol) (d : Bytes) (r : ℕ) (w : Image) : Prop :=
  Planned fs p w.disk ∧
    ((r = 0 ∧ w = ⟨d, v.nodes, v.nodesUsed⟩ ∧ ∀ ino, ¬AvailableInode fs v ino) ∨
      (AvailableInode fs v r ∧ volOn fs p w.disk w.nodes w.used = v.takeInode fs r ∧
        w.disk = takeInodeOn fs p d r))

/-- `alloc_inode` takes an inode that can be allocated, if there is one. -/
lemma raw_allocInode (hl : Layout fs) (hp : p.Fits fs) (hd : Planned fs p d)
    (hv : volOn fs p d v.nodes v.nodesUsed = v) :
    (ext2View fs).wp (allocInode fs) (InodeTaken fs p v d) ⟨d, v.nodes, v.nodesUsed⟩ := by
  -- no group before the current one has an inode to give
  refine View.wp_iter (fun g w => w = ⟨d, v.nodes, v.nodesUsed⟩ ∧
    ∀ ino, AvailableInode fs v ino → g ≤ inodeGroup fs ino)
    (fun g _ => fs.groupsCount - g) (fun g w hI => ?_) ⟨rfl, fun _ _ => Nat.zero_le _⟩
    ((Nat.sub_le _ _).trans_lt hl.groups_lt)
  obtain ⟨rfl, hskip⟩ := hI
  refine View.wp_ite (fun hg => ?_) fun hg => View.wp_pure ⟨hd, .inl ⟨rfl, rfl, fun ino hi =>
    hg ((hskip ino hi).trans_lt (hp.groupIn_inodeGroup hi.1).1)⟩⟩
  have hnext : (∀ ino, AvailableInode fs v ino → inodeGroup fs ino ≠ g) →
      ((⟨d, v.nodes, v.nodesUsed⟩ : Image) = ⟨d, v.nodes, v.nodesUsed⟩ ∧
        ∀ ino, AvailableInode fs v ino → g + 1 ≤ inodeGroup fs ino) ∧
        fs.groupsCount - (g + 1) < fs.groupsCount - g := fun hne =>
    ⟨⟨rfl, fun ino hi => Nat.lt_of_le_of_ne (hskip ino hi) (hne ino hi).symm⟩, by omega⟩
  obtain ⟨hstart, hsub⟩ := inodeRange_eq hl hg
  obtain ⟨blk, off, hdesc, hfree, hbitmap, hread, hcommit⟩ := raw_inodeGroup hl hp hd hv g
  rw [hdesc]
  refine (returns_readBlock _).bind (View.wp_ite (fun h => ?_) fun h => ?_)
  · exact View.wp_pure (hnext fun ino hi hig => hi.2.2.1 (by
      rw [hig, ← hfree (hig ▸ hp.groupIn_inodeGroup hi.1)]
      exact h))
  refine (returns_readBlock _).bind ?_
  simp only
  rw [hread, hstart, hsub]
  cases hf : findClearInode fs (inodeBitmapOn fs d g) (g * fs.inodesPerGroup)
      (min (fs.inodesCount - g * fs.inodesPerGroup) fs.inodesPerGroup) 0 with
  | none =>
    refine View.wp_pure (hnext fun ino hi hig => ?_)
    obtain ⟨hno, hrange⟩ := inodeBit_lt_range hl hi.1
    have hbit := inodeBitmapOn_bit hl hp hd hv hi.1
    rw [hi.2.1] at hbit
    rw [hig] at hno hrange hbit
    rcases findClearInode_none hf (inodeBit fs ino) (Nat.zero_le _) (by omega) with hres | hset
    · rw [(inodeIn_of_bit hl hrange).2.2.2, hno] at hres
      exact absurd hi.2.2.2 (by omega)
    · rw [hset] at hbit
      cases hbit
  | some k =>
    obtain ⟨hk, hfirst, hclear⟩ := findClearInode_some hf
    rw [Nat.zero_add] at hk
    obtain ⟨hin, hgroup, hbit, hno⟩ := inodeIn_of_bit hl hk
    have hgin : GroupIn fs g := hgroup ▸ hp.groupIn_inodeGroup hin
    simp only
    rw [hbitmap hgin]
    refine View.wp_bind (hcommit hgin _ (-1)) ?_
    rintro _ w ⟨hplan, rfl, hw, hdisk⟩
    refine View.wp_ite (fun _ => View.wp_pure ?_) fun h => absurd rfl h
    rw [hno] at hfirst ⊢
    have hused := inodeBitmapOn_bit hl hp hd hv hin
    rw [hgroup, hbit, hclear] at hused
    refine ⟨hplan, .inr ⟨⟨hin, hused.symm, by rw [hgroup, ← hfree hgin]; exact h, hfirst⟩, ?_, ?_⟩⟩
    · rw [hw]
      conv_lhs => rw [← hgroup]
      refine remapInodes_bit hl hp hd hv hin _ fun j => ?_
      rw [bitAt_setBit, hbit, hgroup]
    · rw [hdisk, takeInodeOn, hgroup, hbit]

lemma vol_allocInode (hl : Layout fs) (hp : p.Fits fs) :
    (volView fs p).wp (allocInode fs) (fun r v' =>
      (r = 0 ∧ v' = v ∧ ∀ ino, ¬AvailableInode fs v ino) ∨
        (AvailableInode fs v r ∧ v' = v.takeInode fs r)) v := by
  refine vol_of_raw fun d hd hv => View.wp_mono (raw_allocInode hl hp hd hv) ?_
  rintro r w ⟨hplan, ⟨hr, rfl, hno⟩ | ⟨hav, hw, -⟩⟩
  · exact ⟨hplan, .inl ⟨hr, hv, hno⟩⟩
  · exact ⟨hplan, .inr ⟨hav, hw⟩⟩

/-- `free_inode` gives an inode back. -/
lemma vol_freeInode (hl : Layout fs) (hp : p.Fits fs) {ino : ℕ} (hi : InodeIn fs ino) :
    (volView fs p).wp (freeInode fs ino) (fun r v' => r = true ∧ v' = v.giveInode fs ino) v := by
  refine vol_of_raw fun d hd hv => ?_
  have hgin := hp.groupIn_inodeGroup hi
  obtain ⟨blk, off, hdesc, -, hbitmap, hread, hcommit⟩ :=
    raw_inodeGroup hl hp hd hv (inodeGroup fs ino)
  unfold freeInode
  rw [u32_inode hl hi, ← inodeGroup, ← inodeBit]
  extract_lets
  rw [hdesc]
  refine (returns_readBlock _).bind ((returns_readBlock _).bind ?_)
  simp only
  rw [hread, hbitmap hgin]
  refine View.wp_mono (hcommit hgin _ 1) ?_
  rintro _ w ⟨hplan, rfl, hw, -⟩
  refine ⟨hplan, rfl, ?_⟩
  rw [hw]
  refine remapInodes_bit hl hp hd hv hi _ fun j => ?_
  rw [bitAt_clearBit]

end Ext2

end CoolFrost
