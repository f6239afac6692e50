import CoolFrost.Fs.Ext2.Counters
import CoolFrost.Fs.Ext2.Inodes
import CoolFrost.Fs.Ext2.OneFile

/-!
# ext2: taking one block or one inode

On a volume with right counters `alloc_block`, `alloc_block_near` and `alloc_inode` find a free
block or inode whenever there is one.  On the drive they set its bit, count one less in two counters
and change nothing else.

### Outline

* `BitTaken` for the drive before and after, and that `takeOn` and `takeInodeOn` are of that kind;
* the counters say whether a group has something to give;
* `singleAllocations`.
-/

namespace CoolFrost

open Program

namespace Ext2

variable {fs : Ext2Fs} {p : Plan} {d d' : Bytes} {nodes : ℕ → Ext2Node} {n : ℕ} {v : Vol}

/-! ## One bit and two counters -/

/-- The bit `β`, which was clear, is set, the counters at the addresses `c` (of two bytes) and `t`
(of four) have dropped by one, and every other bit of the drive is as before. -/
structure BitTaken (d d' : Bytes) (β c t : ℕ) : Prop where
  clear : bitAt d β = false
  set : bitAt d' β = true
  group : Bytes.le16 d c = Bytes.le16 d' c + 1
  total : Bytes.le32 d t = Bytes.le32 d' t + 1
  rest : ∀ i, i ≠ β → (i / 8 < c ∨ c + 2 ≤ i / 8) → (i / 8 < t ∨ t + 4 ≤ i / 8) →
    bitAt d' i = bitAt d i

/-- A bit away from a copied window is untouched. -/
lemma bitAt_blit_of_disjoint {src : Bytes} {off len i : ℕ} (h : i / 8 < off ∨ off + len ≤ i / 8) :
    bitAt (Bytes.blit d off src len) i = bitAt d i := by
  rw [bitAt, bitAt, Bytes.blit_of_not_mem h]

/-- The drive with that bit set and one less in these counters. -/
def countedOn (d : Bytes) (β c t : ℕ) : Bytes :=
  let d' := Bytes.put16 (setBit d β) c (u16add (Bytes.le16 d c) (-1))
  Bytes.put32 d' t (u32add (Bytes.le32 d' t) (-1))

lemma bitTaken_countedOn {β c t : ℕ} (hclear : bitAt d β = false) (hc : β / 8 < c ∨ c + 2 ≤ β / 8)
    (ht : β / 8 < t ∨ t + 4 ≤ β / 8) (hct : c + 2 ≤ t ∨ t + 4 ≤ c) (hgroup : Bytes.le16 d c ≠ 0)
    (htotal : Bytes.le32 d t ≠ 0) : BitTaken d (countedOn d β c t) β c t := by
  have hx := Bytes.le16_lt d c
  have hy := Bytes.le32_lt d t
  have hold : ∀ x, Bytes.le32 (Bytes.put16 (setBit d β) c x) t = Bytes.le32 d t := fun x => by
    rw [Bytes.put16, Bytes.le32_blit_of_disjoint (by omega), setBit, Bytes.put8,
      Bytes.le32_blit_of_disjoint (by omega)]
  unfold countedOn
  simp only [hold]
  constructor
  case clear => exact hclear
  case set =>
    rw [Bytes.put32, bitAt_blit_of_disjoint ht, Bytes.put16,
      bitAt_blit_of_disjoint hc, bitAt_setBit, if_pos rfl]
  case group =>
    rw [Bytes.put32, Bytes.le16_blit_of_disjoint hct, Bytes.le16_put16_self, u16add]
    omega
  case total =>
    rw [Bytes.le32_put32_self, u32add]
    omega
  case rest =>
    intro i hi hic hit
    rw [Bytes.put32, bitAt_blit_of_disjoint hit, Bytes.put16,
      bitAt_blit_of_disjoint hic, bitAt_setBit, if_neg hi]

/-- A bit of a bitmap, a counter of a group and one of the superblock. -/
lemma bitTaken_books (hl : Layout fs) (hp : p.Fits fs) {m c t : Book} (hm : m.In fs) (hc : c.In fs)
    (ht : t.In fs) (hmc : m ≠ c) (hmt : m ≠ t) (hct : c ≠ t) (hclen : c.len fs = 2)
    (htlen : t.len fs = 4) {β : ℕ} (hβ : m.addr fs p ≤ β / 8 ∧ β / 8 < m.addr fs p + m.len fs)
    (hclear : bitAt d β = false) (hgroup : Bytes.le16 d (c.addr fs p) ≠ 0)
    (htotal : Bytes.le32 d (t.addr fs p) ≠ 0) :
    BitTaken d (countedOn d β (c.addr fs p) (t.addr fs p)) β (c.addr fs p) (t.addr fs p) := by
  have hmc' := Book.apart hl hp hm hc hmc
  have hmt' := Book.apart hl hp hm ht hmt
  have hct' := Book.apart hl hp hc ht hct
  exact bitTaken_countedOn hclear (by omega) (by omega) (by omega) hgroup htotal

/-! ## What an allocation does to the drive -/

/-- A number that is written where it was read. -/
lemma put32_le32 (b : Bytes) (off : ℕ) : Bytes.put32 b off (Bytes.le32 b off) = b := by
  refine Bytes.blit_self fun i hi => ?_
  have h0 := (b off).toNat_lt
  have h1 := (b (off + 1)).toNat_lt
  have h2 := (b (off + 2)).toNat_lt
  have h3 := (b (off + 3)).toNat_lt
  refine UInt8.toNat_inj.mp ?_
  simp only [Bytes.ofNat, UInt8.toNat_ofNat', Bytes.le32, Bytes.le16, Nat.add_assoc off 2 1]
  interval_cases i <;> norm_num <;> omega

lemma superAdjusted_blocks (delta : ℤ) : superAdjusted fs d delta 0 =
    Bytes.put32 d (superAddr fs + 12) (u32add (Bytes.le32 d (superAddr fs + 12)) delta) := by
  have h : Bytes.le32 d (superAddr fs + 16) = Bytes.le32 (Bytes.put32 d (superAddr fs + 12)
      (u32add (Bytes.le32 d (superAddr fs + 12)) delta)) (superAddr fs + 16) := by
    rw [Bytes.put32, Bytes.le32_blit_of_disjoint (by omega)]
  rw [superAdjusted, u32add_zero (Bytes.le32_lt _ _), h, put32_le32]

lemma superAdjusted_inodes (delta : ℤ) : superAdjusted fs d 0 delta =
    Bytes.put32 d (superAddr fs + 16) (u32add (Bytes.le32 d (superAddr fs + 16)) delta) := by
  rw [superAdjusted, u32add_zero (Bytes.le32_lt _ _), put32_le32]

/-- Where the bit of a block is on the drive, in bits from its start. -/
def blockBit (fs : Ext2Fs) (p : Plan) (b : ℕ) : ℕ :=
  8 * blockAddr fs (p.bitmap (groupOf fs b)) + bitOf fs b

/-- Where the bit of an inode is. -/
def inodeBitAt (fs : Ext2Fs) (p : Plan) (ino : ℕ) : ℕ :=
  8 * blockAddr fs (p.inodeBitmap (inodeGroup fs ino)) + inodeBit fs ino

/-- The bit of a block is in the bitmap of its group. -/
lemma blockBit_mem (hl : Layout fs) (b : ℕ) :
    (Book.bitmap (groupOf fs b)).addr fs p ≤ blockBit fs p b / 8 ∧
      blockBit fs p b / 8 < (Book.bitmap (groupOf fs b)).addr fs p + fs.blockSize := by
  have hlt := bitOf_lt_bits hl b
  simp only [Book.addr, blockBit]
  omega

lemma inodeBitAt_mem (hl : Layout fs) (ino : ℕ) :
    (Book.inodeBitmap (inodeGroup fs ino)).addr fs p ≤ inodeBitAt fs p ino / 8 ∧
      inodeBitAt fs p ino / 8 < (Book.inodeBitmap (inodeGroup fs ino)).addr fs p +
      fs.blockSize := by
  have hlt := inodeBit_lt_bits hl ino
  simp only [Book.addr, inodeBitAt]
  omega

lemma takeOn_eq (hl : Layout fs) (hd : Planned fs p d) {b : ℕ} (hb : InVolume fs b) :
    takeOn fs p d b = countedOn d (blockBit fs p b) (descAddr fs (groupOf fs b) + 12)
      (superAddr fs + 12) := by
  rw [takeOn, commitOn, bitmapOn, desc_bitmap hl hd (groupIn_groupOf hl hb), blockOn_eq hl,
    blit_setBit (bitOf_lt_bits hl b), superAdjusted_blocks]
  rfl

lemma takeInodeOn_eq (hl : Layout fs) (hp : p.Fits fs) (hd : Planned fs p d) {ino : ℕ}
    (hi : InodeIn fs ino) : takeInodeOn fs p d ino = countedOn d (inodeBitAt fs p ino)
      (descAddr fs (inodeGroup fs ino) + 14) (superAddr fs + 16) := by
  rw [takeInodeOn, commitOn, inodeBitmapOn, desc_inodeBitmap hl hd (hp.groupIn_inodeGroup hi),
    blockOn_eq hl, blit_setBit (inodeBit_lt_bits hl ino), superAdjusted_inodes]
  rfl

/-! ## Right counters -/

/-- The inodes of a group that are not in use. -/
def unusedInodesIn (fs : Ext2Fs) (v : Vol) (g : ℕ) : Finset ℕ :=
  (Finset.Icc 1 fs.inodesCount).filter fun ino => inodeGroup fs ino = g ∧ v.inodeUsed ino = false

/-- The inodes of the volume that are not in use. -/
def unusedInodes (fs : Ext2Fs) (v : Vol) : Finset ℕ :=
  (Finset.Icc 1 fs.inodesCount).filter fun ino => v.inodeUsed ino = false

/-- The counters of free inodes are right. -/
structure ConsistentInodes (fs : Ext2Fs) (v : Vol) : Prop where
  free : ∀ g, GroupIn fs g → v.freeInodes g = (unusedInodesIn fs v g).card
  total : v.totalInodes = (unusedInodes fs v).card

/-- A free inode is counted. -/
lemma ConsistentInodes.counted (hp : p.Fits fs) (h : ConsistentInodes fs v) {ino : ℕ}
    (hi : InodeIn fs ino) (hu : v.inodeUsed ino = false) :
    v.freeInodes (inodeGroup fs ino) ≠ 0 ∧ v.totalInodes ≠ 0 := by
  have hmem : ino ∈ Finset.Icc 1 fs.inodesCount := Finset.mem_Icc.mpr hi
  rw [h.free _ (hp.groupIn_inodeGroup hi), h.total]
  exact ⟨Finset.card_ne_zero_of_mem (Finset.mem_filter.mpr ⟨hmem, rfl, hu⟩),
    Finset.card_ne_zero_of_mem (Finset.mem_filter.mpr ⟨hmem, hu⟩)⟩

/-! ## The allocations -/

/-- What an allocation comes to: it returns 0 and changes nothing if none of the candidates is free;
otherwise it returns a candidate that was free, and its bit is taken. -/
structure Allocated (candidate : ℕ → Prop) (bit counter : ℕ → ℕ) (total : ℕ) (d : Bytes) (r : ℕ)
    (d' : Bytes) : Prop where
  zero_iff : r = 0 ↔ ∀ x, candidate x → bitAt d (bit x) = true
  unchanged : r = 0 → d' = d
  taken : r ≠ 0 → candidate r ∧ BitTaken d d' (bit r) (counter r) total

/-- A block is allocated. -/
def BlockAllocated (fs : Ext2Fs) (p : Plan) : Bytes → ℕ → Bytes → Prop :=
  Allocated (InVolume fs) (blockBit fs p) (fun b => descAddr fs (groupOf fs b) + 12)
    (superAddr fs + 12)

/-- An inode is allocated. -/
def InodeAllocated (fs : Ext2Fs) (p : Plan) : Bytes → ℕ → Bytes → Prop :=
  Allocated (fun ino => InodeIn fs ino ∧ fs.firstIno ≤ ino) (inodeBitAt fs p)
    (fun ino => descAddr fs (inodeGroup fs ino) + 14) (superAddr fs + 16)

lemma used_volOn {b : ℕ} (hb : InVolume fs b) :
    (volOn fs p d nodes n).used b = bitAt d (blockBit fs p b) := if_pos hb

lemma inodeUsed_volOn {ino : ℕ} (hi : InodeIn fs ino) :
    (volOn fs p d nodes n).inodeUsed ino = bitAt d (inodeBitAt fs p ino) := if_pos hi

lemma blockAllocated_of_taken (hl : Layout fs) (hp : p.Fits fs) (hd : Planned fs p d)
    (hc : Consistent fs (volOn fs p d nodes n)) {r : ℕ} {w : Image}
    (h : BlockTaken fs p (volOn fs p d nodes n) d r w) : BlockAllocated fs p d r w.disk := by
  have hav : ∀ b, InVolume fs b → bitAt d (blockBit fs p b) = false →
      Available fs (volOn fs p d nodes n) b := fun b hb hclear => by
    have hu : (volOn fs p d nodes n).used b = false := (used_volOn hb).trans hclear
    exact ⟨hb, hu, (hc.counted hl hb hu).1⟩
  obtain ⟨-, ⟨rfl, rfl, hno⟩ | ⟨hr, ⟨hb, hu, -⟩, -, hdisk⟩⟩ := h
  · refine ⟨⟨fun _ b hb => ?_, fun _ => rfl⟩, fun _ => rfl, fun h => absurd rfl h⟩
    exact Bool.eq_true_of_not_eq_false fun hclear => hno b (hav b hb hclear)
  · have hclear := (used_volOn hb).symm.trans hu
    obtain ⟨hfree, htotal⟩ := hc.counted hl hb hu
    have hg := groupIn_groupOf hl hb
    have hctr : (volOn fs p d nodes n).free (groupOf fs r) =
        Bytes.le16 d (descAddr fs (groupOf fs r) + 12) := if_pos hg
    refine ⟨⟨fun h => absurd h hr, fun h => ?_⟩, fun h => absurd h hr, fun _ => ⟨hb, ?_⟩⟩
    · rw [h r hb] at hclear
      cases hclear
    · rw [hdisk, takeOn_eq hl hd hb]
      rw [hctr] at hfree
      exact @bitTaken_books fs p d hl hp (.bitmap (groupOf fs r))
        (.free (groupOf fs r)) .total hg hg
        trivial (by simp) (by simp) (by simp) rfl rfl _ (blockBit_mem hl r) hclear hfree htotal

lemma inodeAllocated_of_taken (hl : Layout fs) (hp : p.Fits fs) (hd : Planned fs p d)
    (hc : ConsistentInodes fs (volOn fs p d nodes n)) {r : ℕ} {w : Image}
    (h : InodeTaken fs p (volOn fs p d nodes n) d r w) : InodeAllocated fs p d r w.disk := by
  obtain ⟨-, ⟨rfl, rfl, hno⟩ | ⟨⟨hi, hu, -, hfirst⟩, -, hdisk⟩⟩ := h
  · refine ⟨⟨fun _ ino hi => ?_, fun _ => rfl⟩, fun _ => rfl, fun h => absurd rfl h⟩
    refine Bool.eq_true_of_not_eq_false fun hclear => hno ino ?_
    have hu : (volOn fs p d nodes n).inodeUsed ino = false := (inodeUsed_volOn hi.1).trans hclear
    exact ⟨hi.1, hu, (hc.counted hp hi.1 hu).1, hi.2⟩
  · have hr : r ≠ 0 := Nat.ne_of_gt hi.1
    have hclear := (inodeUsed_volOn hi).symm.trans hu
    obtain ⟨hfree, htotal⟩ := hc.counted hp hi hu
    have hg := hp.groupIn_inodeGroup hi
    have hctr : (volOn fs p d nodes n).freeInodes (inodeGroup fs r) =
        Bytes.le16 d (descAddr fs (inodeGroup fs r) + 14) := if_pos hg
    refine ⟨⟨fun h => absurd h hr, fun h => ?_⟩, fun h => absurd h hr, fun _ => ⟨⟨hi, hfirst⟩, ?_⟩⟩
    · rw [h r ⟨hi, hfirst⟩] at hclear
      cases hclear
    · rw [hdisk, takeInodeOn_eq hl hp hd hi]
      rw [hctr] at hfree
      exact @bitTaken_books fs p d hl hp (.inodeBitmap (inodeGroup fs r))
        (.freeInodes (inodeGroup fs r)) .totalInodes hg hg trivial (by simp) (by simp) (by simp) rfl
        rfl _ (inodeBitAt_mem hl r) hclear hfree htotal

/-- On a volume with right counters the allocators find a free block or inode whenever there is one;
they set its bit, count it in its group and in the superblock, and change nothing else.  A free goal
is what `alloc_block_near` returns. -/
theorem singleAllocations (hl : Layout fs) (hp : p.Fits fs) (hd : Planned fs p d)
    (h0 : (volOn fs p d nodes n).used 0 = true) (hc : Consistent fs (volOn fs p d nodes n))
    (hi : ConsistentInodes fs (volOn fs p d nodes n)) :
    (ext2View fs).wp (allocBlock fs) (fun r w => BlockAllocated fs p d r w.disk) ⟨d, nodes, n⟩ ∧
      (∀ goal, (ext2View fs).wp (allocBlockNear fs goal) (fun r w =>
        BlockAllocated fs p d r w.disk ∧
          (InVolume fs goal → bitAt d (blockBit fs p goal) = false → r = goal)) ⟨d, nodes, n⟩) ∧
      (ext2View fs).wp (allocInode fs) (fun r w => InodeAllocated fs p d r w.disk)
      ⟨d, nodes, n⟩ := by
  have hv : volOn fs p d (volOn fs p d nodes n).nodes (volOn fs p d nodes n).nodesUsed =
    volOn fs p d nodes n := rfl
  refine ⟨View.wp_mono (raw_allocBlock hl hp hd hv h0) fun _ _ h =>
    blockAllocated_of_taken hl hp hd hc h, fun goal => ?_, View.wp_mono (raw_allocInode hl hp hd hv)
      fun _ _ h => inodeAllocated_of_taken hl hp hd hi h⟩
  refine View.wp_mono (raw_allocBlockNear hl hp hd hv h0 goal) fun r w h =>
    ⟨blockAllocated_of_taken hl hp hd hc h.1, fun hb hclear => h.2 ?_⟩
  have hu : (volOn fs p d nodes n).used goal = false := (used_volOn hb).trans hclear
  exact ⟨hb, hu, (hc.counted hl hb hu).1⟩

/-- A volume of eight blocks, the last of which is free, and four free inodes. -/
def eightBlocks : OneFile := ⟨1, 8, 9, [7], 1024⟩

/-- Its drive, with the four inodes counted. -/
def eightDrive : Bytes := Bytes.put32 (Bytes.put16 eightBlocks.drive 2062 4) 1040 4

lemma eightBlocks_ok : eightBlocks.Ok := ⟨by decide, by decide, by decide⟩

lemma eightDrive_planned : Planned eightBlocks.fs eightBlocks.plan eightDrive := by
  have hl := eightBlocks_ok.layout
  have hp := eightBlocks_ok.fits
  have hfree : AgreeOff eightBlocks.fs eightBlocks.plan (.freeInodes 0) eightBlocks.drive
      (Bytes.put16 eightBlocks.drive 2062 4) := fun i hi => Bytes.blit_of_not_mem hi
  have htotal : AgreeOff eightBlocks.fs eightBlocks.plan .totalInodes
      (Bytes.put16 eightBlocks.drive 2062 4) eightDrive := fun i hi => Bytes.blit_of_not_mem hi
  have hin : (Book.freeInodes 0).In eightBlocks.fs := eightBlocks_ok.groupIn.mpr Nat.one_pos
  exact htotal.planned hl hp trivial (hfree.planned hl hp hin eightBlocks_ok.planned)

theorem singleAllocations_eightBlocks :
    (ext2View eightBlocks.fs).wp (allocBlock eightBlocks.fs) (fun r w =>
        BlockAllocated eightBlocks.fs eightBlocks.plan eightDrive r w.disk)
        ⟨eightDrive, eightBlocks.state.nodePool, 1⟩ ∧
      (∀ goal, (ext2View eightBlocks.fs).wp (allocBlockNear eightBlocks.fs goal) (fun r w =>
        BlockAllocated eightBlocks.fs eightBlocks.plan eightDrive r w.disk ∧
          (InVolume eightBlocks.fs goal →
            bitAt eightDrive (blockBit eightBlocks.fs eightBlocks.plan goal) = false → r = goal))
        ⟨eightDrive, eightBlocks.state.nodePool, 1⟩) ∧
      (ext2View eightBlocks.fs).wp (allocInode eightBlocks.fs) (fun r w =>
        InodeAllocated eightBlocks.fs eightBlocks.plan eightDrive r w.disk)
        ⟨eightDrive, eightBlocks.state.nodePool, 1⟩ :=
  singleAllocations eightBlocks_ok.layout eightBlocks_ok.fits eightDrive_planned (by decide)
    ⟨by decide, by decide⟩ ⟨fun g hg => by
      obtain rfl : g = 0 := Nat.lt_one_iff.mp (eightBlocks_ok.groupIn.mp hg)
      decide, by decide⟩

end Ext2

end CoolFrost
