import CoolFrost.Fs.Ext2.Geometry

/-!
# ext2: the volume behind the drive

A `Vol` says which blocks and inodes of a volume are in use, what its counters of free ones are, and
what else is on the drive.  `volOn` reads it off the bytes of a drive; the lemmas of this module say
which change of the drive changes which part of the volume.
-/

namespace CoolFrost

open Program

namespace Ext2

/-- A volume: the blocks and inodes in use, the counters of free ones, everything else on the drive,
and the nodes of the driver. -/
@[ext]
structure Vol where
  used : ℕ → Bool
  free : ℕ → ℕ
  total : ℕ
  inodeUsed : ℕ → Bool
  freeInodes : ℕ → ℕ
  totalInodes : ℕ
  data : Bytes
  nodes : ℕ → Ext2Node
  nodesUsed : ℕ

variable {fs : Ext2Fs} {p : Plan} {d d' : Bytes} {nodes : ℕ → Ext2Node} {n : ℕ}

/-- The byte at `i` belongs to the books. -/
def InBooks (fs : Ext2Fs) (p : Plan) (i : ℕ) : Prop :=
  ∃ β : Book, β.In fs ∧ β.addr fs p ≤ i ∧ i < β.addr fs p + β.len fs

/-- The inode is one of the volume. -/
def InodeIn (fs : Ext2Fs) (ino : ℕ) : Prop := 1 ≤ ino ∧ ino ≤ fs.inodesCount

instance (fs : Ext2Fs) (ino : ℕ) : Decidable (InodeIn fs ino) := inferInstanceAs (Decidable (_ ∧ _))

/-- The group of an inode, and its number in the group. -/
def inodeGroup (fs : Ext2Fs) (ino : ℕ) : ℕ := (ino - 1) / fs.inodesPerGroup

@[inherit_doc inodeGroup]
def inodeBit (fs : Ext2Fs) (ino : ℕ) : ℕ := (ino - 1) % fs.inodesPerGroup

open Classical in
/-- The volume on a drive with the bytes `d`; what is not a block or an inode of the volume counts
as in use. -/
noncomputable def volOn (fs : Ext2Fs) (p : Plan) (d : Bytes) (nodes : ℕ → Ext2Node) (n : ℕ) :
    Vol where
  used b := if InVolume fs b then bitAt d (8 * blockAddr fs (p.bitmap (groupOf fs b)) + bitOf fs b)
    else true
  free g := if GroupIn fs g then Bytes.le16 d (descAddr fs g + 12) else 0
  total := Bytes.le32 d (superAddr fs + 12)
  inodeUsed ino := if InodeIn fs ino then
      bitAt d (8 * blockAddr fs (p.inodeBitmap (inodeGroup fs ino)) + inodeBit fs ino)
    else true
  freeInodes g := if GroupIn fs g then Bytes.le16 d (descAddr fs g + 14) else 0
  totalInodes := Bytes.le32 d (superAddr fs + 16)
  data i := if InBooks fs p i then 0 else d i
  nodes := nodes
  nodesUsed := n

lemma inodeBit_lt (hl : Layout fs) (ino : ℕ) : inodeBit fs ino < fs.inodesPerGroup :=
  Nat.mod_lt _ hl.inodesPerGroup.1

lemma inodeBit_lt_bits (hl : Layout fs) (ino : ℕ) : inodeBit fs ino < 8 * fs.blockSize :=
  (inodeBit_lt hl ino).trans_le hl.inodesPerGroup.2

/-- The group of an inode of the volume. -/
lemma Plan.Fits.groupIn_inodeGroup (hp : p.Fits fs) {ino : ℕ} (h : InodeIn fs ino) :
    GroupIn fs (inodeGroup fs ino) :=
  hp.inodes _ (by have := h.1; have := h.2; omega)

/-! ## Changes of the drive -/

/-- The drives differ in one part of the books at most. -/
def AgreeOff (fs : Ext2Fs) (p : Plan) (β : Book) (d d' : Bytes) : Prop :=
  ∀ i, i < β.addr fs p ∨ β.addr fs p + β.len fs ≤ i → d' i = d i

/-- The other parts are as before. -/
lemma AgreeOff.window (hl : Layout fs) (hp : p.Fits fs) {β β' : Book} (h : AgreeOff fs p β d d')
    (hβ : β.In fs) (hβ' : β'.In fs) (hne : β' ≠ β) {i : ℕ} (hi : i < β'.len fs) :
    d' (β'.addr fs p + i) = d (β'.addr fs p + i) := by
  have hapart := Book.apart hl hp hβ hβ' hne.symm
  exact h _ (by omega)

/-- What is not in the books is as before. -/
lemma AgreeOff.data {β : Book} (h : AgreeOff fs p β d d') (hβ : β.In fs) :
    (volOn fs p d' nodes n).data = (volOn fs p d nodes n).data := by
  funext i
  simp only [volOn]
  split_ifs with hi
  · rfl
  · refine h i ?_
    by_contra hin
    exact hi ⟨β, hβ, by omega, by omega⟩

lemma AgreeOff.used (hl : Layout fs) (hp : p.Fits fs) {β : Book} (h : AgreeOff fs p β d d')
    (hβ : β.In fs) {b : ℕ} (hne : Book.bitmap (groupOf fs b) ≠ β) :
    (volOn fs p d' nodes n).used b = (volOn fs p d nodes n).used b := by
  simp only [volOn]
  split_ifs with hb
  · have hin : (Book.bitmap (groupOf fs b)).In fs := groupIn_groupOf hl hb
    refine bitAt_congr (h.window hl hp hβ hin hne ?_)
    have := bitOf_lt_bits hl b
    simp only [Book.len]
    omega
  · rfl

lemma AgreeOff.inodeUsed (hl : Layout fs) (hp : p.Fits fs) {β : Book} (h : AgreeOff fs p β d d')
    (hβ : β.In fs) {ino : ℕ} (hne : Book.inodeBitmap (inodeGroup fs ino) ≠ β) :
    (volOn fs p d' nodes n).inodeUsed ino = (volOn fs p d nodes n).inodeUsed ino := by
  simp only [volOn]
  split_ifs with hb
  · have hin : (Book.inodeBitmap (inodeGroup fs ino)).In fs := hp.groupIn_inodeGroup hb
    refine bitAt_congr (h.window hl hp hβ hin hne ?_)
    have := inodeBit_lt_bits hl ino
    simp only [Book.len]
    omega
  · rfl

lemma AgreeOff.free (hl : Layout fs) (hp : p.Fits fs) {β : Book} (h : AgreeOff fs p β d d')
    (hβ : β.In fs) {g : ℕ} (hne : Book.free g ≠ β) :
    (volOn fs p d' nodes n).free g = (volOn fs p d nodes n).free g := by
  simp only [volOn]
  split_ifs with hg
  · exact Bytes.le16_congr fun i hi => h.window hl hp hβ (show (Book.free g).In fs from hg) hne hi
  · rfl

lemma AgreeOff.freeInodes (hl : Layout fs) (hp : p.Fits fs) {β : Book} (h : AgreeOff fs p β d d')
    (hβ : β.In fs) {g : ℕ} (hne : Book.freeInodes g ≠ β) :
    (volOn fs p d' nodes n).freeInodes g = (volOn fs p d nodes n).freeInodes g := by
  simp only [volOn]
  split_ifs with hg
  · exact Bytes.le16_congr fun i hi =>
      h.window hl hp hβ (show (Book.freeInodes g).In fs from hg) hne hi
  · rfl

lemma AgreeOff.total (hl : Layout fs) (hp : p.Fits fs) {β : Book} (h : AgreeOff fs p β d d')
    (hβ : β.In fs) (hne : Book.total ≠ β) :
    (volOn fs p d' nodes n).total = (volOn fs p d nodes n).total :=
  Bytes.le32_congr fun _ hi => h.window hl hp hβ (show Book.total.In fs from trivial) hne hi

lemma AgreeOff.totalInodes (hl : Layout fs) (hp : p.Fits fs) {β : Book} (h : AgreeOff fs p β d d')
    (hβ : β.In fs) (hne : Book.totalInodes ≠ β) :
    (volOn fs p d' nodes n).totalInodes = (volOn fs p d nodes n).totalInodes :=
  Bytes.le32_congr fun _ hi => h.window hl hp hβ (show Book.totalInodes.In fs from trivial) hne hi

section Changes

variable (hl : Layout fs) (hp : p.Fits fs)

include hl hp

/-- A change of a block bitmap. -/
lemma volOn_bitmap {g : ℕ} (hg : GroupIn fs g) (h : AgreeOff fs p (.bitmap g) d d') :
    volOn fs p d' nodes n = { volOn fs p d nodes n with
      used := fun b => if InVolume fs b ∧ groupOf fs b = g then
          bitAt d' (8 * blockAddr fs (p.bitmap g) + bitOf fs b)
        else (volOn fs p d nodes n).used b } := by
  have hβ : (Book.bitmap g).In fs := hg
  refine Vol.ext ?_ (funext fun g => h.free hl hp hβ (by simp)) (h.total hl hp hβ (by simp))
    (funext fun i => h.inodeUsed hl hp hβ (by simp))
    (funext fun g => h.freeInodes hl hp hβ (by simp)) (h.totalInodes hl hp hβ (by simp)) (h.data hβ)
    rfl rfl
  funext b
  by_cases hb : groupOf fs b = g
  · by_cases hin : InVolume fs b
    · simp [volOn, hin, hb]
    · simp [volOn, hin]
  · simp only [hb, and_false, if_false]
    exact h.used hl hp hβ (by simpa using hb)

/-- A change of an inode bitmap. -/
lemma volOn_inodeBitmap {g : ℕ} (hg : GroupIn fs g) (h : AgreeOff fs p (.inodeBitmap g) d d') :
    volOn fs p d' nodes n = { volOn fs p d nodes n with
      inodeUsed := fun i => if InodeIn fs i ∧ inodeGroup fs i = g then
          bitAt d' (8 * blockAddr fs (p.inodeBitmap g) + inodeBit fs i)
        else (volOn fs p d nodes n).inodeUsed i } := by
  have hβ : (Book.inodeBitmap g).In fs := hg
  refine Vol.ext (funext fun b => h.used hl hp hβ (by simp))
    (funext fun g => h.free hl hp hβ (by simp)) (h.total hl hp hβ (by simp)) ?_
    (funext fun g => h.freeInodes hl hp hβ (by simp)) (h.totalInodes hl hp hβ (by simp)) (h.data hβ)
    rfl rfl
  funext i
  by_cases hb : inodeGroup fs i = g
  · by_cases hin : InodeIn fs i
    · simp [volOn, hin, hb]
    · simp [volOn, hin]
  · simp only [hb, and_false, if_false]
    exact h.inodeUsed hl hp hβ (by simpa using hb)

/-- A change of a group's counter of free blocks. -/
lemma volOn_free {g : ℕ} (hg : GroupIn fs g) (h : AgreeOff fs p (.free g) d d') :
    volOn fs p d' nodes n = { volOn fs p d nodes n with
      free :=
        Function.update (volOn fs p d nodes n).free g (Bytes.le16 d' (descAddr fs g + 12)) } := by
  have hβ : (Book.free g).In fs := hg
  refine Vol.ext (funext fun b => h.used hl hp hβ (by simp)) ?_ (h.total hl hp hβ (by simp))
    (funext fun i => h.inodeUsed hl hp hβ (by simp))
    (funext fun g => h.freeInodes hl hp hβ (by simp)) (h.totalInodes hl hp hβ (by simp)) (h.data hβ)
    rfl rfl
  funext g'
  by_cases hgg : g' = g
  · subst hgg
    simp [volOn, hg]
  · simp only [Function.update_of_ne hgg]
    exact h.free hl hp hβ (by simpa using hgg)

/-- A change of a group's counter of free inodes. -/
lemma volOn_freeInodes {g : ℕ} (hg : GroupIn fs g) (h : AgreeOff fs p (.freeInodes g) d d') :
    volOn fs p d' nodes n = { volOn fs p d nodes n with
      freeInodes := Function.update (volOn fs p d nodes n).freeInodes g
        (Bytes.le16 d' (descAddr fs g + 14)) } := by
  have hβ : (Book.freeInodes g).In fs := hg
  refine Vol.ext (funext fun b => h.used hl hp hβ (by simp))
    (funext fun g => h.free hl hp hβ (by simp)) (h.total hl hp hβ (by simp))
    (funext fun i => h.inodeUsed hl hp hβ (by simp)) ?_
    (h.totalInodes hl hp hβ (by simp)) (h.data hβ)
    rfl rfl
  funext g'
  by_cases hgg : g' = g
  · subst hgg
    simp [volOn, hg]
  · simp only [Function.update_of_ne hgg]
    exact h.freeInodes hl hp hβ (by simpa using hgg)

/-- A change of the superblock's counter of free blocks. -/
lemma volOn_total (h : AgreeOff fs p .total d d') :
    volOn fs p d' nodes n = { volOn fs p d nodes n with
      total := Bytes.le32 d' (superAddr fs + 12) } := by
  have hβ : Book.total.In fs := trivial
  exact Vol.ext (funext fun b => h.used hl hp hβ (by simp))
    (funext fun g => h.free hl hp hβ (by simp)) rfl (funext fun i => h.inodeUsed hl hp hβ (by simp))
    (funext fun g => h.freeInodes hl hp hβ (by simp)) (h.totalInodes hl hp hβ (by simp)) (h.data hβ)
    rfl rfl

/-- A change of the superblock's counter of free inodes. -/
lemma volOn_totalInodes (h : AgreeOff fs p .totalInodes d d') :
    volOn fs p d' nodes n = { volOn fs p d nodes n with
      totalInodes := Bytes.le32 d' (superAddr fs + 16) } := by
  have hβ : Book.totalInodes.In fs := trivial
  exact Vol.ext (funext fun b => h.used hl hp hβ (by simp))
    (funext fun g => h.free hl hp hβ (by simp)) (h.total hl hp hβ (by simp))
    (funext fun i => h.inodeUsed hl hp hβ (by simp))
    (funext fun g => h.freeInodes hl hp hβ (by simp)) rfl (h.data hβ) rfl rfl

/-- A change of what is not in the books. -/
lemma volOn_data (h : ∀ i, InBooks fs p i → d' i = d i) :
    volOn fs p d' nodes n = { volOn fs p d nodes n with
      data := (volOn fs p d' nodes n).data } := by
  have hwin : ∀ β : Book, β.In fs → ∀ i < β.len fs, d' (β.addr fs p + i) = d (β.addr fs p + i) :=
    fun β hβ i hi => h _ ⟨β, hβ, Nat.le_add_right _ _, Nat.add_lt_add_left hi _⟩
  refine Vol.ext (funext fun b => ?_) (funext fun g => ?_)
    (Bytes.le32_congr fun i hi => hwin .total trivial i hi) (funext fun ino => ?_)
    (funext fun g => ?_) (Bytes.le32_congr fun i hi => hwin .totalInodes trivial i hi) rfl rfl rfl
  · simp only [volOn]
    split_ifs with hb
    · have hlt := bitOf_lt_bits hl b
      exact bitAt_congr (hwin (.bitmap _) (groupIn_groupOf hl hb) _
        (show bitOf fs b / 8 < fs.blockSize by omega))
    · rfl
  · simp only [volOn]
    split_ifs with hg
    · exact Bytes.le16_congr fun i hi => hwin (.free g) hg i hi
    · rfl
  · simp only [volOn]
    split_ifs with hb
    · have hlt := inodeBit_lt_bits hl ino
      exact bitAt_congr (hwin (.inodeBitmap _) (hp.groupIn_inodeGroup hb) _
        (show inodeBit fs ino / 8 < fs.blockSize by omega))
    · rfl
  · simp only [volOn]
    split_ifs with hg
    · exact Bytes.le16_congr fun i hi => hwin (.freeInodes g) hg i hi
    · rfl

end Changes

/-! ## The volume in the driver -/

/-- The group descriptors say where the bitmaps and the inode tables are. -/
def Planned (fs : Ext2Fs) (p : Plan) (d : Bytes) : Prop :=
  ∀ g, GroupIn fs g → Bytes.le32 d (descAddr fs g) = p.bitmap g ∧
    Bytes.le32 d (descAddr fs g + 4) = p.inodeBitmap g ∧
    Bytes.le32 d (descAddr fs g + 8) = p.inodeTable g

/-- The volume `fs` in a state of the driver in which the drives never fail. -/
noncomputable def volView (fs : Ext2Fs) (p : Plan) : View Ext2State Vol where
  good s := s.blk.NoFail ∧ Planned fs p (s.blk.disk fs.dev)
  view s := volOn fs p (s.blk.disk fs.dev) s.nodePool s.nodePoolUsed

lemma Planned.congr (h : Planned fs p d)
    (hd : ∀ g, GroupIn fs g → ∀ i < 12, d' (descAddr fs g + i) = d (descAddr fs g + i)) :
    Planned fs p d' := by
  intro g hg
  obtain ⟨hb, hi, ht⟩ := h g hg
  refine ⟨?_, ?_, ?_⟩
  · rw [← hb]
    exact Bytes.le32_congr fun i hi => hd g hg i (by omega)
  · rw [← hi]
    refine Bytes.le32_congr fun i hi => ?_
    rw [Nat.add_assoc]
    exact hd g hg _ (by omega)
  · rw [← ht]
    refine Bytes.le32_congr fun i hi => ?_
    rw [Nat.add_assoc]
    exact hd g hg _ (by omega)

/-- The pointers of a descriptor are not in the books. -/
lemma Book.apart_pointers (hl : Layout fs) (hp : p.Fits fs) {β : Book} (hβ : β.In fs) {g : ℕ}
    (hg : GroupIn fs g) :
    β.addr fs p + β.len fs ≤ descAddr fs g ∨ descAddr fs g + 12 ≤ β.addr fs p := by
  have hdesc := descAddr_le hl hg
  cases hm : β.piece with
  | some m =>
    have := Book.high hl hp hm hβ
    omega
  | none =>
    have hsuper := superAddr_le hl
    have hbase : ∀ g, descAddr fs g = blockAddr fs (fs.firstDataBlock + 1) + 32 * g := fun _ => rfl
    cases β <;> simp only [Book.piece, reduceCtorEq] at hm <;>
      simp only [Book.addr, Book.len, hbase] <;> omega

lemma AgreeOff.planned (hl : Layout fs) (hp : p.Fits fs) {β : Book} (h : AgreeOff fs p β d d')
    (hβ : β.In fs) (hd : Planned fs p d) : Planned fs p d' :=
  hd.congr fun _ hg i hi => h _ (by have := Book.apart_pointers hl hp hβ hg; omega)

/-- A program that does to the drive what it should do to the volume. -/
lemma vol_of_raw {α : Type} {m : Program Ext2State α} {R : α → Vol → Prop} {v : Vol}
    (h : ∀ d, Planned fs p d → volOn fs p d v.nodes v.nodesUsed = v →
      (ext2View fs).wp m (fun r w => Planned fs p w.disk ∧ R r (volOn fs p w.disk w.nodes w.used))
        ⟨d, v.nodes, v.nodesUsed⟩) : (volView fs p).wp m R v := by
  rintro s ⟨hs, hplan⟩ rfl
  refine wp_mono (h (s.blk.disk fs.dev) hplan rfl s hs rfl) fun r s' hr => ?_
  exact ⟨⟨hr.1, hr.2.1⟩, hr.2.2⟩

/-- A program that only reads. -/
lemma vol_of_returns {α : Type} {m : Program Ext2State α} {v : Vol} {a : α}
    (h : ∀ d, Planned fs p d → volOn fs p d v.nodes v.nodesUsed = v →
      Returns fs m ⟨d, v.nodes, v.nodesUsed⟩ a) :
    (volView fs p).wp m (fun r v' => r = a ∧ v' = v) v := by
  refine vol_of_raw fun d hd hv => View.wp_mono (h d hd hv) ?_
  rintro r w ⟨rfl, rfl⟩
  exact ⟨hd, rfl, hv⟩

/-- Writing a block. -/
lemma raw_writeBlock (hl : Layout fs) (b : ℕ) (buf : Bytes) {w : Image} :
    (ext2View fs).wp (writeBlock fs b buf) (fun ok w' => ok = true ∧
      w' = { w with disk := Bytes.blit w.disk (blockAddr fs b) buf fs.blockSize }) w := by
  rintro s hs rfl
  have hspb := hl.spb.2
  rw [writeBlock, io, wp_zoom, wp_blkWrite hs]
  refine ⟨hs, rfl, ?_⟩
  simp only [ext2View, writeSectors, Function.update_self, Image.mk.injEq, and_true]
  rw [Nat.mod_eq_of_lt (by omega), ← hl.blockSize, blockAddr]

/-! ## Blocks that are not in the books -/

/-- The block holds neither books nor group descriptors. -/
def Plain (fs : Ext2Fs) (p : Plan) (b : ℕ) : Prop :=
  descEnd fs ≤ b ∧ ∀ g, GroupIn fs g → p.bitmap g ≠ b ∧ p.inodeBitmap g ≠ b

lemma Plain.not_inBooks (hl : Layout fs) {b i : ℕ} (h : Plain fs p b)
    (hi : blockAddr fs b ≤ i ∧ i < blockAddr fs b + fs.blockSize) : ¬InBooks fs p i := by
  rintro ⟨β, hβ, hlo, hhi⟩
  have hb := blockAddr_le hl h.1
  cases hm : β.piece with
  | none =>
    have := Book.low (p := p) hl hm hβ
    omega
  | some m =>
    obtain ⟨haddr, hlen, hin⟩ := @Book.of_piece fs p β m hm
    have hne : p.at m ≠ b := by
      cases β <;> cases hm
      · exact (h.2 _ hβ).1
      · exact (h.2 _ hβ).2
    have := blockAddr_apart hl hne
    omega

/-- The contents of a block that is not in the books. -/
def blockIn (fs : Ext2Fs) (v : Vol) (b : ℕ) : Bytes :=
  Bytes.clip fs.blockSize (Bytes.shift v.data (blockAddr fs b))

lemma blockIn_eq (hl : Layout fs) {b : ℕ} (h : Plain fs p b) :
    blockIn fs (volOn fs p d nodes n) b = blockOn fs d b := by
  rw [blockIn, blockOn_eq hl]
  refine Bytes.clip_congr fun i hi => ?_
  simp only [Bytes.shift, volOn]
  exact if_neg (h.not_inBooks hl ⟨Nat.le_add_right _ _, Nat.add_lt_add_left hi _⟩)

variable {v : Vol}

lemma vol_readBlock (hl : Layout fs) {b : ℕ} (h : Plain fs p b) :
    (volView fs p).wp (readBlock fs b) (fun r v' => r = some (blockIn fs v b) ∧ v' = v) v := by
  refine vol_of_returns fun d _ hv => ?_
  rw [← hv, blockIn_eq hl h]
  exact returns_readBlock b

/-- A write to bytes outside the books and the descriptors. -/
lemma volOn_blit (hl : Layout fs) (hp : p.Fits fs) {a len : ℕ} {src : Bytes}
    (h : ∀ i, a ≤ i → i < a + len → ¬InBooks fs p i) :
    volOn fs p (Bytes.blit d a src len) nodes n = { volOn fs p d nodes n with
      data := Bytes.blit (volOn fs p d nodes n).data a src len } := by
  have hsame : ∀ i, InBooks fs p i → Bytes.blit d a src len i = d i := fun i hi =>
    Bytes.blit_of_not_mem (by
      by_contra hin
      exact h i (by omega) (by omega) hi)
  rw [volOn_data hl hp hsame]
  refine Vol.ext rfl rfl rfl rfl rfl rfl (funext fun i => ?_) rfl rfl
  simp only [volOn]
  by_cases hin : a ≤ i ∧ i < a + len
  · rw [if_neg (h i hin.1 hin.2), Bytes.blit_of_mem hin, Bytes.blit_of_mem hin]
  · rw [Bytes.blit_of_not_mem (by omega), Bytes.blit_of_not_mem (by omega)]

lemma planned_blit (hl : Layout fs) {a len : ℕ} {src : Bytes} (h : blockAddr fs (descEnd fs) ≤ a)
    (hd : Planned fs p d) : Planned fs p (Bytes.blit d a src len) :=
  hd.congr fun _ hg _ _ => Bytes.blit_of_not_mem (by have := descAddr_le hl hg; omega)

lemma vol_writeBlock (hl : Layout fs) (hp : p.Fits fs) {b : ℕ} (h : Plain fs p b) (buf : Bytes) :
    (volView fs p).wp (writeBlock fs b buf) (fun ok v' => ok = true ∧
      v' = { v with data := Bytes.blit v.data (blockAddr fs b) buf fs.blockSize }) v := by
  refine vol_of_raw fun d hd hv => View.wp_mono (raw_writeBlock hl b buf) ?_
  rintro ok w ⟨rfl, rfl⟩
  refine ⟨planned_blit hl (blockAddr_le hl h.1) hd, rfl, ?_⟩
  rw [volOn_blit hl hp fun i hlo hhi => h.not_inBooks hl ⟨hlo, hhi⟩, hv]

/-! ## Inodes -/

/-- The address of an inode. -/
def inodeAddr (fs : Ext2Fs) (p : Plan) (ino : ℕ) : ℕ :=
  blockAddr fs (p.inodeTable (inodeGroup fs ino)) + inodeBit fs ino * fs.inodeSize

/-- The inode `ino`. -/
def inodeIn (fs : Ext2Fs) (p : Plan) (v : Vol) (ino : ℕ) : Bytes :=
  Bytes.clip 128 (Bytes.shift v.data (inodeAddr fs p ino))

/-- The fields of a descriptor in its block. -/
lemma desc_le32 (hl : Layout fs) (d : Bytes) {g k : ℕ} (hg : g < fs.groupsCount) (hk : k + 4 ≤ 32) :
    Bytes.le32 (blockOn fs d (locateBgd fs g).1) ((locateBgd fs g).2 + k) =
      Bytes.le32 d (descAddr fs g + k) := by
  obtain ⟨haddr, hoff⟩ := locateBgd_eq hl hg
  rw [blockOn_eq hl, Bytes.le32_clip (by omega), Bytes.le32_shift, ← haddr, Nat.add_assoc]

lemma desc_le16 (hl : Layout fs) (d : Bytes) {g k : ℕ} (hg : g < fs.groupsCount) (hk : k + 2 ≤ 32) :
    Bytes.le16 (blockOn fs d (locateBgd fs g).1) ((locateBgd fs g).2 + k) =
      Bytes.le16 d (descAddr fs g + k) := by
  obtain ⟨haddr, hoff⟩ := locateBgd_eq hl hg
  rw [blockOn_eq hl, Bytes.le16_clip (by omega), Bytes.le16_shift, ← haddr, Nat.add_assoc]

lemma u32_inode {ino : ℕ} (hl : Layout fs) (h : InodeIn fs ino) : u32sub ino 1 = ino - 1 := by
  have hlt := hl.inodes
  have hcount := hl.inodesCount
  have h1 := h.1
  have h2 := h.2
  unfold u32sub u32
  omega

/-- The block of the inode table of its group that an inode is in, counted from the first one. -/
def inodeBlock (fs : Ext2Fs) (ino : ℕ) : ℕ := inodeBit fs ino * fs.inodeSize / fs.blockSize

/-- An inode lies in one block of the inode table of its group. -/
lemma inode_piece (hl : Layout fs) (hp : p.Fits fs) {ino : ℕ} (h : InodeIn fs ino) :
    (Piece.table (inodeGroup fs ino) (inodeBlock fs ino)).In fs ∧
      blockAddr fs (p.inodeTable (inodeGroup fs ino) + inodeBlock fs ino) +
        inodeBit fs ino * fs.inodeSize % fs.blockSize = inodeAddr fs p ino ∧
      inodeBit fs ino * fs.inodeSize % fs.blockSize + 128 ≤ fs.blockSize := by
  have hbs := hl.blockSize_le
  have hbit := inodeBit_lt hl ino
  obtain ⟨hsize, hdvd⟩ := hl.inodeSize
  have hsize' : fs.inodeSize ≤ fs.blockSize := Nat.le_of_dvd (by omega) hdvd
  have hmul : inodeBit fs ino * fs.inodeSize + fs.inodeSize ≤ fs.inodesPerGroup * fs.inodeSize := by
    rw [← Nat.succ_mul]
    exact Nat.mul_le_mul_right _ hbit
  refine ⟨⟨hp.groupIn_inodeGroup h, ?_⟩, ?_, ?_⟩
  · unfold tableLen
    have hle := Nat.div_le_div_right (c := fs.blockSize) (show inodeBit fs ino * fs.inodeSize +
      fs.blockSize ≤ fs.inodesPerGroup * fs.inodeSize + fs.blockSize - 1 by omega)
    rw [Nat.add_div_right _ (by omega)] at hle
    exact hle
  · rw [inodeAddr, blockAddr_eq hl, blockAddr_eq hl, Nat.add_mul, inodeBlock]
    have := Nat.div_add_mod' (inodeBit fs ino * fs.inodeSize) fs.blockSize
    omega
  · -- the offset is a multiple of the size of an inode
    have hmod : fs.inodeSize ∣ inodeBit fs ino * fs.inodeSize % fs.blockSize :=
      (Nat.dvd_mod_iff hdvd).mpr (Nat.dvd_mul_left _ _)
    have hlt : inodeBit fs ino * fs.inodeSize % fs.blockSize < fs.blockSize :=
      Nat.mod_lt _ (by omega)
    obtain ⟨x, hx⟩ := hmod
    obtain ⟨y, hy⟩ := hdvd
    rw [hx, hy] at hlt ⊢
    have := Nat.mul_le_mul_left fs.inodeSize (Nat.lt_of_mul_lt_mul_left hlt)
    rw [Nat.mul_succ] at this
    omega

/-- Where the code finds an inode. -/
lemma inodePlace_eq (hl : Layout fs) (hp : p.Fits fs) (hd : Planned fs p d) {ino : ℕ}
    (h : InodeIn fs ino) :
    blockAddr fs (inodePlace fs d ino).1 + (inodePlace fs d ino).2 = inodeAddr fs p ino ∧
      (inodePlace fs d ino).2 + 128 ≤ fs.blockSize ∧ Plain fs p (inodePlace fs d ino).1 := by
  obtain ⟨hpiece, haddr, hoff⟩ := inode_piece hl hp h
  have hgroup := hpiece.1
  have hbs := hl.blockSize_le
  have hsize' : fs.inodeSize ≤ fs.blockSize := Nat.le_of_dvd (by omega) hl.inodeSize.2
  have hbit : inodeBit fs ino ≤ 8 * 4096 :=
    (inodeBit_lt hl ino).le.trans (hl.inodesPerGroup.2.trans (Nat.mul_le_mul_left 8 hbs.2))
  have htable : inodeBit fs ino * fs.inodeSize ≤ 8 * 4096 * 4096 :=
    Nat.mul_le_mul hbit (hsize'.trans hbs.2)
  have hbyte : u32 (inodeBit fs ino * fs.inodeSize) = inodeBit fs ino * fs.inodeSize :=
    Nat.mod_eq_of_lt (by omega)
  obtain ⟨hlow, hhigh⟩ := hp.range _ hpiece
  change descEnd fs ≤ p.inodeTable (inodeGroup fs ino) + inodeBlock fs ino at hlow
  change p.inodeTable (inodeGroup fs ino) + inodeBlock fs ino < fs.blocksCount at hhigh
  have hlast : fs.blocksCount < 2 ^ 32 := hl.blocksCount.trans_lt hl.blocks
  have hptr : bgInodeTable (blockOn fs d (locateBgd fs (inodeGroup fs ino)).1)
      (locateBgd fs (inodeGroup fs ino)).2 = p.inodeTable (inodeGroup fs ino) := by
    rw [bgInodeTable, desc_le32 hl d hgroup.1 (by norm_num)]
    exact (hd _ hgroup).2.2
  have hplace : inodePlace fs d ino = (p.inodeTable (inodeGroup fs ino) + inodeBlock fs ino,
      inodeBit fs ino * fs.inodeSize % fs.blockSize) := by
    unfold inodePlace locateInode
    simp only [u32_inode hl h]
    change (u32 (bgInodeTable (blockOn fs d (locateBgd fs (inodeGroup fs ino)).1)
      (locateBgd fs (inodeGroup fs ino)).2 + u32 (inodeBit fs ino * fs.inodeSize) / fs.blockSize),
      u32 (inodeBit fs ino * fs.inodeSize) % fs.blockSize) = _
    rw [hptr, hbyte, ← inodeBlock, u32, Nat.mod_eq_of_lt (hhigh.trans hlast)]
  rw [hplace]
  refine ⟨haddr, hoff, hlow, fun g hg => ⟨fun heq => ?_, fun heq => ?_⟩⟩
  · exact absurd (hp.inj (.bitmap g) (.table _ _) hg hpiece heq) (by simp)
  · exact absurd (hp.inj (.inodeBitmap g) (.table _ _) hg hpiece heq) (by simp)

/-- The 128 bytes of an inode are not in the books. -/
lemma inodeAddr_not_inBooks (hl : Layout fs) (hp : p.Fits fs) (hd : Planned fs p d) {ino : ℕ}
    (h : InodeIn fs ino) : blockAddr fs (descEnd fs) ≤ inodeAddr fs p ino ∧
      ∀ i, inodeAddr fs p ino ≤ i → i < inodeAddr fs p ino + 128 → ¬InBooks fs p i := by
  obtain ⟨haddr, hoff, hplain⟩ := inodePlace_eq hl hp hd h
  have hle := blockAddr_le hl hplain.1
  exact ⟨by omega, fun i hlo hhi => hplain.not_inBooks hl (by omega)⟩

lemma inodeIn_eq (hl : Layout fs) (hp : p.Fits fs) (hd : Planned fs p d) {ino : ℕ}
    (h : InodeIn fs ino) : inodeIn fs p (volOn fs p d nodes n) ino = inodeOn fs d ino := by
  obtain ⟨haddr, hoff, -⟩ := inodePlace_eq hl hp hd h
  have hbooks := (inodeAddr_not_inBooks hl hp hd h).2
  rw [inodeIn, inodeOn, blockOn_eq hl]
  refine Bytes.clip_congr fun i hi => ?_
  simp only [Bytes.shift, volOn]
  rw [if_neg (hbooks _ (Nat.le_add_right _ _) (by omega)), Bytes.clip_of_lt (by omega), ← haddr,
    Nat.add_assoc]
  rfl

lemma vol_readInode (hl : Layout fs) (hp : p.Fits fs) {ino : ℕ} (h : InodeIn fs ino) :
    (volView fs p).wp (readInode fs ino)
    (fun r v' => r = some (inodeIn fs p v ino) ∧ v' = v) v := by
  refine vol_of_returns fun d hd hv => ?_
  rw [← hv, inodeIn_eq hl hp hd h]
  exact returns_readInode ino

lemma vol_writeInode (hl : Layout fs) (hp : p.Fits fs) {ino : ℕ} (h : InodeIn fs ino)
    (inode : Bytes) :
    (volView fs p).wp (writeInode fs ino inode) (fun ok v' => ok = true ∧
      v' = { v with data := Bytes.blit v.data (inodeAddr fs p ino) inode 128 }) v := by
  refine vol_of_raw fun d hd hv => ?_
  obtain ⟨haddr, hoff, -⟩ := inodePlace_eq hl hp hd h
  obtain ⟨hlow, hbooks⟩ := inodeAddr_not_inBooks hl hp hd h
  refine (returns_loadInodeBlock ino).bind (View.wp_mono (raw_writeBlock hl _ _) ?_)
  rintro ok w ⟨rfl, rfl⟩
  simp only
  rw [blockOn_eq hl, Bytes.blit_readModify hoff, haddr]
  refine ⟨planned_blit hl hlow hd, trivial, ?_⟩
  rw [volOn_blit hl hp hbooks, hv]

end Ext2

end CoolFrost
