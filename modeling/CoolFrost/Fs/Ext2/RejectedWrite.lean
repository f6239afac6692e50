import CoolFrost.Fs.Ext2.OneFile

/-!
# ext2: writes that are rejected

`ext2_write` allocates all blocks first and writes the inode back at the end.  When the first block
cannot be had it returns 0 at once.  If the file needed its indirect block for that block, and the
volume had just the one block for it, that block stays marked as in use.
-/

namespace CoolFrost

open Program

namespace Ext2

variable {fs : Ext2Fs} {p : Plan} {v v' : Vol} {inode input : Bytes} {s : Ext2State}
  {node offset size : ℕ}

/-! ## Phase 1 -/

/-- What phase 1 comes to for a file that starts at the block `lb`. -/
def Phase1 (fs : Ext2Fs) (p : Plan) (v : Vol) (inode : Bytes) (lb : ℕ) (r : ℕ × Bytes) (v' : Vol) :
    Prop :=
  (0 < r.1 ∧ lb + r.1 ≤ 12 + ptrsPerBlock fs ∧ mapOf fs v' r.2 lb ≠ 0 ∧ IndirectOk fs p v' r.2 ∧
      usesExtents r.2 = false ∧ ¬Leaks fs v inode lb) ∨
    (r.1 = 0 ∧ v' = v ∧ ¬Leaks fs v inode lb) ∨ (r.1 = 0 ∧ v'.used ≠ v.used ∧ Leaks fs v inode lb)

lemma ptrsPerBlock_le (hl : Layout fs) : ptrsPerBlock fs ≤ 1024 := by
  have := hl.blockSize_le
  unfold ptrsPerBlock
  omega

lemma vol_allocBlocks (hl : Layout fs) (hp : p.Fits fs) (hr : Reserved fs p v)
    (hx : usesExtents inode = false) (hind : IndirectOk fs p v inode) {lb last : ℕ}
    (hle : lb ≤ last) :
    (volView fs p).wp (allocBlocks fs lb last inode) (Phase1 fs p v inode lb) v := by
  have hptrs := ptrsPerBlock_le hl
  -- after the first round the first block is there, and it stays there
  refine View.wp_iter (fun b v' => b.1 = lb + b.2.1 ∧ Reserved fs p v' ∧ IndirectOk fs p v' b.2.2 ∧
      usesExtents b.2.2 = false ∧ ((b.2.1 = 0 ∧ b.2.2 = inode ∧ v' = v) ∨ (0 < b.2.1 ∧
        lb + b.2.1 ≤ 12 + ptrsPerBlock fs ∧ mapOf fs v' b.2.2 lb ≠ 0 ∧ ¬Leaks fs v inode lb)))
    (fun b _ => 12 + ptrsPerBlock fs + 1 - b.1) ?_ ⟨rfl, hr, hind, hx, .inl ⟨rfl, rfl, rfl⟩⟩
    (by unfold loopFuel; omega)
  rintro ⟨b, got, inode₁⟩ v₁ ⟨hb, hr₁, hind₁, hx₁, hcase⟩
  simp only at hb hind₁ hx₁ hcase
  refine View.wp_ite (fun hblast => ?_) fun hblast => View.wp_pure ?_
  · refine View.wp_bind (vol_getOrAllocBlock hl hp hr₁ hx₁ hind₁ b) ?_
    rintro ⟨nb, inode₂⟩ v₂ ⟨hg, hr₂, -, -, -, -, hout⟩
    simp only at hg hout
    have hx₂ : usesExtents inode₂ = false := hg.extents.trans hx₁
    refine View.wp_ite (fun h0 => View.wp_pure ?_) fun h0 => View.wp_pure ?_
    · rcases hcase with ⟨rfl, rfl, rfl⟩ | ⟨hpos, hle', hmap, hleak⟩
      · rw [hb, Nat.add_zero] at hout
        rcases hout with ⟨hne, -⟩ | ⟨-, hv, hleak⟩ | ⟨-, hv, hleak⟩
        · exact absurd h0 hne
        · exact .inr (.inl ⟨rfl, hv, hleak⟩)
        · exact .inr (.inr ⟨rfl, hv, hleak⟩)
      · exact .inl ⟨hpos, hle', by rwa [hg.map lb hmap], hg.indirect, hx₂, hleak⟩
    · rcases hout with ⟨-, hmapb, hleakb⟩ | ⟨hz, -⟩ | ⟨hz, -⟩
      · have hlt := mapOf_lt (hmapb.trans_ne h0)
        refine ⟨⟨?_, hr₂, hg.indirect, hx₂, .inr ⟨Nat.succ_pos _, ?_, ?_, ?_⟩⟩, ?_⟩
        · simp only
          omega
        · simp only
          omega
        · rcases hcase with ⟨rfl, rfl, rfl⟩ | ⟨hpos, hle', hmap, hleak⟩
          · rw [hb, Nat.add_zero] at hmapb
            exact hmapb.trans_ne h0
          · simp only
            rwa [hg.map lb hmap]
        · rcases hcase with ⟨rfl, rfl, rfl⟩ | ⟨hpos, hle', hmap, hleak⟩
          · rwa [hb, Nat.add_zero] at hleakb
          · exact hleak
        · simp only
          omega
      · exact absurd hz h0
      · exact absurd hz h0
  · rcases hcase with ⟨rfl, rfl, rfl⟩ | ⟨hpos, hle', hmap, hleak⟩
    · rw [hb] at hblast
      exact absurd hle hblast
    · exact .inl ⟨hpos, hle', hmap, hind₁, hx₁, hleak⟩

/-! ## Phase 2 -/

/-- If the first block is there, then bytes are written. -/
lemma raw_writeLoop {w : Image} (hl : Layout fs) (hsize : 0 < size) (hlt : size < 2 ^ 32)
    (hmap : getBlockOn fs w.disk inode (u32 (offset / fs.blockSize)) ≠ 0) :
    (ext2View fs).wp (writeLoop fs inode offset size input) (fun r _ => 0 < r ∧ r ≤ size) w := by
  generalize hblk : u32 (offset / fs.blockSize) = blk at hmap
  refine @View.wp_iter _ _ _ _ _ _ w _ (fun b w => b ≤ size ∧
      (b = 0 → getBlockOn fs w.disk inode blk ≠ 0)) (fun b _ => size - b) loopFuel 0
    (fun b w hI => ?_) ⟨Nat.zero_le _, fun _ => hmap⟩ (by unfold loopFuel; omega)
  obtain ⟨hle, hfirst⟩ := hI
  have hend : ¬b < size ∨ b ≠ 0 → 0 < b ∧ b ≤ size := fun h => by omega
  refine View.wp_ite (fun hb => ?_) fun hb => View.wp_pure (hend (.inl hb))
  refine (returns_getBlock _ _).bind (View.wp_ite (fun h0 => View.wp_pure ?_) fun h0 => ?_)
  · refine hend (.inr fun hz => ?_)
    rw [hz, Nat.add_zero, hblk] at h0
    exact hfirst hz h0
  · have hmod := Nat.mod_lt (offset + b) hl.blockSize_pos
    refine (returns_readBlock _).bind (View.wp_bind (raw_writeBlock hl _ _) ?_)
    rintro _ w ⟨rfl, -⟩
    refine View.wp_ite (fun _ => View.wp_pure ?_) fun h => absurd rfl h
    exact ⟨⟨by omega, fun h => by omega⟩, by omega⟩

lemma raw_writeInode (hl : Layout fs) (ino : ℕ) (inode : Bytes) {w : Image} :
    (ext2View fs).wp (writeInode fs ino inode) (fun ok _ => ok = true) w :=
  (returns_loadInodeBlock ino).bind (View.wp_mono (raw_writeBlock hl _ _) fun _ _ h => h.1)

lemma raw_modifyNode (g : Ext2Node → Ext2Node) {w : Image} :
    (ext2View fs).wp (modifyNode node g) (fun _ _ => True) w :=
  View.wp_modify fun _ hs _ => ⟨hs, trivial⟩

lemma raw_writeData {w : Image} (hl : Layout fs) (hsize : 0 < size) (hlt : size < 2 ^ 31)
    (hmap : getBlockOn fs w.disk inode (u32 (offset / fs.blockSize)) ≠ 0) :
    (ext2View fs).wp (writeData fs node inode offset size input) (fun r _ => 0 < r) w := by
  refine View.wp_get fun _ _ _ => View.wp_bind (raw_writeLoop hl hsize (by omega) hmap) ?_
  rintro n w ⟨hpos, hle⟩
  refine View.wp_ite (fun h => by omega) fun _ => ?_
  refine View.wp_bind (raw_writeInode hl _ _) ?_
  rintro _ w rfl
  refine View.wp_ite (fun _ => ?_) fun h => absurd rfl h
  refine View.wp_bind (raw_modifyNode _) fun _ _ _ => View.wp_pure ?_
  rw [int32_of_lt (by omega)]
  exact_mod_cast hpos

/-! ## The whole write -/

/-- A node of a volume, with a plan of the volume: the volume is in order, and so is the inode. -/
structure MountedFile (fs : Ext2Fs) (p : Plan) (s : Ext2State) (node : ℕ) : Prop where
  layout : Layout fs
  fits : p.Fits fs
  good : (volView fs p).good s
  reserved : Reserved fs p ((volView fs p).view s)
  volume : (s.nodePool node).fs = fs
  inode : InodeIn fs (s.nodePool node).inode
  indirect : usesExtents (inodeIn fs p ((volView fs p).view s) (s.nodePool node).inode) = false →
    IndirectOk fs p ((volView fs p).view s)
      (inodeIn fs p ((volView fs p).view s) (s.nodePool node).inode)

/-- `ext2_write` goes as far as allocating blocks. -/
def Admitted (nd : Ext2Node) (inode : Bytes) (offset size : ℕ) : Prop :=
  nd.fs.writeSupported = true ∧ nd.type.isFile = true ∧ size ≠ 0 ∧ usesExtents inode = false ∧
    iSizeHigh inode = 0 ∧ offset ≤ iSize inode

/-- What a write comes to: bytes are written, or nothing happens, or a block is lost. -/
def WriteOutcome (fs : Ext2Fs) (p : Plan) (v : Vol) (leaks : Prop) (r : ℤ)
    (s' : Ext2State) : Prop :=
  (0 < r ∧ ¬leaks) ∨ (r ≤ 0 ∧ (volView fs p).view s' = v ∧ ¬leaks) ∨
    (r ≤ 0 ∧ ((volView fs p).view s').used ≠ v.used ∧ leaks)

lemma wp_ext2Write (h : MountedFile fs p s node) (hsize : size < 2 ^ 32) :
    wp (ext2Write node offset size input) (WriteOutcome fs p ((volView fs p).view s)
      (Admitted (s.nodePool node)
          (inodeIn fs p ((volView fs p).view s) (s.nodePool node).inode) offset size ∧
        Leaks fs ((volView fs p).view s)
          (inodeIn fs p ((volView fs p).view s) (s.nodePool node).inode) (offset / fs.blockSize)))
          s := by
  obtain ⟨hl, hp, hs, hr, hfs, hino, hind⟩ := h
  generalize hv : (volView fs p).view s = v at *
  generalize hn : s.nodePool node = nd at *
  generalize hi : inodeIn fs p v nd.inode = inode at *
  have hbs := hl.blockSize_le
  -- a guard that fails leaves everything as it is
  have hguard : ∀ r : ℤ, ¬Admitted nd inode offset size → r ≤ 0 → wp (pure r)
      (WriteOutcome fs p v (Admitted nd inode offset size ∧
        Leaks fs v inode (offset / fs.blockSize))) s := fun r hadm hr =>
    (wp_pure _ _ _).mpr (.inr (.inl ⟨hr, hv, fun hleak => hadm hleak.1⟩))
  unfold ext2Write
  rw [wp_bind, wp_get]
  extract_lets nd' fs' firstBlk lastBlk
  have hnd' : nd' = nd := hn
  have hfs' : fs' = fs := by rw [← hfs, ← hnd']
  rw [hfs', hnd']
  refine wp_ite_intro (fun h1 => hguard _ (fun h => by simp [← hfs, h.1] at h1) (by norm_num))
    fun h1 => ?_
  refine wp_ite_intro (fun h2 => hguard _ (fun h => by simp [h.2.1] at h2) (by norm_num))
    fun h2 => ?_
  refine wp_ite_intro (fun h3 => hguard _ (fun h => h.2.2.1 h3) le_rfl) fun h3 => ?_
  have hread := vol_readInode (v := v) hl hp hino
  rw [← hv] at hread
  refine View.wp_bind_state hs hread ?_
  rintro _ s₁ hs₁ ⟨rfl, hv₁⟩
  rw [hv] at hv₁
  rw [hv, hi]
  simp only
  have hguard : ∀ r : ℤ, ¬Admitted nd inode offset size → r ≤ 0 → wp (pure r)
      (WriteOutcome fs p v (Admitted nd inode offset size ∧
        Leaks fs v inode (offset / fs.blockSize))) s₁ := fun r hadm hr =>
    (wp_pure _ _ _).mpr (.inr (.inl ⟨hr, hv₁, fun hleak => hadm hleak.1⟩))
  refine wp_ite_intro (fun h4 => hguard _ (fun h => by simp [h.2.2.2.1] at h4) (by norm_num))
    fun h4 => ?_
  refine wp_ite_intro (fun h5 => hguard _ (fun h => h5 h.2.2.2.2.1) (by norm_num)) fun h5 => ?_
  refine wp_ite_intro (fun h6 => hguard _ (fun h => absurd h.2.2.2.2.2 (by omega)) (by norm_num))
    fun h6 => ?_
  have hx : usesExtents inode = false := by simpa using h4
  have hadm : Admitted nd inode offset size :=
    ⟨by simpa [hfs] using h1, by simpa using h2, h3, hx, not_not.mp h5, Nat.le_of_not_lt h6⟩
  have hlt := Bytes.le32_lt inode 4
  rw [iSize] at h6
  have hu : u32 (offset / fs.blockSize) = offset / fs.blockSize := by
    have hdiv := Nat.div_le_self offset fs.blockSize
    exact Nat.mod_eq_of_lt (by omega)
  have hfirst : firstBlk = offset / fs.blockSize := by rw [← hu, ← hfs']
  have hlast : lastBlk = (offset + size - 1) / fs.blockSize := by
    rw [← hfs']
    refine Nat.mod_eq_of_lt (Nat.div_lt_of_lt_mul ?_)
    rw [hfs']
    omega
  have hle : firstBlk ≤ lastBlk := by
    rw [hfirst, hlast]
    exact Nat.div_le_div_right (by omega)
  have halloc := vol_allocBlocks hl hp hr hx (hind hx) hle
  rw [← hv₁] at halloc
  refine View.wp_bind_state hs₁ halloc ?_
  rintro ⟨got, inode₂⟩ s₂ hs₂ hphase
  rw [hv₁, hfirst] at hphase
  simp only
  -- without the first block the write ends
  have hnone : got = 0 → min (offset + size) (u32 (firstBlk + got) * fs.blockSize)
      - offset = 0 := by
    rintro rfl
    have hmul := Nat.div_mul_le_self offset fs.blockSize
    rw [Nat.add_zero, hfirst, hu]
    omega
  rcases hphase with ⟨hpos, hbound, hmap, hind₂, hx₂, hleak⟩ | ⟨hgot, hv₂,
    hleak⟩ | ⟨hgot, hv₂, hleak⟩
  · -- the first block is there, so bytes are written
    simp only at hpos hbound hmap hind₂ hx₂
    have hptrs := ptrsPerBlock_le hl
    have hsum : u32 (firstBlk + got) = firstBlk + got := Nat.mod_eq_of_lt (by omega)
    have hlo : offset < (firstBlk + got) * fs.blockSize := by
      rw [← Nat.div_lt_iff_lt_mul hl.blockSize_pos, ← hfirst]
      omega
    have hhi : (firstBlk + got) * fs.blockSize ≤ 1036 * 4096 :=
      Nat.mul_le_mul (by omega) hbs.2
    rw [hsum]
    refine wp_ite_intro (fun h => by omega) fun h7 => ?_
    have hgoal : getBlockOn fs (s₂.blk.disk fs.dev) inode₂ (u32 (offset / fs.blockSize)) ≠ 0 := by
      rw [hu, getBlockOn_eq hl hx₂ hind₂ (mapOf_lt hmap)]
      exact hmap
    have hdata : (ext2View fs).wp (writeData fs node inode₂ offset
        (min (offset + size) ((firstBlk + got) * fs.blockSize) - offset) input) (fun r _ => 0 < r)
        ((ext2View fs).view s₂) := raw_writeData hl (Nat.pos_of_ne_zero h7) (by omega) hgoal
    exact wp_mono (hdata s₂ hs₂.1 rfl) fun r _ hr => .inl ⟨hr.2, fun h => hleak h.2⟩
  · refine wp_ite_intro (fun _ => ?_) fun h => absurd (hnone hgot) h
    exact (wp_pure _ _ _).mpr (.inr (.inl ⟨le_rfl, hv₂, fun h => hleak h.2⟩))
  · refine wp_ite_intro (fun _ => ?_) fun h => absurd (hnone hgot) h
    exact (wp_pure _ _ _).mpr (.inr (.inr ⟨le_rfl, hv₂, hadm, hleak⟩))

/-- The books of the volume, the inode and its indirect block are as before. -/
structure SameBooks (fs : Ext2Fs) (p : Plan) (ino : ℕ) (v v' : Vol) : Prop where
  used : v'.used = v.used
  free : v'.free = v.free
  total : v'.total = v.total
  inodeUsed : v'.inodeUsed = v.inodeUsed
  freeInodes : v'.freeInodes = v.freeInodes
  totalInodes : v'.totalInodes = v.totalInodes
  inode : inodeIn fs p v' ino = inodeIn fs p v ino
  indirect : blockIn fs v' (iBlock (inodeIn fs p v ino) 12) =
    blockIn fs v (iBlock (inodeIn fs p v ino) 12)

lemma SameBooks.of_eq {ino : ℕ} (h : v' = v) : SameBooks fs p ino v v' := by
  rw [h]
  exact ⟨rfl, rfl, rfl, rfl, rfl, rfl, rfl, rfl⟩

lemma wp_rejected_iff {leaks : Prop} {m : Program Ext2State ℤ} {ino : ℕ}
    (h : wp m (WriteOutcome fs p v leaks) s) :
    wp m (fun r s' => r ≤ 0 → SameBooks fs p ino v ((volView fs p).view s')) s ↔ ¬leaks := by
  obtain ⟨r, s', hm, hout⟩ := h
  constructor
  · intro hsame hleaks
    have hr := wlp_of_wp hsame r s' hm
    rcases hout with ⟨-, hno⟩ | ⟨-, -, hno⟩ | ⟨hle, hne, -⟩
    · exact hno hleaks
    · exact hno hleaks
    · exact hne (hr hle).used
  · intro hno
    refine ⟨r, s', hm, fun hle => ?_⟩
    rcases hout with ⟨hpos, -⟩ | ⟨-, heq, -⟩ | ⟨-, -, hleaks⟩
    · omega
    · exact SameBooks.of_eq heq
    · exact absurd hleaks hno

/-- A write that returns 0 or an error leaves the books, the inode and the indirect block as they
are, unless it gets the last free block for the indirect block of the file and none for the data. -/
theorem rejectedWrite_unchanged_iff (h : MountedFile fs p s node) (hsize : size < 2 ^ 32) :
    wp (ext2Write node offset size input) (fun r s' => r ≤ 0 →
        SameBooks fs p (s.nodePool node).inode ((volView fs p).view s) ((volView fs p).view s')) s ↔
      ¬(Admitted (s.nodePool node)
          (inodeIn fs p ((volView fs p).view s) (s.nodePool node).inode) offset size ∧
        Leaks fs ((volView fs p).view s)
          (inodeIn fs p ((volView fs p).view s) (s.nodePool node).inode) (offset / fs.blockSize)) :=
  wp_rejected_iff (wp_ext2Write h hsize)

/-- A file of 12 blocks on a volume with a number of other blocks that are free. -/
def twelveBlocks (free : ℕ) : OneFile := ⟨1, 8192, 19 + free, (List.range 12).map (7 + ·), 12288⟩

/-- The file fills its volume. -/
abbrev full : OneFile := twelveBlocks 0

/-- The file fills its volume up to one block. -/
abbrev nearlyFull : OneFile := twelveBlocks 1

lemma twelveBlocks_ok {free : ℕ} (h : free < 2) : (twelveBlocks free).Ok := by
  interval_cases free <;> exact ⟨by decide, by decide, by decide⟩

lemma twelveBlocks_inode {free : ℕ} (h : free < 2) :
    inodeIn (twelveBlocks free).fs (twelveBlocks free).plan (twelveBlocks free).vol 12 =
      inodeOn (twelveBlocks free).fs (twelveBlocks free).drive 12 :=
  (twelveBlocks_ok h).inodeIn_vol (by interval_cases free <;> decide)

lemma twelveBlocks_mounted {free : ℕ} (h : free < 2) :
    MountedFile (twelveBlocks free).fs (twelveBlocks free).plan (twelveBlocks free).state 0 where
  layout := (twelveBlocks_ok h).layout
  fits := (twelveBlocks_ok h).fits
  good := (twelveBlocks_ok h).good
  reserved := (twelveBlocks_ok h).reserved (by interval_cases free <;> decide)
    (by interval_cases free <;> decide)
  volume := rfl
  inode := by interval_cases free <;> decide
  indirect _ := .inl (by
    change iBlock (inodeIn (twelveBlocks free).fs (twelveBlocks free).plan
      (twelveBlocks free).vol 12)
      12 = 0
    rw [twelveBlocks_inode h]
    interval_cases free <;> decide)

lemma full_mounted : MountedFile full.fs full.plan full.state 0 := twelveBlocks_mounted (by decide)

lemma nearlyFull_mounted : MountedFile nearlyFull.fs nearlyFull.plan nearlyFull.state 0 :=
  twelveBlocks_mounted (by decide)

/-- Block 19 is the last one. -/
lemma nearlyFull_leaks : Leaks nearlyFull.fs nearlyFull.vol
    (inodeIn nearlyFull.fs nearlyFull.plan nearlyFull.vol 12) (12288 / 1024) := by
  have hav : Available nearlyFull.fs nearlyFull.vol 19 := ⟨by decide, by decide, by decide⟩
  have hv : Bounded nearlyFull.vol := bounded_volOn
  refine ⟨?_, by norm_num, by decide, 19, hav, fun b hb => ?_⟩
  · rw [twelveBlocks_inode (by decide)]
    decide
  · rw [available_take hv hav] at hb
    have hlt : b < 20 := hb.1.1.2
    have hused := hb.1.2.1
    have hall : ∀ b < 19, nearlyFull.vol.used b = true := by decide
    rw [hall b (by have := hb.2.1; omega)] at hused
    cases hused

/-- One byte behind the 12 blocks of the file is refused when no block is free. -/
theorem rejectedWrite_unchanged_iff_full :
    wp (ext2Write 0 12288 1 Bytes.zeros)
      (fun r s' => r = 0 ∧ SameBooks full.fs full.plan 12 full.vol
      ((volView full.fs full.plan).view s')) full.state := by
  have hno : ∀ b, ¬Available full.fs full.vol b := by
    intro b hb
    have hlt : b < 19 := hb.1.2
    have hall : ∀ b < 19, full.vol.used b = true := by decide
    have hused := hb.2.1
    rw [hall b hlt] at hused
    cases hused
  have hsame : wp (ext2Write 0 12288 1 Bytes.zeros) (fun r s' => r ≤ 0 →
    SameBooks full.fs full.plan 12
      full.vol ((volView full.fs full.plan).view s')) full.state :=
    (rejectedWrite_unchanged_iff full_mounted (by norm_num)).mpr fun h => by
      obtain ⟨-, -, -, -, r, hr, -⟩ := h
      exact hno r hr
  have hzero : (ext2Write 0 12288 1 Bytes.zeros full.state).map Prod.fst = some 0 :=
    by decide +kernel
  obtain ⟨⟨r, s'⟩, hrun, hr⟩ := Option.map_eq_some_iff.mp hzero
  exact ⟨r, s', hrun, hr, wlp_of_wp hsame r s' hrun hr.le⟩

/-- One byte behind the 12 blocks of the file: block 19 is taken for the indirect block. -/
theorem not_rejectedWrite_unchanged : ¬ ∀ (fs : Ext2Fs) (p : Plan) (s : Ext2State)
    (node offset size : ℕ) (input : Bytes), MountedFile fs p s node → fs.writeSupported = true →
    (s.nodePool node).type.isFile = true → size < 2 ^ 32 →
    wp (ext2Write node offset size input) (fun r s' => r ≤ 0 →
      SameBooks fs p (s.nodePool node).inode ((volView fs p).view s)
      ((volView fs p).view s')) s := by
  intro h
  have hsame := h _ _ _ 0 12288 1 Bytes.zeros nearlyFull_mounted rfl rfl (by norm_num)
  rw [wp_rejected_iff (wp_ext2Write nearlyFull_mounted (by norm_num))] at hsame
  refine hsame ⟨⟨rfl, rfl, by norm_num, ?_, ?_, ?_⟩, nearlyFull_leaks⟩
  · change usesExtents (inodeIn nearlyFull.fs nearlyFull.plan nearlyFull.vol 12) = false
    rw [twelveBlocks_inode (by decide)]
    decide
  · change iSizeHigh (inodeIn nearlyFull.fs nearlyFull.plan nearlyFull.vol 12) = 0
    rw [twelveBlocks_inode (by decide)]
    decide
  · change 12288 ≤ iSize (inodeIn nearlyFull.fs nearlyFull.plan nearlyFull.vol 12)
    rw [twelveBlocks_inode (by decide)]
    decide

end Ext2

end CoolFrost
