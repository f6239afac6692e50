import CoolFrost.Fs.Ext2.Blocks

/-!
# ext2: reading a file with holes

A logical block that no pointer and no written extent maps reads as zeros.  `ext2_read` stops in
front of such a block instead, and to a caller that reads until it gets 0 the file ends there.
-/

namespace CoolFrost

open Program

namespace Ext2

variable {fs : Ext2Fs} {v : Image} {d inode : Bytes} {offset size : ℕ} {out : Bytes}

/-! ## What a read should give -/

/-- Whether the byte number `i` of a file is in a block of the drive, not in a hole. -/
def Mapped (fs : Ext2Fs) (d inode : Bytes) (i : ℕ) : Prop :=
  getBlockOn fs d inode (i / fs.blockSize) ≠ 0

instance (i : ℕ) : Decidable (Mapped fs d inode i) := inferInstanceAs (Decidable (_ ≠ _))

/-- The contents of a file, with zeros in its holes. -/
def contentsOn (fs : Ext2Fs) (d inode : Bytes) : Bytes := fun i =>
  if Mapped fs d inode i then
    blockOn fs d (getBlockOn fs d inode (i / fs.blockSize)) (i % fs.blockSize)
  else 0

/-- The number of bytes of a file among the `size` bytes from `offset` on. -/
def windowLength (inode : Bytes) (offset size : ℕ) : ℕ := min size (iSize inode - offset)

/-- The return value and the buffer are those of a read of the first `n` bytes of a window. -/
def ReadsBytes (fs : Ext2Fs) (d inode : Bytes) (offset : ℕ) (out : Bytes) (n : ℕ)
    (r : ℤ × Bytes) : Prop :=
  r = ((n : ℤ), Bytes.blit out 0 (Bytes.shift (contentsOn fs d inode) offset) n)

/-- The first `n` bytes of a window of `len` bytes are in no hole, and the next one is, unless the
window ends there. -/
structure UpToHole (fs : Ext2Fs) (d inode : Bytes) (offset len n : ℕ) : Prop where
  le : n ≤ len
  mapped : ∀ k < n, Mapped fs d inode (offset + k)
  hole : n < len → ¬Mapped fs d inode (offset + n)

/-- A window is read to its end exactly when there is no hole in it. -/
lemma UpToHole.eq_iff {len n : ℕ} (h : UpToHole fs d inode offset len n) :
    n = len ↔ ∀ k < len, Mapped fs d inode (offset + k) := by
  constructor
  · rintro rfl
    exact h.mapped
  · intro hall
    by_contra hne
    have hlt : n < len := lt_of_le_of_ne h.le hne
    exact h.hole hlt (hall n hlt)

/-! ## What `ext2_read` gives -/

/-- Within a block the next bytes of a file are the next bytes of the block. -/
lemma contentsOn_add (hbs : 0 < fs.blockSize) {p i : ℕ} (hp : Mapped fs d inode p)
    (hi : i < fs.blockSize - p % fs.blockSize) :
    Mapped fs d inode (p + i) ∧ contentsOn fs d inode (p + i) =
      blockOn fs d (getBlockOn fs d inode (p / fs.blockSize)) (p % fs.blockSize + i) := by
  have hmod := Nat.mod_lt p hbs
  have hsplit : p + i = p % fs.blockSize + i + fs.blockSize * (p / fs.blockSize) := by
    have hp := Nat.mod_add_div p fs.blockSize
    omega
  have hdiv : (p + i) / fs.blockSize = p / fs.blockSize := by
    rw [hsplit, Nat.add_mul_div_left _ _ hbs, Nat.div_eq_of_lt (by omega), Nat.zero_add]
  have hrem : (p + i) % fs.blockSize = p % fs.blockSize + i := by
    rw [hsplit, Nat.add_mul_mod_self_left, Nat.mod_eq_of_lt (by omega)]
  have hmapped : Mapped fs d inode (p + i) := by
    rw [Mapped, hdiv]
    exact hp
  refine ⟨hmapped, ?_⟩
  rw [contentsOn, if_pos hmapped, hdiv, hrem]

/-- The loop stops at the end of the window or in front of a hole. -/
lemma wp_readLoop (hbs : 0 < fs.blockSize) (hsize : size < 2 ^ 31)
    (hend : offset + size ≤ iSize inode) :
    (ext2View fs).wp (readLoop fs inode offset size out) (fun r v' => v' = v ∧
      ∃ n, UpToHole fs v.disk inode offset size n ∧
      ReadsBytes fs v.disk inode offset out n r) v := by
  have hlim : iSize inode < 2 ^ 32 := Bytes.le32_lt inode 4
  refine View.wp_iter (fun p v' => v' = v ∧ p.1 ≤ size ∧
      (∀ k < p.1, Mapped fs v.disk inode (offset + k)) ∧
      p.2 = Bytes.blit out 0 (Bytes.shift (contentsOn fs v.disk inode) offset) p.1)
    (fun p _ => size - p.1) ?_ ⟨rfl, Nat.zero_le _, by simp, by rw [Bytes.blit_zero_len]⟩ ?_
  · rintro ⟨got, out'⟩ v ⟨rfl, hgot, hmapped, hout⟩
    simp only at hgot hmapped hout
    refine View.wp_ite (fun hlt => ?_) fun hge => View.wp_pure ?_
    · have hcur : u32 (offset + got) = offset + got := Nat.mod_eq_of_lt (by omega)
      simp only [hcur]
      refine (returns_getBlock inode _).bind ?_
      refine View.wp_ite (fun hzero => View.wp_pure ?_) fun hne => ?_
      · have hhole : ¬Mapped fs v.disk inode (offset + got) := fun h => h hzero
        exact ⟨rfl, got, ⟨hgot, hmapped, fun _ => hhole⟩, by
          rw [ReadsBytes, hout, int32_of_lt (by omega)]⟩
      · refine (returns_readBlock _).bind (View.wp_pure ?_)
        have hpos : 0 < fs.blockSize - (offset + got) % fs.blockSize :=
          Nat.sub_pos_of_lt (Nat.mod_lt _ hbs)
        refine ⟨⟨rfl, by simp only; omega, fun k hk => ?_, ?_⟩, by simp only; omega⟩
        · rcases Nat.lt_or_ge k got with hk' | hk'
          · exact hmapped k hk'
          · have hk'' : offset + k = offset + got + (k - got) := by omega
            rw [hk'']
            exact (contentsOn_add hbs hne (by simp only at hk; omega)).1
        · simp only
          rw [hout, ← Bytes.blit_append, Nat.zero_add]
          refine Bytes.blit_congr fun i hi => ?_
          rw [Bytes.shift, Bytes.shift, Bytes.shift, ← Nat.add_assoc,
            (contentsOn_add hbs hne (by omega)).2]
    · obtain rfl : got = size := by omega
      exact ⟨rfl, got, ⟨le_rfl, hmapped, fun h => absurd h (lt_irrefl _)⟩, by
        rw [ReadsBytes, hout, int32_of_lt hsize]⟩
  · simp only [loopFuel]
    omega

/-- `ext2_read` stops at the end of the window or in front of a hole. -/
lemma wp_ext2Read {node : ℕ} (hfs : (v.nodes node).fs = fs) (hbs : 0 < fs.blockSize)
    (hsize : size < 2 ^ 31) (hinode : inodeOn fs v.disk (v.nodes node).inode = inode) :
    (ext2View fs).wp (ext2Read node offset size out) (fun r v' => v' = v ∧
      ∃ n, UpToHole fs v.disk inode offset (windowLength inode offset size) n ∧
        ReadsBytes fs v.disk inode offset out n r) v := by
  refine View.wp_get fun s hs hv => ?_
  subst hv
  change (s.nodePool node).fs = fs at hfs
  simp only [hfs]
  have hread : Returns fs _ ((ext2View fs).view s) _ := returns_readInode (s.nodePool node).inode
  rw [show inodeOn fs ((ext2View fs).view s).disk (s.nodePool node).inode =
    inode from hinode] at hread
  refine hread.bind ?_
  have hlim : iSize inode < 2 ^ 32 := Bytes.le32_lt inode 4
  refine View.wp_ite (fun hge => View.wp_pure ⟨rfl, 0, ?_, ?_⟩) fun hlt => ?_
  · have hlen : windowLength inode offset size = 0 := by
      rw [windowLength]
      omega
    exact ⟨Nat.zero_le _, by simp, by simp [hlen]⟩
  · rw [ReadsBytes, Bytes.blit_zero_len]
    rfl
  · have hlen : (if iSize inode < offset + size then u32 (iSize inode - offset) else size) =
        windowLength inode offset size := by
      have hu : u32 (iSize inode - offset) = iSize inode - offset := Nat.mod_eq_of_lt (by omega)
      rw [hu, windowLength]
      split_ifs <;> omega
    rw [hlen]
    exact wp_readLoop hbs (by rw [windowLength]; omega) (by rw [windowLength]; omega)

/-! ## A caller that reads until it gets 0 -/

/-- A caller that reads `chunk` bytes after the other until it gets nothing: how many bytes it got,
and where it put them. -/
def readUntilZero (node chunk : ℕ) (out : Bytes) : Program Ext2State (ℕ × Bytes) :=
  iter (fun (pos, out) => do
    let (n, buf) ← ext2Read node pos chunk Bytes.zeros
    if n ≤ 0 then return .inr (pos, out)
    else return .inl (pos + n.toNat, Bytes.blit out pos buf n.toNat)) loopFuel (0, out)

/-- The caller stops at the end of the file or in front of its first hole. -/
lemma wp_readUntilZero {node chunk : ℕ} (hfs : (v.nodes node).fs = fs) (hbs : 0 < fs.blockSize)
    (hchunk : 0 < chunk) (hsize : chunk < 2 ^ 31)
    (hinode : inodeOn fs v.disk (v.nodes node).inode = inode) :
    (ext2View fs).wp (readUntilZero node chunk out) (fun r v' => v' = v ∧
      ∃ n, UpToHole fs v.disk inode 0 (iSize inode) n ∧
        r = (n, Bytes.blit out 0 (contentsOn fs v.disk inode) n)) v := by
  have hlim : iSize inode < 2 ^ 32 := Bytes.le32_lt inode 4
  refine View.wp_iter (fun p v' => v' = v ∧ p.1 ≤ iSize inode ∧
      (∀ k < p.1, Mapped fs v.disk inode k) ∧
      p.2 = Bytes.blit out 0 (contentsOn fs v.disk inode) p.1)
    (fun p _ => iSize inode - p.1) ?_ ⟨rfl, Nat.zero_le _, by simp, by rw [Bytes.blit_zero_len]⟩ ?_
  · rintro ⟨pos, out'⟩ v ⟨rfl, hpos, hmapped, hout⟩
    simp only at hpos hmapped hout
    refine View.wp_bind (wp_ext2Read hfs hbs hsize hinode) ?_
    rintro _ v ⟨rfl, n, hn, rfl⟩
    have hle : n ≤ iSize inode - pos := hn.le.trans (min_le_right _ _)
    simp only
    refine View.wp_ite (fun hzero => View.wp_pure ⟨rfl, pos, ⟨hpos, ?_, ?_⟩, by rw [hout]⟩)
      fun hne => View.wp_pure ⟨⟨rfl, ?_, ?_, ?_⟩, ?_⟩
    · simpa using hmapped
    · intro hlt
      have hn0 : n = 0 := by omega
      have hhole := hn.hole (by rw [windowLength]; omega)
      rwa [hn0, Nat.add_zero, ← Nat.zero_add pos] at hhole
    · simp only [Int.toNat_natCast]
      omega
    · intro k hk
      simp only [Int.toNat_natCast] at hk
      rcases Nat.lt_or_ge k pos with hk' | hk'
      · exact hmapped k hk'
      · have hk'' := hn.mapped (k - pos) (by omega)
        rwa [Nat.add_sub_cancel' hk'] at hk''
    · simp only [Int.toNat_natCast]
      rw [hout, ← Bytes.blit_append, Nat.zero_add]
      refine Bytes.blit_congr fun i hi => ?_
      rw [Bytes.blit_start hi]
    · simp only [Int.toNat_natCast]
      omega
  · simp only [loopFuel]
    omega

/-! ## When a read returns the whole window -/

/-- The inode of a node, on its drive. -/
def inodeOf (s : Ext2State) (node : ℕ) : Bytes :=
  inodeOn (s.nodePool node).fs (s.blk.disk (s.nodePool node).fs.dev) (s.nodePool node).inode

/-- The drive of a node. -/
def driveOf (s : Ext2State) (node : ℕ) : Bytes := s.blk.disk (s.nodePool node).fs.dev

/-- A test that says which of its results are good, of a program that returns in one way. -/
lemma wp_iff_of_forall {α : Type} {m : Program Ext2State α} {P : Prop}
    {Q : α → Prop} {s : Ext2State}
    (h : wp m (fun r _ => Q r ↔ P) s) : wp m (fun r _ => Q r) s ↔ P := by
  obtain ⟨r, s', hm, hr⟩ := h
  constructor
  · intro hq
    exact hr.mp (wlp_of_wp hq r s' hm)
  · exact fun hp => ⟨r, s', hm, hr.mpr hp⟩

lemma wp_ext2Read_iff {s : Ext2State} (hs : s.blk.NoFail) {node : ℕ}
    (hbs : 0 < (s.nodePool node).fs.blockSize) (hsize : size < 2 ^ 31) :
    wp (ext2Read node offset size out) (fun r _ => ReadsBytes (s.nodePool node).fs (driveOf s node)
        (inodeOf s node) offset out (windowLength (inodeOf s node) offset size) r) s ↔
      ∀ k < windowLength (inodeOf s node) offset size,
        Mapped (s.nodePool node).fs (driveOf s node) (inodeOf s node) (offset + k) := by
  have hread : (ext2View (s.nodePool node).fs).wp (ext2Read node offset size out) _
    ((ext2View (s.nodePool node).fs).view s) := wp_ext2Read rfl hbs hsize rfl
  refine wp_iff_of_forall (wp_mono (hread s hs rfl) ?_)
  rintro r s' ⟨-, -, n, hn, rfl⟩
  replace hn : UpToHole (s.nodePool node).fs (driveOf s node) (inodeOf s node) offset
    (windowLength (inodeOf s node) offset size) n := hn
  rw [← hn.eq_iff]
  constructor
  · intro h
    exact Int.ofNat.inj (congrArg Prod.fst h)
  · rintro rfl
    rfl

lemma wp_readUntilZero_iff {s : Ext2State} (hs : s.blk.NoFail) {node chunk : ℕ}
    (hbs : 0 < (s.nodePool node).fs.blockSize) (hchunk : 0 < chunk) (hsize : chunk < 2 ^ 31) :
    wp (readUntilZero node chunk out) (fun r _ => r = (iSize (inodeOf s node), Bytes.blit out 0
        (contentsOn (s.nodePool node).fs (driveOf s node) (inodeOf s node))
        (iSize (inodeOf s node)))) s ↔
      ∀ k < iSize (inodeOf s node),
        Mapped (s.nodePool node).fs (driveOf s node) (inodeOf s node) k := by
  have hread : (ext2View (s.nodePool node).fs).wp (readUntilZero node chunk out) _
    ((ext2View (s.nodePool node).fs).view s) := wp_readUntilZero rfl hbs hchunk hsize rfl
  refine wp_iff_of_forall (wp_mono (hread s hs rfl) ?_)
  rintro r s' ⟨-, -, n, hn, rfl⟩
  replace hn : UpToHole (s.nodePool node).fs (driveOf s node) (inodeOf s node) 0
    (iSize (inodeOf s node)) n := hn
  have hiff := hn.eq_iff
  simp only [Nat.zero_add] at hiff
  rw [← hiff]
  constructor
  · exact congrArg Prod.fst
  · rintro rfl
    rfl

/-- `ext2_read` returns the bytes of the window, with zeros in its holes, exactly when the window
has no hole; and a caller that reads until it gets 0 gets the whole file exactly when the file has
none. -/
theorem reads_whole_iff_mapped {s : Ext2State} (hs : s.blk.NoFail) {node : ℕ}
    (hbs : 0 < (s.nodePool node).fs.blockSize) :
    (∀ offset size out, size < 2 ^ 31 →
      (wp (ext2Read node offset size out)
        (fun r _ => ReadsBytes (s.nodePool node).fs (driveOf s node)
          (inodeOf s node) offset out (windowLength (inodeOf s node) offset size) r) s ↔
        ∀ k < windowLength (inodeOf s node) offset size,
          Mapped (s.nodePool node).fs (driveOf s node) (inodeOf s node) (offset + k))) ∧
    (∀ chunk out, 0 < chunk → chunk < 2 ^ 31 →
      (wp (readUntilZero node chunk out) (fun r _ => r = (iSize (inodeOf s node), Bytes.blit out 0
          (contentsOn (s.nodePool node).fs (driveOf s node) (inodeOf s node))
          (iSize (inodeOf s node)))) s ↔
        ∀ k < iSize (inodeOf s node),
          Mapped (s.nodePool node).fs (driveOf s node) (inodeOf s node) k)) :=
  ⟨fun _ _ _ hsize => wp_ext2Read_iff hs hbs hsize,
    fun _ _ hchunk hsize => wp_readUntilZero_iff hs hbs hchunk hsize⟩

/-- A volume of blocks of 1024 bytes, with the inode table at block 5. -/
def smallFs : Ext2Fs where
  dev := ⟨0, 0⟩
  partLba := 0
  blockSize := 1024
  sectorsPerBlock := 2
  inodesPerGroup := 32
  blocksPerGroup := 8192
  inodeSize := 128
  firstDataBlock := 1
  groupsCount := 1
  blocksCount := 8192
  inodesCount := 32
  firstIno := 11
  writeSupported := true

/-- On it, inode 12 is a regular file of 2048 bytes: its first block is `block`, its second one
20. -/
def smallDrive (block : UInt8) : Bytes := fun i =>
  if i = 2056 then 5
  else if i = 6529 then 128
  else if i = 6533 then 8
  else if i = 6568 then block
  else if i = 6572 then 20
  else if 20480 ≤ i then 65
  else 0

/-- The driver with that file as node 0. -/
def smallState (block : UInt8) : Ext2State where
  blk := ⟨fun _ => smallDrive block, fun _ => false, 0, []⟩
  fsPoolUsed := 1
  nodePool _ := ⟨[65], .file, 2048, 12, none, smallFs⟩
  nodePoolUsed := 1

theorem reads_whole_iff_mapped_small :
    wp (ext2Read 0 1023 2 Bytes.zeros) (fun r _ => ReadsBytes smallFs (smallDrive 21)
      (inodeOf (smallState 21) 0) 1023 Bytes.zeros
      (windowLength (inodeOf (smallState 21) 0) 1023 2) r) (smallState 21) :=
  ((@reads_whole_iff_mapped (smallState 21) (fun _ => rfl) 0 (by decide)).1 1023 2 _
    (by decide)).mpr (by decide)

/-- The first block of the file is a hole: a read of one byte returns 0. -/
theorem not_reads_whole_hole : ¬ ∀ (s : Ext2State) (node offset size : ℕ) (out : Bytes),
    s.blk.NoFail → 0 < (s.nodePool node).fs.blockSize →
    iMode (inodeOf s node) / 0x8000 % 2 = 1 → iSizeHigh (inodeOf s node) = 0 → size < 2 ^ 31 →
    wp (ext2Read node offset size out) (fun r _ => ReadsBytes (s.nodePool node).fs (driveOf s node)
      (inodeOf s node) offset out (windowLength (inodeOf s node) offset size) r) s := by
  intro h
  have hread := h (smallState 0) 0 0 1 Bytes.zeros (fun _ => rfl) (by decide)
    (by decide) (by decide)
    (by decide)
  rw [wp_ext2Read_iff (fun _ => rfl) (by decide) (by decide)] at hread
  exact absurd hread (by decide)

end Ext2

end CoolFrost
