import CoolFrost.Fs.Ext2.Blocks

/-!
# ext2: the block map

An inode has twelve direct blocks and the roots of three trees of pointers, of depth one, two and
three. The block of a file is found by following the digits of its number, to the base of the number
of pointers in a block, from the root of the tree that the number falls into.
-/

namespace CoolFrost

open Program

namespace Ext2

variable {fs : Ext2Fs} {d inode : Bytes}

/-! ## The format -/

/-- The last `depth` digits of `m` to the base `p`, the highest first. -/
def indices (p : ℕ) : ℕ → ℕ → List ℕ
  | 0, _ => []
  | depth + 1, m => m / p ^ depth % p :: indices p depth m

/-- Follow pointers from the block `blk` on; a pointer 0 leads nowhere. -/
def follow (fs : Ext2Fs) (d : Bytes) : ℕ → List ℕ → ℕ
  | blk, [] => blk
  | blk, k :: ks => if blk = 0 then 0 else follow fs d (Bytes.le32 (blockOn fs d blk) (4 * k)) ks

/-- The block number `m` of those in the trees of the given depths, one tree after the other. -/
def treeBlock (fs : Ext2Fs) (d inode : Bytes) (p : ℕ) : List ℕ → ℕ → ℕ
  | [], _ => 0
  | depth :: rest, m =>
    if m < p ^ depth then follow fs d (iBlock inode (11 + depth)) (indices p depth m)
    else treeBlock fs d inode p rest (m - p ^ depth)

/-- The block that the format prescribes for the block number `n` of a file. -/
def formatBlock (fs : Ext2Fs) (d inode : Bytes) (n : ℕ) : ℕ :=
  if n < 12 then iBlock inode n else treeBlock fs d inode (fs.blockSize / 4) [1, 2, 3] (n - 12)

/-! ## The driver -/

lemma follow_cons (blk k : ℕ) (ks : List ℕ) :
    follow fs d blk (k :: ks) = follow fs d (ptrOn fs d blk k) ks := by
  rw [follow, ptrOn]
  split_ifs with h0
  · cases ks with
    | nil => rfl
    | cons k' ks => exact (if_pos rfl).symm
  · rfl

lemma indices_one {p m : ℕ} (h : m < p) : indices p 1 m = [m] := by
  rw [indices, indices, pow_zero, Nat.div_one, Nat.mod_eq_of_lt h]

lemma indices_two {p m : ℕ} (h : m < p ^ 2) : indices p 2 m = [m / p, m % p] := by
  have hdiv : m / p < p := Nat.div_lt_of_lt_mul (by rwa [← pow_two])
  rw [indices, indices, indices, pow_one, pow_zero, Nat.div_one, Nat.mod_eq_of_lt hdiv]

lemma indices_three {p m : ℕ} (h : m < p ^ 3) : indices p 3 m = [m / p ^ 2, m / p % p, m % p] := by
  have hdiv : m / p ^ 2 < p := Nat.div_lt_of_lt_mul (by rwa [← pow_succ])
  rw [indices, indices, indices, indices, pow_one, pow_zero, Nat.div_one, Nat.mod_eq_of_lt hdiv]

/-- With blocks of at most 4096 bytes, the number of pointers in a block squared is a 32-bit
number. -/
lemma getBlockOn_eq_formatBlock {n : ℕ} (hbs : fs.blockSize = 1024 ∨ fs.blockSize = 2048 ∨
    fs.blockSize = 4096) (hx : usesExtents inode = false) (hn : n < 2 ^ 32) :
    getBlockOn fs d inode n = formatBlock fs d inode n := by
  obtain ⟨p, hp, hpos, hle⟩ : ∃ p, fs.blockSize / 4 = p ∧ 0 < p ∧ p ≤ 1024 :=
    ⟨_, rfl, by omega, by omega⟩
  have hsq : p ^ 2 ≤ 1024 ^ 2 := Nat.pow_le_pow_left hle 2
  have hu : u32 (p * p) = p ^ 2 := by
    rw [← pow_two]
    exact Nat.mod_eq_of_lt (by omega)
  have hsub : ∀ m, p ^ 2 ≤ m → m < 2 ^ 32 → u32sub m (p ^ 2) = m - p ^ 2 := fun m hm hlt => by
    unfold u32sub u32
    omega
  have hcube : ∀ m, m / p / p < p ↔ m < p ^ 3 := fun m => by
    rw [Nat.div_div_eq_div_mul, Nat.div_lt_iff_lt_mul (Nat.mul_pos hpos hpos),
      show p * (p * p) = p ^ 3 by ring]
  unfold getBlockOn formatBlock ptrsPerBlock
  simp only [hp, hu, hx, Bool.false_eq_true, if_false, treeBlock, pow_one]
  split_ifs with h0 h1 h2 h3 h4 h5
  · rfl
  · rw [indices_one h1, follow_cons, follow]
  · rw [indices_two h2, follow_cons, follow_cons, follow]
  · rw [hsub _ (by omega) (by omega)] at h3 ⊢
    rw [indices_three h4, follow_cons, follow_cons, follow_cons, follow]
  · rw [hsub _ (by omega) (by omega), hcube] at h3
    exact absurd h3 h4
  · rw [hsub _ (by omega) (by omega), hcube] at h3
    exact absurd h5 h3
  · rfl

/-- **`get_block` returns the entry that the format prescribes.** -/
theorem getBlock_eq_formatBlock (fs : Ext2Fs) (inode : Bytes) (n : ℕ) (s : Ext2State)
    (hbs : fs.blockSize = 1024 ∨ fs.blockSize = 2048 ∨ fs.blockSize = 4096)
    (hx : usesExtents inode = false) (hn : n < 2 ^ 32) (hs : s.blk.NoFail) :
    wp (getBlock fs inode n) (fun r s' =>
      r = formatBlock fs (s.blk.disk fs.dev) inode n ∧
      s'.blk.disk fs.dev = s.blk.disk fs.dev) s := by
  have hret := @returns_getBlock fs ((ext2View fs).view s) inode n
  refine Program.wp_mono (hret s hs rfl) ?_
  rintro r s' ⟨-, rfl, hview⟩
  refine ⟨?_, congrArg Image.disk hview⟩
  exact getBlockOn_eq_formatBlock hbs hx hn

/-- A volume on which every pointer of a block is the number of the next block. -/
def countingFs : Ext2Fs where
  dev := ⟨0, 0⟩
  partLba := 0
  blockSize := 1024
  sectorsPerBlock := 2
  inodesPerGroup := 16
  blocksPerGroup := 8192
  inodeSize := 128
  firstDataBlock := 1
  groupsCount := 1
  blocksCount := 64
  inodesCount := 16
  firstIno := 11
  writeSupported := true

/-- Its driver. -/
def countingState : Ext2State where
  blk := ⟨fun _ i => Bytes.ofNat (i / 1024 + 1) (i % 4), fun _ => false, 0, []⟩
  fsPoolUsed := 1
  nodePool _ := ⟨[47], .mountRoot, 0, 2, none, countingFs⟩
  nodePoolUsed := 1

/-- Three pointers lead from block 5 to the block number 70000 of the third tree. -/
theorem getBlock_eq_formatBlock_triple :
    wp (getBlock countingFs (Bytes.put32 Bytes.zeros 96 5) (12 + 256 + 65536 + 70000)) (fun r s' =>
      r = 8 ∧ s'.blk.disk countingFs.dev = countingState.blk.disk countingFs.dev)
      countingState := by
  have hformat : formatBlock countingFs (countingState.blk.disk countingFs.dev)
      (Bytes.put32 Bytes.zeros 96 5) (12 + 256 + 65536 + 70000) = 8 := by decide +kernel
  rw [← hformat]
  exact getBlock_eq_formatBlock countingFs (Bytes.put32 Bytes.zeros 96 5) _ countingState (.inl rfl)
    (by decide) (by norm_num) fun _ => rfl

end Ext2

end CoolFrost
