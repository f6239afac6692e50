import CoolFrost.Fs.Xfs.Dir

/-!
# XFS: what reading a file returns

An extent record is one 128-bit number: a flag, the first block in the file, the first block on the
volume and the number of blocks.  The block number on the volume has the allocation group in its
upper bits.  `fileByte` is the byte that a file has at a position: one of the drive in a written
extent, and zero in a hole and in an extent that is allocated but not written.

`xfs_read` stops at the first hole (`xfsRead_upTo_hole`).  It does not look at the flag either;
`xfsRead_exact_iff` says when neither makes a difference.
-/

namespace CoolFrost

open Program

namespace Xfs

variable {σ : Type} {fs : XfsFs}

/-! ## Extent records -/

/-- The extent that a record of 128 bits stands for. -/
def recordExtent (v : ℕ) : XfsExtent where
  unwritten := v / 2 ^ 127 % 2 = 1
  startoff := v / 2 ^ 73 % 2 ^ 54
  startblock := v / 2 ^ 21 % 2 ^ 52
  blockcount := v % 2 ^ 21

/-- The fields that go over the middle of the record are put together from its two words. -/
lemma xfsDecodeExtent_eq {l0 l1 : ℕ} (h0 : l0 < 256 ^ 8) (h1 : l1 < 256 ^ 8) :
    xfsDecodeExtent l0 l1 = recordExtent (l0 * 256 ^ 8 + l1) := by
  rw [xfsDecodeExtent, recordExtent, XfsExtent.mk.injEq]
  refine ⟨by omega, by omega, by omega, ?_⟩
  rw [decide_eq_decide]
  omega

/-- The `n` extent records of an inode from number `i` on. -/
def extentsFrom (b : Bytes) : ℕ → ℕ → List XfsExtent
  | _, 0 => []
  | i, n + 1 => recordExtent (Bytes.beNat b (literalArea + i * 16) 16) :: extentsFrom b (i + 1) n

/-- The extents of the data of an inode. -/
def extents (b : Bytes) : List XfsExtent := extentsFrom b 0 (diNextents b)

lemma extentsFrom_congr {b b' : Bytes} {i n : ℕ}
    (h : ∀ j < literalArea + (i + n) * 16, b' j = b j) :
    extentsFrom b' i n = extentsFrom b i n := by
  induction n generalizing i with
  | zero => rfl
  | succ n ih =>
    rw [extentsFrom, extentsFrom, ih fun j hj => h j (by omega)]
    refine congrArg (fun v => recordExtent v :: _) (Bytes.beNat_congr fun j hj => h _ (by omega))

/-- The extent that a block of a file is in. -/
def extentAt (es : List XfsExtent) (lb : ℕ) : Option XfsExtent :=
  es.find? fun e => e.startoff ≤ lb ∧ lb < e.startoff + e.blockcount

lemma extentAt_spec {es : List XfsExtent} {lb : ℕ} {e : XfsExtent} (h : extentAt es lb = some e) :
    e ∈ es ∧ e.startoff ≤ lb ∧ lb < e.startoff + e.blockcount :=
  ⟨List.mem_of_find?_eq_some h, by simpa using List.find?_some h⟩

lemma extentAt_cons (e : XfsExtent) (es : List XfsExtent) (lb : ℕ) : extentAt (e :: es) lb =
    if e.startoff ≤ lb ∧ lb < e.startoff + e.blockcount then some e else extentAt es lb := by
  rw [extentAt, List.find?_cons]
  split
  · rename_i h
    rw [if_pos (of_decide_eq_true h)]
  · rename_i h
    rw [if_neg (of_decide_eq_false h), extentAt]

lemma wp_loadExtent (b : Bytes) (off : ℕ) (Q : XfsExtent → σ → Prop) (s : σ) :
    wp (loadExtent b off) Q s ↔ off + 16 ≤ bufSize ∧ Q (recordExtent (Bytes.beNat b off 16)) s := by
  have hword : Bytes.beNat b off (8 + 8) =
      Bytes.beNat b off 8 * 256 ^ 8 + Bytes.beNat b (off + 8) 8 :=
    Bytes.beNat_add b off 8 8
  have hdecode : xfsDecodeExtent (Bytes.beNat b off 8) (Bytes.beNat b (off + 8) 8) =
      recordExtent (Bytes.beNat b off (8 + 8)) := by
    rw [xfsDecodeExtent_eq (Bytes.beNat_lt b off 8) (Bytes.beNat_lt b (off + 8) 8), hword]
  simp only [loadExtent, wp_bind, wp_loadBe, wp_pure, hdecode, ← and_assoc]
  exact and_congr_left fun _ => ⟨fun h => h.2, fun h => ⟨by omega, by omega⟩⟩

/-- `xfs_resolve_extent` finds the extent of a block. -/
lemma wp_xfsResolveExtent {b : Bytes} {lb i n : ℕ} (h : literalArea + (i + n) * 16 ≤ bufSize)
    (Q : ℕ → σ → Prop) (s : σ) :
    wp (xfsResolveExtent fs b lb i n) Q s ↔
      Q ((extentAt (extentsFrom b i n) lb).elim 0
        fun e => xfsFsbToBlock fs (e.startblock + (lb - e.startoff))) s := by
  induction n generalizing i with
  | zero => rw [xfsResolveExtent, wp_pure, extentsFrom, extentAt, List.find?_nil, Option.elim_none]
  | succ n ih =>
    rw [xfsResolveExtent, wp_bind, wp_loadExtent, and_iff_right (by omega),
      extentsFrom, extentAt_cons]
    generalize recordExtent (Bytes.beNat b (literalArea + i * 16) 16) = e
    by_cases hin : e.startoff ≤ lb ∧ lb < e.startoff + e.blockcount
    · rw [if_pos hin, if_pos hin, wp_pure, Option.elim_some]
    · rw [if_neg hin, if_neg hin, ih (by omega)]

/-! ## Geometry -/

/-- The fields of a valid volume fit together. -/
structure XfsGeometry (fs : XfsFs) : Prop where
  spb_pos : 1 ≤ fs.sectorsPerBlock
  spb_le : fs.sectorsPerBlock ≤ 8
  blockSize : fs.blockSize = fs.sectorsPerBlock * 512
  agblocks_le : fs.agblocks ≤ 2 ^ fs.agblklog
  inodes : 2 ^ fs.inopblog * fs.inodesize = fs.blockSize
  core : literalArea ≤ fs.inodesize

/-- The block on the volume of block number `k` of an extent: the extent does not leave its
allocation group. -/
def blockAddr (fs : XfsFs) (e : XfsExtent) (k : ℕ) : ℕ :=
  e.startblock / 2 ^ fs.agblklog * fs.agblocks + (e.startblock % 2 ^ fs.agblklog + k)

/-- An extent lies in its allocation group, and is not the superblock. -/
def InGroup (fs : XfsFs) (e : XfsExtent) : Prop :=
  e.startblock % 2 ^ fs.agblklog + e.blockcount ≤ fs.agblocks ∧ e.startblock ≠ 0

lemma xfsFsbToBlock_eq (hg : XfsGeometry fs) {e : XfsExtent} (he : InGroup fs e) {k : ℕ}
    (hk : k < e.blockcount) : xfsFsbToBlock fs (e.startblock + k) = blockAddr fs e k := by
  have hle := hg.agblocks_le
  have hin := he.1
  obtain ⟨hdiv, hmod⟩ := @Bytes.div_mod_add e.startblock k (2 ^ fs.agblklog) (by omega)
  rw [xfsFsbToBlock, blockAddr, hdiv, hmod]

lemma blockAddr_ne_zero {e : XfsExtent} (he : InGroup fs e) {k : ℕ}
    (hk : k < e.blockcount) : blockAddr fs e k ≠ 0 := by
  obtain ⟨hin, hne⟩ := he
  intro hzero
  have hag : 0 < fs.agblocks := by omega
  have hlow : e.startblock % 2 ^ fs.agblklog = 0 := by
    rw [blockAddr] at hzero
    omega
  have hhigh : e.startblock / 2 ^ fs.agblklog = 0 := by
    rw [blockAddr] at hzero
    have hprod : e.startblock / 2 ^ fs.agblklog * fs.agblocks = 0 := by omega
    rcases Nat.mul_eq_zero.mp hprod with h | h
    · exact h
    · omega
  apply hne
  rw [← Nat.div_add_mod e.startblock (2 ^ fs.agblklog), hhigh, hlow, Nat.mul_zero]

/-! ## Blocks and inodes -/

/-- The block that an inode is in. -/
def inodeBlock (fs : XfsFs) (ino : ℕ) : ℕ :=
  ino / 2 ^ (fs.agblklog + fs.inopblog) * fs.agblocks + ino / 2 ^ fs.inopblog % 2 ^ fs.agblklog

/-- The bytes of an inode on the drive. -/
def inodeAt (fs : XfsFs) (disk : Bytes) (ino : ℕ) : Bytes :=
  Bytes.shift disk ((fs.partLba + inodeBlock fs ino * fs.sectorsPerBlock) * 512 +
    ino % 2 ^ fs.inopblog * fs.inodesize)

lemma inode_inside (hg : XfsGeometry fs) (ino : ℕ) :
    ino % 2 ^ fs.inopblog * fs.inodesize + fs.inodesize ≤ fs.blockSize := by
  have hlt : ino % 2 ^ fs.inopblog < 2 ^ fs.inopblog := Nat.mod_lt _ (Nat.two_pow_pos _)
  calc ino % 2 ^ fs.inopblog * fs.inodesize + fs.inodesize
      = (ino % 2 ^ fs.inopblog + 1) * fs.inodesize := by rw [Nat.succ_mul]
    _ ≤ 2 ^ fs.inopblog * fs.inodesize := Nat.mul_le_mul_right _ hlt
    _ = fs.blockSize := hg.inodes

lemma blockSize_le (hg : XfsGeometry fs) : fs.blockSize ≤ bufSize := by
  have hle := hg.spb_le
  have hbs := hg.blockSize
  unfold bufSize
  omega

lemma xfsInoToLoc_eq (hg : XfsGeometry fs) (ino : ℕ) :
    xfsInoToLoc fs ino = (inodeBlock fs ino, ino % 2 ^ fs.inopblog * fs.inodesize) := by
  have hin := inode_inside hg ino
  have hle := blockSize_le hg
  have hcore := hg.core
  unfold bufSize at hle
  unfold literalArea at hcore
  have hindex : ino % 2 ^ fs.inopblog ≤ ino % 2 ^ fs.inopblog * fs.inodesize :=
    Nat.le_mul_of_pos_right _ (by omega)
  have hrest : ino % 2 ^ (fs.agblklog + fs.inopblog) % 2 ^ fs.inopblog = ino % 2 ^ fs.inopblog :=
    Nat.mod_mod_of_dvd _ (Nat.pow_dvd_pow 2 (Nat.le_add_left _ _))
  have hblock : ino % 2 ^ (fs.agblklog + fs.inopblog) / 2 ^ fs.inopblog =
      ino / 2 ^ fs.inopblog % 2 ^ fs.agblklog := by
    rw [Nat.pow_add, Nat.mod_mul_left_div_self]
  rw [xfsInoToLoc, inodeBlock]
  rw [hrest, hblock, u32, u32, Nat.mod_eq_of_lt (a := ino % 2 ^ fs.inopblog) (by omega),
    Nat.mod_eq_of_lt (a := ino % 2 ^ fs.inopblog * fs.inodesize) (by omega)]

/-- A block that is read without an error. -/
lemma wp_readBlock {s : XfsState} (hs : s.blk.NoFail) (block : ℕ) (buf : Bytes) (start : ℕ)
    (Q : Option Bytes → XfsState → Prop) :
    wp (readBlock fs block buf start) Q s ↔
      Q (some (Bytes.blit buf start (Bytes.clip (fs.sectorsPerBlock % 256 * 512)
          (Bytes.shift (s.blk.disk fs.dev) ((fs.partLba + block * fs.sectorsPerBlock) * 512)))
          (fs.sectorsPerBlock % 256 * 512)))
        { s with blk := { s.blk with calls := s.blk.calls + 1 } } := by
  simp only [readBlock, wp_bind, wp_zoom, wp_blkRead hs, wp_pure]

/-- A byte of a block that is read into the start of a buffer. -/
lemma block_byte (hg : XfsGeometry fs) (disk buf : Bytes) {i : ℕ} (hi : i < fs.blockSize) :
    Bytes.blit buf 0 (Bytes.clip (fs.sectorsPerBlock % 256 * 512) disk)
      (fs.sectorsPerBlock % 256 * 512) i = disk i := by
  have hle := hg.spb_le
  have hbs := hg.blockSize
  have hcount : fs.sectorsPerBlock % 256 * 512 = fs.blockSize := by
    rw [hbs, Nat.mod_eq_of_lt (by omega)]
  rw [hcount, Bytes.blit_start hi, Bytes.clip_of_lt hi]

/-- `read_inode_raw` fetches an inode of a valid volume. -/
lemma wp_readInodeRaw (hg : XfsGeometry fs) {s : XfsState} (hs : s.blk.NoFail) {ino : ℕ}
    (hmagic : Bytes.beNat (inodeAt fs (s.blk.disk fs.dev) ino) 0 2 = dinodeMagic) :
    wp (readInodeRaw fs ino) (fun rc t => rc = 0 ∧
      (∀ j < fs.inodesize, t.inodeBuf j = inodeAt fs (s.blk.disk fs.dev) ino j) ∧
      t.blk.disk = s.blk.disk ∧ t.blk.NoFail) s := by
  have hin := inode_inside hg ino
  have hle := blockSize_le hg
  have hcore := hg.core
  unfold literalArea at hcore
  have hlt : ino % 2 ^ fs.inopblog * fs.inodesize + fs.inodesize < 2 ^ 32 := by
    unfold bufSize at hle
    omega
  have hbytes : ∀ buf b : Bytes, ∀ j < fs.inodesize, Bytes.blit buf 0 (Bytes.shift
      (Bytes.blit b 0 (Bytes.clip (fs.sectorsPerBlock % 256 * 512) (Bytes.shift (s.blk.disk fs.dev)
        ((fs.partLba + inodeBlock fs ino * fs.sectorsPerBlock) * 512)))
        (fs.sectorsPerBlock % 256 * 512)) (ino % 2 ^ fs.inopblog * fs.inodesize)) fs.inodesize j =
      inodeAt fs (s.blk.disk fs.dev) ino j := by
    intro buf b j hj
    rw [Bytes.blit_start hj, Bytes.shift, block_byte hg _ _ (by omega), inodeAt,
      Bytes.shift, Bytes.shift, Nat.add_assoc]
  rw [readInodeRaw, xfsInoToLoc_eq hg]
  simp only [wp_bind, wp_get, wp_readBlock hs, wp_modify]
  rw [u32, Nat.mod_eq_of_lt hlt, if_neg (by omega)]
  simp only [wp_bind, wp_inside, wp_modify, wp_get]
  refine ⟨by omega, ?_⟩
  have hsame : ∀ buf b : Bytes, Bytes.beNat (Bytes.blit buf 0 (Bytes.shift
      (Bytes.blit b 0 (Bytes.clip (fs.sectorsPerBlock % 256 * 512) (Bytes.shift (s.blk.disk fs.dev)
        ((fs.partLba + inodeBlock fs ino * fs.sectorsPerBlock) * 512)))
        (fs.sectorsPerBlock % 256 * 512)) (ino % 2 ^ fs.inopblog * fs.inodesize))
          fs.inodesize) 0 2 =
      dinodeMagic := by
    intro buf b
    rw [← hmagic]
    exact Bytes.beNat_congr fun i hi => hbytes _ _ _ (by omega)
  rw [hsame, if_neg (fun h => h rfl), wp_pure]
  exact ⟨rfl, hbytes _ _, rfl, hs⟩

/-! ## Files -/

/-- A regular file of a valid volume, in local or extents format. -/
structure XfsFile (nd : XfsNode) (disk : Bytes) : Prop where
  geometry : XfsGeometry nd.fs
  magic : Bytes.beNat (inodeAt nd.fs disk nd.inode) 0 2 = dinodeMagic
  size : nd.size = diSize (inodeAt nd.fs disk nd.inode)
  format : (diFormat (inodeAt nd.fs disk nd.inode) = fmtLocal ∧
    literalArea + nd.size ≤ nd.fs.inodesize) ∨
    (diFormat (inodeAt nd.fs disk nd.inode) = fmtExtents ∧
      literalArea + diNextents (inodeAt nd.fs disk nd.inode) * 16 ≤ nd.fs.inodesize ∧
      (∀ e ∈ extents (inodeAt nd.fs disk nd.inode), InGroup nd.fs e) ∧
      (extents (inodeAt nd.fs disk nd.inode)).Pairwise fun e e' =>
        e.startoff + e.blockcount ≤ e'.startoff)

/-- The byte on the drive for position `k` of a file, which is in the extent `e`. -/
def driveByte (fs : XfsFs) (disk : Bytes) (e : XfsExtent) (k : ℕ) : UInt8 :=
  disk ((fs.partLba + blockAddr fs e (k / fs.blockSize - e.startoff) * fs.sectorsPerBlock) * 512 +
    k % fs.blockSize)

/-- The byte that a file has at position `k`. -/
def fileByte (fs : XfsFs) (disk inode : Bytes) (k : ℕ) : UInt8 :=
  if diFormat inode = fmtLocal then inode (literalArea + k)
  else (extentAt (extents inode) (k / fs.blockSize)).elim 0
    fun e => if e.unwritten then 0 else driveByte fs disk e k

/-- The byte that `xfs_read` has for position `k` of a file, if it is not in a hole. -/
def storedByte (fs : XfsFs) (disk inode : Bytes) (k : ℕ) : Option UInt8 :=
  if diFormat inode = fmtLocal then some (inode (literalArea + k))
  else (extentAt (extents inode) (k / fs.blockSize)).map fun e => driveByte fs disk e k

/-- Position `k` of a file is in an extent that is allocated but not written. -/
def Unwritten (fs : XfsFs) (inode : Bytes) (k : ℕ) : Prop :=
  diFormat inode ≠ fmtLocal ∧ ∃ e, extentAt (extents inode) (k / fs.blockSize) = some e ∧
    e.unwritten = true

/-- Position `k` of a file is in no extent. -/
def InHole (fs : XfsFs) (inode : Bytes) (k : ℕ) : Prop :=
  diFormat inode ≠ fmtLocal ∧ extentAt (extents inode) (k / fs.blockSize) = none

lemma storedByte_eq_none_iff {disk inode : Bytes} {k : ℕ} :
    storedByte fs disk inode k = none ↔ InHole fs inode k := by
  rw [storedByte, InHole]
  split
  · rename_i hlocal
    exact iff_of_false (Option.some_ne_none _) fun h => h.1 hlocal
  · rename_i hlocal
    rw [Option.map_eq_none_iff, and_iff_right hlocal]

lemma fileByte_of_stored {disk inode : Bytes} {k : ℕ} {v : UInt8}
    (h : storedByte fs disk inode k = some v) (hwritten : ¬Unwritten fs inode k) :
    fileByte fs disk inode k = v := by
  rw [storedByte] at h
  rw [fileByte]
  split at h
  · rename_i hlocal
    rw [if_pos hlocal]
    exact Option.some.inj h
  · rename_i hlocal
    obtain ⟨e, he, rfl⟩ := Option.map_eq_some_iff.mp h
    have hflag : ¬e.unwritten = true := fun hflag => hwritten ⟨hlocal, e, he, hflag⟩
    rw [if_neg hlocal, he, Option.elim_some, if_neg hflag]

lemma fileByte_of_unwritten {disk inode : Bytes} {k : ℕ} (h : Unwritten fs inode k) :
    fileByte fs disk inode k = 0 := by
  obtain ⟨hlocal, e, he, hflag⟩ := h
  rw [fileByte, if_neg hlocal, he, Option.elim_some, if_pos hflag]

/-- The loop of `xfs_read` copies the drive's bytes up to the first block that is in no extent. -/
lemma wp_copyBlocks (hg : XfsGeometry fs) {b : Bytes} {n : ℕ}
    (hroom : literalArea + n * 16 ≤ bufSize)
    (hgroup : ∀ e ∈ extentsFrom b 0 n, InGroup fs e) {offset remaining : ℕ} (out : Bytes)
    (hlt : remaining < 2 ^ 32) {s : XfsState} (hs : s.blk.NoFail) :
    wp (copyBlocks fs b n offset remaining out) (fun r _ => r.1 ≤ remaining ∧
      (∀ i < r.1, ∃ e, extentAt (extentsFrom b 0 n) ((offset + i) / fs.blockSize) = some e ∧
        r.2 i = driveByte fs (s.blk.disk fs.dev) e (offset + i)) ∧
      (r.1 < remaining → extentAt (extentsFrom b 0 n) ((offset + r.1) / fs.blockSize) = none))
      s := by
  have hle := hg.spb_le
  have hpos := hg.spb_pos
  have hbs := hg.blockSize
  refine wp_iter (fun v t => t.blk.disk = s.blk.disk ∧ t.blk.NoFail ∧ v.1 ≤ remaining ∧
      ∀ i < v.1, ∃ e, extentAt (extentsFrom b 0 n) ((offset + i) / fs.blockSize) = some e ∧
        v.2 i = driveByte fs (s.blk.disk fs.dev) e (offset + i)) (fun v _ => remaining - v.1) ?_
    ⟨rfl, hs, Nat.zero_le _, fun i hi => absurd hi (Nat.not_lt_zero i)⟩ (by unfold loopFuel; omega)
  rintro ⟨got, out⟩ t ⟨hdisk, hfail, hgot, hbytes⟩
  refine wp_ite_intro (fun hmore => ?_) fun hdone => ?_
  · rw [wp_bind, wp_xfsResolveExtent (by omega)]
    cases hext : extentAt (extentsFrom b 0 n) ((offset + got) / fs.blockSize) with
    | none =>
      rw [Option.elim_none, if_pos rfl, wp_pure]
      exact ⟨hgot, hbytes, fun _ => hext⟩
    | some e =>
      obtain ⟨hmem, hfrom, hto⟩ := extentAt_spec hext
      have hin := hgroup e hmem
      rw [Option.elim_some, xfsFsbToBlock_eq hg hin (by omega),
        if_neg (blockAddr_ne_zero hin (by omega))]
      simp only [wp_bind, wp_get, wp_readBlock hfail, wp_modify, wp_inside, wp_pure]
      have hblk : fs.blockSize ≤ bufSize := blockSize_le hg
      have hmod : (offset + got) % fs.blockSize < fs.blockSize := Nat.mod_lt _ (by omega)
      have hcopy : 0 < min (fs.blockSize - (offset + got) % fs.blockSize)
        (remaining - got) := by omega
      refine ⟨by omega, ⟨hdisk, hfail, by omega, fun i hi => ?_⟩, by omega⟩
      dsimp only at hi hbytes ⊢
      by_cases hold : i < got
      · rw [Bytes.blit_of_not_mem (.inl hold)]
        exact hbytes i hold
      · obtain ⟨j, rfl⟩ : ∃ j, i = got + j := ⟨i - got, by omega⟩
        obtain ⟨hdiv, hrest⟩ := @Bytes.div_mod_add (offset + got) j fs.blockSize (by omega)
        rw [← Nat.add_assoc, Bytes.blit_of_mem ⟨by omega, by omega⟩, hdiv]
        refine ⟨e, hext, ?_⟩
        rw [Bytes.shift, Nat.add_sub_cancel_left, block_byte hg _ _ (by omega), Bytes.shift,
          driveByte, hdiv, hrest, hdisk]
  · rw [wp_pure]
    exact ⟨hgot, hbytes, fun hlt => absurd hlt hdone⟩

/-- What `xfs_read` returns for a file of a valid volume: the bytes up to the first hole. -/
lemma wp_xfsRead {node offset size : ℕ} (out : Bytes) {s : XfsState}
    (h : XfsFile (s.nodePool node) (s.blk.disk (s.nodePool node).fs.dev)) (hs : s.blk.NoFail)
    (hsize : size < 2 ^ 31) {inode : Bytes}
    (hinode : inode = inodeAt (s.nodePool node).fs (s.blk.disk (s.nodePool node).fs.dev)
      (s.nodePool node).inode) {n : ℕ} (hn : n = min size (diSize inode - offset)) :
    wp (xfsRead node offset size out) (fun r _ => ∃ m ≤ n,
      (∀ i < m, storedByte (s.nodePool node).fs (s.blk.disk (s.nodePool node).fs.dev)
        inode (offset + i) =
        some (r.2 i)) ∧
      (m < n → storedByte (s.nodePool node).fs (s.blk.disk (s.nodePool node).fs.dev)
        inode (offset + m) =
        none) ∧ r.1 = if m = 0 ∧ 0 < n then -1 else (m : ℤ)) s := by
  have hg := h.geometry
  have hsz := h.size
  have hcore := hg.core
  rw [← hinode] at hsz
  unfold literalArea at hcore
  have hremaining : (if (s.nodePool node).size < offset + size then
      u32 ((s.nodePool node).size - offset) else size) = n := by
    split
    · rw [u32, Nat.mod_eq_of_lt (by omega)]
      omega
    · omega
  have hempty : n = 0 → ∃ m ≤ n,
      (∀ i < m, storedByte (s.nodePool node).fs (s.blk.disk (s.nodePool node).fs.dev)
        inode (offset + i) =
        some (out i)) ∧
      (m < n → storedByte (s.nodePool node).fs (s.blk.disk (s.nodePool node).fs.dev)
        inode (offset + m) =
        none) ∧ (0 : ℤ) = if m = 0 ∧ 0 < n then -1 else (m : ℤ) := by
    rintro rfl
    exact ⟨0, le_rfl, fun i hi => absurd hi (Nat.not_lt_zero i), fun hlt =>
      absurd hlt (lt_irrefl 0), rfl⟩
  rw [xfsRead, wp_bind, wp_get, readAt]
  refine wp_ite_intro (fun hoff => ?_) fun hoff => ?_
  · rw [wp_pure]
    exact hempty (by omega)
  rw [wp_bind]
  refine wp_mono (wp_readInodeRaw hg hs h.magic) fun rc t hread => ?_
  obtain ⟨rfl, hbuf, hdisk, hfail⟩ := hread
  rw [← hinode] at hbuf
  rw [if_neg (fun hne => hne rfl), hremaining]
  refine wp_ite_intro (fun hzero => ?_) fun hpos => ?_
  · rw [wp_pure]
    exact hempty hzero
  clear hempty
  have hint : ∀ m ≤ n, int32 m = m := by
    intro m hm
    rw [int32, u32, Nat.mod_eq_of_lt (by omega), if_pos (by omega)]
  have hformat : diFormat t.inodeBuf = diFormat inode := hbuf 5 (by omega)
  have hnext : diNextents t.inodeBuf = diNextents inode :=
    Bytes.beNat_congr fun i hi => hbuf _ (by omega)
  have hblk := blockSize_le hg
  have hisize := inode_inside hg 0
  rw [wp_bind, wp_get]
  dsimp only
  rw [hformat, hnext]
  obtain ⟨hlocal, hroom⟩ | ⟨hextents, hroom, hgroup, -⟩ := h.format
  · rw [← hinode] at hlocal
    rw [if_pos hlocal, wp_bind, wp_inside, wp_pure]
    refine ⟨by omega, n, le_rfl, fun i hi => ?_, fun hlt => absurd hlt (lt_irrefl n), ?_⟩
    · dsimp only
      rw [storedByte, if_pos hlocal, Bytes.blit_start hi, Bytes.shift,
        hbuf _ (by omega), Nat.add_assoc]
    · rw [if_neg fun hboth => hpos hboth.1]
      exact hint n le_rfl
  · rw [← hinode] at hextents hroom hgroup
    have hlocal : ¬diFormat inode = fmtLocal := by
      rw [hextents]
      decide
    have hes : extentsFrom t.inodeBuf 0 (diNextents inode) = extents inode :=
      extentsFrom_congr fun j hj => hbuf j (by omega)
    rw [if_neg hlocal, if_neg (fun hne => hne hextents)]
    simp only [storedByte, hlocal, if_false, wp_bind]
    refine wp_mono (wp_copyBlocks hg (by omega) (hes ▸ hgroup) out (by omega) hfail)
      fun r t' hcopy => ?_
    obtain ⟨hgot, hbytes, hhole⟩ := hcopy
    rw [hes] at hbytes hhole
    rw [hdisk] at hbytes
    rw [wp_pure]
    refine ⟨r.1, hgot, fun i hi => ?_, fun hlt => ?_, ?_⟩
    · obtain ⟨e, he, hbyte⟩ := hbytes i hi
      rw [he, Option.map_some, hbyte]
    · rw [hhole hlt, Option.map_none]
    · by_cases hnone : r.1 = 0
      · rw [if_pos hnone, if_pos ⟨hnone, by omega⟩]
      · rw [if_neg hnone, if_neg fun hboth => hnone hboth.1]
        exact hint r.1 hgot

/-- `xfs_read` returns the bytes of the window up to the first hole: their number, or −1 if the
window starts in a hole, and the bytes of the file in written extents. -/
theorem xfsRead_upTo_hole {node offset size : ℕ} (out : Bytes) {s : XfsState}
    (h : XfsFile (s.nodePool node) (s.blk.disk (s.nodePool node).fs.dev)) (hs : s.blk.NoFail)
    (hsize : size < 2 ^ 31) {inode : Bytes}
    (hinode : inode = inodeAt (s.nodePool node).fs (s.blk.disk (s.nodePool node).fs.dev)
      (s.nodePool node).inode) {n : ℕ} (hn : n = min size (diSize inode - offset)) :
    wp (xfsRead node offset size out) (fun r _ => ∃ m ≤ n,
      (∀ i < m, ¬InHole (s.nodePool node).fs inode (offset + i)) ∧
      (m < n → InHole (s.nodePool node).fs inode (offset + m)) ∧
      (r.1 = if m = 0 ∧ 0 < n then -1 else (m : ℤ)) ∧
      ∀ i < m, ¬Unwritten (s.nodePool node).fs inode (offset + i) →
        r.2 i = fileByte (s.nodePool node).fs (s.blk.disk (s.nodePool node).fs.dev)
          inode (offset + i))
      s := by
  refine wp_mono (wp_xfsRead out h hs hsize hinode hn) fun r t hr => ?_
  obtain ⟨m, hm, hbytes, hend, hret⟩ := hr
  refine ⟨m, hm, fun i hi hhole => ?_, fun hlt => ?_, hret, fun i hi hwritten => ?_⟩
  · exact absurd ((storedByte_eq_none_iff.mpr hhole).symm.trans (hbytes i hi))
      (Option.some_ne_none _).symm
  · exact storedByte_eq_none_iff.mp (hend hlt)
  · exact (fileByte_of_stored (hbytes i hi) hwritten).symm

/-- A read returns what it should, with the bytes of the file, exactly if no block of the window is
in a hole and the drive has zeros wherever an extent is not written. -/
theorem xfsRead_exact_iff {node offset size : ℕ} (out : Bytes) {s : XfsState}
    (h : XfsFile (s.nodePool node) (s.blk.disk (s.nodePool node).fs.dev)) (hs : s.blk.NoFail)
    (hsize : size < 2 ^ 31) {inode : Bytes}
    (hinode : inode = inodeAt (s.nodePool node).fs (s.blk.disk (s.nodePool node).fs.dev)
      (s.nodePool node).inode) {n : ℕ} (hn : n = min size (diSize inode - offset)) :
    wp (xfsRead node offset size out) (fun r _ => r.1 = n ∧ ∀ i < n,
      r.2 i = fileByte (s.nodePool node).fs (s.blk.disk (s.nodePool node).fs.dev) inode
        (offset + i)) s ↔
    ∀ i < n, ¬InHole (s.nodePool node).fs inode (offset + i) ∧
      (Unwritten (s.nodePool node).fs inode (offset + i) →
        storedByte (s.nodePool node).fs (s.blk.disk (s.nodePool node).fs.dev) inode
        (offset + i) = some 0) := by
  obtain ⟨r, t, hrun, m, hm, hbytes, hend, hret⟩ := wp_xfsRead out h hs hsize hinode hn
  rw [wp_iff_of_eq hrun]
  rcases hm.lt_or_eq with hlt | rfl
  · -- the window reaches into a hole
    have hhole := storedByte_eq_none_iff.mp (hend hlt)
    refine iff_of_false (fun hgood => ?_) fun hcond => (hcond m hlt).1 hhole
    rw [hgood.1] at hret
    split at hret <;> omega
  · have hret : r.1 = m := by
      rw [hret, if_neg (by omega)]
    rw [and_iff_right hret]
    refine forall₂_congr fun i hi => ?_
    have hstored := hbytes i hi
    have hhole : ¬InHole (s.nodePool node).fs inode (offset + i) := fun hhole =>
      Option.some_ne_none _ (hstored.symm.trans (storedByte_eq_none_iff.mpr hhole))
    rw [and_iff_right hhole, hstored]
    by_cases hunwritten : Unwritten (s.nodePool node).fs inode (offset + i)
    · rw [fileByte_of_unwritten hunwritten, forall_prop_of_true hunwritten, Option.some.injEq]
    · rw [fileByte_of_stored hstored hunwritten]
      exact iff_of_true rfl fun h => absurd h hunwritten

/-! ## A sparse file -/

/-- A volume with blocks of one sector and two inodes in a block. -/
def smallFs : XfsFs := ⟨⟨0, 0⟩, 0, 512, 1, 64, 6, 256, 1, 0, 128⟩

/-- An inode of 1536 bytes of data: the first block is block 10, the second one is a hole, and the
third one is block 11, which is allocated but not written. -/
def smallInode : Bytes := fun i =>
  if i = 0 then 0x49
  else if i = 1 then 0x4E
  else if i = 5 ∨ i = 79 then 2
  else if i = 62 then 6
  else if i = 112 ∨ i = 115 ∨ i = 128 ∨ i = 131 then 1
  else if i = 113 then 0x40
  else if i = 116 then 0x80
  else if i = 122 then 4
  else if i = 129 then 0x60
  else 0

/-- The volume with that file as inode 4, in block 2; the drive has the bytes `v` everywhere
else. -/
def smallState (v : UInt8) : XfsState where
  blk := ⟨fun _ i => if 1024 ≤ i ∧ i < 1536 then smallInode (i - 1024) else v,
    fun _ => false, 0, []⟩
  inodeBuf := Bytes.zeros
  blockBuf := Bytes.zeros
  inodeBlockBuf := Bytes.zeros
  fsPoolUsed := 1
  nodePool := fun _ => ⟨[102], .file, 1536, 4, none, smallFs⟩
  nodePoolUsed := 1

lemma smallFs_geometry : XfsGeometry smallFs :=
  ⟨by decide, by decide, by decide, by decide, by decide, by decide⟩

/-- The inode on the drive of that volume. -/
def smallDrive (v : UInt8) : Bytes := inodeAt smallFs ((smallState v).blk.disk smallFs.dev) 4

lemma smallDrive_eq (v : UInt8) {j : ℕ} (hj : j < 256) : smallDrive v j = smallInode j := by
  have haddr : (smallFs.partLba + inodeBlock smallFs 4 * smallFs.sectorsPerBlock) * 512 +
      4 % 2 ^ smallFs.inopblog * smallFs.inodesize = 1024 := by decide
  rw [smallDrive, inodeAt, haddr, Bytes.shift]
  change (if 1024 ≤ 1024 + j ∧ 1024 + j < 1536 then smallInode (1024 + j - 1024) else v) = _
  rw [if_pos ⟨by omega, by omega⟩, Nat.add_sub_cancel_left]

lemma smallDrive_beNat (v : UInt8) {off k : ℕ} (h : off + k ≤ 256) :
    Bytes.beNat (smallDrive v) off k = Bytes.beNat smallInode off k :=
  Bytes.beNat_congr fun _ _ => smallDrive_eq v (by omega)

lemma smallDrive_size (v : UInt8) : diSize (smallDrive v) = 1536 :=
  (smallDrive_beNat v (by decide)).trans (by decide : Bytes.beNat smallInode 56 8 = 1536)

lemma smallDrive_nextents (v : UInt8) : diNextents (smallDrive v) = 2 :=
  (smallDrive_beNat v (by decide)).trans (by decide : Bytes.beNat smallInode 76 4 = 2)

lemma smallDrive_extents (v : UInt8) :
    extents (smallDrive v) = [⟨0, 10, 1, false⟩, ⟨2, 11, 1, true⟩] := by
  rw [extents, smallDrive_nextents, extentsFrom, extentsFrom, extentsFrom,
    smallDrive_beNat v (by decide), smallDrive_beNat v (by decide)]
  decide

lemma smallFile (v : UInt8) :
    XfsFile ((smallState v).nodePool 0) ((smallState v).blk.disk smallFs.dev) := by
  refine ⟨smallFs_geometry, (smallDrive_beNat v (by decide)).trans (by decide),
    (smallDrive_size v).symm, .inr ⟨?_, ?_, ?_, ?_⟩⟩
  · exact (smallDrive_eq v (by decide)).trans (by decide)
  · change literalArea + diNextents (smallDrive v) * 16 ≤ smallFs.inodesize
    rw [smallDrive_nextents]
    decide
  · intro e he
    have he : e ∈ extents (smallDrive v) := he
    rw [smallDrive_extents] at he
    have hgroup : ∀ e ∈ [(⟨0, 10, 1, false⟩ : XfsExtent), ⟨2, 11, 1, true⟩], InGroup smallFs e := by
      rintro e (_ | ⟨_, _ | ⟨_, ⟨⟩⟩⟩) <;> exact ⟨by decide, by decide⟩
    exact hgroup e he
  · change (extents (smallDrive v)).Pairwise _
    rw [smallDrive_extents]
    simp

/-- The extent of a block of the file. -/
lemma smallDrive_extentAt (v : UInt8) (lb : ℕ) : extentAt (extents (smallDrive v)) lb =
    if lb = 0 then some ⟨0, 10, 1, false⟩ else if lb = 2 then some ⟨2, 11, 1, true⟩ else none := by
  rw [smallDrive_extents, extentAt_cons, extentAt_cons]
  simp only [Nat.zero_le, true_and, Nat.zero_add, Nat.lt_one_iff]
  split_ifs <;> first | rfl | omega

/-- The hole of the file. -/
lemma smallDrive_inHole (v : UInt8) {i : ℕ} (hi : i < 1536) :
    InHole smallFs (smallDrive v) (0 + i) ↔ 512 ≤ i ∧ i < 1024 := by
  have hlocal : diFormat (smallDrive v) ≠ fmtLocal := by
    rw [diFormat, smallDrive_eq v (by decide)]
    decide
  rw [InHole, and_iff_right hlocal, smallDrive_extentAt, show smallFs.blockSize = 512 from rfl]
  split_ifs with h0 h2
  · exact iff_of_false not_false (by omega)
  · exact iff_of_false not_false (by omega)
  · exact iff_of_true rfl (by omega)

/-- A read of the whole file returns its first block. -/
theorem xfsRead_upTo_hole_small :
    wp (xfsRead 0 0 1536 Bytes.zeros) (fun r _ => r.1 = 512 ∧ ∀ i < 512,
      r.2 i = fileByte smallFs ((smallState 7).blk.disk smallFs.dev) (smallDrive 7) i)
      (smallState 7) := by
  refine wp_mono (@xfsRead_upTo_hole 0 0 1536 Bytes.zeros (smallState 7)
    (smallFile 7) (fun _ => rfl)
    (by decide) (smallDrive 7) rfl 1536 (by rw [smallDrive_size]; rfl)) fun r t hr => ?_
  obtain ⟨m, hm, hno, hhole, hret, hbytes⟩ := hr
  have hlow : ¬512 < m := fun hlt =>
    hno 512 hlt ((smallDrive_inHole 7 (by norm_num)).mpr ⟨le_rfl, by norm_num⟩)
  have hhigh : 512 ≤ m := by
    by_contra hlt
    exact hlt ((smallDrive_inHole 7 (by omega)).mp (hhole (by omega))).1
  obtain rfl : m = 512 := by omega
  refine ⟨hret.trans (if_neg (by omega)), fun i hi => ?_⟩
  -- the first extent is written
  have hwritten : ¬Unwritten smallFs (smallDrive 7) (0 + i) := by
    rintro ⟨-, e, he, hflag⟩
    rw [smallDrive_extentAt, if_pos (Nat.div_eq_of_lt (by rw [Nat.zero_add]; exact hi))] at he
    cases he
    cases hflag
  have hbyte := hbytes i hi hwritten
  rw [Nat.zero_add] at hbyte
  exact hbyte

/-- So it does not return all bytes of the file. -/
theorem not_xfsRead_exact : ¬∀ (node offset size : ℕ) (out : Bytes) (s : XfsState) (inode : Bytes),
    XfsFile (s.nodePool node) (s.blk.disk (s.nodePool node).fs.dev) → s.blk.NoFail → size < 2 ^ 31 →
    inode = inodeAt (s.nodePool node).fs (s.blk.disk (s.nodePool node).fs.dev)
      (s.nodePool node).inode →
    wp (xfsRead node offset size out) (fun r _ =>
      r.1 = (min size (diSize inode - offset) : ℕ) ∧ ∀ i < min size (diSize inode - offset),
        r.2 i = fileByte (s.nodePool node).fs (s.blk.disk (s.nodePool node).fs.dev)
          inode (offset + i))
      s := by
  intro h
  have hgood := h 0 0 1536 Bytes.zeros (smallState 0) (smallDrive 0) (smallFile 0) (fun _ => rfl)
    (by decide) rfl
  rw [smallDrive_size] at hgood
  obtain ⟨r, t, hrun, m, hm, hbytes, hend, hret⟩ := @wp_xfsRead 0 0 1536 Bytes.zeros (smallState 0)
    (smallFile 0) (fun _ => rfl) (by decide) (smallDrive 0) rfl 1536 (by rw [smallDrive_size]; rfl)
  rw [wp_iff_of_eq hrun, hret] at hgood
  -- all 1536 bytes would be stored, but some of them are in the hole
  have hall : m = 1536 := by
    have hcount := hgood.1
    split at hcount <;> omega
  have hstored := hbytes 512 (by omega)
  have hnone : storedByte smallFs ((smallState 0).blk.disk smallFs.dev) (smallDrive 0)
      (0 + 512) = none :=
    storedByte_eq_none_iff.mpr ((smallDrive_inHole 0 (by norm_num)).mpr ⟨le_rfl, by norm_num⟩)
  exact Option.some_ne_none _ (hstored.symm.trans hnone)

end Xfs

end CoolFrost
