import CoolFrost.Lib.View
import CoolFrost.Fs.Ext2.Ops

/-!
# ext2: what is stored on a drive

The blocks, the inodes and the block maps of a volume, read off the bytes of its drive.  For drives
that never fail, the functions of the driver that only read return just that.
-/

namespace CoolFrost

open Program

namespace Ext2

/-! ## On the drive -/

/-- A block. -/
def blockOn (fs : Ext2Fs) (d : Bytes) (block : ℕ) : Bytes :=
  Bytes.clip (fs.sectorsPerBlock % 256 * 512)
    (Bytes.shift d ((fs.partLba + block * fs.sectorsPerBlock) * 512))

/-- Where the inode `ino` is: the block and the offset in it. -/
def inodePlace (fs : Ext2Fs) (d : Bytes) (ino : ℕ) : ℕ × ℕ :=
  let (bgdBlk, bgdOff) := locateBgd fs (u32sub ino 1 / fs.inodesPerGroup)
  locateInode fs (bgInodeTable (blockOn fs d bgdBlk) bgdOff) (u32sub ino 1 % fs.inodesPerGroup)

/-- The inode `ino`. -/
def inodeOn (fs : Ext2Fs) (d : Bytes) (ino : ℕ) : Bytes :=
  Bytes.clip 128 (Bytes.shift (blockOn fs d (inodePlace fs d ino).1) (inodePlace fs d ino).2)

/-- The block that an extent tree maps `logical` to, from the node `eh` on with `n` levels left. -/
def extentOn (fs : Ext2Fs) (d : Bytes) (logical : ℕ) : ℕ → Bytes → ℕ
  | 0, _ => 0
  | n + 1, eh =>
    if Bytes.le16 eh 0 ≠ ext4ExtMagic then 0
    else if Bytes.le16 eh 6 = 0 then leafLookup eh logical (Bytes.le16 eh 2) 0
    else if Bytes.le16 eh 2 = 0 ∨ logical < Bytes.le32 eh 12 then 0
    else
      let k := indexLookup eh logical (Bytes.le16 eh 2) 0
      extentOn fs d logical n (blockOn fs d (Bytes.le32 eh (12 + 12 * k + 4)))

/-- The pointer number `k` of the indirect block `blk`, 0 when there is none. -/
def ptrOn (fs : Ext2Fs) (d : Bytes) (blk k : ℕ) : ℕ :=
  if blk = 0 then 0 else Bytes.le32 (blockOn fs d blk) (4 * k)

/-- The block that holds the logical block `logical` of a file, 0 for a hole. -/
def getBlockOn (fs : Ext2Fs) (d : Bytes) (inode : Bytes) (logical : ℕ) : ℕ :=
  let ptrs := ptrsPerBlock fs
  if usesExtents inode then extentOn fs d logical 8 (Bytes.shift inode 40)
  else if logical < 12 then iBlock inode logical
  else
    let logical := logical - 12
    if logical < ptrs then ptrOn fs d (iBlock inode 12) logical
    else
      let logical := logical - ptrs
      if logical < u32 (ptrs * ptrs) then
        ptrOn fs d (ptrOn fs d (iBlock inode 13) (logical / ptrs)) (logical % ptrs)
      else
        let logical := u32sub logical (u32 (ptrs * ptrs))
        if logical / ptrs / ptrs < ptrs then
          ptrOn fs d (ptrOn fs d (ptrOn fs d (iBlock inode 14) (logical / u32 (ptrs * ptrs)))
            (logical / ptrs % ptrs)) (logical % ptrs)
        else 0

/-! ## The blocks of the map -/

/-- The blocks that are read on the way down an extent tree. -/
def extentPath (fs : Ext2Fs) (d : Bytes) (logical : ℕ) : ℕ → Bytes → List ℕ
  | 0, _ => []
  | n + 1, eh =>
    if Bytes.le16 eh 0 ≠ ext4ExtMagic then []
    else if Bytes.le16 eh 6 = 0 then []
    else if Bytes.le16 eh 2 = 0 ∨ logical < Bytes.le32 eh 12 then []
    else
      let k := indexLookup eh logical (Bytes.le16 eh 2) 0
      Bytes.le32 eh (12 + 12 * k + 4) ::
        extentPath fs d logical n (blockOn fs d (Bytes.le32 eh (12 + 12 * k + 4)))

/-- The block that is read for a pointer of the indirect block `blk`. -/
def ptrPath (blk : ℕ) : List ℕ := if blk = 0 then [] else [blk]

/-- The blocks that are read to find the logical block `logical` of a file. -/
def mapPath (fs : Ext2Fs) (d : Bytes) (inode : Bytes) (logical : ℕ) : List ℕ :=
  let ptrs := ptrsPerBlock fs
  if usesExtents inode then extentPath fs d logical 8 (Bytes.shift inode 40)
  else if logical < 12 then []
  else
    let logical := logical - 12
    if logical < ptrs then ptrPath (iBlock inode 12)
    else
      let logical := logical - ptrs
      if logical < u32 (ptrs * ptrs) then
        ptrPath (iBlock inode 13) ++ ptrPath (ptrOn fs d (iBlock inode 13) (logical / ptrs))
      else
        let logical := u32sub logical (u32 (ptrs * ptrs))
        if logical / ptrs / ptrs < ptrs then
          ptrPath (iBlock inode 14) ++
            (ptrPath (ptrOn fs d (iBlock inode 14) (logical / u32 (ptrs * ptrs))) ++
              ptrPath (ptrOn fs d (ptrOn fs d (iBlock inode 14) (logical / u32 (ptrs * ptrs)))
                (logical / ptrs % ptrs)))
        else []

section MapPath

variable {fs : Ext2Fs} {d d' inode : Bytes}

lemma extentOn_congr {logical n : ℕ} {eh : Bytes}
    (h : ∀ b ∈ extentPath fs d logical n eh, blockOn fs d' b = blockOn fs d b) :
    extentOn fs d' logical n eh = extentOn fs d logical n eh := by
  induction n generalizing eh with
  | zero => rfl
  | succ n ih =>
    unfold extentOn
    rw [extentPath] at h
    split_ifs with h1 h2 h3
    · rfl
    · rfl
    · rfl
    · rw [if_neg h1, if_neg h2, if_neg h3] at h
      simp only [List.mem_cons, forall_eq_or_imp] at h ⊢
      rw [h.1]
      exact ih h.2

lemma ptrOn_congr {blk k : ℕ} (h : ∀ b ∈ ptrPath blk, blockOn fs d' b = blockOn fs d b) :
    ptrOn fs d' blk k = ptrOn fs d blk k := by
  unfold ptrOn
  split_ifs with h0
  · rfl
  · rw [h blk (by simp [ptrPath, h0])]

/-- The block map of a file does not notice a change of other blocks. -/
lemma getBlockOn_congr {logical : ℕ}
    (h : ∀ b ∈ mapPath fs d inode logical, blockOn fs d' b = blockOn fs d b) :
    getBlockOn fs d' inode logical = getBlockOn fs d inode logical := by
  unfold mapPath at h
  unfold getBlockOn
  dsimp only at h ⊢
  split_ifs at h ⊢ with h1 h2 h3 h4 h5
  · exact extentOn_congr h
  · rfl
  · exact ptrOn_congr h
  · rw [List.forall_mem_append] at h
    rw [ptrOn_congr h.1]
    exact ptrOn_congr h.2
  · rw [List.forall_mem_append, List.forall_mem_append] at h
    rw [ptrOn_congr h.1, ptrOn_congr h.2.1]
    exact ptrOn_congr h.2.2
  · rfl

lemma extentPath_congr {logical n : ℕ} {eh : Bytes}
    (h : ∀ b ∈ extentPath fs d logical n eh, blockOn fs d' b = blockOn fs d b) :
    extentPath fs d' logical n eh = extentPath fs d logical n eh := by
  induction n generalizing eh with
  | zero => rfl
  | succ n ih =>
    unfold extentPath
    rw [extentPath] at h
    split_ifs with h1 h2 h3
    · rfl
    · rfl
    · rfl
    · rw [if_neg h1, if_neg h2, if_neg h3] at h
      simp only [List.mem_cons, forall_eq_or_imp] at h ⊢
      rw [h.1, ih h.2]

/-- The way through the block map does not notice a change of other blocks. -/
lemma mapPath_congr {logical : ℕ}
    (h : ∀ b ∈ mapPath fs d inode logical, blockOn fs d' b = blockOn fs d b) :
    mapPath fs d' inode logical = mapPath fs d inode logical := by
  unfold mapPath at h ⊢
  dsimp only at h ⊢
  split_ifs at h ⊢ with h1 h2 h3 h4 h5
  · exact extentPath_congr h
  · rfl
  · rfl
  · rw [List.forall_mem_append] at h
    rw [ptrOn_congr h.1]
  · rw [List.forall_mem_append, List.forall_mem_append] at h
    rw [ptrOn_congr h.1, ptrOn_congr h.2.1]
  · rfl

end MapPath

/-! ## In the driver -/

/-- What a state of the driver is for the volume: the bytes of its drive, and the nodes. -/
structure Image where
  disk : Bytes
  nodes : ℕ → Ext2Node
  used : ℕ

/-- The volume `fs` in a state of the driver in which the drives never fail. -/
def ext2View (fs : Ext2Fs) : View Ext2State Image where
  good s := s.blk.NoFail
  view s := ⟨s.blk.disk fs.dev, s.nodePool, s.nodePoolUsed⟩

variable {fs : Ext2Fs} {v : Image}

/-- A function that only reads, and what it returns. -/
abbrev Returns {α : Type} (fs : Ext2Fs) (m : Program Ext2State α) (v : Image) (a : α) : Prop :=
  (ext2View fs).wp m (fun r v' => r = a ∧ v' = v) v

lemma Returns.bind {α β : Type} {m : Program Ext2State α} {f : α → Program Ext2State β} {a : α}
    {R : β → Image → Prop} (h : Returns fs m v a) (hf : (ext2View fs).wp (f a) R v) :
    (ext2View fs).wp (m >>= f) R v := by
  refine View.wp_bind h ?_
  rintro _ v ⟨rfl, rfl⟩
  exact hf

lemma Returns.ret {α : Type} (a : α) : Returns fs (pure a) v a := View.wp_pure ⟨rfl, rfl⟩

lemma returns_readBlock (b : ℕ) : Returns fs (readBlock fs b) v (some (blockOn fs v.disk b)) := by
  rintro s hs rfl
  rw [readBlock, io, wp_zoom, wp_blkRead hs]
  exact ⟨hs, rfl, rfl⟩

lemma returns_loadInodeBlock (ino : ℕ) : Returns fs (loadInodeBlock fs ino) v
    (some ((inodePlace fs v.disk ino).1, (inodePlace fs v.disk ino).2,
      blockOn fs v.disk (inodePlace fs v.disk ino).1)) :=
  (returns_readBlock _).bind ((returns_readBlock _).bind (Returns.ret _))

lemma returns_readInode (ino : ℕ) :
    Returns fs (readInode fs ino) v (some (inodeOn fs v.disk ino)) :=
  (returns_loadInodeBlock ino).bind (Returns.ret _)

lemma returns_readPtr (blk k : ℕ) : Returns fs (readPtr fs blk k) v (ptrOn fs v.disk blk k) := by
  unfold readPtr ptrOn
  split_ifs
  · exact Returns.ret _
  · exact (returns_readBlock _).bind (Returns.ret _)

lemma returns_extentLookup (logical n : ℕ) (eh : Bytes) :
    Returns fs (ext4ExtentLookup fs logical n eh) v (extentOn fs v.disk logical n eh) := by
  induction n generalizing eh with
  | zero => exact Returns.ret _
  | succ n ih =>
    unfold ext4ExtentLookup extentOn
    split_ifs
    · exact Returns.ret _
    · exact Returns.ret _
    · exact Returns.ret _
    · exact (returns_readBlock _).bind (ih _)

lemma returns_getBlock (inode : Bytes) (logical : ℕ) :
    Returns fs (getBlock fs inode logical) v (getBlockOn fs v.disk inode logical) := by
  unfold getBlock getBlockOn
  dsimp only
  split_ifs
  · exact returns_extentLookup _ _ _
  · exact Returns.ret _
  · exact returns_readPtr _ _
  · exact (returns_readPtr _ _).bind (returns_readPtr _ _)
  · exact (returns_readPtr _ _).bind ((returns_readPtr _ _).bind (returns_readPtr _ _))
  · exact Returns.ret _

end Ext2

end CoolFrost
