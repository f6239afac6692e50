import CoolFrost.Fs.Ext2.Listing
import Mathlib.Order.CompletePartialOrder

/-!
# ext2: what becomes of a directory

The driver changes a directory by writing one of its blocks or by appending a block.  Either leaves
the directory in order, and changes the list of its entries in one place.  Changes of other blocks
and inodes leave the directory alone.
-/

namespace CoolFrost

open Program

namespace Ext2

variable {fs : Ext2Fs} {p : Plan} {v v' : Vol} {inode buf : Bytes} {ino ino' b off phys : ℕ}
  {offs offs' : List ℕ} {L L₁ L₂ : DirBlocks} {name : List UInt8} {ft : UInt8}

/-! ## Changes of other blocks -/

section Vol

variable {lb : ℕ} (hl : Layout fs)
  (h : ∀ b ∈ mapPath fs v.data inode lb, blockIn fs v' b = blockIn fs v b)

include hl h

lemma getBlockOn_vol : getBlockOn fs v'.data inode lb = getBlockOn fs v.data inode lb :=
  getBlockOn_congr fun b hb => by
    rw [blockOn_data hl, blockOn_data hl]
    exact h b hb

lemma mapPath_vol : mapPath fs v'.data inode lb = mapPath fs v.data inode lb :=
  mapPath_congr fun b hb => by
    rw [blockOn_data hl, blockOn_data hl]
    exact h b hb

end Vol

/-- One block of a directory has changed. -/
lemma Listed.edit (hl : Layout fs) (h : Listed fs p v ino (L₁ ++ (phys, offs) :: L₂))
    (hinode : inodeIn fs p v' ino = inodeIn fs p v ino)
    (hpath : ∀ i < (L₁ ++ (phys, offs) :: L₂).length,
      ∀ b ∈ mapPath fs v.data (inodeIn fs p v ino) i, blockIn fs v' b = blockIn fs v b)
    (hother : ∀ x ∈ L₁ ++ L₂, blockIn fs v' x.1 = blockIn fs v x.1)
    (hcov : Covered fs.blockSize (blockIn fs v' phys) offs') :
    Listed fs p v' ino (L₁ ++ (phys, offs') :: L₂) ∧
      entriesOf fs v' (L₁ ++ (phys, offs') :: L₂) = entriesOf fs v L₁ ++
        ((entriesAt (blockIn fs v' phys) offs').map fun e => (phys, e)) ++ entriesOf fs v L₂ := by
  have hlen : (L₁ ++ (phys, offs') :: L₂).length = (L₁ ++ (phys, offs) :: L₂).length := by simp
  have hfst : (L₁ ++ (phys, offs') :: L₂).map Prod.fst =
      (L₁ ++ (phys, offs) :: L₂).map Prod.fst := by
    simp
  have hsame : ∀ M : DirBlocks, (∀ x ∈ M, blockIn fs v' x.1 = blockIn fs v x.1) →
      entriesOf fs v' M = entriesOf fs v M := fun M hM =>
    List.flatMap_congr fun x hx => by rw [hM x hx]
  refine ⟨⟨?_, fun i hi => ?_, fun x hx => ?_⟩, ?_⟩
  · rw [hinode, hlen]
    exact h.size
  · have hi' : i < (L₁ ++ (phys, offs) :: L₂).length := hlen ▸ hi
    have hget : (L₁ ++ (phys, offs') :: L₂)[i].1 = (L₁ ++ (phys, offs) :: L₂)[i].1 := by
      have hmap := congrArg (fun l => l[i]?) hfst
      simp only [List.getElem?_map, List.getElem?_eq_getElem hi, List.getElem?_eq_getElem hi',
        Option.map_some, Option.some.injEq] at hmap
      exact hmap
    rw [hinode, hget, ← h.block i hi']
    exact getBlockOn_vol hl (hpath i hi')
  · rw [List.mem_append, List.mem_cons] at hx
    rcases hx with hx | rfl | hx
    · rw [hother x (List.mem_append_left _ hx)]
      exact h.covered x (List.mem_append_left _ hx)
    · exact ⟨(h.covered _ (List.mem_append_right _ List.mem_cons_self)).1, hcov⟩
    · rw [hother x (List.mem_append_right _ hx)]
      exact h.covered x (List.mem_append_right _ (List.mem_cons_of_mem _ hx))
  · rw [entriesOf_append, entriesOf_cons, hsame L₁ fun x hx => hother x (List.mem_append_left _ hx),
      hsame L₂ fun x hx => hother x (List.mem_append_right _ hx), List.append_assoc]

/-- A directory does not notice a change of blocks that are not its own. -/
lemma Listed.congr (hl : Layout fs) (h : Listed fs p v ino L)
    (hinode : inodeIn fs p v' ino = inodeIn fs p v ino)
    (hpath : ∀ i < L.length, ∀ b ∈ mapPath fs v.data (inodeIn fs p v ino) i,
      blockIn fs v' b = blockIn fs v b)
    (hblocks : ∀ x ∈ L, blockIn fs v' x.1 = blockIn fs v x.1) :
    Listed fs p v' ino L ∧ entriesOf fs v' L = entriesOf fs v L := by
  refine ⟨⟨?_, fun i hi => ?_, fun x hx => ?_⟩, List.flatMap_congr fun x hx => by rw [hblocks x hx]⟩
  · rw [hinode]
    exact h.size
  · rw [hinode, ← h.block i hi]
    exact getBlockOn_vol hl (hpath i hi)
  · rw [hblocks x hx]
    exact h.covered x hx

/-! ## The blocks of a file -/

/-- The blocks that belong to a file: those of its contents, and those that are read to find
them. -/
def ownBlocks (fs : Ext2Fs) (v : Vol) (inode : Bytes) : Set ℕ :=
  {b | b ≠ 0 ∧ ∃ lb < 2 ^ 32, getBlockOn fs v.data inode lb = b ∨ b ∈ mapPath fs v.data inode lb}

/-- What the code finds in the block map of a file without extents. -/
lemma getBlockOn_data (hl : Layout fs) (hx : usesExtents inode = false) {lb : ℕ}
    (hlb : lb < 12 + ptrsPerBlock fs) : getBlockOn fs v.data inode lb = mapOf fs v inode lb := by
  unfold getBlockOn mapOf
  rw [hx]
  simp only [Bool.false_eq_true, if_false]
  split_ifs with h1 h2 h3 h3
  · rfl
  · rw [ptrOn, if_neg h3.2, blockOn_data hl]
  · rw [ptrOn, if_pos (by
      by_contra h
      exact h3 ⟨h2, h⟩)]
  all_goals omega

lemma ptrsPerBlock_bounds (hl : Layout fs) : 256 ≤ ptrsPerBlock fs ∧ ptrsPerBlock fs ≤ 1024 := by
  have := hl.blockSize_le
  unfold ptrsPerBlock
  omega

lemma mapPath_direct (hx : usesExtents inode = false) {lb : ℕ} (hlb : lb < 12) :
    mapPath fs v.data inode lb = [] := by
  unfold mapPath
  rw [if_neg (by simp [hx]), if_pos hlb]

lemma mapPath_indirect (hx : usesExtents inode = false) {lb : ℕ} (hlb : 12 ≤ lb)
    (hptrs : lb - 12 < ptrsPerBlock fs) :
    mapPath fs v.data inode lb = ptrPath (iBlock inode 12) := by
  unfold mapPath
  rw [if_neg (by simp [hx]), if_neg (by omega), if_pos hptrs]

lemma mem_ptrPath {blk : ℕ} : b ∈ ptrPath blk ↔ blk ≠ 0 ∧ b = blk := by
  unfold ptrPath
  split_ifs with h
  · simp [h]
  · simp [h]

lemma mem_ownBlocks_root (hl : Layout fs) (hx : usesExtents inode = false)
    (h0 : iBlock inode 12 ≠ 0) :
    iBlock inode 12 ∈ ownBlocks fs v inode := by
  have hptrs := ptrsPerBlock_bounds hl
  refine ⟨h0, 12, by norm_num, .inr ?_⟩
  rw [mapPath_indirect hx le_rfl (by omega)]
  exact mem_ptrPath.mpr ⟨h0, rfl⟩

lemma mem_ownBlocks_map (hl : Layout fs) (hx : usesExtents inode = false) {lb : ℕ}
    (h0 : mapOf fs v inode lb ≠ 0) : mapOf fs v inode lb ∈ ownBlocks fs v inode := by
  have hptrs := ptrsPerBlock_bounds hl
  have hlt := mapOf_lt h0
  exact ⟨h0, lb, by omega, .inl (getBlockOn_data hl hx hlt)⟩

/-- The block map of a file after a change that leaves it alone. -/
lemma MapOk.congr {inode' : Bytes} (h : MapOk fs p v inode)
    (hused : ∀ b, v.used b = true → v'.used b = true)
    (hroot : iBlock inode' 12 = iBlock inode 12)
    (hmap : ∀ lb, mapOf fs v' inode' lb = mapOf fs v inode lb) : MapOk fs p v' inode' := by
  refine ⟨?_, fun lb hlb => ?_, fun lb hlb => ?_, fun lb lb' hlb heq => ?_⟩
  · unfold IndirectOk
    rw [hroot]
    exact h.indirect.imp id fun hb => hb.mono hused
  · rw [hmap] at hlb ⊢
    exact (h.file lb hlb).mono hused
  · rw [hmap] at hlb ⊢
    rw [hroot]
    exact h.apart lb hlb
  · rw [hmap] at hlb
    rw [hmap, hmap] at heq
    exact h.inj lb lb' hlb heq

namespace Listed

lemma length_lt (hl : Layout fs) (h : Listed fs p v ino L) : L.length < 2 ^ 32 := by
  have hsize : iSize (inodeIn fs p v ino) < 2 ^ 32 := Bytes.le32_lt _ _
  rw [h.size] at hsize
  exact (Nat.le_mul_of_pos_right _ hl.blockSize_pos).trans_lt hsize

lemma mem_ownBlocks (hl : Layout fs) (h : Listed fs p v ino L) {x : ℕ × List ℕ} (hx : x ∈ L) :
    x.1 ∈ ownBlocks fs v (inodeIn fs p v ino) := by
  obtain ⟨i, hi, rfl⟩ := List.getElem_of_mem hx
  exact ⟨(h.covered _ hx).1, i, hi.trans (h.length_lt hl), .inl (h.block i hi)⟩

end Listed

/-- The blocks of a directory that hold its records, those that are read to find them, and its
indirect block. -/
def heldBlocks (fs : Ext2Fs) (p : Plan) (v : Vol) (ino : ℕ) (L : DirBlocks) : Set ℕ :=
  {b | b ∈ L.map Prod.fst ∨ (∃ i < L.length, b ∈ mapPath fs v.data (inodeIn fs p v ino) i) ∨
    (usesExtents (inodeIn fs p v ino) = false ∧ b ≠ 0 ∧ b = iBlock (inodeIn fs p v ino) 12)}

/-- A directory whose block map leads the same way holds the same blocks. -/
lemma heldBlocks_congr {L' : DirBlocks} (hfst : L'.map Prod.fst = L.map Prod.fst)
    (hinode : inodeIn fs p v' ino = inodeIn fs p v ino)
    (hpath : ∀ i < L.length, mapPath fs v'.data (inodeIn fs p v ino) i =
      mapPath fs v.data (inodeIn fs p v ino) i) :
    heldBlocks fs p v' ino L' = heldBlocks fs p v ino L := by
  have hlen : L'.length = L.length := by
    have h := congrArg List.length hfst
    rwa [List.length_map, List.length_map] at h
  unfold heldBlocks
  rw [hinode, hfst, hlen]
  refine Set.ext fun b => or_congr_right (or_congr_left (exists_congr fun i => ?_))
  exact and_congr_right fun hi => by rw [hpath i hi]

namespace DirOn

lemma path_ownBlocks (hl : Layout fs) (h : DirOn fs p v ino L) {i : ℕ} (hi : i < L.length)
    (hb : b ∈ mapPath fs v.data (inodeIn fs p v ino) i) :
    b ∈ ownBlocks fs v (inodeIn fs p v ino) :=
  ⟨(h.path i hi b hb).1.ne_zero, i, hi.trans (h.toListed.length_lt hl), .inr hb⟩

/-- The indirect block of a directory holds no records. -/
lemma root_not_mem (hl : Layout fs) (h : DirOn fs p v ino L)
    (hx : usesExtents (inodeIn fs p v ino) = false) (h0 : iBlock (inodeIn fs p v ino) 12 ≠ 0) :
    iBlock (inodeIn fs p v ino) 12 ∉ L.map Prod.fst := by
  have hptrs := ptrsPerBlock_bounds hl
  by_cases hlen : 12 < L.length
  · refine (h.path 12 hlen _ ?_).2
    rw [mapPath_indirect hx le_rfl (by omega)]
    exact mem_ptrPath.mpr ⟨h0, rfl⟩
  · intro hmem
    obtain ⟨x, hmem, heq⟩ := List.mem_map.mp hmem
    obtain ⟨i, hi, rfl⟩ := List.getElem_of_mem hmem
    rw [← h.block i hi, getBlockOn_data hl hx (by omega)] at heq
    exact (h.map hx).apart i (heq.trans_ne h0) heq

lemma held_subset (hl : Layout fs) (h : DirOn fs p v ino L) :
    heldBlocks fs p v ino L ⊆ ownBlocks fs v (inodeIn fs p v ino) := by
  rintro b (hb | ⟨i, hi, hb⟩ | ⟨hx, h0, rfl⟩)
  · obtain ⟨x, hx, rfl⟩ := List.mem_map.mp hb
    exact h.toListed.mem_ownBlocks hl hx
  · exact h.path_ownBlocks hl hi hb
  · exact mem_ownBlocks_root hl hx h0

/-- The block map of a directory after a change of blocks that it does not lead through. -/
lemma map_congr (h : DirOn fs p v ino L)
    (hinode : inodeIn fs p v' ino = inodeIn fs p v ino)
    (hused : ∀ b, v.used b = true → v'.used b = true)
    (hroot : usesExtents (inodeIn fs p v ino) = false → iBlock (inodeIn fs p v ino) 12 ≠ 0 →
      blockIn fs v' (iBlock (inodeIn fs p v ino) 12) =
        blockIn fs v (iBlock (inodeIn fs p v ino) 12))
    (hx : usesExtents (inodeIn fs p v' ino) = false) : MapOk fs p v' (inodeIn fs p v' ino) := by
  rw [hinode] at hx ⊢
  exact (h.map hx).congr hused rfl (mapOf_congr (fun _ _ => rfl) (hroot hx))

/-- A directory does not notice a change of blocks that are not its own. -/
lemma frame (hl : Layout fs) (h : DirOn fs p v ino L) {S I : Set ℕ} (hc : ChangedIn fs p v v' S I)
    (hused : ∀ b, v.used b = true → v'.used b = true)
    (hS : Disjoint (heldBlocks fs p v ino L) S) (hI : ino ∉ I) :
    DirOn fs p v' ino L ∧ entriesOf fs v' L = entriesOf fs v L ∧
      heldBlocks fs p v' ino L = heldBlocks fs p v ino L := by
  have hinode := hc.inodes ino h.inode hI
  have hpath : ∀ i < L.length, ∀ b ∈ mapPath fs v.data (inodeIn fs p v ino) i,
      blockIn fs v' b = blockIn fs v b := fun i hi b hb =>
    hc.blocks b (h.path i hi b hb).1 (Set.disjoint_left.mp hS (.inr (.inl ⟨i, hi, hb⟩)))
  obtain ⟨hlisted, hentries⟩ := h.toListed.congr hl hinode hpath fun x hx =>
    hc.blocks _ (h.file x hx) (Set.disjoint_left.mp hS (.inl (List.mem_map_of_mem hx)))
  refine ⟨{ hlisted with
    inode := h.inode
    isDir := by rw [hinode]; exact h.isDir
    file := fun x hx => (h.file x hx).mono hused
    nodup := h.nodup
    path := fun i hi b hb => ?_
    map := h.map_congr hinode hused fun hx h0 => ?_ }, hentries,
    heldBlocks_congr rfl hinode fun i hi => mapPath_vol hl (hpath i hi)⟩
  · rw [hinode, mapPath_vol hl (hpath i hi)] at hb
    exact ⟨(h.path i hi b hb).1.mono hused, (h.path i hi b hb).2⟩
  · exact hc.blocks _ ((h.map hx).indirect.resolve_left h0)
      (Set.disjoint_left.mp hS (.inr (.inr ⟨hx, h0, rfl⟩)))

/-- One block of the directory is written. -/
lemma write (hl : Layout fs) (hp : p.Fits fs) (h : DirOn fs p v ino (L₁ ++ (phys, offs) :: L₂))
    (hcov : Covered fs.blockSize buf offs') :
    DirOn fs p (v.write fs phys buf) ino (L₁ ++ (phys, offs') :: L₂) ∧
      entriesOf fs (v.write fs phys buf) (L₁ ++ (phys, offs') :: L₂) = entriesOf fs v L₁ ++
        ((entriesAt buf offs').map fun e => (phys, e)) ++ entriesOf fs v L₂ ∧
      heldBlocks fs p (v.write fs phys buf) ino (L₁ ++ (phys, offs') :: L₂) =
        heldBlocks fs p v ino (L₁ ++ (phys, offs) :: L₂) := by
  have hmem : (phys, offs) ∈ L₁ ++ (phys, offs) :: L₂ := List.mem_append_right _ List.mem_cons_self
  have hfile := h.file _ hmem
  have hinode : inodeIn fs p (v.write fs phys buf) ino = inodeIn fs p v ino :=
    inodeIn_write hl hp hfile h.inode buf
  have hself : blockIn fs (v.write fs phys buf) phys = Bytes.clip fs.blockSize buf :=
    blockIn_write_self hl buf
  obtain ⟨hcov', hentries'⟩ := hcov.clip
  rw [← hself] at hcov' hentries'
  have hpath : ∀ i < (L₁ ++ (phys, offs) :: L₂).length,
      ∀ b ∈ mapPath fs v.data (inodeIn fs p v ino) i,
        blockIn fs (v.write fs phys buf) b = blockIn fs v b := fun i hi b hb =>
    blockIn_write_of_ne hl (fun heq =>
      (h.path i hi b hb).2 (List.mem_map.mpr ⟨_, hmem, heq.symm⟩)) buf
  have hfst : (L₁ ++ (phys, offs') :: L₂).map Prod.fst =
      (L₁ ++ (phys, offs) :: L₂).map Prod.fst := by
    simp
  have hother : ∀ x ∈ L₁ ++ L₂, x.1 ≠ phys := fun x hx heq => by
    have hnodup := h.nodup
    rw [List.map_append, List.map_cons, List.nodup_middle, ← List.map_append] at hnodup
    exact (List.nodup_cons.mp hnodup).1 (List.mem_map.mpr ⟨x, hx, heq⟩)
  obtain ⟨hlisted, hentries⟩ := h.toListed.edit hl hinode hpath
    (fun x hx => blockIn_write_of_ne hl (hother x hx) buf) hcov'
  have hused : ∀ b, v.used b = true → (v.write fs phys buf).used b = true := fun _ hb => hb
  refine ⟨{ hlisted with
    inode := h.inode
    isDir := by rw [hinode]; exact h.isDir
    file := fun x hx => ?_
    nodup := by rw [hfst]; exact h.nodup
    path := fun i hi b hb => ?_
    map := h.map_congr hinode hused fun hx h0 => ?_ }, by rw [hentries, hentries'],
    heldBlocks_congr hfst hinode fun i hi => mapPath_vol hl (hpath i hi)⟩
  · have hx' : x.1 ∈ (L₁ ++ (phys, offs) :: L₂).map Prod.fst := hfst ▸ List.mem_map_of_mem hx
    obtain ⟨y, hy, heq⟩ := List.mem_map.mp hx'
    rw [← heq]
    exact (h.file y hy).mono hused
  · have hi' : i < (L₁ ++ (phys, offs) :: L₂).length := by simpa using hi
    rw [hinode, mapPath_vol hl (hpath i hi')] at hb
    rw [hfst]
    exact ⟨(h.path i hi' b hb).1.mono hused, (h.path i hi' b hb).2⟩
  · exact blockIn_write_of_ne hl (fun heq => h.root_not_mem hl hx h0
      (List.mem_map.mpr ⟨_, hmem, heq.symm⟩)) buf

end DirOn

/-! ## A new block -/

/-- The block map of a file that got the block `b` as its logical block `lb`. -/
lemma Growth.mapOk {lb : ℕ} {inode' : Bytes}
    (hg : Growth fs p v inode lb (b, inode') v') (hb : b ≠ 0)
    (hm : MapOk fs p v inode) : MapOk fs p v' inode' ∧
      ∀ lb', mapOf fs v' inode' lb' = if lb' = lb then b else mapOf fs v inode lb' := by
  have hgrown : Grown fs p v inode v' inode' := hg.grown
  have hothers : ∀ lb', lb' ≠ lb → mapOf fs v' inode' lb' = mapOf fs v inode lb' := hg.others
  have hself : mapOf fs v' inode' lb = b := by
    rcases hg.outcome with ⟨-, hself, -⟩ | ⟨hz, -⟩ | ⟨hz, -⟩
    · exact hself
    · exact absurd hz hb
    · exact absurd hz hb
  -- no block in use is the new indirect block
  have hroot : ∀ x, FileBlock fs p v x → x ≠ iBlock inode 12 → x ≠ iBlock inode' 12 := by
    intro x hx hne heq
    rcases hgrown.root with hr | ⟨-, hfree⟩
    · exact hne (heq.trans hr)
    · rw [← heq, hx.used] at hfree
      cases hfree
  obtain ⟨hapart, hnew⟩ : b ≠ iBlock inode' 12 ∧ ∀ lb', lb' ≠ lb → mapOf fs v inode lb' ≠ b := by
    by_cases hhole : mapOf fs v inode lb = 0
    · obtain ⟨-, hfree, hne⟩ := hg.block hb hhole
      refine ⟨hne, fun lb' _ heq => ?_⟩
      have hu := (hm.file lb' (heq.trans_ne hb)).used
      rw [heq, hfree] at hu
      cases hu
    · have heq : mapOf fs v inode lb = b := (hgrown.map lb hhole).symm.trans hself
      refine ⟨?_, fun lb' hne heq' => hne (hm.inj lb lb' hhole (heq'.trans heq.symm))⟩
      rw [← heq]
      exact hroot _ (hm.file lb hhole) (hm.apart lb hhole)
  have hmap : ∀ lb', mapOf fs v' inode' lb' = if lb' = lb then b else mapOf fs v inode lb' := by
    intro lb'
    split_ifs with h
    · rw [h, hself]
    · exact hothers lb' h
  refine ⟨⟨hgrown.indirect, fun lb' h0 => ?_, fun lb' h0 => ?_, fun lb₁ lb₂ h0 heq => ?_⟩, hmap⟩
  · rw [hmap] at h0 ⊢
    split_ifs at h0 ⊢
    · exact hg.fileBlock hb hm.file
    · exact (hm.file lb' h0).mono hgrown.used
  · rw [hmap] at h0 ⊢
    split_ifs at h0 ⊢
    · exact hapart
    · exact hroot _ (hm.file lb' h0) (hm.apart lb' h0)
  · rw [hmap] at h0
    rw [hmap, hmap] at heq
    split_ifs at h0 heq with h1 h2 h3
    · exact h2.trans h1.symm
    · exact absurd heq (hnew lb₂ h2)
    · exact absurd heq.symm (hnew lb₁ h1)
    · exact hm.inj lb₁ lb₂ h0 heq

section Fields

variable {x : ℕ}

/-- The inode with another size, as it is stored. -/
lemma iBlock_setISize (k : ℕ) (hk : k < 15) :
    iBlock (Bytes.clip 128 (setISize inode x)) k = iBlock inode k := by
  unfold iBlock setISize
  rw [Bytes.le32_clip (by omega), Bytes.put32, Bytes.le32_blit_of_disjoint (by omega)]

lemma iSize_setISize (hx : x < 2 ^ 32) : iSize (Bytes.clip 128 (setISize inode x)) = x := by
  unfold iSize setISize
  rw [Bytes.le32_clip (by norm_num), Bytes.le32_put32_self, Nat.mod_eq_of_lt hx]

lemma usesExtents_setISize :
    usesExtents (Bytes.clip 128 (setISize inode x)) = usesExtents inode := by
  unfold usesExtents iFlags setISize
  rw [Bytes.le32_clip (by norm_num), Bytes.put32, Bytes.le32_blit_of_disjoint (by norm_num)]

lemma isDirInode_setISize :
    isDirInode (Bytes.clip 128 (setISize inode x)) = isDirInode inode := by
  unfold isDirInode iMode setISize
  rw [Bytes.le16_clip (by norm_num), Bytes.put32, Bytes.le16_blit_of_disjoint (by norm_num)]

end Fields

/-- The mode and the size of a file that has grown. -/
lemma Grown.fields {inode' : Bytes} (h : Grown fs p v inode v' inode') :
    iSize inode' = iSize inode ∧ isDirInode inode' = isDirInode inode := by
  refine ⟨Bytes.le32_congr fun i hi => h.head _ (by omega), ?_⟩
  unfold isDirInode iMode
  rw [Bytes.le16_congr fun i hi => h.head (0 + i) (by omega)]

/-- The file `ino` got the block `b` with the contents `buf` as its logical block `lb`, and is
longer by one block. -/
structure Appended (fs : Ext2Fs) (p : Plan) (v : Vol) (ino lb b : ℕ) (buf : Bytes) (v' : Vol) :
    Prop where
  size : iSize (inodeIn fs p v' ino) = iSize (inodeIn fs p v ino) + fs.blockSize
  isDir : isDirInode (inodeIn fs p v' ino) = isDirInode (inodeIn fs p v ino)
  extents : usesExtents (inodeIn fs p v' ino) = false
  lt : lb < 12 + ptrsPerBlock fs
  ne_zero : b ≠ 0
  map : ∀ i, mapOf fs v' (inodeIn fs p v' ino) i =
    if i = lb then b else mapOf fs v (inodeIn fs p v ino) i
  ok : MapOk fs p v' (inodeIn fs p v' ino)
  used : ∀ x, v.used x = true → v'.used x = true
  added : ∀ x, x ≠ 0 → v.used x = false → v'.used x = true →
    x = iBlock (inodeIn fs p v' ino) 12 ∨ x = b
  root : iBlock (inodeIn fs p v' ino) 12 = iBlock (inodeIn fs p v ino) 12 ∨
    v.used (iBlock (inodeIn fs p v' ino) 12) = false
  kept : v'.inodeUsed = v.inodeUsed ∧ v'.nodesUsed = v.nodesUsed ∧ v'.nodes = v.nodes
  /-- The block was free, unless the file had it before. -/
  fresh : v.used b = true → mapOf fs v (inodeIn fs p v ino) lb = b
  changed : ChangedIn fs p v v' {x | x = iBlock (inodeIn fs p v ino) 12 ∨ x = b} {ino}
  self : blockIn fs v' b = Bytes.clip fs.blockSize buf

lemma Growth.appended (hl : Layout fs) (hp : p.Fits fs) (hi : InodeIn fs ino)
    {inode' : Bytes} {lb : ℕ}
    (hx : usesExtents (inodeIn fs p v ino) = false) (hm : MapOk fs p v (inodeIn fs p v ino))
    (hlb : iSize (inodeIn fs p v ino) = lb * fs.blockSize)
    (hg : Growth fs p v (inodeIn fs p v ino) lb (b, inode') v') (hb : b ≠ 0) (buf : Bytes) :
    Appended fs p v ino lb b buf
      ((v'.write fs b buf).putInode fs p ino (setISize inode' (iSize inode' + fs.blockSize))) := by
  obtain ⟨v₂, hv₂⟩ : ∃ v₂, v₂ = (v'.write fs b buf).putInode fs p ino
    (setISize inode' (iSize inode' + fs.blockSize)) := ⟨_, rfl⟩
  rw [← hv₂]
  obtain ⟨hok, hmap⟩ := hg.mapOk hb hm
  have hgrown : Grown fs p v (inodeIn fs p v ino) v' inode' := hg.grown
  have hfile : FileBlock fs p v' b := hg.fileBlock hb hm.file
  have hmapb : mapOf fs v' inode' lb = b := (hmap lb).trans (if_pos rfl)
  have hlt : lb < 12 + ptrsPerBlock fs := mapOf_lt (hmapb.trans_ne hb)
  obtain ⟨hsize, hdir⟩ := hgrown.fields
  have hino : inodeIn fs p v₂ ino =
      Bytes.clip 128 (setISize inode' (iSize inode' + fs.blockSize)) := by
    rw [hv₂]
    exact inodeIn_putInode_self
  have hmax : iSize inode' + fs.blockSize < 2 ^ 32 := by
    have hptrs := ptrsPerBlock_bounds hl
    have hmul := Nat.mul_le_mul (show lb + 1 ≤ 1036 by omega) hl.blockSize_le.2
    rw [hsize, hlb, ← Nat.succ_mul]
    exact hmul.trans_lt (by norm_num)
  have hused : ∀ x, v'.used x = true → v₂.used x = true := fun x hx => by rw [hv₂]; exact hx
  have hother : ∀ x, FileBlock fs p v' x → x ≠ b → blockIn fs v₂ x = blockIn fs v' x := by
    intro x hx hne
    rw [hv₂, blockIn_putInode hl hp hx hi, blockIn_write_of_ne hl hne]
  have hroot : iBlock (inodeIn fs p v₂ ino) 12 = iBlock inode' 12 := by
    rw [hino, iBlock_setISize 12 (by norm_num)]
  have hmap₂ : ∀ i, mapOf fs v₂ (inodeIn fs p v₂ ino) i = mapOf fs v' inode' i := by
    refine mapOf_congr (fun k hk => ?_) fun h0 => ?_
    · rw [hino, iBlock_setISize k (by omega)]
    · refine hother _ (hok.indirect.resolve_left h0) fun heq => ?_
      exact hok.apart lb (hmapb.trans_ne hb) (hmapb.trans heq.symm)
  have hx₂ : usesExtents (inodeIn fs p v₂ ino) = false := by
    rw [hino, usesExtents_setISize, hgrown.extents, hx]
  refine ⟨?_, ?_, hx₂, hlt, hb, fun i => (hmap₂ i).trans (hmap i), hok.congr hused hroot hmap₂,
    fun x hx' => hused x (hgrown.used x hx'), fun x h0 hno hyes => ?_, ?_, ?_, fun hu => ?_,
    ⟨fun x hfx hne => ?_, fun i hi' hne => ?_⟩, ?_⟩
  · rw [hino, iSize_setISize hmax, hsize]
  · rw [hino, isDirInode_setISize, hdir]
  · -- what was taken is the indirect block, or the block that the map did not lead to
    have hyes' : v'.used x = true := by
      rw [hv₂] at hyes
      exact hyes
    rcases hgrown.added x h0 hno hyes' with heq | ⟨i, heq⟩
    · exact .inl (heq.trans hroot.symm)
    · rw [hmap] at heq
      split_ifs at heq
      · exact .inr heq.symm
      · have hu := (hm.file i (heq.trans_ne h0)).used
        rw [heq, hno] at hu
        cases hu
  · rw [hroot]
    exact hgrown.root.imp id And.right
  · rw [hv₂]
    exact hg.kept
  · by_contra hhole
    have hzero : mapOf fs v (inodeIn fs p v ino) lb = 0 := by
      by_contra hne
      exact hhole ((hgrown.map lb hne).symm.trans hmapb)
    have hfree := (hg.block hb hzero).2.1
    rw [hu] at hfree
    cases hfree
  · have hne' : x ≠ iBlock (inodeIn fs p v ino) 12 ∧ x ≠ b := not_or.mp hne
    rw [hother x (hfx.mono hgrown.used) hne'.2]
    exact hgrown.changed.blocks x hfx hne'.1
  · rw [hv₂, inodeIn_putInode_of_ne hl hp hi hi' hne, inodeIn_write hl hp hfile hi']
    exact hgrown.changed.inodes i hi' (Set.notMem_empty i)
  · rw [hv₂, blockIn_putInode hl hp hfile hi, blockIn_write_self hl]

/-- A directory that got a block behind its last one. -/
lemma DirOn.append (hl : Layout fs) (h : DirOn fs p v ino L)
    (hx : usesExtents (inodeIn fs p v ino) = false)
    (ha : Appended fs p v ino L.length b buf v') (hcov : Covered fs.blockSize buf offs) :
    DirOn fs p v' ino (L ++ [(b, offs)]) ∧
      entriesOf fs v' (L ++ [(b, offs)]) =
        entriesOf fs v L ++ ((entriesAt buf offs).map fun e => (b, e)) ∧
      ∀ x ∈ heldBlocks fs p v' ino (L ++ [(b, offs)]), x ∈ L.map Prod.fst ∨ x = b ∨
        (x ≠ 0 ∧ x = iBlock (inodeIn fs p v' ino) 12) := by
  have hlt := ha.lt
  have hmapb : mapOf fs v' (inodeIn fs p v' ino) L.length = b := (ha.map _).trans (if_pos rfl)
  -- the blocks that were there
  have hmap : ∀ i (hi : i < L.length), mapOf fs v' (inodeIn fs p v' ino) i = L[i].1 := by
    intro i hi
    rw [ha.map, if_neg (by omega), ← h.block i hi, getBlockOn_data hl hx (by omega)]
  have hold : ∀ x ∈ L, x.1 ≠ b ∧ blockIn fs v' x.1 = blockIn fs v x.1 := by
    intro x hx'
    have hfile := h.file x hx'
    have hne : x.1 ≠ b := by
      obtain ⟨i, hi, rfl⟩ := List.getElem_of_mem hx'
      intro heq
      have hi' := ha.ok.inj L.length i (hmapb.trans_ne ha.ne_zero)
        (((hmap i hi).trans heq).trans hmapb.symm)
      omega
    refine ⟨hne, ha.changed.blocks _ hfile ?_⟩
    rintro (heq | heq)
    · exact h.root_not_mem hl hx (heq ▸ hfile.ne_zero) (List.mem_map.mpr ⟨_, hx', heq⟩)
    · exact hne heq
  obtain ⟨hcov', hentries'⟩ := hcov.clip
  rw [← ha.self] at hcov' hentries'
  have hlen : (L ++ [(b, offs)]).length = L.length + 1 := by simp
  have hget : ∀ i (hi : i < (L ++ [(b, offs)]).length),
      mapOf fs v' (inodeIn fs p v' ino) i = (L ++ [(b, offs)])[i].1 := by
    intro i hi
    by_cases hlast : i < L.length
    · rw [List.getElem_append_left hlast]
      exact hmap i hlast
    · obtain rfl : i = L.length := by omega
      rw [List.getElem_concat_length rfl]
      exact hmapb
  have hlisted : Listed fs p v' ino (L ++ [(b, offs)]) := by
    refine ⟨?_, fun i hi => ?_, fun x hx' => ?_⟩
    · rw [ha.size, h.size, hlen, Nat.succ_mul]
    · rw [getBlockOn_data hl ha.extents (by omega), hget i hi]
    · rw [List.mem_append, List.mem_singleton] at hx'
      rcases hx' with hx' | rfl
      · rw [(hold x hx').2]
        exact h.covered x hx'
      · exact ⟨ha.ne_zero, hcov'⟩
  have hfile : ∀ x ∈ L ++ [(b, offs)], ∃ i,
      mapOf fs v' (inodeIn fs p v' ino) i = x.1 ∧ x.1 ≠ 0 := by
    intro x hx'
    obtain ⟨i, hi, rfl⟩ := List.getElem_of_mem hx'
    exact ⟨i, hget i hi, (hlisted.covered _ hx').1⟩
  -- only the indirect block is read on the way
  have hpath : ∀ i < (L ++ [(b, offs)]).length, ∀ x ∈ mapPath fs v'.data (inodeIn fs p v' ino) i,
      x ≠ 0 ∧ x = iBlock (inodeIn fs p v' ino) 12 := by
    intro i hi x hx'
    by_cases hdirect : i < 12
    · rw [mapPath_direct ha.extents hdirect] at hx'
      exact absurd hx' List.not_mem_nil
    · rw [mapPath_indirect ha.extents (by omega) (by omega), mem_ptrPath] at hx'
      obtain ⟨h0, rfl⟩ := hx'
      exact ⟨h0, rfl⟩
  refine ⟨{ hlisted with
    inode := h.inode
    isDir := ha.isDir.trans h.isDir
    file := fun x hx' => ?_
    nodup := ?_
    path := fun i hi x hx' => ?_
    map := fun _ => ha.ok }, ?_, ?_⟩
  · obtain ⟨i, heq, h0⟩ := hfile x hx'
    rw [← heq]
    exact ha.ok.file i (heq.trans_ne h0)
  · rw [List.map_append, List.map_singleton, List.nodup_append]
    refine ⟨h.nodup, List.nodup_singleton _, fun x hx' y hy => ?_⟩
    obtain ⟨z, hz, rfl⟩ := List.mem_map.mp hx'
    rw [List.mem_singleton.mp hy]
    exact (hold z hz).1
  · obtain ⟨h0, rfl⟩ := hpath i hi x hx'
    refine ⟨ha.ok.indirect.resolve_left h0, fun hmem => ?_⟩
    obtain ⟨z, hz, heq⟩ := List.mem_map.mp hmem
    obtain ⟨j, hj, -⟩ := hfile z hz
    rw [heq] at hj
    exact ha.ok.apart j (hj.trans_ne h0) hj
  · have hsame : entriesOf fs v' L = entriesOf fs v L :=
      List.flatMap_congr fun x hx' => by rw [(hold x hx').2]
    rw [entriesOf_append, hsame, ← hentries']
    exact congrArg _ (List.append_nil _)
  · rintro x (hx' | ⟨i, hi, hx'⟩ | ⟨-, hx'⟩)
    · rw [List.map_append, List.mem_append] at hx'
      exact hx'.imp id fun hb => .inl (List.mem_singleton.mp hb)
    · exact .inr (.inr (hpath i hi x hx'))
    · exact .inr (.inr hx')

/-! ## Inserting, clearing and renaming -/

/-- Where a record is in the directory. -/
lemma exists_split {r : RecordAt} (h : r ∈ recordsOf fs v L) :
    ∃ L₁ l₁ l₂ L₂, L = L₁ ++ (r.phys, l₁ ++ r.off :: l₂) :: L₂ ∧ r.buf = blockIn fs v r.phys := by
  obtain ⟨x, hx, off, hoff, rfl⟩ := mem_recordsOf.mp h
  obtain ⟨L₁, L₂, rfl⟩ := List.append_of_mem hx
  obtain ⟨l₁, l₂, hl⟩ := List.append_of_mem hoff
  exact ⟨L₁, l₁, l₂, L₂, by rw [← hl], rfl⟩

/-- After the entry was put into it, the directory lists it besides the others.  The blocks that it
holds are old ones, or they were free; what was taken is for the directory. -/
lemma InsertOutcome.dirOn (hl : Layout fs) (hp : p.Fits fs) (hr : Reserved fs p v)
    (h : DirOn fs p v ino L) (hname : name.length ≤ 255) (hino : 0 < ino' ∧ ino' < 2 ^ 32)
    (hout : InsertOutcome fs p v ino (recordsOf fs v L) name ino' ft true v') :
    ∃ L' phys off, DirOn fs p v' ino L' ∧
      (entriesOf fs v' L').Perm ((phys, off, ⟨ino', ft, name⟩) :: entriesOf fs v L) ∧
      (∀ x ∈ heldBlocks fs p v' ino L', x ∈ ownBlocks fs v (inodeIn fs p v ino) ∨
        v.used x = false) ∧
      ∀ x, v.used x = false → v'.used x = true → x ∈ heldBlocks fs p v' ino L' := by
  have hbs := hl.blockSize_le
  cases hout with
  | @slot r hr hroom =>
    obtain ⟨L₁, l₁, l₂, L₂, rfl, hbuf⟩ := exists_split hr
    have hcov := (h.covered _ (List.mem_append_right L₁ List.mem_cons_self)).2
    unfold Spare at hroom
    rw [hbuf] at hroom ⊢
    obtain ⟨m, off', hcov', hentries⟩ := @Covered.place _ _ _ _ _ _ _ ft hcov hname hino hroom
    obtain ⟨hdir, hlist, hheld⟩ := h.write hl hp hcov'
    refine ⟨_, r.phys, off', hdir, ?_, fun x hx => .inl (h.held_subset hl (hheld ▸ hx)),
      fun x hno hyes => ?_⟩
    · have hold : entriesAt (blockIn fs v r.phys) (l₁ ++ r.off :: l₂) =
          entriesAt (blockIn fs v r.phys) (l₁ ++ [r.off]) ++ entriesAt
          (blockIn fs v r.phys) l₂ := by
        rw [← entriesAt_append, List.append_assoc]
        rfl
      rw [hlist, hentries, entriesOf_append, entriesOf_cons, hold]
      simp only [List.map_append, List.map_cons, List.append_assoc, List.cons_append]
      rw [← List.append_assoc, ← List.append_assoc]
      exact List.perm_middle
    · have hyes' : v.used x = true := hyes
      rw [hno] at hyes'
      cases hyes'
  | @grown b inode₁ v₁ hfull hx hb hg =>
    have hcount : iSize (inodeIn fs p v ino) / fs.blockSize = L.length := by
      rw [h.size, Nat.mul_div_cancel _ hl.blockSize_pos]
    rw [hcount] at hg
    have hspb := hl.blockSize
    have hn : 4 ∣ fs.blockSize ∧ 264 ≤ fs.blockSize ∧ fs.blockSize < 65536 := by omega
    obtain ⟨hcov, hentries⟩ := @covered_newDirBlock fs.blockSize ino' name ft hn hname hino
    rw [newDirBlock] at hcov hentries
    have ha := hg.appended hl hp h.inode hx (h.map hx) h.size hb
      (fillRecord (Bytes.put16 Bytes.zeros 4 fs.blockSize) 0 ino' name ft)
    obtain ⟨hdir, hlist, hheld⟩ := h.append hl hx ha hcov
    refine ⟨_, b, 0, hdir, ?_, fun x hmem => ?_, fun x hno hyes => ?_⟩
    · rw [hlist, hentries]
      exact List.perm_append_comm
    · rcases hheld x hmem with hmem | rfl | ⟨h0, rfl⟩
      · exact .inl (h.held_subset hl (.inl hmem))
      · by_cases hu : v.used x = true
        · have heq := ha.fresh hu
          have hown := @mem_ownBlocks_map fs v _ hl hx L.length (heq.trans_ne hb)
          rw [heq] at hown
          exact .inl hown
        · exact .inr (by simpa using hu)
      · rcases ha.root with heq | hfree
        · rw [heq] at h0 ⊢
          exact .inl (mem_ownBlocks_root hl hx h0)
        · exact .inr hfree
    · have h0 : x ≠ 0 := by
        rintro rfl
        rw [hr.used_zero] at hno
        cases hno
      rcases ha.added x h0 hno hyes with heq | rfl
      · exact .inr (.inr ⟨ha.extents, h0, heq⟩)
      · exact .inl (List.mem_map.mpr ⟨_, List.mem_append_right _ List.mem_cons_self, rfl⟩)

/-- What putting an entry into a directory leaves alone. -/
lemma InsertOutcome.changed (hl : Layout fs) (hp : p.Fits fs) (h : DirOn fs p v ino L) {ok : Bool}
    (hout : InsertOutcome fs p v ino (recordsOf fs v L) name ino' ft ok v') :
    ChangedIn fs p v v' (ownBlocks fs v (inodeIn fs p v ino)) {ino} ∧
      (∀ b, v.used b = true → v'.used b = true) ∧
      (v'.inodeUsed = v.inodeUsed ∧ v'.nodesUsed = v.nodesUsed ∧ v'.nodes = v.nodes) ∧
      (ok = false → ChangedIn fs p v v' ∅ ∅) := by
  cases hout with
  | @slot r hmem hroom =>
    obtain ⟨x, hx, off, -, rfl⟩ := mem_recordsOf.mp hmem
    refine ⟨(ChangedIn.write hl hp (h.file x hx) _).mono ?_ (Set.empty_subset _), fun _ hb => hb,
      ⟨rfl, rfl, rfl⟩, fun hok => by cases hok⟩
    exact Set.singleton_subset_iff.mpr (h.toListed.mem_ownBlocks hl hx)
  | @grown b inode₁ v₁ hfull hx hb hg =>
    have hcount : iSize (inodeIn fs p v ino) / fs.blockSize = L.length := by
      rw [h.size, Nat.mul_div_cancel _ hl.blockSize_pos]
    rw [hcount] at hg
    have ha := hg.appended hl hp h.inode hx (h.map hx) h.size hb
      (fillRecord (Bytes.put16 Bytes.zeros 4 fs.blockSize) 0 ino' name ft)
    refine ⟨⟨fun x hfile hne => ha.changed.blocks x hfile ?_, ha.changed.inodes⟩, ha.used, ha.kept,
      fun hok => by cases hok⟩
    -- the block was free, or one of the directory
    rintro (rfl | rfl)
    · exact hne (mem_ownBlocks_root hl hx hfile.ne_zero)
    · have heq := ha.fresh hfile.used
      have hmem := @mem_ownBlocks_map fs v _ hl hx L.length (heq.trans_ne hb)
      rw [heq] at hmem
      exact hne hmem
  | extents hfull hx =>
    exact ⟨ChangedIn.of_data rfl, fun _ hb => hb, ⟨rfl, rfl, rfl⟩, fun _ => ChangedIn.of_data rfl⟩
  | @refused inode₁ v₁ hfull hx hg =>
    have hc : ChangedIn fs p v v' ∅ ∅ := by
      refine ⟨fun b hb _ => ?_, fun i hi hne => hg.grown.changed.inodes i hi hne⟩
      rcases hg.outcome with ⟨hne, -⟩ | ⟨-, hv, -⟩ | ⟨-, -, hleak⟩
      · exact absurd rfl hne
      · rw [hv]
      · -- there was no indirect block
        refine hg.grown.changed.blocks b hb fun heq => hb.ne_zero ?_
        rw [Set.mem_singleton_iff, hleak.1] at heq
        exact heq
    exact ⟨hc.mono (Set.empty_subset _) (Set.empty_subset _), hg.grown.used, hg.kept, fun _ => hc⟩

/-- Where an entry is in the directory. -/
lemma split_of_mem_entriesOf {e : LiveEntry} (h : (phys, off, e) ∈ entriesOf fs v L) :
    ∃ L₁ l₁ l₂ L₂, L = L₁ ++ (phys, l₁ ++ off :: l₂) :: L₂ ∧ deInode (blockIn fs v phys) off ≠ 0 ∧
      entryAt (blockIn fs v phys) off = e := by
  obtain ⟨offs, hx, hoff, hlive, he⟩ := mem_entriesOf.mp h
  obtain ⟨L₁, L₂, rfl⟩ := List.append_of_mem hx
  obtain ⟨l₁, l₂, rfl⟩ := List.append_of_mem hoff
  exact ⟨L₁, l₁, l₂, L₂, rfl, hlive, he⟩

namespace DirOn

/-- The entries of a directory, with one of them in front. -/
lemma perm_entry {l₁ l₂ : List ℕ} {e : LiveEntry} (hlive : deInode (blockIn fs v phys) off ≠ 0)
    (he : entryAt (blockIn fs v phys) off = e) :
    (entriesOf fs v (L₁ ++ (phys, l₁ ++ off :: l₂) :: L₂)).Perm ((phys, off, e) ::
      (entriesOf fs v L₁ ++ ((entriesAt (blockIn fs v phys) l₁).map (fun e => (phys, e)) ++
        ((entriesAt (blockIn fs v phys) l₂).map (fun e => (phys, e)) ++ entriesOf fs v L₂)))) := by
  rw [entriesOf_append, entriesOf_cons, entriesAt_append, entriesAt_cons, if_neg hlive, he]
  simp only [List.map_append, List.map_cons, List.append_assoc, List.cons_append]
  rw [← List.append_assoc, ← List.append_assoc]
  exact List.perm_middle

/-- An entry of the directory is cleared. -/
lemma clear (hl : Layout fs) (hp : p.Fits fs) (h : DirOn fs p v ino L) {e : LiveEntry}
    (he : (phys, off, e) ∈ entriesOf fs v L) :
    DirOn fs p (v.write fs phys (Bytes.put32 (blockIn fs v phys) off 0)) ino L ∧
      (entriesOf fs v L).Perm ((phys, off, e) ::
        entriesOf fs (v.write fs phys (Bytes.put32 (blockIn fs v phys) off 0)) L) ∧
      heldBlocks fs p (v.write fs phys (Bytes.put32 (blockIn fs v phys) off 0)) ino L =
        heldBlocks fs p v ino L := by
  obtain ⟨L₁, l₁, l₂, L₂, rfl, hlive, he⟩ := split_of_mem_entriesOf he
  have hcov := (h.covered _ (List.mem_append_right L₁ List.mem_cons_self)).2
  obtain ⟨hcov', hentries⟩ := hcov.clear
  obtain ⟨hdir, hlist, hheld⟩ := h.write hl hp hcov'
  refine ⟨hdir, (perm_entry hlive he).trans ?_, hheld⟩
  rw [hlist, hentries]
  simp only [List.map_append, List.append_assoc]
  exact List.Perm.refl _

/-- An entry of the directory gets a name that fits into its record. -/
lemma renameAt (hl : Layout fs) (hp : p.Fits fs) (h : DirOn fs p v ino L) {e : LiveEntry}
    (he : (phys, off, e) ∈ entriesOf fs v L) (hname : name.length ≤ 255)
    (hfit : align4 (8 + name.length) ≤ deRecLen (blockIn fs v phys) off) :
    DirOn fs p (v.write fs phys (renameRecord (blockIn fs v phys) off name)) ino L ∧
      ∃ es, (entriesOf fs v L).Perm ((phys, off, e) :: es) ∧
        (entriesOf fs (v.write fs phys (renameRecord (blockIn fs v phys) off name)) L).Perm
          ((phys, off, { e with name := name }) :: es) := by
  obtain ⟨L₁, l₁, l₂, L₂, rfl, hlive, he⟩ := split_of_mem_entriesOf he
  have hcov := (h.covered _ (List.mem_append_right L₁ List.mem_cons_self)).2
  obtain ⟨hcov', hentries⟩ := hcov.rename hname hlive hfit
  obtain ⟨hdir, hlist, -⟩ := h.write hl hp hcov'
  refine ⟨hdir, _, perm_entry hlive he, ?_⟩
  rw [hlist, hentries, ← he]
  simp only [entryAt, List.map_append, List.map_cons, List.append_assoc, List.cons_append]
  rw [← List.append_assoc, ← List.append_assoc]
  exact List.perm_middle

end DirOn

end Ext2

end CoolFrost
