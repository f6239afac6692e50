import CoolFrost.Fs.Ext2.Alloc

/-!
# ext2: growing a file

What `get_or_alloc_block` does to a volume and to the inode it is given: it adds blocks to the file
and keeps those that the file had.
-/

namespace CoolFrost

open Program

namespace Ext2

variable {fs : Ext2Fs} {p : Plan} {v v' v'' : Vol} {inode inode' inode'' : Bytes}

/-! ## Fields of an inode -/

lemma iBlock_setIBlock (inode : Bytes) (k x j : ℕ) :
    iBlock (setIBlock inode k x) j = if j = k then x % 2 ^ 32 else iBlock inode j := by
  unfold iBlock setIBlock
  split_ifs with h
  · rw [h, Bytes.le32_put32_self]
  · rw [Bytes.put32, Bytes.le32_blit_of_disjoint (by omega)]

@[simp]
lemma iBlock_addIBlocks (inode : Bytes) (k : ℕ) :
    iBlock (addIBlocks fs inode) k = iBlock inode k :=
  Bytes.le32_blit_of_disjoint (by omega)

@[simp]
lemma usesExtents_addIBlocks (inode : Bytes) :
    usesExtents (addIBlocks fs inode) = usesExtents inode := by
  unfold usesExtents iFlags addIBlocks setIBlocks
  rw [Bytes.put32, Bytes.le32_blit_of_disjoint (by norm_num)]

@[simp]
lemma usesExtents_setIBlock (inode : Bytes) (k x : ℕ) :
    usesExtents (setIBlock inode k x) = usesExtents inode := by
  unfold usesExtents iFlags setIBlock
  rw [Bytes.put32, Bytes.le32_blit_of_disjoint (by omega)]

/-- The mode and the size lie in front of what changes when a file gets a block. -/
lemma addIBlocks_head (inode : Bytes) {i : ℕ} (hi : i < 28) : addIBlocks fs inode i = inode i :=
  Bytes.blit_of_not_mem (.inl hi)

@[inherit_doc addIBlocks_head]
lemma setIBlock_head (inode : Bytes) (k x : ℕ) {i : ℕ} (hi : i < 28) :
    setIBlock inode k x i = inode i :=
  Bytes.blit_of_not_mem (.inl (by omega))

/-- An inode that got a block. -/
lemma iBlock_addBlock (inode : Bytes) {nb : ℕ} (hnb : nb < 2 ^ 32) (k j : ℕ) :
    iBlock (addIBlocks fs (setIBlock inode k nb)) j = if j = k then nb else iBlock inode j := by
  rw [iBlock_addIBlocks, iBlock_setIBlock, Nat.mod_eq_of_lt hnb]

lemma addBlock_head (inode : Bytes) (k nb : ℕ) {i : ℕ} (hi : i < 28) :
    addIBlocks fs (setIBlock inode k nb) i = inode i :=
  (addIBlocks_head _ hi).trans (setIBlock_head inode k nb hi)

/-! ## Blocks of files -/

/-- The blocks that hold the superblock, the group descriptors, the bitmaps and the inode tables are
in use. -/
structure Reserved (fs : Ext2Fs) (p : Plan) (v : Vol) : Prop where
  low : ∀ b < descEnd fs, v.used b = true
  books : ∀ m : Piece, m.In fs → v.used (p.at m) = true

/-- The block belongs to a file: it is in use, and it is none of the above. -/
structure FileBlock (fs : Ext2Fs) (p : Plan) (v : Vol) (b : ℕ) : Prop where
  inVolume : InVolume fs b
  used : v.used b = true
  low : descEnd fs ≤ b
  books : ∀ m : Piece, m.In fs → p.at m ≠ b

lemma Reserved.mono (h : Reserved fs p v) (hused : ∀ b, v.used b = true → v'.used b = true) :
    Reserved fs p v' :=
  ⟨fun b hb => hused b (h.low b hb), fun m hm => hused _ (h.books m hm)⟩

lemma Reserved.used_zero (h : Reserved fs p v) : v.used 0 = true :=
  h.low 0 (descEnd_pos fs)

lemma FileBlock.mono {b : ℕ} (h : FileBlock fs p v b)
    (hused : ∀ b, v.used b = true → v'.used b = true) : FileBlock fs p v' b :=
  ⟨h.inVolume, hused b h.used, h.low, h.books⟩

lemma FileBlock.plain {b : ℕ} (h : FileBlock fs p v b) : Plain fs p b :=
  ⟨h.low, fun g hg => ⟨h.books (.bitmap g) hg, h.books (.inodeBitmap g) hg⟩⟩

lemma FileBlock.ne_zero {b : ℕ} (h : FileBlock fs p v b) : b ≠ 0 :=
  ((descEnd_pos fs).trans_le h.low).ne'

lemma used_take {b b' : ℕ} : (v.take fs b).used b' = true ↔ b' = b ∨ v.used b' = true := by
  simp only [Vol.take, Vol.takeRun]
  split_ifs with h
  · exact ⟨fun _ => .inl (by omega), fun _ => rfl⟩
  · exact ⟨.inr, fun h' => h'.resolve_left (by omega)⟩

lemma used_take_of_used (b : ℕ) : ∀ b', v.used b' = true → (v.take fs b).used b' = true :=
  fun _ h => used_take.mpr (.inr h)

/-- A block that was taken belongs to a file. -/
lemma Available.fileBlock {b : ℕ} (h : Available fs v b) (hr : Reserved fs p v) :
    FileBlock fs p (v.take fs b) b := by
  refine ⟨h.1, used_take.mpr (.inl rfl), ?_, fun m hm heq => ?_⟩
  · by_contra hlt
    have hused := hr.low b (Nat.lt_of_not_le hlt)
    rw [h.2.1] at hused
    cases hused
  · have hused := hr.books m hm
    rw [heq, h.2.1] at hused
    cases hused

lemma Available.lt (hl : Layout fs) {b : ℕ} (h : Available fs v b) : b < 2 ^ 32 :=
  h.1.2.trans (hl.blocksCount.trans_lt hl.blocks)

lemma available_congr (hused : v'.used = v.used) (hfree : v'.free = v.free) {b : ℕ} :
    Available fs v' b ↔ Available fs v b := by
  unfold Available
  rw [hused, hfree]

/-- The counters are 16 and 32 bits wide. -/
structure Bounded (v : Vol) : Prop where
  free : ∀ g, v.free g < 65536
  total : v.total < 2 ^ 32

lemma bounded_volOn {d : Bytes} {nodes : ℕ → Ext2Node} {n : ℕ} :
    Bounded (volOn fs p d nodes n) := by
  refine ⟨fun g => ?_, Bytes.le32_lt _ _⟩
  simp only [volOn]
  split_ifs
  · exact Bytes.le16_lt _ _
  · norm_num

lemma available_take (hv : Bounded v) {r b : ℕ} (hr : Available fs v r) :
    Available fs (v.take fs r) b ↔ Available fs v b ∧ b ≠ r ∧
      (groupOf fs b = groupOf fs r → v.free (groupOf fs r) ≠ 1) := by
  have hlt := hv.free (groupOf fs r)
  have hpos := hr.2.2
  have hdec : u16add (v.free (groupOf fs r)) (-((1 : ℕ) : ℤ)) = v.free (groupOf fs r) - 1 := by
    unfold u16add
    omega
  have hused : (v.take fs r).used b = false ↔ v.used b = false ∧ b ≠ r := by
    rw [← Bool.not_eq_true, used_take, not_or, Bool.not_eq_true]
    exact and_comm
  unfold Available
  rw [hused]
  simp only [Vol.take, Vol.takeRun, hdec]
  by_cases hg : groupOf fs b = groupOf fs r
  · rw [hg, Function.update_self]
    constructor
    · rintro ⟨hin, ⟨hu, hne⟩, hfree⟩
      exact ⟨⟨hin, hu, by omega⟩, hne, fun _ => by omega⟩
    · rintro ⟨⟨hin, hu, hfree⟩, hne, hone⟩
      exact ⟨hin, ⟨hu, hne⟩, by have := hone rfl; omega⟩
  · rw [Function.update_of_ne hg]
    constructor
    · rintro ⟨hin, ⟨hu, hne⟩, hfree⟩
      exact ⟨⟨hin, hu, hfree⟩, hne, fun h => absurd h hg⟩
    · rintro ⟨⟨hin, hu, hfree⟩, hne, -⟩
      exact ⟨hin, ⟨hu, hne⟩, hfree⟩

/-- If one allocation uses up the volume, so does every other one. -/
lemma none_available_take (hv : Bounded v) {r r' : ℕ} (hr : Available fs v r)
    (hr' : Available fs v r') (h : ∀ b, ¬Available fs (v.take fs r) b) (b : ℕ) :
    ¬Available fs (v.take fs r') b := by
  rw [available_take hv hr']
  rintro ⟨hb, hne, hone⟩
  have key : ∀ c, Available fs v c → c ≠ r →
      groupOf fs c = groupOf fs r ∧ v.free (groupOf fs r) = 1 := by
    intro c hc hcr
    have hnone := h c
    rw [available_take hv hr] at hnone
    by_contra hcon
    exact hnone ⟨hc, hcr, fun hg h1 => hcon ⟨hg, h1⟩⟩
  by_cases hrr : r' = r
  · obtain ⟨hg, h1⟩ := key b hb (by rwa [← hrr])
    rw [hrr] at hone
    exact hone hg h1
  · obtain ⟨hg, h1⟩ := key r' hr' hrr
    rw [hg] at hone
    refine hone ?_ h1
    by_cases hbr : b = r
    · rw [hbr]
    · exact (key b hb hbr).1

/-! ## Writing blocks and inodes -/

section Writing

variable {ino b : ℕ}

/-- A volume after a block was written. -/
def Vol.write (fs : Ext2Fs) (b : ℕ) (buf : Bytes) (v : Vol) : Vol :=
  { v with data := Bytes.blit v.data (blockAddr fs b) buf fs.blockSize }

lemma blockIn_write (hl : Layout fs) {b : ℕ} {buf : Bytes}
    (h : v'.data = Bytes.blit v.data (blockAddr fs b) buf fs.blockSize) (b' : ℕ) :
    blockIn fs v' b' = if b' = b then Bytes.clip fs.blockSize buf else blockIn fs v b' := by
  unfold blockIn
  rw [h]
  split_ifs with hb
  · refine Bytes.clip_congr fun i hi => ?_
    rw [hb]
    simp only [Bytes.shift]
    rw [Bytes.blit_of_mem (by omega), Nat.add_sub_cancel_left]
  · refine Bytes.clip_congr fun i hi => ?_
    have hapart := blockAddr_apart hl hb
    simp only [Bytes.shift]
    rw [Bytes.blit_of_not_mem (by omega)]

lemma blockIn_write_of_ne (hl : Layout fs) {b' : ℕ} (h : b' ≠ b) (buf : Bytes) :
    blockIn fs (v.write fs b buf) b' = blockIn fs v b' := by
  rw [@blockIn_write fs v (v.write fs b buf) hl b buf rfl, if_neg h]

lemma blockIn_write_self (hl : Layout fs) (buf : Bytes) :
    blockIn fs (v.write fs b buf) b = Bytes.clip fs.blockSize buf := by
  rw [@blockIn_write fs v (v.write fs b buf) hl b buf rfl, if_pos rfl]

lemma blockIn_congr (h : v'.data = v.data) (b : ℕ) : blockIn fs v' b = blockIn fs v b := by
  unfold blockIn
  rw [h]

lemma inodeIn_congr (h : v'.data = v.data) (ino : ℕ) :
    inodeIn fs p v' ino = inodeIn fs p v ino := by
  unfold inodeIn
  rw [h]

/-- A volume after an inode was written. -/
def Vol.putInode (fs : Ext2Fs) (p : Plan) (ino : ℕ) (inode : Bytes) (v : Vol) : Vol :=
  { v with data := Bytes.blit v.data (inodeAddr fs p ino) inode 128 }

lemma FileBlock.inode_apart (hl : Layout fs) (hp : p.Fits fs) (h : FileBlock fs p v b)
    (hi : InodeIn fs ino) : inodeAddr fs p ino + 128 ≤ blockAddr fs b ∨
      blockAddr fs b + fs.blockSize ≤ inodeAddr fs p ino := by
  obtain ⟨hpiece, haddr, hoff⟩ := inode_piece hl hp hi
  have hne := h.books _ hpiece
  change p.inodeTable (inodeGroup fs ino) + inodeBlock fs ino ≠ b at hne
  have hapart := blockAddr_apart hl hne
  omega

lemma inodeIn_write (hl : Layout fs) (hp : p.Fits fs) (h : FileBlock fs p v' b)
    (hi : InodeIn fs ino) (buf : Bytes) :
    inodeIn fs p (v.write fs b buf) ino = inodeIn fs p v ino := by
  have hapart := h.inode_apart hl hp hi
  refine Bytes.clip_congr fun i hi => ?_
  simp only [Bytes.shift, Vol.write]
  exact Bytes.blit_of_not_mem (by omega)

lemma blockIn_putInode (hl : Layout fs) (hp : p.Fits fs) (h : FileBlock fs p v' b)
    (hi : InodeIn fs ino) : blockIn fs (v.putInode fs p ino inode) b = blockIn fs v b := by
  have hapart := h.inode_apart hl hp hi
  refine Bytes.clip_congr fun i hi => ?_
  simp only [Bytes.shift, Vol.putInode]
  exact Bytes.blit_of_not_mem (by omega)

lemma inodeIn_putInode_self :
    inodeIn fs p (v.putInode fs p ino inode) ino = Bytes.clip 128 inode := by
  refine Bytes.clip_congr fun i hi => ?_
  simp only [Bytes.shift, Vol.putInode]
  rw [Bytes.blit_of_mem (by omega), Nat.add_sub_cancel_left]

/-- Two inodes are apart. -/
lemma inodeAddr_apart (hl : Layout fs) (hp : p.Fits fs) {ino' : ℕ} (hi : InodeIn fs ino)
    (hi' : InodeIn fs ino') (hne : ino ≠ ino') :
    inodeAddr fs p ino + 128 ≤ inodeAddr fs p ino' ∨
      inodeAddr fs p ino' + 128 ≤ inodeAddr fs p ino := by
  obtain ⟨hpiece, haddr, hoff⟩ := inode_piece hl hp hi
  obtain ⟨hpiece', haddr', hoff'⟩ := inode_piece hl hp hi'
  by_cases hg : inodeGroup fs ino = inodeGroup fs ino'
  · -- in one table they are a multiple of the size of an inode apart
    have hbit : inodeBit fs ino ≠ inodeBit fs ino' := fun heq => hne (by
      have h1 := Nat.div_add_mod (ino - 1) fs.inodesPerGroup
      have h2 := Nat.div_add_mod (ino' - 1) fs.inodesPerGroup
      have hpos := hi.1
      have hpos' := hi'.1
      unfold inodeGroup at hg
      unfold inodeBit at heq
      rw [hg, heq, h2] at h1
      omega)
    have hsize := hl.inodeSize.1
    rw [inodeAddr, inodeAddr, hg]
    rcases Nat.lt_or_gt_of_ne hbit with hlt | hlt
    · have := Nat.mul_le_mul_right fs.inodeSize hlt
      rw [Nat.succ_mul] at this
      omega
    · have := Nat.mul_le_mul_right fs.inodeSize hlt
      rw [Nat.succ_mul] at this
      omega
  · have hblk : p.inodeTable (inodeGroup fs ino) + inodeBlock fs ino ≠
        p.inodeTable (inodeGroup fs ino') + inodeBlock fs ino' := fun heq => hg (by
      have h := hp.inj _ _ hpiece hpiece' heq
      rw [Piece.table.injEq] at h
      exact h.1)
    have hapart := blockAddr_apart hl hblk
    omega

lemma inodeIn_putInode_of_ne (hl : Layout fs) (hp : p.Fits fs) {ino' : ℕ} (hi : InodeIn fs ino)
    (hi' : InodeIn fs ino') (hne : ino' ≠ ino) :
    inodeIn fs p (v.putInode fs p ino inode) ino' = inodeIn fs p v ino' := by
  have hapart := inodeAddr_apart (p := p) hl hp hi hi' hne.symm
  refine Bytes.clip_congr fun i hi => ?_
  simp only [Bytes.shift, Vol.putInode]
  exact Bytes.blit_of_not_mem (by omega)

/-- Among the blocks of files and the inodes, only those of `S` and of `I` have changed. -/
structure ChangedIn (fs : Ext2Fs) (p : Plan) (v v' : Vol) (S I : Set ℕ) : Prop where
  blocks : ∀ b, FileBlock fs p v b → b ∉ S → blockIn fs v' b = blockIn fs v b
  inodes : ∀ i, InodeIn fs i → i ∉ I → inodeIn fs p v' i = inodeIn fs p v i

namespace ChangedIn

variable {S S' I I' : Set ℕ}

lemma of_data (h : v'.data = v.data) : ChangedIn fs p v v' S I :=
  ⟨fun b _ _ => blockIn_congr h b, fun i _ _ => inodeIn_congr h i⟩

lemma write (hl : Layout fs) (hp : p.Fits fs) (h : FileBlock fs p v' b) (buf : Bytes) :
    ChangedIn fs p v (v.write fs b buf) {b} ∅ :=
  ⟨fun _ _ hne => blockIn_write_of_ne hl hne buf, fun _ hi _ => inodeIn_write hl hp h hi buf⟩

lemma putInode (hl : Layout fs) (hp : p.Fits fs) (hi : InodeIn fs ino) (inode : Bytes) :
    ChangedIn fs p v (v.putInode fs p ino inode) ∅ {ino} :=
  ⟨fun _ hb _ => blockIn_putInode hl hp hb hi, fun _ hi' hne =>
    inodeIn_putInode_of_ne hl hp hi hi' hne⟩

lemma mono (h : ChangedIn fs p v v' S I) (hS : S ⊆ S') (hI : I ⊆ I') : ChangedIn fs p v v' S' I' :=
  ⟨fun b hb hn => h.blocks b hb fun hm => hn (hS hm), fun i hi hn => h.inodes i hi fun hm =>
    hn (hI hm)⟩

lemma trans (h : ChangedIn fs p v v' S I) (h' : ChangedIn fs p v' v'' S' I')
    (hused : ∀ b, v.used b = true → v'.used b = true) :
    ChangedIn fs p v v'' (S ∪ S') (I ∪ I') := by
  refine ⟨fun b hb hn => ?_, fun i hi hn => ?_⟩
  · rw [Set.mem_union, not_or] at hn
    rw [h'.blocks b (hb.mono hused) hn.2, h.blocks b hb hn.1]
  · rw [Set.mem_union, not_or] at hn
    rw [h'.inodes i hi hn.2, h.inodes i hi hn.1]

end ChangedIn

end Writing

/-! ## The block map -/

/-- The block that holds the logical block `lb` of a file without extents, as far as the direct and
the single-indirect pointers go; 0 for none. -/
def mapOf (fs : Ext2Fs) (v : Vol) (inode : Bytes) (lb : ℕ) : ℕ :=
  if lb < 12 then iBlock inode lb
  else if lb - 12 < ptrsPerBlock fs ∧ iBlock inode 12 ≠ 0 then
    Bytes.le32 (blockIn fs v (iBlock inode 12)) (4 * (lb - 12))
  else 0

/-- The file has no indirect block, or a proper one. -/
def IndirectOk (fs : Ext2Fs) (p : Plan) (v : Vol) (inode : Bytes) : Prop :=
  iBlock inode 12 = 0 ∨ FileBlock fs p v (iBlock inode 12)

/-- The file has its blocks and perhaps more. -/
structure Grown (fs : Ext2Fs) (p : Plan) (v : Vol) (inode : Bytes) (v' : Vol) (inode' : Bytes) :
    Prop where
  used : ∀ b, v.used b = true → v'.used b = true
  map : ∀ lb, mapOf fs v inode lb ≠ 0 → mapOf fs v' inode' lb = mapOf fs v inode lb
  indirect : IndirectOk fs p v' inode'
  extents : usesExtents inode' = usesExtents inode
  /-- The mode and the size are as before. -/
  head : ∀ i < 28, inode' i = inode i
  /-- The indirect block is the old one, or a new one where there was none. -/
  root : iBlock inode' 12 = iBlock inode 12 ∨
    (iBlock inode 12 = 0 ∧ v.used (iBlock inode' 12) = false)
  changed : ChangedIn fs p v v' {iBlock inode 12} ∅
  /-- What was taken is for the file. -/
  added : ∀ b, b ≠ 0 → v.used b = false → v'.used b = true →
    b = iBlock inode' 12 ∨ ∃ lb, mapOf fs v' inode' lb = b

lemma Grown.refl (h : IndirectOk fs p v inode) : Grown fs p v inode v inode :=
  ⟨fun _ h => h, fun _ _ => rfl, h, rfl, fun _ _ => rfl, .inl rfl, ChangedIn.of_data rfl,
    fun b _ hno hyes => by rw [hno] at hyes; cases hyes⟩

lemma Grown.trans (h : Grown fs p v inode v' inode') (h' : Grown fs p v' inode' v'' inode'') :
    Grown fs p v inode v'' inode'' where
  used b hb := h'.used b (h.used b hb)
  map lb hlb := by rw [h'.map lb (by rwa [h.map lb hlb]), h.map lb hlb]
  indirect := h'.indirect
  extents := h'.extents.trans h.extents
  head i hi := (h'.head i hi).trans (h.head i hi)
  root := by
    rcases h'.root with hr' | ⟨h0, hfree⟩
    · rw [hr']
      exact h.root
    · rcases h.root with hr | ⟨h0', hfree'⟩
      · refine .inr ⟨hr ▸ h0, ?_⟩
        by_contra hu
        rw [h.used _ (by simpa using hu)] at hfree
        cases hfree
      · refine .inr ⟨h0', ?_⟩
        by_contra hu
        rw [h.used _ (by simpa using hu)] at hfree
        cases hfree
  changed := by
    refine ⟨fun b hb hn => ?_, fun i hi hn => ?_⟩
    · have hn' : b ∉ ({iBlock inode' 12} : Set ℕ) := fun heq => by
        rw [Set.mem_singleton_iff] at heq
        rcases h.root with hr | ⟨-, hfree⟩
        · exact hn (heq.trans hr)
        · rw [← heq, hb.used] at hfree
          cases hfree
      rw [h'.changed.blocks b (hb.mono h.used) hn', h.changed.blocks b hb hn]
    · rw [h'.changed.inodes i hi hn, h.changed.inodes i hi hn]
  added b h0 hno hyes := by
    by_cases hu : v'.used b = true
    · rcases h.added b h0 hno hu with heq | ⟨lb, hlb⟩
      · rcases h'.root with hr | ⟨hz, -⟩
        · exact .inl (heq.trans hr.symm)
        · exact absurd (heq.trans hz) h0
      · exact .inr ⟨lb, (h'.map lb (hlb.trans_ne h0)).trans hlb⟩
    · exact h'.added b h0 (by simpa using hu) hyes

/-! ## Getting or allocating a block -/

/-- The call takes the last block that can be allocated for the indirect block of the file, and then
finds none for the data. -/
def Leaks (fs : Ext2Fs) (v : Vol) (inode : Bytes) (lb : ℕ) : Prop :=
  iBlock inode 12 = 0 ∧ 12 ≤ lb ∧ lb - 12 < ptrsPerBlock fs ∧
    ∃ r, Available fs v r ∧ ∀ b, ¬Available fs (v.take fs r) b

/-- The block is there, or it can be had. -/
def CanGrow (fs : Ext2Fs) (v : Vol) (inode : Bytes) (lb : ℕ) : Prop :=
  lb < 12 + ptrsPerBlock fs ∧
    (mapOf fs v inode lb ≠ 0 ∨ ((∃ b, Available fs v b) ∧ ¬Leaks fs v inode lb))

/-- What a call of `get_or_alloc_block` may come to: a block of the file, nothing at all, or a block
taken in vain. -/
structure Growth (fs : Ext2Fs) (p : Plan) (v : Vol) (inode : Bytes) (lb : ℕ) (r : ℕ × Bytes)
    (v' : Vol) : Prop where
  grown : Grown fs p v inode v' r.2
  reserved : Reserved fs p v'
  kept : v'.inodeUsed = v.inodeUsed ∧ v'.nodesUsed = v.nodesUsed ∧ v'.nodes = v.nodes
  grows : r.1 ≠ 0 ↔ CanGrow fs v inode lb
  block : r.1 ≠ 0 → mapOf fs v inode lb = 0 →
    FileBlock fs p v' r.1 ∧ v.used r.1 = false ∧ r.1 ≠ iBlock r.2 12
  others : ∀ lb', lb' ≠ lb → mapOf fs v' r.2 lb' = mapOf fs v inode lb'
  outcome : (r.1 ≠ 0 ∧ mapOf fs v' r.2 lb = r.1 ∧ ¬Leaks fs v inode lb) ∨
    (r.1 = 0 ∧ v' = v ∧ ¬Leaks fs v inode lb) ∨ (r.1 = 0 ∧ v'.used ≠ v.used ∧ Leaks fs v inode lb)

/-- A call that takes nothing: the block was there, or there is none to take. -/
lemma Growth.same {lb b : ℕ} (hr : Reserved fs p v) (hind : IndirectOk fs p v inode)
    (hgrows : b ≠ 0 ↔ CanGrow fs v inode lb) (hb : b ≠ 0 → mapOf fs v inode lb = b)
    (hleak : ¬Leaks fs v inode lb) : Growth fs p v inode lb (b, inode) v where
  grown := Grown.refl hind
  reserved := hr
  kept := ⟨rfl, rfl, rfl⟩
  grows := hgrows
  block h0 hhole := absurd ((hb h0).symm.trans hhole) h0
  others _ _ := rfl
  outcome := by
    by_cases h0 : b = 0
    · exact .inr (.inl ⟨h0, rfl, hleak⟩)
    · exact .inl ⟨h0, hb h0, hleak⟩

lemma mapOf_direct {lb : ℕ} (h : lb < 12) : mapOf fs v inode lb = iBlock inode lb := if_pos h

lemma mapOf_indirect {lb : ℕ} (h : 12 ≤ lb) (hlb : lb - 12 < ptrsPerBlock fs)
    (hind : iBlock inode 12 ≠ 0) :
    mapOf fs v inode lb = Bytes.le32 (blockIn fs v (iBlock inode 12)) (4 * (lb - 12)) := by
  rw [mapOf, if_neg (by omega), if_pos ⟨hlb, hind⟩]

lemma mapOf_congr (hi : ∀ k < 13, iBlock inode' k = iBlock inode k)
    (hb : iBlock inode 12 ≠ 0 → blockIn fs v' (iBlock inode 12) = blockIn fs v (iBlock inode 12))
    (lb : ℕ) : mapOf fs v' inode' lb = mapOf fs v inode lb := by
  unfold mapOf
  rw [hi 12 (by norm_num)]
  split_ifs with hlb hind
  · exact hi lb (by omega)
  · rw [hb hind.2]
  · rfl

/-- A file that got a direct block. -/
lemma grown_direct (hl : Layout fs) (hind : IndirectOk fs p v inode) {lb nb : ℕ} (hlb : lb < 12)
    (h0 : iBlock inode lb = 0) (hav : Available fs v nb) :
    Grown fs p v inode (v.take fs nb) (addIBlocks fs (setIBlock inode lb nb)) ∧
      ∀ lb', mapOf fs (v.take fs nb) (addIBlocks fs (setIBlock inode lb nb)) lb' =
        if lb' = lb then nb else mapOf fs v inode lb' := by
  have hused := @used_take_of_used fs v nb
  have hblk := @iBlock_addBlock fs inode nb (hav.lt hl) lb
  have hroot : iBlock (addIBlocks fs (setIBlock inode lb nb)) 12 = iBlock inode 12 := by
    rw [hblk, if_neg (by omega)]
  have hmap : ∀ lb', mapOf fs (v.take fs nb) (addIBlocks fs (setIBlock inode lb nb)) lb' =
      if lb' = lb then nb else mapOf fs v inode lb' := by
    intro lb'
    unfold mapOf
    rw [hroot, hblk]
    split_ifs
    · rfl
    · rfl
    · omega
    · rfl
    · omega
    · rfl
  refine ⟨⟨hused, fun lb' hlb' =>
    ?_, ?_, by simp, fun i hi => addBlock_head inode lb nb hi, .inl hroot,
    ChangedIn.of_data rfl, fun b _ hno hyes => ?_⟩, hmap⟩
  · -- the pointer that was changed was 0
    rw [hmap, if_neg fun heq => hlb' ?_]
    rw [heq, mapOf_direct hlb, h0]
  · unfold IndirectOk
    rw [hroot]
    exact hind.imp id fun h => h.mono hused
  · rcases used_take.mp hyes with rfl | hold
    · exact .inr ⟨lb, (hmap lb).trans (if_pos rfl)⟩
    · rw [hno] at hold
      cases hold

lemma vol_getOrAllocDirect (hl : Layout fs) (hp : p.Fits fs) (hr : Reserved fs p v)
    (hind : IndirectOk fs p v inode) {lb : ℕ} (hlb : lb < 12) :
    (volView fs p).wp (getOrAllocDirect fs inode lb) (Growth fs p v inode lb) v := by
  have hleak : ¬Leaks fs v inode lb := fun h => by
    have := h.2.1
    omega
  have hmapped := @mapOf_direct fs v inode lb hlb
  refine View.wp_ite (fun h0 => ?_) fun h0 => View.wp_pure
    (Growth.same hr hind (iff_of_true h0 ⟨by omega, .inl (hmapped.trans_ne h0)⟩) (fun _ => hmapped)
      hleak)
  refine View.wp_bind (vol_allocBlockNear hl hp hr.used_zero _) ?_
  rintro nb v' (⟨rfl, rfl, hnone⟩ | ⟨hnb, hav, rfl⟩)
  · refine View.wp_ite (fun _ => View.wp_pure
      (Growth.same hr hind ?_ (fun h => absurd rfl h) hleak)) fun h => absurd rfl h
    refine iff_of_false (not_not.mpr rfl) ?_
    rintro ⟨-, hmap | ⟨⟨b, hb⟩, -⟩⟩
    · exact hmap (hmapped.trans h0)
    · exact hnone b hb
  · refine View.wp_ite (fun h => absurd h hnb) fun _ => View.wp_pure ?_
    obtain ⟨hg, hmap⟩ := grown_direct hl hind hlb h0 hav
    refine ⟨hg, hr.mono hg.used, ⟨rfl, rfl, rfl⟩,
      iff_of_true hnb ⟨by omega, .inr ⟨⟨nb, hav⟩, hleak⟩⟩,
      fun _ _ => ⟨hav.fileBlock hr, hav.2.1, fun heq => ?_⟩, fun lb' hne => ?_,
      .inl ⟨hnb, (hmap lb).trans (if_pos rfl), hleak⟩⟩
    · -- the indirect block was in use
      rcases hg.root with hroot | ⟨hz, -⟩
      · rcases hind with hz | hfile
        · exact hnb (heq.trans (hroot.trans hz))
        · have hu := hfile.used
          rw [← hroot, ← heq, hav.2.1] at hu
          cases hu
      · refine hnb (heq.trans ?_)
        rw [iBlock_addBlock inode (hav.lt hl), if_neg (by omega), hz]
    · rw [hmap, if_neg hne]

lemma ptr_le (fs : Ext2Fs) {k : ℕ} (hk : k < ptrsPerBlock fs) : 4 * k + 4 ≤ fs.blockSize := by
  unfold ptrsPerBlock at hk
  omega

/-- A file that got an empty indirect block. -/
lemma grown_root (hl : Layout fs) (hp : p.Fits fs) (hr : Reserved fs p v) {nb : ℕ}
    (h0 : iBlock inode 12 = 0) (hav : Available fs v nb) :
    Grown fs p v inode ((v.take fs nb).write fs nb Bytes.zeros)
      (addIBlocks fs (setIBlock inode 12 nb)) ∧
      ∀ lb, mapOf fs ((v.take fs nb).write fs nb Bytes.zeros)
        (addIBlocks fs (setIBlock inode 12 nb)) lb =
        mapOf fs v inode lb := by
  have hfile := hav.fileBlock hr
  have hblk := @iBlock_addBlock fs inode nb (hav.lt hl) 12
  have hind : iBlock (addIBlocks fs (setIBlock inode 12 nb)) 12 = nb := by
    rw [hblk, if_pos rfl]
  have hmap : ∀ lb, mapOf fs ((v.take fs nb).write fs nb Bytes.zeros)
      (addIBlocks fs (setIBlock inode 12 nb)) lb = mapOf fs v inode lb := by
    intro lb
    by_cases hlb : lb < 12
    · rw [mapOf_direct hlb, mapOf_direct hlb, hblk, if_neg (by omega)]
    · rw [mapOf, mapOf, if_neg hlb, if_neg hlb, hind, if_neg (c := _ ∧ iBlock inode 12 ≠ 0)
        fun h => h.2 h0]
      -- the new block holds no pointer
      split_ifs with hptr
      · rw [blockIn_write_self hl, Bytes.le32_clip (ptr_le fs hptr.1)]
        rfl
      · rfl
  refine ⟨⟨@used_take_of_used fs v nb, fun lb _ => hmap lb, ?_, by simp,
    fun i hi => addBlock_head inode 12 nb hi, .inr ⟨h0, ?_⟩, ⟨fun b hb _ => ?_, fun i hi _ => ?_⟩,
    fun b _ hno hyes => ?_⟩, hmap⟩
  · refine .inr ?_
    rw [hind]
    exact ⟨hfile.1, hfile.2, hfile.3, hfile.4⟩
  · rw [hind, hav.2.1]
  · have hne : b ≠ nb := fun heq => by
      have hu := hb.used
      rw [heq, hav.2.1] at hu
      cases hu
    exact (blockIn_write_of_ne hl hne _).trans (blockIn_congr rfl b)
  · exact (inodeIn_write hl hp hfile hi _).trans (inodeIn_congr rfl i)
  · have hyes' : (v.take fs nb).used b = true := hyes
    rcases used_take.mp hyes' with rfl | hold
    · exact .inl hind.symm
    · rw [hno] at hold
      cases hold

/-- The indirect block that the file has, or gets. -/
lemma vol_ensureIndirect (hl : Layout fs) (hp : p.Fits fs) (hr : Reserved fs p v)
    (hind : IndirectOk fs p v inode) :
    (volView fs p).wp (ensureIndirect fs inode) (fun r v' =>
      (r = none ∧ v' = v ∧ iBlock inode 12 = 0 ∧ ∀ b, ¬Available fs v b) ∨
        ∃ inode', r = some inode' ∧ FileBlock fs p v' (iBlock inode' 12) ∧
          Grown fs p v inode v' inode' ∧ (∀ lb, mapOf fs v' inode' lb = mapOf fs v inode lb) ∧
          ((iBlock inode 12 ≠ 0 ∧ v' = v ∧ inode' = inode) ∨
            (iBlock inode 12 = 0 ∧ ∃ nb, Available fs v nb ∧ iBlock inode' 12 = nb ∧
              v' = (v.take fs nb).write fs nb Bytes.zeros))) v := by
  refine View.wp_ite (fun h0 => ?_) fun h0 => View.wp_pure
    (.inr ⟨inode, rfl, hind.resolve_left h0, Grown.refl hind, fun _ => rfl, .inl ⟨h0, rfl, rfl⟩⟩)
  refine View.wp_bind (vol_allocBlock hl hp hr.used_zero) ?_
  rintro nb v' (⟨rfl, rfl, hnone⟩ | ⟨hnb, hav, rfl⟩)
  · exact View.wp_ite (fun _ => View.wp_pure (.inl ⟨rfl, rfl, h0, hnone⟩)) fun h => absurd rfl h
  · refine View.wp_ite (fun h => absurd h hnb) fun _ => ?_
    refine View.wp_bind (vol_writeBlock hl hp (hav.fileBlock hr).plain _) ?_
    rintro _ v' ⟨rfl, rfl⟩
    refine View.wp_ite (fun _ => View.wp_pure ?_) fun h => absurd rfl h
    obtain ⟨hg, hmap⟩ := @grown_root fs p v inode hl hp hr nb h0 hav
    have hind' : iBlock (addIBlocks fs (setIBlock inode 12 nb)) 12 = nb := by
      rw [iBlock_addBlock inode (hav.lt hl), if_pos rfl]
    refine .inr ⟨_, rfl, hg.indirect.resolve_left ?_, hg, hmap, .inr ⟨h0, nb, hav, hind', rfl⟩⟩
    rw [hind']
    exact hnb

/-- A pointer that was 0 is written to the indirect block. -/
lemma grown_put (hl : Layout fs) (hp : p.Fits fs) {lb nb : ℕ} (hlb : 12 ≤ lb)
    (hptrs : lb - 12 < ptrsPerBlock fs) (hfile : FileBlock fs p v (iBlock inode 12))
    (hav : Available fs v nb)
    (hhole : Bytes.le32 (blockIn fs v (iBlock inode 12)) (4 * (lb - 12)) = 0) :
    Grown fs p v inode ((v.take fs nb).write fs (iBlock inode 12)
        (Bytes.put32 (blockIn fs v (iBlock inode 12)) (4 * (lb - 12)) nb)) (addIBlocks fs inode) ∧
      ∀ lb', mapOf fs ((v.take fs nb).write fs (iBlock inode 12)
          (Bytes.put32 (blockIn fs v (iBlock inode 12)) (4 * (lb - 12)) nb))
            (addIBlocks fs inode) lb' =
        if lb' = lb then nb else mapOf fs v inode lb' := by
  have hind : iBlock inode 12 ≠ 0 := hfile.ne_zero
  have hused := @used_take_of_used fs v nb
  generalize hv' : (v.take fs nb).write fs (iBlock inode 12)
    (Bytes.put32 (blockIn fs v (iBlock inode 12)) (4 * (lb - 12)) nb) = v'
  have hptr : ∀ k < ptrsPerBlock fs, Bytes.le32 (blockIn fs v' (iBlock inode 12)) (4 * k) =
      if k = lb - 12 then nb else Bytes.le32 (blockIn fs v (iBlock inode 12)) (4 * k) := by
    intro k hk
    rw [← hv', blockIn_write_self hl, Bytes.le32_clip (ptr_le fs hk)]
    split_ifs with hkl
    · rw [hkl, Bytes.le32_put32_self, Nat.mod_eq_of_lt (hav.lt hl)]
    · rw [Bytes.put32, Bytes.le32_blit_of_disjoint (by omega)]
  have hmap : ∀ lb', mapOf fs v' (addIBlocks fs inode) lb' =
      if lb' = lb then nb else mapOf fs v inode lb' := by
    intro lb'
    unfold mapOf
    simp only [iBlock_addIBlocks]
    split_ifs with h1 h2 h3 h4
    · omega
    · rfl
    · rw [hptr _ h3.1, if_pos (by omega)]
    · rw [hptr _ h3.1, if_neg (by omega)]
    · rename_i h5
      exact absurd ⟨by rw [h5]; exact hptrs, hind⟩ h3
    · rfl
  refine ⟨⟨?_, fun lb' hlb' => ?_, .inr ?_, usesExtents_addIBlocks inode,
    fun i hi => addIBlocks_head inode hi, .inl (iBlock_addIBlocks inode 12), ?_,
    fun b _ hno hyes => ?_⟩, hmap⟩
  · rw [← hv']
    exact hused
  · rw [hmap, if_neg fun heq => hlb' ?_]
    rw [heq, mapOf_indirect hlb hptrs hind, hhole]
  · rw [iBlock_addIBlocks, ← hv']
    exact hfile.mono hused
  · rw [← hv']
    have hwrite := ChangedIn.write (v := v.take fs nb) hl hp hfile
      (Bytes.put32 (blockIn fs v (iBlock inode 12)) (4 * (lb - 12)) nb)
    exact ⟨fun b hb hne => hwrite.blocks b (hb.mono hused) hne, hwrite.inodes⟩
  · have hyes' : (v.take fs nb).used b = true := by
      rw [← hv'] at hyes
      exact hyes
    rcases used_take.mp hyes' with rfl | hold
    · exact .inr ⟨lb, (hmap lb).trans (if_pos rfl)⟩
    · rw [hno] at hold
      cases hold

lemma vol_getOrAllocIndirect (hl : Layout fs) (hp : p.Fits fs) (hv : Bounded v)
    (hr : Reserved fs p v) (hind : IndirectOk fs p v inode) {lb : ℕ} (hlb : 12 ≤ lb)
    (hptrs : lb - 12 < ptrsPerBlock fs) :
    (volView fs p).wp (getOrAllocIndirect fs inode (lb - 12)) (Growth fs p v inode lb) v := by
  refine View.wp_bind (vol_ensureIndirect hl hp hr hind) ?_
  have hhole : iBlock inode 12 = 0 → mapOf fs v inode lb = 0 := fun h0 => by
    rw [mapOf, if_neg (by omega), if_neg fun h => h.2 h0]
  have hlt : lb < 12 + ptrsPerBlock fs := by omega
  rintro _ v₁ (⟨rfl, rfl, h0, hnone⟩ | ⟨inode₁, rfl, hfile, hg, hmap₁, hcase⟩)
  · have hleak : ¬Leaks fs v₁ inode lb := by
      rintro ⟨-, -, -, r, hav, -⟩
      exact hnone r hav
    refine View.wp_pure (Growth.same hr hind (iff_of_false (not_not.mpr rfl) ?_)
      (fun h => absurd rfl h) hleak)
    rintro ⟨-, hmap | ⟨⟨b, hb⟩, -⟩⟩
    · exact hmap (hhole h0)
    · exact hnone b hb
  have hr₁ := hr.mono hg.used
  have hind₁ : iBlock inode₁ 12 ≠ 0 := hfile.ne_zero
  refine View.wp_bind (vol_readBlock hl hfile.plain) ?_
  rintro _ v₁ ⟨rfl, rfl⟩
  refine View.wp_ite (fun h0 => ?_) fun h0 => View.wp_pure ?_
  · refine View.wp_bind (vol_allocBlockNear hl hp hr₁.used_zero _) ?_
    rintro nb v₂ (⟨rfl, rfl, hnone⟩ | ⟨hnb, hav, rfl⟩)
    · -- the volume is full; was the indirect block the last one?
      refine View.wp_ite (fun _ => View.wp_pure ?_) fun h => absurd rfl h
      rcases hcase with ⟨hne, rfl, rfl⟩ | ⟨hzero, nb, hav, -, rfl⟩
      · refine Growth.same hr hind (iff_of_false (not_not.mpr rfl) ?_) (fun h => absurd rfl h)
          fun h => hne h.1
        rintro ⟨-, hmap | ⟨⟨b, hb⟩, -⟩⟩
        · exact hmap ((mapOf_indirect hlb hptrs hne).trans h0)
        · exact hnone b hb
      · have hleak : Leaks fs v inode lb := ⟨hzero, hlb, hptrs, nb, hav, fun b hb =>
          hnone b ((available_congr rfl rfl).mp hb)⟩
        refine ⟨hg, hr₁, ⟨rfl, rfl, rfl⟩, iff_of_false (not_not.mpr rfl) ?_, fun h => absurd rfl h,
          fun lb' _ => hmap₁ lb', .inr (.inr ⟨rfl, fun heq => ?_, hleak⟩)⟩
        · rintro ⟨-, hmap | ⟨-, hno⟩⟩
          · exact hmap (hhole hzero)
          · exact hno hleak
        have hused : (v.take fs nb).used nb = true := used_take.mpr (.inl rfl)
        rw [show (v.take fs nb).used = v.used from heq, hav.2.1] at hused
        cases hused
    · refine View.wp_ite (fun h => absurd h hnb) fun _ => ?_
      have hused := @used_take_of_used fs v₁ nb
      refine View.wp_bind (vol_writeBlock hl hp (hfile.mono hused).plain _) ?_
      rintro _ v₃ ⟨rfl, rfl⟩
      refine View.wp_ite (fun _ => View.wp_pure ?_) fun h => absurd rfl h
      obtain ⟨hg', hmap⟩ := grown_put hl hp hlb hptrs hfile hav h0
      have hleak : ¬Leaks fs v inode lb := by
        rintro ⟨hzero, -, -, r, hr', hnone⟩
        rcases hcase with ⟨hne, -, -⟩ | ⟨-, nb', hav', -, rfl⟩
        · exact hne hzero
        · exact none_available_take hv hr' hav' hnone nb ((available_congr rfl rfl).mp hav)
      refine ⟨hg.trans hg', hr₁.mono hused, ?_,
        iff_of_true hnb ⟨hlt, .inr ⟨?_, hleak⟩⟩, fun _ _ => ?_,
        fun lb' hne => ?_, .inl ⟨hnb, (hmap lb).trans (if_pos rfl), hleak⟩⟩
      · rcases hcase with ⟨-, rfl, -⟩ | ⟨-, nb', -, -, rfl⟩ <;> exact ⟨rfl, rfl, rfl⟩
      · rcases hcase with ⟨-, rfl, -⟩ | ⟨-, nb', hav', -, -⟩
        · exact ⟨nb, hav⟩
        · exact ⟨nb', hav'⟩
      · -- the block was free, also before the indirect block was taken
        have hfile' := hav.fileBlock hr₁
        refine ⟨⟨hfile'.1, hfile'.2, hfile'.3, hfile'.4⟩, ?_, fun heq => ?_⟩
        · by_contra hu
          have hu' := hg.used nb (by simpa using hu)
          rw [hav.2.1] at hu'
          cases hu'
        · have hu := hfile.used
          rw [← @iBlock_addIBlocks fs, ← heq, hav.2.1] at hu
          cases hu
      · exact ((hmap lb').trans (if_neg hne)).trans (hmap₁ lb')
  · -- a new indirect block holds no pointer
    have hptr := mapOf_indirect (v := v₁) hlb hptrs hind₁
    have hmapped : mapOf fs v inode lb ≠ 0 := by
      rw [← hmap₁ lb, hptr]
      exact h0
    have hold : iBlock inode 12 ≠ 0 ∧ v₁ = v ∧ inode₁ = inode :=
      hcase.resolve_right fun hnew => hmapped (hhole hnew.1)
    obtain ⟨hne, rfl, rfl⟩ := hold
    exact Growth.same hr hind (iff_of_true h0 ⟨hlt, .inl hmapped⟩) (fun _ => hptr)
      fun hleak => hne hleak.1

/-- The volume on a drive has bounded counters. -/
lemma vol_of_bounded {α : Type} {m : Program Ext2State α} {R : α → Vol → Prop}
    (h : Bounded v → (volView fs p).wp m R v) : (volView fs p).wp m R v := by
  rintro s hs rfl
  exact h bounded_volOn s hs rfl

lemma vol_getOrAllocBlock (hl : Layout fs) (hp : p.Fits fs) (hr : Reserved fs p v)
    (hx : usesExtents inode = false) (hind : IndirectOk fs p v inode) (lb : ℕ) :
    (volView fs p).wp (getOrAllocBlock fs inode lb) (Growth fs p v inode lb) v := by
  refine vol_of_bounded fun hv => ?_
  refine View.wp_ite (fun h => absurd h (by simp [hx])) fun _ => ?_
  refine View.wp_ite (fun hlb => vol_getOrAllocDirect hl hp hr hind hlb) fun hlb => ?_
  refine View.wp_ite (fun hptrs =>
    vol_getOrAllocIndirect hl hp hv hr hind (Nat.le_of_not_lt hlb) hptrs) fun hptrs => ?_
  refine View.wp_pure (Growth.same hr hind (iff_of_false (not_not.mpr rfl) fun h => ?_)
    (fun h => absurd rfl h) fun h => hptrs h.2.2.1)
  have := h.1
  omega

lemma mapOf_lt {lb : ℕ} (h : mapOf fs v inode lb ≠ 0) : lb < 12 + ptrsPerBlock fs := by
  unfold mapOf at h
  split_ifs at h with h1 h2
  · omega
  · omega
  · exact absurd rfl h

/-- What the code finds in the block map. -/
lemma getBlockOn_eq (hl : Layout fs) {d : Bytes} {nodes : ℕ → Ext2Node} {n lb : ℕ}
    (hx : usesExtents inode = false)
    (hind : IndirectOk fs p (volOn fs p d nodes n) inode) (hlb : lb < 12 + ptrsPerBlock fs) :
    getBlockOn fs d inode lb = mapOf fs (volOn fs p d nodes n) inode lb := by
  unfold getBlockOn mapOf
  rw [hx]
  simp only [Bool.false_eq_true, if_false]
  split_ifs with h1 h2 h3 h3
  · rfl
  · rw [ptrOn, if_neg h3.2, blockIn_eq hl (hind.resolve_left h3.2).plain]
  · rw [ptrOn, if_pos (by
      by_contra h
      exact h3 ⟨h2, h⟩)]
  all_goals omega

end Ext2

end CoolFrost
