import CoolFrost.Fs.Ext2.Relocation
import CoolFrost.Fs.Ext2.Renaming

/-!
# ext2: unlinking files

`ext2_unlink` clears the entry and takes one off the link count of the inode.  When that was the
last link it frees the blocks that the words of `i_block` name, and the inode.  It does so for every
inode that is no directory, also where these words are no block numbers: a short symbolic link keeps
its target in them, a device node its number.
-/

namespace CoolFrost

open Program

namespace Ext2

variable {fs : Ext2Fs} {p : Plan} {v v' : Vol} {inode : Bytes} {ino D : ℕ} {L : DirBlocks}
  {name : List UInt8}

/-! ## What is freed -/

/-- The block numbers that are not 0. -/
def present (l : List ℕ) : List ℕ := l.filter (· ≠ 0)

/-- The words of the block `blk`. -/
def wordsOf (fs : Ext2Fs) (v : Vol) (blk : ℕ) : List ℕ :=
  (List.range (ptrsPerBlock fs)).map fun k => Bytes.le32 (blockIn fs v blk) (4 * k)

/-- The blocks that the words of `i_block` lead to, up to the single indirect block. -/
def pointedBlocks (fs : Ext2Fs) (v : Vol) (inode : Bytes) : List ℕ :=
  present ((List.range 12).map (iBlock inode)) ++
    if iBlock inode 12 = 0 then []
    else present (wordsOf fs v (iBlock inode 12)) ++ [iBlock inode 12]

/-- These are blocks of the volume. -/
structure Pointers (fs : Ext2Fs) (p : Plan) (v : Vol) (inode : Bytes) : Prop where
  blocks : ∀ b ∈ pointedBlocks fs v inode, InVolume fs b
  indirect : iBlock inode 12 ≠ 0 → Plain fs p (iBlock inode 12)

/-- An inode loses a link, and all that it has with the last one. -/
def Vol.dropLink (fs : Ext2Fs) (p : Plan) (ino : ℕ) (inode : Bytes) (v : Vol) : Vol :=
  if 1 < iLinksCount inode then v.putInode fs p ino (setILinksCount inode (iLinksCount inode - 1))
  else ((v.giveAll fs (pointedBlocks fs v inode)).giveInode fs ino).putInode fs p ino Bytes.zeros

/-- The loop over the pointers frees those that are there. -/
lemma vol_freePtrs (hl : Layout fs) (hp : p.Fits fs) (ptr : ℕ → ℕ) (n k : ℕ)
    (h : ∀ b ∈ present ((List.range' k n).map ptr), InVolume fs b) :
    (volView fs p).wp (freePtrs fs ptr n k)
      (fun _ v' => v' = v.giveAll fs (present ((List.range' k n).map ptr))) v := by
  induction n generalizing k v with
  | zero => exact View.wp_pure rfl
  | succ n ih =>
    rw [List.range'_succ, List.map_cons] at h ⊢
    refine View.wp_ite (fun hne => ?_) fun hz => ?_
    · have hcons : present (ptr k :: (List.range' (k + 1) n).map ptr) =
          ptr k :: present ((List.range' (k + 1) n).map ptr) :=
        List.filter_cons_of_pos (by simpa using hne)
      rw [hcons] at h ⊢
      refine View.wp_bind (vol_freeBlock hl hp (h _ List.mem_cons_self)) ?_
      rintro _ v₁ ⟨-, rfl⟩
      exact ih (k + 1) fun b hb => h b (List.mem_cons_of_mem _ hb)
    · have hcons : present (ptr k :: (List.range' (k + 1) n).map ptr) =
          present ((List.range' (k + 1) n).map ptr) :=
        List.filter_cons_of_neg (by simpa using hz)
      rw [hcons] at h ⊢
      exact ih (k + 1) h

/-- Freeing blocks leaves the contents of the volume alone. -/
lemma blockIn_giveAll (l : List ℕ) (b : ℕ) : blockIn fs (v.giveAll fs l) b = blockIn fs v b := by
  rw [giveAll_eq]
  rfl

lemma giveAll_append (l l' : List ℕ) : v.giveAll fs (l ++ l') = (v.giveAll fs l).giveAll fs l' :=
  List.foldl_append

lemma vol_freeIndirect (hl : Layout fs) (hp : p.Fits fs) {blk : ℕ}
    (hplain : blk ≠ 0 → Plain fs p blk ∧ InVolume fs blk)
    (h : blk ≠ 0 → ∀ b ∈ present (wordsOf fs v blk), InVolume fs b) :
    (volView fs p).wp (freeIndirect fs blk) (fun _ v' => v' = v.giveAll fs
      (if blk = 0 then [] else present (wordsOf fs v blk) ++ [blk])) v := by
  refine View.wp_ite (fun hne => ?_) fun hz => ?_
  · rw [if_neg hne]
    refine View.wp_bind (vol_readBlock hl (hplain hne).1) ?_
    rintro _ v₁ ⟨rfl, rfl⟩
    have hwords := h hne
    rw [wordsOf, List.range_eq_range'] at hwords
    refine View.wp_bind (vol_freePtrs hl hp _ _ _ hwords) ?_
    rintro _ v₂ rfl
    refine View.wp_bind (vol_freeBlock hl hp (hplain hne).2) ?_
    rintro _ v₃ ⟨-, rfl⟩
    refine View.wp_pure ?_
    rw [wordsOf, List.range_eq_range', giveAll_append]
    rfl
  · have hz : blk = 0 := not_not.mp hz
    rw [if_pos hz]
    exact View.wp_pure rfl

lemma vol_dropLink (hl : Layout fs) (hp : p.Fits fs) (hi : InodeIn fs ino)
    (h : iLinksCount inode ≤ 1 → Pointers fs p v inode) :
    (volView fs p).wp (dropLink fs ino inode) (fun _ v' => v' = v.dropLink fs p ino inode) v := by
  unfold dropLink Vol.dropLink
  refine View.wp_ite (fun hmany => ?_) fun hlast => ?_
  · rw [if_pos hmany]
    refine View.wp_bind (vol_writeInode hl hp hi _) ?_
    rintro _ v₁ ⟨-, rfl⟩
    exact View.wp_pure rfl
  · rw [if_neg hlast]
    obtain ⟨hblocks, hind⟩ := h (Nat.le_of_not_lt hlast)
    have hdirect : ∀ b ∈ present ((List.range' 0 12).map (iBlock inode)), InVolume fs b := by
      intro b hb
      rw [← List.range_eq_range'] at hb
      exact hblocks b (List.mem_append_left _ hb)
    refine View.wp_bind (vol_freePtrs hl hp _ _ _ hdirect) ?_
    rintro _ v₁ rfl
    have hwords : ∀ l, wordsOf fs (v.giveAll fs l) (iBlock inode 12) =
        wordsOf fs v (iBlock inode 12) := by
      intro l
      simp only [wordsOf, blockIn_giveAll]
    have hrest : ∀ b, iBlock inode 12 ≠ 0 →
        b ∈ present (wordsOf fs v (iBlock inode 12)) ++ [iBlock inode 12] → InVolume fs b := by
      intro b hne hb
      refine hblocks b (List.mem_append_right _ ?_)
      rw [if_neg hne]
      exact hb
    refine View.wp_bind (vol_freeIndirect hl hp (fun hne => ⟨hind hne, hrest _ hne
      (List.mem_append_right _ (List.mem_singleton_self _))⟩) fun hne b hb => ?_) ?_
    · rw [hwords] at hb
      exact hrest b hne (List.mem_append_left _ hb)
    rintro _ v₂ rfl
    refine View.wp_bind (vol_freeInode hl hp hi) ?_
    rintro _ v₃ ⟨-, rfl⟩
    refine View.wp_bind (vol_writeInode hl hp hi _) ?_
    rintro _ v₄ ⟨-, rfl⟩
    have hall : v.giveAll fs (pointedBlocks fs v inode) =
        (v.giveAll fs (present ((List.range' 0 12).map (iBlock inode)))).giveAll fs
          (if iBlock inode 12 = 0 then [] else
            present (wordsOf fs v (iBlock inode 12)) ++ [iBlock inode 12]) := by
      rw [pointedBlocks, giveAll_append, List.range_eq_range']
    apply View.wp_pure
    rw [hall, hwords]
    rfl

/-! ## The call -/

/-- `ext2_unlink` takes the file with this inode out of the directory `nd`. -/
structure Unlinks (nd : Ext2Node) (name : List UInt8) (inode : Bytes) : Prop where
  writable : nd.fs.writeSupported = true
  isDirectory : nd.type.isDirectory = true
  name : name.length ≠ 0
  notDir : isDirInode inode = false
  extents : usesExtents inode = false
  doubly : iBlock inode 13 = 0
  triply : iBlock inode 14 = 0

/-- The inode that the record leads to. -/
abbrev target (fs : Ext2Fs) (p : Plan) (v : Vol) (r : RecordAt) : Bytes :=
  inodeIn fs p v (deInode r.buf r.off)

/-- The entry in the record is cleared. -/
def Vol.clearEntry (fs : Ext2Fs) (r : RecordAt) (v : Vol) : Vol :=
  v.write fs r.phys (Bytes.put32 r.buf r.off 0)

/-- What a call of `ext2_unlink` comes to for the volume. -/
inductive UnlinkOutcome (fs : Ext2Fs) (p : Plan) (v : Vol) (nd : Ext2Node) (L : DirBlocks)
    (name : List UInt8) : ℤ → Vol → Prop
  | refused {rc : ℤ} (hrc : rc < 0) (hno : ∀ r, lookupRecord (recordsOf fs v L) name = some r →
      ¬Unlinks nd name (target fs p v r)) : UnlinkOutcome fs p v nd L name rc v
  | unlinked {r : RecordAt} (hr : lookupRecord (recordsOf fs v L) name = some r)
      (hu : Unlinks nd name (target fs p v r)) :
      UnlinkOutcome fs p v nd L name 0
        ((v.clearEntry fs r).dropLink fs p (deInode r.buf r.off) (target fs p v r))

/-- A call that is refused for the reason that one of the conditions fails. -/
lemma UnlinkOutcome.of_not {nd : Ext2Node} {rc : ℤ} {r : RecordAt} (hrc : rc < 0)
    (hr : lookupRecord (recordsOf fs v L) name = some r)
    (hno : ¬Unlinks nd name (target fs p v r)) :
    UnlinkOutcome fs p v nd L name rc v := by
  apply UnlinkOutcome.refused hrc
  intro r' hr'
  obtain rfl : r = r' := Option.some.inj (hr.symm.trans hr')
  exact hno

lemma vol_unlink (hl : Layout fs) (hp : p.Fits fs) {dir : ℕ} (hfs : (v.nodes dir).fs = fs)
    (h : DirOn fs p v (v.nodes dir).inode L)
    (htarget : ∀ r, lookupRecord (recordsOf fs v L) name = some r →
      InodeIn fs (deInode r.buf r.off) ∧
      (Unlinks (v.nodes dir) name (target fs p v r) → iLinksCount (target fs p v r) ≤ 1 →
        Pointers fs p (v.clearEntry fs r) (target fs p v r))) :
    (volView fs p).wp (ext2Unlink dir name) (UnlinkOutcome fs p v (v.nodes dir) L name) v := by
  refine View.wp_get fun s _ hs => ?_
  have hpool : s.nodePool = v.nodes := congrArg Vol.nodes hs
  rw [hpool]
  generalize hnd : v.nodes dir = nd at h hfs htarget ⊢
  extract_lets nd' fs'
  have hnd' : nd' = nd := rfl
  have hfs' : fs' = fs := hfs
  rw [hfs', hnd']
  refine View.wp_ite (fun h1 => View.wp_pure (.refused (by norm_num) fun r _ hu => ?_)) fun h1 => ?_
  · rw [← hfs, hu.writable] at h1
    cases h1
  refine View.wp_ite (fun h2 => View.wp_pure (.refused (by norm_num) fun r _ hu => ?_)) fun h2 => ?_
  · rw [hu.isDirectory] at h2
    cases h2
  refine View.wp_ite (fun h3 => View.wp_pure (.refused (by norm_num) fun r _ hu => ?_)) fun h3 => ?_
  · exact hu.name h3
  refine View.wp_bind (vol_readInode hl hp h.inode) ?_
  rintro _ v₁ ⟨rfl, rfl⟩
  refine View.wp_bind (vol_dirWalk _ (h.recordsIn hl) ()) ?_
  rintro _ v₂ ⟨rfl, rfl⟩
  rw [search_findVisit]
  cases hfind : lookupRecord (recordsOf fs v₂ L) name with
  | none =>
    refine View.wp_pure (.refused (by norm_num) fun r hr => ?_)
    rw [hfind] at hr
    cases hr
  | some r =>
    obtain ⟨hmem, -, -, -⟩ := lookupRecord_some hfind
    obtain ⟨hi, hpointers⟩ := htarget r hfind
    have hplain : Plain fs p r.phys := by
      obtain ⟨offs, hx, -⟩ := mem_entriesOf.mp hmem
      exact (h.file _ hx).plain
    refine View.wp_bind (vol_readInode hl hp hi) ?_
    rintro _ v₃ ⟨rfl, rfl⟩
    refine View.wp_ite (fun h4 => View.wp_pure (.of_not (by norm_num) hfind fun hu => ?_)) fun h4 =>
      ?_
    · rw [hu.notDir] at h4
      cases h4
    refine View.wp_ite (fun h5 => View.wp_pure (.of_not (by norm_num) hfind fun hu => ?_)) fun h5 =>
      ?_
    · rw [hu.extents] at h5
      cases h5
    refine View.wp_ite (fun h6 => View.wp_pure (.of_not (by norm_num) hfind fun hu => ?_)) fun h6 =>
      ?_
    · rcases h6 with h6 | h6
      · exact h6 hu.doubly
      · exact h6 hu.triply
    have hu : Unlinks nd name (target fs p v₃ r) :=
      ⟨by simpa [hfs] using h1, by simpa using h2, h3, by simpa using h4, by simpa using h5,
        by simp only [not_or, not_not] at h6; exact h6.1, by
          simp only [not_or, not_not] at h6; exact h6.2⟩
    refine View.wp_bind (vol_writeBlock hl hp hplain _) ?_
    rintro _ v₄ ⟨rfl, rfl⟩
    refine View.wp_ite (fun _ => ?_) fun h => absurd rfl h
    refine View.wp_bind (vol_dropLink hl hp hi (hpointers hu)) ?_
    rintro _ v₅ rfl
    exact View.wp_pure (.unlinked hfind hu)

/-- Nothing but the inode changes on the drive. -/
lemma dropLink_changed (hl : Layout fs) (hp : p.Fits fs) (v : Vol) (inode : Bytes)
    (hi : InodeIn fs ino) : ChangedIn fs p v (v.dropLink fs p ino inode) ∅ {ino} := by
  unfold Vol.dropLink
  split_ifs
  · exact ChangedIn.putInode hl hp hi _
  · have hdata : ((v.giveAll fs (pointedBlocks fs v inode)).giveInode fs ino).data = v.data := by
      rw [giveAll_eq]
      rfl
    refine ⟨fun b hb _ => ?_, fun i hi' hne => ?_⟩
    · rw [blockIn_putInode hl hp hb hi]
      exact blockIn_congr hdata b
    · rw [inodeIn_putInode_of_ne hl hp hi hi' hne]
      exact inodeIn_congr hdata i

section Entry

variable {r : RecordAt} {e : LiveEntry} (hl : Layout fs) (hp : p.Fits fs) (h : DirOn fs p v D L)
  (he : (r.phys, r.off, e) ∈ entriesOf fs v L)

include hl hp h he

/-- The entry leaves the directory, and the other entries stay. -/
lemma lists_unlinked (inode : Bytes) (hbuf : r.buf = blockIn fs v r.phys) (hi : InodeIn fs ino)
    (hne : D ≠ ino) :
    Listed fs p ((v.clearEntry fs r).dropLink fs p ino inode) D L ∧
      (entriesOf fs v L).Perm ((r.phys, r.off, e) ::
        entriesOf fs ((v.clearEntry fs r).dropLink fs p ino inode) L) := by
  obtain ⟨hdir, hcleared, -⟩ := h.clear hl hp he
  rw [← hbuf] at hdir hcleared
  have hc := dropLink_changed hl hp (v.clearEntry fs r) inode hi
  obtain ⟨hlisted, hentries⟩ := hdir.toListed.congr hl (hc.inodes D h.inode hne)
    (fun i hi' b hb => hc.blocks b (hdir.path i hi' b hb).1 (Set.notMem_empty b))
    fun x hx => hc.blocks _ (hdir.file x hx) (Set.notMem_empty _)
  refine ⟨hlisted, ?_⟩
  rw [hentries]
  exact hcleared

/-- The other blocks and inodes stay. -/
lemma changed_unlinked (inode : Bytes) (hi : InodeIn fs ino) :
    ChangedIn fs p v ((v.clearEntry fs r).dropLink fs p ino inode) {r.phys} {ino} := by
  obtain ⟨offs, hx, -⟩ := mem_entriesOf.mp he
  have hclear : ChangedIn fs p v (v.clearEntry fs r) {r.phys} ∅ := by
    apply ChangedIn.write hl hp
    exact h.file _ hx
  have hc := hclear.trans (dropLink_changed hl hp _ inode hi) fun _ hb => hb
  rwa [Set.union_empty, Set.empty_union] at hc

end Entry

/-! ## What a file owns -/

/-- The words of `i_block` are block numbers: in ordinary files, in directories and in symbolic
links that are too long for them. -/
def HoldsPointers (inode : Bytes) : Prop :=
  iMode inode / 0x1000 = 8 ∨ iMode inode / 0x1000 = 4 ∨
    (iMode inode / 0x1000 = 10 ∧ 60 ≤ iSize inode)

instance (inode : Bytes) : Decidable (HoldsPointers inode) :=
  inferInstanceAs (Decidable (_ ∨ _ ∨ _))

/-- The blocks of a file: those of its contents, and its indirect block. -/
def ownedBlocks (fs : Ext2Fs) (v : Vol) (inode : Bytes) : List ℕ :=
  if HoldsPointers inode then pointedBlocks fs v inode else []

/-- A name in a directory of a volume in order that leads to an inode in use. -/
structure Unlinkable (fs : Ext2Fs) (p : Plan) (v : Vol) (D : ℕ) (L : DirBlocks) (name : List UInt8)
    (r : RecordAt) : Prop where
  layout : Layout fs
  fits : p.Fits fs
  dir : DirOn fs p v D L
  found : lookupRecord (recordsOf fs v L) name = some r
  inode : InodeIn fs (deInode r.buf r.off)
  inodeUsed : v.inodeUsed (deInode r.buf r.off) = true
  linked : 0 < iLinksCount (target fs p v r)
  consistent : Consistent fs v
  /-- The inode is not counted as free. -/
  counted : v.freeInodes (inodeGroup fs (deInode r.buf r.off)) < fs.inodesPerGroup ∧
    v.totalInodes < fs.inodesCount
  nodup : (ownedBlocks fs v (target fs p v r)).Nodup
  blocks : ∀ b ∈ ownedBlocks fs v (target fs p v r),
    FileBlock fs p v b ∧ b ∉ ownBlocks fs v (inodeIn fs p v D)

/-- The blocks of the file and its inode are free, and counted. -/
structure Freed (fs : Ext2Fs) (v : Vol) (ino : ℕ) (l : List ℕ) (v' : Vol) : Prop where
  used : ∀ b, v'.used b = false ↔ b ∈ l ∨ v.used b = false
  free : ∀ g < fs.groupsCount, v'.free g = v.free g + l.countP fun b => groupOf fs b = g
  total : v'.total = v.total + l.length
  inodeUsed : v'.inodeUsed = Function.update v.inodeUsed ino false
  freeInodes : v'.freeInodes = Function.update v.freeInodes (inodeGroup fs ino)
    (v.freeInodes (inodeGroup fs ino) + 1)
  totalInodes : v'.totalInodes = v.totalInodes + 1

/-- Only the entry and the link count have changed. -/
structure LinkDropped (fs : Ext2Fs) (p : Plan) (v : Vol) (D : ℕ) (r : RecordAt)
    (v' : Vol) : Prop where
  entries : ∃ es, Lists fs p v D (entryAt r.buf r.off ::ₘ es) ∧ Lists fs p v' D es
  links : iLinksCount (target fs p v' r) + 1 = iLinksCount (target fs p v r)
  inode : ∀ i, i ≠ 26 → i ≠ 27 → target fs p v' r i = target fs p v r i
  others : ChangedIn fs p v v' {r.phys} {deInode r.buf r.off}
  blocks : v'.used = v.used ∧ v'.free = v.free ∧ v'.total = v.total
  inodes : v'.inodeUsed = v.inodeUsed ∧ v'.freeInodes = v.freeInodes ∧
    v'.totalInodes = v.totalInodes

/-- The name is gone: with the last link the file, else the link. -/
structure Unlinked (fs : Ext2Fs) (p : Plan) (v : Vol) (D : ℕ) (r : RecordAt) (v' : Vol) : Prop where
  last : iLinksCount (target fs p v r) = 1 →
    Freed fs v (deInode r.buf r.off) (ownedBlocks fs v (target fs p v r)) v'
  more : 1 < iLinksCount (target fs p v r) → LinkDropped fs p v D r v'

/-- There are other links, or `i_block` holds block numbers or nothing. -/
def PointersOrNone (inode : Bytes) : Prop :=
  1 < iLinksCount inode ∨ HoldsPointers inode ∨ ∀ k < 13, iBlock inode k = 0

instance (inode : Bytes) : Decidable (PointersOrNone inode) :=
  inferInstanceAs (Decidable (_ ∨ _ ∨ _))

/-- There is nothing to free exactly when there is nothing in the words of `i_block`. -/
lemma pointedBlocks_eq_nil : pointedBlocks fs v inode = [] ↔ ∀ k < 13, iBlock inode k = 0 := by
  have hdirect : present ((List.range 12).map (iBlock inode)) = [] ↔
      ∀ k < 12, iBlock inode k = 0 := by
    simp [present, List.filter_eq_nil_iff]
  rw [pointedBlocks, List.append_eq_nil_iff, hdirect]
  constructor
  · rintro ⟨hlow, hroot⟩ k hk
    by_cases h12 : k < 12
    · exact hlow k h12
    · obtain rfl : k = 12 := by omega
      by_contra hne
      rw [if_neg hne] at hroot
      exact absurd hroot (by simp)
  · intro hall
    exact ⟨fun k hk => hall k (by omega), if_pos (hall 12 (by norm_num))⟩

lemma length_pointedBlocks_lt (hl : Layout fs) (v : Vol) (inode : Bytes) :
    (pointedBlocks fs v inode).length < 2 ^ 32 := by
  have hptrs := ptrsPerBlock_bounds hl
  have hdirect : (present ((List.range 12).map (iBlock inode))).length ≤ 12 :=
    (List.length_filter_le _ _).trans (by simp)
  have hwords : (present (wordsOf fs v (iBlock inode 12))).length ≤ ptrsPerBlock fs :=
    (List.length_filter_le _ _).trans (by simp [wordsOf])
  rw [pointedBlocks, List.length_append]
  split_ifs
  · simp only [List.length_nil]
    omega
  · simp only [List.length_append, List.length_singleton]
    omega

namespace Unlinkable

variable {r : RecordAt} (h : Unlinkable fs p v D L name r)

include h

/-- The record is one of the directory. -/
lemma record : (r.phys, r.off, entryAt r.buf r.off) ∈ entriesOf fs v L ∧
    r.buf = blockIn fs v r.phys ∧
    r.phys ∈ ownBlocks fs v (inodeIn fs p v D) := by
  obtain ⟨hmem, hbuf, -, -⟩ := lookupRecord_some h.found
  obtain ⟨offs, hx, -⟩ := mem_entriesOf.mp hmem
  exact ⟨hmem, hbuf, h.dir.toListed.mem_ownBlocks h.layout hx⟩

/-- Clearing the entry does not change where the words of the file lead. -/
lemma pointedBlocks_clearEntry (hptr : HoldsPointers (target fs p v r)) :
    pointedBlocks fs (v.clearEntry fs r) (target fs p v r) =
    ownedBlocks fs v (target fs p v r) := by
  have hblocks := h.blocks
  rw [ownedBlocks, if_pos hptr] at hblocks ⊢
  unfold pointedBlocks at hblocks ⊢
  by_cases hroot : iBlock (target fs p v r) 12 = 0
  · rw [if_pos hroot, if_pos hroot]
  · rw [if_neg hroot] at hblocks
    rw [if_neg hroot, if_neg hroot]
    have hown := (hblocks _ (List.mem_append_right _ (List.mem_append_right _
      (List.mem_singleton_self _)))).2
    have hne : iBlock (target fs p v r) 12 ≠ r.phys := fun heq => hown (heq ▸ h.record.2.2)
    have hsame : blockIn fs (v.clearEntry fs r) (iBlock (target fs p v r) 12) =
        blockIn fs v (iBlock (target fs p v r) 12) := by
      apply blockIn_write_of_ne h.layout hne
    simp only [wordsOf, hsame]

/-- What is freed with the last link are the blocks of the file. -/
lemma pointedBlocks_eq (hlast : iLinksCount (target fs p v r) ≤ 1)
    (hright : PointersOrNone (target fs p v r)) :
    pointedBlocks fs (v.clearEntry fs r) (target fs p v r) =
    ownedBlocks fs v (target fs p v r) := by
  by_cases hptr : HoldsPointers (target fs p v r)
  · exact h.pointedBlocks_clearEntry hptr
  · rcases hright with hmany | hptr' | hnone
    · omega
    · exact absurd hptr' hptr
    · rw [ownedBlocks, if_neg hptr]
      exact pointedBlocks_eq_nil.mpr hnone

lemma pointers (hlast : iLinksCount (target fs p v r) ≤ 1)
    (hright : PointersOrNone (target fs p v r)) :
    Pointers fs p (v.clearEntry fs r) (target fs p v r) := by
  have heq := h.pointedBlocks_eq hlast hright
  refine ⟨fun b hb => ?_, fun hroot => ?_⟩
  · rw [heq] at hb
    exact (h.blocks b hb).1.inVolume
  · have hmem : iBlock (target fs p v r) 12 ∈
        pointedBlocks fs (v.clearEntry fs r) (target fs p v r) := by
      rw [pointedBlocks, if_neg hroot]
      exact List.mem_append_right _ (List.mem_append_right _ (List.mem_singleton_self _))
    rw [heq] at hmem
    exact (h.blocks _ hmem).1.plain

/-- With the last link the blocks of the file go. -/
lemma freed (hlast : iLinksCount (target fs p v r) = 1)
    (hright : PointersOrNone (target fs p v r)) :
    Freed fs v (deInode r.buf r.off) (ownedBlocks fs v (target fs p v r))
      ((v.clearEntry fs r).dropLink fs p (deInode r.buf r.off) (target fs p v r)) := by
  have heq := h.pointedBlocks_eq hlast.le hright
  have hconsistent : Consistent fs (v.clearEntry fs r) := ⟨h.consistent.free, h.consistent.total⟩
  have huse : ∀ b ∈ ownedBlocks fs v (target fs p v r),
      InVolume fs b ∧ (v.clearEntry fs r).used b = true := fun b hb =>
    ⟨(h.blocks b hb).1.inVolume, (h.blocks b hb).1.used⟩
  have hcounted := h.counted
  have hper := h.layout.inodesPerGroup.2
  have hbs := h.layout.blockSize_le.2
  have hcount := h.layout.inodesCount
  have hinodes := h.layout.inodes
  unfold Vol.dropLink
  rw [if_neg (by omega), heq]
  constructor
  case used =>
    intro b
    change ((v.clearEntry fs r).giveAll fs (ownedBlocks fs v (target fs p v r))).used b = false ↔ _
    rw [used_giveAll]
    split_ifs with hb
    · exact iff_of_true rfl (.inl hb)
    · exact ⟨.inr, fun hor => hor.resolve_left hb⟩
  case free => exact fun g hg => hconsistent.free_giveAll h.layout h.nodup huse hg
  case total => exact hconsistent.total_giveAll h.layout h.nodup huse
  case inodeUsed =>
    rw [giveAll_eq]
    rfl
  case freeInodes =>
    have hone : u16add (v.freeInodes (inodeGroup fs (deInode r.buf r.off))) 1 =
        v.freeInodes (inodeGroup fs (deInode r.buf r.off)) + 1 := by
      unfold u16add
      omega
    rw [← hone, giveAll_eq]
    rfl
  case totalInodes =>
    have hone : u32add v.totalInodes 1 = v.totalInodes + 1 := by
      unfold u32add
      omega
    rw [← hone, giveAll_eq]
    rfl

/-- With another link only the entry and the link count go. -/
lemma linkDropped (hmany : 1 < iLinksCount (target fs p v r))
    (hdir : isDirInode (target fs p v r) = false) :
    LinkDropped fs p v D r
      ((v.clearEntry fs r).dropLink fs p (deInode r.buf r.off) (target fs p v r)) := by
  obtain ⟨hmem, hbuf, -⟩ := h.record
  have hne : D ≠ deInode r.buf r.off := fun heq => by
    have hdir' := h.dir.isDir
    rw [heq, hdir] at hdir'
    cases hdir'
  obtain ⟨hlisted, hperm⟩ := lists_unlinked h.layout h.fits h.dir hmem (target fs p v r)
    hbuf h.inode hne
  have hchanged := changed_unlinked h.layout h.fits h.dir hmem (target fs p v r) h.inode
  have hdrop : (v.clearEntry fs r).dropLink fs p (deInode r.buf r.off) (target fs p v r) =
      (v.clearEntry fs r).putInode fs p (deInode r.buf r.off)
        (setILinksCount (target fs p v r) (iLinksCount (target fs p v r) - 1)) := if_pos hmany
  have hself : target fs p
      ((v.clearEntry fs r).dropLink fs p (deInode r.buf r.off) (target fs p v r)) r =
        Bytes.clip 128 (setILinksCount (target fs p v r) (iLinksCount (target fs p v r) - 1)) := by
    rw [hdrop]
    exact inodeIn_putInode_self
  constructor
  case entries =>
    exact ⟨_, h.dir.toListed.lists_cons hperm, hlisted.lists (List.Perm.refl _)⟩
  case links =>
    have hlt : iLinksCount (target fs p v r) < 65536 := Bytes.le16_lt _ _
    rw [hself, iLinksCount, Bytes.le16_clip (by norm_num), setILinksCount, Bytes.le16_put16_self]
    omega
  case inode =>
    intro i h26 h27
    rw [hself]
    by_cases hi : i < 128
    · rw [Bytes.clip_of_lt hi]
      exact Bytes.blit_of_not_mem (by omega)
    · rw [Bytes.clip_of_ge (by omega)]
      exact (Bytes.clip_of_ge (by omega)).symm
  case others => exact hchanged
  case blocks =>
    rw [hdrop]
    exact ⟨rfl, rfl, rfl⟩
  case inodes =>
    rw [hdrop]
    exact ⟨rfl, rfl, rfl⟩

/-- A file that owns nothing and for which something is freed is not unlinked as it should be. -/
lemma pointersOrNone (hlast : iLinksCount (target fs p v r) = 1)
    (hfreed : Freed fs v (deInode r.buf r.off) (ownedBlocks fs v (target fs p v r))
      ((v.clearEntry fs r).dropLink fs p (deInode r.buf r.off) (target fs p v r))) :
    PointersOrNone (target fs p v r) := by
  by_cases hptr : HoldsPointers (target fs p v r)
  · exact .inr (.inl hptr)
  suffices hnil : pointedBlocks fs (v.clearEntry fs r) (target fs p v r) = [] from
    .inr (.inr (pointedBlocks_eq_nil.mp hnil))
  apply List.eq_nil_of_length_eq_zero
  have htotal := hfreed.total
  have hlt : v.total < 2 ^ 32 := h.consistent.total.trans_lt (card_unused_lt h.layout)
  have hlen := length_pointedBlocks_lt h.layout (v.clearEntry fs r) (target fs p v r)
  have hsum := @total_giveAll fs (v.clearEntry fs r)
    (pointedBlocks fs (v.clearEntry fs r) (target fs p v r)) hlt
  rw [ownedBlocks, if_neg hptr, Vol.dropLink, if_neg (by omega)] at htotal
  have htotal' : ((v.clearEntry fs r).giveAll fs
      (pointedBlocks fs (v.clearEntry fs r) (target fs p v r))).total = v.total := htotal
  have hv : (v.clearEntry fs r).total = v.total := rfl
  -- the counter grows by less than it can hold
  rw [hsum, hv] at htotal'
  unfold u32add at htotal'
  omega

end Unlinkable

/-! ## Unlinking -/

section Run

variable {r : RecordAt} {s : Ext2State} {dir : ℕ} (hgood : (volView fs p).good s)
  (hfs : (s.nodePool dir).fs = fs)
  (h : Unlinkable fs p ((volView fs p).view s) (s.nodePool dir).inode L name r)

include hgood hfs h

lemma wp_unlink (hpointers : Unlinks (s.nodePool dir) name (target fs p ((volView fs p).view s) r) →
      iLinksCount (target fs p ((volView fs p).view s) r) ≤ 1 →
      Pointers fs p (((volView fs p).view s).clearEntry fs r)
        (target fs p ((volView fs p).view s) r)) :
    wp (ext2Unlink dir name) (fun rc s' => UnlinkOutcome fs p ((volView fs p).view s)
      (s.nodePool dir) L name rc ((volView fs p).view s')) s := by
  have hrun := @vol_unlink fs p ((volView fs p).view s) L name h.layout h.fits dir hfs h.dir
    fun r' hr' => by
      obtain rfl : r = r' := Option.some.inj (h.found.symm.trans hr')
      exact ⟨h.inode, hpointers⟩
  exact wp_mono (hrun s hgood rfl) fun rc s' hr => hr.2

/-- Where `i_block` holds block numbers or nothing, the file is unlinked as it should be. -/
lemma wp_unlinked (hright : Unlinks (s.nodePool dir) name (target fs p ((volView fs p).view s) r) →
      PointersOrNone (target fs p ((volView fs p).view s) r)) :
    wp (ext2Unlink dir name) (fun rc s' => rc = 0 → Unlinked fs p ((volView fs p).view s)
      (s.nodePool dir).inode r ((volView fs p).view s')) s := by
  refine wp_mono (wp_unlink hgood hfs h fun hu hlast => h.pointers hlast (hright hu)) ?_
  intro rc s' hout h0
  generalize (volView fs p).view s' = v' at hout ⊢
  cases hout with
  | refused hrc => exact absurd h0 hrc.ne
  | unlinked hr hu =>
    obtain rfl := Option.some.inj (h.found.symm.trans hr)
    exact ⟨fun hlast => h.freed hlast (hright hu), fun hmany => h.linkDropped hmany hu.notDir⟩

/-- Where it holds other numbers of blocks of the volume, the file is not. -/
lemma pointersOrNone_of_wp
    (hu : Unlinks (s.nodePool dir) name (target fs p ((volView fs p).view s) r))
    (hpointers : Pointers fs p (((volView fs p).view s).clearEntry fs r)
      (target fs p ((volView fs p).view s) r))
    (hrun : wp (ext2Unlink dir name) (fun rc s' => rc = 0 → Unlinked fs p ((volView fs p).view s)
      (s.nodePool dir).inode r ((volView fs p).view s')) s) :
    PointersOrNone (target fs p ((volView fs p).view s) r) := by
  obtain ⟨rc, s', hm, hout⟩ := wp_unlink hgood hfs h fun _ _ => hpointers
  obtain ⟨rc', s'', hm', hright⟩ := hrun
  rw [hm, Option.some.injEq, Prod.mk.injEq] at hm'
  obtain ⟨rfl, rfl⟩ := hm'
  by_cases hmany : 1 < iLinksCount (target fs p ((volView fs p).view s) r)
  · exact .inl hmany
  have hlast : iLinksCount (target fs p ((volView fs p).view s) r) = 1 := by
    have hpos := h.linked
    omega
  generalize (volView fs p).view s' = v' at hout hright
  cases hout with
  | refused hrc hno => exact absurd hu (hno r h.found)
  | unlinked hr hu' =>
    obtain rfl := Option.some.inj (h.found.symm.trans hr)
    exact h.pointersOrNone hlast ((hright rfl).last hlast)

end Run

/-- `ext2_unlink` frees exactly the blocks of the file when there are other links or `i_block` holds
block numbers or nothing; where it holds something else that leads to blocks of the volume, it does
not. -/
theorem ext2Unlink_frees_iff {r : RecordAt} {s : Ext2State} {dir : ℕ}
    (hgood : (volView fs p).good s) (hfs : (s.nodePool dir).fs = fs)
    (h : Unlinkable fs p ((volView fs p).view s) (s.nodePool dir).inode L name r) :
    ((Unlinks (s.nodePool dir) name (target fs p ((volView fs p).view s) r) →
        PointersOrNone (target fs p ((volView fs p).view s) r)) →
      wp (ext2Unlink dir name) (fun rc s' => rc = 0 → Unlinked fs p ((volView fs p).view s)
        (s.nodePool dir).inode r ((volView fs p).view s')) s) ∧
    (Unlinks (s.nodePool dir) name (target fs p ((volView fs p).view s) r) →
      Pointers fs p (((volView fs p).view s).clearEntry fs r)
        (target fs p ((volView fs p).view s) r) →
      wp (ext2Unlink dir name) (fun rc s' => rc = 0 → Unlinked fs p ((volView fs p).view s)
        (s.nodePool dir).inode r ((volView fs p).view s')) s →
      PointersOrNone (target fs p ((volView fs p).view s) r)) :=
  ⟨wp_unlinked hgood hfs h, pointersOrNone_of_wp hgood hfs h⟩

/-- The only name of the directory leads to inode 13, which owns the blocks `l`. -/
lemma OneDir.Ok.unlinkable {V : OneDir} {n : ℕ} {l : List ℕ} (h : V.Ok)
    (hused : (V.vol n).used V.block = true) (hcov : Covered 1024 V.dir [0])
    (hname : nameMatch (Bytes.clip 1024 V.dir) 0 name = true)
    (hino : deInode (Bytes.clip 1024 V.dir) 0 = 13)
    (hlinked : 0 < iLinksCount (Bytes.clip 128 V.file)) (hconsistent : Consistent V.fs (V.vol n))
    (hinode : (V.vol n).inodeUsed 13 = true)
    (hcounted : (V.vol n).freeInodes 0 < 16 ∧ (V.vol n).totalInodes < 16)
    (hfile : ownedBlocks V.fs (V.vol n) (Bytes.clip 128 V.file) = l) (hnodup : l.Nodup)
    (hblocks : ∀ b ∈ l, (7 ≤ b ∧ b < V.count) ∧ (V.vol n).used b = true ∧ b ≠ V.block) :
    Unlinkable V.fs V.plan (V.vol n) 12 [(V.block, [0])] name
    ⟨V.block, 0, Bytes.clip 1024 V.dir⟩ := by
  have hdir : DirOn V.fs V.plan (V.vol n) 12 [(V.block, [0])] := h.dirOn hused hcov
  have htarget : target V.fs V.plan (V.vol n) ⟨V.block, 0, Bytes.clip 1024 V.dir⟩ =
      Bytes.clip 128 V.file := by
    rw [target, hino]
    exact h.inodeIn_file
  constructor
  case layout => exact h.layout
  case fits => exact h.fits
  case dir => exact hdir
  case found =>
    have hrs : recordsOf V.fs (V.vol n) [(V.block, [0])] =
        [⟨V.block, 0, Bytes.clip 1024 V.dir⟩] := by
      rw [← h.blockIn_dir hused]
      rfl
    simp [hrs, lookupRecord, hname]
  case inode =>
    rw [hino]
    change 0 < 13 ∧ 13 ≤ 16 * 1
    norm_num
  case inodeUsed =>
    rwa [hino]
  case linked => rwa [htarget]
  case consistent => exact hconsistent
  case counted =>
    have hgroup : inodeGroup V.fs 13 = 0 := Nat.div_eq_of_lt (show 12 < 16 by norm_num)
    rw [hino, hgroup]
    exact hcounted
  case nodup => rwa [htarget, hfile]
  case blocks =>
    intro b hb
    rw [htarget, hfile] at hb
    obtain ⟨hrange, hu, hne⟩ := hblocks b hb
    exact ⟨h.fileBlock hrange hu, fun hown => hne (h.ownBlocks_dir hown)⟩

/-- An ordinary file with one block. -/
def oneBlock : OneDir :=
  ⟨10, 7, [8], newDirBlock 1024 13 [97] 1, fun i =>
    if i = 1 then 0x81 else if i = 5 then 4 else if i = 26 then 1 else if i = 40 then 8 else 0⟩

lemma oneBlock_ok : oneBlock.Ok := ⟨by decide, by decide⟩

lemma oneBlock_unlinkable : Unlinkable oneBlock.fs oneBlock.plan (oneBlock.vol 1) 12 [(7, [0])] [97]
    ⟨7, 0, Bytes.clip 1024 oneBlock.dir⟩ :=
  oneBlock_ok.unlinkable (l := [8]) (by decide)
    (covered_newDirBlock (by decide) (by decide) (by decide)).1 (by decide) (by decide) (by decide)
    ⟨by decide, by decide⟩ (by decide) (by decide) (by decide) (by decide) (by decide)

lemma oneBlock_pointers :
    PointersOrNone (target oneBlock.fs oneBlock.plan (oneBlock.vol 1)
      ⟨7, 0, Bytes.clip 1024 oneBlock.dir⟩) := by
  have htarget : target oneBlock.fs oneBlock.plan (oneBlock.vol 1)
      ⟨7, 0, Bytes.clip 1024 oneBlock.dir⟩ = Bytes.clip 128 oneBlock.file :=
      oneBlock_ok.inodeIn_file
  rw [htarget]
  exact .inr (.inl (by decide))

theorem ext2Unlink_frees_iff_oneBlock : wp (ext2Unlink 0 [97]) (fun rc s' => rc = 0 →
    Unlinked oneBlock.fs oneBlock.plan (oneBlock.vol 1) 12 ⟨7, 0, Bytes.clip 1024 oneBlock.dir⟩
      ((volView oneBlock.fs oneBlock.plan).view s')) (oneBlock.state 1) :=
  (@ext2Unlink_frees_iff oneBlock.fs oneBlock.plan [(7, [0])] [97]
    ⟨7, 0, Bytes.clip 1024 oneBlock.dir⟩ (oneBlock.state 1) 0 (oneBlock_ok.good 1) rfl
    oneBlock_unlinkable).1 fun _ => oneBlock_pointers

/-- A symbolic link to "a", in a volume that has a block 97. -/
def shortLink : OneDir :=
  ⟨98, 7, [97], newDirBlock 1024 13 [108] 7, fun i =>
    if i = 0 then 0xff else if i = 1 then 0xa1 else if i = 4 then 1 else if i = 26 then 1
    else if i = 40 then 97 else 0⟩

lemma shortLink_ok : shortLink.Ok := ⟨by decide, by decide⟩

lemma shortLink_unlinkable : Unlinkable shortLink.fs shortLink.plan (shortLink.vol 1) 12
    [(7, [0])] [108]
    ⟨7, 0, Bytes.clip 1024 shortLink.dir⟩ :=
  shortLink_ok.unlinkable (l := []) (by decide)
    (covered_newDirBlock (by decide) (by decide) (by decide)).1 (by decide) (by decide) (by decide)
    ⟨by decide +kernel, by decide +kernel⟩ (by decide) (by decide) (by decide)
    (by decide) (by decide)

/-- The text "a" of the link is taken for the number of block 97, which is freed. -/
theorem not_ext2Unlink_frees :
    ¬ ∀ (fs : Ext2Fs) (p : Plan) (s : Ext2State) (dir : ℕ) (L : DirBlocks)
    (name : List UInt8) (r : RecordAt), (volView fs p).good s → (s.nodePool dir).fs = fs →
    Unlinkable fs p ((volView fs p).view s) (s.nodePool dir).inode L name r →
    wp (ext2Unlink dir name) (fun rc s' => rc = 0 → Unlinked fs p ((volView fs p).view s)
      (s.nodePool dir).inode r ((volView fs p).view s')) s := by
  intro hall
  have hrun := hall _ _ (shortLink.state 1) 0 _ _ _ (shortLink_ok.good 1) rfl shortLink_unlinkable
  have htarget : target shortLink.fs shortLink.plan (shortLink.vol 1)
      ⟨7, 0, Bytes.clip 1024 shortLink.dir⟩ = Bytes.clip 128 shortLink.file :=
      shortLink_ok.inodeIn_file
  have hentry : Unlinkable shortLink.fs shortLink.plan (shortLink.vol 1)
      ((shortLink.state 1).nodePool 0).inode [(7, [0])] [108]
      ⟨7, 0, Bytes.clip 1024 shortLink.dir⟩ :=
    shortLink_unlinkable
  have hright := pointersOrNone_of_wp (shortLink_ok.good 1) rfl hentry ?_ ?_ hrun
  · rw [htarget] at hright
    exact absurd hright (by decide)
  · rw [htarget]
    exact ⟨rfl, rfl, by decide, by decide, by decide, by decide, by decide⟩
  · rw [htarget]
    refine ⟨?_, fun hroot => absurd ?_ hroot⟩
    · have hblocks : pointedBlocks shortLink.fs ((shortLink.vol 1).clearEntry shortLink.fs
          ⟨7, 0, Bytes.clip 1024 shortLink.dir⟩) (Bytes.clip 128 shortLink.file) = [97] := by decide
      rw [hblocks]
      decide
    · decide

end Ext2

end CoolFrost
