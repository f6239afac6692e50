import CoolFrost.Fs.Xfs.Dir
import CoolFrost.Fs.Xfs.Extents
import CoolFrost.Lib.Scan

/-!
# XFS: what reading a directory needs of its buffer

The two forms of a directory are listings: `xfs_sf_entry_at` goes from entry to entry of an inode,
`xfs_block_entry_at` from record to record of a directory block.  Both take the lengths of names and
of free room, the number of entries and the end of the records from the directory.  `EntriesInside`
says that the walk up to an entry stays in the buffer and ends.  `xfs_readdir` and `xfs_finddir`
return exactly if this holds of the directory that `xfs_load_dir` finds (`dirRead`).
-/

namespace CoolFrost

open Program

namespace Xfs

variable {σ : Type}

/-! ## Shortform directories -/

/-- The number of entries of a directory that is stored in its inode. -/
def sfCount (b : Bytes) : ℕ := Bytes.beNat b literalArea 1
/-- The size of an inode number in such a directory. -/
def sfInumSize (b : Bytes) : ℕ := if Bytes.beNat b (literalArea + 1) 1 = 0 then 4 else 8
/-- The length of the name of the entry at `pos`. -/
def sfNamelen (b : Bytes) (pos : ℕ) : ℕ := Bytes.beNat b (literalArea + pos) 1
/-- Where the entry at `pos` ends. -/
def sfEnd (b : Bytes) (pos : ℕ) : ℕ := pos + (3 + sfNamelen b pos + 1 + sfInumSize b)

/-- The entry at `pos`. -/
def sfEntry (b : Bytes) (pos : ℕ) : XfsSfEntry where
  name := literalArea + pos + 3
  namelen := sfNamelen b pos
  inumber := Bytes.beNat b (literalArea + pos + 3 + sfNamelen b pos + 1) (sfInumSize b)
  ftype := Bytes.beNat b (literalArea + pos + 3 + sfNamelen b pos) 1

/-- The entries of a directory that is stored in its inode, by number and place. -/
def sfListing (b : Bytes) : Listing (ℕ × ℕ) where
  inside v := v.1 < sfCount b → literalArea + sfEnd b v.2 ≤ bufSize
  past v := sfCount b ≤ v.1
  live _ := True
  next v := (v.1 + 1, sfEnd b v.2)
  nr v := v.1
  nr_live _ := rfl
  nr_skip h := absurd trivial h

/-- What `xfs_sf_entry_at` returns where its walk stops. -/
def sfResult (b : Bytes) (v : ℕ × ℕ) : Option XfsSfEntry :=
  if sfCount b ≤ v.1 then none else some (sfEntry b v.2)

/-- `xfs_sf_entry_at` returns the entry that its walk comes to. -/
lemma wp_xfsSfEntryAt (b : Bytes) (wantIdx : ℕ) (Q : Option XfsSfEntry → σ → Prop) (s : σ) :
    wp (xfsSfEntryAt b wantIdx) Q s ↔
      ∃ v, ((sfListing b).walk fun v => (sfListing b).nr v = wantIdx).EndsAt
        (0, 2 + sfInumSize b) v ∧
        Q (sfResult b v) s := by
  rw [xfsSfEntryAt]
  simp only [wp_bind, wp_loadBe]
  rw [and_iff_right (by decide), and_iff_right (by decide)]
  refine Walk.Rounds.wp_iter_iff ?_ (fun v => sfCount b - v.1) ?_ ?_ Q s
  · rintro ⟨i, pos⟩ Q s
    simp only [wp_ite, wp_bind, wp_loadBe, wp_pure]
    change (if i < sfCount b then literalArea + pos + 1 ≤ bufSize ∧
      literalArea + pos + 3 + sfNamelen b pos + 1 ≤ bufSize ∧
      literalArea + pos + 3 + sfNamelen b pos + 1 + sfInumSize b ≤ bufSize ∧
      (if i = wantIdx then Q (.inr (some (sfEntry b pos))) s else Q (.inl (i + 1, sfEnd b pos)) s)
      else Q (.inr none) s) ↔ (i < sfCount b → literalArea + sfEnd b pos ≤ bufSize) ∧
        (sfCount b ≤ i ∨ True ∧ i = wantIdx →
          Q (.inr (if sfCount b ≤ i then none else some (sfEntry b pos))) s) ∧
        (¬(sfCount b ≤ i ∨ True ∧ i = wantIdx) → Q (.inl (i + 1, sfEnd b pos)) s)
    have hend : literalArea + sfEnd b pos =
        literalArea + pos + 3 + sfNamelen b pos + 1 + sfInumSize b := by
      unfold sfEnd
      omega
    grind
  · intro v hin hgo
    have hlt : v.1 < sfCount b := not_le.mp (not_or.mp hgo).1
    exact .inr (Nat.sub_lt_sub_left hlt (Nat.lt_succ_self _))
  · have : sfCount b < 256 ^ 1 := Bytes.beNat_lt b literalArea 1
    unfold loopFuel
    omega

/-! ## Directory blocks -/

/-- The record at `pos` is free room. -/
def IsFree (b : Bytes) (pos : ℕ) : Prop := Bytes.beNat b pos 2 = 0xFFFF

instance (b : Bytes) (pos : ℕ) : Decidable (IsFree b pos) := inferInstanceAs (Decidable (_ = _))

/-- The length of the name of the entry at `pos`. -/
def blockNamelen (b : Bytes) (pos : ℕ) : ℕ := Bytes.beNat b (pos + 8) 1

/-- The record at `pos` is an entry that is listed. -/
def IsEntry (b : Bytes) (pos : ℕ) : Prop := ¬IsFree b pos ∧ ¬isDots b (pos + 9) (blockNamelen b pos)

instance (b : Bytes) (pos : ℕ) : Decidable (IsEntry b pos) := inferInstanceAs (Decidable (_ ∧ _))

/-- The entry at `pos`. -/
def blockEntry (b : Bytes) (pos : ℕ) : XfsSfEntry where
  name := pos + 9
  namelen := blockNamelen b pos
  inumber := Bytes.beNat b pos 8
  ftype := Bytes.beNat b (pos + 9 + blockNamelen b pos) 1

/-- Where the record after the one at `pos` starts. -/
def blockNext (b : Bytes) (pos : ℕ) : ℕ :=
  if IsFree b pos then u32 (pos + Bytes.beNat b (pos + 2) 2)
    else u32 (pos + entryLen (blockNamelen b pos))

/-- What is looked at of the record at `pos` is inside of the buffer. -/
def RecordInside (b : Bytes) (pos : ℕ) : Prop :=
  if IsFree b pos then pos + 4 ≤ bufSize else pos + 10 + blockNamelen b pos ≤ bufSize

/-- The place of the tail of a directory block. -/
def tailOff (dirblksize : ℕ) : ℕ := u32sub dirblksize 8

/-- The end of the records of a directory block. -/
def leafStart (b : Bytes) (dirblksize : ℕ) : ℕ :=
  u32sub (tailOff dirblksize) (u32 (Bytes.beNat b (tailOff dirblksize) 4 * 8))

/-- The entries of a directory block, by place and number. -/
def blockListing (b : Bytes) (dirblksize : ℕ) : Listing (ℕ × ℕ) where
  inside v := v.1 < leafStart b dirblksize → RecordInside b v.1
  past v := leafStart b dirblksize ≤ v.1
  live v := IsEntry b v.1
  next v := (blockNext b v.1, if IsEntry b v.1 then v.2 + 1 else v.2)
  nr v := v.2
  nr_live h := if_pos h
  nr_skip h := if_neg h

/-- What `xfs_block_entry_at` returns where its walk stops. -/
def blockResult (b : Bytes) (dirblksize : ℕ) (v : ℕ × ℕ) : Option XfsSfEntry :=
  if leafStart b dirblksize ≤ v.1 then none else some (blockEntry b v.1)

/-- A record that is inside of the buffer is followed by a later one, unless it is free room of no
bytes. -/
lemma blockNext_progress {b : Bytes} {pos : ℕ} (hin : RecordInside b pos) :
    pos < bufSize ∧ (blockNext b pos = pos ∧ ¬IsEntry b pos ∨ pos < blockNext b pos) := by
  unfold RecordInside bufSize at hin
  unfold blockNext bufSize u32
  have hlen : Bytes.beNat b (pos + 2) 2 < 256 ^ 2 := Bytes.beNat_lt b _ 2
  have hname : blockNamelen b pos < 256 ^ 1 := Bytes.beNat_lt b _ 1
  split at hin
  · rename_i hfree
    rw [if_pos hfree]
    refine ⟨by omega, ?_⟩
    rcases Nat.eq_zero_or_pos (Bytes.beNat b (pos + 2) 2) with hzero | hpos
    · exact .inl ⟨by omega, fun h => h.1 hfree⟩
    · exact .inr (by omega)
  · rename_i hfree
    rw [if_neg hfree]
    have : 16 ≤ entryLen (blockNamelen b pos) ∧ entryLen (blockNamelen b pos) < 2 ^ 10 := by
      unfold entryLen
      omega
    exact ⟨by omega, .inr (by omega)⟩

/-- `xfs_block_entry_at` returns the entry that its walk comes to. -/
lemma wp_xfsBlockEntryAt (b : Bytes) (dirblksize wantIdx : ℕ) (Q : Option XfsSfEntry →
    σ → Prop) (s : σ) :
    wp (xfsBlockEntryAt b dirblksize wantIdx) Q s ↔ tailOff dirblksize + 8 ≤ bufSize ∧
      ∃ v, ((blockListing b dirblksize).walk fun v =>
        (blockListing b dirblksize).nr v = wantIdx).EndsAt
        (16, 0) v ∧ Q (blockResult b dirblksize v) s := by
  rw [xfsBlockEntryAt]
  simp only [wp_bind, wp_inside]
  refine and_congr_right fun _ => ?_
  refine Walk.Rounds.wp_iter_iff ?_ (fun v => bufSize - v.1) ?_
    (by unfold bufSize loopFuel; omega) Q s
  · rintro ⟨pos, seen⟩ Q s
    simp only [wp_ite, wp_bind, wp_loadBe, wp_pure]
    change (if pos < leafStart b dirblksize then pos + 2 ≤ bufSize ∧
      (if IsFree b pos then
        pos + 2 + 2 ≤ bufSize ∧ Q (.inl (u32 (pos + Bytes.beNat b (pos + 2) 2), seen)) s
      else pos + 8 ≤ bufSize ∧ pos + 8 + 1 ≤ bufSize ∧ pos + 9 + blockNamelen b pos + 1 ≤ bufSize ∧
        (if isDots b (pos + 9) (blockNamelen b pos) then
          Q (.inl (u32 (pos + entryLen (blockNamelen b pos)), seen)) s
        else if seen = wantIdx then Q (.inr (some (blockEntry b pos))) s
        else Q (.inl (u32 (pos + entryLen (blockNamelen b pos)), seen + 1)) s))
      else Q (.inr none) s) ↔ (pos < leafStart b dirblksize → RecordInside b pos) ∧
        (leafStart b dirblksize ≤ pos ∨ IsEntry b pos ∧ seen = wantIdx →
          Q (.inr (if leafStart b dirblksize ≤ pos then none else some (blockEntry b pos))) s) ∧
        (¬(leafStart b dirblksize ≤ pos ∨ IsEntry b pos ∧ seen = wantIdx) →
          Q (.inl (blockNext b pos, if IsEntry b pos then seen + 1 else seen)) s)
    by_cases hlt : pos < leafStart b dirblksize
    · rw [if_pos hlt, forall_prop_of_true hlt, if_neg (not_le.mpr hlt), RecordInside, blockNext]
      have hle : ¬leafStart b dirblksize ≤ pos := not_le.mpr hlt
      by_cases hfree : IsFree b pos
      · have hentry : ¬IsEntry b pos := fun h => h.1 hfree
        simp only [hle, hfree, hentry, if_true, if_false, false_and, or_false,
          false_imp_iff, true_and, not_false_eq_true, forall_const, ← and_assoc]
        refine and_congr_left fun _ => ?_
        omega
      · have hentry : IsEntry b pos ↔ ¬isDots b (pos + 9) (blockNamelen b pos) :=
          and_iff_right hfree
        have hreads : ∀ X : Prop, (pos + 2 ≤ bufSize ∧ pos + 8 ≤ bufSize ∧ pos + 8 + 1 ≤ bufSize ∧
            pos + 9 + blockNamelen b pos + 1 ≤ bufSize ∧ X) ↔
            pos + 10 + blockNamelen b pos ≤ bufSize ∧ X :=
          fun X => ⟨fun h => ⟨by omega, h.2.2.2.2⟩, fun h =>
            ⟨by omega, by omega, by omega, by omega, h.2⟩⟩
        rw [if_neg hfree, if_neg hfree, if_neg hfree, hreads]
        refine and_congr_right fun _ => ?_
        by_cases hdots : isDots b (pos + 9) (blockNamelen b pos)
        · simp only [hle, hentry, hdots, not_true_eq_false, false_and, or_false, if_true, if_false,
            false_imp_iff, true_and, not_false_eq_true, forall_const]
        · rw [if_neg hdots, if_pos (hentry.mpr hdots), or_iff_right hle,
            and_iff_right (hentry.mpr hdots)]
          by_cases heq : seen = wantIdx
          · rw [if_pos heq, forall_prop_of_true heq]
            exact (and_iff_left fun h => absurd heq h).symm
          · rw [if_neg heq, forall_prop_of_true heq]
            exact (and_iff_right fun h => absurd h heq).symm
    · have hle : leafStart b dirblksize ≤ pos := not_lt.mp hlt
      rw [if_neg hlt, if_pos hle]
      grind
  · rintro ⟨pos, seen⟩ hin hgo
    have hlt : pos < leafStart b dirblksize := not_le.mp (not_or.mp hgo).1
    obtain ⟨hpos, ⟨hsame, hentry⟩ | hnext⟩ := blockNext_progress (hin hlt)
    · exact .inl (Prod.ext hsame (if_neg hentry))
    · exact .inr (Nat.sub_lt_sub_left hpos hnext)

/-! ## Entry by entry -/

/-- The entries of a directory in its buffer. -/
def DirKind.listing (b : Bytes) : DirKind → Listing (ℕ × ℕ)
  | .shortform => sfListing b
  | .block dirblksize => blockListing b dirblksize

/-- The first record of a directory. -/
def DirKind.start (b : Bytes) : DirKind → ℕ × ℕ
  | .shortform => (0, 2 + sfInumSize b)
  | .block _ => (16, 0)

/-- The entry at a record. -/
def DirKind.entry (b : Bytes) (v : ℕ × ℕ) : DirKind → XfsSfEntry
  | .shortform => sfEntry b v.2
  | .block _ => blockEntry b v.1

/-- What is looked at before the first record is inside of the buffer. -/
def DirKind.HeaderInside : DirKind → Prop
  | .shortform => True
  | .block dirblksize => tailOff dirblksize + 8 ≤ bufSize

/-- What is looked at of a directory up to the first entry with the property `P` is inside of its
buffer, and there is an end to it. -/
def EntriesInside (k : DirKind) (b : Bytes) (P : ℕ × ℕ → Prop) : Prop :=
  k.HeaderInside ∧ ((k.listing b).walk P).Ends (k.start b)

/-- `xfs_sf_entry_at` and `xfs_block_entry_at` return the entry that their walks come to. -/
lemma wp_entryAt (k : DirKind) (idx : ℕ) (Q : Option XfsSfEntry → XfsState → Prop) (s : XfsState) :
    wp (entryAt k idx) Q s ↔ k.HeaderInside ∧
      ∃ v, ((k.listing (k.buf s)).walk fun v => (k.listing (k.buf s)).nr v = idx).EndsAt
        (k.start (k.buf s)) v ∧
        ((k.listing (k.buf s)).past v → Q none s) ∧
        (¬(k.listing (k.buf s)).past v → Q (some (k.entry (k.buf s) v)) s) := by
  have hcases : ∀ (c : Prop) [Decidable c] (e : XfsSfEntry),
      Q (if c then none else some e) s ↔ (c → Q none s) ∧ (¬c → Q (some e) s) := by
    intro c _ e
    split <;> simp_all
  rw [entryAt, wp_bind, wp_get]
  cases k with
  | shortform =>
    refine (wp_xfsSfEntryAt s.inodeBuf idx Q s).trans ?_
    simp only [sfResult, hcases]
    exact (and_iff_right trivial).symm
  | block dirblksize =>
    refine (wp_xfsBlockEntryAt s.blockBuf dirblksize idx Q s).trans ?_
    simp only [blockResult, hcases]
    rfl

/-- `xfs_sf_entry_at` returns exactly if what it looks at is inside of the buffer. -/
lemma halts_xfsSfEntryAt_iff (b : Bytes) (wantIdx : ℕ) (s : σ) :
    Halts (xfsSfEntryAt b wantIdx) s ↔ EntriesInside .shortform b fun v => v.1 = wantIdx := by
  rw [Halts, wp_xfsSfEntryAt, EntriesInside, Walk.ends_iff_exists_endsAt]
  simp only [and_true]
  exact (and_iff_right trivial).symm

/-- `xfs_block_entry_at` returns exactly if what it looks at is inside of the buffer. -/
lemma halts_xfsBlockEntryAt_iff (b : Bytes) (dirblksize wantIdx : ℕ) (s : σ) :
    Halts (xfsBlockEntryAt b dirblksize wantIdx) s ↔
      EntriesInside (.block dirblksize) b fun v => v.2 = wantIdx := by
  rw [Halts, wp_xfsBlockEntryAt, EntriesInside, Walk.ends_iff_exists_endsAt]
  simp only [and_true]
  rfl

/-- The number of an entry of a shortform directory. -/
lemma sfListing_nr_le {b : Bytes} {P : ℕ × ℕ → Prop} {u v : ℕ × ℕ}
    (h : ((sfListing b).walk P).EndsAt u v) (hu : u.1 ≤ sfCount b) : v.1 ≤ sfCount b := by
  induction h with
  | stop => exact hu
  | next _ hgo _ ih => exact ih (not_le.mp (not_or.mp hgo).1)

/-- The number of an entry of a directory block: an entry takes more than one byte. -/
lemma blockListing_nr_lt {b : Bytes} {d : ℕ} {P : ℕ × ℕ → Prop} {u v : ℕ × ℕ}
    (h : ((blockListing b d).walk P).EndsAt u v) (hle : u.2 ≤ u.1) (hu : u.1 < 2 ^ 32) :
    v.2 < 2 ^ 32 := by
  induction h with
  | stop => exact lt_of_le_of_lt hle hu
  | @next u v hin hgo _ ih =>
    have hlt : u.1 < leafStart b d := not_le.mp (not_or.mp hgo).1
    obtain ⟨-, hnext⟩ := blockNext_progress (hin hlt)
    refine ih ?_ ?_
    · change (if IsEntry b u.1 then u.2 + 1 else u.2) ≤ blockNext b u.1
      rcases hnext with ⟨hsame, hentry⟩ | hlater
      · rw [if_neg hentry, hsame]
        exact hle
      · split <;> omega
    · change blockNext b u.1 < 2 ^ 32
      unfold blockNext u32
      split
      · exact Nat.mod_lt _ (by decide)
      · exact Nat.mod_lt _ (by decide)

/-- A loop over the entries has enough rounds. -/
lemma nr_lt (k : DirKind) {b : Bytes} {P : ℕ × ℕ → Prop} {v : ℕ × ℕ}
    (h : ((k.listing b).walk P).EndsAt (k.start b) v) : (k.listing b).nr v < loopFuel := by
  cases k with
  | shortform =>
    have hcount : sfCount b < 256 ^ 1 := Bytes.beNat_lt b literalArea 1
    have hle : v.1 ≤ sfCount b := sfListing_nr_le h (Nat.zero_le _)
    change v.1 < loopFuel
    unfold loopFuel
    omega
  | block d => exact blockListing_nr_lt h (Nat.zero_le 16) (show 16 < 2 ^ 32 by decide)

/-! ## Loading a directory -/

/-- A volume with a directory block size that is a 32-bit number. -/
structure DirGeometry (fs : XfsFs) : Prop extends XfsGeometry fs where
  dirBlock : fs.blockSize * 2 ^ fs.dirblklog < 2 ^ 32

variable {fs : XfsFs}

/-- The inode buffer after an inode has been read into it. -/
def inodeRead (fs : XfsFs) (ino : ℕ) (s : XfsState) : Bytes :=
  Bytes.blit s.inodeBuf 0 (inodeAt fs (s.blk.disk fs.dev) ino) fs.inodesize

/-- `read_inode_raw` on a valid volume. -/
lemma wp_readInodeRaw_of_geometry (hg : XfsGeometry fs) (ino : ℕ) (s : XfsState) :
    wp (readInodeRaw fs ino) (fun rc t => t.nodePool = s.nodePool ∧
      t.nodePoolUsed = s.nodePoolUsed ∧
      t.blockBuf = s.blockBuf ∧ t.blk = { s.blk with calls := s.blk.calls + 1 } ∧
      (s.blk.fails s.blk.calls = true → rc ≠ 0) ∧ (s.blk.fails s.blk.calls = false →
        t.inodeBuf = inodeRead fs ino s ∧
        (rc = 0 ↔ Bytes.beNat (inodeRead fs ino s) 0 2 = dinodeMagic))) s := by
  have hin := inode_inside hg ino
  have hle := blockSize_le hg
  have hlt : ino % 2 ^ fs.inopblog * fs.inodesize + fs.inodesize < 2 ^ 32 := by
    unfold bufSize at hle
    omega
  rw [readInodeRaw, xfsInoToLoc_eq hg]
  simp only [wp_bind, wp_get, readBlock, wp_zoom, blkRead, wp_modify]
  refine wp_ite_intro (fun hf => ?_) fun hf => ?_
  · simp only [wp_pure]
    exact ⟨trivial, trivial, trivial, trivial, fun _ => by decide,
      fun h => absurd (hf.symm.trans h) (by decide)⟩
  · have hf : s.blk.fails s.blk.calls = false := Bool.not_eq_true _ ▸ hf
    simp only [wp_pure]
    rw [wp_bind, wp_modify, u32, Nat.mod_eq_of_lt hlt, if_neg (by omega)]
    simp only [wp_bind, wp_inside, wp_modify, wp_get]
    refine ⟨by omega, ?_⟩
    have hread : ∀ b : Bytes, Bytes.blit s.inodeBuf 0 (Bytes.shift
        (Bytes.blit b 0 (Bytes.clip (fs.sectorsPerBlock % 256 * 512)
          (Bytes.shift (s.blk.disk fs.dev)
          ((fs.partLba + inodeBlock fs ino * fs.sectorsPerBlock) * 512)))
          (fs.sectorsPerBlock % 256 * 512)) (ino % 2 ^ fs.inopblog * fs.inodesize)) fs.inodesize =
        inodeRead fs ino s := by
      intro b
      refine Bytes.blit_congr fun j hj => ?_
      rw [Bytes.shift, block_byte hg _ _ (by omega), inodeAt, Bytes.shift,
        Bytes.shift, Nat.add_assoc]
    rw [hread]
    refine wp_ite_intro (fun hmagic => ?_) fun hmagic => ?_
    · rw [wp_pure]
      exact ⟨rfl, rfl, rfl, rfl, fun h => absurd (hf.symm.trans h) (by decide),
        fun _ => ⟨rfl, iff_of_false (by decide) hmagic⟩⟩
    · rw [wp_pure]
      exact ⟨rfl, rfl, rfl, rfl, fun h => absurd (hf.symm.trans h) (by decide),
        fun _ => ⟨rfl, iff_of_true rfl (not_not.mp hmagic)⟩⟩

/-- The bytes on the drive from a block on. -/
def bytesFrom (fs : XfsFs) (s : XfsState) (phys : ℕ) : Bytes :=
  Bytes.shift (s.blk.disk fs.dev) ((fs.partLba + phys * fs.sectorsPerBlock) * 512)

/-- The state after the first `n` blocks of a directory block have been read. -/
def afterBlocks (fs : XfsFs) (phys : ℕ) (s : XfsState) (n : ℕ) : XfsState :=
  { s with
    blk := { s.blk with calls := s.blk.calls + n }
    blockBuf := Bytes.blit s.blockBuf 0 (bytesFrom fs s phys) (n * fs.blockSize) }

/-- The next block of a directory block goes behind the ones before. -/
lemma blockBuf_succ (hg : XfsGeometry fs) (phys i : ℕ) (s : XfsState) :
    Bytes.blit (afterBlocks fs phys s i).blockBuf (i * fs.blockSize)
      (Bytes.clip fs.blockSize
        (Bytes.shift (s.blk.disk fs.dev) ((fs.partLba + (phys + i) * fs.sectorsPerBlock) * 512)))
      fs.blockSize = (afterBlocks fs phys s (i + 1)).blockBuf := by
  have haddr : (fs.partLba + (phys + i) * fs.sectorsPerBlock) * 512 =
      (fs.partLba + phys * fs.sectorsPerBlock) * 512 + i * fs.blockSize := by
    rw [hg.blockSize, Nat.add_mul phys i, ← Nat.add_assoc, Nat.add_mul _ _ 512, Nat.mul_assoc i]
  have hsrc : Bytes.blit (afterBlocks fs phys s i).blockBuf (i * fs.blockSize)
      (Bytes.clip fs.blockSize
        (Bytes.shift (s.blk.disk fs.dev) ((fs.partLba + (phys + i) * fs.sectorsPerBlock) * 512)))
      fs.blockSize =
      Bytes.blit (afterBlocks fs phys s i).blockBuf (0 + i * fs.blockSize)
        (Bytes.shift (bytesFrom fs s phys) (i * fs.blockSize)) fs.blockSize := by
    rw [Nat.zero_add]
    refine Bytes.blit_congr fun j hj => ?_
    rw [Bytes.clip_of_lt hj, haddr, bytesFrom, Bytes.shift_shift]
  rw [hsrc, afterBlocks, Bytes.blit_append, ← Nat.succ_mul]
  rfl

/-- The loop of `xfs_load_dir`, for a directory block that fits into the buffer. -/
lemma wp_loadDirBlocks (hg : DirGeometry fs)
    (hsize : 2 ^ fs.dirblklog * fs.blockSize ≤ bufSize) (phys : ℕ) (s : XfsState) :
    wp (loadDirBlocks fs phys) (fun r t => t.nodePool = s.nodePool ∧
      (r = true ↔ ∀ i < 2 ^ fs.dirblklog, s.blk.fails (s.blk.calls + i) = false) ∧
      (r = true → t = afterBlocks fs phys s (2 ^ fs.dirblklog))) s := by
  have hbs := hg.blockSize
  have hspb := hg.spb_le
  have hpos := hg.spb_pos
  have hcount : fs.sectorsPerBlock % 256 * 512 = fs.blockSize := by
    rw [hbs, Nat.mod_eq_of_lt (by omega)]
  have hblocks : 2 ^ fs.dirblklog ≤ 2 ^ fs.dirblklog * fs.blockSize :=
    Nat.le_mul_of_pos_right _ (by omega)
  unfold bufSize at hsize
  have hu : u32 (2 ^ fs.dirblklog) = 2 ^ fs.dirblklog := Nat.mod_eq_of_lt (by omega)
  refine wp_iter (fun i t => i ≤ 2 ^ fs.dirblklog ∧ t = afterBlocks fs phys s i ∧
      ∀ j < i, s.blk.fails (s.blk.calls + j) = false) (fun i _ => 2 ^ fs.dirblklog - i) ?_
    ⟨Nat.zero_le _, ?_, fun j hj => absurd hj (Nat.not_lt_zero j)⟩ (by unfold loopFuel; omega)
  · rintro i t ⟨hi, rfl, hok⟩
    rw [hu, hcount]
    refine wp_ite_intro (fun hlt => ?_) fun hge => ?_
    · have hroom : (i + 1) * fs.blockSize ≤ 2 ^ fs.dirblklog * fs.blockSize :=
        Nat.mul_le_mul_right _ hlt
      rw [Nat.succ_mul] at hroom
      have hoff : u32 (i * fs.blockSize) = i * fs.blockSize := Nat.mod_eq_of_lt (by omega)
      rw [hoff]
      simp only [wp_bind, wp_inside, wp_get, readBlock, wp_zoom, blkRead, wp_modify]
      refine ⟨by unfold bufSize; omega, ?_⟩
      refine wp_ite_intro (fun hf => ?_) fun hf => ?_
      · simp only [wp_pure]
        refine ⟨rfl, iff_of_false (by decide) fun h => ?_, fun h => absurd h (by decide)⟩
        have := h i hlt
        change s.blk.fails (s.blk.calls + i) = true at hf
        rw [this] at hf
        exact absurd hf (by decide)
      · simp only [wp_pure]
        rw [wp_bind, wp_modify, wp_pure]
        refine ⟨⟨hlt, ?_, fun j hj => ?_⟩, by omega⟩
        · rw [hcount, show (afterBlocks fs phys s i).blk.disk = s.blk.disk from rfl,
            blockBuf_succ hg.toXfsGeometry]
          rfl
        · rcases Nat.lt_succ_iff_lt_or_eq.mp hj with hj | rfl
          · exact hok j hj
          · exact Bool.not_eq_true _ ▸ hf
    · have heq : i = 2 ^ fs.dirblklog := by omega
      rw [wp_pure, ← heq]
      exact ⟨rfl, iff_of_true rfl hok, fun _ => rfl⟩
  · rw [afterBlocks, Nat.zero_mul, Bytes.blit_zero_len]
    rfl

/-- The size of a directory block. -/
def dirBlockSize (fs : XfsFs) : ℕ := u32 (fs.blockSize * 2 ^ fs.dirblklog)

/-- The first extent of an inode. -/
def firstExtent (inode : Bytes) : XfsExtent := recordExtent (Bytes.beNat inode literalArea 16)

/-- A directory that is one directory block, which fits into the buffer. -/
def OneBlock (fs : XfsFs) (inode : Bytes) : Prop :=
  diNextents inode = 1 ∧ (firstExtent inode).startoff = 0 ∧
    u32 ((firstExtent inode).blockcount * fs.blockSize) = dirBlockSize fs ∧
      dirBlockSize fs ≤ bufSize

instance (fs : XfsFs) (inode : Bytes) : Decidable (OneBlock fs inode) :=
  inferInstanceAs (Decidable (_ ∧ _))

/-- The directory block that an inode has its entries in. -/
def dirBlockRead (fs : XfsFs) (inode : Bytes) (s : XfsState) : Bytes :=
  Bytes.blit s.blockBuf 0 (bytesFrom fs s (xfsFsbToBlock fs (firstExtent inode).startblock))
    (dirBlockSize fs)

/-- How the directory `ino` is stored, and what the buffer with its entries has once they have been
read: nothing if a transfer fails or the directory is of a form that is not read. -/
def dirRead (fs : XfsFs) (ino : ℕ) (s : XfsState) : Option (DirKind × Bytes) :=
  let inode := inodeRead fs ino s
  if s.blk.fails s.blk.calls = true ∨ Bytes.beNat inode 0 2 ≠ dinodeMagic then none
  else if diFormat inode = fmtLocal then some (.shortform, inode)
  else if diFormat inode = fmtExtents ∧ OneBlock fs inode ∧
      ∀ i < 2 ^ fs.dirblklog, s.blk.fails (s.blk.calls + 1 + i) = false then
    some (.block (dirBlockSize fs), dirBlockRead fs inode s)
  else none

/-- `xfs_load_dir` comes back with the directory as it is on the drive. -/
lemma wp_xfsLoadDir {nd : XfsNode} (hg : DirGeometry nd.fs) (s : XfsState) :
    wp (xfsLoadDir nd) (fun r t => t.nodePool = s.nodePool ∧
      r = (dirRead nd.fs nd.inode s).map Prod.fst ∧
      ∀ k b, dirRead nd.fs nd.inode s = some (k, b) → k.buf t = b) s := by
  rw [xfsLoadDir, wp_bind]
  refine wp_mono (wp_readInodeRaw_of_geometry hg.toXfsGeometry nd.inode s) ?_
  rintro rc t ⟨hpool, -, hblock, hblk, hfail, hread⟩
  by_cases hnone : s.blk.fails s.blk.calls = true ∨
    Bytes.beNat (inodeRead nd.fs nd.inode s) 0 2 ≠ dinodeMagic
  · have hdir : dirRead nd.fs nd.inode s = none := if_pos hnone
    have hrc : rc ≠ 0 := by
      rcases hnone with hf | hmagic
      · exact hfail hf
      · by_cases hf : s.blk.fails s.blk.calls = true
        · exact hfail hf
        · exact fun h => hmagic ((hread (Bool.not_eq_true _ ▸ hf)).2.mp h)
    rw [if_pos hrc, wp_pure, hdir]
    exact ⟨hpool, rfl, fun k b h => by cases h⟩
  have hno := hnone
  rw [not_or, not_not, Bool.not_eq_true] at hnone
  obtain ⟨hinode, hrc⟩ := hread hnone.1
  rw [if_neg (not_not.mpr (hrc.mpr hnone.2))]
  simp only [wp_bind, wp_get, hinode]
  set inode := inodeRead nd.fs nd.inode s with hinode_eq
  refine wp_ite_intro (fun hlocal => ?_) fun hlocal => ?_
  · have hdir : dirRead nd.fs nd.inode s = some (.shortform, inode) :=
      (if_neg hno).trans (if_pos hlocal)
    rw [wp_pure, hdir]
    refine ⟨hpool, rfl, fun k b h => ?_⟩
    cases h
    exact hinode
  have hdir : dirRead nd.fs nd.inode s = _ := (if_neg hno).trans (if_neg hlocal)
  have hdir_none (h : ¬(diFormat inode = fmtExtents ∧ OneBlock nd.fs inode)) :
      dirRead nd.fs nd.inode s = none := hdir.trans (if_neg fun h' => h ⟨h'.1, h'.2.1⟩)
  have hnone' (h : ¬(diFormat inode = fmtExtents ∧ OneBlock nd.fs inode)) :
      t.nodePool = s.nodePool ∧ none = (dirRead nd.fs nd.inode s).map Prod.fst ∧
        ∀ k b, dirRead nd.fs nd.inode s = some (k, b) → k.buf t = b := by
    rw [hdir_none h]
    exact ⟨hpool, rfl, fun k b h => by cases h⟩
  refine wp_ite_intro (fun hformat => (wp_pure _ _ _).mpr (hnone' fun h => hformat h.1))
    fun hformat => ?_
  refine wp_ite_intro (fun hnext => (wp_pure _ _ _).mpr (hnone' fun h => hnext h.2.1)) fun hnext =>
    ?_
  rw [wp_bind, wp_loadExtent, and_iff_right (by decide)]
  refine wp_ite_intro (fun hextent => (wp_pure _ _ _).mpr (hnone' ?_)) fun hextent => ?_
  · rintro ⟨-, -, hoff, hcount, -⟩
    exact hextent.elim (fun h => h hoff) fun h => h hcount
  refine wp_ite_intro (fun hlarge => (wp_pure _ _ _).mpr (hnone' fun h => ?_)) fun hlarge => ?_
  · exact absurd h.2.2.2.2 (not_le.mpr hlarge)
  obtain ⟨hoff, hcount⟩ := not_or.mp hextent
  have hone : OneBlock nd.fs inode :=
    ⟨not_not.mp hnext, not_not.mp hoff, not_not.mp hcount, not_lt.mp hlarge⟩
  have hsize : dirBlockSize nd.fs = 2 ^ nd.fs.dirblklog * nd.fs.blockSize := by
    rw [dirBlockSize, u32, Nat.mod_eq_of_lt hg.dirBlock, Nat.mul_comm]
  rw [wp_bind]
  refine wp_mono (wp_loadDirBlocks hg (hsize ▸ hone.2.2.2) _ t) ?_
  rintro ok u ⟨hpool', hok, hu⟩
  have hfails : (∀ i < 2 ^ nd.fs.dirblklog, t.blk.fails (t.blk.calls + i) = false) ↔
      ∀ i < 2 ^ nd.fs.dirblklog, s.blk.fails (s.blk.calls + 1 + i) = false := by
    rw [hblk]
  rw [hfails] at hok
  refine wp_ite_intro (fun htrue => ?_) fun hfalse => ?_
  · have hall := hok.mp htrue
    rw [wp_pure, hdir, if_pos ⟨not_not.mp hformat, hone, hall⟩]
    refine ⟨hpool'.trans hpool, rfl, fun k b h => ?_⟩
    obtain ⟨rfl, rfl⟩ := Prod.mk.inj (Option.some.inj h)
    change u.blockBuf = _
    rw [hu htrue, afterBlocks, dirBlockRead, hsize, hblock, bytesFrom, bytesFrom, hblk]
    rfl
  · rw [wp_pure, hdir, if_neg fun h => hfalse (hok.mpr h.2.2)]
    exact ⟨hpool'.trans hpool, rfl, fun k b h => by cases h⟩

/-! ## Reading and searching a directory -/

/-- `read_inode_raw` returns on a valid volume. -/
lemma total_readInodeRaw (hg : XfsGeometry fs) (ino : ℕ) : Total (readInodeRaw fs ino) :=
  fun s => .of_wp (wp_readInodeRaw_of_geometry hg ino s)

lemma forall_some_eq {k : DirKind} {b : Bytes} {P : DirKind → Bytes → Prop} :
    (∀ k' b', some (k, b) = some (k', b') → P k' b') ↔ P k b := by
  constructor
  · exact fun h => h k b rfl
  · intro h k' b' heq
    obtain ⟨rfl, rfl⟩ := Prod.mk.inj (Option.some.inj heq)
    exact h

/-- The entry at a record is called `name`. -/
def Named (k : DirKind) (b : Bytes) (name : List UInt8) (v : ℕ × ℕ) : Prop :=
  (k.entry b v).namelen = name.length ∧
  Bytes.slice b (k.entry b v).name (k.entry b v).namelen = name

/-- `xfs_readdir` returns exactly if what it looks at of the directory, up to the entry asked for,
is inside of its buffer. -/
lemma halts_xfsReaddir_iff {node : ℕ} {s : XfsState}
    (hg : DirGeometry (s.nodePool node).fs) (index : ℕ) :
    Halts (xfsReaddir node index) s ↔
      ∀ k b, dirRead (s.nodePool node).fs (s.nodePool node).inode s = some (k, b) →
        EntriesInside k b fun v => (k.listing b).nr v = index := by
  obtain ⟨r, t, hload, hpool, rfl, hbuf⟩ := wp_xfsLoadDir hg s
  rw [Halts, xfsReaddir, wp_bind, wp_get, readdirAt, wp_bind, wp_iff_of_eq hload]
  cases hdir : dirRead (s.nodePool node).fs (s.nodePool node).inode s with
  | none =>
    rw [Option.map_none, wp_pure]
    exact iff_of_true trivial fun k b h => by cases h
  | some d =>
    obtain ⟨k, b⟩ := d
    have hb := hbuf k b hdir
    subst hb
    rw [forall_some_eq]
    simp only [Option.map_some, wp_bind, wp_entryAt, EntriesInside, Walk.ends_iff_exists_endsAt]
    constructor
    · rintro ⟨hheader, v, hv, -⟩
      exact ⟨hheader, v, hv⟩
    · rintro ⟨hheader, v, hv⟩
      refine ⟨hheader, v, hv, fun _ => ?_, fun _ => ?_⟩
      · rw [wp_pure]
        trivial
      · rw [wp_get]
        refine (total_readInodeRaw hg.toXfsGeometry _ t).wp fun _ _ => ?_
        rw [wp_get, wp_pure]
        trivial

lemma total_foundNode (hg : XfsGeometry fs) (node : ℕ) (name : List UInt8) (e : XfsSfEntry) :
    Total (foundNode fs node name e) :=
  .bind (total_readInodeRaw hg _) fun _ => .ite (.ret _) <| .bind .read fun _ =>
    .bind .read fun _ => .ite (.ret _) <| .bind (.change _) fun _ => .ret _

/-- `xfs_finddir` returns exactly if what it looks at of the directory, up to the entry with the
name, is inside of its buffer. -/
lemma halts_xfsFinddir_iff {node : ℕ} {s : XfsState} (hg : DirGeometry (s.nodePool node).fs)
    (name : List UInt8) :
    Halts (xfsFinddir node name) s ↔
      ∀ k b, dirRead (s.nodePool node).fs (s.nodePool node).inode s = some (k, b) →
        EntriesInside k b (Named k b name) := by
  obtain ⟨r, t, hload, hpool, rfl, hbuf⟩ := wp_xfsLoadDir hg s
  rw [Halts, xfsFinddir, wp_bind, wp_get, wp_bind, wp_iff_of_eq hload]
  cases hdir : dirRead (s.nodePool node).fs (s.nodePool node).inode s with
  | none =>
    rw [Option.map_none, wp_pure]
    exact iff_of_true trivial fun k b h => by cases h
  | some d =>
    obtain ⟨k, b⟩ := d
    have hb := hbuf k b hdir
    subst hb
    rw [Option.map_some, forall_some_eq]
    change Halts (iter _ loopFuel 0) t ↔ _
    by_cases hheader : k.HeaderInside
    · rw [EntriesInside, and_iff_right hheader]
      refine Listing.halts_search_iff none
        (fun v => foundNode (s.nodePool node).fs node name (k.entry (k.buf t) v)) ?_
        (fun v => total_foundNode hg.toXfsGeometry node name _ t) ?_ fun v hv => nr_lt k hv
      · intro i Q
        simp only [wp_bind, wp_entryAt, and_iff_right hheader]
        refine exists_congr fun v => and_congr_right fun _ => ?_
        refine and_congr (by rw [wp_pure]) ?_
        refine Iff.trans (forall_congr' fun _ => ?_) forall_and
        rw [wp_get]
        by_cases hnamed : Named k (k.buf t) name v
        · rw [if_pos (show _ ∧ _ from hnamed), wp_bind]
          simp only [wp_pure]
          exact ⟨fun h => ⟨fun _ => h, fun hn => absurd hnamed hn⟩, fun h => h.1 hnamed⟩
        · rw [if_neg (show ¬(_ ∧ _) from hnamed), wp_pure]
          exact ⟨fun h => ⟨fun hn => absurd hn hnamed, fun _ => h⟩, fun h => h.2 hnamed⟩
      · cases k with
        | shortform => rfl
        | block d => rfl
    · refine iff_of_false (fun h => ?_) fun h => hheader h.1
      rw [Halts, show loopFuel = 2 ^ 32 - 1 + 1 from rfl, wp_iter_succ, wp_bind, wp_entryAt] at h
      exact hheader h.1

end Xfs

end CoolFrost
