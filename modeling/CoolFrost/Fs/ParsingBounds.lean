import CoolFrost.Fs.Ntfs.RecordBounds
import CoolFrost.Fs.Xfs.DirBounds

/-!
# Parsing what is on the drive

The NTFS and XFS drivers parse records in static buffers of 4096 bytes.  A call of one of their
parsing functions (`Parse`) is safe if it returns and has looked at nothing outside of the buffer.
None of them checks for this; `Parse.safe_iff` says for which contents of the buffer they are.
-/

namespace CoolFrost

open Program

/-- A directory of an XFS volume whose geometry is valid. -/
structure XfsDir where
  state : XfsState
  node : ℕ
  geometry : Xfs.DirGeometry (state.nodePool node).fs

/-- If the directory is read from the drive, it has its entries up to the first one with the
property `P` inside of its buffer. -/
def XfsDir.Inside (dir : XfsDir) (P : Xfs.DirKind → Bytes → ℕ × ℕ → Prop) : Prop :=
  ∀ k b, Xfs.dirRead (dir.state.nodePool dir.node).fs
    (dir.state.nodePool dir.node).inode dir.state =
    some (k, b) → Xfs.EntriesInside k b (P k b)

/-- A call of a parsing function, with the contents of the buffer that holds the record. -/
inductive Parse where
  | findAttr (record : Bytes) (type : ℕ)
  | applyFixup (record : Bytes) (fixupOffset fixupCount recordSize : ℕ)
  | walkIndexEntries (record : Bytes) (base counter : ℕ) (q : Ntfs.Query)
  | readNonresident (fs : NtfsFs) (record : Bytes) (attr offset size : ℕ)
  | xfsSfEntryAt (inode : Bytes) (wantIdx : ℕ)
  | xfsBlockEntryAt (block : Bytes) (dirblksize wantIdx : ℕ)
  | xfsReaddir (dir : XfsDir) (index : ℕ)
  | xfsFinddir (dir : XfsDir) (name : List UInt8)

namespace Parse

/-- The function returns, and has looked at nothing outside of the buffer.  `read_nonresident` does
so whatever the drive has and whichever transfers fail. -/
def Safe : Parse → Prop
  | findAttr record type => Total (Ntfs.findAttr record type : Program NtfsState _)
  | applyFixup record fixupOffset fixupCount recordSize =>
    Total (Ntfs.applyFixup record fixupOffset fixupCount recordSize : Program NtfsState _)
  | walkIndexEntries record base counter q =>
    Total (Ntfs.walkIndexEntries record base counter q : Program NtfsState _)
  | readNonresident fs record attr offset size =>
    ∀ out, Total (Ntfs.readNonresident fs record attr offset size out)
  | xfsSfEntryAt inode wantIdx => Total (Xfs.xfsSfEntryAt inode wantIdx : Program XfsState _)
  | xfsBlockEntryAt block dirblksize wantIdx =>
    Total (Xfs.xfsBlockEntryAt block dirblksize wantIdx : Program XfsState _)
  | xfsReaddir dir index => Halts (Xfs.xfsReaddir dir.node index) dir.state
  | xfsFinddir dir name => Halts (Xfs.xfsFinddir dir.node name) dir.state

/-- The records that the function comes to are inside of the buffer, up to one where it stops. -/
def InBuffer : Parse → Prop
  | findAttr record type => (Ntfs.attrWalk record type).Ends (Bytes.leNat record 20 2)
  | applyFixup record fixupOffset fixupCount recordSize =>
    Ntfs.FixupInside record fixupOffset fixupCount recordSize
  | walkIndexEntries record base counter q => base + 8 ≤ Ntfs.bufSize ∧
    (Ntfs.entryWalk record base (Bytes.leNat record (base + 4) 4) q).Ends
      (Bytes.leNat record base 4, counter)
  | readNonresident fs record attr offset size => attr + 34 ≤ Ntfs.bufSize ∧
    (Ntfs.runWalk fs record offset size).Ends ⟨attr + Bytes.leNat record (attr + 32) 2, 0, 0⟩
  | xfsSfEntryAt inode wantIdx => Xfs.EntriesInside .shortform inode fun v => v.1 = wantIdx
  | xfsBlockEntryAt block dirblksize wantIdx =>
    Xfs.EntriesInside (.block dirblksize) block fun v => v.2 = wantIdx
  | xfsReaddir dir index => dir.Inside fun k b v => (k.listing b).nr v = index
  | xfsFinddir dir name => dir.Inside fun k b => Xfs.Named k b name

/-- Whether a function of a buffer returns does not depend on the state. -/
lemma total_iff {σ α : Type} {m : Program σ α} {C : Prop} (s : σ) (h : ∀ s, Halts m s ↔ C) :
    Total m ↔ C :=
  ⟨fun hm => (h s).mp (hm s), fun hC s => (h s).mpr hC⟩

/-- A parsing function is safe exactly if the records that it comes to are inside of the buffer. -/
theorem safe_iff (p : Parse) : p.Safe ↔ p.InBuffer := by
  cases p with
  | findAttr record type =>
    exact total_iff (Ntfs.filledState 0) (Ntfs.halts_findAttr_iff record type)
  | applyFixup record fixupOffset fixupCount recordSize =>
    exact total_iff (Ntfs.filledState 0)
      (Ntfs.halts_applyFixup_iff record fixupOffset fixupCount recordSize)
  | walkIndexEntries record base counter q =>
    exact total_iff (Ntfs.filledState 0) (Ntfs.halts_walkIndexEntries_iff record base counter q)
  | readNonresident fs record attr offset size =>
    exact Ntfs.total_readNonresident_iff fs record attr offset size
  | xfsSfEntryAt inode wantIdx =>
    exact total_iff (Xfs.smallState 0) (Xfs.halts_xfsSfEntryAt_iff inode wantIdx)
  | xfsBlockEntryAt block dirblksize wantIdx =>
    exact total_iff (Xfs.smallState 0) (Xfs.halts_xfsBlockEntryAt_iff block dirblksize wantIdx)
  | xfsReaddir dir index => exact Xfs.halts_xfsReaddir_iff dir.geometry index
  | xfsFinddir dir name => exact Xfs.halts_xfsFinddir_iff dir.geometry name

/-- The inode of a directory with the entries `a` and `b`. -/
def smallDirInode : Bytes :=
  Bytes.blit (Bytes.ofList [0x49, 0x4E, 0x41, 0xED, 2, 1]) 100
    (Bytes.ofList [2, 0, 0, 0, 0, 4, 1, 0, 0, 97, 1, 0, 0, 0, 5, 1, 0, 0, 98, 1, 0, 0, 0, 6]) 24

/-- The directory is inode 4 of its volume. -/
def smallDir : XfsDir where
  state :=
    { Xfs.smallState 0 with
      blk := ⟨fun _ i => if 1024 ≤ i then smallDirInode (i - 1024) else 0, fun _ => false, 0, []⟩ }
  node := 0
  geometry := ⟨Xfs.smallFs_geometry, by decide⟩

/-- Both entries are inside of the inode. -/
lemma smallDir_inside {P : Xfs.DirKind → Bytes → ℕ × ℕ → Prop}
    (h : P .shortform (Xfs.inodeRead Xfs.smallFs 4 smallDir.state) (1, 15)) :
    smallDir.Inside P := by
  intro k b hread
  change Xfs.dirRead Xfs.smallFs 4 smallDir.state = _ at hread
  rw [Xfs.dirRead, if_neg (by decide +kernel), if_pos (by decide +kernel)] at hread
  obtain ⟨rfl, rfl⟩ := Prod.mk.inj (Option.some.inj hread)
  have hsize : Xfs.sfInumSize (Xfs.inodeRead Xfs.smallFs 4 smallDir.state) = 4 := by decide +kernel
  have hfirst : Xfs.sfEnd (Xfs.inodeRead Xfs.smallFs 4 smallDir.state) 6 = 15 := by decide +kernel
  have hsecond : Xfs.sfEnd (Xfs.inodeRead Xfs.smallFs 4 smallDir.state) 15 = 24 := by decide +kernel
  refine ⟨trivial, Walk.ends_iff.mpr ⟨fun _ => ?_, .inr (Walk.ends_iff.mpr ⟨fun _ => ?_, .inl ?_⟩)⟩⟩
  · change Xfs.literalArea + Xfs.sfEnd _ (2 + Xfs.sfInumSize _) ≤ Xfs.bufSize
    rw [hsize, hfirst]
    decide
  · change Xfs.literalArea + Xfs.sfEnd _ (Xfs.sfEnd _ (2 + Xfs.sfInumSize _)) ≤ Xfs.bufSize
    rw [hsize, hfirst, hsecond]
    decide
  · refine .inr ⟨trivial, ?_⟩
    change P _ _ (0 + 1, Xfs.sfEnd _ (2 + Xfs.sfInumSize _))
    rw [hsize, hfirst]
    exact h

/-- Listing that directory up to its second entry and looking that entry up are safe. -/
theorem safe_iff_smallDir :
    (Parse.xfsReaddir smallDir 1).Safe ∧ (Parse.xfsFinddir smallDir [98]).Safe := by
  refine ⟨(safe_iff (.xfsReaddir smallDir 1)).mpr (smallDir_inside rfl),
    (safe_iff (.xfsFinddir smallDir [98])).mpr (smallDir_inside ?_)⟩
  exact (by decide +kernel : Xfs.sfNamelen (Xfs.inodeRead Xfs.smallFs 4 smallDir.state) 15 = 1 ∧
    Bytes.slice (Xfs.inodeRead Xfs.smallFs 4 smallDir.state) (Xfs.literalArea + 15 + 3)
      (Xfs.sfNamelen (Xfs.inodeRead Xfs.smallFs 4 smallDir.state) 15) = [98])

/-- A directory block that starts with free room of no bytes. -/
def emptyRoom : Bytes := fun i => if i = 16 ∨ i = 17 then 0xFF else 0

/-- `xfs_block_entry_at` never gets past that room. -/
theorem not_safe : ¬∀ p : Parse, p.Safe := by
  intro h
  have hsafe : Total (Xfs.xfsBlockEntryAt emptyRoom 4096 0 : Program XfsState _) :=
    h (.xfsBlockEntryAt emptyRoom 4096 0)
  have hends := ((Xfs.halts_xfsBlockEntryAt_iff emptyRoom 4096 0 (Xfs.smallState 0)).mp (hsafe _)).2
  have hroom : ¬Xfs.IsEntry emptyRoom 16 := by decide +kernel
  have hstays : Xfs.blockNext emptyRoom 16 = 16 := by decide +kernel
  refine Walk.not_ends_of_stays ?_ ?_ hends
  · change (Xfs.blockNext emptyRoom 16, if Xfs.IsEntry emptyRoom 16 then 0 + 1 else 0) = (16, 0)
    rw [hstays, if_neg hroom]
  · rintro (hpast | hfound)
    · exact absurd hpast (by decide +kernel : ¬Xfs.leafStart emptyRoom 4096 ≤ 16)
    · exact hroom hfound.1

end Parse

end CoolFrost
