import CoolFrost.Fs.Fat32.ParentLinks
import CoolFrost.Fs.Ext2.ParentLinks

/-!
# Parent links

On both writable formats the dot entries are looked up on the drive like any others.  On ext2 they
lead where they should.  On FAT32 the format writes cluster 0 for the root directory, which the
driver takes for the number of a cluster.
-/

namespace CoolFrost

namespace Vfs

open Program

/-- A volume with dot entries. -/
inductive DotVolume where
  | fat32 (fs : Fat32Fs) (v : Fat32.Volume)
  | ext2 (fs : Ext2Fs) (v : Ext2.Image)

namespace DotVolume

/-- The node number `n` of the driver. -/
def node : DotVolume → ℕ → VNode
  | fat32 _ _, n => .fat32 n
  | ext2 _ _, n => .ext2 n

/-- The volume is mounted with the node number `n` for its root directory. -/
def MountedAt (k : Kernel) (n : ℕ) : DotVolume → Prop
  | fat32 fs v => Fat32Mounted fs v k n
  | ext2 fs v => Ext2Mounted fs v k n

/-- The tree is well-formed, and its subdirectories carry the dot entries. -/
def DotTree : DotVolume → Prop
  | fat32 fs v => Fat32.DotTree fs v
  | ext2 fs v => Ext2.DotTree fs v.disk

/-- The directories. -/
def tree : DotVolume → DirTree
  | fat32 fs v => fat32Tree fs v
  | ext2 fs v => ext2Tree fs v.disk

/-- On FAT32, the path leads to a directory whose parent is not the root, and not through the
cluster 0. -/
def LinksStored (d : List UInt8) : DotVolume → Prop
  | fat32 fs v => BelowFirstLevel fs v d
  | ext2 _ _ => True

/-- On FAT32, there is no entry where the driver looks for cluster 0. -/
def EmptyBeyond : DotVolume → Prop
  | fat32 fs v => Fat32.EmptyBeyond fs v
  | ext2 _ _ => True

end DotVolume

/-- **The parent links of a directory resolve** if there is a node left for the dot component and,
on FAT32, the directory lies below the first level; and otherwise they do not. -/
theorem parentLinks_iff {F : RoFormats} {k : Kernel} {V : DotVolume} {n : ℕ} {d : List UInt8}
    (h : V.MountedAt k n) (htree : V.DotTree) (hdir : LeadsToDir F k (V.node n) d) :
    (RoomBelow k (V.node n) d ∧ V.LinksStored d → ParentLinks F k V.tree (V.node n) d) ∧
      (V.EmptyBeyond → ParentLinks F k V.tree (V.node n) d →
        RoomBelow k (V.node n) d ∧ V.LinksStored d) := by
  cases V with
  | fat32 fs v =>
    constructor
    · rintro ⟨hroom, hbelow⟩
      exact Fat32Mounted.parentLinks h htree hroom hbelow
    · intro hempty hlinks
      exact Fat32Mounted.below h htree hempty hlinks
  | ext2 fs v =>
    have hiff := Ext2Mounted.parentLinks_iff_top h htree hdir
    constructor
    · rintro ⟨hroom, -⟩
      exact hiff.mpr hroom
    · intro _ hlinks
      exact ⟨hiff.mp hlinks, trivial⟩

/-! ## A FAT32 volume with a directory in a directory -/

/-- A volume of three clusters. -/
def treeFs : Fat32Fs where
  id := 0
  dev := ⟨0, 0⟩
  partLba := 0
  sectorsPerCluster := 1
  reservedSectors := 1
  numFats := 1
  fatSize := 1
  rootCluster := 2
  fatStartLba := 1
  dataStartLba := 2
  totalSectors := 5
  totalClusters := 3

/-- The entry of a directory. -/
def dirEntry (name : List UInt8) (cluster : UInt8) : List UInt8 :=
  name ++ List.replicate (11 - name.length) 32 ++ [16] ++ List.replicate 14 0 ++ [cluster] ++
    List.replicate 5 0

/-- The drive: the root directory with the directory `A`, and in it the directory `B`. -/
def treeDisk : Bytes := fun i =>
  if i < 1024 then (if 520 ≤ i ∧ i < 532 then (if i % 4 = 3 then 0x0F else 0xFF) else 0)
  else if i < 1536 then Bytes.ofList (dirEntry [65] 3) (i - 1024)
  else if i < 2048 then
    Bytes.ofList (dirEntry [46] 3 ++ dirEntry [46, 46] 0 ++ dirEntry [66] 4) (i - 1536)
  else Bytes.ofList (dirEntry [46] 4 ++ dirEntry [46, 46] 3) (i - 2048)

/-- The kernel with the volume mounted. -/
def treeKernel : Kernel :=
  { bootKernel treeDisk with
    fat32 := { Fat32.bootState treeDisk fun _ => false with
      nodePool := fun _ => Fat32.rootNode treeFs
      nodePoolUsed := 1 } }

/-- The volume. -/
def treeVolume : Fat32.Volume := (Fat32.fat32View treeFs).view (fat32State treeKernel)

section Example

open Fat32

lemma treeFs_layout : Layout treeFs := by
  constructor <;> decide

/-- What the tables and the directories of the drive hold. -/
lemma treeVolume_tables :
    (∀ c ∈ [2, 3, 4], (2 ≤ c ∧ c ≤ 4) ∧ fat32Eoc ≤ treeVolume.fat c) ∧
    (∀ c ∈ [2, 3, 4], ∀ j < 16,
      fat32EntryValid treeVolume.data (slotAt treeFs [c] j) = .valid →
        (c ≠ 2 ∧ fat32Format83 treeVolume.data (slotAt treeFs [c] j) = dotName) ∨
        (c ≠ 2 ∧ fat32Format83 treeVolume.data (slotAt treeFs [c] j) = dotDotName) ∨
        (c ≠ 4 ∧ deCluster treeVolume.data (slotAt treeFs [c] j) = c + 1 ∧
          fat32Format83 treeVolume.data (slotAt treeFs [c] j) ≠ dotName ∧
          fat32Format83 treeVolume.data (slotAt treeFs [c] j) ≠ dotDotName)) ∧
    (∀ c ∈ [2, 3, 4], ∀ j < 16, ∀ i ≤ j,
      treeVolume.data (slotAt treeFs [c] i) = 0 → treeVolume.data (slotAt treeFs [c] j) = 0) ∧
    (∀ c ∈ [3, 4],
      (fat32EntryValid treeVolume.data (clusterOff treeFs c) = .valid ∧
        deIsDir treeVolume.data (clusterOff treeFs c) = true ∧
        fat32Format83 treeVolume.data (clusterOff treeFs c) = dotName ∧
        deCluster treeVolume.data (clusterOff treeFs c) = c) ∧
      (fat32EntryValid treeVolume.data (clusterOff treeFs c + 32) = .valid ∧
        deIsDir treeVolume.data (clusterOff treeFs c + 32) = true ∧
        fat32Format83 treeVolume.data (clusterOff treeFs c + 32) = dotDotName ∧
        deCluster treeVolume.data (clusterOff treeFs c + 32) = if c = 3 then 0 else c - 1)) ∧
    (fat32EntryValid treeVolume.data (slotAt treeFs [3] 2) = .valid ∧
      deIsDir treeVolume.data (slotAt treeFs [3] 2) = true ∧
      fat32Format83 treeVolume.data (slotAt treeFs [3] 2) = [66] ∧
      deCluster treeVolume.data (slotAt treeFs [3] 2) = 4) := by
  decide +kernel

lemma treeVolume_chain {c : ℕ} (hc : c ∈ [2, 3, 4]) : ChainAt treeFs treeVolume.fat c [c] := by
  obtain ⟨hrange, hend⟩ := treeVolume_tables.1 c hc
  exact ⟨rfl, hrange, hend⟩

/-- The dot entries of the directories that are not the root. -/
lemma treeVolume_dots {c : ℕ} (hc : c ∈ [3, 4]) :
    DirEntry treeVolume (clusterOff treeFs c) dotName c ∧
      DirEntry treeVolume (clusterOff treeFs c + 32) dotDotName (if c = 3 then 0 else c - 1) := by
  obtain ⟨⟨hvalid, hdir, hname, hcluster⟩, ⟨hvalid', hdir', hname', hcluster'⟩⟩ :=
    treeVolume_tables.2.2.2.1 c hc
  exact ⟨⟨hvalid, hdir, hname, hcluster⟩, ⟨hvalid', hdir', hname', hcluster'⟩⟩

/-- The entry of the directory `B`. -/
lemma treeVolume_entry : DirEntry treeVolume (slotAt treeFs [3] 2) [66] 4 := by
  obtain ⟨hvalid, hdir, hname, hcluster⟩ := treeVolume_tables.2.2.2.2
  exact ⟨hvalid, hdir, hname, hcluster⟩

lemma slotIn_treeFs {c j : ℕ} (h : SlotIn treeFs [c] j) : j < 16 := by
  change 32 * j < 1 * 512 at h
  omega

lemma treeVolume_subdir {p c : ℕ} (hp : p ∈ [2, 3, 4]) (h : Subdir treeFs treeVolume p c) :
    p ≠ 4 ∧ c = p + 1 := by
  obtain ⟨l, j, name, hchain, hj, hentry, hdot, hdotDot⟩ := h
  obtain rfl := ChainAt.unique treeFs_layout (treeVolume_chain hp) hchain
  have hname := hentry.name_eq
  rcases treeVolume_tables.2.1 p hp j (slotIn_treeFs hj) hentry.valid with
    ⟨-, heq⟩ | ⟨-, heq⟩ | ⟨hne, hcluster, -⟩
  · exact absurd (hname.symm.trans heq) hdot
  · exact absurd (hname.symm.trans heq) hdotDot
  · exact ⟨hne, hentry.cluster.symm.trans hcluster⟩

lemma treeVolume_treeDir {c : ℕ} (h : TreeDir treeFs treeVolume c) : c ∈ [2, 3, 4] := by
  induction h with
  | root => decide
  | sub _ hsub ih =>
    obtain ⟨hne, rfl⟩ := treeVolume_subdir ih hsub
    simp only [List.mem_cons, List.not_mem_nil, or_false] at ih ⊢
    omega

lemma treeVolume_dotTree : Fat32.DotTree treeFs treeVolume := by
  refine ⟨?_, ?_, ?_, by decide, ?_⟩
  · intro d hd
    exact ⟨[d], by simp, treeVolume_chain (treeVolume_treeDir hd)⟩
  · intro d l hd hchain i j hij hj
    obtain rfl := ChainAt.unique treeFs_layout (treeVolume_chain (treeVolume_treeDir hd)) hchain
    exact treeVolume_tables.2.2.1 d (treeVolume_treeDir hd) j (slotIn_treeFs hj) i hij
  · intro l j hchain hj hvalid
    obtain rfl := ChainAt.unique treeFs_layout (treeVolume_chain (c := 2) (by decide)) hchain
    rcases treeVolume_tables.2.1 2 (by decide) j (slotIn_treeFs hj) hvalid with
      ⟨hne, -⟩ | ⟨hne, -⟩ | ⟨-, -, hnames⟩
    · exact absurd rfl hne
    · exact absurd rfl hne
    · exact hnames
  · intro p c hp hsub
    have hmem := treeVolume_treeDir hp
    obtain ⟨hne, rfl⟩ := treeVolume_subdir hmem hsub
    have hroot : treeFs.rootCluster = 2 := rfl
    simp only [List.mem_cons, List.not_mem_nil, or_false] at hmem
    obtain ⟨hdot, hdotDot⟩ := treeVolume_dots (c := p + 1) (by simp; omega)
    rw [hroot]
    refine ⟨by omega, by omega, hdot, ?_⟩
    by_cases hfirst : p = 2
    · rw [if_pos hfirst]
      rw [if_pos (by omega)] at hdotDot
      exact hdotDot
    · rw [if_neg hfirst]
      rw [if_neg (by omega), Nat.add_sub_cancel] at hdotDot
      exact hdotDot

/-- The way to the directory `A`, and from there to `B`. -/
lemma treeVolume_trail : Trail treeFs treeVolume [[65]] 3 ∧
    Trail treeFs treeVolume [[65], [66]] 4 := by
  have hA : Leads treeFs treeVolume 2 [65] 3 := by
    refine ⟨by decide, [2], 0, treeVolume_chain (by decide), by decide, ?_, by decide +kernel,
      by decide +kernel⟩
    exact lookupEntry_first treeFs_layout (by rw [Valid]; decide +kernel) (by decide +kernel)
  have hB : Leads treeFs treeVolume 3 [66] 4 := by
    refine ⟨by decide, [3], 576, treeVolume_chain (by decide), by decide, rfl, by decide +kernel,
      by decide +kernel⟩
  have hone : Trail treeFs treeVolume ([] ++ [[65]]) 3 := Trail.root.step hA
  exact ⟨hone, hone.step hB⟩

lemma treeVolume_mounted : Fat32Mounted treeFs treeVolume treeKernel 0 := by
  refine ⟨treeFs_layout, ⟨fun _ => rfl, fun copy hcopy c _ => ?_, fun hdev => ?_⟩,
    rfl, rfl, rfl, rfl⟩
  · obtain rfl : copy = 0 := Nat.lt_one_iff.mp hcopy
    rfl
  · exact absurd hdev (by decide)

/-- The parent links of `A/B` resolve. -/
theorem parentLinks_iff_second_level : ParentLinks .drivers treeKernel
    (DotVolume.fat32 treeFs treeVolume).tree (.fat32 0) [65, 47, 66] := by
  have htrail : Trail treeFs treeVolume (components [] [65, 47, 66]) 4 := treeVolume_trail.2
  have hsub : Subdir treeFs treeVolume 3 4 := by
    refine ⟨[3], 2, [66], treeVolume_chain (by decide), ?_, treeVolume_entry, by decide,
      by decide⟩
    exact (by decide : 32 * 2 < 1 * 512)
  have hdir : LeadsToDir .drivers treeKernel (.fat32 0) [65, 47, 66] := by
    obtain ⟨m, k', hwalk, hm⟩ := treeVolume_mounted.walkPath_trail htrail (by decide)
    exact ⟨_, k', hwalk, hm.dir⟩
  refine (parentLinks_iff (V := .fat32 treeFs treeVolume) (n := 0) treeVolume_mounted
    treeVolume_dotTree hdir).1 ⟨?_, 4, 3, htrail, ?_, hsub, by decide⟩
  · exact (by decide : 1 + 2 < 128)
  · exact treeVolume_dotTree.trail treeFs_layout treeVolume_trail.1

/-- The parent links of `A` do not: `A/..` lists nothing. -/
theorem not_parentLinks_first_level : ¬ ∀ (F : RoFormats) (k : Kernel) (V : DotVolume) (n : ℕ)
    (d : List UInt8), V.MountedAt k n → V.DotTree → LeadsToDir F k (V.node n) d →
    ParentLinks F k V.tree (V.node n) d := by
  intro hclaim
  have htrail : Trail treeFs treeVolume (components [] [65]) 3 := treeVolume_trail.1
  have hdir : LeadsToDir .drivers treeKernel (.fat32 0) [65] := by
    obtain ⟨m, k', hwalk, hm⟩ := treeVolume_mounted.walkPath_trail htrail (by decide)
    exact ⟨_, k', hwalk, hm.dir⟩
  have hlinks := hclaim .drivers treeKernel (.fat32 treeFs treeVolume) 0 [65]
    treeVolume_mounted treeVolume_dotTree hdir
  have hempty : EmptyBeyond treeFs treeVolume := by
    rw [EmptyBeyond]
    decide +kernel
  obtain ⟨-, c, p, htrail', hp, hsub, hne⟩ :=
    treeVolume_mounted.below treeVolume_dotTree hempty hlinks
  -- only `B` has a parent below the root, and `A` is another directory
  obtain ⟨hne', rfl⟩ := treeVolume_subdir (treeVolume_treeDir hp) hsub
  have hthree : p + 1 = 3 := htrail'.unique treeFs_layout htrail
  exact hne (Nat.succ.inj hthree)

end Example

end Vfs

end CoolFrost
