import CoolFrost.Fs.Fat32.Creation
import CoolFrost.Fs.Fat32.Defrag
import CoolFrost.Fs.Ext2.Creation
import CoolFrost.Fs.Ext2.OneDir
import CoolFrost.Fs.ReadOnlyGate
import CoolFrost.Fs.ParentLinks

/-!
# Creations that fail

`fat32_create`, `ext2_create` and `vfs_open` take what they need one thing after the other, and undo
little of it: the entry and the inode stay when there is no node for the file, and the whole file
stays when there is no descriptor for it.  What is left of a failed call is told here for every
volume.
-/

namespace CoolFrost

open Program

/-! ## Directories of mounted volumes -/

/-- The node `dir` is for a directory of the well-formed volume `fs` with the clusters `l`. -/
structure Fat32.MountedDir (fs : Fat32Fs) (s : Fat32State) (dir : ℕ) (l : List ℕ) : Prop where
  layout : Layout fs
  sound : Sound fs s
  volume : (s.nodePool dir).fi.fs = fs
  chain : ChainAt fs ((fat32View fs).view s).fat (s.nodePool dir).inode l
  nonempty : l ≠ []

/-- The node `dir` is for a directory of the well-formed volume `fs` with the records `rs`. -/
structure Ext2.MountedDir (fs : Ext2Fs) (p : Plan) (s : Ext2State) (dir : ℕ) (rs : List RecordAt) :
    Prop where
  layout : Layout fs
  fits : p.Fits fs
  good : (volView fs p).good s
  reserved : Reserved fs p ((volView fs p).view s)
  volume : (s.nodePool dir).fs = fs
  dir : DirIn fs p ((volView fs p).view s) (s.nodePool dir).inode rs

lemma Fat32.create_iff {fs : Fat32Fs} {s : Fat32State} {dir : ℕ} {l : List ℕ} {name : List UInt8}
    (h : MountedDir fs s dir l) :
    wp (fat32Create dir name) (fun r s' =>
        r = none → SameRecords fs ((fat32View fs).view s) ((fat32View fs).view s')) s ↔
      (Alters fs ((fat32View fs).view s) (s.nodePool dir) l name →
        Enters fs ((fat32View fs).view s) (s.nodePool dir) l name ∧ s.nodePoolUsed < maxVfsNodes) :=
  wp_failure_iff <| Program.wp_mono (wp_create h.layout h.volume h.chain h.nonempty s h.sound rfl)
    fun _ _ hc => ⟨hc.2.returned, hc.2.recorded⟩

lemma Ext2.create_iff {fs : Ext2Fs} {p : Plan} {s : Ext2State} {dir : ℕ} {rs : List RecordAt}
    {name : List UInt8} (h : MountedDir fs p s dir rs) :
    wp (ext2Create dir name) (fun r s' =>
        r = none → SameRecords fs p ((volView fs p).view s) ((volView fs p).view s')) s ↔
      (Enters fs p ((volView fs p).view s) (s.nodePool dir) rs name ∨
          Loses fs p ((volView fs p).view s) (s.nodePool dir) rs name →
        Enters fs p ((volView fs p).view s) (s.nodePool dir) rs name ∧
          s.nodePoolUsed < maxExt2Nodes) :=
  wp_failure_iff <| Program.wp_mono
    (vol_create h.layout h.fits h.reserved h.volume h.dir s h.good rfl)
    fun _ _ hc => ⟨hc.2.returned, hc.2.recorded⟩

/-- `fat32_create` fails when there is no room for the entry. -/
lemma Fat32.create_none {fs : Fat32Fs} {s : Fat32State} {dir : ℕ} {l : List ℕ} {name : List UInt8}
    (h : MountedDir fs s dir l) (hno : ¬Enters fs ((fat32View fs).view s) (s.nodePool dir) l name) :
    wlp (fat32Create dir name) (fun r _ => r = none) s :=
  wlp_of_wp <| Program.wp_mono (wp_create h.layout h.volume h.chain h.nonempty s h.sound rfl)
    fun _ _ hc => not_not.mp fun hr => hno (hc.2.returned.mp hr).1

/-- `ext2_create` fails when there is no room for the entry. -/
lemma Ext2.create_none {fs : Ext2Fs} {p : Plan} {s : Ext2State} {dir : ℕ} {rs : List RecordAt}
    {name : List UInt8} (h : MountedDir fs p s dir rs)
    (hno : ¬Enters fs p ((volView fs p).view s) (s.nodePool dir) rs name) :
    wlp (ext2Create dir name) (fun r _ => r = none) s :=
  wlp_of_wp <| Program.wp_mono (vol_create h.layout h.fits h.reserved h.volume h.dir s h.good rfl)
    fun _ _ hc => not_not.mp fun hr => hno (hc.2.returned.mp hr).1

namespace Vfs

variable {F : RoFormats} {k : Kernel}

/-! ## Walking a path -/

lemma fat32Finddir_disk (node : ℕ) (name : List UInt8) (s : Fat32State) :
    wlp (Fat32.fat32Finddir node name) (fun _ s' => s'.blk.disk = s.blk.disk) s := by
  simp only [Fat32.fat32Finddir, wlp_bind, wlp_get]
  refine wlp_mono (Fat32.keeps_untouched (Fat32.dirWalk_built _ _ _ _ _) s) fun r s₁ h => ?_
  cases r with
  | inl _ => exact (wlp_pure _ _ _).mpr h.disk
  | inr e =>
    cases e with
    | none => exact (wlp_pure _ _ _).mpr h.disk
    | some e =>
      simp only [Fat32.allocNode, wlp_bind, wlp_get, wlp_ite, wlp_modify, wlp_pure]
      split_ifs
      · exact h.disk
      · exact h.disk

lemma roFinddir_disk (R : RoFormat) (node : ℕ) (name : List UInt8) (s : RoState) :
    wlp (RoFs.finddir R node name) (fun _ s' => s'.blk.disk = s.blk.disk) s := by
  simp only [RoFs.finddir, RoFs.io, wlp_bind, wlp_get, wlp_zoom]
  refine wlp_mono (R.lookup_readsOnly _ _ _ _) fun r d h => ?_
  cases r with
  | none => exact (wlp_pure _ _ _).mpr h.1
  | some e =>
    simp only [RoFs.allocNode, wlp_bind, wlp_get, wlp_ite, wlp_modify, wlp_pure]
    split_ifs
    · exact h.1
    · exact h.1

/-- A lookup leaves the drives alone. -/
lemma finddir_disk (node : VNode) (name : List UInt8) (k : Kernel) :
    wlp (finddir F node name) (fun _ k' => k'.blk.disk = k.blk.disk) k := by
  simp only [finddir, wlp_bind, wlp_get, wlp_ite]
  split_ifs
  · cases node with
    | fat32 i =>
      simp only [wlp_map, inFat32, wlp_zoom]
      exact fat32Finddir_disk i name _
    | ext2 i =>
      simp only [wlp_map, inExt2, wlp_zoom]
      exact wlp_mono (Ext2.lookup_reads
        (Ext2.ext2Finddir_built (P := fun _ => True) i name trivial) _)
        fun _ _ h => h.disk
    | ntfs i =>
      simp only [wlp_map, inNtfs, wlp_zoom]
      exact roFinddir_disk F.ntfs i name _
    | xfs i =>
      simp only [wlp_map, inXfs, wlp_zoom]
      exact roFinddir_disk F.xfs i name _
  · exact (wlp_pure _ _ _).mpr rfl

lemma walkPath_disk (root : Option VNode) (relpath : List UInt8) (k : Kernel) :
    wlp (walkPath F root relpath) (fun _ k' => k'.blk.disk = k.blk.disk) k :=
  walkPath_same (f := fun k => k.blk.disk) finddir_disk root relpath k

/-- What every lookup leaves alone, finding the parent does. -/
lemma splitParent_same {α : Type} {f : Kernel → α}
    (hstep : ∀ node name k, wlp (finddir F node name) (fun _ k' => f k' = f k) k)
    (m : MountPoint) (relpath : List UInt8) (k : Kernel) :
    wlp (splitParent F m relpath) (fun _ k' => f k' = f k) k := by
  unfold splitParent
  cases splitLast relpath with
  | none => exact (wlp_pure _ _ _).mpr rfl
  | some x =>
    obtain ⟨dirpath, name⟩ := x
    rw [wlp_ite]
    split_ifs
    · exact (wlp_pure _ _ _).mpr rfl
    · rw [wlp_bind]
      exact wlp_mono (walkPath_same hstep m.root dirpath k) fun _ _ h => (wlp_pure _ _ _).mpr h

/-- `vfs_open` comes to creating the file `name` in the directory `parent`: the path leads nowhere,
its directory part does, and the driver of that directory can create files. -/
def ReachesCreate (F : RoFormats) (k : Kernel) (path : List UInt8) (parent : VNode)
    (name : List UInt8) (k₂ : Kernel) : Prop :=
  ∃ i relpath k₁, locate k path = some (i, relpath) ∧
    walkPath F (k.mounts i).root relpath k = some (none, k₁) ∧
    splitParent F (k.mounts i) relpath k₁ = some ((some parent, name), k₂) ∧ name ≠ [] ∧
    (nodeType k₂ parent).isDirectory = true ∧ (parent.driver = .fat32 ∨ parent.driver = .ext2)

lemma ReachesCreate.same {α : Type} {f : Kernel → α} {path name : List UInt8} {parent : VNode}
    {k₂ : Kernel} (h : ReachesCreate F k path parent name k₂)
    (hstep : ∀ node name k, wlp (finddir F node name) (fun _ k' => f k' = f k) k) : f k₂ = f k := by
  obtain ⟨i, relpath, k₁, -, hwalk, hsplit, -⟩ := h
  exact (splitParent_same hstep _ _ _ _ _ hsplit).trans (walkPath_same hstep _ _ _ _ _ hwalk)

/-- From there, `vfs_open` creates the file and opens it. -/
lemma ReachesCreate.wp_vfsOpen_iff {path name : List UInt8} {parent : VNode} {k₂ : Kernel}
    (h : ReachesCreate F k path parent name k₂) {flags : ℕ} (hcreate : flags &&& oCreate ≠ 0)
    (Q : ℤ → Kernel → Prop) :
    wp (vfsOpen F path flags) Q k ↔ wp (create parent name) (fun r k' =>
      match r with
      | none => Q (-2) k'
      | some node => wp (openNode node flags) Q k') k₂ := by
  obtain ⟨i, relpath, k₁, hloc, hwalk, hsplit, hname, -⟩ := h
  simp only [vfsOpen, wp_bind, wp_get, hloc]
  rw [wp_iff_of_eq hwalk]
  simp only [if_neg hcreate, wp_bind]
  rw [wp_iff_of_eq hsplit]
  simp only [if_neg hname, wp_bind]
  refine iff_of_eq (congrArg (fun R => wp (create parent name) R k₂) (funext₂ fun r k' => ?_))
  cases r with
  | none => exact propext (wp_pure _ _ _)
  | some node => rfl

/-- `vfs_open` fails at the end exactly when there is no descriptor left. -/
lemma wp_openNode (node : VNode) (flags : ℕ) (k : Kernel) :
    wp (openNode node flags) (fun r k' => (r < 0 ↔ ¬DescriptorLeft k) ∧ k'.blk = k.blk) k := by
  simp only [openNode, wp_bind, wp_get]
  cases hfind : (List.range maxFd).find? fun f => !(fdTable k k.sched.curTask f).active with
  | none =>
    refine (wp_pure _ _ _).mpr ⟨iff_of_true (by decide) ?_, rfl⟩
    rintro ⟨f, hf, hfree⟩
    have hused := List.find?_eq_none.mp hfind f (List.mem_range.mpr hf)
    rw [hfree] at hused
    exact hused rfl
  | some f =>
    have hf := List.mem_range.mp (List.mem_of_find?_eq_some hfind)
    have hfree : (fdTable k k.sched.curTask f).active = false := by
      simpa using List.find?_some hfind
    simp only [setFd, wp_bind, wp_modify, wp_pure]
    exact ⟨iff_of_false (by omega) (not_not.mpr ⟨f, hf, hfree⟩), trivial⟩

/-! ## Directories that a path leads to -/

/-- A directory of a mounted volume and what is in it. -/
inductive TargetDir where
  | fat32 (fs : Fat32Fs) (node : ℕ) (l : List ℕ)
  | ext2 (fs : Ext2Fs) (p : Ext2.Plan) (node : ℕ) (rs : List Ext2.RecordAt)

namespace TargetDir

/-- The node of the directory. -/
def node : TargetDir → VNode
  | fat32 _ i _ => .fat32 i
  | ext2 _ _ i _ => .ext2 i

/-- The directory is one of a well-formed volume. -/
def MountedIn (k : Kernel) : TargetDir → Prop
  | fat32 fs i l => Fat32.MountedDir fs (fat32State k) i l
  | ext2 fs p i rs => Ext2.MountedDir fs p (ext2State k) i rs

/-- The table of FAT32, the bitmaps and the counters of ext2 and the entries of the directories of
the volume are as before. -/
def SameRecords (k k' : Kernel) : TargetDir → Prop
  | fat32 fs _ _ =>
    Fat32.SameRecords fs ((Fat32.fat32View fs).view (fat32State k))
      ((Fat32.fat32View fs).view (fat32State k'))
  | ext2 fs p _ _ =>
    Ext2.SameRecords fs p ((Ext2.volView fs p).view (ext2State k))
      ((Ext2.volView fs p).view (ext2State k'))

/-- Creating a file changes the records of the volume. -/
def Alters (k : Kernel) (name : List UInt8) : TargetDir → Prop
  | fat32 fs i l =>
    Fat32.Alters fs ((Fat32.fat32View fs).view (fat32State k)) (k.fat32.nodePool i) l name
  | ext2 fs p i rs =>
    let v := (Ext2.volView fs p).view (ext2State k)
    Ext2.Enters fs p v (k.ext2.nodePool i) rs name ∨ Ext2.Loses fs p v (k.ext2.nodePool i) rs name

/-- There is room for the entry and a node for the file. -/
def Delivers (k : Kernel) (name : List UInt8) : TargetDir → Prop
  | fat32 fs i l =>
    Fat32.Enters fs ((Fat32.fat32View fs).view (fat32State k)) (k.fat32.nodePool i) l name ∧
      k.fat32.nodePoolUsed < maxVfsNodes
  | ext2 fs p i rs =>
    Ext2.Enters fs p ((Ext2.volView fs p).view (ext2State k)) (k.ext2.nodePool i) rs name ∧
      k.ext2.nodePoolUsed < Ext2.maxExt2Nodes

/-- The records of a volume are on its drive. -/
lemma sameRecords_congr {k k₂ k' k'' : Kernel} (D : TargetDir) (hk : k₂.blk.disk = k.blk.disk)
    (hk' : k''.blk.disk = k'.blk.disk) : D.SameRecords k₂ k'' ↔ D.SameRecords k k' := by
  cases D with
  | fat32 fs i l =>
    have hview : ∀ {k k₂ : Kernel}, k₂.blk.disk = k.blk.disk → ∃ nodes n,
        (Fat32.fat32View fs).view (fat32State k₂) =
          { (Fat32.fat32View fs).view (fat32State k) with nodes := nodes, used := n } :=
      fun {k k₂} h => ⟨k₂.fat32.nodePool, k₂.fat32.nodePoolUsed, by
        simp only [Fat32.fat32View, fat32State, h, Fat32.volumeOn]⟩
    obtain ⟨nodes, n, h⟩ := hview hk
    obtain ⟨nodes', n', h'⟩ := hview hk'
    simp only [SameRecords, h, h']
    exact ⟨fun hs => ⟨hs.fat, hs.entries⟩, fun hs => ⟨hs.fat, hs.entries⟩⟩
  | ext2 fs p i rs =>
    have hview : ∀ {k k₂ : Kernel}, k₂.blk.disk = k.blk.disk → ∃ nodes n,
        (Ext2.volView fs p).view (ext2State k₂) =
          { (Ext2.volView fs p).view (ext2State k) with nodes := nodes, nodesUsed := n } :=
      fun {k k₂} h => ⟨k₂.ext2.nodePool, k₂.ext2.nodePoolUsed, by
        simp only [Ext2.volView, ext2State, h, Ext2.volOn]⟩
    obtain ⟨nodes, n, h⟩ := hview hk
    obtain ⟨nodes', n', h'⟩ := hview hk'
    simp only [SameRecords, h, h']
    exact ⟨fun hs => ⟨hs.used, hs.free, hs.total, hs.inodeUsed, hs.freeInodes, hs.totalInodes,
      hs.entries⟩, fun hs => ⟨hs.used, hs.free, hs.total, hs.inodeUsed, hs.freeInodes,
      hs.totalInodes, hs.entries⟩⟩

lemma wp_create {k : Kernel} {name : List UInt8} (D : TargetDir) (h : D.MountedIn k)
    (hdir : (nodeType k D.node).isDirectory = true) :
    wp (create D.node name) (fun r k' => (r ≠ none ↔ D.Delivers k name) ∧
      (D.SameRecords k k' ↔ ¬D.Alters k name) ∧ k'.sched = k.sched) k := by
  simp only [create, wp_bind, wp_get, wp_ite, if_pos hdir]
  cases D with
  | fat32 fs i l =>
    obtain ⟨hl, hs, hfs, hchain, hne⟩ := h
    simp only [node, wp_map, inFat32, wp_zoom]
    refine wp_mono (Fat32.wp_create hl hfs hchain hne (fat32State k) hs rfl) ?_
    rintro r s' ⟨-, hc⟩
    exact ⟨(Option.map_eq_none_iff.not).trans hc.returned, hc.recorded, trivial⟩
  | ext2 fs p i rs =>
    obtain ⟨hl, hp, hgood, hr, hfs, hdirIn⟩ := h
    simp only [node, wp_map, inExt2, wp_zoom]
    refine wp_mono (Ext2.vol_create hl hp hr hfs hdirIn (ext2State k) hgood rfl) ?_
    rintro r s' ⟨-, hc⟩
    exact ⟨(Option.map_eq_none_iff.not).trans hc.returned, hc.recorded, trivial⟩

/-- `vfs_open` leaves no trace of a file that it cannot open exactly if it only creates files that
it can open. -/
lemma vfsOpen_iff {k k₂ : Kernel} {path name : List UInt8} {flags : ℕ} (D : TargetDir)
    (hcreate : flags &&& oCreate ≠ 0) (hreach : ReachesCreate F k path D.node name k₂)
    (h : D.MountedIn k₂) :
    wp (vfsOpen F path flags) (fun r k' => r < 0 → D.SameRecords k k') k ↔
      (D.Alters k₂ name → D.Delivers k₂ name ∧ DescriptorLeft k) := by
  have hdisk : k₂.blk.disk = k.blk.disk := hreach.same (f := fun k => k.blk.disk) finddir_disk
  have hsched : k₂.sched = k.sched := hreach.same finddir_sched
  have hdir : (nodeType k₂ D.node).isDirectory = true := by
    obtain ⟨-, -, -, -, -, -, -, hdir, -⟩ := hreach
    exact hdir
  rw [hreach.wp_vfsOpen_iff hcreate]
  obtain ⟨r, k', hrun, hret, hrec, hsched'⟩ := @wp_create k₂ name D h hdir
  rw [wp_iff_of_eq hrun]
  cases r with
  | none =>
    have hno : ¬D.Delivers k₂ name := fun hd => hret.mpr hd rfl
    simp only [← D.sameRecords_congr hdisk rfl, hrec]
    constructor
    · intro hsame halters
      exact absurd halters (hsame (by decide))
    · intro himp _ halters
      exact hno (himp halters).1
  | some n =>
    have hyes : D.Delivers k₂ name := hret.mp (by simp)
    have hfd : DescriptorLeft k' ↔ DescriptorLeft k := by
      simp only [DescriptorLeft, fdTable, hsched', hsched]
    obtain ⟨r', k'', hopen, hneg, hblk⟩ := wp_openNode n flags k'
    simp only
    rw [wp_iff_of_eq hopen, hneg, hfd,
      ← D.sameRecords_congr hdisk (congrArg BlkDev.disk hblk).symm, hrec]
    tauto

/-- `vfs_open` fails when the driver cannot create the file. -/
lemma vfsOpen_neg {k k₂ : Kernel} {path name : List UInt8} {flags : ℕ} (D : TargetDir)
    (hcreate : flags &&& oCreate ≠ 0) (hreach : ReachesCreate F k path D.node name k₂)
    (h : D.MountedIn k₂) (hno : ¬D.Delivers k₂ name) :
    wlp (vfsOpen F path flags) (fun r _ => r < 0) k := by
  have hdir : (nodeType k₂ D.node).isDirectory = true := by
    obtain ⟨-, -, -, -, -, -, -, hdir, -⟩ := hreach
    exact hdir
  obtain ⟨r, k', hrun, hret, -⟩ := @wp_create k₂ name D h hdir
  obtain rfl : r = none := not_not.mp fun hr => hno (hret.mp hr)
  apply wlp_of_wp
  rw [hreach.wp_vfsOpen_iff hcreate, wp_iff_of_eq hrun]
  exact show (-2 : ℤ) < 0 by decide

end TargetDir

/-- A call of `vfs_open` that does not come to creating a file leaves the drives alone. -/
lemma vfsOpen_disk {path : List UInt8} {flags : ℕ}
    (h : ∀ parent name k₂, ¬ReachesCreate F k path parent name k₂) :
    wlp (vfsOpen F path flags) (fun _ k' => k'.blk.disk = k.blk.disk) k := by
  have hopen : ∀ node (k' : Kernel), k'.blk.disk = k.blk.disk →
      wlp (openNode node flags) (fun _ k'' => k''.blk.disk = k.blk.disk) k' := fun node k' hk' =>
    wlp_mono (wlp_of_wp (wp_openNode node flags k')) fun _ _ hr =>
      (congrArg BlkDev.disk hr.2).trans hk'
  simp only [vfsOpen, wlp_bind, wlp_get]
  cases hloc : locate k path with
  | none => exact (wlp_pure _ _ _).mpr rfl
  | some x =>
    obtain ⟨i, relpath⟩ := x
    simp only [wlp_bind]
    intro r k₁ hwalk
    have h₁ := walkPath_disk _ _ _ _ _ hwalk
    cases r with
    | some node => exact hopen node k₁ h₁
    | none =>
      simp only [wlp_ite, wlp_bind]
      split_ifs
      · exact (wlp_pure _ _ _).mpr h₁
      rintro ⟨parent, name⟩ k₂ hsplit
      have h₂ : k₂.blk.disk = k.blk.disk :=
        (splitParent_same (f := fun k => k.blk.disk) finddir_disk _ _ _ _ _ hsplit).trans h₁
      cases parent with
      | none => exact (wlp_pure _ _ _).mpr h₂
      | some parent =>
        simp only [wlp_ite, wlp_bind]
        split_ifs with hname
        · exact (wlp_pure _ _ _).mpr h₂
        -- the driver of the directory cannot create files
        have hnone : create parent name k₂ = some (none, k₂) := by
          have hno := h parent name k₂
          unfold create
          rw [bind_eq_some]
          refine ⟨k₂, k₂, rfl, ?_⟩
          by_cases hdir : (nodeType k₂ parent).isDirectory = true
          · rw [if_pos hdir]
            cases parent with
            | fat32 n => exact absurd ⟨i, relpath, k₁, hloc, hwalk, hsplit, hname,
                hdir, .inl rfl⟩ hno
            | ext2 n => exact absurd ⟨i, relpath, k₁, hloc, hwalk, hsplit, hname,
                hdir, .inr rfl⟩ hno
            | ntfs n => rfl
            | xfs n => rfl
          · rw [if_neg hdir]
            rfl
        intro r k₃ hr
        obtain ⟨rfl, rfl⟩ : none = r ∧ k₂ = k₃ := by simpa using hnone.symm.trans hr
        exact (wlp_pure _ _ _).mpr h₂

/-- **A failed creation leaves no trace** of itself, whether the drivers or `vfs_open` report the
failure, exactly when whatever it would change is enough for it to succeed: there is then room for
the entry, on ext2 an inode, a node of the driver's pool for the file and for `vfs_open` a
descriptor. -/
theorem failedCreation_unrecorded_iff (name : List UInt8) :
    (∀ (fs : Fat32Fs) (s : Fat32State) (dir : ℕ) (l : List ℕ),
      Fat32.MountedDir fs s dir l →
        (wp (Fat32.fat32Create dir name) (fun r s' => r = none →
            Fat32.SameRecords fs ((Fat32.fat32View fs).view s) ((Fat32.fat32View fs).view s')) s ↔
          (Fat32.Alters fs ((Fat32.fat32View fs).view s) (s.nodePool dir) l name →
            Fat32.Enters fs ((Fat32.fat32View fs).view s) (s.nodePool dir) l name ∧
              s.nodePoolUsed < maxVfsNodes))) ∧
    (∀ (fs : Ext2Fs) (p : Ext2.Plan) (s : Ext2State) (dir : ℕ) (rs : List Ext2.RecordAt),
      Ext2.MountedDir fs p s dir rs →
        (wp (Ext2.ext2Create dir name) (fun r s' => r = none →
            Ext2.SameRecords fs p ((Ext2.volView fs p).view s) ((Ext2.volView fs p).view s')) s ↔
          (Ext2.Enters fs p ((Ext2.volView fs p).view s) (s.nodePool dir) rs name ∨
              Ext2.Loses fs p ((Ext2.volView fs p).view s) (s.nodePool dir) rs name →
            Ext2.Enters fs p ((Ext2.volView fs p).view s) (s.nodePool dir) rs name ∧
              s.nodePoolUsed < Ext2.maxExt2Nodes))) ∧
    (∀ (F : RoFormats) (k k₂ : Kernel) (path : List UInt8) (flags : ℕ) (D : TargetDir),
      flags &&& oCreate ≠ 0 → ReachesCreate F k path D.node name k₂ → D.MountedIn k₂ →
        (wp (vfsOpen F path flags) (fun r k' => r < 0 → D.SameRecords k k') k ↔
          (D.Alters k₂ name → D.Delivers k₂ name ∧ DescriptorLeft k))) ∧
    ∀ (F : RoFormats) (k : Kernel) (path : List UInt8) (flags : ℕ),
      (∀ parent name k₂, ¬ReachesCreate F k path parent name k₂) →
        wlp (vfsOpen F path flags) (fun _ k' => k'.blk.disk = k.blk.disk) k := by
  refine ⟨?_, ?_, ?_, ?_⟩
  · intro fs s dir l h
    exact Fat32.create_iff h
  · intro fs p s dir rs h
    exact Ext2.create_iff h
  · intro F k k₂ path flags D hcreate hreach h
    exact D.vfsOpen_iff hcreate hreach h
  · intro F k path flags h
    exact vfsOpen_disk h

/-! ## A file too many -/

/-- The kernel with a FAT32 volume mounted at `/m` and all descriptors of the task in use, or
none. -/
def mountedKernel (active : Bool) : Kernel :=
  { treeKernel with
    mounts := fun _ => ⟨[47, 109], some (.fat32 0), true, .fat32⟩
    sched := treeKernel.sched.setTask treeKernel.sched.curTask
      { treeKernel.sched.task treeKernel.sched.curTask with
        fdTable := fun _ => ⟨some (.fat32 0), 0, 0, active⟩ } }

/-- The root directory of the volume. -/
def rootDir : TargetDir := .fat32 treeFs 0 [2]

/-- A name that is too long for FAT32. -/
def longName : List UInt8 := List.replicate 9 88

/-- An ext2 volume without a free block, whose directory is full of long names. -/
def fullDir : Ext2.OneDir where
  count := 8
  block := 7
  others := []
  dir i :=
    if i % 256 = 0 then 13
    else if i % 256 = 5 ∨ i % 256 = 7 then 1
    else if i % 256 = 6 then 248
    else if i % 256 < 8 then 0
    else UInt8.ofNat (97 + i / 256)
  file i := if i = 1 then 0x80 else if i = 26 then 4 else 0

/-- The directory of that volume with its records. -/
def fullBlocks : Ext2.DirBlocks := [(7, [0, 256, 512, 768])]

section Example

open Fat32

lemma mountedDir_of_view {k : Kernel} (hs : Sound treeFs (fat32State k))
    (hv : (fat32View treeFs).view (fat32State k) = treeVolume) :
    Fat32.MountedDir treeFs (fat32State k) 0 [2] := by
  have hnodes : (fat32State k).nodePool = treeVolume.nodes := congrArg Volume.nodes hv
  refine ⟨treeFs_layout, hs, by rw [hnodes]; rfl, ?_, by decide⟩
  rw [hv, hnodes]
  exact treeVolume_chain (by decide)

/-- `vfs_open` comes to creating the file in `/m`. -/
lemma mountedKernel_reaches (active : Bool) {name : List UInt8}
    (h : name = [88] ∨ name = longName) :
    ∃ k₂, ReachesCreate .drivers (mountedKernel active) ([47, 109, 47] ++ name)
      rootDir.node name k₂ ∧
      rootDir.MountedIn k₂ ∧ (fat32View treeFs).view (fat32State k₂) = treeVolume := by
  have hmounted := treeVolume_mounted
  have hno : lookupEntry treeFs treeVolume [treeFs.rootCluster] name = none := by
    rcases h with rfl | rfl <;> decide +kernel
  obtain ⟨r, k₁, hfind, hs, hr⟩ := wp_finddir_fat32 (F := .drivers) treeFs_layout
    hmounted.root (treeVolume_chain (by decide)) name (mountedKernel active) hmounted.sound rfl
  rw [hno] at hr
  obtain ⟨rfl, hv⟩ := hr
  have hwalk : walkPath .drivers (some (.fat32 0)) name (mountedKernel active) =
      some (none, k₁) := by
    have hcomp : components [] name = [name] := by rcases h with rfl | rfl <;> decide
    rw [walkPath, hcomp]
    change (finddir .drivers (.fat32 0) name >>= _) (mountedKernel active) = _
    rw [bind_eq_some]
    exact ⟨none, k₁, hfind, rfl⟩
  have hdir := mountedDir_of_view hs hv
  have hnodes : k₁.fat32.nodePool = treeVolume.nodes := congrArg Volume.nodes hv
  have hloc : locate (mountedKernel active) ([47, 109, 47] ++ name) = some (0, name) := by
    rcases h with rfl | rfl <;> cases active <;> decide +kernel
  have hsplit : splitParent .drivers ((mountedKernel active).mounts 0) name k₁ =
      some ((some (.fat32 0), name), k₁) := by
    rcases h with rfl | rfl <;> rfl
  refine ⟨k₁, ⟨0, name, k₁, hloc, hwalk, hsplit, ?_, ?_, .inl rfl⟩, hdir, hv⟩
  · rcases h with rfl | rfl <;> decide
  · change ((k₁.fat32.nodePool 0).type.isDirectory = true)
    rw [hnodes]
    rfl

lemma mountedDir_treeKernel : Fat32.MountedDir treeFs (fat32State treeKernel) 0 [2] :=
  mountedDir_of_view treeVolume_mounted.sound rfl

/-- There is room for `X` in the root directory, which then lists it. -/
lemma rootDir_alters : Fat32.Alters treeFs treeVolume (treeVolume.nodes 0) [2] [88] := by
  have hslot : HasFreeSlot treeFs treeVolume [2] := by decide +kernel
  exact ⟨rfl, [88, 32, 32, 32, 32, 32, 32, 32, 32, 32, 32], by decide, .inl ⟨hslot, by decide⟩⟩

/-- The long name is no name of an entry. -/
lemma longName_refused (v : Volume) (nd : Fat32Node) (l : List ℕ) :
    ¬Fat32.Enters treeFs v nd l longName ∧ ¬Fat32.Alters treeFs v nd l longName := by
  have hno : fat32Parse83 longName = none := by decide
  refine ⟨fun h => h.2.1 hno, ?_⟩
  rintro ⟨-, raw, hraw, -⟩
  rw [hno] at hraw
  cases hraw

lemma fullDir_ok : fullDir.Ok := ⟨by decide, by decide⟩

lemma fullDir_dirOn : Ext2.DirOn fullDir.fs fullDir.plan (fullDir.vol 1) 12 fullBlocks :=
  fullDir_ok.dirOn (by decide) ⟨⟨rfl, rfl, rfl, rfl, rfl⟩, by decide⟩

lemma mountedDir_fullDir : Ext2.MountedDir fullDir.fs fullDir.plan (fullDir.state 1) 0
    (Ext2.recordsOf fullDir.fs (fullDir.vol 1) fullBlocks) := by
  have hok := fullDir_ok
  have hdir := fullDir_dirOn
  have hx : Ext2.usesExtents (Ext2.inodeIn fullDir.fs fullDir.plan (fullDir.vol 1) 12) = false := by
    rw [hok.inodeIn_dir]
    exact Ext2.OneDir.usesExtents_dir
  exact ⟨hok.layout, hok.fits, hok.good 1, hok.reserved (by decide), rfl,
    ⟨hdir.inode, hdir.recordsIn hok.layout, hdir.fileBlock_phys, fun hx => (hdir.map hx).indirect,
      (hdir.map hx).file⟩⟩

lemma fullDir_taken (b : ℕ) : ¬Ext2.Available fullDir.fs (fullDir.vol 1) b := by
  have hused : ∀ b < 8, (fullDir.vol 1).used b = true := by decide
  rintro ⟨hb, hfree, -⟩
  rw [hused b hb.2] at hfree
  cases hfree

/-- There is an inode for a file called `b`, but no room for its entry. -/
lemma fullDir_full : Ext2.Creatable fullDir.fs (fullDir.vol 1) ((fullDir.state 1).nodePool 0) [98] ∧
    ¬Ext2.Accepts fullDir.fs (fullDir.vol 1)
      (Ext2.inodeIn fullDir.fs fullDir.plan (fullDir.vol 1) 12)
      (Ext2.recordsOf fullDir.fs (fullDir.vol 1) fullBlocks) [98] := by
  have hok := fullDir_ok
  refine ⟨⟨rfl, rfl, by decide, by decide, 14, by decide, by decide, by decide, by decide⟩, ?_⟩
  rintro (⟨r, hr, hspare⟩ | ⟨-, -, hmapped | ⟨⟨b, hb⟩, -⟩⟩)
  · obtain ⟨x, hx, off, hoff, rfl⟩ := Ext2.mem_recordsOf.mp hr
    obtain rfl := List.mem_singleton.mp hx
    have hbuf : Ext2.blockIn fullDir.fs (fullDir.vol 1) 7 = Bytes.clip 1024 fullDir.dir :=
      hok.blockIn_dir (by decide)
    rw [hbuf] at hspare
    have hno : ∀ off ∈ [0, 256, 512, 768],
        ¬Ext2.Spare (Ext2.align4 (8 + 1)) ⟨7, off, Bytes.clip 1024 fullDir.dir⟩ := by decide
    exact hno off hoff hspare
  · refine hmapped ?_
    rw [hok.inodeIn_dir]
    decide
  · exact fullDir_taken b hb

/-- Three calls that fail and change nothing, and a path that leads to no mount. -/
theorem failedCreation_unrecorded_iff_small :
    (∃ k₂, ReachesCreate .drivers (mountedKernel false) ([47, 109, 47] ++ longName) rootDir.node
      longName k₂ ∧ rootDir.MountedIn k₂ ∧
      wp (vfsOpen .drivers ([47, 109, 47] ++ longName) oCreate)
        (fun r k' => r < 0 ∧ rootDir.SameRecords (mountedKernel false) k') (mountedKernel false)) ∧
    wp (fat32Create 0 longName) (fun r s' => r = none ∧ Fat32.SameRecords treeFs
      ((fat32View treeFs).view (fat32State treeKernel)) ((fat32View treeFs).view s'))
      (fat32State treeKernel) ∧
    wp (Ext2.ext2Create 0 [98]) (fun r s' => r = none ∧
      Ext2.SameRecords fullDir.fs fullDir.plan (fullDir.vol 1)
        ((Ext2.volView fullDir.fs fullDir.plan).view s')) (fullDir.state 1) ∧
    wlp (vfsOpen .drivers [88] oCreate)
      (fun _ k' => k'.blk.disk = (bootKernel treeDisk).blk.disk) (bootKernel treeDisk) := by
  obtain ⟨hfat, -, hopen, hnone⟩ := failedCreation_unrecorded_iff longName
  obtain ⟨-, hext2, -, -⟩ := failedCreation_unrecorded_iff [98]
  obtain ⟨k₂, hreach, hm, -⟩ := mountedKernel_reaches false (.inr rfl)
  refine ⟨⟨k₂, hreach, hm, ?_⟩, ?_, ?_, ?_⟩
  · have hsame := (hopen _ _ _ _ oCreate rootDir (by decide) hreach hm).mpr fun ha =>
      absurd ha (longName_refused _ _ _).2
    have hneg := @TargetDir.vfsOpen_neg _ _ _ _ longName oCreate rootDir (by decide) hreach hm
      fun hd => (longName_refused _ _ _).1 hd.1
    exact wp_mono (wp_and_wlp hsame hneg) fun r k' h => ⟨h.2, h.1 h.2⟩
  · have hsame := (hfat _ _ _ _ mountedDir_treeKernel).mpr fun ha =>
      absurd ha (longName_refused _ _ _).2
    have hfail := Fat32.create_none mountedDir_treeKernel (longName_refused _ _ _).1
    exact wp_mono (wp_and_wlp hsame hfail) fun r s' h => ⟨h.2, h.1 h.2⟩
  · have hno := fullDir_full.2
    have hsame := (hext2 _ _ _ _ _ mountedDir_fullDir).mpr fun hentry => by
      rcases hentry with h | h
      · exact absurd h.2 hno
      · obtain ⟨-, -, -, b, hb, -⟩ := h.2.2.2
        exact absurd hb (fullDir_taken b)
    have hfail := Ext2.create_none mountedDir_fullDir fun h => hno h.2
    exact wp_mono (wp_and_wlp hsame hfail) fun r s' h => ⟨h.2, h.1 h.2⟩
  · refine hnone _ _ _ _ ?_
    rintro parent name k₂ ⟨i, relpath, k₁, hloc, -⟩
    have hno : locate (bootKernel treeDisk) [88] = none := by decide
    rw [hno] at hloc
    cases hloc

/-- With all descriptors in use, `vfs_open` fails and leaves the new file behind. -/
theorem not_failedCreation_unrecorded : ¬ ∀ (F : RoFormats) (k k₂ : Kernel) (path name : List UInt8)
    (flags : ℕ) (D : TargetDir), flags &&& oCreate ≠ 0 → ReachesCreate F k path D.node name k₂ →
    D.MountedIn k₂ → wp (vfsOpen F path flags) (fun r k' => r < 0 → D.SameRecords k k') k := by
  intro h
  obtain ⟨k₂, hreach, hm, hv⟩ := mountedKernel_reaches true (.inl rfl)
  have hnodes : k₂.fat32.nodePool = treeVolume.nodes := congrArg Volume.nodes hv
  have hsame := h _ _ _ _ _ oCreate rootDir (by decide) hreach hm
  rw [rootDir.vfsOpen_iff (by decide) hreach hm] at hsame
  obtain ⟨-, f, -, hfree⟩ := hsame <| by
    change Fat32.Alters treeFs ((fat32View treeFs).view (fat32State k₂))
      (k₂.fat32.nodePool 0) [2] [88]
    rw [hv, hnodes]
    exact rootDir_alters
  cases hfree

end Example

end Vfs

end CoolFrost
