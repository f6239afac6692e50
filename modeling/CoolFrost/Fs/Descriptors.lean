import CoolFrost.Lib.Search
import CoolFrost.Fs.Links
import CoolFrost.Fs.Vfs
import CoolFrost.Cpu.SchedTables

/-!
# Open files and mounts

Every open file belongs to a mounted volume: following the parents of its node leads to the root of
an active mount.  The invariant `Inv` says this of all tables of open files, together with what it
rests on, and every call of the virtual file system and of the scheduler keeps it.
-/

namespace CoolFrost

open Program NodeLinks

namespace Vfs

/-- The nodes of all drivers with their parent links. -/
def forest (k : Kernel) : Forest VNode where
  parent := nodeParent k
  live
    | .fat32 i => i < k.fat32.nodePoolUsed
    | .ext2 i => i < k.ext2.nodePoolUsed
    | .ntfs i => i < k.ntfs.nodePoolUsed
    | .xfs i => i < k.xfs.nodePoolUsed

/-- In every pool, parents come before their children. -/
structure Closed (k : Kernel) : Prop where
  fat32 : k.fat32.links.Closed
  ext2 : k.ext2.links.Closed
  ntfs : k.ntfs.links.Closed
  xfs : k.xfs.links.Closed

/-- Then no node of the forest has a parent that is not in use. -/
lemma Closed.forest {k : Kernel} (h : Closed k) : (forest k).Closed := by
  intro v p hv hp
  cases v with
  | fat32 i =>
    obtain ⟨j, hj, rfl⟩ := Option.map_eq_some_iff.mp hp
    exact (h.fat32 i hv j hj).trans hv
  | ext2 i =>
    obtain ⟨j, hj, rfl⟩ := Option.map_eq_some_iff.mp hp
    exact (h.ext2 i hv j hj).trans hv
  | ntfs i =>
    obtain ⟨j, hj, rfl⟩ := Option.map_eq_some_iff.mp hp
    exact (h.ntfs i hv j hj).trans hv
  | xfs i =>
    obtain ⟨j, hj, rfl⟩ := Option.map_eq_some_iff.mp hp
    exact (h.xfs i hv j hj).trans hv

/-- What the work of a driver does to the rest: only nodes are added. -/
structure Extends (k k' : Kernel) : Prop where
  mounts : k'.mounts = k.mounts
  sched : k'.sched = k.sched
  forest : (forest k).Extends (forest k')
  closed : Closed k → Closed k'

lemma Extends.refl (k : Kernel) : Extends k k := ⟨rfl, rfl, .refl _, id⟩

lemma Extends.trans {k k' k'' : Kernel} (h : Extends k k') (h' : Extends k' k'') :
    Extends k k'' where
  mounts := h'.mounts.trans h.mounts
  sched := h'.sched.trans h.sched
  forest := h.forest.trans h'.forest
  closed hc := h'.closed (h.closed hc)

/-! ## Entering a driver -/

section Drivers

variable {α : Type} {k : Kernel}

/-- A call of the FAT32 driver only adds nodes.  In each of these lemmas the pool of the driver
grows, and the three others are as before. -/
lemma wlp_inFat32 {m : Program Fat32State α} {Q : α → Fat32State → Prop}
    (hm : Built (Fat32.Step k.fat32.links.InUse) m) (hQ : wlp m Q { k.fat32 with blk := k.blk }) :
    wlp (inFat32 m) (fun r k' => Extends k k' ∧ Q r k'.fat32) k := by
  rw [inFat32, wlp_zoom]
  refine wlp_mono (wlp_and (Fat32.built_links hm _) hQ) fun r s ⟨hs, hr⟩ => ⟨?_, hr⟩
  refine ⟨rfl, rfl, fun v hv => ?_, fun hc => ⟨hc.fat32.of_grows hs, hc.ext2, hc.ntfs, hc.xfs⟩⟩
  cases v with
  | fat32 i =>
    refine ⟨lt_of_lt_of_le hv hs.used_le, ?_⟩
    exact congrArg (Option.map VNode.fat32) (hs.parent_eq i hv)
  | ext2 i => exact ⟨hv, rfl⟩
  | ntfs i => exact ⟨hv, rfl⟩
  | xfs i => exact ⟨hv, rfl⟩

lemma wlp_inExt2 {m : Program Ext2State α} {Q : α → Ext2State → Prop}
    (hm : Built (Ext2.Step k.ext2.links.InUse) m) (hQ : wlp m Q { k.ext2 with blk := k.blk }) :
    wlp (inExt2 m) (fun r k' => Extends k k' ∧ Q r k'.ext2) k := by
  rw [inExt2, wlp_zoom]
  refine wlp_mono (wlp_and (Ext2.built_links hm _) hQ) fun r s ⟨hs, hr⟩ => ⟨?_, hr⟩
  refine ⟨rfl, rfl, fun v hv => ?_, fun hc => ⟨hc.fat32, hc.ext2.of_grows hs, hc.ntfs, hc.xfs⟩⟩
  cases v with
  | fat32 i => exact ⟨hv, rfl⟩
  | ext2 i =>
    refine ⟨lt_of_lt_of_le hv hs.used_le, ?_⟩
    exact congrArg (Option.map VNode.ext2) (hs.parent_eq i hv)
  | ntfs i => exact ⟨hv, rfl⟩
  | xfs i => exact ⟨hv, rfl⟩

/-- The drivers that only read are known by what they do to the links of their nodes. -/
lemma wlp_inNtfs {m : Program RoState α} {Q : α → RoState → Prop}
    (hm : wlp m (fun r s' => Grows k.ntfs.links.InUse k.ntfs.links s'.links ∧ Q r s')
      { k.ntfs with blk := k.blk }) :
    wlp (inNtfs m) (fun r k' => Extends k k' ∧ Q r k'.ntfs) k := by
  rw [inNtfs, wlp_zoom]
  refine wlp_mono hm fun r s ⟨hs, hr⟩ => ⟨?_, hr⟩
  refine ⟨rfl, rfl, fun v hv => ?_, fun hc => ⟨hc.fat32, hc.ext2, hc.ntfs.of_grows hs, hc.xfs⟩⟩
  cases v with
  | fat32 i => exact ⟨hv, rfl⟩
  | ext2 i => exact ⟨hv, rfl⟩
  | ntfs i =>
    refine ⟨lt_of_lt_of_le hv hs.used_le, ?_⟩
    exact congrArg (Option.map VNode.ntfs) (hs.parent_eq i hv)
  | xfs i => exact ⟨hv, rfl⟩

lemma wlp_inXfs {m : Program RoState α} {Q : α → RoState → Prop}
    (hm : wlp m (fun r s' => Grows k.xfs.links.InUse k.xfs.links s'.links ∧ Q r s')
      { k.xfs with blk := k.blk }) :
    wlp (inXfs m) (fun r k' => Extends k k' ∧ Q r k'.xfs) k := by
  rw [inXfs, wlp_zoom]
  refine wlp_mono hm fun r s ⟨hs, hr⟩ => ⟨?_, hr⟩
  refine ⟨rfl, rfl, fun v hv => ?_, fun hc => ⟨hc.fat32, hc.ext2, hc.ntfs, hc.xfs.of_grows hs⟩⟩
  cases v with
  | fat32 i => exact ⟨hv, rfl⟩
  | ext2 i => exact ⟨hv, rfl⟩
  | ntfs i => exact ⟨hv, rfl⟩
  | xfs i =>
    refine ⟨lt_of_lt_of_le hv hs.used_le, ?_⟩
    exact congrArg (Option.map VNode.xfs) (hs.parent_eq i hv)

/-- A call of the FAT32 driver whose result does not matter here. -/
lemma extends_inFat32 {m : Program Fat32State α}
    (h : Built (Fat32.Step k.fat32.links.InUse) m) : wlp (inFat32 m) (fun _ k' => Extends k k') k :=
  wlp_mono (wlp_inFat32 (Q := fun _ _ => True) h fun _ _ _ => trivial) fun _ _ h => h.1

/-- A call of the ext2 driver whose result does not matter here. -/
lemma extends_inExt2 {m : Program Ext2State α}
    (h : Built (Ext2.Step k.ext2.links.InUse) m) : wlp (inExt2 m) (fun _ k' => Extends k k') k :=
  wlp_mono (wlp_inExt2 (Q := fun _ _ => True) h fun _ _ _ => trivial) fun _ _ h => h.1

/-- What a driver's lookup and creation of files give: a node in use whose parent is the
directory. -/
def ChildOf (node : VNode) (r : Option VNode) (k : Kernel) : Prop :=
  ∀ v, r = some v → (forest k).live v ∧ (forest k).parent v = some node

/-- What a lookup finds is a child of the directory. -/
lemma finddir_extends (F : RoFormats) {node : VNode} (hlive : (forest k).live node)
    (name : List UInt8) :
    wlp (finddir F node name) (fun r k' => Extends k k' ∧ ChildOf node r k') k := by
  simp only [finddir, wlp_bind, wlp_get, wlp_ite]
  split
  · cases node with
    | fat32 i =>
      rw [wlp_map]
      refine wlp_mono (wlp_inFat32 (Fat32.fat32Finddir_built i name ?_)
        (Fat32.fat32Finddir_links i name _)) fun r k' h => ⟨h.1, fun v hv => ?_⟩
      · rintro j ⟨⟩
        exact hlive
      · obtain ⟨j, rfl, rfl⟩ := Option.map_eq_some_iff.mp hv
        exact ⟨(h.2 j rfl).1, congrArg (Option.map VNode.fat32) (h.2 j rfl).2⟩
    | ext2 i =>
      rw [wlp_map]
      refine wlp_mono (wlp_inExt2 (Ext2.built_of_lookup (Ext2.ext2Finddir_built i name ?_))
        (Ext2.ext2Finddir_links i name _)) fun r k' h => ⟨h.1, fun v hv => ?_⟩
      · rintro j ⟨⟩
        exact hlive
      · obtain ⟨j, rfl, rfl⟩ := Option.map_eq_some_iff.mp hv
        exact ⟨(h.2 j rfl).1, congrArg (Option.map VNode.ext2) (h.2 j rfl).2⟩
    | ntfs i =>
      rw [wlp_map]
      refine wlp_mono (wlp_inNtfs (RoFs.finddir_links F.ntfs i name ?_ _))
        fun r k' h => ⟨h.1, fun v hv => ?_⟩
      · rintro j ⟨⟩
        exact hlive
      · obtain ⟨j, rfl, rfl⟩ := Option.map_eq_some_iff.mp hv
        exact ⟨(h.2 j rfl).1, congrArg (Option.map VNode.ntfs) (h.2 j rfl).2⟩
    | xfs i =>
      rw [wlp_map]
      refine wlp_mono (wlp_inXfs (RoFs.finddir_links F.xfs i name ?_ _))
        fun r k' h => ⟨h.1, fun v hv => ?_⟩
      · rintro j ⟨⟩
        exact hlive
      · obtain ⟨j, rfl, rfl⟩ := Option.map_eq_some_iff.mp hv
        exact ⟨(h.2 j rfl).1, congrArg (Option.map VNode.xfs) (h.2 j rfl).2⟩
  · rw [wlp_pure]
    exact ⟨.refl k, by rintro v ⟨⟩⟩

/-- What is created is a child of the directory; the drivers that only read create nothing. -/
lemma create_extends {node : VNode} (hlive : (forest k).live node) (name : List UInt8) :
    wlp (create node name) (fun r k' => Extends k k' ∧ ChildOf node r k') k := by
  simp only [create, wlp_bind, wlp_get, wlp_ite]
  have hnone : Extends k k ∧ ChildOf node none k := ⟨.refl k, by rintro v ⟨⟩⟩
  split
  · cases node with
    | fat32 i =>
      rw [wlp_map]
      refine wlp_mono (wlp_inFat32 (Fat32.fat32Create_built i name ?_)
        (Fat32.fat32Create_links i name _)) fun r k' h => ⟨h.1, fun v hv => ?_⟩
      · rintro j ⟨⟩
        exact hlive
      · obtain ⟨j, rfl, rfl⟩ := Option.map_eq_some_iff.mp hv
        exact ⟨(h.2 j rfl).1, congrArg (Option.map VNode.fat32) (h.2 j rfl).2⟩
    | ext2 i =>
      rw [wlp_map]
      refine wlp_mono (wlp_inExt2 (Ext2.ext2Create_built i name ?_)
        (Ext2.ext2Create_links i name _)) fun r k' h => ⟨h.1, fun v hv => ?_⟩
      · rintro j ⟨⟩
        exact hlive
      · obtain ⟨j, rfl, rfl⟩ := Option.map_eq_some_iff.mp hv
        exact ⟨(h.2 j rfl).1, congrArg (Option.map VNode.ext2) (h.2 j rfl).2⟩
    | ntfs i => exact (wlp_pure _ _ _).mpr hnone
    | xfs i => exact (wlp_pure _ _ _).mpr hnone
  · exact (wlp_pure _ _ _).mpr hnone

lemma readNode_extends (F : RoFormats) (node : VNode) (offset size : ℕ) (buf : Bytes) :
    wlp (readNode F node offset size buf) (fun _ k' => Extends k k') k := by
  simp only [readNode, wlp_bind, wlp_get, wlp_ite]
  split
  · cases node with
    | fat32 i => exact extends_inFat32 (Fat32.built_of_reading (Fat32.fat32Read_built _ _ _ _))
    | ext2 i => exact extends_inExt2 (Ext2.built_of_reading (Ext2.ext2Read_built _ _ _ _))
    | ntfs i =>
      refine wlp_mono (wlp_inNtfs (Q := fun _ _ => True) ?_) fun _ _ h => h.1
      exact wlp_mono (RoFs.read_links F.ntfs _ _ _ _ _) fun _ _ h => ⟨h, trivial⟩
    | xfs i =>
      refine wlp_mono (wlp_inXfs (Q := fun _ _ => True) ?_) fun _ _ h => h.1
      exact wlp_mono (RoFs.read_links F.xfs _ _ _ _ _) fun _ _ h => ⟨h, trivial⟩
  · exact (wlp_pure _ _ _).mpr (.refl k)

lemma writeNode_extends (node : VNode) (offset size : ℕ) (buf : Bytes) :
    wlp (writeNode node offset size buf) (fun _ k' => Extends k k') k := by
  simp only [writeNode, wlp_bind, wlp_get, wlp_ite]
  split
  · cases node with
    | fat32 i => exact extends_inFat32 (Fat32.fat32Write_built _ _ _ _)
    | ext2 i => exact extends_inExt2 (Ext2.ext2Write_built _ _ _ _)
    | ntfs i => exact (wlp_pure _ _ _).mpr (.refl k)
    | xfs i => exact (wlp_pure _ _ _).mpr (.refl k)
  · exact (wlp_pure _ _ _).mpr (.refl k)

end Drivers

/-! ## Paths -/

/-- A node in use from which the parents lead to `r`. -/
def Under (k : Kernel) (r v : VNode) : Prop := (forest k).live v ∧ (forest k).Leads v r

/-- A node stays under a root when nodes are added. -/
lemma Under.extends {k k' : Kernel} {r v : VNode} (h : Under k r v) (hc : Closed k)
    (he : Extends k k') : Under k' r v :=
  ⟨(he.forest v h.1).1, (he.forest.leads hc.forest h.1).mpr h.2⟩

/-- A walk stays under the root that it started under; the induction is on the names that are
left. -/
lemma walkComponents_extends (F : RoFormats) {k : Kernel} (hc : Closed k) {r node : VNode}
    (hu : Under k r node) (names : List (List UInt8)) :
    wlp (walkComponents F names node)
      (fun res k' => Extends k k' ∧ ∀ v, res = some v → Under k' r v) k := by
  induction names generalizing k node with
  | nil =>
    refine (wlp_pure _ _ _).mpr ⟨.refl k, ?_⟩
    rintro v ⟨⟩
    exact hu
  | cons name rest ih =>
    rw [walkComponents, wlp_bind]
    refine wlp_mono (finddir_extends F hu.1 name) fun res k₁ ⟨he, hchild⟩ => ?_
    cases res with
    | none => exact (wlp_pure _ _ _).mpr ⟨he, by rintro v ⟨⟩⟩
    | some child =>
      obtain ⟨hlive, hparent⟩ := hchild child rfl
      have hu' : Under k₁ r child :=
        ⟨hlive, Relation.ReflTransGen.head hparent (hu.extends hc he).2⟩
      refine wlp_mono (ih (he.closed hc) hu') fun _ k' h => ⟨he.trans h.1, h.2⟩

/-- A path leads to a node under the root of its mount. -/
lemma walkPath_extends (F : RoFormats) {k : Kernel} (hc : Closed k) {root : Option VNode}
    (hroot : ∀ r, root = some r → (forest k).live r) (relpath : List UInt8) :
    wlp (walkPath F root relpath)
      (fun res k' => Extends k k' ∧ ∀ v, res = some v → ∃ r, root = some r ∧ Under k' r v) k := by
  cases root with
  | none => exact (wlp_pure _ _ _).mpr ⟨.refl k, by rintro v ⟨⟩⟩
  | some r =>
    refine wlp_mono (walkComponents_extends F hc ⟨hroot r rfl, Relation.ReflTransGen.refl⟩ _)
      fun _ _ h => ⟨h.1, fun v hv => ⟨r, rfl, h.2 v hv⟩⟩

/-- A lookup changes nothing but the drivers. -/
lemma finddir_sched {F : RoFormats} (node : VNode) (name : List UInt8) (k : Kernel) :
    wlp (finddir F node name) (fun _ k' => k'.sched = k.sched) k := by
  simp only [finddir, wlp_bind, wlp_get]
  refine wlp_ite_intro (fun _ => ?_) fun _ => (wlp_pure _ _ _).mpr rfl
  cases node <;> exact (wlp_map _ _ _ _).mpr ((wlp_zoom _ _ _ _ _).mpr fun _ _ _ => rfl)

/-- What every lookup leaves alone, the walk along a path does. -/
lemma walkPath_same {F : RoFormats} {α : Type} {f : Kernel → α}
    (hstep : ∀ node name k, wlp (finddir F node name) (fun _ k' => f k' = f k) k)
    (root : Option VNode) (relpath : List UInt8) (k : Kernel) :
    wlp (walkPath F root relpath) (fun _ k' => f k' = f k) k := by
  cases root with
  | none => exact (wlp_pure _ _ _).mpr rfl
  | some node =>
    rw [walkPath]
    generalize components [] relpath = names
    induction names generalizing node k with
    | nil => exact (wlp_pure _ _ _).mpr rfl
    | cons name rest ih =>
      rw [walkComponents, wlp_bind]
      refine wlp_mono (hstep node name k) fun r k' h => ?_
      cases r with
      | none => exact (wlp_pure _ _ _).mpr h
      | some child => exact wlp_mono (ih k' child) fun _ _ h' => h'.trans h

lemma walkPath_sched {F : RoFormats} (root : Option VNode) (relpath : List UInt8) (k : Kernel) :
    wlp (walkPath F root relpath) (fun _ k' => k'.sched = k.sched) k :=
  walkPath_same finddir_sched root relpath k

/-- The parent of a path is under the root of its mount too. -/
lemma splitParent_extends (F : RoFormats) {k : Kernel} (hc : Closed k) {m : MountPoint}
    (hroot : ∀ r, m.root = some r → (forest k).live r) (relpath : List UInt8) :
    wlp (splitParent F m relpath)
      (fun res k' => Extends k k' ∧ ∀ v, res.1 = some v → ∃ r, m.root = some r ∧ Under k' r v)
      k := by
  unfold splitParent
  split
  · refine (wlp_pure _ _ _).mpr ⟨.refl k, fun v hv => ⟨v, hv, hroot v hv, ?_⟩⟩
    exact Relation.ReflTransGen.refl
  · simp only [wlp_ite, wlp_pure, wlp_bind]
    split
    · exact ⟨.refl k, by rintro v ⟨⟩⟩
    · exact walkPath_extends F hc hroot _

lemma firstMount_spec {k : Kernel} {i : ℕ} (h : firstMount k = some i) :
    i < maxMounts ∧ (k.mounts i).active = true :=
  ⟨List.mem_range.mp (List.mem_of_find?_eq_some h), by simpa using List.find?_some h⟩

/-- The search of `find_mount` keeps the covering mount with the longest path. -/
lemma findMount_eq (k : Kernel) (path : List UInt8) : ∃ best : Option ℕ × ℕ,
    BestOf (fun i => covers path (k.mounts i)) (fun i => (k.mounts i).path.length)
      (List.range maxMounts) best ∧
    findMount k path = best.1.map fun i =>
      (i, let r := path.drop best.2; if r.head? = some slash then r.tail else r) :=
  ⟨_, foldl_keepBest _ _ _, rfl⟩

lemma findMount_spec {k : Kernel} {path rest : List UInt8} {i : ℕ}
    (h : findMount k path = some (i, rest)) : i < maxMounts ∧ (k.mounts i).active = true := by
  obtain ⟨best, hbest, heq⟩ := findMount_eq k path
  obtain ⟨j, hj, hij⟩ := Option.map_eq_some_iff.mp (heq.symm.trans h)
  cases hij
  obtain ⟨hmem, hcov, -⟩ := hbest.mem i hj
  simp only [covers, Bool.and_eq_true] at hcov
  exact ⟨List.mem_range.mp hmem, hcov.1.1⟩

lemma locate_spec {k : Kernel} {path rest : List UInt8} {i : ℕ}
    (h : locate k path = some (i, rest)) : i < maxMounts ∧ (k.mounts i).active = true := by
  unfold locate at h
  split at h
  · exact findMount_spec h
  · obtain ⟨j, hj, hij⟩ := Option.map_eq_some_iff.mp h
    cases hij
    exact firstMount_spec hj

/-! ## The invariant -/

/-- A node from which the parents lead to the root of an active mount. -/
def OnMount (k : Kernel) (n : Option VNode) : Prop :=
  ∃ v i r, n = some v ∧ i < maxMounts ∧ (k.mounts i).active = true ∧ (k.mounts i).root = some r ∧
    Under k r v

/-- The invariant of the tables of open files and the mount table. -/
structure Inv (k : Kernel) : Prop where
  closed : Closed k
  sched : k.sched.Ok
  roots : ∀ i < maxMounts, (k.mounts i).active = true → ∃ r, (k.mounts i).root = some r ∧
    (forest k).live r ∧ (forest k).parent r = none
  inj : ∀ i < maxMounts, ∀ j < maxMounts, (k.mounts i).active = true → (k.mounts j).active = true →
    (k.mounts i).root = (k.mounts j).root → i = j
  fds : ∀ t f, (fdTable k t f).active = true → f < maxFd ∧ OnMount k (fdTable k t f).node

lemma Inv.extends {k k' : Kernel} (h : Inv k) (he : Extends k k') : Inv k' where
  closed := he.closed h.closed
  sched := he.sched ▸ h.sched
  roots i hi ha := by
    rw [he.mounts] at ha ⊢
    obtain ⟨r, hr, hlive, hparent⟩ := h.roots i hi ha
    exact ⟨r, hr, (he.forest r hlive).1, (he.forest r hlive).2.trans hparent⟩
  inj := by
    rw [he.mounts]
    exact h.inj
  fds t f ha := by
    have htable : fdTable k' t f = fdTable k t f := by rw [fdTable, he.sched]; rfl
    rw [htable] at ha ⊢
    obtain ⟨hf, v, i, r, hv, hi, hact, hr, hu⟩ := h.fds t f ha
    exact ⟨hf, v, i, r, hv, hi, he.mounts ▸ hact, he.mounts ▸ hr, hu.extends h.closed he⟩

lemma Inv.root_live {k : Kernel} (h : Inv k) {i : ℕ} (hi : i < maxMounts)
    (ha : (k.mounts i).active = true) : ∀ r, (k.mounts i).root = some r → (forest k).live r := by
  intro r hr
  obtain ⟨r', hr', hlive, -⟩ := h.roots i hi ha
  rw [hr] at hr'
  cases hr'
  exact hlive

/-- A step of the scheduler keeps the invariant. -/
lemma Inv.sched_steps {k : Kernel} (h : Inv k) {s : Sched} (hs : k.sched.Steps s) :
    Inv { k with sched := s } where
  closed := ⟨h.closed.fat32, h.closed.ext2, h.closed.ntfs, h.closed.xfs⟩
  sched := hs.1 h.sched
  roots := h.roots
  inj := h.inj
  fds t f ha := by
    rcases hs.2 t with heq | heq
    · have htable : fdTable { k with sched := s } t f = fdTable k t f := congrFun heq f
      rw [htable] at ha ⊢
      exact h.fds t f ha
    · have htable : fdTable { k with sched := s } t f = .closed := congrFun heq f
      rw [htable] at ha
      simp [FileDescriptor.closed] at ha

/-! ## Changing a table of open files -/

/-- The state after `setFd`. -/
def withFd (k : Kernel) (t : Option ℕ) (f : ℕ) (new : FileDescriptor) : Kernel :=
  let task := { k.sched.task t with fdTable := Function.update (fdTable k t) f new }
  { k with sched := k.sched.setTask t task }

lemma fdTable_withFd_self (k : Kernel) (t : Option ℕ) (f : ℕ) (new : FileDescriptor) :
    fdTable (withFd k t f new) t f = new := by
  cases t <;> simp [fdTable, withFd, Sched.setTask, Sched.task]

lemma fdTable_withFd_ne (k : Kernel) (t : Option ℕ) (f : ℕ) (new : FileDescriptor) {u : Option ℕ}
    {g : ℕ} (h : ¬ (u = t ∧ g = f)) : fdTable (withFd k t f new) u g = fdTable k u g := by
  by_cases hu : u = t
  · subst hu
    have hg : g ≠ f := fun hg => h ⟨rfl, hg⟩
    cases u <;> simp [fdTable, withFd, Sched.setTask, Sched.task, Function.update_of_ne hg]
  · cases t with
    | none =>
      cases u with
      | none => exact absurd rfl hu
      | some j => rfl
    | some i =>
      cases u with
      | none => rfl
      | some j =>
        have hj : j ≠ i := fun hj => hu (by rw [hj])
        simp [fdTable, withFd, Sched.setTask, Sched.task, Function.update_of_ne hj]

/-- A task pointer to a slot in use. -/
def InPool (k : Kernel) (t : Option ℕ) : Prop := ∀ i, t = some i → i < k.sched.taskCount

lemma withFd_ok {k : Kernel} (h : k.sched.Ok) {t : Option ℕ} (ht : InPool k t) (f : ℕ)
    (new : FileDescriptor) : (withFd k t f new).sched.Ok where
  cur i hi := by
    cases t <;> exact h.cur i hi
  queue p i hi := by
    cases t <;> exact h.queue p i hi
  dormant i hi := by
    have hi' : k.sched.taskCount ≤ i := by cases t <;> exact hi
    have hne : some i ≠ t := fun heq => absurd (ht i heq.symm) (not_lt.mpr hi')
    rw [← h.dormant i hi']
    funext g
    exact fdTable_withFd_ne k t f new fun hh => hne hh.1

/-- Changing a descriptor keeps the invariant, if it is inactive or its node is on a mount. -/
lemma Inv.withFd {k : Kernel} (h : Inv k) {t : Option ℕ} (ht : InPool k t) {f : ℕ}
    {new : FileDescriptor} (hnew : new.active = true → f < maxFd ∧ OnMount k new.node) :
    Inv (withFd k t f new) where
  closed := ⟨h.closed.fat32, h.closed.ext2, h.closed.ntfs, h.closed.xfs⟩
  sched := withFd_ok h.sched ht f new
  roots := h.roots
  inj := h.inj
  fds u g ha := by
    by_cases hug : u = t ∧ g = f
    · obtain ⟨rfl, rfl⟩ := hug
      rw [fdTable_withFd_self] at ha ⊢
      exact hnew ha
    · rw [fdTable_withFd_ne _ _ _ _ hug] at ha ⊢
      exact h.fds u g ha

lemma wlp_setFd (t : Option ℕ) (f : ℕ) (new : FileDescriptor) (Q : PUnit → Kernel → Prop)
    (k : Kernel) : wlp (setFd t f new) Q k ↔ Q PUnit.unit (Vfs.withFd k t f new) :=
  wlp_modify _ Q k

lemma Inv.curTask_inPool {k : Kernel} (h : Inv k) : InPool k k.sched.curTask := h.sched.cur

lemma openFd_spec {k : Kernel} {fd : ℤ} {d : FileDescriptor} (h : openFd k fd = some d) :
    fdTable k k.sched.curTask fd.toNat = d ∧ d.active = true := by
  unfold openFd at h
  split at h
  · dsimp only at h
    split at h
    · rename_i ha
      cases h
      exact ⟨rfl, ha⟩
    · simp at h
  · simp at h

/-- Changing the offset of an open descriptor. -/
lemma inv_moveOffset {k : Kernel} (h : Inv k) (f offset : ℕ) :
    Inv (Vfs.withFd k k.sched.curTask f { fdTable k k.sched.curTask f with offset := offset }) :=
  h.withFd h.curTask_inPool fun ha => h.fds _ _ ha

/-! ## The calls -/

section Calls

variable (F : RoFormats) {k : Kernel}

lemma openNode_inv (h : Inv k) {node : VNode} (hnode : OnMount k (some node)) (flags : ℕ) :
    wlp (openNode node flags) (fun _ k' => Inv k') k := by
  simp only [openNode, wlp_bind, wlp_get]
  split
  · exact (wlp_pure _ _ _).mpr h
  · rename_i f hf
    simp only [wlp_bind, wlp_setFd, wlp_pure]
    refine h.withFd h.curTask_inPool fun _ => ⟨?_, hnode⟩
    exact List.mem_range.mp (List.mem_of_find?_eq_some hf)

lemma vfsOpen_inv (h : Inv k) (path : List UInt8) (flags : ℕ) :
    wlp (vfsOpen F path flags) (fun _ k' => Inv k') k := by
  simp only [vfsOpen, wlp_bind, wlp_get]
  split
  · exact (wlp_pure _ _ _).mpr h
  · rename_i i relpath hloc
    obtain ⟨hi, hact⟩ := locate_spec hloc
    have hmount : ∀ {k' : Kernel} {r v : VNode}, Extends k k' → (k.mounts i).root = some r →
        Under k' r v → OnMount k' (some v) := by
      intro k' r v he hr hu
      exact ⟨v, i, r, rfl, hi, he.mounts ▸ hact, he.mounts ▸ hr, hu⟩
    rw [wlp_bind]
    refine wlp_mono (walkPath_extends F h.closed (h.root_live hi hact) relpath)
      fun res k₁ hpost => ?_
    obtain ⟨he, hres⟩ := hpost
    cases res with
    | some node =>
      obtain ⟨r, hr, hu⟩ := hres node rfl
      exact openNode_inv (h.extends he) (hmount he hr hu) flags
    | none =>
      simp only [wlp_ite, wlp_pure, wlp_bind]
      split
      · exact h.extends he
      · have hroot : ∀ r, (k.mounts i).root = some r → (forest k₁).live r :=
          fun r hr => (he.forest r (h.root_live hi hact r hr)).1
        refine wlp_mono (splitParent_extends F (he.closed h.closed) hroot relpath)
          fun res k₂ hpost => ?_
        obtain ⟨he', hres'⟩ := hpost
        obtain ⟨parent, name⟩ := res
        cases parent with
        | none => exact (wlp_pure _ _ _).mpr ((h.extends he).extends he')
        | some parent =>
          simp only [wlp_ite, wlp_pure, wlp_bind]
          split
          · exact (h.extends he).extends he'
          · obtain ⟨r, hr, hu⟩ := hres' parent rfl
            refine wlp_mono (create_extends hu.1 name) fun res k₃ hpost => ?_
            obtain ⟨he'', hchild⟩ := hpost
            have hext := (he.trans he').trans he''
            cases res with
            | none => exact (wlp_pure _ _ _).mpr (h.extends hext)
            | some node =>
              obtain ⟨hlive, hparent⟩ := hchild node rfl
              have hu' : Under k₃ r node :=
                ⟨hlive, Relation.ReflTransGen.head hparent
                  (hu.extends ((he.trans he').closed h.closed) he'').2⟩
              exact openNode_inv (h.extends hext) (hmount hext hr hu') flags

lemma vfsClose_inv (h : Inv k) (fd : ℤ) : wlp (vfsClose fd) (fun _ k' => Inv k') k := by
  simp only [vfsClose, wlp_bind, wlp_get]
  split
  · exact (wlp_pure _ _ _).mpr h
  · simp only [wlp_bind, wlp_setFd, wlp_pure]
    exact h.withFd h.curTask_inPool (by simp)

lemma advance_inv (h : Inv k) (fd n : ℤ) : wlp (advance fd n) (fun _ k' => Inv k') k := by
  simp only [advance, wlp_bind, wlp_get, wlp_ite, wlp_setFd, wlp_pure]
  split
  · exact inv_moveOffset h _ _
  · exact h

lemma vfsRead_inv (h : Inv k) (fd : ℤ) (buf : Bytes) (size : ℕ) :
    wlp (vfsRead F fd buf size) (fun _ k' => Inv k') k := by
  simp only [vfsRead, wlp_bind, wlp_get]
  split
  · exact (wlp_pure _ _ _).mpr h
  · split
    · exact (wlp_pure _ _ _).mpr h
    · simp only [wlp_bind, wlp_pure]
      refine wlp_mono (readNode_extends F _ _ _ _) fun r k' he => ?_
      exact advance_inv (h.extends he) _ _

lemma vfsSeek_inv (h : Inv k) (fd : ℤ) (offset : ℕ) :
    wlp (vfsSeek fd offset) (fun _ k' => Inv k') k := by
  simp only [vfsSeek, wlp_bind, wlp_get]
  split
  · exact (wlp_pure _ _ _).mpr h
  · rename_i d hd
    obtain ⟨rfl, -⟩ := openFd_spec hd
    simp only [wlp_bind, wlp_setFd, wlp_pure]
    exact inv_moveOffset h _ _

lemma vfsWrite_inv (h : Inv k) (fd : ℤ) (buf : Bytes) (size : ℕ) :
    wlp (vfsWrite fd buf size) (fun _ k' => Inv k') k := by
  simp only [vfsWrite, wlp_bind, wlp_get]
  split
  · exact (wlp_pure _ _ _).mpr h
  · split
    · exact (wlp_pure _ _ _).mpr h
    · simp only [wlp_bind, wlp_pure]
      refine wlp_mono (writeNode_extends _ _ _ _) fun r k' he => ?_
      exact advance_inv (h.extends he) _ _

lemma vfsReaddir_inv (h : Inv k) (fd : ℤ) (index : ℕ) :
    wlp (vfsReaddir F fd index) (fun _ k' => Inv k') k := by
  simp only [vfsReaddir, wlp_bind, wlp_get]
  split
  · exact (wlp_pure _ _ _).mpr h
  · split
    · exact (wlp_pure _ _ _).mpr h
    · rw [wlp_ite]
      split
      · split
        · exact wlp_mono (extends_inFat32 (Fat32.built_of_reading (Fat32.fat32Readdir_built _ _)))
            fun _ _ he => h.extends he
        · exact wlp_mono (extends_inExt2 (Ext2.built_of_reading (Ext2.ext2Readdir_built _ _)))
            fun _ _ he => h.extends he
        · refine wlp_mono (wlp_inNtfs (Q := fun _ _ => True) ?_) fun _ _ he =>
            h.extends he.1
          exact wlp_mono (RoFs.readdir_links F.ntfs _ _ _) fun _ _ h => ⟨h, trivial⟩
        · refine wlp_mono (wlp_inXfs (Q := fun _ _ => True) ?_) fun _ _ he =>
            h.extends he.1
          exact wlp_mono (RoFs.readdir_links F.xfs _ _ _) fun _ _ h => ⟨h, trivial⟩
      · exact (wlp_pure _ _ _).mpr h

lemma vfsStat_inv (h : Inv k) (path : List UInt8) :
    wlp (vfsStat F path) (fun _ k' => Inv k') k := by
  simp only [vfsStat, resolvePath, wlp_bind, wlp_get, wlp_pure]
  split
  · exact (wlp_pure _ _ _).mpr h
  · rename_i i relpath hloc
    obtain ⟨hi, hact⟩ := locate_spec hloc
    exact wlp_mono (walkPath_extends F h.closed (h.root_live hi hact) relpath)
      fun _ _ he => h.extends he.1

/-- Unlinking removes no node, and the descriptors of the file stay open. -/
lemma vfsUnlink_inv (h : Inv k) (path : List UInt8) :
    wlp (vfsUnlink F path) (fun _ k' => Inv k') k := by
  simp only [vfsUnlink, wlp_bind, wlp_get]
  split
  · exact (wlp_pure _ _ _).mpr h
  · rename_i i relpath hloc
    obtain ⟨hi, hact⟩ := locate_spec hloc
    rw [wlp_bind]
    refine wlp_mono (splitParent_extends F h.closed (h.root_live hi hact) relpath)
      fun res k₁ hpost => ?_
    obtain ⟨he, hres⟩ := hpost
    obtain ⟨parent, name⟩ := res
    cases parent with
    | none => exact (wlp_pure _ _ _).mpr (h.extends he)
    | some parent =>
      obtain ⟨r, -, hu⟩ := hres parent rfl
      simp only [wlp_bind, wlp_get, wlp_ite, wlp_pure]
      split
      · exact h.extends he
      · cases parent with
        | fat32 d =>
          refine wlp_mono (extends_inFat32 (Fat32.fat32Unlink_built d name ?_)) fun _ _ he' =>
            (h.extends he).extends he'
          rintro j ⟨⟩
          exact hu.1
        | ext2 d =>
          exact wlp_mono (extends_inExt2 (Ext2.ext2Unlink_built d name)) fun _ _ he' =>
            (h.extends he).extends he'
        | ntfs d => exact (wlp_pure _ _ _).mpr (h.extends he)
        | xfs d => exact (wlp_pure _ _ _).mpr (h.extends he)

/-- The root of the second mount is still in use after the first walk. -/
lemma vfsRename_inv (h : Inv k) (oldPath newPath : List UInt8) :
    wlp (vfsRename F oldPath newPath) (fun _ k' => Inv k') k := by
  simp only [vfsRename, wlp_bind, wlp_get]
  split
  · rename_i i oldRel j newRel hold hnew
    obtain ⟨hi, hact⟩ := locate_spec hold
    obtain ⟨hj, hact'⟩ := locate_spec hnew
    simp only [wlp_ite, wlp_pure, wlp_bind, wlp_get]
    split
    · exact h
    · refine wlp_mono (splitParent_extends F h.closed (h.root_live hi hact) oldRel)
        fun p k₁ hpost => ?_
      obtain ⟨he, hp⟩ := hpost
      have hroot : ∀ r, (k.mounts j).root = some r → (forest k₁).live r :=
        fun r hr => (he.forest r (h.root_live hj hact' r hr)).1
      refine wlp_mono (splitParent_extends F (he.closed h.closed) hroot newRel)
        fun q k₂ hpost => ?_
      obtain ⟨he', _⟩ := hpost
      have h₂ : Inv k₂ := (h.extends he).extends he'
      obtain ⟨oldDir, oldName⟩ := p
      obtain ⟨newDir, newName⟩ := q
      cases oldDir with
      | none => exact (wlp_pure _ _ _).mpr h₂
      | some od =>
        cases newDir with
        | none => exact (wlp_pure _ _ _).mpr h₂
        | some nd =>
          obtain ⟨r, -, hu⟩ := hp od rfl
          have hlive : (forest k₂).live od := (he'.forest od hu.1).1
          simp only [wlp_ite, wlp_pure]
          split
          · exact h₂
          · split
            · refine wlp_mono (extends_inFat32 (Fat32.fat32Rename_built _ _ _ _ ?_))
                fun _ _ he'' => h₂.extends he''
              rintro j ⟨⟩
              exact hlive
            · exact wlp_mono (extends_inExt2 (Ext2.ext2Rename_built _ _ _ _)) fun _ _ he'' =>
                h₂.extends he''
            · exact (wlp_pure _ _ _).mpr h₂
  · exact (wlp_pure _ _ _).mpr h

/-- Only an active mount is defragmented or taken out of the table. -/
lemma mountAt_spec {path : List UInt8} {i : ℕ} (h : mountAt k path = some i) :
    i < maxMounts ∧ (k.mounts i).active = true := by
  have hfind := List.find?_some h
  simp only [Bool.and_eq_true] at hfind
  exact ⟨List.mem_range.mp (List.mem_of_find?_eq_some h), hfind.1⟩

lemma vfsDefrag_inv (h : Inv k) (path : List UInt8) :
    wlp (vfsDefrag path) (fun _ k' => Inv k') k := by
  simp only [vfsDefrag, wlp_bind, wlp_get]
  split
  · exact (wlp_pure _ _ _).mpr h
  · rename_i i hi
    obtain ⟨hlt, hact⟩ := mountAt_spec hi
    split
    · rename_i r _ hroot
      refine wlp_mono (extends_inFat32 (Fat32.fat32Defrag_built r ?_)) fun _ _ he => h.extends he
      rintro j ⟨⟩
      exact h.root_live hlt hact _ hroot
    · rename_i r _ hroot
      refine wlp_mono (extends_inExt2 (Ext2.ext2Defrag_built r ?_)) fun _ _ he => h.extends he
      rintro j ⟨⟩
      exact h.root_live hlt hact _ hroot
    · exact (wlp_pure _ _ _).mpr h

/-! ## Mounting -/

/-- Changing an entry of the mount table that is not in use, without switching it on. -/
lemma Inv.setInactive (h : Inv k) {i : ℕ} (hi : (k.mounts i).active = false) {m : MountPoint}
    (hm : m.active = false) : Inv { k with mounts := Function.update k.mounts i m } where
  closed := ⟨h.closed.fat32, h.closed.ext2, h.closed.ntfs, h.closed.xfs⟩
  sched := h.sched
  roots j hj ha := by
    have hji : j ≠ i := by rintro rfl; simp [hm] at ha
    simp only [Function.update_of_ne hji] at ha ⊢
    exact h.roots j hj ha
  inj j hj j' hj' ha ha' := by
    have hji : j ≠ i := by rintro rfl; simp [hm] at ha
    have hji' : j' ≠ i := by rintro rfl; simp [hm] at ha'
    simp only [Function.update_of_ne hji, Function.update_of_ne hji'] at ha ha' ⊢
    exact h.inj j hj j' hj' ha ha'
  fds t f ha := by
    obtain ⟨hf, v, j, r, hv, hj, hact, hr, hu⟩ := h.fds t f ha
    have hji : j ≠ i := by rintro rfl; simp [hi] at hact
    refine ⟨hf, v, j, r, hv, hj, ?_, ?_, hu⟩
    · simpa [Function.update_of_ne hji] using hact
    · simpa [Function.update_of_ne hji] using hr

/-- Switching on an unused entry of the mount table with a root that no other mount has. -/
lemma Inv.setActive (h : Inv k) {i : ℕ} (hi : (k.mounts i).active = false)
    {m : MountPoint} {r : VNode}
    (hm : m.root = some r) (hlive : (forest k).live r) (hroot : (forest k).parent r = none)
    (hnew : ∀ j < maxMounts, (k.mounts j).active = true → (k.mounts j).root ≠ some r) :
    Inv { k with mounts := Function.update k.mounts i m } where
  closed := ⟨h.closed.fat32, h.closed.ext2, h.closed.ntfs, h.closed.xfs⟩
  sched := h.sched
  roots j hj ha := by
    by_cases hji : j = i
    · subst hji
      exact ⟨r, by simpa using hm, hlive, hroot⟩
    · simp only [Function.update_of_ne hji] at ha ⊢
      exact h.roots j hj ha
  inj j hj j' hj' ha ha' heq := by
    by_cases hji : j = i
    · by_cases hji' : j' = i
      · rw [hji, hji']
      · subst hji
        simp only [Function.update_of_ne hji', Function.update_self, hm] at ha' heq
        exact absurd heq.symm (hnew j' hj' ha')
    · by_cases hji' : j' = i
      · subst hji'
        simp only [Function.update_of_ne hji, Function.update_self, hm] at ha heq
        exact absurd heq (hnew j hj ha)
      · simp only [Function.update_of_ne hji, Function.update_of_ne hji'] at ha ha' heq
        exact h.inj j hj j' hj' ha ha' heq
  fds t f ha := by
    obtain ⟨hf, v, j, r', hv, hj, hact, hr, hu⟩ := h.fds t f ha
    have hji : j ≠ i := by rintro rfl; simp [hi] at hact
    refine ⟨hf, v, j, r', hv, hj, ?_, ?_, hu⟩
    · simpa [Function.update_of_ne hji] using hact
    · simpa [Function.update_of_ne hji] using hr

/-- What a driver's mount function returns: a new node without a parent, or an error. -/
def NewRoot (k : Kernel) (r : Except ℤ VNode) (k' : Kernel) : Prop :=
  ∀ v, r = .ok v → ¬ (forest k).live v ∧ (forest k').live v ∧ (forest k').parent v = none

/-- A driver that returned a new root has its volume entered in the table. -/
lemma finishMount_inv (h : Inv k) {slot : ℕ} (hslot : (k.mounts slot).active = false)
    {k' : Kernel} (he : Extends k k') {r : Except ℤ VNode} (hr : NewRoot k r k') (t : FsType) :
    wlp (finishMount slot t r) (fun _ k'' => Inv k'') k' := by
  cases r with
  | error rc => exact (wlp_pure _ _ _).mpr (h.extends he)
  | ok root =>
    simp only [finishMount, setMount, wlp_bind, wlp_modify, wlp_pure]
    obtain ⟨hfresh, hlive, hparent⟩ := hr root rfl
    refine (h.extends he).setActive (he.mounts ▸ hslot) rfl hlive hparent ?_
    intro j hj ha heq
    rw [he.mounts] at ha heq
    exact hfresh (h.root_live hj ha root heq)

lemma mountFat32_inv (h : Inv k) {slot : ℕ} (hslot : (k.mounts slot).active = false) (dev : Drive)
    (lba : ℕ) : wlp (mountFat32 dev lba slot) (fun _ k' => Inv k') k := by
  rw [mountFat32, wlp_bind]
  refine wlp_mono (wlp_inFat32 (Fat32.fat32Mount_built dev lba (by rintro j ⟨⟩))
    (Fat32.fat32Mount_links dev lba _)) fun r k' ⟨he, hr⟩ => finishMount_inv h hslot he ?_ .fat32
  intro v hv
  cases r with
  | error rc => cases hv
  | ok i =>
    cases hv
    obtain ⟨hge, hlt, hnone⟩ := hr i rfl
    exact ⟨not_lt.mpr hge, hlt, congrArg (Option.map VNode.fat32) hnone⟩

/-- When ext2 does not take the volume, the entry of the table is still free for XFS. -/
lemma mountExt2_inv (h : Inv k) {slot : ℕ} (hslot : (k.mounts slot).active = false) (dev : Drive)
    (lba : ℕ) : wlp (mountExt2 dev lba slot)
      (fun rc k' => Inv k' ∧ (rc ≠ 0 → (k'.mounts slot).active = false)) k := by
  rw [mountExt2, wlp_bind]
  refine wlp_mono (wlp_inExt2 (Ext2.ext2Mount_built dev lba (by rintro j ⟨⟩))
    (Ext2.ext2Mount_links dev lba _)) fun r k' ⟨he, hr⟩ =>
      wlp_and (finishMount_inv h hslot he ?_ .ext2) ?_
  · intro v hv
    cases r with
    | error rc => cases hv
    | ok i =>
      cases hv
      obtain ⟨hge, hlt, hnone⟩ := hr i rfl
      exact ⟨not_lt.mpr hge, hlt, congrArg (Option.map VNode.ext2) hnone⟩
  · cases r with
    | error rc => exact (wlp_pure _ _ _).mpr fun _ => he.mounts ▸ hslot
    | ok i =>
      simp only [Except.map, finishMount, setMount, wlp_bind, wlp_modify, wlp_pure]
      exact fun h => absurd rfl h

lemma mountNtfs_inv (h : Inv k) {slot : ℕ} (hslot : (k.mounts slot).active = false) (dev : Drive)
    (lba : ℕ) : wlp (mountNtfs F dev lba slot) (fun _ k' => Inv k') k := by
  rw [mountNtfs, wlp_bind]
  refine wlp_mono (wlp_inNtfs (RoFs.mount_links F.ntfs dev lba (by rintro j ⟨⟩) _))
    fun r k' ⟨he, hr⟩ => finishMount_inv h hslot he ?_ .ntfs
  intro v hv
  cases r with
  | error rc => cases hv
  | ok i =>
    cases hv
    obtain ⟨hge, hlt, hnone⟩ := hr i rfl
    exact ⟨not_lt.mpr hge, hlt, congrArg (Option.map VNode.ntfs) hnone⟩

lemma mountXfs_inv (h : Inv k) {slot : ℕ} (hslot : (k.mounts slot).active = false) (dev : Drive)
    (lba : ℕ) : wlp (mountXfs F dev lba slot) (fun _ k' => Inv k') k := by
  rw [mountXfs, wlp_bind]
  refine wlp_mono (wlp_inXfs (RoFs.mount_links F.xfs dev lba (by rintro j ⟨⟩) _))
    fun r k' ⟨he, hr⟩ => finishMount_inv h hslot he ?_ .xfs
  intro v hv
  cases r with
  | error rc => cases hv
  | ok i =>
    cases hv
    obtain ⟨hge, hlt, hnone⟩ := hr i rfl
    exact ⟨not_lt.mpr hge, hlt, congrArg (Option.map VNode.xfs) hnone⟩

lemma freeSlot_spec {i : ℕ} (h : freeSlot k = some i) : (k.mounts i).active = false := by
  simpa using List.find?_some h

/-- A transfer changes nothing but the drives. -/
lemma extends_io {α : Type} (m : Program BlkDev α) : wlp (io m) (fun _ k' => Extends k k') k := by
  rw [io, wlp_zoom]
  exact fun _ _ _ => ⟨rfl, rfl, fun v hv => ⟨by cases v <;> exact hv, rfl⟩,
    fun hc => ⟨hc.fat32, hc.ext2, hc.ntfs, hc.xfs⟩⟩

/-- Storing a path in an unused entry of the mount table. -/
lemma Inv.setPath (h : Inv k) {slot : ℕ} (hslot : (k.mounts slot).active = false)
    (path : List UInt8) : Inv { k with
      mounts := Function.update k.mounts slot { k.mounts slot with path := path } } :=
  h.setInactive hslot hslot

/-- `vfs_mount` enters one volume in the table or none. -/
lemma vfsMount_inv (h : Inv k) (drive : ℕ) (partition : Fin 4) (path : List UInt8) :
    wlp (vfsMount F drive partition path) (fun _ k' => Inv k') k := by
  simp only [vfsMount, wlp_bind, wlp_get]
  split
  · exact (wlp_pure _ _ _).mpr h
  · rename_i slot hslot
    have hoff := freeSlot_spec hslot
    rw [wlp_bind]
    refine wlp_mono (extends_io _) fun r k₁ he => ?_
    have h₁ := h.extends he
    have hoff₁ : (k₁.mounts slot).active = false := he.mounts ▸ hoff
    cases r with
    | none => exact (wlp_pure _ _ _).mpr h₁
    | some mbr =>
      simp only [wlp_ite, wlp_pure, wlp_bind, setMount, wlp_modify]
      have h₂ := h₁.setPath hoff₁ (path.take (mountPathSize - 1))
      split_ifs
      · exact h₁
      · exact h₁
      · exact mountFat32_inv h₂ (by simpa using hoff₁) _ _
      · refine wlp_mono (mountExt2_inv h₂ (by simpa using hoff₁) _ _) fun rc k₃ hpost => ?_
        obtain ⟨h₃, hoff₃⟩ := hpost
        split_ifs with hrc
        · exact mountXfs_inv F h₃ (hoff₃ (by rw [hrc]; decide)) _ _
        · exact h₃
      · exact mountNtfs_inv F h₂ (by simpa using hoff₁) _ _
      · exact h₂.setInactive (by simpa using hoff₁) rfl

/-- Probing tries FAT32, NTFS and ext2 in turn, each with the entry still free. -/
lemma mountProbe_inv (h : Inv k) (dev : Drive) (lba : ℕ) (path : List UInt8) :
    wlp (mountProbe F dev lba path) (fun _ k' => Inv k') k := by
  simp only [mountProbe, wlp_bind, wlp_get]
  split
  · exact (wlp_pure _ _ _).mpr h
  · rename_i slot hslot
    have hoff := freeSlot_spec hslot
    have h₁ := h.setPath hoff (path.take (mountPathSize - 1))
    simp only [wlp_bind, setMount, wlp_modify]
    refine wlp_mono (extends_io _) fun r k₂ he => ?_
    have h₂ := h₁.extends he
    have hoff₂ : (k₂.mounts slot).active = false := by rw [he.mounts]; simpa using hoff
    cases r with
    | none => exact (wlp_pure _ _ _).mpr h₂
    | some boot =>
      simp only [wlp_ite, wlp_bind, wlp_pure, wlp_modify]
      split_ifs
      · exact mountFat32_inv h₂ hoff₂ _ _
      · exact mountNtfs_inv F h₂ hoff₂ _ _
      · refine wlp_mono (extends_io _) fun sb k₃ he' => ?_
        have h₃ := h₂.extends he'
        have hoff₃ : (k₃.mounts slot).active = false := he'.mounts ▸ hoff₂
        split
        · exact wlp_mono (mountExt2_inv h₃ hoff₃ _ _) fun _ _ h => h.1
        · exact h₃.setInactive hoff₃ rfl

end Calls

end Vfs

end CoolFrost
