import CoolFrost.Fs.Paths

/-!
# Pools that are not recycled

Nodes and volumes come from static pools, and nothing ever gives one back.  What a path means does
not depend on the pools: it is what the lookups would find if the pools had no end.  A lookup takes
one node for every component of its path, so it succeeds as long as that many are left.
-/

namespace CoolFrost

open Program

/-! ## Lookups and places in the drivers -/

namespace Fat32

/-- The node that `fat32_finddir` is about to take from the pool. -/
def fat32Search (node : ℕ) (name : List UInt8) : Program Fat32State (Option Fat32Node) := do
  let nd := (← get).nodePool node
  match ← dirWalk nd.fi.fs none (fun lba buf _ => finddirVisit name lba buf) () nd.inode with
  | .inr (some e) => return some (nodeOfEntry nd.fi.fs node e)
  | .inr none => return none
  | .inl _ => return none

/-- `alloc_node` without an end of the pool. -/
def addNode (nd : Fat32Node) : Program Fat32State ℕ := do
  let s ← get
  modify fun s =>
    { s with
      nodePool := Function.update s.nodePool s.nodePoolUsed nd
      nodePoolUsed := s.nodePoolUsed + 1 }
  return s.nodePoolUsed

lemma fat32Finddir_eq (node : ℕ) (name : List UInt8) :
    fat32Finddir node name = fat32Search node name >>= fun r => r.elim (pure none) allocNode := by
  unfold fat32Finddir fat32Search
  rw [bind_assoc]
  refine congrArg _ (funext fun s => ?_)
  dsimp only
  rw [bind_assoc]
  refine congrArg _ (funext fun r => ?_)
  rcases r with _ | _ | e <;> rfl

lemma allocNode_eq (nd : Fat32Node) (s : Fat32State) : allocNode nd s =
    if maxVfsNodes ≤ s.nodePoolUsed then some (none, s) else (some <$> addNode nd) s := by
  change (if maxVfsNodes ≤ s.nodePoolUsed then pure none else _ : Program _ _) s = _
  split_ifs <;> rfl

/-- Searching takes no node. -/
lemma fat32Search_used (node : ℕ) (name : List UInt8) (s : Fat32State) :
    wlp (fat32Search node name) (fun _ s' => s'.nodePoolUsed = s.nodePoolUsed) s := by
  have hbuilt : Built (Step fun _ => False) (fat32Search node name) := by
    refine .bind .read fun s => .bind (built_of_reading (dirWalk_built _ _ _ _ _)) fun r => ?_
    rcases r with _ | _ | e <;> exact .ret _
  exact wlp_mono (built_links hbuilt s) fun _ _ h => h.used_eq

end Fat32

namespace Ext2

/-- The node that `ext2_finddir` is about to take from the pool. -/
def ext2Search (node : ℕ) (name : List UInt8) : Program Ext2State (Option Ext2Node) := do
  let nd := (← get).nodePool node
  match ← readInode nd.fs nd.inode with
  | none => return none
  | some inode =>
    match ← dirWalk nd.fs inode (fun phys off b _ => findVisit name phys off b) () with
    | .found r =>
      match ← readInode nd.fs (deInode r.buf r.off) with
      | none => return none
      | some child =>
        return some
          { name := name.take maxNameLen
            type := if isDirInode child then .directory else .file
            size := iSize child, inode := deInode r.buf r.off, parent := some node, fs := nd.fs }
    | .ended => return none
    | .badBlock => return none
    | .badRecord => return none

/-- `alloc_node` without an end of the pool. -/
def addNode (nd : Ext2Node) : Program Ext2State ℕ := do
  let s ← get
  modify fun s =>
    { s with
      nodePool := Function.update s.nodePool s.nodePoolUsed nd
      nodePoolUsed := s.nodePoolUsed + 1 }
  return s.nodePoolUsed

lemma ext2Finddir_eq (node : ℕ) (name : List UInt8) :
    ext2Finddir node name = ext2Search node name >>= fun r => r.elim (pure none) allocNode := by
  unfold ext2Finddir ext2Search
  rw [bind_assoc]
  refine congrArg _ (funext fun s => ?_)
  dsimp only
  rw [bind_assoc]
  refine congrArg _ (funext fun r => ?_)
  cases r with
  | none => rfl
  | some inode =>
    dsimp only
    rw [bind_assoc]
    refine congrArg _ (funext fun w => ?_)
    cases w with
    | found r =>
      dsimp only
      rw [bind_assoc]
      refine congrArg _ (funext fun c => ?_)
      cases c <;> rfl
    | ended => rfl
    | badBlock => rfl
    | badRecord => rfl

lemma allocNode_eq (nd : Ext2Node) (s : Ext2State) : allocNode nd s =
    if maxExt2Nodes ≤ s.nodePoolUsed then some (none, s) else (some <$> addNode nd) s := by
  change (if maxExt2Nodes ≤ s.nodePoolUsed then pure none else _ : Program _ _) s = _
  split_ifs <;> rfl

/-- Searching takes no node. -/
lemma ext2Search_used (node : ℕ) (name : List UInt8) (s : Ext2State) :
    wlp (ext2Search node name) (fun _ s' => s'.nodePoolUsed = s.nodePoolUsed) s := by
  have hbuilt : Built ReadStep (ext2Search node name) := by
    refine .bind .read fun s => .bind (readInode_built _ _) fun r => ?_
    cases r with
    | none => exact .ret _
    | some inode =>
      refine .bind (dirWalk_built _ _ _ _) fun w => ?_
      cases w with
      | found r =>
        refine .bind (readInode_built _ _) fun c => ?_
        cases c <;> exact .ret _
      | ended => exact .ret _
      | badBlock => exact .ret _
      | badRecord => exact .ret _
  have hlinks := @built_links (fun _ => False) _ _ (built_of_reading hbuilt) s
  exact wlp_mono hlinks fun _ _ h => h.used_eq

end Ext2

namespace RoFs

/-- The node that `ntfs_finddir` and `xfs_finddir` are about to take from the pool. -/
def search (F : RoFormat) (node : ℕ) (name : List UInt8) : Program RoState (Option RoNode) := do
  let nd := (← get).nodePool node
  match ← io (F.lookup nd.volume nd.inode name) with
  | none => return none
  | some e => return some ⟨e.name, e.type, e.size, e.inode, some node, nd.volume⟩

/-- `alloc_node` without an end of the pool. -/
def addNode (nd : RoNode) : Program RoState ℕ := do
  let s ← get
  modify fun s =>
    { s with
      nodePool := Function.update s.nodePool s.nodePoolUsed nd
      nodePoolUsed := s.nodePoolUsed + 1 }
  return s.nodePoolUsed

lemma finddir_eq (F : RoFormat) (node : ℕ) (name : List UInt8) :
    finddir F node name = search F node name >>= fun r => r.elim (pure none) allocNode := by
  unfold finddir search
  rw [bind_assoc]
  refine congrArg _ (funext fun s => ?_)
  dsimp only
  rw [bind_assoc]
  refine congrArg _ (funext fun r => ?_)
  cases r <;> rfl

lemma allocNode_eq (nd : RoNode) (s : RoState) : allocNode nd s =
    if maxRoNodes ≤ s.nodePoolUsed then some (none, s) else (some <$> addNode nd) s := by
  change (if maxRoNodes ≤ s.nodePoolUsed then pure none else _ : Program _ _) s = _
  split_ifs <;> rfl

/-- Searching takes no node. -/
lemma search_used (F : RoFormat) (node : ℕ) (name : List UInt8) (s : RoState) :
    wlp (search F node name) (fun _ s' => s'.nodePoolUsed = s.nodePoolUsed) s := by
  simp only [search, wlp_bind, wlp_get, io, wlp_zoom]
  intro r d _
  cases r <;> simp

end RoFs

/-! ## Lookups in the kernel -/

/-- The driver a node belongs to. -/
def VNode.driver : VNode → FsType
  | .fat32 _ => .fat32
  | .ext2 _ => .ext2
  | .ntfs _ => .ntfs
  | .xfs _ => .xfs

namespace Vfs

/-- The number of nodes that a driver has taken from its pool. -/
def nodesUsed (k : Kernel) : FsType → ℕ
  | .none => 0
  | .fat32 => k.fat32.nodePoolUsed
  | .ext2 => k.ext2.nodePoolUsed
  | .ntfs => k.ntfs.nodePoolUsed
  | .xfs => k.xfs.nodePoolUsed

/-- The size of a driver's pool of nodes. -/
def maxNodes : FsType → ℕ
  | .none => 0
  | .fat32 => maxVfsNodes
  | .ext2 => Ext2.maxExt2Nodes
  | .ntfs => RoFs.maxRoNodes
  | .xfs => RoFs.maxRoNodes

/-- A node that is about to be taken from a pool. -/
inductive NewNode where
  | fat32 (nd : Fat32Node)
  | ext2 (nd : Ext2Node)
  | ntfs (nd : RoNode)
  | xfs (nd : RoNode)

/-- The driver that it belongs to. -/
def NewNode.driver : NewNode → FsType
  | .fat32 _ => .fat32
  | .ext2 _ => .ext2
  | .ntfs _ => .ntfs
  | .xfs _ => .xfs

/-- Take the node from its pool. -/
def NewNode.place : NewNode → Program Kernel (Option VNode)
  | .fat32 nd => Option.map .fat32 <$> inFat32 (Fat32.allocNode nd)
  | .ext2 nd => Option.map .ext2 <$> inExt2 (Ext2.allocNode nd)
  | .ntfs nd => Option.map .ntfs <$> inNtfs (RoFs.allocNode nd)
  | .xfs nd => Option.map .xfs <$> inXfs (RoFs.allocNode nd)

/-- Take the node from its pool as if that had no end. -/
def NewNode.add : NewNode → Program Kernel VNode
  | .fat32 nd => .fat32 <$> inFat32 (Fat32.addNode nd)
  | .ext2 nd => .ext2 <$> inExt2 (Ext2.addNode nd)
  | .ntfs nd => .ntfs <$> inNtfs (RoFs.addNode nd)
  | .xfs nd => .xfs <$> inXfs (RoFs.addNode nd)

variable (F : RoFormats)

/-- The node that `node->finddir` is about to take from its pool. -/
def search (node : VNode) (name : List UInt8) : Program Kernel (Option NewNode) := do
  let k ← get
  if (nodeType k node).isDirectory then
    match node with
    | .fat32 i => Option.map .fat32 <$> inFat32 (Fat32.fat32Search i name)
    | .ext2 i => Option.map .ext2 <$> inExt2 (Ext2.ext2Search i name)
    | .ntfs i => Option.map .ntfs <$> inNtfs (RoFs.search F.ntfs i name)
    | .xfs i => Option.map .xfs <$> inXfs (RoFs.search F.xfs i name)
  else return none

/-- `node->finddir` with pools that have no end. -/
def finddirEndless : Finddir := fun node name =>
  search F node name >>= fun r => r.elim (pure none) fun new => some <$> new.add

/-- Entering a driver twice is entering it once. -/
lemma zoom_bind_elim {σ α β γ : Type} {view : Kernel → σ} {put : σ → Kernel → Kernel}
    (hview : ∀ s k, view (put s k) = s) (hput : ∀ s s' k, put s' (put s k) = put s' k)
    (m : Program σ (Option α)) (g : α → Program σ (Option β)) (f : α → NewNode) (h : β → γ)
    (place : NewNode → Program Kernel (Option γ))
    (hplace : ∀ a, place (f a) = Option.map h <$> zoom view put (g a)) :
    Option.map h <$> zoom view put (m >>= fun r => r.elim (pure none) g) =
      (Option.map f <$> zoom view put m) >>= fun r => r.elim (pure none) place := by
  funext k
  simp only [Functor.map, StateT.map, bind, StateT.bind, zoom]
  cases hm : m (view k) with
  | none => rfl
  | some p =>
    obtain ⟨r, s⟩ := p
    cases r with
    | none => rfl
    | some a =>
      change _ = place (f a) (put s k)
      rw [hplace]
      simp only [Option.elim_some, Functor.map, StateT.map, bind, zoom, Option.bind_some, hview]
      cases g a s with
      | none => rfl
      | some q => simp only [Option.bind_some, hput]

lemma finddir_eq (node : VNode) (name : List UInt8) :
    finddir F node name = search F node name >>= fun r => r.elim (pure none) NewNode.place := by
  unfold finddir search
  rw [bind_assoc]
  refine congrArg _ (funext fun k => ?_)
  by_cases hdir : (nodeType k node).isDirectory = true
  · rw [if_pos hdir, if_pos hdir]
    cases node with
    | fat32 i =>
      dsimp only
      rw [Fat32.fat32Finddir_eq]
      apply zoom_bind_elim <;> intros <;> rfl
    | ext2 i =>
      dsimp only
      rw [Ext2.ext2Finddir_eq]
      apply zoom_bind_elim <;> intros <;> rfl
    | ntfs i =>
      dsimp only
      rw [RoFs.finddir_eq]
      apply zoom_bind_elim <;> intros <;> rfl
    | xfs i =>
      dsimp only
      rw [RoFs.finddir_eq]
      apply zoom_bind_elim <;> intros <;> rfl
  · rw [if_neg hdir, if_neg hdir, pure_bind]
    rfl

variable {F} {k : Kernel}

/-- Adding a node takes one from its pool. -/
lemma NewNode.wp_add (new : NewNode) (k : Kernel) : wp new.add (fun child k' =>
    child.driver = new.driver ∧ nodesUsed k' new.driver = nodesUsed k new.driver + 1) k := by
  cases new with
  | fat32 nd =>
    simp only [NewNode.add, wp_map, inFat32, wp_zoom, Fat32.addNode, wp_bind, wp_get,
      wp_modify, wp_pure]
    exact ⟨rfl, rfl⟩
  | ext2 nd =>
    simp only [NewNode.add, wp_map, inExt2, wp_zoom, Ext2.addNode, wp_bind, wp_get,
      wp_modify, wp_pure]
    exact ⟨rfl, rfl⟩
  | ntfs nd =>
    simp only [NewNode.add, wp_map, inNtfs, wp_zoom, RoFs.addNode, wp_bind, wp_get,
      wp_modify, wp_pure]
    exact ⟨rfl, rfl⟩
  | xfs nd =>
    simp only [NewNode.add, wp_map, inXfs, wp_zoom, RoFs.addNode, wp_bind, wp_get,
      wp_modify, wp_pure]
    exact ⟨rfl, rfl⟩

/-- With a node left, the end of the pool makes no difference. -/
lemma NewNode.place_of_room (new : NewNode) (h : nodesUsed k new.driver < maxNodes new.driver) :
    new.place k = (some <$> new.add) k := by
  cases new with
  | fat32 nd =>
    have hroom : ¬ maxVfsNodes ≤ k.fat32.nodePoolUsed := Nat.not_le.mpr h
    simp only [NewNode.place, NewNode.add, inFat32, Functor.map, StateT.map, bind, zoom,
      Fat32.allocNode_eq, if_neg hroom]
    rfl
  | ext2 nd =>
    have hroom : ¬ Ext2.maxExt2Nodes ≤ k.ext2.nodePoolUsed := Nat.not_le.mpr h
    simp only [NewNode.place, NewNode.add, inExt2, Functor.map, StateT.map, bind, zoom,
      Ext2.allocNode_eq, if_neg hroom]
    rfl
  | ntfs nd =>
    have hroom : ¬ RoFs.maxRoNodes ≤ k.ntfs.nodePoolUsed := Nat.not_le.mpr h
    simp only [NewNode.place, NewNode.add, inNtfs, Functor.map, StateT.map, bind, zoom,
      RoFs.allocNode_eq, if_neg hroom]
    rfl
  | xfs nd =>
    have hroom : ¬ RoFs.maxRoNodes ≤ k.xfs.nodePoolUsed := Nat.not_le.mpr h
    simp only [NewNode.place, NewNode.add, inXfs, Functor.map, StateT.map, bind, zoom,
      RoFs.allocNode_eq, if_neg hroom]
    rfl

/-- Without one, the lookup fails. -/
lemma NewNode.place_of_full (new : NewNode) (h : maxNodes new.driver ≤ nodesUsed k new.driver) :
    wp new.place (fun r _ => r = none) k := by
  cases new with
  | fat32 nd =>
    simp only [NewNode.place, wp_map, inFat32, wp_zoom]
    exact wp_of_eq ((Fat32.allocNode_eq nd _).trans (if_pos h)) rfl
  | ext2 nd =>
    simp only [NewNode.place, wp_map, inExt2, wp_zoom]
    exact wp_of_eq ((Ext2.allocNode_eq nd _).trans (if_pos h)) rfl
  | ntfs nd =>
    simp only [NewNode.place, wp_map, inNtfs, wp_zoom]
    exact wp_of_eq ((RoFs.allocNode_eq nd _).trans (if_pos h)) rfl
  | xfs nd =>
    simp only [NewNode.place, wp_map, inXfs, wp_zoom]
    exact wp_of_eq ((RoFs.allocNode_eq nd _).trans (if_pos h)) rfl

/-- Searching takes no node, and what it finds belongs to the same driver. -/
lemma search_spec (node : VNode) (name : List UInt8) (k : Kernel) :
    wlp (search F node name) (fun r k' => nodesUsed k' node.driver = nodesUsed k node.driver ∧
      ∀ new, r = some new → new.driver = node.driver) k := by
  simp only [search, wlp_bind, wlp_get, wlp_ite]
  split_ifs
  · cases node with
    | fat32 i =>
      simp only [wlp_map, inFat32, wlp_zoom]
      refine wlp_mono (Fat32.fat32Search_used i name _) fun r s h => ⟨h, ?_⟩
      rintro new hnew
      obtain ⟨nd, -, rfl⟩ := Option.map_eq_some_iff.mp hnew
      rfl
    | ext2 i =>
      simp only [wlp_map, inExt2, wlp_zoom]
      refine wlp_mono (Ext2.ext2Search_used i name _) fun r s h => ⟨h, ?_⟩
      rintro new hnew
      obtain ⟨nd, -, rfl⟩ := Option.map_eq_some_iff.mp hnew
      rfl
    | ntfs i =>
      simp only [wlp_map, inNtfs, wlp_zoom]
      refine wlp_mono (RoFs.search_used F.ntfs i name _) fun r s h => ⟨h, ?_⟩
      rintro new hnew
      obtain ⟨nd, -, rfl⟩ := Option.map_eq_some_iff.mp hnew
      rfl
    | xfs i =>
      simp only [wlp_map, inXfs, wlp_zoom]
      refine wlp_mono (RoFs.search_used F.xfs i name _) fun r s h => ⟨h, ?_⟩
      rintro new hnew
      obtain ⟨nd, -, rfl⟩ := Option.map_eq_some_iff.mp hnew
      rfl
  · rw [wlp_pure]
    exact ⟨rfl, by simp⟩

/-- A lookup that finds its node in pools without end finds it in the pools there are if these have
a node left, and fails otherwise. -/
lemma finddirEndless_cases {node child : VNode} {name : List UInt8} {k' : Kernel}
    (h : finddirEndless F node name k = some (some child, k')) :
    child.driver = node.driver ∧ nodesUsed k' node.driver = nodesUsed k node.driver + 1 ∧
    (nodesUsed k node.driver < maxNodes node.driver →
      finddir F node name k = some (some child, k')) ∧
    (maxNodes node.driver ≤ nodesUsed k node.driver →
      wp (finddir F node name) (fun r _ => r = none) k) := by
  obtain ⟨r, k₁, hsearch, hadd⟩ := bind_eq_some.mp h
  obtain ⟨hused, hdriver⟩ := search_spec node name k _ _ hsearch
  cases r with
  | none => cases hadd
  | some new =>
    have hnew := hdriver new rfl
    obtain ⟨child', k₂, heq, hchild, hone⟩ := new.wp_add k₁
    have hsome : (some <$> new.add) k₁ = some (some child', k₂) := by
      simp only [Functor.map, StateT.map, bind, heq, Option.bind_some]
      rfl
    have hres := hsome.symm.trans hadd
    simp only [Option.some.injEq, Prod.mk.injEq] at hres
    obtain ⟨rfl, rfl⟩ := hres
    rw [hnew] at hchild hone
    refine ⟨hchild, by rw [hone, hused], fun hroom => ?_, fun hfull => ?_⟩
    · rw [finddir_eq]
      refine bind_eq_some.mpr ⟨_, _, hsearch, ?_⟩
      rw [← hused, ← hnew] at hroom
      exact (new.place_of_room hroom).trans hsome
    · rw [finddir_eq, wp_bind]
      rw [← hused, ← hnew] at hfull
      exact wp_of_eq hsearch (new.place_of_full hfull)

/-- The same for a whole path. -/
lemma lookup_cases (names : List (List UInt8)) {node child : VNode} {k' : Kernel}
    (h : lookup (finddirEndless F) names node k = some (some child, k')) :
    (nodesUsed k node.driver + names.length ≤ maxNodes node.driver →
      lookup (finddir F) names node k = some (some child, k')) ∧
    (names ≠ [] → maxNodes node.driver < nodesUsed k node.driver + names.length →
      wp (lookup (finddir F) names node) (fun r _ => r = none) k) := by
  induction names generalizing node k with
  | nil => exact ⟨fun _ => h, fun hne => absurd rfl hne⟩
  | cons name rest ih =>
    obtain ⟨r, k₁, hfind, hrest⟩ := bind_eq_some.mp h
    cases r with
    | none => cases hrest
    | some next =>
      obtain ⟨hdriver, hused, hroom, hfull⟩ := finddirEndless_cases hfind
      obtain ⟨ihroom, ihfull⟩ := ih hrest
      rw [hdriver, hused] at ihroom ihfull
      rw [List.length_cons]
      constructor
      · intro hle
        exact bind_eq_some.mpr ⟨_, _, hroom (by omega), ihroom (by omega)⟩
      · intro _ hlt
        by_cases hhere : nodesUsed k node.driver < maxNodes node.driver
        · have hne : rest ≠ [] := by
            rintro rfl
            simp only [List.length_nil] at hlt
            omega
          obtain ⟨r', k₂, heq, hnone⟩ := ihfull hne (by omega)
          exact ⟨r', k₂, bind_eq_some.mpr ⟨_, _, hroom hhere, heq⟩, hnone⟩
        · obtain ⟨r', k₂, heq, rfl⟩ := hfull (Nat.le_of_not_lt hhere)
          exact ⟨none, k₂, bind_eq_some.mpr ⟨_, _, heq, rfl⟩, rfl⟩

end Vfs

end CoolFrost
