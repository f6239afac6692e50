import CoolFrost.Lib.View
import CoolFrost.Fs.PoolRuns

/-!
# Directory trees behind paths

What it means for the two dot components at the end of a path to do their job: `d/.` is a directory
with the entries of the directory `d`, and `d/..` is one with those of its parent.
-/

namespace CoolFrost

namespace Vfs

open Program

section Operations

variable (F : RoFormats)

/-- `node->readdir`, which drivers set on directories only. -/
def readdirNode (node : VNode) (index : ℕ) : Program Kernel (Option Dirent) := do
  if (nodeType (← get) node).isDirectory then
    match node with
    | .fat32 i => inFat32 (Fat32.fat32Readdir i index)
    | .ext2 i => inExt2 (Ext2.ext2Readdir i index)
    | .ntfs i => inNtfs (RoFs.readdir F.ntfs i index)
    | .xfs i => inXfs (RoFs.readdir F.xfs i index)
  else return none

variable {F} in
/-- `vfs_readdir` calls it. -/
lemma vfsReaddir_eq {k : Kernel} {fd : ℤ} {d : FileDescriptor} {node : VNode}
    (hfd : openFd k fd = some d) (hnode : d.node = some node) (index : ℕ) :
    vfsReaddir F fd index k = readdirNode F node index k := by
  have hget : ∀ g : Kernel → Program Kernel (Option Dirent),
      ((get : Program Kernel Kernel) >>= g) k = g k k :=
    fun g => rfl
  rw [vfsReaddir, hget, hfd]
  dsimp only
  rw [hnode]
  rfl

end Operations

/-- The directories of a volume, each known by a number, for a driver whose nodes carry numbers
too. -/
structure DirTree where
  /-- A directory node that carries the first number is for the directory with the second. -/
  Denotes : ℕ → ℕ → Prop
  /-- The parent of the first directory is the second one. -/
  Parent : ℕ → ℕ → Prop
  /-- The entry with the given index of a directory. -/
  list : ℕ → ℕ → Program Kernel (Option Dirent)

variable {F : RoFormats} {k : Kernel}

/-- The path `relpath` below `root` leads to a node through which `readdir` lists exactly the
entries of the directory `dir`. -/
def ListsDir (F : RoFormats) (k : Kernel) (T : DirTree) (root : VNode) (relpath : List UInt8)
    (dir : ℕ) : Prop :=
  ∃ node k', walkPath F (some root) relpath k = some (some node, k') ∧
    ∀ index, (readdirNode F node index k').map Prod.fst = (T.list dir index k').map Prod.fst

/-- The path leads to a directory. -/
def LeadsToDir (F : RoFormats) (k : Kernel) (root : VNode) (relpath : List UInt8) : Prop :=
  ∃ node k', walkPath F (some root) relpath k = some (some node, k') ∧
    (nodeType k' node).isDirectory = true

/-- The path `relpath` leads to the directory `dir`. -/
def DenotesDir (F : RoFormats) (k : Kernel) (T : DirTree) (root : VNode) (relpath : List UInt8)
    (dir : ℕ) : Prop :=
  ∃ node k', walkPath F (some root) relpath k = some (some node, k') ∧
    (nodeType k' node).isDirectory = true ∧ T.Denotes (nodeInode k' node) dir

/-- The parent links of the directory at the path `d` resolve: followed by `/.` it lists the
directory, followed by `/..` its parent. -/
def ParentLinks (F : RoFormats) (k : Kernel) (T : DirTree) (root : VNode) (d : List UInt8) : Prop :=
  ∃ dir parent, DenotesDir F k T root d dir ∧ T.Parent dir parent ∧
    ListsDir F k T root (d ++ slash :: dotName) dir ∧
    ListsDir F k T root (d ++ slash :: dotDotName) parent

/-- The pool of nodes of the driver has room for one component more than the path has. -/
def RoomBelow (k : Kernel) (root : VNode) (d : List UInt8) : Prop :=
  nodesUsed k root.driver + (components [] d).length < maxNodes root.driver

/-! ## One component more -/

lemma components_slash (cur d name : List UInt8) :
    components cur (d ++ slash :: name) = components cur d ++ components [] name := by
  induction d generalizing cur with
  | nil =>
    rw [List.nil_append, components, components, if_pos rfl]
    split_ifs <;> rfl
  | cons c d ih =>
    rw [List.cons_append, components, components]
    split_ifs with hslash hcur hlen
    · exact ih []
    · rw [ih [], List.cons_append]
    · exact ih (cur ++ [c])
    · rw [ih [c], List.cons_append]

/-- A dot component at the end of a path is looked up in what the path leads to. -/
lemma walkPath_slash {root node : VNode} {d name : List UInt8} {k' : Kernel}
    (h : walkPath F (some root) d k = some (some node, k')) (hname : components [] name = [name]) :
    walkPath F (some root) (d ++ slash :: name) k = finddir F node name k' := by
  rw [walkPath_eq] at h ⊢
  rw [walkWith] at h ⊢
  rw [components_slash, hname, lookup_append]
  simp only [bind, StateT.bind, h, Option.bind_some]

end Vfs

end CoolFrost
