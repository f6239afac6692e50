import CoolFrost.Fs.DirTrees
import CoolFrost.Fs.Ext2.Directories

/-!
# ext2: parent links

Every directory starts with the records `.` and `..`; in the root directory both have its own
number.  A path leads from directory to directory of the tree, so its parent links resolve as long
as there are nodes left.
-/

namespace CoolFrost

open Program

namespace Ext2

variable {fs : Ext2Fs} {d : Bytes}

/-! ## Directory trees -/

/-- The record is in use for the inode `ino` under the name `name`. -/
structure Entry (r : RecordAt) (name : List UInt8) (ino : ℕ) : Prop where
  ino_ne : ino ≠ 0
  inode : deInode r.buf r.off = ino
  name_eq : deName r.buf r.off = name

/-- The directory `c` is listed in the directory `p`. -/
def Subdir (fs : Ext2Fs) (d : Bytes) (p c : ℕ) : Prop :=
  ∃ rs name, Records fs d (inodeOn fs d p) 0 rs ∧ (∃ r ∈ rs, Entry r name c) ∧ name ≠ dotName ∧
    name ≠ dotDotName ∧ isDirInode (inodeOn fs d c) = true

/-- The directories of the tree, by their inode numbers. -/
inductive TreeDir (fs : Ext2Fs) (d : Bytes) : ℕ → Prop
  | root : TreeDir fs d rootIno
  | sub {p c : ℕ} (hp : TreeDir fs d p) (h : Subdir fs d p c) : TreeDir fs d c

/-- The directory `p` is the parent of `c`; the root is its own parent. -/
def IsParent (fs : Ext2Fs) (d : Bytes) (c p : ℕ) : Prop :=
  (c = rootIno ∧ p = rootIno) ∨ (TreeDir fs d p ∧ Subdir fs d p c)

/-- A well-formed tree: the directories consist of records, the first two of which are the dot
entries that the format prescribes. -/
structure DotTree (fs : Ext2Fs) (d : Bytes) : Prop where
  root_dir : isDirInode (inodeOn fs d rootIno) = true
  dots : ∀ c p, IsParent fs d c p → ∃ r r' rs, Records fs d (inodeOn fs d c) 0 (r :: r' :: rs) ∧
    Entry r dotName c ∧ Entry r' dotDotName p

lemma TreeDir.exists_parent {c : ℕ} (h : TreeDir fs d c) : ∃ p, IsParent fs d c p ∧
    TreeDir fs d p := by
  cases h with
  | root => exact ⟨rootIno, .inl ⟨rfl, rfl⟩, .root⟩
  | sub hp hsub => exact ⟨_, .inr ⟨hp, hsub⟩, hp⟩

lemma DotTree.isDir (h : DotTree fs d) {c : ℕ} (hc : TreeDir fs d c) :
    isDirInode (inodeOn fs d c) = true := by
  cases hc with
  | root => exact h.root_dir
  | sub _ hsub =>
    obtain ⟨-, -, -, -, -, -, hdir⟩ := hsub
    exact hdir

/-! ## Looking up in a tree -/

lemma Entry.nameMatch {r : RecordAt} {name : List UInt8} {ino : ℕ} (h : Entry r name ino)
    (hname : name.length < 256) : nameMatch r.buf r.off name = true := by
  rw [nameMatch_iff hname, h.inode]
  exact ⟨h.ino_ne, h.name_eq⟩

/-- Looking up the dot names. -/
lemma lookupRecord_dots {r r' : RecordAt} (rs : List RecordAt) {c p : ℕ} (h : Entry r dotName c)
    (h' : Entry r' dotDotName p) : lookupRecord (r :: r' :: rs) dotName = some r ∧
      lookupRecord (r :: r' :: rs) dotDotName = some r' := by
  constructor
  · exact List.find?_cons_of_pos (p := fun r : RecordAt => Ext2.nameMatch r.buf r.off dotName)
      (h.nameMatch (by decide))
  · have hno : ¬ nameMatch r.buf r.off dotDotName = true := by
      rw [nameMatch_iff (by decide), h.name_eq]
      rintro ⟨-, heq⟩
      exact absurd heq (by decide)
    rw [lookupRecord,
      List.find?_cons_of_neg (p := fun r : RecordAt => Ext2.nameMatch r.buf r.off dotDotName) hno]
    exact List.find?_cons_of_pos (p := fun r : RecordAt => Ext2.nameMatch r.buf r.off dotDotName)
      (h'.nameMatch (by decide))

/-- What is found in a directory of the tree, if it is a directory, belongs to the tree. -/
lemma DotTree.lookup (h : DotTree fs d) {c : ℕ} {rs : List RecordAt} (hc : TreeDir fs d c)
    (hrs : Records fs d (inodeOn fs d c) 0 rs) {name : List UInt8} (hname : name.length < 256)
    {r : RecordAt} (hr : lookupRecord rs name = some r)
    (hdir : isDirInode (inodeOn fs d (deInode r.buf r.off)) = true) :
    TreeDir fs d (deInode r.buf r.off) := by
  obtain ⟨p, hparent, hp⟩ := hc.exists_parent
  obtain ⟨r₀, r₁, rs', hrs', hdot, hdotDot⟩ := h.dots c p hparent
  obtain rfl := hrs.unique hrs'
  obtain ⟨hself, hup⟩ := lookupRecord_dots rs' hdot hdotDot
  by_cases hisDot : name = dotName
  · rw [hisDot, hself] at hr
    obtain rfl := Option.some.inj hr
    rw [hdot.inode]
    exact hc
  · by_cases hisDotDot : name = dotDotName
    · rw [hisDotDot, hup] at hr
      obtain rfl := Option.some.inj hr
      rw [hdotDot.inode]
      exact hp
    · have hmatch : Ext2.nameMatch r.buf r.off name = true :=
        List.find?_some (p := fun r : RecordAt => Ext2.nameMatch r.buf r.off name) hr
      obtain ⟨hino, hrname⟩ := (nameMatch_iff hname).mp hmatch
      exact hc.sub ⟨_, name, hrs, ⟨r, List.mem_of_find?_eq_some hr, hino, rfl, hrname⟩, hisDot,
        hisDotDot, hdir⟩

end Ext2

namespace Vfs

open Ext2

variable {F : RoFormats} {fs : Ext2Fs} {v : Image}

/-! ## The driver inside the kernel -/

/-- The state in which the ext2 driver is entered. -/
def ext2State (k : Kernel) : Ext2State := { k.ext2 with blk := k.blk }

/-- The volume `fs` in a state of the kernel. -/
def ext2KernelView (fs : Ext2Fs) : View Kernel Image := (ext2View fs).zoom ext2State

/-- The node `n` is one for the directory `ino` of the volume `fs`. -/
structure Ext2DirNode (fs : Ext2Fs) (nodes : ℕ → Ext2Node) (n ino : ℕ) : Prop where
  fs_eq : (nodes n).fs = fs
  dir : (nodes n).type.isDirectory = true
  inode : (nodes n).inode = ino

/-- Looking a name up in a directory. -/
lemma wp_finddir_ext2 {n ino : ℕ} {rs : List RecordAt} (hn : Ext2DirNode fs v.nodes n ino)
    (hrs : Records fs v.disk (inodeOn fs v.disk ino) 0 rs) (name : List UInt8) :
    (ext2KernelView fs).wp (finddir F (.ext2 n) name) (fun r v' =>
      match lookupRecord rs name with
      | none => r = none ∧ v' = v
      | some e =>
        if maxExt2Nodes ≤ v.used then r = none ∧ v' = v
        else r = some (.ext2 v.used) ∧ v' = { v with
          nodes := Function.update v.nodes v.used (nodeOfRecord fs v.disk n name e)
          used := v.used + 1 }) v := by
  refine View.wp_get fun k _ hk => ?_
  have hnodes : k.ext2.nodePool = v.nodes := congrArg Image.nodes hk
  have hdir : (nodeType k (.ext2 n)).isDirectory = true := by
    rw [nodeType, hnodes]
    exact hn.dir
  rw [if_pos hdir]
  refine View.wp_map (View.wp_mono (View.wp_zoom (fun _ _ => rfl)
    (wp_finddir hn.fs_eq hn.inode hrs name)) ?_)
  intro r v' hr
  cases hlookup : lookupRecord rs name with
  | none =>
    simp only [hlookup] at hr
    exact ⟨by rw [hr.1]; rfl, hr.2⟩
  | some e =>
    simp only [hlookup] at hr ⊢
    split_ifs at hr ⊢ with hfull
    · exact ⟨by rw [hr.1]; rfl, hr.2⟩
    · exact ⟨by rw [hr.1]; rfl, hr.2⟩

/-- Looking a name up in what is no directory. -/
lemma wp_finddir_file {n : ℕ} (hn : ¬ (v.nodes n).type.isDirectory = true) (name : List UInt8) :
    (ext2KernelView fs).wp (finddir F (.ext2 n) name) (fun r v' => r = none ∧ v' = v) v := by
  refine View.wp_get fun k _ hk => ?_
  have hnodes : k.ext2.nodePool = v.nodes := congrArg Image.nodes hk
  have hfile : ¬ (nodeType k (.ext2 n)).isDirectory = true := by
    rw [nodeType, hnodes]
    exact hn
  rw [if_neg hfile]
  exact View.wp_pure ⟨rfl, rfl⟩

lemma inExt2_get {α : Type} (f : Ext2State → Program Ext2State α) (k : Kernel) :
    inExt2 (get >>= f) k = inExt2 (f (ext2State k)) k := rfl

/-- Listing through a node lists the directory whose inode number it carries. -/
lemma readdirNode_ext2 {k : Kernel} {m ino : ℕ} (hm : Ext2DirNode fs k.ext2.nodePool m ino)
    (index : ℕ) : readdirNode F (.ext2 m) index k = inExt2 (readdirAt fs ino index) k := by
  change (if (nodeType k (.ext2 m)).isDirectory = true then
    inExt2 (ext2Readdir m index) else pure none) k = _
  rw [if_pos (show (nodeType k (.ext2 m)).isDirectory = true from hm.dir), ext2Readdir_eq,
    inExt2_get]
  have hnodes : (ext2State k).nodePool = k.ext2.nodePool := rfl
  rw [hnodes, hm.fs_eq, hm.inode]

/-! ## Paths -/

/-- A component fits into its buffer. -/
lemma length_of_mem_components {cur path : List UInt8} (hcur : cur.length < 256)
    {name : List UInt8} (hname : name ∈ components cur path) : name.length < 256 := by
  induction path generalizing cur with
  | nil =>
    rw [components] at hname
    split_ifs at hname
    · cases hname
    · rw [List.mem_singleton.mp hname]
      exact hcur
  | cons c path ih =>
    rw [components] at hname
    split_ifs at hname with hslash hempty hroom
    · exact ih (by decide) hname
    · rcases List.mem_cons.mp hname with rfl | hrest
      · exact hcur
      · exact ih (by decide) hrest
    · refine ih ?_ hname
      unfold maxFilename at hroom
      rw [List.length_append, List.length_singleton]
      omega
    · rcases List.mem_cons.mp hname with rfl | hrest
      · exact hcur
      · exact ih (by simp) hrest

/-- What a path leads to, if it is a directory, is one of the tree. -/
lemma wp_lookup_treeDir (htree : DotTree fs v.disk) {n : ℕ} (hn : Ext2DirNode fs v.nodes n rootIno)
    (names : List (List UInt8)) (hnames : ∀ name ∈ names, name.length < 256) :
    (ext2KernelView fs).wp (lookup (finddir F) names (.ext2 n)) (fun r v' => ∃ nodes used,
      v' = { v with nodes := nodes, used := used } ∧ ∀ node, r = some node →
        used = v.used + names.length ∧ ∃ m, node = .ext2 m ∧
          ((nodes m).type.isDirectory = true →
            ∃ ino, TreeDir fs v.disk ino ∧ Ext2DirNode fs nodes m ino)) v := by
  induction names using List.reverseRecOn with
  | nil =>
    refine View.wp_pure ⟨v.nodes, v.used, rfl, ?_⟩
    rintro _ ⟨⟩
    exact ⟨rfl, n, rfl, fun _ => ⟨rootIno, .root, hn⟩⟩
  | append_singleton names name ih =>
    rw [lookup_append, List.length_append, List.length_singleton]
    refine View.wp_bind (ih fun name' h => hnames name' (List.mem_append_left _ h)) ?_
    rintro r _ ⟨nodes, used, rfl, hr⟩
    cases r with
    | none => exact View.wp_pure ⟨nodes, used, rfl, by simp⟩
    | some node =>
      obtain ⟨rfl, m, rfl, hdir⟩ := hr node rfl
      by_cases hm : (nodes m).type.isDirectory = true
      · obtain ⟨ino, hino, hmNode⟩ := hdir hm
        obtain ⟨p, hparent, -⟩ := hino.exists_parent
        obtain ⟨r₀, r₁, rs, hrs, -, -⟩ := htree.dots ino p hparent
        refine View.wp_mono (wp_finddir_ext2 (v := { v with nodes := nodes, used := _ }) hmNode hrs
          name) ?_
        intro r v' hr
        cases hlookup : lookupRecord (r₀ :: r₁ :: rs) name with
        | none =>
          rw [hlookup] at hr
          obtain ⟨rfl, rfl⟩ := hr
          exact ⟨_, _, rfl, by simp⟩
        | some e =>
          rw [hlookup] at hr
          dsimp only at hr
          split_ifs at hr with hfull
          · obtain ⟨rfl, rfl⟩ := hr
            exact ⟨_, _, rfl, by simp⟩
          · obtain ⟨rfl, rfl⟩ := hr
            refine ⟨_, _, rfl, ?_⟩
            rintro _ ⟨⟩
            refine ⟨by omega, _, rfl, fun hisDir => ⟨deInode e.buf e.off, ?_, ?_, hisDir, ?_⟩⟩
            · refine htree.lookup hino hrs
                (hnames name (List.mem_append_right _ (List.mem_singleton_self name))) hlookup ?_
              rw [Function.update_self, nodeOfRecord] at hisDir
              by_contra hno
              rw [if_neg hno] at hisDir
              cases hisDir
            · rw [Function.update_self]
              rfl
            · rw [Function.update_self]
              rfl
      · refine View.wp_mono (wp_finddir_file (v := { v with nodes := nodes, used := _ }) hm name) ?_
        rintro _ _ ⟨rfl, rfl⟩
        exact ⟨_, _, rfl, by simp⟩

/-! ## Parent links -/

/-- The volume `fs` is mounted with the node `n` for its root directory. -/
structure Ext2Mounted (fs : Ext2Fs) (v : Image) (k : Kernel) (n : ℕ) : Prop where
  noFail : k.blk.NoFail
  view_eq : (ext2View fs).view (ext2State k) = v
  root : Ext2DirNode fs v.nodes n rootIno

/-- The directories of a volume. -/
def ext2Tree (fs : Ext2Fs) (d : Bytes) : DirTree where
  Denotes ino c := ino = c ∧ TreeDir fs d c
  Parent c p := IsParent fs d c p
  list c index := inExt2 (readdirAt fs c index)

lemma Ext2Mounted.used {k : Kernel} {n : ℕ} (h : Ext2Mounted fs v k n) :
    nodesUsed k (VNode.ext2 n).driver = v.used := congrArg Image.used h.view_eq

/-- A path to a directory leads to one of the tree. -/
lemma Ext2Mounted.leadsToDir {k : Kernel} {n : ℕ} {path : List UInt8} (h : Ext2Mounted fs v k n)
    (htree : DotTree fs v.disk) {node : VNode} {k₁ : Kernel}
    (hwalk : walkPath F (some (.ext2 n)) path k = some (some node, k₁))
    (hdir : (nodeType k₁ node).isDirectory = true) :
    ∃ m ino nodes, node = .ext2 m ∧ k₁.ext2.nodePool = nodes ∧ TreeDir fs v.disk ino ∧
      Ext2DirNode fs nodes m ino ∧ (ext2KernelView fs).good k₁ ∧ (ext2KernelView fs).view k₁ =
        { v with nodes := nodes, used := v.used + (components [] path).length } := by
  have hpath : lookup (finddir F) (components [] path) (.ext2 n) k = some (some node, k₁) := by
    rw [← hwalk, walkPath_eq]
    rfl
  obtain ⟨hgood, nodes, used, hview, hnode⟩ := wlp_of_wp
    (wp_lookup_treeDir htree h.root (components [] path)
      (fun _ => length_of_mem_components (by decide)) k h.noFail h.view_eq) _ _ hpath
  obtain ⟨rfl, m, rfl, hfound⟩ := hnode node rfl
  have hnodes : k₁.ext2.nodePool = nodes := congrArg Image.nodes hview
  rw [nodeType, hnodes] at hdir
  obtain ⟨ino, hino, hm⟩ := hfound hdir
  exact ⟨m, ino, nodes, rfl, hnodes, hino, hm, hgood, hview⟩

/-- With a node left, looking up a dot name gives a node for the directory it stands for. -/
lemma listsDir_of_lookup (htree : DotTree fs v.disk) {k k₁ : Kernel} {root : VNode} {m ino c : ℕ}
    {path name : List UInt8} {rs : List RecordAt} {r : RecordAt}
    (hgood : (ext2KernelView fs).good k₁) (hview : (ext2KernelView fs).view k₁ = v)
    (hwalk : walkPath F (some root) path k = some (some (.ext2 m), k₁))
    (hm : Ext2DirNode fs v.nodes m ino) (hrs : Records fs v.disk (inodeOn fs v.disk ino) 0 rs)
    (hname : components [] name = [name]) (hlookup : lookupRecord rs name = some r)
    (hentry : Entry r name c) (hc : TreeDir fs v.disk c) (hroom : v.used < maxExt2Nodes) :
    ListsDir F k (ext2Tree fs v.disk) root (path ++ slash :: name) c := by
  obtain ⟨r', k₂, heq, -, hr⟩ := wp_finddir_ext2 (F := F) hm hrs name k₁ hgood hview
  rw [hlookup] at hr
  dsimp only at hr
  rw [if_neg (Nat.not_le.mpr hroom)] at hr
  obtain ⟨rfl, hview'⟩ := hr
  have hnodes : k₂.ext2.nodePool = _ := congrArg Image.nodes hview'
  have hnew : Ext2DirNode fs k₂.ext2.nodePool v.used c := by
    rw [hnodes]
    refine ⟨?_, ?_, ?_⟩
    · simp only [Function.update_self, nodeOfRecord]
    · simp only [Function.update_self, nodeOfRecord, hentry.inode, htree.isDir hc]
      rfl
    · simp only [Function.update_self, nodeOfRecord, hentry.inode]
  refine ⟨_, k₂, (walkPath_slash hwalk hname).trans heq, fun index => ?_⟩
  rw [readdirNode_ext2 hnew]
  rfl

/-- The parent links of a directory resolve exactly if there is a node left for the dot
component. -/
lemma Ext2Mounted.parentLinks_iff_top {k : Kernel} {n : ℕ} {path : List UInt8}
    (h : Ext2Mounted fs v k n) (htree : DotTree fs v.disk)
    (hdir : LeadsToDir F k (.ext2 n) path) :
    ParentLinks F k (ext2Tree fs v.disk) (.ext2 n) path ↔ RoomBelow k (.ext2 n) path := by
  obtain ⟨node, k₁, hwalk, hisDir⟩ := hdir
  obtain ⟨m, ino, nodes, rfl, hnodes, hino, hm, hgood, hview⟩ := h.leadsToDir htree hwalk hisDir
  obtain ⟨p, hparent, hp⟩ := hino.exists_parent
  obtain ⟨r, r', rs, hrs, hdot, hdotDot⟩ := htree.dots ino p hparent
  obtain ⟨hself, hup⟩ := lookupRecord_dots rs hdot hdotDot
  rw [RoomBelow, h.used]
  constructor
  · rintro ⟨_, _, _, _, ⟨here, k₂, hhere, -⟩, -⟩
    rw [walkPath_slash hwalk rfl] at hhere
    obtain ⟨-, hr⟩ := wlp_of_wp (wp_finddir_ext2 (v := { v with nodes := nodes, used := _ }) hm hrs
      dotName k₁ hgood hview) _ _ hhere
    rw [hself] at hr
    dsimp only at hr
    by_contra hfull
    have hle : maxExt2Nodes ≤ v.used + (components [] path).length := Nat.le_of_not_lt hfull
    rw [if_pos hle] at hr
    cases hr.1
  · intro hroom
    refine ⟨ino, p, ⟨_, k₁, hwalk, hisDir, ?_, hino⟩, hparent, ?_, ?_⟩
    · change (k₁.ext2.nodePool m).inode = ino
      rw [hnodes]
      exact hm.inode
    · exact listsDir_of_lookup (v := { v with nodes := nodes, used := _ })
        htree hgood hview hwalk hm
        hrs rfl hself hdot hino hroom
    · exact listsDir_of_lookup (v := { v with nodes := nodes, used := _ })
        htree hgood hview hwalk hm
        hrs rfl hup hdotDot hp hroom

end Vfs

end CoolFrost
