import CoolFrost.Fs.DirTrees
import CoolFrost.Fs.Fat32.DotEntries

/-!
# FAT32: parent links

A path is resolved along a trail.  The dot entries of a directory below the first level lead on;
`..` in a directory of the first level leads to cluster 0, and the root has no dot entries at all.
-/

namespace CoolFrost

open Program

namespace Vfs

open Fat32

variable {F : RoFormats} {fs : Fat32Fs} {v : Volume}

/-! ## The driver inside the kernel -/

/-- The state in which the FAT32 driver is entered. -/
def fat32State (k : Kernel) : Fat32State := { k.fat32 with blk := k.blk }

/-- The volume `fs` in a state of the kernel. -/
def kernelView (fs : Fat32Fs) : View Kernel Volume := (fat32View fs).zoom fat32State

lemma wp_inFat32 {α : Type} {m : Program Fat32State α} {R : α → Volume → Prop}
    (h : (fat32View fs).wp m R v) : (kernelView fs).wp (inFat32 m) R v :=
  View.wp_zoom (fun _ _ => rfl) h

/-- The node `n` is one for the directory `d` of the volume `fs`. -/
structure DirNode (fs : Fat32Fs) (nodes : ℕ → Fat32Node) (n d : ℕ) : Prop where
  fs_eq : (nodes n).fi.fs = fs
  dir : (nodes n).type.isDirectory = true
  inode : (nodes n).inode = d

/-- Looking a name up in a directory. -/
lemma wp_finddir_fat32 (hl : Layout fs) {n d : ℕ} {l : List ℕ} (hn : DirNode fs v.nodes n d)
    (hchain : ChainAt fs v.fat d l) (name : List UInt8) :
    (kernelView fs).wp (finddir F (.fat32 n) name) (fun r v' =>
      match lookupEntry fs v l name with
      | none => r = none ∧ v' = v
      | some e =>
        if maxVfsNodes ≤ v.used then r = none ∧ v' = v
        else r = some (.fat32 v.used) ∧ v' = { v with
          nodes := Function.update v.nodes v.used (nodeOfEntry fs n e), used :=
          v.used + 1 }) v := by
  refine View.wp_get fun k _ hk => ?_
  have hnodes : k.fat32.nodePool = v.nodes := congrArg Volume.nodes hk
  have hdir : (nodeType k (.fat32 n)).isDirectory = true := by
    rw [nodeType, hnodes]
    exact hn.dir
  rw [if_pos hdir]
  refine View.wp_map (View.wp_mono
    (wp_inFat32 (wp_finddir hl hn.fs_eq (hn.inode ▸ hchain) name)) ?_)
  intro r v' hr
  cases hlookup : lookupEntry fs v l name with
  | none =>
    simp only [hlookup] at hr
    exact ⟨by rw [hr.1]; rfl, hr.2⟩
  | some e =>
    simp only [hlookup] at hr ⊢
    split_ifs at hr ⊢ with hfull
    · exact ⟨by rw [hr.1]; rfl, hr.2⟩
    · exact ⟨by rw [hr.1]; rfl, hr.2⟩

/-- Looking a name up in what is no directory, or in cluster 0. -/
lemma wp_finddir_none (hl : Layout fs) (hempty : EmptyBeyond fs v) {n : ℕ}
    (hfs : (v.nodes n).fi.fs = fs)
    (hn : (v.nodes n).type.isDirectory = true → (v.nodes n).inode = 0) (name : List UInt8) :
    (kernelView fs).wp (finddir F (.fat32 n) name) (fun r v' => r = none ∧ v' = v) v := by
  refine View.wp_get fun k _ hk => ?_
  have hnodes : k.fat32.nodePool = v.nodes := congrArg Volume.nodes hk
  refine View.wp_ite (fun hdir => ?_) fun _ => View.wp_pure ⟨rfl, rfl⟩
  have hzero : (v.nodes n).inode = 0 := by
    refine hn ?_
    rw [← hnodes]
    exact hdir
  refine View.wp_map (wp_inFat32 (View.wp_get fun s _ hs => ?_))
  have hpool : s.nodePool = v.nodes := congrArg Volume.nodes hs
  simp only [hpool, hfs, hzero]
  refine View.wp_bind (wp_dirWalk_zero hl hempty (findStep name) () ?_) ?_
  · intro lba buf off acc hend
    rw [findStep, hend]
  · rintro _ v ⟨rfl, rfl⟩
    exact View.wp_pure ⟨rfl, rfl⟩

/-! ## Paths -/

/-- The node that is made of an entry. -/
lemma nodeOfEntry_spec (fs : Fat32Fs) (v : Volume) (n : ℕ) {a : ℕ} (ha : 32 ∣ a) :
    (nodeOfEntry fs n (entryAt fs v a)).type.isDirectory = deIsDir v.data a ∧
      (nodeOfEntry fs n (entryAt fs v a)).inode = deCluster v.data a := by
  obtain ⟨hdir, hcluster, -⟩ := entryAt_spec fs v ha
  refine ⟨?_, hcluster⟩
  rw [nodeOfEntry, hdir]
  cases deIsDir v.data a <;> rfl

/-- A trail is walked if there is room for its nodes. -/
lemma wp_lookup_trail (hl : Layout fs) {names : List (List UInt8)} {d n : ℕ}
    (hn : DirNode fs v.nodes n fs.rootCluster) (ht : Trail fs v names d)
    (hroom : v.used + names.length ≤ maxVfsNodes) :
    (kernelView fs).wp (lookup (finddir F) names (.fat32 n)) (fun r v' => ∃ m nodes,
      r = some (.fat32 m) ∧ v' = { v with nodes := nodes, used := v.used + names.length } ∧
      DirNode fs nodes m d) v := by
  induction ht with
  | root => exact View.wp_pure ⟨n, v.nodes, rfl, rfl, hn⟩
  | @step names d c name h hstep ih =>
    rw [List.length_append, List.length_singleton, ← Nat.add_assoc] at hroom ⊢
    obtain ⟨-, l, a, hchain, ha, hlookup, hdir, rfl⟩ := hstep
    rw [lookup_append]
    refine View.wp_bind (ih (by omega)) ?_
    rintro _ _ ⟨m, nodes, rfl, rfl, hm⟩
    refine View.wp_mono (wp_finddir_fat32 hl (v := { v with nodes := _, used := _ })
      hm hchain name) ?_
    intro r v' hr
    change match lookupEntry fs v l name with | none => _ | some e => _ at hr
    rw [hlookup] at hr
    dsimp only at hr
    rw [if_neg (by omega)] at hr
    obtain ⟨rfl, rfl⟩ := hr
    obtain ⟨htype, hinode⟩ := nodeOfEntry_spec fs v m ha
    refine ⟨_, _, rfl, rfl, ?_, ?_, ?_⟩
    · rw [Function.update_self]
      rfl
    · rw [Function.update_self, htype, hdir]
    · rw [Function.update_self, hinode]

/-- What a path leads to lies at the end of a trail, or has cluster 0. -/
lemma wp_lookup_exists (hl : Layout fs) (htree : DotTree fs v) (hempty : EmptyBeyond fs v) {n : ℕ}
    (hn : DirNode fs v.nodes n fs.rootCluster) (names : List (List UInt8)) :
    (kernelView fs).wp (lookup (finddir F) names (.fat32 n)) (fun r v' => ∃ nodes used,
      v' = { v with nodes := nodes, used := used } ∧ ∀ node, r = some node →
        used = v.used + names.length ∧ ∃ m, node = .fat32 m ∧ (nodes m).fi.fs = fs ∧
          ((nodes m).type.isDirectory = true →
            (nodes m).inode = 0 ∨ Trail fs v names (nodes m).inode)) v := by
  induction names using List.reverseRecOn with
  | nil =>
    refine View.wp_pure ⟨v.nodes, v.used, rfl, ?_⟩
    rintro _ ⟨⟩
    refine ⟨rfl, n, rfl, hn.fs_eq, fun _ => .inr ?_⟩
    rw [hn.inode]
    exact .root
  | append_singleton names name ih =>
    rw [lookup_append, List.length_append, List.length_singleton]
    refine View.wp_bind ih ?_
    rintro r _ ⟨nodes, used, rfl, hr⟩
    cases r with
    | none => exact View.wp_pure ⟨nodes, used, rfl, by simp⟩
    | some node =>
      obtain ⟨rfl, m, rfl, hfs, hdir⟩ := hr node rfl
      by_cases htrail : (nodes m).type.isDirectory = true ∧ Trail fs v names (nodes m).inode
      · obtain ⟨hm, ht⟩ := htrail
        obtain ⟨l, hchain⟩ := htree.chain (htree.trail hl ht)
        refine View.wp_mono (wp_finddir_fat32 hl (v := { v with nodes := nodes, used := _ })
          ⟨hfs, hm, rfl⟩ hchain name) ?_
        intro r v' hr
        change match lookupEntry fs v _ name with | none => _ | some e => _ at hr
        cases hlookup : lookupEntry fs v (_ :: l) name with
        | none =>
          rw [hlookup] at hr
          obtain ⟨rfl, rfl⟩ := hr
          exact ⟨_, _, rfl, by simp⟩
        | some e =>
          rw [hlookup] at hr
          dsimp only at hr
          split_ifs at hr with hfull
          · obtain ⟨rfl, rfl⟩ := hr
            exact ⟨_, _, rfl, by simp⟩
          · obtain ⟨rfl, rfl⟩ := hr
            refine ⟨_, _, rfl, ?_⟩
            rintro _ ⟨⟩
            refine ⟨by omega, _, rfl, ?_, fun hisDir => ?_⟩
            · rw [Function.update_self]
              rfl
            · obtain ⟨k, hk, rfl, -, -⟩ := exists_of_lookupEntry hl hlookup
              have ha := slotAt_dvd fs ((nodes m).inode :: l) k
              obtain ⟨htype, hinode⟩ := nodeOfEntry_spec fs v m ha
              rw [Function.update_self] at hisDir ⊢
              rw [htype] at hisDir
              rw [hinode]
              by_cases hzero : deCluster v.data (slotAt fs ((nodes m).inode :: l) k) = 0
              · exact .inl hzero
              · exact .inr (ht.step ⟨hzero, _, _, hchain, ha, hlookup, hisDir, rfl⟩)
      · -- no directory, or the one with cluster 0
        refine View.wp_mono (wp_finddir_none hl (v := { v with nodes := nodes, used := _ }) hempty
          hfs (fun hm => ?_) name) ?_
        · exact (hdir hm).resolve_right fun ht => htrail ⟨hm, ht⟩
        · rintro _ _ ⟨rfl, rfl⟩
          exact ⟨_, _, rfl, by simp⟩

/-! ## Parent links -/

/-- The volume `fs` is mounted with the node `n` for its root directory. -/
structure Fat32Mounted (fs : Fat32Fs) (v : Volume) (k : Kernel) (n : ℕ) : Prop where
  layout : Layout fs
  sound : Sound fs (fat32State k)
  view_eq : (fat32View fs).view (fat32State k) = v
  root : DirNode fs v.nodes n fs.rootCluster

/-- The directories of a volume.  A node with cluster 0 is one for the root directory, as `..` has
it in the directories of the first level. -/
def fat32Tree (fs : Fat32Fs) (v : Volume) : DirTree where
  Denotes i d := (i = d ∧ TreeDir fs v d) ∨ (i = 0 ∧ d = fs.rootCluster)
  Parent d p := (d = fs.rootCluster ∧ p = fs.rootCluster) ∨ (TreeDir fs v p ∧ Subdir fs v p d)
  list d index := inFat32 (readdirAt fs d index)

/-- The path leads, without passing through cluster 0, to a directory whose parent is not the
root. -/
def BelowFirstLevel (fs : Fat32Fs) (v : Volume) (d : List UInt8) : Prop :=
  ∃ dir parent, Trail fs v (components [] d) dir ∧ TreeDir fs v parent ∧ Subdir fs v parent dir ∧
    parent ≠ fs.rootCluster

lemma Fat32Mounted.used {k : Kernel} {n : ℕ} (h : Fat32Mounted fs v k n) :
    nodesUsed k (VNode.fat32 n).driver = v.used := congrArg Volume.used h.view_eq

lemma inFat32_get {α : Type} (f : Fat32State → Program Fat32State α) (k : Kernel) :
    inFat32 (get >>= f) k = inFat32 (f (fat32State k)) k := rfl

/-- Listing through a node lists the directory whose first cluster it carries. -/
lemma readdirNode_fat32 {k : Kernel} {m c : ℕ} (hm : DirNode fs k.fat32.nodePool m c) (index : ℕ) :
    readdirNode F (.fat32 m) index k = inFat32 (readdirAt fs c index) k := by
  change (if (nodeType k (.fat32 m)).isDirectory = true then
    inFat32 (fat32Readdir m index) else pure none) k = _
  rw [if_pos (show (nodeType k (.fat32 m)).isDirectory = true from hm.dir), fat32Readdir_eq,
    inFat32_get]
  have hnodes : (fat32State k).nodePool = k.fat32.nodePool := rfl
  rw [hnodes, hm.fs_eq, hm.inode]

/-- The path of a trail is resolved if there is room for its nodes. -/
lemma Fat32Mounted.walkPath_trail {k : Kernel} {n d : ℕ} {path : List UInt8}
    (h : Fat32Mounted fs v k n) (ht : Trail fs v (components [] path) d)
    (hroom : v.used + (components [] path).length ≤ maxVfsNodes) :
    ∃ m k', walkPath F (some (.fat32 n)) path k = some (some (.fat32 m), k') ∧
      DirNode fs k'.fat32.nodePool m d := by
  obtain ⟨r, k', heq, -, m, nodes, rfl, hview, hm⟩ :=
    wp_lookup_trail (F := F) h.layout h.root ht hroom k h.sound h.view_eq
  refine ⟨m, k', ?_, ?_⟩
  · rw [walkPath_eq]
    exact heq
  · have hnodes : k'.fat32.nodePool = nodes := congrArg Volume.nodes hview
    rw [hnodes]
    exact hm

lemma Fat32Mounted.listsDir_trail {k : Kernel} {n d : ℕ} {path : List UInt8}
    (h : Fat32Mounted fs v k n) (ht : Trail fs v (components [] path) d)
    (hroom : v.used + (components [] path).length ≤ maxVfsNodes) :
    ListsDir F k (fat32Tree fs v) (.fat32 n) path d := by
  obtain ⟨m, k', hwalk, hm⟩ := h.walkPath_trail (F := F) ht hroom
  refine ⟨.fat32 m, k', hwalk, fun index => ?_⟩
  rw [readdirNode_fat32 hm]
  rfl

/-- Below the first level the parent links resolve. -/
lemma Fat32Mounted.parentLinks {k : Kernel} {n : ℕ} {d : List UInt8} (h : Fat32Mounted fs v k n)
    (htree : DotTree fs v) (hroom : RoomBelow k (.fat32 n) d) (hbelow : BelowFirstLevel fs v d) :
    ParentLinks F k (fat32Tree fs v) (.fat32 n) d := by
  obtain ⟨dir, parent, ht, hparent, hsub, hne⟩ := hbelow
  rw [RoomBelow, h.used] at hroom
  have hone : ∀ name, v.used + (components [] d ++ [name]).length ≤ maxVfsNodes := by
    intro name
    rw [List.length_append, List.length_singleton]
    exact hroom
  have hdot : components [] (d ++ slash :: dotName) = components [] d ++ [dotName] :=
    components_slash [] d dotName
  have hdotDot : components [] (d ++ slash :: dotDotName) = components [] d ++ [dotDotName] :=
    components_slash [] d dotDotName
  refine ⟨dir, parent, ?_, .inr ⟨hparent, hsub⟩, ?_, ?_⟩
  · obtain ⟨m, k', hwalk, hm⟩ := h.walkPath_trail (F := F) ht (Nat.le_of_lt hroom)
    exact ⟨.fat32 m, k', hwalk, hm.dir, .inl ⟨hm.inode, hparent.sub hsub⟩⟩
  · refine h.listsDir_trail ?_ (hdot ▸ hone _)
    rw [hdot]
    exact ht.step (htree.leads_dot h.layout hparent hsub)
  · refine h.listsDir_trail ?_ (hdotDot ▸ hone _)
    rw [hdotDot]
    exact ht.step (htree.leads_dotDot h.layout hparent hsub hne)

/-- Listing cluster 0 lists nothing. -/
lemma wp_readdirAt_zero (hl : Layout fs) (hempty : EmptyBeyond fs v) (index : ℕ) :
    (fat32View fs).wp (readdirAt fs 0 index) (fun r v' => v' = v ∧ r = none) v := by
  refine View.wp_bind (wp_dirWalk_zero hl hempty (listStep index) 0 ?_) ?_
  · intro lba buf off acc hend
    rw [listStep, hend]
  · rintro _ v ⟨rfl, rfl⟩
    exact View.wp_pure ⟨rfl, rfl⟩

/-- A directory with a subdirectory is listed differently. -/
lemma list_ne_zero (hl : Layout fs) (htree : DotTree fs v) (hempty : EmptyBeyond fs v) {k : Kernel}
    (hgood : (kernelView fs).good k) {nodes : ℕ → Fat32Node} {used p c : ℕ}
    (hview : (kernelView fs).view k = { v with nodes := nodes, used := used })
    (hp : TreeDir fs v p) (hsub : Subdir fs v p c) :
    (inFat32 (readdirAt fs 0 0) k).map Prod.fst ≠ (inFat32 (readdirAt fs p 0) k).map Prod.fst := by
  obtain ⟨l, j, name, hchain, hj, hentry, -, -⟩ := hsub
  obtain ⟨r, k', heq, -, -, rfl⟩ := wp_inFat32 (wp_readdirAt_zero hl (v := { v with
    nodes := nodes, used := used }) hempty 0) k hgood hview
  obtain ⟨r, k'', heq', -, -, rfl⟩ := wp_inFat32 (wp_readdirAt hl (v := { v with
    nodes := nodes, used := used }) hchain 0) k hgood hview
  obtain ⟨de, hde⟩ := exists_listEntry hl (htree.ended p l hp hchain) hj hentry.valid
  change listEntry fs { v with nodes := nodes, used := used } l 0 = some de at hde
  rw [heq, heq', Option.map_some, Option.map_some, hde]
  simp

/-- Parent links that resolve are those of a directory below the first level. -/
lemma Fat32Mounted.below {k : Kernel} {n : ℕ} {d : List UInt8} (h : Fat32Mounted fs v k n)
    (htree : DotTree fs v) (hempty : EmptyBeyond fs v)
    (hlinks : ParentLinks F k (fat32Tree fs v) (.fat32 n) d) :
    RoomBelow k (.fat32 n) d ∧ BelowFirstLevel fs v d := by
  have hl := h.layout
  obtain ⟨dir, parent, ⟨node, k₁, hwalk, hisDir, hdenotes⟩, hparent, hhere, hup⟩ := hlinks
  have hpath : lookup (finddir F) (components [] d) (.fat32 n) k = some (some node, k₁) := by
    rw [← hwalk, walkPath_eq]
    rfl
  obtain ⟨hgood, nodes, used, hview, hnode⟩ := wlp_of_wp
    (wp_lookup_exists hl htree hempty h.root (components [] d) k h.sound h.view_eq) _ _ hpath
  obtain ⟨hused, m, rfl, hfs, hfound⟩ := hnode node rfl
  have hnodes : k₁.fat32.nodePool = nodes := congrArg Volume.nodes hview
  change (k₁.fat32.nodePool m).type.isDirectory = true at hisDir
  change ((k₁.fat32.nodePool m).inode = dir ∧ _) ∨ ((k₁.fat32.nodePool m).inode = 0 ∧ _) at hdenotes
  rw [hnodes] at hisDir hdenotes
  -- both dot names are looked up in the node of the directory
  obtain ⟨here, k₂, hdot, hlist⟩ := hhere
  rw [walkPath_slash hwalk rfl] at hdot
  obtain ⟨up, k₃, hdotDot, hlist'⟩ := hup
  rw [walkPath_slash hwalk rfl] at hdotDot
  by_cases hzero : (nodes m).inode = 0
  · obtain ⟨-, hnone, -⟩ :=
      wlp_of_wp (wp_finddir_none hl (v := { v with nodes := nodes, used := used })
      hempty hfs (fun _ => hzero) dotName k₁ hgood hview) _ _ hdot
    cases hnone
  · have ht := (hfound hisDir).resolve_left hzero
    obtain ⟨rfl, hdir⟩ := hdenotes.resolve_right fun h0 => hzero h0.1
    obtain ⟨l, hchain⟩ := htree.chain hdir
    have hm : DirNode fs nodes m (nodes m).inode := ⟨hfs, hisDir, rfl⟩
    have hfind : ∀ name r k', finddir F (.fat32 m) name k₁ = some (some r, k') →
        used < maxVfsNodes ∧ ∃ e, lookupEntry fs v ((nodes m).inode :: l) name = some e ∧
          r = .fat32 used ∧ (kernelView fs).good k' ∧ (kernelView fs).view k' = { v with
            nodes := Function.update nodes used (nodeOfEntry fs m e), used := used + 1 } := by
      intro name r k' hr
      obtain ⟨hgood', hr⟩ := wlp_of_wp
        (wp_finddir_fat32 hl (v := { v with nodes := nodes, used := used })
        hm hchain name k₁ hgood hview) _ _ hr
      change match lookupEntry fs v _ name with | none => _ | some e => _ at hr
      cases hlookup : lookupEntry fs v ((nodes m).inode :: l) name with
      | none =>
        rw [hlookup] at hr
        cases hr.1
      | some e =>
        rw [hlookup] at hr
        dsimp only at hr
        split_ifs at hr with hfull
        · cases hr.1
        · exact ⟨Nat.lt_of_not_le hfull, e, rfl, Option.some.inj hr.1, hgood', hr.2⟩
    obtain ⟨hroom, e, hlookup, -⟩ := hfind _ _ _ hdot
    obtain ⟨-, e', hlookup', rfl, hgood', hview'⟩ := hfind _ _ _ hdotDot
    refine ⟨?_, ?_⟩
    · rw [RoomBelow, h.used, ← hused]
      exact hroom
    · -- the root has no dot entries
      have hsub : TreeDir fs v parent ∧ Subdir fs v parent (nodes m).inode := by
        refine hparent.resolve_left ?_
        rintro ⟨hroot, -⟩
        rw [hroot] at hchain hlookup
        rw [(htree.lookup_root hl hchain).1] at hlookup
        cases hlookup
      refine ⟨_, parent, ht, hsub.1, hsub.2, ?_⟩
      rintro rfl
      -- in the first level, `..` has cluster 0
      obtain ⟨-, hentry⟩ := htree.lookup_sub hl (l := l) hsub.1 hsub.2
      obtain ⟨-, -, -, hdotDotEntry⟩ := htree.dots _ _ hsub.1 hsub.2
      rw [hentry] at hlookup'
      obtain rfl := Option.some.inj hlookup'
      have hoff := Nat.dvd_add (clusterOff_dvd fs (nodes m).inode) (show 32 ∣ 32 by decide)
      obtain ⟨htype, hinode⟩ := nodeOfEntry_spec fs v m hoff
      have hnodes' := congrArg Volume.nodes hview'
      change k₃.fat32.nodePool = Function.update _ _ _ at hnodes'
      have hup : DirNode fs k₃.fat32.nodePool used 0 := by
        rw [hnodes']
        refine ⟨?_, ?_, ?_⟩
        · rw [Function.update_self]
          rfl
        · rw [Function.update_self, htype]
          exact hdotDotEntry.dir
        · rw [Function.update_self, hinode, hdotDotEntry.cluster, if_pos rfl]
      have hsame := hlist' 0
      rw [readdirNode_fat32 hup] at hsame
      exact list_ne_zero hl htree hempty hgood' hview' hsub.1 hsub.2 hsame

end Vfs

end CoolFrost
