import CoolFrost.Fs.DescriptorRuns

/-!
# The two ways to read a path

`walk_path` cuts a path into components while it walks; `split_parent` cuts off what comes after the
last slash and walks the rest.  Both call `finddir` through the pointer in the node, so that what
they do is a matter of the path alone: it is the same lookup of the parts between the slashes as
long as the parts and the path fit into the buffers.
-/

namespace CoolFrost

namespace Vfs

open Program

/-! ## Lookups through any `finddir` -/

/-- What the `finddir` pointers of the nodes do. -/
abbrev Finddir := VNode → List UInt8 → Program Kernel (Option VNode)

/-- One name after the other is looked up, starting at a node. -/
def lookup (find : Finddir) : List (List UInt8) → VNode → Program Kernel (Option VNode)
  | [], node => return some node
  | name :: rest, node => do
    match ← find node name with
    | none => return none
    | some child => lookup find rest child

/-- `walk_path`, for the given `finddir` pointers. -/
def walkWith (find : Finddir) (root : Option VNode) (relpath : List UInt8) :
    Program Kernel (Option VNode) :=
  match root with
  | none => return none
  | some r => lookup find (components [] relpath) r

/-- `split_parent`, for the given `finddir` pointers. -/
def splitWith (find : Finddir) (m : MountPoint) (relpath : List UInt8) :
    Program Kernel (Option VNode × List UInt8) := do
  match splitLast relpath with
  | none => return (m.root, relpath.take (maxFilename - 1))
  | some (dirpath, name) =>
    if maxPath ≤ dirpath.length then return (none, [])
    else return (← walkWith find m.root dirpath, name.take (maxFilename - 1))

lemma walkComponents_eq (F : RoFormats) (names : List (List UInt8)) (node : VNode) :
    walkComponents F names node = lookup (finddir F) names node := by
  induction names generalizing node with
  | nil => rfl
  | cons name rest ih =>
    unfold walkComponents lookup
    refine congrArg _ (funext fun r => ?_)
    cases r with
    | none => rfl
    | some child => exact ih child

/-- The paths of the kernel are read with the `finddir` of its drivers. -/
lemma walkPath_eq (F : RoFormats) (root : Option VNode) (relpath : List UInt8) :
    walkPath F root relpath = walkWith (finddir F) root relpath := by
  cases root with
  | none => rfl
  | some r => exact walkComponents_eq F _ r

lemma splitParent_eq (F : RoFormats) (m : MountPoint) (relpath : List UInt8) :
    splitParent F m relpath = splitWith (finddir F) m relpath := by
  unfold splitParent splitWith
  cases splitLast relpath with
  | none => rfl
  | some x =>
    obtain ⟨dirpath, name⟩ := x
    dsimp only
    rw [walkPath_eq]

/-! ## Parts of a path -/

/-- The parts of a path between its slashes that are not empty. -/
def parts (relpath : List UInt8) : List (List UInt8) :=
  (relpath.splitOn slash).filter (· ≠ [])

/-- The path does not end with a slash, and is not empty. -/
def EndsInName (relpath : List UInt8) : Prop := (relpath.splitOn slash).getLast? ≠ some []

/-- What comes after the last slash, and what comes before it. -/
lemma splitLast_append {dirpath name : List UInt8} (hname : slash ∉ name) :
    splitLast (dirpath ++ slash :: name) = some (dirpath, name) := by
  have hrev : (dirpath ++ slash :: name).reverse = name.reverse ++ slash :: dirpath.reverse := by
    simp
  have htake : ((dirpath ++ slash :: name).reverse.takeWhile (· != slash)) = name.reverse := by
    rw [hrev, List.takeWhile_append_of_pos, List.takeWhile_cons_of_neg, List.append_nil]
    · simp
    · intro c hc
      simp only [bne_iff_ne]
      rintro rfl
      exact hname (List.mem_reverse.mp hc)
  unfold splitLast
  rw [if_pos (List.mem_append_right _ List.mem_cons_self)]
  dsimp only
  rw [htake, List.reverse_reverse]
  refine congrArg some (Prod.ext ?_ rfl)
  have hlen : (dirpath ++ slash :: name).length - name.length - 1 = dirpath.length := by
    simp
    omega
  dsimp only
  rw [hlen, List.take_left]

/-- A path has no slash, or it is cut at its last one. -/
lemma splitLast_cases (relpath : List UInt8) :
    (slash ∉ relpath ∧ splitLast relpath = none) ∨
    ∃ dirpath name, relpath = dirpath ++ slash :: name ∧ slash ∉ name ∧
      splitLast relpath = some (dirpath, name) := by
  by_cases hmem : slash ∈ relpath
  · obtain ⟨as, bs, heq, hnot⟩ := List.eq_append_cons_of_mem (List.mem_reverse.mpr hmem)
    have hrel : relpath = bs.reverse ++ slash :: as.reverse := by
      rw [← List.reverse_reverse relpath, heq]
      simp
    have hnot' : slash ∉ as.reverse := fun h => hnot (List.mem_reverse.mp h)
    exact .inr ⟨bs.reverse, as.reverse, hrel, hnot', hrel ▸ splitLast_append hnot'⟩
  · exact .inl ⟨hmem, if_neg hmem⟩

lemma parts_append (dirpath name : List UInt8) :
    parts (dirpath ++ slash :: name) = parts dirpath ++ parts name := by
  unfold parts
  rw [List.splitOn_append_cons_self, List.filter_append]

lemma parts_of_not_mem {name : List UInt8} (h : slash ∉ name) (hne : name ≠ []) :
    parts name = [name] := by
  unfold parts
  rw [List.splitOn_eq_singleton h]
  simp [hne]

lemma not_mem_snoc {cur : List UInt8} {c : UInt8} (hcur : slash ∉ cur) (hc : c ≠ slash) :
    slash ∉ cur ++ [c] := by
  rw [List.mem_append, List.mem_singleton]
  rintro (h | h)
  · exact hcur h
  · exact hc h.symm

/-- The part that starts at the beginning of a path is at least as long as what is read of it. -/
lemma exists_longer_part (relpath : List UInt8) {cur : List UInt8} (hcur : slash ∉ cur)
    (hne : cur ≠ []) : ∃ part ∈ parts (cur ++ relpath), cur.length ≤ part.length := by
  induction relpath generalizing cur with
  | nil =>
    rw [List.append_nil, parts_of_not_mem hcur hne]
    exact ⟨cur, List.mem_singleton_self cur, le_rfl⟩
  | cons c rest ih =>
    by_cases hc : c = slash
    · subst hc
      rw [parts_append, parts_of_not_mem hcur hne]
      exact ⟨cur, List.mem_append_left _ (List.mem_singleton_self cur), le_rfl⟩
    · obtain ⟨part, hmem, hle⟩ := ih (not_mem_snoc hcur hc) (by simp)
      rw [List.append_assoc, List.singleton_append] at hmem
      rw [List.length_append] at hle
      exact ⟨part, hmem, (Nat.le_add_right _ _).trans hle⟩

/-- With one part read up to `cur`, the rest gives the same pieces as the parts of the whole. -/
lemma components_eq (relpath : List UInt8) {cur : List UInt8} (hcur : slash ∉ cur)
    (hfit : ∀ c ∈ parts (cur ++ relpath), c.length ≤ maxFilename - 1) :
    components cur relpath = parts (cur ++ relpath) := by
  induction relpath generalizing cur with
  | nil =>
    unfold components
    rw [List.append_nil]
    split_ifs with hnil
    · rw [hnil]
      rfl
    · exact (parts_of_not_mem hcur hnil).symm
  | cons c rest ih =>
    unfold components
    by_cases hc : c = slash
    · subst hc
      have hrest : ∀ c ∈ parts rest, c.length ≤ maxFilename - 1 := by
        intro c hmem
        refine hfit c ?_
        rw [parts_append]
        exact List.mem_append_right _ hmem
      rw [if_pos rfl, parts_append, ih List.not_mem_nil hrest, List.nil_append]
      split_ifs with hnil
      · rw [hnil]
        rfl
      · rw [parts_of_not_mem hcur hnil]
        rfl
    · have happ : cur ++ c :: rest = (cur ++ [c]) ++ rest := by simp
      have hcur' := not_mem_snoc hcur hc
      rw [if_neg hc]
      have hlen : cur.length < maxFilename - 1 := by
        -- the part that starts with `cur` and `c` has to fit
        obtain ⟨part, hmem, hle⟩ := exists_longer_part rest hcur' (by simp)
        have hpart := hfit part (happ ▸ hmem)
        rw [List.length_append, List.length_singleton] at hle
        omega
      rw [if_pos hlen, ih hcur' (happ ▸ hfit), happ]

/-! ## One function -/

/-- Both ways to read the path `relpath` below `root` are lookups of its parts, and a path with a
part that does not fit into a component is refused. -/
structure Resolves (find : Finddir) (m : MountPoint) (root : VNode) (relpath : List UInt8) :
    Prop where
  walk : walkWith find m.root relpath = lookup find (parts relpath) root
  entry : EndsInName relpath → splitWith find m relpath = (do
    return (← lookup find (parts relpath).dropLast root, (parts relpath).getLastD []))
  agree : EndsInName relpath → (do
    match ← splitWith find m relpath with
    | (none, _) => return none
    | (some dir, name) => find dir name) = walkWith find m.root relpath
  refused : (∃ c ∈ parts relpath, maxFilename - 1 < c.length) → ∀ k,
    wlp (walkWith find m.root relpath) (fun r _ => r = none) k ∧
      wlp (splitWith find m relpath) (fun r _ => r.1 = none) k

/-- The path means the same in every use, whatever the mounted drivers are. -/
def OneFunction (k : Kernel) (path : List UInt8) : Prop :=
  ∀ i relpath root, locate k path = some (i, relpath) → (k.mounts i).root = some root →
    ∀ find, Resolves find (k.mounts i) root relpath

/-- Every part of the path fits into a component, and what comes before the last one into a path. -/
structure FitsBuffers (relpath : List UInt8) : Prop where
  parts : ∀ c ∈ parts relpath, c.length ≤ maxFilename - 1
  dirpath : EndsInName relpath → ∀ dirpath name, splitLast relpath = some (dirpath, name) →
    dirpath.length < maxPath

lemma lookup_append (find : Finddir) (names : List (List UInt8)) (name : List UInt8)
    (node : VNode) :
    lookup find (names ++ [name]) node = (do
      match ← lookup find names node with
      | none => return none
      | some dir => find dir name) := by
  induction names generalizing node with
  | nil =>
    simp only [List.nil_append, lookup, pure_bind]
    conv_rhs => rw [← bind_pure (find node name)]
    refine congrArg _ (funext fun r => ?_)
    cases r <;> rfl
  | cons first rest ih =>
    simp only [List.cons_append, lookup, bind_assoc]
    refine congrArg _ (funext fun r => ?_)
    cases r with
    | none => simp only [pure_bind]
    | some child => exact ih child

lemma walkWith_eq (find : Finddir) (root : VNode) {relpath : List UInt8}
    (hfit : ∀ c ∈ parts relpath, c.length ≤ maxFilename - 1) :
    walkWith find (some root) relpath = lookup find (parts relpath) root := by
  unfold walkWith
  dsimp only
  rw [components_eq relpath List.not_mem_nil hfit, List.nil_append]

/-- `split_parent` looks up all parts but the last. -/
lemma splitWith_eq (find : Finddir) {m : MountPoint} {root : VNode} (hroot : m.root = some root)
    {relpath : List UInt8} (hfit : FitsBuffers relpath) (hend : EndsInName relpath) :
    ∃ names name, parts relpath = names ++ [name] ∧
      splitWith find m relpath = (do return (← lookup find names root, name)) := by
  have hparts := hfit.parts
  unfold EndsInName at hend
  unfold splitWith
  rcases splitLast_cases relpath with ⟨hnot, hsplit⟩ | ⟨dirpath, name, hrel, hnot, hsplit⟩
  · rw [List.splitOn_eq_singleton hnot] at hend
    have hne : relpath ≠ [] := by
      rintro rfl
      exact hend rfl
    rw [parts_of_not_mem hnot hne] at hparts ⊢
    refine ⟨[], relpath, rfl, ?_⟩
    rw [hsplit, List.take_of_length_le (hparts relpath (List.mem_singleton_self _)), hroot]
    rfl
  · have hdir := hfit.dirpath hend dirpath name hsplit
    rw [hrel, List.splitOn_append_cons_self, List.splitOn_eq_singleton hnot,
      List.getLast?_concat] at hend
    have hne : name ≠ [] := by
      rintro rfl
      exact hend rfl
    have hcut : parts relpath = parts dirpath ++ [name] := by
      rw [hrel, parts_append, parts_of_not_mem hnot hne]
    rw [hcut] at hparts
    refine ⟨parts dirpath, name, hcut, ?_⟩
    rw [hsplit]
    dsimp only
    rw [if_neg (Nat.not_le.mpr hdir), hroot,
      List.take_of_length_le (hparts name (List.mem_append_right _ (List.mem_singleton_self _))),
      walkWith_eq find root fun c hc => hparts c (List.mem_append_left _ hc)]

/-- A path that fits into the buffers is resolved in one way only. -/
lemma resolves_of_fits (find : Finddir) {m : MountPoint} {root : VNode} (hroot : m.root = some root)
    {relpath : List UInt8} (hfit : FitsBuffers relpath) : Resolves find m root relpath := by
  have hwalk := walkWith_eq find root hfit.parts
  refine ⟨?_, fun hend => ?_, fun hend => ?_, ?_⟩
  · rw [hroot]
    exact hwalk
  · obtain ⟨names, name, hparts, hsplit⟩ := splitWith_eq find hroot hfit hend
    rw [hsplit, hparts, List.dropLast_concat, List.getLastD_concat]
  · obtain ⟨names, name, hparts, hsplit⟩ := splitWith_eq find hroot hfit hend
    rw [hsplit, hroot, hwalk, hparts, lookup_append, bind_assoc]
    refine congrArg _ (funext fun r => ?_)
    cases r <;> rfl
  · rintro ⟨c, hmem, hlt⟩
    exact absurd (hfit.parts c hmem) (Nat.not_le.mpr hlt)

/-- The `finddir` of directories that contain themselves under every name. -/
def everyName : Finddir := fun node _ => return some node

lemma lookup_everyName (names : List (List UInt8)) (node : VNode) :
    lookup everyName names node = return some node := by
  induction names generalizing node with
  | nil => rfl
  | cons name rest ih =>
    unfold lookup everyName
    rw [pure_bind]
    exact ih node

/-- A path that is resolved in one way only fits into the buffers. -/
lemma fits_of_resolves {k : Kernel} {m : MountPoint} {root : VNode} (hroot : m.root = some root)
    {relpath : List UInt8} (h : Resolves everyName m root relpath) : FitsBuffers relpath := by
  have hwalk : walkWith everyName m.root relpath = return some root := by
    rw [hroot]
    exact lookup_everyName _ root
  constructor
  · intro c hmem
    by_contra hlong
    have hnone := (h.refused ⟨c, hmem, Nat.lt_of_not_le hlong⟩ k).1
    rw [hwalk, wlp_pure] at hnone
    cases hnone
  · intro hend dirpath name hsplit
    by_contra hlong
    have hagree := h.agree hend
    rw [hwalk] at hagree
    unfold splitWith at hagree
    rw [hsplit] at hagree
    dsimp only at hagree
    rw [if_pos (Nat.le_of_not_lt hlong), pure_bind] at hagree
    have hresult := congrArg (fun p => (p k).map Prod.fst) hagree
    cases hresult

/-- **Path resolution is one function** for exactly the paths whose parts fit into a component and
whose directory part fits into a path. -/
theorem oneFunction_iff (k : Kernel) (path : List UInt8) :
    OneFunction k path ↔ ∀ i relpath, locate k path = some (i, relpath) → (k.mounts i).root ≠ none →
      FitsBuffers relpath := by
  constructor
  · intro h i relpath hloc hne
    obtain ⟨root, hroot⟩ := Option.ne_none_iff_exists'.mp hne
    exact @fits_of_resolves k _ root hroot relpath (h i relpath root hloc hroot everyName)
  · intro h i relpath root hloc hroot find
    exact resolves_of_fits find hroot
      (h i relpath hloc (by rw [hroot]; exact Option.some_ne_none _))

/-- What `vfs_unlink` and `vfs_rename` look up is the node that `vfs_open` and `vfs_stat` reach. -/
theorem OneFunction.finddir_splitParent {k : Kernel} {path relpath : List UInt8}
    (h : OneFunction k path) (F : RoFormats) {i : ℕ} {root : VNode}
    (hloc : locate k path = some (i, relpath)) (hroot : (k.mounts i).root = some root)
    (hend : EndsInName relpath) :
    (do
      match ← splitParent F (k.mounts i) relpath with
      | (none, _) => return none
      | (some dir, name) => finddir F dir name) = walkPath F (k.mounts i).root relpath := by
  rw [splitParent_eq, walkPath_eq]
  exact (h i relpath root hloc hroot (finddir F)).agree hend

/-- The `finddir` of a volume with a directory that has a name of 127 bytes and contains a file. -/
def longNameVolume : Finddir := fun node name =>
  if node = .ext2 0 ∧ name = List.replicate 127 97 then return some (.ext2 1)
  else if node = .ext2 1 ∧ name = [98] then return some (.ext2 2)
  else return none

/-- A kernel with a volume mounted at `/m`. -/
def oneMount : Kernel :=
  { bootKernel Bytes.zeros with mounts := fun _ => ⟨[47, 109], some (.ext2 0), true, .ext2⟩ }

/-- The path of 127 times `a` and then `b` is the file for `walk_path` and the directory for
`split_parent`. -/
theorem not_oneFunction_longName :
    ¬ OneFunction oneMount ([47, 109, 47] ++ List.replicate 127 97 ++ [98]) := by
  intro h
  have hloc : locate oneMount ([47, 109, 47] ++ List.replicate 127 97 ++ [98]) =
      some (0, List.replicate 127 97 ++ [98]) := by decide +kernel
  have hagree := (h 0 _ (.ext2 0) hloc rfl longNameVolume).agree
    (by unfold EndsInName; decide +kernel)
  have hresult := congrArg (fun p => (p oneMount).map Prod.fst) hagree
  exact absurd hresult (by decide +kernel)

end Vfs

end CoolFrost
