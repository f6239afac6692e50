import CoolFrost.Fs.Fat32.Directories

/-!
# FAT32: directory trees with dot entries

Every subdirectory starts with the entries `.` and `..`; the root directory has neither, and `..` in
a directory of the first level has cluster 0.  A trail is a path along entries that lead to a
cluster other than 0.
-/

namespace CoolFrost

open Program

namespace Fat32

variable {fs : Fat32Fs} {v : Volume}

/-- At `a` is the entry of a directory called `name` that starts with the cluster `c`. -/
structure DirEntry (v : Volume) (a : ℕ) (name : List UInt8) (c : ℕ) : Prop where
  valid : Valid v.data a
  dir : deIsDir v.data a = true
  name_eq : fat32Format83 v.data a = name
  cluster : deCluster v.data a = c

/-- The directory `c` is listed in the directory `p`. -/
def Subdir (fs : Fat32Fs) (v : Volume) (p c : ℕ) : Prop :=
  ∃ l k name, ChainAt fs v.fat p l ∧ SlotIn fs l k ∧ DirEntry v (slotAt fs l k) name c ∧
    name ≠ dotName ∧ name ≠ dotDotName

/-- The directories of the tree, by their first clusters. -/
inductive TreeDir (fs : Fat32Fs) (v : Volume) : ℕ → Prop
  | root : TreeDir fs v fs.rootCluster
  | sub {p c : ℕ} (hp : TreeDir fs v p) (h : Subdir fs v p c) : TreeDir fs v c

/-- A well-formed tree: every directory has its clusters, an end mark is followed by end marks only,
and all directories but the root start with the two dot entries that the format prescribes. -/
structure DotTree (fs : Fat32Fs) (v : Volume) : Prop where
  chains : ∀ d, TreeDir fs v d → ∃ l, l ≠ [] ∧ ChainAt fs v.fat d l
  ended : ∀ d l, TreeDir fs v d → ChainAt fs v.fat d l → ∀ k k', k ≤ k' → SlotIn fs l k' →
    v.data (slotAt fs l k) = 0 → v.data (slotAt fs l k') = 0
  plain : ∀ l k, ChainAt fs v.fat fs.rootCluster l → SlotIn fs l k → Valid v.data (slotAt fs l k) →
    fat32Format83 v.data (slotAt fs l k) ≠ dotName ∧
      fat32Format83 v.data (slotAt fs l k) ≠ dotDotName
  root_ne : fs.rootCluster ≠ 0
  dots : ∀ p c, TreeDir fs v p → Subdir fs v p c → c ≠ 0 ∧ c ≠ fs.rootCluster ∧
    DirEntry v (clusterOff fs c) dotName c ∧
    DirEntry v (clusterOff fs c + 32) dotDotName (if p = fs.rootCluster then 0 else p)

/-- The component `name` leads from the directory `d` to the directory `c`, along an entry that does
not have cluster 0. -/
def Leads (fs : Fat32Fs) (v : Volume) (d : ℕ) (name : List UInt8) (c : ℕ) : Prop :=
  c ≠ 0 ∧ ∃ l a, ChainAt fs v.fat d l ∧ 32 ∣ a ∧ lookupEntry fs v l name = some (entryAt fs v a) ∧
    deIsDir v.data a = true ∧ deCluster v.data a = c

/-- The components lead from the root to the directory `d`. -/
inductive Trail (fs : Fat32Fs) (v : Volume) : List (List UInt8) → ℕ → Prop
  | root : Trail fs v [] fs.rootCluster
  | step {names : List (List UInt8)} {d c : ℕ} {name : List UInt8} (h : Trail fs v names d)
      (hstep : Leads fs v d name c) : Trail fs v (names ++ [name]) c

/-! ## Dot names -/

/-- Only the dot names are equal to the dot names. -/
lemma named_dot_iff {a : ℕ} : Named v a dotName ↔ fat32Format83 v.data a = dotName := by
  rw [Named, strcasecmp_eq_zero_iff (zero_not_mem_format _ _) (by decide)]
  have hdot : ∀ {x}, upper x = dot → x = dot := fun h => (upper_eq_iff (.inl (by decide))).mp h
  constructor
  · intro h
    obtain ⟨x, hx, hx'⟩ := List.map_eq_singleton_iff.mp h
    rw [hx, hdot hx']
    rfl
  · intro h
    rw [h]

lemma named_dotDot_iff {a : ℕ} : Named v a dotDotName ↔ fat32Format83 v.data a = dotDotName := by
  rw [Named, strcasecmp_eq_zero_iff (zero_not_mem_format _ _) (by decide)]
  have hdot : ∀ {x}, upper x = dot → x = dot := fun h => (upper_eq_iff (.inl (by decide))).mp h
  constructor
  · intro h
    obtain ⟨x, l, hx, hx', hl⟩ := List.map_eq_cons_iff.mp h
    obtain ⟨y, hy, hy'⟩ := List.map_eq_singleton_iff.mp hl
    rw [hx, hy, hdot hx', hdot hy']
    rfl
  · intro h
    rw [h]

/-! ## Looking up in a tree -/

lemma entryAt_inj {a a' : ℕ} (h : entryAt fs v a = entryAt fs v a') : a = a' := by
  simp only [entryAt, EntryAt.mk.injEq, Nat.add_left_cancel_iff] at h
  obtain ⟨hdiv, hmod, -⟩ := h
  omega

/-- The last component of a trail. -/
lemma Trail.last {names : List (List UInt8)} {name : List UInt8} {c : ℕ}
    (h : Trail fs v (names ++ [name]) c) : ∃ d, Trail fs v names d ∧ Leads fs v d name c := by
  generalize hall : names ++ [name] = all at h
  cases h with
  | root => simp at hall
  | step h hstep =>
    obtain ⟨rfl, hname⟩ := List.append_inj' hall rfl
    obtain rfl := List.singleton_inj.mp hname
    exact ⟨_, h, hstep⟩

/-- A trail leads to one directory only. -/
lemma Trail.unique (hl : Layout fs) {names : List (List UInt8)} {c c' : ℕ} (h : Trail fs v names c)
    (h' : Trail fs v names c') : c = c' := by
  induction h generalizing c' with
  | root =>
    generalize hnil : ([] : List (List UInt8)) = names at h'
    cases h' with
    | root => rfl
    | step => simp at hnil
  | step _ hstep ih =>
    obtain ⟨d', hd', -, l', a', hchain', -, hlookup', -, rfl⟩ := h'.last
    obtain ⟨-, l, a, hchain, -, hlookup, -, rfl⟩ := hstep
    obtain rfl := ih hd'
    obtain rfl := ChainAt.unique hl hchain hchain'
    rw [entryAt_inj (Option.some.inj (hlookup.symm.trans hlookup'))]

/-- The clusters of a directory begin with the one it is known by. -/
lemma DotTree.chain (h : DotTree fs v) {d : ℕ} (hd : TreeDir fs v d) :
    ∃ l, ChainAt fs v.fat d (d :: l) := by
  obtain ⟨l, hne, hchain⟩ := h.chains d hd
  cases l with
  | nil => exact absurd rfl hne
  | cons c l =>
    obtain rfl := hchain.1
    exact ⟨l, hchain⟩

/-- The root has neither of the dot entries. -/
lemma DotTree.lookup_root (h : DotTree fs v) (hl : Layout fs) {l : List ℕ}
    (hchain : ChainAt fs v.fat fs.rootCluster l) :
    lookupEntry fs v l dotName = none ∧ lookupEntry fs v l dotDotName = none := by
  constructor
  · by_contra hne
    obtain ⟨e, he⟩ := Option.ne_none_iff_exists'.mp hne
    obtain ⟨k, hk, -, hvalid, hname⟩ := exists_of_lookupEntry hl he
    exact (h.plain l k hchain hk hvalid).1 (named_dot_iff.mp hname)
  · by_contra hne
    obtain ⟨e, he⟩ := Option.ne_none_iff_exists'.mp hne
    obtain ⟨k, hk, -, hvalid, hname⟩ := exists_of_lookupEntry hl he
    exact (h.plain l k hchain hk hvalid).2 (named_dotDot_iff.mp hname)

/-- A subdirectory has both, as its first two entries. -/
lemma DotTree.lookup_sub (h : DotTree fs v) (hl : Layout fs) {p c : ℕ} {l : List ℕ}
    (hp : TreeDir fs v p) (hc : Subdir fs v p c) :
    lookupEntry fs v (c :: l) dotName = some (entryAt fs v (clusterOff fs c)) ∧
      lookupEntry fs v (c :: l) dotDotName = some (entryAt fs v (clusterOff fs c + 32)) := by
  obtain ⟨-, -, hdot, hdotDot⟩ := h.dots p c hp hc
  constructor
  · exact lookupEntry_first hl hdot.valid (named_dot_iff.mpr hdot.name_eq)
  · refine lookupEntry_second hl hdot.valid (fun hname => ?_) hdotDot.valid
      (named_dotDot_iff.mpr hdotDot.name_eq)
    have heq := named_dotDot_iff.mp hname
    rw [hdot.name_eq] at heq
    exact absurd heq (by decide)

lemma clusterOff_dvd (fs : Fat32Fs) (c : ℕ) : 32 ∣ clusterOff fs c := by
  rw [clusterOff_eq]
  exact Dvd.dvd.mul_left (by decide) _

/-- A trail stays in the tree. -/
lemma DotTree.leads (h : DotTree fs v) (hl : Layout fs) {d c : ℕ} {name : List UInt8}
    (hd : TreeDir fs v d) (hstep : Leads fs v d name c) : TreeDir fs v c := by
  obtain ⟨hc, l, a, hchain, -, hlookup, hdir, rfl⟩ := hstep
  obtain ⟨l', hchain'⟩ := h.chain hd
  obtain rfl := ChainAt.unique hl hchain' hchain
  obtain ⟨k, hk, heq, hvalid, hname⟩ := exists_of_lookupEntry hl hlookup
  obtain rfl := entryAt_inj heq
  by_cases hplain : fat32Format83 v.data (slotAt fs (d :: l') k) ≠ dotName ∧
      fat32Format83 v.data (slotAt fs (d :: l') k) ≠ dotDotName
  · exact hd.sub ⟨_, k, _, hchain, hk, ⟨hvalid, hdir, rfl, rfl⟩, hplain.1, hplain.2⟩
  · -- the first entry of a dot name is one of the first two entries of the directory
    cases hd with
    | root => exact absurd (h.plain _ k hchain hk hvalid) hplain
    | @sub p _ hp hsub =>
      obtain ⟨-, -, hdot, hdotDot⟩ := h.dots p d hp hsub
      by_cases hfirst : Named v (clusterOff fs d) name
      · have hfound := hlookup.symm.trans (lookupEntry_first hl hdot.valid hfirst)
        rw [entryAt_inj (Option.some.inj hfound), hdot.cluster]
        exact hp.sub hsub
      · have hformat : fat32Format83 v.data (slotAt fs (d :: l') k) = dotDotName := by
          by_contra hne
          refine hplain ⟨fun hdotName => hfirst ?_, hne⟩
          rw [Named, hdot.name_eq, ← hdotName]
          exact hname
        have hsecond : Named v (clusterOff fs d + 32) name := by
          rw [Named, hdotDot.name_eq, ← hformat]
          exact hname
        have hfound := hlookup.symm.trans
          (lookupEntry_second hl hdot.valid hfirst hdotDot.valid hsecond)
        rw [entryAt_inj (Option.some.inj hfound), hdotDot.cluster] at hc ⊢
        split_ifs at hc ⊢ with hroot
        · exact absurd rfl hc
        · exact hp

lemma DotTree.trail (h : DotTree fs v) (hl : Layout fs) {names : List (List UInt8)} {d : ℕ}
    (ht : Trail fs v names d) : TreeDir fs v d := by
  induction ht with
  | root => exact .root
  | step _ hstep ih => exact h.leads hl ih hstep

/-- Below the root, `.` leads to the directory itself. -/
lemma DotTree.leads_dot (h : DotTree fs v) (hl : Layout fs) {p c : ℕ} (hp : TreeDir fs v p)
    (hc : Subdir fs v p c) : Leads fs v c dotName c := by
  obtain ⟨hne, -, hdot, -⟩ := h.dots p c hp hc
  obtain ⟨l, hchain⟩ := h.chain (hp.sub hc)
  exact ⟨hne, c :: l, clusterOff fs c, hchain, clusterOff_dvd fs c, (h.lookup_sub hl hp hc).1,
    hdot.dir, hdot.cluster⟩

/-- Below the first level, `..` leads to the parent. -/
lemma DotTree.leads_dotDot (h : DotTree fs v) (hl : Layout fs) {p c : ℕ} (hp : TreeDir fs v p)
    (hc : Subdir fs v p c) (hne : p ≠ fs.rootCluster) : Leads fs v c dotDotName p := by
  obtain ⟨-, -, -, hdotDot⟩ := h.dots p c hp hc
  obtain ⟨l, hchain⟩ := h.chain (hp.sub hc)
  have hp0 : p ≠ 0 := by
    cases hp with
    | root => exact absurd rfl hne
    | sub hq hsub => exact (h.dots _ p hq hsub).1
  refine ⟨hp0, c :: l, clusterOff fs c + 32, hchain, Nat.dvd_add (clusterOff_dvd fs c) (by decide),
    (h.lookup_sub hl hp hc).2, hdotDot.dir, ?_⟩
  rw [hdotDot.cluster, if_neg hne]

end Fat32

end CoolFrost
