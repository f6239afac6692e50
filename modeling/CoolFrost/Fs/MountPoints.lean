import CoolFrost.Fs.Paths

/-!
# Which mount a path belongs to

`find_mount` compares the characters of a mount path with the path and looks at the character that
follows.  The path belongs to the mount whose parts are the longest beginning of its own parts, and
that is the one that is found, as long as one with so many parts stands in the path character by
character.
-/

namespace CoolFrost

namespace Vfs

variable {k : Kernel} {path rest : List UInt8} {i j : ℕ}

/-! ## Two readings of a mount path -/

/-- The mount `i` is in use, and the path is inside of its directory: the parts of the mount path
are the first parts of the path. -/
structure Contains (k : Kernel) (path : List UInt8) (i : ℕ) : Prop where
  lt : i < maxMounts
  active : (k.mounts i).active = true
  parts : parts (k.mounts i).path <+: parts path

/-- The number of parts of the mount path. -/
def depth (k : Kernel) (i : ℕ) : ℕ := (parts (k.mounts i).path).length

/-- What `find_mount` is to return: a mount that contains the path and has the most parts, and the
rest of the path. -/
def Picks (k : Kernel) (path : List UInt8) : Option (ℕ × List UInt8) → Prop
  | none => ∀ i, ¬Contains k path i
  | some (i, rest) => Contains k path i ∧ (∀ j, Contains k path j → depth k j ≤ depth k i) ∧
      parts path = parts (k.mounts i).path ++ parts rest

/-- The mount `i` is in use, and its path stands in the path character by character, up to the end
or to a slash. -/
def Spelled (k : Kernel) (path : List UInt8) (i : ℕ) : Prop :=
  i < maxMounts ∧ covers path (k.mounts i) = true ∧ (k.mounts i).path ≠ []

/-- The path is inside of its mount, and its rest is what comes after the mount path. -/
lemma covers_split {m : MountPoint} (h : covers path m = true) :
    m.active = true ∧ ∃ r, path = m.path ++ r ∧ (r = [] ∨ ∃ r', r = slash :: r') := by
  simp only [covers, Bool.and_eq_true] at h
  obtain ⟨⟨hactive, hpre⟩, hafter⟩ := h
  obtain ⟨r, rfl⟩ := List.isPrefixOf_iff_prefix.mp hpre
  refine ⟨hactive, r, rfl, ?_⟩
  rw [List.drop_left] at hafter
  cases r with
  | nil => exact .inl rfl
  | cons c r' =>
    have hc : c = slash := by simpa using hafter
    exact .inr ⟨r', hc ▸ rfl⟩

lemma covers_append {m : MountPoint} {r : List UInt8} (hactive : m.active = true)
    (hr : r = [] ∨ ∃ r', r = slash :: r') : covers (m.path ++ r) m = true := by
  simp only [covers, Bool.and_eq_true, List.drop_left]
  refine ⟨⟨hactive, List.isPrefixOf_iff_prefix.mpr (List.prefix_append _ _)⟩, ?_⟩
  obtain rfl | ⟨r', rfl⟩ := hr
  · rfl
  · exact beq_self_eq_true slash

/-- A path is cut into parts at each slash. -/
lemma parts_append_of_boundary {l r : List UInt8} (hr : r = [] ∨ ∃ r', r = slash :: r') :
    parts (l ++ r) = parts l ++ parts r := by
  obtain rfl | ⟨r', rfl⟩ := hr
  · rw [List.append_nil, show parts [] = [] from rfl, List.append_nil]
  · have hslash : parts (slash :: r') = parts r' := parts_append [] r'
    rw [parts_append, hslash]

/-- A slash in front of the rest does not count. -/
lemma parts_tail (r : List UInt8) :
    parts (if r.head? = some slash then r.tail else r) = parts r := by
  split_ifs with h
  · cases r with
    | nil => rfl
    | cons c r' =>
      obtain rfl : c = slash := by simpa using h
      exact (parts_append [] r').symm
  · rfl

lemma Spelled.contains (h : Spelled k path i) : Contains k path i := by
  obtain ⟨hlt, hcov, -⟩ := h
  obtain ⟨hactive, r, hpath, hr⟩ := covers_split hcov
  refine ⟨hlt, hactive, ?_⟩
  rw [hpath, parts_append_of_boundary hr]
  exact List.prefix_append _ _

/-- Of two mounts that are spelled out in a path, the one with the longer path has the more
parts. -/
lemma Spelled.depth_le (hj : Spelled k path j) (hi : Spelled k path i)
    (hle : (k.mounts j).path.length ≤ (k.mounts i).path.length) : depth k j ≤ depth k i := by
  obtain ⟨-, r, hr, -⟩ := covers_split hi.2.1
  obtain ⟨-, r', hr', hbound⟩ := covers_split hj.2.1
  obtain ⟨s, hs⟩ : (k.mounts j).path <+: (k.mounts i).path :=
    List.prefix_of_prefix_length_le ⟨r', hr'.symm⟩ ⟨r, hr.symm⟩ hle
  have hsr : r' = s ++ r := by
    have happ := hr'.symm.trans hr
    rw [← hs, List.append_assoc] at happ
    exact List.append_cancel_left happ
  have hbound' : s = [] ∨ ∃ s', s = slash :: s' := by
    cases s with
    | nil => exact .inl rfl
    | cons c s' =>
      rcases hbound with hnil | ⟨r'', hcons⟩
      · rw [hnil] at hsr
        cases hsr
      · rw [hcons, List.cons_append] at hsr
        exact .inr ⟨s', by rw [(List.cons.inj hsr).1]⟩
  rw [depth, depth, ← hs, parts_append_of_boundary hbound', List.length_append]
  exact Nat.le_add_right _ _

/-! ## What is found -/

/-- `find_mount` returns a mount that is spelled out in the path and has the most parts of those, or
there is none. -/
lemma findMount_cases (k : Kernel) (path : List UInt8) :
    (findMount k path = none ∧ ∀ i, ¬Spelled k path i) ∨
    ∃ i rest, findMount k path = some (i, rest) ∧ Spelled k path i ∧
      (∀ j, Spelled k path j → depth k j ≤ depth k i) ∧
      parts path = parts (k.mounts i).path ++ parts rest := by
  obtain ⟨⟨b, n⟩, hbest, heq⟩ := findMount_eq k path
  cases b with
  | none =>
    have hn : n = 0 := hbest.none.mp rfl
    refine .inl ⟨heq, ?_⟩
    rintro i ⟨hlt, hcov, hne⟩
    have hle := hbest.max i (List.mem_range.mpr hlt) hcov
    rw [hn] at hle
    exact hne (List.eq_nil_of_length_eq_zero (Nat.le_zero.mp hle))
  | some i =>
    obtain ⟨hmem, hcov, hn⟩ := hbest.mem i rfl
    have hpos : n ≠ 0 := fun h0 => by cases hbest.none.mpr h0
    have hne : (k.mounts i).path ≠ [] := by
      intro hnil
      rw [hnil] at hn
      exact hpos hn
    have hspelled : Spelled k path i := ⟨List.mem_range.mp hmem, hcov, hne⟩
    refine .inr ⟨i, _, heq, hspelled, fun j hj => ?_, ?_⟩
    · refine hj.depth_le hspelled ?_
      rw [← hn]
      exact hbest.max j (List.mem_range.mpr hj.1) hj.2.1
    · obtain ⟨-, r, hr, hbound⟩ := covers_split hcov
      have hdrop : path.drop n = r := by
        rw [hr]
        exact List.drop_left' hn.symm
      rw [parts_tail, hdrop, hr, parts_append_of_boundary hbound]

/-- What `find_mount` returns is right if one of the mounts with the most parts is spelled out. -/
lemma picks_of_spelled (h : ∀ i, Contains k path i → ∃ j, Spelled k path j ∧
    depth k i ≤ depth k j) :
    Picks k path (findMount k path) := by
  obtain ⟨heq, hno⟩ | ⟨i, rest, heq, hspelled, hmost, hrest⟩ := findMount_cases k path
  · rw [heq]
    intro i hc
    obtain ⟨j, hj, -⟩ := h i hc
    exact hno j hj
  · rw [heq]
    refine ⟨hspelled.contains, fun j hj => ?_, hrest⟩
    obtain ⟨j', hj', hle⟩ := h j hj
    exact hle.trans (hmost j' hj')

/-- It is right exactly if the path is in no mount, or one of the mounts with the most parts is
spelled out in the path. -/
theorem findMount_picks_iff (k : Kernel) (path : List UInt8) :
    Picks k path (findMount k path) ↔
      ∀ i, Contains k path i → ∃ j, Spelled k path j ∧ depth k i ≤ depth k j := by
  refine ⟨fun h i hc => ?_, picks_of_spelled⟩
  obtain ⟨heq, -⟩ | ⟨j, rest, heq, hspelled, -, -⟩ := findMount_cases k path
  · rw [heq] at h
    exact absurd hc (h i)
  · rw [heq] at h
    exact ⟨j, hspelled, h.2.1 i hc⟩

/-! ## Paths without superfluous slashes -/

/-- The path is not empty, and is written with one slash in front of each of its parts. -/
def Plain (path : List UInt8) : Prop := path ≠ [] ∧ path = (parts path).flatMap (slash :: ·)

/-- A plain mount path is spelled out in every plain path that it contains. -/
lemma Contains.spelled (h : Contains k path i) (hpath : Plain path) (hm : Plain (k.mounts i).path) :
    Spelled k path i := by
  obtain ⟨names, hnames⟩ := h.parts
  refine ⟨h.lt, ?_, hm.1⟩
  rw [hpath.2, ← hnames, List.flatMap_append, ← hm.2]
  refine covers_append h.active ?_
  cases names with
  | nil => exact .inl rfl
  | cons name names => exact .inr ⟨_, rfl⟩

/-- Between plain paths, `find_mount` is right. -/
lemma findMount_picks_of_plain (hpath : Plain path)
    (hm : ∀ i < maxMounts, (k.mounts i).active = true → Plain (k.mounts i).path) :
    Picks k path (findMount k path) :=
  picks_of_spelled fun i h => ⟨i, h.spelled hpath (hm i h.lt h.active), le_rfl⟩

/-! ## A file system mounted at the root -/

/-- The mount paths are absolute and distinct. -/
structure AbsoluteMounts (k : Kernel) : Prop where
  absolute : ∀ i < maxMounts, (k.mounts i).active = true → (k.mounts i).path.head? = some slash
  distinct : ∀ i < maxMounts, ∀ j < maxMounts, (k.mounts i).active = true →
    (k.mounts j).active = true → (k.mounts i).path = (k.mounts j).path → i = j

/-- One file system is mounted, at `/`. -/
def rootMount : Kernel :=
  { bootKernel Bytes.zeros with
    mounts := fun i => if i = 0 then ⟨[47], some (.ext2 0), true, .ext2⟩
      else ⟨[], none, false, .none⟩ }

/-- The file `/a` is not found there. -/
theorem not_findMount_picks : ¬ ∀ (k : Kernel) (path : List UInt8), AbsoluteMounts k →
    path.head? = some slash → Picks k path (findMount k path) := by
  intro h
  have hpicks := h rootMount [47, 97] ⟨by decide, by decide⟩ rfl
  have hnone : findMount rootMount [47, 97] = none := by decide
  rw [hnone] at hpicks
  exact hpicks 0 ⟨by decide, rfl, by decide⟩

end Vfs

end CoolFrost
