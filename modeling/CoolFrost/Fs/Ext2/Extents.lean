import CoolFrost.Fs.Ext2.OneFile

/-!
# ext2: extent trees

A file with extents keeps the root of a tree in its inode.  The leaves say which runs of blocks of
the volume hold which runs of blocks of the file, and an inner node says from which block on each of
its children is responsible.  `ExtentTree` reads such a tree as the flat list of its extents; the
driver's descent finds just what a search of that list would find.
-/

namespace CoolFrost

open Program

namespace Ext2

variable {fs : Ext2Fs} {d eh : Bytes} {depth lo hi logical : ℕ}

/-! ## The format -/

/-- A run of blocks of a file: the first of them, their number, and the first block on the volume.
What has been reserved but not written reads as zeros. -/
structure Extent where
  block : ℕ
  len : ℕ
  start : ℕ
  written : Bool
deriving DecidableEq

/-- The extent contains the block `logical` of the file. -/
def Extent.Covers (e : Extent) (logical : ℕ) : Prop := e.block ≤ logical ∧ logical < e.block + e.len

instance (e : Extent) (logical : ℕ) : Decidable (e.Covers logical) :=
  inferInstanceAs (Decidable (_ ∧ _))

/-- `eh_entries`. -/
def ehEntries (eh : Bytes) : ℕ := Bytes.le16 eh 2

/-- `ee_len` of the entry number `k`; above 32768 the extent is not written. -/
def eeLen (eh : Bytes) (k : ℕ) : ℕ := Bytes.le16 eh (12 + 12 * k + 4)

/-- The entry number `k` of a leaf. -/
def extentAt (eh : Bytes) (k : ℕ) : Extent where
  block := Bytes.le32 eh (12 + 12 * k)
  len := if eeLen eh k ≤ 32768 then eeLen eh k else eeLen eh k - 32768
  start := Bytes.le32 eh (12 + 12 * k + 8) + 2 ^ 32 * Bytes.le16 eh (12 + 12 * k + 6)
  written := eeLen eh k ≤ 32768

/-- The first block for which the child number `k` of an inner node is responsible. -/
def eiBlock (eh : Bytes) (k : ℕ) : ℕ := Bytes.le32 eh (12 + 12 * k)

/-- The block of the child number `k`. -/
def eiLeaf (eh : Bytes) (k : ℕ) : ℕ :=
  Bytes.le32 eh (12 + 12 * k + 4) + 2 ^ 32 * Bytes.le16 eh (12 + 12 * k + 8)

/-- The blocks in front of which the child number `k` stops. -/
def eiEnd (eh : Bytes) (hi k : ℕ) : ℕ := if k + 1 < ehEntries eh then eiBlock eh (k + 1) else hi

/-- The node `eh` is the root of a tree of the given depth for the blocks from `lo` up to `hi`, with
the extents of the list. -/
inductive ExtentTree (fs : Ext2Fs) (d : Bytes) : ℕ → Bytes → ℕ → ℕ → List Extent → Prop
  | leaf {eh : Bytes} {lo hi : ℕ} (hmagic : Bytes.le16 eh 0 = ext4ExtMagic)
      (hdepth : Bytes.le16 eh 6 = 0)
      (hrange : ∀ k < ehEntries eh,
        lo ≤ (extentAt eh k).block ∧ (extentAt eh k).block + (extentAt eh k).len ≤ hi)
      (hsorted : ((List.range (ehEntries eh)).map (extentAt eh)).Pairwise
        fun e e' => e.block + e.len ≤ e'.block)
      (hphys : ∀ k < ehEntries eh, (extentAt eh k).start + (extentAt eh k).len ≤ 2 ^ 32) :
      ExtentTree fs d 0 eh lo hi ((List.range (ehEntries eh)).map (extentAt eh))
  | index {eh : Bytes} {depth lo hi : ℕ} {es : ℕ → List Extent}
      (hmagic : Bytes.le16 eh 0 = ext4ExtMagic) (hdepth : Bytes.le16 eh 6 = depth + 1)
      (hrange : ∀ k < ehEntries eh, lo ≤ eiBlock eh k ∧ eiBlock eh k ≤ hi)
      (hsorted : ∀ i j, i < j → j < ehEntries eh → eiBlock eh i < eiBlock eh j)
      (hphys : ∀ k < ehEntries eh, eiLeaf eh k < 2 ^ 32)
      (hsub : ∀ k < ehEntries eh, ExtentTree fs d depth (blockOn fs d (eiLeaf eh k)) (eiBlock eh k)
        (eiEnd eh hi k) (es k)) :
      ExtentTree fs d (depth + 1) eh lo hi ((List.range (ehEntries eh)).flatMap es)

/-- The block of the volume that a list of extents gives for the block `logical`; 0 stands for
zeros. -/
structure MappedTo (es : List Extent) (logical phys : ℕ) : Prop where
  written : ∀ e ∈ es, e.written = true → e.Covers logical → phys = e.start + (logical - e.block)
  hole : (∀ e ∈ es, e.Covers logical → e.written = false) → phys = 0

/-! ## The extents of a tree -/

lemma eiEnd_le {k : ℕ} (hrange : ∀ k < ehEntries eh, lo ≤ eiBlock eh k ∧ eiBlock eh k ≤ hi) :
    eiEnd eh hi k ≤ hi := by
  unfold eiEnd
  split_ifs with h
  · exact (hrange _ h).2
  · exact le_rfl

/-- A tree says nothing about blocks outside its range. -/
lemma ExtentTree.range {es : List Extent} (h : ExtentTree fs d depth eh lo hi es) :
    ∀ e ∈ es, lo ≤ e.block ∧ e.block + e.len ≤ hi := by
  induction h with
  | leaf hmagic hdepth hrange =>
    intro e he
    obtain ⟨k, hk, rfl⟩ := List.mem_map.mp he
    exact hrange k (List.mem_range.mp hk)
  | index hmagic hdepth hrange hsorted hphys hsub ih =>
    intro e he
    obtain ⟨k, hk, he⟩ := List.mem_flatMap.mp he
    have hk := List.mem_range.mp hk
    obtain ⟨hlo, hhi⟩ := ih k hk e he
    exact ⟨(hrange k hk).1.trans hlo, hhi.trans (eiEnd_le hrange)⟩

/-- A child stops where a later one starts, or before. -/
lemma eiEnd_le_eiBlock (hi : ℕ) {i j : ℕ} (hij : i < j) (hj : j < ehEntries eh)
    (hsorted : ∀ i j, i < j → j < ehEntries eh → eiBlock eh i < eiBlock eh j) :
    eiEnd eh hi i ≤ eiBlock eh j := by
  unfold eiEnd
  rw [if_pos (by omega)]
  rcases (Nat.succ_le_of_lt hij).lt_or_eq with hlt | rfl
  · exact (hsorted _ _ hlt hj).le
  · exact le_rfl

/-- The extents follow one another. -/
lemma ExtentTree.sorted {es : List Extent} (h : ExtentTree fs d depth eh lo hi es) :
    es.Pairwise fun e e' => e.block + e.len ≤ e'.block := by
  induction h with
  | leaf hmagic hdepth hrange hsorted => exact hsorted
  | @index eh depth lo hi es hmagic hdepth hrange hsorted hphys hsub ih =>
    rw [List.pairwise_flatMap]
    refine ⟨fun k hk => ih k (List.mem_range.mp hk), ?_⟩
    refine List.pairwise_lt_range.imp_of_mem fun {i j} hi' hj hij e he e' he' => ?_
    have hj := List.mem_range.mp hj
    have hlast := ((hsub i (List.mem_range.mp hi')).range e he).2
    have hfirst := ((hsub j hj).range e' he').1
    exact (hlast.trans (eiEnd_le_eiBlock _ hij hj hsorted)).trans hfirst

/-- At most one extent contains a block. -/
lemma ExtentTree.unique {es : List Extent} (h : ExtentTree fs d depth eh lo hi es) {e e' : Extent}
    (he : e ∈ es) (he' : e' ∈ es) (hc : e.Covers logical) (hc' : e'.Covers logical) : e = e' := by
  have hsym : Std.Symm fun e e' : Extent => e.Covers logical → e'.Covers logical → e = e' :=
    ⟨fun _ _ h hc hc' => (h hc' hc).symm⟩
  have hpair : es.Pairwise fun e e' => e.Covers logical → e'.Covers logical → e = e' := by
    apply h.sorted.imp
    intro e e' hle hc hc'
    have hend := hc.2
    have hstart := hc'.1
    omega
  exact hpair.forall_of_forall (fun _ _ _ _ => rfl) he he' hc hc'

/-! ## The descent -/

/-- One entry of a leaf. -/
lemma leafLookup_succ {n k : ℕ} (hend : (extentAt eh k).block + (extentAt eh k).len < 2 ^ 32)
    (hphys : (extentAt eh k).start + (extentAt eh k).len ≤ 2 ^ 32) :
    leafLookup eh logical (n + 1) k =
      if (extentAt eh k).written = true ∧ (extentAt eh k).Covers logical then
        (extentAt eh k).start + (logical - (extentAt eh k).block)
      else leafLookup eh logical n (k + 1) := by
  rw [leafLookup]
  simp only [extentAt, Extent.Covers, decide_eq_true_eq, ← eeLen.eq_1] at hend hphys ⊢
  by_cases hlen : 32768 < eeLen eh k
  · rw [if_pos hlen, if_neg fun hc => by omega]
  rw [if_pos (Nat.le_of_not_lt hlen)] at hend hphys ⊢
  have hsum : u32 (Bytes.le32 eh (12 + 12 * k) + eeLen eh k) =
      Bytes.le32 eh (12 + 12 * k) + eeLen eh k :=
    Nat.mod_eq_of_lt hend
  rw [if_neg hlen, hsum]
  by_cases hcov : Bytes.le32 eh (12 + 12 * k) ≤ logical ∧
      logical < Bytes.le32 eh (12 + 12 * k) + eeLen eh k
  · -- the number of the block has no more than 32 bits
    rw [if_pos hcov, if_pos ⟨Nat.le_of_not_lt hlen, hcov⟩, u32]
    omega
  · rw [if_neg hcov, if_neg fun hc => hcov hc.2]

/-- What the loop over a leaf finds, from the entry `k` on. -/
lemma leafLookup_spec (logical : ℕ)
    (hend : ∀ k < ehEntries eh, (extentAt eh k).block + (extentAt eh k).len < 2 ^ 32)
    (hphys : ∀ k < ehEntries eh, (extentAt eh k).start + (extentAt eh k).len ≤ 2 ^ 32) {n k : ℕ}
    (hk : k + n = ehEntries eh) :
    (∃ j < ehEntries eh, (extentAt eh j).written = true ∧ (extentAt eh j).Covers logical ∧
        leafLookup eh logical n k = (extentAt eh j).start + (logical - (extentAt eh j).block)) ∨
      (leafLookup eh logical n k = 0 ∧ ∀ j, k ≤ j → j < ehEntries eh →
        (extentAt eh j).Covers logical →
        (extentAt eh j).written = false) := by
  induction n generalizing k with
  | zero => exact .inr ⟨rfl, fun j hj hlt => absurd hlt (by omega)⟩
  | succ n ih =>
    have hlt : k < ehEntries eh := by omega
    rw [leafLookup_succ (hend k hlt) (hphys k hlt)]
    split_ifs with hhit
    · exact .inl ⟨k, hlt, hhit.1, hhit.2, rfl⟩
    · refine (ih (k := k + 1) (by omega)).imp id fun ⟨hzero, hall⟩ => ⟨hzero, fun j hkj hj hc => ?_⟩
      rcases hkj.eq_or_lt with rfl | hkj
      · simpa [hc] using hhit
      · exact hall j hkj hj hc

/-- The loop over an inner node stops at the last child that starts at `logical` or in front of
it. -/
lemma indexLookup_spec (logical : ℕ) {n k : ℕ} (hk : k < ehEntries eh)
    (hn : ehEntries eh ≤ k + 1 + n) (hle : eiBlock eh k ≤ logical) :
    indexLookup eh logical n k < ehEntries eh ∧ eiBlock eh (indexLookup eh logical n k) ≤ logical ∧
      (indexLookup eh logical n k + 1 < ehEntries eh →
        logical < eiBlock eh (indexLookup eh logical n k + 1)) := by
  induction n generalizing k with
  | zero => exact ⟨hk, hle, fun hlt => absurd hlt (by rw [indexLookup]; omega)⟩
  | succ n ih =>
    rw [indexLookup]
    split_ifs with hnext
    · exact ih hnext.1 (by omega) hnext.2
    · refine ⟨hk, hle, fun hlt => ?_⟩
      by_contra hge
      exact hnext ⟨hlt, Nat.le_of_not_lt hge⟩

/-- The descent comes to the extent that contains the block. -/
lemma ExtentTree.mappedTo {es : List Extent} (h : ExtentTree fs d depth eh lo hi es) {n : ℕ}
    (hn : depth < n) (hhi : hi < 2 ^ 32) : MappedTo es logical (extentOn fs d logical n eh) := by
  induction h generalizing n with
  | @leaf eh lo hi hmagic hdepth hrange hsorted hphys =>
    obtain ⟨n, rfl⟩ : ∃ m, n = m + 1 := ⟨n - 1, by omega⟩
    have htree : ExtentTree fs d 0 eh lo hi ((List.range (ehEntries eh)).map (extentAt eh)) :=
      .leaf hmagic hdepth hrange hsorted hphys
    have heq : extentOn fs d logical (n + 1) eh = leafLookup eh logical (ehEntries eh) 0 := by
      rw [extentOn, if_neg (not_not.mpr hmagic), if_pos hdepth, ehEntries]
    rw [heq]
    rcases leafLookup_spec logical (fun k hk => (hrange k hk).2.trans_lt hhi) hphys
      (Nat.zero_add _) with ⟨j, hj, hwritten, hcov, hfound⟩ | ⟨hzero, hall⟩
    · have hmem : extentAt eh j ∈ (List.range (ehEntries eh)).map (extentAt eh) :=
        List.mem_map_of_mem (List.mem_range.mpr hj)
      refine ⟨fun e he _ hc => ?_, fun hno => ?_⟩
      · rw [hfound, htree.unique he hmem hc hcov]
      · rw [hno _ hmem hcov] at hwritten
        cases hwritten
    · refine ⟨fun e he hwritten hc => ?_, fun _ => hzero⟩
      obtain ⟨j, hj, rfl⟩ := List.mem_map.mp he
      rw [hall j (Nat.zero_le j) (List.mem_range.mp hj) hc] at hwritten
      cases hwritten
  | @index eh depth lo hi es hmagic hdepth hrange hsorted hphys hsub ih =>
    obtain ⟨n, rfl⟩ : ∃ m, n = m + 1 := ⟨n - 1, by omega⟩
    rw [extentOn, if_neg (not_not.mpr hmagic), if_neg (by rw [hdepth]; exact Nat.succ_ne_zero _)]
    split_ifs with hnone
    · -- the tree is empty, or it starts behind the block
      refine ⟨fun e he _ hc => ?_, fun _ => rfl⟩
      obtain ⟨k, hk, he⟩ := List.mem_flatMap.mp he
      have hk := List.mem_range.mp hk
      have hfirst := ((hsub k hk).range e he).1
      have hcov := hc.1
      rcases hnone with hzero | hlt
      · unfold ehEntries at hk
        omega
      · have hle : eiBlock eh 0 ≤ eiBlock eh k := by
          rcases Nat.eq_zero_or_pos k with rfl | hpos
          · exact le_rfl
          · exact (hsorted 0 k hpos hk).le
        have hlt' : logical < eiBlock eh 0 := hlt
        omega
    · rw [not_or] at hnone
      obtain ⟨hlt, hle, hnext⟩ := indexLookup_spec logical (n := ehEntries eh) (k := 0)
        (Nat.pos_of_ne_zero hnone.1) (by omega) (Nat.le_of_not_lt hnone.2)
      simp only [← ehEntries.eq_1]
      generalize indexLookup eh logical (ehEntries eh) 0 = k at hlt hle hnext ⊢
      have hleaf : Bytes.le32 eh (12 + 12 * k + 4) = eiLeaf eh k := by
        have hphys' := hphys k hlt
        have heq : eiLeaf eh k = Bytes.le32 eh (12 + 12 * k + 4) +
            2 ^ 32 * Bytes.le16 eh (12 + 12 * k + 8) := rfl
        omega
      rw [hleaf]
      obtain ⟨hwritten, hhole⟩ := ih k hlt (n := n) (by omega) ((eiEnd_le hrange).trans_lt hhi)
      -- the other children are not responsible for the block
      have hmem : ∀ e ∈ (List.range (ehEntries eh)).flatMap es, e.Covers logical → e ∈ es k := by
        intro e he hc
        obtain ⟨j, hj, he⟩ := List.mem_flatMap.mp he
        have hj := List.mem_range.mp hj
        obtain ⟨hfirst, hlast⟩ := (hsub j hj).range e he
        have hcov := hc.1
        have hcov' := hc.2
        rcases lt_trichotomy j k with hjk | rfl | hjk
        · have hend := eiEnd_le_eiBlock hi hjk hlt hsorted
          omega
        · exact he
        · have hstart : eiBlock eh (k + 1) ≤ eiBlock eh j := by
            rcases (Nat.succ_le_of_lt hjk).lt_or_eq with hlt' | rfl
            · exact (hsorted _ _ hlt' hj).le
            · exact le_rfl
          have hbefore := hnext (by omega)
          omega
      refine ⟨fun e he hw hc => hwritten e (hmem e he hc) hw hc, fun hno => hhole fun e he hc => ?_⟩
      exact hno e (List.mem_flatMap.mpr ⟨k, List.mem_range.mpr hlt, he⟩) hc

/-- `ext4_extent_lookup` finds what the flat list of the extents says, of which at most one contains
the block. -/
theorem ext4ExtentLookup_eq_search {v : Image} {es : List Extent}
    (h : ExtentTree fs v.disk depth eh lo hi es) (hdepth : depth ≤ 7)
    (hhi : hi < 2 ^ 32) (logical : ℕ) :
    (ext2View fs).wp (ext4ExtentLookup fs logical 8 eh) (fun r v' => MappedTo es logical r ∧
      (∀ e ∈ es, ∀ e' ∈ es, e.Covers logical → e'.Covers logical → e = e') ∧ v' = v) v := by
  refine View.wp_mono (returns_extentLookup logical 8 eh) ?_
  rintro r v' ⟨rfl, rfl⟩
  exact ⟨h.mappedTo (Nat.lt_succ_of_le hdepth) hhi, fun e he e' he' => h.unique he he', rfl⟩

/-! ## A tree of two leaves -/

/-- The root: block 5 for the blocks from 0 on, block 6 for those from 10 on. -/
def twoLeaves : Bytes := Bytes.ofList
  [0x0a, 0xf3, 2, 0, 4, 0, 1, 0, 0, 0, 0, 0, 0, 0, 0, 0, 5, 0, 0, 0, 0, 0, 0, 0,
    10, 0, 0, 0, 6, 0, 0, 0, 0, 0, 0, 0]

/-- The drive: three blocks from 100 on and two that are not written; four blocks from 300 on. -/
def twoLeavesDrive : Bytes := fun i =>
  if i / 1024 = 5 then
    Bytes.ofList [0x0a, 0xf3, 2, 0, 84, 0, 0, 0, 0, 0, 0, 0, 0, 0, 0, 0, 3, 0, 0, 0, 100, 0, 0, 0,
      5, 0, 0, 0, 2, 128, 0, 0, 200, 0, 0, 0] (i % 1024)
  else if i / 1024 = 6 then
    Bytes.ofList [0x0a, 0xf3, 1, 0, 84, 0, 0, 0, 0, 0, 0, 0, 10, 0, 0, 0, 4, 0, 0, 0, 44, 1, 0, 0]
      (i % 1024)
  else 0

/-- A volume with blocks of 1024 bytes. -/
def twoLeavesFs : Ext2Fs := OneFile.fs ⟨1, 8192, 400, [], 0⟩

/-- The driver with this drive. -/
def twoLeavesImage : Image := ⟨twoLeavesDrive, (OneFile.state ⟨1, 8192, 400, [], 0⟩).nodePool, 1⟩

/-- The extents in the leaf that the child number `k` is. -/
def twoLeavesExtents (k : ℕ) : List Extent :=
  (List.range (ehEntries (blockOn twoLeavesFs twoLeavesDrive (eiLeaf twoLeaves k)))).map
    (extentAt (blockOn twoLeavesFs twoLeavesDrive (eiLeaf twoLeaves k)))

lemma twoLeaves_tree : ExtentTree twoLeavesFs twoLeavesDrive 1 twoLeaves 0 20
    ((List.range (ehEntries twoLeaves)).flatMap twoLeavesExtents) := by
  refine .index (by decide) (by decide) (by decide) (fun i j hij hj => ?_)
    (by decide) fun k hk => ?_
  · have hj : j < 2 := hj
    obtain ⟨rfl, rfl⟩ : i = 0 ∧ j = 1 := by omega
    decide
  · have hk : k < 2 := hk
    obtain rfl | rfl : k = 0 ∨ k = 1 := by omega
    · exact .leaf (by decide) (by decide) (by decide) (by decide) (by decide)
    · exact .leaf (by decide) (by decide) (by decide) (by decide) (by decide)

theorem ext4ExtentLookup_eq_search_twoLeaves :
    (ext2View twoLeavesFs).wp (ext4ExtentLookup twoLeavesFs 12 8 twoLeaves) (fun r v' =>
      MappedTo ((List.range (ehEntries twoLeaves)).flatMap twoLeavesExtents) 12 r ∧
      (∀ e ∈ (List.range (ehEntries twoLeaves)).flatMap twoLeavesExtents,
        ∀ e' ∈ (List.range (ehEntries twoLeaves)).flatMap twoLeavesExtents,
          e.Covers 12 → e'.Covers 12 → e = e') ∧
      v' = twoLeavesImage) twoLeavesImage :=
  @ext4ExtentLookup_eq_search _ _ _ _ _ twoLeavesImage _ twoLeaves_tree (by norm_num)
    (by norm_num) 12

end Ext2

end CoolFrost
