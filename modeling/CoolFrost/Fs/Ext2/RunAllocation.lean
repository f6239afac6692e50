import CoolFrost.Fs.Ext2.Relocation

/-!
# ext2: the longest run

`alloc_block_run` is to take the longest run of free blocks of any group, up to the length that is
wanted. Its search ends in the first group that has a free block at all, so that it takes the
longest run of that group, and `ext2_defrag_one` leaves a file alone for which only a later group
has room.
-/

namespace CoolFrost

open Program

namespace Ext2

open LongestRun

variable {fs : Ext2Fs} {p : Plan} {v v' : Vol} {g len want : ℕ} {r : ℕ × ℕ} {s : Ext2State}
  {node : ℕ}

/-- What `alloc_block_run` is to do: nothing when no block is free, and otherwise to take a run of
free blocks of one group, as long as any there is or as long as is wanted. -/
structure BestRun (fs : Ext2Fs) (want : ℕ) (v : Vol) (r : ℕ × ℕ) (v' : Vol) : Prop where
  fails : r.1 = 0 ↔ ∀ b, InVolume fs b → v.used b = true
  unchanged : r.1 = 0 → v' = v
  taken : r.1 ≠ 0 → ∃ g < fs.groupsCount, FreeRun fs v g r.1 r.2 ∧ v' = v.takeRun g r.1 r.2 ∧
    v'.free g + r.2 = v.free g ∧ v'.total + r.2 = v.total
  best : r.1 ≠ 0 → r.2 ≤ want ∧ ∀ g start len, FreeRun fs v g start len → len ≤ want → len ≤ r.2

/-- The first group with a free block. -/
def FirstFree (fs : Ext2Fs) (v : Vol) (g : ℕ) : Prop :=
  (∃ b, InVolume fs b ∧ v.used b = false ∧ groupOf fs b = g) ∧
    ∀ b, InVolume fs b → v.used b = false → g ≤ groupOf fs b

/-- That group has as long a run as any other, as far as is wanted. -/
def FirstHasBest (fs : Ext2Fs) (want : ℕ) (v : Vol) : Prop :=
  ∀ g, FirstFree fs v g → ∀ g' start len, FreeRun fs v g' start len → len ≤ want →
    ∃ start', FreeRun fs v g start' len

/-! ## The runs of a group -/

/-- The free runs of a group are those that its search measures. -/
lemma exists_freeRun_iff (hl : Layout fs) (hc : Consistent fs v) :
    (∃ start, FreeRun fs v g start len) ↔ len ≤ groupLongest fs v g := by
  constructor
  · rintro ⟨start, hrun⟩
    by_cases h0 : len = 0
    · omega
    obtain ⟨hin, -, hg⟩ := hrun 0 (by omega)
    rw [Nat.add_zero] at hin hg
    have hno := blockNo_groupOf hin
    -- the last block of the run is in the group, too
    obtain ⟨hin', -, hg'⟩ := hrun (len - 1) (by omega)
    have hno' := blockNo_groupOf hin'
    have hlt := bitOf_lt hl (start + (len - 1))
    have hend := hin'.2
    rw [hg] at hno
    rw [hg'] at hno'
    have hmem : RunIn (fun k => Available fs v (blockNo fs g k)) 0
        (min fs.blocksPerGroup (fs.blocksCount - blockNo fs g 0)) (bitOf fs start) len := by
      refine ⟨Nat.zero_le _, ?_, fun k hlo hhi => ?_⟩
      · unfold blockNo at hno hno' ⊢
        omega
      · obtain ⟨hb, hu, hgb⟩ := hrun (k - bitOf fs start) (by omega)
        have hk : start + (k - bitOf fs start) = blockNo fs g k := by
          unfold blockNo at hno ⊢
          omega
        rw [hk] at hb hu hgb
        exact ⟨hb, hu, (hc.counted hl hb hu).1⟩
    exact le_longest hmem
  · intro hle
    obtain ⟨x, hx⟩ := exists_longest (fun k => Available fs v (blockNo fs g k)) (Nat.zero_le
      (min fs.blocksPerGroup (fs.blocksCount - blockNo fs g 0)))
    have hrun := hx.take hle
    have hend := hrun.end_le
    refine ⟨blockNo fs g x, fun i hi => ?_⟩
    have hav := hrun.all (x + i) (by omega) (by omega)
    have hadd : blockNo fs g x + i = blockNo fs g (x + i) := by
      unfold blockNo
      omega
    rw [hadd]
    exact ⟨hav.1, hav.2.1, (groupOf_blockNo (by omega)).1⟩

/-- A group has something to give exactly if a block of it is free. -/
lemma groupLongest_eq_zero_iff (hl : Layout fs) (hc : Consistent fs v) :
    groupLongest fs v g = 0 ↔ ∀ b, InVolume fs b → groupOf fs b = g → v.used b = true := by
  constructor
  · intro h0 b hb hg
    refine Bool.eq_true_of_not_eq_false fun hu => ?_
    have hrun : FreeRun fs v g b 1 := fun i hi => by
      obtain rfl : i = 0 := by omega
      exact ⟨hb, hu, hg⟩
    have := (exists_freeRun_iff hl hc).mp ⟨b, hrun⟩
    omega
  · intro hall
    by_contra h0
    obtain ⟨start, hrun⟩ := (@exists_freeRun_iff fs v g 1 hl hc).mpr (by omega)
    obtain ⟨hb, hu, hg⟩ := hrun 0 Nat.one_pos
    rw [hall _ hb hg] at hu
    cases hu

lemma FirstFree.firstRun_eq (hl : Layout fs) (hc : Consistent fs v) (h : FirstFree fs v g) :
    firstRun fs v = groupLongest fs v g ∧ groupLongest fs v g ≠ 0 := by
  obtain ⟨⟨b, hb, hu, hg⟩, hfirst⟩ := h
  have hne : groupLongest fs v g ≠ 0 := fun h0 => by
    rw [(groupLongest_eq_zero_iff hl hc).mp h0 b hb hg] at hu
    cases hu
  refine ⟨Ext2.firstRun_eq (hg ▸ (groupIn_groupOf hl hb).1) hne fun g' hlt => ?_, hne⟩
  refine (groupLongest_eq_zero_iff hl hc).mpr fun b' hb' hg' => ?_
  refine Bool.eq_true_of_not_eq_false fun hu' => ?_
  have := hfirst b' hb' hu'
  omega

/-- There is a first group with a free block, unless no block is free. -/
lemma exists_firstFree {b : ℕ} (hb : InVolume fs b) (hu : v.used b = false) :
    ∃ g, FirstFree fs v g := by
  classical
  have hex : ∃ g, ∃ b, InVolume fs b ∧ v.used b = false ∧ groupOf fs b = g := ⟨_, b, hb, hu, rfl⟩
  exact ⟨Nat.find hex, Nat.find_spec hex, fun b' hb' hu' => Nat.find_min' hex ⟨b', hb', hu', rfl⟩⟩

/-- The first group is as good as any exactly if no run of another one is longer than its
longest. -/
lemma FirstFree.hasBest_iff (hl : Layout fs) (hc : Consistent fs v) (h : FirstFree fs v g) :
    FirstHasBest fs want v ↔
      ∀ g' start len, FreeRun fs v g' start len → len ≤ want → len ≤ firstRun fs v := by
  rw [(h.firstRun_eq hl hc).1]
  constructor
  · intro hbest g' start len hrun hle
    exact (exists_freeRun_iff hl hc).mp (hbest g h g' start len hrun hle)
  · intro hall g₁ h₁ g' start len hrun hle
    have heq : g₁ = g := by
      obtain ⟨⟨b, hb, hu, hg⟩, hfirst⟩ := h
      obtain ⟨⟨b₁, hb₁, hu₁, hg₁⟩, hfirst₁⟩ := h₁
      have hle₁ := hfirst b₁ hb₁ hu₁
      have hle₂ := hfirst₁ b hb hu
      omega
    rw [heq]
    exact (exists_freeRun_iff hl hc).mpr (hall g' start len hrun hle)

/-! ## What is taken -/

/-- The counters count every block of a run. -/
lemma Consistent.counters_takeRun (hl : Layout fs) (hc : Consistent fs v) {start : ℕ}
    (hg : g < fs.groupsCount) (hrun : FreeRun fs v g start len) :
    (v.takeRun g start len).free g + len = v.free g ∧
      (v.takeRun g start len).total + len = v.total := by
  have hsub : Finset.Ico start (start + len) ⊆ unusedIn fs v g := fun b hb => by
    obtain ⟨hin, hused, hgb⟩ := hrun.mem (Finset.mem_Ico.mp hb)
    exact mem_unusedIn.mpr ⟨hin, hgb, hused⟩
  have hsub' : Finset.Ico start (start + len) ⊆ unused fs v := fun b hb =>
    mem_unused.mpr ⟨(mem_unusedIn.mp (hsub hb)).1, (mem_unusedIn.mp (hsub hb)).2.2⟩
  have hafter := hc.takeRun hl hg hrun
  have hfree := hafter.free g hg
  have htotal := hafter.total
  rw [unusedIn_takeRun, (card_sdiff_run hsub).2, ← hc.free g hg] at hfree
  rw [unused_takeRun, (card_sdiff_run hsub').2, ← hc.total] at htotal
  have hle := (card_sdiff_run hsub).1
  have hle' := (card_sdiff_run hsub').1
  rw [← hc.free g hg] at hle
  rw [← hc.total] at hle'
  omega

/-- What is taken is the best there is exactly if the first group with a free block has it. -/
lemma RunTaken.bestRun_iff (hl : Layout fs) (hc : Consistent fs v) (h : RunTaken fs want v r v') :
    BestRun fs want v r v' ↔ FirstHasBest fs want v := by
  obtain ⟨hlen, hnone, hrun⟩ := h
  by_cases hfull : ∀ b, InVolume fs b → v.used b = true
  · have hzero := @firstRun_eq_zero fs v fun g _ =>
      (groupLongest_eq_zero_iff hl hc).mpr fun b hb _ => hfull b hb
    obtain ⟨hr, hv⟩ := hnone hzero
    refine iff_of_true ⟨iff_of_true hr hfull, fun _ => hv, fun h => absurd hr h,
      fun h => absurd hr h⟩ fun g hg => ?_
    obtain ⟨b, hb, hu, -⟩ := hg.1
    rw [hfull b hb] at hu
    cases hu
  · obtain ⟨b, hb, hu⟩ : ∃ b, InVolume fs b ∧ v.used b = false := by
      simpa using hfull
    obtain ⟨g, hg⟩ := exists_firstFree hb hu
    have hpos : firstRun fs v ≠ 0 := by
      rw [(hg.firstRun_eq hl hc).1]
      exact (hg.firstRun_eq hl hc).2
    obtain ⟨hr, g', hg', hv, hmem⟩ := hrun hpos
    have hfree : FreeRun fs v g' r.1 r.2 := fun i hi =>
      ⟨(hmem i hi).1.1, (hmem i hi).1.2.1, (hmem i hi).2⟩
    rw [hg.hasBest_iff hl hc]
    constructor
    · intro hbest g₁ start len hrun₁ hle
      have := (hbest.best hr).2 g₁ start len hrun₁ hle
      omega
    · intro hall
      refine ⟨iff_of_false hr hfull, fun h => absurd h hr, fun _ => ⟨g', hg', hfree, hv, ?_⟩,
        fun _ => ⟨by omega, fun g₁ start len hrun₁ hle => ?_⟩⟩
      · rw [hv]
        exact hc.counters_takeRun hl hg' hfree
      · have := hall g₁ start len hrun₁ hle
        omega

/-- `alloc_block_run` takes the longest run exactly if the first group with a free block has it. -/
lemma wp_allocBlockRun_iff (hl : Layout fs) (hp : p.Fits fs) (hs : (volView fs p).good s)
    (h0 : ((volView fs p).view s).used 0 = true) (hc : Consistent fs ((volView fs p).view s))
    (hwant : 0 < want) :
    wp (allocBlockRun fs want) (fun r s' =>
        BestRun fs want ((volView fs p).view s) r ((volView fs p).view s')) s ↔
      FirstHasBest fs want ((volView fs p).view s) := by
  obtain ⟨r, s', hm, -, htaken⟩ := vol_allocBlockRun hl hp h0 hwant s hs rfl
  rw [wp_iff_of_eq hm]
  exact htaken.bestRun_iff hl hc

/-- A group has room for the file. -/
def RoomFor (fs : Ext2Fs) (v : Vol) (inode : Bytes) : Prop :=
  ∃ g start, FreeRun fs v g start (blockCount fs inode)

/-- A file for which a group has room is moved exactly if the first group with a free block has room
for it. -/
lemma wp_defragOne_iff (h : MountedFile fs p s node) (hs : Solid fs p ((volView fs p).view s)
      (inodeIn fs p ((volView fs p).view s) (s.nodePool node).inode))
    (hc : Consistent fs ((volView fs p).view s))
    (hfrag : contiguous (blocksOf fs ((volView fs p).view s)
      (inodeIn fs p ((volView fs p).view s) (s.nodePool node).inode)) = false)
    (hroom : RoomFor fs ((volView fs p).view s)
      (inodeIn fs p ((volView fs p).view s) (s.nodePool node).inode)) :
    wp (ext2DefragOne fs node) (fun r _ => r = 1) s ↔
      FirstHasBest fs (blockCount fs
          (inodeIn fs p ((volView fs p).view s) (s.nodePool node).inode))
        ((volView fs p).view s) := by
  obtain ⟨r, s', hm, -, -, hmoved⟩ :=
    vol_ext2DefragOne h.layout h.fits h.reserved h.inode hs hc s h.good rfl
  rw [wp_iff_of_eq hm]
  have hnode : (((volView fs p).view s).nodes node).inode = (s.nodePool node).inode := rfl
  rw [hnode, length_blocksOf] at hmoved
  generalize inodeIn fs p ((volView fs p).view s) (s.nodePool node).inode = inode at *
  have hr : r = 1 ↔ blockCount fs inode ≤ firstRun fs ((volView fs p).view s) :=
    hmoved.trans ⟨fun h => h.2, fun h => ⟨hfrag, h⟩⟩
  obtain ⟨g, start, hrun⟩ := hroom
  have hpos : 0 < blockCount fs inode := by
    by_contra h0
    rw [blocksOf, Nat.eq_zero_of_not_pos h0] at hfrag
    cases hfrag
  obtain ⟨hb, hu, -⟩ := hrun 0 hpos
  obtain ⟨g₁, hfirst⟩ := exists_firstFree hb hu
  rw [hr, hfirst.hasBest_iff h.layout hc]
  exact ⟨fun hle _ _ len _ hlen => hlen.trans hle, fun hall => hall g start _ hrun le_rfl⟩

/-- **`alloc_block_run` takes the longest run, and `ext2_defrag_one` moves a file for which there is
room**, exactly if the first group with a free block has as long a run as any other. -/
theorem runAllocation_iff (hl : Layout fs) (hp : p.Fits fs) (hs : (volView fs p).good s)
    (h0 : ((volView fs p).view s).used 0 = true) (hc : Consistent fs ((volView fs p).view s)) :
    (∀ want, 0 < want →
      (wp (allocBlockRun fs want) (fun r s' =>
          BestRun fs want ((volView fs p).view s) r ((volView fs p).view s')) s ↔
        FirstHasBest fs want ((volView fs p).view s))) ∧
    ∀ node inode, inode = inodeIn fs p ((volView fs p).view s) (s.nodePool node).inode →
      MountedFile fs p s node → Solid fs p ((volView fs p).view s) inode →
      contiguous (blocksOf fs ((volView fs p).view s) inode) = false →
      RoomFor fs ((volView fs p).view s) inode →
      (wp (ext2DefragOne fs node) (fun r _ => r = 1) s ↔
        FirstHasBest fs (blockCount fs inode) ((volView fs p).view s)) := by
  refine ⟨fun want hwant => wp_allocBlockRun_iff hl hp hs h0 hc hwant, ?_⟩
  rintro node _ rfl hmounted hsolid hfrag hroom
  exact wp_defragOne_iff hmounted hsolid hc hfrag hroom

/-! ## Volumes of two groups -/

/-- The free blocks are those at the end of the second group. -/
lemma twoGroups_free : ∀ b < 17, twoGroups.vol.used b = false → groupOf twoGroups.fs b = 1 := by
  decide

lemma twoGroups_hasBest (want : ℕ) : FirstHasBest twoGroups.fs want twoGroups.vol := by
  rintro g ⟨⟨b, hb, hu, rfl⟩, -⟩ g' start len hrun -
  rw [twoGroups_free b hb.2 hu]
  by_cases h0 : len = 0
  · exact ⟨0, fun i hi => absurd hi (by omega)⟩
  · obtain ⟨hin, hu', hg'⟩ := hrun 0 (by omega)
    rw [twoGroups_free _ hin.2 hu'] at hg'
    rw [hg']
    exact ⟨start, hrun⟩

theorem runAllocation_iff_twoGroups :
    (∀ want, 0 < want → wp (allocBlockRun twoGroups.fs want) (fun r s' =>
      BestRun twoGroups.fs want twoGroups.vol r
        ((volView twoGroups.fs twoGroups.plan).view s')) twoGroups.state) ∧
      wp (ext2DefragOne twoGroups.fs 0) (fun r _ => r = 1) twoGroups.state := by
  have h := @runAllocation_iff twoGroups.fs twoGroups.plan twoGroups.state twoGroups_ok.layout
    twoGroups_ok.fits twoGroups_ok.good rfl twoGroups_consistent
  refine ⟨fun want hwant => (h.1 want hwant).mpr (twoGroups_hasBest want), ?_⟩
  refine (h.2 0 _ rfl twoGroups_mounted twoGroups_solid ?_ ?_).mpr (twoGroups_hasBest _)
  · change contiguous (blocksOf twoGroups.fs twoGroups.vol
      (inodeIn twoGroups.fs twoGroups.plan twoGroups.vol 12)) = false
    rw [twoGroups_blocks]
    rfl
  · refine ⟨1, 15, ?_⟩
    change FreeRun twoGroups.fs twoGroups.vol 1 15 (blockCount twoGroups.fs
      (inodeIn twoGroups.fs twoGroups.plan twoGroups.vol 12))
    rw [← length_blocksOf, twoGroups_blocks]
    decide

/-- One block is free in the first group, and three are in the second one. -/
def shortFirst : OneFile := ⟨2, 9, 19, [8, 7], 2048⟩

lemma shortFirst_ok : shortFirst.Ok := ⟨by decide, by decide, by decide⟩

/-- Two blocks are wanted, and the second group has them; one block of the first group is taken. -/
theorem not_runAllocation : ¬ ∀ (fs : Ext2Fs) (p : Plan) (s : Ext2State), Layout fs → p.Fits fs →
    (volView fs p).good s → ((volView fs p).view s).used 0 = true →
    Consistent fs ((volView fs p).view s) → ∀ want, 0 < want →
      wp (allocBlockRun fs want) (fun r s' =>
        BestRun fs want ((volView fs p).view s) r ((volView fs p).view s')) s := by
  intro h
  have hc : Consistent shortFirst.fs shortFirst.vol := ⟨by decide, by decide⟩
  have hbest := h shortFirst.fs shortFirst.plan shortFirst.state shortFirst_ok.layout
    shortFirst_ok.fits shortFirst_ok.good rfl hc 2 Nat.two_pos
  rw [wp_allocBlockRun_iff shortFirst_ok.layout shortFirst_ok.fits shortFirst_ok.good rfl hc
    Nat.two_pos] at hbest
  have hfirst : FirstFree shortFirst.fs shortFirst.vol 0 :=
    ⟨⟨9, by decide, by decide, by decide⟩, fun _ _ _ => Nat.zero_le _⟩
  have hrun : FreeRun shortFirst.fs shortFirst.vol 1 16 2 := by decide
  obtain ⟨start, hshort⟩ := hbest 0 hfirst 1 16 2 hrun le_rfl
  have honly : ∀ b < 19, shortFirst.vol.used b = false → groupOf shortFirst.fs b = 0 → b = 9 := by
    decide
  obtain ⟨hin, hu, hg⟩ := hshort 0 (by norm_num)
  obtain ⟨hin', hu', hg'⟩ := hshort 1 (by norm_num)
  have h9 := honly _ hin.2 hu hg
  have h9' := honly _ hin'.2 hu' hg'
  omega

end Ext2

end CoolFrost
