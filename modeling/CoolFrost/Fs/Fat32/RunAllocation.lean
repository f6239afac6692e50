import CoolFrost.Fs.Fat32.Clusters
import CoolFrost.Fs.Fat32.TableDrive

/-!
# FAT32: the longest run

`fat32_alloc_run` is to hand out the longest run of free clusters, up to the length that is wanted.
Its search is cut into two passes where `next_free_hint` is, and a run that lies across the cut is
taken for two shorter ones.
-/

namespace CoolFrost

open Program

namespace Fat32

open LongestRun

variable {fs : Fat32Fs} {want start : ℕ} {v v' : Volume} {r : ℕ × ℕ} {s : Fat32State}

/-- The longest run of free clusters of the volume. -/
noncomputable def longestFree (fs : Fat32Fs) (v : Volume) : ℕ :=
  longest (Free v) 2 (fs.totalClusters + 2)

/-- The longest run of free clusters that does not lie across the cluster `start`. -/
noncomputable def longestUncut (fs : Fat32Fs) (v : Volume) (start : ℕ) : ℕ :=
  max (longest (Free v) start (fs.totalClusters + 2)) (longest (Free v) 2 start)

/-- What `fat32_alloc_run` is to do: nothing when no cluster is free, and otherwise to take a
longest run of free clusters, or as much of it as is wanted, and to chain it together. -/
structure BestFit (fs : Fat32Fs) (want : ℕ) (v : Volume) (r : ℕ × ℕ) (v' : Volume) : Prop where
  fails : r.1 = 0 ↔ Full fs v
  unchanged : Full fs v → v' = v
  len : ¬Full fs v → r.2 = min want (longestFree fs v)
  free : ¬Full fs v → RunIn (Free v) 2 (fs.totalClusters + 2) r.1 r.2
  chained : ¬Full fs v → v' = { v with fat := chainFat v.fat r.1 r.2 r.2 }

lemma full_iff_longestFree : Full fs v ↔ longestFree fs v = 0 := by
  rw [longestFree, longest_eq_zero_iff]
  constructor
  · intro h c hlo hhi
    exact h c ⟨hlo, by omega⟩
  · intro h c hc
    exact h c hc.1 hc.lt

lemma longestUncut_le (hstart : 2 ≤ start ∧ start ≤ fs.totalClusters + 2) :
    longestUncut fs v start ≤ longestFree fs v :=
  max_le (longest_mono hstart.1 le_rfl) (longest_mono le_rfl hstart.2)

/-- A free cluster is on one side of the cut. -/
lemma longestUncut_pos (start : ℕ) (h : ¬Full fs v) : 0 < longestUncut fs v start := by
  rw [Nat.pos_iff_ne_zero]
  intro h0
  have hzero : longest (Free v) start (fs.totalClusters + 2) = 0 ∧
      longest (Free v) 2 start = 0 := by
    unfold longestUncut at h0
    omega
  refine h fun c hc hfree => ?_
  rcases Nat.lt_or_ge c start with hlt | hge
  · exact longest_eq_zero_iff.mp hzero.2 c hc.1 hlt hfree
  · exact longest_eq_zero_iff.mp hzero.1 c hge hc.lt hfree

/-- What is taken is a longest run exactly if none that is longer lies across the cut. -/
lemma RunTaken.bestFit_iff (h : RunTaken fs want start v r v') (hwant : 0 < want)
    (hstart : 2 ≤ start ∧ start ≤ fs.totalClusters + 2) :
    BestFit fs want v r v' ↔ min want (longestFree fs v) ≤ longestUncut fs v start := by
  obtain ⟨hlen, hnone, hrun⟩ := h
  change r.2 = min want (longestUncut fs v start) at hlen
  have hle := @longestUncut_le fs start v hstart
  by_cases hfull : Full fs v
  · have h0 := full_iff_longestFree.mp hfull
    obtain ⟨hr, hv⟩ := hnone (by omega)
    refine iff_of_true ⟨iff_of_true hr hfull, fun _ => hv, fun h => absurd hfull h,
      fun h => absurd hfull h, fun h => absurd hfull h⟩ (by omega)
  · have hpos := longestUncut_pos start hfull
    obtain ⟨hin, hv⟩ := hrun (by omega)
    have hne : r.1 ≠ 0 := by
      have := hin.le
      omega
    constructor
    · intro hbest
      have := hbest.len hfull
      omega
    · intro hcut
      exact ⟨iff_of_false hne hfull, fun h => absurd h hfull, fun _ => by omega, fun _ => hin,
        fun _ => hv⟩

/-- **`fat32_alloc_run` takes the longest run** exactly if no run across the place where the search
starts is better than those on either side of it. -/
theorem allocRun_bestFit_iff (hl : Layout fs) (hs : Sound fs s) (hwant : 0 < want) :
    wp (fat32AllocRun fs want) (fun r s' =>
        BestFit fs want ((fat32View fs).view s) r ((fat32View fs).view s')) s ↔
      min want (longestFree fs ((fat32View fs).view s)) ≤
        longestUncut fs ((fat32View fs).view s) (searchStart fs s) := by
  obtain ⟨r, s', hm, -, htaken⟩ := wp_allocRun_at hl hwant hs
  rw [wp_iff_of_eq hm]
  exact htaken.bestFit_iff hwant (searchStart_range hl s)

/-! ## A volume with one free run -/

/-- The clusters 3 to 7 are a free run. -/
lemma sixVolume_run : RunIn (Free sixVolume) 3 8 3 5 :=
  ⟨le_rfl, le_rfl, fun c hlo _ => if_neg (by omega)⟩

theorem allocRun_bestFit_iff_hint : wp (fat32AllocRun sixFs 5) (fun r s' =>
    BestFit sixFs 5 ((fat32View sixFs).view (sixState 3)) r ((fat32View sixFs).view s'))
    (sixState 3) := by
  refine (allocRun_bestFit_iff sixFs_layout (sixState_sound 3) (by norm_num)).mpr ?_
  rw [sixState_view, show searchStart sixFs (sixState 3) = 3 by decide]
  exact (min_le_left _ _).trans (le_max_of_le_left (le_longest sixVolume_run))

/-- With the hint in the middle of the run, only a part of it is taken. -/
theorem not_allocRun_bestFit : ¬ ∀ (fs : Fat32Fs) (s : Fat32State) (want : ℕ), Layout fs →
    Sound fs s → 0 < want → wp (fat32AllocRun fs want) (fun r s' =>
      BestFit fs want ((fat32View fs).view s) r ((fat32View fs).view s')) s := by
  intro h
  obtain ⟨r, s', hm, -, htaken⟩ := @wp_allocRun_at sixFs sixFs_layout 5 (by norm_num) _
    (sixState_sound 5)
  have hbest := h sixFs (sixState 5) 5 sixFs_layout (sixState_sound 5) (by norm_num)
  rw [wp_iff_of_eq hm, htaken.bestFit_iff (by norm_num) (searchStart_range sixFs_layout _),
    sixState_view, show searchStart sixFs (sixState 5) = 5 by decide] at hbest
  have hlong : 5 ≤ longestFree sixFs sixVolume :=
    le_longest (sixVolume_run.mono (by norm_num) le_rfl)
  have hhigh := longest_le_sub (Free sixVolume) 5 8
  have hlow := longest_le_sub (Free sixVolume) 2 5
  have hcut : longestUncut sixFs sixVolume 5 ≤ 3 := max_le hhigh hlow
  omega

end Fat32

end CoolFrost
