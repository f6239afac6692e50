import CoolFrost.Lib.Chain
import CoolFrost.Lib.LongestRun
import CoolFrost.Fs.Fat32.Volume

/-!
# FAT32: allocating clusters and walking chains

What the functions that allocate, link and free clusters do to a volume.  A search hands out only
clusters whose entry is 0, and fails only when there is none; a chain keeps its cells when it grows.
-/

namespace CoolFrost

open Program

namespace Fat32

open LongestRun

variable {fs : Fat32Fs} {v : Volume}

/-- The cluster numbers of a volume. -/
def InRange (fs : Fat32Fs) (c : ℕ) : Prop := 2 ≤ c ∧ c ≤ fs.totalClusters + 1

/-- The values that end a chain. -/
def Ends (c : ℕ) : Prop := fat32Eoc ≤ c

/-- Following the table from `c` visits the clusters `l` and then ends. -/
abbrev ChainAt (fs : Fat32Fs) (fat : ℕ → ℕ) : ℕ → List ℕ → Prop := Links fat (InRange fs) Ends

/-- No cluster is free. -/
def Full (fs : Fat32Fs) (v : Volume) : Prop := ∀ c, InRange fs c → v.fat c ≠ 0

lemma InRange.lt {c : ℕ} (h : InRange fs c) : c < fs.totalClusters + 2 := Nat.lt_succ_of_le h.2

lemma InRange.not_ends (hl : Layout fs) {c : ℕ} (h : InRange fs c) : ¬Ends c := by
  have := hl.clusters
  unfold Ends
  have := h.2
  omega

/-- The number of a cluster fits into an entry of the table. -/
lemma InRange.mod_eq (hl : Layout fs) {c : ℕ} (h : InRange fs c) : c % 2 ^ 28 = c := by
  have := hl.clusters
  have := h.2
  unfold fat32Eoc at *
  exact Nat.mod_eq_of_lt (by omega)

lemma InRange.u32_succ (hl : Layout fs) {c : ℕ} (h : c ≤ fs.totalClusters + 1) :
    u32 (c + 1) = c + 1 := by
  have := hl.clusters
  unfold fat32Eoc at this
  exact Nat.mod_eq_of_lt (by omega)

lemma Layout.lt_loopFuel (hl : Layout fs) : fs.totalClusters + 2 < loopFuel := by
  have := hl.clusters
  unfold fat32Eoc at this
  unfold loopFuel
  omega

lemma Layout.u32_last (hl : Layout fs) : u32 (fs.totalClusters + 1) = fs.totalClusters + 1 := by
  have := hl.clusters
  unfold fat32Eoc at this
  exact Nat.mod_eq_of_lt (by omega)

/-! ## One cluster -/

/-- One loop of `fat32_alloc_cluster`: the first free cluster between two bounds. -/
lemma wp_allocClusterIn (hl : Layout fs) {lo hi : ℕ} (hhi : hi ≤ fs.totalClusters + 1) :
    (fat32View fs).wp (allocClusterIn fs lo hi) (fun r v' =>
      (r = none ∧ v' = v ∧ ∀ c, lo ≤ c → c ≤ hi → v.fat c ≠ 0) ∨
      ∃ c, r = some c ∧ lo ≤ c ∧ c ≤ hi ∧ v.fat c = 0 ∧
        v' = { v with fat := Function.update v.fat c fat32Eoc }) v := by
  refine View.wp_iter (fun c v' => v' = v ∧ lo ≤ c ∧ ∀ c', lo ≤ c' → c' < c → v.fat c' ≠ 0)
    (fun c _ => hi + 1 - c) ?_ ⟨rfl, le_rfl, fun c' h h' => absurd h' (by omega)⟩ ?_
  · rintro c _ ⟨rfl, hlo, hscan⟩
    refine View.wp_ite (fun hc => ?_) (fun hc => View.wp_pure ?_)
    · refine View.wp_bind (wp_next hl (by omega)) ?_
      rintro _ _ ⟨rfl, rfl⟩
      refine View.wp_ite (fun hfree => ?_) (fun hfree => View.wp_pure ?_)
      · refine View.wp_bind (wp_setEntry hl (by omega) fat32Eoc) ?_
        rintro _ _ ⟨rfl, rfl⟩
        refine View.wp_ite (fun _ => ?_) (fun h => absurd rfl h)
        refine View.wp_bind (wp_setHint _) ?_
        rintro _ _ rfl
        exact View.wp_pure (.inr ⟨c, rfl, hlo, hc, hfree, rfl⟩)
      · rw [InRange.u32_succ hl (by omega)]
        refine ⟨⟨rfl, by omega, fun c' h h' => ?_⟩, by omega⟩
        rcases Nat.lt_succ_iff_lt_or_eq.mp h' with h' | rfl
        · exact hscan c' h h'
        · exact hfree
    · exact .inl ⟨rfl, rfl, fun c' h h' => hscan c' h (by omega)⟩
  · have := hl.lt_loopFuel
    omega

/-- A search starts inside the volume, or at its first cluster. -/
lemma searchStart_range (hl : Layout fs) (s : Fat32State) :
    2 ≤ searchStart fs s ∧ searchStart fs s ≤ fs.totalClusters + 2 := by
  simp only [searchStart, hl.u32_last]
  split_ifs <;> omega

/-- `fat32_alloc_cluster` hands out a free cluster, or 0 when there is none. -/
lemma wp_allocCluster (hl : Layout fs) :
    (fat32View fs).wp (fat32AllocCluster fs) (fun c v' =>
      (c = 0 ∧ v' = v ∧ Full fs v) ∨
      (InRange fs c ∧ v.fat c = 0 ∧ v' = { v with fat := Function.update v.fat c fat32Eoc }))
      v := by
  refine View.wp_get fun s _ _ => ?_
  have hstart := searchStart_range hl s
  rw [hl.u32_last]
  refine View.wp_bind (wp_allocClusterIn hl le_rfl) ?_
  rintro r v' (⟨rfl, rfl, hhigh⟩ | ⟨c, rfl, hlo, hc, hfree, rfl⟩)
  · refine View.wp_bind (wp_allocClusterIn hl (by omega)) ?_
    rintro r v' (⟨rfl, rfl, hlow⟩ | ⟨c, rfl, hlo, hc, hfree, rfl⟩)
    · refine View.wp_pure (.inl ⟨rfl, rfl, fun c hc => ?_⟩)
      rcases Nat.lt_or_ge c (searchStart fs s) with h | h
      · exact hlow c hc.1 (by omega)
      · exact hhigh c h hc.2
    · exact View.wp_pure (.inr ⟨⟨hlo, by omega⟩, hfree, rfl⟩)
  · exact View.wp_pure (.inr ⟨⟨by omega, hc⟩, hfree, rfl⟩)

/-! ## Runs of clusters -/

/-- The entries of a run that has been chained together. -/
def chainFat (fat : ℕ → ℕ) (start len done : ℕ) (c : ℕ) : ℕ :=
  if start ≤ c ∧ c < start + done then (if c + 1 < start + len then c + 1 else fat32Eoc) else fat c

/-- The variables of the search of `fat32_alloc_run` describe runs of free clusters, when it has
looked at the clusters from `lo` to before `c`. -/
structure RunSearch.Ok (fs : Fat32Fs) (fat : ℕ → ℕ) (lo c : ℕ) (r : RunSearch) : Prop where
  best_in : 0 < r.bestLen → 2 ≤ r.bestStart ∧ r.bestStart + r.bestLen ≤ fs.totalClusters + 2
  best_free : ∀ x, r.bestStart ≤ x → x < r.bestStart + r.bestLen → fat x = 0
  run_at : 0 < r.runLen → lo ≤ r.runStart ∧ r.runStart + r.runLen = c
  run_free : ∀ x, r.runStart ≤ x → x < r.runStart + r.runLen → fat x = 0
  run_le : r.runLen ≤ r.bestLen
  none_seen : r.bestLen = 0 → ∀ x, lo ≤ x → x < c → fat x ≠ 0

/-- Meeting a free cluster. -/
lemma RunSearch.Ok.free {fat : ℕ → ℕ} {lo c : ℕ} {r : RunSearch} (h : r.Ok fs fat lo c)
    (hlo : 2 ≤ lo) (hc : lo ≤ c) (hc' : c ≤ fs.totalClusters + 1) (hfree : fat c = 0) :
    (r.free c).Ok fs fat lo (c + 1) := by
  obtain ⟨start, hstart, hat, hrun⟩ : ∃ start, start = (if r.runLen = 0 then c else r.runStart) ∧
      (lo ≤ start ∧ start + r.runLen = c) ∧
      ∀ x, start ≤ x → x < start + (r.runLen + 1) → fat x = 0 := by
    refine ⟨_, rfl, ?_, ?_⟩
    · split_ifs with h0
      · exact ⟨hc, by omega⟩
      · exact h.run_at (by omega)
    · split_ifs with h0
      · intro x hx hx'
        obtain rfl : x = c := by omega
        exact hfree
      · intro x hx hx'
        have hr := (h.run_at (by omega)).2
        rcases Nat.lt_or_ge x c with hxc | hxc
        · exact h.run_free x hx (by omega)
        · obtain rfl : x = c := by omega
          exact hfree
  simp only [RunSearch.free, ← hstart]
  split_ifs with hbest
  · exact ⟨fun _ => ⟨by simp only; omega, by simp only; omega⟩, hrun, fun _ =>
      ⟨hat.1, by simp only; omega⟩, hrun, le_rfl, fun h0 => absurd h0 (Nat.succ_ne_zero _)⟩
  · refine ⟨h.best_in, h.best_free, fun _ => ⟨hat.1, by simp only; omega⟩, hrun, ?_, ?_⟩
    · exact Nat.le_of_not_lt hbest
    · intro h0
      simp only at h0
      omega

lemma RunSearch.runLen_free (r : RunSearch) (c : ℕ) : (r.free c).runLen = r.runLen + 1 := by
  unfold RunSearch.free
  split_ifs <;> rfl

lemma RunSearch.bestLen_free (r : RunSearch) (c : ℕ) :
    (r.free c).bestLen = max r.bestLen (r.runLen + 1) := by
  unfold RunSearch.free
  extract_lets runStart
  split_ifs with h
  · exact (Nat.max_eq_right h.le).symm
  · exact (Nat.max_eq_left (Nat.le_of_not_lt h)).symm

/-- Meeting a cluster that is in use. -/
lemma RunSearch.Ok.used {fat : ℕ → ℕ} {lo c : ℕ} {r : RunSearch} (h : r.Ok fs fat lo c)
    (hused : fat c ≠ 0) : RunSearch.Ok fs fat lo (c + 1) { r with runLen := 0 } := by
  refine ⟨h.best_in, h.best_free, fun h0 => absurd h0 (lt_irrefl 0), fun x hx hx' => ?_,
    Nat.zero_le _, fun h0 x hx hx' => ?_⟩
  · simp only at hx hx'
    omega
  · rcases Nat.lt_succ_iff_lt_or_eq.mp hx' with hx' | rfl
    · exact h.none_seen h0 x hx hx'
    · exact hused

/-- The cluster is free. -/
def Free (v : Volume) (c : ℕ) : Prop := v.fat c = 0

/-- The inner loop of `fat32_alloc_run` measures the runs of free clusters until there is a run of
`want`. -/
lemma wp_searchRun (hl : Layout fs) {want lo hi : ℕ} {r : RunSearch} (hlo : 2 ≤ lo)
    (hhi : hi ≤ fs.totalClusters + 1) (hlohi : lo ≤ hi) (hr : r.Ok fs v.fat lo lo)
    (h0 : r.runLen = 0) :
    (fat32View fs).wp (searchRun fs want lo hi r) (fun r' v' => v' = v ∧ ∃ c ≤ hi + 1,
      r'.Ok fs v.fat lo c ∧ Measured (Free v) lo c r.bestLen r'.runLen r'.bestLen ∧
      (r'.bestLen < want → c = hi + 1)) v := by
  refine View.wp_iter (fun p v' => v' = v ∧ lo ≤ p.1 ∧ p.1 ≤ hi + 1 ∧ p.2.Ok fs v.fat lo p.1 ∧
      Measured (Free v) lo p.1 r.bestLen p.2.runLen p.2.bestLen)
    (fun p _ => hi + 1 - p.1) ?_ ⟨rfl, le_rfl, by simp only; omega, hr, ?_⟩ ?_
  · rintro ⟨c, r'⟩ _ ⟨rfl, hlc, hch, hr, hm⟩
    simp only at hlc hch hr hm
    refine View.wp_ite (fun hc => ?_) (fun hc => View.wp_pure ?_)
    · refine View.wp_bind (wp_next hl (by omega)) ?_
      rintro _ _ ⟨rfl, rfl⟩
      refine View.wp_ite (fun hfree => ?_) (fun hfree => View.wp_pure ?_)
      · have hok := hr.free hlo hlc (by omega) hfree
        have hm' := hm.hit hfree
        rw [← RunSearch.bestLen_free r' c, ← RunSearch.runLen_free r' c] at hm'
        refine View.wp_ite (fun hwant => View.wp_pure ?_) (fun hwant => View.wp_pure ?_)
        · exact ⟨rfl, c + 1, by omega, hok, hm', fun hlt => by omega⟩
        · rw [InRange.u32_succ hl (by omega)]
          exact ⟨⟨rfl, by simp only; omega, by simp only; omega, hok, hm'⟩, by simp only; omega⟩
      · rw [InRange.u32_succ hl (by omega)]
        exact ⟨⟨rfl, by simp only; omega, by simp only; omega, hr.used hfree, hm.miss hfree⟩,
          by simp only; omega⟩
    · exact ⟨rfl, c, hch, hr, hm, fun _ => by omega⟩
  · simp only
    rw [h0]
    exact .start _ _ _
  · have := hl.lt_loopFuel
    simp only
    omega

/-- One pass of `fat32_alloc_run` over the clusters from `lo` to `hi`. -/
lemma wp_searchPass (hl : Layout fs) {want lo hi : ℕ} {r : RunSearch} (hlo : 2 ≤ lo)
    (hhi : hi ≤ fs.totalClusters + 1)
    (hin : 0 < r.bestLen → 2 ≤ r.bestStart ∧ r.bestStart + r.bestLen ≤ fs.totalClusters + 2)
    (hfree : ∀ x, r.bestStart ≤ x → x < r.bestStart + r.bestLen → v.fat x = 0) :
    (fat32View fs).wp (searchPass fs want lo hi r) (fun r' v' => v' = v ∧
      (0 < r'.bestLen → 2 ≤ r'.bestStart ∧ r'.bestStart + r'.bestLen ≤ fs.totalClusters + 2) ∧
      (∀ x, r'.bestStart ≤ x → x < r'.bestStart + r'.bestLen → v.fat x = 0) ∧
      min want r'.bestLen = min want (max r.bestLen (longest (Free v) lo (hi + 1)))) v := by
  refine View.wp_ite (fun h => View.wp_pure ⟨rfl, hin, hfree, ?_⟩) (fun h => ?_)
  · rcases h with hdone | hempty
    · rw [Nat.min_eq_left hdone, Nat.min_eq_left (le_max_of_le_left hdone)]
    · rw [longest_of_le (by omega), Nat.max_zero]
  · have hok : RunSearch.Ok fs v.fat lo lo ⟨0, 0, r.bestStart, r.bestLen⟩ := by
      refine ⟨hin, hfree, fun h0 => absurd h0 (lt_irrefl 0), fun x hx hx' => ?_, Nat.zero_le _,
        fun _ x hx hx' => ?_⟩
      · simp only at hx hx'
        omega
      · omega
    refine View.wp_mono (wp_searchRun hl hlo hhi (by omega) hok rfl) ?_
    rintro r' _ ⟨rfl, c, hc, hr', hm, hdone⟩
    exact ⟨rfl, hr'.best_in, hr'.best_free, hm.min_eq hc hdone⟩

lemma chainFat_zero (fat : ℕ → ℕ) (start len : ℕ) : chainFat fat start len 0 = fat := by
  funext c
  exact if_neg (by omega)

/-- Chaining one more cluster of a run. -/
lemma chainFat_succ (fat : ℕ → ℕ) (start len i : ℕ) :
    Function.update (chainFat fat start len i) (start + i)
        (if i + 1 < len then start + i + 1 else fat32Eoc) = chainFat fat start len (i + 1) := by
  funext c
  simp only [Function.update_apply, chainFat]
  split_ifs <;> first | rfl | omega

/-- The loop that chains the clusters of a run together. -/
lemma wp_chainRun (hl : Layout fs) {start len : ℕ} (h : start + len ≤ fs.totalClusters + 2) :
    (fat32View fs).wp (chainRun fs start len)
      (fun ok v' => ok = true ∧ v' = { v with fat := chainFat v.fat start len len }) v := by
  have hclusters := hl.clusters
  refine View.wp_iter (fun i v' => i ≤ len ∧ v' = { v with fat := chainFat v.fat start len i })
    (fun i _ => len - i) ?_ ⟨Nat.zero_le _, by rw [chainFat_zero]⟩ ?_
  · rintro i _ ⟨hi, rfl⟩
    refine View.wp_ite (fun hlt => ?_) (fun hge => View.wp_pure ?_)
    · refine View.wp_bind (wp_setEntry hl (by omega) _) ?_
      rintro _ _ ⟨rfl, rfl⟩
      refine View.wp_ite (fun _ => View.wp_pure ?_) (fun h => absurd rfl h)
      refine ⟨⟨hlt, ?_⟩, by omega⟩
      have hmod : (if i + 1 < len then start + i + 1 else fat32Eoc) % 2 ^ 28 =
          if i + 1 < len then start + i + 1 else fat32Eoc := by
        unfold fat32Eoc at hclusters ⊢
        refine Nat.mod_eq_of_lt ?_
        split_ifs <;> omega
      rw [hmod, chainFat_succ]
    · rw [Nat.le_antisymm hi (Nat.le_of_not_lt hge)]
      exact ⟨rfl, rfl⟩
  · have := hl.lt_loopFuel
    omega

/-- What `fat32_alloc_run` comes to, when it starts its search at `start`. -/
structure RunTaken (fs : Fat32Fs) (want start : ℕ) (v : Volume) (r : ℕ × ℕ)
    (v' : Volume) : Prop where
  len : r.2 = min want (max (longest (Free v) start (fs.totalClusters + 2))
    (longest (Free v) 2 start))
  none : r.2 = 0 → r.1 = 0 ∧ v' = v
  run : 0 < r.2 → RunIn (Free v) 2 (fs.totalClusters + 2) r.1 r.2 ∧
    v' = { v with fat := chainFat v.fat r.1 r.2 r.2 }

lemma wp_allocRun_at (hl : Layout fs) {want : ℕ} (hwant : 0 < want) {s : Fat32State}
    (hs : Sound fs s) :
    Program.wp (fat32AllocRun fs want) (fun r s' => Sound fs s' ∧
      RunTaken fs want (searchStart fs s) ((fat32View fs).view s) r
      ((fat32View fs).view s')) s := by
  unfold fat32AllocRun
  simp only [if_neg (Nat.pos_iff_ne_zero.mp hwant)]
  rw [Program.wp_bind, Program.wp_get]
  have hstart := searchStart_range hl s
  generalize searchStart fs s = start at hstart
  generalize hv : (fat32View fs).view s = v
  refine (?_ : (fat32View fs).wp _ (RunTaken fs want start v) v) s hs hv
  rw [hl.u32_last]
  refine View.wp_bind (wp_searchPass hl hstart.1 le_rfl (fun h => absurd h (lt_irrefl 0))
    (fun x hx hx' => absurd hx' (by simp only at hx ⊢; omega))) ?_
  rintro r v' ⟨rfl, hin, hfree, hlen⟩
  refine View.wp_bind (wp_searchPass hl le_rfl (by omega) hin hfree) ?_
  rintro r' v' ⟨rfl, hin', hfree', hlen'⟩
  have hall : min want r'.bestLen = min want (max (longest (Free v') start (fs.totalClusters + 2))
      (longest (Free v') 2 start)) := by
    rw [Nat.zero_max] at hlen
    rw [hlen', show start - 1 + 1 = start by omega, min_max_distrib_left, hlen,
      ← min_max_distrib_left]
  refine View.wp_ite (fun h0 =>
    View.wp_pure ⟨?_, fun _ => ⟨rfl, rfl⟩, fun h => absurd h (lt_irrefl 0)⟩)
    (fun h0 => ?_)
  · rw [← hall, h0, Nat.min_zero]
  · have hpos : 0 < r'.bestLen := Nat.pos_of_ne_zero h0
    have hbest := hin' hpos
    refine View.wp_bind (wp_chainRun hl (by omega)) ?_
    rintro _ _ ⟨rfl, rfl⟩
    refine View.wp_ite (fun _ => ?_) (fun h => absurd rfl h)
    refine View.wp_bind (wp_setHint _) ?_
    rintro _ _ rfl
    refine View.wp_pure ⟨?_, fun h => ?_, fun _ =>
      ⟨⟨hbest.1, ?_, fun c hc hc' => hfree' c hc ?_⟩, rfl⟩⟩
    · rw [← hall, Nat.min_comm]
    · simp only at h
      omega
    · simp only
      omega
    · simp only at hc'
      omega

/-- `fat32_alloc_run` hands out a run of free clusters, chained together, or nothing when no cluster
is free. -/
lemma wp_allocRun (hl : Layout fs) {want : ℕ} (hwant : 0 < want) :
    (fat32View fs).wp (fat32AllocRun fs want) (fun r v' =>
      (r.1 = 0 ∧ v' = v ∧ Full fs v) ∨
      (2 ≤ r.1 ∧ 0 < r.2 ∧ r.2 ≤ want ∧ r.1 + r.2 ≤ fs.totalClusters + 2 ∧
        (∀ c, r.1 ≤ c → c < r.1 + r.2 → v.fat c = 0) ∧
        v' = { v with fat := chainFat v.fat r.1 r.2 r.2 })) v := by
  rintro s hs rfl
  have hstart := searchStart_range hl s
  refine Program.wp_mono (wp_allocRun_at hl hwant hs) fun r s' hr => ⟨hr.1, ?_⟩
  obtain ⟨-, hlen, hnone, hrun⟩ := hr
  rcases Nat.eq_zero_or_pos r.2 with h0 | hpos
  · obtain ⟨hr, hv⟩ := hnone h0
    refine .inl ⟨hr, hv, fun c hc hfree => ?_⟩
    have hhigh := @longest_eq_zero_iff (Free ((fat32View fs).view s)) (searchStart fs s)
      (fs.totalClusters + 2)
    have hlow := @longest_eq_zero_iff (Free ((fat32View fs).view s)) 2 (searchStart fs s)
    rcases Nat.lt_or_ge c (searchStart fs s) with h | h
    · exact hlow.mp (by omega) c hc.1 h hfree
    · exact hhigh.mp (by omega) c h hc.lt hfree
  · obtain ⟨hin, hv⟩ := hrun hpos
    exact .inr ⟨hin.le, hpos, by omega, hin.end_le, hin.all, hv⟩

/-! ## Walking a chain -/

/-- A run that has been chained together is a chain. -/
lemma chainAt_run {fat : ℕ → ℕ} {start len : ℕ} (hs : 2 ≤ start) (hlen : 0 < len)
    (h : start + len ≤ fs.totalClusters + 2) :
    ChainAt fs (chainFat fat start len len) start (List.range' start len) := by
  have hfrom : ∀ n i, i + n = len → ChainAt fs (chainFat fat start len len)
      (if n = 0 then fat32Eoc else start + i) (List.range' (start + i) n) := by
    intro n
    induction n with
    | zero => exact fun i _ => le_rfl
    | succ n ih =>
      intro i hi
      refine ⟨(if_neg (Nat.succ_ne_zero n)).symm, ⟨by omega, by omega⟩, ?_⟩
      have hnext : chainFat fat start len len (start + i) =
          if n = 0 then fat32Eoc else start + (i + 1) := by
        simp only [chainFat]
        split_ifs <;> omega
      rw [hnext]
      exact ih (i + 1) (by omega)
  have h0 := hfrom len 0 (Nat.zero_add len)
  rwa [if_neg (Nat.pos_iff_ne_zero.mp hlen), Nat.add_zero] at h0

/-- A chain below the marks goes on with its first cluster. -/
lemma ChainAt.step {fat : ℕ → ℕ} {c : ℕ} {l : List ℕ} (h : ChainAt fs fat c l)
    (hc : c < fat32Eoc) : ∃ l', l = c :: l' ∧ InRange fs c ∧ ChainAt fs fat (fat c) l' := by
  cases l with
  | nil => exact absurd h (Nat.not_le_of_lt hc)
  | cons a l =>
    obtain ⟨rfl, ha, hl⟩ := h
    exact ⟨l, rfl, ha, hl⟩

/-- A chain that is at a mark is over. -/
lemma ChainAt.eq_nil (hl : Layout fs) {fat : ℕ → ℕ} {c : ℕ} {l : List ℕ} (h : ChainAt fs fat c l)
    (hc : ¬c < fat32Eoc) : l = [] := by
  cases l with
  | nil => rfl
  | cons a l =>
    obtain ⟨rfl, ha, _⟩ := h
    exact absurd (Nat.le_of_not_lt hc) (ha.not_ends hl)

lemma ChainAt.nodup (hl : Layout fs) {fat : ℕ → ℕ} {c : ℕ} {l : List ℕ} (h : ChainAt fs fat c l) :
    l.Nodup := Links.nodup (fun _ ha => ha.not_ends hl) h

/-- A chain is no longer than the volume. -/
lemma ChainAt.length_le (hl : Layout fs) {fat : ℕ → ℕ} {c : ℕ} {l : List ℕ}
    (h : ChainAt fs fat c l) : l.length ≤ fs.totalClusters := by
  have hsub : l.toFinset ⊆ Finset.Icc 2 (fs.totalClusters + 1) := by
    intro a ha
    have hin : InRange fs a := h.inside_of_mem (List.mem_toFinset.mp ha)
    exact Finset.mem_Icc.mpr hin
  have hcard := Finset.card_le_card hsub
  rw [List.toFinset_card_of_nodup (h.nodup hl), Nat.card_Icc] at hcard
  omega

/-- No cluster of a chain is free. -/
lemma ChainAt.ne_zero {fat : ℕ → ℕ} {c a : ℕ} {l : List ℕ} (h : ChainAt fs fat c l) (ha : a ∈ l) :
    fat a ≠ 0 := by
  obtain ⟨l₁, l₂, rfl⟩ := List.append_of_mem ha
  have hnext : ChainAt fs fat (fat a) l₂ := h.drop.2.2
  intro h0
  rw [h0] at hnext
  cases l₂ with
  | nil => exact absurd hnext (by simp [Ends, fat32Eoc])
  | cons b l₂ => exact absurd hnext.2.1.1 (by rw [hnext.1]; omega)

/-- The walk to the last cluster of a chain. -/
lemma wp_chainTail (hl : Layout fs) {first t : ℕ} {l : List ℕ}
    (h : ChainAt fs v.fat first (l ++ [t])) :
    (fat32View fs).wp (chainTail fs first) (fun r v' => r = (t, l.length + 1) ∧ v' = v) v := by
  refine View.wp_iter (fun p v' => v' = v ∧ ∃ l₁ l₂, l ++ [t] = l₁ ++ p.1 :: l₂ ∧
      p.2 = l₁.length + 1) (fun p _ => l.length + 1 - p.2) ?_ ?_ ?_
  · rintro ⟨tail, n⟩ _ ⟨rfl, l₁, l₂, hsplit, hn⟩
    simp only at hsplit hn
    have hchain : ChainAt fs _ tail (tail :: l₂) := (hsplit ▸ h).drop
    have hlen := congrArg List.length hsplit
    simp only [List.length_append, List.length_cons, List.length_nil] at hlen
    refine View.wp_bind (wp_next hl hchain.2.1.lt) ?_
    rintro _ _ ⟨rfl, rfl⟩
    refine View.wp_ite (fun hlt => View.wp_pure ?_) (fun hge => View.wp_pure ?_)
    · obtain ⟨l₃, rfl, -, -⟩ := ChainAt.step hchain.2.2 hlt
      refine ⟨⟨rfl, l₁ ++ [tail], l₃, by simpa using hsplit, by simp [hn]⟩, ?_⟩
      simp only [List.length_cons] at hlen ⊢
      omega
    · rw [ChainAt.eq_nil hl hchain.2.2 hge] at hsplit
      obtain ⟨rfl, ht⟩ := List.append_inj' hsplit rfl
      exact ⟨by rw [hn, (List.cons.inj ht).1], rfl⟩
  · cases l with
    | nil => exact ⟨rfl, [], [], by rw [h.1], rfl⟩
    | cons a l => exact ⟨rfl, [], l ++ [t], by rw [← h.1]; rfl, rfl⟩
  · have := hl.lt_loopFuel
    have hlen := h.length_le hl
    simp only [List.length_append, List.length_cons, List.length_nil] at hlen ⊢
    omega

/-! ## Where clusters lie -/

/-- The address of the first byte of a cluster in the data area. -/
def clusterOff (fs : Fat32Fs) (c : ℕ) : ℕ := (c - 2) * clusterSize fs

/-- The byte at `i` of the data area belongs to the cluster `c`. -/
def InCluster (fs : Fat32Fs) (c i : ℕ) : Prop :=
  clusterOff fs c ≤ i ∧ i < clusterOff fs c + clusterSize fs

lemma clusterToLba_eq (hl : Layout fs) {c : ℕ} (h : InRange fs c) :
    clusterToLba fs c = fs.dataStartLba + (c - 2) * fs.sectorsPerCluster := by
  have hc := hl.clusters
  unfold fat32Eoc at hc
  have hsub : u32sub c 2 = c - 2 := by
    have h2 := h.1
    have hle := h.2
    unfold u32sub u32
    omega
  rw [clusterToLba, hsub]

lemma clusterOff_eq (fs : Fat32Fs) (c : ℕ) :
    clusterOff fs c = (c - 2) * fs.sectorsPerCluster * 512 := by
  rw [clusterOff, clusterSize, Nat.mul_assoc]

lemma clusterSize_pos (hl : Layout fs) : 0 < clusterSize fs :=
  Nat.mul_pos hl.spc_pos (by decide)

/-- Clusters do not overlap. -/
lemma clusterOff_lt (fs : Fat32Fs) {c c' : ℕ} (h : 2 ≤ c) (hlt : c < c') :
    clusterOff fs c + clusterSize fs ≤ clusterOff fs c' := by
  have hmul : (c - 2 + 1) * clusterSize fs ≤ (c' - 2) * clusterSize fs :=
    Nat.mul_le_mul_right _ (by omega)
  unfold clusterOff
  rwa [Nat.add_mul, Nat.one_mul] at hmul

lemma InCluster.unique {c c' i : ℕ} (hc : 2 ≤ c) (hc' : 2 ≤ c') (h : InCluster fs c i)
    (h' : InCluster fs c' i) : c = c' := by
  obtain ⟨hlo, hhi⟩ := h
  obtain ⟨hlo', hhi'⟩ := h'
  rcases Nat.lt_trichotomy c c' with hlt | heq | hlt
  · have := clusterOff_lt fs hc hlt
    omega
  · exact heq
  · have := clusterOff_lt fs hc' hlt
    omega

/-- A byte of a run of clusters belongs to one of them. -/
lemma exists_inCluster_of_run (hl : Layout fs) {start len i : ℕ} (hs : 2 ≤ start)
    (hlo : clusterOff fs start ≤ i) (hhi : i < clusterOff fs start + len * clusterSize fs) :
    ∃ c ∈ List.range' start len, InCluster fs c i := by
  obtain ⟨j, rfl⟩ := Nat.exists_eq_add_of_le hlo
  have hj : j < len * clusterSize fs := by omega
  have hdiv : j / clusterSize fs < len := Nat.div_lt_of_lt_mul (by rwa [Nat.mul_comm])
  have hmod := Nat.mod_lt j (clusterSize_pos hl)
  have hsum := Nat.div_add_mod' j (clusterSize fs)
  refine ⟨start + j / clusterSize fs, List.mem_range'_1.mpr
    ⟨Nat.le_add_right _ _, Nat.add_lt_add_left hdiv start⟩, ?_⟩
  have hoff : clusterOff fs (start + j / clusterSize fs) =
      clusterOff fs start + j / clusterSize fs * clusterSize fs := by
    unfold clusterOff
    rw [Nat.sub_add_comm hs, Nat.add_mul]
  unfold InCluster
  omega

/-! ## Growing a chain -/

/-- The loop that zeroes new clusters writes to their sectors only. -/
lemma wp_zeroRun (hl : Layout fs) (k : ℕ) {total : ℕ} (ht : total < loopFuel) :
    (fat32View fs).wp (zeroRun fs (fs.dataStartLba + k) total) (fun ok v' => ok = true ∧
      ∃ d, v' = { v with data := d } ∧
        ∀ i, i < k * 512 ∨ (k + total) * 512 ≤ i → d i = v.data i) v := by
  refine View.wp_iter (fun zeroed v' => zeroed ≤ total ∧ ∃ d, v' = { v with data := d } ∧
      ∀ i, i < k * 512 ∨ (k + total) * 512 ≤ i → d i = v.data i)
    (fun zeroed _ => total - zeroed) ?_ ⟨Nat.zero_le _, v.data, rfl, fun _ _ => rfl⟩ (by omega)
  rintro zeroed _ ⟨hz, d, rfl, hd⟩
  refine View.wp_ite (fun hlt => ?_) (fun hge => View.wp_pure ⟨rfl, d, rfl, hd⟩)
  obtain ⟨chunk, hchunk, hpos, hle, hlt'⟩ : ∃ chunk,
      chunk = min (total - zeroed) fat32MaxClusterSectors ∧ 0 < chunk ∧ chunk ≤ total - zeroed ∧
        chunk < 256 := by
    refine ⟨_, rfl, ?_, min_le_left _ _, ?_⟩ <;> unfold fat32MaxClusterSectors <;> omega
  simp only [← hchunk, Nat.add_assoc]
  refine View.wp_bind (wp_writeData hl (k + zeroed) chunk hlt' Bytes.zeros) ?_
  rintro _ _ ⟨rfl, rfl⟩
  refine View.wp_ite (fun _ => View.wp_pure ?_) (fun h => absurd rfl h)
  refine ⟨⟨by omega, _, rfl, fun i hi => ?_⟩, by omega⟩
  have hout : i < (k + zeroed) * 512 ∨ (k + zeroed) * 512 + chunk * 512 ≤ i := by
    rcases hi with hi | hi
    · exact .inl (by linarith)
    · exact .inr (by linarith [Nat.le_sub_iff_add_le' hz |>.mp hle])
  exact (Bytes.blit_of_not_mem hout).trans (hd i hi)

/-- The volume `v'` comes from `v` by appending the free clusters `new` to the chain `l`. -/
structure GrownBy (fs : Fat32Fs) (v v' : Volume) (l new : List ℕ) : Prop where
  free : ∀ c ∈ new, v.fat c = 0
  fat : ∀ c, c ∉ l → c ∉ new → v'.fat c = v.fat c
  data : ∀ i, (∀ c ∈ new, ¬InCluster fs c i) → v'.data i = v.data i
  nodes : v'.nodes = v.nodes
  used : v'.used = v.used
  same : new = [] → v' = v

lemma GrownBy.refl (v : Volume) (l : List ℕ) : GrownBy fs v v l [] :=
  ⟨fun _ h => absurd h List.not_mem_nil, fun _ _ _ => rfl, fun _ _ => rfl, rfl, rfl, fun _ => rfl⟩

/-- Appending a run that has been chained together to a chain. -/
lemma ChainAt.append_run (hl : Layout fs) {fat : ℕ → ℕ} {first t start len : ℕ} {l : List ℕ}
    (h : ChainAt fs fat first (l ++ [t])) (hs : 2 ≤ start) (hlen : 0 < len)
    (hend : start + len ≤ fs.totalClusters + 2)
    (hfree : ∀ c, start ≤ c → c < start + len → fat c = 0) :
    ChainAt fs (Function.update (chainFat fat start len len) t start) first
      (l ++ t :: List.range' start len) := by
  -- no cluster of the chain is free, so none of them is in the run
  have hout : ∀ c ∈ l ++ [t], ¬(start ≤ c ∧ c < start + len) :=
    fun c hc hrun => h.ne_zero hc (hfree c hrun.1 hrun.2)
  have hnodup := ChainAt.nodup hl h
  refine Links.append h (fun x hx => ?_) (Function.update_self _ _ _) ?_
  · have hne : x ≠ t := by
      rintro rfl
      exact (List.nodup_append.mp hnodup).2.2 x hx x (List.mem_singleton_self x) rfl
    rw [Function.update_of_ne hne, chainFat, if_neg (hout x (List.mem_append_left _ hx))]
  · refine (chainAt_run hs hlen hend).congr fun x hx => Function.update_of_ne ?_ _ _
    rintro rfl
    have := List.mem_range'_1.mp hx
    exact hout x (List.mem_append_right _ (List.mem_singleton_self x)) this

/-- Growing a chain that has already grown by one more run. -/
lemma GrownBy.append_run (hl : Layout fs) {v v' : Volume} {l new : List ℕ} {t start len x : ℕ}
    {d : Bytes} (h : GrownBy fs v v' l new) (ht : t ∈ l ++ new) (hnew : ∀ c ∈ new, v'.fat c ≠ 0)
    (hold : ∀ c ∈ l, v'.fat c ≠ 0) (hs : 2 ≤ start) (hlen : 0 < len)
    (hfree : ∀ c, start ≤ c → c < start + len → v'.fat c = 0)
    (hd : ∀ i, i < clusterOff fs start ∨ clusterOff fs start + len * clusterSize fs ≤ i →
      d i = v'.data i) :
    GrownBy fs v
      { v' with fat := Function.update (chainFat v'.fat start len len) t x, data := d }
      l (new ++ List.range' start len) := by
  refine ⟨fun c hc => ?_, fun c hc hc' => ?_, fun i hi => ?_, h.nodes, h.used, fun hnil => ?_⟩
  · rcases List.mem_append.mp hc with hc | hc
    · exact h.free c hc
    · have hrun := List.mem_range'_1.mp hc
      have h0 := hfree c hrun.1 hrun.2
      have hcl : c ∉ l := fun hmem => hold c hmem h0
      have hcn : c ∉ new := fun hmem => hnew c hmem h0
      rw [← h.fat c hcl hcn]
      exact h0
  · have hcn : c ∉ new := fun hmem => hc' (List.mem_append_left _ hmem)
    have hcr : ¬(start ≤ c ∧ c < start + len) :=
      fun hrun => hc' (List.mem_append_right _ (List.mem_range'_1.mpr hrun))
    have hct : c ≠ t := by
      rintro rfl
      exact (List.mem_append.mp ht).elim hc hcn
    simp only [Function.update_of_ne hct, chainFat, if_neg hcr]
    exact h.fat c hc hcn
  · refine (hd i ?_).trans (h.data i fun c hc => hi c (List.mem_append_left _ hc))
    by_contra hrun
    have hlo : clusterOff fs start ≤ i := by omega
    have hhi : i < clusterOff fs start + len * clusterSize fs := by omega
    obtain ⟨c, hc, hin⟩ := exists_inCluster_of_run hl hs hlo hhi
    exact hi c (List.mem_append_right _ hc) hin
  · have := congrArg List.length hnil
    simp only [List.length_append, List.length_range', List.length_nil] at this
    omega

/-- The loop that appends runs of clusters to a chain: it stops with enough of them, or with no free
cluster left. -/
lemma wp_growChain (hl : Layout fs) {first t needed : ℕ} {l : List ℕ}
    (h : ChainAt fs v.fat first (l ++ [t])) (hneeded : needed ≤ loopFuel) :
    (fat32View fs).wp (growChain fs needed t (l.length + 1)) (fun n v' => ∃ new,
      n = l.length + 1 + new.length ∧ ChainAt fs v'.fat first (l ++ t :: new) ∧
      GrownBy fs v v' (l ++ [t]) new ∧ (n < needed → Full fs v')) v := by
  refine View.wp_iter (fun p v' => ∃ new l', l ++ t :: new = l' ++ [p.1] ∧
      p.2 = l.length + 1 + new.length ∧ ChainAt fs v'.fat first (l ++ t :: new) ∧
      GrownBy fs v v' (l ++ [t]) new) (fun p _ => needed - p.2) ?_
    ⟨[], l, rfl, rfl, h, GrownBy.refl v _⟩ ?_
  swap
  · have : 0 < loopFuel := by decide
    simp only
    omega
  rintro ⟨tail, n⟩ v' ⟨new, l', hsplit, hn, hchain, hgrown⟩
  simp only at hsplit hn
  refine View.wp_ite (fun hlt => ?_) (fun hge => View.wp_pure ?_)
  · refine View.wp_bind (wp_allocRun hl (by omega)) ?_
    rintro ⟨start, got⟩ v'' (⟨h0, rfl, hfull⟩ | ⟨hs, hgot, hwant, hend, hfree, rfl⟩)
    · refine View.wp_ite (fun _ => View.wp_pure ?_) (fun hne => absurd h0 hne)
      exact ⟨new, hn, hchain, hgrown, fun _ => hfull⟩
    · simp only at hs hgot hwant hend hfree
      refine View.wp_ite (fun h0 => absurd h0 (by omega)) (fun _ => ?_)
      have hin : InRange fs start := ⟨hs, by omega⟩
      rw [clusterToLba_eq hl hin]
      refine View.wp_bind (wp_zeroRun hl _ (Nat.mod_lt _ (by decide))) ?_
      rintro _ _ ⟨rfl, d, rfl, hd⟩
      refine View.wp_ite (fun _ => ?_) (fun h => absurd rfl h)
      have htail : InRange fs tail :=
        hchain.inside_of_mem (hsplit ▸ List.mem_append_right _ (List.mem_singleton_self tail))
      refine View.wp_bind (wp_setEntry hl htail.lt start) ?_
      rintro _ _ ⟨rfl, rfl⟩
      refine View.wp_ite (fun _ => View.wp_pure ?_) (fun h => absurd rfl h)
      obtain ⟨m, rfl⟩ : ∃ m, got = m + 1 := ⟨got - 1, by omega⟩
      have hrange : List.range' start (m + 1) = List.range' start m ++ [start + m] := by
        rw [List.range'_concat, Nat.one_mul]
      refine ⟨⟨new ++ List.range' start (m + 1), l' ++ tail :: List.range' start m, ?_, ?_, ?_, ?_⟩,
        ?_⟩
      · rw [← List.cons_append, ← List.append_assoc, hsplit, hrange, Nat.add_succ_sub_one]
        simp
      · simp only [List.length_append, List.length_range']
        omega
      · rw [← List.cons_append, ← List.append_assoc, hsplit, List.append_assoc]
        rw [hsplit] at hchain
        have hmod : start % 2 ^ 28 = start := by
          have := hl.clusters
          unfold fat32Eoc at this
          exact Nat.mod_eq_of_lt (by omega)
        rw [hmod]
        exact ChainAt.append_run hl hchain hs hgot hend hfree
      · have hmem : ∀ c, c ∈ (l ++ [t]) ++ new ↔ c ∈ l ++ t :: new := by simp
        refine hgrown.append_run hl ?_ (fun c hc => hchain.ne_zero ?_)
          (fun c hc => hchain.ne_zero ?_)
          hs hgot hfree fun i hi => hd i ?_
        · rw [hmem, hsplit]
          exact List.mem_append_right _ (List.mem_singleton_self tail)
        · exact (hmem c).mp (List.mem_append_right _ hc)
        · exact (hmem c).mp (List.mem_append_left _ hc)
        · rw [clusterOff_eq] at hi
          have hle : u32 ((m + 1) * fs.sectorsPerCluster) ≤ (m + 1) * fs.sectorsPerCluster :=
            Nat.mod_le _ _
          rcases hi with hi | hi
          · exact .inl hi
          · exact .inr (by rw [clusterSize] at hi; linarith)
      · simp only
        omega
  · exact ⟨new, hn, hchain, hgrown, fun hlt => absurd hlt hge⟩

end Fat32

end CoolFrost
