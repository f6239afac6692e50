import Mathlib.Tactic

/-!
# Longest runs

The longest run of consecutive numbers with a property, and what a scan has to keep track of to find
it: the length of the run that ends where the scan is, and the best length so far.
-/

namespace LongestRun

variable {P : ℕ → Prop} {lo hi c x n : ℕ}

/-- The `n` numbers from `x` on lie between `lo` and `hi` and have the property. -/
structure RunIn (P : ℕ → Prop) (lo hi x n : ℕ) : Prop where
  le : lo ≤ x
  end_le : x + n ≤ hi
  all : ∀ i, x ≤ i → i < x + n → P i

lemma RunIn.zero (h : lo ≤ hi) : RunIn P lo hi hi 0 :=
  ⟨h, le_rfl, fun _ hle hlt => absurd hlt (Nat.not_lt.mpr hle)⟩

lemma RunIn.mono {lo' hi' : ℕ} (h : RunIn P lo hi x n) (hlo : lo' ≤ lo) (hhi : hi ≤ hi') :
    RunIn P lo' hi' x n :=
  ⟨hlo.trans h.le, h.end_le.trans hhi, h.all⟩

/-- The first numbers of a run are a run. -/
lemma RunIn.take {m : ℕ} (h : RunIn P lo hi x n) (hm : m ≤ n) : RunIn P lo hi x m :=
  ⟨h.le, (Nat.add_le_add_left hm x).trans h.end_le, fun i hle hlt => h.all i hle (by omega)⟩

/-- The length of the longest run. -/
noncomputable def longest (P : ℕ → Prop) (lo hi : ℕ) : ℕ := sSup {n | ∃ x, RunIn P lo hi x n}

lemma bddAbove_runs (P : ℕ → Prop) (lo hi : ℕ) : BddAbove {n | ∃ x, RunIn P lo hi x n} := by
  refine ⟨hi, ?_⟩
  rintro n ⟨x, h⟩
  exact (Nat.le_add_left n x).trans h.end_le

lemma le_longest (h : RunIn P lo hi x n) : n ≤ longest P lo hi := by
  unfold longest
  exact le_csSup (bddAbove_runs P lo hi) ⟨x, h⟩

lemma exists_longest (P : ℕ → Prop) (h : lo ≤ hi) : ∃ x, RunIn P lo hi x (longest P lo hi) := by
  have hne : {n | ∃ x, RunIn P lo hi x n}.Nonempty := ⟨0, hi, RunIn.zero h⟩
  exact Nat.sSup_mem hne (bddAbove_runs P lo hi)

lemma longest_of_le (h : hi ≤ lo) : longest P lo hi = 0 := by
  refine Nat.le_zero.mp (csSup_le' ?_)
  rintro n ⟨x, hrun⟩
  have hle := hrun.le
  have hend := hrun.end_le
  omega

/-- The longest run is as long as it is found to be. -/
lemma longest_le (h : ∀ x m, RunIn P lo hi x m → m ≤ n) : longest P lo hi ≤ n := by
  rcases Nat.le_total lo hi with hle | hle
  · obtain ⟨x, hx⟩ := exists_longest P hle
    exact h x _ hx
  · rw [longest_of_le hle]
    exact Nat.zero_le n

lemma longest_le_sub (P : ℕ → Prop) (lo hi : ℕ) : longest P lo hi ≤ hi - lo :=
  longest_le fun x m h => by
    have hle := h.le
    have hend := h.end_le
    omega

lemma longest_mono {lo' hi' : ℕ} (hlo : lo' ≤ lo) (hhi : hi ≤ hi') :
    longest P lo hi ≤ longest P lo' hi' :=
  longest_le fun _ _ h => le_longest (h.mono hlo hhi)

lemma longest_congr {Q : ℕ → Prop} (h : ∀ i, lo ≤ i → i < hi → (P i ↔ Q i)) :
    longest P lo hi = longest Q lo hi := by
  refine le_antisymm (longest_le fun x m hrun => ?_) (longest_le fun x m hrun => ?_)
  · have hend := hrun.end_le
    have hrun' : RunIn Q lo hi x m := ⟨hrun.le, hend, fun i hle hlt =>
      (h i (hrun.le.trans hle) (by omega)).mp (hrun.all i hle hlt)⟩
    exact le_longest hrun'
  · have hend := hrun.end_le
    have hrun' : RunIn P lo hi x m := ⟨hrun.le, hend, fun i hle hlt =>
      (h i (hrun.le.trans hle) (by omega)).mpr (hrun.all i hle hlt)⟩
    exact le_longest hrun'

lemma longest_eq_zero_iff : longest P lo hi = 0 ↔ ∀ i, lo ≤ i → i < hi → ¬P i := by
  constructor
  · intro h0 i hle hlt hP
    have hrun : RunIn P lo hi i 1 := ⟨hle, hlt, fun j hj hj' => by
      obtain rfl : i = j := by omega
      assumption⟩
    have := le_longest hrun
    omega
  · intro hno
    refine Nat.le_zero.mp (longest_le fun x m h => ?_)
    by_contra hm
    have hle := h.le
    have hend := h.end_le
    exact hno x hle (by omega) (h.all x le_rfl (by omega))

/-! ## Scanning -/

/-- The longest run that ends in front of `c` has the length `n`. -/
structure IsTail (P : ℕ → Prop) (lo c n : ℕ) : Prop where
  le : lo + n ≤ c
  all : ∀ i, c - n ≤ i → i < c → P i
  longest : ∀ x m, RunIn P lo c x m → x + m = c → m ≤ n

lemma IsTail.start (P : ℕ → Prop) (lo : ℕ) : IsTail P lo lo 0 :=
  ⟨le_rfl, fun i hle hlt => by omega, fun x m h hend => by have := h.le; omega⟩

lemma IsTail.hit (h : IsTail P lo c n) (hc : P c) : IsTail P lo (c + 1) (n + 1) := by
  have hle := h.le
  refine ⟨by omega, fun i hi hlt => ?_, fun x m hrun hend => ?_⟩
  · rcases Nat.lt_succ_iff_lt_or_eq.mp hlt with hlt | rfl
    · exact h.all i (by omega) hlt
    · exact hc
  · have hx := hrun.le
    by_cases hm : m = 0
    · omega
    have hshort := h.longest x (m - 1) ⟨hx, by omega, fun i hi hlt => hrun.all i hi (by omega)⟩
      (by omega)
    omega

lemma IsTail.miss (_ : lo ≤ c) (hc : ¬P c) : IsTail P lo (c + 1) 0 := by
  refine ⟨by omega, fun i hi hlt => by omega, fun x m hrun hend => ?_⟩
  by_contra hm
  exact hc (hrun.all c (by omega) (by omega))

/-- A number with the property may make the run that ends there the longest one. -/
lemma longest_hit (h : IsTail P lo c n) (hc : P c) :
    longest P lo (c + 1) = max (longest P lo c) (n + 1) := by
  have hnext := h.hit hc
  have hle := hnext.le
  refine le_antisymm (longest_le fun x m hrun => ?_) (max_le ?_ ?_)
  · have hend := hrun.end_le
    rcases Nat.lt_or_ge (x + m) (c + 1) with hlt | hge
    · have hrun' : RunIn P lo c x m := ⟨hrun.le, by omega, hrun.all⟩
      exact le_max_of_le_left (le_longest hrun')
    · exact le_max_of_le_right (hnext.longest x m hrun (by omega))
  · exact longest_mono le_rfl (Nat.le_succ c)
  · have hrun : RunIn P lo (c + 1) (c + 1 - (n + 1)) (n + 1) :=
      ⟨by omega, by omega, fun i hi hlt => hnext.all i hi (by omega)⟩
    exact le_longest hrun

lemma longest_miss (_ : lo ≤ c) (hc : ¬P c) : longest P lo (c + 1) = longest P lo c := by
  refine le_antisymm (longest_le fun x m hrun => ?_) (longest_mono le_rfl (Nat.le_succ c))
  by_cases hm : m = 0
  · omega
  have hend := hrun.end_le
  have hne : x + m ≠ c + 1 := fun heq => hc (hrun.all c (by omega) (by omega))
  have hrun' : RunIn P lo c x m := ⟨hrun.le, by omega, hrun.all⟩
  exact le_longest hrun'

/-- A scan that began at `lo` with the best length `b` and is at `c` knows the length of the run
that ends there, and the best length. -/
structure Measured (P : ℕ → Prop) (lo c b runLen bestLen : ℕ) : Prop where
  tail : IsTail P lo c runLen
  best : bestLen = max b (longest P lo c)

namespace Measured

variable {b runLen bestLen : ℕ}

lemma start (P : ℕ → Prop) (lo b : ℕ) : Measured P lo lo b 0 b :=
  ⟨.start P lo, by rw [longest_of_le le_rfl, Nat.max_zero]⟩

lemma hit (h : Measured P lo c b runLen bestLen) (hc : P c) :
    Measured P lo (c + 1) b (runLen + 1) (max bestLen (runLen + 1)) :=
  ⟨h.tail.hit hc, by rw [longest_hit h.tail hc, h.best, max_assoc]⟩

lemma miss (h : Measured P lo c b runLen bestLen) (hc : ¬P c) :
    Measured P lo (c + 1) b 0 bestLen := by
  have hle := h.tail.le
  exact ⟨.miss (by omega) hc, by rw [longest_miss (by omega) hc, h.best]⟩

/-- A scan that stops early has as much as was wanted. -/
lemma min_eq {want : ℕ} (h : Measured P lo c b runLen bestLen) (hc : c ≤ hi)
    (hdone : bestLen < want → c = hi) : min want bestLen = min want (max b (longest P lo hi)) := by
  have hmono : longest P lo c ≤ longest P lo hi := longest_mono le_rfl hc
  have hbest := h.best
  rcases Nat.lt_or_ge bestLen want with hlt | hge
  · obtain rfl := hdone hlt
    rw [hbest]
  · have hge' : want ≤ max b (longest P lo hi) := by omega
    rw [Nat.min_eq_left hge, Nat.min_eq_left hge']

end Measured

end LongestRun
