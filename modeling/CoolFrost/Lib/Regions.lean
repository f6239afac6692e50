import CoolFrost.Lib.Runs

/-!
# Tables of regions

A table of cells in which one value `z` marks the free cells, and every region is a run of another
value.  Marking free cells makes a new region, clearing a region removes it, and clearing what has
just been marked gives back the old table.
-/

namespace Runs

variable {α : Type*} {z : α} {f : ℕ → α} {lim x n : ℕ} {v w : α}

/-! ## Filling twice -/

lemma fill_fill (f : ℕ → α) (x n : ℕ) (v w : α) : fill (fill f x n v) x n w = fill f x n w := by
  funext i
  unfold fill
  split_ifs <;> rfl

/-- Filling cells that all have the value changes nothing. -/
lemma fill_eq_self (h : ∀ i, x ≤ i → i < x + n → f i = v) : fill f x n v = f := by
  funext i
  unfold fill
  split_ifs with hi
  · exact (h i hi.1 hi.2).symm
  · rfl

/-! ## Regions -/

/-- The regions, given by their first cell and their length, are runs of values other than `z`, and
no two of them meet. -/
structure Marked (z : α) (f : ℕ → α) (lim : ℕ) (regions : List (ℕ × ℕ)) : Prop where
  run : ∀ r ∈ regions, f r.1 ≠ z ∧ IsRun f lim (f r.1) r.1 r.2
  apart : regions.Pairwise fun r r' => r.1 + r.2 ≤ r'.1 ∨ r'.1 + r'.2 ≤ r.1

variable {regions before behind : List (ℕ × ℕ)}

/-- A cell of a region is not free. -/
lemma Marked.ne (h : Marked z f lim regions) {r : ℕ × ℕ} (hr : r ∈ regions) {i : ℕ} (hi : r.1 ≤ i)
    (hlt : i < r.1 + r.2) : f i ≠ z := by
  obtain ⟨hne, hrun⟩ := h.run r hr
  rw [hrun.eq i hi hlt]
  exact hne

/-- Regions that follow one another directly have different values. -/
lemma Marked.ne_of_adjacent (h : Marked z f lim regions) {r r' : ℕ × ℕ} (hr : r ∈ regions)
    (hr' : r' ∈ regions) (hnext : r.1 + r.2 = r'.1) : f r'.1 ≠ f r.1 := by
  obtain ⟨-, hrun⟩ := h.run r hr
  obtain ⟨-, hrun'⟩ := h.run r' hr'
  have hlt : r'.1 < lim := lt_of_lt_of_le (Nat.lt_add_of_pos_right hrun'.pos) hrun'.le
  rw [← hnext] at hlt ⊢
  exact hrun.stop hlt

/-- Free cells and a region do not meet. -/
lemma Marked.apart_free (h : Marked z f lim regions) {r : ℕ × ℕ} (hr : r ∈ regions)
    (hpos : 0 < n) (hfree : ∀ i, x ≤ i → i < x + n → f i = z) : r.1 + r.2 ≤ x ∨ x + n ≤ r.1 := by
  have hrpos := (h.run r hr).2.pos
  by_contra hmeet
  have hmem : r.1 ≤ max x r.1 ∧ max x r.1 < r.1 + r.2 := by omega
  exact h.ne hr hmem.1 hmem.2 (hfree _ (le_max_left x r.1) (by omega))

/-- Clearing or marking cells apart from a region leaves the value of its first cell. -/
lemma fill_first {r : ℕ × ℕ} (hpos : 0 < r.2) (hdisj : r.1 + r.2 ≤ x ∨ x + n ≤ r.1) :
    fill f x n v r.1 = f r.1 := fill_of_not_mem (by omega)

/-- Free cells that are marked with a value that no neighbour has are a new region. -/
lemma Marked.mark (h : Marked z f lim regions) (hpos : 0 < n) (hle : x + n ≤ lim)
    (hfree : ∀ i, x ≤ i → i < x + n → f i = z) (hv : v ≠ z) (hbefore : 0 < x → f (x - 1) ≠ v)
    (hafter : x + n < lim → f (x + n) ≠ v) : Marked z (fill f x n v) lim ((x, n) :: regions) where
  run r hr := by
    rcases List.mem_cons.mp hr with rfl | hr
    · have hfirst : fill f x n v x = v := fill_of_mem ⟨le_rfl, Nat.lt_add_of_pos_right hpos⟩
      dsimp only
      rw [hfirst]
      exact ⟨hv, isRun_fill hpos hle hafter⟩
    · obtain ⟨hne, hrun⟩ := h.run r hr
      have hdisj := h.apart_free hr hpos hfree
      rw [fill_first hrun.pos hdisj]
      refine ⟨hne, hrun.fill hdisj fun hx heq => ?_⟩
      -- the last cell of the region is the one before the cells marked
      have hrpos := hrun.pos
      have hlast := hrun.eq (x - 1) (by omega) (by omega)
      exact hbefore (by omega) (hlast.trans heq.symm)
  apart := by
    refine List.pairwise_cons.mpr ⟨fun r hr => ?_, h.apart⟩
    exact (h.apart_free hr hpos hfree).symm

/-- Clearing a region removes it and leaves the others. -/
lemma Marked.clear (h : Marked z f lim (before ++ (x, n) :: behind)) :
    Marked z (fill f x n z) lim (before ++ behind) where
  run r hr := by
    have hmem : r ∈ before ++ (x, n) :: behind := by
      rcases List.mem_append.mp hr with hr | hr
      · exact List.mem_append_left _ hr
      · exact List.mem_append_right _ (List.mem_cons_of_mem _ hr)
    obtain ⟨hne, hrun⟩ := h.run r hmem
    have hdisj : r.1 + r.2 ≤ x ∨ x + n ≤ r.1 := by
      obtain ⟨-, hbehind, hacross⟩ := List.pairwise_append.mp h.apart
      rcases List.mem_append.mp hr with hr | hr
      · exact hacross r hr (x, n) List.mem_cons_self
      · exact ((List.pairwise_cons.mp hbehind).1 r hr).symm
    rw [fill_first hrun.pos hdisj]
    exact ⟨hne, hrun.fill hdisj fun _ heq => hne heq.symm⟩
  apart := h.apart.sublist (List.Sublist.append_left (List.sublist_cons_self _ _) before)

/-! ## Counting -/

section Counting

variable [DecidableEq α]

/-- The number of cells below `lim` that are not free. -/
def taken (z : α) (f : ℕ → α) (lim : ℕ) : ℕ := ((Finset.range lim).filter fun i => f i ≠ z).card

/-- Marking cells makes as many more that are not free as there are marked. -/
lemma taken_fill (f : ℕ → α) (hv : v ≠ z) (hle : x + n ≤ lim) :
    taken z (fill f x n v) lim = taken z (fill f x n z) lim + n := by
  have hsplit : (Finset.range lim).filter (fun i => fill f x n v i ≠ z) =
      (Finset.range lim).filter (fun i => fill f x n z i ≠ z) ∪ Finset.Ico x (x + n) := by
    ext i
    simp only [Finset.mem_filter, Finset.mem_union, Finset.mem_range, Finset.mem_Ico]
    by_cases hi : x ≤ i ∧ i < x + n
    · rw [fill_of_mem hi, fill_of_mem hi]
      exact iff_of_true ⟨by omega, hv⟩ (Or.inr hi)
    · rw [fill_of_not_mem (by omega), fill_of_not_mem (by omega)]
      exact (or_iff_left hi).symm
  have hdisj : Disjoint ((Finset.range lim).filter fun i => fill f x n z i ≠ z)
      (Finset.Ico x (x + n)) := by
    refine Finset.disjoint_left.mpr fun i hi hmem => (Finset.mem_filter.mp hi).2 ?_
    exact fill_of_mem (Finset.mem_Ico.mp hmem)
  rw [taken, hsplit, Finset.card_union_of_disjoint hdisj, Nat.card_Ico, Nat.add_sub_cancel_left]
  rfl

lemma taken_le (z : α) (f : ℕ → α) (lim : ℕ) : taken z f lim ≤ lim :=
  (Finset.card_filter_le _ _).trans (Finset.card_range lim).le

/-- Where free cells are, so many are not taken. -/
lemma taken_add_le (hle : x + n ≤ lim) (hfree : ∀ i, x ≤ i → i < x + n → f i = z) (hv : v ≠ z) :
    taken z f lim + n ≤ lim := by
  have h := taken_fill f hv hle
  rw [fill_eq_self hfree] at h
  rw [← h]
  exact taken_le _ _ _

end Counting

end Runs
