import Mathlib.Tactic

/-!
# Runs of equal cells

A table of cells in which a region is marked by giving all of its cells the same value, and the cell
after it another value.  The extent of a region is then not kept anywhere: it is found by walking
from its first cell as long as the value stays the same.
-/

namespace Runs

variable {α : Type*}

/-- The number of cells from `x` on that have the value `v`, among the next `n`. -/
def length [DecidableEq α] (f : ℕ → α) (v : α) : ℕ → ℕ → ℕ
  | _, 0 => 0
  | x, n + 1 => if f x = v then length f v (x + 1) n + 1 else 0

/-- Give `n` cells from `x` on the value `v`. -/
def fill (f : ℕ → α) (x n : ℕ) (v : α) : ℕ → α := fun i =>
  if x ≤ i ∧ i < x + n then v else f i

/-- The `n` cells from `x` on have the value `v`, and the next one below `lim` has not. -/
structure IsRun (f : ℕ → α) (lim : ℕ) (v : α) (x n : ℕ) : Prop where
  pos : 0 < n
  le : x + n ≤ lim
  eq : ∀ i, x ≤ i → i < x + n → f i = v
  stop : x + n < lim → f (x + n) ≠ v

/-! ## Walking -/

section Walking

variable [DecidableEq α]

lemma length_le (f : ℕ → α) (v : α) (x n : ℕ) : length f v x n ≤ n := by
  induction n generalizing x with
  | zero => exact le_rfl
  | succ n ih =>
    rw [length]
    split_ifs
    · exact Nat.succ_le_succ (ih (x + 1))
    · exact Nat.zero_le _

/-- The cells counted have the value. -/
lemma eq_of_lt_length (f : ℕ → α) (v : α) (x n : ℕ) {i : ℕ} (hi : i < length f v x n) :
    f (x + i) = v := by
  induction n generalizing x i with
  | zero => exact absurd hi (Nat.not_lt_zero i)
  | succ n ih =>
    rw [length] at hi
    split_ifs at hi with hx
    · cases i with
      | zero => exact hx
      | succ i =>
        have h := ih (x + 1) (Nat.lt_of_succ_lt_succ hi)
        rwa [Nat.add_assoc, Nat.add_comm 1 i] at h
    · exact absurd hi (Nat.not_lt_zero i)

/-- A walk that stops early stops at a cell with another value. -/
lemma ne_of_length_lt (f : ℕ → α) (v : α) (x n : ℕ) (h : length f v x n < n) :
    f (x + length f v x n) ≠ v := by
  induction n generalizing x with
  | zero => exact absurd h (Nat.not_lt_zero _)
  | succ n ih =>
    rw [length] at h ⊢
    split_ifs at h ⊢ with hx
    · have hnext := ih (x + 1) (Nat.lt_of_succ_lt_succ h)
      rwa [Nat.add_assoc, Nat.add_comm 1] at hnext
    · exact hx

/-- A walk over cells that all have the value does not stop early. -/
lemma length_eq_of_forall {f : ℕ → α} {v : α} {x n : ℕ} (h : ∀ i < n, f (x + i) = v) :
    length f v x n = n := by
  by_contra hne
  have hlt := lt_of_le_of_ne (length_le f v x n) hne
  exact ne_of_length_lt f v x n hlt (h _ hlt)

/-- The walk from the first cell of a run finds the whole run. -/
lemma IsRun.length_eq {f : ℕ → α} {lim x n : ℕ} {v : α} (h : IsRun f lim v x n) :
    length f v x (lim - x) = n := by
  have hle := h.le
  rcases lt_trichotomy (length f v x (lim - x)) n with hlt | heq | hgt
  · have hne := ne_of_length_lt f v x (lim - x) (by omega)
    exact absurd (h.eq _ (by omega) (by omega)) hne
  · exact heq
  · have hbound := length_le f v x (lim - x)
    exact absurd (eq_of_lt_length f v x (lim - x) hgt) (h.stop (by omega))

end Walking

/-! ## Filling -/

variable {f : ℕ → α} {lim x n y m : ℕ} {v w : α}

lemma fill_of_mem {i : ℕ} (h : x ≤ i ∧ i < x + n) : fill f x n v i = v := if_pos h

lemma fill_of_not_mem {i : ℕ} (h : i < x ∨ x + n ≤ i) : fill f x n v i = f i := if_neg (by omega)

/-- Cells filled with a value that does not come next are a run. -/
lemma isRun_fill (hpos : 0 < n) (hle : x + n ≤ lim) (hnext : x + n < lim → f (x + n) ≠ v) :
    IsRun (fill f x n v) lim v x n where
  pos := hpos
  le := hle
  eq _ hx hlt := fill_of_mem ⟨hx, hlt⟩
  stop hlt := by
    rw [fill_of_not_mem (Or.inr le_rfl)]
    exact hnext hlt

/-- Filling other cells leaves a run as it is, unless they follow it and get its value. -/
lemma IsRun.fill (h : IsRun f lim v x n) (hdisj : x + n ≤ y ∨ y + m ≤ x)
    (hne : y = x + n → w ≠ v) : IsRun (fill f y m w) lim v x n where
  pos := h.pos
  le := h.le
  eq i hx hlt := by
    rw [fill_of_not_mem (by omega)]
    exact h.eq i hx hlt
  stop hlt := by
    by_cases hmem : y ≤ x + n ∧ x + n < y + m
    · have hpos := h.pos
      rw [fill_of_mem hmem]
      exact hne (by omega)
    · rw [fill_of_not_mem (by omega)]
      exact h.stop hlt

end Runs
