import Mathlib.Data.Nat.ModEq
import Mathlib.Tactic

/-!
# One's-complement sums

Addition with end-around carry of the numbers up to `m`, where `m` is the word whose bits are all
set. It is addition modulo `m`, with two representations of zero: a sum is 0 if nothing but zeros is
added up, and `m` if it is another multiple of `m`.
-/

namespace OnesComplement

variable {m x y : ℕ}

/-- Addition with end-around carry. -/
def add (m x y : ℕ) : ℕ := if x + y ≤ m then x + y else x + y - m

/-- The one's-complement sum of a list of words. -/
def sum (m : ℕ) (ws : List ℕ) : ℕ := ws.foldl (add m) 0

/-- The word that stands for a number modulo `m`. -/
def residue (m x : ℕ) : ℕ := if x = 0 then 0 else (x - 1) % m + 1

lemma residue_of_pos (h : 0 < x) : residue m x = (x - 1) % m + 1 := if_neg h.ne'

lemma residue_of_le (h : x ≤ m) : residue m x = x := by
  rcases Nat.eq_zero_or_pos x with rfl | hx
  · exact if_pos rfl
  · rw [residue_of_pos hx, Nat.mod_eq_of_lt (by omega), Nat.sub_add_cancel hx]

lemma residue_le (hm : 0 < m) (x : ℕ) : residue m x ≤ m := by
  rcases Nat.eq_zero_or_pos x with rfl | hx
  · exact Nat.zero_le _
  · rw [residue_of_pos hx]
    exact Nat.mod_lt _ hm

lemma residue_pos (h : 0 < x) : 0 < residue m x := by
  rw [residue_of_pos h]
  exact Nat.succ_pos _

/-- A number and its word differ by a multiple of `m`. -/
lemma exists_residue_add (m x : ℕ) : ∃ k, x = residue m x + m * k := by
  rcases Nat.eq_zero_or_pos x with rfl | hx
  · exact ⟨0, rfl⟩
  · refine ⟨(x - 1) / m, ?_⟩
    rw [residue_of_pos hx]
    have hdiv := Nat.mod_add_div (x - 1) m
    omega

/-- Multiples of `m` do not count, except from zero on. -/
lemma residue_add_mul (h : 0 < x) (k : ℕ) : residue m (x + m * k) = residue m x := by
  rw [residue_of_pos h, residue_of_pos (h.trans_le (Nat.le_add_right x _)),
    Nat.sub_add_comm (Nat.succ_le_of_lt h), Nat.add_mul_mod_self_left]

/-- The words of two positive numbers of the same class are the same. -/
lemma residue_add_residue (m x y : ℕ) : residue m (residue m x + y) = residue m (x + y) := by
  rcases Nat.eq_zero_or_pos x with rfl | hx
  · rfl
  · obtain ⟨k, hk⟩ := exists_residue_add m x
    have hpos : 0 < residue m x + y := Nat.add_pos_left (residue_pos hx) y
    calc residue m (residue m x + y) = residue m (residue m x + y + m * k) :=
          (residue_add_mul hpos k).symm
      _ = residue m (x + y) := by rw [Nat.add_right_comm, ← hk]

lemma add_eq_residue (hx : x ≤ m) (hy : y ≤ m) : add m x y = residue m (x + y) := by
  rw [add]
  by_cases h : x + y ≤ m
  · rw [if_pos h, residue_of_le h]
  · rw [if_neg h]
    have hsplit : x + y = (x + y - m) + m * 1 := by omega
    calc x + y - m = residue m (x + y - m) := (residue_of_le (by omega)).symm
      _ = residue m ((x + y - m) + m * 1) := (residue_add_mul (by omega) 1).symm
      _ = residue m (x + y) := by rw [← hsplit]

/-- The carries may as well be added when everything has been summed up. -/
theorem sum_eq_residue (hm : 0 < m) {ws : List ℕ} (hws : ∀ w ∈ ws, w ≤ m) :
    sum m ws = residue m ws.sum := by
  induction ws using List.reverseRecOn with
  | nil => rfl
  | append_singleton ws w ih =>
    have hws' := ih fun v hv => hws v (List.mem_append_left _ hv)
    have hle : sum m ws ≤ m := hws' ▸ residue_le hm _
    rw [sum, List.foldl_append]
    change add m (sum m ws) w = _
    rw [add_eq_residue hle (hws w List.mem_concat_self), hws', residue_add_residue, List.sum_append,
      List.sum_singleton]

/-- To add the upper part of a number to the lower one leaves its word. -/
lemma residue_fold (m x : ℕ) : residue m (x % (m + 1) + x / (m + 1)) = residue m x := by
  have hdiv := Nat.mod_add_div x (m + 1)
  have hsplit : x = (x % (m + 1) + x / (m + 1)) + m * (x / (m + 1)) := by
    rw [Nat.add_mul, Nat.one_mul] at hdiv
    omega
  rcases Nat.eq_zero_or_pos (x % (m + 1) + x / (m + 1)) with hzero | hpos
  · have hx : x = 0 := by
      obtain ⟨hmod, hquot⟩ := Nat.add_eq_zero_iff.mp hzero
      rw [hsplit, hmod, hquot, Nat.mul_zero]
    rw [hzero, hx]
  · calc residue m (x % (m + 1) + x / (m + 1))
        = residue m ((x % (m + 1) + x / (m + 1)) + m * (x / (m + 1))) :=
          (residue_add_mul hpos _).symm
      _ = residue m x := by rw [← hsplit]

/-- With its complement added a sum is the zero that has all bits set. -/
theorem residue_add_complement (hm : 0 < m) (x : ℕ) : residue m (x + (m - residue m x)) = m := by
  rw [← residue_add_residue, Nat.add_sub_cancel' (residue_le hm x)]
  exact residue_of_le le_rfl

end OnesComplement
