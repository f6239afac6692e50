import Mathlib.Data.Nat.Digits.Lemmas
import Mathlib.Tactic

/-!
# Numerals

The numeral of a number in a base, as the list of its digits, the most significant first, and the
number that a list of digits stands for.  Unlike `Nat.digits`, the numeral of 0 has a digit.
-/

namespace Numeral

/-- The digits of the numeral of `n`. -/
def digits (b n : ℕ) : List ℕ := if n = 0 then [0] else (b.digits n).reverse

/-- The number that digits stand for when they follow the numeral of `r`. -/
def valueFrom (b r : ℕ) (ds : List ℕ) : ℕ := ds.foldl (fun v d => v * b + d) r

/-- The number that digits stand for. -/
def value (b : ℕ) (ds : List ℕ) : ℕ := valueFrom b 0 ds

variable {b : ℕ}

@[simp] lemma valueFrom_nil (r : ℕ) : valueFrom b r [] = r := rfl

@[simp] lemma valueFrom_cons (r d : ℕ) (ds : List ℕ) :
    valueFrom b r (d :: ds) = valueFrom b (r * b + d) ds := rfl

lemma valueFrom_append (r : ℕ) (ds ds' : List ℕ) :
    valueFrom b r (ds ++ ds') = valueFrom b (valueFrom b r ds) ds' := List.foldl_append

@[simp] lemma value_single (d : ℕ) : value b [d] = d := by
  rw [value, valueFrom_cons, valueFrom_nil, Nat.zero_mul, Nat.zero_add]

lemma value_append_single (ds : List ℕ) (d : ℕ) : value b (ds ++ [d]) = value b ds * b + d :=
  valueFrom_append 0 ds [d]

/-- More digits make a number larger. -/
lemma le_valueFrom (hb : 0 < b) (r : ℕ) (ds : List ℕ) : r ≤ valueFrom b r ds := by
  induction ds generalizing r with
  | nil => exact le_rfl
  | cons d ds ih =>
    have hmul : r ≤ r * b := Nat.le_mul_of_pos_right r hb
    exact (hmul.trans (Nat.le_add_right _ d)).trans (ih _)

/-- The last digit of a numeral is the remainder. -/
lemma reverse_digits (hb : 1 < b) (n : ℕ) :
    (digits b n).reverse = n % b :: if n / b = 0 then [] else (digits b (n / b)).reverse := by
  by_cases hn : n = 0
  · subst hn
    rw [digits, if_pos rfl, Nat.zero_div, if_pos rfl, Nat.zero_mod]
    rfl
  · rw [digits, if_neg hn, List.reverse_reverse, Nat.digits_def' hb (Nat.pos_of_ne_zero hn)]
    split_ifs with hdiv
    · rw [hdiv, Nat.digits_zero]
    · rw [digits, if_neg hdiv, List.reverse_reverse]

lemma digits_of_lt {n : ℕ} (h : n < b) (hb : 1 < b) : digits b n = [n] := by
  rw [← List.reverse_inj, reverse_digits hb, Nat.div_eq_of_lt h, if_pos rfl, Nat.mod_eq_of_lt h]
  rfl

lemma digits_of_le {n : ℕ} (h : b ≤ n) (hb : 1 < b) : digits b n = digits b (n / b) ++ [n % b] := by
  have hdiv : n / b ≠ 0 := (Nat.div_pos h (by omega)).ne'
  rw [← List.reverse_inj, reverse_digits hb, if_neg hdiv, List.reverse_append]
  rfl

lemma digits_ne_nil (hb : 1 < b) (n : ℕ) : digits b n ≠ [] := by
  rw [← List.reverse_ne_nil_iff, reverse_digits hb]
  exact List.cons_ne_nil _ _

lemma digits_lt (hb : 1 < b) (n : ℕ) : ∀ d ∈ digits b n, d < b := by
  intro d hd
  by_cases hn : n = 0
  · rw [digits, if_pos hn, List.mem_singleton] at hd
    omega
  · rw [digits, if_neg hn, List.mem_reverse] at hd
    exact Nat.digits_lt_base hb hd

/-- A number is what its numeral stands for. -/
lemma value_digits (hb : 1 < b) (n : ℕ) : value b (digits b n) = n := by
  induction n using Nat.strong_induction_on with
  | _ n ih =>
    rcases Nat.lt_or_ge n b with h | h
    · rw [digits_of_lt h hb, value_single]
    · have hlt : n / b < n := Nat.div_lt_self (by omega) hb
      rw [digits_of_le h hb, value_append_single, ih _ hlt, Nat.div_add_mod']

/-- How many digits a numeral has. -/
lemma lt_length_digits_iff (hb : 1 < b) {k : ℕ} (hk : 0 < k) (n : ℕ) :
    k < (digits b n).length ↔ b ^ k ≤ n := by
  by_cases hn : n = 0
  · have hpos : 0 < b ^ k := Nat.pow_pos (by omega)
    rw [digits, if_pos hn, hn, List.length_singleton]
    omega
  · rw [digits, if_neg hn, List.length_reverse, Nat.lt_digits_length_iff hb]

/-- Zeros at the end. -/
lemma value_append_zeros (ds : List ℕ) (k : ℕ) :
    value b (ds ++ List.replicate k 0) = value b ds * b ^ k := by
  induction k with
  | zero => rw [List.replicate_zero, List.append_nil, Nat.pow_zero, Nat.mul_one]
  | succ k ih =>
    rw [List.replicate_succ', ← List.append_assoc, value_append_single, ih,
      Nat.add_zero, Nat.pow_succ, Nat.mul_assoc]

lemma digits_injective (hb : 1 < b) {m n : ℕ} (h : digits b m = digits b n) : m = n := by
  rw [← value_digits hb m, h, value_digits hb]

/-- A numeral is what is left of its digits when the zeros at the front are dropped, up to the last
digit. -/
lemma digits_value (hb : 1 < b) {ds : List ℕ} (hds : ∀ d ∈ ds, d < b) {d : ℕ} (hd : d < b) :
    digits b (value b (ds ++ [d])) = ds.dropWhile (· = 0) ++ [d] := by
  induction ds using List.reverseRecOn generalizing d with
  | nil =>
    rw [List.nil_append, value_single, digits_of_lt hd hb]
    rfl
  | append_singleton ds e ih =>
    have hds' : ∀ x ∈ ds, x < b := fun x hx => hds x (List.mem_append_left _ hx)
    have he : e < b := hds e (List.mem_append_right _ (List.mem_singleton_self e))
    have ih := ih hds' he
    rw [value_append_single]
    by_cases hzero : value b (ds ++ [e]) = 0
    · -- All digits in front are zeros.
      rw [hzero, digits, if_pos rfl] at ih
      have hsplit : ds.dropWhile (· = 0) = [] ∧ e = 0 := by
        cases hdrop : ds.dropWhile (· = 0) with
        | nil =>
          rw [hdrop] at ih
          exact ⟨rfl, (List.singleton_inj.mp ih).symm⟩
        | cons x xs =>
          rw [hdrop] at ih
          simp at ih
      rw [hzero, Nat.zero_mul, Nat.zero_add, digits_of_lt hd hb, List.dropWhile_append,
        hsplit.1, hsplit.2]
      simp
    · have hpos : 0 < value b (ds ++ [e]) := Nat.pos_of_ne_zero hzero
      have hle : b ≤ value b (ds ++ [e]) * b + d := by
        have := Nat.mul_le_mul_right b hpos
        omega
      rw [digits_of_le hle hb, Nat.mul_comm, Nat.mul_add_div (by omega), Nat.div_eq_of_lt hd,
        Nat.add_zero, Nat.mul_add_mod, Nat.mod_eq_of_lt hd, ih, List.dropWhile_append]
      congr 1
      split_ifs with hdrop
      · rw [List.isEmpty_iff] at hdrop
        have hne : e ≠ 0 := by
          intro h0
          have hnil : digits b (value b (ds ++ [e])) = digits b 0 := by
            rw [ih, hdrop, h0]
            rfl
          exact hzero (digits_injective hb hnil)
        rw [hdrop]
        simp [hne]
      · rfl

end Numeral
