import Mathlib.Tactic

/-!
# Sums of signed words

A sum or a difference of two words of 32 bits is the one of their values where that fits, and off by
one turn where it does not.
-/

namespace Signed

lemma bmod_eq_self {n : ℤ} (hle : -2 ^ 31 ≤ n) (hlt : n < 2 ^ 31) : n.bmod (2 ^ 32) = n :=
  Int.bmod_eq_of_le (by omega) (by omega)

lemma toInt_add {a b : Int32} (hle : -2 ^ 31 ≤ a.toInt + b.toInt)
    (hlt : a.toInt + b.toInt < 2 ^ 31) :
    (a + b).toInt = a.toInt + b.toInt :=
  (Int32.toInt_add a b).trans (bmod_eq_self hle hlt)

lemma toInt_sub {a b : Int32} (hle : -2 ^ 31 ≤ a.toInt - b.toInt)
    (hlt : a.toInt - b.toInt < 2 ^ 31) :
    (a - b).toInt = a.toInt - b.toInt :=
  (Int32.toInt_sub a b).trans (bmod_eq_self hle hlt)

/-- A sum that is too large wraps around by one turn. -/
lemma toInt_add_of_le {a b : Int32} (h : 2 ^ 31 ≤ a.toInt + b.toInt) :
    (a + b).toInt = a.toInt + b.toInt - 2 ^ 32 := by
  have ha := a.toInt_lt
  have hb := b.toInt_lt
  rw [Int32.toInt_add, ← Int.sub_bmod_right]
  exact bmod_eq_self (by omega) (by omega)

/-- A sum that is too small wraps around by one turn. -/
lemma toInt_add_of_lt {a b : Int32} (h : a.toInt + b.toInt < -2 ^ 31) :
    (a + b).toInt = a.toInt + b.toInt + 2 ^ 32 := by
  have ha := a.le_toInt
  have hb := b.le_toInt
  rw [Int32.toInt_add, ← Int.add_bmod_right]
  exact bmod_eq_self (by omega) (by omega)

end Signed
