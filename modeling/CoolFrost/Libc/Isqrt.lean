import Mathlib.Data.Nat.Basic
import Mathlib.Tactic

/-!
# The integer square root

`isqrt` (`libc/math.h`), Newton's method on 64-bit words.  `none` stands for the exception that a
division by zero raises.
-/

namespace CoolFrost

namespace Math

/-! ## Newton's method on natural numbers -/

/-- The unique number whose square is the last one up to `n`. -/
def IsRoot (n r : ℕ) : Prop := ∀ k : ℕ, k * k ≤ n ∧ n < (k + 1) * (k + 1) ↔ k = r

lemma isRoot_of_bounds {n r : ℕ} (hle : r * r ≤ n) (hlt : n < (r + 1) * (r + 1)) : IsRoot n r := by
  intro k
  constructor
  · rintro ⟨hk, hk'⟩
    apply le_antisymm
    · exact Nat.lt_succ_iff.mp (Nat.mul_self_lt_mul_self_iff.mp (hk.trans_lt hlt))
    · exact Nat.lt_succ_iff.mp (Nat.mul_self_lt_mul_self_iff.mp (hle.trans_lt hk'))
  · rintro rfl
    exact ⟨hle, hlt⟩

/-- A step from above or from below ends at or above the root. -/
lemma lt_next_sq (n : ℕ) {x : ℕ} (hx : 0 < x) :
    n < ((x + n / x) / 2 + 1) * ((x + n / x) / 2 + 1) := by
  obtain ⟨q, hq⟩ : ∃ q, n / x = q := ⟨_, rfl⟩
  have hn : n < x * (q + 1) := by
    rw [← hq]
    exact Nat.lt_mul_div_succ n hx
  rw [hq]
  obtain ⟨m, hm⟩ : ∃ m, (x + q) / 2 = m := ⟨_, rfl⟩
  have hsum : x + (q + 1) ≤ 2 * (m + 1) := by omega
  rw [hm]
  -- the arithmetic mean is not less than the geometric one
  have hmean : 4 * (x * (q + 1)) ≤ (x + (q + 1)) * (x + (q + 1)) := by
    zify
    nlinarith [sq_nonneg ((x : ℤ) - (q + 1))]
  nlinarith

/-- Where a step does not go down, the root is reached. -/
lemma sq_le_of_le_next {n x : ℕ} (hx : 0 < x) (h : x ≤ (x + n / x) / 2) : x * x ≤ n := by
  have hdiv : x ≤ n / x := by omega
  exact (Nat.le_div_iff_mul_le hx).mp hdiv

/-! ## `isqrt` -/

/-- The loop of `isqrt`. -/
def isqrtLoop (n x y : UInt64) : Option UInt64 :=
  if y < x then
    if y = 0 then none else isqrtLoop n y ((y + n / y) >>> 1)
  else some x
termination_by x.toNat
decreasing_by exact UInt64.lt_iff_toNat_lt.mp ‹y < x›

/-- `isqrt`. -/
def isqrt (n : UInt64) : Option UInt64 :=
  if n = 0 then some 0 else isqrtLoop n n ((n + 1) >>> 1)

lemma add_div_le {n y : ℕ} (hy : 0 < y) (hle : y ≤ n) : y + n / y ≤ n + 1 := by
  have hq : 0 < n / y := Nat.div_pos hle hy
  have hmul : y * (n / y) ≤ n := Nat.mul_div_le n y
  obtain ⟨a, rfl⟩ : ∃ a, y = a + 1 := ⟨y - 1, by omega⟩
  obtain ⟨b, hb⟩ : ∃ b, n / (a + 1) = b + 1 := ⟨n / (a + 1) - 1, by omega⟩
  rw [hb] at hmul ⊢
  calc a + 1 + (b + 1) ≤ a * b + a + b + 1 + 1 := by omega
    _ = (a + 1) * (b + 1) + 1 := by ring
    _ ≤ n + 1 := Nat.add_le_add_right hmul 1

/-- A step does not wrap around, except from the largest number on. -/
lemma toNat_next {n y : UInt64} (hn : n.toNat + 1 < 2 ^ 64) (hy : 0 < y.toNat)
    (hle : y.toNat ≤ n.toNat) :
    ((y + n / y) >>> 1).toNat = (y.toNat + n.toNat / y.toNat) / 2 := by
  have hsum := (add_div_le hy hle).trans_lt hn
  rw [UInt64.toNat_shiftRight, UInt64.toNat_add, UInt64.toNat_div, Nat.mod_eq_of_lt hsum]
  rfl

/-- The loop stays at or above the root until a step does not go down. -/
lemma isqrtLoop_spec {n x y : UInt64} (hn : n.toNat + 1 < 2 ^ 64) (hx : 0 < x.toNat)
    (hle : x.toNat ≤ n.toNat) (habove : n.toNat < (x.toNat + 1) * (x.toNat + 1))
    (hy : y.toNat = (x.toNat + n.toNat / x.toNat) / 2) :
    ∃ r, isqrtLoop n x y = some r ∧ IsRoot n.toNat r.toNat := by
  induction hx' : x.toNat using Nat.strong_induction_on generalizing x y with
  | _ a ih =>
    subst hx'
    rw [isqrtLoop]
    by_cases hlt : y < x
    · have hlt' := UInt64.lt_iff_toNat_lt.mp hlt
      have hq : 0 < n.toNat / x.toNat := Nat.div_pos hle hx
      have hpos : 0 < y.toNat := by omega
      have hne : y ≠ 0 := fun h => absurd hpos (by rw [h]; decide)
      rw [if_pos hlt, if_neg hne]
      apply ih y.toNat hlt' hpos (hlt'.le.trans hle)
      · rw [hy]
        exact lt_next_sq n.toNat hx
      · exact toNat_next hn hpos (hlt'.le.trans hle)
      · rfl
    · rw [if_neg hlt]
      have hge : x.toNat ≤ y.toNat := not_lt.mp fun h => hlt (UInt64.lt_iff_toNat_lt.mpr h)
      rw [hy] at hge
      exact ⟨x, rfl, isRoot_of_bounds (sq_le_of_le_next hx hge) habove⟩

/-- For the largest number the first sum wraps around to 0, by which the loop divides. -/
lemma isqrt_max : isqrt 0xFFFFFFFFFFFFFFFF = none := by
  have hsum : ((0xFFFFFFFFFFFFFFFF : UInt64) + 1) >>> 1 = 0 := by decide
  rw [isqrt, if_neg (by decide), hsum, isqrtLoop, if_pos (by decide), if_pos rfl]

/-- `isqrt` finds the root of every number but the largest one. -/
theorem isqrt_isRoot_iff (n : UInt64) :
    (∃ r, isqrt n = some r ∧ IsRoot n.toNat r.toNat) ↔ n ≠ 0xFFFFFFFFFFFFFFFF := by
  constructor
  · rintro ⟨r, hr, -⟩ rfl
    rw [isqrt_max] at hr
    cases hr
  · intro hne
    rw [isqrt]
    by_cases hzero : n = 0
    · rw [if_pos hzero, hzero]
      exact ⟨0, rfl, isRoot_of_bounds le_rfl Nat.one_pos⟩
    rw [if_neg hzero]
    have hpos : 0 < n.toNat := Nat.pos_of_ne_zero fun h => hzero (UInt64.toNat_inj.mp h)
    have hmax : n.toNat + 1 < 2 ^ 64 := by
      have hlt := n.toNat_lt
      have hne' : n.toNat ≠ 2 ^ 64 - 1 := fun h => hne (UInt64.toNat_inj.mp h)
      omega
    apply isqrtLoop_spec hmax hpos le_rfl
    · nlinarith
    · rw [Nat.div_self hpos, UInt64.toNat_shiftRight, UInt64.toNat_add, UInt64.toNat_one,
        Nat.mod_eq_of_lt hmax]
      rfl

/-- There is no result for the largest number. -/
theorem not_isqrt_isRoot : ¬∀ n, ∃ r, isqrt n = some r ∧ IsRoot n.toNat r.toNat := by
  intro h
  obtain ⟨r, hr, -⟩ := h 0xFFFFFFFFFFFFFFFF
  rw [isqrt_max] at hr
  cases hr

end Math

end CoolFrost
