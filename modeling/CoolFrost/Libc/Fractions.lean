import CoolFrost.Libc.Parsing

/-!
# The digits behind the point

`ftoa` (`libc/stdlib.c`) in base 10, with any precision.  What it takes from the floating-point unit
is given: the integer part and the fraction, which has been scaled and rounded to an integer.  The
zeros that fill the digits of the fraction up are put behind them, not in front, and a fraction that
has been rounded up to 1 is not carried.
-/

namespace CoolFrost

namespace Stdio

/-- The text of the integer part. -/
def integerText (v : Double) : List UInt8 := cstr (itoa v.intPart.toInt64 10)

/-- The text of the fraction. -/
def fractionText (precision : ℕ) (v : Double) : List UInt8 :=
  llimit (cstr (itoa v.fracInt.toInt64 10)) precision (ch '0')

/-- `ftoa` with base 10. -/
def ftoaPrec (precision : ℕ) (v : Double) : List UInt8 :=
  let s := (if v.neg then [ch '-'] else []) ++ integerText v
  if precision = 0 then s else s ++ [ch '.'] ++ fractionText precision v

/-- The printers ask for six digits. -/
lemma ftoa_eq_ftoaPrec (v : Double) : ftoa v = ftoaPrec 6 v := rfl

/-- The text is a decimal number. -/
def ReadsAs (t : List UInt8) (n : ℕ) : Prop :=
  t ≠ [] ∧ (∀ c ∈ t, isdigit c) ∧ Numeral.value 10 (t.map digitVal) = n

/-- The digits denote the rounded number: the fraction has as many digits as asked for and reads as
the scaled fraction, and if that has been rounded up to 1, the two parts together are the next
integer. -/
structure Rounded (p : ℕ) (v : Double) : Prop where
  fraction : v.fracInt.toNat < 10 ^ p →
    (fractionText p v).length = p ∧ ReadsAs (fractionText p v) v.fracInt.toNat
  carry : v.fracInt.toNat = 10 ^ p → ∃ m k, ReadsAs (integerText v) m ∧
    ReadsAs (fractionText p v) k ∧
    m * 10 ^ (fractionText p v).length + k =
      (v.intPart.toInt.toNat + 1) * 10 ^ (fractionText p v).length

/-! ## The texts -/

variable {p n : ℕ} {v : Double}

lemma ReadsAs.unique {t : List UInt8} {m : ℕ} (h : ReadsAs t m) (h' : ReadsAs t n) : m = n :=
  h.2.2.symm.trans h'.2.2

lemma readsAs_digits {ds : List ℕ} (hne : ds ≠ []) (hds : ∀ d ∈ ds, d < 10) :
    ReadsAs (ds.map digitChar) (Numeral.value 10 ds) := by
  refine ⟨fun h => hne (List.map_eq_nil_iff.mp h), fun c hc => ?_, ?_⟩
  · obtain ⟨d, hd, rfl⟩ := List.mem_map.mp hc
    exact (digitChar_decimal d (hds d hd)).1
  · rw [List.map_map]
    congr 1
    refine (List.map_congr_left fun d hd => ?_).trans (List.map_id ds)
    exact (digitChar_decimal d (hds d hd)).2

/-- What `itoa` writes for a number that is not negative. -/
lemma cstr_itoa {w : Int64} (h : 0 ≤ w.toInt) : cstr (itoa w 10) = numeral 10 w.toInt.toNat := by
  have hitoa := itoa_eq (b := 10) (by decide) (by decide) w
  have hzero := zero_not_mem_itoa (b := 10) (by decide) (by decide) w
  have hneg : ¬w < 0 := by
    rw [Int64.lt_iff_toInt_lt]
    exact not_lt.mpr h
  rw [if_neg fun hand => hneg hand.1, List.nil_append, ← Int.toNat_of_nonneg h, Int.natAbs_natCast]
    at hitoa
  exact (cstr_of_nonzero hzero).trans hitoa

lemma readsAs_numeral (n : ℕ) : ReadsAs (numeral 10 n) n := by
  have h := readsAs_digits (Numeral.digits_ne_nil (by decide) n)
    (Numeral.digits_lt (b := 10) (by decide) n)
  rwa [Numeral.value_digits (by decide)] at h

lemma readsAs_integerText (hi : 0 ≤ v.intPart.toInt) :
    ReadsAs (integerText v) v.intPart.toInt.toNat := by
  have hint : v.intPart.toInt64.toInt = v.intPart.toInt := Int32.toInt_toInt64 _
  have hpos : 0 ≤ v.intPart.toInt64.toInt := by rwa [hint]
  rw [integerText, cstr_itoa hpos, hint]
  exact readsAs_numeral _

lemma fractionText_eq (h : v.fracInt.toNat < 2 ^ 63) :
    fractionText p v = llimit (numeral 10 v.fracInt.toNat) p (ch '0') := by
  have hint : v.fracInt.toInt64.toInt = v.fracInt.toNat := by rw [toInt_toInt64, if_pos h]
  have hpos : 0 ≤ v.fracInt.toInt64.toInt := by
    rw [hint]
    exact Int.natCast_nonneg _
  rw [fractionText, cstr_itoa hpos, hint, Int.toNat_natCast]

/-- A fraction of at most `p` digits is filled up from behind, which multiplies it by a power of
10. -/
lemma llimit_of_le (h : (numeral 10 n).length ≤ p) :
    (llimit (numeral 10 n) p (ch '0')).length = p ∧
      ReadsAs (llimit (numeral 10 n) p (ch '0')) (n * 10 ^ (p - (numeral 10 n).length)) := by
  have hzeros : numeral 10 n ++ List.replicate (p - (numeral 10 n).length) (ch '0') =
      (Numeral.digits 10 n ++ List.replicate (p - (numeral 10 n).length) 0).map digitChar := by
    rw [List.map_append, List.map_replicate]
    rfl
  rw [llimit, if_neg (not_lt.mpr h)]
  constructor
  · rw [List.length_append, List.length_replicate]
    omega
  · rw [hzeros]
    have hreads := @readsAs_digits
      (Numeral.digits 10 n ++ List.replicate (p - (numeral 10 n).length) 0)
      (List.append_ne_nil_of_left_ne_nil (Numeral.digits_ne_nil (by decide) n) _) ?_
    · rwa [Numeral.value_append_zeros, Numeral.value_digits (by decide)] at hreads
    · intro d hd
      rcases List.mem_append.mp hd with hd | hd
      · exact Numeral.digits_lt (by decide) n d hd
      · rw [List.eq_of_mem_replicate hd]
        decide

lemma numeral_pow (q : ℕ) : numeral 10 (10 ^ (q + 1)) = numeral 10 (10 ^ q) ++ [ch '0'] := by
  have hle : 10 ≤ 10 ^ (q + 1) := Nat.le_self_pow (by omega) 10
  rw [numeral, Numeral.digits_of_le hle (by decide), Nat.pow_succ, Nat.mul_div_cancel _ (by decide),
    Nat.mul_mod_left, List.map_append]
  rfl

lemma length_numeral_pow (q : ℕ) : (numeral 10 (10 ^ q)).length = q + 1 := by
  induction q with
  | zero => rfl
  | succ q ih => rw [numeral_pow, List.length_append, ih, List.length_singleton]

/-- A fraction that has been rounded up to 1 loses its last zero. -/
lemma llimit_pow (hp : 1 ≤ p) :
    (llimit (numeral 10 (10 ^ p)) p (ch '0')).length = p ∧
      ReadsAs (llimit (numeral 10 (10 ^ p)) p (ch '0')) (10 ^ (p - 1)) := by
  obtain ⟨q, rfl⟩ : ∃ q, p = q + 1 := ⟨p - 1, by omega⟩
  have hlen := length_numeral_pow q
  have htake : llimit (numeral 10 (10 ^ (q + 1))) (q + 1) (ch '0') = numeral 10 (10 ^ q) := by
    rw [llimit, if_pos (by rw [length_numeral_pow]; omega), numeral_pow, ← hlen, List.take_left]
  rw [htake, Nat.add_sub_cancel]
  exact ⟨hlen, readsAs_numeral _⟩

/-! ## The rounded number -/

lemma lt_length_numeral_iff (hp : 0 < p) (n : ℕ) : p < (numeral 10 n).length ↔ 10 ^ p ≤ n := by
  rw [numeral, List.length_map]
  exact Numeral.lt_length_digits_iff (by decide) hp n

/-- Filling a fraction up leaves it as it is if it is 0 or needs no zeros. -/
lemma mul_pow_eq_iff (hp : 1 ≤ p) (n : ℕ) :
    n * 10 ^ (p - (numeral 10 n).length) = n ↔ n = 0 ∨ 10 ^ (p - 1) ≤ n := by
  by_cases hn : n = 0
  · rw [hn, Nat.zero_mul]
    exact iff_of_true rfl (Or.inl rfl)
  rw [Nat.mul_eq_left hn, Nat.pow_eq_one, or_iff_right (by decide), or_iff_right hn,
    Nat.sub_eq_zero_iff_le]
  obtain ⟨q, rfl⟩ : ∃ q, p = q + 1 := ⟨p - 1, by omega⟩
  rw [Nat.add_sub_cancel, Nat.succ_le_iff]
  by_cases hq : q = 0
  · rw [hq, Nat.pow_zero]
    exact iff_of_true (List.length_pos_iff.mpr (readsAs_numeral n).1) (Nat.pos_of_ne_zero hn)
  · exact lt_length_numeral_iff (Nat.pos_of_ne_zero hq) n

/-- The digits denote the rounded number exactly if the fraction is 0 or has no zeros in front. -/
theorem rounded_iff (hp : 1 ≤ p) (hmax : p ≤ 9) (hi : 0 ≤ v.intPart.toInt)
    (hf : v.fracInt.toNat ≤ 10 ^ p) :
    Rounded p v ↔ v.fracInt.toNat = 0 ∨ 10 ^ (p - 1) ≤ v.fracInt.toNat ∧
    v.fracInt.toNat < 10 ^ p := by
  have hpow : 10 ^ p ≤ 10 ^ 9 := Nat.pow_le_pow_right (by decide) hmax
  have htext := fractionText_eq (p := p) (v := v) (by omega)
  rcases hf.lt_or_eq with hlt | heq
  · have hle : (numeral 10 v.fracInt.toNat).length ≤ p :=
      not_lt.mp fun h => absurd ((lt_length_numeral_iff hp _).mp h) (not_le.mpr hlt)
    obtain ⟨hlen, hreads⟩ := llimit_of_le hle
    rw [← htext] at hlen hreads
    rw [and_iff_left hlt, ← mul_pow_eq_iff hp]
    constructor
    · intro h
      exact hreads.unique (h.fraction hlt).2
    · intro h
      rw [h] at hreads
      exact ⟨fun _ => ⟨hlen, hreads⟩, fun heq => absurd heq hlt.ne⟩
  · obtain ⟨hlen, hreads⟩ := llimit_pow hp
    rw [← heq, ← htext] at hlen hreads
    have hpos : 0 < 10 ^ p := Nat.pow_pos (by decide)
    refine iff_of_false (fun h => ?_) (by omega)
    -- the integer part is not the next one, and the fraction is less than 1
    obtain ⟨m, k, hm, hk, hsum⟩ := h.carry heq
    obtain rfl := hm.unique (readsAs_integerText hi)
    obtain rfl := hk.unique hreads
    have hlt : 10 ^ (p - 1) < 10 ^ p := Nat.pow_lt_pow_right (by decide) (by omega)
    rw [hlen, Nat.add_mul, Nat.one_mul] at hsum
    omega

/-- 2.50, to two digits. -/
theorem rounded_iff_half : Rounded 2 ⟨false, 2, 50⟩ := by
  apply (rounded_iff (by decide) (by decide) (by decide) (by decide)).mpr
  exact Or.inr (by decide)

/-- 2.05 is printed as 2.50. -/
theorem not_rounded : ¬∀ (p : ℕ) (v : Double), 1 ≤ p → p ≤ 9 → 0 ≤ v.intPart.toInt →
    v.fracInt.toNat ≤ 10 ^ p → Rounded p v := by
  intro h
  have hrounded := (h 2 ⟨false, 2, 5⟩ (by decide) (by decide) (by decide) (by decide)).fraction
    (by decide)
  exact absurd hrounded.2.2.2 (by decide)

end Stdio

end CoolFrost
