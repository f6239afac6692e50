import CoolFrost.Libc.Numerals

/-!
# Numbers as text, the older way

`int_to_ascii` and `hex_to_ascii` (`libc/string.c`), which are older than `itoa` and have digit
loops of their own.  A string is its text without the terminator; none of the characters stored has
code 0.
-/

namespace CoolFrost

namespace Stdio

/-- The loop of `reverse`. -/
def swapFrom (s : List UInt8) (i j : ℕ) : List UInt8 :=
  if i < j then swapFrom ((s.set i (s.getD j 0)).set j (s.getD i 0)) (i + 1) (j - 1) else s
termination_by j - i

/-- `reverse`. -/
def reverse (s : List UInt8) : List UInt8 :=
  if s.length = 0 then s else swapFrom s 0 (s.length - 1)

/-- `append`. -/
def append (s : List UInt8) (n : UInt8) : List UInt8 := s ++ [n]

/-- The loop of `int_to_ascii`, which goes round at least once and writes the last digit first. -/
def intLoop : ℕ → Int32 → List UInt8
  | 0, _ => []
  | k + 1, n => (n % 10 + 48).toUInt32.toUInt8 :: if 0 < n / 10 then intLoop k (n / 10) else []

/-- `int_to_ascii`; an `int` has at most 10 digits. -/
def intToAscii (n : Int32) : List UInt8 :=
  reverse (intLoop 10 (if n < 0 then -n else n) ++ if n < 0 then [ch '-'] else [])

/-- `(n >> i) & 0xF`. -/
def nibble (n : Int32) (i : ℕ) : ℕ := (n.toBitVec.sshiftRight i &&& 0xF#32).toNat

/-- A round of the loop of `hex_to_ascii`: the string, and whether a digit has been written. -/
def hexStep (n : Int32) (st : List UInt8 × Bool) (i : ℕ) : List UInt8 × Bool :=
  let tmp := nibble n i
  if tmp = 0 ∧ st.2 = false then st
  else (append st.1 (UInt8.ofNat (if 0xA < tmp then tmp - 0xA + 97 else tmp + 48)), true)

/-- `hex_to_ascii`; the last digit is compared with `0xA` in another way. -/
def hexToAscii (n : Int32) (str : List UInt8) : List UInt8 :=
  let str := append (append str (ch '0')) (ch 'x')
  let str := ([28, 24, 20, 16, 12, 8, 4].foldl (hexStep n) (str, false)).1
  let tmp := nibble n 0
  append str (UInt8.ofNat (if 0xA ≤ tmp then tmp - 0xA + 97 else tmp + 48))

/-! ## Reversing -/

/-- Swapping from both ends of the part `m` reverses it. -/
lemma swapFrom_eq (a m c : List UInt8) :
    swapFrom (a ++ m ++ c) a.length (a.length + m.length - 1) = a ++ m.reverse ++ c := by
  induction m using List.bidirectionalRec generalizing a c with
  | nil => rw [swapFrom, if_neg (by simp)]; rfl
  | singleton x => rw [swapFrom, if_neg (by simp)]; rfl
  | cons_append x m y ih =>
    have hlen : (x :: (m ++ [y])).length = m.length + 2 := by simp
    have hfirst : (a ++ x :: (m ++ [y]) ++ c).getD a.length 0 = x := by simp
    have hlast : (a ++ x :: (m ++ [y]) ++ c).getD (a.length + (m.length + 2) - 1) 0 = y := by
      have hidx : a.length + (m.length + 2) - 1 = (a ++ x :: m).length := by
        rw [List.length_append, List.length_cons]
        omega
      rw [hidx]
      simp
    have hset : ((a ++ x :: (m ++ [y]) ++ c).set a.length y).set (a.length + (m.length + 2) - 1) x =
        (a ++ [y]) ++ m ++ (x :: c) := by
      have hidx : a.length + (m.length + 2) - 1 = (a ++ y :: m).length := by
        rw [List.length_append, List.length_cons]
        omega
      have hone : (a ++ x :: (m ++ [y]) ++ c).set a.length y = (a ++ y :: m) ++ (y :: c) := by simp
      rw [hone, hidx]
      simp
    rw [swapFrom, if_pos (by rw [hlen]; omega), hlen, hfirst, hlast, hset]
    have hnext := ih (a ++ [y]) (x :: c)
    have hlen' : (a ++ [y]).length = a.length + 1 := by simp
    have hend : a.length + (m.length + 2) - 1 - 1 = a.length + 1 + m.length - 1 := by omega
    rw [hlen'] at hnext
    rw [hend, hnext]
    simp

lemma reverse_eq (s : List UInt8) : reverse s = s.reverse := by
  unfold reverse
  split_ifs with h
  · rw [List.length_eq_zero_iff.mp h]
    rfl
  · have hswap := swapFrom_eq [] s []
    simpa using hswap

/-! ## Decimal -/

/-- The character of a remainder. -/
lemma toUInt8_digit : ∀ d : ℕ, d < 10 → (Int32.ofInt d + 48).toUInt32.toUInt8 = digitChar d :=
  by decide

/-- The loop writes the numeral of a number that is not negative, the last digit first. -/
lemma intLoop_eq {k : ℕ} {n : Int32} (h0 : 0 ≤ n.toInt) (h : n.toInt < 10 ^ k) (hk : 0 < k) :
    (intLoop k n).reverse = numeral 10 n.toInt.natAbs := by
  rw [List.reverse_eq_iff, numeral, ← List.map_reverse]
  induction k generalizing n with
  | zero => exact absurd hk (Nat.lt_irrefl 0)
  | succ k ih =>
    have hnat : n.toInt = (n.toInt.natAbs : ℤ) := (Int.natAbs_of_nonneg h0).symm
    have hdiv : (n / 10).toInt = ((n.toInt.natAbs / 10 : ℕ) : ℤ) := by
      rw [Int32.toInt_div_of_ne_right n 10 (by decide), hnat]
      rfl
    have hmod : n % 10 = Int32.ofInt (n.toInt.natAbs % 10 : ℕ) := by
      have hlt : n.toInt.natAbs % 10 < 10 := Nat.mod_lt _ (by decide)
      rw [← Int32.toInt_inj, Int32.toInt_mod, Int32.toInt_ofInt_of_le (by omega) (by omega)]
      conv_lhs => rw [hnat]
      rfl
    rw [intLoop, Numeral.reverse_digits (by decide), List.map_cons, hmod]
    refine congrArg₂ List.cons (toUInt8_digit _ (Nat.mod_lt _ (Nat.succ_pos 9))) ?_
    have hpos : 0 < n / 10 ↔ n.toInt.natAbs / 10 ≠ 0 := by
      rw [Int32.lt_iff_toInt_lt, hdiv, Int32.toInt_zero]
      omega
    by_cases hzero : n.toInt.natAbs / 10 = 0
    · rw [if_neg (fun hlt => hpos.mp hlt hzero), if_pos hzero, List.map_nil]
    · rw [if_pos (hpos.mpr hzero), if_neg hzero]
      have hk' : 0 < k := by
        by_contra hk0
        rw [Nat.eq_zero_of_not_pos hk0, Nat.zero_add, pow_one] at h
        omega
      have hlt : (n / 10).toInt < 10 ^ k := by
        rw [hdiv]
        rw [pow_succ] at h
        omega
      have hnext := ih (by rw [hdiv]; exact Int.natCast_nonneg _) hlt hk'
      rw [hnext, hdiv, Int.natAbs_natCast]

/-- `int_to_ascii` and `itoa` write the same for every number but the most negative one. -/
lemma intToAscii_eq_iff (n : Int32) : intToAscii n = itoa n.toInt64 10 ↔ n ≠ Int32.minValue := by
  have hlow := Int32.le_toInt n
  have hhigh := Int32.toInt_lt n
  have hneg : n < 0 ↔ n.toInt < 0 := Int32.lt_iff_toInt_lt
  have hneg64 : n.toInt64 < 0 ↔ n.toInt < 0 := by
    rw [Int64.lt_iff_toInt_lt, Int32.toInt_toInt64]
    rfl
  constructor
  · rintro h rfl
    rw [intToAscii, reverse_eq] at h
    exact absurd h (by decide)
  · intro hmin
    have hne : n.toInt ≠ -2 ^ 31 := fun h => hmin (Int32.toInt_inj.mp h)
    have hitoa := itoa_eq (b := 10) (by decide) (by decide) n.toInt64
    rw [Int32.toInt_toInt64] at hitoa
    refine Eq.trans ?_ hitoa.symm
    rw [intToAscii, reverse_eq, List.reverse_append]
    by_cases h : n.toInt < 0
    · have hminus : (-n).toInt = -n.toInt := by
        rw [Int32.toInt_neg]
        exact Int.bmod_eq_of_le (by omega) (by omega)
      rw [if_pos (hneg.mpr h), if_pos (hneg.mpr h), if_pos ⟨hneg64.mpr h, rfl⟩,
        intLoop_eq (by omega) (by omega) (by decide), hminus, Int.natAbs_neg]
      rfl
    · rw [if_neg (hneg.not.mpr h), if_neg (hneg.not.mpr h),
        if_neg (fun hand => h (hneg64.mp hand.1)), intLoop_eq (by omega) (by omega) (by decide)]
      rfl

/-! ## Hexadecimal -/

/-- The sign of a number does not get into its lower digits. -/
lemma nibble_eq (n : Int32) {i : ℕ} (hi : i ≤ 28) :
    nibble n i = n.toUInt32.toNat / 2 ^ i % 16 := by
  have hbits : n.toBitVec.sshiftRight i &&& 0xF#32 = n.toBitVec >>> i &&& 0xF#32 := by
    ext j hj
    rcases Nat.lt_or_ge j 4 with h | h
    · simp only [BitVec.getElem_and, BitVec.getElem_sshiftRight, BitVec.getElem_ushiftRight]
      rw [dif_pos (by omega)]
      rfl
    · have hmask : (0xF#32)[j] = false := by
        revert h
        revert j
        decide
      simp only [BitVec.getElem_and, hmask, Bool.and_false]
  rw [nibble, hbits, BitVec.toNat_and, BitVec.toNat_ushiftRight, Nat.shiftRight_eq_div_pow]
  exact Nat.and_two_pow_sub_one_eq_mod _ 4

/-- The character that the loop makes of a digit. -/
def loopChar (d : ℕ) : UInt8 := UInt8.ofNat (if 0xA < d then d - 0xA + 97 else d + 48)

lemma loopChar_eq_iff : ∀ d < 16, loopChar d = digitChar d ↔ d ≠ 10 := by decide

lemma lastChar_eq : ∀ d < 16, UInt8.ofNat (if 0xA ≤ d then d - 0xA + 97 else d + 48) =
    digitChar d := by
  decide

/-- Once a digit has been written the loop writes all that follow. -/
lemma foldl_hexStep_true (n : Int32) (shifts : List ℕ) (s : List UInt8) :
    (shifts.foldl (hexStep n) (s, true)).1 = s ++ (shifts.map (nibble n)).map loopChar := by
  induction shifts generalizing s with
  | nil => exact (List.append_nil s).symm
  | cons i shifts ih =>
    have hstep : hexStep n (s, true) i = (s ++ [loopChar (nibble n i)], true) := by
      rw [hexStep, if_neg (by simp)]
      rfl
    rw [List.foldl_cons, hstep, ih, List.append_assoc]
    rfl

/-- The loop leaves the zeros at the front out. -/
lemma foldl_hexStep (n : Int32) (shifts : List ℕ) (s : List UInt8) :
    (shifts.foldl (hexStep n) (s, false)).1 =
      s ++ ((shifts.map (nibble n)).dropWhile (· = 0)).map loopChar := by
  induction shifts with
  | nil => exact (List.append_nil s).symm
  | cons i shifts ih =>
    rw [List.foldl_cons, List.map_cons]
    by_cases hzero : nibble n i = 0
    · have hstep : hexStep n (s, false) i = (s, false) := by rw [hexStep, if_pos ⟨hzero, rfl⟩]
      rw [hstep, ih, List.dropWhile_cons_of_pos (by simp [hzero])]
    · have hstep : hexStep n (s, false) i = (s ++ [loopChar (nibble n i)], true) := by
        rw [hexStep, if_neg (fun h => hzero h.1)]
        rfl
      rw [hstep, foldl_hexStep_true, List.dropWhile_cons_of_neg (by simp [hzero]),
        List.append_assoc]
      rfl

/-- The digits of `n` in base 16 but the last, with the zeros at the front. -/
def upperNibbles (n : Int32) : List ℕ := [28, 24, 20, 16, 12, 8, 4].map (nibble n)

lemma mul_add_nibble (u i : ℕ) : u / 2 ^ (i + 4) * 16 + u / 2 ^ i % 16 = u / 2 ^ i := by
  rw [Nat.pow_add, ← Nat.div_div_eq_div_mul]
  exact Nat.div_add_mod' _ _

lemma value_nibbles (n : Int32) :
    Numeral.value 16 (upperNibbles n ++ [nibble n 0]) = n.toUInt32.toNat := by
  have hlt := n.toUInt32.toNat_lt
  have hnibble := fun i (hi : i ≤ 28) => nibble_eq n hi
  simp only [upperNibbles, List.map_cons, List.map_nil, List.cons_append,
    List.nil_append, Numeral.value, Numeral.valueFrom_cons, Numeral.valueFrom_nil]
  rw [hnibble 28 (by decide), hnibble 24 (by decide), hnibble 20 (by decide),
    hnibble 16 (by decide),
    hnibble 12 (by decide), hnibble 8 (by decide), hnibble 4 (by decide), hnibble 0 (by decide)]
  have hfirst : 0 * 16 + n.toUInt32.toNat / 2 ^ 28 % 16 = n.toUInt32.toNat / 2 ^ 28 := by
    have hdiv : n.toUInt32.toNat / 2 ^ 28 < 16 := Nat.div_lt_of_lt_mul hlt
    rw [Nat.zero_mul, Nat.zero_add, Nat.mod_eq_of_lt hdiv]
  have hstep := mul_add_nibble n.toUInt32.toNat
  rw [hfirst, hstep 24, hstep 20, hstep 16, hstep 12, hstep 8, hstep 4, hstep 0,
    Nat.pow_zero, Nat.div_one]

lemma nibble_lt (n : Int32) {i : ℕ} (hi : i ≤ 28) : nibble n i < 16 := by
  rw [nibble_eq n hi]
  exact Nat.mod_lt _ (by decide)

lemma mem_upperNibbles_lt (n : Int32) : ∀ d ∈ upperNibbles n, d < 16 := by
  intro d hd
  obtain ⟨i, hi, rfl⟩ := List.mem_map.mp hd
  have hle : ∀ i ∈ [28, 24, 20, 16, 12, 8, 4], i ≤ 28 := by decide
  exact nibble_lt n (hle i hi)

/-- A digit other than 0 is not left out at the front. -/
lemma mem_dropWhile_zero {d : ℕ} (hd : d ≠ 0) (ds : List ℕ) :
    d ∈ ds.dropWhile (· = 0) ↔ d ∈ ds := by
  refine ⟨fun h => (List.dropWhile_suffix _).subset h, fun h => ?_⟩
  rw [← List.takeWhile_append_dropWhile (p := (· = 0)) (l := ds), List.mem_append] at h
  exact h.resolve_left fun htake => hd (by simpa using List.mem_takeWhile_imp htake)

/-- `hex_to_ascii` writes the numeral of a number in which no digit but the last is 10. -/
lemma hexToAscii_eq_iff (n : Int32) :
    hexToAscii n [] = [ch '0', ch 'x'] ++ numeral 16 n.toUInt32.toNat ↔ 10 ∉ upperNibbles n := by
  have hdigits : Numeral.digits 16 n.toUInt32.toNat =
      (upperNibbles n).dropWhile (· = 0) ++ [nibble n 0] := by
    rw [← value_nibbles]
    exact Numeral.digits_value (by decide) (mem_upperNibbles_lt n) (nibble_lt n (by decide))
  have hhex : hexToAscii n [] = [ch '0', ch 'x'] ++
      (((upperNibbles n).dropWhile (· = 0)).map loopChar ++ [digitChar (nibble n 0)]) := by
    rw [← lastChar_eq _ (nibble_lt n (by decide))]
    simp only [hexToAscii, foldl_hexStep, append, upperNibbles, List.append_assoc]
    rfl
  rw [hhex, numeral, hdigits, List.map_append, List.append_cancel_left_eq, List.map_singleton,
    List.append_cancel_right_eq, List.map_inj_left, ← mem_dropWhile_zero (by decide)]
  constructor
  · intro h hten
    exact (loopChar_eq_iff 10 (by decide)).mp (h 10 hten) rfl
  · intro hten d hd
    have hlt := mem_upperNibbles_lt n d ((List.dropWhile_suffix _).subset hd)
    exact (loopChar_eq_iff d hlt).mpr fun h => hten (h ▸ hd)

/-! ## Agreement -/

/-- The digits of `n` from the second on are those that `upperNibbles` collects. -/
lemma ten_mem_upperNibbles (n : Int32) :
    10 ∈ upperNibbles n ↔ ∃ k, (1 ≤ k ∧ k ≤ 7) ∧ n.toUInt32.toNat / 16 ^ k % 16 = 10 := by
  have hpow : ∀ k, 16 ^ k = 2 ^ (4 * k) := fun k => by
    rw [pow_mul]
    norm_num
  have hmem : ∀ i, i ∈ [28, 24, 20, 16, 12, 8, 4] ↔ ∃ k, (1 ≤ k ∧ k ≤ 7) ∧ i = 4 * k := by
    intro i
    simp only [List.mem_cons, List.not_mem_nil, or_false]
    constructor
    · intro h
      exact ⟨i / 4, by omega, by omega⟩
    · rintro ⟨k, hk, rfl⟩
      omega
  rw [upperNibbles, List.mem_map]
  constructor
  · rintro ⟨i, hi, hten⟩
    obtain ⟨k, hk, rfl⟩ := (hmem i).mp hi
    refine ⟨k, hk, ?_⟩
    rwa [hpow, ← nibble_eq n (by omega)]
  · rintro ⟨k, hk, hten⟩
    refine ⟨4 * k, (hmem _).mpr ⟨k, hk, rfl⟩, ?_⟩
    rwa [nibble_eq n (by omega), ← hpow]

/-- When the older functions agree with the newer one: `int_to_ascii` for every number but the most
negative one, `hex_to_ascii` for the numbers in which no digit but the last is 10. -/
theorem legacy_printers_iff (n : Int32) :
    (intToAscii n = itoa n.toInt64 10 ↔ n ≠ Int32.minValue) ∧
    (hexToAscii n [] = [ch '0', ch 'x'] ++ numeral 16 n.toUInt32.toNat ↔
      ∀ k, 1 ≤ k → k ≤ 7 → n.toUInt32.toNat / 16 ^ k % 16 ≠ 10) := by
  refine ⟨intToAscii_eq_iff n, ?_⟩
  rw [hexToAscii_eq_iff, ten_mem_upperNibbles]
  exact ⟨fun h k h1 h7 hten => h ⟨k, ⟨h1, h7⟩, hten⟩, fun h ⟨k, hk, hten⟩ => h k hk.1 hk.2 hten⟩

/-- Of the most negative number `int_to_ascii` makes `-(`, and of 160 `hex_to_ascii` makes
`0x:0`. -/
theorem not_legacy_printers :
    ¬∀ n : Int32, intToAscii n = itoa n.toInt64 10 ∧
      hexToAscii n [] = [ch '0', ch 'x'] ++ numeral 16 n.toUInt32.toNat := by
  intro h
  exact (hexToAscii_eq_iff 160).mp (h 160).2 (by decide)

end Stdio

end CoolFrost
