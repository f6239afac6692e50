import CoolFrost.Lib.Numeral
import CoolFrost.Libc.Printf

/-!
# Numbers as text

`itoa` takes a signed number of 64 bits and writes the numeral of its magnitude, with a sign in base
10 only.  The conversions of `vsnprintf` hand it unsigned numbers all the same, so those from 2⁶³ on
are printed as if they were negative.
-/

namespace CoolFrost

namespace Stdio

/-- The character of a digit. -/
def digitChar (d : ℕ) : UInt8 := digits.getD d 0

/-- The numeral of `n` in a base, in lower case. -/
def numeral (base n : ℕ) : List UInt8 := (Numeral.digits base n).map digitChar

/-- The digits in upper case. -/
def upperDigits : List UInt8 :=
  ['0', '1', '2', '3', '4', '5', '6', '7', '8', '9', 'A', 'B', 'C', 'D', 'E', 'F'].map ch

/-- The numeral of `n` in base 16, in upper case. -/
def upperHex (n : ℕ) : List UInt8 := (Numeral.digits 16 n).map fun d => upperDigits.getD d 0

/-! ## Digits -/

lemma digitTable_add : ∀ d < 36, digitTable.getD (35 + d) 0 = digitChar d := by decide

lemma digitTable_sub : ∀ d < 36, digitTable.getD (35 - d) 0 = digitChar d := by decide

lemma idxOf_digitChar : ∀ d < 36, digits.idxOf (digitChar d) = d := by decide

lemma digitChar_ne : ∀ d < 36, digitChar d ≠ 0 ∧ digitChar d ≠ ch '-' := by decide

lemma toupper_digitChar : ∀ d < 16, toupper (digitChar d) = upperDigits.getD d 0 := by decide

/-- A remainder of either sign finds its digit in the table. -/
lemma digitTable_tmod {b : ℕ} (hb : 1 < b) (hb36 : b ≤ 36) (v : ℤ) :
    digitTable.getD (35 + v.tmod b).toNat 0 = digitChar (v.natAbs % b) := by
  have hlt : v.natAbs % b < 36 := (Nat.mod_lt _ (by omega)).trans_le hb36
  rcases Int.natAbs_eq v with hv | hv
  · rw [hv, Int.natAbs_natCast, ← Int.ofNat_tmod, ← digitTable_add _ hlt]
    congr 1
  · rw [hv, Int.neg_tmod, Int.natAbs_neg, Int.natAbs_natCast, ← Int.ofNat_tmod,
      ← digitTable_sub _ hlt]
    congr 1
    omega

/-- The loop of `itoa` writes the numeral of the magnitude, the last digit first. -/
lemma itoaLoop_eq {b : ℕ} (hb : 1 < b) (hb36 : b ≤ 36) {n : ℕ} {v : ℤ}
    (h : v.natAbs < b ^ n) (hn : 0 < n) :
    (itoaLoop b n v).reverse = numeral b v.natAbs := by
  rw [List.reverse_eq_iff, numeral, ← List.map_reverse]
  induction n generalizing v with
  | zero => exact absurd hn (Nat.lt_irrefl 0)
  | succ n ih =>
    have hdiv : (v.tdiv b).natAbs = v.natAbs / b := Int.natAbs_tdiv v b
    rw [itoaLoop, Numeral.reverse_digits hb, List.map_cons, digitTable_tmod hb hb36]
    refine congrArg₂ List.cons rfl ?_
    by_cases hzero : v.natAbs / b = 0
    · rw [if_pos (Int.natAbs_eq_zero.mp (hdiv.trans hzero)), if_pos hzero, List.map_nil]
    · rw [if_neg (fun h0 => hzero (hdiv.symm.trans (Int.natAbs_eq_zero.mpr h0))),
        if_neg hzero, ← hdiv]
      have hpos : 0 < n := by
        by_contra h0
        rw [Nat.eq_zero_of_not_pos h0, Nat.zero_add, Nat.pow_one] at h
        exact hzero (Nat.div_eq_of_lt h)
      refine ih ?_ hpos
      rw [hdiv, Nat.div_lt_iff_lt_mul (by omega), ← Nat.pow_succ]
      exact h

/-- `itoa` writes the numeral of the magnitude, with a sign in base 10. -/
lemma itoa_eq {b : ℕ} (hb : 1 < b) (hb36 : b ≤ 36) (v : Int64) :
    itoa v b =
      (if v < 0 ∧ b = 10 then [ch '-'] else []) ++ numeral b v.toInt.natAbs := by
  have hlow := Int64.le_toInt v
  have hhigh := Int64.toInt_lt v
  have hpow : 2 ^ 64 ≤ b ^ 64 := Nat.pow_le_pow_left hb 64
  have hlt : v.toInt.natAbs < 2 ^ 64 := by omega
  have hbase : ¬((b : ℤ) < 2 ∨ 36 < (b : ℤ)) := by omega
  have hsign : v < 0 ∧ (b : ℤ) = 10 ↔ v < 0 ∧ b = 10 := and_congr_right fun _ => by omega
  rw [itoa, if_neg hbase, itoaLoop_eq hb hb36 (hlt.trans_le hpow) (by decide)]
  refine congrArg₂ (· ++ ·) ?_ rfl
  simp only [hsign]

/-- The digits can be read off a numeral. -/
lemma map_idxOf_numeral {b : ℕ} (hb : 1 < b) (hb36 : b ≤ 36) (n : ℕ) :
    (numeral b n).map (digits.idxOf ·) = Numeral.digits b n := by
  rw [numeral, List.map_map]
  refine (List.map_congr_left fun d hd => ?_).trans (List.map_id _)
  exact idxOf_digitChar d ((Numeral.digits_lt hb n d hd).trans_le hb36)

lemma numeral_injective {b m n : ℕ} (hb : 1 < b) (hb36 : b ≤ 36)
    (h : numeral b m = numeral b n) : m = n := by
  refine Numeral.digits_injective hb ?_
  rw [← map_idxOf_numeral hb hb36, h, map_idxOf_numeral hb hb36]

/-- A numeral has no terminator and no sign in it. -/
lemma not_mem_numeral {b : ℕ} (hb : 1 < b) (hb36 : b ≤ 36) (n : ℕ) :
    0 ∉ numeral b n ∧ ch '-' ∉ numeral b n := by
  constructor
  · intro h
    obtain ⟨d, hd, h0⟩ := List.mem_map.mp h
    exact (digitChar_ne d ((Numeral.digits_lt hb n d hd).trans_le hb36)).1 h0
  · intro h
    obtain ⟨d, hd, h0⟩ := List.mem_map.mp h
    exact (digitChar_ne d ((Numeral.digits_lt hb n d hd).trans_le hb36)).2 h0

/-- What `itoa` writes has no terminator in it. -/
lemma zero_not_mem_itoa {b : ℕ} (hb : 1 < b) (hb36 : b ≤ 36) (v : Int64) :
    0 ∉ itoa v b := by
  rw [itoa_eq hb hb36, List.mem_append, not_or]
  refine ⟨?_, (not_mem_numeral hb hb36 _).1⟩
  split_ifs <;> decide

/-- The digits of a numeral in base 16, in upper case. -/
lemma map_toupper_numeral (n : ℕ) : (numeral 16 n).map toupper = upperHex n := by
  rw [numeral, List.map_map, upperHex]
  refine List.map_congr_left fun d hd => ?_
  exact toupper_digitChar d (Numeral.digits_lt (by decide) n d hd)

lemma idxOf_upperDigit : ∀ d < 16, upperDigits.idxOf (upperDigits.getD d 0) = d ∧
    upperDigits.getD d 0 ≠ 0 := by decide

lemma upperHex_injective {m n : ℕ} (h : upperHex m = upperHex n) : m = n := by
  have hread : ∀ k, (upperHex k).map (upperDigits.idxOf ·) = Numeral.digits 16 k := by
    intro k
    rw [upperHex, List.map_map]
    refine (List.map_congr_left fun d hd => ?_).trans (List.map_id _)
    exact (idxOf_upperDigit d (Numeral.digits_lt (by decide) k d hd)).1
  refine Numeral.digits_injective (b := 16) (by decide) ?_
  rw [← hread, h, hread]

lemma zero_not_mem_upperHex (n : ℕ) : 0 ∉ upperHex n := by
  intro h
  obtain ⟨d, hd, h0⟩ := List.mem_map.mp h
  exact (idxOf_upperDigit d (Numeral.digits_lt (by decide) n d hd)).2 h0

/-! ## Unsigned numbers -/

/-- The magnitude that `itoa` makes of an unsigned number. -/
def printed (v : UInt64) : ℕ := if v.toNat < 2 ^ 63 then v.toNat else 2 ^ 64 - v.toNat

lemma toInt_toInt64 (v : UInt64) :
    v.toInt64.toInt = if v.toNat < 2 ^ 63 then (v.toNat : ℤ) else v.toNat - 2 ^ 64 := by
  have h := BitVec.toInt_eq_toNat_cond v.toBitVec
  change v.toBitVec.toInt = _
  rw [h]
  change (if 2 * v.toNat < 2 ^ 64 then (v.toNat : ℤ) else v.toNat - 2 ^ 64) = _
  split_ifs <;> first | rfl | omega

lemma natAbs_toInt64 (v : UInt64) : v.toInt64.toInt.natAbs = printed v := by
  have hlt := v.toNat_lt
  rw [toInt_toInt64, printed]
  split_ifs <;> omega

lemma toInt64_neg_iff (v : UInt64) : v.toInt64 < 0 ↔ 2 ^ 63 ≤ v.toNat := by
  have hlt := v.toNat_lt
  have h := Int64.lt_iff_toInt_lt (x := v.toInt64) (y := 0)
  rw [h, toInt_toInt64, Int64.toInt_zero]
  split_ifs <;> omega

/-- The magnitude is the number itself up to 2⁶³, the one number that is its own negative. -/
lemma printed_eq_iff (v : UInt64) : printed v = v.toNat ↔ v.toNat ≤ 2 ^ 63 := by
  have hlt := v.toNat_lt
  unfold printed
  split_ifs <;> omega

/-- A number of 32 bits is not negative as one of 64 bits. -/
lemma zext_eq (w : UInt32) : zext w = w.toUInt64.toInt64 ∧ w.toUInt64.toNat = w.toNat :=
  ⟨rfl, UInt32.toNat_toUInt64 w⟩

/-- What `itoa` makes of an unsigned number in a base other than 10. -/
lemma itoa_unsigned {b : ℕ} (hb : 1 < b) (hb36 : b ≤ 36) (hten : b ≠ 10) (v : UInt64) :
    itoa v.toInt64 b = numeral b (printed v) := by
  rw [itoa_eq hb hb36, if_neg (fun h => hten h.2), natAbs_toInt64, List.nil_append]

/-- What `itoa` makes of an unsigned number in base 10. -/
lemma itoa_unsigned_ten (v : UInt64) : itoa v.toInt64 10 =
    (if 2 ^ 63 ≤ v.toNat then [ch '-'] else []) ++ numeral 10 (printed v) := by
  have h := itoa_eq (b := 10) (by decide) (by decide) v.toInt64
  rw [natAbs_toInt64] at h
  refine h.trans (congrArg₂ (· ++ ·) ?_ rfl)
  simp only [toInt64_neg_iff, and_true]

/-- In base 10, the numeral of an unsigned number is printed exactly if the number is not negative
as a signed one. -/
lemma itoa_unsigned_ten_eq_iff (v : UInt64) :
    itoa v.toInt64 10 = numeral 10 v.toNat ↔ v.toNat < 2 ^ 63 := by
  rw [itoa_unsigned_ten]
  by_cases h : 2 ^ 63 ≤ v.toNat
  · rw [if_pos h]
    refine iff_of_false (fun heq => ?_) (by omega)
    -- A numeral does not begin with a sign.
    refine (not_mem_numeral (b := 10) (by decide) (by decide) v.toNat).2 ?_
    rw [← heq]
    exact List.mem_cons_self
  · have hprinted : printed v = v.toNat := (printed_eq_iff v).mpr (by omega)
    rw [if_neg h, List.nil_append, hprinted]
    exact iff_of_true rfl (by omega)

/-- In another base it is printed exactly up to 2⁶³. -/
lemma itoa_unsigned_eq_iff {b : ℕ} (hb : 1 < b) (hb36 : b ≤ 36) (hten : b ≠ 10)
    (v : UInt64) : itoa v.toInt64 b = numeral b v.toNat ↔ v.toNat ≤ 2 ^ 63 := by
  rw [itoa_unsigned hb hb36 hten, ← printed_eq_iff]
  exact ⟨numeral_injective hb hb36, congrArg _⟩

/-! ## The conversions of vsnprintf -/

/-- A directive without flags and width. -/
def conversion (isLong : Bool) (spec : Spec) : Directive where
  zeros := 0
  minuses := 0
  width := []
  isLong := isLong
  spec := spec
  width_digits := by simp

/-- The directive prints the text `t` for the argument. -/
def Renders (d : Directive) (a : Arg) (t : List UInt8) : Prop :=
  ∀ n, t.length < n → vsnprintf n (text [.directive d]) [a] = some (t ++ [0], t.length, [])

/-- A conversion prints what is made for its specifier, and nothing else. -/
lemma renders_iff {isLong : Bool} {spec : Spec} {a : Arg} {out : List UInt8}
    (h : vsSpec spec.char isLong [a] = some (out, [])) (h0 : 0 ∉ out) (t : List UInt8) :
    Renders (conversion isLong spec) a t ↔ out = t := by
  have hrun : vsFrom (text [.directive (conversion isLong spec)]).length
      (text [.directive (conversion isLong spec)]) [a] = some (out, []) := by
    have htext : text [.directive (conversion isLong spec)] =
        ch '%' :: ((conversion isLong spec).options ++ (conversion isLong spec).tail) ++ [] := rfl
    have hnil : ∀ n, vsFrom n [] [] = some ([], []) := fun n => by cases n <;> rfl
    rw [htext, List.append_nil, List.length_cons, ← List.append_nil (ch '%' :: _), vsFrom_plain rfl]
    change (vsSpec spec.char isLong [a]).bind _ = _
    rw [h, Option.bind_some, hnil, emit_some, cstr_of_nonzero h0, List.append_nil]
  have hvs : ∀ n, vsnprintf n (text [.directive (conversion isLong spec)]) [a] =
      some (if n = 0 then [] else out.take (n - 1) ++ [0], out.length, []) := by
    intro n
    rw [vsnprintf, hrun]
    rfl
  constructor
  · intro ht
    have heq := ht (t.length + out.length + 1) (by omega)
    rw [hvs, if_neg (by omega), List.take_of_length_le (by omega)] at heq
    simpa using congrArg (Option.map Prod.fst) heq
  · rintro rfl n hn
    rw [hvs, if_neg (by omega), List.take_of_length_le (by omega)]

/-- Which unsigned numbers the conversions print as numerals: every one of 32 bits; of those of 64
bits, the ones below 2⁶³ in base 10, and up to 2⁶³ in bases 8 and 16. -/
theorem unsigned_renders_iff (v : UInt64) (w : UInt32) (str : Option CStr) :
    (Renders (conversion true .u) (.word64 v) (numeral 10 v.toNat) ↔ v.toNat < 2 ^ 63) ∧
    (Renders (conversion true .x) (.word64 v) (numeral 16 v.toNat) ↔ v.toNat ≤ 2 ^ 63) ∧
    (Renders (conversion true .X) (.word64 v) (upperHex v.toNat) ↔ v.toNat ≤ 2 ^ 63) ∧
    (Renders (conversion true .o) (.word64 v) (numeral 8 v.toNat) ↔ v.toNat ≤ 2 ^ 63) ∧
    (Renders (conversion false .p) (.ptr v str) ([ch '0', ch 'x'] ++ numeral 16 v.toNat) ↔
      v.toNat ≤ 2 ^ 63) ∧
    Renders (conversion false .u) (.word32 w) (numeral 10 w.toNat) ∧
    Renders (conversion false .x) (.word32 w) (numeral 16 w.toNat) ∧
    Renders (conversion false .X) (.word32 w) (upperHex w.toNat) ∧
    Renders (conversion false .o) (.word32 w) (numeral 8 w.toNat) := by
  have h10 : ∀ u, 0 ∉ itoa u 10 := zero_not_mem_itoa (b := 10) (by decide) (by decide)
  have h16 : ∀ u, 0 ∉ itoa u 16 := zero_not_mem_itoa (b := 16) (by decide) (by decide)
  have h8 : ∀ u, 0 ∉ itoa u 8 := zero_not_mem_itoa (b := 8) (by decide) (by decide)
  have hhex : ∀ u : UInt64, itoa u.toInt64 16 = numeral 16 u.toNat ↔ u.toNat ≤ 2 ^ 63 :=
    itoa_unsigned_eq_iff (b := 16) (by decide) (by decide) (by decide)
  have hoct : ∀ u : UInt64, itoa u.toInt64 8 = numeral 8 u.toNat ↔ u.toNat ≤ 2 ^ 63 :=
    itoa_unsigned_eq_iff (b := 8) (by decide) (by decide) (by decide)
  -- In upper case the digits of `itoa` are capitals.
  have hmap : ∀ u : UInt64, (cstr (itoa u.toInt64 16)).map toupper = upperHex (printed u) := by
    intro u
    have hitoa := itoa_unsigned (b := 16) (by decide) (by decide) (by decide) u
    rw [cstr_of_nonzero (h16 _)]
    exact (congrArg (List.map toupper) hitoa).trans (map_toupper_numeral _)
  have hupper : ∀ u : UInt64, (cstr (itoa u.toInt64 16)).map toupper = upperHex u.toNat ↔
      u.toNat ≤ 2 ^ 63 := by
    intro u
    rw [hmap, ← printed_eq_iff]
    exact ⟨upperHex_injective, congrArg _⟩
  have hw : w.toUInt64.toNat < 2 ^ 63 := by
    rw [(zext_eq w).2]
    exact w.toNat_lt.trans (by decide)
  refine ⟨?_, ?_, ?_, ?_, ?_, ?_, ?_, ?_, ?_⟩
  · exact (renders_iff rfl (h10 _) _).trans (itoa_unsigned_ten_eq_iff v)
  · exact (renders_iff rfl (h16 _) _).trans (hhex v)
  · exact (renders_iff rfl ((hmap v).symm ▸ zero_not_mem_upperHex _) _).trans (hupper v)
  · exact (renders_iff rfl (h8 _) _).trans (hoct v)
  · refine (renders_iff rfl ?_ _).trans ?_
    · exact fun h => (h16 _) ((List.mem_append.mp h).resolve_left (by decide))
    · rw [List.append_cancel_left_eq]
      exact hhex v
  · rw [← (zext_eq w).2]
    exact (renders_iff rfl (h10 _) _).mpr ((itoa_unsigned_ten_eq_iff _).mpr hw)
  · rw [← (zext_eq w).2]
    exact (renders_iff rfl (h16 _) _).mpr ((hhex _).mpr hw.le)
  · rw [← (zext_eq w).2]
    exact (renders_iff rfl ((hmap _).symm ▸ zero_not_mem_upperHex _) _).mpr ((hupper _).mpr hw.le)
  · rw [← (zext_eq w).2]
    exact (renders_iff rfl (h8 _) _).mpr ((hoct _).mpr hw.le)

/-- Of the largest number of 64 bits `%lu` prints `-1`. -/
theorem not_unsigned_renders :
    ¬∀ (v : UInt64) (w : UInt32) (str : Option CStr),
      Renders (conversion true .u) (.word64 v) (numeral 10 v.toNat) ∧
      Renders (conversion true .x) (.word64 v) (numeral 16 v.toNat) ∧
      Renders (conversion true .X) (.word64 v) (upperHex v.toNat) ∧
      Renders (conversion true .o) (.word64 v) (numeral 8 v.toNat) ∧
      Renders (conversion false .p) (.ptr v str) ([ch '0', ch 'x'] ++ numeral 16 v.toNat) ∧
      Renders (conversion false .u) (.word32 w) (numeral 10 w.toNat) ∧
      Renders (conversion false .x) (.word32 w) (numeral 16 w.toNat) ∧
      Renders (conversion false .X) (.word32 w) (upperHex w.toNat) ∧
      Renders (conversion false .o) (.word32 w) (numeral 8 w.toNat) := by
  intro h
  have hlong := (h 0xFFFFFFFFFFFFFFFF 0 none).1
  have h10 := zero_not_mem_itoa (b := 10) (by decide) (by decide)
    (0xFFFFFFFFFFFFFFFF : UInt64).toInt64
  have heq := (renders_iff rfl h10 _).mp hlong
  exact absurd ((itoa_unsigned_ten_eq_iff _).mp heq) (by decide)

end Stdio

end CoolFrost
