import CoolFrost.Lib.Buffer

/-!
# Numbers as bytes

The bytes of a number in either order, and what is read where they are stored.
-/

namespace Bytes

/-- The `n` bytes of `v`, the lowest first. -/
def leBytes (n v : ℕ) : List UInt8 := slice (ofNat v) 0 n

/-- The `n` bytes of `v`, the highest first. -/
def beBytes (n v : ℕ) : List UInt8 := (List.range n).map fun i => ofNat v (n - 1 - i)

@[simp] lemma length_leBytes (n v : ℕ) : (leBytes n v).length = n := length_slice _ _ _

/-- A byte of the middle of three lists. -/
lemma ofList_append {pre l post : List UInt8} {off i : ℕ} (hoff : pre.length = off)
    (hi : i < l.length) :
    ofList (pre ++ l ++ post) (off + i) = ofList l i := by
  have hlt : pre.length + i < (pre ++ l).length := by
    rw [List.length_append]
    omega
  rw [ofList, ofList, ← hoff, List.getD_eq_getElem?_getD, List.getElem?_append_left hlt,
    List.getElem?_append_right (Nat.le_add_right _ _), Nat.add_sub_cancel_left,
    ← List.getD_eq_getElem?_getD]

lemma ofList_slice {b : Bytes} {n i : ℕ} (hi : i < n) : ofList (slice b 0 n) i = b i := by
  rw [ofList, List.getD_eq_getElem?_getD, getElem?_slice hi, Nat.zero_add]
  rfl

/-- The lower bytes of a number make up its remainder. -/
lemma leNat_ofNat (v n : ℕ) : leNat (ofNat v) 0 n = v % 256 ^ n := by
  have hgen : ∀ off, leNat (ofNat v) off n = v / 256 ^ off % 256 ^ n := by
    induction n with
    | zero => exact fun off => (Nat.mod_one _).symm
    | succ n ih =>
      intro off
      rw [leNat, ih, ofNat, UInt8.toNat_ofNat', pow_succ 256 off, ← Nat.div_div_eq_div_mul,
        pow_succ' 256 n, Nat.mod_mul]
  rw [hgen, pow_zero, Nat.div_one]

/-- A number that is stored with its lowest byte first. -/
lemma leNat_leBytes {pre post : List UInt8} {off n v : ℕ} (hoff : pre.length = off) :
    leNat (ofList (pre ++ leBytes n v ++ post)) off n = v % 256 ^ n := by
  rw [← leNat_ofNat]
  refine leNat_congr fun i hi => ?_
  rw [ofList_append hoff (by rw [length_leBytes]; exact hi), leBytes, ofList_slice hi, Nat.zero_add]

/-- A number that is stored with its highest byte first. -/
lemma beNat_beBytes (n v : ℕ) : beNat (ofList (beBytes n v)) 0 n = v % 256 ^ n := by
  have hgen : ∀ k ≤ n, beNat (ofList (beBytes n v)) (n - k) k = v % 256 ^ k := by
    intro k hk
    induction k with
    | zero => exact (Nat.mod_one _).symm
    | succ k ih =>
      have hbyte : ofList (beBytes n v) (n - (k + 1)) = ofNat v k := by
        rw [ofList, List.getD_eq_getElem?_getD, beBytes, List.getElem?_map,
          List.getElem?_range (by omega)]
        exact congrArg (ofNat v) (by omega)
      rw [beNat, hbyte, show n - (k + 1) + 1 =
        n - k by omega, ih (by omega), ofNat, UInt8.toNat_ofNat',
        pow_succ 256 k, Nat.mod_mul, Nat.mul_comm, Nat.add_comm]
  have hall := hgen n le_rfl
  rwa [Nat.sub_self] at hall

/-- The bytes of a number that has been loaded. -/
lemma ofNat_leNat (b : Bytes) (off n : ℕ) {i : ℕ} (hi : i < n) :
    ofNat (leNat b off n) i = b (off + i) := by
  induction n generalizing off i with
  | zero => exact absurd hi (Nat.not_lt_zero i)
  | succ n ih =>
    have hbyte := (b off).toNat_lt
    rw [leNat, ofNat]
    cases i with
    | zero =>
      rw [pow_zero, Nat.div_one, ← UInt8.toNat_inj, UInt8.toNat_ofNat', Nat.add_mul_mod_self_left,
        Nat.mod_eq_of_lt hbyte, Nat.add_zero]
    | succ i =>
      have hrest := ih (off + 1) (Nat.lt_of_succ_lt_succ hi)
      rw [ofNat] at hrest
      rw [pow_succ', ← Nat.div_div_eq_div_mul, Nat.add_mul_div_left _ _ (by decide),
        Nat.div_eq_of_lt hbyte, Nat.zero_add, hrest, Nat.add_assoc, Nat.add_comm 1]

/-- A number is put together from its last byte and the bytes before it. -/
lemma leNat_succ_last (b : Bytes) (off n : ℕ) :
    leNat b off (n + 1) = leNat b off n + 256 ^ n * (b (off + n)).toNat := by
  induction n generalizing off with
  | zero => simp [leNat]
  | succ n ih =>
    rw [leNat, ih, leNat, pow_succ, show off + 1 + n = off + (n + 1) by omega]
    ring

end Bytes
