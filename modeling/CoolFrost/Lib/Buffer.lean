import CoolFrost.Lib.Program
import CoolFrost.Lib.Bytes

/-!
# Reading inside a buffer

A parser that takes offsets from its input may read outside of the buffer that holds the input.
`load size b off n` reads the `n`-byte little-endian number at `off` of a buffer of `size` bytes,
and `loadBe` the big-endian one; a program goes no further when the bytes are not all inside, just
as it does in a loop without end.  A program that returns has therefore only read inside of its
buffers.
-/

namespace Bytes

/-- The little-endian number in the `n` bytes at `off`. -/
def leNat (b : Bytes) (off : ℕ) : ℕ → ℕ
  | 0 => 0
  | n + 1 => (b off).toNat + 256 * leNat b (off + 1) n

lemma leNat_lt (b : Bytes) (off n : ℕ) : leNat b off n < 256 ^ n := by
  induction n generalizing off with
  | zero => exact Nat.one_pos
  | succ n ih =>
    have hbyte := (b off).toNat_lt
    have hrest := ih (off + 1)
    rw [leNat, Nat.pow_succ]
    omega

/-- A number depends on its bytes only. -/
lemma leNat_congr {b b' : Bytes} {off off' n : ℕ} (h : ∀ i < n, b (off + i) = b' (off' + i)) :
    leNat b off n = leNat b' off' n := by
  induction n generalizing off off' with
  | zero => rfl
  | succ n ih =>
    have hrest : leNat b (off + 1) n = leNat b' (off' + 1) n := ih fun i hi => by
      have := h (1 + i) (by omega)
      simpa only [Nat.add_assoc] using this
    rw [leNat, leNat, hrest, show b off = b' off' by simpa using h 0 (Nat.succ_pos n)]

/-- The big-endian number in the `n` bytes at `off`. -/
def beNat (b : Bytes) (off : ℕ) : ℕ → ℕ
  | 0 => 0
  | n + 1 => (b off).toNat * 256 ^ n + beNat b (off + 1) n

lemma beNat_lt (b : Bytes) (off n : ℕ) : beNat b off n < 256 ^ n := by
  induction n generalizing off with
  | zero => exact Nat.one_pos
  | succ n ih =>
    have hbyte : (b off).toNat * 256 ^ n ≤ 255 * 256 ^ n :=
      Nat.mul_le_mul_right _ (Nat.lt_succ_iff.mp (b off).toNat_lt)
    have hrest := ih (off + 1)
    rw [beNat, Nat.pow_succ]
    omega

/-- A number depends on its bytes only. -/
lemma beNat_congr {b b' : Bytes} {off off' n : ℕ} (h : ∀ i < n, b (off + i) = b' (off' + i)) :
    beNat b off n = beNat b' off' n := by
  induction n generalizing off off' with
  | zero => rfl
  | succ n ih =>
    have hrest : beNat b (off + 1) n = beNat b' (off' + 1) n := ih fun i hi => by
      have := h (1 + i) (by omega)
      simpa only [Nat.add_assoc] using this
    rw [beNat, beNat, hrest, show b off = b' off' by simpa using h 0 (Nat.succ_pos n)]

/-- A number is put together from its upper and its lower bytes. -/
lemma beNat_add (b : Bytes) (off m n : ℕ) :
    beNat b off (m + n) = beNat b off m * 256 ^ n + beNat b (off + m) n := by
  induction m generalizing off with
  | zero => rw [Nat.zero_add, beNat, Nat.zero_mul, Nat.zero_add, Nat.add_zero]
  | succ m ih =>
    have hoff : off + (m + 1) = off + 1 + m := by omega
    rw [Nat.succ_add, beNat, beNat, ih, hoff, Nat.add_mul, Nat.mul_assoc, ← Nat.pow_add]
    omega

/-- Positions of one block of `c` bytes. -/
lemma div_mod_add {o j c : ℕ} (h : o % c + j < c) : (o + j) / c = o / c ∧
    (o + j) % c = o % c + j := by
  have heq : o + j = c * (o / c) + (o % c + j) := by
    rw [← Nat.add_assoc, Nat.div_add_mod]
  constructor
  · rw [heq, Nat.mul_add_div (by omega), Nat.div_eq_of_lt h, Nat.add_zero]
  · rw [heq, Nat.mul_add_mod, Nat.mod_eq_of_lt h]

end Bytes

namespace Program

variable {σ : Type}

/-- The `len` bytes at `off` of a buffer of `size` bytes are about to be accessed. -/
def inside (size off len : ℕ) : Program σ PUnit :=
  if off + len ≤ size then pure PUnit.unit else fun _ => none

@[simp] lemma wp_inside (size off len : ℕ) (Q : PUnit → σ → Prop) (s : σ) :
    wp (inside size off len) Q s ↔ off + len ≤ size ∧ Q PUnit.unit s := by
  by_cases h : off + len ≤ size
  · rw [inside, if_pos h, wp_pure, and_iff_right h]
  · rw [inside, if_neg h]
    exact ⟨fun ⟨_, _, hm, _⟩ => absurd hm (by simp), fun hQ => absurd hQ.1 h⟩

@[simp] lemma wlp_inside (size off len : ℕ) (Q : PUnit → σ → Prop) (s : σ) :
    wlp (inside size off len) Q s ↔ (off + len ≤ size → Q PUnit.unit s) := by
  by_cases h : off + len ≤ size
  · rw [inside, if_pos h, wlp_pure, forall_prop_of_true h]
  · rw [inside, if_neg h]
    exact ⟨fun _ hle => absurd hle h, fun _ _ _ hm => absurd hm (by simp)⟩

/-- Read the byte at `off` of a buffer of `size` bytes. -/
def loadByte (size : ℕ) (b : Bytes) (off : ℕ) : Program σ UInt8 := do
  inside size off 1
  return b off

@[simp] lemma wp_loadByte (size : ℕ) (b : Bytes) (off : ℕ) (Q : UInt8 → σ → Prop) (s : σ) :
    wp (loadByte size b off) Q s ↔ off < size ∧ Q (b off) s := by
  rw [loadByte, wp_bind, wp_inside, wp_pure, Nat.add_one_le_iff]

@[simp] lemma wlp_loadByte (size : ℕ) (b : Bytes) (off : ℕ) (Q : UInt8 → σ → Prop) (s : σ) :
    wlp (loadByte size b off) Q s ↔ (off < size → Q (b off) s) := by
  rw [loadByte, wlp_bind, wlp_inside, wlp_pure, Nat.add_one_le_iff]

/-- Read the `n`-byte number at `off` of a buffer of `size` bytes. -/
def load (size : ℕ) (b : Bytes) (off n : ℕ) : Program σ ℕ := do
  inside size off n
  return Bytes.leNat b off n

@[simp] lemma wp_load (size : ℕ) (b : Bytes) (off n : ℕ) (Q : ℕ → σ → Prop) (s : σ) :
    wp (load size b off n) Q s ↔ off + n ≤ size ∧ Q (Bytes.leNat b off n) s := by
  rw [load, wp_bind, wp_inside, wp_pure]

/-- Read the `n`-byte big-endian number at `off` of a buffer of `size` bytes. -/
def loadBe (size : ℕ) (b : Bytes) (off n : ℕ) : Program σ ℕ := do
  inside size off n
  return Bytes.beNat b off n

@[simp] lemma wp_loadBe (size : ℕ) (b : Bytes) (off n : ℕ) (Q : ℕ → σ → Prop) (s : σ) :
    wp (loadBe size b off n) Q s ↔ off + n ≤ size ∧ Q (Bytes.beNat b off n) s := by
  rw [loadBe, wp_bind, wp_inside, wp_pure]

end Program
