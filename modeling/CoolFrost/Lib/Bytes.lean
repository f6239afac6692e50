import Mathlib.Tactic

/-!
# Byte memories

A `Bytes` is a total map from addresses to bytes; a buffer, a sector and a whole disk are all of
this type.  `blit` copies a window of one memory over another, `le16`/`le32` read little-endian
numbers and `put16`/`put32` store them.  Every lemma says either that a field is untouched by a
`blit` next to it or that it is what the `blit` brought in, so that the layout arguments of a
development are inequalities between addresses.
-/

/-- A byte memory. -/
abbrev Bytes := ℕ → UInt8

namespace Bytes

/-- The memory `dst` with the `len` bytes at `off` replaced by the first `len` bytes of `src`. -/
def blit (dst : Bytes) (off : ℕ) (src : Bytes) (len : ℕ) : Bytes := fun i =>
  if off ≤ i ∧ i < off + len then src (i - off) else dst i

/-- The first `len` bytes of `b`, followed by zeros. -/
def clip (len : ℕ) (b : Bytes) : Bytes := fun i => if i < len then b i else 0

/-- The memory `b` seen from the address `off` on. -/
def shift (b : Bytes) (off : ℕ) : Bytes := fun i => b (off + i)

/-- The all-zero memory. -/
def zeros : Bytes := fun _ => 0

/-- The little-endian 16-bit number at `off`. -/
def le16 (b : Bytes) (off : ℕ) : ℕ := (b off).toNat + 256 * (b (off + 1)).toNat

/-- The little-endian 32-bit number at `off`. -/
def le32 (b : Bytes) (off : ℕ) : ℕ := le16 b off + 65536 * le16 b (off + 2)

/-- The little-endian bytes of `v`. -/
def ofNat (v : ℕ) : Bytes := fun i => UInt8.ofNat (v / 256 ^ i)

/-- Store one byte. -/
def put8 (b : Bytes) (off : ℕ) (v : UInt8) : Bytes := blit b off (fun _ => v) 1

/-- Store `v` as a little-endian 16-bit number. -/
def put16 (b : Bytes) (off v : ℕ) : Bytes := blit b off (ofNat v) 2

/-- Store `v` as a little-endian 32-bit number. -/
def put32 (b : Bytes) (off v : ℕ) : Bytes := blit b off (ofNat v) 4

/-- The list of the `len` bytes at `off`. -/
def slice (b : Bytes) (off len : ℕ) : List UInt8 := (List.range len).map fun i => b (off + i)

/-- A memory that starts with the bytes of a list. -/
def ofList (l : List UInt8) : Bytes := fun i => l.getD i 0

/-! ## Copies -/

lemma blit_of_mem {dst src : Bytes} {off len i : ℕ} (h : off ≤ i ∧ i < off + len) :
    blit dst off src len i = src (i - off) := if_pos h

lemma blit_of_not_mem {dst src : Bytes} {off len i : ℕ} (h : i < off ∨ off + len ≤ i) :
    blit dst off src len i = dst i := if_neg (by omega)

/-- A copy to the start of a buffer. -/
lemma blit_start {dst src : Bytes} {len i : ℕ} (h : i < len) : blit dst 0 src len i = src i := by
  rw [blit_of_mem ⟨Nat.zero_le _, by omega⟩, Nat.sub_zero]

@[simp] lemma blit_zero_len (dst src : Bytes) (off : ℕ) : blit dst off src 0 = dst := by
  funext i
  exact blit_of_not_mem (by omega)

/-- Only the bytes inside the window of the source count. -/
lemma blit_congr {dst src src' : Bytes} {off len : ℕ} (h : ∀ i < len, src i = src' i) :
    blit dst off src len = blit dst off src' len := by
  funext i
  by_cases hi : off ≤ i ∧ i < off + len
  · rw [blit_of_mem hi, blit_of_mem hi, h _ (by omega)]
  · rw [blit_of_not_mem (by omega), blit_of_not_mem (by omega)]

/-- Two adjacent copies from one source are one copy. -/
lemma blit_append (dst src : Bytes) (off len len' : ℕ) :
    blit (blit dst off src len) (off + len) (shift src len) len' =
      blit dst off src (len + len') := by
  funext i
  simp only [blit, shift]
  split_ifs <;> first | rfl | omega | skip
  congr 1
  omega

/-- Copying a window back over itself changes nothing. -/
lemma blit_self {dst src : Bytes} {off len : ℕ} (h : ∀ i < len, src i = dst (off + i)) :
    blit dst off src len = dst := by
  funext i
  by_cases hi : off ≤ i ∧ i < off + len
  · rw [blit_of_mem hi, h _ (by omega)]
    congr 1
    omega
  · exact blit_of_not_mem (by omega)

lemma clip_of_lt {len : ℕ} {b : Bytes} {i : ℕ} (h : i < len) : clip len b i = b i := if_pos h

lemma clip_of_ge {len : ℕ} {b : Bytes} {i : ℕ} (h : len ≤ i) : clip len b i = 0 :=
  if_neg (by omega)

/-- Two clipped memories agree as soon as they agree on the bytes kept. -/
lemma clip_congr {len : ℕ} {b b' : Bytes} (h : ∀ i < len, b i = b' i) :
    clip len b = clip len b' := by
  funext i
  by_cases hi : i < len
  · rw [clip_of_lt hi, clip_of_lt hi, h i hi]
  · rw [clip_of_ge (by omega), clip_of_ge (by omega)]

@[simp] lemma clip_clip (len : ℕ) (b : Bytes) : clip len (clip len b) = clip len b :=
  clip_congr fun _ hi => clip_of_lt hi

lemma shift_shift (b : Bytes) (off off' : ℕ) : shift (shift b off) off' = shift b (off + off') := by
  funext i
  simp only [shift, Nat.add_assoc]

/-- A copy inside of a copied window. -/
lemma blit_inside {b x src : Bytes} {a n off len : ℕ} (h : off + len ≤ n) :
    blit b a (blit x off src len) n = blit (blit b a x n) (a + off) src len := by
  funext i
  by_cases hi : a ≤ i ∧ i < a + n
  · rw [blit_of_mem hi]
    by_cases ho : a + off ≤ i ∧ i < a + off + len
    · rw [blit_of_mem (by omega), blit_of_mem ho]
      congr 1
      omega
    · rw [blit_of_not_mem (by omega), blit_of_not_mem (by omega), blit_of_mem hi]
  · rw [blit_of_not_mem (by omega), blit_of_not_mem (by omega), blit_of_not_mem (by omega)]

/-- Reading a window and writing it back changes nothing. -/
lemma blit_clip_shift (b : Bytes) (a n : ℕ) : blit b a (clip n (shift b a)) n = b :=
  blit_self fun _ hi => clip_of_lt hi

/-- Reading a window, changing a part of it and writing it back changes that part only. -/
lemma blit_readModify {b src : Bytes} {a n off len : ℕ} (h : off + len ≤ n) :
    blit b a (blit (clip n (shift b a)) off src len) n = blit b (a + off) src len := by
  rw [blit_inside h, blit_clip_shift]

/-! ## Numbers -/

lemma le16_lt (b : Bytes) (off : ℕ) : le16 b off < 65536 := by
  have h₀ := (b off).toNat_lt
  have h₁ := (b (off + 1)).toNat_lt
  unfold le16
  omega

lemma le32_lt (b : Bytes) (off : ℕ) : le32 b off < 2 ^ 32 := by
  have h₀ := le16_lt b off
  have h₁ := le16_lt b (off + 2)
  unfold le32
  omega

/-- A 16-bit field depends on its two bytes only. -/
lemma le16_congr {b b' : Bytes} {off off' : ℕ} (h : ∀ i < 2, b (off + i) = b' (off' + i)) :
    le16 b off = le16 b' off' := by
  have h₀ := h 0 (by omega)
  have h₁ := h 1 (by omega)
  simp only [Nat.add_zero] at h₀
  rw [le16, le16, h₀, h₁]

/-- A 32-bit field depends on its four bytes only. -/
lemma le32_congr {b b' : Bytes} {off off' : ℕ} (h : ∀ i < 4, b (off + i) = b' (off' + i)) :
    le32 b off = le32 b' off' := by
  have hlo : le16 b off = le16 b' off' := le16_congr fun i hi => h i (by omega)
  have hhi : le16 b (off + 2) = le16 b' (off' + 2) :=
    le16_congr fun i hi => by simpa only [Nat.add_assoc] using h (2 + i) (by omega)
  rw [le32, le32, hlo, hhi]

/-- A 16-bit number has only one pair of bytes. -/
lemma le16_inj {b b' : Bytes} {off off' : ℕ} (h : le16 b off = le16 b' off') :
    ∀ i < 2, b (off + i) = b' (off' + i) := by
  unfold le16 at h
  have h₀ := (b off).toNat_lt
  have h₀' := (b' off').toNat_lt
  intro i hi
  refine UInt8.toNat_inj.mp ?_
  obtain rfl | rfl : i = 0 ∨ i = 1 := by omega
  · rw [Nat.add_zero, Nat.add_zero]
    omega
  · omega

/-- A 32-bit number has only one string of four bytes. -/
lemma le32_inj {b b' : Bytes} {off off' : ℕ} (h : le32 b off = le32 b' off') :
    ∀ i < 4, b (off + i) = b' (off' + i) := by
  unfold le32 at h
  have h₀ := le16_lt b off
  have h₀' := le16_lt b' off'
  have hlo := @le16_inj b b' off off' (by omega)
  have hhi := @le16_inj b b' (off + 2) (off' + 2) (by omega)
  intro i hi
  by_cases hlt : i < 2
  · exact hlo i hlt
  · have h2 := hhi (i - 2) (by omega)
    rwa [Nat.add_assoc, Nat.add_assoc, Nat.add_sub_cancel' (Nat.le_of_not_lt hlt)] at h2

/-- A 16-bit field away from a copied window is untouched. -/
lemma le16_blit_of_disjoint {dst src : Bytes} {off len o : ℕ} (h : o + 2 ≤ off ∨ off + len ≤ o) :
    le16 (blit dst off src len) o = le16 dst o :=
  le16_congr fun _ _ => blit_of_not_mem (by omega)

/-- A 32-bit field away from a copied window is untouched. -/
lemma le32_blit_of_disjoint {dst src : Bytes} {off len o : ℕ} (h : o + 4 ≤ off ∨ off + len ≤ o) :
    le32 (blit dst off src len) o = le32 dst o :=
  le32_congr fun _ _ => blit_of_not_mem (by omega)

/-- A 16-bit field inside a copied window is the source's. -/
lemma le16_blit_of_mem {dst src : Bytes} {off len o : ℕ} (h : off ≤ o ∧ o + 2 ≤ off + len) :
    le16 (blit dst off src len) o = le16 src (o - off) :=
  le16_congr fun i _ => by rw [blit_of_mem (by omega)]; congr 1; omega

/-- A 32-bit field inside a copied window is the source's. -/
lemma le32_blit_of_mem {dst src : Bytes} {off len o : ℕ} (h : off ≤ o ∧ o + 4 ≤ off + len) :
    le32 (blit dst off src len) o = le32 src (o - off) :=
  le32_congr fun i _ => by rw [blit_of_mem (by omega)]; congr 1; omega

lemma le32_clip {len : ℕ} {b : Bytes} {o : ℕ} (h : o + 4 ≤ len) : le32 (clip len b) o = le32 b o :=
  le32_congr fun _ _ => clip_of_lt (by omega)

lemma le16_clip {len : ℕ} {b : Bytes} {o : ℕ} (h : o + 2 ≤ len) : le16 (clip len b) o = le16 b o :=
  le16_congr fun _ _ => clip_of_lt (by omega)

lemma le32_shift (b : Bytes) (off o : ℕ) : le32 (shift b off) o = le32 b (off + o) :=
  le32_congr fun i _ => by simp only [shift, Nat.add_assoc]

lemma le16_shift (b : Bytes) (off o : ℕ) : le16 (shift b off) o = le16 b (off + o) :=
  le16_congr fun i _ => by simp only [shift, Nat.add_assoc]

/-- The two bytes stored for `v` read back as `v`, cut to 16 bits. -/
lemma le16_ofNat (v : ℕ) : le16 (ofNat v) 0 = v % 65536 := by
  simp only [le16, ofNat, UInt8.toNat_ofNat', pow_zero, Nat.div_one, zero_add, pow_one]
  omega

/-- The upper two bytes stored for `v`. -/
lemma le16_ofNat_two (v : ℕ) : le16 (ofNat v) 2 = v / 65536 % 65536 := by
  simp only [le16, ofNat, UInt8.toNat_ofNat']
  omega

/-- The four bytes stored for `v` read back as `v`, cut to 32 bits. -/
lemma le32_ofNat (v : ℕ) : le32 (ofNat v) 0 = v % 2 ^ 32 := by
  rw [le32, le16_ofNat, le16_ofNat_two]
  omega

lemma le16_put16_self (b : Bytes) (off v : ℕ) : le16 (put16 b off v) off = v % 65536 := by
  rw [put16, le16_blit_of_mem (by omega), Nat.sub_self, le16_ofNat]

lemma le32_put32_self (b : Bytes) (off v : ℕ) : le32 (put32 b off v) off = v % 2 ^ 32 := by
  rw [put32, le32_blit_of_mem (by omega), Nat.sub_self, le32_ofNat]

/-! ## Lists of bytes -/

@[simp] lemma length_slice (b : Bytes) (off len : ℕ) : (slice b off len).length = len := by
  simp [slice]

lemma getElem?_slice {b : Bytes} {off len i : ℕ} (h : i < len) :
    (slice b off len)[i]? = some (b (off + i)) := by
  simp [slice, h]

/-- Two slices agree when their bytes do. -/
lemma slice_congr {b b' : Bytes} {off off' len : ℕ} (h : ∀ i < len, b (off + i) = b' (off' + i)) :
    slice b off len = slice b' off' len :=
  List.map_congr_left fun i hi => h i (List.mem_range.mp hi)

lemma slice_add (b : Bytes) (off m n : ℕ) :
    slice b off (m + n) = slice b off m ++ slice b (off + m) n := by
  simp only [slice, List.range_add, List.map_append, List.map_map, Function.comp_def, Nat.add_assoc]

/-- The first byte of a slice. -/
lemma slice_succ (b : Bytes) (off n : ℕ) : slice b off (n + 1) = b off :: slice b (off + 1) n := by
  rw [Nat.add_comm n 1, slice_add]
  rfl

/-- A window that was copied to the start of a buffer. -/
lemma slice_blit_shift (dst b : Bytes) (off len : ℕ) :
    slice (blit dst 0 (shift b off) len) 0 len = slice b off len :=
  slice_congr fun i hi => by
    rw [Nat.zero_add, blit_start hi]
    rfl

/-- A list of bytes that was copied to a buffer. -/
lemma slice_blit_ofList (b : Bytes) (off : ℕ) (l : List UInt8) :
    slice (blit b off (ofList l) l.length) off l.length = l := by
  refine List.ext_getElem (by simp) fun i hi _ => ?_
  rw [length_slice] at hi
  simp only [slice, List.getElem_map, List.getElem_range]
  rw [blit_of_mem (by omega), Nat.add_sub_cancel_left, ofList]
  simp [List.getD, hi]

/-- Behind a list of bytes there are zeros. -/
lemma ofList_concat_zero (l : List UInt8) : ofList (l ++ [0]) = ofList l := by
  funext i
  rw [ofList, ofList, List.getD_eq_getElem?_getD, List.getD_eq_getElem?_getD]
  rcases Nat.lt_trichotomy i l.length with hlt | rfl | hgt
  · rw [List.getElem?_append_left hlt]
  · rw [List.getElem?_concat_length, List.getElem?_eq_none le_rfl]
    rfl
  · rw [List.getElem?_eq_none hgt.le, List.getElem?_eq_none (by rwa [List.length_append])]

end Bytes
