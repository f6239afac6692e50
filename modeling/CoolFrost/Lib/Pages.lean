import CoolFrost.Lib.Bytes

/-!
# Pages of words

A page is 4096 bytes at an address that is a multiple of 4096.  `word b p i` is the `i`-th 64-bit
word of the page `p`; the lemmas say what is left of it when another word is stored or a page is
cleared.
-/

namespace Bytes

/-- The little-endian 64-bit number at `off`. -/
def le64 (b : Bytes) (off : ℕ) : ℕ := le32 b off + 2 ^ 32 * le32 b (off + 4)

/-- Store `v` as a little-endian 64-bit number. -/
def put64 (b : Bytes) (off v : ℕ) : Bytes := blit b off (ofNat v) 8

/-- The `i`-th 64-bit word of the page at `p`. -/
def word (b : Bytes) (p i : ℕ) : ℕ := le64 b (p + 8 * i)

/-- Store the `i`-th 64-bit word of the page at `p`. -/
def putWord (b : Bytes) (p i v : ℕ) : Bytes := put64 b (p + 8 * i) v

/-- Clear the page at `p`. -/
def clearPage (b : Bytes) (p : ℕ) : Bytes := blit b p zeros 4096

lemma le64_lt (b : Bytes) (off : ℕ) : le64 b off < 2 ^ 64 := by
  have h₀ := le32_lt b off
  have h₁ := le32_lt b (off + 4)
  unfold le64
  omega

/-- A 64-bit field depends on its eight bytes only. -/
lemma le64_congr {b b' : Bytes} {off off' : ℕ} (h : ∀ i < 8, b (off + i) = b' (off' + i)) :
    le64 b off = le64 b' off' := by
  have hlo : le32 b off = le32 b' off' := le32_congr fun i hi => h i (by omega)
  have hhi : le32 b (off + 4) = le32 b' (off' + 4) :=
    le32_congr fun i hi => by simpa only [Nat.add_assoc] using h (4 + i) (by omega)
  rw [le64, le64, hlo, hhi]

/-- A 64-bit field away from a copied window is untouched. -/
lemma le64_blit_of_disjoint {dst src : Bytes} {off len o : ℕ} (h : o + 8 ≤ off ∨ off + len ≤ o) :
    le64 (blit dst off src len) o = le64 dst o :=
  le64_congr fun _ _ => blit_of_not_mem (by omega)

/-- A 64-bit field inside a copied window is the source's. -/
lemma le64_blit_of_mem {dst src : Bytes} {off len o : ℕ} (h : off ≤ o ∧ o + 8 ≤ off + len) :
    le64 (blit dst off src len) o = le64 src (o - off) :=
  le64_congr fun i _ => by rw [blit_of_mem (by omega)]; congr 1; omega

/-- The eight bytes stored for `v` read back as `v`, cut to 64 bits. -/
lemma le64_ofNat (v : ℕ) : le64 (ofNat v) 0 = v % 2 ^ 64 := by
  have hhi : le32 (ofNat v) 4 = v / 2 ^ 32 % 2 ^ 32 := by
    have hshift : ∀ i < 4, ofNat v (4 + i) = ofNat (v / 2 ^ 32) (0 + i) := by
      intro i _
      simp only [ofNat, Nat.zero_add, Nat.div_div_eq_div_mul]
      congr 2
      rw [show (2 : ℕ) ^ 32 = 256 ^ 4 by norm_num, ← Nat.pow_add]
    rw [le32_congr hshift, le32_ofNat]
  rw [le64, le32_ofNat, Nat.zero_add, hhi]
  omega

lemma le64_put64_self (b : Bytes) (off v : ℕ) : le64 (put64 b off v) off = v % 2 ^ 64 := by
  rw [put64, le64_blit_of_mem (by omega), Nat.sub_self, le64_ofNat]

lemma word_lt (b : Bytes) (p i : ℕ) : word b p i < 2 ^ 64 := le64_lt b _

/-- The word stored, read back. -/
lemma word_putWord_self (b : Bytes) (p i : ℕ) {v : ℕ} (hv : v < 2 ^ 64) :
    word (putWord b p i v) p i = v := by
  rw [word, putWord, le64_put64_self, Nat.mod_eq_of_lt hv]

/-- Another word of the same page. -/
lemma word_putWord_index (b : Bytes) (p : ℕ) {i j : ℕ} (v : ℕ) (hij : j ≠ i) :
    word (putWord b p i v) p j = word b p j :=
  le64_blit_of_disjoint (by omega)

variable {p q : ℕ}

/-- Two pages do not meet. -/
lemma page_disjoint (hp : 4096 ∣ p) (hq : 4096 ∣ q) (hpq : q ≠ p) :
    q + 4096 ≤ p ∨ p + 4096 ≤ q := by
  obtain ⟨k, rfl⟩ := hp
  obtain ⟨l, rfl⟩ := hq
  have hkl : l ≠ k := fun h => hpq (by rw [h])
  omega

/-- A word of another page. -/
lemma word_putWord_page (b : Bytes) {i j : ℕ} (v : ℕ) (hp : 4096 ∣ p) (hq : 4096 ∣ q) (hpq : q ≠ p)
    (hi : i < 512) (hj : j < 512) : word (putWord b p i v) q j = word b q j := by
  have hdis := page_disjoint hp hq hpq
  exact le64_blit_of_disjoint (by omega)

/-- The words after a store. -/
lemma word_putWord (b : Bytes) {i j v : ℕ} (hp : 4096 ∣ p) (hq : 4096 ∣ q)
    (hi : i < 512) (hj : j < 512)
    (hv : v < 2 ^ 64) : word (putWord b p i v) q j = if q = p ∧ j = i then v else word b q j := by
  by_cases hpq : q = p
  · subst hpq
    by_cases hij : j = i
    · subst hij
      rw [if_pos ⟨rfl, rfl⟩, word_putWord_self b q j hv]
    · rw [if_neg (fun h => hij h.2), word_putWord_index b q v hij]
  · rw [if_neg (fun h => hpq h.1), word_putWord_page b v hp hq hpq hi hj]

lemma word_clearPage_self (b : Bytes) {j : ℕ} (hj : j < 512) : word (clearPage b p) p j = 0 := by
  rw [word, clearPage, le64_blit_of_mem (by omega)]
  rfl

lemma word_clearPage_page (b : Bytes) {j : ℕ} (hp : 4096 ∣ p) (hq : 4096 ∣ q) (hpq : q ≠ p)
    (hj : j < 512) : word (clearPage b p) q j = word b q j := by
  have hdis := page_disjoint hp hq hpq
  exact le64_blit_of_disjoint (by omega)

/-! ## Pages that stay as they are -/

/-- The page `q` has the same bytes in both memories. -/
def SamePage (b b' : Bytes) (q : ℕ) : Prop := ∀ k < 4096, b' (q + k) = b (q + k)

lemma SamePage.refl (b : Bytes) (q : ℕ) : SamePage b b q := fun _ _ => rfl

lemma SamePage.trans {b b' b'' : Bytes} (h : SamePage b b' q) (h' : SamePage b' b'' q) :
    SamePage b b'' q := fun k hk => (h' k hk).trans (h k hk)

lemma SamePage.word {b b' : Bytes} (h : SamePage b b' q) {j : ℕ} (hj : j < 512) :
    word b' q j = word b q j := by
  refine le64_congr fun k hk => ?_
  rw [Nat.add_assoc]
  exact h _ (by omega)

/-- A copy inside of one page leaves the others alone. -/
lemma samePage_blit (b src : Bytes) {off len : ℕ} (hp : 4096 ∣ p) (hq : 4096 ∣ q) (hpq : q ≠ p)
    (hlen : off + len ≤ 4096) : SamePage b (blit b (p + off) src len) q := by
  intro k hk
  have hdis := page_disjoint hp hq hpq
  exact blit_of_not_mem (by omega)

lemma samePage_putWord (b : Bytes) {i : ℕ} (v : ℕ) (hp : 4096 ∣ p) (hq : 4096 ∣ q) (hpq : q ≠ p)
    (hi : i < 512) : SamePage b (putWord b p i v) q :=
  samePage_blit b _ hp hq hpq (by omega)

lemma samePage_clearPage (b : Bytes) (hp : 4096 ∣ p) (hq : 4096 ∣ q) (hpq : q ≠ p) :
    SamePage b (clearPage b p) q := by
  have hsame := @samePage_blit p q b zeros 0 4096 hp hq hpq le_rfl
  exact hsame

end Bytes
