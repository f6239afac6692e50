import CoolFrost.Lib.Bytes
import Mathlib.Data.List.Perm.Basic
import Mathlib.Tactic

/-!
# Sorting by a comparison

A comparison returns a negative number, zero or a positive number.  All that is asked of it is that
it is a total preorder of the elements of a list, and what is sorted is a list in which no element
is followed by one that compares less.
-/

namespace Sorting

variable {α : Type} {cmp : α → α → ℤ} {l l' l₁ l₂ : List α} {a b k p x : α}

/-- The comparison is a total preorder of the elements of a list. -/
structure Ordered (cmp : α → α → ℤ) (l : List α) : Prop where
  swap : ∀ a ∈ l, ∀ b ∈ l, cmp a b < 0 ↔ 0 < cmp b a
  trans : ∀ a ∈ l, ∀ b ∈ l, ∀ c ∈ l, cmp a b ≤ 0 → cmp b c ≤ 0 → cmp a c ≤ 0

/-- The elements of the list do not decrease. -/
def Sorted (cmp : α → α → ℤ) (l : List α) : Prop := l.Pairwise fun a b => cmp a b ≤ 0

instance (cmp : α → α → ℤ) (l : List α) : Decidable (Sorted cmp l) :=
  inferInstanceAs (Decidable (l.Pairwise fun a b => cmp a b ≤ 0))

lemma Ordered.mono (h : Ordered cmp l) (hsub : l' ⊆ l) : Ordered cmp l' where
  swap a ha b hb := h.swap a (hsub ha) b (hsub hb)
  trans a ha b hb c hc := h.trans a (hsub ha) b (hsub hb) c (hsub hc)

lemma Ordered.le_of_pos (h : Ordered cmp l) (ha : a ∈ l) (hb : b ∈ l) (hpos : 0 < cmp a b) :
    cmp b a ≤ 0 := ((h.swap b hb a ha).mpr hpos).le

lemma sorted_of_length_le_one (h : l.length ≤ 1) : Sorted cmp l := by
  cases l with
  | nil => exact List.Pairwise.nil
  | cons a l =>
    obtain rfl := List.length_eq_zero_iff.mp (Nat.le_zero.mp (Nat.le_of_succ_le_succ h))
    exact List.pairwise_singleton _ _

/-- An element in the middle of a sorted list. -/
lemma sorted_append_cons_iff : Sorted cmp (l₁ ++ x :: l₂) ↔
    Sorted cmp (l₁ ++ l₂) ∧ (∀ a ∈ l₁, cmp a x ≤ 0) ∧ ∀ b ∈ l₂, cmp x b ≤ 0 := by
  rw [Sorted, Sorted, List.pairwise_append, List.pairwise_append, List.pairwise_cons]
  constructor
  · rintro ⟨h₁, ⟨hx, h₂⟩, h⟩
    exact ⟨⟨h₁, h₂, fun a ha b hb => h a ha b (List.mem_cons_of_mem _ hb)⟩,
      fun a ha => h a ha x List.mem_cons_self, hx⟩
  · rintro ⟨⟨h₁, h₂, h⟩, hle, hx⟩
    refine ⟨h₁, ⟨hx, h₂⟩, fun a ha b hb => ?_⟩
    rcases List.mem_cons.mp hb with rfl | hb
    · exact hle a ha
    · exact h a ha b hb

/-- Sorted parts below and above a pivot make up a sorted list. -/
theorem sorted_pivot (h : Ordered cmp (l₁ ++ p :: l₂)) (h₁ : Sorted cmp l₁) (h₂ : Sorted cmp l₂)
    (hle : ∀ a ∈ l₁, cmp a p ≤ 0) (hge : ∀ b ∈ l₂, cmp p b ≤ 0) : Sorted cmp (l₁ ++ p :: l₂) := by
  refine sorted_append_cons_iff.mpr ⟨List.pairwise_append.mpr ⟨h₁, h₂, ?_⟩, hle, hge⟩
  intro a ha b hb
  have hp : p ∈ l₁ ++ p :: l₂ := List.mem_append_right _ List.mem_cons_self
  exact h.trans a (List.mem_append_left _ ha) p hp b
    (List.mem_append_right _ (List.mem_cons_of_mem _ hb)) (hle a ha) (hge b hb)

/-! ## Searching -/

/-- In a sorted list there is nothing equal to a key in front of an element that the key is
above. -/
lemma ne_zero_of_pos (h : Ordered cmp (k :: (l₁ ++ x :: l₂))) (hs : Sorted cmp (l₁ ++ x :: l₂))
    (hk : 0 < cmp k x) : ∀ y ∈ l₁, cmp k y ≠ 0 := by
  intro y hy hzero
  have hyx := (sorted_append_cons_iff.mp hs).2.1 y hy
  have hle := h.trans k List.mem_cons_self y (List.mem_cons_of_mem _ (List.mem_append_left _ hy)) x
    (List.mem_cons_of_mem _ (List.mem_append_right _ List.mem_cons_self)) hzero.le hyx
  exact absurd hk (not_lt.mpr hle)

/-- And there is nothing equal to it behind an element that the key is below. -/
lemma ne_zero_of_neg (h : Ordered cmp (k :: (l₁ ++ x :: l₂))) (hs : Sorted cmp (l₁ ++ x :: l₂))
    (hk : cmp k x < 0) : ∀ y ∈ l₂, cmp k y ≠ 0 := by
  intro y hy hzero
  have hxy := (sorted_append_cons_iff.mp hs).2.2 y hy
  have hmem : y ∈ k :: (l₁ ++ x :: l₂) :=
    List.mem_cons_of_mem _ (List.mem_append_right _ (List.mem_cons_of_mem _ hy))
  have hx : x ∈ k :: (l₁ ++ x :: l₂) :=
    List.mem_cons_of_mem _ (List.mem_append_right _ List.mem_cons_self)
  have hyk : cmp y k ≤ 0 := by
    by_contra hpos
    have hneg := (h.swap k List.mem_cons_self y hmem).mpr (not_le.mp hpos)
    exact absurd hzero hneg.ne
  have hxk := h.trans x hx y hmem k List.mem_cons_self hxy hyk
  exact absurd ((h.swap k List.mem_cons_self x hx).mp hk) (not_lt.mpr hxk)

end Sorting

/-!
## Arrays in a byte memory

The elements of an array of `n` elements of `sz` bytes as a list of the contents of each.  An array
is cut into shorter ones where its list is, and exchanging the bytes of two elements exchanges them
in the list.
-/

namespace Elements

variable {m m' : Bytes} {base sz n : ℕ} {l l₁ l₂ l₃ r : List (List UInt8)} {x y : List UInt8}

/-- The elements of an array. -/
def elems (m : Bytes) (base sz n : ℕ) : List (List UInt8) :=
  (List.range n).map fun k => Bytes.slice m (base + k * sz) sz

lemma length_elems (m : Bytes) (base sz n : ℕ) : (elems m base sz n).length = n := by
  rw [elems, List.length_map, List.length_range]

/-- The elements depend on the bytes of the array only. -/
lemma elems_congr (h : ∀ i, base ≤ i → i < base + n * sz → m' i = m i) :
    elems m' base sz n = elems m base sz n := by
  refine List.map_congr_left fun k hk => Bytes.slice_congr fun i hi => h _ (by omega) ?_
  have hle : (k + 1) * sz ≤ n * sz := Nat.mul_le_mul_right sz (List.mem_range.mp hk)
  rw [Nat.add_mul, Nat.one_mul] at hle
  omega

/-- An array in two parts. -/
lemma elems_add (m : Bytes) (base sz a b : ℕ) :
    elems m base sz (a + b) = elems m base sz a ++ elems m (base + a * sz) sz b := by
  rw [elems, List.range_add, List.map_append, List.map_map]
  refine congrArg _ (List.map_congr_left fun k _ => ?_)
  change Bytes.slice m (base + (a + k) * sz) sz = _
  rw [Nat.add_mul, Nat.add_assoc]

lemma elems_one (m : Bytes) (base sz : ℕ) : elems m base sz 1 = [Bytes.slice m base sz] := by
  rw [elems]
  change [Bytes.slice m (base + 0 * sz) sz] = _
  rw [Nat.zero_mul, Nat.add_zero]

/-- Where a list of elements is cut the array is. -/
lemma elems_eq_append_iff : elems m base sz n = l ++ r ↔ n = l.length + r.length ∧
    elems m base sz l.length = l ∧ elems m (base + l.length * sz) sz r.length = r := by
  constructor
  · intro h
    have hn : n = l.length + r.length := by rw [← length_elems m base sz n, h, List.length_append]
    rw [hn, elems_add] at h
    exact ⟨hn, List.append_inj h (length_elems m base sz _)⟩
  · rintro ⟨hn, hl, hr⟩
    rw [hn, elems_add, hl, hr]

/-- The first element and the rest. -/
lemma elems_eq_cons_iff : elems m base sz n = x :: r ↔ n = 1 + r.length ∧
    Bytes.slice m base sz = x ∧ elems m (base + sz) sz r.length = r := by
  have happ := @elems_eq_append_iff m base sz n [x] r
  rw [List.singleton_append, List.length_singleton, Nat.one_mul, elems_one,
    List.singleton_inj] at happ
  exact happ

/-- The bytes of two elements have been exchanged. -/
structure Exchanged (sz a b : ℕ) (m m' : Bytes) : Prop where
  fst : ∀ i < sz, m' (a + i) = m (b + i)
  snd : ∀ i < sz, m' (b + i) = m (a + i)
  rest : ∀ i, (i < a ∨ a + sz ≤ i) → (i < b ∨ b + sz ≤ i) → m' i = m i

/-- The two elements have been exchanged in the list. -/
lemma elems_exchanged (h : elems m base sz n = l₁ ++ x :: (l₂ ++ y :: l₃))
    (hx : Exchanged sz (base + l₁.length * sz) (base + l₁.length * sz + sz + l₂.length * sz) m m') :
    elems m' base sz n = l₁ ++ y :: (l₂ ++ x :: l₃) := by
  rw [elems_eq_append_iff, elems_eq_cons_iff, elems_eq_append_iff, elems_eq_cons_iff] at h ⊢
  obtain ⟨hn, h₁, hlen, hxs, hlen', h₂, hlen'', hys, h₃⟩ := h
  have hsame : ∀ {b k : ℕ}, (∀ i, b ≤ i → i < b + k * sz →
      (i < base + l₁.length * sz ∨ base + l₁.length * sz + sz ≤ i) ∧
      (i < base + l₁.length * sz + sz + l₂.length * sz ∨
        base + l₁.length * sz + sz + l₂.length * sz + sz ≤ i)) →
      elems m' b sz k = elems m b sz k := by
    intro b k hout
    exact elems_congr fun i hi hi' => hx.rest i (hout i hi hi').1 (hout i hi hi').2
  refine ⟨?_, ?_, ?_, ?_, ?_, ?_, ?_, ?_, ?_⟩
  · rw [hn]
    simp only [List.length_cons, List.length_append]
  · exact (hsame fun i hi hi' => by omega).trans h₁
  · exact Nat.add_comm _ 1
  · exact (Bytes.slice_congr hx.fst).trans hys
  · rw [List.length_append]
  · exact (hsame fun i hi hi' => by omega).trans h₂
  · exact Nat.add_comm _ 1
  · exact (Bytes.slice_congr hx.snd).trans hxs
  · exact (hsame fun i hi hi' => by omega).trans h₃

end Elements
