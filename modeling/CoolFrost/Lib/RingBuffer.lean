import Mathlib.Tactic

/-!
# Ring buffers

A ring buffer of capacity `n` keeps a queue in the cells of an array: `head` is the cell of its
oldest element, `tail` the cell that the next one goes to, both counted modulo `n`, and `size` the
number of elements.  `toList` is the queue it stands for; pushing and popping are what they should
be on it as long as the three numbers fit together (`RingBuf.Ok`), which both operations keep.
-/

/-- A queue in the cells of an array. -/
structure RingBuf (α : Type) where
  buf : ℕ → α
  head : ℕ
  tail : ℕ
  size : ℕ

namespace RingBuf

variable {α : Type} {n : ℕ} {r : RingBuf α}

/-- Append an element; a full ring buffer stays as it is. -/
def push (n : ℕ) (r : RingBuf α) (a : α) : RingBuf α :=
  if n ≤ r.size then r
  else ⟨Function.update r.buf r.tail a, r.head, (r.tail + 1) % n, r.size + 1⟩

/-- Take the oldest element. -/
def pop (n : ℕ) (r : RingBuf α) : Option (α × RingBuf α) :=
  if r.size = 0 then none
  else some (r.buf r.head, ⟨r.buf, (r.head + 1) % n, r.tail, r.size - 1⟩)

/-- Forget the `m` oldest elements. -/
def drop (n : ℕ) (r : RingBuf α) (m : ℕ) : RingBuf α :=
  ⟨r.buf, (r.head + m) % n, r.tail, r.size - m⟩

/-- The queue in a ring buffer, oldest element first. -/
def toList (n : ℕ) (r : RingBuf α) : List α :=
  (List.range r.size).map fun i => r.buf ((r.head + i) % n)

/-- The elements are in the `size` cells from `head` to before `tail`. -/
structure Ok (n : ℕ) (r : RingBuf α) : Prop where
  head_lt : r.head < n
  size_le : r.size ≤ n
  tail_eq : r.tail = (r.head + r.size) % n

@[simp] lemma length_toList (n : ℕ) (r : RingBuf α) : (r.toList n).length = r.size :=
  by simp [toList]

/-- The cells in use are different. -/
lemma cell_ne (h : r.Ok n) {i : ℕ} (hi : i < r.size) (hr : r.size < n) :
    (r.head + i) % n ≠ r.tail := by
  rw [h.tail_eq]
  intro heq
  have hmod : r.head + i ≡ r.head + r.size [MOD n] := heq
  have hcancel := Nat.ModEq.add_left_cancel' r.head hmod
  have hi' : i % n = i := Nat.mod_eq_of_lt (by omega)
  have hs' : r.size % n = r.size := Nat.mod_eq_of_lt hr
  unfold Nat.ModEq at hcancel
  omega

lemma push_ok (h : r.Ok n) (hr : r.size < n) (a : α) : (r.push n a).Ok n := by
  rw [push, if_neg (by omega)]
  refine ⟨h.head_lt, hr, ?_⟩
  simp only [h.tail_eq]
  rw [Nat.mod_add_mod, Nat.add_assoc]

lemma toList_push (h : r.Ok n) (hr : r.size < n) (a : α) :
    (r.push n a).toList n = r.toList n ++ [a] := by
  rw [push, if_neg (by omega), toList, toList, List.range_succ, List.map_append]
  congr 1
  · refine List.map_congr_left fun i hi => ?_
    exact Function.update_of_ne (cell_ne h (List.mem_range.mp hi) hr) _ _
  · simp only [List.map_cons, List.map_nil, ← h.tail_eq, Function.update_self]

lemma pop_eq_none : r.pop n = none ↔ r.toList n = [] := by
  rw [← List.length_eq_zero_iff, length_toList, pop]
  split_ifs with h
  · exact iff_of_true rfl h
  · exact iff_of_false (by simp) h

/-- Popping takes the head of the queue. -/
lemma pop_eq_some (h : r.Ok n) {a : α} {r' : RingBuf α} (hp : r.pop n = some (a, r')) :
    r'.Ok n ∧ r.toList n = a :: r'.toList n := by
  rw [pop] at hp
  split_ifs at hp with h0
  obtain ⟨rfl, rfl⟩ : r.buf r.head = a ∧ _ = r' := by simpa using hp
  obtain ⟨k, hk⟩ : ∃ k, r.size = k + 1 := ⟨r.size - 1, by omega⟩
  have hn : 0 < n := lt_of_le_of_lt (Nat.zero_le _) h.head_lt
  refine ⟨⟨Nat.mod_lt _ hn, by have := h.size_le; simp only; omega, ?_⟩, ?_⟩
  · simp only [h.tail_eq, hk, Nat.add_sub_cancel]
    rw [Nat.mod_add_mod]
    congr 1
    omega
  · rw [toList, toList, hk, List.range_succ_eq_map, List.map_cons, List.map_map]
    simp only [Nat.add_zero, Nat.mod_eq_of_lt h.head_lt, Nat.add_sub_cancel]
    congr 1
    refine List.map_congr_left fun i _ => ?_
    simp only [Function.comp_apply, Nat.mod_add_mod]
    congr 2
    omega

lemma drop_ok (h : r.Ok n) {m : ℕ} (hm : m ≤ r.size) : (r.drop n m).Ok n := by
  have hn : 0 < n := lt_of_le_of_lt (Nat.zero_le _) h.head_lt
  refine ⟨Nat.mod_lt _ hn, (Nat.sub_le _ _).trans h.size_le, ?_⟩
  simp only [drop, h.tail_eq]
  rw [Nat.mod_add_mod, Nat.add_assoc, Nat.add_sub_cancel' hm]

/-- An element of the queue. -/
lemma getElem?_toList {i : ℕ} (hi : i < r.size) :
    (r.toList n)[i]? = some (r.buf ((r.head + i) % n)) := by
  simp [toList, hi]

lemma toList_drop (m : ℕ) : (r.drop n m).toList n = (r.toList n).drop m := by
  apply List.ext_getElem?
  intro i
  rw [List.getElem?_drop]
  by_cases hi : i < r.size - m
  · rw [getElem?_toList (r := r.drop n m) hi, getElem?_toList (by omega)]
    simp only [drop, Nat.mod_add_mod, Nat.add_assoc]
  · rw [List.getElem?_eq_none, List.getElem?_eq_none]
    · rw [length_toList]
      omega
    · rw [length_toList]
      exact not_lt.mp hi

end RingBuf
