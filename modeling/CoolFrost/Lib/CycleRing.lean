import Mathlib.Data.List.Basic
import Mathlib.Tactic

/-!
# Rings with a cycle bit

A producer and a consumer share the cells of an array and nothing else.  Each of them keeps a
cursor: a position and a phase, which changes whenever the cursor comes back to the start.  The
producer marks the cells that it fills with its phase, and the consumer takes what is marked with
its own.

`CycleRing.Holds` says that the cells hold a queue of `q` between the two cursors.  Filling a cell
appends to the queue as long as it is shorter than the ring, the consumer sees a mark of its phase
exactly if the queue is not empty, and then the cell has the head of the queue.
-/

namespace CycleRing

/-- A place in the ring and the phase of the lap. -/
@[ext]
structure Cursor where
  pos : ℕ
  phase : Bool
  deriving DecidableEq

/-- Go on to the next cell of a ring with `n` cells. -/
def Cursor.next (n : ℕ) (c : Cursor) : Cursor :=
  if c.pos + 1 = n then ⟨0, !c.phase⟩ else ⟨c.pos + 1, c.phase⟩

/-- The cursor `i ≤ n` cells ahead. -/
def Cursor.ahead (n : ℕ) (c : Cursor) (i : ℕ) : Cursor :=
  if c.pos + i < n then ⟨c.pos + i, c.phase⟩ else ⟨c.pos + i - n, !c.phase⟩

variable {α : Type*} {n : ℕ} {mark : α → Bool} {cell : ℕ → α} {r w : Cursor} {q : List α}

lemma Cursor.ahead_zero (h : r.pos < n) : r.ahead n 0 = r := if_pos h

lemma Cursor.next_ahead (_ : r.pos < n) {i : ℕ} (hi : i < n) :
    (r.ahead n i).next n = r.ahead n (i + 1) := by
  unfold Cursor.ahead Cursor.next
  split_ifs <;> first
    | (simp only [Bool.not_not, Cursor.mk.injEq, and_true]; omega)
    | (dsimp only at *; omega)

lemma Cursor.ahead_next (_ : r.pos < n) {i : ℕ} (hi : i < n) :
    (r.next n).ahead n i = r.ahead n (i + 1) := by
  unfold Cursor.ahead Cursor.next
  split_ifs <;> first
    | (simp only [Bool.not_not, Cursor.mk.injEq, and_true]; omega)
    | (dsimp only at *; omega)

lemma Cursor.next_pos_lt (h : r.pos < n) : (r.next n).pos < n := by
  unfold Cursor.next
  split_ifs
  · exact lt_of_le_of_lt (Nat.zero_le _) h
  · dsimp only
    omega

lemma Cursor.ahead_pos_lt (h : r.pos < n) {i : ℕ} (hi : i ≤ n) : (r.ahead n i).pos < n := by
  unfold Cursor.ahead
  split_ifs
  · assumption
  · dsimp only
    omega

/-- A lap ahead is the same cell with the other phase. -/
lemma Cursor.ahead_lap : r.ahead n n = ⟨r.pos, !r.phase⟩ := by
  rw [Cursor.ahead, if_neg (by omega), Nat.add_sub_cancel]

lemma Cursor.ahead_pos_inj {i j : ℕ} (hi : i < n) (hj : j < n)
    (heq : (r.ahead n i).pos = (r.ahead n j).pos) : i = j := by
  unfold Cursor.ahead at heq
  split_ifs at heq <;> dsimp only at heq <;> omega

/-- The cells hold the queue `q`, from the consumer's cursor `r` to the producer's cursor `w`. -/
structure Holds (n : ℕ) (mark : α → Bool) (cell : ℕ → α) (r w : Cursor) (q : List α) : Prop where
  pos_lt : r.pos < n
  length_le : q.length ≤ n
  writer : w = r.ahead n q.length
  marks : ∀ i < n, (mark (cell (r.ahead n i).pos) = (r.ahead n i).phase ↔ i < q.length)
  cells : ∀ (i : ℕ) (hi : i < q.length), cell (r.ahead n i).pos = q[i]

/-- Cells that all have the other mark hold an empty queue. -/
lemma holds_nil {p : Bool} (hn : 0 < n) (h : ∀ i < n, mark (cell i) = !p) :
    Holds n mark cell ⟨0, p⟩ ⟨0, p⟩ [] where
  pos_lt := hn
  length_le := Nat.zero_le n
  writer := (Cursor.ahead_zero hn).symm
  marks i hi := by
    have hahead : Cursor.ahead n ⟨0, p⟩ i = ⟨i, p⟩ := by
      rw [Cursor.ahead, if_pos (by simpa using hi), Nat.zero_add]
    rw [hahead, h i hi]
    simp
  cells i hi := absurd hi (Nat.not_lt_zero i)

/-- Only the cells of the ring count. -/
lemma Holds.congr (h : Holds n mark cell r w q) {cell' : ℕ → α} (heq : ∀ i < n, cell' i = cell i) :
    Holds n mark cell' r w q where
  pos_lt := h.pos_lt
  length_le := h.length_le
  writer := h.writer
  marks i hi := by
    rw [heq _ (Cursor.ahead_pos_lt h.pos_lt hi.le)]
    exact h.marks i hi
  cells i hi := by
    rw [heq _ (Cursor.ahead_pos_lt h.pos_lt (hi.le.trans h.length_le))]
    exact h.cells i hi

lemma Holds.writer_pos_lt (h : Holds n mark cell r w q) : w.pos < n := by
  rw [h.writer]
  exact Cursor.ahead_pos_lt h.pos_lt h.length_le

/-- Filling the next cell appends to the queue. -/
lemma Holds.push (h : Holds n mark cell r w q) (hlen : q.length < n) {a : α}
    (ha : mark a = w.phase) :
    Holds n mark (Function.update cell w.pos a) r (w.next n) (q ++ [a]) where
  pos_lt := h.pos_lt
  length_le := by
    rw [List.length_append]
    exact hlen
  writer := by
    rw [h.writer, Cursor.next_ahead h.pos_lt hlen, List.length_append]
    rfl
  marks i hi := by
    rw [List.length_append, List.length_singleton, h.writer]
    by_cases heq : i = q.length
    · subst heq
      rw [Function.update_self, ha, h.writer]
      exact iff_of_true rfl (Nat.lt_succ_self _)
    · have hpos : (r.ahead n i).pos ≠ (r.ahead n q.length).pos := fun hp =>
        heq (Cursor.ahead_pos_inj hi hlen hp)
      rw [Function.update_of_ne hpos, h.marks i hi]
      omega
  cells i hi := by
    rw [List.length_append, List.length_singleton] at hi
    rw [h.writer]
    by_cases heq : i = q.length
    · subst heq
      rw [Function.update_self, List.getElem_append_right le_rfl]
      simp
    · have hlt : i < q.length := by omega
      have hpos : (r.ahead n i).pos ≠ (r.ahead n q.length).pos := fun hp =>
        heq (Cursor.ahead_pos_inj (by omega) hlen hp)
      rw [Function.update_of_ne hpos, h.cells i hlt, List.getElem_append_left hlt]

/-- The consumer sees its mark if and only if there is something to take. -/
lemma Holds.mark_iff (h : Holds n mark cell r w q) : mark (cell r.pos) = r.phase ↔ q ≠ [] := by
  have hmark := h.marks 0 (lt_of_le_of_lt (Nat.zero_le _) h.pos_lt)
  rw [Cursor.ahead_zero h.pos_lt] at hmark
  rw [hmark, List.length_pos_iff]

/-- The cell at the consumer's cursor is the head of the queue, and going on removes it. -/
lemma Holds.pop {a : α} (h : Holds n mark cell r w (a :: q)) :
    cell r.pos = a ∧ Holds n mark cell (r.next n) w q := by
  have hlen : q.length + 1 ≤ n := h.length_le
  refine ⟨?_, Cursor.next_pos_lt h.pos_lt, by omega, ?_, fun i hi => ?_, fun i hi => ?_⟩
  · have hcell := h.cells 0 (Nat.succ_pos _)
    rwa [Cursor.ahead_zero h.pos_lt] at hcell
  · rw [Cursor.ahead_next h.pos_lt hlen, h.writer]
    rfl
  · rw [Cursor.ahead_next h.pos_lt hi]
    by_cases hlast : i + 1 < n
    · rw [h.marks _ hlast, List.length_cons]
      omega
    · obtain rfl : i + 1 = n := by omega
      have hmark := h.mark_iff.mpr (List.cons_ne_nil _ _)
      rw [Cursor.ahead_lap, hmark]
      exact iff_of_false (by simp) (by omega)
  · have hcell := h.cells (i + 1) (Nat.succ_lt_succ hi)
    rw [Cursor.ahead_next h.pos_lt (by omega), hcell, List.getElem_cons_succ]

end CycleRing
