import Mathlib.Tactic

/-!
# A list with a cursor

The elements before the cursor, the next one to its left first, and those behind it.
-/

/-- A list with a cursor. -/
@[ext]
structure Zipper (α : Type) where
  /-- What is before the cursor, the nearest element first. -/
  before : List α
  /-- What is behind the cursor, the nearest element first. -/
  after : List α
  deriving DecidableEq

namespace Zipper

variable {α : Type}

/-- An empty list. -/
def empty : Zipper α := ⟨[], []⟩

/-- The list without its cursor. -/
def toList (z : Zipper α) : List α := z.before.reverse ++ z.after

/-- Insert an element at the cursor, which goes behind it. -/
def insert (z : Zipper α) (a : α) : Zipper α := ⟨a :: z.before, z.after⟩

/-- Delete the element before the cursor. -/
def delete (z : Zipper α) : Zipper α := ⟨z.before.tail, z.after⟩

/-- Move the cursor by one element to the left. -/
def left : Zipper α → Zipper α
  | ⟨[], after⟩ => ⟨[], after⟩
  | ⟨a :: before, after⟩ => ⟨before, a :: after⟩

/-- Move the cursor by one element to the right. -/
def right : Zipper α → Zipper α
  | ⟨before, []⟩ => ⟨before, []⟩
  | ⟨before, a :: after⟩ => ⟨a :: before, after⟩

@[simp] lemma length_toList (z : Zipper α) :
    z.toList.length = z.before.length + z.after.length := by
  rw [toList, List.length_append, List.length_reverse]

end Zipper
