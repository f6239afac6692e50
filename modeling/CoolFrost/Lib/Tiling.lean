import Mathlib.Tactic

/-!
# Tilings of an interval

`Tiles pos len a l e` says that the blocks of the list `l`, block `x` taking `len x` cells from
`pos x` on, cover the cells from `a` to `e` one behind the other.  Splitting a block and joining two
neighbours are changes in the middle of the list (`Tiles.append_iff`), and blocks of a tiling do not
meet (`Tiles.pairwise`).
-/

variable {α : Type*} {pos pos' len len' : α → ℕ}

/-- The blocks cover the cells from `a` to `e`, in their order. -/
def Tiles (pos len : α → ℕ) : ℕ → List α → ℕ → Prop
  | a, [], e => a = e
  | a, x :: l, e => pos x = a ∧ Tiles pos len (a + len x) l e

namespace Tiles

variable {a e : ℕ} {l l₁ l₂ : List α} {x y : α}

@[simp] lemma nil_iff : Tiles pos len a [] e ↔ a = e := Iff.rfl

@[simp] lemma cons_iff :
    Tiles pos len a (x :: l) e ↔ pos x = a ∧ Tiles pos len (a + len x) l e := Iff.rfl

/-- A tiling of two parts is a tiling up to some cell and one from there on. -/
lemma append_iff : Tiles pos len a (l₁ ++ l₂) e ↔
    ∃ m, Tiles pos len a l₁ m ∧ Tiles pos len m l₂ e := by
  induction l₁ generalizing a with
  | nil => simp
  | cons x l₁ ih =>
    rw [List.cons_append, cons_iff, ih]
    constructor
    · rintro ⟨hx, m, h₁, h₂⟩
      exact ⟨m, ⟨hx, h₁⟩, h₂⟩
    · rintro ⟨m, ⟨hx, h₁⟩, h₂⟩
      exact ⟨hx, m, h₁, h₂⟩

/-- A tiling with a block in the middle. -/
lemma middle_iff : Tiles pos len a (l₁ ++ x :: l₂) e ↔
    Tiles pos len a l₁ (pos x) ∧ Tiles pos len (pos x + len x) l₂ e := by
  rw [append_iff]
  constructor
  · rintro ⟨m, h₁, rfl, h₂⟩
    exact ⟨h₁, h₂⟩
  · rintro ⟨h₁, h₂⟩
    exact ⟨_, h₁, rfl, h₂⟩

/-- A tiling does not notice changes of other blocks. -/
lemma congr (h : Tiles pos len a l e) (hpos : ∀ x ∈ l, pos' x = pos x)
    (hlen : ∀ x ∈ l, len' x = len x) : Tiles pos' len' a l e := by
  induction l generalizing a with
  | nil => exact h
  | cons x l ih =>
    obtain ⟨hx, hl⟩ := h
    refine ⟨(hpos x List.mem_cons_self).trans hx, ?_⟩
    rw [hlen x List.mem_cons_self]
    exact ih hl (fun y hy => hpos y (List.mem_cons_of_mem x hy)) fun y hy =>
      hlen y (List.mem_cons_of_mem x hy)

/-- A tiling by the images of blocks. -/
lemma map_iff {β : Type*} {f : β → α} {k : List β} :
    Tiles pos len a (k.map f) e ↔ Tiles (fun y => pos (f y)) (fun y => len (f y)) a k e := by
  induction k generalizing a with
  | nil => rfl
  | cons y k ih => exact and_congr_right fun _ => ih

lemma le (h : Tiles pos len a l e) : a ≤ e := by
  induction l generalizing a with
  | nil => exact le_of_eq h
  | cons x l ih => exact le_trans (Nat.le_add_right a (len x)) (ih h.2)

/-- Every block lies in the interval. -/
lemma mem_bounds (h : Tiles pos len a l e) (hx : x ∈ l) : a ≤ pos x ∧ pos x + len x ≤ e := by
  obtain ⟨l₁, l₂, rfl⟩ := List.append_of_mem hx
  obtain ⟨h₁, h₂⟩ := middle_iff.mp h
  exact ⟨h₁.le, h₂.le⟩

/-- Every block lies in front of those behind it in the list. -/
lemma pairwise (h : Tiles pos len a l e) : l.Pairwise fun x y => pos x + len x ≤ pos y := by
  induction l generalizing a with
  | nil => exact List.Pairwise.nil
  | cons x l ih =>
    obtain ⟨rfl, hl⟩ := h
    exact List.Pairwise.cons (fun y hy => (hl.mem_bounds hy).1) (ih hl)

/-- When the lengths are multiples of a number, so are all positions. -/
lemma dvd {d : ℕ} (h : Tiles pos len a l e) (ha : d ∣ a) (hlen : ∀ x ∈ l, d ∣ len x) :
    (∀ x ∈ l, d ∣ pos x) ∧ d ∣ e := by
  induction l generalizing a with
  | nil =>
    obtain rfl := h
    exact ⟨fun x hx => absurd hx List.not_mem_nil, ha⟩
  | cons x l ih =>
    obtain ⟨rfl, hl⟩ := h
    obtain ⟨hmem, he⟩ := ih hl (Nat.dvd_add ha (hlen x List.mem_cons_self)) fun y hy =>
      hlen y (List.mem_cons_of_mem x hy)
    refine ⟨fun y hy => ?_, he⟩
    rcases List.mem_cons.mp hy with rfl | hy
    · exact ha
    · exact hmem y hy

/-- There are no more blocks than cells. -/
lemma length_le (h : Tiles pos len a l e) (hpos : ∀ x ∈ l, 0 < len x) : a + l.length ≤ e := by
  induction l generalizing a with
  | nil => exact le_of_eq h
  | cons x l ih =>
    have hx := hpos x List.mem_cons_self
    have hl := ih h.2 fun y hy => hpos y (List.mem_cons_of_mem x hy)
    rw [List.length_cons]
    omega

/-- The block at the start of an interval is the first one. -/
lemma eq_cons_of_pos_eq (h : Tiles pos len a l e) (hpos : ∀ y ∈ l, 0 < len y) (hx : x ∈ l)
    (hstart : pos x = a) : ∃ l', l = x :: l' := by
  cases l with
  | nil => exact absurd hx List.not_mem_nil
  | cons y l =>
    rcases List.mem_cons.mp hx with rfl | hx
    · exact ⟨l, rfl⟩
    · have hbound := (h.2.mem_bounds hx).1
      have hy := hpos y List.mem_cons_self
      omega

end Tiles
