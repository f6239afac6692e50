import Mathlib.Tactic

/-!
# Chains in a table of successors

A table gives every cell the cell after it.  `Links next inside stop c l` says that following the
table from `c` visits exactly the cells `l`, all of them in range, and then arrives at a value that
ends the chain.  Such a chain has no cell twice (`Links.nodup`), since a cell decides everything
that comes after it; it does not notice changes of the table elsewhere (`Links.congr`) and grows by
redirecting its last cell (`Links.append`).
-/

variable {α : Type} {next next' : α → α} {inside stop : α → Prop}

/-- Following `next` from `c` visits the cells `l`, all `inside`, and then a value that is
`stop`. -/
def Links (next : α → α) (inside stop : α → Prop) : α → List α → Prop
  | c, [] => stop c
  | c, a :: l => a = c ∧ inside a ∧ Links next inside stop (next a) l

namespace Links

@[simp] lemma nil {c : α} : Links next inside stop c [] ↔ stop c := Iff.rfl

lemma inside_of_mem {c a : α} {l : List α} (h : Links next inside stop c l) (ha : a ∈ l) :
    inside a := by
  induction l generalizing c with
  | nil => simp at ha
  | cons b l ih =>
    obtain ⟨rfl, hb, hl⟩ := h
    rcases List.mem_cons.mp ha with rfl | ha
    · exact hb
    · exact ih hl ha

/-- The cells from a given one on are themselves a chain. -/
lemma drop {c a : α} {l₁ l₂ : List α} (h : Links next inside stop c (l₁ ++ a :: l₂)) :
    Links next inside stop a (a :: l₂) := by
  induction l₁ generalizing c with
  | nil =>
    obtain ⟨rfl, hb, hl⟩ := h
    exact ⟨rfl, hb, hl⟩
  | cons b l₁ ih => exact ih h.2.2

/-- A chain does not notice changes of the table outside of its cells. -/
lemma congr {c : α} {l : List α} (h : Links next inside stop c l)
    (hn : ∀ a ∈ l, next' a = next a) : Links next' inside stop c l := by
  induction l generalizing c with
  | nil => exact h
  | cons a l ih =>
    obtain ⟨rfl, ha, hl⟩ := h
    refine ⟨rfl, ha, ?_⟩
    rw [hn a List.mem_cons_self]
    exact ih hl fun b hb => hn b (List.mem_cons_of_mem a hb)

/-- Redirecting a cell of a chain to another chain replaces what came after it. -/
lemma redirect {c a : α} {l l' l'' : List α} (h : Links next inside stop c (l ++ a :: l'))
    (hn : ∀ x ∈ l, next' x = next x) (h'' : Links next' inside stop (next' a) l'') :
    Links next' inside stop c (l ++ a :: l'') := by
  induction l generalizing c with
  | nil => exact ⟨h.1, h.2.1, h''⟩
  | cons x l ih =>
    obtain ⟨rfl, hx, hl⟩ := h
    refine ⟨rfl, hx, ?_⟩
    rw [hn x List.mem_cons_self]
    exact ih hl fun y hy => hn y (List.mem_cons_of_mem x hy)

/-- Redirecting the last cell of a chain to another chain joins the two. -/
lemma append {c a b : α} {l l' : List α} (h : Links next inside stop c (l ++ [a]))
    (hn : ∀ x ∈ l, next' x = next x) (hb : next' a = b) (h' : Links next' inside stop b l') :
    Links next' inside stop c (l ++ a :: l') :=
  redirect h hn (hb.symm ▸ h')

section

variable (hstop : ∀ a, inside a → ¬stop a)

include hstop

/-- A cell decides the whole chain from it. -/
lemma unique {c : α} {l l' : List α} (h : Links next inside stop c l)
    (h' : Links next inside stop c l') : l = l' := by
  induction l generalizing c l' with
  | nil =>
    cases l' with
    | nil => rfl
    | cons b l' => exact absurd h (h'.1 ▸ hstop b h'.2.1)
  | cons a l ih =>
    obtain ⟨rfl, ha, hl⟩ := h
    cases l' with
    | nil => exact absurd h' (hstop a ha)
    | cons b l' =>
      obtain ⟨rfl, hb, hl'⟩ := h'
      rw [ih hl hl']

/-- A chain that ends has no cell twice. -/
lemma nodup {c : α} {l : List α} (h : Links next inside stop c l) : l.Nodup := by
  induction l generalizing c with
  | nil => exact List.nodup_nil
  | cons a l ih =>
    refine List.nodup_cons.mpr ⟨fun ha => ?_, ih h.2.2⟩
    obtain ⟨l₁, l₂, hl⟩ := List.append_of_mem ha
    -- the chain from the second occurrence is shorter than the one from the first
    have hsame : a :: l = a :: l₂ := by
      refine unique hstop ⟨rfl, h.2.1, h.2.2⟩ ?_
      exact (hl ▸ h.2.2 : Links next inside stop (next a) (l₁ ++ a :: l₂)).drop
    have hlen := congrArg List.length hsame
    rw [hl] at hlen
    simp only [List.length_cons, List.length_append] at hlen
    omega

end

end Links
