import Mathlib.Logic.Relation
import Mathlib.Tactic

/-!
# Forests that only grow

A forest on a type `V` is a set of live vertices, each with at most one parent.  Vertices are only
ever added, and the parent of a live vertex never changes: this is how a pool of nodes that is never
given back behaves.  The line of parents of a live vertex is then the same forever
(`Extends.leads`), and it ends at no more than one root (`Leads.root_unique`).
-/

/-- A set of live vertices with parent links. -/
structure Forest (V : Type) where
  /-- The parent of a vertex. -/
  parent : V → Option V
  /-- The vertices in use. -/
  live : V → Prop

namespace Forest

variable {V : Type} {f g h : Forest V} {v p r r' : V}

/-- The line of parents of `v` passes through `r`. -/
def Leads (f : Forest V) : V → V → Prop :=
  Relation.ReflTransGen fun v p => f.parent v = some p

/-- Every parent of a live vertex is live. -/
def Closed (f : Forest V) : Prop :=
  ∀ v p, f.live v → f.parent v = some p → f.live p

/-- `g` has the vertices of `f`, with the same parents, and possibly more. -/
def Extends (f g : Forest V) : Prop :=
  ∀ v, f.live v → g.live v ∧ g.parent v = f.parent v

lemma Extends.refl (f : Forest V) : f.Extends f := fun _ hv => ⟨hv, rfl⟩

lemma Extends.trans (hfg : f.Extends g) (hgh : g.Extends h) : f.Extends h := by
  intro v hv
  obtain ⟨hgv, hgp⟩ := hfg v hv
  obtain ⟨hhv, hhp⟩ := hgh v hgv
  exact ⟨hhv, hhp.trans hgp⟩

/-- The line of parents of a vertex that is not a root goes on with its parent. -/
lemma leads_iff_of_ne (hne : v ≠ r) : f.Leads v r ↔ ∃ p, f.parent v = some p ∧ f.Leads p r := by
  constructor
  · intro hl
    rcases Relation.ReflTransGen.cases_head hl with h | ⟨p, hp, hl⟩
    · exact absurd h hne
    · exact ⟨p, hp, hl⟩
  · rintro ⟨p, hp, hl⟩
    exact Relation.ReflTransGen.head hp hl

/-- A vertex without a parent leads to nothing but itself. -/
lemma Leads.eq_of_root (hl : f.Leads v r) (hv : f.parent v = none) : v = r := by
  by_contra hne
  obtain ⟨p, hp, -⟩ := (leads_iff_of_ne hne).mp hl
  simp [hv] at hp

/-- The line of parents of a vertex ends at one root at most. -/
theorem Leads.root_unique (hr : f.Leads v r) (hr' : f.Leads v r') (h : f.parent r = none)
    (h' : f.parent r' = none) : r = r' := by
  induction hr using Relation.ReflTransGen.head_induction_on with
  | refl => exact hr'.eq_of_root h
  | head hp _ ih =>
    refine ih ?_
    obtain ⟨q, hq, hq'⟩ := (leads_iff_of_ne (by rintro rfl; simp [h'] at hp)).mp hr'
    rw [hp] at hq
    cases hq
    exact hq'

/-- Growing does not change where a live vertex leads. -/
theorem Extends.leads (hfg : f.Extends g) (hf : f.Closed) (hv : f.live v) :
    g.Leads v r ↔ f.Leads v r := by
  constructor
  · intro hl
    induction hl using Relation.ReflTransGen.head_induction_on with
    | refl => exact Relation.ReflTransGen.refl
    | head hp _ ih =>
      rw [(hfg _ hv).2] at hp
      exact Relation.ReflTransGen.head hp (ih (hf _ _ hv hp))
  · intro hl
    induction hl using Relation.ReflTransGen.head_induction_on with
    | refl => exact Relation.ReflTransGen.refl
    | head hp _ ih =>
      refine Relation.ReflTransGen.head ?_ (ih (hf _ _ hv hp))
      rw [(hfg _ hv).2, hp]

end Forest
