import Mathlib.Tactic

/-!
# Painting

`Paints P v f f'` says that `f'` has the values of `v` where `P` holds and those of `f` elsewhere.
A loop whose rounds paint with the same values paints what any of its rounds does.

`PaintsIf ok P v f r` is about painting that may fail: `r` is a painting if `ok` holds and a failure
otherwise.  A loop fails if any of its rounds would.
-/

variable {ι κ α : Type} {P Q : ι → Prop} {v f f' f'' : ι → α}

/-- `f'` is `f` with the values of `v` where `P` holds. -/
def Paints (P : ι → Prop) (v f f' : ι → α) : Prop :=
  ∀ a, (P a → f' a = v a) ∧ (¬P a → f' a = f a)

namespace Paints

lemma eq (h : Paints P v f f') (h' : Paints P v f f'') : f' = f'' := by
  funext a
  by_cases ha : P a
  · rw [(h a).1 ha, (h' a).1 ha]
  · rw [(h a).2 ha, (h' a).2 ha]

lemma congr (h : Paints P v f f') (hiff : ∀ a, P a ↔ Q a) : Paints Q v f f' := fun a =>
  ⟨fun ha => (h a).1 ((hiff a).mpr ha), fun ha => (h a).2 fun hp => ha ((hiff a).mp hp)⟩

lemma eq_or_eq (h : Paints P v f f') (a : ι) : f' a = v a ∨ f' a = f a := by
  by_cases ha : P a
  · exact Or.inl ((h a).1 ha)
  · exact Or.inr ((h a).2 ha)

/-- Nothing is painted. -/
lemma none (h : ∀ a, ¬P a) : Paints P v f f := fun a => ⟨fun ha => absurd ha (h a), fun _ => rfl⟩

/-- One cell is painted. -/
lemma update [DecidableEq ι] (v f : ι → α) (i : ι) :
    Paints (· = i) v f (Function.update f i (v i)) := by
  intro a
  constructor
  · rintro rfl
    exact Function.update_self a _ f
  · exact fun ha => Function.update_of_ne ha _ f

/-- One loop paints behind another one. -/
lemma trans (h : Paints P v f f') (h' : Paints Q v f' f'') :
    Paints (fun a => P a ∨ Q a) v f f'' := by
  intro a
  by_cases hq : Q a
  · exact ⟨fun _ => (h' a).1 hq, fun hnot => absurd (Or.inr hq) hnot⟩
  · refine ⟨fun hor => ?_, fun hnot => ?_⟩
    · rw [(h' a).2 hq, (h a).1 (hor.resolve_right hq)]
    · rw [(h' a).2 hq, (h a).2 fun hp => hnot (Or.inl hp)]

/-- A loop paints what its rounds do. -/
lemma foldl {P : κ → ι → Prop} {step : (ι → α) → κ → ι → α} {l : List κ}
    (hstep : ∀ k ∈ l, ∀ f, Paints (P k) v f (step f k)) (f : ι → α) :
    Paints (fun a => ∃ k ∈ l, P k a) v f (l.foldl step f) := by
  induction l generalizing f with
  | nil =>
    refine none ?_
    rintro a ⟨k, hk, -⟩
    exact absurd hk List.not_mem_nil
  | cons k l ih =>
    have hfirst := hstep k List.mem_cons_self f
    have hrest := ih (fun k' hk' => hstep k' (List.mem_cons_of_mem k hk')) (step f k)
    exact (hfirst.trans hrest).congr fun a => by simp

end Paints

/-- `r` is `f` painted with `v` where `P` holds, or the failure if not `ok`. -/
def PaintsIf (ok : Prop) (P : ι → Prop) (v f : ι → α) (r : Option (ι → α)) : Prop :=
  (ok → ∃ f', r = some f' ∧ Paints P v f f') ∧ (¬ok → r = none)

namespace PaintsIf

variable {ok ok' : Prop} {r r' : Option (ι → α)}

lemma eq (h : PaintsIf ok P v f r) (h' : PaintsIf ok P v f r') : r = r' := by
  by_cases hok : ok
  · obtain ⟨g, rfl, hg⟩ := h.1 hok
    obtain ⟨g', rfl, hg'⟩ := h'.1 hok
    rw [hg.eq hg']
  · rw [h.2 hok, h'.2 hok]

lemma congr (h : PaintsIf ok P v f r) (hok : ok ↔ ok') (hiff : ∀ a, P a ↔ Q a) :
    PaintsIf ok' Q v f r := by
  refine ⟨fun ho => ?_, fun ho => h.2 fun h' => ho (hok.mp h')⟩
  obtain ⟨g, hr, hg⟩ := h.1 (hok.mpr ho)
  exact ⟨g, hr, hg.congr hiff⟩

/-- One cell is painted if that is allowed. -/
lemma update [DecidableEq ι] [Decidable ok] (v f : ι → α) (i : ι) :
    PaintsIf ok (· = i) v f (if ok then some (Function.update f i (v i)) else none) :=
  ⟨fun h => ⟨_, if_pos h, Paints.update v f i⟩, fun h => if_neg h⟩

/-- A loop paints what its rounds do, unless one of them fails. -/
lemma foldlM {ok : κ → Prop} {P : κ → ι → Prop} {step : (ι → α) → κ → Option (ι → α)} {l : List κ}
    (hstep : ∀ k ∈ l, ∀ f, PaintsIf (ok k) (P k) v f (step f k)) (f : ι → α) :
    PaintsIf (∀ k ∈ l, ok k) (fun a => ∃ k ∈ l, P k a) v f (l.foldlM step f) := by
  induction l generalizing f with
  | nil =>
    refine ⟨fun _ => ⟨f, rfl, Paints.none ?_⟩, fun h => absurd (by simp) h⟩
    rintro a ⟨k, hk, -⟩
    exact absurd hk List.not_mem_nil
  | cons k l ih =>
    have hfirst := hstep k List.mem_cons_self f
    have hrest := ih fun k' hk' => hstep k' (List.mem_cons_of_mem k hk')
    rw [List.foldlM_cons]
    by_cases hk : ok k
    · obtain ⟨g, hg, hpaint⟩ := hfirst.1 hk
      rw [hg]
      refine ⟨fun hall => ?_, fun hnot => ?_⟩
      · obtain ⟨g', hg', hpaint'⟩ := (hrest g).1 fun k' hk' => hall k' (List.mem_cons_of_mem k hk')
        exact ⟨g', hg', (hpaint.trans hpaint').congr fun a => by simp⟩
      · refine (hrest g).2 fun hall => hnot fun k' hk' => ?_
        rcases List.mem_cons.mp hk' with rfl | hk'
        · exact hk
        · exact hall k' hk'
    · refine ⟨fun hall => absurd (hall k List.mem_cons_self) hk, fun _ => ?_⟩
      rw [hfirst.2 hk]
      rfl

end PaintsIf
