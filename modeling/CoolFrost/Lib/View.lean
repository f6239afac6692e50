import CoolFrost.Lib.Program

/-!
# Programs seen through an abstraction

A `View σ τ` tells which states of a program are sound and what a sound state stands for.
`V.wp m R v` says that `m`, started in any sound state that stands for `v`, returns in a sound
state, with `R` true of the value and of what the state then stands for.  The rules are those of
`Program.wp`, so a program whose primitive operations have been specified at the level of `τ` is
from then on verified there, and the soundness of the states in between is never mentioned again.
-/

/-- An abstraction of the states `σ` to the values `τ`. -/
structure View (σ τ : Type) where
  /-- The sound states. -/
  good : σ → Prop
  /-- What a state stands for. -/
  view : σ → τ

namespace View

variable {σ τ α β : Type} (V : View σ τ)

/-- Total correctness at the level of the abstraction. -/
def wp (m : Program σ α) (R : α → τ → Prop) (v : τ) : Prop :=
  ∀ s, V.good s → V.view s = v → Program.wp m (fun a s' => V.good s' ∧ R a (V.view s')) s

variable {V} {m : Program σ α} {R R' : α → τ → Prop} {v : τ}

lemma wp_mono (h : V.wp m R v) (hR : ∀ a v', R a v' → R' a v') : V.wp m R' v :=
  fun s hs hv => Program.wp_mono (h s hs hv) fun a _ hr => ⟨hr.1, hR a _ hr.2⟩

lemma wp_pure {a : α} (h : R a v) : V.wp (pure a) R v := by
  rintro s hs rfl
  exact (Program.wp_pure a _ s).mpr ⟨hs, h⟩

/-- Sequencing: the first program's postcondition is the second one's precondition. -/
lemma wp_bind {P : β → τ → Prop} {m : Program σ β} {f : β → Program σ α} (hm : V.wp m P v)
    (hf : ∀ b v', P b v' → V.wp (f b) R v') : V.wp (m >>= f) R v := by
  intro s hs hv
  rw [Program.wp_bind]
  exact Program.wp_mono (hm s hs hv) fun b s' hb => hf b _ hb.2 s' hb.1 rfl

/-- Sequencing with a program that leaves the abstraction. -/
lemma wp_bind_state {P : β → τ → Prop} {m : Program σ β} {f : β → Program σ α}
    {Q : α → σ → Prop} {s : σ} (hs : V.good s) (hm : V.wp m P (V.view s))
    (hf : ∀ b s', V.good s' → P b (V.view s') → Program.wp (f b) Q s') :
    Program.wp (m >>= f) Q s := by
  rw [Program.wp_bind]
  exact Program.wp_mono (hm s hs rfl) fun b s' hb => hf b s' hb.1 hb.2

lemma wp_map {m : Program σ β} {g : β → α} (h : V.wp m (fun b v' => R (g b) v') v) :
    V.wp (g <$> m) R v := by
  rw [← bind_pure_comp]
  exact wp_bind h fun _ _ hr => wp_pure hr

/-- Reading the state: the continuation has to work for every sound state that stands for `v`. -/
lemma wp_get {f : σ → Program σ α} (h : ∀ s, V.good s → V.view s = v → V.wp (f s) R v) :
    V.wp (get >>= f) R v := by
  intro s hs hv
  rw [Program.wp_bind, Program.wp_get]
  exact h s hs hv s hs hv

lemma wp_modify {g : σ → σ} {R : PUnit → τ → Prop}
    (h : ∀ s, V.good s → V.view s = v → V.good (g s) ∧ R PUnit.unit (V.view (g s))) :
    V.wp (modify g) R v := by
  intro s hs hv
  rw [Program.wp_modify]
  exact h s hs hv

lemma wp_ite {c : Prop} [Decidable c] {m n : Program σ α} (hm : c → V.wp m R v)
    (hn : ¬c → V.wp n R v) : V.wp (if c then m else n) R v := by
  split
  · exact hm ‹_›
  · exact hn ‹_›

/-- The loop rule for total correctness, with an invariant and a measure on the abstraction. -/
lemma wp_iter {body : β → Program σ (β ⊕ α)} (I : β → τ → Prop) (μ : β → τ → ℕ) {n : ℕ} {b : β}
    (hstep : ∀ b v, I b v →
      V.wp (body b) (fun r v' => r.elim (fun b' => I b' v' ∧ μ b' v' < μ b v) (fun a => R a v')) v)
    (hI : I b v) (hn : μ b v < n) : V.wp (Program.iter body n b) R v := by
  rintro s hs rfl
  refine Program.wp_iter (fun b s => V.good s ∧ I b (V.view s)) (fun b s => μ b (V.view s))
    (fun b s h => ?_) ⟨hs, hI⟩ hn
  refine Program.wp_mono (hstep b _ h.2 s h.1 rfl) fun r s' hr => ?_
  cases r with
  | inl b' => exact ⟨⟨hr.1, hr.2.1⟩, hr.2.2⟩
  | inr a => exact hr

/-- The loop rule with an invariant that knows how many rounds are left at most. -/
lemma wp_iter_rounds {body : β → Program σ (β ⊕ α)} (I : ℕ → β → τ → Prop)
    (hstep : ∀ k b v, I k b v →
      V.wp (body b) (fun r v' => r.elim (fun b' => ∃ j < k, I j b' v') (fun a => R a v')) v)
    {k n : ℕ} {b : β} (hI : I k b v) (hn : k < n) : V.wp (Program.iter body n b) R v := by
  induction n generalizing k b v with
  | zero => exact absurd hn (Nat.not_lt_zero k)
  | succ n ih =>
    rintro s hs rfl
    rw [Program.wp_iter_succ]
    refine Program.wp_mono (hstep k b _ hI s hs rfl) fun r s' hr => ?_
    cases r with
    | inl b' =>
      obtain ⟨hgood, j, hj, hI'⟩ := hr
      exact ih hI' (by omega) s' hgood rfl
    | inr a => exact hr

/-! ## Working on a part of the state -/

/-- The abstraction of a larger state by that of a part of it. -/
def zoom {ρ : Type} (V : View σ τ) (part : ρ → σ) : View ρ τ where
  good t := V.good (part t)
  view t := V.view (part t)

lemma wp_zoom {ρ : Type} {part : ρ → σ} {put : σ → ρ → ρ} (hput : ∀ s t, part (put s t) = s)
    (h : V.wp m R v) : (V.zoom part).wp (Program.zoom part put m) R v := by
  intro t ht hv
  rw [Program.wp_zoom]
  refine Program.wp_mono (h (part t) ht hv) fun a s hr => ?_
  simpa only [zoom, hput] using hr

end View
