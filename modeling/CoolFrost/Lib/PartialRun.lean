import Mathlib.Tactic

/-!
# Runs of a partial step function

A step function that may refuse an operation gives runs that may end early: `ops.foldlM step s` is
the state after the operations `ops`, or `none` when one of them is refused.
-/

namespace PartialRun

variable {σ ι : Type*} {step : σ → ι → Option σ}

/-- What every step preserves holds at the end of a run; the operations may have a property of their
own. -/
theorem invariant {P : σ → Prop} {Q : ι → Prop}
    (hstep : ∀ {s op s'}, P s → Q op → step s op = some s' → P s') {ops : List ι}
    {s s' : σ} (hs : P s)
    (hops : ∀ op ∈ ops, Q op) (hrun : ops.foldlM step s = some s') : P s' := by
  induction ops generalizing s with
  | nil =>
    obtain rfl := Option.some.inj hrun
    exact hs
  | cons op ops ih =>
    rw [List.foldlM_cons] at hrun
    obtain ⟨t, ht, hrest⟩ := Option.bind_eq_some_iff.mp hrun
    exact ih (hstep hs (hops op List.mem_cons_self) ht)
      (fun o ho => hops o (List.mem_cons_of_mem _ ho)) hrest

/-- When every step is carried out and preserves a property, so is every run. -/
theorem total {P : σ → Prop} {Q : ι → Prop}
    (hstep : ∀ {s op}, P s → Q op → ∃ s', step s op = some s' ∧ P s') {ops : List ι} {s : σ}
    (hs : P s) (hops : ∀ op ∈ ops, Q op) : ∃ s', ops.foldlM step s = some s' ∧ P s' := by
  induction ops generalizing s with
  | nil => exact ⟨s, rfl, hs⟩
  | cons op ops ih =>
    obtain ⟨t, ht, hpt⟩ := hstep hs (hops op List.mem_cons_self)
    obtain ⟨s', hs', hps'⟩ := ih hpt fun o ho => hops o (List.mem_cons_of_mem _ ho)
    refine ⟨s', ?_, hps'⟩
    rw [List.foldlM_cons, ht]
    exact hs'

end PartialRun
