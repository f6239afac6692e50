import CoolFrost.Lib.Program

/-!
# Programs built from given steps

`Keeps R m` says that `m` relates the state before it to the state after it by `R`, however it
returns.  For a preorder `R` this passes from the steps of a program to the whole program, so that a
frame condition has to be checked only for the steps.  `Built A m` says that `m` is put together
from steps in `A` by sequencing, branching and looping; it is established once for a program and
then serves every preorder (`Built.keeps`).
-/

namespace Program

variable {σ α β : Type}

/-- Whenever `m` returns, the state after it is related to the state before it by `R`. -/
def Keeps (R : σ → σ → Prop) (m : Program σ α) : Prop :=
  ∀ s, wlp m (fun _ s' => R s s') s

/-- A program put together from the steps in `A`. -/
inductive Built (A : (α : Type) → Program σ α → Prop) : {α : Type} → Program σ α → Prop
  | step {α : Type} {m : Program σ α} (h : A α m) : Built A m
  | ret {α : Type} (a : α) : Built A (pure a : Program σ α)
  | read : Built A (get : Program σ σ)
  | never {α : Type} : Built A (fun _ => none : Program σ α)
  | bind {α β : Type} {m : Program σ α} {f : α → Program σ β} (hm : Built A m)
      (hf : ∀ a, Built A (f a)) : Built A (m >>= f)

namespace Built

variable {A B : (α : Type) → Program σ α → Prop}

/-- More steps build more programs. -/
lemma mono (hAB : ∀ α (m : Program σ α), A α m → B α m) {m : Program σ α} (h : Built A m) :
    Built B m := by
  induction h with
  | step h => exact step (hAB _ _ h)
  | ret a => exact ret a
  | read => exact read
  | never => exact never
  | bind _ _ hm hf => exact bind hm hf

lemma ite {c : Prop} [Decidable c] {m n : Program σ α} (hm : Built A m) (hn : Built A n) :
    Built A (if c then m else n) := by
  split
  · exact hm
  · exact hn

/-- A loop is built from the steps of its body. -/
lemma iter {body : β → Program σ (β ⊕ α)} (h : ∀ b, Built A (body b)) (n : ℕ) (b : β) :
    Built A (Program.iter body n b) := by
  induction n generalizing b with
  | zero => exact never
  | succ n ih =>
    rw [Program.iter]
    refine bind (h b) fun r => ?_
    cases r with
    | inl b' => exact ih b'
    | inr a => exact ret a

/-- What every step keeps, the program keeps. -/
theorem keeps {R : σ → σ → Prop} [IsPreorder σ R]
    (hA : ∀ α (m : Program σ α), A α m → Keeps R m) {m : Program σ α} (h : Built A m) :
    Keeps R m := by
  induction h with
  | step h => exact hA _ _ h
  | ret a => exact fun s => (wlp_pure a _ s).mpr (refl_of R s)
  | read => exact fun s => (wlp_get _ s).mpr (refl_of R s)
  | never => exact fun s a s' h => absurd h (by simp)
  | bind _ _ hm hf =>
    intro s
    rw [wlp_bind]
    refine wlp_mono (hm s) fun a s' h => ?_
    exact wlp_mono (hf a s') fun b s'' h' => trans_of R h h'

end Built

end Program
