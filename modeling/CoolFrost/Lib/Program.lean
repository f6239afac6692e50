import Mathlib.Tactic

/-!
# Programs over an explicit state

A `Program σ α` reads and changes a state of type `σ` and either returns a value of type `α` or
does not return at all (`none`: a loop that never ends).  Failures of the modelled code are ordinary
return values.

`wp m Q s` says that `m` started in `s` returns and that `Q` holds of the returned value and the
state after it (total correctness); `wlp m Q s` says the same of every return without promising one.
The rules below peel a program apart constructor by constructor; `iter` is the only loop, so one
invariant rule for each of the two modalities covers every loop of a development.
-/

/-- A program over the state `σ`: it returns a value and a new state, or it never returns. -/
abbrev Program (σ α : Type) := StateT σ Option α

namespace Program

variable {σ τ α β : Type}

/-- Total correctness: `m` returns from `s`, with `Q` true of the value and the state after it. -/
def wp (m : Program σ α) (Q : α → σ → Prop) (s : σ) : Prop :=
  ∃ a s', m s = some (a, s') ∧ Q a s'

/-- Partial correctness: whenever `m` returns from `s`, `Q` is true of the value and the state. -/
def wlp (m : Program σ α) (Q : α → σ → Prop) (s : σ) : Prop :=
  ∀ a s', m s = some (a, s') → Q a s'

/-- A program that returns in exactly one way has its partial guarantee as a total one. -/
lemma wp_of_eq {m : Program σ α} {Q : α → σ → Prop} {s s' : σ} {a : α}
    (h : m s = some (a, s')) (hQ : Q a s') : wp m Q s :=
  ⟨a, s', h, hQ⟩

/-- What a known run of a program comes to. -/
lemma wp_iff_of_eq {m : Program σ α} {Q : α → σ → Prop} {s s' : σ} {a : α}
    (h : m s = some (a, s')) : wp m Q s ↔ Q a s' := by
  constructor
  · rintro ⟨b, t, hb, hQ⟩
    obtain ⟨rfl, rfl⟩ : b = a ∧ t = s' := by simpa using hb.symm.trans h
    exact hQ
  · exact wp_of_eq h

/-- A test of the state that a program leaves, evaluated on a concrete state. -/
lemma exists_of_any {m : Program σ PUnit} {p : σ → Bool} {s : σ}
    (h : (m s).any (fun r => p r.2) = true) : ∃ s', m s = some (PUnit.unit, s') ∧ p s' = true := by
  cases hm : m s with
  | none => simp [hm] at h
  | some r => exact ⟨r.2, rfl, by simpa [hm] using h⟩

/-- Total correctness gives partial correctness, since a program returns in at most one way. -/
lemma wlp_of_wp {m : Program σ α} {Q : α → σ → Prop} {s : σ} (h : wp m Q s) : wlp m Q s := by
  obtain ⟨a, s', hm, hQ⟩ := h
  intro b t hb
  obtain ⟨rfl, rfl⟩ : a = b ∧ s' = t := by simpa [hm] using hb
  exact hQ

/-- Weakening the postcondition of a total guarantee. -/
lemma wp_mono {m : Program σ α} {Q R : α → σ → Prop} {s : σ} (h : wp m Q s)
    (hQR : ∀ a s', Q a s' → R a s') : wp m R s := by
  obtain ⟨a, s', hm, hQ⟩ := h
  exact ⟨a, s', hm, hQR a s' hQ⟩

/-- Weakening the postcondition of a partial guarantee. -/
lemma wlp_mono {m : Program σ α} {Q R : α → σ → Prop} {s : σ} (h : wlp m Q s)
    (hQR : ∀ a s', Q a s' → R a s') : wlp m R s :=
  fun a s' hm => hQR a s' (h a s' hm)

/-- Two partial guarantees of the same program combine. -/
lemma wlp_and {m : Program σ α} {Q R : α → σ → Prop} {s : σ} (h : wlp m Q s) (h' : wlp m R s) :
    wlp m (fun a s' => Q a s' ∧ R a s') s :=
  fun a s' hm => ⟨h a s' hm, h' a s' hm⟩

/-- A total and a partial guarantee of the same program combine. -/
lemma wp_and_wlp {m : Program σ α} {Q R : α → σ → Prop} {s : σ} (h : wp m Q s) (h' : wlp m R s) :
    wp m (fun a s' => Q a s' ∧ R a s') s := by
  obtain ⟨a, s', hm, hQ⟩ := h
  exact ⟨a, s', hm, hQ, h' a s' hm⟩

/-- When a program may fail and what it may have done are known, it leaves a property alone in every
failure exactly if whatever breaks the property is enough for a success. -/
lemma wp_failure_iff {m : Program σ (Option α)} {P : σ → Prop} {C D : Prop} {s : σ}
    (h : wp m (fun r s' => (r ≠ none ↔ D) ∧ (P s' ↔ ¬C)) s) :
    wp m (fun r s' => r = none → P s') s ↔ (C → D) := by
  obtain ⟨r, s', hm, hr, hP⟩ := h
  constructor
  · intro hwp hC
    have hfail : r = none → P s' := wlp_of_wp hwp r s' hm
    by_contra hD
    exact hP.mp (hfail (not_not.mp (hr.not.mpr hD))) hC
  · intro hCD
    refine ⟨r, s', hm, fun hnone => hP.mpr fun hC => ?_⟩
    exact hr.mpr (hCD hC) hnone

/-! ## Straight-line programs -/

@[simp] lemma wp_pure (a : α) (Q : α → σ → Prop) (s : σ) :
    wp (pure a : Program σ α) Q s ↔ Q a s := by
  constructor
  · rintro ⟨b, t, hb, hQ⟩
    obtain ⟨rfl, rfl⟩ := Prod.mk.inj (Option.some.inj hb)
    exact hQ
  · exact fun hQ => ⟨a, s, rfl, hQ⟩

@[simp] lemma wlp_pure (a : α) (Q : α → σ → Prop) (s : σ) :
    wlp (pure a : Program σ α) Q s ↔ Q a s := by
  constructor
  · exact fun h => h a s rfl
  · intro hQ b t hb
    obtain ⟨rfl, rfl⟩ := Prod.mk.inj (Option.some.inj hb)
    exact hQ

/-- A bind returns exactly when both halves do. -/
lemma bind_eq_some {m : Program σ α} {f : α → Program σ β} {s t : σ} {b : β} :
    (m >>= f) s = some (b, t) ↔ ∃ a s', m s = some (a, s') ∧ f a s' = some (b, t) := by
  simp only [bind, StateT.bind, Option.bind_eq_some_iff, Prod.exists]

@[simp] lemma wp_bind (m : Program σ α) (f : α → Program σ β) (Q : β → σ → Prop) (s : σ) :
    wp (m >>= f) Q s ↔ wp m (fun a s' => wp (f a) Q s') s := by
  constructor
  · rintro ⟨b, t, h, hQ⟩
    obtain ⟨a, s', hm, hf⟩ := bind_eq_some.mp h
    exact ⟨a, s', hm, b, t, hf, hQ⟩
  · rintro ⟨a, s', hm, b, t, hf, hQ⟩
    exact ⟨b, t, bind_eq_some.mpr ⟨a, s', hm, hf⟩, hQ⟩

@[simp] lemma wlp_bind (m : Program σ α) (f : α → Program σ β) (Q : β → σ → Prop) (s : σ) :
    wlp (m >>= f) Q s ↔ wlp m (fun a s' => wlp (f a) Q s') s := by
  constructor
  · intro h a s' hm b t hf
    exact h b t (bind_eq_some.mpr ⟨a, s', hm, hf⟩)
  · intro h b t hb
    obtain ⟨a, s', hm, hf⟩ := bind_eq_some.mp hb
    exact h a s' hm b t hf

@[simp] lemma wp_map (g : α → β) (m : Program σ α) (Q : β → σ → Prop) (s : σ) :
    wp (g <$> m) Q s ↔ wp m (fun a s' => Q (g a) s') s := by
  rw [← bind_pure_comp, wp_bind]
  simp only [wp_pure]

@[simp] lemma wlp_map (g : α → β) (m : Program σ α) (Q : β → σ → Prop) (s : σ) :
    wlp (g <$> m) Q s ↔ wlp m (fun a s' => Q (g a) s') s := by
  rw [← bind_pure_comp, wlp_bind]
  simp only [wlp_pure]

@[simp] lemma wp_get (Q : σ → σ → Prop) (s : σ) : wp (get : Program σ σ) Q s ↔ Q s s :=
  wp_pure s Q s

@[simp] lemma wlp_get (Q : σ → σ → Prop) (s : σ) : wlp (get : Program σ σ) Q s ↔ Q s s :=
  wlp_pure s Q s

@[simp] lemma wp_modify (g : σ → σ) (Q : PUnit → σ → Prop) (s : σ) :
    wp (modify g : Program σ PUnit) Q s ↔ Q PUnit.unit (g s) :=
  wp_pure PUnit.unit Q (g s)

@[simp] lemma wlp_modify (g : σ → σ) (Q : PUnit → σ → Prop) (s : σ) :
    wlp (modify g : Program σ PUnit) Q s ↔ Q PUnit.unit (g s) :=
  wlp_pure PUnit.unit Q (g s)

@[simp] lemma wp_ite (c : Prop) [Decidable c] (m n : Program σ α) (Q : α → σ → Prop) (s : σ) :
    wp (if c then m else n) Q s ↔ if c then wp m Q s else wp n Q s := by
  split <;> rfl

@[simp] lemma wlp_ite (c : Prop) [Decidable c] (m n : Program σ α) (Q : α → σ → Prop) (s : σ) :
    wlp (if c then m else n) Q s ↔ if c then wlp m Q s else wlp n Q s := by
  split <;> rfl

lemma wp_ite_intro {c : Prop} [Decidable c] {m n : Program σ α} {Q : α → σ → Prop} {s : σ}
    (hm : c → wp m Q s) (hn : ¬c → wp n Q s) : wp (if c then m else n) Q s := by
  split
  · exact hm ‹_›
  · exact hn ‹_›

lemma wlp_ite_intro {c : Prop} [Decidable c] {m n : Program σ α} {Q : α → σ → Prop} {s : σ}
    (hm : c → wlp m Q s) (hn : ¬c → wlp n Q s) : wlp (if c then m else n) Q s := by
  split
  · exact hm ‹_›
  · exact hn ‹_›

/-! ## Working on a part of the state -/

/-- Run a program on the part `view t` of a larger state `t` and put the result back. -/
def zoom (view : τ → σ) (put : σ → τ → τ) (m : Program σ α) : Program τ α := fun t =>
  match m (view t) with
  | none => none
  | some (a, s) => some (a, put s t)

@[simp] lemma wp_zoom (view : τ → σ) (put : σ → τ → τ) (m : Program σ α) (Q : α → τ → Prop)
    (t : τ) : wp (zoom view put m) Q t ↔ wp m (fun a s => Q a (put s t)) (view t) := by
  cases h : m (view t) with
  | none => simp [wp, zoom, h]
  | some p => obtain ⟨a, s⟩ := p; simp [wp, zoom, h]

@[simp] lemma wlp_zoom (view : τ → σ) (put : σ → τ → τ) (m : Program σ α) (Q : α → τ → Prop)
    (t : τ) : wlp (zoom view put m) Q t ↔ wlp m (fun a s => Q a (put s t)) (view t) := by
  cases h : m (view t) with
  | none => simp [wlp, zoom, h]
  | some p => obtain ⟨a, s⟩ := p; simp [wlp, zoom, h]

/-! ## Loops -/

/-- Repeat `body`, which either goes round again with new loop variables (`inl`) or leaves the loop
with a result (`inr`).  The loop does not return when it goes round `n` times without leaving. -/
def iter (body : β → Program σ (β ⊕ α)) : ℕ → β → Program σ α
  | 0, _ => fun _ => none
  | n + 1, b => do
    match ← body b with
    | .inl b' => iter body n b'
    | .inr a => pure a

/-- One round of a loop, under total correctness. -/
lemma wp_iter_succ (body : β → Program σ (β ⊕ α)) (n : ℕ) (b : β) (Q : α → σ → Prop) (s : σ) :
    wp (iter body (n + 1) b) Q s ↔
      wp (body b) (fun r s' => r.elim (fun b' => wp (iter body n b') Q s')
      (fun a => Q a s')) s := by
  rw [iter, wp_bind]
  refine iff_of_eq (congrArg (fun R => wp (body b) R s) (funext₂ fun r s' => ?_))
  cases r with
  | inl b' => rfl
  | inr a => exact propext (wp_pure a Q s')

/-- One round of a loop, under partial correctness. -/
lemma wlp_iter_succ (body : β → Program σ (β ⊕ α)) (n : ℕ) (b : β) (Q : α → σ → Prop) (s : σ) :
    wlp (iter body (n + 1) b) Q s ↔
      wlp (body b)
        (fun r s' => r.elim (fun b' => wlp (iter body n b') Q s') (fun a => Q a s')) s := by
  rw [iter, wlp_bind]
  refine iff_of_eq (congrArg (fun R => wlp (body b) R s) (funext₂ fun r s' => ?_))
  cases r with
  | inl b' => rfl
  | inr a => exact propext (wlp_pure a Q s')

/-- What is done when a loop is left may as well be done after it. -/
lemma iter_bind {γ : Type} {body : β → Program σ (β ⊕ α)} {body' : β → Program σ (β ⊕ γ)}
    {f : γ → Program σ α}
    (h : ∀ b, body b = body' b >>= fun r => r.elim (fun b' => pure (.inl b')) fun c => .inr <$> f c)
    (n : ℕ) (b : β) : iter body n b = iter body' n b >>= f := by
  induction n generalizing b with
  | zero => rfl
  | succ n ih =>
    rw [iter, iter, h, bind_assoc, bind_assoc]
    refine congrArg _ (funext fun r => ?_)
    cases r with
    | inl b' => exact (pure_bind _ _).trans (ih b')
    | inr c => rw [Sum.elim_inr, bind_map_left, pure_bind, bind_pure]

/-- The loop rule for total correctness: the invariant `I` is kept by every round, and the measure
`μ` drops in every round that does not leave the loop. -/
lemma wp_iter {body : β → Program σ (β ⊕ α)} {Q : α → σ → Prop} (I : β → σ → Prop)
    (μ : β → σ → ℕ) {n : ℕ} {b : β} {s : σ}
    (hstep : ∀ b s, I b s →
      wp (body b) (fun r s' => r.elim (fun b' => I b' s' ∧ μ b' s' < μ b s) (fun a => Q a s')) s)
    (hI : I b s) (hn : μ b s < n) : wp (iter body n b) Q s := by
  induction n generalizing b s with
  | zero => exact absurd hn (Nat.not_lt_zero _)
  | succ n ih =>
    rw [wp_iter_succ]
    refine wp_mono (hstep b s hI) fun r s' hr => ?_
    cases r with
    | inl b' => exact ih hr.1 (lt_of_lt_of_le hr.2 (Nat.lt_succ_iff.mp hn))
    | inr a => exact hr

/-- The loop rule for partial correctness: the invariant `I` is kept by every round. -/
lemma wlp_iter {body : β → Program σ (β ⊕ α)} {Q : α → σ → Prop} (I : β → σ → Prop)
    {n : ℕ} {b : β} {s : σ}
    (hstep : ∀ b s, I b s →
      wlp (body b) (fun r s' => r.elim (fun b' => I b' s') (fun a => Q a s')) s)
    (hI : I b s) : wlp (iter body n b) Q s := by
  induction n generalizing b s with
  | zero => exact fun a s' h => absurd h (by simp [iter])
  | succ n ih =>
    rw [wlp_iter_succ]
    refine wlp_mono (hstep b s hI) fun r s' hr => ?_
    cases r with
    | inl b' => exact ih hr
    | inr a => exact hr

/-- Enough rounds for the loops of a program whose loop variables are 32-bit numbers: a loop that
has gone round this often has repeated itself. -/
def loopFuel : ℕ := 2 ^ 32

end Program
