import CoolFrost.Lib.Program

/-!
# Programs that return

`Halts m s` says that `m` returns when started in `s`, `Total m` that it does so from every state.
A loop whose rounds all return is total as soon as its variables bring a measure down
(`Total.iter`).  A loop that follows a relation from one value to the next has such a measure if the
relation is accessible from where it starts and the values are bounded: the number of values that
can still be reached (`reachCount_lt`).
-/

namespace Program

variable {σ τ α β : Type}

/-- `m` returns from `s`. -/
def Halts (m : Program σ α) (s : σ) : Prop := wp m (fun _ _ => True) s

/-- `m` returns from every state. -/
def Total (m : Program σ α) : Prop := ∀ s, Halts m s

lemma Halts.of_wp {m : Program σ α} {Q : α → σ → Prop} {s : σ} (h : wp m Q s) : Halts m s :=
  wp_mono h fun _ _ _ => trivial

/-- What holds of every value and every state holds after a program that returns. -/
lemma Halts.wp {m : Program σ α} {Q : α → σ → Prop} {s : σ} (h : Halts m s) (hQ : ∀ a s', Q a s') :
    wp m Q s :=
  wp_mono h fun a s' _ => hQ a s'

/-- A program that returns has its partial guarantees as total ones. -/
lemma Halts.wp_of_wlp {m : Program σ α} {Q : α → σ → Prop} {s : σ} (h : Halts m s)
    (hQ : wlp m Q s) : Program.wp m Q s :=
  wp_mono (wp_and_wlp h hQ) fun _ _ hr => hr.2

namespace Total

lemma ret (a : α) : Total (pure a : Program σ α) := fun s => (wp_pure a _ s).mpr trivial

lemma read : Total (get : Program σ σ) := fun s => (wp_get _ s).mpr trivial

lemma change (g : σ → σ) : Total (modify g : Program σ PUnit) :=
  fun s => (wp_modify g _ s).mpr trivial

lemma bind {m : Program σ α} {f : α → Program σ β} (hm : Total m) (hf : ∀ a, Total (f a)) :
    Total (m >>= f) := by
  intro s
  rw [Halts, wp_bind]
  exact (hm s).wp fun a s' => hf a s'

lemma ite {c : Prop} [Decidable c] {m n : Program σ α} (hm : Total m) (hn : Total n) :
    Total (if c then m else n) := by
  split
  · exact hm
  · exact hn

lemma zoom {view : τ → σ} {put : σ → τ → τ} {m : Program σ α} (h : Total m) :
    Total (zoom view put m) := by
  intro t
  rw [Halts, wp_zoom]
  exact h (view t)

/-- A loop returns from every state if its rounds do, keep `I` of the loop variables, and bring the
measure `μ` of these down. -/
lemma iter {body : β → Program σ (β ⊕ α)} (I : β → Prop) (μ : β → ℕ)
    (hstep : ∀ b s, I b →
      wp (body b) (fun r _ => r.elim (fun b' => I b' ∧ μ b' < μ b) (fun _ => True)) s)
    {n : ℕ} {b : β} (hI : I b) (hn : μ b < n) : Total (Program.iter body n b) := by
  intro s
  exact wp_iter (fun b _ => I b) (fun b _ => μ b) hstep hI hn

end Total

/-- A loop none of whose rounds leaves it does not return. -/
lemma not_halts_iter {body : β → Program σ (β ⊕ α)} (I : β → σ → Prop)
    (hstep : ∀ b s, I b s → wlp (body b) (fun r s' => ∃ b', r = .inl b' ∧ I b' s') s)
    {n : ℕ} {b : β} {s : σ} (hI : I b s) : ¬Halts (iter body n b) s := by
  induction n generalizing b s with
  | zero => exact fun ⟨_, _, h, _⟩ => by simp [iter] at h
  | succ n ih =>
    intro h
    rw [Halts, wp_iter_succ] at h
    obtain ⟨r, s', hr, hrest⟩ := h
    obtain ⟨b', rfl, hI'⟩ := hstep b s hI r s' hr
    exact ih hI' hrest

/-! ## Following a relation -/

open Classical in
/-- The number of values below `N` that can be reached from `m`. -/
noncomputable def reachCount (r : ℕ → ℕ → Prop) (N m : ℕ) : ℕ :=
  ((Finset.range N).filter fun n => Relation.TransGen r n m).card

lemma reachCount_le (r : ℕ → ℕ → Prop) (N m : ℕ) : reachCount r N m ≤ N := by
  classical
  exact (Finset.card_filter_le _ _).trans (Finset.card_range N).le

/-- Fewer values can be reached after every step away from an accessible value. -/
lemma reachCount_lt {r : ℕ → ℕ → Prop} {N m n : ℕ} (hm : Acc r m) (h : r n m) (hn : n < N) :
    reachCount r N n < reachCount r N m := by
  classical
  have hacc : Acc (Relation.TransGen r) n := (hm.inv h).transGen
  have hself : ∀ x, Acc (Relation.TransGen r) x → ¬Relation.TransGen r x x := by
    intro x hx
    induction hx with
    | intro x _ ih => exact fun hxx => ih x hxx hxx
  refine Finset.card_lt_card ((Finset.ssubset_iff_of_subset fun d hd => ?_).mpr ⟨n, ?_, ?_⟩)
  · rw [Finset.mem_filter] at hd ⊢
    exact ⟨hd.1, hd.2.tail h⟩
  · exact Finset.mem_filter.mpr ⟨Finset.mem_range.mpr hn, .single h⟩
  · exact fun hd => hself n hacc (Finset.mem_filter.mp hd).2

open Classical in
/-- The rounds that a loop following `r` has left at the value `c`, if it goes round again at the
values that are `live`. -/
noncomputable def roundsLeft (r : ℕ → ℕ → Prop) (N : ℕ) (live : ℕ → Prop) (c : ℕ) : ℕ :=
  if live c then reachCount r N c + 1 else 0

lemma roundsLeft_le (r : ℕ → ℕ → Prop) (N : ℕ) (live : ℕ → Prop) (c : ℕ) :
    roundsLeft r N live c ≤ N + 1 := by
  have hle := reachCount_le r N c
  unfold roundsLeft
  split <;> omega

lemma roundsLeft_lt {r : ℕ → ℕ → Prop} {N : ℕ} {live : ℕ → Prop} {c n : ℕ} (hc : live c)
    (hacc : Acc r c) (h : live n → r n c ∧ n < N) :
    roundsLeft r N live n < roundsLeft r N live c := by
  rw [roundsLeft, roundsLeft, if_pos hc]
  split
  · rename_i hn
    have hlt := reachCount_lt hacc (h hn).1 (h hn).2
    omega
  · omega

end Program
