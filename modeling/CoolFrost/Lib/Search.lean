import Mathlib.Tactic

/-!
# Searching a list

`search step l acc` goes through `l` with an accumulator until `step` leaves with a result.  Walks
over the entries of a directory are such searches, whatever the blocks that the entries come in.
`keepBest` goes through all of a list and keeps the member that is largest in some respect.
-/

namespace CoolFrost

variable {α β γ : Type}

/-- Go through a list with an accumulator, until `step` leaves (`inr`). -/
def search (step : β → γ → γ ⊕ α) : List β → γ → γ ⊕ α
  | [], acc => .inl acc
  | b :: l, acc =>
    match step b acc with
    | .inl acc => search step l acc
    | .inr a => .inr a

variable {step step' : β → γ → γ ⊕ α}

lemma search_cons (b : β) (l : List β) (acc : γ) :
    search step (b :: l) acc =
      match step b acc with
      | .inl acc => search step l acc
      | .inr a => .inr a :=
  rfl

/-- Searching one list after the other. -/
lemma search_append (l l' : List β) (acc : γ) :
    search step (l ++ l') acc =
      match search step l acc with
      | .inl acc => search step l' acc
      | .inr a => .inr a := by
  induction l generalizing acc with
  | nil => rfl
  | cons b l ih =>
    simp only [List.cons_append, search_cons]
    cases step b acc with
    | inl acc => exact ih acc
    | inr a => rfl

lemma search_map {δ : Type} (f : δ → β) (l : List δ) (acc : γ) :
    search step (l.map f) acc = search (fun d => step (f d)) l acc := by
  induction l generalizing acc with
  | nil => rfl
  | cons d l ih =>
    simp only [List.map_cons, search_cons]
    cases step (f d) acc with
    | inl acc => exact ih acc
    | inr a => rfl

/-- Only the steps on members matter. -/
lemma search_congr {l : List β} (h : ∀ b ∈ l, ∀ acc, step b acc = step' b acc) (acc : γ) :
    search step l acc = search step' l acc := by
  induction l generalizing acc with
  | nil => rfl
  | cons b l ih =>
    simp only [search_cons, h b List.mem_cons_self]
    cases step' b acc with
    | inl acc => exact ih (fun b hb => h b (List.mem_cons_of_mem _ hb)) acc
    | inr a => rfl

/-- A search that leaves at the first member that has a property. -/
lemma search_eq_find? (p : β → Prop) [DecidablePred p] (g : β → α) (l : List β) :
    search (fun b (_ : Unit) => if p b then .inr (g b) else .inl ()) l () =
      (l.find? p).elim (.inl ()) fun b => .inr (g b) := by
  induction l with
  | nil => rfl
  | cons b l ih =>
    rw [search_cons, List.find?_cons]
    by_cases hb : p b
    · simp only [if_pos hb, decide_eq_true hb, Option.elim_some]
    · simp only [if_neg hb, decide_eq_false hb]
      exact ih

/-- What a search leaves with comes from a member. -/
lemma exists_of_search {l : List β} {acc : γ} {a : α} (h : search step l acc = .inr a) :
    ∃ b ∈ l, ∃ acc, step b acc = .inr a := by
  induction l generalizing acc with
  | nil => cases h
  | cons b l ih =>
    rw [search_cons] at h
    cases hstep : step b acc with
    | inl acc' =>
      rw [hstep] at h
      obtain ⟨b', hb', hacc⟩ := ih h
      exact ⟨b', List.mem_cons_of_mem _ hb', hacc⟩
    | inr a' =>
      rw [hstep] at h
      cases h
      exact ⟨b, List.mem_cons_self, acc, hstep⟩

/-- A search for members in front of the first that fails `p` reaches all of them, if the others
fail from there on. -/
lemma mem_takeWhile_of_pairwise {p : β → Bool} {l : List β} {b : β}
    (hl : l.Pairwise fun a b => p a = false → p b = false) (hb : b ∈ l) (hp : p b = true) :
    b ∈ l.takeWhile p := by
  induction l with
  | nil => cases hb
  | cons a l ih =>
    obtain ⟨hhead, htail⟩ := List.pairwise_cons.mp hl
    cases hpa : p a with
    | false =>
      rcases List.mem_cons.mp hb with rfl | hb
      · cases hpa.symm.trans hp
      · cases (hhead b hb hpa).symm.trans hp
    | true =>
      rw [List.takeWhile_cons_of_pos hpa]
      rcases List.mem_cons.mp hb with rfl | hb
      · exact List.mem_cons_self
      · exact List.mem_cons_of_mem _ (ih htail hb)

/-! ## The largest member -/

variable {p : β → Bool} {f : β → ℕ} {l : List β}

/-- Keep the member with the largest `f` among those with the property `p`, and its `f`. -/
def keepBest (p : β → Bool) (f : β → ℕ) (best : Option β × ℕ) (b : β) : Option β × ℕ :=
  if p b && best.2 < f b then (some b, f b) else best

/-- `best` is a largest member of `l` with the property `p`; there is none if none has a positive
`f`. -/
structure BestOf (p : β → Bool) (f : β → ℕ) (l : List β) (best : Option β × ℕ) : Prop where
  mem : ∀ b, best.1 = some b → b ∈ l ∧ p b = true ∧ best.2 = f b
  max : ∀ b ∈ l, p b = true → f b ≤ best.2
  none : best.1 = none ↔ best.2 = 0

lemma foldl_keepBest (p : β → Bool) (f : β → ℕ) (l : List β) :
    BestOf p f l (l.foldl (keepBest p f) (none, 0)) := by
  induction l using List.reverseRecOn with
  | nil => exact ⟨by simp, by simp, iff_of_true rfl rfl⟩
  | append_singleton l b ih =>
    rw [List.foldl_concat]
    generalize l.foldl (keepBest p f) (none, 0) = best at ih
    unfold keepBest
    split_ifs with h
    · obtain ⟨hb, hlt⟩ : p b = true ∧ best.2 < f b := by simpa using h
      refine ⟨fun c hc => ?_, fun c hc hp => ?_, iff_of_false (by simp) (by simp only; omega)⟩
      · cases hc
        exact ⟨List.mem_append_right _ (List.mem_singleton_self b), hb, rfl⟩
      · rcases List.mem_append.mp hc with hc | hc
        · exact (ih.max c hc hp).trans hlt.le
        · rw [List.mem_singleton.mp hc]
    · refine ⟨fun c hc => ?_, fun c hc hp => ?_, ih.none⟩
      · obtain ⟨hmem, hp, hval⟩ := ih.mem c hc
        exact ⟨List.mem_append_left _ hmem, hp, hval⟩
      · rcases List.mem_append.mp hc with hc | hc
        · exact ih.max c hc hp
        · rw [List.mem_singleton.mp hc] at hp ⊢
          have hno : ¬best.2 < f b := by simpa [hp] using h
          exact Nat.le_of_not_lt hno

end CoolFrost
