import Mathlib.Tactic

/-!
# Requests and answers in a log

The log of a server is a list of events.  Some of them are answers, and `fits a q` says that the
event `a` answers the event `q`.  `Answered` is what a client may rely on: every answer has a
request of its own before it.  `Open P` is the invariant behind it, for a server that may be asked
again before it has answered: the requests at the places `P` are still to be answered.
-/

namespace Answering

variable {α : Type*} {isAnswer : α → Prop} {fits : α → α → Prop} {f : ℕ → ℕ} {P Q : Set ℕ}
  {log : List α} {a q : α} {i k : ℕ}

/-- The answer at a place of the log answers the request at the place that `f` gives for it. -/
structure Serves (isAnswer : α → Prop) (fits : α → α → Prop) (f : ℕ → ℕ) (log : List α) : Prop where
  earlier : ∀ i a, log[i]? = some a → isAnswer a → f i < i ∧ ∃ q, log[f i]? = some q ∧ fits a q
  once : ∀ i j a b, log[i]? = some a → isAnswer a → log[j]? = some b → isAnswer b →
    f i = f j → i = j

/-- Every answer has a request of its own before it. -/
def Answered (isAnswer : α → Prop) (fits : α → α → Prop) (log : List α) : Prop :=
  ∃ f, Serves isAnswer fits f log

/-- Every answer has a request of its own before it, and none of them is one of the requests at the
places `P`. -/
def Open (isAnswer : α → Prop) (fits : α → α → Prop) (P : Set ℕ) (log : List α) : Prop :=
  (∀ k ∈ P, k < log.length) ∧
    ∃ f, Serves isAnswer fits f log ∧ ∀ i a, log[i]? = some a → isAnswer a → f i ∉ P

/-- At the start nothing has been answered. -/
lemma open_nil : Open isAnswer fits ∅ [] :=
  ⟨fun _ hk => absurd hk (Set.notMem_empty _), id, ⟨fun _ _ h => absurd h (by simp),
    fun _ _ _ _ h => absurd h (by simp)⟩, fun _ _ h => absurd h (by simp)⟩

lemma Open.answered (h : Open isAnswer fits P log) : Answered isAnswer fits log :=
  let ⟨_, f, hf, _⟩ := h
  ⟨f, hf⟩

/-- A request may be left without an answer. -/
lemma Open.mono (h : Open isAnswer fits P log) (hQ : Q ⊆ P) : Open isAnswer fits Q log := by
  obtain ⟨hlt, f, hf, hfree⟩ := h
  exact ⟨fun k hk => hlt k (hQ hk), f, hf, fun i a hi ha hmem => hfree i a hi ha (hQ hmem)⟩

/-- What is in a log that has been extended by an event. -/
lemma getElem?_append_singleton {b : α} (h : (log ++ [a])[i]? = some b) :
    log[i]? = some b ∨ i = log.length ∧ b = a := by
  rcases Nat.lt_trichotomy i log.length with hlt | rfl | hgt
  · exact .inl (by rwa [List.getElem?_append_left hlt] at h)
  · exact .inr ⟨rfl, by simpa using h.symm⟩
  · rw [List.getElem?_eq_none (by rw [List.length_append, List.length_singleton]; omega)] at h
    cases h

/-- An event that is no answer. -/
lemma Open.append (h : Open isAnswer fits P log) (ha : ¬isAnswer a) :
    Open isAnswer fits P (log ++ [a]) := by
  obtain ⟨hlt, f, hf, hfree⟩ := h
  have hold : ∀ {i b}, (log ++ [a])[i]? = some b → isAnswer b → log[i]? = some b := fun hi hb =>
    (getElem?_append_singleton hi).resolve_right fun hnew => ha (hnew.2 ▸ hb)
  refine ⟨fun k hk => ?_, f, ⟨fun i b hi hb => ?_, fun i j b c hi hb hj hc => ?_⟩,
    fun i b hi hb => ?_⟩
  · rw [List.length_append]
    exact Nat.lt_add_right _ (hlt k hk)
  · obtain ⟨hfi, q, hq, hfits⟩ := hf.earlier i b (hold hi hb) hb
    exact ⟨hfi, q, by rw [List.getElem?_append_left (List.getElem?_eq_some_iff.mp hq).1, hq], hfits⟩
  · exact hf.once i j b c (hold hi hb) hb (hold hj hc) hc
  · exact hfree i b (hold hi hb) hb

/-- A request that is going to be answered. -/
lemma Open.ask (h : Open isAnswer fits P log) (hq : ¬isAnswer q) :
    Open isAnswer fits (insert log.length P) (log ++ [q]) := by
  obtain ⟨hlt, f, hf, hfree⟩ := h.append hq
  refine ⟨fun k hk => ?_, f, hf, fun i b hi hb hmem => ?_⟩
  · rcases hk with rfl | hk
    · rw [List.length_append]
      exact Nat.lt_succ_self _
    · exact hlt k hk
  · rcases hmem with heq | hmem
    · -- no answer of the log comes after its last event
      obtain ⟨hfi, -⟩ := hf.earlier i b hi hb
      have hi' := (List.getElem?_eq_some_iff.mp hi).1
      rw [List.length_append, List.length_singleton] at hi'
      omega
    · exact hfree i b hi hb hmem

/-- The answer to a request that has been waiting for it. -/
lemma Open.answer (h : Open isAnswer fits (insert k P) log) (hk : k ∉ P) (hq : log[k]? = some q)
    (hfits : fits a q) : Open isAnswer fits P (log ++ [a]) := by
  obtain ⟨hlt, f, hf, hfree⟩ := h
  have hklt : k < log.length := hlt k (Set.mem_insert k P)
  have hlen : ∀ {i b}, log[i]? = some b → i ≠ log.length := fun hi =>
    ((List.getElem?_eq_some_iff.mp hi).1).ne
  refine ⟨fun j hj => ?_, Function.update f log.length k, ⟨fun i b hi hb => ?_,
    fun i j b c hi hb hj hc heq => ?_⟩, fun i b hi hb => ?_⟩
  · rw [List.length_append]
    exact Nat.lt_add_right _ (hlt j (Set.mem_insert_of_mem k hj))
  · rcases getElem?_append_singleton hi with hi | ⟨rfl, rfl⟩
    · obtain ⟨hfi, q', hq', hfits'⟩ := hf.earlier i b hi hb
      rw [Function.update_of_ne (hlen hi)]
      exact ⟨hfi, q', by rw [List.getElem?_append_left
        (List.getElem?_eq_some_iff.mp hq').1, hq'], hfits'⟩
    · rw [Function.update_self]
      exact ⟨hklt, q, by rw [List.getElem?_append_left hklt, hq], hfits⟩
  · rcases getElem?_append_singleton hi with hi' | ⟨rfl, rfl⟩ <;>
      rcases getElem?_append_singleton hj with hj' | ⟨rfl, rfl⟩
    · rw [Function.update_of_ne (hlen hi'), Function.update_of_ne (hlen hj')] at heq
      exact hf.once i j b c hi' hb hj' hc heq
    · rw [Function.update_of_ne (hlen hi'), Function.update_self] at heq
      exact absurd (heq ▸ Set.mem_insert k P) (hfree i b hi' hb)
    · rw [Function.update_of_ne (hlen hj'), Function.update_self] at heq
      exact absurd (heq ▸ Set.mem_insert k P) (hfree j c hj' hc)
    · rfl
  · rcases getElem?_append_singleton hi with hi | ⟨rfl, rfl⟩
    · rw [Function.update_of_ne (hlen hi)]
      exact fun hmem => hfree i b hi hb (Set.mem_insert_of_mem k hmem)
    · rwa [Function.update_self]

end Answering
