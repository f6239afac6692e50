import Mathlib.Tactic

/-!
# Doubly linked lists

Two tables give every cell the cells after and before it.  `DLinks next prev p c l` says that the
list which begins with `c`, behind `p`, consists of the cells `l`, and that each of them leads back
to the one before it.  A cell that is unlinked is bypassed by every link that led to it
(`DLinks.unlink`); a cell that is put in front is what the first cell leads back to
(`DLinks.pushFront`).  A list that begins behind no cell has no cell twice (`DLinks.nodup`).
-/

variable {α : Type} {next prev next' prev' : α → Option α}

/-- The cells `l`, linked both ways, of which the first is `c` and comes behind `p`. -/
def DLinks (next prev : α → Option α) : Option α → Option α → List α → Prop
  | _, c, [] => c = none
  | p, c, a :: l => c = some a ∧ prev a = p ∧ DLinks next prev (some a) (next a) l

namespace DLinks

@[simp] lemma nil {p c : Option α} : DLinks next prev p c [] ↔ c = none := Iff.rfl

@[simp] lemma cons {p c : Option α} {a : α} {l : List α} :
    DLinks next prev p c (a :: l) ↔ c = some a ∧ prev a = p ∧
    DLinks next prev (some a) (next a) l :=
  Iff.rfl

/-- The first cell. -/
lemma head_eq {p c : Option α} {l : List α} (h : DLinks next prev p c l) : c = l.head? := by
  cases l with
  | nil => exact h
  | cons a l => exact h.1

/-- A list does not notice changes of the tables elsewhere. -/
lemma congr {p c : Option α} {l : List α} (h : DLinks next prev p c l)
    (hnext : ∀ a ∈ l, next' a = next a) (hprev : ∀ a ∈ l, prev' a = prev a) :
    DLinks next' prev' p c l := by
  induction l generalizing p c with
  | nil => exact h
  | cons a l ih =>
    obtain ⟨hc, hp, hl⟩ := h
    refine ⟨hc, (hprev a List.mem_cons_self).trans hp, ?_⟩
    rw [hnext a List.mem_cons_self]
    exact ih hl (fun b hb => hnext b (List.mem_cons_of_mem a hb))
      fun b hb => hprev b (List.mem_cons_of_mem a hb)

/-- The cell after a cell of the list is one of the list. -/
lemma mem_of_next {p c : Option α} {l : List α} {a b : α} (h : DLinks next prev p c l) (ha : a ∈ l)
    (hb : next a = some b) : b ∈ l := by
  induction l generalizing p c with
  | nil => exact absurd ha List.not_mem_nil
  | cons d l ih =>
    obtain ⟨-, -, hl⟩ := h
    rcases List.mem_cons.mp ha with rfl | ha
    · refine List.mem_cons_of_mem _ (List.mem_of_mem_head? ?_)
      exact hl.head_eq.symm.trans hb
    · exact List.mem_cons_of_mem d (ih hl ha)

/-- The cell before a cell of the list is one of the list, or that before the whole list. -/
lemma prev_cases {p c : Option α} {l : List α} {a : α} (h : DLinks next prev p c l) (ha : a ∈ l) :
    prev a = p ∨ ∃ b ∈ l, prev a = some b := by
  induction l generalizing p c with
  | nil => exact absurd ha List.not_mem_nil
  | cons d l ih =>
    obtain ⟨-, hp, hl⟩ := h
    rcases List.mem_cons.mp ha with rfl | ha
    · exact Or.inl hp
    · rcases ih hl ha with hd | ⟨b, hb, heq⟩
      · exact Or.inr ⟨d, List.mem_cons_self, hd⟩
      · exact Or.inr ⟨b, List.mem_cons_of_mem d hb, heq⟩

/-- No cell of the list leads back to one that is not in the list and not before it. -/
lemma prev_ne {p c : Option α} {l : List α} {a b : α} (h : DLinks next prev p c l) (ha : a ∈ l)
    (hp : p ≠ some b) (hb : b ∉ l) : prev a ≠ some b := by
  intro heq
  rcases h.prev_cases ha with hfirst | ⟨d, hd, hprev⟩
  · exact hp (hfirst.symm.trans heq)
  · exact hb (Option.some.inj (hprev.symm.trans heq) ▸ hd)

/-- No cell comes twice. -/
lemma nodup {p c : Option α} {l : List α} (h : DLinks next prev p c l) (hp : ∀ d ∈ l, p ≠ some d) :
    l.Nodup := by
  induction l generalizing p c with
  | nil => exact List.nodup_nil
  | cons a l ih =>
    obtain ⟨-, ha, hl⟩ := h
    have hnot : a ∉ l := by
      intro hmem
      rcases hl.prev_cases hmem with hself | ⟨b, hb, hprev⟩
      · exact hp a List.mem_cons_self (ha.symm.trans hself)
      · exact hp b (List.mem_cons_of_mem a hb) (ha.symm.trans hprev)
    exact List.nodup_cons.mpr ⟨hnot, ih hl fun d hd heq => hnot (Option.some.inj heq ▸ hd)⟩

/-- No cell is before itself. -/
lemma prev_ne_self {p c : Option α} {l : List α} {a : α} (h : DLinks next prev p c l)
    (hp : ∀ d ∈ l, p ≠ some d) (ha : a ∈ l) : prev a ≠ some a := by
  have hnodup := h.nodup hp
  induction l generalizing p c with
  | nil => exact absurd ha List.not_mem_nil
  | cons d l ih =>
    obtain ⟨-, hd, hl⟩ := h
    obtain ⟨hnot, htail⟩ := List.nodup_cons.mp hnodup
    rcases List.mem_cons.mp ha with rfl | ha
    · exact fun heq => hp a List.mem_cons_self (hd.symm.trans heq)
    · exact ih hl (fun e he heq => hnot (Option.some.inj heq ▸ he)) ha htail

/-- A cell is behind another one exactly if that is before it. -/
lemma next_eq_iff {p c : Option α} {l : List α} {a b : α} (h : DLinks next prev p c l)
    (hnodup : l.Nodup) (hp : ∀ d ∈ l, p ≠ some d) (ha : a ∈ l) (hb : b ∈ l) :
    next a = some b ↔ prev b = some a := by
  induction l generalizing p c with
  | nil => exact absurd ha List.not_mem_nil
  | cons d l ih =>
    obtain ⟨-, hd, hl⟩ := h
    obtain ⟨hnot, htail⟩ := List.nodup_cons.mp hnodup
    have hnotp : ∀ e ∈ l, some d ≠ some e := fun e he heq => hnot (Option.some.inj heq ▸ he)
    have hfirst := hl.head_eq
    rcases List.mem_cons.mp ha with rfl | ha'
    · rcases List.mem_cons.mp hb with rfl | hb'
      · -- neither is the first cell behind itself nor before itself
        refine iff_of_false (fun hn => hnot ?_) fun hn => hp b List.mem_cons_self (hd.symm.trans hn)
        exact List.mem_of_mem_head? (hfirst.symm.trans hn)
      · cases l with
        | nil => exact absurd hb' List.not_mem_nil
        | cons e l =>
          obtain ⟨he, hpe, hrest⟩ := hl
          rcases List.mem_cons.mp hb' with rfl | hb''
          · exact iff_of_true he hpe
          · have hne : b ≠ e := fun heq => (List.nodup_cons.mp htail).1 (heq ▸ hb'')
            refine iff_of_false (fun hn => hne (Option.some.inj (hn.symm.trans he))) ?_
            refine hrest.prev_ne hb''
              (fun heq => hnotp e List.mem_cons_self heq.symm) fun hmem => ?_
            exact hnot (List.mem_cons_of_mem e hmem)
    · rcases List.mem_cons.mp hb with rfl | hb'
      · refine iff_of_false (fun hn => hnot (hl.mem_of_next ha' hn)) fun hn => ?_
        exact hp a ha (hd.symm.trans hn)
      · exact ih hl htail hnotp ha' hb'

/-- The first cell is the only one behind what is before the whole list. -/
lemma prev_eq_iff {p c : Option α} {l : List α} {a : α} (h : DLinks next prev p c l)
    (hp : ∀ d ∈ l, p ≠ some d) (ha : a ∈ l) : prev a = p ↔ c = some a := by
  cases l with
  | nil => exact absurd ha List.not_mem_nil
  | cons d l =>
    obtain ⟨hc, hd, hl⟩ := h
    constructor
    · intro heq
      rcases List.mem_cons.mp ha with rfl | ha
      · exact hc
      · rcases hl.prev_cases ha with hfirst | ⟨b, hb, hprev⟩
        · exact absurd (heq.symm.trans hfirst) (hp d List.mem_cons_self)
        · exact absurd (heq.symm.trans hprev) (hp b (List.mem_cons_of_mem d hb))
    · intro heq
      obtain rfl : d = a := Option.some.inj (hc.symm.trans heq)
      exact hd

/-- A cell is taken out if every link to it is replaced by the one that it has itself. -/
lemma unlink [DecidableEq α] {p c : Option α} {l : List α} {a : α} (h : DLinks next prev p c l)
    (hnodup : l.Nodup) (ha : a ∈ l) (hp : p ≠ some a)
    (hnext : ∀ b ∈ l, b ≠ a → next' b = if next b = some a then next a else next b)
    (hprev : ∀ b ∈ l, b ≠ a → prev' b = if prev b = some a then prev a else prev b) :
    DLinks next' prev' p (if c = some a then next a else c) (l.erase a) := by
  induction l generalizing p c with
  | nil => exact absurd ha List.not_mem_nil
  | cons b l ih =>
    obtain ⟨rfl, hb, hl⟩ := h
    obtain ⟨hnot, htail⟩ := List.nodup_cons.mp hnodup
    by_cases hba : b = a
    · subst hba
      rw [if_pos rfl, List.erase_cons_head]
      -- what came behind the cell comes behind the one before it now
      cases l with
      | nil => exact hl
      | cons d l =>
        obtain ⟨hd, hpd, hrest⟩ := hl
        have hdb : d ≠ b := fun heq => hnot (heq ▸ List.mem_cons_self)
        refine ⟨hd, ?_, ?_⟩
        · rw [hprev d (by simp) hdb, if_pos hpd, hb]
        have hsame : ∀ e ∈ d :: l, next' e = next e := by
          intro e he
          have hne : next e ≠ some b :=
            fun heq => hnot ((DLinks.cons.mpr ⟨hd, hpd, hrest⟩).mem_of_next he heq)
          rw [hnext e (List.mem_cons_of_mem b he) fun heq => hnot (heq ▸ he), if_neg hne]
        rw [hsame d List.mem_cons_self]
        refine hrest.congr (fun e he => hsame e (List.mem_cons_of_mem d he)) fun e he => ?_
        have hne : prev e ≠ some b :=
            hrest.prev_ne he (fun heq => hdb (Option.some.inj heq)) fun hmem =>
          hnot (List.mem_cons_of_mem d hmem)
        have heb : e ≠ b := fun heq => hnot (heq ▸ List.mem_cons_of_mem d he)
        rw [hprev e (List.mem_cons_of_mem b (List.mem_cons_of_mem d he)) heb, if_neg hne]
    · rw [if_neg fun heq => hba (Option.some.inj heq), List.erase_cons_tail (by simpa using hba)]
      refine ⟨rfl, ?_, ?_⟩
      · rw [hprev b List.mem_cons_self hba, if_neg (hb ▸ hp), hb]
      · rw [hnext b List.mem_cons_self hba]
        refine ih hl htail ((List.mem_cons.mp ha).resolve_left (Ne.symm hba))
          (fun heq => hba (Option.some.inj heq)) (fun d hd hda => ?_) fun d hd hda => ?_
        · exact hnext d (List.mem_cons_of_mem b hd) hda
        · exact hprev d (List.mem_cons_of_mem b hd) hda

/-- A cell is put in front. -/
lemma pushFront [DecidableEq α] {p c : Option α} {l : List α} {a : α} (h : DLinks next prev p c l)
    (hnext : ∀ b ∈ l, next' b = next b) (hnexta : next' a = c) (hnodup : l.Nodup)
    (hprev : ∀ b ∈ l, prev' b = if c = some b then some a else prev b) (hpreva : prev' a = p) :
    DLinks next' prev' p (some a) (a :: l) := by
  refine ⟨rfl, hpreva, ?_⟩
  rw [hnexta]
  cases l with
  | nil => exact h
  | cons d l =>
    obtain ⟨rfl, -, hl⟩ := h
    refine ⟨rfl, by rw [hprev d List.mem_cons_self, if_pos rfl], ?_⟩
    rw [hnext d List.mem_cons_self]
    refine hl.congr (fun b hb => hnext b (List.mem_cons_of_mem d hb)) fun b hb => ?_
    rw [hprev b (List.mem_cons_of_mem d hb), if_neg]
    exact fun heq => (List.nodup_cons.mp hnodup).1 (Option.some.inj heq ▸ hb)

end DLinks
