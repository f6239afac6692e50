import CoolFrost.Lib.Halting

/-!
# Loops that only look

A loop that scans a buffer leaves the state alone: what one round does is a partial function `step`
of the loop variables, undefined where it would look outside of the buffer (`reads`).
`Scans step b a` says that such a loop, started at `b`, leaves with the result `a`.  A loop with
enough rounds returns exactly if its scan ends, be it that its variables bring a measure down
(`Scans.wp_iter_iff`) or that they are bounded (`Scans.wp_iter_iff_of_bounded`).

A chain of records each of which says where the next one is makes a `Walk`.  It ends (`Walk.Ends`)
if it comes to a record where it stops and every record up to there is inside of the buffer, and a
loop that follows it returns exactly then (`Walk.Rounds.wp_iter_iff`).  A `Listing` numbers the
entries among the records: asking for one entry after the other ends exactly if the walk to the
entry that is searched for does (`Listing.halts_search_iff`).

A loop that does change the state is described by the pairs of loop variables and state that its
rounds come to (`rounds`).
-/

namespace Program

variable {σ α β : Type}

/-- `x`, if the `n` bytes at `off` are inside of a buffer of `size` bytes. -/
def reads (size off n : ℕ) (x : Option α) : Option α := if off + n ≤ size then x else none

lemma exists_reads (size off n : ℕ) (x : Option α) (P : α → Prop) :
    (∃ r, reads size off n x = some r ∧ P r) ↔ off + n ≤ size ∧ ∃ r, x = some r ∧ P r := by
  unfold reads
  split
  · rename_i h
    rw [and_iff_right h]
  · rename_i h
    simp only [reduceCtorEq, false_and, exists_false, h]

lemma exists_some_eq (a : α) (P : α → Prop) : (∃ r, some a = some r ∧ P r) ↔ P a := by
  simp only [Option.some.injEq, exists_eq_left']

lemma exists_ite_eq (c : Prop) [Decidable c] (x y : Option α) (P : α → Prop) :
    (∃ r, (if c then x else y) = some r ∧ P r) ↔
      if c then ∃ r, x = some r ∧ P r else ∃ r, y = some r ∧ P r := by
  split <;> rfl

lemma exists_map_eq {γ : Type} (f : γ → α) (x : Option γ) (P : α → Prop) :
    (∃ r, x.map f = some r ∧ P r) ↔ ∃ c, x = some c ∧ P (f c) := by
  simp only [Option.map_eq_some_iff]
  constructor
  · rintro ⟨_, ⟨c, hc, rfl⟩, h⟩
    exact ⟨c, hc, h⟩
  · rintro ⟨c, hc, h⟩
    exact ⟨_, ⟨c, hc, rfl⟩, h⟩

/-- The rounds of a loop leave the state alone and do what `step` says. -/
def RoundsOf (body : β → Program σ (β ⊕ α)) (step : β → Option (β ⊕ α)) : Prop :=
  ∀ b (Q : β ⊕ α → σ → Prop) s, wp (body b) Q s ↔ ∃ r, step b = some r ∧ Q r s

/-- A scan from `b` ends with the result `a`. -/
inductive Scans (step : β → Option (β ⊕ α)) : β → α → Prop
  | leave {b : β} {a : α} (h : step b = some (.inr a)) : Scans step b a
  | next {b b' : β} {a : α} (h : step b = some (.inl b')) (hrest : Scans step b' a) : Scans step b a

namespace Scans

variable {body : β → Program σ (β ⊕ α)} {step : β → Option (β ⊕ α)} {b : β} {a : α} {n : ℕ}
  {Q : α → σ → Prop} {s : σ}

/-- A loop that returns has scanned to the end. -/
lemma of_wp_iter (hbody : RoundsOf body step) (h : wp (iter body n b) Q s) :
    ∃ a, Scans step b a ∧ Q a s := by
  induction n generalizing b with
  | zero =>
    obtain ⟨_, _, h, _⟩ := h
    simp [iter] at h
  | succ n ih =>
    rw [wp_iter_succ, hbody] at h
    obtain ⟨r, hr, hQ⟩ := h
    cases r with
    | inl b' =>
      obtain ⟨a, ha, hQ⟩ := ih hQ
      exact ⟨a, .next hr ha, hQ⟩
    | inr a => exact ⟨a, .leave hr, hQ⟩

/-- A scan does not stay where it is. -/
lemma ne_of_next {b' : β} (h : Scans step b a)
    (hstep : step b = some (.inl b')) : b' ≠ b := by
  induction h generalizing b' with
  | leave h =>
    rw [h] at hstep
    cases hstep
  | next h _ ih =>
    rw [h] at hstep
    obtain rfl := Sum.inl.inj (Option.some.inj hstep)
    rintro rfl
    exact ih h rfl

/-- A loop whose variables bring a measure down unless they stay as they are returns exactly if its
scan ends. -/
lemma wp_iter_iff_of_progress (hbody : RoundsOf body step) (μ : β → ℕ)
    (hμ : ∀ b b', step b = some (.inl b') → b' = b ∨ μ b' < μ b) (hn : μ b < n) :
    wp (iter body n b) Q s ↔ ∃ a, Scans step b a ∧ Q a s := by
  constructor
  · exact of_wp_iter hbody
  · rintro ⟨a, h, hQ⟩
    refine wp_iter (fun b s' => Scans step b a ∧ s' = s) (fun b _ => μ b) ?_ ⟨h, rfl⟩ hn
    rintro b s' ⟨hb, rfl⟩
    rw [hbody]
    cases hb with
    | leave hstep => exact ⟨_, hstep, hQ⟩
    | next hstep hrest =>
      have hne := (Scans.next hstep hrest).ne_of_next hstep
      exact ⟨_, hstep, ⟨hrest, rfl⟩, (hμ _ _ hstep).resolve_left hne⟩

/-- A loop whose variables bring a measure down returns exactly if its scan ends. -/
lemma wp_iter_iff (hbody : RoundsOf body step) (μ : β → ℕ)
    (hμ : ∀ b b', step b = some (.inl b') → μ b' < μ b) (hn : μ b < n) :
    wp (iter body n b) Q s ↔ ∃ a, Scans step b a ∧ Q a s :=
  wp_iter_iff_of_progress hbody μ (fun b b' h => .inr (hμ b b' h)) hn

/-- The values that a scan comes to are accessible from where it starts. -/
lemma acc (h : Scans step b a) : Acc (fun b' b => step b = some (.inl b')) b := by
  induction h with
  | leave h =>
    refine ⟨_, fun b' hb' => ?_⟩
    rw [h] at hb'
    simp at hb'
  | next h _ ih =>
    refine ⟨_, fun b' hb' => ?_⟩
    rw [h] at hb'
    obtain rfl : _ = b' := by simpa using hb'
    exact ih

/-- A loop over numbers below `N` returns exactly if its scan ends: it cannot come to one number
twice. -/
lemma wp_iter_iff_of_bounded {body : ℕ → Program σ (ℕ ⊕ α)} {step : ℕ → Option (ℕ ⊕ α)} {b N : ℕ}
    (hbody : RoundsOf body step) (hN : ∀ b b', step b = some (.inl b') → b < N) (hn : N + 1 < n) :
    wp (iter body n b) Q s ↔ ∃ a, Scans step b a ∧ Q a s := by
  constructor
  · exact of_wp_iter hbody
  · rintro ⟨a, h, hQ⟩
    let r : ℕ → ℕ → Prop := fun b' b => step b = some (.inl b')
    let live : ℕ → Prop := fun b => ∃ b', step b = some (.inl b')
    refine wp_iter (fun b s' => Scans step b a ∧ s' = s) (fun b _ => roundsLeft r N live b) ?_
      ⟨h, rfl⟩ ((roundsLeft_le r N live b).trans_lt hn)
    rintro b s' ⟨hb, rfl⟩
    rw [hbody]
    have hacc := hb.acc
    cases hb with
    | leave hstep => exact ⟨_, hstep, hQ⟩
    | next hstep hrest =>
      refine ⟨_, hstep, ⟨hrest, rfl⟩, roundsLeft_lt ⟨_, hstep⟩ hacc ?_⟩
      exact fun ⟨b'', hnext⟩ => ⟨hstep, hN _ _ hnext⟩

end Scans

/-! ## Walks -/

/-- A walk over the records of a buffer: whether what is looked at of a record is inside of the
buffer, where the walk stops, and where it goes on otherwise. -/
structure Walk (β : Type) where
  inside : β → Prop
  stop : β → Prop
  next : β → β

namespace Walk

variable {w : Walk β} {step : β → Option (β ⊕ α)} {b : β} {res : β → α}

/-- A walk from `b` comes to the record `b'` and stops there, with every record on the way
inside. -/
inductive EndsAt (w : Walk β) : β → β → Prop
  | stop {b : β} (hin : w.inside b) (hstop : w.stop b) : EndsAt w b b
  | next {b b' : β} (hin : w.inside b) (hgo : ¬w.stop b) (hrest : EndsAt w (w.next b) b') :
      EndsAt w b b'

/-- A walk comes to a record where it stops, and every record up to this one is inside. -/
def Ends (w : Walk β) (b : β) : Prop :=
  ∃ n, w.stop (w.next^[n] b) ∧ ∀ k ≤ n, w.inside (w.next^[k] b)

lemma ends_iff : w.Ends b ↔ w.inside b ∧ (w.stop b ∨ w.Ends (w.next b)) := by
  constructor
  · rintro ⟨n, hstop, hin⟩
    refine ⟨hin 0 (Nat.zero_le n), ?_⟩
    cases n with
    | zero => exact .inl hstop
    | succ n => exact .inr ⟨n, hstop, fun k hk => hin (k + 1) (Nat.succ_le_succ hk)⟩
  · rintro ⟨hin, hstop | ⟨n, hstop, hrest⟩⟩
    · refine ⟨0, hstop, fun k hk => ?_⟩
      rw [Nat.le_zero.mp hk]
      exact hin
    · refine ⟨n + 1, hstop, fun k hk => ?_⟩
      cases k with
      | zero => exact hin
      | succ k => exact hrest k (Nat.le_of_succ_le_succ hk)

/-- A walk that stays at a record does not end. -/
lemma not_ends_of_stays (hnext : w.next b = b) (hgo : ¬w.stop b) : ¬w.Ends b := by
  rintro ⟨n, hstop, -⟩
  rw [Function.iterate_fixed hnext] at hstop
  exact hgo hstop

lemma ends_iff_exists_endsAt : w.Ends b ↔ ∃ b', w.EndsAt b b' := by
  constructor
  · rintro ⟨n, hstop, hin⟩
    induction n generalizing b with
    | zero => exact ⟨b, .stop (hin 0 le_rfl) hstop⟩
    | succ n ih =>
      by_cases hb : w.stop b
      · exact ⟨b, .stop (hin 0 (Nat.zero_le _)) hb⟩
      · obtain ⟨b', h⟩ := @ih (w.next b) hstop fun k hk => hin (k + 1) (Nat.succ_le_succ hk)
        exact ⟨b', .next (hin 0 (Nat.zero_le _)) hb h⟩
  · rintro ⟨b', h⟩
    induction h with
    | stop hin hstop => exact ends_iff.mpr ⟨hin, .inl hstop⟩
    | next hin _ _ ih => exact ends_iff.mpr ⟨hin, .inr ih⟩

/-- A walk that stops somewhere ends exactly if every record that it comes to is inside. -/
lemma ends_iff_forall (h : ∃ n, w.stop (w.next^[n] b)) :
    w.Ends b ↔ ∀ k, (∀ j < k, ¬w.stop (w.next^[j] b)) → w.inside (w.next^[k] b) := by
  constructor
  · rintro ⟨n, hstop, hin⟩ k hk
    exact hin k (not_lt.mp fun hlt => hk n hlt hstop)
  · intro hin
    classical
    refine ⟨Nat.find h, Nat.find_spec h, fun k hk => hin k fun j hj => ?_⟩
    exact Nat.find_min h (lt_of_lt_of_le hj hk)

/-- The rounds of a scan follow a walk, with the result `res b` where it stops. -/
structure Steps (w : Walk β) (step : β → Option (β ⊕ α)) (res : β → α) : Prop where
  outside {b : β} (hout : ¬w.inside b) : step b = none
  leave {b : β} (hin : w.inside b) (hstop : w.stop b) : step b = some (.inr (res b))
  next {b : β} (hin : w.inside b) (hgo : ¬w.stop b) : step b = some (.inl (w.next b))

/-- A scan that follows a walk ends where the walk does. -/
lemma Steps.scans_iff (h : w.Steps step res) {a : α} :
    Scans step b a ↔ ∃ b', w.EndsAt b b' ∧ a = res b' := by
  constructor
  · intro hscan
    induction hscan with
    | @leave b a hstep =>
      have hin : w.inside b := not_not.mp fun hout => by simp [h.outside hout] at hstep
      have hstop : w.stop b := not_not.mp fun hgo => by simp [h.next hin hgo] at hstep
      rw [h.leave hin hstop] at hstep
      exact ⟨b, .stop hin hstop, (Sum.inr.inj (Option.some.inj hstep)).symm⟩
    | @next b b₁ a hstep _ ih =>
      have hin : w.inside b := not_not.mp fun hout => by simp [h.outside hout] at hstep
      have hgo : ¬w.stop b := fun hstop => by simp [h.leave hin hstop] at hstep
      rw [h.next hin hgo] at hstep
      obtain rfl : w.next b = b₁ := Sum.inl.inj (Option.some.inj hstep)
      obtain ⟨b', hb', ha⟩ := ih
      exact ⟨b', .next hin hgo hb', ha⟩
  · rintro ⟨b', hb', rfl⟩
    induction hb' with
    | stop hin hstop => exact .leave (h.leave hin hstop)
    | next hin hgo _ ih => exact .next (h.next hin hgo) ih

lemma Steps.exists_scans_iff (h : w.Steps step res) : (∃ a, Scans step b a) ↔ w.Ends b := by
  simp only [h.scans_iff, ends_iff_exists_endsAt]
  constructor
  · rintro ⟨_, b', hb', -⟩
    exact ⟨b', hb'⟩
  · rintro ⟨b', hb'⟩
    exact ⟨_, b', hb', rfl⟩

/-- The rounds of a loop follow a walk, leave the state alone and leave with the result `res b`. -/
def Rounds (w : Walk β) (res : β → α) (body : β → Program σ (β ⊕ α)) : Prop :=
  ∀ b Q s, wp (body b) Q s ↔
    w.inside b ∧ (w.stop b → Q (.inr (res b)) s) ∧ (¬w.stop b → Q (.inl (w.next b)) s)

open Classical in
/-- What a round does that follows a walk. -/
noncomputable def round (w : Walk β) (res : β → α) (b : β) : Option (β ⊕ α) :=
  if w.inside b then if w.stop b then some (.inr (res b)) else some (.inl (w.next b)) else none

lemma round_steps (w : Walk β) (res : β → α) : w.Steps (w.round res) res where
  outside hout := if_neg hout
  leave hin hstop := (if_pos hin).trans (if_pos hstop)
  next hin hgo := (if_pos hin).trans (if_neg hgo)

lemma Rounds.roundsOf {body : β → Program σ (β ⊕ α)} (h : w.Rounds res body) :
    RoundsOf body (w.round res) := by
  classical
  intro b Q s
  rw [h, round, exists_ite_eq]
  by_cases hin : w.inside b
  · rw [if_pos hin, and_iff_right hin, exists_ite_eq, exists_some_eq, exists_some_eq]
    by_cases hstop : w.stop b
    · rw [if_pos hstop, forall_prop_of_true hstop]
      exact and_iff_left fun h => absurd hstop h
    · rw [if_neg hstop, forall_prop_of_true hstop]
      exact and_iff_right fun h => absurd h hstop
  · rw [if_neg hin]
    exact iff_of_false (fun h => hin h.1) (by rintro ⟨_, h, _⟩; cases h)

/-- A loop that follows a walk returns exactly if the walk ends. -/
lemma Rounds.wp_iter_iff {body : β → Program σ (β ⊕ α)} (h : w.Rounds res body) (μ : β → ℕ)
    (hμ : ∀ b, w.inside b → ¬w.stop b → w.next b = b ∨ μ (w.next b) < μ b) {n : ℕ} (hn : μ b < n)
    (Q : α → σ → Prop) (s : σ) : wp (iter body n b) Q s ↔ ∃ b', w.EndsAt b b' ∧ Q (res b') s := by
  have hμ' : ∀ b b', w.round res b = some (.inl b') → b' = b ∨ μ b' < μ b := by
    intro b b' hb
    have hin : w.inside b := not_not.mp fun hout => by simp [(w.round_steps res).outside hout] at hb
    have hgo : ¬w.stop b := fun hstop => by simp [(w.round_steps res).leave hin hstop] at hb
    rw [(w.round_steps res).next hin hgo] at hb
    obtain rfl := Sum.inl.inj (Option.some.inj hb)
    exact hμ b hin hgo
  rw [Scans.wp_iter_iff_of_progress h.roundsOf μ hμ' hn]
  simp only [(w.round_steps res).scans_iff]
  constructor
  · rintro ⟨_, ⟨b', hb', rfl⟩, hQ⟩
    exact ⟨b', hb', hQ⟩
  · rintro ⟨b', hb', hQ⟩
    exact ⟨_, ⟨b', hb', rfl⟩, hQ⟩

/-- A walk that ends has come to the record where it does, with every record on the way inside. -/
lemma EndsAt.reaches {b' : β} (h : w.EndsAt b b') :
    w.stop b' ∧ ∃ n, w.next^[n] b = b' ∧ ∀ k ≤ n, w.inside (w.next^[k] b) := by
  induction h with
  | stop hin hstop =>
    refine ⟨hstop, 0, rfl, fun k hk => ?_⟩
    rw [Nat.le_zero.mp hk]
    exact hin
  | next hin _ _ ih =>
    obtain ⟨hstop, n, hn, hall⟩ := ih
    refine ⟨hstop, n + 1, hn, fun k hk => ?_⟩
    cases k with
    | zero => exact hin
    | succ k => exact hall k (Nat.le_of_succ_le_succ hk)

end Walk

/-! ## Listings -/

/-- The entries of a directory among the records of a buffer: there is an entry at the `live` ones,
and nothing more where it is `past`; `nr` is the number of entries before a record. -/
structure Listing (β : Type) where
  inside : β → Prop
  past : β → Prop
  live : β → Prop
  next : β → β
  nr : β → ℕ
  nr_live {b : β} (h : live b) : nr (next b) = nr b + 1
  nr_skip {b : β} (h : ¬live b) : nr (next b) = nr b

namespace Listing

variable {l : Listing β} {P : β → Prop} {b b' : β} {i n : ℕ}

/-- The walk over a listing up to the first entry with the property `P`. -/
def walk (l : Listing β) (P : β → Prop) : Walk β where
  inside := l.inside
  stop b := l.past b ∨ l.live b ∧ P b
  next := l.next

lemma nr_le (h : (l.walk P).EndsAt b b') : l.nr b ≤ l.nr b' := by
  induction h with
  | stop => exact le_rfl
  | @next b b' _ _ _ ih =>
    refine le_trans ?_ ih
    change l.nr b ≤ l.nr (l.next b)
    by_cases hlive : l.live b
    · rw [l.nr_live hlive]
      exact Nat.le_succ _
    · rw [l.nr_skip hlive]

/-- A walk up to an entry has come to those before it. -/
lemma endsAt_of_lt (h : (l.walk P).EndsAt b b') (hlo : l.nr b ≤ i) (hhi : i < l.nr b') :
    ∃ c, (l.walk fun b => l.nr b = i).EndsAt b c ∧ ¬l.past c ∧ ¬P c := by
  induction h with
  | stop => exact absurd hhi (not_lt.mpr hlo)
  | @next b b' hin hgo hrest ih =>
    obtain ⟨hpast, hfound⟩ := not_or.mp hgo
    by_cases hlive : l.live b
    · rcases hlo.eq_or_lt with heq | hlt
      · exact ⟨b, .stop hin (.inr ⟨hlive, heq⟩), hpast, fun hP => hfound ⟨hlive, hP⟩⟩
      · obtain ⟨c, hc, hrest⟩ :=
          ih (by change l.nr (l.next b) ≤ i; rw [l.nr_live hlive]; exact hlt) hhi
        refine ⟨c, .next hin ?_ hc, hrest⟩
        rintro (h | h)
        · exact hpast h
        · exact hlt.ne h.2
    · obtain ⟨c, hc, hrest⟩ :=
        ih (by change l.nr (l.next b) ≤ i; rw [l.nr_skip hlive]; exact hlo) hhi
      refine ⟨c, .next hin ?_ hc, hrest⟩
      rintro (h | h)
      · exact hpast h
      · exact hlive h.1

/-- A walk up to an entry is the walk up to its number. -/
lemma endsAt_nr (h : (l.walk P).EndsAt b b') : (l.walk fun b => l.nr b = l.nr b').EndsAt b b' := by
  induction h with
  | stop hin hstop => exact .stop hin (hstop.imp_right fun h => ⟨h.1, rfl⟩)
  | @next b b' hin hgo hrest ih =>
    refine .next hin ?_ ih
    rintro (h | ⟨hlive, heq⟩)
    · exact hgo (.inl h)
    · have hle : l.nr (l.next b) ≤ l.nr b' := nr_le hrest
      rw [l.nr_live hlive] at hle
      omega

/-- A loop that asks for one entry after the other returns exactly if the walk to the entry searched
for ends. -/
lemma halts_search_iff {body : ℕ → Program σ (ℕ ⊕ α)} {s : σ} (a : α) (found : β → Program σ α)
    (hbody : ∀ i Q, wp (body i) Q s ↔ ∃ c, (l.walk fun b => l.nr b = i).EndsAt b c ∧
      ((l.past c → Q (.inr a) s) ∧ (¬l.past c → P c → wp (found c) (fun r t => Q (.inr r) t) s) ∧
        (¬l.past c → ¬P c → Q (.inl (i + 1)) s)))
    (hfound : ∀ c, Halts (found c) s) (hstart : l.nr b = 0)
    (hn : ∀ c, (l.walk P).EndsAt b c → l.nr c < n) : Halts (iter body n 0) s ↔
    (l.walk P).Ends b := by
  constructor
  · -- by induction on the rounds; the last one has come to the end or to the entry
    clear hn
    generalize 0 = i
    intro h
    induction n generalizing i with
    | zero =>
      obtain ⟨_, _, hnone, -⟩ := h
      cases hnone
    | succ n ih =>
      rw [Halts, wp_iter_succ, hbody] at h
      obtain ⟨c, hc, -, -, hnext⟩ := h
      obtain ⟨hstop, m, hm, hin⟩ := hc.reaches
      by_cases hpast : l.past c
      · refine ⟨m, ?_, hin⟩
        change (l.walk P).stop ((l.walk fun b => l.nr b = i).next^[m] b)
        rw [hm]
        exact .inl hpast
      by_cases hP : P c
      · refine ⟨m, ?_, hin⟩
        change (l.walk P).stop ((l.walk fun b => l.nr b = i).next^[m] b)
        rw [hm]
        exact .inr ⟨(hstop.resolve_left hpast).1, hP⟩
      · exact ih (i + 1) (hnext hpast hP)
  · intro h
    obtain ⟨c, hc⟩ := Walk.ends_iff_exists_endsAt.mp h
    refine wp_iter (fun i t => t = s ∧ i ≤ l.nr c) (fun i _ => l.nr c - i) ?_
      ⟨rfl, Nat.zero_le _⟩ (hn c hc)
    rintro i t ⟨rfl, hi⟩
    rw [hbody]
    rcases hi.eq_or_lt with rfl | hlt
    · refine ⟨c, endsAt_nr hc, fun _ => trivial, fun _ _ => (hfound c).wp fun _ _ => trivial, ?_⟩
      exact fun hpast hP => (hc.reaches.1.elim hpast fun h => hP h.2).elim
    · obtain ⟨d, hd, hpast, hP⟩ := endsAt_of_lt hc (by omega) hlt
      exact ⟨d, hd, fun h => absurd h hpast, fun _ h => absurd h hP, fun _ _ =>
        ⟨⟨rfl, hlt⟩, by omega⟩⟩

end Listing

/-! ## The rounds of a loop -/

/-- What a program returns, as a condition after it. -/
lemma wp_eq_iff {m : Program σ α} {a : α} {s s' : σ} :
    wp m (fun r t => r = a ∧ t = s') s ↔ m s = some (a, s') := by
  constructor
  · rintro ⟨_, _, h, rfl, rfl⟩
    exact h
  · exact fun h => wp_of_eq h ⟨rfl, rfl⟩

/-- The loop variables and the state after `n` rounds that go on. -/
def rounds (body : β → Program σ (β ⊕ α)) : ℕ → β → σ → Option (β × σ)
  | 0, b, s => some (b, s)
  | n + 1, b, s =>
    match body b s with
    | some (.inl b', s') => rounds body n b' s'
    | _ => none

/-- A loop returns by leaving after some number of rounds. -/
lemma iter_eq_some_iff {body : β → Program σ (β ⊕ α)} {m : ℕ} {b : β} {s s' : σ} {a : α} :
    iter body m b s = some (a, s') ↔
      ∃ n < m, ∃ b' t, rounds body n b s = some (b', t) ∧ body b' t = some (.inr a, s') := by
  induction m generalizing b s with
  | zero => simp only [iter, reduceCtorEq, Nat.not_lt_zero, false_and, exists_false]
  | succ m ih =>
    rw [← wp_eq_iff, wp_iter_succ]
    constructor
    · rintro ⟨r, t, hr, hrest⟩
      cases r with
      | inl b' =>
        obtain ⟨n, hn, b'', t', hrounds, hleave⟩ := ih.mp (wp_eq_iff.mp hrest)
        refine ⟨n + 1, Nat.succ_lt_succ hn, b'', t', ?_, hleave⟩
        rw [rounds, hr]
        exact hrounds
      | inr a' =>
        obtain ⟨rfl, rfl⟩ := hrest
        exact ⟨0, Nat.succ_pos m, b, s, rfl, hr⟩
    · rintro ⟨n, hn, b', t, hrounds, hleave⟩
      cases n with
      | zero =>
        obtain ⟨rfl, rfl⟩ := Prod.mk.inj (Option.some.inj hrounds)
        exact wp_of_eq hleave ⟨rfl, rfl⟩
      | succ n =>
        rw [rounds] at hrounds
        split at hrounds
        · rename_i b'' t' hround
          refine wp_of_eq hround (wp_eq_iff.mpr (ih.mpr ?_))
          exact ⟨n, Nat.lt_of_succ_lt_succ hn, b', t, hrounds, hleave⟩
        · cases hrounds

/-- One loop follows another if its rounds do, from related loop variables. -/
lemma rounds_simulate {β' α' : Type} {body : β → Program σ (β ⊕ α)}
    {body' : β' → Program σ (β' ⊕ α')} (R : β → β' → Prop)
    (hstep : ∀ b c b' s s', R b c → body b s = some (.inl b', s') →
      ∃ c', R b' c' ∧ body' c s = some (.inl c', s')) {n : ℕ} {b b' : β} {c : β'} {s s' : σ}
    (hR : R b c) (h : rounds body n b s = some (b', s')) :
    ∃ c', R b' c' ∧ rounds body' n c s = some (c', s') := by
  induction n generalizing b c s with
  | zero =>
    obtain ⟨rfl, rfl⟩ := Prod.mk.inj (Option.some.inj h)
    exact ⟨c, hR, rfl⟩
  | succ n ih =>
    rw [rounds] at h
    split at h
    · rename_i b₁ s₁ hround
      obtain ⟨c₁, hR₁, hround'⟩ := hstep _ _ _ _ _ hR hround
      obtain ⟨c', hR', hrest⟩ := ih hR₁ h
      refine ⟨c', hR', ?_⟩
      rw [rounds, hround']
      exact hrest
    · cases h

end Program
