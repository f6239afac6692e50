import Mathlib.Data.List.Basic
import Mathlib.Data.List.Nodup
import Mathlib.Tactic

/-!
# Bounded FIFO maps

A map that holds at most `n` entries, as the list of them, the newest first.  A key that is in the
map keeps its place when its value changes; a new key takes the place in front, and the entry that
has been in the map for longest is dropped when there is no room.
-/

namespace FifoMap

variable {α β : Type} [DecidableEq α] {n : ℕ} {m : List (α × β)} {k k' : α} {v v' : β}

/-- The keys of a map. -/
def keys (m : List (α × β)) : List α := m.map Prod.fst

/-- The value of a key. -/
def lookup (m : List (α × β)) (k : α) : Option β := (m.find? fun e => e.1 = k).map Prod.snd

/-- Give a key a value. -/
def insert (n : ℕ) (m : List (α × β)) (k : α) (v : β) : List (α × β) :=
  if k ∈ keys m then m.map fun e => if e.1 = k then (k, v) else e else ((k, v) :: m).take n

/-- The map after a history of insertions. -/
def run (n : ℕ) (history : List (α × β)) : List (α × β) :=
  history.foldl (fun m e => insert n m e.1 e.2) []

/-! ## The history -/

/-- Fewer than `n` keys have been added since `k` was added last. -/
def Current (n : ℕ) (added : List α) (k : α) : Prop := k ∈ added ∧ added.idxOf k < n

instance (n : ℕ) (added : List α) (k : α) : Decidable (Current n added k) :=
  inferInstanceAs (Decidable (_ ∧ _))

/-- The keys that a history of insertions adds, the last one first. -/
def added (n : ℕ) (history : List (α × β)) : List α :=
  history.foldl (fun l e => if Current n l e.1 then l else e.1 :: l) []

/-- The value in the last insertion of a key. -/
def lastValue (history : List (α × β)) (k : α) : Option β := lookup history.reverse k

/-! ## Looking up -/

omit [DecidableEq α] in
lemma mem_keys : k ∈ keys m ↔ ∃ v, (k, v) ∈ m := by
  simp only [keys, List.mem_map, Prod.exists, exists_and_right, exists_eq_right]

lemma mem_of_lookup (h : lookup m k = some v) : (k, v) ∈ m := by
  obtain ⟨e, he, rfl⟩ := Option.map_eq_some_iff.mp h
  have hkey := List.find?_some he
  obtain rfl := of_decide_eq_true hkey
  exact List.mem_of_find?_eq_some he

lemma lookup_eq_none_iff : lookup m k = none ↔ k ∉ keys m := by
  rw [lookup, Option.map_eq_none_iff, List.find?_eq_none, mem_keys]
  constructor
  · rintro h ⟨v, hv⟩
    exact h _ hv (decide_eq_true rfl)
  · rintro h ⟨k', v⟩ he hkey
    obtain rfl := of_decide_eq_true hkey
    exact h ⟨v, he⟩

/-- An entry is found if no key occurs twice. -/
lemma lookup_of_mem (hm : (keys m).Nodup) (h : (k, v) ∈ m) : lookup m k = some v := by
  cases hlook : lookup m k with
  | none => exact absurd (mem_keys.mpr ⟨v, h⟩) (lookup_eq_none_iff.mp hlook)
  | some v' =>
    have heq := List.inj_on_of_nodup_map hm (mem_of_lookup hlook) h rfl
    rw [(Prod.mk.inj heq).2]

lemma lookup_cons (e : α × β) (m : List (α × β)) (k : α) :
    lookup (e :: m) k = if e.1 = k then some e.2 else lookup m k := by
  rw [lookup, List.find?_cons]
  by_cases h : e.1 = k
  · rw [if_pos h, decide_eq_true h]
    rfl
  · rw [if_neg h, decide_eq_false h]
    rfl

/-! ## Insertions -/

/-- To be current is to be among the first `n`. -/
lemma current_iff {l : List α} : Current n l k ↔ k ∈ l.take n := by
  constructor
  · rintro ⟨hmem, hlt⟩
    exact (List.mem_take_iff_idxOf_lt hmem).mpr hlt
  · intro h
    have hmem := List.mem_of_mem_take h
    exact ⟨hmem, (List.mem_take_iff_idxOf_lt hmem).mp h⟩

/-- Changing the value of a key leaves the keys. -/
lemma keys_replace (m : List (α × β)) (k : α) (v : β) :
    keys (m.map fun e => if e.1 = k then (k, v) else e) = keys m := by
  rw [keys, keys, List.map_map]
  refine List.map_congr_left fun e _ => ?_
  by_cases h : e.1 = k
  · simp [h]
  · simp [h]

omit [DecidableEq α] in
lemma take_cons_take (k : α) (l : List α) : (k :: l.take n).take n = (k :: l).take n := by
  cases n with
  | zero => rfl
  | succ n => rw [List.take_succ_cons, List.take_succ_cons, List.take_take,
      Nat.min_eq_left (Nat.le_succ n)]

/-- The keys in the map are the ones added last. -/
theorem keys_run (n : ℕ) (history : List (α × β)) :
    keys (run n history) = (added n history).take n := by
  induction history using List.reverseRecOn with
  | nil => exact (List.take_nil).symm
  | append_singleton history e ih =>
    rw [run, List.foldl_append, added, List.foldl_append]
    change keys (insert n (run n history) e.1 e.2) =
      (if Current n (added n history) e.1 then added n history else e.1 :: added n history).take n
    have hmem : e.1 ∈ keys (run n history) ↔ Current n (added n history) e.1 := by
      rw [ih, current_iff]
    rw [insert]
    by_cases h : Current n (added n history) e.1
    · rw [if_pos (hmem.mpr h), if_pos h, keys_replace, ih]
    · rw [if_neg (hmem.not.mpr h), if_neg h, keys, List.map_take, List.map_cons]
      change (e.1 :: keys (run n history)).take n = _
      rw [ih, take_cons_take]

/-- No key occurs twice. -/
lemma nodup_insert (h : (keys m).Nodup) (n : ℕ) (k : α) (v : β) :
    (keys (insert n m k v)).Nodup := by
  rw [insert]
  by_cases hk : k ∈ keys m
  · rw [if_pos hk, keys_replace]
    exact h
  · rw [if_neg hk, keys, List.map_take]
    apply List.Nodup.sublist (List.take_sublist _ _)
    exact List.nodup_cons.mpr ⟨hk, h⟩

lemma length_insert_le (h : m.length ≤ n) (k : α) (v : β) : (insert n m k v).length ≤ n := by
  rw [insert]
  by_cases hk : k ∈ keys m
  · rw [if_pos hk, List.length_map]
    exact h
  · rw [if_neg hk]
    exact List.length_take_le _ _

/-- An entry is the new one or an old one with another key. -/
lemma mem_insert (h : (k', v') ∈ insert n m k v) : k' = k ∧ v' = v ∨ k' ≠ k ∧ (k', v') ∈ m := by
  rw [insert] at h
  by_cases hk : k ∈ keys m
  · rw [if_pos hk] at h
    obtain ⟨e, he, heq⟩ := List.mem_map.mp h
    by_cases hkey : e.1 = k
    · rw [if_pos hkey] at heq
      exact Or.inl (Prod.mk.inj heq.symm)
    · rw [if_neg hkey] at heq
      subst heq
      exact Or.inr ⟨hkey, he⟩
  · rw [if_neg hk] at h
    rcases List.mem_cons.mp (List.mem_of_mem_take h) with heq | hmem
    · exact Or.inl (Prod.mk.inj heq)
    · refine Or.inr ⟨?_, hmem⟩
      rintro rfl
      exact hk (mem_keys.mpr ⟨v', hmem⟩)

lemma lastValue_append (history : List (α × β)) (e : α × β) (k : α) :
    lastValue (history ++ [e]) k = if e.1 = k then some e.2 else lastValue history k := by
  rw [lastValue, List.reverse_append, List.reverse_singleton, List.singleton_append, lookup_cons]
  rfl

/-- Every entry has the value of the last insertion of its key. -/
lemma lastValue_of_mem {history : List (α × β)} (h : (k, v) ∈ run n history) :
    lastValue history k = some v := by
  induction history using List.reverseRecOn generalizing k v with
  | nil => cases h
  | append_singleton history e ih =>
    rw [run, List.foldl_append] at h
    rw [lastValue_append]
    rcases mem_insert h with ⟨rfl, rfl⟩ | ⟨hne, hmem⟩
    · exact if_pos rfl
    · rw [if_neg hne.symm]
      exact ih hmem

/-- A key is found, with the value of its last insertion, exactly as long as it is current. -/
theorem lookup_run (n : ℕ) (history : List (α × β)) (k : α) :
    lookup (run n history) k =
      if Current n (added n history) k then lastValue history k else none := by
  have hkeys := keys_run n history
  by_cases h : Current n (added n history) k
  · rw [if_pos h]
    cases hlook : lookup (run n history) k with
    | none =>
      have hnot := lookup_eq_none_iff.mp hlook
      rw [hkeys, ← current_iff] at hnot
      exact absurd h hnot
    | some v => exact (lastValue_of_mem (mem_of_lookup hlook)).symm
  · rw [if_neg h, lookup_eq_none_iff, hkeys, ← current_iff]
    exact h

end FifoMap
