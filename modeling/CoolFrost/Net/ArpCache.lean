import CoolFrost.Lib.FifoMap
import CoolFrost.Net.Net

/-!
# The ARP cache is a bounded FIFO map

The entries of the cache, read backwards from the one that was added last, are the entries of a FIFO
map of at most `ARP_CACHE_SIZE` entries, and `arp_insert` and `arp_lookup` are its operations.
-/

namespace CoolFrost

namespace ArpCache

open FifoMap

variable {c : ArpCache} {m : List (IpAddr × MacAddr)}

/-- The slot of the entry that `j` entries have been added after. -/
def slot (next j : ℕ) : ℕ := (next + 15 - j) % arpCacheSize

/-- What a slot holds. -/
def held (e : ArpEntry) : Option (IpAddr × MacAddr) := if e.valid then some (e.ip, e.mac) else none

/-- What the slot of that entry holds. -/
def entryAt (c : ArpCache) (j : ℕ) : Option (IpAddr × MacAddr) := held (c.entries (slot c.next j))

/-- The cache holds the entries of the map. -/
structure Holds (c : ArpCache) (m : List (IpAddr × MacAddr)) : Prop where
  next_lt : c.next < arpCacheSize
  length_le : m.length ≤ arpCacheSize
  entries : ∀ j < arpCacheSize, m[j]? = entryAt c j
  nodup : (keys m).Nodup

lemma slot_lt (next j : ℕ) : slot next j < arpCacheSize := Nat.mod_lt _ (by decide)

/-- Every slot is the place of an entry. -/
lemma exists_slot {next i : ℕ} (hnext : next < arpCacheSize) (hi : i < arpCacheSize) :
    ∃ j < arpCacheSize, slot next j = i := by
  refine ⟨(next + 15 + 16 - i) % 16, Nat.mod_lt _ (by decide), ?_⟩
  unfold slot
  unfold arpCacheSize at *
  omega

lemma slot_inj {next j j' : ℕ} (hj : j < arpCacheSize) (hj' : j' < arpCacheSize)
    (h : slot next j = slot next j') : j = j' := by
  unfold slot at h
  unfold arpCacheSize at *
  omega

/-- One more entry has been added after every other one. -/
lemma slot_succ {next j : ℕ} (hnext : next < arpCacheSize) (hj : j + 1 < arpCacheSize) :
    slot ((next + 1) % arpCacheSize) (j + 1) = slot next j ∧ slot next j ≠ next := by
  unfold slot
  unfold arpCacheSize at *
  omega

/-- The last entry is in front of the next slot. -/
lemma slot_zero {next : ℕ} (hnext : next < arpCacheSize) :
    slot ((next + 1) % arpCacheSize) 0 = next := by
  unfold slot
  unfold arpCacheSize at *
  omega

/-- A valid entry belongs to the map. -/
lemma Holds.getElem?_of_valid (h : Holds c m) {i : ℕ} (hi : i < arpCacheSize)
    (hvalid : (c.entries i).valid = true) :
    ∃ j < arpCacheSize, slot c.next j = i ∧ m[j]? = some ((c.entries i).ip, (c.entries i).mac) := by
  obtain ⟨j, hj, rfl⟩ := exists_slot h.next_lt hi
  refine ⟨j, hj, rfl, ?_⟩
  rw [h.entries j hj, entryAt, held]
  exact if_pos hvalid

/-- A key of the map is found. -/
lemma Holds.find_isSome (h : Holds c m) {ip : IpAddr} (hip : ip ∈ keys m) : c.find ip ≠ none := by
  obtain ⟨mac, hmem⟩ := mem_keys.mp hip
  obtain ⟨j, hlt, hj⟩ := List.mem_iff_getElem.mp hmem
  have hsome : m[j]? = some (ip, mac) := by rw [List.getElem?_eq_getElem hlt, hj]
  have hj16 : j < arpCacheSize := hlt.trans_le h.length_le
  rw [h.entries j hj16, entryAt, held] at hsome
  split_ifs at hsome with hvalid
  obtain ⟨rfl, -⟩ := Prod.mk.inj (Option.some.inj hsome)
  intro hnone
  have hnot := List.find?_eq_none.mp hnone _ (List.mem_range.mpr (slot_lt c.next j))
  simp [hvalid] at hnot

/-- What is found is an entry of the map. -/
lemma Holds.find_eq_some (h : Holds c m) {ip : IpAddr} {i : ℕ} (hfind : c.find ip = some i) :
    (c.entries i).valid = true ∧ (c.entries i).ip = ip ∧
      ∃ j < arpCacheSize, slot c.next j = i ∧ m[j]? = some (ip, (c.entries i).mac) := by
  have hi := List.mem_range.mp (List.mem_of_find?_eq_some hfind)
  have hprop := List.find?_some hfind
  rw [Bool.and_eq_true] at hprop
  obtain ⟨hvalid, hip⟩ := hprop
  obtain rfl := of_decide_eq_true hip
  exact ⟨hvalid, rfl, h.getElem?_of_valid hi hvalid⟩

/-- `arp_lookup` looks up in the map. -/
lemma Holds.arpLookup_eq (h : Holds c m) (ip : IpAddr) : c.arpLookup ip = lookup m ip := by
  rw [arpLookup]
  cases hfind : c.find ip with
  | none =>
    have hnot : ip ∉ keys m := fun hip => h.find_isSome hip hfind
    rw [lookup_eq_none_iff.mpr hnot]
    rfl
  | some i =>
    obtain ⟨-, -, j, -, -, hj⟩ := h.find_eq_some hfind
    exact (lookup_of_mem h.nodup (List.mem_of_getElem? hj)).symm

/-- `arp_insert` without an entry for the address. -/
lemma arpInsert_of_none {ip : IpAddr} (h : c.find ip = none) (mac : MacAddr) :
    c.arpInsert ip mac =
      ⟨Function.update c.entries c.next ⟨ip, mac, true⟩, (c.next + 1) % arpCacheSize⟩ := by
  rw [arpInsert, h]

/-- `arp_insert` with an entry for the address. -/
lemma arpInsert_of_some {ip : IpAddr} {i : ℕ} (h : c.find ip = some i) (mac : MacAddr) :
    c.arpInsert ip mac =
      ⟨Function.update c.entries i ⟨(c.entries i).ip, mac, (c.entries i).valid⟩, c.next⟩ := by
  rw [arpInsert, h]

/-- A new entry takes the place in front. -/
lemma Holds.arpInsert_of_none (h : Holds c m) {ip : IpAddr} (hfind : c.find ip = none)
    (mac : MacAddr) :
    Holds (c.arpInsert ip mac) (insert arpCacheSize m ip mac) := by
  have hnot : ip ∉ keys m := fun hip => h.find_isSome hip hfind
  rw [ArpCache.arpInsert_of_none hfind]
  refine ⟨Nat.mod_lt _ (by decide), length_insert_le h.length_le ip mac, fun j hj => ?_,
    nodup_insert h.nodup arpCacheSize ip mac⟩
  rw [FifoMap.insert, if_neg hnot, List.getElem?_take_of_lt hj, entryAt]
  dsimp only
  cases j with
  | zero =>
    rw [slot_zero h.next_lt, Function.update_self, List.getElem?_cons_zero]
    rfl
  | succ j =>
    obtain ⟨hslot, hne⟩ := slot_succ h.next_lt hj
    rw [hslot, Function.update_of_ne hne, List.getElem?_cons_succ,
      h.entries j (Nat.lt_of_succ_lt hj), entryAt]

/-- An entry with a new value keeps its place. -/
lemma Holds.arpInsert_of_some (h : Holds c m) {ip : IpAddr} {i : ℕ} (hfind : c.find ip = some i)
    (mac : MacAddr) : Holds (c.arpInsert ip mac) (insert arpCacheSize m ip mac) := by
  obtain ⟨hvalid, hip, j₀, hj₀, rfl, hentry⟩ := h.find_eq_some hfind
  have hmem : ip ∈ keys m := mem_keys.mpr ⟨_, List.mem_of_getElem? hentry⟩
  rw [ArpCache.arpInsert_of_some hfind]
  refine ⟨h.next_lt, length_insert_le h.length_le ip mac, fun j hj => ?_,
    nodup_insert h.nodup arpCacheSize ip mac⟩
  rw [FifoMap.insert, if_pos hmem, List.getElem?_map, entryAt]
  dsimp only
  by_cases hslot : slot c.next j = slot c.next j₀
  · obtain rfl := slot_inj hj hj₀ hslot
    rw [hentry, Option.map_some, if_pos rfl, Function.update_self, held, if_pos hvalid, hip]
  · -- another entry has another key
    rw [Function.update_of_ne hslot]
    change _ = entryAt c j
    rw [← h.entries j hj]
    cases hj' : m[j]? with
    | none => rfl
    | some e =>
      have hkey : e.1 ≠ ip := by
        intro heq
        have hkeys : (keys m)[j]? = (keys m)[j₀]? := by
          rw [keys, List.getElem?_map, List.getElem?_map, hj', hentry, Option.map_some,
            Option.map_some, heq]
        have hlt : j < (keys m).length := by
          rw [keys, List.length_map]
          exact (List.getElem?_eq_some_iff.mp hj').1
        exact hslot (congrArg (slot c.next) ((List.getElem?_inj hlt h.nodup).mp hkeys))
      rw [Option.map_some, if_neg hkey]

/-- `arp_insert` inserts into the map. -/
lemma Holds.arpInsert (h : Holds c m) (ip : IpAddr) (mac : MacAddr) :
    Holds (c.arpInsert ip mac) (insert arpCacheSize m ip mac) := by
  cases hfind : c.find ip with
  | none => exact h.arpInsert_of_none hfind mac
  | some i => exact h.arpInsert_of_some hfind mac

/-- At boot the cache is empty. -/
lemma holds_boot : Holds boot [] := ⟨by decide, Nat.zero_le _, fun _ _ => rfl, List.nodup_nil⟩

/-- The cache after a history of insertions. -/
def runInserts (history : List (IpAddr × MacAddr)) : ArpCache :=
  history.foldl (fun c e => c.arpInsert e.1 e.2) boot

lemma holds_run (history : List (IpAddr × MacAddr)) :
    Holds (runInserts history) (run arpCacheSize history) := by
  induction history using List.reverseRecOn with
  | nil => exact holds_boot
  | append_singleton history e ih =>
    rw [runInserts, List.foldl_append, run, List.foldl_append]
    exact ih.arpInsert e.1 e.2

/-- After any insertions there is at most one valid entry for an address, and what is found for it
is the MAC address of its last insertion, as long as fewer than `ARP_CACHE_SIZE` entries have been
added since its own was. -/
theorem arpLookup_run (history : List (IpAddr × MacAddr)) :
    (∀ i < arpCacheSize, ∀ j < arpCacheSize, ((runInserts history).entries i).valid = true →
      ((runInserts history).entries j).valid = true →
      ((runInserts history).entries i).ip = ((runInserts history).entries j).ip → i = j) ∧
    ∀ ip, (runInserts history).arpLookup ip =
      if Current arpCacheSize (added arpCacheSize history) ip then
          lastValue history ip else none := by
  have h := holds_run history
  constructor
  · intro i hi j hj hvi hvj heq
    obtain ⟨a, ha, rfl, hai⟩ := h.getElem?_of_valid hi hvi
    obtain ⟨b, hb, rfl, hbj⟩ := h.getElem?_of_valid hj hvj
    have hkeys : (keys (run arpCacheSize history))[a]? = (keys (run arpCacheSize history))[b]? := by
      rw [keys, List.getElem?_map, List.getElem?_map, hai, hbj, Option.map_some,
        Option.map_some, heq]
    have hlt : a < (keys (run arpCacheSize history)).length := by
      rw [keys, List.length_map]
      exact (List.getElem?_eq_some_iff.mp hai).1
    rw [(List.getElem?_inj hlt h.nodup).mp hkeys]
  · intro ip
    rw [h.arpLookup_eq, lookup_run]

end ArpCache

end CoolFrost
