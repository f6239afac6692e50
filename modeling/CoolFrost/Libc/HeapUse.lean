import CoolFrost.Libc.Kmalloc
import CoolFrost.Libc.HeapRuns

/-!
# Taking from the heap and giving back

What `kmalloc` and `kfree` leave of the map of the heap.  A heap from which nothing has been freed
is filled from the front, so that it is known where the next allocation goes; and whoever frees all
that it has taken leaves every slot as it was.
-/

namespace CoolFrost

open KHeap KHeapState

namespace KMem

variable {area : KHeapArea} {h h' : KMem} {size : UInt64} {align : Int32}

@[simp] lemma ensureInit_ensureInit (area : KHeapArea) (h : KMem) :
    (h.ensureInit area).ensureInit area = h.ensureInit area := by
  unfold ensureInit
  split_ifs <;> rfl

/-- The first call of `kmalloc` sets the heap up. -/
lemma kmalloc_ensureInit (area : KHeapArea) (size : UInt64) (align : Int32) (h : KMem) :
    (h.ensureInit area).kmalloc area size align = h.kmalloc area size align := by
  simp only [kmalloc, ensureInit_ensureInit]

/-- A call of `kmalloc` that fails leaves the heap. -/
lemma kmalloc_failed (hfail : (h.kmalloc area size align).1 = 0) :
    (h.kmalloc area size align).2 = h.ensureInit area := by
  rw [kmalloc] at hfail ⊢
  dsimp only at hfail ⊢
  rcases alloc_cases (h.ensureInit area).kheap (size + extra align) with
    ⟨heq, -⟩ | ⟨before, b, behind, ptr, b', -, -, heq⟩
  · rw [heq]
  · rw [heq] at hfail
    dsimp only at hfail
    split_ifs at hfail
    omega

/-! ## A heap that is filled from the front -/

/-- The first `t` slots of the heap are taken and the others are free. -/
structure Front (area : KHeapArea) (h : KMem) (t : ℕ) : Prop where
  ready : h.kheapReady = true
  block : ∃ b, h.kheap = [b] ∧ b.addr = area.base ∧ b.size = kheapSize - UInt64.ofNat headerSize ∧
    b.bsize = kheapBsize ∧ b.used = UInt64.ofNat t ∧ (∀ i < t, b.bm i ≠ 0) ∧ ∀ i, t ≤ i → b.bm i = 0

lemma front_init (area : KHeapArea) : Front area (boot.ensureInit area) 4096 := by
  refine ⟨rfl, _, rfl, rfl, rfl, rfl, ?_, fun i hi => ?_, fun i hi => ?_⟩
  · exact UInt64.toNat_inj.mp (by rw [toNat_reserved]; rfl)
  · change Runs.fill Bytes.zeros 0 _ 5 i ≠ 0
    rw [toNat_reserved, Runs.fill_of_mem ⟨Nat.zero_le i, by omega⟩]
    decide
  · change Runs.fill Bytes.zeros 0 _ 5 i = 0
    rw [toNat_reserved, Runs.fill_of_not_mem (Or.inr (by omega))]
    rfl

/-- The search finds the first slot that is not taken. -/
lemma scan_front {bm : Bytes} {bcnt n t : ℕ} (htaken : ∀ i < t, bm i ≠ 0)
    (hfree : ∀ i, t ≤ i → bm i = 0) (hle : t + n ≤ bcnt) :
    scan bm bcnt n 0 = some t := by
  rw [scan_skip bm bcnt n 0 t (fun i hi => by rw [Nat.zero_add]; exact htaken i hi) (by omega),
    Nat.zero_add, scan, if_pos hle, if_pos (hfree t le_rfl)]
  rw [Runs.length_eq_of_forall fun i _ => hfree (t + i) (Nat.le_add_right t i)]
  exact if_pos rfl

/-- As long as there is room behind the slots that are taken, an allocation goes there. -/
lemma Front.kmalloc {t n : ℕ} (hf : Front area h t)
    (hn : (slotsFor (size + extra align) 64).toNat = n) (hpos : 0 < n) (hle : t + n ≤ kheapSlots) :
    (h.kmalloc area size align).1 ≠ 0 ∧ Front area (h.kmalloc area size align).2 (t + n) := by
  obtain ⟨b, hb, haddr, hsize, hbsize, hused, htaken, hfree⟩ := hf.block
  obtain ⟨-, -, -, hslots, htotal⟩ := toNat_sizes
  have hready : h.ensureInit area = h := if_pos hf.ready
  have hroom := (toNat_le_slotsFor (size + extra align)).1
  rw [hn] at hroom
  have hmax : kheapSlots = 262143 := rfl
  have hmul : (UInt64.ofNat t * kheapBsize).toNat = t * 64 := by
    have h64 : kheapBsize.toNat = 64 := rfl
    rw [UInt64.toNat_mul, h64, UInt64.toNat_ofNat', Nat.mod_eq_of_lt (by omega : t < 2 ^ 64)]
    exact Nat.mod_eq_of_lt (by omega)
  have hfits : size + extra align ≤ b.size - b.used * b.bsize := by
    rw [hsize, hused, hbsize, UInt64.le_iff_toNat_le, UInt64.toNat_sub_of_le, hmul, htotal]
    · omega
    · rw [UInt64.le_iff_toNat_le, hmul, htotal]
      omega
  have hcnt : (b.size / b.bsize).toNat = kheapSlots := by rw [hsize, hbsize]; exact hslots
  have hneed : (slotsFor (size + extra align) b.bsize).toNat = n := by rw [hbsize]; exact hn
  obtain ⟨id, hid, heq⟩ : ∃ id ≠ 0, allocIn b (size + extra align) =
      some (t * b.bsize.toNat + (b.addr + headerSize),
        { b with
          bm := Runs.fill b.bm t n id
          lfb := UInt64.ofNat (t + n) - 1
          used := b.used + UInt64.ofNat n }) := by
    refine ⟨getNID (if 0 < t then b.bm (t - 1) else 0)
      (if t + n < kheapSlots then b.bm (t + n) else 0), (getNID_ne _ _).1, ?_⟩
    rw [allocIn, if_pos hfits]
    dsimp only
    rw [hcnt, hneed, scan_front htaken hfree hle]
    rfl
  rw [KMem.kmalloc, hready, hb]
  dsimp only [KHeap.alloc]
  rw [heq]
  refine ⟨?_, hf.ready, _, rfl, haddr, hsize, hbsize, ?_, fun i hi => ?_, fun i hi => ?_⟩
  · dsimp only
    split_ifs
    · omega
    · omega
  · rw [hused, UInt64.ofNat_add]
  · change Runs.fill b.bm t n id i ≠ 0
    by_cases hlt : i < t
    · rw [Runs.fill_of_not_mem (Or.inl hlt)]
      exact htaken i hlt
    · rw [Runs.fill_of_mem ⟨not_lt.mp hlt, hi⟩]
      exact hid
  · change Runs.fill b.bm t n id i = 0
    rw [Runs.fill_of_not_mem (Or.inr hi)]
    exact hfree i (by omega)

/-! ## Giving back what was taken -/

/-- The heap `h` is the heap `h₀`, in which the allocations `live` are made, with the allocations
`mine` as well. -/
structure Took (area : KHeapArea) (h₀ : KMem) (live : List KAlloc) (h : KMem) (mine : List KAlloc) :
    Prop where
  working : ∃ b, Working area ⟨h, mine ++ live⟩ b
  others : ∀ i, (∀ a ∈ mine, a.taken i = false) → h.slots i = h₀.slots i
  was_free : ∀ a ∈ mine, ∀ i, a.taken i = true → h₀.slots i = 0

variable {h₀ : KMem} {live mine : List KAlloc}

lemma took_nothing {b : KHeapBlock} (h : Working area ⟨h₀, live⟩ b) : Took area h₀ live h₀ [] where
  working := ⟨b, h⟩
  others _ _ := rfl
  was_free _ ha := absurd ha List.not_mem_nil

lemma Took.ready (h : Took area h₀ live h' mine) : h'.ensureInit area = h' := by
  obtain ⟨b, hb⟩ := h.working
  exact if_pos hb.ready

/-- All slots are as before when everything is given back. -/
lemma Took.slots_eq (h : Took area h₀ live h' []) : h'.slots = h₀.slots :=
  funext fun i => h.others i fun _ ha => absurd ha List.not_mem_nil

/-- `kmalloc` changes free slots only. -/
lemma slots_of_kmalloc {s : KHeapState} {b : KHeapBlock} (h : Working area s b)
    (hfits : size.toNat + (extra align).toNat < 2 ^ 64) {i : ℕ}
    (hne : s.mem.slots i ≠ (s.mem.kmalloc area size align).2.slots i) : s.mem.slots i = 0 := by
  have hready : s.mem.ensureInit area = s.mem := if_pos h.ready
  have hsum : (size + extra align).toNat = size.toNat + (extra align).toNat := by
    rw [UInt64.toNat_add, Nat.mod_eq_of_lt hfits]
  have hpos : size + extra align ≠ 0 := by
    intro hzero
    have hextra : 8 ≤ (extra align).toNat := by
      unfold extra
      split_ifs
      · decide
      · decide
    have hzero' : (0 : UInt64).toNat = 0 := rfl
    rw [hzero, hzero'] at hsum
    omega
  rw [slots_of_kheap h.kheap] at hne ⊢
  rw [KMem.kmalloc, hready, h.kheap, KHeap.alloc] at hne
  cases halloc : allocIn b (size + extra align) with
  | none =>
    rw [halloc] at hne
    exact absurd rfl hne
  | some r =>
    obtain ⟨raw, b'⟩ := r
    obtain ⟨x, n, id, ht⟩ := allocIn_spec h.bsize hpos halloc
    rw [halloc] at hne
    change b.bm i ≠ b'.bm i at hne
    rw [ht.bm_eq] at hne
    by_cases hmem : x ≤ i ∧ i < x + n
    · exact ht.was_free i hmem.1 hmem.2
    · rw [Runs.fill_of_not_mem (by omega)] at hne
      exact absurd rfl hne

/-- One more allocation. -/
lemma Took.kmalloc (h : Took area h₀ live h' mine)
    (hfits : size.toNat + (extra align).toNat < 2 ^ 64) (hne : (h'.kmalloc area size align).1 ≠ 0) :
    ∃ a : KAlloc, a.p = (h'.kmalloc area size align).1 ∧
      Took area h₀ live (h'.kmalloc area size align).2 (a :: mine) := by
  obtain ⟨b, hb⟩ := h.working
  have hslots := fun i => slots_of_kmalloc (i := i) hb hfits
  obtain ⟨b', hb'⟩ := hb.kmalloc hfits rfl
  dsimp only at hb' hslots
  rw [if_neg hne, h.ready] at hb'
  refine ⟨_, rfl, ⟨b', hb'⟩, fun i hi => ?_, fun a ha i htaken => ?_⟩
  · have hsame := of_decide_eq_false (hi _ List.mem_cons_self)
    rw [← not_not.mp hsame]
    exact h.others i fun a ha => hi a (List.mem_cons_of_mem _ ha)
  · rcases List.mem_cons.mp ha with rfl | ha
    · have hzero := hslots i (of_decide_eq_true htaken)
      rw [← h.others i fun a ha => ?_]
      · exact hzero
      · -- the slots of an allocation are not free
        obtain ⟨x, n, v, hm⟩ := hb.marked a (List.mem_append_left _ ha)
        rw [Bool.eq_false_iff]
        intro htrue
        have hmem := of_decide_eq_true ((hm.taken i).symm.trans htrue)
        rw [slots_of_kheap hb.kheap, hm.run.eq i hmem.1 hmem.2] at hzero
        exact hm.ne hzero
    · exact h.was_free a ha i htaken

/-- A call of `kmalloc` that fails takes nothing. -/
lemma Took.kmalloc_failed (h : Took area h₀ live h' mine)
    (hzero : (h'.kmalloc area size align).1 = 0) :
    Took area h₀ live (h'.kmalloc area size align).2 mine := by
  rw [KMem.kmalloc_failed hzero, h.ready]
  exact h

/-- Giving one allocation back. -/
lemma Took.kfree {before behind : List KAlloc} {a : KAlloc}
    (h : Took area h₀ live h' (before ++ a :: behind)) :
    Took area h₀ live (h'.kfree a.p) (before ++ behind) := by
  obtain ⟨b, hb⟩ := h.working
  have hlist : before ++ a :: behind ++ live = before ++ a :: (behind ++ live) := by
    rw [List.append_assoc, List.cons_append]
  rw [hlist] at hb
  have hget : (before ++ a :: (behind ++ live))[before.length]? = some a := by
    rw [List.getElem?_append_right le_rfl, Nat.sub_self]
    rfl
  have hfrees := hb.safe.frees a (List.mem_of_getElem? hget)
  obtain ⟨b', hb'⟩ := hb.kfree hget
  have herase : (before ++ a :: (behind ++ live)).eraseIdx before.length =
      before ++ behind ++ live := by
    rw [List.eraseIdx_append_of_length_le le_rfl, Nat.sub_self, List.eraseIdx_cons_zero,
      List.append_assoc]
  dsimp only at hb' hfrees
  rw [herase] at hb'
  refine ⟨⟨b', hb'⟩, fun i hi => ?_, fun a' ha' => h.was_free a' (List.mem_append.mpr ?_)⟩
  · rw [hfrees]
    split_ifs with htaken
    · exact (h.was_free a (List.mem_append_right _ List.mem_cons_self) i htaken).symm
    · refine h.others i fun a' ha' => ?_
      rcases List.mem_append.mp ha' with ha' | ha'
      · exact hi a' (List.mem_append_left _ ha')
      · rcases List.mem_cons.mp ha' with rfl | ha'
        · exact Bool.eq_false_iff.mpr htaken
        · exact hi a' (List.mem_append_right _ ha')
  · rcases List.mem_append.mp ha' with ha' | ha'
    · exact Or.inl ha'
    · exact Or.inr (List.mem_cons_of_mem _ ha')

/-- Giving all of them back, in any order. -/
lemma Took.kfree_all {ptrs : List ℕ} (h : Took area h₀ live h' mine)
    (hperm : (mine.map KAlloc.p).Perm ptrs) :
    Took area h₀ live (ptrs.foldl (fun h p => h.kfree p) h') [] := by
  induction ptrs generalizing h' mine with
  | nil =>
    obtain rfl := List.map_eq_nil_iff.mp hperm.eq_nil
    exact h
  | cons p ptrs ih =>
    obtain ⟨a, ha, rfl⟩ := List.mem_map.mp (hperm.mem_iff.mpr List.mem_cons_self)
    obtain ⟨before, behind, rfl⟩ := List.append_of_mem ha
    refine ih h.kfree ?_
    rw [List.map_append, List.map_cons] at hperm
    rw [List.map_append]
    exact (List.perm_middle.symm.trans hperm).cons_inv

end KMem

end CoolFrost
