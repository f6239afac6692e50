import CoolFrost.Libc.HeapMap

/-!
# Runs of the bitmap allocator

A heap is built from any number of blocks and serves allocations of any size but 0.  Only what is
live is freed.
-/

namespace CoolFrost

namespace KHeap

/-- The heap together with the live allocations. -/
structure State where
  heap : List KHeapBlock
  live : List Allocation

/-- A call of the allocator; the allocation freed is given by its place among the live ones. -/
inductive Op where
  | addBlock (addr : ℕ) (size bsize : UInt64)
  | alloc (size : UInt64)
  | free (i : ℕ)
  deriving DecidableEq, Repr

/-- Where a block begins and ends. -/
def extent (b : KHeapBlock) : ℕ × ℕ := (b.addr, b.addr + headerSize + b.size.toNat)

/-- Two ranges of memory do not meet. -/
def Apart (e e' : ℕ × ℕ) : Prop := e.2 ≤ e'.1 ∨ e'.2 ≤ e.1

instance (e e' : ℕ × ℕ) : Decidable (Apart e e') := inferInstanceAs (Decidable (_ ∨ _))

/-- The memory can be added to the heap: it has room for the header, it is in the address space and
not longer than any memory is, and no block of the heap is in it. -/
def Addable (s : State) (addr : ℕ) (size bsize : UInt64) : Prop :=
  bsize ≠ 0 ∧ headerSize ≤ size.toNat ∧ size.toNat < 2 ^ 63 ∧ addr + size.toNat < 2 ^ 64 ∧
    ∀ b ∈ s.heap, Apart (addr, addr + size.toNat) (extent b)

instance (s : State) (addr : ℕ) (size bsize : UInt64) : Decidable (Addable s addr size bsize) :=
  inferInstanceAs (Decidable (_ ∧ _ ∧ _ ∧ _ ∧ _))

/-- The state after a call; `none` for a call that nobody makes. -/
def step (s : State) : Op → Option State
  | .addBlock addr size bsize =>
    if Addable s addr size bsize then some ⟨addBlock addr size bsize s.heap, s.live⟩ else none
  | .alloc size =>
    if size = 0 then none
    else
      match alloc s.heap size with
      | (none, heap) => some ⟨heap, s.live⟩
      | (some ptr, heap) => some ⟨heap, ⟨ptr, size⟩ :: s.live⟩
  | .free i =>
    match s.live[i]? with
    | none => none
    | some a => some ⟨free s.heap a.ptr, s.live.eraseIdx i⟩

/-- The state after the calls of a run, from `k_heapBMInit` on. -/
def run (ops : List Op) : Option State := ops.foldlM step ⟨[], []⟩

/-- What the maps say. -/
structure Mapped (s : State) : Prop where
  /-- The slots of an allocation have one byte between them, which is not 0. -/
  ids : ∀ b ∈ s.heap, ∀ a ∈ s.live, Holds b a.ptr → ∃ id ≠ (0 : UInt8),
    ∀ i, (region b a).1 ≤ i → i < (region b a).1 + (region b a).2 → b.bm i = id
  /-- Allocations that follow one another directly have different bytes. -/
  adjacent : ∀ b ∈ s.heap, ∀ a ∈ s.live, ∀ a' ∈ s.live, Holds b a.ptr → Holds b a'.ptr →
    (region b a).1 + (region b a).2 = (region b a').1 → b.bm (region b a').1 ≠ b.bm (region b a).1
  /-- So have the map and an allocation that follows it. -/
  beside_map : ∀ b ∈ s.heap, ∀ a ∈ s.live, Holds b a.ptr → (region b a).1 = mapSlots b →
    0 < mapSlots b → b.bm (region b a).1 ≠ b.bm 0
  /-- Every allocation is in one of the blocks. -/
  held : ∀ a ∈ s.live, ∃ b ∈ s.heap, Holds b a.ptr
  /-- The count is the number of slots that are not free. -/
  used : ∀ b ∈ s.heap, b.used.toNat = Runs.taken 0 b.bm (slots b)
  /-- Only where no block has room the null pointer is returned. -/
  null_iff : ∀ size ≠ 0, (alloc s.heap size).1 = none ↔
    ∀ b ∈ s.heap, ¬Window b (size.toNat ⌈/⌉ b.bsize.toNat)
  /-- Freeing what has just been allocated gives back the maps. -/
  undo : ∀ size ≠ 0, ∀ ptr, (alloc s.heap size).1 = some ptr →
    (free (alloc s.heap size).2 ptr).map KHeapBlock.bm = s.heap.map KHeapBlock.bm

/-! ## The list of blocks -/

/-- The first block that does not refuse serves the allocation. -/
lemma alloc_cases (heap : List KHeapBlock) (size : UInt64) :
    (alloc heap size = (none, heap) ∧ ∀ b ∈ heap, allocIn b size = none) ∨
    ∃ before b behind ptr b', heap = before ++ b :: behind ∧ allocIn b size = some (ptr, b') ∧
      alloc heap size = (some ptr, before ++ b' :: behind) := by
  induction heap with
  | nil => exact Or.inl ⟨rfl, fun b hb => absurd hb List.not_mem_nil⟩
  | cons c heap ih =>
    cases hc : allocIn c size with
    | some r =>
      refine Or.inr ⟨[], c, heap, r.1, r.2, rfl, hc, ?_⟩
      rw [alloc, hc]
      rfl
    | none =>
      rcases ih with ⟨heq, hnone⟩ | ⟨before, b, behind, ptr, b', rfl, hb, heq⟩
      · refine Or.inl ⟨?_, List.forall_mem_cons.mpr ⟨hc, hnone⟩⟩
        rw [alloc, hc, heq]
      · refine Or.inr ⟨c :: before, b, behind, ptr, b', rfl, hb, ?_⟩
        rw [alloc, hc, heq]
        rfl

/-- The block that a pointer is in frees it. -/
lemma free_append {before behind : List KHeapBlock} {b : KHeapBlock} {ptr : ℕ}
    (hbefore : ∀ c ∈ before, ¬Holds c ptr) (hb : Holds b ptr) :
    free (before ++ b :: behind) ptr = before ++ freeIn b ptr :: behind := by
  induction before with
  | nil => exact if_pos hb
  | cons c before ih =>
    obtain ⟨hc, hrest⟩ := List.forall_mem_cons.mp hbefore
    rw [List.cons_append, free]
    change (if Holds c ptr then _ else _) = _
    rw [if_neg hc, ih hrest]
    rfl

/-! ## What holds in every state reached -/

/-- The blocks are in order and apart from each other, and every allocation is in one of them. -/
structure Ok (s : State) : Prop where
  blocks : ∀ b ∈ s.heap, BlockOk b s.live
  apart : (s.heap.map extent).Pairwise Apart
  held : ∀ a ∈ s.live, ∃ b ∈ s.heap, Holds b a.ptr

variable {s s' : State} {before behind : List KHeapBlock} {b : KHeapBlock} {ptr : ℕ}

/-- Of blocks that are apart one alone holds a pointer. -/
lemma not_holds_of_apart {heap : List KHeapBlock} (hheap : heap = before ++ b :: behind)
    (hapart : (heap.map extent).Pairwise Apart) (hb : Holds b ptr) :
    (∀ c ∈ before, ¬Holds c ptr) ∧ ∀ c ∈ behind, ¬Holds c ptr := by
  subst hheap
  rw [List.map_append, List.map_cons] at hapart
  obtain ⟨-, hbehind, hacross⟩ := List.pairwise_append.mp hapart
  obtain ⟨hb₁, hb₂⟩ := hb
  constructor
  · intro c hc hin
    obtain ⟨hc₁, hc₂⟩ := hin
    rcases hacross _ (List.mem_map_of_mem hc) _ List.mem_cons_self with h | h
    · exact absurd h (by simp only [extent]; omega)
    · exact absurd h (by simp only [extent]; omega)
  · intro c hc hin
    obtain ⟨hc₁, hc₂⟩ := hin
    rcases (List.pairwise_cons.mp hbehind).1 _ (List.mem_map_of_mem hc) with h | h
    · exact absurd h (by simp only [extent]; omega)
    · exact absurd h (by simp only [extent]; omega)

/-- A block that is replaced by one of the same extent holds what it held. -/
lemma held_replace {b' : KHeapBlock} (hb' : extent b' = extent b)
    (h : ∃ c ∈ before ++ b :: behind, Holds c ptr) :
    ∃ c ∈ before ++ b' :: behind, Holds c ptr := by
  obtain ⟨c, hc, hin⟩ := h
  rcases List.mem_append.mp hc with hc | hc
  · exact ⟨c, List.mem_append_left _ hc, hin⟩
  · rcases List.mem_cons.mp hc with rfl | hc
    · obtain ⟨haddr, hend⟩ := Prod.mk.inj hb'
      refine ⟨b', List.mem_append_right _ List.mem_cons_self, ?_, ?_⟩
      · rw [haddr]
        exact hin.1
      · rw [hend]
        exact hin.2
    · exact ⟨c, List.mem_append_right _ (List.mem_cons_of_mem _ hc), hin⟩

lemma extents_replace {b' : KHeapBlock} (hb' : extent b' = extent b) :
    (before ++ b' :: behind).map extent = (before ++ b :: behind).map extent := by
  rw [List.map_append, List.map_append, List.map_cons, List.map_cons, hb']

/-- An allocation keeps the state in order. -/
lemma Ok.alloc (h : Ok s) {size : UInt64} (hsize : size ≠ 0) (hs : s.heap = before ++ b :: behind)
    {x : ℕ} {id : UInt8} (ht : Takes b size x id) :
    Ok ⟨before ++ mark b x (slotsFor size b.bsize).toNat id :: behind,
      ⟨x * b.bsize.toNat + (b.addr + headerSize), size⟩ :: s.live⟩ := by
  have hmem : b ∈ s.heap := by
    rw [hs]
    exact List.mem_append_right _ List.mem_cons_self
  have hb := h.blocks b hmem
  have hpos := slotsFor_pos hb.bsize_ne hsize
  have hle := ht.le
  have hholds := holds_slot hb.bsize_ne (b := b) (x := x) (by omega)
  obtain ⟨hbefore, hbehind⟩ := not_holds_of_apart hs h.apart hholds
  have hextent : extent (mark b x (slotsFor size b.bsize).toNat id) = extent b := rfl
  refine ⟨fun c hc => ?_, ?_, fun a ha => ?_⟩
  · rcases List.mem_append.mp hc with hc | hc
    · refine (h.blocks c ?_).cons_of_not_holds (hbefore c hc)
      rw [hs]
      exact List.mem_append_left _ hc
    · rcases List.mem_cons.mp hc with rfl | hc
      · exact hb.mark hsize ht
      · refine (h.blocks c ?_).cons_of_not_holds (hbehind c hc)
        rw [hs]
        exact List.mem_append_right _ (List.mem_cons_of_mem _ hc)
  · rw [extents_replace hextent, ← hs]
    exact h.apart
  · refine held_replace hextent ?_
    rw [← hs]
    rcases List.mem_cons.mp ha with rfl | ha
    · exact ⟨b, hmem, hholds⟩
    · exact h.held a ha

/-- Freeing an allocation keeps the state in order. -/
lemma Ok.free {live live' : List Allocation} {a : Allocation} {heap : List KHeapBlock}
    (h : Ok ⟨heap, live ++ a :: live'⟩) : Ok ⟨free heap a.ptr, live ++ live'⟩ := by
  have hamem : a ∈ live ++ a :: live' := List.mem_append_right _ List.mem_cons_self
  obtain ⟨b, hmem, hin⟩ := h.held a hamem
  obtain ⟨before, behind, rfl⟩ := List.append_of_mem hmem
  obtain ⟨hbefore, hbehind⟩ := not_holds_of_apart rfl h.apart hin
  have hb := h.blocks b hmem
  rw [free_append hbefore hin, hb.freeIn_eq hamem hin]
  have hextent : extent (clear b (region b a).1 (region b a).2) = extent b := rfl
  refine ⟨fun c hc => ?_, ?_, fun a' ha' => ?_⟩
  · rcases List.mem_append.mp hc with hc | hc
    · exact (h.blocks c (List.mem_append_left _ hc)).drop_of_not_holds (hbefore c hc)
    · rcases List.mem_cons.mp hc with rfl | hc
      · exact hb.clear hin
      · exact (h.blocks c (List.mem_append_right _ (List.mem_cons_of_mem _ hc))).drop_of_not_holds
          (hbehind c hc)
  · change ((before ++ _ :: behind).map extent).Pairwise Apart
    rw [extents_replace hextent]
    exact h.apart
  · exact held_replace hextent (h.held a' (mem_append_cons_of_mem ha'))

/-- A new block has the region of its map and no other. -/
lemma blockOk_new {b : KHeapBlock} {live : List Allocation} (hbsize : b.bsize ≠ 0)
    (hfits : b.addr + headerSize + b.size.toNat < 2 ^ 64)
    (hno : ∀ a ∈ live, ¬Holds b a.ptr) (hbm : b.bm = Runs.fill Bytes.zeros 0 (mapSlots b) 5)
    (hused : b.used.toNat = mapSlots b) : BlockOk b live := by
  have hle : 0 + mapSlots b ≤ slots b := by
    rw [Nat.zero_add]
    exact slotsFor_le _ hbsize
  have hnil : (live.filter fun a => Holds b a.ptr) = [] :=
    List.filter_eq_nil_iff.mpr fun a ha => by simpa using hno a ha
  refine ⟨hbsize, hfits, fun a ha hin => absurd hin (hno a ha), ?_, ?_⟩
  · rw [regions, hnil, List.map_nil, List.nil_append, mapRegion, hbm]
    split_ifs with hpos
    · refine Runs.Marked.mark ⟨fun r hr => absurd hr List.not_mem_nil, List.Pairwise.nil⟩ hpos hle
        (fun i _ _ => rfl) (by decide) (fun h => absurd h (lt_irrefl 0)) fun _ => ?_
      exact (by decide : (0 : UInt8) ≠ 5)
    · exact ⟨fun r hr => absurd hr List.not_mem_nil, List.Pairwise.nil⟩
  · have hzero : Runs.taken 0 Bytes.zeros (slots b) = 0 := by
      rw [Runs.taken, Finset.card_eq_zero, Finset.filter_eq_empty_iff]
      exact fun i _ hne => hne rfl
    have hfill : Runs.fill Bytes.zeros 0 (mapSlots b) 0 = Bytes.zeros :=
      Runs.fill_eq_self fun i _ _ => rfl
    rw [hused, hbm, Runs.taken_fill Bytes.zeros (by decide) hle, hfill, hzero, Nat.zero_add]

/-- Adding memory that no block is in keeps the state in order. -/
lemma Ok.addBlock (h : Ok s) {addr : ℕ} {size bsize : UInt64} (hadd : Addable s addr size bsize) :
    Ok ⟨addBlock addr size bsize s.heap, s.live⟩ := by
  obtain ⟨hbsize, hheader, -, hfits, hapart⟩ := hadd
  have hsize : (size - UInt64.ofNat headerSize).toNat = size.toNat - headerSize :=
    UInt64.toNat_sub_of_le _ _ (UInt64.le_iff_toNat_le.mpr hheader)
  obtain ⟨b, hb, hbaddr, hbs, hbsz, hbm, hused⟩ : ∃ b, KHeap.addBlock addr size bsize s.heap =
      b :: s.heap ∧ b.addr = addr ∧ b.size = size - UInt64.ofNat headerSize ∧ b.bsize = bsize ∧
        b.bm = Runs.fill Bytes.zeros 0 (mapSlots b) 5 ∧ b.used.toNat = mapSlots b :=
    ⟨_, rfl, rfl, rfl, rfl, rfl, rfl⟩
  have hextent : extent b = (addr, addr + size.toNat) := by
    rw [extent, hbaddr, hbs, hsize]
    congr 1
    omega
  have hend : b.addr + headerSize + b.size.toNat = addr + size.toNat := congrArg Prod.snd hextent
  have hno : ∀ a ∈ s.live, ¬Holds b a.ptr := by
    rintro a ha ⟨hlow, hhigh⟩
    obtain ⟨c, hc, hclow, hchigh⟩ := h.held a ha
    rw [hbaddr] at hlow
    rw [hend] at hhigh
    rcases hapart c hc with hdisj | hdisj
    · exact absurd hdisj (by simp only [extent]; omega)
    · exact absurd hdisj (by simp only [extent]; omega)
  rw [hb]
  refine ⟨List.forall_mem_cons.mpr ⟨?_, h.blocks⟩, ?_, fun a ha => ?_⟩
  · refine blockOk_new ?_ ?_ hno hbm hused
    · rw [hbsz]
      exact hbsize
    · rw [hend]
      exact hfits
  · refine List.pairwise_cons.mpr ⟨fun e he => ?_, h.apart⟩
    obtain ⟨c, hc, rfl⟩ := List.mem_map.mp he
    rw [hextent]
    exact hapart c hc
  · obtain ⟨c, hc, hin⟩ := h.held a ha
    exact ⟨c, List.mem_cons_of_mem _ hc, hin⟩

/-- A call keeps the state in order. -/
lemma Ok.step (h : Ok s) {op : Op} (hstep : step s op = some s') : Ok s' := by
  cases op with
  | addBlock addr size bsize =>
    rw [KHeap.step] at hstep
    split_ifs at hstep with hadd
    obtain rfl := Option.some.inj hstep
    exact h.addBlock hadd
  | alloc size =>
    rw [KHeap.step] at hstep
    split_ifs at hstep with hsize
    rcases alloc_cases s.heap size with ⟨heq, -⟩ | ⟨before, b, behind, ptr, b', hs, hb, heq⟩
    · rw [heq] at hstep
      obtain rfl := Option.some.inj hstep
      exact h
    · rw [heq] at hstep
      obtain rfl := Option.some.inj hstep
      obtain ⟨x, id, ht, rfl, rfl⟩ := allocIn_eq_some hb
      exact h.alloc hsize hs ht
  | free i =>
    rw [KHeap.step] at hstep
    cases hi : s.live[i]? with
    | none =>
      rw [hi] at hstep
      cases hstep
    | some a =>
      rw [hi] at hstep
      obtain rfl := Option.some.inj hstep
      obtain ⟨hlt, rfl⟩ := List.getElem?_eq_some_iff.mp hi
      have hsplit : s.live = s.live.take i ++ s.live[i] :: s.live.drop (i + 1) := by
        rw [List.getElem_cons_drop, List.take_append_drop]
      rw [List.eraseIdx_eq_take_drop_succ]
      refine Ok.free ?_
      rw [← hsplit]
      exact h

/-- A state in order keeps what is promised. -/
lemma Ok.mapped (h : Ok s) : Mapped s := by
  refine ⟨fun b hb a ha hin => ?_, fun b hb a ha a' ha' hin hin' hnext => ?_,
    fun b hb a ha hin hfirst hpos => ?_, h.held, fun b hb => (h.blocks b hb).used,
    fun size hsize => ?_, fun size hsize ptr halloc => ?_⟩
  · obtain ⟨hne, hrun⟩ := (h.blocks b hb).marked.run _ (region_mem hin ha)
    exact ⟨_, hne, hrun.eq⟩
  · exact (h.blocks b hb).marked.ne_of_adjacent (region_mem hin ha) (region_mem hin' ha') hnext
  · have hmap : (0, mapSlots b) ∈ regions b s.live := by
      refine List.mem_append_right _ ?_
      rw [mapRegion, if_pos hpos]
      exact List.mem_singleton.mpr rfl
    refine (h.blocks b hb).marked.ne_of_adjacent hmap (region_mem hin ha) ?_
    rw [hfirst]
    exact Nat.zero_add _
  · have hceil : ∀ b ∈ s.heap, (allocIn b size = none ↔
        ¬Window b (size.toNat ⌈/⌉ b.bsize.toNat)) := fun b hb => by
      rw [(h.blocks b hb).allocIn_eq_none_iff hsize, toNat_slotsFor size (h.blocks b hb).bsize_ne]
    rcases alloc_cases s.heap size with ⟨heq, hnone⟩ | ⟨before, b, behind, ptr, b', hs, hb, heq⟩
    · rw [heq]
      exact iff_of_true rfl fun b hb => (hceil b hb).mp (hnone b hb)
    · have hmem : b ∈ s.heap := by
        rw [hs]
        exact List.mem_append_right _ List.mem_cons_self
      rw [heq]
      refine iff_of_false (Option.some_ne_none _) fun hno => ?_
      exact absurd ((hceil b hmem).mpr (hno b hmem)) (by rw [hb]; exact Option.some_ne_none _)
  · rcases alloc_cases s.heap size with ⟨heq, -⟩ | ⟨before, b, behind, ptr', b', hs, hb, heq⟩
    · rw [heq] at halloc
      cases halloc
    · rw [heq] at halloc ⊢
      obtain rfl := Option.some.inj halloc
      obtain ⟨x, id, ht, rfl, rfl⟩ := allocIn_eq_some hb
      have hmem : b ∈ s.heap := by
        rw [hs]
        exact List.mem_append_right _ List.mem_cons_self
      have hok := h.blocks b hmem
      have hpos := slotsFor_pos hok.bsize_ne hsize
      have hle := ht.le
      have hholds := holds_slot hok.bsize_ne (b := b) (x := x) (by omega)
      obtain ⟨hbefore, -⟩ := not_holds_of_apart hs h.apart hholds
      have hmark : Holds (mark b x (slotsFor size b.bsize).toNat id)
          (x * b.bsize.toNat + (b.addr + headerSize)) := hholds
      rw [free_append hbefore hmark, hs, List.map_append, List.map_append, List.map_cons,
        List.map_cons, hok.undo hsize ht]

/-- In every run of the allocator the maps say where the live allocations are, and nothing else. -/
theorem mapped_of_run (ops : List Op) (s : State) (hrun : run ops = some s) : Mapped s := by
  have hempty : Ok ⟨[], []⟩ :=
    ⟨fun b hb => absurd hb List.not_mem_nil, List.Pairwise.nil, fun a ha =>
      absurd ha List.not_mem_nil⟩
  exact (PartialRun.invariant (Q := fun _ => True) (fun h _ hstep => Ok.step h hstep) hempty
    (fun _ _ => trivial) hrun : Ok s).mapped

lemma exists_step_alloc (s : State) {size : UInt64} (hsize : size ≠ 0) :
    ∃ s', step s (.alloc size) = some s' := by
  rw [step, if_neg hsize]
  rcases alloc s.heap size with ⟨_ | ptr, heap⟩
  · exact ⟨_, rfl⟩
  · exact ⟨_, rfl⟩

/-- Two blocks, one of them with slots of 16 bytes, and two allocations. -/
theorem mapped_of_run_two : ∃ s,
    run [.addBlock 0x1000 0x400 16, .addBlock 0x2000 0x1000 64, .alloc 100,
      .alloc 0x2000] = some s ∧
      Mapped s := by
  obtain ⟨s₁, h₁⟩ : ∃ s, step ⟨[], []⟩ (.addBlock 0x1000 0x400 16) = some s := ⟨_, rfl⟩
  obtain ⟨s₂, h₂⟩ : ∃ s, step s₁ (.addBlock 0x2000 0x1000 64) = some s := by
    obtain rfl := Option.some.inj h₁
    exact ⟨_, rfl⟩
  obtain ⟨s₃, h₃⟩ := @exists_step_alloc s₂ 100 (by decide)
  obtain ⟨s₄, h₄⟩ := @exists_step_alloc s₃ 0x2000 (by decide)
  have hrun : run [.addBlock 0x1000 0x400 16, .addBlock 0x2000 0x1000 64, .alloc 100,
      .alloc 0x2000] = some s₄ := by
    simp [run, List.foldlM_cons, h₁, h₂, h₃, h₄]
  exact ⟨s₄, hrun, mapped_of_run _ s₄ hrun⟩

end KHeap

end CoolFrost
