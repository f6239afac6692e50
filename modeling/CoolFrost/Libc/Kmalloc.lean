import CoolFrost.Lib.PartialRun
import CoolFrost.Libc.Heap

/-!
# The kernel heap

`kmalloc` and `kfree` (`libc/mem.c`) over the bitmap allocator and one static area of 16 MiB.  Every
allocation is preceded by a word with the address that the allocator gave out, so that an aligned
allocation can begin anywhere inside of its slots.  In every run the allocations lie in the area and
apart from each other, as long as no request is so large that adding the room for the word wraps
around.
-/

namespace CoolFrost

open KHeap

/-- `KHEAP_SIZE`. -/
def kheapSize : UInt64 := 16 * 1024 * 1024
/-- `KHEAP_BSIZE`. -/
def kheapBsize : UInt64 := 64

/-- The place of `kheap_area`: on a page boundary, in the lower half of the address space. -/
structure KHeapArea where
  base : ℕ
  aligned : 4096 ∣ base
  pos : 0 < base
  low : base + kheapSize.toNat ≤ 2 ^ 47

/-- The static variables of the heap, and the words in front of the allocations. -/
structure KMem where
  kheap : List KHeapBlock
  kheapReady : Bool
  word : ℕ → ℕ

namespace KMem

/-- `kheap_ensure_init`. -/
def ensureInit (area : KHeapArea) (m : KMem) : KMem :=
  if m.kheapReady then m
  else { m with kheap := addBlock area.base kheapSize kheapBsize [], kheapReady := true }

/-- The room that `kmalloc` adds to a request. -/
def extra (align : Int32) : UInt64 := 8 + (if align ≠ 0 then 0x1000 else 0)

/-- `kmalloc`; the address returned, which is 0 for a failure, is also what it stores through
`phys_addr`. -/
def kmalloc (area : KHeapArea) (size : UInt64) (align : Int32) (m : KMem) : ℕ × KMem :=
  let m := m.ensureInit area
  match KHeap.alloc m.kheap (size + extra align) with
  | (none, kheap) => (0, { m with kheap := kheap })
  | (some raw, kheap) =>
    let p := if align ≠ 0 then (raw + 8 + 0xFFF) / 0x1000 * 0x1000 else raw + 8
    (p, { m with kheap := kheap, word := Function.update m.word (p - 8) raw })

/-- `kfree`. -/
def kfree (p : ℕ) (m : KMem) : KMem :=
  if p = 0 ∨ !m.kheapReady then m else { m with kheap := KHeap.free m.kheap (m.word (p - 8)) }

/-- The heap before its first use. -/
def boot : KMem := ⟨[], false, fun _ => 0⟩

/-- The byte of every slot. -/
def slots (m : KMem) : Bytes :=
  match m.kheap with
  | [] => Bytes.zeros
  | b :: _ => b.bm

end KMem

/-! ## Runs -/

/-- A live allocation: its address, what was asked for, and the slots that were marked for it. -/
structure KAlloc where
  p : ℕ
  size : UInt64
  align : Int32
  taken : ℕ → Bool

/-- The heap together with the live allocations. -/
structure KHeapState where
  mem : KMem
  live : List KAlloc

/-- A call of the heap; the allocation freed is given by its place among the live ones. -/
inductive KHeapOp where
  | kmalloc (size : UInt64) (align : Int32)
  | kfree (i : ℕ)

namespace KHeapState

/-- The state after a call; `none` for a `kfree` of something that is not live. -/
def step (area : KHeapArea) (s : KHeapState) : KHeapOp → Option KHeapState
  | .kmalloc size align =>
    let r := s.mem.kmalloc area size align
    some
      { mem := r.2
        live :=
          if r.1 = 0 then s.live
          else ⟨r.1, size, align, fun i =>
            (s.mem.ensureInit area).slots i ≠ r.2.slots i⟩ :: s.live }
  | .kfree i =>
    match s.live[i]? with
    | none => none
    | some a => some ⟨s.mem.kfree a.p, s.live.eraseIdx i⟩

/-- The state after the calls of a run. -/
def run (area : KHeapArea) (ops : List KHeapOp) : Option KHeapState :=
  ops.foldlM (step area) ⟨KMem.boot, []⟩

/-- The end of the heap's own header and bitmap. -/
def metaEnd (area : KHeapArea) : ℕ :=
  area.base + headerSize + ((kheapSize - UInt64.ofNat headerSize) / kheapBsize).toNat

/-- The slot that an address is in. -/
def slotOf (area : KHeapArea) (addr : ℕ) : ℕ := (addr - (area.base + headerSize)) / kheapBsize.toNat

/-- What is promised to the users of the heap. -/
structure Safe (area : KHeapArea) (s : KHeapState) : Prop where
  /-- Allocations and the words in front of them are inside of the area, behind the bitmap. -/
  inside : ∀ a ∈ s.live,
    metaEnd area + 8 ≤ a.p ∧ a.p + a.size.toNat ≤ area.base + kheapSize.toNat
  /-- No two allocations meet. -/
  disjoint : s.live.Pairwise fun a a' =>
    a.p + a.size.toNat ≤ a'.p - 8 ∨ a'.p + a'.size.toNat ≤ a.p - 8
  /-- Allocations that are asked to be aligned are. -/
  aligned : ∀ a ∈ s.live, a.align ≠ 0 → 4096 ∣ a.p
  /-- The bytes of an allocation are in slots that were marked for it and still are. -/
  covered : ∀ a ∈ s.live, ∀ addr, a.p - 8 ≤ addr → addr < a.p + a.size.toNat →
    a.taken (slotOf area addr) ∧ s.mem.slots (slotOf area addr) ≠ 0
  /-- Freeing an allocation frees its slots and no other. -/
  frees : ∀ a ∈ s.live, ∀ i, (s.mem.kfree a.p).slots i = if a.taken i then 0 else s.mem.slots i

end KHeapState

/-- Adding the room for the word and for the alignment does not wrap around. -/
def KHeapOp.Fits : KHeapOp → Prop
  | .kmalloc size align => size.toNat + (KMem.extra align).toNat < 2 ^ 64
  | .kfree _ => True

namespace KHeapState

/-! ## What holds in every state reached -/

/-- The number of slots of the area. -/
def kheapSlots : ℕ := 262143

/-- The slots from `x` to `x + n` belong to an allocation. -/
structure Marks (area : KHeapArea) (bm : Bytes) (word : ℕ → ℕ) (a : KAlloc) (x n : ℕ) (v : UInt8) :
    Prop where
  run : Runs.IsRun bm kheapSlots v x n
  ne : v ≠ 0
  first : 4096 ≤ x
  taken : ∀ i, a.taken i = decide (x ≤ i ∧ i < x + n)
  word : word (a.p - 8) = area.base + headerSize + 64 * x
  lower : area.base + headerSize + 64 * x + 8 ≤ a.p
  upper : a.p + a.size.toNat ≤ area.base + headerSize + 64 * (x + n)
  aligned : a.align ≠ 0 → 4096 ∣ a.p

/-- The heap is its one block, and every live allocation has slots of its own. -/
structure Working (area : KHeapArea) (s : KHeapState) (b : KHeapBlock) : Prop where
  ready : s.mem.kheapReady = true
  kheap : s.mem.kheap = [b]
  addr : b.addr = area.base
  size : b.size = kheapSize - UInt64.ofNat headerSize
  bsize : b.bsize = kheapBsize
  reserved : ∀ i < 4096, b.bm i ≠ 0
  marked : ∀ a ∈ s.live, ∃ x n v, Marks area b.bm s.mem.word a x n v
  apart : s.live.Pairwise fun a a' => ∀ i, ¬(a.taken i ∧ a'.taken i)

variable {area : KHeapArea} {s s' : KHeapState} {b : KHeapBlock}

lemma toNat_sizes : kheapSize.toNat = 16777216 ∧ kheapBsize.toNat = 64 ∧ headerSize = 40 ∧
    ((kheapSize - UInt64.ofNat headerSize) / kheapBsize).toNat = kheapSlots ∧
    (kheapSize - UInt64.ofNat headerSize).toNat = 16777176 := by
  decide

lemma slots_of_kheap {m : KMem} (h : m.kheap = [b]) : m.slots = b.bm := by
  rw [KMem.slots, h]

/-- An address in the bytes of an allocation or in the word in front of them is in one of its
slots. -/
lemma Marks.slotOf_mem {bm : Bytes} {word : ℕ → ℕ} {a : KAlloc} {x n : ℕ} {v : UInt8}
    (h : Marks area bm word a x n v) {addr : ℕ} (hle : a.p - 8 ≤ addr)
    (hlt : addr < a.p + a.size.toNat) : x ≤ slotOf area addr ∧ slotOf area addr < x + n := by
  obtain ⟨-, h64, -⟩ := toNat_sizes
  have hlower := h.lower
  have hupper := h.upper
  rw [slotOf, h64]
  omega

/-- Allocations that share no slot are one behind the other. -/
lemma Marks.separate {bm : Bytes} {word : ℕ → ℕ} {a a' : KAlloc} {x n x' n' : ℕ} {v v' : UInt8}
    (h : Marks area bm word a x n v) (h' : Marks area bm word a' x' n' v')
    (hapart : ∀ i, ¬(a.taken i ∧ a'.taken i)) : x + n ≤ x' ∨ x' + n' ≤ x := by
  have hpos := h.run.pos
  have hpos' := h'.run.pos
  by_contra hmeet
  refine hapart (max x x') ⟨?_, ?_⟩
  · rw [h.taken]
    exact decide_eq_true (by omega)
  · rw [h'.taken]
    exact decide_eq_true (by omega)

/-- Freeing an allocation is freeing its run. -/
lemma Working.kfree_eq (h : Working area s b) {a : KAlloc} {x n : ℕ} {v : UInt8}
    (hm : Marks area b.bm s.mem.word a x n v) :
    s.mem.kfree a.p =
        { s.mem with kheap := [freeIn b (b.addr + headerSize + 64 * x)] } ∧
      (freeIn b (b.addr + headerSize + 64 * x)).bm = Runs.fill b.bm x n 0 := by
  obtain ⟨hsize, -, hheader, hslots, htotal⟩ := toNat_sizes
  have hlow := area.low
  have hlower := hm.lower
  have hle := hm.run.le
  have hpos := hm.run.pos
  rw [hsize] at hlow
  have hcnt : (b.size / 64).toNat = kheapSlots := by rw [h.size]; exact hslots
  have hfits : b.addr + headerSize + 64 * x < 2 ^ 64 := by
    rw [h.addr]
    unfold kheapSlots at hle
    omega
  constructor
  · have hne : ¬(a.p = 0 ∨ !s.mem.kheapReady) := by
      rw [h.ready]
      simp only [Bool.not_true, Bool.false_eq_true, or_false]
      omega
    have hin : b.addr < b.addr + headerSize + 64 * x ∧
        b.addr + headerSize + 64 * x < b.addr + headerSize + b.size.toNat := by
      rw [h.size, htotal, hheader]
      unfold kheapSlots at hle
      omega
    rw [KMem.kfree, if_neg hne, hm.word, h.kheap, ← h.addr, KHeap.free, if_pos hin]
  · refine freeIn_bm h.bsize (v := v) ?_ hfits
    rw [hcnt]
    exact hm.run

/-- Allocations with slots of their own keep what is promised. -/
lemma Working.safe (h : Working area s b) : Safe area s := by
  obtain ⟨hsize, -, hheader, hslots, -⟩ := toNat_sizes
  have hbm := slots_of_kheap h.kheap
  refine ⟨fun a ha => ?_, ?_, fun a ha => ?_, fun a ha addr hle hlt => ?_, fun a ha i => ?_⟩
  · obtain ⟨x, n, v, hm⟩ := h.marked a ha
    have hfirst := hm.first
    have hlower := hm.lower
    have hupper := hm.upper
    have hle := hm.run.le
    rw [metaEnd, hslots, hsize, hheader]
    rw [hheader] at hlower hupper
    unfold kheapSlots at hle ⊢
    omega
  · refine h.apart.imp_of_mem fun {a a'} ha ha' hapart => ?_
    obtain ⟨x, n, v, hm⟩ := h.marked a ha
    obtain ⟨x', n', v', hm'⟩ := h.marked a' ha'
    have hlower := hm.lower
    have hupper := hm.upper
    have hlower' := hm'.lower
    have hupper' := hm'.upper
    have hsep := hm.separate hm' hapart
    omega
  · obtain ⟨x, n, v, hm⟩ := h.marked a ha
    exact hm.aligned
  · obtain ⟨x, n, v, hm⟩ := h.marked a ha
    have hmem := hm.slotOf_mem hle hlt
    rw [hm.taken, hbm, hm.run.eq _ hmem.1 hmem.2]
    exact ⟨decide_eq_true hmem, hm.ne⟩
  · obtain ⟨x, n, v, hm⟩ := h.marked a ha
    obtain ⟨hfree, hfill⟩ := h.kfree_eq hm
    rw [hfree, hbm, hm.taken]
    change (freeIn b (b.addr + headerSize + 64 * x)).bm i = _
    rw [hfill]
    by_cases hmem : x ≤ i ∧ i < x + n
    · rw [Runs.fill_of_mem hmem, decide_eq_true hmem, if_pos rfl]
    · rw [Runs.fill_of_not_mem (by omega), decide_eq_false hmem, if_neg Bool.false_ne_true]

/-- Two live allocations share no slot. -/
lemma Working.apart_of_ne (h : Working area s b) {i j : ℕ} (hij : i ≠ j) {a a' : KAlloc}
    (ha : s.live[i]? = some a) (ha' : s.live[j]? = some a') : ∀ k, ¬(a.taken k ∧ a'.taken k) := by
  obtain ⟨hi, rfl⟩ := List.getElem?_eq_some_iff.mp ha
  obtain ⟨hj, rfl⟩ := List.getElem?_eq_some_iff.mp ha'
  have hpair := List.pairwise_iff_getElem.mp h.apart
  rcases Nat.lt_or_gt_of_ne hij with hlt | hgt
  · exact hpair i j hi hj hlt
  · exact fun k hboth => hpair j i hj hi hgt k hboth.symm

/-- Freeing one allocation leaves the others as they are. -/
lemma Working.kfree (h : Working area s b) {i : ℕ} {a : KAlloc} (ha : s.live[i]? = some a) :
    ∃ b', Working area ⟨s.mem.kfree a.p, s.live.eraseIdx i⟩ b' := by
  obtain ⟨x, n, v, hm⟩ := h.marked a (List.mem_of_getElem? ha)
  obtain ⟨hfree, hfill⟩ := h.kfree_eq hm
  refine ⟨freeIn b (b.addr + headerSize + 64 * x), ?_⟩
  rw [hfree]
  obtain ⟨haddr, hsize, hbsize⟩ := freeIn_frame b (b.addr + headerSize + 64 * x)
  refine ⟨h.ready, rfl, haddr.trans h.addr, hsize.trans h.size, hbsize.trans h.bsize,
    fun j hj => ?_, fun a' ha' => ?_, ?_⟩
  · have hfirst := hm.first
    rw [hfill, Runs.fill_of_not_mem (by omega)]
    exact h.reserved j hj
  · obtain ⟨x', n', v', hm'⟩ := h.marked a' (List.mem_of_mem_eraseIdx ha')
    obtain ⟨j, hji, hj⟩ := List.mem_eraseIdx_iff_getElem?.mp ha'
    have hsep := hm'.separate hm (h.apart_of_ne hji hj ha)
    refine ⟨x', n', v', ?_, hm'.ne, hm'.first, hm'.taken, hm'.word, hm'.lower, hm'.upper,
      hm'.aligned⟩
    rw [hfill]
    exact hm'.run.fill hsep fun _ => hm'.ne.symm
  · exact h.apart.sublist (List.eraseIdx_sublist _ _)

/-- Where `kmalloc` puts an allocation in the memory that it got. -/
lemma place_bounds (raw : ℕ) (align : Int32) :
    raw + 8 ≤ (if align ≠ 0 then (raw + 8 + 0xFFF) / 0x1000 * 0x1000 else raw + 8) ∧
      (if align ≠ 0 then (raw + 8 + 0xFFF) / 0x1000 * 0x1000 else raw + 8) ≤
        raw + (KMem.extra align).toNat ∧
      (align ≠ 0 → 4096 ∣ if align ≠ 0 then (raw + 8 + 0xFFF) / 0x1000 * 0x1000 else raw + 8) := by
  by_cases halign : align ≠ 0
  · have hextra : (KMem.extra align).toNat = 4104 := by
      rw [KMem.extra, if_pos halign]
      decide
    rw [if_pos halign, hextra]
    exact ⟨by omega, by omega, fun _ => Nat.dvd_mul_left _ _⟩
  · have hextra : (KMem.extra align).toNat = 8 := by
      rw [KMem.extra, if_neg halign]
      decide
    rw [if_neg halign, hextra]
    exact ⟨le_rfl, le_rfl, fun h => absurd h halign⟩

/-- Slots that are free belong to no live allocation. -/
lemma Marks.separate_free {bm : Bytes} {word : ℕ → ℕ} {a : KAlloc} {x n x' n' : ℕ} {v : UInt8}
    (h : Marks area bm word a x n v) (hpos : 0 < n')
    (hfree : ∀ i, x' ≤ i → i < x' + n' → bm i = 0) : x + n ≤ x' ∨ x' + n' ≤ x := by
  have hpos' := h.run.pos
  by_contra hmeet
  refine h.ne ?_
  rw [← h.run.eq (max x x') (by omega) (by omega)]
  exact hfree _ (by omega) (by omega)

/-- A new allocation leaves the marks of another one as they are. -/
lemma Marks.alloc {b b' : KHeapBlock} {word : ℕ → ℕ} {a : KAlloc} {x n x' n' : ℕ} {v id : UInt8}
    {size : UInt64} {raw p : ℕ} (h : Marks area b.bm word a x n v) (haddr : b.addr = area.base)
    (ht : Taken b size raw b' x' n' id) (hp : raw + 8 ≤ p) (hp' : p ≤ raw + 64 * n') :
    Marks area b'.bm (Function.update word (p - 8) raw) a x n v := by
  have hsep := h.separate_free ht.pos ht.was_free
  have hlower := h.lower
  have hupper := h.upper
  have hptr := ht.ptr_eq
  have hpos := h.run.pos
  have hword : a.p - 8 ≠ p - 8 := by omega
  refine ⟨?_, h.ne, h.first, h.taken, ?_, hlower, hupper, h.aligned⟩
  · rw [ht.bm_eq]
    refine h.run.fill hsep fun hnext hid => ht.before_ne (by omega) ?_
    rw [hid]
    exact h.run.eq _ (by omega) (by omega)
  · rw [Function.update_of_ne hword]
    exact h.word

/-- An allocation gets slots of its own and leaves the others as they are. -/
lemma Working.kmalloc (h : Working area s b) {size : UInt64} {align : Int32}
    (hfits : size.toNat + (KMem.extra align).toNat < 2 ^ 64)
    (hstep : s.step area (.kmalloc size align) = some s') : ∃ b', Working area s' b' := by
  have hinit : s.mem.ensureInit area = s.mem := if_pos h.ready
  have hsum : (size + KMem.extra align).toNat = size.toNat + (KMem.extra align).toNat := by
    rw [UInt64.toNat_add, Nat.mod_eq_of_lt hfits]
  obtain ⟨hle, hroom, -⟩ := place_bounds 0 align
  have hne : size + KMem.extra align ≠ 0 := by
    intro hzero
    have hzero' : (0 : UInt64).toNat = 0 := rfl
    rw [hzero, hzero'] at hsum
    omega
  obtain rfl := Option.some.inj hstep
  clear hstep hle hroom
  cases halloc : allocIn b (size + KMem.extra align) with
  | none =>
    have hr : s.mem.kmalloc area size align = (0, s.mem) := by
      rw [KMem.kmalloc, hinit, h.kheap, KHeap.alloc, halloc, KHeap.alloc, ← h.kheap]
    rw [hr]
    exact ⟨b, h⟩
  | some r =>
    obtain ⟨raw, b'⟩ := r
    obtain ⟨x, n, id, ht⟩ := allocIn_spec h.bsize hne halloc
    obtain ⟨hlower, hupper, haligned⟩ := place_bounds raw align
    obtain ⟨-, -, -, hslots, -⟩ := toNat_sizes
    obtain ⟨p, hp⟩ : ∃ p, p =
        if align ≠ 0 then (raw + 8 + 0xFFF) / 0x1000 * 0x1000 else raw + 8 := ⟨_, rfl⟩
    have hr : s.mem.kmalloc area size align =
        (p, { s.mem with kheap := [b'], word := Function.update s.mem.word (p - 8) raw }) := by
      rw [KMem.kmalloc, hinit, h.kheap, KHeap.alloc, halloc, hp]
    rw [← hp] at hlower hupper haligned
    have hroom := ht.room
    have hptr := ht.ptr_eq
    rw [hsum] at hroom
    rw [h.addr] at hptr
    have hcnt : (b.size / 64).toNat = kheapSlots := by rw [h.size]; exact hslots
    -- the slots in front are never free
    have hfirst : 4096 ≤ x := by
      by_contra hlt
      exact h.reserved x (by omega) (ht.was_free x le_rfl (Nat.lt_add_of_pos_right ht.pos))
    have hlow : area.base + headerSize + 64 * x + 8 ≤ p := by omega
    have hhigh : p + size.toNat ≤ area.base + headerSize + 64 * (x + n) := by omega
    have hmarks : Marks area b'.bm (Function.update s.mem.word (p - 8) raw)
        ⟨p, size, align, fun i => b.bm i ≠ b'.bm i⟩ x n id := by
      refine ⟨?_, ht.id_ne, hfirst, fun i => ?_, ?_, hlow, hhigh, haligned⟩
      · rw [ht.bm_eq]
        have hle := ht.le
        have hafter := ht.after_ne
        rw [hcnt] at hle hafter
        exact Runs.isRun_fill ht.pos hle hafter
      · rw [ht.bm_eq]
        refine decide_eq_decide.mpr ?_
        by_cases hmem : x ≤ i ∧ i < x + n
        · rw [Runs.fill_of_mem hmem, ht.was_free i hmem.1 hmem.2]
          exact iff_of_true ht.id_ne.symm hmem
        · rw [Runs.fill_of_not_mem (by omega)]
          exact iff_of_false (fun hself => hself rfl) hmem
      · rw [Function.update_self, hptr]
    refine ⟨b', ?_⟩
    rw [hr, hinit, slots_of_kheap h.kheap]
    change Working area ⟨_, if p = 0 then s.live else _ :: s.live⟩ b'
    rw [if_neg (by omega)]
    refine ⟨h.ready, rfl, ht.addr_eq.trans h.addr, ht.size_eq.trans h.size,
      ht.bsize_eq.trans h.bsize, fun i hi => ?_, fun a ha => ?_, ?_⟩
    · rw [ht.bm_eq, Runs.fill_of_not_mem (by omega)]
      exact h.reserved i hi
    · rcases List.mem_cons.mp ha with rfl | ha
      · exact ⟨x, n, id, hmarks⟩
      · obtain ⟨x', n', v', hm⟩ := h.marked a ha
        exact ⟨x', n', v', hm.alloc h.addr ht hlower (by omega)⟩
    · refine List.Pairwise.cons (fun a ha i hboth => ?_) h.apart
      obtain ⟨x', n', v', hm⟩ := h.marked a ha
      have hsep := hm.separate_free ht.pos ht.was_free
      have hmem := of_decide_eq_true ((hmarks.taken i).symm.trans hboth.1)
      have hmem' := of_decide_eq_true ((hm.taken i).symm.trans hboth.2)
      omega

/-- The slots that the bitmap takes. -/
lemma toNat_reserved :
    (slotsFor ((kheapSize - UInt64.ofNat headerSize) / kheapBsize) kheapBsize).toNat = 4096 := by
  decide

/-- The heap works after its first use. -/
lemma working_init (area : KHeapArea) :
    ∃ b, Working area ⟨KMem.boot.ensureInit area, []⟩ b := by
  refine ⟨_, rfl, rfl, rfl, rfl, rfl, fun i hi => ?_, fun a ha => absurd ha List.not_mem_nil,
    List.Pairwise.nil⟩
  change Runs.fill Bytes.zeros 0 _ 5 i ≠ 0
  rw [toNat_reserved, Runs.fill_of_mem ⟨Nat.zero_le i, by omega⟩]
  decide

/-- The heap has not been used yet, or works. -/
def Inv (area : KHeapArea) (s : KHeapState) : Prop :=
  s = ⟨KMem.boot, []⟩ ∨ ∃ b, Working area s b

lemma Inv.step (h : Inv area s) {op : KHeapOp} (hfits : op.Fits)
    (hstep : s.step area op = some s') : Inv area s' := by
  rcases h with rfl | ⟨b, hb⟩
  · cases op with
    | kmalloc size align =>
      obtain ⟨b, hb⟩ := working_init area
      exact Or.inr (hb.kmalloc hfits hstep)
    | kfree i => cases hstep
  · cases op with
    | kmalloc size align => exact Or.inr (hb.kmalloc hfits hstep)
    | kfree i =>
      rw [KHeapState.step] at hstep
      cases ha : s.live[i]? with
      | none =>
        rw [ha] at hstep
        cases hstep
      | some a =>
        rw [ha] at hstep
        obtain rfl := Option.some.inj hstep
        exact Or.inr (hb.kfree ha)

/-- In every run whose requests do not wrap around the heap keeps what it promises. -/
theorem safe_of_run (area : KHeapArea) (ops : List KHeapOp) (s : KHeapState)
    (hfits : ∀ op ∈ ops, op.Fits) (hrun : run area ops = some s) : Safe area s := by
  have hinv : Inv area s :=
    PartialRun.invariant (fun h hfits hstep => h.step hfits hstep) (Or.inl rfl) hfits hrun
  rcases hinv with rfl | ⟨b, hb⟩
  · exact ⟨fun a ha => absurd ha List.not_mem_nil, List.Pairwise.nil,
      fun a ha => absurd ha List.not_mem_nil, fun a ha => absurd ha List.not_mem_nil,
      fun a ha => absurd ha List.not_mem_nil⟩
  · exact hb.safe

/-- A heap area at 2 MiB. -/
def kheapArea : KHeapArea where
  base := 0x200000
  aligned := by decide
  pos := by decide
  low := by decide

/-- An aligned allocation and another one. -/
theorem safe_of_run_two : ∃ s,
    run kheapArea [.kmalloc 5000 1, .kmalloc 1 0] = some s ∧ Safe kheapArea s := by
  refine ⟨_, rfl, safe_of_run kheapArea [.kmalloc 5000 1, .kmalloc 1 0] _ ?_ rfl⟩
  intro op hop
  rcases List.mem_pair.mp hop with rfl | rfl
  · exact (by decide : (5000 : UInt64).toNat + (KMem.extra 1).toNat < 2 ^ 64)
  · exact (by decide : (1 : UInt64).toNat + (KMem.extra 0).toNat < 2 ^ 64)

/-- On a fresh heap a request that wraps around to 0 gets the first slot behind the bitmap, which
stays free. -/
lemma alloc_zero (area : KHeapArea) :
    (KHeap.alloc (KMem.boot.ensureInit area).kheap 0).1 =
      some (4096 * 64 + (area.base + headerSize)) := by
  obtain ⟨-, h64, -, hslots, -⟩ := toNat_sizes
  have hneed : (slotsFor 0 kheapBsize).toNat = 0 := by decide
  have hscan : scan (Runs.fill Bytes.zeros 0 4096 5) kheapSlots 0 0 = some 4096 := by
    have htaken : ∀ i < 4096, Runs.fill Bytes.zeros 0 4096 5 (0 + i) ≠ 0 := by
      intro i hi
      rw [Runs.fill_of_mem (by omega)]
      decide
    rw [scan_skip _ kheapSlots 0 0 4096 htaken (by decide), scan, if_pos (by decide)]
    rfl
  obtain ⟨b, hb, haddr, hbsize, hcnt, hbm⟩ : ∃ b,
      (KMem.boot.ensureInit area).kheap = [b] ∧ b.addr = area.base ∧ b.bsize = kheapBsize ∧
        (b.size / b.bsize).toNat = kheapSlots ∧ b.bm = Runs.fill Bytes.zeros 0 4096 5 := by
    refine ⟨_, rfl, rfl, rfl, hslots, ?_⟩
    exact congrArg (fun n => Runs.fill Bytes.zeros 0 n 5) toNat_reserved
  rw [hb, KHeap.alloc, allocIn, if_pos UInt64.zero_le, hcnt, hbm, hbsize, hneed]
  dsimp only
  rw [hscan, haddr, h64]
  rfl

/-- An allocation of all but 8 bytes of the address space succeeds. -/
theorem not_safe_of_wrap : ∃ s,
    run kheapArea [.kmalloc 0xFFFFFFFFFFFFFFF8 0] = some s ∧ ¬Safe kheapArea s := by
  refine ⟨_, rfl, fun h => ?_⟩
  have hwrap : (0xFFFFFFFFFFFFFFF8 : UInt64) + KMem.extra 0 = 0 := by decide
  have hp : (KMem.boot.kmalloc kheapArea 0xFFFFFFFFFFFFFFF8 0).1 =
      4096 * 64 + (kheapArea.base + headerSize) + 8 := by
    have halloc := alloc_zero kheapArea
    rw [KMem.kmalloc, hwrap]
    cases hres : KHeap.alloc (KMem.boot.ensureInit kheapArea).kheap 0 with
    | mk raw kheap =>
      rw [hres] at halloc
      dsimp only at halloc
      rw [halloc]
      rfl
  have hinside := h.inside
  dsimp only at hinside
  rw [hp, if_neg (by omega)] at hinside
  obtain ⟨-, hupper⟩ := hinside _ List.mem_cons_self
  have hsize : (0xFFFFFFFFFFFFFFF8 : UInt64).toNat = 18446744073709551608 := by decide
  have hlow := kheapArea.low
  dsimp only at hupper
  rw [hsize] at hupper
  omega

end KHeapState

end CoolFrost
