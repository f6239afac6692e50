import CoolFrost.Lib.Bytes
import CoolFrost.Lib.Runs

/-!
# The bitmap allocator

`libc/heap.c`.  A block of memory is divided into slots of `bsize` bytes, and a map of one byte per
slot lies at its front.  A free slot has the byte 0, and the slots of an allocation have one byte
between them that is not the byte of the slots before or after it; nothing else says how long an
allocation is.
-/

namespace CoolFrost

/-- `KHEAPBLOCKBM` at an address, with the map that follows it.  `next` is the rest of the list. -/
structure KHeapBlock where
  addr : ℕ
  size : UInt64
  used : UInt64
  bsize : UInt64
  lfb : UInt64
  bm : Bytes

namespace KHeap

/-- `sizeof(KHEAPBLOCKBM)`. -/
def headerSize : ℕ := 40

/-- The number of slots of `bsize` bytes that `size` bytes take. -/
def slotsFor (size bsize : UInt64) : UInt64 :=
  if size / bsize * bsize < size then size / bsize + 1 else size / bsize

/-- `k_heapBMAddBlock`, for memory that is all zeros. -/
def addBlock (addr : ℕ) (size bsize : UInt64) (heap : List KHeapBlock) : List KHeapBlock :=
  let total := size - UInt64.ofNat headerSize
  -- the map of `total / bsize` bytes takes slots itself
  let bcnt := slotsFor (total / bsize) bsize
  { addr := addr
    size := total
    used := bcnt
    bsize := bsize
    lfb := bcnt - 1
    bm := Runs.fill Bytes.zeros 0 bcnt.toNat 5 } :: heap

/-- The loop of `k_heapBMGetNID`, for `n` more rounds. -/
def getNIDFrom (b : UInt8) : ℕ → UInt8 → UInt8
  | 0, c => c
  | n + 1, c => if c = b ∨ c = 0 then getNIDFrom b n (c + 1) else c

/-- `k_heapBMGetNID`.  The loop ends within three rounds. -/
def getNID (a b : UInt8) : UInt8 := getNIDFrom b 3 (a + 1)

/-- The scan of `k_heapBMAlloc` from slot `x` on: the first of `bneed` free slots. -/
def scan (bm : Bytes) (bcnt bneed x : ℕ) : Option ℕ :=
  if x + bneed ≤ bcnt then
    if bm x = 0 then
      let y := Runs.length bm 0 x bneed
      if y = bneed then some x else scan bm bcnt bneed (x + y + 1)
    else scan bm bcnt bneed (x + 1)
  else none
termination_by bcnt + 1 - x

/-- What `k_heapBMAlloc` does with one block. -/
def allocIn (b : KHeapBlock) (size : UInt64) : Option (ℕ × KHeapBlock) :=
  if size ≤ b.size - b.used * b.bsize then
    let bcnt := (b.size / b.bsize).toNat
    let bneed := (slotsFor size b.bsize).toNat
    (scan b.bm bcnt bneed 0).map fun x =>
      let prev := if 0 < x then b.bm (x - 1) else 0
      let next := if x + bneed < bcnt then b.bm (x + bneed) else 0
      (x * b.bsize.toNat + (b.addr + headerSize),
        { b with
          bm := Runs.fill b.bm x bneed (getNID prev next)
          lfb := UInt64.ofNat (x + bneed) - 1
          used := b.used + UInt64.ofNat bneed })
  else none

/-- `k_heapBMAlloc`; `none` stands for the null pointer. -/
def alloc : List KHeapBlock → UInt64 → Option ℕ × List KHeapBlock
  | [], _ => (none, [])
  | b :: rest, size =>
    match allocIn b size with
    | some (ptr, b) => (some ptr, b :: rest)
    | none => ((alloc rest size).1, b :: (alloc rest size).2)

/-- What `k_heapBMFree` does with the block that a pointer is in. -/
def freeIn (b : KHeapBlock) (ptr : ℕ) : KHeapBlock :=
  let ptroff := UInt64.ofNat ptr - UInt64.ofNat (b.addr + headerSize)
  let bi := (ptroff / b.bsize).toNat
  let n := Runs.length b.bm (b.bm bi) bi ((b.size / b.bsize).toNat - bi)
  { b with
    bm := Runs.fill b.bm bi n 0
    used := b.used - UInt64.ofNat n }

/-- `k_heapBMFree`. -/
def free : List KHeapBlock → ℕ → List KHeapBlock
  | [], _ => []
  | b :: rest, ptr =>
    if b.addr < ptr ∧ ptr < b.addr + headerSize + b.size.toNat then freeIn b ptr :: rest
    else b :: free rest ptr

/-- Freeing changes the map and the count only. -/
lemma freeIn_frame (b : KHeapBlock) (ptr : ℕ) : (freeIn b ptr).addr = b.addr ∧
    (freeIn b ptr).size = b.size ∧ (freeIn b ptr).bsize = b.bsize := by
  simp only [freeIn, and_self]

/-! ## The byte of an allocation -/

/-- The byte chosen is not 0 and not that of a neighbour. -/
lemma getNID_ne (a b : UInt8) : getNID a b ≠ 0 ∧ getNID a b ≠ a ∧ getNID a b ≠ b := by
  have hnext : ∀ c : UInt8, c + 1 ≠ c ∧ c + 1 + 1 ≠ c ∧ c + 1 + 1 + 1 ≠ c := by
    intro c
    grind
  have ha := hnext a
  have hb := hnext b
  have hzero := hnext 0
  simp only [getNID, getNIDFrom]
  grind

/-! ## Searching -/

/-- The slots found are free. -/
lemma scan_eq_some {bm : Bytes} {bcnt bneed x y : ℕ} (h : scan bm bcnt bneed x = some y) :
    y + bneed ≤ bcnt ∧ ∀ i < bneed, bm (y + i) = 0 := by
  fun_induction scan bm bcnt bneed x with
  | case1 x hle hfree n hn =>
    obtain rfl := Option.some.inj h
    refine ⟨hle, fun i hi => Runs.eq_of_lt_length bm 0 x bneed ?_⟩
    rw [show Runs.length bm 0 x bneed = bneed from hn]
    exact hi
  | case2 x hle hfree n hn ih => exact ih h
  | case3 x hle hfree ih => exact ih h
  | case4 x hle => cases h

/-- The scan passes over slots that are taken. -/
lemma scan_skip (bm : Bytes) (bcnt bneed x n : ℕ) (htaken : ∀ i < n, bm (x + i) ≠ 0)
    (hle : x + n + bneed ≤ bcnt) : scan bm bcnt bneed x = scan bm bcnt bneed (x + n) := by
  induction n generalizing x with
  | zero => rfl
  | succ n ih =>
    have hx : bm x ≠ 0 := htaken 0 (Nat.succ_pos n)
    have hrest : ∀ i < n, bm (x + 1 + i) ≠ 0 := by
      intro i hi
      have h := htaken (i + 1) (Nat.succ_lt_succ hi)
      rwa [Nat.add_comm i 1, ← Nat.add_assoc] at h
    rw [scan, if_pos (by omega), if_neg hx, ih (x + 1) hrest (by omega)]
    congr 1
    omega

/-! ## One block -/

/-- The slots taken have room for the bytes. -/
lemma toNat_le_slotsFor (size : UInt64) :
    size.toNat ≤ 64 * (slotsFor size 64).toNat ∧ (size ≠ 0 → 0 < (slotsFor size 64).toNat) := by
  have hdiv : (size / 64).toNat = size.toNat / 64 := UInt64.toNat_div size 64
  have hlt := size.toNat_lt
  have hmul : (size / 64 * 64).toNat = size.toNat / 64 * 64 := by
    have h64 : (64 : UInt64).toNat = 64 := rfl
    rw [UInt64.toNat_mul, hdiv, h64]
    exact Nat.mod_eq_of_lt (by omega)
  have hsucc : (size / 64 + 1).toNat = size.toNat / 64 + 1 := by
    have hone : (1 : UInt64).toNat = 1 := rfl
    rw [UInt64.toNat_add, hdiv, hone]
    exact Nat.mod_eq_of_lt (by omega)
  have hlt_iff : size / 64 * 64 < size ↔ size.toNat / 64 * 64 < size.toNat := by
    rw [UInt64.lt_iff_toNat_lt, hmul]
  have hpos : size ≠ 0 → 0 < size.toNat := fun hne =>
    Nat.pos_of_ne_zero fun hzero => hne (UInt64.toNat_inj.mp hzero)
  rw [slotsFor]
  split_ifs with hrest
  · rw [hsucc]
    exact ⟨by omega, fun _ => by omega⟩
  · rw [hlt_iff] at hrest
    rw [hdiv]
    exact ⟨by omega, fun hne => by have := hpos hne; omega⟩

/-- What an allocation in a block finds and marks. -/
structure Taken (b : KHeapBlock) (size : UInt64) (ptr : ℕ) (b' : KHeapBlock)
    (x n : ℕ) (id : UInt8) :
    Prop where
  ptr_eq : ptr = b.addr + headerSize + 64 * x
  room : size.toNat ≤ 64 * n
  pos : 0 < n
  le : x + n ≤ (b.size / 64).toNat
  was_free : ∀ i, x ≤ i → i < x + n → b.bm i = 0
  id_ne : id ≠ 0
  before_ne : 0 < x → b.bm (x - 1) ≠ id
  after_ne : x + n < (b.size / 64).toNat → b.bm (x + n) ≠ id
  bm_eq : b'.bm = Runs.fill b.bm x n id
  addr_eq : b'.addr = b.addr
  size_eq : b'.size = b.size
  bsize_eq : b'.bsize = b.bsize

/-- An allocation takes free slots, with a byte that its neighbours do not have. -/
lemma allocIn_spec {b : KHeapBlock} (hbsize : b.bsize = 64) {size : UInt64} (hsize : size ≠ 0)
    {ptr : ℕ} {b' : KHeapBlock} (h : allocIn b size = some (ptr, b')) :
    ∃ x n id, Taken b size ptr b' x n id := by
  rw [allocIn, hbsize] at h
  split_ifs at h
  obtain ⟨x, hscan, hx⟩ := Option.map_eq_some_iff.mp h
  obtain ⟨hptr, hb'⟩ := Prod.mk.inj hx
  obtain ⟨hle, hfree⟩ := scan_eq_some hscan
  obtain ⟨hroom, hpos⟩ := toNat_le_slotsFor size
  obtain ⟨hzero, hprev, hnext⟩ := getNID_ne (if 0 < x then b.bm (x - 1) else 0)
    (if x + (slotsFor size 64).toNat < (b.size / 64).toNat
      then b.bm (x + (slotsFor size 64).toNat) else 0)
  refine ⟨x, (slotsFor size 64).toNat, _, ?_, hroom, hpos hsize, hle, fun i hx hi => ?_, hzero,
    fun hx => ?_, fun hlt => ?_, ?_, ?_, ?_, ?_⟩
  · have h64 : (64 : UInt64).toNat = 64 := rfl
    rw [← hptr, h64]
    omega
  · have h := hfree (i - x) (by omega)
    rwa [Nat.add_sub_cancel' hx] at h
  · rw [if_pos hx] at hprev ⊢
    exact hprev.symm
  · rw [if_pos hlt] at hnext ⊢
    exact hnext.symm
  · rw [← hb']
  · rw [← hb']
  · rw [← hb']
  · rw [← hb', hbsize]

/-- Freeing the first slot of a run frees the run. -/
lemma freeIn_bm {b : KHeapBlock} (hbsize : b.bsize = 64) {x n : ℕ} {v : UInt8}
    (hrun : Runs.IsRun b.bm (b.size / 64).toNat v x n)
    (hfits : b.addr + headerSize + 64 * x < 2 ^ 64) :
    (freeIn b (b.addr + headerSize + 64 * x)).bm = Runs.fill b.bm x n 0 := by
  have h64 : (64 : UInt64).toNat = 64 := rfl
  have hoff : ((UInt64.ofNat (b.addr + headerSize + 64 * x) -
      UInt64.ofNat (b.addr + headerSize)) / 64).toNat = x := by
    rw [UInt64.ofNat_add, UInt64.add_comm, UInt64.add_sub_cancel, UInt64.toNat_div, h64,
      UInt64.toNat_ofNat', Nat.mod_eq_of_lt (by omega), Nat.mul_div_cancel_left x (by decide)]
  have hv : b.bm x = v := hrun.eq x le_rfl (Nat.lt_add_of_pos_right hrun.pos)
  rw [freeIn, hbsize, hoff, hv]
  dsimp only
  rw [hrun.length_eq]

end KHeap

end CoolFrost
