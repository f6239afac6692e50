import Mathlib.Algebra.Order.Floor.Div
import CoolFrost.Lib.PartialRun
import CoolFrost.Lib.Regions
import CoolFrost.Libc.Heap

/-!
# The map of the bitmap allocator

What the map of a block says in every state that the allocator can reach: the live allocations and
the map itself have regions of their own, and everything else that is not free is counted by nobody.
So an allocation fails only where there is no room for it, and freeing it at once gives back the old
map.
-/

namespace CoolFrost

namespace KHeap

/-! ## Regions of a block -/

/-- The number of slots of a block. -/
def slots (b : KHeapBlock) : ℕ := (b.size / b.bsize).toNat

/-- The number of slots that the map of a block takes. -/
def mapSlots (b : KHeapBlock) : ℕ := (slotsFor (b.size / b.bsize) b.bsize).toNat

/-- The pointer is in the block, as `k_heapBMFree` asks. -/
def Holds (b : KHeapBlock) (ptr : ℕ) : Prop :=
  b.addr < ptr ∧ ptr < b.addr + headerSize + b.size.toNat

instance (b : KHeapBlock) (ptr : ℕ) : Decidable (Holds b ptr) := inferInstanceAs (Decidable (_ ∧ _))

/-- A live allocation: the pointer returned and the size asked for. -/
structure Allocation where
  ptr : ℕ
  size : UInt64
  deriving DecidableEq, Repr

/-- The first slot of an allocation and the number of its slots. -/
def region (b : KHeapBlock) (a : Allocation) : ℕ × ℕ :=
  ((a.ptr - (b.addr + headerSize)) / b.bsize.toNat, (slotsFor a.size b.bsize).toNat)

/-- The region of the map, if the block has any slots. -/
def mapRegion (b : KHeapBlock) : List (ℕ × ℕ) := if 0 < mapSlots b then [(0, mapSlots b)] else []

/-- The regions of a block: those of the allocations in it, and the map's own. -/
def regions (b : KHeapBlock) (live : List Allocation) : List (ℕ × ℕ) :=
  (live.filter fun a => Holds b a.ptr).map (region b) ++ mapRegion b

/-- Where so many free slots are next to each other. -/
def Window (b : KHeapBlock) (n : ℕ) : Prop :=
  ∃ x, x + n ≤ slots b ∧ ∀ i < n, b.bm (x + i) = 0

/-! ## Sizes -/

/-- The slots for so many bytes are the quotient, rounded up. -/
lemma toNat_slotsFor (size : UInt64) {bsize : UInt64} (h : bsize ≠ 0) :
    (slotsFor size bsize).toNat = size.toNat ⌈/⌉ bsize.toNat := by
  have hpos : 0 < bsize.toNat := Nat.pos_of_ne_zero fun h0 => h (UInt64.toNat_inj.mp h0)
  have hlt := size.toNat_lt
  have hle : bsize.toNat * (size.toNat / bsize.toNat) ≤ size.toNat := Nat.mul_div_le _ _
  have hnext : size.toNat < bsize.toNat * (size.toNat / bsize.toNat + 1) :=
    Nat.lt_mul_div_succ _ hpos
  have hmul : (size / bsize * bsize).toNat = bsize.toNat * (size.toNat / bsize.toNat) := by
    rw [UInt64.toNat_mul, UInt64.toNat_div, Nat.mul_comm, Nat.mod_eq_of_lt (by omega)]
  have hceil : size.toNat ≤ bsize.toNat * (size.toNat ⌈/⌉ bsize.toNat) := le_smul_ceilDiv hpos
  rw [slotsFor]
  split_ifs with hrest
  · rw [UInt64.lt_iff_toNat_lt, hmul] at hrest
    have hquot : size.toNat / bsize.toNat ≤ bsize.toNat * (size.toNat / bsize.toNat) :=
      Nat.le_mul_of_pos_left _ hpos
    have hone : (1 : UInt64).toNat = 1 := rfl
    rw [UInt64.toNat_add, UInt64.toNat_div, hone, Nat.mod_eq_of_lt (by omega)]
    apply Nat.le_antisymm
    · exact Nat.lt_of_mul_lt_mul_left (hrest.trans_le hceil)
    · exact (ceilDiv_le_iff_le_smul hpos).mpr hnext.le
  · rw [UInt64.lt_iff_toNat_lt, hmul, not_lt] at hrest
    rw [UInt64.toNat_div]
    apply Nat.le_antisymm
    · exact Nat.le_of_mul_le_mul_left (hle.trans hceil) hpos
    · exact (ceilDiv_le_iff_le_smul hpos).mpr hrest

/-- The slots have room for the bytes. -/
lemma le_slotsFor_mul (size : UInt64) {bsize : UInt64} (h : bsize ≠ 0) :
    size.toNat ≤ (slotsFor size bsize).toNat * bsize.toNat := by
  have hpos : 0 < bsize.toNat := Nat.pos_of_ne_zero fun h0 => h (UInt64.toNat_inj.mp h0)
  rw [toNat_slotsFor size h, Nat.mul_comm]
  exact le_smul_ceilDiv hpos

lemma slotsFor_pos {size bsize : UInt64} (h : bsize ≠ 0) (hsize : size ≠ 0) :
    0 < (slotsFor size bsize).toNat := by
  have hle := le_slotsFor_mul size h
  have hpos : 0 < size.toNat := Nat.pos_of_ne_zero fun h0 => hsize (UInt64.toNat_inj.mp h0)
  refine Nat.pos_of_ne_zero fun h0 => ?_
  rw [h0, Nat.zero_mul] at hle
  omega

/-- A number of bytes is never fewer than the slots for them. -/
lemma slotsFor_le (size : UInt64) {bsize : UInt64} (h : bsize ≠ 0) :
    (slotsFor size bsize).toNat ≤ size.toNat := by
  have hpos : 0 < bsize.toNat := Nat.pos_of_ne_zero fun h0 => h (UInt64.toNat_inj.mp h0)
  rw [toNat_slotsFor size h, ceilDiv_le_iff_le_smul hpos]
  exact Nat.le_mul_of_pos_left _ hpos

/-- The slots of a block are inside of it. -/
lemma slots_mul_le (b : KHeapBlock) : slots b * b.bsize.toNat ≤ b.size.toNat := by
  rw [slots, UInt64.toNat_div]
  exact Nat.div_mul_le_self _ _

/-! ## Searching -/

/-- The scan passes over no room. -/
lemma scan_eq_none {bm : Bytes} {bcnt bneed x : ℕ} (hpos : 0 < bneed)
    (h : scan bm bcnt bneed x = none) {y : ℕ} (hy : x ≤ y) (hle : y + bneed ≤ bcnt) :
    ∃ i < bneed, bm (y + i) ≠ 0 := by
  fun_induction scan bm bcnt bneed x with
  | case1 => cases h
  | case2 x hfits hfree n hn ih =>
    -- the free run from `x` on is too short, and a slot that is taken follows it
    have hle' : n ≤ bneed := Runs.length_le bm 0 x bneed
    have hlt : Runs.length bm 0 x bneed < bneed := lt_of_le_of_ne hle' hn
    have htaken : bm (x + n) ≠ 0 := Runs.ne_of_length_lt bm 0 x bneed hlt
    rcases Nat.lt_or_ge (x + n) y with hbehind | hbefore
    · exact ih h hbehind
    · refine ⟨x + n - y, by omega, ?_⟩
      rwa [Nat.add_sub_cancel' hbefore]
  | case3 x hfits htaken ih =>
    rcases Nat.lt_or_ge x y with hbehind | hbefore
    · exact ih h hbehind
    · obtain rfl := Nat.le_antisymm hbefore hy
      exact ⟨0, hpos, htaken⟩
  | case4 x hfits => omega

/-! ## One block -/

/-- What holds of a block and the live allocations. -/
structure BlockOk (b : KHeapBlock) (live : List Allocation) : Prop where
  bsize_ne : b.bsize ≠ 0
  fits : b.addr + headerSize + b.size.toNat < 2 ^ 64
  place : ∀ a ∈ live, Holds b a.ptr →
    a.ptr = (region b a).1 * b.bsize.toNat + (b.addr + headerSize)
  marked : Runs.Marked 0 b.bm (slots b) (regions b live)
  used : b.used.toNat = Runs.taken 0 b.bm (slots b)

/-- What an allocation finds in a block and what it marks there. -/
structure Takes (b : KHeapBlock) (size : UInt64) (x : ℕ) (id : UInt8) : Prop where
  le : x + (slotsFor size b.bsize).toNat ≤ slots b
  free : ∀ i, x ≤ i → i < x + (slotsFor size b.bsize).toNat → b.bm i = 0
  id_ne : id ≠ 0
  before_ne : 0 < x → b.bm (x - 1) ≠ id
  after_ne : x + (slotsFor size b.bsize).toNat < slots b →
    b.bm (x + (slotsFor size b.bsize).toNat) ≠ id

/-- The block after so many of its slots from `x` on have been marked with `id`. -/
def mark (b : KHeapBlock) (x n : ℕ) (id : UInt8) : KHeapBlock :=
  { b with
    bm := Runs.fill b.bm x n id
    lfb := UInt64.ofNat (x + n) - 1
    used := b.used + UInt64.ofNat n }

/-- The block after so many of its slots from `x` on have been cleared. -/
def clear (b : KHeapBlock) (x n : ℕ) : KHeapBlock :=
  { b with
    bm := Runs.fill b.bm x n 0
    used := b.used - UInt64.ofNat n }

section Block

variable {b : KHeapBlock} {live : List Allocation} {size : UInt64} {x n : ℕ} {id v : UInt8}

lemma allocIn_eq_some {ptr : ℕ} {b' : KHeapBlock} (h : allocIn b size = some (ptr, b')) :
    ∃ x id, Takes b size x id ∧ ptr = x * b.bsize.toNat + (b.addr + headerSize) ∧
      b' = mark b x (slotsFor size b.bsize).toNat id := by
  rw [allocIn] at h
  split_ifs at h
  obtain ⟨x, hscan, hx⟩ := Option.map_eq_some_iff.mp h
  obtain ⟨rfl, rfl⟩ := Prod.mk.inj hx
  obtain ⟨hle, hfree⟩ := scan_eq_some hscan
  obtain ⟨hzero, hprev, hnext⟩ := getNID_ne (if 0 < x then b.bm (x - 1) else 0)
    (if x + (slotsFor size b.bsize).toNat < (b.size / b.bsize).toNat
      then b.bm (x + (slotsFor size b.bsize).toNat) else 0)
  refine ⟨x, _, ⟨hle, fun i hx hi => ?_, hzero, fun hx => ?_, fun hlt => ?_⟩, rfl, rfl⟩
  · have h := hfree (i - x) (by omega)
    rwa [Nat.add_sub_cancel' hx] at h
  · rw [if_pos hx] at hprev ⊢
    exact hprev.symm
  · rw [slots] at hlt
    rw [if_pos hlt] at hnext ⊢
    exact hnext.symm

/-- Freeing the first slot of a run clears the run. -/
lemma freeIn_eq (hbsize : b.bsize ≠ 0) (hfits : b.addr + headerSize + b.size.toNat < 2 ^ 64)
    (hrun : Runs.IsRun b.bm (slots b) v x n) :
    freeIn b (x * b.bsize.toNat + (b.addr + headerSize)) = clear b x n := by
  have hpos : 0 < b.bsize.toNat := Nat.pos_of_ne_zero fun h0 => hbsize (UInt64.toNat_inj.mp h0)
  have hmul : x * b.bsize.toNat ≤ b.size.toNat :=
    calc x * b.bsize.toNat ≤ slots b * b.bsize.toNat :=
          Nat.mul_le_mul_right _ ((Nat.le_add_right x n).trans hrun.le)
      _ ≤ b.size.toNat := slots_mul_le b
  have hoff : ((UInt64.ofNat (x * b.bsize.toNat + (b.addr + headerSize)) -
      UInt64.ofNat (b.addr + headerSize)) / b.bsize).toNat = x := by
    rw [UInt64.ofNat_add, UInt64.add_sub_cancel, UInt64.toNat_div, UInt64.toNat_ofNat',
      Nat.mod_eq_of_lt (by omega), Nat.mul_div_cancel x hpos]
  have hv : b.bm x = v := hrun.eq x le_rfl (Nat.lt_add_of_pos_right hrun.pos)
  have hlen : Runs.length b.bm v x ((b.size / b.bsize).toNat - x) = n := hrun.length_eq
  rw [freeIn, hoff, hv, hlen]
  rfl

/-- A pointer to a slot of the block is in the block. -/
lemma holds_slot (hbsize : b.bsize ≠ 0) (hx : x < slots b) :
    Holds b (x * b.bsize.toNat + (b.addr + headerSize)) := by
  have hpos : 0 < b.bsize.toNat := Nat.pos_of_ne_zero fun h0 => hbsize (UInt64.toNat_inj.mp h0)
  have hlt : x * b.bsize.toNat < slots b * b.bsize.toNat := Nat.mul_lt_mul_of_pos_right hx hpos
  have hle := slots_mul_le b
  have hheader : headerSize = 40 := rfl
  constructor
  · omega
  · omega

lemma region_slot (hbsize : b.bsize ≠ 0) (x : ℕ) (size : UInt64) :
    region b ⟨x * b.bsize.toNat + (b.addr + headerSize), size⟩ =
      (x, (slotsFor size b.bsize).toNat) := by
  have hpos : 0 < b.bsize.toNat := Nat.pos_of_ne_zero fun h0 => hbsize (UInt64.toNat_inj.mp h0)
  rw [region, Nat.add_sub_cancel, Nat.mul_div_cancel x hpos]

lemma regions_cons_pos {a : Allocation} (h : Holds b a.ptr) :
    regions b (a :: live) = region b a :: regions b live := by
  rw [regions, List.filter_cons_of_pos (by simpa using h)]
  rfl

lemma regions_cons_neg {a : Allocation} (h : ¬Holds b a.ptr) :
    regions b (a :: live) = regions b live := by
  rw [regions, List.filter_cons_of_neg (by simpa using h)]
  rfl

lemma regions_append (live live' : List Allocation) :
    regions b (live ++ live') =
      (live.filter fun a => Holds b a.ptr).map (region b) ++ regions b live' := by
  rw [regions, List.filter_append, List.map_append, List.append_assoc]
  rfl

/-- A new allocation takes a region of its own. -/
lemma BlockOk.mark (h : BlockOk b live) (hsize : size ≠ 0) (ht : Takes b size x id) :
    BlockOk (mark b x (slotsFor size b.bsize).toNat id)
      (⟨x * b.bsize.toNat + (b.addr + headerSize), size⟩ :: live) := by
  have hpos := slotsFor_pos h.bsize_ne hsize
  have hle := ht.le
  have hholds := holds_slot h.bsize_ne (b := b) (x := x) (by omega)
  have hregion := region_slot h.bsize_ne (b := b) x size
  refine ⟨h.bsize_ne, h.fits, fun a ha hin => ?_, ?_, ?_⟩
  · rcases List.mem_cons.mp ha with rfl | ha
    · change _ = (region b _).1 * b.bsize.toNat + (b.addr + headerSize)
      rw [hregion]
    · exact h.place a ha hin
  · change Runs.Marked 0 _ (slots b) (regions b _)
    rw [regions_cons_pos hholds, hregion]
    exact h.marked.mark hpos hle ht.free ht.id_ne ht.before_ne ht.after_ne
  · change (b.used + UInt64.ofNat _).toNat = Runs.taken 0 (Runs.fill b.bm x _ id) (slots b)
    have hroom := Runs.taken_add_le hle ht.free ht.id_ne
    have hslots : slots b < 2 ^ 64 := (b.size / b.bsize).toNat_lt
    rw [Runs.taken_fill b.bm ht.id_ne hle, Runs.fill_eq_self ht.free, UInt64.toNat_add, h.used,
      UInt64.toNat_ofNat', Nat.mod_eq_of_lt (b := 2 ^ 64) (by omega), Nat.mod_eq_of_lt (by omega)]

/-- Allocations elsewhere do not matter. -/
lemma BlockOk.cons_of_not_holds (h : BlockOk b live) {a : Allocation} (ha : ¬Holds b a.ptr) :
    BlockOk b (a :: live) where
  bsize_ne := h.bsize_ne
  fits := h.fits
  place a' ha' hin := by
    rcases List.mem_cons.mp ha' with rfl | ha'
    · exact absurd hin ha
    · exact h.place a' ha' hin
  marked := by
    rw [regions_cons_neg ha]
    exact h.marked
  used := h.used

variable {live' : List Allocation} {a : Allocation}

lemma mem_append_cons_of_mem {α : Type} {l l' : List α} {a a' : α} (h : a' ∈ l ++ l') :
    a' ∈ l ++ a :: l' := by
  rcases List.mem_append.mp h with h | h
  · exact List.mem_append_left _ h
  · exact List.mem_append_right _ (List.mem_cons_of_mem _ h)

lemma BlockOk.drop_of_not_holds (h : BlockOk b (live ++ a :: live')) (ha : ¬Holds b a.ptr) :
    BlockOk b (live ++ live') where
  bsize_ne := h.bsize_ne
  fits := h.fits
  place a' ha' := h.place a' (mem_append_cons_of_mem ha')
  marked := by
    have hm := h.marked
    rw [regions_append, regions_cons_neg ha, ← regions_append] at hm
    exact hm
  used := h.used

/-- The regions of a block with an allocation in it. -/
lemma regions_of_holds (ha : Holds b a.ptr) :
    regions b (live ++ a :: live') =
      (live.filter fun a => Holds b a.ptr).map (region b) ++ region b a :: regions b live' := by
  rw [regions_append, regions_cons_pos ha]

lemma region_mem (ha : Holds b a.ptr) (hmem : a ∈ live) : region b a ∈ regions b live :=
  List.mem_append_left _ (List.mem_map_of_mem (List.mem_filter.mpr ⟨hmem, decide_eq_true ha⟩))

/-- Freeing an allocation clears its region. -/
lemma BlockOk.freeIn_eq (h : BlockOk b live) (hmem : a ∈ live) (ha : Holds b a.ptr) :
    freeIn b a.ptr = KHeap.clear b (region b a).1 (region b a).2 := by
  obtain ⟨-, hrun⟩ := h.marked.run _ (region_mem ha hmem)
  rw [h.place a hmem ha]
  exact KHeap.freeIn_eq h.bsize_ne h.fits hrun

/-- Freeing an allocation removes its region and leaves the others. -/
lemma BlockOk.clear (h : BlockOk b (live ++ a :: live')) (ha : Holds b a.ptr) :
    BlockOk (KHeap.clear b (region b a).1 (region b a).2) (live ++ live') := by
  have hmem : a ∈ live ++ a :: live' := List.mem_append_right _ List.mem_cons_self
  obtain ⟨hne, hrun⟩ := h.marked.run _ (region_mem ha hmem)
  have hm := h.marked
  refine ⟨h.bsize_ne, h.fits, fun a' ha' => h.place a' (mem_append_cons_of_mem ha'), ?_, ?_⟩
  · change Runs.Marked 0 _ (slots b) (regions b _)
    rw [regions_of_holds ha] at hm
    rw [regions_append]
    exact hm.clear
  · change (b.used - UInt64.ofNat _).toNat = Runs.taken 0 (Runs.fill b.bm _ _ 0) (slots b)
    have hcount := Runs.taken_fill b.bm hne hrun.le
    rw [Runs.fill_eq_self hrun.eq, ← h.used] at hcount
    have hlt := b.used.toNat_lt
    have hn : (UInt64.ofNat (region b a).2).toNat = (region b a).2 := by
      rw [UInt64.toNat_ofNat', Nat.mod_eq_of_lt (by omega)]
    rw [UInt64.toNat_sub_of_le _ _ (UInt64.le_iff_toNat_le.mpr (by omega)), hn, hcount,
      Nat.add_sub_cancel]

/-- A block refuses an allocation if and only if there is no room for it. -/
lemma BlockOk.allocIn_eq_none_iff (h : BlockOk b live) (hsize : size ≠ 0) :
    allocIn b size = none ↔ ¬Window b (slotsFor size b.bsize).toNat := by
  have hpos := slotsFor_pos h.bsize_ne hsize
  constructor
  · rintro hnone ⟨x, hle, hfree⟩
    have hfree' : ∀ i, x ≤ i → i < x + (slotsFor size b.bsize).toNat → b.bm i = 0 := by
      intro i hx hi
      have h := hfree (i - x) (by omega)
      rwa [Nat.add_sub_cancel' hx] at h
    -- where the slots are free, the bytes are
    have hroom := Runs.taken_add_le hle hfree' (v := 1) (by decide)
    rw [← h.used] at hroom
    have hbytes := le_slotsFor_mul size h.bsize_ne
    have htotal := slots_mul_le b
    have hsplit : (b.used.toNat + (slotsFor size b.bsize).toNat) * b.bsize.toNat ≤ b.size.toNat :=
      (Nat.mul_le_mul_right _ hroom).trans htotal
    rw [Nat.add_mul] at hsplit
    have hlt := b.size.toNat_lt
    have hused : (b.used * b.bsize).toNat = b.used.toNat * b.bsize.toNat := by
      rw [UInt64.toNat_mul, Nat.mod_eq_of_lt (by omega)]
    have hcapacity : size ≤ b.size - b.used * b.bsize := by
      rw [UInt64.le_iff_toNat_le, UInt64.toNat_sub_of_le _ _
        (UInt64.le_iff_toNat_le.mpr (by omega)), hused]
      omega
    rw [allocIn, if_pos hcapacity] at hnone
    obtain ⟨i, hi, htaken⟩ :=
      scan_eq_none hpos (Option.map_eq_none_iff.mp hnone) (Nat.zero_le x) hle
    exact htaken (hfree i hi)
  · intro hno
    by_contra hsome
    obtain ⟨⟨ptr, b'⟩, halloc⟩ := Option.ne_none_iff_exists'.mp hsome
    obtain ⟨x, id, ht, -⟩ := allocIn_eq_some halloc
    exact hno ⟨x, ht.le, fun i hi => ht.free _ (Nat.le_add_right x i) (by omega)⟩

/-- Freeing what has just been allocated gives back the map. -/
lemma BlockOk.undo (h : BlockOk b live) (hsize : size ≠ 0) (ht : Takes b size x id) :
    (freeIn (KHeap.mark b x (slotsFor size b.bsize).toNat id)
      (x * b.bsize.toNat + (b.addr + headerSize))).bm = b.bm := by
  have hle := ht.le
  have hpos := slotsFor_pos h.bsize_ne hsize
  have hok := h.mark hsize ht
  have hholds : Holds (KHeap.mark b x (slotsFor size b.bsize).toNat id)
      (x * b.bsize.toNat + (b.addr + headerSize)) := holds_slot h.bsize_ne (b := b) (by omega)
  have hregion : region (KHeap.mark b x (slotsFor size b.bsize).toNat id)
      ⟨x * b.bsize.toNat + (b.addr + headerSize), size⟩ = (x, (slotsFor size b.bsize).toNat) :=
    region_slot h.bsize_ne (b := b) x size
  have hfree := hok.freeIn_eq List.mem_cons_self hholds
  rw [hregion] at hfree
  rw [hfree]
  change Runs.fill (Runs.fill b.bm x _ id) x _ 0 = b.bm
  rw [Runs.fill_fill, Runs.fill_eq_self ht.free]

end Block

end KHeap

end CoolFrost
