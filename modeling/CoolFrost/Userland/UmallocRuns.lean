import CoolFrost.Lib.Tiling
import CoolFrost.Lib.PartialRun
import CoolFrost.Userland.Umalloc

/-!
# Runs of the user heap

A program calls `umalloc` and `ufree` and writes to what it was given.  The blocks tile the memory
that SYS_SBRK gave, the free list links the free ones in the order of their addresses, and the live
allocations are the others, as long as no request is so large that rounding it or adding a header to
it wraps around.
-/

namespace CoolFrost

open Bytes Program

/-! ## The blocks of the heap -/

/-- A block: where its header is, its usable bytes, and whether it is in the free list. -/
structure UBlock where
  addr : ℕ
  size : ℕ
  free : Bool

namespace UBlock

/-- The bytes of a block with its header. -/
def len (b : UBlock) : ℕ := umallocHdrSize + b.size

/-- The free blocks, by their addresses. -/
def frees (bs : List UBlock) : List ℕ := (bs.filter UBlock.free).map UBlock.addr

/-- The blocks in use. -/
def useds (bs : List UBlock) : List UBlock := bs.filter fun b => !b.free

variable {b : UBlock} {bs l₁ l₂ : List UBlock} {g₁ g₂ : List ℕ} {a : ℕ}

lemma frees_append : frees (l₁ ++ l₂) = frees l₁ ++ frees l₂ := by
  rw [frees, List.filter_append, List.map_append]
  rfl

lemma frees_cons_of_free (h : b.free = true) : frees (b :: bs) = b.addr :: frees bs := by
  rw [frees, List.filter_cons_of_pos h, List.map_cons]
  rfl

lemma frees_cons_of_used (h : b.free = false) : frees (b :: bs) = frees bs := by
  rw [frees, List.filter_cons_of_neg (by rw [h]; exact Bool.false_ne_true)]
  rfl

lemma mem_frees : a ∈ frees bs ↔ ∃ b ∈ bs, b.free = true ∧ b.addr = a := by
  simp only [frees, List.mem_map, List.mem_filter, and_assoc]

/-- A block of the free list is one of the blocks. -/
lemma frees_eq_middle (h : frees bs = g₁ ++ a :: g₂) : ∃ l₁ b l₂,
    bs = l₁ ++ b :: l₂ ∧ b.free = true ∧ b.addr = a ∧ frees l₁ = g₁ ∧ frees l₂ = g₂ := by
  induction bs generalizing g₁ with
  | nil => exact absurd h (by simp [frees])
  | cons c bs ih =>
    cases hc : c.free with
    | false =>
      rw [frees_cons_of_used hc] at h
      obtain ⟨l₁, b, l₂, rfl, hb, ha, hg₁, hg₂⟩ := ih h
      exact ⟨c :: l₁, b, l₂, rfl, hb, ha, (frees_cons_of_used hc).trans hg₁, hg₂⟩
    | true =>
      rw [frees_cons_of_free hc] at h
      cases g₁ with
      | nil =>
        obtain ⟨rfl, rfl⟩ := List.cons_eq_cons.mp h
        exact ⟨[], c, bs, rfl, hc, rfl, rfl, rfl⟩
      | cons x g₁ =>
        obtain ⟨rfl, hrest⟩ := List.cons_eq_cons.mp h
        obtain ⟨l₁, b, l₂, rfl, hb, ha, rfl, hg₂⟩ := ih hrest
        exact ⟨c :: l₁, b, l₂, rfl, hb, ha, frees_cons_of_free hc, hg₂⟩

lemma useds_append : useds (l₁ ++ l₂) = useds l₁ ++ useds l₂ := List.filter_append ..

lemma useds_cons_of_free (h : b.free = true) : useds (b :: bs) = useds bs :=
  List.filter_cons_of_neg (by rw [h]; exact Bool.false_ne_true)

lemma useds_cons_of_used (h : b.free = false) : useds (b :: bs) = b :: useds bs :=
  List.filter_cons_of_pos (by rw [h]; rfl)

end UBlock

open UBlock

namespace UHeap

/-- The memory of the process is laid out in the blocks `bs`; the header of the block at `x` may
give another size. -/
structure HeapBut (x : ℕ) (s : UHeap) (bs : List UBlock) : Prop where
  tiles : Tiles UBlock.addr UBlock.len s.heapStart bs s.brk
  start : 16 ∣ s.heapStart
  pos : ∀ b ∈ bs, 0 < b.addr
  lt : s.brk < 2 ^ 64
  sizes : ∀ b ∈ bs, 16 ∣ b.size
  headers : ∀ b ∈ bs, b.addr ≠ x → blkSize s.mem b.addr = b.size
  flags : ∀ b ∈ bs, b.free = true → blkFree s.mem b.addr ≠ 0
  chain : FreeChain s.mem s.freeList (frees bs)

/-- The memory of the process is laid out in the blocks `bs`. -/
abbrev Heap (s : UHeap) (bs : List UBlock) : Prop := HeapBut 0 s bs

namespace HeapBut

variable {x fl : ℕ} {s : UHeap} {m : Bytes} {b c : UBlock} {bs l₁ l₂ : List UBlock} {l : List ℕ}

lemma size_eq (h : Heap s bs) (hb : b ∈ bs) : blkSize s.mem b.addr = b.size :=
  h.headers b hb (h.pos b hb).ne'

/-- The headers of the blocks do not meet. -/
lemma pairwise_apart (h : HeapBut x s bs) :
    bs.Pairwise fun b c => HeadersApart b.addr c.addr :=
  h.tiles.pairwise.imp fun {b c} hle => Or.inl (by unfold UBlock.len at hle; omega)

lemma pairwise_lt (h : HeapBut x s bs) : bs.Pairwise fun b c => b.addr < c.addr :=
  h.tiles.pairwise.imp fun {b c} hle => by unfold UBlock.len umallocHdrSize at hle; omega

/-- A block does not meet the others. -/
lemma outside_middle (h : HeapBut x s (l₁ ++ b :: l₂)) :
    ∀ c ∈ l₁ ++ l₂, c.addr + c.len ≤ b.addr ∨ b.addr + b.len ≤ c.addr := by
  have hpair := List.pairwise_append.mp h.tiles.pairwise
  intro c hc
  rcases List.mem_append.mp hc with hc | hc
  · exact Or.inl (hpair.2.2 c hc b List.mem_cons_self)
  · exact Or.inr ((List.pairwise_cons.mp hpair.2.1).1 c hc)

/-- The header of a block does not meet those of the others. -/
lemma apart_middle (h : HeapBut x s (l₁ ++ b :: l₂)) :
    ∀ c ∈ l₁ ++ l₂, HeadersApart c.addr b.addr := by
  intro c hc
  have hout := h.outside_middle c hc
  unfold UBlock.len at hout
  unfold HeadersApart
  omega

lemma eq_or_apart (h : HeapBut x s bs) (hb : b ∈ bs) (hc : c ∈ bs) :
    c.addr = b.addr ∨ HeadersApart b.addr c.addr := by
  obtain ⟨l₁, l₂, rfl⟩ := List.append_of_mem hb
  rcases List.mem_append.mp hc with hc | hc
  · exact Or.inr (h.apart_middle c (List.mem_append_left l₂ hc)).symm
  · rcases List.mem_cons.mp hc with rfl | hc
    · exact Or.inl rfl
    · exact Or.inr (h.apart_middle c (List.mem_append_right l₁ hc)).symm

/-- A block is known by its address. -/
lemma addr_inj (h : HeapBut x s bs) (hb : b ∈ bs) (hc : c ∈ bs) (heq : c.addr = b.addr) :
    c = b := by
  obtain ⟨l₁, l₂, rfl⟩ := List.append_of_mem hb
  rcases List.mem_cons.mp (List.perm_middle.mem_iff.mp hc) with hc | hc
  · exact hc
  · have hapart := h.apart_middle c hc
    unfold HeadersApart umallocHdrSize at hapart
    omega

lemma frees_apart (h : HeapBut x s bs) : (frees bs).Pairwise HeadersApart :=
  List.pairwise_map.mpr (h.pairwise_apart.filter _)

lemma frees_lt (h : HeapBut x s bs) : (frees bs).Pairwise (· < ·) :=
  List.pairwise_map.mpr (h.pairwise_lt.filter _)

/-- Where a block ends. -/
lemma bounds (h : HeapBut x s bs) (hb : b ∈ bs) :
    s.heapStart ≤ b.addr ∧ b.addr + umallocHdrSize + b.size ≤ s.brk := by
  have hbound := h.tiles.mem_bounds hb
  unfold UBlock.len at hbound
  omega

lemma addr_lt (h : HeapBut x s bs) (hb : b ∈ bs) : b.addr < 2 ^ 64 := by
  have hbound := h.bounds hb
  have hlt := h.lt
  omega

lemma dvd_addr (h : HeapBut x s bs) (hb : b ∈ bs) : 16 ∣ b.addr := by
  refine (h.tiles.dvd h.start fun c hc => ?_).1 b hb
  exact Nat.dvd_add (by decide) (h.sizes c hc)

/-- The free list is not longer than the rounds of the loops over it. -/
lemma length_frees_lt (h : HeapBut x s bs) : (frees bs).length < listFuel := by
  have hlen : (frees bs).length ≤ bs.length := by
    rw [frees, List.length_map]
    exact List.length_filter_le _ _
  have hle := h.tiles.length_le fun b _ => by unfold UBlock.len umallocHdrSize; omega
  have hlt := h.lt
  unfold listFuel
  omega

/-- Stores that leave the sizes and the links of the free blocks alone. -/
lemma frame {y : ℕ} (h : HeapBut x s bs) (hsize : ∀ b ∈ bs, b.addr ≠ y → blkSize m b.addr = b.size)
    (hfree : ∀ b ∈ bs, b.free = true →
      blkNext m b.addr = blkNext s.mem b.addr ∧ blkFree m b.addr ≠ 0) :
    HeapBut y { s with mem := m } bs := by
  refine ⟨h.tiles, h.start, h.pos, h.lt, h.sizes, hsize, fun b hb hf => (hfree b hb hf).2, ?_⟩
  refine h.chain.congr fun a ha => ?_
  obtain ⟨b, hb, hf, rfl⟩ := mem_frees.mp ha
  exact (hfree b hb hf).1

/-- A block enters the free list or leaves it. -/
lemma reflag (h : HeapBut x s (l₁ ++ b :: l₂)) {f : Bool} (hm : NextsDiffer l s.mem m)
    (hl : ∀ a ∈ l, ∃ c ∈ l₁ ++ b :: l₂, c.addr = a)
    (hchain : FreeChain m fl (frees (l₁ ++ { b with free := f } :: l₂)))
    (hflag : f = true → blkFree s.mem b.addr ≠ 0) :
    HeapBut x { s with mem := m, freeList := fl } (l₁ ++ { b with free := f } :: l₂) := by
  have hsame : ∀ c ∈ l₁ ++ b :: l₂,
      blkSize m c.addr = blkSize s.mem c.addr ∧ blkFree m c.addr = blkFree s.mem c.addr := by
    intro c hc
    refine hm.size_free fun a ha => ?_
    obtain ⟨d, hd, rfl⟩ := hl a ha
    exact h.eq_or_apart hc hd
  have hb : b ∈ l₁ ++ b :: l₂ := List.mem_append_right l₁ List.mem_cons_self
  have hmem : ∀ c ∈ l₁ ++ { b with free := f } :: l₂,
      c = { b with free := f } ∨ c ∈ l₁ ++ b :: l₂ := by
    intro c hc
    rcases List.mem_cons.mp (List.perm_middle.mem_iff.mp hc) with rfl | hc
    · exact Or.inl rfl
    · exact Or.inr (List.perm_middle.mem_iff.mpr (List.mem_cons_of_mem b hc))
  have htiles : Tiles UBlock.addr UBlock.len s.heapStart
      (l₁ ++ { b with free := f } :: l₂) s.brk := by
    have hmiddle := Tiles.middle_iff.mp h.tiles
    exact Tiles.middle_iff.mpr hmiddle
  refine ⟨htiles, h.start, fun c hc => ?_, h.lt,
    fun c hc => ?_, fun c hc hx => ?_, fun c hc hf => ?_, hchain⟩
  · rcases hmem c hc with rfl | hc
    · exact h.pos b hb
    · exact h.pos c hc
  · rcases hmem c hc with rfl | hc
    · exact h.sizes b hb
    · exact h.sizes c hc
  · rcases hmem c hc with rfl | hc
    · exact (hsame b hb).1.trans (h.headers b hb hx)
    · exact (hsame c hc).1.trans (h.headers c hc hx)
  · rcases hmem c hc with rfl | hc
    · exact (hsame b hb).2 ▸ hflag hf
    · exact (hsame c hc).2 ▸ h.flags c hc hf

lemma frees_middle_of_free (hb : b.free = true) :
    frees (l₁ ++ b :: l₂) = frees l₁ ++ b.addr :: frees l₂ := by
  rw [frees_append, frees_cons_of_free hb]

lemma frees_middle_of_used (hb : b.free = false) :
    frees (l₁ ++ b :: l₂) = frees l₁ ++ frees l₂ := by
  rw [frees_append, frees_cons_of_used hb]

/-- `umallocUnlink` takes a block out of the free list. -/
lemma wp_unlink (h : Heap s (l₁ ++ b :: l₂)) (hb : b.free = true) :
    wp (umallocUnlink ((frees l₁).getLast?.getD 0) b.addr)
      (fun _ s' => Heap s' (l₁ ++ { b with free := false } :: l₂)) s := by
  have hchain := h.chain
  have hapart := h.frees_apart
  rw [frees_middle_of_free hb] at hchain hapart
  refine wp_mono (wp_umallocUnlink hchain hapart) ?_
  rintro - s' ⟨m, fl, rfl, hchain', hm⟩
  refine h.reflag hm (fun a ha => ?_) ?_ Bool.noConfusion
  · obtain ⟨c, hc, -, rfl⟩ := mem_frees.mp ha
    exact ⟨c, List.mem_append_left _ hc, rfl⟩
  · rw [frees_middle_of_used rfl]
    exact hchain'

/-- `umalloc_list_insert` puts a block into the free list. -/
lemma wp_link (h : HeapBut x s (l₁ ++ b :: l₂)) (hb : b.free = false)
    (hflag : blkFree s.mem b.addr ≠ 0) :
    wp (umallocListInsert b.addr)
      (fun _ s' => HeapBut x s' (l₁ ++ { b with free := true } :: l₂)) s := by
  have hmem : b ∈ l₁ ++ b :: l₂ := List.mem_append_right l₁ List.mem_cons_self
  have hchain := h.chain
  have hapart := h.frees_apart
  have hlen := h.length_frees_lt
  have hpair := List.pairwise_append.mp h.pairwise_lt
  rw [frees_middle_of_used hb] at hchain hapart hlen
  rw [List.length_append] at hlen
  refine wp_mono (wp_umallocListInsert hchain (h.pos b hmem).ne' (h.addr_lt hmem) (fun a ha => ?_)
    (fun a ha => ?_) (fun a ha => ?_) (fun a ha => ?_) hapart (by omega)) ?_
  · obtain ⟨c, hc, -, rfl⟩ := mem_frees.mp ha
    exact hpair.2.2 c hc b List.mem_cons_self
  · obtain ⟨c, hc, -, rfl⟩ := mem_frees.mp ha
    exact (List.pairwise_cons.mp hpair.2.1).1 c hc
  · obtain ⟨c, hc, -, rfl⟩ := mem_frees.mp ha
    exact h.addr_lt (List.mem_append_right l₁ (List.mem_cons_of_mem b hc))
  · rw [← frees_append] at ha
    obtain ⟨c, hc, -, rfl⟩ := mem_frees.mp ha
    exact h.apart_middle c hc
  · rintro - s' ⟨m, fl, rfl, hchain', hm⟩
    refine h.reflag hm (fun a ha => ?_) ?_ fun _ => hflag
    · rcases List.mem_cons.mp ha with rfl | ha
      · exact ⟨b, hmem, rfl⟩
      · obtain ⟨c, hc, -, rfl⟩ := mem_frees.mp ha
        exact ⟨c, List.mem_append_left _ hc, rfl⟩
    · rw [frees_middle_of_free rfl]
      exact hchain'

/-- Stores to a block that is not free, past the size in its header. -/
lemma of_used (h : HeapBut x s (l₁ ++ b :: l₂)) (hb : b.free = false)
    (hm : ∀ i, i < b.addr + 8 ∨ b.addr + b.len ≤ i → m i = s.mem i) :
    HeapBut x { s with mem := m } (l₁ ++ b :: l₂) := by
  have hother : ∀ c ∈ l₁ ++ l₂, SameHeader s.mem m c.addr := by
    intro c hc
    have hout := h.outside_middle c hc
    refine .of_bytes fun i hle hlt => hm i ?_
    unfold UBlock.len at *
    omega
  refine h.frame (fun c hc hx => ?_) fun c hc hf => ?_
  · rw [← h.headers c hc hx]
    rcases List.mem_cons.mp (List.perm_middle.mem_iff.mp hc) with rfl | hc
    · exact le64_congr fun i hi => hm _ (Or.inl (by omega))
    · exact (hother c hc).size
  · rcases List.mem_cons.mp (List.perm_middle.mem_iff.mp hc) with rfl | hc'
    · exact absurd (hb.symm.trans hf) Bool.false_ne_true
    · rw [(hother c hc').next, (hother c hc').free]
      exact ⟨rfl, h.flags c hc hf⟩

/-- The state after a block was cut in two, up to its own size. -/
lemma cut (h : Heap s (l₁ ++ b :: l₂)) (hb : b.free = false) {a : ℕ} (ha : 16 ∣ a)
    (hle : a + umallocHdrSize ≤ b.size) :
    HeapBut b.addr
      { s with
        mem := put8 (put64 s.mem (b.addr + umallocHdrSize + a) (b.size - a - umallocHdrSize))
          (b.addr + umallocHdrSize + a + 16) 1 }
      (l₁ ++ { b with size := a } ::
        ⟨b.addr + umallocHdrSize + a, b.size - a - umallocHdrSize, false⟩ :: l₂) := by
  obtain ⟨m, hm⟩ : ∃ m, m =
      put8 (put64 s.mem (b.addr + umallocHdrSize + a) (b.size - a - umallocHdrSize))
        (b.addr + umallocHdrSize + a + 16) 1 := ⟨_, rfl⟩
  have hb' : b ∈ l₁ ++ b :: l₂ := List.mem_append_right l₁ List.mem_cons_self
  have hbound := h.bounds hb'
  have hlt := h.lt
  have hother : ∀ c ∈ l₁ ++ l₂, SameHeader s.mem m c.addr := by
    intro c hc
    have hout := h.outside_middle c hc
    unfold UBlock.len at hout
    refine .of_bytes fun i hle hlt => ?_
    unfold umallocHdrSize at *
    rw [hm, put8, blit_of_not_mem (by omega), put64, blit_of_not_mem (by omega)]
  have hnew : blkSize m (b.addr + umallocHdrSize + a) = b.size - a - umallocHdrSize := by
    rw [hm, blkSize, put8, le64_blit_of_disjoint (Or.inl (by omega)), le64_put64_self,
      Nat.mod_eq_of_lt (by omega)]
  have hmem : ∀ c ∈ l₁ ++ { b with size := a } ::
      ⟨b.addr + umallocHdrSize + a, b.size - a - umallocHdrSize, false⟩ :: l₂,
      c = { b with size := a } ∨
        c = ⟨b.addr + umallocHdrSize + a, b.size - a - umallocHdrSize, false⟩ ∨ c ∈ l₁ ++ l₂ := by
    intro c hc
    rcases List.mem_cons.mp (List.perm_middle.mem_iff.mp hc) with hc | hc
    · exact Or.inl hc
    · exact Or.inr (List.mem_cons.mp (List.perm_middle.mem_iff.mp hc))
  have hold : ∀ c ∈ l₁ ++ l₂, c ∈ l₁ ++ b :: l₂ := fun c hc =>
    List.perm_middle.mem_iff.mpr (List.mem_cons_of_mem b hc)
  rw [← hm]
  refine ⟨?_, h.start, fun c hc => ?_, h.lt, fun c hc => ?_, fun c hc hx =>
    ?_, fun c hc hf => ?_, ?_⟩
  · obtain ⟨h₁, h₂⟩ := Tiles.middle_iff.mp h.tiles
    have hend : b.addr + b.len = b.addr + (umallocHdrSize + a) +
        (umallocHdrSize + (b.size - a - umallocHdrSize)) := by
      unfold UBlock.len
      omega
    rw [hend] at h₂
    exact Tiles.middle_iff.mpr ⟨h₁, Nat.add_assoc _ _ _, h₂⟩
  · rcases hmem c hc with rfl | rfl | hc
    · exact h.pos b hb'
    · exact Nat.add_pos_left (Nat.add_pos_left (h.pos b hb') _) a
    · exact h.pos c (hold c hc)
  · rcases hmem c hc with rfl | rfl | hc
    · exact ha
    · exact Nat.dvd_sub (Nat.dvd_sub (h.sizes b hb') ha) (by decide)
    · exact h.sizes c (hold c hc)
  · rcases hmem c hc with rfl | rfl | hc
    · exact absurd rfl hx
    · exact hnew
    · exact (hother c hc).size.trans (h.size_eq (hold c hc))
  · rcases hmem c hc with rfl | rfl | hc
    · exact absurd (hb.symm.trans hf) Bool.false_ne_true
    · exact absurd hf Bool.false_ne_true
    · exact (hother c hc).free ▸ h.flags c (hold c hc) hf
  · have hchain := h.chain
    rw [frees_middle_of_used hb] at hchain
    rw [frees_middle_of_used (b := { b with size := a }) hb, frees_cons_of_used rfl]
    refine hchain.congr fun i hi => ?_
    rw [← frees_append] at hi
    obtain ⟨c, hc, -, rfl⟩ := mem_frees.mp hi
    exact (hother c hc).next

/-- The size of the block that was cut is stored last. -/
lemma restore (h : HeapBut b.addr s (l₁ ++ b :: l₂)) :
    Heap { s with mem := put64 s.mem b.addr b.size } (l₁ ++ b :: l₂) := by
  have hb : b ∈ l₁ ++ b :: l₂ := List.mem_append_right l₁ List.mem_cons_self
  have hbound := h.bounds hb
  have hlt := h.lt
  have hother : ∀ c ∈ l₁ ++ l₂, SameHeader s.mem (put64 s.mem b.addr b.size) c.addr := by
    intro c hc
    have hapart := h.apart_middle c hc
    unfold HeadersApart at hapart
    refine .of_bytes fun i hle hlt => blit_of_not_mem ?_
    unfold umallocHdrSize at *
    omega
  refine h.frame (fun c hc _ => ?_) fun c hc hf => ?_
  · rcases List.mem_cons.mp (List.perm_middle.mem_iff.mp hc) with rfl | hc'
    · rw [blkSize, le64_put64_self, Nat.mod_eq_of_lt (by omega)]
    · have hapart := h.apart_middle c hc'
      unfold HeadersApart umallocHdrSize at hapart
      exact (hother c hc').size.trans (h.headers c hc (by omega))
  · have hflag := h.flags c hc hf
    rcases List.mem_cons.mp (List.perm_middle.mem_iff.mp hc) with rfl | hc'
    · have hnext : blkNext (put64 s.mem c.addr c.size) c.addr = blkNext s.mem c.addr :=
        le64_blit_of_disjoint (Or.inr le_rfl)
      have hfree : blkFree (put64 s.mem c.addr c.size) c.addr = blkFree s.mem c.addr :=
        blit_of_not_mem (by omega)
      exact ⟨hnext, hfree ▸ hflag⟩
    · exact ⟨(hother c hc').next, (hother c hc').free ▸ hflag⟩

/-- A block that is large enough is cut to the size asked for if another block has room in the
rest. -/
lemma wp_split (h : Heap s (l₁ ++ b :: l₂)) (hb : b.free = false) {a : ℕ} (ha : 16 ∣ a)
    (hle : a ≤ b.size) :
    wp (umallocSplit b.addr a) (fun _ s' => ∃ n l₂', a ≤ n ∧
      Heap s' (l₁ ++ { b with size := n } :: l₂') ∧
        (l₂' = l₂ ∨ ∃ r, r.free = true ∧ l₂' = r :: l₂)) s := by
  have hmem : b ∈ l₁ ++ b :: l₂ := List.mem_append_right l₁ List.mem_cons_self
  have hbound := h.bounds hmem
  have hlt := h.lt
  have hpos := h.pos b hmem
  have hdvd := h.dvd_addr hmem
  have hroom : (a + umallocHdrSize + umallocAlign) % 2 ^ 64 =
      a + umallocHdrSize + umallocAlign := by
    unfold umallocHdrSize umallocAlign at *
    exact Nat.mod_eq_of_lt (by omega)
  rw [umallocSplit]
  simp only [wp_bind, wp_get, wp_ite, wp_pure, setSize, setFree, wp_modify, h.size_eq hmem, hroom]
  split_ifs with hfits
  · have hrem : (b.addr + umallocHdrSize + a) % 2 ^ 64 = b.addr + umallocHdrSize + a :=
      Nat.mod_eq_of_lt (by omega)
    have hrest : (b.size + 2 ^ 64 - a + 2 ^ 64 - umallocHdrSize) % 2 ^ 64 =
        b.size - a - umallocHdrSize := by
      unfold umallocHdrSize umallocAlign at *
      omega
    rw [hrem, hrest]
    have hcut := h.cut hb ha (by omega)
    rw [List.append_cons] at hcut
    have hflag : blkFree (put8 (put64 s.mem (b.addr + umallocHdrSize + a)
        (b.size - a - umallocHdrSize)) (b.addr + umallocHdrSize + a + 16) 1)
        (b.addr + umallocHdrSize + a) ≠ 0 := by
      rw [blkFree, put8, blit_of_mem (by omega)]
      decide
    refine wp_mono (hcut.wp_link rfl hflag) fun _ s' h' => ?_
    rw [← List.append_cons] at h'
    exact ⟨a, _, le_rfl, restore (b := { b with size := a }) h',
      Or.inr ⟨⟨b.addr + umallocHdrSize + a, b.size - a - umallocHdrSize, true⟩, rfl, rfl⟩⟩
  · exact ⟨b.size, l₂, hle, h, Or.inl rfl⟩

/-- Fresh memory from the kernel is a block behind the others. -/
lemma grow (h : Heap s bs) {base chunk : ℕ} (hfresh : s.Fresh base chunk) (hdvd : 16 ∣ chunk)
    (hle : umallocHdrSize ≤ chunk) (hm : ∀ i < base, m i = s.mem i)
    (hsize : blkSize m base = chunk - umallocHdrSize) :
    Heap
      { mem := m
        freeList := s.freeList
        heapStart := if s.brk = s.heapStart then base else s.heapStart
        brk := base + chunk }
      (bs ++ [⟨base, chunk - umallocHdrSize, false⟩]) := by
  obtain ⟨hpos, hbase, hend, hnext⟩ := hfresh
  have htiles : Tiles UBlock.addr UBlock.len (if s.brk = s.heapStart then base else s.heapStart) bs
      base := by
    split_ifs with hfirst
    · have hlen := h.tiles.length_le fun b _ => by unfold UBlock.len umallocHdrSize; omega
      obtain rfl : bs = [] := List.length_eq_zero_iff.mp (by omega)
      exact rfl
    · obtain rfl := hnext.resolve_left hfirst
      exact h.tiles
  have hother : ∀ c ∈ bs, SameHeader s.mem m c.addr := by
    intro c hc
    have hbound := (htiles.mem_bounds hc).2
    unfold UBlock.len at hbound
    exact .of_bytes fun i _ hlt => hm i (by omega)
  have hmem : ∀ c ∈ bs ++ [⟨base, chunk - umallocHdrSize, false⟩],
      c ∈ bs ∨ c = ⟨base, chunk - umallocHdrSize, false⟩ := by
    intro c hc
    rw [List.mem_append, List.mem_singleton] at hc
    exact hc
  refine ⟨?_, ?_, fun c hc => ?_, hend, fun c hc => ?_, fun c hc hx => ?_, fun c hc hf => ?_, ?_⟩
  · refine Tiles.append_iff.mpr ⟨base, htiles, rfl, ?_⟩
    change base + (umallocHdrSize + (chunk - umallocHdrSize)) = base + chunk
    omega
  · split_ifs
    · exact hbase
    · exact h.start
  · rcases hmem c hc with hc | rfl
    · exact h.pos c hc
    · exact hpos
  · rcases hmem c hc with hc | rfl
    · exact h.sizes c hc
    · exact Nat.dvd_sub hdvd (by decide)
  · rcases hmem c hc with hc | rfl
    · exact (hother c hc).size.trans (h.headers c hc hx)
    · exact hsize
  · rcases hmem c hc with hc | rfl
    · exact (hother c hc).free ▸ h.flags c hc hf
    · exact absurd hf Bool.false_ne_true
  · rw [frees_append, frees_cons_of_used rfl]
    change FreeChain m s.freeList (frees bs ++ [])
    rw [List.append_nil]
    refine h.chain.congr fun i hi => ?_
    obtain ⟨c, hc, -, rfl⟩ := mem_frees.mp hi
    exact (hother c hc).next

/-- `umalloc_grow` returns a block behind the others, or nothing. -/
lemma wp_grow (h : Heap s bs) (offer : Option ℕ) {a : ℕ} (ha : 16 ∣ a)
    (hle : a + umallocHdrSize < 2 ^ 64) :
    wp (umallocGrow offer a) (fun r s' => r = 0 ∧ Heap s' bs ∨
      r ≠ 0 ∧ ∃ n, a ≤ n ∧ Heap s' (bs ++ [⟨r, n, false⟩])) s := by
  obtain ⟨chunk, hchunk⟩ : ∃ chunk, chunk =
      if a + umallocHdrSize < umallocMinGrow then umallocMinGrow else a + umallocHdrSize := ⟨_, rfl⟩
  have hroom : a + umallocHdrSize ≤ chunk ∧ 16 ∣ chunk := by
    unfold umallocHdrSize umallocMinGrow at *
    rw [hchunk]
    split_ifs <;> omega
  rw [umallocGrow, usyscallSbrk]
  simp only [wp_bind, wp_get, wp_ite, wp_pure, wp_modify, setSize, setFree, setNext,
    Nat.mod_eq_of_lt hle, ← hchunk]
  by_cases hfresh : s.Fresh (offer.getD 0) chunk
  · have hpos := hfresh.1
    have hdvd := hfresh.2.1
    have hlt := hfresh.2.2.1
    -- memory at the address -1 would not be aligned
    have haccepted : offer.getD 0 ≠ 2 ^ 64 - 1 := by omega
    rw [if_pos hfresh, if_neg haccepted]
    refine Or.inr ⟨hpos.ne', chunk - umallocHdrSize,
      by omega, h.grow hfresh hroom.2 (by omega) ?_ ?_⟩
    · intro i hi
      rw [put64, blit_of_not_mem (by omega), put8, blit_of_not_mem (by omega), put64,
        blit_of_not_mem (by omega)]
    · rw [blkSize, put64, le64_blit_of_disjoint (by omega), put8, le64_blit_of_disjoint (by omega),
        le64_put64_self, Nat.mod_eq_of_lt (by omega)]
  · rw [if_neg hfresh, if_pos trivial]
    exact Or.inl ⟨trivial, h⟩

/-- The last part of `umalloc`: the block is cut, and its header marked. -/
lemma wp_hand (h : Heap s (l₁ ++ b :: l₂)) (hb : b.free = false) {a : ℕ} (ha : 16 ∣ a)
    (hle : a ≤ b.size) :
    wp (umallocHand b.addr a)
      (fun r s' => r = b.addr + umallocHdrSize ∧ ∃ n bs', a ≤ n ∧ Heap s' bs' ∧
        (useds bs').Perm ({ b with size := n } :: useds (l₁ ++ l₂))) s := by
  have hbound := h.bounds (List.mem_append_right l₁ List.mem_cons_self)
  have hlt := h.lt
  rw [umallocHand, wp_bind]
  refine wp_mono (h.wp_split hb ha hle) ?_
  rintro - s' ⟨n, l₂', hn, h', hl₂⟩
  simp only [wp_bind, setFree, setNext, wp_modify, wp_pure]
  refine ⟨Nat.mod_eq_of_lt (by omega), n, _, hn, h'.of_used hb fun i hi => ?_, ?_⟩
  · change i < b.addr + 8 ∨ b.addr + (umallocHdrSize + n) ≤ i at hi
    unfold umallocHdrSize at hi
    rw [put64, blit_of_not_mem (by omega), put8, blit_of_not_mem (by omega)]
  · have hrest : useds l₂' = useds l₂ := by
      rcases hl₂ with rfl | ⟨r, hr, rfl⟩
      · rfl
      · exact useds_cons_of_free hr
    rw [useds_append, useds_append, useds_cons_of_used (b := { b with size := n }) hb, hrest]
    exact List.perm_middle

/-- `umalloc` returns nothing, or one more block in use that is large enough. -/
lemma wp_umalloc (h : Heap s bs) (offer : Option ℕ) {size : ℕ} (hsize : size ≤ 2 ^ 64 - 48) :
    wp (umalloc offer size) (fun r s' => r = 0 ∧ Heap s' bs ∨
      ∃ b bs', r = b.addr + umallocHdrSize ∧ size ≤ b.size ∧ Heap s' bs' ∧
        (useds bs').Perm (b :: useds bs)) s := by
  obtain ⟨a, ha⟩ : ∃ a, a = umallocAlignUp size := ⟨_, rfl⟩
  have haligned : 16 ∣ a ∧ size ≤ a ∧ a + umallocHdrSize < 2 ^ 64 := by
    unfold umallocAlignUp umallocAlign at ha
    unfold umallocHdrSize
    omega
  obtain ⟨hdvd, hle, hroom⟩ := haligned
  rw [umalloc]
  simp only [wp_bind, wp_ite, wp_pure, wp_get, ← ha]
  split_ifs with hzero
  · exact Or.inl ⟨trivial, h⟩
  refine wp_mono (wp_fitRounds h.chain h.length_frees_lt) ?_
  rintro ⟨prev, cur⟩ s' ⟨rfl, hr⟩
  dsimp only at hr ⊢
  by_cases hcur : cur = 0
  · rw [if_neg (fun hne => hne hcur)]
    refine wp_mono (h.wp_grow offer hdvd hroom) ?_
    rintro c s' (⟨rfl, h'⟩ | ⟨hne, n, hn, h'⟩)
    · rw [if_pos rfl]
      exact Or.inl ⟨trivial, h'⟩
    · rw [if_neg hne]
      refine wp_mono (wp_hand (b := ⟨c, n, false⟩) h' rfl hdvd hn) ?_
      rintro r t ⟨hr, n', bs', hn', hheap, hperm⟩
      rw [List.append_nil] at hperm
      exact Or.inr ⟨⟨c, n', false⟩, bs', hr, hle.trans hn', hheap, hperm⟩
  · obtain ⟨g₁, g₂, hfrees, rfl, hfits⟩ := hr.resolve_left hcur
    obtain ⟨l₁, b, l₂, rfl, hb, rfl, rfl, rfl⟩ := frees_eq_middle hfrees
    rw [h.size_eq (List.mem_append_right l₁ List.mem_cons_self)] at hfits
    rw [if_pos hcur]
    refine wp_mono (h.wp_unlink hb) fun _ s' h' => ?_
    refine wp_mono (wp_hand (b := { b with free := false }) h' rfl hdvd hfits) ?_
    rintro r t ⟨hr, n, bs', hn, hheap, hperm⟩
    refine Or.inr ⟨⟨b.addr, n, false⟩, bs', hr, hle.trans hn, hheap, ?_⟩
    rw [useds_append, useds_cons_of_free hb, ← useds_append]
    exact hperm

/-- Two free blocks one behind the other become one. -/
lemma merge (h : Heap s (l₁ ++ b :: c :: l₂)) (hb : b.free = true) (hc : c.free = true) :
    Heap
      { s with
        mem := put64 (put64 s.mem b.addr (b.size + (umallocHdrSize + c.size))) (b.addr + 8)
          (blkNext s.mem c.addr) }
      (l₁ ++ { b with size := b.size + (umallocHdrSize + c.size) } :: l₂) := by
  obtain ⟨n, hn⟩ : ∃ n, n = b.size + (umallocHdrSize + c.size) := ⟨_, rfl⟩
  obtain ⟨m, hm⟩ : ∃ m, m = put64 (put64 s.mem b.addr n) (b.addr + 8) (blkNext s.mem c.addr) :=
    ⟨_, rfl⟩
  rw [← hn, ← hm]
  have hb' : b ∈ l₁ ++ b :: c :: l₂ := List.mem_append_right l₁ List.mem_cons_self
  have hc' : c ∈ l₁ ++ b :: c :: l₂ :=
    List.mem_append_right l₁ (List.mem_cons_of_mem b List.mem_cons_self)
  have hbound := h.bounds hc'
  have hlt := h.lt
  obtain ⟨h₁, hadj, h₂⟩ := Tiles.middle_iff.mp h.tiles
  have hold : ∀ d ∈ l₁ ++ l₂, d ∈ l₁ ++ b :: c :: l₂ := by
    intro d hd
    rcases List.mem_append.mp hd with hd | hd
    · exact List.mem_append_left _ hd
    · exact List.mem_append_right l₁ (List.mem_cons_of_mem b (List.mem_cons_of_mem c hd))
  have hother : ∀ d ∈ l₁ ++ l₂, SameHeader s.mem m d.addr := by
    intro d hd
    have hd' : d ∈ l₁ ++ c :: l₂ := by
      rcases List.mem_append.mp hd with hd | hd
      · exact List.mem_append_left _ hd
      · exact List.mem_append_right l₁ (List.mem_cons_of_mem c hd)
    have hapart := h.apart_middle d hd'
    unfold HeadersApart umallocHdrSize at hapart
    refine .of_bytes fun i hle hlt => ?_
    unfold umallocHdrSize at hlt
    rw [hm, put64, blit_of_not_mem (by omega), put64, blit_of_not_mem (by omega)]
  have hmem : ∀ d ∈ l₁ ++ { b with size := n } :: l₂, d = { b with size := n } ∨ d ∈ l₁ ++ l₂ :=
    fun d hd => List.mem_cons.mp (List.perm_middle.mem_iff.mp hd)
  have hend : b.addr + b.len + c.len = b.addr + (umallocHdrSize + n) := by
    unfold UBlock.len
    omega
  unfold UBlock.len at hadj
  refine ⟨?_, h.start, fun d hd => ?_, hlt, fun d hd => ?_, fun d hd hx =>
    ?_, fun d hd hf => ?_, ?_⟩
  · rw [hend] at h₂
    exact Tiles.middle_iff.mpr ⟨h₁, h₂⟩
  · rcases hmem d hd with rfl | hd
    · exact h.pos b hb'
    · exact h.pos d (hold d hd)
  · rcases hmem d hd with rfl | hd
    · change 16 ∣ n
      rw [hn]
      exact Nat.dvd_add (h.sizes b hb') (Nat.dvd_add (by decide) (h.sizes c hc'))
    · exact h.sizes d (hold d hd)
  · rcases hmem d hd with rfl | hd
    · change blkSize m b.addr = n
      rw [hm, blkSize, put64, le64_blit_of_disjoint (Or.inl le_rfl), le64_put64_self]
      exact Nat.mod_eq_of_lt (by omega)
    · exact (hother d hd).size.trans (h.size_eq (hold d hd))
  · rcases hmem d hd with rfl | hd
    · have hflag : blkFree m b.addr = blkFree s.mem b.addr := by
        rw [hm, blkFree, put64, blit_of_not_mem (by omega), put64, blit_of_not_mem (by omega)]
        rfl
      change blkFree m b.addr ≠ 0
      exact hflag ▸ h.flags b hb' hb
    · exact (hother d hd).free ▸ h.flags d (hold d hd) hf
  · have hchain := h.chain
    rw [frees_middle_of_free hb, frees_cons_of_free hc] at hchain
    rw [frees_middle_of_free (b := { b with size := n }) hb]
    have hnext : blkNext s.mem c.addr < 2 ^ 64 := le64_lt s.mem _
    refine hchain.redirect (fun i hi => ?_) ?_
    · obtain ⟨d, hd, -, rfl⟩ := mem_frees.mp hi
      exact (hother d (List.mem_append_left _ hd)).next
    · rw [hm, blkNext_setNext_self, Nat.mod_eq_of_lt hnext, ← hm]
      refine hchain.drop.2.2.2.2.congr fun i hi => ?_
      obtain ⟨d, hd, -, rfl⟩ := mem_frees.mp hi
      exact (hother d (List.mem_append_right _ hd)).next

/-- `ufree` takes a block out of use. -/
lemma wp_ufree (h : Heap s (l₁ ++ b :: l₂)) (hb : b.free = false) :
    wp (ufree (b.addr + umallocHdrSize)) (fun _ s' => ∃ bs', Heap s' bs' ∧
      (useds bs').Perm (useds (l₁ ++ l₂))) s := by
  have hb' : b ∈ l₁ ++ b :: l₂ := List.mem_append_right l₁ List.mem_cons_self
  have hbound := h.bounds hb'
  have hlt := h.lt
  have hpos := h.pos b hb'
  have hblk : (b.addr + umallocHdrSize + 2 ^ 64 - umallocHdrSize) % 2 ^ 64 = b.addr := by omega
  have hflagged := of_used (m := put8 s.mem (b.addr + 16) 1) h hb fun i hi => by
    unfold UBlock.len umallocHdrSize at hi
    exact blit_of_not_mem (by omega)
  have hflag : blkFree (put8 s.mem (b.addr + 16) 1) b.addr ≠ 0 := by
    rw [blkFree, put8, blit_of_mem (by omega)]
    decide
  rw [ufree]
  simp only [wp_bind, wp_ite, wp_get, wp_pure, setFree, setSize, setNext, wp_modify, hblk]
  rw [if_neg (by omega)]
  refine wp_mono (hflagged.wp_link hb hflag) fun _ s' h' => ?_
  have hused : useds (l₁ ++ { b with free := true } :: l₂) = useds (l₁ ++ l₂) := by
    rw [useds_append, useds_cons_of_free rfl, ← useds_append]
  have hsize := h'.size_eq (List.mem_append_right l₁ List.mem_cons_self)
  change blkSize s'.mem b.addr = b.size at hsize
  have hend : (b.addr + umallocHdrSize + b.size) % 2 ^ 64 = b.addr + umallocHdrSize + b.size :=
    Nat.mod_eq_of_lt (by omega)
  rw [hsize, hend]
  split_ifs with hadj
  · obtain ⟨hne, hnext⟩ := hadj
    have hchain := h'.chain
    rw [frees_middle_of_free rfl] at hchain
    have htail := hchain.drop.2.2
    cases hfrees : frees l₂ with
    | nil =>
      rw [hfrees] at htail
      exact absurd htail hne
    | cons a g =>
      rw [hfrees] at htail
      obtain ⟨rfl, -, -⟩ := htail
      -- the next free block begins where this one ends, so it is the next block
      obtain ⟨c, hc, hcfree, hca⟩ := mem_frees.mp (hfrees ▸ List.mem_cons_self)
      obtain ⟨-, htiles⟩ := Tiles.middle_iff.mp h'.tiles
      have hstart : c.addr = b.addr + (umallocHdrSize + b.size) := by
        rw [hca]
        change blkNext s'.mem b.addr = _
        omega
      obtain ⟨l, rfl⟩ := htiles.eq_cons_of_pos_eq
        (fun d _ => by unfold UBlock.len umallocHdrSize; omega) hc hstart
      have hcmem : c ∈ l₁ ++ { b with free := true } :: c :: l :=
        List.mem_append_right l₁ (List.mem_cons_of_mem _ List.mem_cons_self)
      have hcsize := h'.size_eq hcmem
      have hcbound := h'.bounds hcmem
      have hlt' := h'.lt
      have hnxt : blkNext s'.mem b.addr = c.addr := hca.symm
      have hsum : (b.size + (umallocHdrSize + c.size)) % 2 ^ 64 =
          b.size + (umallocHdrSize + c.size) := Nat.mod_eq_of_lt (by omega)
      have hsame : blkNext (put64 s'.mem b.addr (b.size + (umallocHdrSize + c.size))) c.addr =
          blkNext s'.mem c.addr := by
        rw [hstart]
        unfold umallocHdrSize
        exact le64_blit_of_disjoint (Or.inr (by omega))
      rw [hnxt, hcsize, hsum, hsame]
      refine ⟨_, h'.merge rfl hcfree, ?_⟩
      rw [useds_append, useds_append, useds_cons_of_free rfl, useds_cons_of_free hcfree]
  · exact ⟨_, h', hused ▸ List.Perm.refl _⟩

end HeapBut

end UHeap

/-! ## Runs -/

/-- A live allocation: its address and what was asked for. -/
structure UAlloc where
  p : ℕ
  size : ℕ

/-- The heap together with the live allocations. -/
structure UState where
  heap : UHeap
  live : List UAlloc

/-- What a program does with its heap: it calls `umalloc`, where the kernel may be asked for memory
and offers some, it calls `ufree` for a live allocation, given by its place among them, or writes a
byte of one. -/
inductive UOp where
  | umalloc (size : UInt64) (offer : Option ℕ)
  | ufree (i : ℕ)
  | store (i off : ℕ) (v : UInt8)

namespace UState

/-- The state after an operation; `none` if a call does not return.  A program that has no such
allocation makes no call. -/
def step (s : UState) : UOp → Option UState
  | .umalloc size offer =>
    (CoolFrost.umalloc offer size.toNat s.heap).map fun r =>
      ⟨r.2, if r.1 = 0 then s.live else ⟨r.1, size.toNat⟩ :: s.live⟩
  | .ufree i =>
    match s.live[i]? with
    | none => some s
    | some a => (CoolFrost.ufree a.p s.heap).map fun r => ⟨r.2, s.live.eraseIdx i⟩
  | .store i off v =>
    match s.live[i]? with
    | none => some s
    | some a =>
      if off < a.size then some { s with heap.mem := put8 s.heap.mem (a.p + off) v } else some s

/-- The state after the operations of a run, for any memory that the process may begin with. -/
def run (mem : Bytes) (ops : List UOp) : Option UState := ops.foldlM step ⟨⟨mem, 0, 0, 0⟩, []⟩

/-- The usable bytes of a live allocation, by its header. -/
def usable (s : UState) (a : UAlloc) : ℕ := blkSize s.heap.mem (a.p - umallocHdrSize)

/-- What is promised to the users of the heap, with the free list `fl` and the headers `hs` of all
blocks. -/
structure SoundWith (s : UState) (fl hs : List ℕ) : Prop where
  aligned : ∀ a ∈ s.live, 16 ∣ a.p
  enough : ∀ a ∈ s.live, a.size ≤ s.usable a
  inside : ∀ a ∈ s.live, s.heap.heapStart + umallocHdrSize ≤ a.p ∧ a.p + s.usable a ≤ s.heap.brk
  disjoint : s.live.Pairwise fun a a' => a.p + s.usable a ≤ a'.p ∨ a'.p + s.usable a' ≤ a.p
  /-- No payload meets a header. -/
  off_headers : ∀ a ∈ s.live, ∀ h ∈ hs, a.p + s.usable a ≤ h ∨ h + umallocHdrSize ≤ a.p
  chain : FreeChain s.heap.mem s.heap.freeList fl
  increasing : fl.Pairwise (· < ·)
  not_free : ∀ a ∈ s.live, a.p - umallocHdrSize ∉ fl
  /-- The blocks are the live and the free ones. -/
  blocks : ∀ h, h ∈ hs ↔ h ∈ fl ∨ ∃ a ∈ s.live, a.p = h + umallocHdrSize
  tiled : Tiles id (fun h => umallocHdrSize + blkSize s.heap.mem h) s.heap.heapStart hs s.heap.brk

/-- What is promised to the users of the heap. -/
def Sound (s : UState) : Prop := ∃ fl hs, SoundWith s fl hs

end UState

/-- Rounding the request and adding a header does not wrap around. -/
def UOp.Fits : UOp → Prop
  | .umalloc size _ => size.toNat ≤ 2 ^ 64 - 48
  | .ufree _ => True
  | .store _ _ _ => True

namespace UState

/-- A block in use that was asked for with a size, as a live allocation. -/
def toAlloc (u : UBlock × ℕ) : UAlloc := ⟨u.1.addr + umallocHdrSize, u.2⟩

/-- The live allocations are the blocks in use. -/
structure Working (s : UState) (bs : List UBlock) (us : List (UBlock × ℕ)) : Prop where
  heap : s.heap.Heap bs
  live : s.live = us.map toAlloc
  used : (us.map Prod.fst).Perm (useds bs)
  size : ∀ u ∈ us, u.2 ≤ u.1.size

namespace Working

variable {s : UState} {bs : List UBlock} {us : List (UBlock × ℕ)} {u : UBlock × ℕ}

lemma mem_useds (h : Working s bs us) (hu : u ∈ us) : u.1 ∈ bs ∧ u.1.free = false := by
  have hmem := List.mem_filter.mp (h.used.mem_iff.mp (List.mem_map_of_mem hu))
  exact ⟨hmem.1, Bool.not_eq_true' .. |>.mp hmem.2⟩

lemma usable_toAlloc (h : Working s bs us) (hu : u ∈ us) : s.usable (toAlloc u) = u.1.size := by
  change blkSize s.heap.mem (u.1.addr + umallocHdrSize - umallocHdrSize) = _
  rw [Nat.add_sub_cancel]
  exact h.heap.size_eq (h.mem_useds hu).1

/-- The blocks in use are one behind the other. -/
lemma pairwise (h : Working s bs us) :
    us.Pairwise fun u v => u.1.addr + u.1.len ≤ v.1.addr ∨ v.1.addr + v.1.len ≤ u.1.addr := by
  have hbs : (useds bs).Pairwise fun b c => b.addr + b.len ≤ c.addr ∨ c.addr + c.len ≤ b.addr :=
    (h.heap.tiles.pairwise.imp Or.inl).filter _
  exact List.pairwise_map.mp ((h.used.pairwise_iff fun hbc => Or.symm hbc).mpr hbs)

/-- Blocks that are the live allocations and the free list keep what is promised. -/
lemma sound (h : Working s bs us) : Sound s := by
  have hlive : ∀ a ∈ s.live, ∃ u ∈ us, toAlloc u = a := by
    intro a ha
    rw [h.live] at ha
    exact List.mem_map.mp ha
  refine ⟨frees bs, bs.map UBlock.addr, fun a ha => ?_, fun a ha => ?_, fun a ha => ?_, ?_,
    fun a ha i hi => ?_, h.heap.chain, h.heap.frees_lt, fun a ha => ?_, fun i => ?_, ?_⟩
  · obtain ⟨u, hu, rfl⟩ := hlive a ha
    exact Nat.dvd_add (h.heap.dvd_addr (h.mem_useds hu).1) (by decide)
  · obtain ⟨u, hu, rfl⟩ := hlive a ha
    rw [h.usable_toAlloc hu]
    exact h.size u hu
  · obtain ⟨u, hu, rfl⟩ := hlive a ha
    have hbound := h.heap.bounds (h.mem_useds hu).1
    rw [h.usable_toAlloc hu]
    exact ⟨Nat.add_le_add_right hbound.1 _, hbound.2⟩
  · rw [h.live]
    refine List.pairwise_map.mpr (h.pairwise.imp_of_mem fun {u v} hu hv hout => ?_)
    rw [h.usable_toAlloc hu, h.usable_toAlloc hv]
    unfold UBlock.len at hout
    unfold toAlloc
    dsimp only
    omega
  · obtain ⟨u, hu, rfl⟩ := hlive a ha
    obtain ⟨b, hb, rfl⟩ := List.mem_map.mp hi
    obtain ⟨l₁, l₂, hbs⟩ := List.append_of_mem (h.mem_useds hu).1
    rw [h.usable_toAlloc hu]
    change u.1.addr + umallocHdrSize + u.1.size ≤ b.addr ∨
      b.addr + umallocHdrSize ≤ u.1.addr + umallocHdrSize
    have hheap := h.heap
    rw [hbs] at hb hheap
    rcases List.mem_cons.mp (List.perm_middle.mem_iff.mp hb) with rfl | hb
    · exact Or.inr le_rfl
    · have hout := hheap.outside_middle b hb
      unfold UBlock.len at hout
      omega
  · obtain ⟨u, hu, rfl⟩ := hlive a ha
    intro hfree
    obtain ⟨b, hb, hbfree, hbu⟩ := mem_frees.mp hfree
    change b.addr = u.1.addr + umallocHdrSize - umallocHdrSize at hbu
    rw [Nat.add_sub_cancel] at hbu
    obtain ⟨hmem, hused⟩ := h.mem_useds hu
    rw [h.heap.addr_inj hmem hb hbu, hused] at hbfree
    exact Bool.false_ne_true hbfree
  · constructor
    · intro hi
      obtain ⟨b, hb, rfl⟩ := List.mem_map.mp hi
      cases hfree : b.free with
      | true => exact Or.inl (mem_frees.mpr ⟨b, hb, hfree, rfl⟩)
      | false =>
        have hused : b ∈ useds bs := List.mem_filter.mpr ⟨hb, by rw [hfree]; rfl⟩
        obtain ⟨u, hu, rfl⟩ := List.mem_map.mp (h.used.mem_iff.mpr hused)
        exact Or.inr ⟨toAlloc u, h.live ▸ List.mem_map_of_mem hu, rfl⟩
    · rintro (hi | ⟨a, ha, hp⟩)
      · obtain ⟨b, hb, -, rfl⟩ := mem_frees.mp hi
        exact List.mem_map_of_mem hb
      · obtain ⟨u, hu, rfl⟩ := hlive a ha
        rw [← Nat.add_right_cancel hp]
        exact List.mem_map_of_mem (h.mem_useds hu).1
  · refine Tiles.map_iff.mpr (h.heap.tiles.congr (fun b hb => rfl) fun b hb => ?_)
    rw [h.heap.size_eq hb]
    rfl

/-- Every operation returns, and the blocks in use are the live allocations again. -/
lemma step (h : Working s bs us) {op : UOp} (hfits : op.Fits) :
    ∃ s', s.step op = some s' ∧ ∃ bs' us', Working s' bs' us' := by
  cases op with
  | umalloc size offer =>
    obtain ⟨r, t, hrun, hres⟩ := h.heap.wp_umalloc offer hfits
    refine ⟨⟨t, if r = 0 then s.live else ⟨r, size.toNat⟩ :: s.live⟩, ?_, ?_⟩
    · rw [UState.step, hrun]
      rfl
    · rcases hres with ⟨rfl, hheap⟩ | ⟨b, bs', rfl, hle, hheap, hperm⟩
      · exact ⟨bs, us, hheap, h.live, h.used, h.size⟩
      · refine ⟨bs', (b, size.toNat) :: us, hheap, ?_, ?_, ?_⟩
        · have hne : b.addr + umallocHdrSize ≠ 0 := by
            unfold umallocHdrSize
            omega
          rw [if_neg hne, List.map_cons, h.live]
          rfl
        · exact (h.used.cons b).trans hperm.symm
        · intro u hu
          rcases List.mem_cons.mp hu with rfl | hu
          · exact hle
          · exact h.size u hu
  | ufree i =>
    rw [UState.step]
    cases hi : s.live[i]? with
    | none => exact ⟨s, rfl, bs, us, h⟩
    | some a =>
      rw [h.live, List.getElem?_map, Option.map_eq_some_iff] at hi
      obtain ⟨u, hu, rfl⟩ := hi
      obtain ⟨hmem, hused⟩ := h.mem_useds (List.mem_of_getElem? hu)
      obtain ⟨l₁, l₂, hbs⟩ := List.append_of_mem hmem
      have hheap := h.heap
      rw [hbs] at hheap
      obtain ⟨_, t, hrun, bs', hheap', hperm⟩ := hheap.wp_ufree hused
      refine ⟨⟨t, s.live.eraseIdx i⟩, ?_, bs', us.eraseIdx i, hheap', ?_, ?_, fun v hv => ?_⟩
      · change (CoolFrost.ufree (u.1.addr + umallocHdrSize) s.heap).map _ = _
        rw [hrun]
        rfl
      · rw [h.live, List.eraseIdx_map]
      · refine List.Perm.trans ?_ hperm.symm
        obtain ⟨hlt, hget⟩ := List.getElem?_eq_some_iff.mp hu
        have hcons := (List.getElem_cons_eraseIdx_perm hlt).map Prod.fst
        rw [hget] at hcons
        have hall := hcons.trans h.used
        rw [hbs, useds_append, useds_cons_of_used hused] at hall
        rw [useds_append]
        exact (hall.trans List.perm_middle).cons_inv
      · exact h.size v (List.mem_of_mem_eraseIdx hv)
  | store i off v =>
    rw [UState.step]
    cases hi : s.live[i]? with
    | none => exact ⟨s, rfl, bs, us, h⟩
    | some a =>
      rw [h.live, List.getElem?_map, Option.map_eq_some_iff] at hi
      obtain ⟨u, hu, rfl⟩ := hi
      have humem := List.mem_of_getElem? hu
      obtain ⟨hmem, hused⟩ := h.mem_useds humem
      obtain ⟨l₁, l₂, rfl⟩ := List.append_of_mem hmem
      dsimp only
      split_ifs with hoff
      · refine ⟨_, rfl, _, us, h.heap.of_used hused fun j hj => ?_, h.live, h.used, h.size⟩
        have hsize := h.size u humem
        change off < u.2 at hoff
        unfold UBlock.len umallocHdrSize at hj
        refine blit_of_not_mem ?_
        change j < u.1.addr + 32 + off ∨ u.1.addr + 32 + off + 1 ≤ j
        omega
      · exact ⟨s, rfl, _, us, h⟩

end Working

/-- In every run whose requests do not wrap around all calls return, and the heap keeps what it
promises. -/
theorem sound_of_run (mem : Bytes) (ops : List UOp) (hfits : ∀ op ∈ ops, op.Fits) :
    ∃ s, run mem ops = some s ∧ Sound s := by
  have hstart : Working ⟨⟨mem, 0, 0, 0⟩, []⟩ [] [] := by
    refine ⟨⟨rfl, dvd_zero 16, ?_, Nat.two_pow_pos 64, ?_, ?_, ?_, rfl⟩, rfl, List.Perm.nil, ?_⟩ <;>
      exact fun _ hb => absurd hb List.not_mem_nil
  obtain ⟨s, hrun, bs, us, h⟩ := PartialRun.total
    (fun {s op} (h : ∃ bs us, Working s bs us) (hop : op.Fits) =>
      h.elim fun _ h => h.elim fun _ h => h.step hop) ⟨[], [], hstart⟩ hfits
  exact ⟨s, hrun, h.sound⟩

/-- Two allocations, the first of which is freed. -/
theorem sound_of_run_two : ∃ s,
    run zeros [.umalloc 16 (some 4096), .umalloc 100 none, .ufree 1] = some s ∧ Sound s := by
  refine sound_of_run zeros [.umalloc 16 (some 4096), .umalloc 100 none, .ufree 1] fun op hop => ?_
  simp only [List.mem_cons, List.not_mem_nil, or_false] at hop
  rcases hop with rfl | rfl | rfl
  · exact (by decide : (16 : UInt64).toNat ≤ 2 ^ 64 - 48)
  · exact (by decide : (100 : UInt64).toNat ≤ 2 ^ 64 - 48)
  · exact trivial

/-- An allocation of the whole address space but for one byte succeeds. -/
theorem not_sound_of_wrap : ∃ s,
    run zeros [.umalloc 0xFFFFFFFFFFFFFFFF (some 4096)] = some s ∧ ¬Sound s := by
  obtain ⟨s, hrun, hlive, hbrk⟩ :
    ∃ s, run zeros [.umalloc 0xFFFFFFFFFFFFFFFF (some 4096)] = some s ∧
      s.live = [⟨4128, 18446744073709551615⟩] ∧ s.heap.brk = 8192 := by
    refine ⟨_, rfl, rfl, rfl⟩
  refine ⟨s, hrun, ?_⟩
  rintro ⟨fl, hs, h⟩
  have hmem : (⟨4128, 18446744073709551615⟩ : UAlloc) ∈ s.live := by
    rw [hlive]
    exact List.mem_cons_self
  have henough := h.enough _ hmem
  have hinside := (h.inside _ hmem).2
  rw [hbrk] at hinside
  dsimp only at henough hinside
  omega

end UState

end CoolFrost
