import CoolFrost.Lib.Program
import CoolFrost.Lib.Pages
import CoolFrost.Lib.Chain

/-!
# The user heap

`umalloc` and `ufree` (`userland/umalloc.h`): a first-fit allocator over the memory that a process
gets from SYS_SBRK.  Every block begins with a header in that memory, and the free blocks are linked
through their headers in the order of their addresses.  Here are the functions and what each of them
does to a free list; runs of them are the subject of the next module.
-/

namespace CoolFrost

open Bytes Program

/-- `UMALLOC_ALIGN`. -/
def umallocAlign : ℕ := 16
/-- `UMALLOC_HDR_SIZE`: the 24 bytes of a `umalloc_block_t`, rounded up. -/
def umallocHdrSize : ℕ := 32
/-- `UMALLOC_MIN_GROW`. -/
def umallocMinGrow : ℕ := 4096

/-- The memory of a process, its `umalloc_free_list`, and the memory that it has got from SYS_SBRK
so far: the addresses from `heapStart` up to `brk`. -/
structure UHeap where
  mem : Bytes
  freeList : ℕ
  heapStart : ℕ
  brk : ℕ

/-! ## The fields of a header -/

/-- `size`. -/
def blkSize (m : Bytes) (b : ℕ) : ℕ := le64 m b
/-- `next`. -/
def blkNext (m : Bytes) (b : ℕ) : ℕ := le64 m (b + 8)
/-- `free`. -/
def blkFree (m : Bytes) (b : ℕ) : UInt8 := m (b + 16)

/-- `b->size = v`. -/
def setSize (b v : ℕ) : Program UHeap PUnit := modify fun s => { s with mem := put64 s.mem b v }
/-- `b->next = v`. -/
def setNext (b v : ℕ) : Program UHeap PUnit :=
  modify fun s => { s with mem := put64 s.mem (b + 8) v }
/-- `b->free = v`. -/
def setFree (b : ℕ) (v : UInt8) : Program UHeap PUnit :=
  modify fun s => { s with mem := put8 s.mem (b + 16) v }

/-! ## The functions -/

/-- `umalloc_align_up`. -/
def umallocAlignUp (x : ℕ) : ℕ := (x + (umallocAlign - 1)) % 2 ^ 64 / umallocAlign * umallocAlign

/-- Rounds for the loops over the free list, which has at most one block for every address. -/
def listFuel : ℕ := 2 ^ 64

/-- A round of the loop of `umalloc_list_insert`. -/
def insertRound (blk cur : ℕ) : Program UHeap (ℕ ⊕ ℕ) := do
  let s ← get
  let nxt := blkNext s.mem cur
  if nxt ≠ 0 ∧ nxt < blk then return .inl nxt else return .inr cur

/-- `umalloc_list_insert`. -/
def umallocListInsert (blk : ℕ) : Program UHeap PUnit := do
  let s ← get
  if s.freeList = 0 ∨ blk < s.freeList then
    setNext blk s.freeList
    modify fun s => { s with freeList := blk }
  else
    let cur ← iter (insertRound blk) listFuel s.freeList
    setNext blk (blkNext s.mem cur)
    setNext cur blk

/-- The `n` bytes from `base` on can be what SYS_SBRK gives next; their end, which is the break, is
an address as well. -/
def UHeap.Fresh (s : UHeap) (base n : ℕ) : Prop :=
  0 < base ∧ 16 ∣ base ∧ base + n < 2 ^ 64 ∧ (s.brk = s.heapStart ∨ base = s.brk)

instance (s : UHeap) (base n : ℕ) : Decidable (s.Fresh base n) :=
  inferInstanceAs (Decidable (_ ∧ _ ∧ _ ∧ _))

/-- SYS_SBRK for `n` bytes.  The kernel may offer any memory that is aligned and continues what it
gave before, or refuse, which it does with -1. -/
def usyscallSbrk (offer : Option ℕ) (n : ℕ) : Program UHeap ℕ := do
  let s ← get
  let base := offer.getD 0
  if s.Fresh base n then
    modify fun s =>
      { s with heapStart := if s.brk = s.heapStart then base else s.heapStart, brk := base + n }
    return base
  else return 2 ^ 64 - 1

/-- `umalloc_grow`. -/
def umallocGrow (offer : Option ℕ) (minSize : ℕ) : Program UHeap ℕ := do
  let chunk := (minSize + umallocHdrSize) % 2 ^ 64
  let chunk := if chunk < umallocMinGrow then umallocMinGrow else chunk
  let base ← usyscallSbrk offer chunk
  if base = 2 ^ 64 - 1 then return 0
  setSize base (chunk - umallocHdrSize)
  setFree base 1
  setNext base 0
  return base

/-- A round of the loop of `umalloc`, with `prev` and `cur`. -/
def fitRound (size : ℕ) (r : ℕ × ℕ) : Program UHeap ((ℕ × ℕ) ⊕ (ℕ × ℕ)) := do
  let s ← get
  if r.2 ≠ 0 ∧ ¬(blkFree s.mem r.2 ≠ 0 ∧ size ≤ blkSize s.mem r.2) then
    return .inl (r.2, blkNext s.mem r.2)
  else return .inr r

/-- The part of `umalloc` that takes `cur` out of the free list. -/
def umallocUnlink (prev cur : ℕ) : Program UHeap PUnit := do
  let s ← get
  if prev ≠ 0 then setNext prev (blkNext s.mem cur)
  else modify fun s => { s with freeList := blkNext s.mem cur }

/-- The part of `umalloc` that splits off what is left of `cur`. -/
def umallocSplit (cur size : ℕ) : Program UHeap PUnit := do
  let s ← get
  let total := blkSize s.mem cur
  if (size + umallocHdrSize + umallocAlign) % 2 ^ 64 ≤ total then
    let rem := (cur + umallocHdrSize + size) % 2 ^ 64
    setSize rem ((total + 2 ^ 64 - size + 2 ^ 64 - umallocHdrSize) % 2 ^ 64)
    setFree rem 1
    umallocListInsert rem
    setSize cur size

/-- The last part of `umalloc`, which gives `cur` out. -/
def umallocHand (cur size : ℕ) : Program UHeap ℕ := do
  umallocSplit cur size
  setFree cur 0
  setNext cur 0
  return (cur + umallocHdrSize) % 2 ^ 64

/-- `umalloc`, with the memory that the kernel offers should it be asked for some. -/
def umalloc (offer : Option ℕ) (size : ℕ) : Program UHeap ℕ := do
  if size = 0 then return 0
  let size := umallocAlignUp size
  let s ← get
  let r ← iter (fitRound size) listFuel (0, s.freeList)
  let cur ← if r.2 ≠ 0 then do
      umallocUnlink r.1 r.2
      pure r.2
    else umallocGrow offer size
  if cur = 0 then return 0 else umallocHand cur size

/-- `ufree`. -/
def ufree (ptr : ℕ) : Program UHeap PUnit := do
  if ptr = 0 then return
  let blk := (ptr + 2 ^ 64 - umallocHdrSize) % 2 ^ 64
  setFree blk 1
  umallocListInsert blk
  let s ← get
  let nxt := blkNext s.mem blk
  if nxt ≠ 0 ∧ (blk + umallocHdrSize + blkSize s.mem blk) % 2 ^ 64 = nxt then
    setSize blk ((blkSize s.mem blk + (umallocHdrSize + blkSize s.mem nxt)) % 2 ^ 64)
    let s ← get
    setNext blk (blkNext s.mem nxt)

/-! ## What the stores leave alone -/

variable {m m' : Bytes} {b c v : ℕ} {l : List ℕ}

/-- The headers of two blocks do not meet. -/
def HeadersApart (b c : ℕ) : Prop := b + umallocHdrSize ≤ c ∨ c + umallocHdrSize ≤ b

lemma HeadersApart.symm (h : HeadersApart b c) : HeadersApart c b := Or.symm h

/-- Only the `next` fields of the blocks `l` differ. -/
def NextsDiffer (l : List ℕ) (m m' : Bytes) : Prop :=
  ∀ i, (∀ b ∈ l, i < b + 8 ∨ b + 16 ≤ i) → m' i = m i

/-- The header of `b` is the same in both memories. -/
structure SameHeader (m m' : Bytes) (b : ℕ) : Prop where
  size : blkSize m' b = blkSize m b
  next : blkNext m' b = blkNext m b
  free : blkFree m' b = blkFree m b

lemma SameHeader.of_bytes (h : ∀ i, b ≤ i → i < b + umallocHdrSize → m' i = m i) :
    SameHeader m m' b := by
  unfold umallocHdrSize at h
  exact ⟨le64_congr fun i hi => h _ (by omega) (by omega),
    le64_congr fun i hi => h _ (by omega) (by omega), h _ (by omega) (by omega)⟩

lemma NextsDiffer.size_free (h : NextsDiffer l m m') (hb : ∀ c ∈ l, c = b ∨ HeadersApart b c) :
    blkSize m' b = blkSize m b ∧ blkFree m' b = blkFree m b := by
  have hout : ∀ i, b ≤ i → i < b + umallocHdrSize → i < b + 8 ∨ b + 16 ≤ i → m' i = m i := by
    intro i hle hlt hnext
    refine h i fun c hc => ?_
    rcases hb c hc with rfl | hapart
    · exact hnext
    · unfold HeadersApart umallocHdrSize at *
      omega
  unfold umallocHdrSize at hout
  exact ⟨le64_congr fun i hi => hout _ (by omega) (by omega) (by omega),
    hout _ (by omega) (by omega) (by omega)⟩

lemma NextsDiffer.trans {m'' : Bytes} (h : NextsDiffer l m m') (h' : NextsDiffer l m' m'') :
    NextsDiffer l m m'' :=
  fun i hi => (h' i hi).trans (h i hi)

/-- `b->next = v` changes one such field. -/
lemma nextsDiffer_setNext (hb : b ∈ l) : NextsDiffer l m (put64 m (b + 8) v) := by
  intro i hi
  have hout := hi b hb
  exact blit_of_not_mem (by omega)

lemma blkNext_setNext_self : blkNext (put64 m (b + 8) v) b = v % 2 ^ 64 := le64_put64_self m _ v

lemma blkNext_setNext_of_apart (h : HeadersApart c b) :
    blkNext (put64 m (b + 8) v) c = blkNext m c := by
  unfold HeadersApart umallocHdrSize at h
  exact le64_blit_of_disjoint (by omega)

/-! ## The free list -/

/-- Following the free list from `fl` visits the blocks `l`. -/
abbrev FreeChain (m : Bytes) (fl : ℕ) (l : List ℕ) : Prop :=
  Links (blkNext m) (· ≠ 0) (· = 0) fl l

variable {s : UHeap} {blk cur fl n size : ℕ} {f₁ f₂ g : List ℕ}

/-- The loop of `umalloc_list_insert` stops at the last block below the new one. -/
lemma wp_insertRounds (h : FreeChain s.mem cur (cur :: (g ++ f₂))) (hg : ∀ x ∈ g, x < blk)
    (hf₂ : ∀ x ∈ f₂, blk < x) (hn : g.length < n) :
    wp (iter (insertRound blk) n cur) (fun r s' => s' = s ∧ ∃ g', cur :: g = g' ++ [r]) s := by
  induction g generalizing cur n with
  | nil =>
    obtain ⟨n, rfl⟩ : ∃ k, n = k + 1 := ⟨n - 1, by omega⟩
    have hstop : ¬(blkNext s.mem cur ≠ 0 ∧ blkNext s.mem cur < blk) := by
      cases f₂ with
      | nil => exact fun hgo => hgo.1 h.2.2
      | cons y f₂ =>
        obtain ⟨-, -, hy, -⟩ := h
        have hlt := hf₂ y List.mem_cons_self
        omega
    rw [wp_iter_succ, insertRound]
    simp only [wp_bind, wp_get, wp_ite, wp_pure, if_neg hstop, Sum.elim_inr, true_and]
    exact ⟨[], rfl⟩
  | cons x g ih =>
    obtain ⟨n, rfl⟩ : ∃ k, n = k + 1 := ⟨n - 1, by omega⟩
    obtain ⟨-, -, hx, hne, hrest⟩ := h
    have hgo : blkNext s.mem cur ≠ 0 ∧ blkNext s.mem cur < blk := by
      rw [← hx]
      exact ⟨hne, hg x List.mem_cons_self⟩
    rw [wp_iter_succ, insertRound]
    simp only [wp_bind, wp_get, wp_ite, wp_pure, if_pos hgo, Sum.elim_inl]
    rw [← hx]
    refine wp_mono (ih ⟨rfl, hne, hrest⟩ (fun y hy => hg y (List.mem_cons_of_mem x hy))
      (Nat.lt_of_succ_lt_succ hn)) ?_
    rintro r s' ⟨rfl, g', hg'⟩
    exact ⟨rfl, cur :: g', by rw [hg', List.cons_append]⟩

/-- The head of a free list is an address. -/
lemma FreeChain.head_lt (h : FreeChain m fl l) (hl : ∀ x ∈ l, x < 2 ^ 64) : fl < 2 ^ 64 := by
  cases l with
  | nil =>
    have hzero : fl = 0 := h
    rw [hzero]
    exact Nat.two_pow_pos 64
  | cons x l =>
    obtain ⟨rfl, -⟩ := h
    exact hl x List.mem_cons_self

/-- Linking a block in behind another one. -/
lemma FreeChain.insert (h : FreeChain m fl (g ++ cur :: f₂)) (hne : blk ≠ 0) (hlt : blk < 2 ^ 64)
    (hblk : ∀ x ∈ g ++ cur :: f₂, HeadersApart x blk)
    (hapart : (g ++ cur :: f₂).Pairwise HeadersApart) :
    FreeChain (put64 (put64 m (blk + 8) (blkNext m cur)) (cur + 8) blk) fl
      (g ++ cur :: blk :: f₂) := by
  have hcur : cur ∈ g ++ cur :: f₂ := List.mem_append_right g List.mem_cons_self
  have hpair := List.pairwise_append.mp hapart
  have hrest := List.pairwise_cons.mp hpair.2.1
  have hother : ∀ x ∈ g ++ cur :: f₂, HeadersApart x cur →
      blkNext (put64 (put64 m (blk + 8) (blkNext m cur)) (cur + 8) blk) x = blkNext m x := by
    intro x hx hxcur
    rw [blkNext_setNext_of_apart hxcur, blkNext_setNext_of_apart (hblk x hx)]
  refine h.redirect (fun x hx => ?_) ?_
  · exact hother x (List.mem_append_left _ hx) (hpair.2.2 x hx cur List.mem_cons_self)
  · rw [blkNext_setNext_self, Nat.mod_eq_of_lt hlt]
    refine ⟨rfl, hne, ?_⟩
    have hnext : blkNext m cur < 2 ^ 64 := le64_lt m _
    rw [blkNext_setNext_of_apart (hblk cur hcur).symm, blkNext_setNext_self, Nat.mod_eq_of_lt hnext]
    refine h.drop.2.2.congr fun x hx => ?_
    exact hother x (List.mem_append_right g (List.mem_cons_of_mem cur hx)) (hrest.1 x hx).symm

/-- Taking a block out that is behind another one. -/
lemma FreeChain.unlink {p : ℕ} (h : FreeChain m fl (g ++ p :: cur :: f₂))
    (hapart : (g ++ p :: cur :: f₂).Pairwise HeadersApart) :
    FreeChain (put64 m (p + 8) (blkNext m cur)) fl (g ++ p :: f₂) := by
  have hpair := List.pairwise_append.mp hapart
  have hrest := List.pairwise_cons.mp hpair.2.1
  have hnext : blkNext m cur < 2 ^ 64 := le64_lt m _
  refine h.redirect (fun x hx => ?_) ?_
  · exact blkNext_setNext_of_apart (hpair.2.2 x hx p List.mem_cons_self)
  · rw [blkNext_setNext_self, Nat.mod_eq_of_lt hnext]
    refine h.drop.2.2.2.2.congr fun x hx => ?_
    exact blkNext_setNext_of_apart (hrest.1 x (List.mem_cons_of_mem cur hx)).symm

/-- `umalloc_list_insert` puts a block in its place in the free list. -/
lemma wp_umallocListInsert (h : FreeChain s.mem s.freeList (f₁ ++ f₂)) (hne : blk ≠ 0)
    (hlt : blk < 2 ^ 64) (hf₁ : ∀ x ∈ f₁, x < blk) (hf₂ : ∀ x ∈ f₂, blk < x)
    (hf₂' : ∀ x ∈ f₂, x < 2 ^ 64) (hblk : ∀ x ∈ f₁ ++ f₂, HeadersApart x blk)
    (hapart : (f₁ ++ f₂).Pairwise HeadersApart) (hlen : f₁.length ≤ listFuel) :
    wp (umallocListInsert blk) (fun _ s' => ∃ m fl, s' = { s with mem := m, freeList := fl } ∧
      FreeChain m fl (f₁ ++ blk :: f₂) ∧ NextsDiffer (blk :: f₁) s.mem m) s := by
  rw [umallocListInsert]
  simp only [wp_bind, wp_get, wp_ite, setNext, wp_modify]
  cases f₁ with
  | nil =>
    -- no block of the list is below the new one
    have hfront : s.freeList = 0 ∨ blk < s.freeList := by
      cases f₂ with
      | nil => exact Or.inl h
      | cons y f₂ =>
        obtain ⟨hy, -⟩ := h
        exact Or.inr (hy ▸ hf₂ y List.mem_cons_self)
    rw [if_pos hfront]
    refine ⟨_, _, rfl, ⟨rfl, hne, ?_⟩, nextsDiffer_setNext List.mem_cons_self⟩
    rw [blkNext_setNext_self, Nat.mod_eq_of_lt (h.head_lt hf₂')]
    exact h.congr fun x hx => blkNext_setNext_of_apart (hblk x hx)
  | cons x f₁ =>
    obtain ⟨hx, hx0, hrest⟩ := h
    have hfront : ¬(s.freeList = 0 ∨ blk < s.freeList) := by
      have hlt := hf₁ x List.mem_cons_self
      omega
    rw [if_neg hfront, ← hx]
    refine wp_mono (wp_insertRounds ⟨rfl, hx0, hrest⟩
      (fun y hy => hf₁ y (List.mem_cons_of_mem x hy)) hf₂ hlen) ?_
    rintro cur s' ⟨rfl, g, hg⟩
    have hcur : cur ∈ x :: f₁ := hg ▸ List.mem_append_right g List.mem_cons_self
    have hlist : (x :: f₁) ++ f₂ = g ++ cur :: f₂ := by
      rw [hg, List.append_assoc, List.singleton_append]
    have hchain : FreeChain s'.mem s'.freeList (g ++ cur :: f₂) := hlist ▸ ⟨hx, hx0, hrest⟩
    rw [hlist] at hblk hapart
    refine ⟨_, _, rfl, ?_, ?_⟩
    · rw [hg, List.append_assoc, List.singleton_append]
      exact hchain.insert hne hlt hblk hapart
    · exact (nextsDiffer_setNext List.mem_cons_self).trans
        (nextsDiffer_setNext (List.mem_cons_of_mem blk hcur))

/-- The loop of `umalloc` finds a block that is large enough, or none. -/
lemma wp_fitRounds {prev : ℕ} {l : List ℕ} (h : FreeChain s.mem cur l) (hn : l.length < n) :
    wp (iter (fitRound size) n (prev, cur)) (fun r s' => s' = s ∧ (r.2 = 0 ∨ ∃ g₁ g₂,
      l = g₁ ++ r.2 :: g₂ ∧ r.1 = g₁.getLast?.getD prev ∧ size ≤ blkSize s.mem r.2)) s := by
  induction l generalizing prev cur n with
  | nil =>
    obtain ⟨n, rfl⟩ : ∃ k, n = k + 1 := ⟨n - 1, by omega⟩
    have hzero : cur = 0 := h
    have hstop : ¬(cur ≠ 0 ∧ ¬(blkFree s.mem cur ≠ 0 ∧ size ≤ blkSize s.mem cur)) :=
      fun hgo => hgo.1 hzero
    rw [wp_iter_succ, fitRound]
    simp only [wp_bind, wp_get, wp_ite, wp_pure, if_neg hstop, Sum.elim_inr, true_and]
    exact Or.inl hzero
  | cons x l ih =>
    obtain ⟨n, rfl⟩ : ∃ k, n = k + 1 := ⟨n - 1, by omega⟩
    obtain ⟨rfl, hne, hrest⟩ := h
    rw [wp_iter_succ, fitRound]
    by_cases hgo : x ≠ 0 ∧ ¬(blkFree s.mem x ≠ 0 ∧ size ≤ blkSize s.mem x)
    · simp only [wp_bind, wp_get, wp_ite, wp_pure, if_pos hgo, Sum.elim_inl]
      refine wp_mono (ih hrest (Nat.lt_of_succ_lt_succ hn)) ?_
      rintro r s' ⟨rfl, hr⟩
      refine ⟨rfl, hr.imp_right ?_⟩
      rintro ⟨g₁, g₂, rfl, hprev, hfits⟩
      exact ⟨x :: g₁, g₂, rfl, by rw [hprev, List.getLast?_cons, Option.getD_some], hfits⟩
    · simp only [wp_bind, wp_get, wp_ite, wp_pure, if_neg hgo, Sum.elim_inr, true_and]
      have hfits : size ≤ blkSize s.mem x := by
        by_contra hsmall
        exact hgo ⟨hne, fun hboth => hsmall hboth.2⟩
      exact Or.inr ⟨[], l, rfl, rfl, hfits⟩

/-- Taking the block out of the free list that the loop of `umalloc` has found. -/
lemma wp_umallocUnlink (h : FreeChain s.mem s.freeList (f₁ ++ cur :: f₂))
    (hapart : (f₁ ++ cur :: f₂).Pairwise HeadersApart) :
    wp (umallocUnlink (f₁.getLast?.getD 0) cur) (fun _ s' => ∃ m fl,
      s' = { s with mem := m, freeList := fl } ∧ FreeChain m fl (f₁ ++ f₂) ∧
        NextsDiffer f₁ s.mem m) s := by
  rw [umallocUnlink]
  simp only [wp_bind, wp_get, wp_ite, setNext, wp_modify]
  rcases List.eq_nil_or_concat f₁ with rfl | ⟨g, p, rfl⟩
  · obtain ⟨rfl, -, hrest⟩ := h
    rw [if_neg (fun hne => hne rfl)]
    exact ⟨_, _, rfl, hrest, fun _ _ => rfl⟩
  · rw [List.concat_eq_append, List.append_assoc, List.singleton_append] at h hapart
    rw [List.concat_eq_append]
    have hp : p ≠ 0 := h.inside_of_mem (List.mem_append_right g List.mem_cons_self)
    rw [List.getLast?_append, List.getLast?_singleton, Option.some_or, Option.getD_some, if_pos hp]
    refine ⟨_, _, rfl, ?_, nextsDiffer_setNext (List.mem_append_right g List.mem_cons_self)⟩
    rw [List.append_assoc, List.singleton_append]
    exact h.unlink hapart

end CoolFrost
