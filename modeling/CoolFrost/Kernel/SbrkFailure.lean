import CoolFrost.Kernel.Memory
import CoolFrost.Libc.HeapUse

/-!
# What a failed call of `SYS_SBRK` leaves

The loop of `SYS_SBRK` keeps the pages it has mapped when a later one cannot be had: a call that
fails leaves everything only if it fails before its first page.
-/

namespace CoolFrost

namespace Memory

open Vmm KHeapState

variable {area : KHeapArea} {m m' : Memory} {p : ℕ} {hp : Elf.Heap} {rdi : UInt64} {as : AddrSpace}

/-! ## Pages that an address space owns -/

/-- The address space at `p` owns `n` pages. -/
def Owns (m : Memory) (p n : ℕ) : Prop := ∃ as, m.spaces p = some as ∧ as.ownedPages.length = n

lemma Owns.unique {n n' : ℕ} (h : Owns m p n) (h' : Owns m p n') : n = n' := by
  obtain ⟨as, hs, rfl⟩ := h
  obtain ⟨as', hs', rfl⟩ := h'
  obtain rfl := Option.some.inj (hs.symm.trans hs')
  rfl

/-- What `vmm_alloc_page` does. -/
lemma vmmAllocPage_cases (area : KHeapArea) (h : m.spaces p = some as) :
    (vmmAllocPage area m p).1 = 0 ∧
        (maxPages ≤ as.ownedPages.length ∨ (m.heap.kmalloc area 4096 1).1 = 0) ∧
        ((vmmAllocPage area m p).2 = m ∨
          (vmmAllocPage area m p).2 = { m with heap := m.heap.ensureInit area }) ∨
      (vmmAllocPage area m p).1 ≠ 0 ∧ as.ownedPages.length < maxPages ∧
        (m.heap.kmalloc area 4096 1).1 ≠ 0 ∧
        Owns (vmmAllocPage area m p).2 p (as.ownedPages.length + 1) := by
  rw [vmmAllocPage, h]
  dsimp only
  by_cases hfull : maxPages ≤ as.ownedPages.length
  · rw [if_pos hfull]
    exact Or.inl ⟨rfl, Or.inl hfull, Or.inl rfl⟩
  rw [if_neg hfull]
  by_cases hpa : (m.heap.kmalloc area 4096 1).1 = 0
  · rw [if_pos hpa, KMem.kmalloc_failed hpa]
    exact Or.inl ⟨rfl, Or.inr hpa, Or.inr rfl⟩
  · rw [if_neg hpa]
    refine Or.inr ⟨hpa, not_le.mp hfull, hpa, _, Function.update_self _ _ _, ?_⟩
    rw [List.length_append]
    rfl

/-- Pages are only added, up to the number that an address space can have. -/
def OwnsMore (m m' : Memory) (p : ℕ) : Prop :=
  ∀ n, Owns m p n → ∃ n', Owns m' p n' ∧ n ≤ n' ∧ (n ≤ maxPages → n' ≤ maxPages)

lemma OwnsMore.refl (m : Memory) (p : ℕ) : OwnsMore m m p := fun n h => ⟨n, h, le_rfl, id⟩

lemma OwnsMore.trans {m'' : Memory} (h : OwnsMore m m' p) (h' : OwnsMore m' m'' p) :
    OwnsMore m m'' p := by
  intro n hn
  obtain ⟨n', hn', hle, hmax⟩ := h n hn
  obtain ⟨n'', hn'', hle', hmax'⟩ := h' n' hn'
  exact ⟨n'', hn'', hle.trans hle', hmax' ∘ hmax⟩

/-- Changes outside of the address spaces add no pages. -/
lemma OwnsMore.of_spaces (h : m'.spaces = m.spaces) : OwnsMore m m' p := by
  intro n ⟨as, hs, hlen⟩
  exact ⟨n, ⟨as, by rw [h, hs], hlen⟩, le_rfl, id⟩

lemma ownsMore_alloc (area : KHeapArea) (m : Memory) (p : ℕ) :
    OwnsMore m (vmmAllocPage area m p).2 p := by
  intro n ⟨as, hs, hlen⟩
  rcases vmmAllocPage_cases area hs with ⟨-, -, heq | heq⟩ | ⟨-, hlt, -, howns⟩
  · rw [heq]
    exact ⟨n, ⟨as, hs, hlen⟩, le_rfl, id⟩
  · rw [heq]
    exact ⟨n, ⟨as, hs, hlen⟩, le_rfl, id⟩
  · exact ⟨_, howns, by omega, fun _ => hlt⟩

lemma ownsMore_ensure (area : KHeapArea) (m : Memory) (p tbl idx : ℕ) :
    OwnsMore m (ensureTable area m p tbl idx).2 p := by
  rw [ensureTable]
  split_ifs
  · have h := ownsMore_alloc area m p
    rcases hres : vmmAllocPage area m p with ⟨pa, m₁⟩
    rw [hres] at h
    dsimp only
    split_ifs
    · exact h
    · exact h.trans (.of_spaces rfl)
  · exact .refl m p

lemma ownsMore_map (area : KHeapArea) (m : Memory) (p va pa flags : ℕ) :
    OwnsMore m (vmmMapPage area m p va pa flags).2 p := by
  rw [vmmMapPage]
  rcases m.spaces p with _ | as
  · exact .refl m p
  dsimp only
  split_ifs
  · exact .refl m p
  · exact .refl m p
  have h₁ := ownsMore_ensure area m p (pteAddr (m.mem.word as.pml4Phys 0)) (pdptIdx va)
  rcases hres : ensureTable area m p (pteAddr (m.mem.word as.pml4Phys 0))
    (pdptIdx va) with ⟨_ | _, m₁⟩
  · rw [hres] at h₁
    exact h₁
  rw [hres] at h₁
  dsimp only
  have h₂ := ownsMore_ensure area m₁ p
    (pteAddr (m₁.mem.word (pteAddr (m.mem.word as.pml4Phys 0)) (pdptIdx va))) (pdIdx va)
  rcases hres₂ : ensureTable area m₁ p
    (pteAddr (m₁.mem.word (pteAddr (m.mem.word as.pml4Phys 0)) (pdptIdx va)))
    (pdIdx va) with ⟨_ | _, m₂⟩
  · rw [hres₂] at h₂
    exact h₁.trans h₂
  · rw [hres₂] at h₂
    exact (h₁.trans h₂).trans (.of_spaces rfl)

/-- The loop of `SYS_SBRK` adds a page for every one that it maps. -/
lemma ownsMore_mapHeap (area : KHeapArea) (n va : ℕ) (m : Memory) :
    OwnsMore m (mapHeap area p n va m).2 p ∧ ((mapHeap area p n va m).1 = true →
      ∀ k, Owns m p k → ∃ k', Owns (mapHeap area p n va m).2 p k' ∧ k + n ≤ k') := by
  induction n generalizing va m with
  | zero => exact ⟨.refl m p, fun _ k hk => ⟨k, hk, le_rfl⟩⟩
  | succ n ih =>
    rw [mapHeap]
    have h₁ := ownsMore_alloc area m p
    have hcases := fun as (hs : m.spaces p = some as) => vmmAllocPage_cases area hs
    rcases hres : vmmAllocPage area m p with ⟨pa, m₁⟩
    rw [hres] at h₁ hcases
    dsimp only at hcases ⊢
    by_cases hpa : pa = 0
    · rw [if_pos hpa]
      exact ⟨h₁, fun hfalse => by simp at hfalse⟩
    rw [if_neg hpa]
    have h₂ := ownsMore_map area m₁ p va pa pageRwU
    rcases hres₂ : vmmMapPage area m₁ p va pa pageRwU with ⟨_ | _, m₂⟩
    · rw [hres₂] at h₂
      exact ⟨h₁.trans h₂, fun hfalse => by simp at hfalse⟩
    rw [hres₂] at h₂
    obtain ⟨hmore, hall⟩ := ih (va + 0x1000) m₂
    refine ⟨(h₁.trans h₂).trans hmore, fun htrue k hk => ?_⟩
    obtain ⟨as, hs, hlen⟩ := hk
    obtain ⟨hzero, -⟩ | ⟨-, -, -, howns⟩ := hcases as hs
    · exact absurd hzero hpa
    obtain ⟨k₂, hk₂, hle₂, -⟩ := h₂ _ howns
    obtain ⟨k', hk', hle'⟩ := hall htrue k₂ hk₂
    exact ⟨k', hk', by omega⟩

/-! ## Requests -/

/-- The request is answered before the loop. -/
def OutOfRange (hp : Elf.Heap) (rdi : UInt64) : Prop :=
  hp.addrSpace = 0 ∨ hp.heapEnd = 0 ∨ rdi = 0 ∨ 2 ^ 63 ≤ rdi.toNat ∨
    (hp.heapBrk + rdi.toNat) % 2 ^ 64 < hp.heapBrk ∨
    hp.heapEnd < (hp.heapBrk + rdi.toNat) % 2 ^ 64

/-- Not even one page can be had: the address space has as many as it can, or `kmalloc` has none. -/
def NoPage (area : KHeapArea) (m : Memory) (p : ℕ) : Prop :=
  ∀ as, m.spaces p = some as → maxPages ≤ as.ownedPages.length ∨ (m.heap.kmalloc area 4096 1).1 = 0

/-- A call leaves what the task has: its translations, the number of its pages and the kernel heap,
so that a smaller request succeeds afterwards if it would have before. -/
structure CostsNothing (area : KHeapArea) (hp : Elf.Heap) (rdi : UInt64)
    (m m' : Memory) : Prop where
  translations : ∀ as, m.spaces hp.addrSpace = some as → ∃ as', m'.spaces hp.addrSpace = some as' ∧
    ∀ a, Vmm.walk m'.mem as'.pml4Phys a = Vmm.walk m.mem as.pml4Phys a
  pages : ∀ n, Owns m hp.addrSpace n → Owns m' hp.addrSpace n
  heap : (m'.heap.ensureInit area).kheap = (m.heap.ensureInit area).kheap
  retry : ∀ rdi' < rdi, (sbrk area hp rdi' m).1 ≠ Elf.refused →
    (sbrk area hp rdi' m').1 ≠ Elf.refused

lemma sbrk_of_outOfRange (h : OutOfRange hp rdi) (area : KHeapArea) (m : Memory) :
    (sbrk area hp rdi m).2 = (hp, m) := by
  rw [sbrk]
  by_cases hno : hp.addrSpace = 0 ∨ hp.heapEnd = 0
  · rw [if_pos hno]
  rw [if_neg hno]
  by_cases hzero : rdi = 0
  · rw [if_pos hzero]
  rw [if_neg hzero]
  by_cases hneg : 2 ^ 63 ≤ rdi.toNat
  · rw [if_pos hneg]
  rw [if_neg hneg]
  dsimp only
  have hout : (hp.heapBrk + rdi.toNat) % 2 ^ 64 < hp.heapBrk ∨
      hp.heapEnd < (hp.heapBrk + rdi.toNat) % 2 ^ 64 := by
    rcases h with h | h | h | h | h
    · exact absurd (Or.inl h) hno
    · exact absurd (Or.inr h) hno
    · exact absurd h hzero
    · exact absurd h hneg
    · exact h
  rw [if_pos hout]

/-- A request that is not out of range is refused exactly when the loop stops. -/
lemma sbrk_of_inRange (h : ¬ OutOfRange hp rdi) (area : KHeapArea) (m : Memory) {n : ℕ}
    (hn : Elf.missingPages hp ((hp.heapBrk + rdi.toNat) % 2 ^ 64) = n) :
    ((sbrk area hp rdi m).1 = Elf.refused ↔
        (mapHeap area hp.addrSpace n (Elf.pagesEnd hp.heapStart hp.heapBrk) m).1 = false) ∧
      (sbrk area hp rdi m).2.2 =
        (mapHeap area hp.addrSpace n (Elf.pagesEnd hp.heapStart hp.heapBrk) m).2 := by
  unfold OutOfRange at h
  push Not at h
  obtain ⟨has, hend, hzero, hneg, hwrap, hle⟩ := h
  rw [sbrk, if_neg (not_or.mpr ⟨has, hend⟩), if_neg hzero, if_neg (not_le.mpr hneg)]
  dsimp only
  rw [if_neg (not_or.mpr ⟨not_lt.mpr hwrap, not_lt.mpr hle⟩), hn]
  -- the break that is returned is no error: a request from there on would have wrapped around
  have hbrk : hp.heapBrk ≠ Elf.refused := by
    have hpos : rdi.toNat ≠ 0 := fun h0 => hzero (UInt64.toNat_inj.mp h0)
    unfold Elf.refused
    omega
  rcases mapHeap area hp.addrSpace n (Elf.pagesEnd hp.heapStart hp.heapBrk) m with ⟨_ | _, m'⟩
  · exact ⟨iff_of_true rfl rfl, rfl⟩
  · exact ⟨iff_of_false hbrk (by simp), rfl⟩

/-- Setting the heap up early makes no difference to what `vmm_alloc_page` finds. -/
lemma vmmAllocPage_ensureInit (area : KHeapArea) (m : Memory) (p : ℕ) :
    vmmAllocPage area { m with heap := m.heap.ensureInit area } p = vmmAllocPage area m p ∨
      (vmmAllocPage area { m with heap := m.heap.ensureInit area } p).1 = 0 ∧
        (vmmAllocPage area m p).1 = 0 := by
  unfold vmmAllocPage
  dsimp only
  rw [KMem.kmalloc_ensureInit]
  rcases m.spaces p with _ | as
  · exact Or.inr ⟨rfl, rfl⟩
  dsimp only
  by_cases hfull : maxPages ≤ as.ownedPages.length
  · rw [if_pos hfull, if_pos hfull]
    exact Or.inr ⟨rfl, rfl⟩
  · rw [if_neg hfull, if_neg hfull]
    exact Or.inl rfl

lemma mapHeap_ensureInit (area : KHeapArea) (m : Memory) (p n va : ℕ) :
    (mapHeap area p n va { m with heap := m.heap.ensureInit area }).1 =
    (mapHeap area p n va m).1 := by
  cases n with
  | zero => rfl
  | succ n =>
    rw [mapHeap, mapHeap]
    rcases vmmAllocPage_ensureInit area m p with heq | ⟨hzero, hzero'⟩
    · rw [heq]
    · rcases hres : vmmAllocPage area { m with heap := m.heap.ensureInit area } p with ⟨pa, m₁⟩
      rcases hres' : vmmAllocPage area m p with ⟨pa', m₁'⟩
      rw [hres] at hzero
      rw [hres'] at hzero'
      dsimp only at hzero hzero' ⊢
      rw [if_pos hzero, if_pos hzero']

/-- Nor to what `SYS_SBRK` answers. -/
lemma sbrk_ensureInit (area : KHeapArea) (hp : Elf.Heap) (rdi : UInt64) (m : Memory) :
    (sbrk area hp rdi { m with heap := m.heap.ensureInit area }).1 = (sbrk area hp rdi m).1 := by
  rw [sbrk, sbrk]
  by_cases hno : hp.addrSpace = 0 ∨ hp.heapEnd = 0
  · rw [if_pos hno, if_pos hno]
  rw [if_neg hno, if_neg hno]
  by_cases hzero : rdi = 0
  · rw [if_pos hzero, if_pos hzero]
  rw [if_neg hzero, if_neg hzero]
  by_cases hneg : 2 ^ 63 ≤ rdi.toNat
  · rw [if_pos hneg, if_pos hneg]
  rw [if_neg hneg, if_neg hneg]
  dsimp only
  by_cases hout : (hp.heapBrk + rdi.toNat) % 2 ^ 64 < hp.heapBrk ∨
      hp.heapEnd < (hp.heapBrk + rdi.toNat) % 2 ^ 64
  · rw [if_pos hout, if_pos hout]
  rw [if_neg hout, if_neg hout]
  have hloop := mapHeap_ensureInit area m hp.addrSpace
    (Elf.missingPages hp ((hp.heapBrk + rdi.toNat) % 2 ^ 64)) (Elf.pagesEnd hp.heapStart hp.heapBrk)
  rcases hres : mapHeap area hp.addrSpace (Elf.missingPages hp ((hp.heapBrk + rdi.toNat) % 2 ^ 64))
    (Elf.pagesEnd hp.heapStart hp.heapBrk) { m with heap := m.heap.ensureInit area } with ⟨ok, m₁⟩
  rcases hres' : mapHeap area hp.addrSpace (Elf.missingPages hp ((hp.heapBrk + rdi.toNat) % 2 ^ 64))
    (Elf.pagesEnd hp.heapStart hp.heapBrk) m with ⟨ok', m₁'⟩
  rw [hres, hres'] at hloop
  obtain rfl : ok = ok' := hloop
  cases ok
  · rfl
  · rfl

/-- A call that finds no page at all leaves the memory, up to setting up the heap. -/
lemma mapHeap_of_noPage (h : NoPage area m p) (n va : ℕ) :
    (mapHeap area p n va m).2 = m ∨
      (mapHeap area p n va m).2 = { m with heap := m.heap.ensureInit area } := by
  cases n with
  | zero => exact Or.inl rfl
  | succ n =>
    rw [mapHeap]
    cases hs : m.spaces p with
    | none =>
      rw [vmmAllocPage, hs]
      exact Or.inl rfl
    | some as =>
      rcases vmmAllocPage_cases area hs with ⟨hzero, -, heq⟩ | ⟨-, hlt, hne, -⟩
      · rcases hres : vmmAllocPage area m p with ⟨pa, m₁⟩
        rw [hres] at hzero heq
        dsimp only at hzero ⊢
        rw [if_pos hzero]
        exact heq
      · rcases h as hs with hfull | hnone
        · omega
        · exact absurd hnone hne

/-- The loop keeps its first page. -/
lemma not_owns_of_page (h : ¬ NoPage area m p) {n va : ℕ}
    (hfail : (mapHeap area p n va m).1 = false) :
    ∃ k, Owns m p k ∧ ¬ Owns (mapHeap area p n va m).2 p k := by
  unfold NoPage at h
  push Not at h
  obtain ⟨as, hs, hlt, hne⟩ := h
  refine ⟨as.ownedPages.length, ⟨as, hs, rfl⟩, fun howns => ?_⟩
  cases n with
  | zero => cases hfail
  | succ n =>
    rw [mapHeap] at howns
    have hcases := vmmAllocPage_cases area hs
    rcases hres : vmmAllocPage area m p with ⟨pa, m₁⟩
    rw [hres] at hcases howns
    dsimp only at hcases howns
    rcases hcases with ⟨-, hnone, -⟩ | ⟨hpa, -, -, hone⟩
    · rcases hnone with hfull | hnone
      · omega
      · exact hne hnone
    rw [if_neg hpa] at howns
    have hmap := ownsMore_map area m₁ p va pa pageRwU
    rcases hres₂ : vmmMapPage area m₁ p va pa pageRwU with ⟨_ | _, m₂⟩
    · rw [hres₂] at hmap howns
      obtain ⟨k', hk', hle, -⟩ := hmap _ hone
      have := hk'.unique howns
      omega
    · rw [hres₂] at hmap howns
      obtain ⟨k₂, hk₂, hle₂, -⟩ := hmap _ hone
      obtain ⟨k', hk', hle', -⟩ := (ownsMore_mapHeap area n (va + 0x1000) m₂).1 _ hk₂
      have := hk'.unique howns
      omega

/-- What a refused call leaves. -/
lemma costsNothing_iff_noPage (hrefused : (sbrk area hp rdi m).1 = Elf.refused) :
    CostsNothing area hp rdi m (sbrk area hp rdi m).2.2 ↔
      OutOfRange hp rdi ∨ NoPage area m hp.addrSpace := by
  constructor
  · intro h
    by_contra hbad
    obtain ⟨hrange, hpage⟩ := not_or.mp hbad
    obtain ⟨hiff, heq⟩ := sbrk_of_inRange hrange area m rfl
    obtain ⟨k, hk, hnot⟩ := not_owns_of_page hpage (hiff.mp hrefused)
    rw [← heq] at hnot
    exact hnot (h.pages k hk)
  · intro h
    have hleft : (sbrk area hp rdi m).2.2 = m ∨
        (sbrk area hp rdi m).2.2 = { m with heap := m.heap.ensureInit area } := by
      by_cases hrange : OutOfRange hp rdi
      · rw [sbrk_of_outOfRange hrange]
        exact Or.inl rfl
      · obtain ⟨-, heq⟩ := sbrk_of_inRange hrange area m rfl
        rw [heq]
        exact mapHeap_of_noPage (h.resolve_left hrange) _ _
    rcases hleft with heq | heq
    · rw [heq]
      exact ⟨fun as hs => ⟨as, hs, fun _ => rfl⟩, fun _ hn => hn, rfl, fun _ _ hok => hok⟩
    · rw [heq]
      refine ⟨fun as hs => ⟨as, hs, fun _ => rfl⟩, fun _ hn => hn, ?_, fun rdi' _ hok => ?_⟩
      · rw [KMem.ensureInit_ensureInit]
      · rw [sbrk_ensureInit]
        exact hok

/-- **A refused call costs nothing** exactly when it is refused before its first page. -/
theorem refused_costsNothing_iff (area : KHeapArea) (hp : Elf.Heap) (rdi : UInt64) (m : Memory)
    (hrefused : (sbrk area hp rdi m).1 = Elf.refused) :
    CostsNothing area hp rdi m (sbrk area hp rdi m).2.2 ↔
      OutOfRange hp rdi ∨ NoPage area m hp.addrSpace :=
  costsNothing_iff_noPage hrefused

/-! ## A request that is too large -/

/-- A page from a heap that is filled from the front. -/
lemma vmmAllocPage_front {t : ℕ} (hf : KMem.Front area m.heap t) (hle : t + 129 ≤ kheapSlots)
    (hs : m.spaces p = some as) (hlt : as.ownedPages.length < maxPages) :
    (vmmAllocPage area m p).1 ≠ 0 ∧ KMem.Front area (vmmAllocPage area m p).2.heap (t + 129) ∧
      Owns (vmmAllocPage area m p).2 p (as.ownedPages.length + 1) := by
  have hslots : (KHeap.slotsFor (4096 + KMem.extra 1) 64).toNat = 129 := by decide
  obtain ⟨hne, hfront⟩ := hf.kmalloc hslots (by decide) hle
  rcases vmmAllocPage_cases area hs with ⟨-, hbad, -⟩ | ⟨hpa, -, -, howns⟩
  · rcases hbad with hfull | hzero
    · omega
    · exact absurd hzero hne
  · refine ⟨hpa, ?_, howns⟩
    rw [vmmAllocPage, hs]
    dsimp only
    rw [if_neg (not_le.mpr hlt), if_neg hne]
    exact hfront

/-- An address space with its two pages from a heap that is filled from the front. -/
lemma vmmCreateAddressSpace_front {t : ℕ} (hfront : KMem.Front area (m.heap.ensureInit area) t)
    (hle : t + 323 ≤ kheapSlots) :
    (vmmCreateAddressSpace area m).1 ≠ 0 ∧
      Owns (vmmCreateAddressSpace area m).2 (vmmCreateAddressSpace area m).1 2 ∧
      KMem.Front area (vmmCreateAddressSpace area m).2.heap (t + 323) := by
  have hslots : (KHeap.slotsFor (addrSpaceSize + KMem.extra 0) 64).toNat = 65 := by decide
  obtain ⟨hne, hf⟩ := hfront.kmalloc hslots (by decide) (by omega)
  rw [KMem.kmalloc_ensureInit] at hne hf
  rw [vmmCreateAddressSpace]
  rcases hres : m.heap.kmalloc area addrSpaceSize 0 with ⟨p, heap⟩
  rw [hres] at hne hf
  dsimp only at hne hf ⊢
  rw [if_neg hne]
  have hs : (⟨m.mem, heap, Function.update m.spaces p (some ⟨0, []⟩)⟩ : Memory).spaces p =
      some ⟨0, []⟩ := Function.update_self _ _ _
  have hlen : (⟨0, []⟩ : AddrSpace).ownedPages.length < maxPages := by decide
  obtain ⟨hne₁, hf₁, as₁, hs₁, hlen₁⟩ := vmmAllocPage_front hf (by omega) hs hlen
  rcases hres₁ : vmmAllocPage area
    ⟨m.mem, heap, Function.update m.spaces p (some ⟨0, []⟩)⟩ p with ⟨pml4, m₁⟩
  rw [hres₁] at hne₁ hf₁ hs₁
  have hlen₁' : as₁.ownedPages.length < maxPages := by
    rw [hlen₁]
    decide
  obtain ⟨hne₂, hf₂, as₂, hs₂, hlen₂⟩ := vmmAllocPage_front hf₁ (by omega) hs₁ hlen₁'
  dsimp only at hf₂ hs₂ ⊢
  rcases hres₂ : vmmAllocPage area m₁ p with ⟨pdpt, m₂⟩
  rw [hres₂] at hne₂ hf₂ hs₂
  dsimp only at hne₁ hne₂ hf₂ hs₂ ⊢
  rw [if_neg (not_or.mpr ⟨hne₁, hne₂⟩)]
  refine ⟨hne, ⟨{ as₂ with pml4Phys := pml4 }, ?_, ?_⟩, hf₂⟩
  · dsimp only
    rw [Function.update_self, hs₂]
    rfl
  · rw [hlen₂, hlen₁]
    rfl

/-- The memory of a machine that has just started, with one address space. -/
def oneSpace : ℕ × Memory := vmmCreateAddressSpace kheapArea ⟨Bytes.zeros, KMem.boot, fun _ => none⟩

lemma oneSpace_spec : oneSpace.1 ≠ 0 ∧ Owns oneSpace.2 oneSpace.1 2 ∧
    KMem.Front kheapArea oneSpace.2.heap 4419 :=
  vmmCreateAddressSpace_front (KMem.front_init kheapArea) (by decide)

/-- A heap that nothing has been asked for yet. -/
def emptyHeap : Elf.Heap := ⟨oneSpace.1, userBase, userBase, Elf.argvVa⟩

/-- The same address space with as many pages as it can have. -/
def fullSpace : Memory :=
  { oneSpace.2 with
    spaces := fun p => (oneSpace.2.spaces p).map fun as =>
      { as with ownedPages := List.replicate maxPages as.pml4Phys } }

/-- A request for a break above the end of the heap is refused. -/
lemma sbrk_above {rdi : UInt64} (hrdi : rdi ≠ 0) (hneg : rdi.toNat < 2 ^ 63)
    (hbrk : hp.heapBrk < 2 ^ 63) (h : hp.heapEnd < hp.heapBrk + rdi.toNat) :
    (sbrk area hp rdi m).1 = Elf.refused ∧ OutOfRange hp rdi := by
  have hsum : (hp.heapBrk + rdi.toNat) % 2 ^ 64 = hp.heapBrk + rdi.toNat :=
    Nat.mod_eq_of_lt (by omega)
  refine ⟨?_, .inr (.inr (.inr (.inr (.inr (by rwa [hsum])))))⟩
  rw [sbrk]
  by_cases hno : hp.addrSpace = 0 ∨ hp.heapEnd = 0
  · rw [if_pos hno]
  · rw [if_neg hno, if_neg hrdi, if_neg (not_le.mpr hneg)]
    dsimp only
    rw [if_pos (.inr (by rwa [hsum]))]

/-- A request that needs a page is refused when the address space has as many as it can have. -/
lemma sbrk_full {rdi : UInt64} (hrange : ¬OutOfRange hp rdi) {n : ℕ}
    (hn : Elf.missingPages hp ((hp.heapBrk + rdi.toNat) % 2 ^ 64) = n + 1)
    (h : Owns m hp.addrSpace maxPages) :
    (sbrk area hp rdi m).1 = Elf.refused ∧ NoPage area m hp.addrSpace := by
  obtain ⟨as, hs, hlen⟩ := h
  refine ⟨?_, fun as' hs' => .inl ?_⟩
  · rw [(sbrk_of_inRange hrange area m hn).1, mapHeap, vmmAllocPage, hs]
    dsimp only
    rw [if_pos hlen.ge]
    rfl
  · obtain rfl := Option.some.inj (hs.symm.trans hs')
    exact hlen.ge

/-- What the two refusals of an empty heap come to. -/
lemma sbrk_emptyHeap (hhp : hp = ⟨p, userBase, userBase, Elf.argvVa⟩) (hne : p ≠ 0)
    (h : Owns m' p maxPages) :
    ((sbrk kheapArea hp 0x40000000 m).1 = Elf.refused ∧ OutOfRange hp 0x40000000) ∧
      (sbrk kheapArea hp 0x1000 m').1 = Elf.refused ∧ NoPage kheapArea m' hp.addrSpace := by
  subst hhp
  have hrange : ¬OutOfRange ⟨p, userBase, userBase, Elf.argvVa⟩ 0x1000 := by
    have hend : Elf.argvVa ≠ 0 := by decide
    have hnum : (0x1000 : UInt64) ≠ 0 ∧ (0x1000 : UInt64).toNat < 2 ^ 63 := by decide
    have hsum : userBase ≤ (userBase + (0x1000 : UInt64).toNat) % 2 ^ 64 ∧
        (userBase + (0x1000 : UInt64).toNat) % 2 ^ 64 ≤ Elf.argvVa := by decide
    rintro (h | h | h | h | h | h)
    · exact hne h
    · exact hend h
    · exact hnum.1 h
    · exact absurd hnum.2 (not_lt.mpr h)
    · exact absurd hsum.1 (not_le.mpr h)
    · exact absurd hsum.2 (not_le.mpr h)
  have hmissing : Elf.missingPages ⟨p, userBase, userBase, Elf.argvVa⟩
      ((userBase + (0x1000 : UInt64).toNat) % 2 ^ 64) = 0 + 1 := by
    have hpages : (Elf.pagesEnd userBase ((userBase + (0x1000 : UInt64).toNat) % 2 ^ 64) -
        Elf.pagesEnd userBase userBase + 0xFFF) / 0x1000 = 1 := by decide
    exact hpages
  refine ⟨sbrk_above (by decide) (by decide) ?_ ?_, sbrk_full hrange hmissing h⟩
  · exact (by decide : userBase < 2 ^ 63)
  · exact (by decide : Elf.argvVa < userBase + (0x40000000 : UInt64).toNat)

lemma fullSpace_owns : Owns fullSpace oneSpace.1 maxPages := by
  obtain ⟨-, ⟨as, hs, -⟩, -⟩ := oneSpace_spec
  exact ⟨_, congrArg (Option.map _) hs, List.length_replicate⟩

/-- A process with two pages that asks for more than there is below the end of its heap, and one
with all the pages it can have that asks for one more, are refused and keep what they have. -/
theorem refused_costsNothing_process :
    (Owns oneSpace.2 oneSpace.1 2 ∧
      (sbrk kheapArea emptyHeap 0x40000000 oneSpace.2).1 = Elf.refused ∧
      CostsNothing kheapArea emptyHeap 0x40000000 oneSpace.2
        (sbrk kheapArea emptyHeap 0x40000000 oneSpace.2).2.2) ∧
    Owns fullSpace oneSpace.1 maxPages ∧
      (sbrk kheapArea emptyHeap 0x1000 fullSpace).1 = Elf.refused ∧
      CostsNothing kheapArea emptyHeap 0x1000 fullSpace
        (sbrk kheapArea emptyHeap 0x1000 fullSpace).2.2 := by
  obtain ⟨hne, howns, -⟩ := oneSpace_spec
  obtain ⟨⟨habove, hout⟩, hrefused, hnone⟩ :=
    @sbrk_emptyHeap oneSpace.2 fullSpace _ emptyHeap rfl hne fullSpace_owns
  exact ⟨⟨howns, habove, (refused_costsNothing_iff _ emptyHeap _ _ habove).mpr (.inl hout)⟩,
    fullSpace_owns, hrefused, (refused_costsNothing_iff _ emptyHeap _ _ hrefused).mpr (.inr hnone)⟩

/-- A request for more pages than an address space can have is refused after the first of them has
been taken. -/
lemma not_costsNothing_of_owns (hne : p ≠ 0) (howns : Owns m p 2)
    (hf : KMem.Front kheapArea m.heap 4419) :
    (sbrk kheapArea ⟨p, userBase, userBase, Elf.argvVa⟩ 0x30000000 m).1 = Elf.refused ∧
      ¬ CostsNothing kheapArea ⟨p, userBase, userBase, Elf.argvVa⟩ 0x30000000 m
        (sbrk kheapArea ⟨p, userBase, userBase, Elf.argvVa⟩ 0x30000000 m).2.2 := by
  have hrange : ¬ OutOfRange ⟨p, userBase, userBase, Elf.argvVa⟩ 0x30000000 := by
    have hend : Elf.argvVa ≠ 0 := by decide
    have hnum : (0x30000000 : UInt64) ≠ 0 ∧ (0x30000000 : UInt64).toNat < 2 ^ 63 := by decide
    have hsum : userBase ≤ (userBase + (0x30000000 : UInt64).toNat) % 2 ^ 64 ∧
        (userBase + (0x30000000 : UInt64).toNat) % 2 ^ 64 ≤ Elf.argvVa := by decide
    rintro (h | h | h | h | h | h)
    · exact hne h
    · exact hend h
    · exact hnum.1 h
    · exact absurd hnum.2 (not_lt.mpr h)
    · exact absurd hsum.1 (not_le.mpr h)
    · exact absurd hsum.2 (not_le.mpr h)
  have hmissing : Elf.missingPages ⟨p, userBase, userBase, Elf.argvVa⟩
      ((userBase + (0x30000000 : UInt64).toNat) % 2 ^ 64) = 196608 := by
    have hpages : (Elf.pagesEnd userBase ((userBase + (0x30000000 : UInt64).toNat) % 2 ^ 64) -
        Elf.pagesEnd userBase userBase + 0xFFF) / 0x1000 = 196608 := by decide
    exact hpages
  obtain ⟨hiff, -⟩ := sbrk_of_inRange hrange kheapArea m hmissing
  have hrefused : (sbrk kheapArea ⟨p, userBase, userBase, Elf.argvVa⟩ 0x30000000 m).1 =
      Elf.refused := by
    refine hiff.mpr (Bool.eq_false_iff.mpr fun htrue => ?_)
    obtain ⟨hmore, hall⟩ := @ownsMore_mapHeap p kheapArea 196608 (Elf.pagesEnd userBase userBase) m
    obtain ⟨k, hk, -, hmax⟩ := hmore 2 howns
    obtain ⟨k', hk', hle⟩ := hall htrue 2 howns
    have heq := hk.unique hk'
    have hlt : k ≤ 512 := hmax (by decide)
    omega
  refine ⟨hrefused, fun h => ?_⟩
  rcases (costsNothing_iff_noPage hrefused).mp h with hout | hnone
  · exact hrange hout
  · obtain ⟨as, hs, hlen⟩ := howns
    have hslots : (KHeap.slotsFor (4096 + KMem.extra 1) 64).toNat = 129 := by decide
    rcases hnone as hs with hfull | hzero
    · rw [hlen] at hfull
      exact absurd hfull (by decide)
    · exact (hf.kmalloc hslots (by decide) (by decide)).1 hzero

/-- So it is on a machine that has just started. -/
theorem not_costsNothing_huge : (sbrk kheapArea emptyHeap 0x30000000 oneSpace.2).1 = Elf.refused ∧
    ¬ CostsNothing kheapArea emptyHeap 0x30000000 oneSpace.2
      (sbrk kheapArea emptyHeap 0x30000000 oneSpace.2).2.2 :=
  not_costsNothing_of_owns oneSpace_spec.1 oneSpace_spec.2.1 oneSpace_spec.2.2

end Memory

end CoolFrost
