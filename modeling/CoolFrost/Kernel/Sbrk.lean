import CoolFrost.Kernel.ElfImage
import CoolFrost.Kernel.ExecWindow

/-!
# The heap of a process

`SYS_SBRK` (`cpu/syscall.c`) with the pages that it maps.  How far the heap is mapped is not kept:
it is worked out of the break each time.  The lemmas say what the calls of the memory manager leave
of an address space and of the pages that it holds.
-/

namespace CoolFrost

namespace Elf

open Bytes Vmm

/-! ## The system call -/

variable (K : Kmalloc)

/-- The loop of `SYS_SBRK` over `n` pages from `va` on. -/
def mapHeap (i : ℕ) : ℕ → ℕ → Vmm → Bool × Vmm
  | 0, _, v => (true, v)
  | n + 1, va, v =>
    let (pa, v) := vmmAllocPage K v i
    if pa = 0 then (false, v)
    else
      match vmmMapPage K v i va pa pageRwU with
      | (false, v) => (false, v)
      | (true, v) => mapHeap i n (va + 0x1000) v

/-- The number of pages that are missing for a new break. -/
def missingPages (hp : Heap) (newBrk : ℕ) : ℕ :=
  (pagesEnd hp.heapStart newBrk - pagesEnd hp.heapStart hp.heapBrk + 0xFFF) / 0x1000

/-- `SYS_SBRK` of a task with the heap `hp`: the answer, the heap afterwards and the memory
manager. -/
def sbrk (hp : Heap) (rdi : UInt64) (v : Vmm) : ℕ × Heap × Vmm :=
  if hp.addrSpace = 0 ∨ hp.heapEnd = 0 then (refused, hp, v)
  else if rdi = 0 then (hp.heapBrk, hp, v)
  else if 2 ^ 63 ≤ rdi.toNat then (refused, hp, v)
  else
    let newBrk := (hp.heapBrk + rdi.toNat) % 2 ^ 64
    if newBrk < hp.heapBrk ∨ hp.heapEnd < newBrk then (refused, hp, v)
    else
      match mapHeap K (hp.addrSpace - 1) (missingPages hp newBrk)
        (pagesEnd hp.heapStart hp.heapBrk) v with
      | (false, v) => (refused, hp, v)
      | (true, v) => (hp.heapBrk, { hp with heapBrk := newBrk }, v)

/-- `SYS_SBRK` as the scheduler sees it, with what its loop answers. -/
lemma sysSbrk_eq_sbrk (s : Cpu.Scheduler) (rdi : UInt64) (v : Vmm) {hp : Heap}
    (hheap : heapOf (s.task s.curTask) = hp) {mapped : Bool}
    (hmapped : (mapHeap K (hp.addrSpace - 1) (missingPages hp ((hp.heapBrk + rdi.toNat) % 2 ^ 64))
      (pagesEnd hp.heapStart hp.heapBrk) v).1 = mapped) :
    (sysSbrk s rdi mapped).1 = (sbrk K hp rdi v).1 ∧
      heapOf ((sysSbrk s rdi mapped).2.task s.curTask) = (sbrk K hp rdi v).2.1 := by
  have hsys : sysSbrk s rdi mapped =
      if hp.addrSpace = 0 ∨ hp.heapEnd = 0 then (refused, s)
      else if rdi = 0 then (hp.heapBrk, s)
      else if 2 ^ 63 ≤ rdi.toNat then (refused, s)
      else if (hp.heapBrk + rdi.toNat) % 2 ^ 64 < hp.heapBrk ∨
        hp.heapEnd < (hp.heapBrk + rdi.toNat) % 2 ^ 64 then (refused, s)
      else if pagesEnd hp.heapStart hp.heapBrk <
        pagesEnd hp.heapStart ((hp.heapBrk + rdi.toNat) % 2 ^ 64) ∧ !mapped then (refused, s)
      else (hp.heapBrk, s.setTask s.curTask
        { s.task s.curTask with heapBrk := (hp.heapBrk + rdi.toNat) % 2 ^ 64 }) := by
    rw [← hheap]
    rfl
  rw [hsys, sbrk]
  dsimp only
  by_cases hno : hp.addrSpace = 0 ∨ hp.heapEnd = 0
  · simp only [if_pos hno, hheap, and_self]
  by_cases hzero : rdi = 0
  · simp only [if_neg hno, if_pos hzero, hheap, and_self]
  by_cases hneg : 2 ^ 63 ≤ rdi.toNat
  · simp only [if_neg hno, if_neg hzero, if_pos hneg, hheap, and_self]
  by_cases hout : (hp.heapBrk + rdi.toNat) % 2 ^ 64 < hp.heapBrk ∨
      hp.heapEnd < (hp.heapBrk + rdi.toNat) % 2 ^ 64
  · simp only [if_neg hno, if_neg hzero, if_neg hneg, if_pos hout, hheap, and_self]
  simp only [if_neg hno, if_neg hzero, if_neg hneg, if_neg hout]
  rcases hloop : mapHeap K (hp.addrSpace - 1) (missingPages hp ((hp.heapBrk + rdi.toNat) % 2 ^ 64))
    (pagesEnd hp.heapStart hp.heapBrk) v with ⟨_ | _, v'⟩
  · rw [hloop] at hmapped
    -- the loop stops at a page that is missing
    have hmissing : pagesEnd hp.heapStart hp.heapBrk <
        pagesEnd hp.heapStart ((hp.heapBrk + rdi.toNat) % 2 ^ 64) := by
      by_contra hle
      have hnone : missingPages hp ((hp.heapBrk + rdi.toNat) % 2 ^ 64) = 0 := by
        unfold missingPages
        omega
      rw [hnone] at hloop
      cases hloop
    rw [if_pos ⟨hmissing, by rw [← hmapped]; rfl⟩]
    exact ⟨rfl, hheap⟩
  · rw [hloop] at hmapped
    rw [if_neg (by rw [← hmapped]; simp), Cpu.Scheduler.setTask_task, if_pos rfl, ← hheap]
    exact ⟨rfl, rfl⟩

/-- The entry of the second level that the processor takes for an address, 0 where there is none. -/
def pdptEntry (mem : Bytes) (cr3 a : ℕ) : ℕ :=
  let e := word mem cr3 (a / 2 ^ 39 % 512)
  if e &&& pageP = 0 then 0 else word mem (pteAddr e) (pdptIdx a)

/-- The entry that every address space has for an address outside of the window: the kernel's own,
for its memory and for the devices. -/
def sharedEntry (mem : Bytes) (a : ℕ) : ℕ :=
  if a / 2 ^ 39 % 512 = 0 ∧ pdptIdx a ∈ [0, 3] then word mem masterPdpt (pdptIdx a) else 0

/-! ## What is left of an address space -/

variable {K} {v : Vmm} {i : ℕ} {image : ℕ → Option Bytes} {M : ℕ → ℕ → Option (ℕ × ℕ)}
  {as : AddrSpace} {L : Role → Option ℕ}

/-- Calls of `kmalloc` that fail leave everything. -/
lemma HoldsAt.calls (h : HoldsAt v i image M as L) (n : ℕ) :
    HoldsAt { v with calls := n } i image M as L :=
  ⟨⟨h.steady.ok.of_calls n, h.steady.complete⟩, h.space, h.tables, h.pages⟩

lemma alloc_failed {pa : ℕ} {v₁ : Vmm} (halloc : vmmAllocPage K v i = (pa, v₁)) (hpa : pa = 0) :
    ∃ n, v₁ = { v with calls := n } := by
  rcases vmmAllocPage_cases K v i with ⟨n, heq⟩ | ⟨as, -, hne, heq⟩
  · rw [heq] at halloc
    exact ⟨n, (congrArg Prod.snd halloc).symm⟩
  · rw [heq] at halloc
    exact absurd ((congrArg Prod.fst halloc).trans hpa) hne

/-- What a walk finds in the window is what was last mapped. -/
lemma HoldsAt.walk_eq (h : HoldsAt v i image M as L) {a : ℕ} (hbase : userBase ≤ a)
    (htop : a < userBase + userSize) :
    Vmm.walk v.mem as.pml4Phys a = (M i (a / 4096 * 4096)).map seen := by
  have hal : a / 4096 * 4096 % 4096 = 0 := Nat.mul_mod_left _ _
  have hbase' : userBase ≤ a / 4096 * 4096 := by
    unfold userBase at hbase ⊢
    omega
  rw [← walk_page]
  exact h.tables.walk_eq (fun p hp => (h.steady.ok.pages h.space p hp).1) hbase'
    (lt_of_le_of_lt (Nat.div_mul_le_self a 4096) htop) hal

/-- Outside of the window an address space has what all of them share. -/
lemma HoldsAt.pdptEntry_eq (h : HoldsAt v i image M as L) {a : ℕ} (ha : a < 2 ^ 48)
    (hout : a < userBase ∨ userBase + userSize ≤ a) :
    pdptEntry v.mem as.pml4Phys a = sharedEntry v.mem a := by
  obtain ⟨d, hd⟩ := Option.ne_none_iff_exists'.mp h.tables.pdpt.1
  have hroot : word v.mem as.pml4Phys 0 = d ||| pageRwU := by
    rw [h.tables.pdpt.2, hd]
    rfl
  have hd' := h.steady.ok.pages h.space d (h.tables.owned _ _ hd)
  rw [pdptEntry, sharedEntry]
  by_cases hidx : a / 2 ^ 39 % 512 = 0
  · have hne : pdptIdx a ≠ 1 := by
      unfold userBase userSize at hout
      unfold pdptIdx
      omega
    have hlt : pdptIdx a < 512 := Nat.mod_lt _ (by decide)
    rw [hidx, hroot, if_neg (table_present hd'.1), pteAddr_table hd'.1]
    by_cases hshared : pdptIdx a ∈ [0, 3]
    · rw [if_pos ⟨rfl, hshared⟩]
      simp only [List.mem_cons, List.not_mem_nil, or_false] at hshared
      rcases hshared with h0 | h3
      · rw [h0]
        exact (h.tables.slots d hd).1
      · rw [h3]
        exact (h.tables.slots d hd).2
    · rw [if_neg fun hand => hshared hand.2]
      refine h.tables.others d hd _ hlt fun hmem => ?_
      simp only [List.mem_cons, List.not_mem_nil, or_false] at hmem hshared
      omega
  · rw [h.tables.upper _ (Nat.mod_lt _ (by decide)) hidx, if_pos zero_not_present,
      if_neg fun hand => hidx hand.1]

/-- A new page, which nothing is mapped to yet. -/
lemma HoldsAt.alloc (h : HoldsAt v i image M as L) {pa : ℕ} {v₁ : Vmm}
    (halloc : vmmAllocPage K v i = (pa, v₁)) (hpa : pa ≠ 0) :
    HoldsAt v₁ i image M { as with ownedPages := as.ownedPages ++ [pa] } L ∧ 4096 ∣ pa ∧
      pa < 2 ^ 64 ∧ pa ∈ v₁.live ∧ ∀ r, L r ≠ some pa := by
  rcases vmmAllocPage_cases K v i with ⟨n, heq⟩ | ⟨as₀, hs₀, hne, heq⟩
  · rw [heq] at halloc
    exact absurd (congrArg Prod.fst halloc).symm hpa
  obtain rfl : as = as₀ := Option.some.inj (h.space.symm.trans hs₀)
  rw [heq, Prod.mk.injEq] at halloc
  obtain ⟨hpage, hv₁⟩ := halloc
  have hdvd : 4096 ∣ pa := hpage ▸ K.page_dvd _ _
  have hlt : pa < 2 ^ 64 := hpage ▸ K.page_lt _ _
  have hfresh : pa ∉ v.live := hpage ▸ K.page_fresh _ _ hne
  have hsteady := h.steady.step K (.allocPage i)
  rw [hpage] at hv₁
  simp only [exec, heq, hpage, hv₁] at hsteady
  have hT := h.steady.ok.clear_tables h.space h.tables hdvd hfresh
    (show AddrSpace.pml4Phys { as with ownedPages := as.ownedPages ++ [pa] } = as.pml4Phys from rfl)
    (List.subset_append_left _ _)
  subst hv₁
  refine ⟨⟨hsteady, Function.update_self _ _ _, hT, fun va f hf => ?_⟩, hdvd, hlt,
    Finset.mem_insert_self _ _, fun r hr => ?_⟩
  · obtain ⟨pa', hM, hdvd', hlive, hnot, hbytes⟩ := h.pages va f hf
    have hne' : pa' ≠ pa := fun heq' => hfresh (heq' ▸ hlive)
    exact ⟨pa', hM, hdvd', Finset.mem_insert_of_mem hlive, hnot, fun k hk =>
      (samePage_clearPage v.mem hdvd hdvd' hne' k hk).trans (hbytes k hk)⟩
  · exact hfresh (h.steady.ok.owned i as h.space pa (h.tables.owned r pa hr)).1

/-- Mapping a page leaves the other pages, whether it succeeds or not. -/
lemma HoldsAt.mapPage (h : HoldsAt v i image M as L) (K : Kmalloc) (va : ℕ) {pa : ℕ}
    (hpa : pa < 2 ^ 64) : ∃ as' L',
    HoldsAt (vmmMapPage K v i va pa pageRwU).2 i (Function.update image va none)
      (remap M i va pa pageRwU (vmmMapPage K v i va pa pageRwU).1) as' L' ∧
    as'.pml4Phys = as.pml4Phys ∧ as.ownedPages ⊆ as'.ownedPages ∧
    Grown v (vmmMapPage K v i va pa pageRwU).2 L L' := by
  obtain ⟨hOk, as', L', hs', hroot, howned, hT', hg⟩ :=
    h.steady.ok.mapPage_grown K h.space h.tables va pageRwU hpa
  have hcomplete : ∀ j as'', (vmmMapPage K v i va pa pageRwU).2.spaces j = some as'' →
      as''.pml4Phys ≠ 0 := fun j as'' =>
    complete_of_sameRoots (sameRoots_map K v i va pa pageRwU) h.steady.complete
  refine ⟨as', L', ⟨⟨hOk, hcomplete⟩, hs', hT', fun va' f hf => ?_⟩, hroot, howned, hg⟩
  have hne : va' ≠ va := by
    rintro rfl
    rw [Function.update_self] at hf
    cases hf
  rw [Function.update_of_ne hne] at hf
  obtain ⟨pa', hM, hdvd', hlive, hnot, hbytes⟩ := h.pages va' f hf
  refine ⟨pa', ?_, hdvd', hg.live hlive, hg.not_named hlive hnot, fun k hk =>
    (hg.bytes pa' hlive hdvd' hnot k hk).trans (hbytes k hk)⟩
  cases (vmmMapPage K v i va pa pageRwU).1 with
  | false => exact hM
  | true =>
    rw [remap, Function.update_self, Function.update_of_ne hne]
    exact hM

/-- A page that is mapped and in use can be taken for a page of the image. -/
lemma HoldsAt.addPage (h : HoldsAt v i image M as L) {va pa : ℕ} (hM : M i va = some (pa, pageRwU))
    (hdvd : 4096 ∣ pa) (hlive : pa ∈ v.live) (hnot : ∀ r, L r ≠ some pa) :
    HoldsAt v i (Function.update image va (some fun k => v.mem (pa + k))) M as L := by
  refine ⟨h.steady, h.space, h.tables, fun va' f hf => ?_⟩
  by_cases hva : va' = va
  · subst hva
    rw [Function.update_self] at hf
    exact ⟨pa, hM, hdvd, hlive, hnot, fun k _ => congrFun (Option.some.inj hf) k⟩
  · rw [Function.update_of_ne hva] at hf
    exact h.pages va' f hf

/-- The pages of the image are the address space's own. -/
def Owned (image : ℕ → Option Bytes) (m : ℕ → Option (ℕ × ℕ)) (as : AddrSpace) : Prop :=
  ∀ q, image q ≠ none → ∀ x, m q = some x → x.1 ∈ as.ownedPages

/-- Storing to a page of the image changes the bytes of the image only. -/
lemma HoldsAt.store (h : HoldsAt v i image M as L) (howned : Owned image (M i) as)
    {q pa : ℕ} {f : Bytes}
    (himage : image q = some f) (hM : M i q = some (pa, pageRwU)) {k : ℕ}
    (hk : k < 4096) (x : UInt8) :
    ∃ image', HoldsAt { v with mem := put8 v.mem (pa + k) x } i image' M as L ∧
      Owned image' (M i) as ∧ ∀ q', image q' ≠ none → image' q' ≠ none := by
  obtain ⟨pa₀, hM₀, hdvd, hlive, hnot, -⟩ := h.pages q f himage
  obtain rfl : pa = pa₀ := congrArg Prod.fst (Option.some.inj (hM.symm.trans hM₀))
  have himage' : image q ≠ none := by
    rw [himage]
    exact Option.some_ne_none _
  have hmem : pa ∈ as.ownedPages := howned q himage' _ hM
  have hsame : ∀ p, 4096 ∣ p → p ≠ pa → SamePage v.mem (put8 v.mem (pa + k) x) p :=
    fun p hp hne => samePage_blit v.mem _ hdvd hp hne hk
  obtain ⟨hOk, hT⟩ := h.steady.ok.written h.space h.tables hmem hnot hsame
  refine ⟨fun q' => (image q').map fun _ j =>
    put8 v.mem (pa + k) x (((M i q').map Prod.fst).getD 0 + j),
    ⟨⟨hOk, h.steady.complete⟩, h.space, hT, fun va f' hf' => ?_⟩, fun q' hq' =>
    ?_, fun q' hq' => ?_⟩
  · obtain ⟨f₀, hf₀, rfl⟩ := Option.map_eq_some_iff.mp hf'
    obtain ⟨pa', hM', hdvd', hlive', hnot', -⟩ := h.pages va f₀ hf₀
    refine ⟨pa', hM', hdvd', hlive', hnot', fun j _ => ?_⟩
    rw [hM']
    rfl
  · exact howned q' fun hnone => hq' (by simp only [hnone, Option.map_none])
  · obtain ⟨f₀, hf₀⟩ := Option.ne_none_iff_exists'.mp hq'
    simp only [hf₀, Option.map_some]
    exact Option.some_ne_none _

/-- The loop of `SYS_SBRK` maps its pages, or stops at one of them, and leaves the others. -/
lemma HoldsAt.mapHeap (h : HoldsAt v i image M as L) (howned : Owned image (M i) as) (K : Kmalloc)
    (n va : ℕ) :
    ∃ image' M' as' L', HoldsAt (mapHeap K i n va v).2 i image' M' as' L' ∧
      Owned image' (M' i) as' ∧
      as'.pml4Phys = as.pml4Phys ∧
      (∀ q, q < va ∨ va + 0x1000 * n ≤ q → image' q = image q ∧ M' i q = M i q) ∧
      ((mapHeap K i n va v).1 = true → ∀ k < n, image' (va + 0x1000 * k) ≠ none) := by
  induction n generalizing v image M as L va with
  | zero =>
    exact ⟨image, M, as, L, h, howned, rfl, fun _ _ => ⟨rfl, rfl⟩,
      fun _ k hk => absurd hk (Nat.not_lt_zero k)⟩
  | succ n ih =>
    rw [Elf.mapHeap]
    rcases halloc : vmmAllocPage K v i with ⟨pa, v₁⟩
    dsimp only
    by_cases hpa : pa = 0
    · rw [if_pos hpa]
      obtain ⟨m, rfl⟩ := alloc_failed halloc hpa
      exact ⟨image, M, as, L, h.calls m, howned, rfl, fun _ _ => ⟨rfl, rfl⟩,
        fun hfalse => by simp at hfalse⟩
    rw [if_neg hpa]
    obtain ⟨h₁, hdvd, hlt, hlive, hnot⟩ := h.alloc halloc hpa
    obtain ⟨as₂, L₂, h₂, hroot₂, hsub, hg⟩ := h₁.mapPage K va hlt
    have hmem : pa ∈ as₂.ownedPages := hsub (List.mem_append_right _ (List.mem_singleton_self pa))
    have hold : ∀ q x, image q ≠ none → M i q = some x → x.1 ∈ as₂.ownedPages := fun q x hq hx =>
      hsub (List.mem_append_left _ (howned q hq x hx))
    rcases hmap : vmmMapPage K v₁ i va pa pageRwU with ⟨_ | _, v₂⟩
    · rw [hmap] at h₂
      refine ⟨_, _, as₂, L₂, h₂, fun q hq x hx => ?_, hroot₂, fun q hq => ⟨?_, rfl⟩,
        fun hfalse => by simp at hfalse⟩
      · refine hold q x (fun hnone => hq ?_) hx
        by_cases hqva : q = va
        · rw [hqva, Function.update_self]
        · rw [Function.update_of_ne hqva, hnone]
      · exact Function.update_of_ne (by omega) _ _
    · rw [hmap] at h₂ hg
      have hM : remap M i va pa pageRwU true i = Function.update (M i) va (some (pa, pageRwU)) := by
        rw [remap, Function.update_self]
      have hMva : remap M i va pa pageRwU true i va = some (pa, pageRwU) := by
        rw [hM, Function.update_self]
      have hadd := h₂.addPage hMva hdvd (hg.live hlive) (hg.not_named hlive hnot)
      have howned₂ : Owned (Function.update (Function.update image va none) va
          (some fun k => v₂.mem (pa + k))) (remap M i va pa pageRwU true i) as₂ := by
        intro q hq x hx
        rw [hM] at hx
        by_cases hqva : q = va
        · rw [hqva, Function.update_self] at hx
          rw [← Option.some.inj hx]
          exact hmem
        · rw [Function.update_of_ne hqva] at hx
          rw [Function.update_of_ne hqva, Function.update_of_ne hqva] at hq
          exact hold q x hq hx
      obtain ⟨image', M', as', L', h', howned', hroot', hsame, hpages⟩ :=
        ih hadd howned₂ (va + 0x1000)
      refine ⟨image', M', as', L', h', howned', hroot'.trans hroot₂, fun q hq =>
        ?_, fun htrue k hk => ?_⟩
      · obtain ⟨himage, hMq⟩ := hsame q (by omega)
        rw [himage, hMq, hM]
        have hne : q ≠ va := by omega
        exact ⟨by rw [Function.update_of_ne hne, Function.update_of_ne hne],
          Function.update_of_ne hne _ _⟩
      · cases k with
        | zero =>
          rw [Nat.mul_zero, Nat.add_zero, (hsame va (by omega)).1, Function.update_self]
          exact Option.some_ne_none _
        | succ k =>
          have hpage := hpages htrue k (Nat.lt_of_succ_lt_succ hk)
          rwa [show va + 0x1000 + 0x1000 * k = va + 0x1000 * (k + 1) by omega] at hpage

end Elf

end CoolFrost
