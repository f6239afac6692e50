import CoolFrost.Lib.PartialRun
import CoolFrost.Kernel.Sbrk

/-!
# One contiguous heap

The runs of a process that `elf_exec` has started, as far as its heap goes: calls of `SYS_SBRK` with
any argument, and stores to the pages that the heap has.  The heap grows by adjacent ranges, its
pages stay where they are, and only the process changes what is in them.
-/

namespace CoolFrost

namespace Elf

open Bytes Vmm

/-- A process: its heap, the root of its page tables, the memory manager, and the ranges that
`SYS_SBRK` has returned, the newest first. -/
structure Process where
  heap : Heap
  cr3 : ℕ
  vmm : Vmm
  granted : List (ℕ × ℕ)

/-- What a process does with its heap. -/
inductive HeapOp where
  | sbrk (rdi : UInt64)
  | store (a : ℕ) (x : UInt8)
  deriving DecidableEq

/-- The end of the page that a break is in. -/
def roundUp (brk : ℕ) : ℕ := (brk + 0xFFF) / 0x1000 * 0x1000

/-- The state after a step; `none` for a store to where the heap has no page. -/
def heapStep (K : Kmalloc) (p : Process) : HeapOp → Option Process
  | .sbrk rdi =>
    let r := sbrk K p.heap rdi p.vmm
    some
      { heap := r.2.1
        cr3 := p.cr3
        vmm := r.2.2
        granted := if r.1 ≠ refused ∧ rdi ≠ 0 then (r.1, rdi.toNat) :: p.granted else p.granted }
  | .store a x =>
    if p.heap.heapStart ≤ a ∧ a < roundUp p.heap.heapBrk then
      (Vmm.walk p.vmm.mem p.cr3 a).map fun w =>
        { p with vmm := { p.vmm with mem := put8 p.vmm.mem (w.1 + a % 4096) x } }
    else none

/-- The state after the steps of a run. -/
def heapRun (K : Kmalloc) (p : Process) (ops : List HeapOp) : Option Process :=
  ops.foldlM (heapStep K) p

/-- The heap of a process in the state `p`, where `p₀` is the state it was started in. -/
structure Contiguous (K : Kmalloc) (p₀ p : Process) : Prop where
  /-- The break stays between the ends of the heap, which do not move. -/
  start : p.heap.heapStart = p₀.heap.heapStart
  limit : p.heap.heapEnd = p₀.heap.heapEnd
  lower : p.heap.heapStart ≤ p.heap.heapBrk
  upper : p.heap.heapBrk ≤ p.heap.heapEnd
  /-- Every page up to the break is mapped for the process to write. -/
  mapped : ∀ a, p.heap.heapStart ≤ a → a < roundUp p.heap.heapBrk →
    ∃ frame, Vmm.walk p.vmm.mem p.cr3 a = some (frame, pageRwU)
  /-- No other page of the process is mapped or mapped elsewhere. -/
  outside : ∀ a, userBase ≤ a → a < userBase + userSize →
    a < p.heap.heapStart ∨ p.heap.heapEnd ≤ a →
    Vmm.walk p.vmm.mem p.cr3 a = Vmm.walk p₀.vmm.mem p₀.cr3 a
  /-- Outside of the window of the process nothing is mapped but what the kernel shares with all. -/
  shared : ∀ a < 2 ^ 48, a < userBase ∨ userBase + userSize ≤ a →
    pdptEntry p.vmm.mem p.cr3 a = sharedEntry p.vmm.mem a
  /-- A range begins where the one before it ends, so no two of them meet. -/
  adjacent : p.granted.IsChain fun r r' => r'.1 + r'.2 = r.1
  disjoint : p.granted.Pairwise fun r r' => r'.1 + r'.2 ≤ r.1
  inside : ∀ r ∈ p.granted, p.heap.heapStart ≤ r.1 ∧ r.1 + r.2 ≤ p.heap.heapBrk
  /-- A call that fails leaves the break. -/
  failed : ∀ rdi, (sbrk K p.heap rdi p.vmm).1 = refused → (sbrk K p.heap rdi p.vmm).2.1 = p.heap

/-- What is left of the heap between the states `p` and `p'`: its pages stay where they are, and the
calls of `SYS_SBRK` leave what is in them. -/
structure Persists (ops : List HeapOp) (p p' : Process) : Prop where
  kept : ∀ a, p.heap.heapStart ≤ a → a < roundUp p.heap.heapBrk →
    Vmm.walk p'.vmm.mem p'.cr3 a = Vmm.walk p.vmm.mem p.cr3 a
  contents : (∀ op ∈ ops, ∃ rdi, op = .sbrk rdi) → ∀ a, p.heap.heapStart ≤ a →
    a < roundUp p.heap.heapBrk → byteOf p'.vmm.mem p'.cr3 a = byteOf p.vmm.mem p.cr3 a

/-! ## Sizes -/

/-- The heap lies in the window of the process, page by page. -/
structure Heap.Placed (hp : Heap) : Prop where
  addrSpace_ne : hp.addrSpace ≠ 0
  aligned : 0x1000 ∣ hp.heapStart
  limit_aligned : 0x1000 ∣ hp.heapEnd
  base : userBase ≤ hp.heapStart
  top : hp.heapEnd ≤ userBase + userSize
  lower : hp.heapStart ≤ hp.heapBrk
  upper : hp.heapBrk ≤ hp.heapEnd

variable {K : Kmalloc} {hp : Heap} {rdi : UInt64} {v : Vmm}

lemma top_eq : userBase + userSize = 0x80000000 := by decide

/-- Counting whole pages from the start of the heap is rounding the break up. -/
lemma Heap.Placed.pagesEnd_eq (h : hp.Placed) {brk : ℕ} (hlower : hp.heapStart ≤ brk)
    (hupper : brk ≤ hp.heapEnd) : pagesEnd hp.heapStart brk = roundUp brk := by
  have htop := h.top
  rw [top_eq] at htop
  obtain ⟨k, hk⟩ := h.aligned
  have hdiff : (brk + (2 ^ 64 - hp.heapStart) + 0xFFF) % 2 ^ 64 = brk - hp.heapStart + 0xFFF := by
    omega
  rw [pagesEnd, hdiff, roundUp]
  omega

lemma Heap.Placed.roundUp_le (h : hp.Placed) {brk : ℕ} (hupper : brk ≤ hp.heapEnd) :
    roundUp brk ≤ hp.heapEnd := by
  obtain ⟨k, hk⟩ := h.limit_aligned
  unfold roundUp
  omega

lemma le_roundUp (brk : ℕ) : brk ≤ roundUp brk := by
  unfold roundUp
  omega

lemma roundUp_mono {brk brk' : ℕ} (h : brk ≤ brk') : roundUp brk ≤ roundUp brk' := by
  unfold roundUp
  omega

/-- The pages of a break: the whole address is below its end when the page is. -/
lemma page_lt_roundUp {a brk : ℕ} (h : a < roundUp brk) : a / 4096 * 4096 < roundUp brk :=
  (Nat.div_mul_le_self a 4096).trans_lt h

/-- What `SYS_SBRK` does with a heap that is placed in the window. -/
lemma sbrk_cases (h : hp.Placed) (K : Kmalloc) (rdi : UInt64) (v : Vmm) :
    sbrk K hp rdi v = (refused, hp, v) ∨ rdi = 0 ∧ sbrk K hp rdi v = (hp.heapBrk, hp, v) ∨
    ∃ n, rdi ≠ 0 ∧ hp.heapBrk + rdi.toNat ≤ hp.heapEnd ∧
      roundUp hp.heapBrk + 0x1000 * n = roundUp (hp.heapBrk + rdi.toNat) ∧
      sbrk K hp rdi v =
        if (mapHeap K (hp.addrSpace - 1) n (roundUp hp.heapBrk) v).1 then
          (hp.heapBrk, { hp with heapBrk := hp.heapBrk + rdi.toNat },
            (mapHeap K (hp.addrSpace - 1) n (roundUp hp.heapBrk) v).2)
        else (refused, hp, (mapHeap K (hp.addrSpace - 1) n (roundUp hp.heapBrk) v).2) := by
  have htop := h.top
  have hbase := h.base
  have hlower := h.lower
  have hupper := h.upper
  rw [top_eq] at htop
  have hne : ¬(hp.addrSpace = 0 ∨ hp.heapEnd = 0) := by
    have hpos : 0 < userBase := by decide
    rintro (h0 | h0)
    · exact h.addrSpace_ne h0
    · omega
  rw [sbrk, if_neg hne]
  by_cases hzero : rdi = 0
  · rw [if_pos hzero]
    exact Or.inr (Or.inl ⟨hzero, rfl⟩)
  rw [if_neg hzero]
  by_cases hneg : 2 ^ 63 ≤ rdi.toNat
  · rw [if_pos hneg]
    exact Or.inl rfl
  rw [if_neg hneg]
  have hsum : (hp.heapBrk + rdi.toNat) % 2 ^ 64 = hp.heapBrk + rdi.toNat :=
    Nat.mod_eq_of_lt (by omega)
  dsimp only
  rw [hsum]
  by_cases hout : hp.heapBrk + rdi.toNat < hp.heapBrk ∨ hp.heapEnd < hp.heapBrk + rdi.toNat
  · rw [if_pos hout]
    exact Or.inl rfl
  rw [if_neg hout]
  have hfits : hp.heapBrk + rdi.toNat ≤ hp.heapEnd := by omega
  have hmapped := h.pagesEnd_eq hlower hupper
  have hneeded := h.pagesEnd_eq (by omega) hfits
  refine Or.inr (Or.inr ⟨missingPages hp (hp.heapBrk + rdi.toNat), hzero, hfits, ?_, ?_⟩)
  · have hmono : roundUp hp.heapBrk ≤ roundUp (hp.heapBrk + rdi.toNat) :=
      roundUp_mono (Nat.le_add_right _ _)
    rw [missingPages, hmapped, hneeded]
    unfold roundUp at hmono ⊢
    omega
  · rw [hmapped]
    rcases mapHeap K (hp.addrSpace - 1) (missingPages hp (hp.heapBrk + rdi.toNat))
      (roundUp hp.heapBrk) v with ⟨_ | _, v'⟩
    · rfl
    · rfl

/-! ## The invariant -/

/-- The heap of a process that was started in the state `p₀`, with the pages up to the break held by
its address space. -/
structure HeapOk (p₀ p : Process) (m₀ : ℕ → Option (ℕ × ℕ)) (image : ℕ → Option Bytes)
    (M : ℕ → ℕ → Option (ℕ × ℕ)) (as : AddrSpace) (L : Role → Option ℕ) : Prop where
  placed : p.heap.Placed
  addrSpace : p.heap.addrSpace = p₀.heap.addrSpace
  start : p.heap.heapStart = p₀.heap.heapStart
  limit : p.heap.heapEnd = p₀.heap.heapEnd
  cr3 : p.cr3 = p₀.cr3
  root : as.pml4Phys = p.cr3
  holds : HoldsAt p.vmm (p.heap.addrSpace - 1) image M as L
  owned : Owned image (M (p.heap.addrSpace - 1)) as
  pages : ∀ q, 4096 ∣ q → p.heap.heapStart ≤ q → q < roundUp p.heap.heapBrk → image q ≠ none
  outside : ∀ q, q < p.heap.heapStart ∨ p.heap.heapEnd ≤ q → M (p.heap.addrSpace - 1) q = m₀ q
  last : ∀ r ∈ p.granted.head?, r.1 + r.2 = p.heap.heapBrk
  adjacent : p.granted.IsChain fun r r' => r'.1 + r'.2 = r.1
  disjoint : p.granted.Pairwise fun r r' => r'.1 + r'.2 ≤ r.1
  inside : ∀ r ∈ p.granted, p.heap.heapStart ≤ r.1 ∧ r.1 + r.2 ≤ p.heap.heapBrk

variable {p₀ p p' : Process} {m₀ : ℕ → Option (ℕ × ℕ)} {image image' : ℕ → Option Bytes}
  {M M' : ℕ → ℕ → Option (ℕ × ℕ)} {as as' : AddrSpace} {L L' : Role → Option ℕ} {i : ℕ} {v' : Vmm}

/-- A page that is held as before is at its place and has its bytes. -/
lemma same_of_held (h : HoldsAt v i image M as L) (h' : HoldsAt v' i image' M' as' L')
    (hroot : as'.pml4Phys = as.pml4Phys) {a : ℕ} (hbase : userBase ≤ a)
    (htop : a < userBase + userSize)
    (hpage : image (a / 4096 * 4096) ≠ none)
    (himage : image' (a / 4096 * 4096) = image (a / 4096 * 4096))
    (hM : M' i (a / 4096 * 4096) = M i (a / 4096 * 4096)) :
    Vmm.walk v'.mem as.pml4Phys a = Vmm.walk v.mem as.pml4Phys a ∧
      byteOf v'.mem as.pml4Phys a = byteOf v.mem as.pml4Phys a := by
  have hwalk : Vmm.walk v'.mem as.pml4Phys a = Vmm.walk v.mem as.pml4Phys a := by
    rw [h.walk_eq hbase htop, ← hroot, h'.walk_eq hbase htop, hM]
  obtain ⟨f, hf⟩ := Option.ne_none_iff_exists'.mp hpage
  obtain ⟨pa, hpa, hdvd, -, -, hbytes⟩ := h.pages _ f hf
  obtain ⟨pa', hpa', -, -, -, hbytes'⟩ := h'.pages _ f (himage.trans hf)
  obtain rfl : pa' = pa := congrArg Prod.fst (Option.some.inj (hpa'.symm.trans (hM.trans hpa)))
  refine ⟨hwalk, ?_⟩
  have hframe : (seen (pa', pageRwU)).1 = pa' := Nat.div_mul_cancel hdvd
  have hlt : a % 4096 < 4096 := Nat.mod_lt _ (by decide)
  rw [byteOf, byteOf, hwalk, h.walk_eq hbase htop, hpa, Option.map_some, Option.map_some,
    Option.map_some, hframe, hbytes _ hlt, hbytes' _ hlt]

/-- What the invariant promises. -/
lemma HeapOk.contiguous (h : HeapOk p₀ p m₀ image M as L) {v₀ : HoldsAt p₀.vmm i image' M' as' L'}
    (hroot : as'.pml4Phys = p₀.cr3) (hm₀ : m₀ = M' i) (K : Kmalloc) :
    Contiguous K p₀ p where
  start := h.start
  limit := h.limit
  lower := h.placed.lower
  upper := h.placed.upper
  mapped a ha hlt := by
    have hbase := h.placed.base
    have htop := h.placed.top
    have hend := h.placed.roundUp_le h.placed.upper
    have hal := h.placed.aligned
    have hpage : image (a / 4096 * 4096) ≠ none :=
      h.pages _ (Nat.dvd_mul_left _ _) (by omega) (page_lt_roundUp hlt)
    obtain ⟨f, hf⟩ := Option.ne_none_iff_exists'.mp hpage
    obtain ⟨pa, hpa, hdvd, -⟩ := h.holds.pages _ f hf
    refine ⟨pa, ?_⟩
    rw [← h.root, h.holds.walk_eq (by omega) (by omega), hpa, Option.map_some, seen]
    exact congrArg some (Prod.ext (Nat.div_mul_cancel hdvd)
      (by decide : leafFlags pageRwU = pageRwU))
  outside a hbase htop hout := by
    have hal := h.placed.aligned
    have hal' := h.placed.limit_aligned
    rw [← h.root, h.holds.walk_eq hbase htop, ← hroot, v₀.walk_eq hbase htop,
      h.outside _ (by omega), hm₀]
  shared a ha hout := by
    rw [← h.root]
    exact h.holds.pdptEntry_eq ha hout
  adjacent := h.adjacent
  disjoint := h.disjoint
  inside := h.inside
  failed rdi hrefused := by
    have hbrk : p.heap.heapBrk ≠ refused := by
      have htop := h.placed.top
      have hupper := h.placed.upper
      rw [top_eq] at htop
      unfold refused
      omega
    rcases sbrk_cases h.placed K rdi p.vmm with heq | ⟨-, heq⟩ | ⟨n, -, -, -, heq⟩
    · rw [heq]
    · rw [heq]
    · rw [heq] at hrefused ⊢
      split_ifs at hrefused ⊢
      · exact absurd hrefused hbrk
      · rfl

/-- What a step leaves of the heap. -/
def Kept (op : HeapOp) (p p' : Process) : Prop :=
  p.heap.heapStart = p'.heap.heapStart ∧ p.heap.heapBrk ≤ p'.heap.heapBrk ∧
  ∀ a, p.heap.heapStart ≤ a → a < roundUp p.heap.heapBrk →
    Vmm.walk p'.vmm.mem p'.cr3 a = Vmm.walk p.vmm.mem p.cr3 a ∧
      ((∃ rdi, op = .sbrk rdi) → byteOf p'.vmm.mem p'.cr3 a = byteOf p.vmm.mem p.cr3 a)

/-- A call that grants nothing leaves the heap. -/
lemma HeapOk.refuse (h : HeapOk p₀ p m₀ image M as L) {v' : Vmm}
    (hv : HoldsAt v' (p.heap.addrSpace - 1) image' M' as' L')
    (howned : Owned image' (M' (p.heap.addrSpace - 1)) as') (hroot : as'.pml4Phys = as.pml4Phys)
    (hsame : ∀ q, q < roundUp p.heap.heapBrk ∨ p.heap.heapEnd ≤ q →
      image' q = image q ∧ M' (p.heap.addrSpace - 1) q = M (p.heap.addrSpace - 1) q) :
    HeapOk p₀ { p with vmm := v' } m₀ image' M' as' L' where
  placed := h.placed
  addrSpace := h.addrSpace
  start := h.start
  limit := h.limit
  cr3 := h.cr3
  root := hroot.trans h.root
  holds := hv
  owned := howned
  pages q hq hlow hlt := by
    rw [(hsame q (Or.inl hlt)).1]
    exact h.pages q hq hlow hlt
  outside q hq := by
    have hle := h.placed.lower.trans (le_roundUp p.heap.heapBrk)
    change q < p.heap.heapStart ∨ p.heap.heapEnd ≤ q at hq
    rw [(hsame q (by omega)).2]
    exact h.outside q hq
  last := h.last
  adjacent := h.adjacent
  disjoint := h.disjoint
  inside := h.inside

/-- A call that grants a range moves the break behind it. -/
lemma HeapOk.grant (h : HeapOk p₀ p m₀ image M as L) {v' : Vmm} {n len : ℕ}
    (hv : HoldsAt v' (p.heap.addrSpace - 1) image' M' as' L')
    (howned : Owned image' (M' (p.heap.addrSpace - 1)) as') (hroot : as'.pml4Phys = as.pml4Phys)
    (hsame : ∀ q, q < roundUp p.heap.heapBrk ∨ roundUp p.heap.heapBrk + 0x1000 * n ≤ q →
      image' q = image q ∧ M' (p.heap.addrSpace - 1) q = M (p.heap.addrSpace - 1) q)
    (hnew : ∀ k < n, image' (roundUp p.heap.heapBrk + 0x1000 * k) ≠ none)
    (hfits : p.heap.heapBrk + len ≤ p.heap.heapEnd)
    (hn : roundUp p.heap.heapBrk + 0x1000 * n = roundUp (p.heap.heapBrk + len)) :
    HeapOk p₀ ⟨{ p.heap with heapBrk := p.heap.heapBrk + len }, p.cr3, v',
      (p.heap.heapBrk, len) :: p.granted⟩ m₀ image' M' as' L' where
  placed := ⟨h.placed.addrSpace_ne, h.placed.aligned, h.placed.limit_aligned, h.placed.base,
    h.placed.top, h.placed.lower.trans (Nat.le_add_right _ _), hfits⟩
  addrSpace := h.addrSpace
  start := h.start
  limit := h.limit
  cr3 := h.cr3
  root := hroot.trans h.root
  holds := hv
  owned := howned
  pages q hq hlow hlt := by
    rcases Nat.lt_or_ge q (roundUp p.heap.heapBrk) with hold | hadded
    · rw [(hsame q (Or.inl hold)).1]
      exact h.pages q hq hlow hold
    · -- one of the pages that the loop has mapped
      change q < roundUp (p.heap.heapBrk + len) at hlt
      have hdvd : 0x1000 ∣ roundUp p.heap.heapBrk := Nat.dvd_mul_left _ _
      obtain ⟨k, hk⟩ : 0x1000 ∣ q - roundUp p.heap.heapBrk := Nat.dvd_sub hq hdvd
      have hpage := hnew k (by omega)
      rwa [← hk, Nat.add_sub_cancel' hadded] at hpage
  outside q hq := by
    change q < p.heap.heapStart ∨ p.heap.heapEnd ≤ q at hq
    have hle := h.placed.lower.trans (le_roundUp p.heap.heapBrk)
    have hend := h.placed.roundUp_le hfits
    rw [(hsame q (by omega)).2]
    exact h.outside q hq
  last r hr := by
    rw [← Option.some.inj hr]
  adjacent := by
    refine List.isChain_cons.mpr ⟨fun r hr => ?_, h.adjacent⟩
    exact h.last r hr
  disjoint := List.pairwise_cons.mpr ⟨fun r hr => (h.inside r hr).2, h.disjoint⟩
  inside r hr := by
    rcases List.mem_cons.mp hr with rfl | hr
    · exact ⟨h.placed.lower, le_rfl⟩
    · exact ⟨(h.inside r hr).1, (h.inside r hr).2.trans (Nat.le_add_right _ _)⟩

/-- A call of `SYS_SBRK` keeps the invariant and everything up to the break. -/
lemma HeapOk.sbrk (h : HeapOk p₀ p m₀ image M as L) (K : Kmalloc) (rdi : UInt64)
    (hstep : heapStep K p (.sbrk rdi) = some p') :
    (∃ image' M' as' L', HeapOk p₀ p' m₀ image' M' as' L') ∧ Kept (.sbrk rdi) p p' := by
  obtain rfl := Option.some.inj hstep
  have hbase := h.placed.base
  have htop := h.placed.top
  have hal := h.placed.aligned
  have hend := h.placed.roundUp_le h.placed.upper
  have hne : p.heap.heapBrk ≠ refused := by
    have hupper := h.placed.upper
    rw [top_eq] at htop
    unfold refused
    omega
  -- what the loop leaves, if it is reached
  have hkept : ∀ {v' : Vmm} {image' M' as' L'}, HoldsAt v' (p.heap.addrSpace - 1) image' M' as' L' →
      as'.pml4Phys = as.pml4Phys → (∀ q, q < roundUp p.heap.heapBrk →
        image' q = image q ∧ M' (p.heap.addrSpace - 1) q = M (p.heap.addrSpace - 1) q) →
      ∀ a, p.heap.heapStart ≤ a → a < roundUp p.heap.heapBrk →
        Vmm.walk v'.mem p.cr3 a = Vmm.walk p.vmm.mem p.cr3 a ∧
          byteOf v'.mem p.cr3 a = byteOf p.vmm.mem p.cr3 a := by
    intro v' image' M' as' L' hv hroot hsame a ha hlt
    have hpage := page_lt_roundUp hlt
    obtain ⟨himage, hM⟩ := hsame _ hpage
    rw [← h.root]
    exact same_of_held h.holds hv hroot (by omega) (by omega)
      (h.pages _ (Nat.dvd_mul_left _ _) (by omega) hpage) himage hM
  rcases sbrk_cases h.placed K rdi p.vmm with heq | ⟨hzero, heq⟩ | ⟨n, hpos, hfits, hn, heq⟩
  · rw [heq]
    simp only [ne_eq, not_true_eq_false, false_and, if_false]
    exact ⟨⟨image, M, as, L, h⟩, rfl, le_rfl, fun a _ _ => ⟨rfl, fun _ => rfl⟩⟩
  · rw [heq]
    simp only [hzero, ne_eq, not_true_eq_false, and_false, if_false]
    exact ⟨⟨image, M, as, L, h⟩, rfl, le_rfl, fun a _ _ => ⟨rfl, fun _ => rfl⟩⟩
  · obtain ⟨image', M', as', L', hv, howned, hroot, hsame, hnew⟩ :=
      h.holds.mapHeap h.owned K n (roundUp p.heap.heapBrk)
    rw [heq]
    have hfinish := h.placed.roundUp_le hfits
    by_cases hmapped : (mapHeap K (p.heap.addrSpace - 1) n (roundUp p.heap.heapBrk) p.vmm).1 = true
    · rw [if_pos hmapped]
      simp only [ne_eq, hne, not_false_eq_true, hpos, and_self, if_true]
      refine ⟨⟨image', M', as', L', h.grant hv howned hroot hsame (hnew hmapped) hfits hn⟩, rfl,
        Nat.le_add_right _ _, fun a ha hlt => ?_⟩
      obtain ⟨hwalk, hbyte⟩ := hkept hv hroot (fun q hq => hsame q (Or.inl hq)) a ha hlt
      exact ⟨hwalk, fun _ => hbyte⟩
    · rw [if_neg hmapped]
      simp only [ne_eq, not_true_eq_false, false_and, if_false]
      refine ⟨⟨image', M', as', L', h.refuse hv howned hroot fun q hq =>
        hsame q (by omega)⟩, rfl, le_rfl, fun a ha hlt => ?_⟩
      obtain ⟨hwalk, hbyte⟩ := hkept hv hroot (fun q hq => hsame q (Or.inl hq)) a ha hlt
      exact ⟨hwalk, fun _ => hbyte⟩

/-- A store of the process keeps the invariant and the pages. -/
lemma HeapOk.store (h : HeapOk p₀ p m₀ image M as L) (K : Kmalloc) (a : ℕ) (x : UInt8)
    (hstep : heapStep K p (.store a x) = some p') :
    (∃ image' M' as' L', HeapOk p₀ p' m₀ image' M' as' L') ∧ Kept (.store a x) p p' := by
  rw [heapStep] at hstep
  split_ifs at hstep with ha
  obtain ⟨w, hw, rfl⟩ := Option.map_eq_some_iff.mp hstep
  have hbase := h.placed.base
  have htop := h.placed.top
  have hal := h.placed.aligned
  have hend := h.placed.roundUp_le h.placed.upper
  have hpage : image (a / 4096 * 4096) ≠ none :=
    h.pages _ (Nat.dvd_mul_left _ _) (by omega) (page_lt_roundUp ha.2)
  obtain ⟨f, hf⟩ := Option.ne_none_iff_exists'.mp hpage
  obtain ⟨pa, hpa, hdvd, -⟩ := h.holds.pages _ f hf
  rw [← h.root, h.holds.walk_eq (by omega) (by omega), hpa] at hw
  have hframe : w.1 = pa := by
    rw [← Option.some.inj hw]
    exact Nat.div_mul_cancel hdvd
  obtain ⟨image', hv, howned, hstay⟩ :=
    h.holds.store h.owned hf hpa (Nat.mod_lt a (by decide)) x
  rw [hframe]
  refine ⟨⟨image', M, as, L, h.placed, h.addrSpace, h.start, h.limit, h.cr3, h.root, hv, howned,
    fun q hq hlow hlt => hstay q (h.pages q hq hlow hlt), h.outside, h.last, h.adjacent, h.disjoint,
    h.inside⟩, rfl, le_rfl, fun b hb hlt => ⟨?_, fun ⟨rdi, hop⟩ => nomatch hop⟩⟩
  change Vmm.walk (put8 p.vmm.mem (pa + a % 4096) x) p.cr3 b = _
  rw [← h.root, h.holds.walk_eq (by omega) (by omega)]
  exact hv.walk_eq (by omega) (by omega)

/-- A run keeps the invariant, and the pages that the heap has when it starts. -/
lemma HeapOk.run (h : HeapOk p₀ p m₀ image M as L) (K : Kmalloc) {ops : List HeapOp}
    (hrun : heapRun K p ops = some p') :
    (∃ image' M' as' L', HeapOk p₀ p' m₀ image' M' as' L') ∧ Persists ops p p' := by
  induction ops generalizing p image M as L with
  | nil =>
    obtain rfl := Option.some.inj hrun
    exact ⟨⟨image, M, as, L, h⟩, fun _ _ _ => rfl, fun _ _ _ _ => rfl⟩
  | cons op ops ih =>
    rw [heapRun, List.foldlM_cons] at hrun
    obtain ⟨p₁, hstep, hrest⟩ := Option.bind_eq_some_iff.mp hrun
    obtain ⟨⟨image₁, M₁, as₁, L₁, h₁⟩, hstart, hbrk, hkept⟩ :
        (∃ image' M' as' L', HeapOk p₀ p₁ m₀ image' M' as' L') ∧ Kept op p p₁ := by
      cases op with
      | sbrk rdi => exact h.sbrk K rdi hstep
      | store a x => exact h.store K a x hstep
    obtain ⟨hok, hpersists⟩ := ih h₁ hrest
    have hmono := roundUp_mono hbrk
    refine ⟨hok, fun a ha hlt => ?_, fun hall a ha hlt => ?_⟩
    · exact (hpersists.kept a (hstart ▸ ha) (hlt.trans_le hmono)).trans (hkept a ha hlt).1
    · exact (hpersists.contents (fun o ho => hall o (List.mem_cons_of_mem _ ho)) a (hstart ▸ ha)
        (hlt.trans_le hmono)).trans ((hkept a ha hlt).2 (hall op List.mem_cons_self))

/-! ## The heap that a program starts with -/

variable {file : File} {img : Cpu.Image} {found : Option File} {args : List (List UInt8)}
  {stack slot : ℕ} {s : Cpu.Scheduler}

lemma loadSegments_end (phs : List Phdr) {m m' : ℕ} (hbase : userBase ≤ m) (hal : 0x1000 ∣ m)
    (hend : (loadSegments K file i phs m v).1 = some m') : userBase ≤ m' ∧ 0x1000 ∣ m' := by
  induction phs generalizing m v with
  | nil =>
    obtain rfl := Option.some.inj hend
    exact ⟨hbase, hal⟩
  | cons ph phs ih =>
    rw [loadSegments] at hend
    by_cases hloaded : ¬ ph.Loaded
    · rw [if_pos hloaded] at hend
      exact ih hbase hal hend
    rw [if_neg hloaded] at hend
    by_cases hbad : ph.segStart < userBase ∨ userBase + userSize < ph.segEnd ∨
      ph.pMemsz < ph.pFilesz
    · rw [if_pos hbad] at hend
      cases hend
    · rw [if_neg hbad] at hend
      rcases hseg : loadSegment K file i ph.segStart ph.segEnd (ph.pVaddr - ph.segStart) ph.pFilesz
        ph.pOffset v with ⟨_ | _, v'⟩
      · rw [hseg] at hend
        cases hend
      · rw [hseg] at hend
        refine ih ?_ ?_ hend
        · split_ifs with hlt
          · exact hbase.trans hlt.le
          · exact hbase
        · split_ifs with hlt
          · exact Nat.dvd_mul_left _ _
          · exact hal

lemma buildImage_end {m : ℕ} (hend : (buildImage K file args i v).1 = some m) :
    userBase ≤ m ∧ 0x1000 ∣ m := by
  rw [buildImage] at hend
  rcases hload : loadSegments K file i file.phdrs userBase v with ⟨_ | m', v₁⟩
  · rw [hload] at hend
    cases hend
  · have hend₁ : (loadSegments K file i file.phdrs userBase v).1 = some m' :=
      congrArg Prod.fst hload
    have hm' := loadSegments_end file.phdrs le_rfl (by decide) hend₁
    rw [hload] at hend
    dsimp only at hend
    split_ifs at hend
    rcases hstack : mapStack K i (List.range stackPages) v₁ with ⟨_ | _, v₂⟩
    · rw [hstack] at hend
      cases hend
    · rw [hstack] at hend
      dsimp only at hend
      rcases halloc : vmmAllocPage K v₂ i with ⟨pa, v₃⟩
      rw [halloc] at hend
      dsimp only at hend
      split_ifs at hend
      rcases hmap : vmmMapPage K v₃ i argvVa pa pageRwU with ⟨_ | _, v₄⟩
      · rw [hmap] at hend
        cases hend
      · rw [hmap] at hend
        obtain rfl := Option.some.inj hend
        exact hm'

/-- The heap of a new task starts behind the segments and ends below the arguments. -/
lemma elfExec_heap (h : (elfExec K img found args stack v s).1 = some (slot, i)) :
    ∃ m, userBase ≤ m ∧ 0x1000 ∣ m ∧
      heapOf ((elfExec K img found args stack v s).2.2.taskPool slot) =
      ⟨asPtr i, m, m, argvVa⟩ := by
  unfold elfExec at h ⊢
  cases found with
  | none => cases h
  | some file =>
    dsimp only at h ⊢
    split_ifs at h ⊢
    rcases hres : vmmCreateAddressSpace K v with ⟨_ | j, v₁⟩
    · rw [hres] at h
      cases h
    rw [hres] at h
    dsimp only at h ⊢
    rcases hres₂ : buildImage K file args j v₁ with ⟨_ | m, v₂⟩
    · rw [hres₂] at h
      cases h
    rw [hres₂] at h
    dsimp only at h ⊢
    obtain ⟨hbase, hal⟩ := buildImage_end (congrArg Prod.fst hres₂)
    rcases hres₃ : s.schedSubmitUserAs img file.ehdr.eEntry argvVa
      (((v₂.spaces j).map AddrSpace.pml4Phys).getD 0) stackTop stack with ⟨_ | slot', s'⟩
    · rw [hres₃] at h
      cases h
    · rw [hres₃] at h
      obtain ⟨rfl, rfl⟩ := Prod.mk.inj (Option.some.inj h)
      refine ⟨m, hbase, hal, ?_⟩
      simp only [Cpu.Scheduler.setTask, Function.update_self]
      rfl

/-- The process that `elf_exec` has made of a task. -/
def processOf (t : Cpu.Task) (v : Vmm) : Process := ⟨heapOf t, t.cr3, v, []⟩

/-- A process starts with an empty heap. -/
lemma heapOk_processOf (hv : Good v) (h : (elfExec K img found args stack v s).1 = some (slot, i))
    (hle : ((elfExec K img found args stack v s).2.2.taskPool slot).heapStart ≤
      ((elfExec K img found args stack v s).2.2.taskPool slot).heapEnd) :
    ∃ M as L, HeapOk
      (processOf ((elfExec K img found args stack v s).2.2.taskPool slot)
        (elfExec K img found args stack v s).2.1)
      (processOf ((elfExec K img found args stack v s).2.2.taskPool slot)
        (elfExec K img found args stack v s).2.1) (M i) (fun _ => none) M as L := by
  obtain ⟨-, -, -, image, ⟨M, as, L, hroot, hat⟩, -⟩ := (elfExec_spec hv).2 h
  obtain ⟨m, hbase, hal, hheap⟩ := elfExec_heap h
  have hstart := congrArg Heap.heapStart hheap
  have hend := congrArg Heap.heapEnd hheap
  dsimp only [heapOf] at hstart hend
  rw [hstart, hend] at hle
  have hround : roundUp m = m := by
    obtain ⟨k, rfl⟩ := hal
    unfold roundUp
    omega
  have hlimit : 0x1000 ∣ argvVa := by decide
  have htop : argvVa ≤ userBase + userSize := by decide
  refine ⟨M, as, L, ?_⟩
  unfold processOf
  rw [hheap]
  exact
    { placed := ⟨Nat.succ_ne_zero i, hal, hlimit, hbase, htop, le_rfl, hle⟩
      addrSpace := rfl
      start := rfl
      limit := rfl
      cr3 := rfl
      root := hroot
      holds := ⟨hat.steady, hat.space, hat.tables, fun _ _ hnone => nomatch hnone⟩
      owned := fun q hq => absurd rfl hq
      pages := fun q _ hlow hlt => absurd (hround ▸ hlt) (not_lt.mpr hlow)
      outside := fun q _ => rfl
      last := fun r hr => nomatch hr
      adjacent := .nil
      disjoint := .nil
      inside := fun r hr => absurd hr List.not_mem_nil }

/-- **`SYS_SBRK` grows one contiguous heap**, for every program that has been started and every run
of calls and stores. -/
theorem sbrk_contiguous (hv : Reached K v)
    (h : (elfExec K img found args stack v s).1 = some (slot, i))
    (hle : ((elfExec K img found args stack v s).2.2.taskPool slot).heapStart ≤
      ((elfExec K img found args stack v s).2.2.taskPool slot).heapEnd)
    {ops₁ ops₂ : List HeapOp} {p p' : Process}
    (hrun : heapRun K (processOf ((elfExec K img found args stack v s).2.2.taskPool slot)
      (elfExec K img found args stack v s).2.1) ops₁ = some p)
    (hrun' : heapRun K p ops₂ = some p') :
    Contiguous K (processOf ((elfExec K img found args stack v s).2.2.taskPool slot)
      (elfExec K img found args stack v s).2.1) p ∧ Persists ops₂ p p' := by
  obtain ⟨M, as, L, hok⟩ := heapOk_processOf hv.good h hle
  have hptr := hok.holds
  obtain ⟨⟨image₁, M₁, as₁, L₁, hok₁⟩, -⟩ := hok.run K hrun
  obtain ⟨m, -, -, hheap⟩ := elfExec_heap h
  have hi : (processOf ((elfExec K img found args stack v s).2.2.taskPool slot)
      (elfExec K img found args stack v s).2.1).heap.addrSpace - 1 = i := by
    unfold processOf
    rw [hheap]
    rfl
  rw [hi] at hptr
  exact ⟨@HeapOk.contiguous _ p _ _ _ _ _ _ _ _ _ i hok₁ hptr hok.root rfl K, (hok₁.run K hrun').2⟩

/-- The process of a program with one segment. -/
def oneProcess : Process :=
  processOf ((execAtBoot oneSegment).2.2.taskPool 0) (execAtBoot oneSegment).2.1

/-- A program asks for 100 bytes and then for 5000. -/
theorem sbrk_contiguous_twice :
    (heapRun bumpKmalloc oneProcess [.sbrk 100, .sbrk 5000]).map Process.granted =
      some [(0x40001064, 5000), (0x40001000, 100)] ∧
    ∃ p p', heapRun bumpKmalloc oneProcess [.sbrk 100] = some p ∧
      heapRun bumpKmalloc p [.sbrk 5000] = some p' ∧ Contiguous bumpKmalloc oneProcess p ∧
      Persists [.sbrk 5000] p p' := by
  have haccept : (execAtBoot oneSegment).1 = some (0, 0) := by decide +kernel
  have hle : ((execAtBoot oneSegment).2.2.taskPool 0).heapStart ≤
      ((execAtBoot oneSegment).2.2.taskPool 0).heapEnd := by decide +kernel
  have hsbrk : ∀ p rdi, ∃ p', heapRun bumpKmalloc p [.sbrk rdi] = some p' := fun p rdi => ⟨_, rfl⟩
  obtain ⟨p, hp⟩ := hsbrk oneProcess 100
  obtain ⟨p', hp'⟩ := hsbrk p 5000
  refine ⟨by decide +kernel, p, p', hp, hp', ?_⟩
  exact sbrk_contiguous (.boot zeros ∅) haccept hle hp hp'

end Elf

end CoolFrost
