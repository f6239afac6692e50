import CoolFrost.Cpu.Translation
import CoolFrost.Kernel.Elf

/-!
# The image of a program

What the memory of a new process holds when `elf_exec` has accepted a file.  An image says which
pages an address space has and what is in them; `load_segment` replaces the pages of its segment,
also those that an earlier segment has filled.  So a byte of a segment is in place when no later
segment maps its page, or when the last one that does has the same byte there.
-/

namespace CoolFrost

namespace Elf

open Bytes Vmm

variable {K : Kmalloc} {v : Vmm} {i root : ℕ} {image : ℕ → Option Bytes} {file : File} {ph : Phdr}

/-! ## Images -/

/-- The memory manager is in good order and every address space has its upper tables. -/
def Good (v : Vmm) : Prop := ∃ M, Vmm.Steady ⟨v, M⟩

/-- The address space `i`, with its tables at the pages that `L` names, has the pages of `image`. -/
structure HoldsAt (v : Vmm) (i : ℕ) (image : ℕ → Option Bytes) (M : ℕ → ℕ → Option (ℕ × ℕ))
    (as : AddrSpace) (L : Role → Option ℕ) : Prop where
  steady : Vmm.Steady ⟨v, M⟩
  space : v.spaces i = some as
  tables : Tables v.mem as (M i) L
  pages : ∀ va f, image va = some f → ∃ pa, M i va = some (pa, pageRwU) ∧ 4096 ∣ pa ∧ pa ∈ v.live ∧
    (∀ r, L r ≠ some pa) ∧ ∀ k < 4096, v.mem (pa + k) = f k

/-- The address space `i` has its root at `root` and the pages of `image`. -/
def Holds (v : Vmm) (i root : ℕ) (image : ℕ → Option Bytes) : Prop :=
  ∃ M as L, as.pml4Phys = root ∧ HoldsAt v i image M as L

lemma Holds.good (h : Holds v i root image) : Good v := by
  obtain ⟨M, as, L, -, h⟩ := h
  exact ⟨M, h.steady⟩

/-- Only the bytes inside of its pages belong to an image. -/
lemma Holds.congr (h : Holds v i root image) {image' : ℕ → Option Bytes}
    (heq : ∀ va f', image' va = some f' → ∃ f, image va = some f ∧ ∀ k < 4096, f k = f' k) :
    Holds v i root image' := by
  obtain ⟨M, as, L, hroot, h⟩ := h
  refine ⟨M, as, L, hroot, h.steady, h.space, h.tables, fun va f' hva => ?_⟩
  obtain ⟨f, hf, hff'⟩ := heq va f' hva
  obtain ⟨pa, hM, hdvd, hlive, hnot, hbytes⟩ := h.pages va f hf
  exact ⟨pa, hM, hdvd, hlive, hnot, fun k hk => (hbytes k hk).trans (hff' k hk)⟩

/-- The pages of an image are mapped for user code, and a walk leads to their bytes. -/
lemma Holds.walk (h : Holds v i root image) {a : ℕ} {f : Bytes}
    (ha : image (a / 4096 * 4096) = some f) (hbase : userBase ≤ a)
    (htop : a < userBase + userSize) :
    ∃ frame, Vmm.walk v.mem root a = some (frame, pageRwU) ∧
    v.mem (frame + a % 4096) = f (a % 4096) := by
  obtain ⟨M, as, L, rfl, h⟩ := h
  obtain ⟨pa, hM, hdvd, -, -, hbytes⟩ := h.pages _ f ha
  have hal : a / 4096 * 4096 % 4096 = 0 := Nat.mul_mod_left _ _
  have hbase' : userBase ≤ a / 4096 * 4096 := by
    unfold userBase at hbase ⊢
    omega
  have hwalk := h.tables.walk_eq (fun p hp => (h.steady.ok.pages h.space p hp).1) hbase'
    (lt_of_le_of_lt (Nat.div_mul_le_self a 4096) htop) hal
  have hflags : leafFlags pageRwU = pageRwU := by decide
  rw [walk_page, hM, Option.map_some] at hwalk
  refine ⟨pa, hwalk.trans (congrArg some (Prod.ext ?_ hflags)), hbytes _ (Nat.mod_lt _ (by decide))⟩
  exact Nat.div_mul_cancel hdvd

lemma good_alloc (h : Good v) (i : ℕ) : Good (vmmAllocPage K v i).2 := by
  obtain ⟨M, h⟩ := h
  exact ⟨M, h.step K (.allocPage i)⟩

lemma good_map (h : Good v) (i va : ℕ) {pa : ℕ} (hpa : pa < 2 ^ 64) (flags : ℕ) :
    Good (vmmMapPage K v i va pa flags).2 := by
  obtain ⟨M, h⟩ := h
  exact ⟨_, h.ok.mapPage K va flags hpa fun as hs => h.complete i as hs,
    fun j as => complete_of_sameRoots (sameRoots_map K v i va pa flags) h.complete⟩

lemma good_destroy (h : Good v) (i : ℕ) : Good (vmmDestroyAddressSpace v i) := by
  obtain ⟨M, h⟩ := h
  refine ⟨M, h.ok.destroy i, fun j as hs => ?_⟩
  by_cases hj : j = i
  · subst hj
    simp only [destroy_spaces_self] at hs
    cases hs
  · exact h.complete j as ((destroy_spaces_ne v hj).symm.trans hs)

lemma alloc_lt (K : Kmalloc) (v : Vmm) (i : ℕ) : (vmmAllocPage K v i).1 < 2 ^ 64 := by
  rcases vmmAllocPage_cases K v i with ⟨n, heq⟩ | ⟨as, -, -, heq⟩
  · rw [heq]
    exact Nat.two_pow_pos 64
  · rw [heq]
    exact K.page_lt _ _

/-- A new page that is mapped and filled is a page of the image; it was empty before. -/
lemma Holds.newPage (h : Holds v i root image) {va pa : ℕ} {v₁ v₂ : Vmm}
    (halloc : vmmAllocPage K v i = (pa, v₁)) (hpa : pa ≠ 0)
    (hmap : vmmMapPage K v₁ i va pa pageRwU = (true, v₂)) :
    4096 ∣ pa ∧ (∀ k < 4096, v₂.mem (pa + k) = 0) ∧
    ∀ mem', (∀ q, 4096 ∣ q → q ≠ pa → SamePage v₂.mem mem' q) →
      Holds { v₂ with mem := mem' } i root
        (Function.update image va (some fun k => mem' (pa + k))) := by
  obtain ⟨M, as, L, hroot, h⟩ := h
  rcases vmmAllocPage_cases K v i with ⟨n, heq⟩ | ⟨as₀, hs₀, hne, heq⟩
  · rw [heq] at halloc
    exact absurd (congrArg Prod.fst halloc).symm hpa
  obtain rfl : as = as₀ := Option.some.inj (h.space.symm.trans hs₀)
  rw [heq, Prod.mk.injEq] at halloc
  obtain ⟨hpage, hv₁⟩ := halloc
  have hdvd : 4096 ∣ pa := hpage ▸ K.page_dvd _ _
  have hfresh : pa ∉ v.live := hpage ▸ K.page_fresh _ _ hne
  rw [hpage] at hv₁
  subst hv₁
  have hOk := h.steady.ok.allocated h.space hdvd (hpage ▸ K.page_lt _ _) hfresh (v.calls + 1)
  have hT := h.steady.ok.clear_tables h.space h.tables hdvd hfresh
    (show AddrSpace.pml4Phys { as with ownedPages := as.ownedPages ++ [pa] } = as.pml4Phys from rfl)
    (List.subset_append_left _ _)
  have hs' := Function.update_self i (some { as with ownedPages := as.ownedPages ++ [pa] }) v.spaces
  have hgrown := hOk.mapPage_grown K hs' hT va pageRwU (hpage ▸ K.page_lt _ _)
  rw [hmap] at hgrown
  obtain ⟨hOk₂, as₂, L₂, hs₂, hroot₂, howned₂, hT₂, hg⟩ := hgrown
  have hnamed : ∀ r, L r ≠ some pa := fun r hr =>
    hfresh (h.steady.ok.owned i as h.space pa (h.tables.owned r pa hr)).1
  have hlive : pa ∈ insert pa v.live := Finset.mem_insert_self _ _
  have hzero : ∀ k < 4096, v₂.mem (pa + k) = 0 := fun k hk =>
    (hg.bytes pa hlive hdvd hnamed k hk).trans (blit_of_mem ⟨Nat.le_add_right _ _, by omega⟩)
  refine ⟨hdvd, hzero, fun mem' hsame => ?_⟩
  have hmap₂ : remap M i va pa pageRwU true i = Function.update (M i) va (some (pa, pageRwU)) :=
    Function.update_self _ _ _
  have hmem : pa ∈ as₂.ownedPages :=
    howned₂ (List.mem_append_right _ (List.mem_singleton_self pa))
  have hnot₂ := hg.not_named hlive hnamed
  obtain ⟨hOk₃, hT₃⟩ := hOk₂.written hs₂ hT₂ hmem hnot₂ hsame
  have hcomplete : ∀ j as', v₂.spaces j = some as' → as'.pml4Phys ≠ 0 := by
    have hstep := ((h.steady.step K (.allocPage i)).complete)
    simp only [exec, heq, hpage] at hstep
    intro j as' hj
    have hroots := sameRoots_map K { v with
      calls := v.calls + 1
      mem := clearPage v.mem pa
      live := insert pa v.live
      spaces := Function.update v.spaces i
        (some { as with ownedPages := as.ownedPages ++ [pa] }) } i va pa pageRwU
    rw [hmap] at hroots
    exact complete_of_sameRoots hroots hstep hj
  refine ⟨remap M i va pa pageRwU true, as₂, L₂, hroot₂.trans hroot, ⟨hOk₃, hcomplete⟩, hs₂, hT₃,
    fun va' f hf => ?_⟩
  rw [hmap₂]
  by_cases hva : va' = va
  · subst hva
    rw [Function.update_self] at hf ⊢
    refine ⟨pa, rfl, hdvd, hg.live hlive, hnot₂, fun k _ => ?_⟩
    exact congrFun (Option.some.inj hf) k
  · rw [Function.update_of_ne hva] at hf ⊢
    -- the other pages were in use before the new one was
    obtain ⟨pa', hM, hdvd', hlive', hnot', hbytes⟩ := h.pages va' f hf
    have hne' : pa' ≠ pa := fun heq' => hfresh (heq' ▸ hlive')
    have hlive₁ : pa' ∈ insert pa v.live := Finset.mem_insert_of_mem hlive'
    refine ⟨pa', hM, hdvd', hg.live hlive₁, hg.not_named hlive₁ hnot', fun k hk => ?_⟩
    refine (hsame pa' hdvd' hne' k hk).trans ((hg.bytes pa' hlive₁ hdvd' hnot' k hk).trans ?_)
    exact (samePage_clearPage v.mem hdvd hdvd' hne' k hk).trans (hbytes k hk)

/-! ## Segments -/

/-- What `load_segment` puts into the page at `va`. -/
def pageBytes (file : File) (segStart contentOff va remaining pos : ℕ) : Bytes :=
  let pageOff := if va = segStart then contentOff else 0
  blit zeros pageOff (shift file.bytes pos) (min remaining (pageSize - pageOff))

/-- The image after the loop of `load_segment`. -/
def loadedImage (file : File) (segStart contentOff : ℕ) :
    ℕ → ℕ → ℕ → ℕ → (ℕ → Option Bytes) → ℕ → Option Bytes
  | 0, _, _, _, image => image
  | n + 1, va, remaining, pos, image =>
    let pageOff := if va = segStart then contentOff else 0
    let toRead := min remaining (pageSize - pageOff)
    loadedImage file segStart contentOff n (va + pageSize) (remaining - toRead) (pos + toRead)
      (Function.update image va (some (pageBytes file segStart contentOff va remaining pos)))

/-- A new page with a part of a file in it. -/
lemma Holds.filledPage (h : Holds v i root image) {va pa : ℕ} {v₁ v₂ : Vmm}
    (halloc : vmmAllocPage K v i = (pa, v₁)) (hpa : pa ≠ 0)
    (hmap : vmmMapPage K v₁ i va pa pageRwU = (true, v₂)) {off len : ℕ} (src : Bytes)
    (hlen : off + len ≤ 4096) :
    Holds { v₂ with mem := blit v₂.mem (pa + off) src len } i root
      (Function.update image va (some (blit zeros off src len))) := by
  obtain ⟨hdvd, hzero, hholds⟩ := h.newPage halloc hpa hmap
  refine (hholds (blit v₂.mem (pa + off) src len) fun q hq hne => ?_).congr fun va' f' hf' => ?_
  · exact samePage_blit v₂.mem src hdvd hq hne hlen
  · by_cases hva : va' = va
    · subst hva
      rw [Function.update_self] at hf' ⊢
      refine ⟨_, rfl, fun k hk => ?_⟩
      rw [← Option.some.inj hf']
      by_cases hin : off ≤ k ∧ k < off + len
      · rw [blit_of_mem (by omega), blit_of_mem hin]
        congr 1
        omega
      · rw [blit_of_not_mem (by omega), blit_of_not_mem (by omega)]
        exact hzero k hk
    · rw [Function.update_of_ne hva] at hf' ⊢
      exact ⟨f', hf', fun _ _ => rfl⟩

lemma pageOff_add_le {segStart contentOff va remaining : ℕ} (hoff : contentOff ≤ pageSize) :
    (if va = segStart then contentOff else 0) +
      min remaining (pageSize - if va = segStart then contentOff else 0) ≤ 4096 := by
  unfold pageSize at hoff ⊢
  split_ifs <;> omega

/-- The loop of `load_segment`. -/
lemma loadPages_spec {segStart contentOff : ℕ} (hoff : contentOff ≤ pageSize) (n : ℕ)
    {va remaining pos : ℕ} (h : Holds v i root image) :
    Good (loadPages K file i segStart contentOff n va remaining pos v).2 ∧
    ((loadPages K file i segStart contentOff n va remaining pos v).1 = true →
      Holds (loadPages K file i segStart contentOff n va remaining pos v).2 i root
        (loadedImage file segStart contentOff n va remaining pos image)) := by
  induction n generalizing va remaining pos v image with
  | zero => exact ⟨h.good, fun _ => h⟩
  | succ n ih =>
    unfold loadPages
    have hlt := alloc_lt K v i
    have hgood := @good_alloc K v h.good i
    rcases halloc : vmmAllocPage K v i with ⟨pa, v₁⟩
    rw [halloc] at hlt hgood
    dsimp only
    by_cases hpa : pa = 0
    · rw [if_pos hpa]
      exact ⟨hgood, by simp⟩
    rw [if_neg hpa]
    have hgood₂ := @good_map K v₁ hgood i va pa hlt pageRwU
    rcases hmap : vmmMapPage K v₁ i va pa pageRwU with ⟨_ | _, v₂⟩
    · rw [hmap] at hgood₂
      exact ⟨hgood₂, by simp⟩
    dsimp only
    have hle := @pageOff_add_le segStart contentOff va remaining hoff
    by_cases hread : 0 < min remaining (pageSize - if va = segStart then contentOff else 0)
    · rw [if_pos hread]
      by_cases hgot : file.read pos
        (min remaining (pageSize - if va = segStart then contentOff else 0)) ≠
          min remaining (pageSize - if va = segStart then contentOff else 0)
      · rw [if_pos hgot]
        have hgot' : file.read pos
          (min remaining (pageSize - if va = segStart then contentOff else 0)) ≤
            min remaining (pageSize - if va = segStart then contentOff else 0) := min_le_left _ _
        refine ⟨(h.filledPage halloc hpa hmap _ ?_).good, by simp⟩
        exact le_trans (Nat.add_le_add_left hgot' _) hle
      · rw [if_neg hgot, not_not.mp hgot]
        exact ih (h.filledPage halloc hpa hmap _ hle)
    · rw [if_neg hread]
      have hzero : min remaining (pageSize - if va = segStart then contentOff else 0) = 0 :=
        Nat.eq_zero_of_not_pos hread
      have hfilled := h.filledPage halloc hpa hmap (shift file.bytes pos) hle
      rw [hzero, blit_zero_len] at hfilled
      unfold loadedImage pageBytes
      dsimp only
      rw [hzero]
      exact ih hfilled

/-- The image after a segment has been loaded. -/
def segImage (file : File) (image : ℕ → Option Bytes) (ph : Phdr) : ℕ → Option Bytes :=
  loadedImage file ph.segStart (ph.pVaddr - ph.segStart) ((ph.segEnd - ph.segStart) / pageSize)
    ph.segStart ph.pFilesz ph.pOffset image

/-- The program headers of the segments that are loaded. -/
def File.segments (file : File) : List Phdr := file.phdrs.filter (·.Loaded)

/-- The checks that a segment has to pass. -/
def Phdr.Passes (ph : Phdr) : Prop :=
  userBase ≤ ph.segStart ∧ ph.segEnd ≤ userBase + userSize ∧ ph.pFilesz ≤ ph.pMemsz

lemma contentOff_le (ph : Phdr) : ph.pVaddr - ph.segStart ≤ pageSize := by
  unfold Phdr.segStart pageSize
  omega

/-- The loop of `elf_exec` over the program headers. -/
lemma loadSegments_spec (phs : List Phdr) {maxSegEnd : ℕ} (h : Holds v i root image) :
    Good (loadSegments K file i phs maxSegEnd v).2 ∧
    ((loadSegments K file i phs maxSegEnd v).1 ≠ none →
      Holds (loadSegments K file i phs maxSegEnd v).2 i root
        ((phs.filter (·.Loaded)).foldl (segImage file) image) ∧
      ∀ ph ∈ phs.filter (·.Loaded), ph.Passes) := by
  induction phs generalizing maxSegEnd v image with
  | nil => exact ⟨h.good, fun _ => ⟨h, by simp⟩⟩
  | cons ph phs ih =>
    unfold loadSegments
    by_cases hload : ph.Loaded
    · rw [if_neg (not_not.mpr hload), List.filter_cons_of_pos (by simpa using hload)]
      by_cases hbad : ph.segStart < userBase ∨ userBase + userSize < ph.segEnd ∨
        ph.pMemsz < ph.pFilesz
      · rw [if_pos hbad]
        exact ⟨h.good, by simp⟩
      rw [if_neg hbad]
      simp only [not_or, Nat.not_lt] at hbad
      have hseg := @loadPages_spec K v i root image file ph.segStart _ (contentOff_le ph)
        ((ph.segEnd - ph.segStart) / pageSize) ph.segStart ph.pFilesz ph.pOffset h
      unfold loadSegment
      rcases hres : loadPages K file i ph.segStart (ph.pVaddr - ph.segStart)
        ((ph.segEnd - ph.segStart) / pageSize) ph.segStart ph.pFilesz ph.pOffset v with ⟨_ | _, v'⟩
      · rw [hres] at hseg
        exact ⟨hseg.1, by simp⟩
      · rw [hres] at hseg
        obtain ⟨hgood, hrest⟩ := @ih _ _ (if maxSegEnd < ph.segEnd then ph.segEnd else maxSegEnd)
          (hseg.2 rfl)
        refine ⟨hgood, fun hsome => ?_⟩
        obtain ⟨hholds, hpass⟩ := hrest hsome
        refine ⟨hholds, fun ph' hmem => ?_⟩
        rcases List.mem_cons.mp hmem with rfl | hmem
        · exact hbad
        · exact hpass ph' hmem
    · rw [if_pos hload, List.filter_cons_of_neg (by simpa using hload)]
      exact ih h

/-! ## What the segments leave in the image -/

/-- The address `a` is on a page of the segment. -/
def Phdr.Covers (ph : Phdr) (a : ℕ) : Prop := ph.segStart ≤ a ∧ a < ph.segEnd

/-- The segment has a byte of the file at the address `a`. -/
def Phdr.HasFileByte (ph : Phdr) (a : ℕ) : Prop := ph.pVaddr ≤ a ∧ a < ph.pVaddr + ph.pFilesz

instance (ph : Phdr) (a : ℕ) : Decidable (ph.Covers a) := inferInstanceAs (Decidable (_ ∧ _))

instance (ph : Phdr) (a : ℕ) : Decidable (ph.HasFileByte a) := inferInstanceAs (Decidable (_ ∧ _))

/-- What the segment has at the address `a`: the byte of the file, or 0. -/
def Phdr.byteAt (ph : Phdr) (file : File) (a : ℕ) : UInt8 :=
  if ph.HasFileByte a then file.bytes (ph.pOffset + (a - ph.pVaddr)) else 0

/-- The 64-bit sum in the end of the segment does not wrap around. -/
def Phdr.NoWrap (ph : Phdr) : Prop := ph.pVaddr + ph.pMemsz + pageSize - 1 < 2 ^ 64

instance (ph : Phdr) : Decidable ph.NoWrap := inferInstanceAs (Decidable (_ < _))

/-- Pages that the loop does not reach stay as they are. -/
lemma loadedImage_of_ne {segStart contentOff : ℕ} (n : ℕ) {va remaining pos va' : ℕ}
    (hne : ∀ j < n, va' ≠ va + j * pageSize) :
    loadedImage file segStart contentOff n va remaining pos image va' = image va' := by
  induction n generalizing va remaining pos image with
  | zero => rfl
  | succ n ih =>
    unfold loadedImage
    dsimp only
    rw [ih, Function.update_of_ne]
    · simpa using hne 0 (Nat.succ_pos n)
    · intro j hj heq
      refine hne (j + 1) (Nat.succ_lt_succ hj) ?_
      rw [heq, Nat.succ_mul]
      omega

/-- One page of a segment, when the pages before it have been filled. -/
lemma pageBytes_eq (ph : Phdr) {va k : ℕ} (hva : ph.segStart ≤ va) (hdvd : pageSize ∣ va)
    (hk : k < 4096) :
    pageBytes file ph.segStart (ph.pVaddr - ph.segStart) va (ph.pFilesz - (va - ph.pVaddr))
      (ph.pOffset + min ph.pFilesz (va - ph.pVaddr)) k = ph.byteAt file (va + k) := by
  obtain ⟨m, rfl⟩ := hdvd
  have hstart : ph.segStart ≤ ph.pVaddr ∧ ph.pVaddr < ph.segStart + 4096 ∧
      ∃ l, ph.segStart = 4096 * l := by
    unfold Phdr.segStart pageSize
    refine ⟨Nat.div_mul_le_self _ _, by omega, _, Nat.mul_comm _ _⟩
  obtain ⟨hle, hlt, l, hl⟩ := hstart
  unfold pageBytes Phdr.byteAt pageSize at *
  by_cases hin : ph.HasFileByte (4096 * m + k)
  · rw [if_pos hin]
    unfold Phdr.HasFileByte at hin
    split_ifs with hfirst
    · rw [blit_of_mem (by omega)]
      unfold shift
      congr 1
      omega
    · rw [blit_of_mem (by omega)]
      unfold shift
      congr 1
      omega
  · rw [if_neg hin]
    unfold Phdr.HasFileByte at hin
    split_ifs with hfirst
    · rw [blit_of_not_mem (by omega)]
      rfl
    · rw [blit_of_not_mem (by omega)]
      rfl

/-- Every page that the loop reaches has the bytes of the segment. -/
lemma loadedImage_of_mem (ph : Phdr) (n : ℕ) {va : ℕ} (hva : ph.segStart ≤ va)
    (hdvd : pageSize ∣ va) {j : ℕ} (hj : j < n) :
    ∃ f, loadedImage file ph.segStart (ph.pVaddr - ph.segStart) n va (ph.pFilesz - (va - ph.pVaddr))
        (ph.pOffset + min ph.pFilesz (va - ph.pVaddr)) image (va + j * pageSize) = some f ∧
      ∀ k < 4096, f k = ph.byteAt file (va + j * pageSize + k) := by
  induction n generalizing va j image with
  | zero => exact absurd hj (Nat.not_lt_zero _)
  | succ n ih =>
    unfold loadedImage
    dsimp only
    cases j with
    | zero =>
      rw [Nat.zero_mul, Nat.add_zero, loadedImage_of_ne, Function.update_self]
      · exact ⟨_, rfl, fun k hk => pageBytes_eq ph hva hdvd hk⟩
      · intro j _
        unfold pageSize
        omega
    | succ j =>
      have hnext : ph.segStart ≤ va + pageSize := hva.trans (Nat.le_add_right _ _)
      have hih := @ih (Function.update image va (some (pageBytes file ph.segStart
        (ph.pVaddr - ph.segStart) va (ph.pFilesz - (va - ph.pVaddr))
        (ph.pOffset + min ph.pFilesz (va - ph.pVaddr))))) (va + pageSize) hnext
        (Dvd.dvd.add hdvd dvd_rfl) j (Nat.lt_of_succ_lt_succ hj)
      have hread : min (ph.pFilesz - (va - ph.pVaddr))
          (pageSize - if va = ph.segStart then ph.pVaddr - ph.segStart else 0) =
          min ph.pFilesz (va + pageSize - ph.pVaddr) - min ph.pFilesz (va - ph.pVaddr) := by
        obtain ⟨m, rfl⟩ := hdvd
        have hle : ph.segStart ≤ ph.pVaddr := Nat.div_mul_le_self _ _
        have hlt : ph.pVaddr < ph.segStart + 4096 := by
          unfold Phdr.segStart pageSize
          omega
        obtain ⟨l, hl⟩ : ∃ l, ph.segStart = 4096 * l := ⟨_, Nat.mul_comm _ _⟩
        unfold pageSize at *
        split_ifs with hfirst <;> omega
      rw [hread]
      have hrem : ph.pFilesz - (va - ph.pVaddr) -
          (min ph.pFilesz (va + pageSize - ph.pVaddr) - min ph.pFilesz (va - ph.pVaddr)) =
          ph.pFilesz - (va + pageSize - ph.pVaddr) := by
        unfold pageSize
        omega
      have hpos : ph.pOffset + min ph.pFilesz (va - ph.pVaddr) +
          (min ph.pFilesz (va + pageSize - ph.pVaddr) - min ph.pFilesz (va - ph.pVaddr)) =
          ph.pOffset + min ph.pFilesz (va + pageSize - ph.pVaddr) := by
        unfold pageSize
        omega
      have haddr : va + (j + 1) * pageSize = va + pageSize + j * pageSize := by
        rw [Nat.succ_mul]
        omega
      rw [hrem, hpos, haddr]
      exact hih

/-- Without a wrap-around the end of a segment is the end of its last page. -/
lemma segEnd_eq (hwrap : ph.NoWrap) :
    ph.segEnd = (ph.pVaddr + ph.pMemsz + 4095) / 4096 * 4096 := by
  unfold Phdr.NoWrap at hwrap
  unfold Phdr.segEnd
  rw [Nat.mod_eq_of_lt hwrap]
  rfl

/-- The pages of a segment are replaced. -/
lemma segImage_of_covers {q : ℕ} (hq : 4096 ∣ q) (hcov : ph.Covers q) :
    ∃ f, segImage file image ph q = some f ∧ ∀ k < 4096, f k = ph.byteAt file (q + k) := by
  obtain ⟨m, rfl⟩ := hq
  obtain ⟨hle, hlt⟩ := hcov
  obtain ⟨l, hl⟩ : ∃ l, ph.segStart = 4096 * l := ⟨_, Nat.mul_comm _ _⟩
  obtain ⟨e, he⟩ : ∃ e, ph.segEnd = 4096 * e := ⟨_, Nat.mul_comm _ _⟩
  have hpage : 4096 * m = ph.segStart + (m - l) * pageSize := by
    unfold pageSize
    omega
  have hmem := @loadedImage_of_mem image file ph ((ph.segEnd - ph.segStart) / pageSize) ph.segStart
    le_rfl ⟨l, hl⟩ (m - l) (by unfold pageSize; omega)
  have hzero : ph.segStart - ph.pVaddr = 0 := Nat.sub_eq_zero_of_le (Nat.div_mul_le_self _ _)
  rw [← hpage, hzero, Nat.sub_zero, Nat.min_zero, Nat.add_zero] at hmem
  exact hmem

/-- The other pages are left alone. -/
lemma segImage_of_not_covers {q : ℕ} (hcov : ¬ ph.Covers q) :
    segImage file image ph q = image q := by
  obtain ⟨l, hl⟩ : ∃ l, ph.segStart = 4096 * l := ⟨_, Nat.mul_comm _ _⟩
  obtain ⟨e, he⟩ : ∃ e, ph.segEnd = 4096 * e := ⟨_, Nat.mul_comm _ _⟩
  refine loadedImage_of_ne _ fun j hj heq => hcov ?_
  unfold pageSize at hj heq
  unfold Phdr.Covers
  omega

/-- The page of an address is on the same side of the ends of a segment. -/
lemma covers_page (ph : Phdr) (a : ℕ) : ph.Covers (a / 4096 * 4096) ↔ ph.Covers a := by
  obtain ⟨l, hl⟩ : ∃ l, ph.segStart = 4096 * l := ⟨_, Nat.mul_comm _ _⟩
  obtain ⟨e, he⟩ : ∃ e, ph.segEnd = 4096 * e := ⟨_, Nat.mul_comm _ _⟩
  unfold Phdr.Covers
  omega

/-- A page keeps what the last segment that covers it has there. -/
lemma foldl_segImage_of_last {pre post : List Phdr} {a : ℕ} (hcov : ph.Covers a)
    (hpost : ∀ ph' ∈ post, ¬ ph'.Covers a) :
    ∃ f, (pre ++ ph :: post).foldl (segImage file) image (a / 4096 * 4096) = some f ∧
      f (a % 4096) = ph.byteAt file a := by
  rw [List.foldl_append, List.foldl_cons]
  have hkeep : ∀ image', post.foldl (segImage file) image' (a / 4096 * 4096) =
      image' (a / 4096 * 4096) := by
    induction post with
    | nil => exact fun _ => rfl
    | cons ph' post ih =>
      intro image'
      have hnot : ¬ ph'.Covers (a / 4096 * 4096) := fun hc =>
        hpost ph' List.mem_cons_self ((covers_page ph' a).mp hc)
      rw [List.foldl_cons, ih fun ph'' hmem => hpost ph'' (List.mem_cons_of_mem _ hmem),
        segImage_of_not_covers hnot]
  obtain ⟨f, hf, hbytes⟩ := @segImage_of_covers (pre.foldl (segImage file) image) file ph
    (a / 4096 * 4096) (Dvd.intro_left _ rfl) ((covers_page ph a).mpr hcov)
  refine ⟨f, (hkeep _).trans hf, ?_⟩
  rw [hbytes _ (Nat.mod_lt _ (by decide)), Nat.div_add_mod']

/-- Among the segments that cover an address there is a last one. -/
lemma exists_last_covers {segs : List Phdr} {a : ℕ} (h : ∃ ph ∈ segs, ph.Covers a) :
    ∃ pre ph post, segs = pre ++ ph :: post ∧ ph.Covers a ∧ ∀ ph' ∈ post, ¬ ph'.Covers a := by
  induction segs with
  | nil =>
    obtain ⟨ph, hmem, -⟩ := h
    cases hmem
  | cons ph segs ih =>
    by_cases hrest : ∃ ph' ∈ segs, ph'.Covers a
    · obtain ⟨pre, ph', post, rfl, hlast⟩ := ih hrest
      exact ⟨ph :: pre, ph', post, rfl, hlast⟩
    · obtain ⟨ph', hmem, hcov⟩ := h
      rcases List.mem_cons.mp hmem with rfl | hmem
      · exact ⟨[], ph', segs, rfl, hcov, fun ph'' hmem'' hcov'' => hrest ⟨ph'', hmem'', hcov''⟩⟩
      · exact absurd ⟨ph', hmem, hcov⟩ hrest

/-! ## The stack and the arguments -/

/-- The pages of the stack and of the arguments. -/
def OnStack (q : ℕ) : Prop := argvVa ≤ q ∧ q < stackTop

lemma onStack_stack {k : ℕ} (hk : k < stackPages) : OnStack (stackTop - (k + 1) * pageSize) := by
  have hle : (k + 1) * pageSize ≤ (stackPages + 1) * pageSize :=
    Nat.mul_le_mul_right _ (Nat.succ_le_succ hk.le)
  have hpos : 0 < (k + 1) * pageSize := Nat.mul_pos (Nat.succ_pos k) (by decide)
  exact ⟨Nat.sub_le_sub_left hle _, Nat.sub_lt (by decide) hpos⟩

lemma onStack_argv : OnStack argvVa := by
  unfold OnStack
  decide

/-- The pages of the stack are mapped over what was there. -/
lemma mapStack_spec (ks : List ℕ) (hks : ∀ k ∈ ks, k < stackPages) (h : Holds v i root image) :
    Good (mapStack K i ks v).2 ∧ ((mapStack K i ks v).1 = true →
      ∃ image', Holds (mapStack K i ks v).2 i root image' ∧
        ∀ q, ¬ OnStack q → image' q = image q) := by
  induction ks generalizing v image with
  | nil => exact ⟨h.good, fun _ => ⟨image, h, fun _ _ => rfl⟩⟩
  | cons k ks ih =>
    unfold mapStack
    have hlt := alloc_lt K v i
    have hgood := @good_alloc K v h.good i
    rcases halloc : vmmAllocPage K v i with ⟨pa, v₁⟩
    rw [halloc] at hlt hgood
    dsimp only
    by_cases hpa : pa = 0
    · rw [if_pos hpa]
      exact ⟨hgood, by simp⟩
    rw [if_neg hpa]
    have hgood₂ := @good_map K v₁ hgood i (stackTop - (k + 1) * pageSize) pa hlt pageRwU
    rcases hmap : vmmMapPage K v₁ i (stackTop - (k + 1) * pageSize) pa pageRwU with ⟨_ | _, v₂⟩
    · rw [hmap] at hgood₂
      exact ⟨hgood₂, by simp⟩
    dsimp only
    obtain ⟨-, -, hnew⟩ := h.newPage halloc hpa hmap
    have hholds := hnew v₂.mem fun q _ _ => .refl _ _
    obtain ⟨hgood₃, hrest⟩ := ih (fun k' hk' => hks k' (List.mem_cons_of_mem _ hk')) hholds
    refine ⟨hgood₃, fun htrue => ?_⟩
    obtain ⟨image', hholds', hsame⟩ := hrest htrue
    refine ⟨image', hholds', fun q hq => (hsame q hq).trans (Function.update_of_ne ?_ _ _)⟩
    rintro rfl
    exact hq (onStack_stack (hks k List.mem_cons_self))

/-- Copying the arguments touches no other page. -/
lemma samePage_copyArgs {pa q : ℕ} (hpa : 4096 ∣ pa) (hq : 4096 ∣ q) (hne : q ≠ pa)
    (args : List (List UInt8)) {copied strOff : ℕ} {mem : Bytes}
    (hcopied : copied + args.length ≤ maxArgs) :
    SamePage mem (copyArgs pa args copied strOff mem).2 q ∧
      (copyArgs pa args copied strOff mem).1 ≤ maxArgs := by
  induction args generalizing copied strOff mem with
  | nil => exact ⟨.refl _ _, hcopied⟩
  | cons arg args ih =>
    rw [List.length_cons] at hcopied
    unfold copyArgs
    by_cases hfull : pageSize - procArgsSize < strOff + arg.length + 1
    · rw [if_pos hfull]
      exact ⟨.refl _ _, (Nat.le_add_right _ _).trans hcopied⟩
    rw [if_neg hfull]
    dsimp only
    obtain ⟨hrest, hle⟩ := @ih (copied + 1) (strOff + arg.length + 1)
      (putWord (blit mem (pa + procArgsSize + strOff) (ofList arg) (arg.length + 1)) pa (1 + copied)
        (argvVa + procArgsSize + strOff)) (by omega)
    refine ⟨?_, hle⟩
    have htext : SamePage mem (blit mem (pa + procArgsSize + strOff) (ofList arg)
        (arg.length + 1)) q := by
      rw [Nat.add_assoc]
      refine samePage_blit mem _ hpa hq hne ?_
      unfold pageSize procArgsSize maxArgs at hfull
      unfold procArgsSize maxArgs
      omega
    refine (htext.trans ?_).trans hrest
    refine samePage_putWord _ _ hpa hq hne ?_
    unfold maxArgs at hcopied
    omega

lemma samePage_fillArgv {pa q : ℕ} (hpa : 4096 ∣ pa) (hq : 4096 ∣ q) (hne : q ≠ pa)
    (args : List (List UInt8)) (mem : Bytes) : SamePage mem (fillArgv pa args mem) q := by
  unfold fillArgv
  obtain ⟨hcopy, hle⟩ := @samePage_copyArgs pa q hpa hq hne (args.take maxArgs) 0 0 mem
    (by rw [List.length_take]; omega)
  rcases hres : copyArgs pa (args.take maxArgs) 0 0 mem with ⟨copied, mem₁⟩
  rw [hres] at hcopy hle
  dsimp only
  have hcount := samePage_putWord mem₁ copied hpa hq hne (show 0 < 512 by decide)
  have hclear : ∀ (ks : List ℕ), (∀ k ∈ ks, k < maxArgs) → ∀ b,
      SamePage b (ks.foldl (fun mem k => putWord mem pa (1 + k) 0) b) q := by
    intro ks
    induction ks with
    | nil => exact fun _ b => .refl b q
    | cons k ks ih =>
      intro hks b
      have hk : 1 + k < 512 := by
        have hlt := hks k List.mem_cons_self
        unfold maxArgs at hlt
        omega
      exact (samePage_putWord b 0 hpa hq hne hk).trans
        (ih (fun k' hk' => hks k' (List.mem_cons_of_mem _ hk')) _)
  refine (hcopy.trans hcount).trans (hclear _ (fun k hk => ?_) _)
  obtain ⟨l, hl, rfl⟩ := List.mem_range'.mp hk
  dsimp only at hle
  omega

/-- The part of `elf_exec` that fills the new address space. -/
lemma buildImage_spec (args : List (List UInt8)) (h : Holds v i root image) :
    Good (buildImage K file args i v).2 ∧ ((buildImage K file args i v).1 ≠ none →
      (∀ ph ∈ file.segments, ph.Passes) ∧
      ∃ image', Holds (buildImage K file args i v).2 i root image' ∧
        (∀ q, ¬ OnStack q → image' q = file.segments.foldl (segImage file) image q) ∧
        ∃ pa mem, image' argvVa = some fun k => fillArgv pa args mem (pa + k)) := by
  unfold buildImage
  have hsegs := @loadSegments_spec K v i root image file file.phdrs userBase h
  rcases hres : loadSegments K file i file.phdrs userBase v with ⟨_ | maxSegEnd, v₁⟩
  · rw [hres] at hsegs
    exact ⟨hsegs.1, by simp⟩
  rw [hres] at hsegs
  obtain ⟨hgood₁, hrest⟩ := hsegs
  obtain ⟨hholds₁, hpass⟩ := hrest (by simp)
  dsimp only
  by_cases hentry : file.ehdr.eEntry < userBase ∨ userBase + userSize ≤ file.ehdr.eEntry
  · rw [if_pos hentry]
    exact ⟨hgood₁, by simp⟩
  rw [if_neg hentry]
  have hstack := @mapStack_spec K v₁ i root _ (List.range stackPages)
    (fun k hk => List.mem_range.mp hk)
    hholds₁
  rcases hres₂ : mapStack K i (List.range stackPages) v₁ with ⟨_ | _, v₂⟩
  · rw [hres₂] at hstack
    exact ⟨hstack.1, by simp⟩
  rw [hres₂] at hstack
  obtain ⟨hgood₂, hrest₂⟩ := hstack
  obtain ⟨image₂, hholds₂, hsame₂⟩ := hrest₂ rfl
  dsimp only
  have hlt := alloc_lt K v₂ i
  have hgood₃ := @good_alloc K v₂ hgood₂ i
  rcases halloc : vmmAllocPage K v₂ i with ⟨pa, v₃⟩
  rw [halloc] at hlt hgood₃
  dsimp only
  by_cases hpa : pa = 0
  · rw [if_pos hpa]
    exact ⟨hgood₃, by simp⟩
  rw [if_neg hpa]
  have hgood₄ := @good_map K v₃ hgood₃ i argvVa pa hlt pageRwU
  rcases hmap : vmmMapPage K v₃ i argvVa pa pageRwU with ⟨_ | _, v₄⟩
  · rw [hmap] at hgood₄
    exact ⟨hgood₄, by simp⟩
  obtain ⟨hdvd, -, hnew⟩ := hholds₂.newPage halloc hpa hmap
  have hholds := hnew (fillArgv pa args v₄.mem) fun q hq hne =>
    samePage_fillArgv hdvd hq hne args v₄.mem
  refine ⟨hholds.good, fun _ => ⟨hpass, _, hholds, fun q hq => ?_, pa, v₄.mem,
    Function.update_self _ _ _⟩⟩
  refine (Function.update_of_ne ?_ _ _).trans (hsame₂ q hq)
  rintro rfl
  exact hq onStack_argv

/-! ## Programs -/

/-- A new address space has no pages for the process. -/
lemma create_holds (h : Good v) {v' : Vmm} (hres : vmmCreateAddressSpace K v = (some i, v')) :
    ∃ root, Holds v' i root fun _ => none := by
  obtain ⟨M, h⟩ := h
  have hstep := h.step K .createAddressSpace
  simp only [exec, hres] at hstep
  obtain ⟨as, hs⟩ := create_exists K (congrArg Prod.fst hres)
  rw [hres] at hs
  obtain ⟨L, hT⟩ := hstep.ok.tables i as hs (hstep.complete i as hs)
  exact ⟨as.pml4Phys, _, as, L, rfl, hstep, hs, hT, by simp⟩

/-- The new task has the address space it was submitted with. -/
lemma submitUserAs_cr3 {img : Cpu.Image} {s s' : Cpu.Scheduler} {entry arg cr3 top stack slot : ℕ}
    (h : s.schedSubmitUserAs img entry arg cr3 top stack = (some slot, s')) :
    (s'.taskPool slot).cr3 = cr3 := by
  unfold Cpu.Scheduler.schedSubmitUserAs at h
  split_ifs at h
  · cases h
  · unfold Cpu.Scheduler.submitTask at h
    rcases hslot : s.findFreeSlot with ⟨_ | j, s₁⟩
    · rw [hslot] at h
      cases h
    · rw [hslot] at h
      dsimp only at h
      split_ifs at h
      · cases h
      · obtain ⟨hj, rfl⟩ := Prod.mk.inj h
        obtain rfl := Option.some.inj hj
        simp only [Cpu.Scheduler.rqPush, Function.update_self]
        rfl

variable {img : Cpu.Image} {found : Option File} {args : List (List UInt8)} {stack slot : ℕ}
  {s : Cpu.Scheduler}

/-- `elf_exec`. -/
lemma elfExec_spec (h : Good v) :
    Good (elfExec K img found args stack v s).2.1 ∧
    ((elfExec K img found args stack v s).1 = some (slot, i) →
      ∃ file, found = some file ∧ (∀ ph ∈ file.segments, ph.Passes) ∧
      ∃ image, Holds (elfExec K img found args stack v s).2.1 i
          ((elfExec K img found args stack v s).2.2.taskPool slot).cr3 image ∧
        (∀ q, ¬ OnStack q → image q = file.segments.foldl (segImage file) (fun _ => none) q) ∧
        ∃ pa mem, image argvVa = some fun k => fillArgv pa args mem (pa + k)) := by
  unfold elfExec
  cases found with
  | none => exact ⟨h, by simp⟩
  | some file =>
    dsimp only
    split_ifs with hehdr hphdr
    · exact ⟨h, by simp⟩
    · exact ⟨h, by simp⟩
    have hcreate : Good (vmmCreateAddressSpace K v).2 := by
      obtain ⟨M, h⟩ := h
      exact ⟨_, h.step K .createAddressSpace⟩
    rcases hres : vmmCreateAddressSpace K v with ⟨_ | j, v₁⟩
    · rw [hres] at hcreate
      exact ⟨hcreate, by simp⟩
    obtain ⟨root, hholds⟩ := create_holds h hres
    have hbuild := @buildImage_spec K v₁ j root _ file args hholds
    dsimp only
    rcases hres₂ : buildImage K file args j v₁ with ⟨_ | maxSegEnd, v₂⟩
    · rw [hres₂] at hbuild
      exact ⟨good_destroy hbuild.1 j, by simp⟩
    rw [hres₂] at hbuild
    obtain ⟨hgood₂, hrest⟩ := hbuild
    obtain ⟨hpass, image, hholds₂, hsame⟩ := hrest (by simp)
    dsimp only
    have hcr3 : ((v₂.spaces j).map AddrSpace.pml4Phys).getD 0 = root := by
      obtain ⟨M, as, L, hroot, hat⟩ := hholds₂
      rw [hat.space]
      exact hroot
    rw [hcr3]
    rcases hres₃ : s.schedSubmitUserAs img file.ehdr.eEntry argvVa root stackTop stack with
      ⟨_ | slot', s'⟩
    · exact ⟨good_destroy hgood₂ j, by simp⟩
    · refine ⟨hgood₂, fun heq => ⟨file, rfl, hpass, image, ?_, hsame⟩⟩
      simp only [Option.some.injEq, Prod.mk.injEq] at heq
      obtain ⟨rfl, rfl⟩ := heq
      have hcr3' : ((s'.setTask (some slot') (setHeap (asPtr j) maxSegEnd
          (s'.taskPool slot'))).taskPool slot').cr3 = root := by
        simp only [Cpu.Scheduler.setTask, Function.update_self]
        exact submitUserAs_cr3 hres₃
      rw [hcr3']
      exact hholds₂

/-- The states of the memory manager that its own functions and `elf_exec` can reach. -/
inductive Reached (K : Kmalloc) : Vmm → Prop
  | boot (mem : Bytes) (live : Finset ℕ) : Reached K (Vmm.boot mem live).vmm
  | call {v : Vmm} (op : Op) : Reached K v → Reached K (Vmm.exec K ⟨v, fun _ _ => none⟩ op).vmm
  | destroy {v : Vmm} (i : ℕ) : Reached K v → Reached K (vmmDestroyAddressSpace v i)
  | elfExec {v : Vmm} (img : Cpu.Image) (found : Option File) (args : List (List UInt8)) (stack : ℕ)
      (s : Cpu.Scheduler) : Reached K v → Reached K (elfExec K img found args stack v s).2.1

lemma Reached.good (h : Reached K v) : Good v := by
  induction h with
  | boot mem live => exact ⟨_, boot_steady mem live⟩
  | call op _ ih =>
    obtain ⟨M, hM⟩ := ih
    have hstep := hM.step K op
    cases op with
    | createAddressSpace => exact ⟨_, hstep⟩
    | allocPage j => exact ⟨_, hstep⟩
    | mapPage j va pa flags => exact ⟨_, hstep⟩
  | destroy j _ ih => exact good_destroy ih j
  | elfExec img found args stack s _ ih =>
    exact (@elfExec_spec K _ 0 img found args stack 0 s ih).1

/-- The byte that a process finds at an address. -/
def byteOf (mem : Bytes) (cr3 a : ℕ) : Option UInt8 :=
  (Vmm.walk mem cr3 a).map fun x => mem (x.1 + a % 4096)

/-- The segments of a file are in the memory of the process. -/
structure Faithful (mem : Bytes) (cr3 : ℕ) (file : File) : Prop where
  fileBytes : ∀ ph ∈ file.segments, ∀ k < ph.pFilesz,
    byteOf mem cr3 (ph.pVaddr + k) = some (file.bytes (ph.pOffset + k))
  zeroBytes : ∀ ph ∈ file.segments, ∀ k, ph.pFilesz ≤ k → k < ph.pMemsz →
    (∀ ph' ∈ file.segments, ¬ ph'.HasFileByte (ph.pVaddr + k)) →
    byteOf mem cr3 (ph.pVaddr + k) = some 0
  window : ∀ ph ∈ file.segments, ∀ k < ph.pMemsz,
    userBase ≤ ph.pVaddr + k ∧ ph.pVaddr + k < userBase + userSize
  mapped : ∀ ph ∈ file.segments, ∀ k < ph.pMemsz, UserMapped mem cr3 (ph.pVaddr + k)
  apart : ∀ ph ∈ file.segments, ∀ k < ph.pMemsz, ¬ OnStack ((ph.pVaddr + k) / 4096 * 4096)

/-- The segments of a file can be loaded one after the other: no end wraps around, none reaches the
stack or the arguments, and where a later segment maps a page again, the last one that does has the
same bytes there. -/
structure Loadable (file : File) : Prop where
  noWrap : ∀ ph ∈ file.segments, ph.NoWrap
  apart : ∀ ph ∈ file.segments, ph.segEnd ≤ argvVa ∨ stackTop ≤ ph.segStart
  agree : ∀ pre ph mid ph' post, file.segments = pre ++ ph :: (mid ++ ph' :: post) →
    ∀ k < ph.pFilesz, ph'.Covers (ph.pVaddr + k) →
    (∀ ph'' ∈ post, ¬ ph''.Covers (ph.pVaddr + k)) →
    ph'.byteAt file (ph.pVaddr + k) = file.bytes (ph.pOffset + k)

/-- The bytes of a segment are on its pages. -/
lemma covers_of_lt (hwrap : ph.NoWrap) {k : ℕ} (hk : k < ph.pMemsz) :
    ph.Covers (ph.pVaddr + k) := by
  have hend := segEnd_eq hwrap
  have hstart : ph.segStart ≤ ph.pVaddr := Nat.div_mul_le_self _ _
  unfold Phdr.Covers
  omega

/-- A segment that ends inside of the window does not wrap around. -/
lemma noWrap_of_window (hpos : ph.pMemsz ≠ 0)
    (hwin : ∀ k < ph.pMemsz, ph.pVaddr + k < userBase + userSize) : ph.NoWrap := by
  have hlast := hwin (ph.pMemsz - 1) (by omega)
  unfold userBase userSize at hlast
  unfold Phdr.NoWrap pageSize
  omega

/-- The pages of a segment are off the stack when its bytes are. -/
lemma apart_of_bytes (hwrap : ph.NoWrap) (hpos : ph.pMemsz ≠ 0)
    (h : ∀ k < ph.pMemsz, ¬ OnStack ((ph.pVaddr + k) / 4096 * 4096)) :
    ph.segEnd ≤ argvVa ∨ stackTop ≤ ph.segStart := by
  have hend := segEnd_eq hwrap
  have hstart : ph.segStart = ph.pVaddr / 4096 * 4096 := rfl
  obtain ⟨n, hargv⟩ : ∃ n, argvVa = 4096 * n := ⟨argvVa / 4096, by decide⟩
  have hbelow : argvVa < stackTop := by decide
  unfold OnStack at h
  by_contra hcon
  rw [not_or, Nat.not_le, Nat.not_le] at hcon
  -- the first byte at or above the arguments is on the stack
  by_cases hle : argvVa ≤ ph.pVaddr
  · exact h 0 (Nat.pos_of_ne_zero hpos) (by omega)
  · exact h (argvVa - ph.pVaddr) (by omega) (by omega)

/-- The bytes of a segment are off the stack when its pages are. -/
lemma not_onStack_of_apart {a : ℕ} (hcov : ph.Covers a)
    (h : ph.segEnd ≤ argvVa ∨ stackTop ≤ ph.segStart) : ¬ OnStack (a / 4096 * 4096) := by
  have hcov' := (covers_page ph a).mpr hcov
  unfold Phdr.Covers at hcov'
  unfold OnStack
  omega

/-- An address off the stack has what the last segment that covers it has there. -/
lemma byteOf_last {mem : Bytes} {cr3 : ℕ} (h : Holds v i root image) (hmem : v.mem = mem)
    (hroot : root = cr3)
    (himage : ∀ q, ¬ OnStack q → image q = file.segments.foldl (segImage file) (fun _ => none) q)
    {pre post : List Phdr} (hsegs : file.segments = pre ++ ph :: post) {a : ℕ} (hcov : ph.Covers a)
    (hpost : ∀ ph' ∈ post, ¬ ph'.Covers a) (hbase : userBase ≤ a) (htop : a < userBase + userSize)
    (hoff : ¬ OnStack (a / 4096 * 4096)) :
    byteOf mem cr3 a = some (ph.byteAt file a) ∧ UserMapped mem cr3 a := by
  subst hmem hroot
  obtain ⟨f, hf, hbyte⟩ := @foldl_segImage_of_last (fun _ => none) file ph pre post a hcov hpost
  rw [← hsegs, ← himage _ hoff] at hf
  obtain ⟨frame, hwalk, hmem⟩ := h.walk hf hbase htop
  refine ⟨?_, frame, _, hwalk, by decide⟩
  unfold byteOf
  rw [hwalk, Option.map_some, hmem, hbyte]

/-- The memory of an accepted file, in terms of its segments. -/
lemma faithful_iff {mem : Bytes} {cr3 : ℕ} (hpass : ∀ ph ∈ file.segments, ph.Passes)
    (hlast : ∀ pre ph post, file.segments = pre ++ ph :: post → ∀ a, ph.Covers a →
      (∀ ph' ∈ post, ¬ ph'.Covers a) → userBase ≤ a → a < userBase + userSize →
      ¬ OnStack (a / 4096 * 4096) →
      byteOf mem cr3 a = some (ph.byteAt file a) ∧ UserMapped mem cr3 a) :
    Faithful mem cr3 file ↔ Loadable file := by
  have hpos : ∀ ph ∈ file.segments, ph.pMemsz ≠ 0 := fun ph hmem =>
    (of_decide_eq_true (List.mem_filter.mp hmem).2 : ph.Loaded).2
  constructor
  · intro h
    have hwrap : ∀ ph ∈ file.segments, ph.NoWrap := fun ph hmem =>
      noWrap_of_window (hpos ph hmem) fun k hk => (h.window ph hmem k hk).2
    refine ⟨hwrap, fun ph hmem => apart_of_bytes (hwrap ph hmem) (hpos ph hmem)
      (h.apart ph hmem), ?_⟩
    intro pre ph mid ph' post hsegs k hk hcov hpost
    have hmem : ph ∈ file.segments := by
      rw [hsegs]
      exact List.mem_append_right _ List.mem_cons_self
    have hk' : k < ph.pMemsz := lt_of_lt_of_le hk (hpass ph hmem).2.2
    have hsegs' : file.segments = (pre ++ ph :: mid) ++ ph' :: post := by
      rw [hsegs, List.append_assoc, List.cons_append]
    obtain ⟨hbase, htop⟩ := h.window ph hmem k hk'
    have hbyte := (hlast _ ph' post hsegs' _ hcov hpost hbase htop (h.apart ph hmem k hk')).1
    exact Option.some.inj (hbyte.symm.trans (h.fileBytes ph hmem k hk))
  · intro h
    have hwin : ∀ ph ∈ file.segments, ∀ k < ph.pMemsz,
        userBase ≤ ph.pVaddr + k ∧ ph.pVaddr + k < userBase + userSize := by
      intro ph hmem k hk
      have hcov := covers_of_lt (h.noWrap ph hmem) hk
      exact ⟨(hpass ph hmem).1.trans hcov.1, lt_of_lt_of_le hcov.2 (hpass ph hmem).2.1⟩
    have hoff : ∀ ph ∈ file.segments, ∀ k < ph.pMemsz, ¬ OnStack ((ph.pVaddr + k) / 4096 * 4096) :=
      fun ph hmem k hk => not_onStack_of_apart (covers_of_lt (h.noWrap ph hmem) hk)
        (h.apart ph hmem)
    have hfind : ∀ ph ∈ file.segments, ∀ k < ph.pMemsz, ∃ pre ph' post,
        file.segments = pre ++ ph' :: post ∧ ph'.Covers (ph.pVaddr + k) ∧
        (∀ ph'' ∈ post, ¬ ph''.Covers (ph.pVaddr + k)) ∧
        byteOf mem cr3 (ph.pVaddr + k) = some (ph'.byteAt file (ph.pVaddr + k)) ∧
        UserMapped mem cr3 (ph.pVaddr + k) := by
      intro ph hmem k hk
      obtain ⟨pre, ph', post, hsegs, hcov, hpost⟩ :=
        exists_last_covers ⟨ph, hmem, covers_of_lt (h.noWrap ph hmem) hk⟩
      obtain ⟨hbase, htop⟩ := hwin ph hmem k hk
      exact ⟨pre, ph', post, hsegs, hcov, hpost,
        hlast pre ph' post hsegs _ hcov hpost hbase htop (hoff ph hmem k hk)⟩
    refine ⟨?_, ?_, hwin, fun ph hmem k hk => ?_, hoff⟩
    · intro ph hmem k hk
      have hk' : k < ph.pMemsz := lt_of_lt_of_le hk (hpass ph hmem).2.2
      obtain ⟨pre, ph', post, hsegs, hcov, hpost, hbyte, -⟩ := hfind ph hmem k hk'
      rw [hbyte]
      refine congrArg some ?_
      -- the segment itself is before the last one that covers the address, or it is that one
      have hmem' := hmem
      rw [hsegs] at hmem'
      rcases List.mem_append.mp hmem' with hpre | hrest
      · obtain ⟨pre', mid, rfl⟩ := List.append_of_mem hpre
        refine h.agree pre' ph mid ph' post ?_ k hk hcov hpost
        rw [hsegs, List.append_assoc, List.cons_append]
      rcases List.mem_cons.mp hrest with rfl | hlater
      · unfold Phdr.byteAt
        rw [if_pos ⟨Nat.le_add_right _ _, Nat.add_lt_add_left hk _⟩, Nat.add_sub_cancel_left]
      · exact absurd (covers_of_lt (h.noWrap ph hmem) hk') (hpost ph hlater)
    · intro ph hmem k _ hk hnone
      obtain ⟨pre, ph', post, hsegs, -, -, hbyte, -⟩ := hfind ph hmem k hk
      have hmem' : ph' ∈ file.segments := by
        rw [hsegs]
        exact List.mem_append_right _ List.mem_cons_self
      rw [hbyte, Phdr.byteAt, if_neg (hnone ph' hmem')]
    · obtain ⟨pre, ph', post, -, -, -, -, hmapped⟩ := hfind ph hmem k hk
      exact hmapped

/-- **The memory of a process is the image of its file** exactly when the segments of the file can
be loaded one after the other. -/
theorem elfExec_faithful_iff (K : Kmalloc) (img : Cpu.Image) {v : Vmm}
    (hv : Reached K v) (file : File)
    (args : List (List UInt8)) (stack : ℕ) (s : Cpu.Scheduler) {slot i : ℕ}
    (h : (elfExec K img (some file) args stack v s).1 = some (slot, i)) :
    Faithful (elfExec K img (some file) args stack v s).2.1.mem
      ((elfExec K img (some file) args stack v s).2.2.taskPool slot).cr3 file ↔ Loadable file := by
  obtain ⟨file', hfile, hpass, image, hholds, himage, -⟩ := elfExec_spec hv.good |>.2 h
  obtain rfl := Option.some.inj hfile
  refine faithful_iff hpass fun pre ph post hsegs a hcov hpost hbase htop hoff => ?_
  exact byteOf_last hholds rfl rfl himage hsegs hcov hpost hbase htop hoff

/-- An allocator that hands out one page after the other. -/
def bumpKmalloc : Kmalloc where
  page n live := if (n + 3) * 4096 ∈ live ∨ 2 ^ 52 ≤ n + 3 then 0 else (n + 3) * 4096
  room _ := true
  page_dvd n live := by
    split_ifs
    · exact dvd_zero _
    · exact Dvd.intro_left _ rfl
  page_lt n live := by
    split_ifs with hbad
    · exact Nat.two_pow_pos 64
    · omega
  page_fresh n live hne hmem := by
    split_ifs at hne hmem with hbad
    · exact hne rfl
    · exact hbad (.inl hmem)

/-- The bytes of an ELF header with `n` program headers after it. -/
def ehdrBytes (n : UInt8) : List UInt8 :=
  [0x7F, 0x45, 0x4C, 0x46, 2, 1, 1, 0, 0, 0, 0, 0, 0, 0, 0, 0] ++
  [2, 0, 62, 0, 1, 0, 0, 0, 0, 0, 0, 0x40, 0, 0, 0, 0] ++
  [64, 0, 0, 0, 0, 0, 0, 0, 0, 0, 0, 0, 0, 0, 0, 0] ++
  [0, 0, 0, 0, 64, 0, 56, 0, n, 0, 0, 0, 0, 0, 0, 0]

/-- The bytes of the program header of a segment close to the bottom of the window. -/
def phdrBytes (off va filesz memsz : UInt8) : List UInt8 :=
  [1, 0, 0, 0, 7, 0, 0, 0, off, 0, 0, 0, 0, 0, 0, 0, va, 0, 0, 0x40, 0, 0, 0, 0] ++
  [0, 0, 0, 0, 0, 0, 0, 0, filesz, 0, 0, 0, 0, 0, 0, 0, memsz, 0, 0, 0, 0, 0, 0, 0] ++
  [0, 0x10, 0, 0, 0, 0, 0, 0]

/-- A file with one segment. -/
def oneSegment : File := ⟨ofList (ehdrBytes 1 ++ phdrBytes 0 0 4 8), 120⟩

/-- A file whose second segment starts on the page of the first one. -/
def sharedPage : File := ⟨ofList (ehdrBytes 2 ++ phdrBytes 0 0 1 1 ++ phdrBytes 0 1 0 1), 176⟩

/-- `elf_exec` of a file on a machine that has just started. -/
def execAtBoot (file : File) : Option (ℕ × ℕ) × Vmm × Cpu.Scheduler :=
  elfExec bumpKmalloc ⟨1, 2, 3⟩ (some file) [] 4096 (boot zeros ∅).vmm
    (Cpu.Scheduler.schedInit (fun _ => 0) 0).schedRun

theorem elfExec_faithful_oneSegment : Loadable oneSegment ∧
    Faithful (execAtBoot oneSegment).2.1.mem
      ((execAtBoot oneSegment).2.2.taskPool 0).cr3 oneSegment := by
  have hload : Loadable oneSegment := by
    have hsegs : oneSegment.segments = [⟨1, 0, 0x40000000, 4, 8⟩] := by decide +kernel
    refine ⟨?_, ?_, ?_⟩
    · rw [hsegs]
      decide
    · rw [hsegs]
      decide
    · intro pre ph mid ph' post heq
      rw [hsegs] at heq
      have hlen := congrArg List.length heq
      simp only [List.length_append, List.length_cons, List.length_nil] at hlen
      omega
  have haccept : (execAtBoot oneSegment).1 = some (0, 0) := by decide +kernel
  exact ⟨hload, (elfExec_faithful_iff bumpKmalloc ⟨1, 2, 3⟩ (.boot zeros ∅) oneSegment [] 4096
    (Cpu.Scheduler.schedInit (fun _ => 0) 0).schedRun haccept).mpr hload⟩

/-- Two segments on one page: the byte of the first one is gone. -/
theorem not_faithful_sharedPage : (execAtBoot sharedPage).1 = some (0, 0) ∧
    ¬ Faithful (execAtBoot sharedPage).2.1.mem
      ((execAtBoot sharedPage).2.2.taskPool 0).cr3 sharedPage := by
  refine ⟨by decide +kernel, fun h => ?_⟩
  have hsegs : sharedPage.segments = [⟨1, 0, 0x40000000, 1, 1⟩, ⟨1, 0, 0x40000001, 0, 1⟩] := by
    decide +kernel
  have hbyte := h.fileBytes ⟨1, 0, 0x40000000, 1, 1⟩ (by rw [hsegs]; exact List.mem_cons_self) 0
    (by decide)
  exact absurd hbyte (by decide +kernel)

end Elf

end CoolFrost
