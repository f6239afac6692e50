import CoolFrost.Cpu.AddressSpaces

/-!
# Translations

What a walk through the tables of an address space finds is what its map says, and
`vmm_range_mapped` checks it for every page of a range.  Along every run of the memory manager the
map of an address space is what was last mapped in it.
-/

namespace CoolFrost

namespace Vmm

open Bytes

variable {mem : Bytes} {as : AddrSpace} {m : ℕ → Option (ℕ × ℕ)} {L : Role → Option ℕ} {K : Kmalloc}
  {v : Vmm} {M : ℕ → ℕ → Option (ℕ × ℕ)} {i : ℕ}

/-! ## Walks -/

/-- What a map says about a page, as a walk sees it. -/
def seen (x : ℕ × ℕ) : ℕ × ℕ := (pteAddr x.1, leafFlags x.2)

/-- A walk through the tables finds what the map says. -/
lemma Tables.walk_eq (h : Tables mem as m L) (hdvd : ∀ p ∈ as.ownedPages, 4096 ∣ p) {va : ℕ}
    (hbase : userBase ≤ va) (htop : va < userBase + userSize) (hal : va % 4096 = 0) :
    walk mem as.pml4Phys va = (m va).map seen := by
  have hpml4 : va / 2 ^ 39 % 512 = 0 := by
    unfold userBase at htop
    unfold userSize at htop
    omega
  have hn : pdIdx va < 512 := Nat.mod_lt _ (by decide)
  have hj : ptIdx va < 512 := Nat.mod_lt _ (by decide)
  have hva := pageVa_eq hbase htop hal
  obtain ⟨hne, hroot⟩ := h.pdpt
  obtain ⟨d, hd⟩ := Option.ne_none_iff_exists'.mp hne
  have hdd := hdvd d (h.owned _ _ hd)
  unfold walk
  dsimp only
  rw [hpml4, hroot, hd, entryOf, pteAddr_table hdd, pdptIdx_eq hbase htop, h.pd d hd]
  have hpresent := table_present hdd
  cases hpd : L .pd with
  | none =>
    have hnone := h.no_pt _ hn (h.no_pd hpd _) _ hj
    rw [hva] at hnone
    rw [hnone, entryOf, if_pos (.inr (.inl zero_not_present))]
    rfl
  | some e =>
    have hed := hdvd e (h.owned _ _ hpd)
    rw [entryOf, pteAddr_table hed, h.pt e hpd _ hn]
    have hpresent' := table_present hed
    cases hpt : L (.pt (pdIdx va)) with
    | none =>
      have hnone := h.no_pt _ hn hpt _ hj
      rw [hva] at hnone
      rw [hnone, entryOf, if_pos (.inr (.inr (.inl zero_not_present)))]
      rfl
    | some t =>
      have htd := hdvd t (h.owned _ _ hpt)
      rw [entryOf, pteAddr_table htd, h.leaf _ hn t hpt _ hj, hva]
      have hpresent'' := table_present htd
      cases m va with
      | none =>
        rw [leafOf, if_pos (.inr (.inr (.inr zero_not_present)))]
        rfl
      | some x =>
        obtain ⟨pa, flags⟩ := x
        rw [leafOf, if_neg (by simp [hpresent, hpresent', hpresent'', leaf_present]),
          pteAddr_leafEntry, leafEntry_mod]
        rfl

/-- An address is mapped for user code. -/
def UserMapped (mem : Bytes) (pml4Phys va : ℕ) : Prop :=
  ∃ frame flags, walk mem pml4Phys va = some (frame, flags) ∧
    flags &&& (pageP ||| pageU) = pageP ||| pageU

/-- A walk is about the page of an address. -/
lemma walk_page (mem : Bytes) (pml4Phys va : ℕ) :
    walk mem pml4Phys (va / 4096 * 4096) = walk mem pml4Phys va := by
  have h39 : va / 4096 * 4096 / 2 ^ 39 % 512 = va / 2 ^ 39 % 512 := by omega
  have hpdpt : pdptIdx (va / 4096 * 4096) = pdptIdx va := by
    unfold pdptIdx
    omega
  have hpd : pdIdx (va / 4096 * 4096) = pdIdx va := by
    unfold pdIdx
    omega
  have hpt : ptIdx (va / 4096 * 4096) = ptIdx va := by
    unfold ptIdx
    omega
  unfold walk
  rw [h39, hpdpt, hpd, hpt]

lemma and_userFlags (e : ℕ) : e &&& (pageP ||| pageU) = e % 4096 &&& (pageP ||| pageU) := by
  have hlt : e &&& (pageP ||| pageU) < 2 ^ 12 := lt_of_le_of_lt Nat.and_le_right (by decide)
  have hmod := Nat.and_mod_two_pow (a := e) (b := pageP ||| pageU) (n := 12)
  rw [Nat.mod_eq_of_lt hlt] at hmod
  exact hmod

lemma present_of_userFlags {e : ℕ} (h : e &&& (pageP ||| pageU) = pageP ||| pageU) :
    e &&& pageP ≠ 0 := by
  intro hzero
  have hand : e &&& (pageP ||| pageU) &&& pageP = e &&& pageP := by
    rw [Nat.and_assoc]
    rfl
  rw [h, hzero] at hand
  exact absurd hand (by decide)

/-- The three checks that `vmm_range_mapped` makes for a page. -/
lemma userMapped_iff {pml4Phys va : ℕ} (hva : va < 2 ^ 39)
    (hroot : word mem pml4Phys 0 &&& pageP ≠ 0) :
    UserMapped mem pml4Phys va ↔
      word mem (pteAddr (word mem pml4Phys 0)) (pdptIdx va) &&& pageP ≠ 0 ∧
      word mem (pteAddr (word mem (pteAddr (word mem pml4Phys 0)) (pdptIdx va)))
        (pdIdx va) &&& pageP ≠
        0 ∧
      word mem (pteAddr (word mem (pteAddr (word mem (pteAddr (word mem pml4Phys 0)) (pdptIdx va)))
        (pdIdx va))) (ptIdx va) &&& (pageP ||| pageU) = pageP ||| pageU := by
  have h39 : va / 2 ^ 39 % 512 = 0 := by
    rw [Nat.div_eq_of_lt hva]
  unfold UserMapped walk
  dsimp only
  rw [h39]
  constructor
  · rintro ⟨frame, flags, hwalk, hflags⟩
    split_ifs at hwalk with hnone
    rw [not_or, not_or, not_or] at hnone
    obtain ⟨-, rfl⟩ : _ ∧ _ = flags := by simpa using hwalk
    rw [← and_userFlags] at hflags
    exact ⟨hnone.2.1, hnone.2.2.1, hflags⟩
  · rintro ⟨hpdpt, hpd, hpt⟩
    refine ⟨_, _, if_neg ?_, ?_⟩
    · rw [not_or, not_or, not_or]
      exact ⟨hroot, hpdpt, hpd, present_of_userFlags hpt⟩
    · rw [← and_userFlags]
      exact hpt

open Classical in
/-- The loop of `vmm_range_mapped` ends with the answer for all pages. -/
lemma rangeLoop_eq {pml4Phys lastPage : ℕ} (hroot : word mem pml4Phys 0 &&& pageP ≠ 0)
    (hlast : lastPage < 2 ^ 39) (n : ℕ) {page : ℕ} (hal : 4096 ∣ page) (hal' : 4096 ∣ lastPage)
    (hle : page ≤ lastPage) (hn : (lastPage - page) / 4096 < n) :
    rangeLoop mem (pteAddr (word mem pml4Phys 0)) lastPage n page =
      some (decide (∀ q, page ≤ q → q ≤ lastPage → 4096 ∣ q → UserMapped mem pml4Phys q)) := by
  induction n generalizing page with
  | zero => exact absurd hn (Nat.not_lt_zero _)
  | succ n ih =>
    have hiff := userMapped_iff (lt_of_le_of_lt hle hlast) hroot
    unfold rangeLoop
    dsimp only
    by_cases hmapped : UserMapped mem pml4Phys page
    · obtain ⟨h₁, h₂, h₃⟩ := hiff.mp hmapped
      rw [if_neg h₁, if_neg h₂, if_neg (not_not.mpr h₃)]
      by_cases hend : page = lastPage
      · subst hend
        rw [if_pos rfl]
        congr 1
        refine (decide_eq_true fun q hq hq' _ => ?_).symm
        rw [le_antisymm hq' hq]
        exact hmapped
      · have hlt : page < lastPage := lt_of_le_of_ne hle hend
        have hnext : page + 4096 ≤ lastPage := by omega
        rw [if_neg hend, Nat.mod_eq_of_lt (by omega),
          ih (Dvd.dvd.add hal (by decide)) hnext (by omega)]
        congr 2
        refine propext ⟨fun hall q hq hq' hqal => ?_, fun hall q hq => hall q (by omega)⟩
        by_cases hqp : q = page
        · rw [hqp]
          exact hmapped
        · exact hall q (by omega) hq' hqal
    · have hfalse : ¬ ∀ q, page ≤ q → q ≤ lastPage → 4096 ∣ q → UserMapped mem pml4Phys q :=
        fun hall => hmapped (hall page le_rfl hle hal)
      rw [decide_eq_false hfalse]
      rw [hiff] at hmapped
      split_ifs with h₁ h₂ h₃ h₄
      · rfl
      · rfl
      · rfl
      · exact absurd ⟨h₁, h₂, not_not.mp h₃⟩ hmapped
      · exact absurd ⟨h₁, h₂, not_not.mp h₃⟩ hmapped

/-- A page that a range meets has an address of the range in it. -/
lemma max_page {q va len : ℕ} (hq : 4096 ∣ q) (hle : va / 4096 * 4096 ≤ q)
    (hlast : q ≤ (va + len - 1) / 4096 * 4096) (hlen : 0 < len) :
    max q va < va + len ∧ max q va / 4096 * 4096 = q := by
  obtain ⟨k, rfl⟩ := hq
  rcases le_total (4096 * k) va with h | h
  · rw [max_eq_right h]
    omega
  · rw [max_eq_left h]
    omega

open Classical in
/-- `vmm_range_mapped` says whether every page of a range is in the window and mapped for user
code. -/
lemma vmmRangeMapped_eq (mem : Bytes) (pml4Phys : ℕ) {va len : ℕ} (hwrap : va + len < 2 ^ 64) :
    vmmRangeMapped mem pml4Phys va len =
      some (decide (len = 0 ∨ ∀ a, va ≤ a → a < va + len →
        userBase ≤ a ∧ a < userBase + userSize ∧ UserMapped mem pml4Phys a)) := by
  unfold vmmRangeMapped
  rw [Nat.mod_eq_of_lt hwrap]
  by_cases hlen : len = 0
  · rw [if_pos hlen, decide_eq_true (.inl hlen)]
  rw [if_neg hlen]
  by_cases hwin : va < userBase ∨ userBase + userSize < va + len
  · rw [if_pos hwin, decide_eq_false]
    rintro (hzero | hall)
    · exact hlen hzero
    · rcases hwin with hlow | hhigh
      · exact absurd (hall va le_rfl (by omega)).1 (Nat.not_le_of_lt hlow)
      · exact absurd (hall (va + len - 1) (by omega) (by omega)).2.1 (by omega)
  rw [if_neg hwin, not_or] at *
  obtain ⟨hlow, hhigh⟩ := hwin
  have hlast : (va + len + (2 ^ 64 - 1)) % 2 ^ 64 = va + len - 1 := by omega
  dsimp only
  rw [hlast]
  unfold userBase at hlow hhigh
  unfold userSize at hhigh
  by_cases hroot : word mem pml4Phys 0 &&& pageP = 0
  · rw [if_pos hroot, decide_eq_false]
    rintro (hzero | hall)
    · exact hlen hzero
    · obtain ⟨-, -, frame, flags, hwalk, -⟩ := hall va le_rfl (by omega)
      have h39 : va / 2 ^ 39 % 512 = 0 := by omega
      unfold walk at hwalk
      dsimp only at hwalk
      rw [h39, if_pos (.inl hroot)] at hwalk
      cases hwalk
  · have hfuel : ((va + len - 1) / 4096 * 4096 - va / 4096 * 4096) / 4096 < userSize / 4096 := by
      unfold userSize
      omega
    rw [if_neg hroot, rangeLoop_eq hroot (by omega) _ ⟨va / 4096, Nat.mul_comm _ _⟩
      ⟨(va + len - 1) / 4096, Nat.mul_comm _ _⟩ (by omega) hfuel]
    refine congrArg some (decide_eq_decide.mpr ⟨fun hall => .inr fun a ha ha' => ⟨?_, ?_, ?_⟩, ?_⟩)
    · unfold userBase
      omega
    · unfold userBase userSize
      omega
    · have hpage := hall (a / 4096 * 4096) (by omega) (by omega) ⟨a / 4096, Nat.mul_comm _ _⟩
      unfold UserMapped at hpage ⊢
      rw [walk_page] at hpage
      exact hpage
    · rintro (hzero | hall) q hq hq' hqal
      · exact absurd hzero hlen
      · -- the part of the page inside the range is not empty
        obtain ⟨hlt, hmax⟩ := max_page hqal hq hq' (Nat.pos_of_ne_zero hlen)
        have hpage := (hall (max q va) (le_max_right _ _) hlt).2.2
        unfold UserMapped at hpage ⊢
        rw [← walk_page, hmax] at hpage
        exact hpage

/-! ## Runs -/

/-- Address spaces keep their upper tables. -/
def SameRoots (v v' : Vmm) : Prop :=
  ∀ i, (v'.spaces i).map AddrSpace.pml4Phys = (v.spaces i).map AddrSpace.pml4Phys

lemma sameRoots_alloc (K : Kmalloc) (v : Vmm) (i : ℕ) : SameRoots v (vmmAllocPage K v i).2 := by
  intro j
  rcases vmmAllocPage_cases K v i with ⟨n, heq⟩ | ⟨as, hs, -, heq⟩
  · rw [heq]
  · rw [heq]
    by_cases hj : j = i
    · subst hj
      simp only [Function.update_self, hs, Option.map_some]
    · simp only [Function.update_of_ne hj]

lemma sameRoots_ensure (K : Kmalloc) (v : Vmm) (i tbl idx : ℕ) :
    SameRoots v (ensureTable K v i tbl idx).2 := by
  intro j
  unfold ensureTable
  split_ifs
  · have hroots := sameRoots_alloc K v i j
    rcases hres : vmmAllocPage K v i with ⟨p, v'⟩
    rw [hres] at hroots
    dsimp only
    split_ifs <;> exact hroots
  · rfl

lemma sameRoots_map (K : Kmalloc) (v : Vmm) (i va pa flags : ℕ) :
    SameRoots v (vmmMapPage K v i va pa flags).2 := by
  intro j
  unfold vmmMapPage
  cases hs : v.spaces i with
  | none => rfl
  | some as =>
    dsimp only
    split_ifs
    · rfl
    · rfl
    · have h₁ := sameRoots_ensure K v i (pteAddr (word v.mem as.pml4Phys 0)) (pdptIdx va) j
      rcases hres : ensureTable K v i (pteAddr (word v.mem as.pml4Phys 0)) (pdptIdx va) with
        ⟨_ | _, v₁⟩
      · rw [hres] at h₁
        exact h₁
      · rw [hres] at h₁
        dsimp only
        have h₂ := sameRoots_ensure K v₁ i
          (pteAddr (word v₁.mem (pteAddr (word v.mem as.pml4Phys 0)) (pdptIdx va))) (pdIdx va) j
        rcases hres₂ : ensureTable K v₁ i
          (pteAddr (word v₁.mem (pteAddr (word v.mem as.pml4Phys 0)) (pdptIdx va))) (pdIdx va) with
          ⟨_ | _, v₂⟩
        · rw [hres₂] at h₂
          exact h₂.trans h₁
        · rw [hres₂] at h₂
          exact h₂.trans h₁

/-- A call of the memory manager. -/
inductive Op where
  | createAddressSpace
  | allocPage (i : ℕ)
  | mapPage (i : ℕ) (va pa flags : UInt64)

/-- The memory manager, and what was last mapped at each address of each address space. -/
structure Traced where
  vmm : Vmm
  maps : ℕ → ℕ → Option (ℕ × ℕ)

/-- The state after a call. -/
def exec (K : Kmalloc) (t : Traced) : Op → Traced
  | .createAddressSpace =>
    ⟨(vmmCreateAddressSpace K t.vmm).2, newMap t.maps (vmmCreateAddressSpace K t.vmm).1⟩
  | .allocPage i => ⟨(vmmAllocPage K t.vmm i).2, t.maps⟩
  | .mapPage i va pa flags =>
    ⟨(vmmMapPage K t.vmm i va.toNat pa.toNat flags.toNat).2,
      remap t.maps i va.toNat pa.toNat flags.toNat
        (vmmMapPage K t.vmm i va.toNat pa.toNat flags.toNat).1⟩

/-- The state after a run. -/
def runOps (K : Kmalloc) (t : Traced) (ops : List Op) : Traced := ops.foldl (exec K) t

/-- The memory manager at boot.  The page of the master table is in use. -/
def boot (mem : Bytes) (live : Finset ℕ) : Traced :=
  ⟨⟨mem, fun _ => none, 0, insert masterPdpt live, 0⟩, fun _ _ => none⟩

/-- What holds between calls: the maps are right, and every address space has its upper tables. -/
structure Steady (t : Traced) : Prop where
  ok : t.vmm.Ok t.maps
  complete : ∀ i as, t.vmm.spaces i = some as → as.pml4Phys ≠ 0

lemma complete_of_sameRoots {v' : Vmm} (hroots : SameRoots v v')
    (h : ∀ i as, v.spaces i = some as → as.pml4Phys ≠ 0) {as : AddrSpace}
    (hs : v'.spaces i = some as) : as.pml4Phys ≠ 0 := by
  have hroot := hroots i
  rw [hs, Option.map_some] at hroot
  obtain ⟨as₀, hs₀, heq⟩ := Option.map_eq_some_iff.mp hroot.symm
  rw [← heq]
  exact h i as₀ hs₀

lemma alloc_spaces_ne (K : Kmalloc) (v : Vmm) {j : ℕ} (hj : j ≠ i) :
    (vmmAllocPage K v i).2.spaces j = v.spaces j := by
  rcases vmmAllocPage_cases K v i with ⟨n, heq⟩ | ⟨as, hs, -, heq⟩
  · rw [heq]
  · rw [heq]
    simp only [Function.update_of_ne hj]

lemma destroy_spaces_ne (v : Vmm) {j : ℕ} (hj : j ≠ i) :
    (vmmDestroyAddressSpace v i).spaces j = v.spaces j := by
  unfold vmmDestroyAddressSpace
  split
  · rfl
  · exact Function.update_of_ne hj _ _

/-- Creating an address space leaves the others alone. -/
lemma create_spaces_ne (K : Kmalloc) (v : Vmm) {j : ℕ} (hj : j ≠ v.spaceCount) :
    (vmmCreateAddressSpace K v).2.spaces j = v.spaces j := by
  have hnew : Function.update v.spaces v.spaceCount (some ⟨0, []⟩) j = v.spaces j :=
    Function.update_of_ne hj _ _
  unfold vmmCreateAddressSpace
  dsimp only
  split_ifs
  · rfl
  · refine (destroy_spaces_ne _ hj).trans ?_
    exact (alloc_spaces_ne K _ hj).trans ((alloc_spaces_ne K _ hj).trans hnew)
  · refine (Function.update_of_ne hj _ _).trans ?_
    exact (alloc_spaces_ne K _ hj).trans ((alloc_spaces_ne K _ hj).trans hnew)

lemma destroy_spaces_self (v : Vmm) (i : ℕ) : (vmmDestroyAddressSpace v i).spaces i = none := by
  unfold vmmDestroyAddressSpace
  split
  · assumption
  · exact Function.update_self _ _ _

lemma create_result (K : Kmalloc) (v : Vmm) :
    (vmmCreateAddressSpace K v).1 = none ∨ (vmmCreateAddressSpace K v).1 = some v.spaceCount := by
  unfold vmmCreateAddressSpace
  dsimp only
  split_ifs
  · exact .inl rfl
  · exact .inl rfl
  · exact .inr rfl

lemma exists_of_sameRoots {v' : Vmm} (h : SameRoots v v') {as : AddrSpace}
    (hs : v.spaces i = some as) : ∃ as', v'.spaces i = some as' := by
  have hroot := h i
  rw [hs, Option.map_some] at hroot
  obtain ⟨as', hs', -⟩ := Option.map_eq_some_iff.mp hroot
  exact ⟨as', hs'⟩

/-- There is a new address space when one is returned. -/
lemma create_exists (K : Kmalloc) (h : (vmmCreateAddressSpace K v).1 = some i) :
    ∃ as', (vmmCreateAddressSpace K v).2.spaces i = some as' := by
  unfold vmmCreateAddressSpace at h ⊢
  dsimp only at h ⊢
  split_ifs at h ⊢
  obtain rfl := Option.some.inj h
  obtain ⟨as₁, h₁⟩ := exists_of_sameRoots (sameRoots_alloc K { v with
      calls := v.calls + 1
      spaceCount := v.spaceCount + 1
      spaces := Function.update v.spaces v.spaceCount (some ⟨0, []⟩) } v.spaceCount)
    (Function.update_self v.spaceCount (some ⟨0, []⟩) v.spaces)
  obtain ⟨as₂, h₂⟩ := exists_of_sameRoots (sameRoots_alloc K _ v.spaceCount) h₁
  refine Option.ne_none_iff_exists'.mp ?_
  unfold setUpTables
  dsimp only
  rw [Function.update_self, h₂]
  exact Option.some_ne_none _

/-- The new address space has its upper tables. -/
lemma create_complete (K : Kmalloc) (h : v.spaces v.spaceCount = none)
    (hs : (vmmCreateAddressSpace K v).2.spaces v.spaceCount = some as) : as.pml4Phys ≠ 0 := by
  unfold vmmCreateAddressSpace at hs
  dsimp only at hs
  split_ifs at hs with hroom hfail
  · rw [h] at hs
    cases hs
  · rw [destroy_spaces_self] at hs
    cases hs
  · rw [setUpTables] at hs
    dsimp only at hs
    rw [Function.update_self] at hs
    obtain ⟨as₀, -, rfl⟩ := Option.map_eq_some_iff.mp hs
    exact fun hzero => hfail (.inl hzero)

lemma Steady.step {t : Traced} (h : Steady t) (K : Kmalloc) (op : Op) : Steady (exec K t op) := by
  cases op with
  | createAddressSpace =>
    refine ⟨h.ok.create K, fun i as hs => ?_⟩
    by_cases hi : i = t.vmm.spaceCount
    · subst hi
      exact create_complete K (h.ok.fresh _ le_rfl) hs
    · exact h.complete i as ((create_spaces_ne K t.vmm hi).symm.trans hs)
  | allocPage i =>
    exact ⟨h.ok.alloc i, fun j as => complete_of_sameRoots (sameRoots_alloc K t.vmm i) h.complete⟩
  | mapPage i va pa flags =>
    exact ⟨h.ok.mapPage K _ _ pa.toNat_lt fun as hs => h.complete i as hs,
      fun j as => complete_of_sameRoots (sameRoots_map K t.vmm i _ _ _) h.complete⟩

lemma boot_steady (mem : Bytes) (live : Finset ℕ) : Steady (boot mem live) := by
  refine ⟨⟨?_, ?_, ?_, ?_, Finset.mem_insert_self _ _, fun _ _ => rfl⟩, ?_⟩
  · rintro i as ⟨⟩
  · rintro i as ⟨⟩
  · rintro i j as as' ⟨⟩
  · rintro i as ⟨⟩
  · rintro i as ⟨⟩

lemma runOps_steady {t : Traced} (h : Steady t) (K : Kmalloc) (ops : List Op) :
    Steady (runOps K t ops) := by
  induction ops generalizing t with
  | nil => exact h
  | cons op ops ih => exact ih (h.step K op)

/-- The address spaces stand for the maps of what was last mapped. -/
structure FiniteMaps (t : Traced) : Prop where
  /-- A walk finds the frame and the flags of the last mapping of the page. -/
  translation : ∀ i as, t.vmm.spaces i = some as → ∀ va, userBase ≤ va → va < userBase + userSize →
    va % 4096 = 0 → walk t.vmm.mem as.pml4Phys va = (t.maps i va).map seen
  /-- The kernel and device slots are the master's. -/
  slots : ∀ i as, t.vmm.spaces i = some as → ∀ k, k = 0 ∨ k = 3 →
    word t.vmm.mem (pteAddr (word t.vmm.mem as.pml4Phys 0)) k = word t.vmm.mem masterPdpt k
  /-- `vmm_range_mapped` checks every page of a range. -/
  range : ∀ i as, t.vmm.spaces i = some as → ∀ va len, va + len < 2 ^ 64 →
    ∃ b, vmmRangeMapped t.vmm.mem as.pml4Phys va len = some b ∧
      (b = true ↔ len = 0 ∨ ∀ a, va ≤ a → a < va + len →
        userBase ≤ a ∧ a < userBase + userSize ∧ UserMapped t.vmm.mem as.pml4Phys a)

/-- The translations of the address space `j` are the same in both states. -/
def SameTranslations (t t' : Traced) (j : ℕ) : Prop :=
  ∀ as, t.vmm.spaces j = some as → ∃ as', t'.vmm.spaces j = some as' ∧
    ∀ va, userBase ≤ va → va < userBase + userSize → va % 4096 = 0 →
      walk t'.vmm.mem as'.pml4Phys va = walk t.vmm.mem as.pml4Phys va

/-- The address space that a call works on. -/
def Op.space : Op → Option ℕ
  | .createAddressSpace => none
  | .allocPage i => some i
  | .mapPage i _ _ _ => some i

lemma Steady.finiteMaps {t : Traced} (h : Steady t) : FiniteMaps t where
  translation i as hs va hbase htop hal := by
    obtain ⟨L, hL⟩ := h.ok.tables i as hs (h.complete i as hs)
    exact hL.walk_eq (fun p hp => (h.ok.pages hs p hp).1) hbase htop hal
  slots i as hs k hk := by
    obtain ⟨L, hL⟩ := h.ok.tables i as hs (h.complete i as hs)
    obtain ⟨hne, hroot⟩ := hL.pdpt
    obtain ⟨d, hd⟩ := Option.ne_none_iff_exists'.mp hne
    rw [hroot, hd, entryOf, pteAddr_table (h.ok.pages hs d (hL.owned _ _ hd)).1]
    rcases hk with rfl | rfl
    · exact (hL.slots d hd).1
    · exact (hL.slots d hd).2
  range i as _ va len hwrap := by
    classical
    exact ⟨_, vmmRangeMapped_eq t.vmm.mem as.pml4Phys hwrap, decide_eq_true_iff⟩

/-- Translations depend on the maps only. -/
lemma sameTranslations_of_maps {t t' : Traced} (h : Steady t) (h' : Steady t') {j : ℕ}
    (hs : ∀ as, t.vmm.spaces j = some as → ∃ as', t'.vmm.spaces j = some as')
    (hmaps : t.vmm.spaces j ≠ none → t'.maps j = t.maps j) : SameTranslations t t' j := by
  intro as has
  obtain ⟨as', has'⟩ := hs as has
  refine ⟨as', has', fun va hbase htop hal => ?_⟩
  rw [h'.finiteMaps.translation j as' has' va hbase htop hal,
    h.finiteMaps.translation j as has va hbase htop hal, hmaps (by rw [has]; simp)]

/-- A call that maps nothing in `j` leaves its translations as they are. -/
lemma Steady.sameTranslations {t : Traced} (h : Steady t) (K : Kmalloc) (op : Op) {j : ℕ}
    (hop : ∀ va pa flags, op = .mapPage j va pa flags →
      (vmmMapPage K t.vmm j va.toNat pa.toNat flags.toNat).1 = false) :
    SameTranslations t (exec K t op) j := by
  refine sameTranslations_of_maps h (h.step K op) ?_ ?_
  · intro as hs
    cases op with
    | createAddressSpace =>
      refine ⟨as, (create_spaces_ne K t.vmm ?_).trans hs⟩
      rintro rfl
      rw [h.ok.fresh _ le_rfl] at hs
      cases hs
    | allocPage i => exact exists_of_sameRoots (sameRoots_alloc K t.vmm i) hs
    | mapPage i va pa flags => exact exists_of_sameRoots (sameRoots_map K t.vmm i _ _ _) hs
  · intro hne
    cases op with
    | createAddressSpace =>
      have hj : j ≠ t.vmm.spaceCount := by
        rintro rfl
        exact hne (h.ok.fresh _ le_rfl)
      simp only [exec]
      rcases create_result K t.vmm with hres | hres
      · rw [hres]
        rfl
      · rw [hres]
        exact Function.update_of_ne hj _ _
    | allocPage i => rfl
    | mapPage i va pa flags =>
      simp only [exec]
      by_cases hij : i = j
      · subst hij
        rw [hop va pa flags rfl]
        rfl
      · cases (vmmMapPage K t.vmm i va.toNat pa.toNat flags.toNat).1
        · rfl
        · exact Function.update_of_ne (Ne.symm hij) _ _

/-- After every run of the memory manager the address spaces are finite maps: translations are what
was last mapped, and a call changes translations only by a successful mapping, in its own address
space. -/
theorem runOps_finiteMaps (K : Kmalloc) (mem : Bytes) (live : Finset ℕ) (ops : List Op) :
    FiniteMaps (runOps K (boot mem live) ops) ∧
    (∀ i va pa flags, (vmmMapPage K (runOps K (boot mem live) ops).vmm i (UInt64.toNat va)
        (UInt64.toNat pa) (UInt64.toNat flags)).1 = false →
      ∀ j, SameTranslations (runOps K (boot mem live) ops)
        (exec K (runOps K (boot mem live) ops) (.mapPage i va pa flags)) j) ∧
    (∀ op j, Op.space op ≠ some j → SameTranslations (runOps K (boot mem live) ops)
      (exec K (runOps K (boot mem live) ops) op) j) := by
  have h := runOps_steady (boot_steady mem live) K ops
  refine ⟨h.finiteMaps, ?_, ?_⟩
  · intro i va pa flags hfail j
    refine h.sameTranslations K _ fun va' pa' flags' heq => ?_
    cases heq
    exact hfail
  · intro op j hop
    refine h.sameTranslations K op fun va pa flags heq => ?_
    subst heq
    exact absurd rfl hop

end Vmm

end CoolFrost
