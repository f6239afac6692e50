import CoolFrost.Cpu.Vmm

/-!
# Address spaces are finite maps

What an address space is for: a finite map from the pages of the user window to frames with flags.
`Tables mem as m L` says that the tables of `as` in memory stand for the map `m`, where `L` names
the page of each table; the tables of one address space are its own, so the operations on the others
leave them alone.
-/

namespace CoolFrost

namespace Vmm

open Bytes

/-! ## Entries -/

lemma or_eq_add {p f : ℕ} (hp : 4096 ∣ p) (hf : f < 4096) : p ||| f = p + f := by
  obtain ⟨k, rfl⟩ := hp
  exact (Nat.two_pow_add_eq_or_of_lt (i := 12) hf k).symm

lemma pteAddr_add {p f : ℕ} (hp : 4096 ∣ p) (hf : f < 4096) : pteAddr (p + f) = p := by
  unfold pteAddr
  omega

lemma pteAddr_dvd (e : ℕ) : 4096 ∣ pteAddr e := ⟨e / 4096, Nat.mul_comm _ _⟩

/-- The entry that points to a table. -/
def entryOf : Option ℕ → ℕ
  | none => 0
  | some p => p ||| pageRwU

/-- The entry of a page table for what is mapped there. -/
def leafOf : Option (ℕ × ℕ) → ℕ
  | none => 0
  | some (pa, flags) => leafEntry pa flags

@[simp] lemma zero_not_present : 0 &&& pageP = 0 := rfl

@[simp] lemma pteAddr_table {p : ℕ} (hp : 4096 ∣ p) : pteAddr (p ||| pageRwU) = p := by
  rw [or_eq_add hp (by decide), pteAddr_add hp (by decide)]

lemma table_present {p : ℕ} (hp : 4096 ∣ p) : (p ||| pageRwU) &&& pageP ≠ 0 := by
  rw [or_eq_add hp (by decide), pageP, pageRwU, Nat.and_one_is_mod]
  omega

lemma table_lt {p : ℕ} (hlt : p < 2 ^ 64) : p ||| pageRwU < 2 ^ 64 :=
  Nat.or_lt_two_pow hlt (by decide)

/-- The flags that end up in a page table. -/
def leafFlags (flags : ℕ) : ℕ := flags % 4096 ||| pageP

lemma leafFlags_lt (flags : ℕ) : leafFlags flags < 4096 :=
  Nat.or_lt_two_pow (n := 12) (Nat.mod_lt _ (by decide)) (by decide)

lemma leafEntry_eq (pa flags : ℕ) : leafEntry pa flags = pteAddr pa + leafFlags flags := by
  rw [leafEntry, Nat.or_assoc]
  exact or_eq_add (pteAddr_dvd pa) (leafFlags_lt flags)

lemma pteAddr_leafEntry (pa flags : ℕ) : pteAddr (leafEntry pa flags) = pteAddr pa := by
  rw [leafEntry_eq, pteAddr_add (pteAddr_dvd pa) (leafFlags_lt flags)]

lemma leafEntry_mod (pa flags : ℕ) : leafEntry pa flags % 4096 = leafFlags flags := by
  rw [leafEntry_eq, Nat.add_mod, Nat.mod_eq_zero_of_dvd (pteAddr_dvd pa), Nat.zero_add, Nat.mod_mod,
    Nat.mod_eq_of_lt (leafFlags_lt flags)]

lemma leaf_present (pa flags : ℕ) : leafEntry pa flags &&& pageP ≠ 0 := by
  rw [leafEntry, Nat.and_or_distrib_right]
  intro h
  exact absurd (Nat.or_eq_zero_iff.mp h).2 (by decide)

lemma leafEntry_lt {pa : ℕ} (flags : ℕ) (hpa : pa < 2 ^ 64) : leafEntry pa flags < 2 ^ 64 := by
  have hlt := leafFlags_lt flags
  rw [leafEntry_eq]
  unfold pteAddr
  omega

/-! ## The tables of an address space -/

/-- The tables of an address space: one of each upper level, and a page table for each 2 MB of the
window. -/
inductive Role where
  | pml4
  | pdpt
  | pd
  | pt (n : ℕ)
  deriving DecidableEq

/-- The address of page `j` of the `n`-th 2 MB of the window. -/
def pageVa (n j : ℕ) : ℕ := userBase + n * 2 ^ 21 + j * 2 ^ 12

/-- The tables of `as`, at the pages that `L` names, stand for the map `m`. -/
structure Tables (mem : Bytes) (as : AddrSpace) (m : ℕ → Option (ℕ × ℕ)) (L : Role → Option ℕ) :
    Prop where
  root : L .pml4 = some as.pml4Phys
  owned : ∀ r p, L r = some p → p ∈ as.ownedPages
  inj : ∀ r r' p, L r = some p → L r' = some p → r = r'
  pdpt : L .pdpt ≠ none ∧ word mem as.pml4Phys 0 = entryOf (L .pdpt)
  slots : ∀ d, L .pdpt = some d →
    word mem d 0 = word mem masterPdpt 0 ∧ word mem d 3 = word mem masterPdpt 3
  upper : ∀ j < 512, j ≠ 0 → word mem as.pml4Phys j = 0
  others : ∀ d, L .pdpt = some d → ∀ j < 512, j ∉ [0, 1, 3] → word mem d j = 0
  pd : ∀ d, L .pdpt = some d → word mem d 1 = entryOf (L .pd)
  pt : ∀ d, L .pd = some d → ∀ n < 512, word mem d n = entryOf (L (.pt n))
  leaf : ∀ n < 512, ∀ t, L (.pt n) = some t → ∀ j < 512, word mem t j = leafOf (m (pageVa n j))
  no_pd : L .pd = none → ∀ n, L (.pt n) = none
  no_pt : ∀ n < 512, L (.pt n) = none → ∀ j < 512, m (pageVa n j) = none

variable {mem mem' : Bytes} {as as' : AddrSpace} {m : ℕ → Option (ℕ × ℕ)} {L : Role → Option ℕ}

/-- Tables depend on the words of their own pages and of the master table only. -/
lemma Tables.congr (h : Tables mem as m L) (hroot : as'.pml4Phys = as.pml4Phys)
    (howned : as.ownedPages ⊆ as'.ownedPages)
    (hmaster : ∀ j < 512, word mem' masterPdpt j = word mem masterPdpt j)
    (hword : ∀ r p, L r = some p → ∀ j < 512, word mem' p j = word mem p j) :
    Tables mem' as' m L where
  root := h.root.trans (by rw [hroot])
  owned r p hp := howned (h.owned r p hp)
  inj := h.inj
  pdpt := by
    refine ⟨h.pdpt.1, ?_⟩
    rw [hroot, hword _ _ h.root 0 (by decide)]
    exact h.pdpt.2
  slots d hd := by
    rw [hword _ d hd 0 (by decide), hword _ d hd 3 (by decide), hmaster 0 (by decide),
      hmaster 3 (by decide)]
    exact h.slots d hd
  upper j hj hne := by
    rw [hroot, hword _ _ h.root j hj]
    exact h.upper j hj hne
  others d hd j hj hnot := by
    rw [hword _ d hd j hj]
    exact h.others d hd j hj hnot
  pd d hd := by
    rw [hword _ d hd 1 (by decide)]
    exact h.pd d hd
  pt d hd n hn := by
    rw [hword _ d hd n hn]
    exact h.pt d hd n hn
  leaf n hn t ht j hj := by
    rw [hword _ t ht j hj]
    exact h.leaf n hn t ht j hj
  no_pd := h.no_pd
  no_pt := h.no_pt

/-- The memory manager in good order, with `M` the map of each address space that has been set
up. -/
structure Ok (v : Vmm) (M : ℕ → ℕ → Option (ℕ × ℕ)) : Prop where
  tables : ∀ i as, v.spaces i = some as → as.pml4Phys ≠ 0 → ∃ L, Tables v.mem as (M i) L
  owned : ∀ i as, v.spaces i = some as → ∀ p ∈ as.ownedPages, p ∈ v.live ∧ 4096 ∣ p ∧ p < 2 ^ 64
  apart : ∀ i j as as', v.spaces i = some as → v.spaces j = some as' → i ≠ j →
    ∀ p ∈ as.ownedPages, p ∉ as'.ownedPages
  master : ∀ i as, v.spaces i = some as → masterPdpt ∉ as.ownedPages
  master_live : masterPdpt ∈ v.live
  fresh : ∀ i, v.spaceCount ≤ i → v.spaces i = none

lemma masterPdpt_dvd : 4096 ∣ masterPdpt := by decide

/-- A new page directory. -/
lemma Tables.link_pd (h : Tables mem as m L) (hdvd : ∀ p ∈ as.ownedPages, 4096 ∣ p ∧ p < 2 ^ 64)
    (hmaster : masterPdpt ∉ as.ownedPages) {d p : ℕ} (hd : L .pdpt = some d) (hpd : L .pd = none)
    (hp : p ∈ as.ownedPages) (hnew : ∀ r, L r ≠ some p) (hzero : ∀ j < 512, word mem p j = 0) :
    Tables (putWord mem d 1 (p ||| pageRwU)) as m (Function.update L .pd (some p)) := by
  have hdo := h.owned _ _ hd
  have hword : ∀ q ∈ as.ownedPages, ∀ j < 512, word (putWord mem d 1 (p ||| pageRwU)) q j =
      if q = d ∧ j = 1 then p ||| pageRwU else word mem q j := fun q hq j hj =>
    word_putWord mem (hdvd d hdo).1 (hdvd q hq).1 (by decide) hj
      (table_lt (hdvd p hp).2)
  have hmw : ∀ j < 512, word (putWord mem d 1 (p ||| pageRwU)) masterPdpt j =
      word mem masterPdpt j := by
    intro j hj
    refine word_putWord_page mem _ (hdvd d hdo).1 masterPdpt_dvd ?_ (by decide) hj
    rintro rfl
    exact hmaster hdo
  have hnotd : ∀ r q, r ≠ .pdpt → L r = some q → q ≠ d := by
    rintro r q hr hq rfl
    exact hr (h.inj r .pdpt q hq hd)
  have hL : ∀ r, r ≠ .pd → Function.update L .pd (some p) r = L r := fun r hr =>
    Function.update_of_ne hr _ _
  have hpt : ∀ n, L (.pt n) = none := h.no_pd hpd
  refine ⟨?_, ?_, ?_, ?_, ?_, ?_, ?_, ?_, ?_, ?_, ?_, ?_⟩
  · rw [hL _ (by decide)]
    exact h.root
  · intro r q hq
    by_cases hr : r = .pd
    · subst hr
      rw [Function.update_self] at hq
      cases hq
      exact hp
    · rw [hL r hr] at hq
      exact h.owned r q hq
  · intro r r' q hq hq'
    by_cases hr : r = .pd <;> by_cases hr' : r' = .pd
    · rw [hr, hr']
    · subst hr
      rw [Function.update_self] at hq
      rw [hL r' hr'] at hq'
      cases hq
      exact absurd hq' (hnew r')
    · subst hr'
      rw [Function.update_self] at hq'
      rw [hL r hr] at hq
      cases hq'
      exact absurd hq (hnew r)
    · rw [hL r hr] at hq
      rw [hL r' hr'] at hq'
      exact h.inj r r' q hq hq'
  · rw [hL _ (by decide)]
    refine ⟨h.pdpt.1, ?_⟩
    rw [hword _ (h.owned _ _ h.root) 0 (by decide), if_neg (fun hand => by cases hand.2)]
    exact h.pdpt.2
  · intro d' hd'
    rw [hL _ (by decide), hd] at hd'
    cases hd'
    rw [hword d hdo 0 (by decide), hword d hdo 3 (by decide), hmw 0 (by decide), hmw 3 (by decide),
      if_neg (fun hand => by cases hand.2), if_neg (fun hand => by cases hand.2)]
    exact h.slots d hd
  · intro j hj hne
    rw [hword _ (h.owned _ _ h.root) j hj,
      if_neg (fun hand => hnotd _ _ (by decide) h.root hand.1)]
    exact h.upper j hj hne
  · intro d' hd' j hj hnot
    rw [hL _ (by decide), hd] at hd'
    cases hd'
    have hne : j ≠ 1 := by
      rintro rfl
      exact hnot (by decide)
    rw [hword d hdo j hj, if_neg (fun hand => hne hand.2)]
    exact h.others d hd j hj hnot
  · intro d' hd'
    rw [hL _ (by decide), hd] at hd'
    cases hd'
    rw [hword d hdo 1 (by decide), if_pos ⟨rfl, rfl⟩, Function.update_self]
    rfl
  · intro d' hd' n hn
    rw [Function.update_self] at hd'
    cases hd'
    have hne : p ≠ d := fun heq => hnew .pdpt (heq ▸ hd)
    rw [hword p hp n hn, if_neg (fun hand => hne hand.1), hzero n hn, hL _ (by simp), hpt n]
    rfl
  · intro n hn t ht
    rw [hL _ (by simp), hpt n] at ht
    cases ht
  · intro hnone
    rw [Function.update_self] at hnone
    cases hnone
  · intro n hn hnone
    exact h.no_pt n hn (hpt n)

/-- A new page table. -/
lemma Tables.link_pt (h : Tables mem as m L) (hdvd : ∀ p ∈ as.ownedPages, 4096 ∣ p ∧ p < 2 ^ 64)
    (hmaster : masterPdpt ∉ as.ownedPages) {d p k : ℕ} (hk : k < 512) (hd : L .pd = some d)
    (hpt : L (.pt k) = none) (hp : p ∈ as.ownedPages) (hnew : ∀ r, L r ≠ some p)
    (hzero : ∀ j < 512, word mem p j = 0) :
    Tables (putWord mem d k (p ||| pageRwU)) as m (Function.update L (.pt k) (some p)) := by
  have hdo := h.owned _ _ hd
  have hword : ∀ q ∈ as.ownedPages, ∀ j < 512, word (putWord mem d k (p ||| pageRwU)) q j =
      if q = d ∧ j = k then p ||| pageRwU else word mem q j := fun q hq j hj =>
    word_putWord mem (hdvd d hdo).1 (hdvd q hq).1 hk hj (table_lt (hdvd p hp).2)
  have hmw : ∀ j < 512, word (putWord mem d k (p ||| pageRwU)) masterPdpt j =
      word mem masterPdpt j := by
    intro j hj
    refine word_putWord_page mem _ (hdvd d hdo).1 masterPdpt_dvd ?_ hk hj
    rintro rfl
    exact hmaster hdo
  have hnotd : ∀ r q, r ≠ .pd → L r = some q → q ≠ d := by
    rintro r q hr hq rfl
    exact hr (h.inj r .pd q hq hd)
  have hL : ∀ r, r ≠ .pt k → Function.update L (.pt k) (some p) r = L r := fun r hr =>
    Function.update_of_ne hr _ _
  refine ⟨?_, ?_, ?_, ?_, ?_, ?_, ?_, ?_, ?_, ?_, ?_, ?_⟩
  · rw [hL _ (by simp)]
    exact h.root
  · intro r q hq
    by_cases hr : r = .pt k
    · subst hr
      rw [Function.update_self] at hq
      cases hq
      exact hp
    · rw [hL r hr] at hq
      exact h.owned r q hq
  · intro r r' q hq hq'
    by_cases hr : r = .pt k <;> by_cases hr' : r' = .pt k
    · rw [hr, hr']
    · subst hr
      rw [Function.update_self] at hq
      rw [hL r' hr'] at hq'
      cases hq
      exact absurd hq' (hnew r')
    · subst hr'
      rw [Function.update_self] at hq'
      rw [hL r hr] at hq
      cases hq'
      exact absurd hq (hnew r)
    · rw [hL r hr] at hq
      rw [hL r' hr'] at hq'
      exact h.inj r r' q hq hq'
  · rw [hL _ (by simp)]
    refine ⟨h.pdpt.1, ?_⟩
    rw [hword _ (h.owned _ _ h.root) 0 (by decide),
      if_neg (fun hand => hnotd _ _ (by simp) h.root hand.1)]
    exact h.pdpt.2
  · intro d' hd'
    rw [hL _ (by simp)] at hd'
    have hne := hnotd _ _ (by simp) hd'
    have hd'o := h.owned _ _ hd'
    rw [hword d' hd'o 0 (by decide), hword d' hd'o 3 (by decide), hmw 0 (by decide),
      hmw 3 (by decide), if_neg (fun hand => hne hand.1), if_neg (fun hand => hne hand.1)]
    exact h.slots d' hd'
  · intro j hj hne
    rw [hword _ (h.owned _ _ h.root) j hj,
      if_neg (fun hand => hnotd _ _ (by simp) h.root hand.1)]
    exact h.upper j hj hne
  · intro d' hd' j hj hnot
    rw [hL _ (by simp)] at hd'
    rw [hword d' (h.owned _ _ hd') j hj, if_neg (fun hand => hnotd _ _ (by simp) hd' hand.1)]
    exact h.others d' hd' j hj hnot
  · intro d' hd'
    rw [hL _ (by simp)] at hd'
    rw [hword d' (h.owned _ _ hd') 1 (by decide),
      if_neg (fun hand => hnotd _ _ (by simp) hd' hand.1), hL _ (by simp)]
    exact h.pd d' hd'
  · intro d' hd' n hn
    rw [hL _ (by simp), hd] at hd'
    cases hd'
    rw [hword d hdo n hn]
    by_cases hnk : n = k
    · subst hnk
      rw [if_pos ⟨rfl, rfl⟩, Function.update_self]
      rfl
    · rw [if_neg (fun hand => hnk hand.2), hL _ (by simp [hnk])]
      exact h.pt d hd n hn
  · intro n hn t ht j hj
    by_cases hnk : n = k
    · subst hnk
      rw [Function.update_self] at ht
      cases ht
      have hne : p ≠ d := fun heq => hnew .pd (heq ▸ hd)
      rw [hword p hp j hj, if_neg (fun hand => hne hand.1), hzero j hj, h.no_pt n hn hpt j hj]
      rfl
    · rw [hL _ (by simp [hnk])] at ht
      rw [hword t (h.owned _ _ ht) j hj, if_neg (fun hand => hnotd _ _ (by simp) ht hand.1)]
      exact h.leaf n hn t ht j hj
  · intro hnone
    rw [hL _ (by simp), hd] at hnone
    cases hnone
  · intro n hn hnone j hj
    by_cases hnk : n = k
    · subst hnk
      exact h.no_pt n hn hpt j hj
    · rw [hL _ (by simp [hnk])] at hnone
      exact h.no_pt n hn hnone j hj

lemma pageVa_inj {n j n' j' : ℕ} (hj : j < 512) (hj' : j' < 512) (h : pageVa n j = pageVa n' j') :
    n = n' ∧ j = j' := by
  unfold pageVa at h
  omega

/-- A new entry of a page table. -/
lemma Tables.map (h : Tables mem as m L) (hdvd : ∀ p ∈ as.ownedPages, 4096 ∣ p ∧ p < 2 ^ 64)
    (hmaster : masterPdpt ∉ as.ownedPages) {t k l pa : ℕ} (flags : ℕ) (hk : k < 512) (hl : l < 512)
    (ht : L (.pt k) = some t) (hpa : pa < 2 ^ 64) :
    Tables (putWord mem t l (leafEntry pa flags)) as
      (Function.update m (pageVa k l) (some (pa, flags))) L := by
  have hto := h.owned _ _ ht
  have hword : ∀ q ∈ as.ownedPages, ∀ j < 512, word (putWord mem t l (leafEntry pa flags)) q j =
      if q = t ∧ j = l then leafEntry pa flags else word mem q j := fun q hq j hj =>
    word_putWord mem (hdvd t hto).1 (hdvd q hq).1 hl hj (leafEntry_lt flags hpa)
  have hmw : ∀ j < 512, word (putWord mem t l (leafEntry pa flags)) masterPdpt j =
      word mem masterPdpt j := by
    intro j hj
    refine word_putWord_page mem _ (hdvd t hto).1 masterPdpt_dvd ?_ hl hj
    rintro rfl
    exact hmaster hto
  have hnott : ∀ r q, r ≠ .pt k → L r = some q → q ≠ t := by
    rintro r q hr hq rfl
    exact hr (h.inj r (.pt k) q hq ht)
  refine ⟨h.root, h.owned, h.inj, ⟨h.pdpt.1, ?_⟩, ?_, ?_, ?_, ?_, ?_, ?_, h.no_pd, ?_⟩
  · rw [hword _ (h.owned _ _ h.root) 0 (by decide),
      if_neg (fun hand => hnott _ _ (by simp) h.root hand.1)]
    exact h.pdpt.2
  · intro d hd
    have hne := hnott _ _ (by simp) hd
    have hdo := h.owned _ _ hd
    rw [hword d hdo 0 (by decide), hword d hdo 3 (by decide), hmw 0 (by decide), hmw 3 (by decide),
      if_neg (fun hand => hne hand.1), if_neg (fun hand => hne hand.1)]
    exact h.slots d hd
  · intro j hj hne
    rw [hword _ (h.owned _ _ h.root) j hj,
      if_neg (fun hand => hnott _ _ (by simp) h.root hand.1)]
    exact h.upper j hj hne
  · intro d hd j hj hnot
    rw [hword d (h.owned _ _ hd) j hj, if_neg (fun hand => hnott _ _ (by simp) hd hand.1)]
    exact h.others d hd j hj hnot
  · intro d hd
    rw [hword d (h.owned _ _ hd) 1 (by decide), if_neg (fun hand => hnott _ _ (by simp) hd hand.1)]
    exact h.pd d hd
  · intro d hd n hn
    rw [hword d (h.owned _ _ hd) n hn, if_neg (fun hand => hnott _ _ (by simp) hd hand.1)]
    exact h.pt d hd n hn
  · intro n hn q hq j hj
    rw [hword q (h.owned _ _ hq) j hj]
    by_cases hnk : n = k
    · subst hnk
      rw [ht] at hq
      cases hq
      by_cases hjl : j = l
      · subst hjl
        rw [if_pos ⟨rfl, rfl⟩, Function.update_self]
        rfl
      · have hne : pageVa n j ≠ pageVa n l := fun heq => hjl (pageVa_inj hj hl heq).2
        rw [if_neg (fun hand => hjl hand.2), Function.update_of_ne hne]
        exact h.leaf n hn t ht j hj
    · have hne : pageVa n j ≠ pageVa k l := fun heq => hnk (pageVa_inj hj hl heq).1
      rw [if_neg (fun hand => hnott _ _ (by simp [hnk]) hq hand.1), Function.update_of_ne hne]
      exact h.leaf n hn q hq j hj
  · intro n hn hnone j hj
    have hne : pageVa n j ≠ pageVa k l := by
      intro heq
      rw [(pageVa_inj hj hl heq).1, ht] at hnone
      cases hnone
    rw [Function.update_of_ne hne]
    exact h.no_pt n hn hnone j hj

/-! ## Operations -/

variable {K : Kmalloc} {v : Vmm} {M : ℕ → ℕ → Option (ℕ × ℕ)} {i : ℕ}

lemma Ok.of_calls (h : v.Ok M) (n : ℕ) : ({ v with calls := n } : Vmm).Ok M :=
  ⟨h.tables, h.owned, h.apart, h.master, h.master_live, h.fresh⟩

lemma Ok.pages (h : v.Ok M) (hs : v.spaces i = some as) :
    ∀ p ∈ as.ownedPages, 4096 ∣ p ∧ p < 2 ^ 64 := fun p hp => (h.owned i as hs p hp).2

/-- What `vmm_alloc_page` does. -/
lemma vmmAllocPage_cases (K : Kmalloc) (v : Vmm) (i : ℕ) :
    (∃ n, vmmAllocPage K v i = (0, { v with calls := n })) ∨
    ∃ as, v.spaces i = some as ∧ K.page v.calls v.live ≠ 0 ∧
      vmmAllocPage K v i = (K.page v.calls v.live, { v with
        calls := v.calls + 1
        mem := clearPage v.mem (K.page v.calls v.live)
        live := insert (K.page v.calls v.live) v.live
        spaces := Function.update v.spaces i
          (some { as with ownedPages := as.ownedPages ++ [K.page v.calls v.live] }) }) := by
  unfold vmmAllocPage
  cases hs : v.spaces i with
  | none => exact .inl ⟨v.calls, rfl⟩
  | some as =>
    by_cases hfull : maxPages ≤ as.ownedPages.length
    · refine .inl ⟨v.calls, ?_⟩
      simp only [hfull, if_true]
    · by_cases hp : K.page v.calls v.live = 0
      · refine .inl ⟨v.calls + 1, ?_⟩
        simp only [hfull, hp, if_true, if_false]
      · refine .inr ⟨as, rfl, hp, ?_⟩
        simp only [hfull, hp, if_false]

/-- Clearing a page that is not in use leaves the tables alone. -/
lemma Ok.clear_tables (h : v.Ok M) (hs : v.spaces i = some as) {m : ℕ → Option (ℕ × ℕ)}
    (hT : Tables v.mem as m L) {p : ℕ} (hdvd : 4096 ∣ p) (hfresh : p ∉ v.live)
    (hroot : as'.pml4Phys = as.pml4Phys) (howned : as.ownedPages ⊆ as'.ownedPages) :
    Tables (clearPage v.mem p) as' m L := by
  refine hT.congr hroot howned ?_ ?_
  · intro k hk
    refine word_clearPage_page v.mem hdvd masterPdpt_dvd ?_ hk
    rintro rfl
    exact hfresh h.master_live
  · intro r q hr k hk
    have hq := hT.owned r q hr
    refine word_clearPage_page v.mem hdvd (h.pages hs q hq).1 ?_ hk
    rintro rfl
    exact hfresh (h.owned i as hs q hq).1

/-- A new page for an address space. -/
lemma Ok.allocated (h : v.Ok M) (hs : v.spaces i = some as) {p : ℕ} (hdvd : 4096 ∣ p)
    (hlt : p < 2 ^ 64) (hfresh : p ∉ v.live) (n : ℕ) :
    ({ v with
      calls := n
      mem := clearPage v.mem p
      live := insert p v.live
      spaces := Function.update v.spaces i
        (some { as with ownedPages := as.ownedPages ++ [p] }) } : Vmm).Ok M := by
  have hcases : ∀ j as', Function.update v.spaces i
      (some { as with ownedPages := as.ownedPages ++ [p] }) j = some as' →
      (j = i ∧ as' = { as with ownedPages := as.ownedPages ++ [p] }) ∨
      (j ≠ i ∧ v.spaces j = some as') := by
    intro j as' hj
    by_cases hji : j = i
    · subst hji
      rw [Function.update_self] at hj
      exact .inl ⟨rfl, (Option.some.inj hj).symm⟩
    · rw [Function.update_of_ne hji] at hj
      exact .inr ⟨hji, hj⟩
  have hnot : ∀ j as', v.spaces j = some as' → p ∉ as'.ownedPages :=
    fun j as' hj hp => hfresh (h.owned j as' hj p hp).1
  refine ⟨?_, ?_, ?_, ?_, Finset.mem_insert_of_mem h.master_live, ?_⟩
  · intro j as' hj hroot
    rcases hcases j as' hj with ⟨rfl, rfl⟩ | ⟨-, hj'⟩
    · obtain ⟨L, hL⟩ := h.tables j as hs hroot
      exact ⟨L, h.clear_tables hs hL hdvd hfresh rfl (List.subset_append_left _ _)⟩
    · obtain ⟨L, hL⟩ := h.tables j as' hj' hroot
      exact ⟨L, h.clear_tables hj' hL hdvd hfresh rfl (List.Subset.refl _)⟩
  · intro j as' hj q hq
    rcases hcases j as' hj with ⟨rfl, rfl⟩ | ⟨-, hj'⟩
    · rcases List.mem_append.mp hq with hq | hq
      · obtain ⟨hlive, hd, hl⟩ := h.owned j as hs q hq
        exact ⟨Finset.mem_insert_of_mem hlive, hd, hl⟩
      · rw [List.mem_singleton] at hq
        subst hq
        exact ⟨Finset.mem_insert_self q v.live, hdvd, hlt⟩
    · obtain ⟨hlive, hd, hl⟩ := h.owned j as' hj' q hq
      exact ⟨Finset.mem_insert_of_mem hlive, hd, hl⟩
  · intro j k as' as'' hj hk hjk q hq hq'
    rcases hcases j as' hj with ⟨rfl, rfl⟩ | ⟨hji, hj'⟩ <;>
      rcases hcases k as'' hk with ⟨rfl, rfl⟩ | ⟨hki, hk'⟩
    · exact hjk rfl
    · rcases List.mem_append.mp hq with hq | hq
      · exact h.apart j k as as'' hs hk' hjk q hq hq'
      · rw [List.mem_singleton] at hq
        subst hq
        exact hnot k as'' hk' hq'
    · rcases List.mem_append.mp hq' with hq' | hq'
      · exact h.apart j k as' as hj' hs hjk q hq hq'
      · rw [List.mem_singleton] at hq'
        subst hq'
        exact hnot j as' hj' hq
    · exact h.apart j k as' as'' hj' hk' hjk q hq hq'
  · intro j as' hj hmem
    rcases hcases j as' hj with ⟨rfl, rfl⟩ | ⟨-, hj'⟩
    · rcases List.mem_append.mp hmem with hmem | hmem
      · exact h.master j as hs hmem
      · rw [List.mem_singleton] at hmem
        exact hfresh (hmem ▸ h.master_live)
    · exact h.master j as' hj' hmem
  · intro j hj
    have hnone := h.fresh j hj
    have hji : j ≠ i := by
      rintro rfl
      rw [hs] at hnone
      cases hnone
    simp only [Function.update_of_ne hji]
    exact hnone

/-- `vmm_alloc_page` changes no translation. -/
lemma Ok.alloc (h : v.Ok M) (i : ℕ) : (vmmAllocPage K v i).2.Ok M := by
  rcases vmmAllocPage_cases K v i with ⟨n, heq⟩ | ⟨as, hs, hp, heq⟩
  · rw [heq]
    exact h.of_calls n
  · rw [heq]
    exact h.allocated hs (K.page_dvd _ _) (K.page_lt _ _) (K.page_fresh _ _ hp) _

/-- A change to the pages of one address space. -/
lemma Ok.changed (h : v.Ok M) (hs : v.spaces i = some as) (mem' : Bytes) (root : ℕ)
    (hsame : ∀ p, 4096 ∣ p → p ∉ as.ownedPages → ∀ j < 512, word mem' p j = word v.mem p j)
    {m : ℕ → Option (ℕ × ℕ)} {L : Role → Option ℕ}
    (hT : Tables mem' { as with pml4Phys := root } m L) :
    ({ v with
      mem := mem'
      spaces := Function.update v.spaces i (some { as with pml4Phys := root }) } : Vmm).Ok
      (Function.update M i m) := by
  have hcases : ∀ j as', Function.update v.spaces i
    (some { as with pml4Phys := root }) j = some as' →
      (j = i ∧ as' = { as with pml4Phys := root }) ∨ (j ≠ i ∧ v.spaces j = some as') := by
    intro j as' hj
    by_cases hji : j = i
    · subst hji
      rw [Function.update_self] at hj
      exact .inl ⟨rfl, (Option.some.inj hj).symm⟩
    · rw [Function.update_of_ne hji] at hj
      exact .inr ⟨hji, hj⟩
  have hpages : ∀ j as', Function.update v.spaces i
    (some { as with pml4Phys := root }) j = some as' →
      ∃ as₀, v.spaces j = some as₀ ∧ as₀.ownedPages = as'.ownedPages := by
    intro j as' hj
    rcases hcases j as' hj with ⟨rfl, rfl⟩ | ⟨-, hj'⟩
    · exact ⟨as, hs, rfl⟩
    · exact ⟨as', hj', rfl⟩
  refine ⟨?_, ?_, ?_, ?_, h.master_live, ?_⟩
  · intro j as' hj hroot
    rcases hcases j as' hj with ⟨rfl, rfl⟩ | ⟨hji, hj'⟩
    · rw [Function.update_self]
      exact ⟨L, hT⟩
    · rw [Function.update_of_ne hji]
      obtain ⟨L', hL'⟩ := h.tables j as' hj' hroot
      refine ⟨L', hL'.congr rfl (List.Subset.refl _) ?_ ?_⟩
      · exact hsame _ masterPdpt_dvd (h.master i as hs)
      · intro r p hr
        have hp := hL'.owned r p hr
        exact hsame p (h.pages hj' p hp).1 (h.apart j i as' as hj' hs hji p hp)
  · intro j as' hj
    obtain ⟨as₀, hj₀, howned⟩ := hpages j as' hj
    rw [← howned]
    exact h.owned j as₀ hj₀
  · intro j k as₁ as₂ hj hk hjk
    obtain ⟨as₃, hj₀, howned⟩ := hpages j as₁ hj
    obtain ⟨as₄, hk₀, howned'⟩ := hpages k as₂ hk
    rw [← howned, ← howned']
    exact h.apart j k as₃ as₄ hj₀ hk₀ hjk
  · intro j as' hj
    obtain ⟨as₀, hj₀, howned⟩ := hpages j as' hj
    rw [← howned]
    exact h.master j as₀ hj₀
  · intro j hj
    have hnone := h.fresh j hj
    have hji : j ≠ i := by
      rintro rfl
      rw [hs] at hnone
      cases hnone
    simp only [Function.update_of_ne hji]
    exact hnone

/-- A store to a page of one address space. -/
lemma Ok.stored (h : v.Ok M) (hs : v.spaces i = some as) {q idx e : ℕ} (hq : q ∈ as.ownedPages)
    (hidx : idx < 512) {m : ℕ → Option (ℕ × ℕ)} {L : Role → Option ℕ}
    (hT : Tables (putWord v.mem q idx e) as m L) :
    ({ v with mem := putWord v.mem q idx e } : Vmm).Ok (Function.update M i m) := by
  have hchanged := h.changed hs (putWord v.mem q idx e) as.pml4Phys ?_ hT
  · have hsame : Function.update v.spaces i (some as) = v.spaces := by
      rw [← hs, Function.update_eq_self]
    simp only [hsame] at hchanged
    exact hchanged
  · intro p hp hnot j hj
    refine word_putWord_page v.mem e (h.pages hs q hq).1 hp ?_ hidx hj
    rintro rfl
    exact hnot hq

/-- A change to a page of an address space that is not one of its tables. -/
lemma Ok.written (h : v.Ok M) (hs : v.spaces i = some as) (hT : Tables v.mem as (M i) L) {p : ℕ}
    (hp : p ∈ as.ownedPages) (hnot : ∀ r, L r ≠ some p) {mem' : Bytes}
    (hsame : ∀ q, 4096 ∣ q → q ≠ p → SamePage v.mem mem' q) :
    ({ v with mem := mem' } : Vmm).Ok M ∧ Tables mem' as (M i) L := by
  have hT' : Tables mem' as (M i) L := by
    refine hT.congr rfl (List.Subset.refl _) ?_ ?_
    · intro j hj
      refine (hsame masterPdpt masterPdpt_dvd ?_).word hj
      rintro rfl
      exact h.master i as hs hp
    · intro r q hr j hj
      refine (hsame q (h.pages hs q (hT.owned r q hr)).1 ?_).word hj
      rintro rfl
      exact hnot r hr
  refine ⟨?_, hT'⟩
  have hchanged := h.changed hs mem' as.pml4Phys ?_ hT'
  · have hspaces : Function.update v.spaces i (some as) = v.spaces := by
      rw [← hs, Function.update_eq_self]
    rw [Function.update_eq_self] at hchanged
    simp only [hspaces] at hchanged
    exact hchanged
  · intro q hq hown j hj
    refine (hsame q hq ?_).word hj
    rintro rfl
    exact hown hp

/-- Between two states, tables are only added, at pages that were not in use, and the pages in use
that are not tables keep their bytes. -/
structure Grown (v v' : Vmm) (L L' : Role → Option ℕ) : Prop where
  live : v.live ⊆ v'.live
  named : ∀ r p, L' r = some p → L r = some p ∨ p ∉ v.live
  bytes : ∀ q ∈ v.live, 4096 ∣ q → (∀ r, L r ≠ some q) → SamePage v.mem v'.mem q

lemma Grown.refl (v : Vmm) (L : Role → Option ℕ) : Grown v v L L :=
  ⟨subset_rfl, fun _ _ h => .inl h, fun _ _ _ _ => .refl _ _⟩

/-- A page in use that is not a table does not become one. -/
lemma Grown.not_named {v' : Vmm} {L' : Role → Option ℕ} (h : Grown v v' L L') {q : ℕ}
    (hq : q ∈ v.live) (hnot : ∀ r, L r ≠ some q) : ∀ r, L' r ≠ some q := by
  intro r hr
  rcases h.named r q hr with hold | hnew
  · exact hnot r hold
  · exact hnew hq

lemma Grown.trans {v' v'' : Vmm} {L' L'' : Role → Option ℕ} (h : Grown v v' L L')
    (h' : Grown v' v'' L' L'') : Grown v v'' L L'' where
  live := h.live.trans h'.live
  named r p hp := by
    rcases h'.named r p hp with hp' | hnew
    · exact h.named r p hp'
    · exact .inr fun hmem => hnew (h.live hmem)
  bytes q hq hdvd hnot :=
    (h.bytes q hq hdvd hnot).trans (h'.bytes q (h.live hq) hdvd (h.not_named hq hnot))

/-- A store to a table. -/
lemma grown_putWord (v : Vmm) {d idx : ℕ} (e : ℕ) {r : Role} (hd : L r = some d) (hdvd : 4096 ∣ d)
    (hidx : idx < 512) : Grown v { v with mem := putWord v.mem d idx e } L L where
  live := subset_rfl
  named _ _ hp := .inl hp
  bytes _ _ hq hnot := samePage_putWord v.mem e hdvd hq (fun heq => hnot r (heq ▸ hd)) hidx

/-- Adding a missing table of the role `r`, for which there is an entry in the table at `d`. -/
lemma Ok.ensure (h : v.Ok M) (K : Kmalloc) (hs : v.spaces i = some as)
    (hT : Tables v.mem as (M i) L)
    {d idx : ℕ} {r r₀ : Role} (hdL : L r₀ = some d) (hidx : idx < 512)
    (hentry : word v.mem d idx = entryOf (L r))
    (hlink : ∀ (mem' : Bytes) (as' : AddrSpace) (p : ℕ), Tables mem' as' (M i) L →
      (∀ q ∈ as'.ownedPages, 4096 ∣ q ∧ q < 2 ^ 64) → masterPdpt ∉ as'.ownedPages → L r = none →
      p ∈ as'.ownedPages → (∀ r', L r' ≠ some p) → (∀ j < 512, word mem' p j = 0) →
      Tables (putWord mem' d idx (p ||| pageRwU)) as' (M i) (Function.update L r (some p))) :
    (ensureTable K v i d idx).2.Ok M ∧ ∃ as' L',
      (ensureTable K v i d idx).2.spaces i = some as' ∧ as'.pml4Phys = as.pml4Phys ∧
      as.ownedPages ⊆ as'.ownedPages ∧ Tables (ensureTable K v i d idx).2.mem as' (M i) L' ∧
      Grown v (ensureTable K v i d idx).2 L L' ∧
      ((ensureTable K v i d idx).1 = true → ∃ p, L' = Function.update L r (some p)) := by
  have hd := hT.owned _ _ hdL
  unfold ensureTable
  rw [hentry]
  cases hr : L r with
  | some p =>
    have hp := (h.pages hs p (hT.owned r p hr)).1
    rw [if_neg (show entryOf (some p) &&& pageP ≠ 0 from table_present hp)]
    refine ⟨h, as, L, hs, rfl, List.Subset.refl _, hT, .refl v L, fun _ => ⟨p, ?_⟩⟩
    rw [← hr, Function.update_eq_self]
  | none =>
    rw [if_pos (show entryOf none &&& pageP = 0 from rfl)]
    rcases vmmAllocPage_cases K v i with ⟨n, heq⟩ | ⟨as₁, hs₁, hp, heq⟩
    · rw [heq]
      simp only [if_true]
      refine ⟨h.of_calls n, as, L, hs, rfl, List.Subset.refl _, hT, ?_, by simp⟩
      exact ⟨subset_rfl, fun _ _ hp => .inl hp, fun _ _ _ _ => .refl _ _⟩
    · obtain rfl : as = as₁ := Option.some.inj (hs.symm.trans hs₁)
      have hdvd := K.page_dvd v.calls v.live
      have hfresh := K.page_fresh _ _ hp
      have hOk := h.allocated hs hdvd (K.page_lt _ _) hfresh (v.calls + 1)
      have hT' : Tables (clearPage v.mem (K.page v.calls v.live))
          { as with ownedPages := as.ownedPages ++ [K.page v.calls v.live] } (M i) L :=
        h.clear_tables hs hT hdvd hfresh rfl (List.subset_append_left _ _)
      have hs' := Function.update_self i
        (some { as with ownedPages := as.ownedPages ++ [K.page v.calls v.live] }) v.spaces
      have hnew : ∀ r', L r' ≠ some (K.page v.calls v.live) := fun r' hr' =>
        hfresh (h.owned i as hs _ (hT.owned r' _ hr')).1
      have hlinked := hlink _ _ _ hT' (hOk.pages hs') (hOk.master i _ hs') hr
        (List.mem_append_right _ (List.mem_singleton_self _)) hnew
        (fun j hj => word_clearPage_self v.mem hj)
      rw [heq]
      simp only [hp, if_false]
      refine ⟨?_, _, _, hs', rfl, List.subset_append_left _ _, hlinked,
        ⟨Finset.subset_insert _ _, ?_, ?_⟩, fun _ => ⟨_, rfl⟩⟩
      rotate_left
      · intro r' q hq
        by_cases hrr : r' = r
        · subst hrr
          rw [Function.update_self] at hq
          exact .inr (Option.some.inj hq ▸ hfresh)
        · rw [Function.update_of_ne hrr] at hq
          exact .inl hq
      · intro q hq hqd hnot
        refine (samePage_clearPage v.mem hdvd hqd fun heq' => hfresh (heq' ▸ hq)).trans ?_
        exact samePage_putWord _ _ (h.pages hs d hd).1 hqd (fun heq' => hnot r₀ (heq' ▸ hdL)) hidx
      have hput := hOk.stored hs' (List.mem_append_left _ hd) hidx hlinked
      rw [Function.update_eq_self] at hput
      exact hput

lemma pdptIdx_eq {va : ℕ} (h : userBase ≤ va) (h' : va < userBase + userSize) : pdptIdx va = 1 := by
  unfold pdptIdx
  unfold userBase at h h'
  unfold userSize at h'
  omega

lemma pageVa_eq {va : ℕ} (h : userBase ≤ va) (h' : va < userBase + userSize) (hal : va % 4096 = 0) :
    pageVa (pdIdx va) (ptIdx va) = va := by
  unfold pageVa pdIdx ptIdx
  unfold userBase at h h' ⊢
  unfold userSize at h'
  omega

/-- The maps after a call of `vmm_map_page` with the given result. -/
def remap (M : ℕ → ℕ → Option (ℕ × ℕ)) (i va pa flags : ℕ) : Bool → ℕ → ℕ → Option (ℕ × ℕ)
  | true => Function.update M i (Function.update (M i) va (some (pa, flags)))
  | false => M

/-- `vmm_map_page` maps the page, or changes no translation; it adds tables that it needs. -/
lemma Ok.mapPage_grown (h : v.Ok M) (K : Kmalloc) (hs : v.spaces i = some as)
    (hT : Tables v.mem as (M i) L) (va flags : ℕ) {pa : ℕ} (hpa : pa < 2 ^ 64) :
    (vmmMapPage K v i va pa flags).2.Ok
      (remap M i va pa flags (vmmMapPage K v i va pa flags).1) ∧ ∃ as' L',
      (vmmMapPage K v i va pa flags).2.spaces i = some as' ∧ as'.pml4Phys = as.pml4Phys ∧
      as.ownedPages ⊆ as'.ownedPages ∧
      Tables (vmmMapPage K v i va pa flags).2.mem as'
        (remap M i va pa flags (vmmMapPage K v i va pa flags).1 i) L' ∧
      Grown v (vmmMapPage K v i va pa flags).2 L L' := by
  unfold vmmMapPage
  rw [hs]
  dsimp only
  by_cases hwin : va < userBase ∨ userBase + userSize ≤ va
  · rw [if_pos hwin]
    exact ⟨h, as, L, hs, rfl, List.Subset.refl _, hT, .refl v L⟩
  by_cases hal : va % 4096 ≠ 0
  · rw [if_neg hwin, if_pos hal]
    exact ⟨h, as, L, hs, rfl, List.Subset.refl _, hT, .refl v L⟩
  rw [if_neg hwin, if_neg hal]
  rw [not_or] at hwin
  have hbase := Nat.le_of_not_lt hwin.1
  have htop := Nat.lt_of_not_le hwin.2
  obtain ⟨hne, hroot⟩ := hT.pdpt
  obtain ⟨d, hd⟩ := Option.ne_none_iff_exists'.mp hne
  rw [hroot, hd, entryOf, pteAddr_table (h.pages hs d (hT.owned _ _ hd)).1, pdptIdx_eq hbase htop]
  have h1 := h.ensure K hs hT hd (by decide) (hT.pd d hd)
    (fun mem' as' p hT' hdvd hm hr hp hnew hz => hT'.link_pd hdvd hm hd hr hp hnew hz)
  rcases heq1 : ensureTable K v i d 1 with ⟨_ | _, v₁⟩
  · rw [heq1] at h1
    obtain ⟨hOk1, as₁, L₁, hs₁, hroot₁, ho₁, hT₁, hg₁, -⟩ := h1
    exact ⟨hOk1, as₁, L₁, hs₁, hroot₁, ho₁, hT₁, hg₁⟩
  rw [heq1] at h1
  obtain ⟨hOk1, as₁, L₁, hs₁, hroot₁, ho₁, hT₁, hg₁, hex⟩ := h1
  obtain ⟨e, rfl⟩ := hex rfl
  have hd₁ : Function.update L .pd (some e) .pdpt = some d := by
    rw [Function.update_of_ne (by simp)]
    exact hd
  have he₁ : Function.update L .pd (some e) .pd = some e := Function.update_self _ _ _
  have hidx : pdIdx va < 512 := Nat.mod_lt _ (by decide)
  dsimp only
  rw [hT₁.pd d hd₁, he₁, entryOf, pteAddr_table (hOk1.pages hs₁ e (hT₁.owned _ _ he₁)).1]
  have h2 := hOk1.ensure K hs₁ hT₁ he₁ hidx (hT₁.pt e he₁ _ hidx)
    (fun mem' as' p hT' hdvd hm hr hp hnew hz => hT'.link_pt hdvd hm hidx he₁ hr hp hnew hz)
  rcases heq2 : ensureTable K v₁ i e (pdIdx va) with ⟨_ | _, v₂⟩
  · rw [heq2] at h2
    obtain ⟨hOk2, as₂, L₂, hs₂, hroot₂, ho₂, hT₂, hg₂, -⟩ := h2
    exact ⟨hOk2, as₂, L₂, hs₂, hroot₂.trans hroot₁, List.Subset.trans ho₁ ho₂, hT₂, hg₁.trans hg₂⟩
  rw [heq2] at h2
  obtain ⟨hOk2, as₂, L₂, hs₂, hroot₂, ho₂, hT₂, hg₂, hex2⟩ := h2
  obtain ⟨t, rfl⟩ := hex2 rfl
  have he₂ : Function.update (Function.update L .pd (some e)) (.pt (pdIdx va)) (some t) .pd =
      some e := by
    rw [Function.update_of_ne (by simp)]
    exact he₁
  have ht₂ : Function.update (Function.update L .pd (some e)) (.pt (pdIdx va)) (some t)
      (.pt (pdIdx va)) = some t := Function.update_self _ _ _
  have hto := hT₂.owned _ _ ht₂
  have htd := (hOk2.pages hs₂ t hto).1
  have hjdx : ptIdx va < 512 := Nat.mod_lt _ (by decide)
  dsimp only
  rw [hT₂.pt e he₂ _ hidx, ht₂, entryOf, pteAddr_table htd]
  have hmap := hT₂.map (hOk2.pages hs₂) (hOk2.master i as₂ hs₂) flags hidx hjdx ht₂ hpa
  rw [pageVa_eq hbase htop (by simpa using hal)] at hmap
  refine ⟨hOk2.stored hs₂ hto hjdx hmap, as₂, _, hs₂, hroot₂.trans hroot₁,
    List.Subset.trans ho₁ ho₂, ?_, (hg₁.trans hg₂).trans (grown_putWord v₂ _ ht₂ htd hjdx)⟩
  rw [remap, Function.update_self]
  exact hmap

lemma Ok.mapPage (h : v.Ok M) (K : Kmalloc) {i : ℕ} (va flags : ℕ) {pa : ℕ} (hpa : pa < 2 ^ 64)
    (hset : ∀ as, v.spaces i = some as → as.pml4Phys ≠ 0) :
    (vmmMapPage K v i va pa flags).2.Ok
      (remap M i va pa flags (vmmMapPage K v i va pa flags).1) := by
  cases hs : v.spaces i with
  | none =>
    unfold vmmMapPage
    rw [hs]
    exact h
  | some as =>
    obtain ⟨L, hT⟩ := h.tables i as hs (hset as hs)
    exact (h.mapPage_grown K hs hT va flags hpa).1

/-- An address space that has no pages yet. -/
lemma Ok.newSpace (h : v.Ok M) (n : ℕ) : ({ v with
      calls := n
      spaceCount := v.spaceCount + 1
      spaces := Function.update v.spaces v.spaceCount (some ⟨0, []⟩) } : Vmm).Ok M := by
  have hcases : ∀ j as, Function.update v.spaces v.spaceCount (some ⟨0, []⟩) j = some as →
      as = ⟨0, []⟩ ∨ v.spaces j = some as := by
    intro j as hj
    by_cases hji : j = v.spaceCount
    · rw [hji, Function.update_self] at hj
      exact .inl (Option.some.inj hj).symm
    · rw [Function.update_of_ne hji] at hj
      exact .inr hj
  refine ⟨?_, ?_, ?_, ?_, h.master_live, ?_⟩
  · intro j as hj hroot
    rcases hcases j as hj with rfl | hj
    · exact absurd rfl hroot
    · exact h.tables j as hj hroot
  · intro j as hj p hp
    rcases hcases j as hj with rfl | hj
    · cases hp
    · exact h.owned j as hj p hp
  · intro j k as₁ as₂ hj hk hjk p hp hp'
    rcases hcases j as₁ hj with rfl | hj
    · cases hp
    rcases hcases k as₂ hk with rfl | hk
    · cases hp'
    exact h.apart j k as₁ as₂ hj hk hjk p hp hp'
  · intro j as hj hp
    rcases hcases j as hj with rfl | hj
    · cases hp
    · exact h.master j as hj hp
  · intro j hj
    have hne : j ≠ v.spaceCount := by
      rintro rfl
      exact absurd hj (Nat.not_succ_le_self _)
    simp only [Function.update_of_ne hne]
    exact h.fresh j (Nat.le_of_succ_le hj)

/-- Giving back the pages of an address space. -/
lemma Ok.destroy (h : v.Ok M) (i : ℕ) : (vmmDestroyAddressSpace v i).Ok M := by
  unfold vmmDestroyAddressSpace
  cases hs : v.spaces i with
  | none => exact h
  | some as =>
    have hcases : ∀ j as', Function.update v.spaces i none j = some as' →
        j ≠ i ∧ v.spaces j = some as' := by
      intro j as' hj
      by_cases hji : j = i
      · rw [hji, Function.update_self] at hj
        cases hj
      · rw [Function.update_of_ne hji] at hj
        exact ⟨hji, hj⟩
    refine ⟨?_, ?_, ?_, ?_, ?_, ?_⟩
    · exact fun j as' hj => h.tables j as' (hcases j as' hj).2
    · intro j as' hj p hp
      obtain ⟨hji, hj'⟩ := hcases j as' hj
      obtain ⟨hlive, hpage⟩ := h.owned j as' hj' p hp
      refine ⟨Finset.mem_sdiff.mpr ⟨hlive, ?_⟩, hpage⟩
      rw [List.mem_toFinset]
      exact h.apart j i as' as hj' hs hji p hp
    · exact fun j k as₁ as₂ hj hk => h.apart j k as₁ as₂ (hcases j as₁ hj).2 (hcases k as₂ hk).2
    · exact fun j as' hj => h.master j as' (hcases j as' hj).2
    · refine Finset.mem_sdiff.mpr ⟨h.master_live, ?_⟩
      rw [List.mem_toFinset]
      exact h.master i as hs
    · intro j hj
      by_cases hji : j = i
      · simp only [hji, Function.update_self]
      · simp only [Function.update_of_ne hji]
        exact h.fresh j hj

/-- The tables of a new address space. -/
lemma tables_setUp {pml4 pdpt : ℕ} (hroot : as.pml4Phys = pml4)
    (howned : as.ownedPages = [pml4, pdpt]) (hne : pdpt ≠ pml4) (hp : 4096 ∣ pml4)
    (hq : 4096 ∣ pdpt)
    (hlt : pdpt < 2 ^ 64) (hmp : masterPdpt ≠ pml4) (hmq : masterPdpt ≠ pdpt)
    (hzero : ∀ j < 512, word mem pml4 j = 0) (hzero' : ∀ j < 512, word mem pdpt j = 0) :
    Tables (putWord (putWord (putWord mem pml4 0 (pdpt ||| pageRwU)) pdpt 0 (word mem masterPdpt 0))
      pdpt 3 (word mem masterPdpt 3)) as (fun _ => none)
      (fun r => match r with | .pml4 => some pml4 | .pdpt => some pdpt | _ => none) := by
  have hw : ∀ (b : Bytes) (x y : ℕ), x < 2 ^ 64 → y < 2 ^ 64 → ∀ p, 4096 ∣ p → ∀ j < 512,
      word (putWord (putWord (putWord b pml4 0 (pdpt ||| pageRwU)) pdpt 0 x) pdpt 3 y) p j =
        if p = pdpt ∧ j = 3 then y else if p = pdpt ∧ j = 0 then x
        else if p = pml4 ∧ j = 0 then pdpt ||| pageRwU else word b p j := by
    intro b x y hx hy p hp' j hj
    rw [word_putWord _ hq hp' (by decide) hj hy, word_putWord _ hq hp' (by decide) hj hx,
      word_putWord _ hp hp' (by decide) hj (table_lt hlt)]
  have hword := hw mem _ _ (word_lt mem masterPdpt 0) (word_lt mem masterPdpt 3)
  refine ⟨?_, ?_, ?_, ⟨by simp, ?_⟩, ?_, ?_, ?_, ?_, ?_, ?_, fun _ _ => rfl, fun _ _ _ _ _ => rfl⟩
  · rw [hroot]
  · rw [howned]
    rintro (_ | _ | _ | n) p hr
    · cases hr
      simp
    · cases hr
      simp
    · cases hr
    · cases hr
  · rintro (_ | _ | _ | n) (_ | _ | _ | n') p hr hr' <;> cases hr <;> cases hr' <;>
      first | rfl | exact absurd rfl hne
  · rw [hroot, hword pml4 hp 0 (by decide), if_neg (fun hand => hne hand.1.symm),
      if_neg (fun hand => hne hand.1.symm), if_pos ⟨rfl, rfl⟩]
    rfl
  · rintro d ⟨⟩
    rw [hword pdpt hq 0 (by decide), hword pdpt hq 3 (by decide),
      hword masterPdpt masterPdpt_dvd 0 (by decide), hword masterPdpt masterPdpt_dvd 3 (by decide)]
    simp [hmp, hmq]
  · intro j hj hpos
    rw [hroot, hword pml4 hp j hj]
    simp [hne.symm, hpos, hzero j hj]
  · rintro d ⟨⟩ j hj hnot
    simp only [List.mem_cons, List.not_mem_nil, or_false, not_or] at hnot
    rw [hword pdpt hq j hj]
    simp [hne, hnot, hzero' j hj]
  · rintro d ⟨⟩
    rw [hword pdpt hq 1 (by decide)]
    simp [hne, hzero' 1 (by decide), entryOf]
  · rintro d ⟨⟩
  · rintro n hn t ⟨⟩

/-- The maps after a call of `vmm_create_address_space` with the given result. -/
def newMap (M : ℕ → ℕ → Option (ℕ × ℕ)) : Option ℕ → ℕ → ℕ → Option (ℕ × ℕ)
  | some i => Function.update M i fun _ => none
  | none => M

/-- The tables of a new address space map nothing. -/
lemma Ok.setUp (h : v.Ok M) {pml4 pdpt : ℕ} (hs : v.spaces i = some ⟨0, [pml4, pdpt]⟩)
    (hne : pdpt ≠ pml4) (hzero : ∀ j < 512, word v.mem pml4 j = 0)
    (hzero' : ∀ j < 512, word v.mem pdpt j = 0) :
    (setUpTables v i pml4 pdpt).Ok (Function.update M i fun _ => none) := by
  have hp := h.pages hs pml4 (by simp)
  have hq := h.pages hs pdpt (by simp)
  have hm := h.master i _ hs
  simp only [List.mem_cons, List.not_mem_nil, or_false, not_or] at hm
  have hm0 : word (putWord v.mem pml4 0 (pdpt ||| pageRwU)) masterPdpt 0 =
      word v.mem masterPdpt 0 :=
    word_putWord_page v.mem _ hp.1 masterPdpt_dvd hm.1 (by decide) (by decide)
  have hm3 : word (putWord (putWord v.mem pml4 0 (pdpt ||| pageRwU)) pdpt 0
    (word v.mem masterPdpt 0))
      masterPdpt 3 = word v.mem masterPdpt 3 := by
    rw [word_putWord_page _ _ hq.1 masterPdpt_dvd hm.2 (by decide) (by decide),
      word_putWord_page v.mem _ hp.1 masterPdpt_dvd hm.1 (by decide) (by decide)]
  unfold setUpTables
  simp only [hs, Option.map_some, hm0, hm3]
  refine h.changed hs _ pml4 ?_ (tables_setUp rfl rfl hne hp.1 hq.1 hq.2 hm.1 hm.2 hzero hzero')
  intro p hpd hnot j hj
  simp only [List.mem_cons, List.not_mem_nil, or_false, not_or] at hnot
  rw [word_putWord_page _ _ hq.1 hpd hnot.2 (by decide) hj,
    word_putWord_page _ _ hq.1 hpd hnot.2 (by decide) hj,
    word_putWord_page _ _ hp.1 hpd hnot.1 (by decide) hj]

/-- `vmm_create_address_space` makes an empty map. -/
lemma Ok.create (h : v.Ok M) (K : Kmalloc) :
    (vmmCreateAddressSpace K v).2.Ok (newMap M (vmmCreateAddressSpace K v).1) := by
  unfold vmmCreateAddressSpace
  dsimp only
  by_cases hroom : (!K.room v.calls) = true
  · rw [if_pos hroom]
    exact h.of_calls _
  rw [if_neg hroom]
  have h₁ := h.newSpace (v.calls + 1)
  revert h₁
  generalize hv₁ : ({ v with
      calls := v.calls + 1
      spaceCount := v.spaceCount + 1
      spaces := Function.update v.spaces v.spaceCount (some ⟨0, []⟩) } : Vmm) = v₁
  intro h₁
  have hs₁ : v₁.spaces v.spaceCount = some ⟨0, []⟩ := by
    rw [← hv₁]
    exact Function.update_self _ _ _
  rcases vmmAllocPage_cases K v₁ v.spaceCount with ⟨n, heq⟩ | ⟨as₁, hs₁', hp, heq⟩
  · have h₂ : (vmmAllocPage K v₁ v.spaceCount).2.Ok M := h₁.alloc v.spaceCount
    have h₃ : (vmmAllocPage K (vmmAllocPage K v₁ v.spaceCount).2 v.spaceCount).2.Ok M :=
      h₂.alloc v.spaceCount
    rw [heq] at h₃ ⊢
    dsimp only at h₃ ⊢
    rw [if_pos (.inl rfl)]
    exact h₃.destroy _
  · obtain rfl : ⟨0, []⟩ = as₁ := Option.some.inj (hs₁.symm.trans hs₁')
    have h₂ : (vmmAllocPage K v₁ v.spaceCount).2.Ok M := h₁.alloc v.spaceCount
    rw [heq] at h₂ ⊢
    dsimp only at h₂ ⊢
    revert h₂
    generalize hv₂ : ({ v₁ with
        calls := v₁.calls + 1
        mem := clearPage v₁.mem (K.page v₁.calls v₁.live)
        live := insert (K.page v₁.calls v₁.live) v₁.live
        spaces := Function.update v₁.spaces v.spaceCount
          (some ⟨0, [] ++ [K.page v₁.calls v₁.live]⟩) } : Vmm) = v₂
    intro h₂
    have hs₂ : v₂.spaces v.spaceCount = some ⟨0, [K.page v₁.calls v₁.live]⟩ := by
      rw [← hv₂]
      exact Function.update_self _ _ _
    have hlive₂ : K.page v₁.calls v₁.live ∈ v₂.live := by
      rw [← hv₂]
      exact Finset.mem_insert_self _ _
    have h₃ : (vmmAllocPage K v₂ v.spaceCount).2.Ok M := h₂.alloc v.spaceCount
    rcases vmmAllocPage_cases K v₂ v.spaceCount with ⟨n, heq₂⟩ | ⟨as₂, hs₂', hp₂, heq₂⟩
    · rw [heq₂] at h₃ ⊢
      dsimp only at h₃ ⊢
      rw [if_pos (.inr rfl)]
      exact h₃.destroy _
    · obtain rfl : ⟨0, [K.page v₁.calls v₁.live]⟩ = as₂ := Option.some.inj (hs₂.symm.trans hs₂')
      rw [heq₂] at h₃ ⊢
      dsimp only at h₃ ⊢
      rw [if_neg (not_or.mpr ⟨hp, hp₂⟩)]
      have hne : K.page v₂.calls v₂.live ≠ K.page v₁.calls v₁.live := fun heq' =>
        K.page_fresh _ _ hp₂ (heq' ▸ hlive₂)
      refine h₃.setUp (Function.update_self _ _ _) hne (fun j hj => ?_) fun j hj =>
        word_clearPage_self v₂.mem hj
      -- the page of the upper table was cleared by the call before
      change word (clearPage v₂.mem (K.page v₂.calls v₂.live)) (K.page v₁.calls v₁.live) j = 0
      rw [word_clearPage_page v₂.mem (K.page_dvd _ _) (K.page_dvd _ _) hne.symm hj, ← hv₂]
      exact word_clearPage_self v₁.mem hj

end Vmm

end CoolFrost
