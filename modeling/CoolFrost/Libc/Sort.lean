import CoolFrost.Lib.Sorting

/-!
# Sorting and searching in the C library

`libc/sort.c`: `ksort` is a quicksort with the median of three elements as the pivot, which leaves
short arrays to insertion sort, and `kbsearch` is a binary search.  Arrays lie in a byte memory; a
comparison is given the bytes of two elements.
-/

namespace CoolFrost

open Elements Sorting

namespace Ksort

/-- `cmp_t`. -/
abbrev Cmp := List UInt8 → List UInt8 → ℤ

/-! ## The functions -/

/-- `bswap`. -/
def bswap (m : Bytes) (a b : ℕ) : ℕ → Bytes
  | 0 => m
  | sz + 1 => bswap (Function.update (Function.update m a (m b)) b (m a)) (a + 1) (b + 1) sz

/-- What the comparison says of the elements at two addresses. -/
def cmpAt (cmp : Cmp) (m : Bytes) (sz a b : ℕ) : ℤ := cmp (Bytes.slice m a sz) (Bytes.slice m b sz)

/-- `med3`. -/
def med3 (cmp : Cmp) (m : Bytes) (sz a b c : ℕ) : ℕ :=
  if cmpAt cmp m sz a b < 0 then
    if cmpAt cmp m sz b c < 0 then b
    else if cmpAt cmp m sz a c < 0 then c else a
  else if 0 < cmpAt cmp m sz b c then b
  else if 0 < cmpAt cmp m sz a c then c else a

/-- The inner loop of `isort`, from index `j` on. -/
def isortInner (cmp : Cmp) (base sz : ℕ) : ℕ → Bytes → Bytes
  | 0, m => m
  | j + 1, m =>
    if 0 < cmpAt cmp m sz (base + j * sz) (base + (j + 1) * sz) then
      isortInner cmp base sz j (bswap m (base + j * sz) (base + (j + 1) * sz) sz)
    else m

/-- The outer loop of `isort`, from index `i` on, with `k` rounds to go. -/
def isortOuter (cmp : Cmp) (base sz : ℕ) : ℕ → ℕ → Bytes → Bytes
  | 0, _, m => m
  | k + 1, i, m => isortOuter cmp base sz k (i + 1) (isortInner cmp base sz i m)

/-- `isort`. -/
def isort (cmp : Cmp) (m : Bytes) (base n sz : ℕ) : Bytes := isortOuter cmp base sz (n - 1) 1 m

/-- The partition of `qsort_impl`, from index `j` on, with `k` rounds to go: the memory, and `i`. -/
def partitionLoop (cmp : Cmp) (base sz piv : ℕ) : ℕ → ℕ → ℕ → Bytes → Bytes × ℕ
  | 0, _, i, m => (m, i)
  | k + 1, j, i, m =>
    if cmpAt cmp m sz (base + j * sz) piv ≤ 0 then
      partitionLoop cmp base sz piv k (j + 1) (i + 1) (bswap m (base + i * sz) (base + j * sz) sz)
    else partitionLoop cmp base sz piv k (j + 1) i m

/-- No more elements than rounds go to the front. -/
lemma partitionLoop_le (cmp : Cmp) (base sz piv k j i : ℕ) (m : Bytes) :
    (partitionLoop cmp base sz piv k j i m).2 ≤ i + k := by
  induction k generalizing j i m with
  | zero => exact le_rfl
  | succ k ih =>
    rw [partitionLoop]
    split_ifs
    · exact (ih _ _ _).trans (by omega)
    · exact (ih _ _ _).trans (by omega)

/-- `ISORT_MAX`. -/
def isortMax : ℕ := 8

/-- `qsort_impl` up to the recursive calls: the memory, and the index of the pivot. -/
def partition (cmp : Cmp) (m : Bytes) (base n sz : ℕ) : Bytes × ℕ :=
  let piv := base + (n - 1) * sz
  let m := bswap m (med3 cmp m sz base (base + n / 2 * sz) piv) piv sz
  let r := partitionLoop cmp base sz piv (n - 1) 0 0 m
  (bswap r.1 (base + r.2 * sz) piv sz, r.2)

lemma partition_lt (cmp : Cmp) (m : Bytes) (base sz : ℕ) {n : ℕ} (hn : 0 < n) :
    (partition cmp m base n sz).2 < n := by
  have hle := partitionLoop_le cmp base sz (base + (n - 1) * sz) (n - 1) 0 0
    (bswap m (med3 cmp m sz base (base + n / 2 * sz) (base + (n - 1) * sz))
      (base + (n - 1) * sz) sz)
  change (partitionLoop cmp base sz _ _ _ _ _).2 < n
  omega

/-- `qsort_impl`. -/
def qsortImpl (cmp : Cmp) (m : Bytes) (base n sz : ℕ) : Bytes :=
  if n < 2 then m
  else if n ≤ isortMax then isort cmp m base n sz
  else
    let i := (partition cmp m base n sz).2
    let m := (partition cmp m base n sz).1
    let m := if 0 < i then qsortImpl cmp m base i sz else m
    if 2 < n - i then qsortImpl cmp m (base + (i + 1) * sz) (n - i - 1) sz else m
termination_by n
decreasing_by
  · exact partition_lt cmp _ base sz (by omega)
  · omega

/-- `ksort`. -/
def ksort (cmp : Cmp) (m : Bytes) (base n sz : ℕ) : Bytes := qsortImpl cmp m base n sz

/-- The loop of `kbsearch`. -/
def bsearchLoop (cmp : Cmp) (key : List UInt8) (m : Bytes) (sz lo hi : ℕ) : Option ℕ :=
  if 0 < hi then
    let r := cmp key (Bytes.slice m (lo + hi / 2 * sz) sz)
    if r = 0 then some (lo + hi / 2 * sz)
    else if 0 < r then bsearchLoop cmp key m sz (lo + (hi / 2 + 1) * sz) (hi - (hi / 2 + 1))
    else bsearchLoop cmp key m sz lo (hi / 2)
  else none
termination_by hi

/-- `kbsearch`. -/
def kbsearch (cmp : Cmp) (key : List UInt8) (m : Bytes) (base n sz : ℕ) : Option ℕ :=
  bsearchLoop cmp key m sz base n

/-! ## Exchanging elements -/

variable {cmp : Cmp} {m m' : Bytes} {base n sz a b : ℕ} {l r l₁ l₂ l₃ : List (List UInt8)}
  {x y p : List UInt8}

lemma bswap_self (m : Bytes) (a sz : ℕ) : bswap m a a sz = m := by
  induction sz generalizing a with
  | zero => rfl
  | succ sz ih =>
    rw [bswap, Function.update_idem, Function.update_eq_self]
    exact ih (a + 1)

lemma exchanged_bswap (h : a + sz ≤ b) : Exchanged sz a b m (bswap m a b sz) := by
  induction sz generalizing m a b with
  | zero => exact ⟨fun i hi => absurd hi (Nat.not_lt_zero i), fun i hi =>
      absurd hi (Nat.not_lt_zero i), fun _ _ _ => rfl⟩
  | succ sz ih =>
    have hx := @ih (Function.update (Function.update m a (m b)) b (m a)) (a + 1) (b + 1) (by omega)
    have hother : ∀ i, i ≠ a → i ≠ b →
        Function.update (Function.update m a (m b)) b (m a) i = m i := by
      intro i ha hb
      rw [Function.update_of_ne hb, Function.update_of_ne ha]
    have hshift : ∀ c i, c + (i + 1) = c + 1 + i := fun c i => by omega
    rw [bswap]
    refine ⟨fun i hi => ?_, fun i hi => ?_, fun i hi hi' => ?_⟩
    · cases i with
      | zero =>
        rw [hx.rest _ (by omega) (by omega), Function.update_of_ne (by omega)]
        exact Function.update_self a (m b) m
      | succ i =>
        have hfst := hx.fst i (by omega)
        rw [hother _ (by omega) (by omega)] at hfst
        rwa [hshift a i, hshift b i]
    · cases i with
      | zero =>
        rw [hx.rest _ (by omega) (by omega)]
        exact Function.update_self b (m a) (Function.update m a (m b))
      | succ i =>
        have hsnd := hx.snd i (by omega)
        rw [hother _ (by omega) (by omega)] at hsnd
        rwa [hshift a i, hshift b i]
    · rw [hx.rest i (by omega) (by omega)]
      exact hother i (by omega) (by omega)

/-- The bytes outside of an array are as they were. -/
def Outside (base len : ℕ) (m m' : Bytes) : Prop := ∀ i, i < base ∨ base + len ≤ i → m' i = m i

lemma Outside.refl (base len : ℕ) (m : Bytes) : Outside base len m m := fun _ _ => rfl

lemma Outside.trans {m₁ m₂ m₃ : Bytes} {len : ℕ} (h : Outside base len m₁ m₂)
    (h' : Outside base len m₂ m₃) : Outside base len m₁ m₃ := fun i hi => (h' i hi).trans (h i hi)

lemma Outside.mono {base' len len' : ℕ} (h : Outside base' len' m m') (hge : base ≤ base')
    (hle : base' + len' ≤ base + len) : Outside base len m m' := fun i hi => h i (by omega)

/-- `bswap` exchanges two elements of an array. -/
lemma elems_bswap (h : elems m base sz n = l₁ ++ x :: (l₂ ++ y :: l₃)) {i j : ℕ}
    (hi : i = l₁.length) (hj : j = l₁.length + 1 + l₂.length) :
    elems (bswap m (base + i * sz) (base + j * sz) sz) base sz n = l₁ ++ y :: (l₂ ++ x :: l₃) ∧
      Outside base (n * sz) m (bswap m (base + i * sz) (base + j * sz) sz) := by
  subst hi hj
  have haddr : base + (l₁.length + 1 + l₂.length) * sz =
      base + l₁.length * sz + sz + l₂.length * sz := by ring
  have hlen := congrArg List.length h
  rw [length_elems] at hlen
  simp only [List.length_append, List.length_cons] at hlen
  have hend : base + l₁.length * sz + sz + l₂.length * sz + sz + l₃.length * sz =
      base + n * sz := by
    rw [hlen]
    ring
  rw [haddr]
  have hx := @exchanged_bswap m sz (base + l₁.length * sz)
    (base + l₁.length * sz + sz + l₂.length * sz) (Nat.le_add_right _ _)
  exact ⟨elems_exchanged h hx, fun i hi => hx.rest i (by omega) (by omega)⟩

/-- An element of an array. -/
lemma slice_of_elems (h : elems m base sz n = l ++ x :: r) {i : ℕ} (hi : i = l.length) :
    Bytes.slice m (base + i * sz) sz = x := by
  subst hi
  exact (elems_eq_cons_iff.mp (elems_eq_append_iff.mp h).2.2).2.1

/-- The array holds what it held before, in order, and no other byte has changed. -/
structure Sorts (cmp : Cmp) (m m' : Bytes) (base n sz : ℕ) : Prop where
  perm : (elems m' base sz n).Perm (elems m base sz n)
  sorted : Sorted cmp (elems m' base sz n)
  outside : Outside base (n * sz) m m'

/-! ## Insertion sort -/

/-- The inner loop takes an element to its place. -/
lemma isortInner_spec {L T R : List (List UInt8)} (hord : Ordered cmp (elems m base sz n))
    (h : elems m base sz n = L ++ x :: (T ++ R)) (hs : Sorted cmp (L ++ T))
    (hT : ∀ t ∈ T, cmp x t ≤ 0) {i : ℕ} (hi : i = L.length) :
    ∃ L' T', elems (isortInner cmp base sz i m) base sz n = L' ++ x :: (T' ++ R) ∧
      L' ++ T' = L ++ T ∧ (∀ a ∈ L', cmp a x ≤ 0) ∧ (∀ t ∈ T', cmp x t ≤ 0) ∧
      Outside base (n * sz) m (isortInner cmp base sz i m) := by
  induction L using List.reverseRecOn generalizing m T i with
  | nil =>
    subst hi
    exact ⟨[], T, h, rfl, fun a ha => absurd ha List.not_mem_nil, hT, .refl _ _ _⟩
  | append_singleton L y ih =>
    rw [List.length_append, List.length_singleton] at hi
    subst hi
    have h' : elems m base sz n = L ++ y :: ([] ++ x :: (T ++ R)) := by
      rw [h, List.append_assoc, List.singleton_append, List.nil_append]
    have hy := slice_of_elems h' rfl
    have hx := slice_of_elems h (i := L.length + 1)
      (by rw [List.length_append, List.length_singleton])
    have hymem : y ∈ elems m base sz n := h' ▸ List.mem_append_right _ List.mem_cons_self
    have hxmem : x ∈ elems m base sz n := h ▸ List.mem_append_right _ List.mem_cons_self
    rw [isortInner, cmpAt, hy, hx]
    by_cases hpos : 0 < cmp y x
    · obtain ⟨helems, hout⟩ := elems_bswap h' (i := L.length) (j := L.length + 1) rfl rfl
      have hperm : (elems m base sz n).Perm (L ++ x :: ([] ++ y :: (T ++ R))) := by
        rw [h']
        exact List.Perm.append_left L (List.Perm.swap x y _)
      have hord' := hord.mono (helems ▸ hperm.symm.subset)
      have hs' : Sorted cmp (L ++ y :: T) := by
        rw [List.append_assoc] at hs
        exact hs
      have hmore : ∀ t ∈ y :: T, cmp x t ≤ 0 := by
        intro t ht
        rcases List.mem_cons.mp ht with rfl | ht
        · exact hord.le_of_pos hymem hxmem hpos
        · exact hT t ht
      rw [if_pos hpos]
      obtain ⟨L', T', hres, heq, hL', hT', hout'⟩ := ih hord' helems hs' hmore rfl
      refine ⟨L', T', hres, ?_, hL', hT', hout.trans hout'⟩
      rw [heq, List.append_assoc, List.singleton_append]
    · rw [if_neg hpos]
      refine ⟨L ++ [y], T, h, rfl, fun a ha => ?_, hT, .refl _ _ _⟩
      have hle := not_lt.mp hpos
      rcases List.mem_append.mp ha with ha | ha
      · -- what is below the last element is below the new one
        rw [List.append_assoc, List.singleton_append] at hs
        have hay := (sorted_append_cons_iff.mp hs).2.1 a ha
        exact hord.trans a (h' ▸ List.mem_append_left _ ha) y hymem x hxmem hay hle
      · rw [List.mem_singleton.mp ha]
        exact hle

/-- The outer loop sorts longer and longer parts of the array. -/
lemma isortOuter_spec {S R : List (List UInt8)} (hord : Ordered cmp (elems m base sz n))
    (h : elems m base sz n = S ++ R) (hs : Sorted cmp S) {i k : ℕ} (hi : i = S.length)
    (hk : k = R.length) : Sorts cmp m (isortOuter cmp base sz k i m) base n sz := by
  induction R generalizing m S i k with
  | nil =>
    subst hk
    rw [List.append_nil] at h
    exact ⟨List.Perm.refl _, h ▸ hs, .refl _ _ _⟩
  | cons x R ih =>
    subst hk
    obtain ⟨L', T', hres, heq, hL', hT', hout⟩ := isortInner_spec (T := []) hord h
      (by rwa [List.append_nil]) (fun t ht => absurd ht List.not_mem_nil) hi
    rw [List.append_nil] at heq
    have hperm : (elems (isortInner cmp base sz i m) base sz n).Perm (elems m base sz n) := by
      rw [hres, h, ← heq]
      refine List.perm_middle.trans ?_
      rw [← List.append_assoc]
      exact List.perm_middle.symm
    have hsorted : Sorted cmp (L' ++ x :: T') := sorted_append_cons_iff.mpr ⟨heq ▸ hs, hL', hT'⟩
    have hlen : i + 1 = (L' ++ x :: T').length := by
      rw [hi, ← heq, List.length_append, List.length_append, List.length_cons]
      omega
    rw [List.length_cons, isortOuter]
    have hnext := ih (hord.mono hperm.subset)
      (hres.trans (by rw [List.append_assoc, List.cons_append]))
      hsorted hlen rfl
    exact ⟨hnext.perm.trans hperm, hnext.sorted, hout.trans hnext.outside⟩

/-- `isort` sorts. -/
lemma sorts_isort (hord : Ordered cmp (elems m base sz n)) :
    Sorts cmp m (isort cmp m base n sz) base n sz := by
  have hlen := length_elems m base sz n
  rw [isort]
  cases helems : elems m base sz n with
  | nil =>
    rw [helems] at hlen
    subst hlen
    exact ⟨List.Perm.refl _, sorted_of_length_le_one (by rw [length_elems]; exact Nat.zero_le 1),
      .refl _ _ _⟩
  | cons x R =>
    rw [helems, List.length_cons] at hlen
    exact isortOuter_spec (S := [x]) hord helems (sorted_of_length_le_one le_rfl) rfl (by omega)

/-! ## Quicksort -/

lemma exists_append_cons {i : ℕ} (h : i < l.length) :
    ∃ l₁ x l₂, l = l₁ ++ x :: l₂ ∧ i = l₁.length := by
  refine ⟨l.take i, l[i], l.drop (i + 1), ?_, ?_⟩
  · rw [← List.drop_eq_getElem_cons h, List.take_append_drop]
  · rw [List.length_take, Nat.min_eq_left h.le]

/-- Exchanging two elements rearranges an array. -/
lemma bswap_perm {i j : ℕ} (hle : i ≤ j) (hj : j < n) :
    (elems (bswap m (base + i * sz) (base + j * sz) sz) base sz n).Perm (elems m base sz n) ∧
      Outside base (n * sz) m (bswap m (base + i * sz) (base + j * sz) sz) := by
  rcases hle.eq_or_lt with rfl | hlt
  · rw [bswap_self]
    exact ⟨List.Perm.refl _, .refl _ _ _⟩
  · obtain ⟨l₁, x, r, h, hi⟩ := exists_append_cons (l := elems m base sz n) (i := i)
      (by rw [length_elems]; omega)
    have hlen := congrArg List.length h
    rw [length_elems, List.length_append, List.length_cons] at hlen
    obtain ⟨l₂, y, l₃, rfl, hl₂⟩ := exists_append_cons (l := r) (i := j - i - 1) (by omega)
    obtain ⟨helems, hout⟩ := elems_bswap h hi (show j = l₁.length + 1 + l₂.length by omega)
    refine ⟨?_, hout⟩
    rw [helems, h, List.perm_iff_count]
    intro z
    simp only [List.count_append, List.count_cons]
    omega

/-- The loop collects the elements up to the pivot in front. -/
lemma partitionLoop_spec {A B C : List (List UInt8)} {i j k piv : ℕ}
    (h : elems m base sz n = A ++ (B ++ (C ++ [p]))) (hA : ∀ a ∈ A, cmp a p ≤ 0)
    (hB : ∀ b ∈ B, 0 < cmp b p) (hi : i = A.length) (hj : j = A.length + B.length)
    (hk : k = C.length) (hpiv : piv = base + (n - 1) * sz) :
    ∃ A' B', (partitionLoop cmp base sz piv k j i m).2 = A'.length ∧
      elems (partitionLoop cmp base sz piv k j i m).1 base sz n = A' ++ (B' ++ [p]) ∧
      (A' ++ B').Perm (A ++ (B ++ C)) ∧ (∀ a ∈ A', cmp a p ≤ 0) ∧ (∀ b ∈ B', 0 < cmp b p) ∧
      Outside base (n * sz) m (partitionLoop cmp base sz piv k j i m).1 := by
  induction C generalizing m A B i j k with
  | nil =>
    subst hk
    refine ⟨A, B, hi, h, ?_, hA, hB, .refl _ _ _⟩
    rw [List.append_nil]
  | cons c C ih =>
    subst hk hpiv
    have hlen := congrArg List.length h
    rw [length_elems] at hlen
    simp only [List.length_append, List.length_cons, List.length_nil] at hlen
    have hc : Bytes.slice m (base + j * sz) sz = c := by
      have hcat : elems m base sz n = (A ++ B) ++ c :: (C ++ [p]) := by
        rw [h, List.append_assoc, List.cons_append]
      exact slice_of_elems hcat (by rw [hj, List.length_append])
    have hp : Bytes.slice m (base + (n - 1) * sz) sz = p := by
      have hcat : elems m base sz n = (A ++ (B ++ c :: C)) ++ p :: [] := by
        rw [h, List.append_assoc, List.append_assoc]
      refine slice_of_elems hcat ?_
      simp only [List.length_append, List.length_cons]
      omega
    rw [List.length_cons, partitionLoop, cmpAt, hc, hp]
    by_cases hle : cmp c p ≤ 0
    · have hA' : ∀ a ∈ A ++ [c], cmp a p ≤ 0 := by
        intro a ha
        rcases List.mem_append.mp ha with ha | ha
        · exact hA a ha
        · rw [List.mem_singleton.mp ha]
          exact hle
      have hi' : i + 1 = (A ++ [c]).length := by rw [hi, List.length_append, List.length_singleton]
      rw [if_pos hle]
      cases B with
      | nil =>
        obtain rfl : i = j := by rw [hi, hj, List.length_nil, Nat.add_zero]
        rw [bswap_self]
        obtain ⟨A', B', hidx, helems, hperm, hle', hgt, hout⟩ := ih (A := A ++ [c]) (B := [])
          (by rw [h, List.append_assoc]; rfl) hA' hB hi' hi' rfl
        refine ⟨A', B', hidx, helems, hperm.trans ?_, hle', hgt, hout⟩
        rw [List.append_assoc]
        rfl
      | cons b B =>
        have hmiddle : elems m base sz n = A ++ b :: (B ++ c :: (C ++ [p])) := h
        obtain ⟨hswap, hout⟩ := elems_bswap hmiddle hi (show j = A.length + 1 + B.length by
          rw [hj, List.length_cons]; omega)
        have hB' : ∀ d ∈ B ++ [b], 0 < cmp d p := by
          intro d hd
          rcases List.mem_append.mp hd with hd | hd
          · exact hB d (List.mem_cons_of_mem _ hd)
          · exact hB d (List.mem_singleton.mp hd ▸ List.mem_cons_self)
        have hcat : elems (bswap m (base + i * sz) (base + j * sz) sz) base sz n =
            (A ++ [c]) ++ ((B ++ [b]) ++ (C ++ [p])) := by
          rw [hswap]
          simp only [List.append_assoc, List.cons_append, List.nil_append]
        have hj' : j + 1 = (A ++ [c]).length + (B ++ [b]).length := by
          rw [hj]
          simp only [List.length_append, List.length_cons, List.length_nil]
          omega
        obtain ⟨A', B', hidx, helems, hperm, hle', hgt, hout'⟩ := ih hcat hA' hB' hi' hj' rfl
        refine ⟨A', B', hidx, helems, hperm.trans ?_, hle', hgt, hout.trans hout'⟩
        rw [List.perm_iff_count]
        intro z
        simp only [List.count_append, List.count_cons, List.count_nil]
        omega
    · have hB' : ∀ d ∈ B ++ [c], 0 < cmp d p := by
        intro d hd
        rcases List.mem_append.mp hd with hd | hd
        · exact hB d hd
        · rw [List.mem_singleton.mp hd]
          exact not_le.mp hle
      rw [if_neg hle]
      have hcat : elems m base sz n = A ++ ((B ++ [c]) ++ (C ++ [p])) := by
        rw [h]
        simp only [List.append_assoc, List.cons_append, List.nil_append]
      have hj' : j + 1 = A.length + (B ++ [c]).length := by
        rw [hj, List.length_append, List.length_singleton, Nat.add_assoc]
      obtain ⟨A', B', hidx, helems, hperm, hle', hgt, hout⟩ := ih hcat hA hB' hi hj' rfl
      refine ⟨A', B', hidx, helems, hperm.trans ?_, hle', hgt, hout⟩
      rw [List.append_assoc, List.singleton_append]

/-- The median is one of the three elements. -/
lemma med3_mem (cmp : Cmp) (m : Bytes) (sz a b c : ℕ) :
    med3 cmp m sz a b c = a ∨ med3 cmp m sz a b c = b ∨ med3 cmp m sz a b c = c := by
  unfold med3
  split_ifs
  · exact Or.inr (Or.inl rfl)
  · exact Or.inr (Or.inr rfl)
  · exact Or.inl rfl
  · exact Or.inr (Or.inl rfl)
  · exact Or.inr (Or.inr rfl)
  · exact Or.inl rfl

/-- The partition puts the pivot between what is not above it and what is above it. -/
lemma partition_spec (cmp : Cmp) (m : Bytes) (base sz : ℕ) (hn : 0 < n) :
    ∃ A p B, (partition cmp m base n sz).2 = A.length ∧
      elems (partition cmp m base n sz).1 base sz n = A ++ p :: B ∧
      (A ++ p :: B).Perm (elems m base sz n) ∧ (∀ a ∈ A, cmp a p ≤ 0) ∧ (∀ b ∈ B, 0 < cmp b p) ∧
      Outside base (n * sz) m (partition cmp m base n sz).1 := by
  obtain ⟨q, hq, hmed⟩ : ∃ q ≤ n - 1,
      med3 cmp m sz base (base + n / 2 * sz) (base + (n - 1) * sz) = base + q * sz := by
    rcases med3_mem cmp m sz base (base + n / 2 * sz) (base + (n - 1) * sz) with h | h | h
    · exact ⟨0, Nat.zero_le _, by rw [h, Nat.zero_mul, Nat.add_zero]⟩
    · exact ⟨n / 2, by omega, h⟩
    · exact ⟨n - 1, le_rfl, h⟩
  rw [partition, hmed]
  dsimp only
  obtain ⟨hperm, hout⟩ := @bswap_perm m base n sz q (n - 1) hq (by omega)
  generalize bswap m (base + q * sz) (base + (n - 1) * sz) sz = m₁ at hperm hout ⊢
  -- the pivot is the last element
  obtain ⟨X, p, hX⟩ : ∃ X p, elems m₁ base sz n = X ++ [p] := by
    rcases List.eq_nil_or_concat (elems m₁ base sz n) with h | ⟨X, p, h⟩
    · have hlen := congrArg List.length h
      rw [length_elems, List.length_nil] at hlen
      omega
    · exact ⟨X, p, by rw [h, List.concat_eq_append]⟩
  have hlen := congrArg List.length hX
  rw [length_elems, List.length_append, List.length_singleton] at hlen
  obtain ⟨A, B, hidx, helems, hperm', hA, hB, hout'⟩ :=
    @partitionLoop_spec cmp m₁ base n sz p [] [] X
    0 0 (n - 1) _ hX (fun a ha => absurd ha List.not_mem_nil)
      (fun b hb => absurd hb List.not_mem_nil)
    rfl rfl (by omega) rfl
  rw [hidx]
  generalize (partitionLoop cmp base sz (base + (n - 1) * sz) (n - 1) 0 0 m₁).1 =
    m₂ at helems hout' ⊢
  have hlen' := congrArg List.length helems
  rw [length_elems, List.length_append, List.length_append, List.length_singleton] at hlen'
  rw [hX] at hperm
  cases B with
  | nil =>
    have hlast : n - 1 = A.length := by rw [hlen', List.length_nil]; omega
    rw [hlast, bswap_self]
    refine ⟨A, p, [], rfl, helems, ?_, hA, hB, hout.trans hout'⟩
    rw [List.append_nil] at hperm'
    exact (List.Perm.append_right [p] hperm').trans hperm
  | cons b B =>
    obtain ⟨hswap, hout''⟩ := @elems_bswap m₂ base n sz A B [] b p helems A.length (n - 1) rfl (by
      rw [hlen', List.length_cons]; omega)
    refine ⟨A, p, B ++ [b], rfl, hswap, ?_, hA, ?_, (hout.trans hout').trans hout''⟩
    · have hmove : (A ++ p :: (B ++ [b])).Perm ((A ++ b :: B) ++ [p]) := by
        rw [List.perm_iff_count]
        intro z
        simp only [List.count_append, List.count_cons, List.count_nil]
        omega
      exact (hmove.trans (List.Perm.append_right [p] hperm')).trans hperm
    · intro d hd
      rcases List.mem_append.mp hd with hd | hd
      · exact hB d (List.mem_cons_of_mem _ hd)
      · exact hB d (List.mem_singleton.mp hd ▸ List.mem_cons_self)

/-- Sorting what is in front of an element leaves what is behind it. -/
lemma elems_behind {A B : List (List UInt8)} {m₁ : Bytes} (h : elems m base sz n = A ++ p :: B)
    (hl : Sorts cmp m m₁ base A.length sz) :
    elems m₁ (base + (A.length + 1) * sz) sz B.length = B := by
  have haddr : base + (A.length + 1) * sz = base + A.length * sz + sz := by ring
  have hB := (elems_eq_cons_iff.mp (elems_eq_append_iff.mp h).2.2).2.2
  rw [haddr, ← hB, length_elems]
  exact elems_congr fun i hi _ => hl.outside i (by omega)

/-- Sorting what is on both sides of an element leaves that element between them. -/
lemma elems_halves {A B : List (List UInt8)} {m₁ m₂ : Bytes} (h : elems m base sz n = A ++ p :: B)
    (hl : Sorts cmp m m₁ base A.length sz)
    (hr : Sorts cmp m₁ m₂ (base + (A.length + 1) * sz) B.length sz) :
    ∃ A' B', elems m₂ base sz n = A' ++ p :: B' ∧ A'.Perm A ∧ Sorted cmp A' ∧ B'.Perm B ∧
      Sorted cmp B' ∧ Outside base (n * sz) m m₂ := by
  obtain ⟨hn, hA, hlen, hp, -⟩ : n = A.length + (p :: B).length ∧ elems m base sz A.length = A ∧
      (p :: B).length = 1 + B.length ∧ Bytes.slice m (base + A.length * sz) sz = p ∧
      elems m (base + A.length * sz + sz) sz B.length = B := by
    rwa [← elems_eq_cons_iff, ← elems_eq_append_iff]
  have haddr : base + (A.length + 1) * sz = base + A.length * sz + sz := by ring
  have hend : base + A.length * sz + sz + B.length * sz = base + n * sz := by
    rw [hn, hlen]
    ring
  have hright := elems_behind h hl
  rw [haddr] at hr hright
  have hleft : elems m₂ base sz A.length = elems m₁ base sz A.length :=
    elems_congr fun i _ hi => hr.outside i (by omega)
  have hpivot : Bytes.slice m₂ (base + A.length * sz) sz = p := by
    rw [← hp]
    refine Bytes.slice_congr fun i hi => ?_
    rw [hr.outside _ (by omega), hl.outside _ (by omega)]
  refine ⟨elems m₁ base sz A.length, elems m₂ (base + A.length * sz + sz) sz B.length,
    ?_, ?_, hl.sorted, ?_, hr.sorted, ?_⟩
  · rw [elems_eq_append_iff, elems_eq_cons_iff, List.length_cons, length_elems, length_elems]
    exact ⟨hn, hleft, Nat.add_comm _ 1, hpivot, rfl⟩
  · have hperm := hl.perm
    rwa [hA] at hperm
  · have hperm := hr.perm
    rwa [hright] at hperm
  · exact (hl.outside.mono le_rfl (by omega)).trans (hr.outside.mono (by omega) (by omega))

/-- `qsort_impl` sorts. -/
theorem sorts_qsortImpl (hord : Ordered cmp (elems m base sz n)) :
    Sorts cmp m (qsortImpl cmp m base n sz) base n sz := by
  induction n using Nat.strong_induction_on generalizing m base with
  | _ n ih =>
    have hshort : ∀ {m : Bytes} {base n : ℕ}, n ≤ 1 → Sorts cmp m m base n sz := fun hle =>
      ⟨List.Perm.refl _, sorted_of_length_le_one (by rwa [length_elems]), .refl _ _ _⟩
    rw [qsortImpl]
    by_cases hn : n < 2
    · rw [if_pos hn]
      exact hshort (Nat.le_of_lt_succ hn)
    rw [if_neg hn]
    by_cases hsmall : n ≤ isortMax
    · rw [if_pos hsmall]
      exact sorts_isort hord
    rw [if_neg hsmall]
    obtain ⟨A, p, B, hidx, helems, hperm, hA, hB, hout⟩ :=
      partition_spec cmp m base sz (n := n) (by omega)
    rw [hidx]
    generalize (partition cmp m base n sz).1 = m₁ at helems hout ⊢
    have hlen := congrArg List.length helems
    rw [length_elems, List.length_append, List.length_cons] at hlen
    have hordp := hord.mono hperm.subset
    -- the left part
    have hl : Sorts cmp m₁ (if 0 < A.length then qsortImpl cmp m₁ base A.length sz else m₁) base
        A.length sz := by
      by_cases hpos : 0 < A.length
      · rw [if_pos hpos]
        refine ih _ (by omega) ?_
        rw [(elems_eq_append_iff.mp helems).2.1]
        exact hordp.mono (List.subset_append_left _ _)
      · rw [if_neg hpos]
        exact hshort (by omega)
    dsimp only
    generalize (if 0 < A.length then qsortImpl cmp m₁ base A.length sz else m₁) = m₂ at hl ⊢
    -- the right part
    have hr : Sorts cmp m₂ (if 2 < n - A.length then
        qsortImpl cmp m₂ (base + (A.length + 1) * sz) (n - A.length - 1) sz else m₂)
        (base + (A.length + 1) * sz) B.length sz := by
      have hrest : n - A.length - 1 = B.length := by omega
      by_cases hmore : 2 < n - A.length
      · rw [if_pos hmore, hrest]
        refine ih _ (by omega) ?_
        rw [elems_behind helems hl]
        exact hordp.mono fun b hb => List.mem_append_right _ (List.mem_cons_of_mem _ hb)
      · rw [if_neg hmore]
        exact hshort (by omega)
    obtain ⟨A', B', hres, hA', hsA, hB', hsB, hout'⟩ := elems_halves helems hl hr
    have hparts : (A' ++ p :: B').Perm (A ++ p :: B) := hA'.append (hB'.cons p)
    have hpmem : p ∈ A ++ p :: B := List.mem_append_right _ List.mem_cons_self
    refine ⟨hres ▸ hparts.trans hperm, hres ▸ ?_, hout.trans hout'⟩
    apply sorted_pivot (hordp.mono hparts.subset) hsA hsB
    · exact fun a ha => hA a (hA'.mem_iff.mp ha)
    · intro b hb
      have hbB := hB'.mem_iff.mp hb
      exact hordp.le_of_pos (List.mem_append_right _ (List.mem_cons_of_mem _ hbB)) hpmem (hB b hbB)

/-! ## Searching -/

/-- What the search finds: an element that compares equal to the key, if there is one. -/
structure Finds (cmp : Cmp) (key : List UInt8) (m : Bytes) (base n sz : ℕ)
    (r : Option ℕ) : Prop where
  found : ∀ a ∈ r, ∃ k < n, a = base + k * sz ∧ cmp key (Bytes.slice m a sz) = 0
  missing : r = none ↔ ∀ x ∈ elems m base sz n, cmp key x ≠ 0

variable {key : List UInt8} {addr : Option ℕ}

/-- A search in the part behind an element, where the part in front and the element are not equal to
the key. -/
lemma Finds.right (h : elems m base sz n = l ++ x :: r) (hl : ∀ y ∈ l, cmp key y ≠ 0)
    (hx : cmp key x ≠ 0) (hf : Finds cmp key m (base + (l.length + 1) * sz) r.length sz addr)
    (hr : elems m (base + (l.length + 1) * sz) sz r.length = r) :
    Finds cmp key m base n sz addr := by
  have hlen := congrArg List.length h
  rw [length_elems, List.length_append, List.length_cons] at hlen
  constructor
  · intro a ha
    obtain ⟨k, hk, rfl, hzero⟩ := hf.found a ha
    exact ⟨l.length + 1 + k, by omega, by ring, hzero⟩
  · rw [hf.missing, hr, h]
    constructor
    · intro hne y hy
      rcases List.mem_append.mp hy with hy | hy
      · exact hl y hy
      · rcases List.mem_cons.mp hy with rfl | hy
        · exact hx
        · exact hne y hy
    · exact fun hne y hy => hne y (List.mem_append_right _ (List.mem_cons_of_mem _ hy))

/-- A search in the part in front of an element, where the element and the part behind it are not
equal to the key. -/
lemma Finds.left (h : elems m base sz n = l ++ x :: r) (hr : ∀ y ∈ r, cmp key y ≠ 0)
    (hx : cmp key x ≠ 0) (hf : Finds cmp key m base l.length sz addr) :
    Finds cmp key m base n sz addr := by
  obtain ⟨hn, hl, -⟩ := elems_eq_append_iff.mp h
  rw [List.length_cons] at hn
  constructor
  · intro a ha
    obtain ⟨k, hk, haddr, hzero⟩ := hf.found a ha
    exact ⟨k, by omega, haddr, hzero⟩
  · rw [hf.missing, hl, h]
    constructor
    · intro hne y hy
      rcases List.mem_append.mp hy with hy | hy
      · exact hne y hy
      · rcases List.mem_cons.mp hy with rfl | hy
        · exact hx
        · exact hr y hy
    · exact fun hne y hy => hne y (List.mem_append_left _ hy)

/-- The search halves what is left of a sorted array and never drops an element equal to the key. -/
theorem finds_bsearchLoop (hord : Ordered cmp (key :: elems m base sz n))
    (hs : Sorted cmp (elems m base sz n)) :
    Finds cmp key m base n sz (bsearchLoop cmp key m sz base n) := by
  induction n using Nat.strong_induction_on generalizing base with
  | _ n ih =>
    rw [bsearchLoop]
    by_cases hpos : 0 < n
    · obtain ⟨l, x, r, h, hmid⟩ := exists_append_cons (l := elems m base sz n) (i := n / 2)
        (by rw [length_elems]; omega)
      have hlen := congrArg List.length h
      rw [length_elems, List.length_append, List.length_cons] at hlen
      have hx := slice_of_elems h hmid
      rw [if_pos hpos, hx]
      dsimp only
      by_cases hzero : cmp key x = 0
      · rw [if_pos hzero]
        constructor
        · intro a ha
          obtain rfl := Option.some.inj ha
          exact ⟨n / 2, by omega, rfl, by rwa [hx]⟩
        · refine ⟨fun hnone => absurd hnone (Option.some_ne_none _), fun hne => ?_⟩
          exact absurd hzero (hne x (h ▸ List.mem_append_right _ List.mem_cons_self))
      rw [if_neg hzero]
      have hordl := hord
      have hsl := hs
      rw [h] at hordl hsl
      by_cases hgt : 0 < cmp key x
      · -- the key is above the middle element
        have hrest : n - (n / 2 + 1) = r.length := by omega
        have hr := (elems_eq_cons_iff.mp (elems_eq_append_iff.mp h).2.2).2.2
        have haddr : base + (l.length + 1) * sz = base + l.length * sz + sz := by ring
        rw [← haddr] at hr
        rw [if_pos hgt, hrest, hmid]
        refine Finds.right h (ne_zero_of_pos hordl hsl hgt) hzero (ih _ (by omega) ?_ ?_) hr
        · rw [hr]
          exact hordl.mono (List.cons_subset_cons _ fun y hy =>
            List.mem_append_right _ (List.mem_cons_of_mem _ hy))
        · rw [hr]
          exact (List.pairwise_append.mp hsl).2.1.of_cons
      · -- the key is below it
        have hlt := lt_of_le_of_ne (not_lt.mp hgt) hzero
        have hl := (elems_eq_append_iff.mp h).2.1
        rw [if_neg hgt, hmid]
        refine Finds.left h (ne_zero_of_neg hordl hsl hlt) hzero (ih _ (by omega) ?_ ?_)
        · rw [hl]
          exact hordl.mono (List.cons_subset_cons _ (List.subset_append_left _ _))
        · rw [hl]
          exact (List.pairwise_append.mp hsl).1
    · obtain rfl := Nat.eq_zero_of_not_pos hpos
      rw [if_neg hpos]
      exact ⟨fun a ha => absurd ha (Option.not_mem_none a),
        fun _ y hy => absurd hy List.not_mem_nil, fun _ => rfl⟩

/-! ## The library's functions -/

/-- A comparison of the values that elements stand for is a total preorder. -/
lemma ordered_sub (f : List UInt8 → ℤ) (l : List (List UInt8)) :
    Ordered (fun a b => f a - f b) l where
  swap a _ b _ := by omega
  trans a _ b _ c _ hab hbc := by omega

/-- `ksort` sorts an array by any total preorder of its elements, and `kbsearch` finds in a sorted
array an element equal to the key if there is one. -/
theorem ksort_sorts_kbsearch_finds (cmp : Cmp) (m : Bytes) (base n sz : ℕ) :
    (Ordered cmp (elems m base sz n) → Sorts cmp m (ksort cmp m base n sz) base n sz) ∧
      ∀ key, Ordered cmp (key :: elems m base sz n) → Sorted cmp (elems m base sz n) →
        Finds cmp key m base n sz (kbsearch cmp key m base n sz) :=
  ⟨sorts_qsortImpl, fun _ => finds_bsearchLoop⟩

/-- Twelve falling bytes are sorted, and a byte is searched for in twelve rising ones. -/
theorem ksort_sorts_kbsearch_finds_bytes :
    let cmp : Cmp := fun a b => ((a.headD 0).toNat : ℤ) - ((b.headD 0).toNat : ℤ)
    let down : Bytes := fun i => UInt8.ofNat (12 - i)
    let up : Bytes := fun i => UInt8.ofNat (i / 2)
    Sorts cmp down (ksort cmp down 0 12 1) 0 12 1 ∧
    Finds cmp [3] up 0 12 1 (kbsearch cmp [3] up 0 12 1) :=
  ⟨(ksort_sorts_kbsearch_finds _ _ 0 12 1).1 (ordered_sub (fun a => ((a.headD 0).toNat : ℤ)) _),
    (ksort_sorts_kbsearch_finds _ _ 0 12 1).2 [3] (ordered_sub (fun a => ((a.headD 0).toNat : ℤ)) _)
      (by decide)⟩

end Ksort

end CoolFrost
