import CoolFrost.Fs.Fat32.ByteArrays
import CoolFrost.Fs.Fat32.OneFile
import CoolFrost.Fs.Fat32.Steps
import CoolFrost.Fs.Fat32.TableDrive

/-!
# FAT32: defragmenting a file

`fat32_defrag_one` copies the clusters of a fragmented file to a run of free clusters, lets the
directory entry point to the run and frees the old clusters.  When it moves a file, the file keeps
its bytes and everything else stays as it was; when it does not, nothing in use changes.
-/

namespace CoolFrost

open Program

namespace Fat32

variable {fs : Fat32Fs} {v : Volume}

/-! ## The loops -/

/-- A chain is one run of clusters. -/
def Contiguous (l : List ℕ) : Prop := ∃ start, l = List.range' start l.length

/-- A run that is extended by its next cluster is a run. -/
lemma append_eq_range' {first x c : ℕ} {l : List ℕ} :
    l ++ [x] ++ [c] = List.range' first (l.length + 2) ↔
      l ++ [x] = List.range' first (l.length + 1) ∧ c = x + 1 := by
  have hlast : ∀ n, List.range' first (n + 1) = List.range' first n ++ [first + n] := by
    intro n
    rw [List.range'_concat, Nat.one_mul]
  rw [hlast (l.length + 1)]
  constructor
  · intro h
    obtain ⟨h, hc⟩ := List.append_inj' h rfl
    refine ⟨h, ?_⟩
    rw [hlast l.length] at h
    obtain ⟨-, hx⟩ := List.append_inj' h rfl
    have hx' := (List.cons.inj hx).1
    have hc' := (List.cons.inj hc).1
    omega
  · rintro ⟨h, rfl⟩
    rw [h]
    rw [hlast l.length] at h
    obtain ⟨-, hx⟩ := List.append_inj' h rfl
    rw [(List.cons.inj hx).1, Nat.add_assoc]

/-- The walk over the chain finds its length, and whether it is one run. -/
lemma wp_measureChain (hl : Layout fs) {first : ℕ} {l : List ℕ} (h : ChainAt fs v.fat first l)
    (hne : l ≠ []) :
    (fat32View fs).wp (measureChain fs first) (fun r v' => v' = v ∧ r.1 = l.length ∧
      (r.2 = true ↔ l = List.range' first l.length)) v := by
  -- the clusters up to the current one have been looked at
  refine View.wp_iter (fun p v' => v' = v ∧ ∃ l₁ l₂, l = l₁ ++ p.1 :: l₂ ∧ p.2.1 = l₁.length + 1 ∧
      (p.2.2 = true ↔ l₁ ++ [p.1] = List.range' first (l₁.length + 1)))
    (fun p _ => l.length - p.2.1) ?_ ?_ ?_
  · rintro ⟨prev, n, ok⟩ v ⟨rfl, l₁, l₂, rfl, hn, hok⟩
    simp only at hn hok
    have hchain : ChainAt fs v.fat prev (prev :: l₂) := h.drop
    refine View.wp_bind (wp_next hl hchain.2.1.lt) ?_
    rintro _ v ⟨rfl, rfl⟩
    refine View.wp_ite (fun hlt => View.wp_pure ?_) fun hge => View.wp_pure ?_
    · obtain ⟨l₃, rfl, -, -⟩ := ChainAt.step hchain.2.2 hlt
      refine ⟨⟨rfl, l₁ ++ [prev], l₃, by simp, by simp [hn], ?_⟩, by simp; omega⟩
      have hsucc : u32 (prev + 1) = prev + 1 := InRange.u32_succ hl hchain.2.1.2
      simp only [Bool.and_eq_true, beq_iff_eq, hok, hsucc, List.length_append, List.length_cons,
        List.length_nil]
      exact append_eq_range'.symm
    · have hnil := ChainAt.eq_nil hl hchain.2.2 hge
      subst hnil
      refine ⟨rfl, by simp [hn], ?_⟩
      simpa using hok
  · obtain ⟨c, l', rfl⟩ := List.exists_cons_of_ne_nil hne
    obtain ⟨rfl, -⟩ := h
    exact ⟨rfl, [], l', rfl, rfl, by simp⟩
  · have hlen := h.length_le hl
    have hfuel := hl.lt_loopFuel
    simp only
    omega

/-- A table with the entries of a run set to 0. -/
def clearRun (fat : ℕ → ℕ) (start len : ℕ) (c : ℕ) : ℕ :=
  if start ≤ c ∧ c < start + len then 0 else fat c

lemma clearRun_succ (fat : ℕ → ℕ) (start len : ℕ) :
    Function.update (clearRun fat start len) (start + len) 0 = clearRun fat start (len + 1) := by
  funext c
  simp only [Function.update_apply, clearRun]
  split_ifs <;> first | rfl | omega

/-- Freeing a run. -/
lemma wp_freeRun (hl : Layout fs) {start len : ℕ} (hend : start + len ≤ fs.totalClusters + 2) :
    (fat32View fs).wp (freeRun fs start len) (fun _ v' =>
      v' = { v with fat := clearRun v.fat start len }) v := by
  refine View.wp_iter (fun i v' => i ≤ len ∧ v' = { v with fat := clearRun v.fat start i })
    (fun i _ => len - i) ?_ ⟨Nat.zero_le _, ?_⟩ ?_
  · rintro i _ ⟨hi, rfl⟩
    refine View.wp_ite (fun hlt => ?_) fun hge => View.wp_pure ?_
    · refine View.wp_bind (wp_setEntry hl (by omega) 0) ?_
      rintro _ _ ⟨-, rfl⟩
      refine View.wp_pure ⟨⟨hlt, ?_⟩, by omega⟩
      rw [Nat.zero_mod, clearRun_succ]
    · obtain rfl : i = len := by omega
      exact rfl
  · have hsame : clearRun v.fat start 0 = v.fat := by
      funext c
      exact if_neg (by omega)
    rw [hsame]
  · have := hl.lt_loopFuel
    omega

/-- A run that was free before it was chained together is free again. -/
lemma clearRun_chainFat {fat : ℕ → ℕ} {start len : ℕ}
    (hfree : ∀ c, start ≤ c → c < start + len → fat c = 0) :
    clearRun (chainFat fat start len len) start len = fat := by
  funext c
  simp only [clearRun, chainFat]
  split_ifs with h
  · exact (hfree c h.1 h.2).symm
  · rfl

/-- The table with the entries of the clusters `l` set to 0. -/
def clearList (fat : ℕ → ℕ) (l : List ℕ) (c : ℕ) : ℕ := if c ∈ l then 0 else fat c

/-- Freeing a chain by following it. -/
lemma wp_freeOldChain (hl : Layout fs) {first : ℕ} {l : List ℕ} (h : ChainAt fs v.fat first l) :
    (fat32View fs).wp (freeOldChain fs first l.length) (fun _ v' =>
      v' = { v with fat := clearList v.fat l }) v := by
  have hnd := ChainAt.nodup hl h
  -- the clusters `l₁` have been freed, the links of the others are as they were
  refine View.wp_iter (fun p v' => ∃ l₁ l₂, l = l₁ ++ l₂ ∧ p.1 = l₁.length ∧
      ChainAt fs v.fat p.2 l₂ ∧ v' = { v with fat := clearList v.fat l₁ })
    (fun p _ => l.length - p.1) ?_ ⟨[], l, rfl, rfl, h, ?_⟩ ?_
  · rintro ⟨i, c⟩ _ ⟨l₁, l₂, rfl, hi, hchain, rfl⟩
    simp only at hi hchain
    subst hi
    refine View.wp_ite (fun hlt => ?_) fun hge => View.wp_pure ?_
    · have hne : l₂ ≠ [] := by
        rintro rfl
        simp at hlt
      obtain ⟨c', l₃, rfl⟩ := List.exists_cons_of_ne_nil hne
      obtain ⟨rfl, hrange, hrest⟩ := hchain
      have hnot : c' ∉ l₁ := fun hmem =>
        (List.nodup_append.mp hnd).2.2 c' hmem c' List.mem_cons_self rfl
      refine View.wp_bind (wp_next hl hrange.lt) ?_
      rintro _ _ ⟨rfl, rfl⟩
      refine View.wp_bind (wp_setEntry hl hrange.lt 0) ?_
      rintro _ _ ⟨-, rfl⟩
      refine View.wp_pure ⟨⟨l₁ ++ [c'], l₃, by simp, by simp, ?_, ?_⟩, ?_⟩
      · simp only [clearList, if_neg hnot]
        exact hrest
      · simp only [Volume.mk.injEq, and_true]
        funext c
        simp only [Function.update_apply, clearList, List.mem_append, List.mem_singleton]
        split_ifs <;> first | rfl | simp_all
      · simp only [List.length_append, List.length_cons]
        omega
    · have hnil : l₂ = [] := by
        rw [← List.length_eq_zero_iff]
        simp only [List.length_append] at hge
        omega
      rw [hnil, List.append_nil]
      exact rfl
  · have hsame : clearList v.fat [] = v.fat := by
      funext c
      exact if_neg List.not_mem_nil
    rw [hsame]
  · have hlen := h.length_le hl
    have := hl.lt_loopFuel
    simp only
    omega

/-- The first `n` clusters of the run that starts at `start` are copies of those of `l`. -/
structure Copied (fs : Fat32Fs) (l : List ℕ) (start n : ℕ) (d d' : Bytes) : Prop where
  bytes : ∀ j < n, ∀ x < clusterSize fs,
    d' (clusterOff fs (start + j) + x) = d (clusterOff fs (l.getD j 0) + x)
  other : ∀ i, (∀ j < n, ¬InCluster fs (start + j) i) → d' i = d i

lemma Copied.zero (l : List ℕ) (start : ℕ) (d : Bytes) : Copied fs l start 0 d d :=
  ⟨fun _ hj => absurd hj (Nat.not_lt_zero _), fun _ _ => rfl⟩

/-- Copying one more cluster, which is none of those written before. -/
lemma Copied.succ {l : List ℕ} {start n c : ℕ} {d d' buf : Bytes} (hs : 2 ≤ start)
    (h : Copied fs l start n d d') (hc : l.getD n 0 = c) (hc2 : 2 ≤ c)
    (hout : ∀ j < n, start + j ≠ c)
    (hbuf : ∀ x < clusterSize fs, buf x = d' (clusterOff fs c + x)) :
    Copied fs l start (n + 1) d
      (Bytes.blit d' (clusterOff fs (start + n)) buf (clusterSize fs)) := by
  refine ⟨fun j hj x hx => ?_, fun i hi => ?_⟩
  · rcases Nat.lt_succ_iff_lt_or_eq.mp hj with hj | rfl
    · have hoff := @clusterOff_lt fs (start + j) (start + n) (by omega) (by omega)
      rw [Bytes.blit_of_not_mem (.inl (by omega))]
      exact h.bytes j hj x hx
    · rw [Bytes.blit_of_mem (by omega), Nat.add_sub_cancel_left, hbuf x hx, hc]
      refine h.other _ fun j hj hin => hout j hj ?_
      exact InCluster.unique (by omega) hc2 hin ⟨Nat.le_add_right _ _, Nat.add_lt_add_left hx _⟩
  · rw [Bytes.blit_of_not_mem, h.other i fun j hj => hi j (Nat.lt_succ_of_lt hj)]
    have := hi n (Nat.lt_succ_self n)
    unfold InCluster at this
    omega

/-- Copying a chain to a run that has no cluster in common with it. -/
lemma wp_copyChain (hl : Layout fs) {first start : ℕ} {l : List ℕ} (h : ChainAt fs v.fat first l)
    (hs : 2 ≤ start) (hend : start + l.length ≤ fs.totalClusters + 2)
    (hout : ∀ c ∈ l, ∀ j < l.length, start + j ≠ c) :
    (fat32View fs).wp (copyChain fs first start l.length) (fun ok v' => ok = true ∧
      ∃ d, v' = { v with data := d } ∧ Copied fs l start l.length v.data d) v := by
  have hspc := hl.spc_le
  unfold fat32MaxClusterSectors at hspc
  refine View.wp_iter (fun p v' => ∃ l₁ l₂, l = l₁ ++ l₂ ∧ p.1 = l₁.length ∧
      ChainAt fs v.fat p.2 l₂ ∧ ∃ d, v' = { v with data := d } ∧ Copied fs l start p.1 v.data d)
    (fun p _ => l.length - p.1) ?_
    ⟨[], l, rfl, rfl, h, v.data, rfl, Copied.zero l start v.data⟩ ?_
  · rintro ⟨i, c⟩ _ ⟨l₁, l₂, hsplit, hi, hchain, d, rfl, hd⟩
    have hlen := congrArg List.length hsplit
    simp only [List.length_append] at hi hchain hd hlen
    refine View.wp_ite (fun hlt => ?_) fun hge => View.wp_pure ?_
    · have hne : l₂ ≠ [] := by
        rintro rfl
        simp only [List.length_nil] at hlen
        omega
      obtain ⟨c', l₃, rfl⟩ := List.exists_cons_of_ne_nil hne
      obtain ⟨rfl, hrange, hrest⟩ := hchain
      have hmem : c' ∈ l := hsplit ▸ List.mem_append_right _ List.mem_cons_self
      have hget : l.getD i 0 = c' := by
        rw [List.getD_eq_getElem?_getD, hsplit, hi, List.getElem?_append_right le_rfl, Nat.sub_self]
        rfl
      have hnew : InRange fs (start + i) := ⟨by omega, by omega⟩
      rw [clusterToLba_eq hl hrange, clusterToLba_eq hl hnew]
      refine View.wp_bind (wp_readData _ fs.sectorsPerCluster (by omega)) ?_
      rintro _ _ ⟨rfl, rfl⟩
      refine View.wp_bind (wp_writeData hl _ fs.sectorsPerCluster (by omega) _) ?_
      rintro _ _ ⟨rfl, rfl⟩
      refine View.wp_ite (fun _ => ?_) fun h => absurd rfl h
      refine View.wp_bind (wp_next hl hrange.lt) ?_
      rintro _ _ ⟨rfl, rfl⟩
      refine View.wp_pure ⟨⟨l₁ ++ [c'], l₃, by simp [hsplit], by simp [hi], hrest, _, rfl, ?_⟩, ?_⟩
      · have hbuf : ∀ x < clusterSize fs, Bytes.clip (fs.sectorsPerCluster * 512)
            (Bytes.shift d ((c' - 2) * fs.sectorsPerCluster * 512)) x =
              d (clusterOff fs c' + x) := by
          intro x hx
          have hx' : x < fs.sectorsPerCluster * 512 := hx
          rw [Bytes.clip_of_lt hx', Bytes.shift, clusterOff_eq]
        have hcopy := hd.succ hs hget hrange.1 (fun j hj => hout c' hmem j (by omega)) hbuf
        rwa [clusterOff_eq] at hcopy
      · simp only
        omega
    · have hfull : i = l.length := by omega
      exact ⟨rfl, d, rfl, hfull ▸ hd⟩
  · have hlen := h.length_le hl
    have := hl.lt_loopFuel
    simp only
    omega

/-! ## A moved file -/

/-- What `fat32_defrag_one` makes of a volume when it moves the file with the entry at `a` and the
clusters `l` to the free clusters from `start` on. -/
structure Relocated (fs : Fat32Fs) (v v' : Volume) (node a : ℕ) (l : List ℕ)
    (start : ℕ) : Prop where
  two_le : 2 ≤ start
  end_le : start + l.length ≤ fs.totalClusters + 2
  free : ∀ c, start ≤ c → c < start + l.length → v.fat c = 0
  fat : v'.fat = clearList (chainFat v.fat start l.length l.length) l
  data : ∃ d, Copied fs l start l.length v.data d ∧
    v'.data = deSetClusterSize d a start (deSize v.data a)
  nodes : v'.nodes = Function.update v.nodes node { v.nodes node with inode := start }

section Moving

variable {v' : Volume} {C : Catalogue} {node a start : ℕ}

/-- The clusters of the run belonged to nothing. -/
lemma Relocated.not_owned (h : Relocated fs v v' node a (C.chain (.file a)) start) (hok : Ok fs v C)
    {o : Obj} (ho : o ∈ C.objs) {c : ℕ} (hc : c ∈ C.chain o) :
    ¬(start ≤ c ∧ c < start + (C.chain (.file a)).length) :=
  fun hin => (hok.chain_mem ho hc).2 (h.free c hin.1 hin.2)

/-- The entries of the clusters of the other files and directories. -/
lemma Relocated.fat_other (h : Relocated fs v v' node a (C.chain (.file a)) start) (hok : Ok fs v C)
    (ha : .file a ∈ C.objs) {o : Obj} (ho : o ∈ C.objs) (hne : o ≠ .file a) {c : ℕ}
    (hc : c ∈ C.chain o) : v'.fat c = v.fat c := by
  rw [h.fat, clearList, if_neg (hok.disjoint o ho _ ha hne c hc), chainFat,
    if_neg (h.not_owned hok ho hc)]

/-- Copying changes no byte of a file or directory. -/
lemma Relocated.copied_other (h : Relocated fs v v' node a (C.chain (.file a)) start)
    (hok : Ok fs v C) {d : Bytes}
    (hd : Copied fs (C.chain (.file a)) start (C.chain (.file a)).length v.data d) {o : Obj}
    (ho : o ∈ C.objs) {c i : ℕ} (hc : c ∈ C.chain o) (hin : InCluster fs c i) : d i = v.data i := by
  have htwo := h.two_le
  refine hd.other i fun j hj hin' => ?_
  obtain rfl := InCluster.unique (by omega) (hok.chain_mem ho hc).1.1 hin' hin
  exact h.not_owned hok ho hc ⟨Nat.le_add_right _ _, by omega⟩

/-- The bytes of the files and directories, but for the entry of the file. -/
lemma Relocated.data_other (h : Relocated fs v v' node a (C.chain (.file a)) start)
    (hok : Ok fs v C) {o : Obj} (ho : o ∈ C.objs) {c i : ℕ} (hc : c ∈ C.chain o)
    (hin : InCluster fs c i) (hi : i < a ∨ a + 32 ≤ i) : v'.data i = v.data i := by
  obtain ⟨d, hd, hdata⟩ := h.data
  rw [hdata, deSetClusterSize_of_lt (by omega)]
  exact h.copied_other hok hd ho hc hin

/-- The entry of a file is in no cluster of a file. -/
lemma Ok.slot_apart_file (hl : Layout fs) (hok : Ok fs v C) (hslot : C.IsSlot fs a) {b c i : ℕ}
    (hb : .file b ∈ C.objs) (hc : c ∈ C.chain (.file b)) (hin : InCluster fs c i) :
    i < a ∨ a + 32 ≤ i := by
  by_contra hnot
  obtain ⟨k, rfl⟩ := Nat.exists_eq_add_of_le (show a ≤ i by omega)
  have hdir := hslot.inDir hl (show k < 32 by omega)
  obtain ⟨d, hd, hcd⟩ := hok.inDir_unique hdir hin (hok.chain_mem hb hc).1
  exact hok.disjoint _ hb _ hd (by simp) c hc hcd

/-- The entry of a file is in none of the clusters the file has been moved to. -/
lemma Relocated.slot_apart (h : Relocated fs v v' node a (C.chain (.file a)) start) (hl : Layout fs)
    (hok : Ok fs v C) (hslot : C.IsSlot fs a) {j x : ℕ} (hj : j < (C.chain (.file a)).length)
    (hx : x < clusterSize fs) :
    clusterOff fs (start + j) + x < a ∨ a + 32 ≤ clusterOff fs (start + j) + x := by
  by_contra hnot
  obtain ⟨k, hk⟩ := Nat.exists_eq_add_of_le (show a ≤ clusterOff fs (start + j) + x by omega)
  have htwo := h.two_le
  have hend := h.end_le
  have hdir := hslot.inDir hl (show k < 32 by omega)
  rw [← hk] at hdir
  obtain ⟨d, hd, hcd⟩ := hok.inDir_unique hdir
    ⟨Nat.le_add_right _ _, Nat.add_lt_add_left hx _⟩ ⟨by omega, by omega⟩
  exact h.not_owned hok hd hcd ⟨Nat.le_add_right _ _, by omega⟩

/-- The chain of a moved file. -/
lemma Relocated.chain (h : Relocated fs v v' node a (C.chain (.file a)) start) (hok : Ok fs v C)
    (ha : .file a ∈ C.objs) (hne : C.chain (.file a) ≠ []) :
    ChainAt fs v'.fat start (List.range' start (C.chain (.file a)).length) := by
  have hrun : ChainAt fs (chainFat v.fat start _ _) start _ :=
    chainAt_run h.two_le (List.length_pos_of_ne_nil hne) h.end_le
  refine hrun.congr fun c hc => ?_
  obtain ⟨j, hj, rfl⟩ := List.mem_range'.mp hc
  rw [h.fat, clearList, if_neg]
  exact fun hmem => h.not_owned hok ha hmem ⟨by omega, by omega⟩

/-- The catalogue after a file has been moved. -/
lemma Relocated.ok (h : Relocated fs v v' node a (C.chain (.file a)) start) (hl : Layout fs)
    (hok : Ok fs v C) (ha : .file a ∈ C.objs) (hne : C.chain (.file a) ≠ []) :
    Ok fs v' ⟨C.objs, Function.update C.chain (.file a)
      (List.range' start (C.chain (.file a)).length)⟩ := by
  obtain ⟨d, hd, hdata⟩ := h.data
  have hend := h.end_le
  have hcl := hl.clusters
  unfold fat32Eoc at hcl
  have hlen := List.length_pos_of_ne_nil hne
  refine hok.rewrite hl ha (fun o ho hne c hc => h.fat_other hok ha ho hne hc)
    (.inr ⟨?_, h.chain hok ha hne⟩) (by omega) (Bytes.le32_lt _ _) ?_ ?_ hdata ?_
  · rw [ne_eq, List.range'_eq_nil_iff]
    omega
  · rw [List.length_range']
    exact (hok.files a ha).2.2.2
  · intro o ho _ c hc hco
    obtain ⟨j, hj, rfl⟩ := List.mem_range'.mp hc
    exact h.not_owned hok ho hco ⟨by omega, by omega⟩
  · rintro i ⟨e, c, he, hc, hin⟩
    exact h.copied_other hok hd he hc hin

/-- The entries of the other files and directories. -/
lemma Relocated.entry_other (h : Relocated fs v v' node a (C.chain (.file a)) start)
    (hl : Layout fs) (hok : Ok fs v C) (ha : .file a ∈ C.objs) {b : ℕ} (hb : C.IsSlot fs b)
    (hne : b ≠ a) : ∀ i < 32, v'.data (b + i) = v.data (b + i) := by
  intro i hi
  have hapart := Fat32.slot_apart hb.dvd (hok.files a ha).1.dvd hne
  obtain ⟨d, c, hd, hc, hin⟩ := hb.inDir hl hi
  exact h.data_other hok hd hc hin (by omega)

/-- The entry of the moved file. -/
lemma Relocated.entry (h : Relocated fs v v' node a (C.chain (.file a)) start) (hl : Layout fs)
    (hok : Ok fs v C) (ha : .file a ∈ C.objs) :
    fat32EntryValid v'.data a = fat32EntryValid v.data a ∧ deIsDir v'.data a = deIsDir v.data a ∧
      deCluster v'.data a = start ∧ deSize v'.data a = deSize v.data a := by
  obtain ⟨d, hd, hdata⟩ := h.data
  have hslot := (hok.files a ha).1
  have hbytes : ∀ i < 32, d (a + i) = v.data (a + i) := by
    intro i hi
    obtain ⟨e, c, he, hc, hin⟩ := hslot.inDir hl hi
    exact h.copied_other hok hd he hc hin
  obtain ⟨hvalid, hdir, -, -, -⟩ := entry_congr hbytes
  obtain ⟨hvalid', hdir'⟩ := valid_deSetClusterSize d a start (deSize v.data a)
  have hend := h.end_le
  have hcl := hl.clusters
  unfold fat32Eoc at hcl
  have hsize : deSize v.data a < 2 ^ 32 := Bytes.le32_lt _ _
  rw [hdata, hvalid', hvalid, hdir', hdir, deCluster_deSetClusterSize (by omega),
    deSize_deSetClusterSize hsize]
  exact ⟨rfl, rfl, rfl, rfl⟩

/-- The bytes of the moved file. -/
lemma Relocated.bytes (h : Relocated fs v v' node a (C.chain (.file a)) start) (hl : Layout fs)
    (hok : Ok fs v C) (ha : .file a ∈ C.objs) {n : ℕ}
    (hn : n ≤ (C.chain (.file a)).length * clusterSize fs) :
    fileBytes fs v' (List.range' start (C.chain (.file a)).length) n =
      fileBytes fs v (C.chain (.file a)) n := by
  obtain ⟨d, hd, hdata⟩ := h.data
  refine List.map_congr_left fun q hq => ?_
  have hq' : q < (C.chain (.file a)).length * clusterSize fs :=
    (List.mem_range.mp hq).trans_le hn
  have hk : q / clusterSize fs < (C.chain (.file a)).length :=
    Nat.div_lt_of_lt_mul (by rwa [Nat.mul_comm])
  have hx : q % clusterSize fs < clusterSize fs := Nat.mod_lt _ (clusterSize_pos hl)
  have hget : (List.range' start (C.chain (.file a)).length).getD (q / clusterSize fs) 0 =
      start + q / clusterSize fs := by
    rw [List.getD_eq_getElem?_getD, List.getElem?_range' hk, Option.getD_some, Nat.one_mul]
  have hapart := h.slot_apart hl hok (hok.files a ha).1 hk hx
  rw [fileAddr, fileAddr, hget, hdata, deSetClusterSize_of_lt (by omega)]
  exact hd.bytes _ hk _ hx

/-- The directories and the live files of the volume are those from before. -/
lemma Relocated.fileAt (h : Relocated fs v v' node a (C.chain (.file a)) start) (hl : Layout fs)
    (hok : Ok fs v C) (ha : .file a ∈ C.objs) {b : ℕ} (hb : FileAt fs v b) : FileAt fs v' b := by
  obtain ⟨hvalid, hdir, -, -⟩ := h.entry hl hok ha
  have hfile := (hok.files a ha).2.1
  refine hok.fileAt_kept hl (fun d hd c hc => h.fat_other hok ha hd (by simp) hc) ?_ hb ?_ ?_
  · intro b hb hvb hdb
    have hne : b ≠ a := by
      rintro rfl
      rw [hfile] at hdb
      exact Bool.noConfusion hdb
    obtain ⟨hv, hd, hc, -, -⟩ := entry_congr (h.entry_other hl hok ha hb hne)
    rw [Valid, hv, hd, hc]
    exact ⟨hvb, hdb, rfl⟩
  · by_cases hne : b = a
    · subst hne
      rw [Valid, hvalid]
      exact (hok.of_liveAt hl hb.1).2
    · obtain ⟨hslot, hvb⟩ := hok.of_liveAt hl hb.1
      rw [Valid, (entry_congr (h.entry_other hl hok ha hslot hne)).1]
      exact hvb
  · by_cases hne : b = a
    · subst hne
      rw [hdir]
      exact hfile
    · obtain ⟨hslot, -⟩ := hok.of_liveAt hl hb.1
      rw [(entry_congr (h.entry_other hl hok ha hslot hne)).2.1]
      exact hb.2

/-- As many clusters have become free as have been used. -/
lemma Relocated.freeCount_eq (h : Relocated fs v v' node a (C.chain (.file a)) start)
    (hl : Layout fs) (hok : Ok fs v C) (ha : .file a ∈ C.objs) :
    freeCount fs v' = freeCount fs v := by
  have hchain := (hok.files a ha).2.2.1
  have hnd : (C.chain (.file a)).Nodup := by
    rcases hchain with ⟨-, hnil⟩ | ⟨-, hchain⟩
    · rw [hnil]
      exact List.nodup_nil
    · exact ChainAt.nodup hl hchain
  have htwo := h.two_le
  have hend := h.end_le
  obtain ⟨n, hn⟩ : ∃ n, n = (C.chain (.file a)).length := ⟨_, rfl⟩
  have hfat := h.fat
  have hfree := h.free
  rw [← hn] at hend hfat hfree
  -- free are the clusters of the old chain, and those free before that are not in the run
  have hset : (Finset.Icc 2 (fs.totalClusters + 1)).filter (fun c => v'.fat c = 0) =
      (((Finset.Icc 2 (fs.totalClusters + 1)).filter fun c => v.fat c = 0) \
        Finset.Ico start (start + n)) ∪ (C.chain (.file a)).toFinset := by
    ext c
    simp only [Finset.mem_filter, Finset.mem_union, Finset.mem_sdiff, Finset.mem_Ico,
      List.mem_toFinset, Finset.mem_Icc, hfat, clearList, chainFat]
    by_cases hc : c ∈ C.chain (.file a)
    · have hrange : InRange fs c := (hok.chain_mem ha hc).1
      simp only [hc, if_true, and_true, or_true, iff_true]
      exact hrange
    · simp only [hc, if_false, or_false]
      unfold fat32Eoc
      split_ifs <;> grind
  have hdisj : Disjoint (((Finset.Icc 2 (fs.totalClusters + 1)).filter fun c => v.fat c = 0) \
      Finset.Ico start (start + n)) (C.chain (.file a)).toFinset := by
    rw [Finset.disjoint_left]
    intro c hc hmem
    exact (hok.chain_mem ha (List.mem_toFinset.mp hmem)).2
      (Finset.mem_filter.mp (Finset.mem_sdiff.mp hc).1).2
  have hsub : Finset.Ico start (start + n) ⊆
      (Finset.Icc 2 (fs.totalClusters + 1)).filter fun c => v.fat c = 0 := by
    intro c hc
    have hc := Finset.mem_Ico.mp hc
    exact Finset.mem_filter.mpr ⟨Finset.mem_Icc.mpr (by omega), hfree c hc.1 hc.2⟩
  have hcard := Finset.card_le_card hsub
  rw [freeCount, freeCount, hset, Finset.card_union_of_disjoint hdisj,
    Finset.card_sdiff_of_subset hsub, List.toFinset_card_of_nodup hnd, ← hn]
  rw [Nat.card_Ico] at hcard ⊢
  omega

/-- The node of a moved file. -/
lemma Relocated.nodeOf (h : Relocated fs v v' node a (C.chain (.file a)) start) (hl : Layout fs)
    (hok : Ok fs v C) (ha : .file a ∈ C.objs) (hnode : NodeOf fs v node a) :
    NodeOf fs v' node a := by
  obtain ⟨-, -, hcluster, hsize⟩ := h.entry hl hok ha
  have hnode' : v'.nodes node = { v.nodes node with inode := start } := by
    rw [h.nodes, Function.update_self]
  refine ⟨?_, ?_, ?_, ?_, ?_, ?_⟩ <;> rw [hnode']
  · exact hnode.file
  · exact hnode.fs_eq
  · exact ⟨hnode.slot.dirent, hnode.slot.lba, hnode.slot.off⟩
  · exact hnode.addr
  · exact hcluster.symm
  · rw [hsize]
    exact hnode.size

/-- Moving a file leaves the others alone. -/
lemma Relocated.othersKept (h : Relocated fs v v' node a (C.chain (.file a)) start) (hl : Layout fs)
    (hok : Ok fs v C) (ha : .file a ∈ C.objs) : OthersKept fs v v' a := by
  intro b hb hne
  have hb' := hok.of_fileAt hl hb
  have hne' : Obj.file b ≠ .file a := by simpa using hne
  obtain ⟨hslot, -, hchain, hcover⟩ := hok.files b hb'
  have hentry := h.entry_other hl hok ha hslot hne
  refine ⟨hentry, fun arr harr => ?_⟩
  obtain ⟨-, -, hcluster, hsize, -⟩ := entry_congr hentry
  obtain rfl := harr.eq hl hchain
  refine ⟨C.chain (.file b), ?_, ?_⟩
  · rw [hcluster]
    exact hchain.congr fun c hc => h.fat_other hok ha hb' hne' hc
  · rw [hsize]
    refine (fileBytes_congr fun i hi => ?_).symm
    obtain ⟨c, hc, hin⟩ := inCluster_fileAddr hl (lt_of_lt_of_le hi hcover)
    exact h.data_other hok hb' hc hin (hok.slot_apart_file hl (hok.files a ha).1 hb' hc hin)

/-- The chains of the other files and directories. -/
lemma Relocated.hasChain (h : Relocated fs v v' node a (C.chain (.file a)) start) (hl : Layout fs)
    (hok : Ok fs v C) (ha : .file a ∈ C.objs) {o : Obj} {l : List ℕ} (hne : o ≠ .file a)
    (ho : HasChain fs v o l) : HasChain fs v' o l := by
  obtain ⟨hmem, rfl⟩ := hok.of_hasChain hl ho
  cases o with
  | dir d =>
    obtain ⟨hd, hnil, hchain⟩ := ho
    refine ⟨hok.dirAt_kept hl (fun d hd c hc => h.fat_other hok ha hd (by simp) hc) ?_ hd, hnil,
      hchain.congr fun c hc => h.fat_other hok ha hmem hne hc⟩
    intro b hb hvb hdb
    have hba : b ≠ a := by
      rintro rfl
      rw [(hok.files b ha).2.1] at hdb
      exact Bool.noConfusion hdb
    obtain ⟨hv, hdir, hc, -, -⟩ := entry_congr (h.entry_other hl hok ha hb hba)
    rw [Valid, hv, hdir, hc]
    exact ⟨hvb, hdb, rfl⟩
  | file b =>
    obtain ⟨hb, hchain⟩ := ho
    have hba : b ≠ a := fun hba => hne (by rw [hba])
    refine ⟨h.fileAt hl hok ha hb, ?_⟩
    obtain ⟨-, -, hcluster, -, -⟩ :=
      entry_congr (h.entry_other hl hok ha (hok.files b hmem).1 hba)
    rw [hcluster]
    exact hchain.congr fun c hc => h.fat_other hok ha hmem hne hc

end Moving

/-! ## The result -/

/-- The file of a node, with the entry at `a` and the clusters `l`, has been moved to one run of
clusters; its bytes, the other files and directories and the number of free clusters are as
before. -/
structure Moved (fs : Fat32Fs) (v v' : Volume) (node a : ℕ) (l : List ℕ) : Prop where
  wellFormed : WellFormed fs v'
  fileAt : FileAt fs v' a
  /-- The node and the entry agree on the first cluster and on the size. -/
  nodeOf : NodeOf fs v' node a
  size : deSize v'.data a = deSize v.data a
  run : ∃ start, deCluster v'.data a = start ∧
    FileChain fs v'.fat start (List.range' start l.length) ∧
    fileBytes fs v' (List.range' start l.length) (deSize v.data a) =
      fileBytes fs v l (deSize v.data a)
  others : OthersKept fs v v' a
  chains : ∀ o l', o ≠ .file a → HasChain fs v o l' → HasChain fs v' o l'
  free : freeCount fs v' = freeCount fs v

variable {node a : ℕ} {l : List ℕ}

/-- A relocated file has been moved. -/
lemma Relocated.moved {v' : Volume} {C : Catalogue} {start : ℕ}
    (h : Relocated fs v v' node a (C.chain (.file a)) start) (hl : Layout fs) (hok : Ok fs v C)
    (ha : FileAt fs v a) (hnode : NodeOf fs v node a) (hne : C.chain (.file a) ≠ []) :
    Moved fs v v' node a (C.chain (.file a)) := by
  have hmem := hok.of_fileAt hl ha
  obtain ⟨-, -, hcluster, hsize⟩ := h.entry hl hok hmem
  refine ⟨(h.ok hl hok hmem hne).wellFormed hl, h.fileAt hl hok hmem ha,
    h.nodeOf hl hok hmem hnode, hsize, ⟨start, hcluster, .inr ⟨?_, h.chain hok hmem hne⟩, ?_⟩,
    h.othersKept hl hok hmem, fun o l' hne ho => h.hasChain hl hok hmem hne ho,
    h.freeCount_eq hl hok hmem⟩
  · rw [ne_eq, List.range'_eq_nil_iff, List.length_eq_zero_iff]
    exact hne
  · exact h.bytes hl hok hmem (hok.files a hmem).2.2.2

/-- `fat32_defrag_one` moves the file, or leaves the volume as it was. -/
lemma wp_defragOne (hl : Layout fs) (hnode : NodeOf fs v node a)
    (hchain : FileChain fs v.fat (deCluster v.data a) l) :
    (fat32View fs).wp (fat32DefragOne fs node) (fun r v' =>
      (r = 1 ∧ l ≠ [] ∧ ∃ start, Relocated fs v v' node a l start) ∨
      (r = 0 ∧ Contiguous l ∧ v' = v) ∨ (r = -1 ∧ v' = v)) v := by
  refine View.wp_get fun s _ hs => ?_
  have hnodes : s.nodePool = v.nodes := congrArg Volume.nodes hs
  simp only [hnodes, hnode.slot.dirent, Bool.not_true, Bool.false_eq_true, if_false]
  refine View.wp_ite (fun h0 => View.wp_pure (.inr (.inl ⟨rfl, ⟨0, ?_⟩, rfl⟩))) fun h0 => ?_
  · rw [hnode.inode, hchain.inode_eq_zero] at h0
    rw [h0]
    rfl
  rw [hnode.inode] at h0 ⊢
  obtain ⟨hne, hchain⟩ := hchain.resolve_left fun h => h0 h.1
  have hlen := List.length_pos_of_ne_nil hne
  refine View.wp_bind (wp_measureChain hl hchain hne) ?_
  rintro ⟨n, ok⟩ v ⟨rfl, rfl, hok⟩
  refine View.wp_ite (fun hyes => View.wp_pure (.inr (.inl ⟨rfl, ⟨_, hok.mp hyes⟩, rfl⟩)))
    fun _ => ?_
  refine View.wp_bind (wp_allocRun hl hlen) ?_
  rintro ⟨start, got⟩ v' (⟨hstart, rfl, -⟩ | ⟨htwo, -, -, hend, hfree, rfl⟩)
  · obtain rfl : start = 0 := hstart
    refine View.wp_ite (fun _ => ?_) fun h => absurd (.inl rfl) h
    exact View.wp_ite (fun h => absurd rfl h) fun _ => View.wp_pure (.inr (.inr ⟨rfl, rfl⟩))
  simp only at htwo hend hfree
  refine View.wp_ite (fun _ => ?_) fun hfit => ?_
  · rw [if_pos (show start ≠ 0 by omega)]
    refine View.wp_bind (wp_freeRun hl hend) ?_
    rintro _ _ rfl
    refine View.wp_pure (.inr (.inr ⟨rfl, ?_⟩))
    simp only [clearRun_chainFat hfree]
  obtain rfl : got = l.length := by
    by_contra hgot
    exact hfit (.inr hgot)
  -- the old chain has no cluster in common with the new one
  have hout : ∀ c ∈ l, ¬(start ≤ c ∧ c < start + l.length) :=
    fun c hc hin => hchain.ne_zero hc (hfree c hin.1 hin.2)
  have hchain' : ChainAt fs (chainFat v.fat start l.length l.length) (deCluster v.data a) l := by
    refine hchain.congr fun c hc => ?_
    rw [chainFat, if_neg (hout c hc)]
  refine View.wp_bind (wp_copyChain hl hchain' htwo hend fun c hc j hj heq =>
    hout c hc ⟨by omega, by omega⟩) ?_
  rintro ok _ ⟨rfl, d, rfl, hd⟩
  refine View.wp_ite (fun _ => ?_) fun h => absurd rfl h
  refine View.wp_bind (wp_modifyNode _ _) ?_
  rintro _ _ rfl
  refine View.wp_bind (wp_flushDirent hl ?_ ?_) ?_
  · simp only [Function.update_self]
    exact hnode.fs_eq
  · simp only [Function.update_self]
    exact ⟨hnode.slot.dirent, hnode.slot.lba, hnode.slot.off⟩
  rintro ok _ ⟨rfl, rfl⟩
  refine View.wp_ite (fun _ => ?_) fun h => absurd rfl h
  refine View.wp_bind (wp_freeOldChain hl hchain') ?_
  rintro _ _ rfl
  refine View.wp_pure (.inl ⟨rfl, hne, start, htwo, hend, hfree, rfl, ⟨d, hd, ?_⟩, rfl⟩)
  simp only [Function.update_self]
  rw [show slotAddr fs { v.nodes node with inode := start } = a from hnode.addr, hnode.size]

/-- Nothing on any drive and no node has changed. -/
structure Untouched (s s' : Fat32State) : Prop where
  disk : s'.blk.disk = s.blk.disk
  nodes : s'.nodePool = s.nodePool

instance : IsPreorder Fat32State Untouched where
  refl _ := ⟨rfl, rfl⟩
  trans _ _ _ h h' := ⟨h'.disk.trans h.disk, h'.nodes.trans h.nodes⟩

/-- A program that only reads touches nothing. -/
lemma keeps_untouched {α : Type} {m : Program Fat32State α} (h : Built ReadStep m) :
    Keeps Untouched m := by
  refine h.keeps fun α m hm s => ?_
  cases hm with
  | read dr lba n =>
    simp only [io, wlp_zoom, blkRead, wlp_bind, wlp_get, wlp_modify, wlp_ite, wlp_pure]
    split <;> exact ⟨rfl, rfl⟩
  | lookup fs c =>
    simp only [fat32NextCluster, note, loadFatSector, io, wlp_zoom, blkRead, wlp_bind, wlp_get,
      wlp_modify, wlp_ite, wlp_pure]
    split_ifs <;> exact ⟨rfl, rfl⟩

/-- `fat32_defrag_one` returns 0 before it has touched anything. -/
lemma wlp_defragOne (node : ℕ) (s : Fat32State) :
    wlp (fat32DefragOne fs node) (fun r s' => r = 0 → Untouched s s') s := by
  -- the other results are not 0
  have hone : ∀ {n : ℤ} {t : Fat32State}, n ≠ 0 →
      wlp (pure n) (fun r s' => r = 0 → Untouched s s') t :=
    fun hn => (wlp_pure _ _ _).mpr fun h => absurd h hn
  unfold fat32DefragOne
  rw [wlp_bind, wlp_get, wlp_ite]
  split
  · exact hone (by decide)
  rw [wlp_ite]
  split
  · exact (wlp_pure _ _ _).mpr fun _ => refl_of Untouched s
  rw [wlp_bind]
  refine wlp_mono (keeps_untouched (measureChain_built _ _) s) fun p s₁ h => ?_
  rw [wlp_ite]
  split
  · exact (wlp_pure _ _ _).mpr fun _ => h
  rw [wlp_bind]
  intro q s₂ _
  rw [wlp_ite]
  split
  · rw [wlp_ite]
    split
    · rw [wlp_bind]
      exact fun _ _ _ => hone (by decide)
    · exact hone (by decide)
  rw [wlp_bind]
  intro ok s₃ _
  rw [wlp_ite]
  split
  · rw [wlp_bind]
    intro _ s₄ _
    rw [wlp_bind]
    intro ok' s₅ _
    rw [wlp_ite]
    split
    · rw [wlp_bind]
      exact fun _ _ _ => hone (by decide)
    · rw [wlp_bind]
      intro _ s₆ _
      rw [wlp_bind]
      exact fun _ _ _ => hone (by decide)
  · rw [wlp_bind]
    exact fun _ _ _ => hone (by decide)

/-- `fat32_defrag_one` returns 1 when it has moved the file to one run of clusters and changed
nothing else, 0 when there was nothing to do, and -1 when table, data area and nodes are as
before. -/
theorem defragOne_result (hl : Layout fs) {s : Fat32State} (hs : Sound fs s)
    (hwf : WellFormed fs ((fat32View fs).view s)) (ha : FileAt fs ((fat32View fs).view s) a)
    (hnode : NodeOf fs ((fat32View fs).view s) node a)
    (hchain : HasChain fs ((fat32View fs).view s) (.file a) l) :
    wp (fat32DefragOne fs node) (fun r s' => Sound fs s' ∧
      (r = 1 ∧ Moved fs ((fat32View fs).view s) ((fat32View fs).view s') node a l ∨
        r = 0 ∧ Contiguous l ∧ Untouched s s' ∨
        r = -1 ∧ (fat32View fs).view s' = (fat32View fs).view s)) s := by
  have hok := hwf.ok hl
  obtain ⟨hmem, hl'⟩ := hok.of_hasChain hl hchain
  have hrun := wp_defragOne hl hnode hchain.2 s hs rfl
  refine wp_mono (wp_and_wlp hrun (wlp_defragOne node s)) ?_
  rintro r s' ⟨⟨hs', hr⟩, hzero⟩
  refine ⟨hs', ?_⟩
  rcases hr with ⟨hr, hne, start, hmove⟩ | ⟨hr, hcont, -⟩ | ⟨hr, hsame⟩
  · subst hl'
    exact .inl ⟨hr, hmove.moved hl hok ha hnode hne⟩
  · exact .inr (.inl ⟨hr, hcont, hzero hr⟩)
  · exact .inr (.inr ⟨hr, hsame⟩)

/-! ## A file in two pieces -/

/-- A volume of ten clusters of one sector. -/
def splitFs : Fat32Fs where
  id := 0
  dev := ⟨3, 0⟩
  partLba := 0
  sectorsPerCluster := 1
  reservedSectors := 1
  numFats := 1
  fatSize := 1
  rootCluster := 2
  fatStartLba := 1
  dataStartLba := 2
  totalSectors := 12
  totalClusters := 10

/-- The root directory is on cluster 2, a file of 600 bytes on clusters 3 and 5. -/
def splitVolume : Volume where
  fat c := if c = 3 then 5 else if c = 2 ∨ c = 5 then fat32Eoc else 0
  data := newEntry fileName 3 600
  nodes := fun _ => ⟨[70], .file, 600, 3, none, ⟨splitFs, true, 2, 0⟩⟩
  used := 1

lemma splitFs_layout : Layout splitFs := by
  constructor <;> decide

lemma splitVolume_oneFile : OneFile splitFs splitVolume 3 600 [3, 5] := by
  constructor
  · rfl
  · decide
  · decide
  · refine .inr ⟨by simp, rfl, by unfold InRange; decide, rfl, by unfold InRange; decide, ?_⟩
    exact (by decide : fat32Eoc ≤ splitVolume.fat 5)
  · decide
  · decide
  · decide
  · decide
  · exact fun _ _ => rfl

lemma splitState_view : (fat32View splitFs).view (stateWith splitFs splitVolume) = splitVolume := by
  refine stateWith_view splitFs_layout (fun c => ?_) fun c hc => ?_
  · simp only [splitVolume, fat32Eoc]
    split_ifs <;> omega
  · have hc' : 12 ≤ c := hc
    simp only [splitVolume]
    rw [if_neg (by omega), if_neg (by omega)]

lemma splitVolume_node : NodeOf splitFs splitVolume 0 0 := by
  obtain ⟨-, -, hcluster, hsize, -⟩ := splitVolume_oneFile.entry splitFs_layout
  refine ⟨rfl, rfl, ⟨rfl, le_rfl, by decide⟩, rfl, ?_, ?_⟩
  · rw [hcluster]
    rfl
  · rw [hsize]
    rfl

theorem defragOne_result_split :
    wp (fat32DefragOne splitFs 0) (fun r s' => Sound splitFs s' ∧
      (r = 1 ∧ Moved splitFs ((fat32View splitFs).view (stateWith splitFs splitVolume))
          ((fat32View splitFs).view s') 0 0 [3, 5] ∨
        r = 0 ∧ Contiguous [3, 5] ∧ Untouched (stateWith splitFs splitVolume) s' ∨
        r = -1 ∧ (fat32View splitFs).view s' =
          (fat32View splitFs).view (stateWith splitFs splitVolume)))
      (stateWith splitFs splitVolume) := by
  have h := splitVolume_oneFile
  refine defragOne_result splitFs_layout (stateWith_sound rfl (by decide)) ?_ ?_ ?_ ?_
  · rw [splitState_view]
    exact h.wellFormed splitFs_layout
  · rw [splitState_view]
    exact h.fileAt splitFs_layout
  · rw [splitState_view]
    exact splitVolume_node
  · rw [splitState_view]
    exact h.hasChain splitFs_layout

end Fat32

end CoolFrost
