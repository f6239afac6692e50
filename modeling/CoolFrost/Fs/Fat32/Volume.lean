import CoolFrost.Lib.View
import CoolFrost.Fs.Fat32.Ops

/-!
# FAT32: a mounted volume as the driver's functions see it

`Volume` is what is left of the driver's state for one volume when the copies of the table, the
cached sector and the layout of the drive are abstracted away: the table as a function, the bytes of
the data area and the nodes.  `fat32View` ties it to the driver's state, for drives that never fail;
the lemmas below say what the primitive operations do to a `Volume`.
-/

namespace CoolFrost

open Program

namespace Fat32

/-- A volume: the low 28 bits of the table, the data area from the first cluster on, the nodes. -/
structure Volume where
  fat : ℕ → ℕ
  data : Bytes
  nodes : ℕ → Fat32Node
  used : ℕ

/-- The layout of a well-formed volume: a table large enough for all clusters, a sensible cluster
size, and cluster numbers below the marks that end a chain. -/
structure Layout (fs : Fat32Fs) : Prop where
  numFats : 1 ≤ fs.numFats
  numFats_lt : fs.numFats < 256
  fatSize : 4 * (fs.totalClusters + 2) ≤ fs.fatSize * 512
  dataStart : fs.dataStartLba = fs.fatStartLba + fs.numFats * fs.fatSize
  clusters : fs.totalClusters + 1 < fat32Eoc
  spc_pos : 1 ≤ fs.sectorsPerCluster
  spc_le : fs.sectorsPerCluster ≤ fat32MaxClusterSectors

/-- The address of the entry of `cluster` in a copy of the table. -/
def entryAddr (fs : Fat32Fs) (copy cluster : ℕ) : ℕ :=
  (fs.fatStartLba + copy * fs.fatSize) * 512 + 4 * cluster

/-- The low 28 bits of the entry of `cluster` in a copy of the table on a drive with the bytes
`d`. -/
def entryOn (fs : Fat32Fs) (d : Bytes) (copy cluster : ℕ) : ℕ :=
  Bytes.le32 d (entryAddr fs copy cluster) % 2 ^ 28

/-- The copies of the table agree in the low 28 bits. -/
def CopiesAgree (fs : Fat32Fs) (d : Bytes) : Prop :=
  ∀ copy < fs.numFats, ∀ c < fs.totalClusters + 2, entryOn fs d copy c = entryOn fs d 0 c

/-- A state in which the drives never fail, the copies of the table agree, and the cached sector, if
it is one of the first copy, is up to date. -/
structure Sound (fs : Fat32Fs) (s : Fat32State) : Prop where
  noFail : s.blk.NoFail
  copies : CopiesAgree fs (s.blk.disk fs.dev)
  cache : s.cachedFatDev = fs.dev → fs.fatStartLba ≤ s.cachedFatLba →
    s.cachedFatLba < fs.fatStartLba + fs.fatSize →
    ∀ i < 512, s.fatBuf i = s.blk.disk fs.dev (s.cachedFatLba * 512 + i)

/-- The table and the data area of a volume on a drive with the bytes `d`. -/
def volumeOn (fs : Fat32Fs) (d : Bytes) (nodes : ℕ → Fat32Node) (used : ℕ) : Volume where
  fat c := if c < fs.totalClusters + 2 then entryOn fs d 0 c else 0
  data := Bytes.shift d (fs.dataStartLba * 512)
  nodes := nodes
  used := used

/-- The volume `fs` in a state of the driver. -/
def fat32View (fs : Fat32Fs) : View Fat32State Volume where
  good := Sound fs
  view s := volumeOn fs (s.blk.disk fs.dev) s.nodePool s.nodePoolUsed

variable {fs : Fat32Fs} {v : Volume}

@[simp] lemma view_nodes (s : Fat32State) : ((fat32View fs).view s).nodes = s.nodePool := rfl

@[simp] lemma view_data (s : Fat32State) :
    ((fat32View fs).view s).data = Bytes.shift (s.blk.disk fs.dev) (fs.dataStartLba * 512) := rfl

@[simp] lemma view_used (s : Fat32State) : ((fat32View fs).view s).used = s.nodePoolUsed := rfl

/-! ## Steps that leave the drive alone -/

/-- A state with the same drive and the same cache is as sound. -/
lemma Sound.of_same {s s' : Fat32State} (h : Sound fs s) (hdisk : s'.blk.disk = s.blk.disk)
    (hfails : s'.blk.fails = s.blk.fails) (hbuf : s'.fatBuf = s.fatBuf)
    (hdev : s'.cachedFatDev = s.cachedFatDev) (hlba : s'.cachedFatLba = s.cachedFatLba) :
    Sound fs s' := by
  refine ⟨?_, ?_, ?_⟩
  · rw [BlkDev.NoFail, hfails]
    exact h.noFail
  · rw [hdisk]
    exact h.copies
  · rw [hdev, hlba, hbuf, hdisk]
    exact h.cache

/-- A change of the driver's state that neither the drives nor the cache take part in. -/
lemma wp_modify_of_same {g : Fat32State → Fat32State} {R : PUnit → Volume → Prop}
    (hblk : ∀ s, (g s).blk = s.blk) (hbuf : ∀ s, (g s).fatBuf = s.fatBuf)
    (hdev : ∀ s, (g s).cachedFatDev = s.cachedFatDev)
    (hlba : ∀ s, (g s).cachedFatLba = s.cachedFatLba)
    (hR : ∀ s, (fat32View fs).view s = v →
      R PUnit.unit { v with nodes := (g s).nodePool, used := (g s).nodePoolUsed }) :
    (fat32View fs).wp (modify g) R v := by
  refine View.wp_modify fun s hs hv => ⟨?_, ?_⟩
  · exact hs.of_same (by rw [hblk]) (by rw [hblk]) (hbuf s) (hdev s) (hlba s)
  · have hR := hR s hv
    subst hv
    simpa only [fat32View, volumeOn, hblk] using hR

lemma wp_note (e : FatEvent) : (fat32View fs).wp (note e) (fun _ v' => v' = v) v :=
  wp_modify_of_same (fun _ => rfl) (fun _ => rfl) (fun _ => rfl) (fun _ => rfl)
    fun s hs => by subst hs; rfl

lemma wp_setHint (hint : ℕ) : (fat32View fs).wp (setHint fs hint) (fun _ v' => v' = v) v :=
  wp_modify_of_same (fun _ => rfl) (fun _ => rfl) (fun _ => rfl) (fun _ => rfl)
    fun s hs => by subst hs; rfl

lemma wp_modifyNode (node : ℕ) (g : Fat32Node → Fat32Node) :
    (fat32View fs).wp (modifyNode node g)
      (fun _ v' => v' = { v with nodes := Function.update v.nodes node (g (v.nodes node)) }) v :=
  wp_modify_of_same (fun _ => rfl) (fun _ => rfl) (fun _ => rfl) (fun _ => rfl)
    fun s hs => by subst hs; rfl

/-- `alloc_node` fails exactly when the pool is used up. -/
lemma wp_allocNode (nd : Fat32Node) :
    (fat32View fs).wp (allocNode nd) (fun r v' =>
      if maxVfsNodes ≤ v.used then r = none ∧ v' = v
      else r = some v.used ∧
        v' = { v with nodes := Function.update v.nodes v.used nd, used := v.used + 1 }) v := by
  refine View.wp_get fun s _ hv => ?_
  have hused : s.nodePoolUsed = v.used := congrArg Volume.used hv
  rw [hused]
  refine View.wp_ite (fun h => View.wp_pure ?_) (fun h => ?_)
  · rw [if_pos h]
    exact ⟨rfl, rfl⟩
  · simp only [if_neg h]
    refine View.wp_bind (P := fun _ v' => v' = { v with
        nodes := Function.update v.nodes v.used nd, used := v.used + 1 })
      (wp_modify_of_same (fun _ => rfl) (fun _ => rfl) (fun _ => rfl) (fun _ => rfl)
        fun s hs => by subst hs; rfl) ?_
    rintro _ _ rfl
    exact View.wp_pure ⟨rfl, rfl⟩

/-! ## Transfers of the data area -/

/-- The sectors of the data area, read from the drive. -/
lemma wp_readData (k n : ℕ) (hn : n < 256) :
    (fat32View fs).wp (io (blkRead fs.dev (fs.dataStartLba + k) n)) (fun r v' =>
      r = some (Bytes.clip (n * 512) (Bytes.shift v.data (k * 512))) ∧ v' = v) v := by
  rintro s hs rfl
  rw [io, wp_zoom, wp_blkRead hs.noFail, Nat.mod_eq_of_lt hn]
  refine ⟨hs.of_same rfl rfl rfl rfl rfl, ?_, rfl⟩
  rw [view_data, Bytes.shift_shift, Nat.add_mul]

/-- An entry of the table on a drive whose bytes before the data area are the same. -/
lemma entryOn_congr {d d' : Bytes} (hl : Layout fs) {copy c : ℕ} (hcopy : copy < fs.numFats)
    (hc : c < fs.totalClusters + 2) (h : ∀ i < fs.dataStartLba * 512, d' i = d i) :
    entryOn fs d' copy c = entryOn fs d copy c := by
  have hrow : (copy + 1) * fs.fatSize ≤ fs.numFats * fs.fatSize := Nat.mul_le_mul_right _ hcopy
  have hfat := hl.fatSize
  have hdata := hl.dataStart
  have hbound : entryAddr fs copy c + 4 ≤ fs.dataStartLba * 512 := by
    unfold entryAddr
    nlinarith
  rw [entryOn, entryOn, Bytes.le32_congr fun i hi => h _ (by omega)]

/-- Writing sectors of the data area. -/
lemma wp_writeData (hl : Layout fs) (k n : ℕ) (hn : n < 256) (buf : Bytes) :
    (fat32View fs).wp (writeData fs.dev (fs.dataStartLba + k) n buf) (fun ok v' =>
      ok = true ∧ v' = { v with data := Bytes.blit v.data (k * 512) buf (n * 512) }) v := by
  refine View.wp_bind (wp_note _) ?_
  rintro _ _ rfl s hs rfl
  rw [io, wp_zoom, wp_blkWrite hs.noFail]
  have hlow : ∀ i < fs.dataStartLba * 512,
    writeSectors s.blk.disk fs.dev (fs.dataStartLba + k) n buf
      fs.dev i = s.blk.disk fs.dev i := by
    intro i hi
    rw [writeSectors, Function.update_self, Bytes.blit_of_not_mem]
    exact .inl (by nlinarith)
  have hfirst : fs.fatStartLba + fs.fatSize ≤ fs.dataStartLba := by
    rw [hl.dataStart]
    have := Nat.mul_le_mul_right fs.fatSize hl.numFats
    omega
  refine ⟨⟨hs.noFail, fun copy hcopy c hc => ?_, fun hdev hlo hhi i hi => ?_⟩, rfl, ?_⟩
  · rw [entryOn_congr hl hcopy hc hlow, entryOn_congr hl hl.numFats hc hlow]
    exact hs.copies copy hcopy c hc
  · have h := hs.cache hdev hlo hhi i hi
    dsimp only at hhi ⊢
    rw [hlow _ (by omega)]
    exact h
  · simp only [fat32View, volumeOn, Volume.mk.injEq, and_true]
    refine ⟨funext fun c => ?_, funext fun i => ?_⟩
    · split
      · exact entryOn_congr hl hl.numFats ‹_› hlow
      · rfl
    · rw [writeSectors, Function.update_self, Nat.mod_eq_of_lt hn]
      simp only [Bytes.shift, Bytes.blit]
      split_ifs
      · congr 1
        omega
      · omega
      · omega
      · rfl

/-! ## Entries of the table -/

/-- Where the code finds an entry is where `entryAddr` says it is. -/
lemma entryAddr_eq (hl : Layout fs) {c : ℕ} (hc : c < fs.totalClusters + 2) (copy : ℕ) :
    (fs.fatStartLba + copy * fs.fatSize + u32 (c * 4) / 512) * 512 + u32 (c * 4) % 512 =
      entryAddr fs copy c := by
  have hlt := hl.clusters
  unfold fat32Eoc at hlt
  have hu : u32 (c * 4) = c * 4 := Nat.mod_eq_of_lt (by omega)
  rw [hu, entryAddr]
  omega

/-- The sector of an entry lies in its copy of the table. -/
lemma entrySector_lt (hl : Layout fs) {c : ℕ} (hc : c < fs.totalClusters + 2) :
    u32 (c * 4) / 512 < fs.fatSize := by
  have hle : u32 (c * 4) ≤ c * 4 := Nat.mod_le _ _
  have := hl.fatSize
  omega

lemma entryOffset_le (c : ℕ) : u32 (c * 4) % 512 + 4 ≤ 512 := by
  unfold u32
  omega

/-- The state after a read of the sector `lba` into the cache. -/
def loaded (fs : Fat32Fs) (lba : ℕ) (s : Fat32State) : Fat32State :=
  { s with
    blk := { s.blk with calls := s.blk.calls + 1 }
    fatBuf := Bytes.clip (1 % 256 * 512) (Bytes.shift (s.blk.disk fs.dev) (lba * 512))
    cachedFatLba := lba
    cachedFatDev := fs.dev }

lemma Sound.load {s : Fat32State} (h : Sound fs s) (lba : ℕ) : Sound fs (loaded fs lba s) := by
  refine ⟨h.noFail, h.copies, fun _ _ _ i hi => ?_⟩
  exact Bytes.clip_of_lt (by omega)

/-- `fat32_next_cluster` looks an entry up. -/
lemma wp_next (hl : Layout fs) {c : ℕ} (hc : c < fs.totalClusters + 2) :
    (fat32View fs).wp (fat32NextCluster fs c) (fun n v' => n = v.fat c ∧ v' = v) v := by
  refine View.wp_bind (wp_note _) ?_
  rintro _ _ rfl
  have hsec := entrySector_lt hl hc
  have hoff := entryOffset_le c
  have haddr := entryAddr_eq hl hc 0
  rw [Nat.zero_mul, Nat.add_zero] at haddr
  -- once the sector is loaded, the cache holds the entry
  have hread : ∀ s, Sound fs s → s.cachedFatDev = fs.dev →
      s.cachedFatLba = fs.fatStartLba + u32 (c * 4) / 512 →
      Bytes.le32 s.fatBuf (u32 (c * 4) % 512) % 2 ^ 28 = ((fat32View fs).view s).fat c := by
    intro s hs hdev hlba
    simp only [fat32View, volumeOn, if_pos hc, entryOn]
    refine congrArg (· % 2 ^ 28) (Bytes.le32_congr fun i hi => ?_)
    rw [hs.cache hdev (by omega) (by omega) _ (by omega), hlba, ← haddr, Nat.add_assoc]
  rintro s hs rfl
  simp only [loadFatSector, wp_bind, wp_get, wp_ite]
  split_ifs with hhit
  · obtain ⟨hlba, hdev⟩ : s.cachedFatLba = _ ∧ s.cachedFatDev = _ := by simpa [cacheHit] using hhit
    simp only [wp_pure, if_pos]
    exact ⟨hs, hread s hs hdev hlba, trivial⟩
  · simp only [io, wp_zoom, wp_blkRead hs.noFail, wp_bind, wp_modify, wp_pure, if_pos]
    have hload := hs.load (fs.fatStartLba + u32 (c * 4) / 512)
    exact ⟨hload, hread _ hload rfl rfl, rfl⟩

/-- Patching an entry in its sector and writing the sector back patches it on the drive. -/
lemma writeSectors_patch (disk : Drive → Bytes) (dev : Drive) (lba off x : ℕ) (h : off + 4 ≤ 512) :
    writeSectors disk dev lba 1
        (patchEntry (Bytes.clip 512 (Bytes.shift (disk dev) (lba * 512))) off x) =
      Function.update disk dev (patchEntry (disk dev) (lba * 512 + off) x) := by
  rw [writeSectors, patchEntry, patchEntry, Bytes.put32, Bytes.put32, Bytes.blit_readModify h,
    Bytes.le32_clip h, Bytes.le32_shift]

lemma mergeEntry_low (x old : ℕ) : mergeEntry x old % 2 ^ 28 = x % 2 ^ 28 := by
  unfold mergeEntry
  omega

lemma mergeEntry_lt (x : ℕ) {old : ℕ} (h : old < 2 ^ 32) : mergeEntry x old < 2 ^ 32 := by
  unfold mergeEntry
  omega

lemma patchEntry_of_not_mem {b : Bytes} {a x i : ℕ} (h : i < a ∨ a + 4 ≤ i) :
    patchEntry b a x i = b i := Bytes.blit_of_not_mem h

lemma patchEntry_of_mem {b : Bytes} {a x i : ℕ} (h : i < 4) :
    patchEntry b a x (a + i) = Bytes.ofNat (mergeEntry x (Bytes.le32 b a)) i := by
  rw [patchEntry, Bytes.put32, Bytes.blit_of_mem (by omega), Nat.add_sub_cancel_left]

/-- The drive `d'` is `d` with the entry of `c` set to `x` in the first `n` copies of the table. -/
structure Patched (fs : Fat32Fs) (c x n : ℕ) (d d' : Bytes) : Prop where
  other : ∀ i, (∀ j < n, i < entryAddr fs j c ∨ entryAddr fs j c + 4 ≤ i) → d' i = d i
  entry : ∀ j < n, ∀ i < 4,
    d' (entryAddr fs j c + i) = Bytes.ofNat (mergeEntry x (Bytes.le32 d (entryAddr fs j c))) i

lemma Patched.zero (c x : ℕ) (d : Bytes) : Patched fs c x 0 d d :=
  ⟨fun _ _ => rfl, fun j hj => absurd hj (Nat.not_lt_zero j)⟩

/-- The entries of a cluster in two copies of the table do not overlap. -/
lemma entryAddr_apart (hl : Layout fs) {c : ℕ} (hc : c < fs.totalClusters + 2) (c' : ℕ) {j k : ℕ}
    (hjk : j < k) :
    entryAddr fs j c + 4 ≤ entryAddr fs k c' := by
  have hrow : (j + 1) * fs.fatSize ≤ k * fs.fatSize := Nat.mul_le_mul_right _ hjk
  have hfat := hl.fatSize
  unfold entryAddr
  nlinarith

/-- Patching one more copy. -/
lemma Patched.succ (hl : Layout fs) {c x n : ℕ} {d d' : Bytes} (hc : c < fs.totalClusters + 2)
    (h : Patched fs c x n d d') :
    Patched fs c x (n + 1) d (patchEntry d' (entryAddr fs n c) x) := by
  have hold : Bytes.le32 d' (entryAddr fs n c) = Bytes.le32 d (entryAddr fs n c) := by
    refine Bytes.le32_congr fun i _ => h.other _ fun j hj => .inr ?_
    exact (entryAddr_apart hl hc c hj).trans (Nat.le_add_right _ _)
  refine ⟨fun i hi => ?_, fun j hj i hi => ?_⟩
  · rw [patchEntry_of_not_mem (hi n (Nat.lt_succ_self n))]
    exact h.other i fun j hj => hi j (Nat.lt_succ_of_lt hj)
  · rcases Nat.lt_succ_iff_lt_or_eq.mp hj with hj | rfl
    · have := entryAddr_apart hl hc c hj
      rw [patchEntry_of_not_mem (by omega)]
      exact h.entry j hj i hi
    · rw [patchEntry_of_mem hi, hold]

/-- The low 28 bits of the entries after all copies have been patched. -/
lemma Patched.entryOn_eq (hl : Layout fs) {c x : ℕ} {d d' : Bytes} (hc : c < fs.totalClusters + 2)
    (h : Patched fs c x fs.numFats d d') {copy c' : ℕ} (hcopy : copy < fs.numFats)
    (hc' : c' < fs.totalClusters + 2) :
    entryOn fs d' copy c' = if c' = c then x % 2 ^ 28 else entryOn fs d copy c' := by
  split_ifs with hcc
  · subst hcc
    have hle : Bytes.le32 d' (entryAddr fs copy c') =
        Bytes.le32 (Bytes.ofNat (mergeEntry x (Bytes.le32 d (entryAddr fs copy c')))) 0 :=
      Bytes.le32_congr fun i hi => by rw [Nat.zero_add]; exact h.entry copy hcopy i hi
    rw [entryOn, hle, Bytes.le32_ofNat, Nat.mod_eq_of_lt (mergeEntry_lt x (Bytes.le32_lt d _)),
      mergeEntry_low]
  · rw [entryOn, entryOn]
    refine congrArg (· % 2 ^ 28) (Bytes.le32_congr fun i hi => h.other _ fun j _ => ?_)
    rcases Nat.lt_trichotomy copy j with hj | rfl | hj
    · have := entryAddr_apart hl hc' c hj
      exact .inl (by omega)
    · unfold entryAddr
      omega
    · have := entryAddr_apart hl hc c' hj
      exact .inr (by omega)

/-- What lies after the table is not patched. -/
lemma Patched.data_eq (hl : Layout fs) {c x : ℕ} {d d' : Bytes} (hc : c < fs.totalClusters + 2)
    (h : Patched fs c x fs.numFats d d') {i : ℕ} (hi : fs.dataStartLba * 512 ≤ i) : d' i = d i := by
  refine h.other i fun j hj => .inr ?_
  have hrow : (j + 1) * fs.fatSize ≤ fs.numFats * fs.fatSize := Nat.mul_le_mul_right _ hj
  have hfat := hl.fatSize
  have hdata := hl.dataStart
  unfold entryAddr
  nlinarith

/-- A state that differs from `s` in the contents of one drive and in the bookkeeping of
transfers. -/
def OnDrive (dev : Drive) (d : Bytes) (s s' : Fat32State) : Prop :=
  ∃ calls log, s' = { s with blk := ⟨Function.update s.blk.disk dev d, s.blk.fails, calls, log⟩ }

/-- The loop of `fat32_set_fat_entry` patches all copies of the table. -/
lemma wp_setFatCopies (hl : Layout fs) {c x : ℕ} (hc : c < fs.totalClusters + 2)
    {s : Fat32State} (hs : s.blk.NoFail) :
    wp (setFatCopies fs c x) (fun ok s' => ok = true ∧
      ∃ d, Patched fs c x fs.numFats (s.blk.disk fs.dev) d ∧ OnDrive fs.dev d s s') s := by
  refine wp_iter (fun copy s' => copy ≤ fs.numFats ∧
      ∃ d, Patched fs c x copy (s.blk.disk fs.dev) d ∧ OnDrive fs.dev d s s')
    (fun copy _ => fs.numFats - copy) (fun copy s' hI => ?_)
    ⟨Nat.zero_le _, _, Patched.zero c x _, s.blk.calls, s.blk.log, ?_⟩ ?_
  · obtain ⟨hle, d, hd, calls, log, rfl⟩ := hI
    rw [wp_ite]
    split_ifs with hlt
    · have hnf : ∀ calls log, (⟨Function.update s.blk.disk fs.dev d, s.blk.fails, calls, log⟩ :
          BlkDev).NoFail := fun _ _ => hs
      simp only [io, wp_bind, wp_zoom, wp_blkRead (hnf _ _), Function.update_self,
        wp_blkWrite (hnf _ _), if_pos, wp_pure, Sum.elim_inl]
      have hw := writeSectors_patch (Function.update s.blk.disk fs.dev d) fs.dev
        (fs.fatStartLba + copy * fs.fatSize + u32 (c * 4) / 512) _ x (entryOffset_le c)
      rw [entryAddr_eq hl hc, Function.update_self, Function.update_idem] at hw
      rw [show 1 % 256 * 512 = 512 from rfl, hw]
      exact ⟨⟨hlt, _, hd.succ hl hc, _, _, rfl⟩, by omega⟩
    · rw [wp_pure, Sum.elim_inr]
      exact ⟨rfl, d, by rwa [← Nat.le_antisymm hle (Nat.le_of_not_lt hlt)], calls, log, rfl⟩
  · rw [Function.update_eq_self]
  · have := hl.numFats_lt
    unfold loopFuel
    omega

/-- The state after all copies are patched, with the cached sector brought up to date. -/
lemma Sound.patched (hl : Layout fs) {c x : ℕ} {s s' : Fat32State} {d : Bytes}
    (hc : c < fs.totalClusters + 2) (hs : Sound fs s)
    (hd : Patched fs c x fs.numFats (s.blk.disk fs.dev) d) (hs' : OnDrive fs.dev d s s') :
    Sound fs (if cacheHit fs (fs.fatStartLba + u32 (c * 4) / 512) s' then
      { s' with fatBuf := patchEntry s'.fatBuf (u32 (c * 4) % 512) x } else s') := by
  obtain ⟨calls, log, rfl⟩ := hs'
  have hcopies : CopiesAgree fs d := by
    intro copy hcopy c' hc'
    rw [hd.entryOn_eq hl hc hcopy hc', hd.entryOn_eq hl hc hl.numFats hc']
    split_ifs
    · rfl
    · exact hs.copies copy hcopy c' hc'
  have haddr := entryAddr_eq hl hc 0
  rw [Nat.zero_mul, Nat.add_zero] at haddr
  have hoff := entryOffset_le c
  -- a byte of the first copy changes only where its own entry of `c` is
  have hfirst : ∀ i < (fs.fatStartLba + fs.fatSize) * 512,
      (i < entryAddr fs 0 c ∨ entryAddr fs 0 c + 4 ≤ i) → d i = s.blk.disk fs.dev i := by
    intro i hi h
    refine hd.other i fun j _ => ?_
    rcases Nat.eq_zero_or_pos j with rfl | hj
    · exact h
    · have hrow : 1 * fs.fatSize ≤ j * fs.fatSize := Nat.mul_le_mul_right _ hj
      exact .inl (by unfold entryAddr; nlinarith)
  split_ifs with hhit
  · obtain ⟨hlba, hdev⟩ : s.cachedFatLba = _ ∧ s.cachedFatDev = _ := by simpa [cacheHit] using hhit
    refine ⟨hs.noFail, by simpa only [Function.update_self] using hcopies,
      fun _ hlo hhi i hi => ?_⟩
    simp only [Function.update_self] at hlo hhi ⊢
    have hcache := hs.cache hdev hlo hhi
    by_cases hin : u32 (c * 4) % 512 ≤ i ∧ i < u32 (c * 4) % 512 + 4
    · obtain ⟨k, rfl⟩ := Nat.exists_eq_add_of_le hin.1
      have hold : Bytes.le32 s.fatBuf (u32 (c * 4) % 512) =
          Bytes.le32 (s.blk.disk fs.dev) (entryAddr fs 0 c) :=
        Bytes.le32_congr fun i hi => by
          rw [hcache _ (by omega), hlba, ← haddr, Nat.add_assoc]
      rw [patchEntry_of_mem (by omega), hold, hlba, ← Nat.add_assoc, haddr,
        hd.entry 0 hl.numFats k (by omega)]
    · rw [patchEntry_of_not_mem (by omega), hcache i hi, hfirst _ (by omega) (by omega)]
  · refine ⟨hs.noFail, by simpa only [Function.update_self] using hcopies,
      fun hdev hlo hhi i hi => ?_⟩
    simp only [Function.update_self] at hlo hhi ⊢
    rw [hs.cache hdev hlo hhi i hi, hfirst _ (by omega)]
    -- the cached sector is another one of the first copy
    have hne : s.cachedFatLba ≠ fs.fatStartLba + u32 (c * 4) / 512 := by
      intro h
      exact hhit (by simpa [cacheHit] using ⟨h, hdev⟩)
    omega

/-- `fat32_set_fat_entry` sets an entry. -/
lemma wp_setEntry (hl : Layout fs) {c : ℕ} (hc : c < fs.totalClusters + 2) (x : ℕ) :
    (fat32View fs).wp (fat32SetFatEntry fs c x) (fun ok v' =>
      ok = true ∧ v' = { v with fat := Function.update v.fat c (x % 2 ^ 28) }) v := by
  refine View.wp_get fun s₀ _ _ => View.wp_bind (wp_note _) ?_
  rintro _ _ rfl s hs rfl
  rw [wp_bind]
  refine wp_mono (wp_setFatCopies hl hc hs.noFail) ?_
  rintro ok s' ⟨rfl, d, hd, hs'⟩
  simp only [if_pos, wp_bind, wp_modify, wp_pure]
  refine ⟨hs.patched hl hc hd hs', trivial, ?_⟩
  obtain ⟨calls, log, rfl⟩ := hs'
  have hview : ∀ b, (fat32View fs).view { s with
        blk := ⟨Function.update s.blk.disk fs.dev d, s.blk.fails, calls, log⟩, fatBuf := b } =
      { (fat32View fs).view s with
        fat := Function.update ((fat32View fs).view s).fat c (x % 2 ^ 28) } := by
    intro b
    simp only [fat32View, volumeOn, Function.update_self, Volume.mk.injEq, and_true]
    refine ⟨funext fun c' => ?_, funext fun i => ?_⟩
    · simp only [Function.update_apply]
      split_ifs with h h' h'
      · rw [hd.entryOn_eq hl hc hl.numFats h, if_pos h']
      · rw [hd.entryOn_eq hl hc hl.numFats h, if_neg h']
      · exact absurd (h' ▸ hc) h
      · rfl
    · exact hd.data_eq hl hc (Nat.le_add_right _ _)
  split_ifs
  · exact hview _
  · exact hview s.fatBuf

end Fat32

end CoolFrost
