import CoolFrost.Fs.Fat32.Catalogue

/-!
# FAT32: volumes with one file

The smallest volumes that have a file: the root directory takes cluster 2, and its first entry is
that of the file.
-/

namespace CoolFrost

namespace Fat32

/-- The name of the file. -/
def fileName : List UInt8 := [70, 32, 32, 32, 32, 32, 32, 32, 32, 32, 32]

/-- The root directory of the volume takes cluster 2 and holds one entry, that of a file with the
clusters `l`. -/
structure OneFile (fs : Fat32Fs) (v : Volume) (first size : ℕ) (l : List ℕ) : Prop where
  root : fs.rootCluster = 2
  clusters : 1 ≤ fs.totalClusters
  rootEnd : fat32Eoc ≤ v.fat 2
  chain : FileChain fs v.fat first l
  apart : 2 ∉ l
  cover : size ≤ l.length * clusterSize fs
  first_lt : first < 2 ^ 32
  size_lt : size < 2 ^ 32
  data : ∀ i < clusterSize fs, v.data i = newEntry fileName first size i

/-- The root directory and the file. -/
def oneFileCatalogue (l : List ℕ) : Catalogue where
  objs := {.dir 2, .file 0}
  chain
    | .dir _ => [2]
    | .file _ => l

variable {fs : Fat32Fs} {v : Volume} {first size : ℕ} {l : List ℕ}

lemma newEntry_zero (raw : List UInt8) (cluster size : ℕ) {i : ℕ} (h : 32 ≤ i) :
    newEntry raw cluster size i = 0 := by
  rw [newEntry, deSetClusterSize_of_lt (.inr (by omega)), Bytes.put8,
    Bytes.blit_of_not_mem (.inr (by omega)), Bytes.blit_of_not_mem (.inr (by omega))]
  rfl

/-- The entries of the root directory. -/
lemma slotAt_root (hl : Layout fs) {k : ℕ} (h : SlotIn fs [2] k) : slotAt fs [2] k = 32 * k := by
  have hlt : 32 * k < 1 * clusterSize fs := h
  rw [slotAt, fileAddr_of_cluster hl (k := 0) (c := 2) rfl (by omega) (by omega)]
  simp [clusterOff]

lemma slotIn_root (hl : Layout fs) : SlotIn fs [2] 0 := by
  have := clusterSize_pos hl
  simpa [SlotIn] using this

/-- The bytes of the entry of the file. -/
lemma OneFile.entry (h : OneFile fs v first size l) (hl : Layout fs) :
    v.data 0 = 70 ∧ deIsDir v.data 0 = false ∧ deCluster v.data 0 = first ∧
      deSize v.data 0 = size ∧ Valid v.data 0 := by
  have hcs : 32 ≤ clusterSize fs := by
    rw [clusterSize_eq]
    have := hl.spc_pos
    omega
  obtain ⟨h0, hdir, hcl, hsz⟩ := newEntry_parts fileName h.first_lt h.size_lt
  have hbytes : ∀ i < 32, v.data (0 + i) = newEntry fileName first size (0 + i) :=
    fun i hi => h.data _ (by omega)
  obtain ⟨hvalid, hdir', hcl', hsz', -⟩ := entry_congr hbytes
  refine ⟨(h.data 0 (by omega)).trans h0, hdir'.trans hdir, hcl'.trans hcl, hsz'.trans hsz, ?_⟩
  have hattr : deAttr (newEntry fileName first size) 0 = attrArchive := by
    rw [newEntry, deAttr, deSetClusterSize_of_lt (.inl (by omega)), Bytes.put8,
      Bytes.blit_of_mem (by omega)]
  rw [Valid, hvalid, fat32EntryValid, h0, hattr]
  decide

/-- The rest of the root directory is empty. -/
lemma OneFile.zero (h : OneFile fs v first size l) {k : ℕ} (hk : SlotIn fs [2] k) (hpos : 0 < k) :
    v.data (32 * k) = 0 := by
  have hlt : 32 * k < 1 * clusterSize fs := hk
  rw [h.data _ (by omega)]
  exact newEntry_zero _ _ _ (by omega)

/-- The catalogue of such a volume. -/
lemma OneFile.ok (h : OneFile fs v first size l) (hl : Layout fs) :
    Ok fs v (oneFileCatalogue l) := by
  obtain ⟨hfirst, hdir, hcluster, hsize, -⟩ := h.entry hl
  have hslot0 : slotAt fs [2] 0 = 0 := slotAt_root hl (slotIn_root hl)
  refine ⟨by simp [oneFileCatalogue, h.root], fun d hd => ?_, fun a ha => ?_,
    fun o ho o' ho' hne c hc hc' => ?_, ?_, ?_⟩
  · obtain rfl : d = 2 := by simpa [oneFileCatalogue] using hd
    have htotal := h.clusters
    exact ⟨List.cons_ne_nil 2 [], rfl, ⟨le_rfl, by omega⟩, h.rootEnd⟩
  · obtain rfl : a = 0 := by simpa [oneFileCatalogue] using ha
    rw [hdir, hcluster, hsize]
    exact ⟨⟨2, 0, by simp [oneFileCatalogue], slotIn_root hl, hslot0.symm⟩, rfl, h.chain, h.cover⟩
  · have hdisj : ∀ c ∈ [2], c ∉ l := by
      intro c hc
      rw [List.mem_singleton.mp hc]
      exact h.apart
    simp only [oneFileCatalogue, Set.mem_insert_iff, Set.mem_singleton_iff] at ho ho'
    rcases ho with rfl | rfl <;> rcases ho' with rfl | rfl
    · exact hne rfl
    · exact hdisj c hc hc'
    · exact hdisj c hc' hc
    · exact hne rfl
  · rintro a ⟨d, k, hd, hk, rfl⟩ hvalid
    have hk' : slotAt fs [2] k = 32 * k := slotAt_root hl hk
    change Valid v.data (slotAt fs [2] k) at hvalid
    change if deIsDir v.data (slotAt fs [2] k) then _ else _
    rw [hk'] at hvalid ⊢
    rcases Nat.eq_zero_or_pos k with rfl | hpos
    · rw [Nat.mul_zero, hdir]
      simp [oneFileCatalogue, hslot0]
    · exact absurd (h.zero hk hpos) hvalid.marks.1
  · intro d hd k k' hle hk h0
    have hk' : SlotIn fs [2] k := lt_of_le_of_lt (Nat.mul_le_mul_left 32 hle) hk
    change v.data (slotAt fs [2] k) = 0 at h0
    change v.data (slotAt fs [2] k') = 0
    rw [slotAt_root hl hk'] at h0
    rw [slotAt_root hl hk]
    rcases Nat.eq_zero_or_pos k with rfl | hpos
    · rw [Nat.mul_zero, hfirst] at h0
      exact absurd h0 (by decide)
    · exact h.zero hk (by omega)

lemma OneFile.wellFormed (h : OneFile fs v first size l) (hl : Layout fs) : WellFormed fs v :=
  (h.ok hl).wellFormed hl

/-- The file is a live one. -/
lemma OneFile.fileAt (h : OneFile fs v first size l) (hl : Layout fs) : FileAt fs v 0 := by
  obtain ⟨-, hdir, -, -, hvalid⟩ := h.entry hl
  have hroot := ((h.ok hl).dirs 2 (by simp [oneFileCatalogue])).2
  have hat : DirAt fs v 2 := h.root ▸ .root
  exact ⟨⟨2, [2], 0, hat, hroot, slotIn_root hl, (slotAt_root hl (slotIn_root hl)).symm, hvalid⟩,
    hdir⟩

lemma OneFile.hasChain (h : OneFile fs v first size l) (hl : Layout fs) :
    HasChain fs v (.file 0) l := by
  refine ⟨h.fileAt hl, ?_⟩
  rw [(h.entry hl).2.2.1]
  exact h.chain

end Fat32

end CoolFrost
