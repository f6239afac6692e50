import CoolFrost.Fs.Fat32.Files
import CoolFrost.Fs.Fat32.Names

/-!
# FAT32: the files and directories of a volume

A `Catalogue` lists the directories of a volume by their first cluster and its files by the address
of their directory entry, each with its clusters.  `Ok fs v C` says that `C` describes the volume
`v`: every chain ends, no two chains meet, every valid entry of a directory is listed, and behind an
entry that marks the end of a directory there are only such entries.  The lemmas of this module are
the changes of a volume that the driver makes, each with the catalogue of the volume after it.
-/

namespace CoolFrost

open Program

namespace Fat32

variable {fs : Fat32Fs} {v v' : Volume}

/-! ## Directory entries -/

/-- The entry at `a` is valid. -/
def Valid (d : Bytes) (a : ℕ) : Prop := fat32EntryValid d a = .valid

/-- The first byte of a valid entry is neither of the two marks of a free one. -/
lemma Valid.marks {d : Bytes} {a : ℕ} (h : Valid d a) : d a ≠ 0 ∧ d a ≠ 0xE5 := by
  simp only [Valid, fat32EntryValid] at h
  split_ifs at h with h0 h5
  exact ⟨h0, h5⟩

/-- An entry depends on its 32 bytes only. -/
lemma entry_congr {d d' : Bytes} {a a' : ℕ} (h : ∀ i < 32, d' (a' + i) = d (a + i)) :
    fat32EntryValid d' a' = fat32EntryValid d a ∧ deIsDir d' a' = deIsDir d a ∧
      deCluster d' a' = deCluster d a ∧ deSize d' a' = deSize d a ∧
      fat32Format83 d' a' = fat32Format83 d a := by
  have h0 : d' a' = d a := h 0 (by omega)
  have h11 : deAttr d' a' = deAttr d a := h 11 (by omega)
  have hoff : ∀ k j, k + j < 32 → d' (a' + k + j) = d (a + k + j) := by
    intro k j hkj
    rw [Nat.add_assoc, Nat.add_assoc]
    exact h (k + j) hkj
  have h20 : Bytes.le16 d' (a' + 20) = Bytes.le16 d (a + 20) :=
    Bytes.le16_congr fun i hi => hoff 20 i (by omega)
  have h26 : Bytes.le16 d' (a' + 26) = Bytes.le16 d (a + 26) :=
    Bytes.le16_congr fun i hi => hoff 26 i (by omega)
  have h28 : deSize d' a' = deSize d a := Bytes.le32_congr fun i hi => hoff 28 i (by omega)
  refine ⟨?_, ?_, ?_, h28, format_congr fun i hi => h i (by omega)⟩
  · rw [fat32EntryValid, fat32EntryValid, h0, h11]
  · rw [deIsDir, deIsDir, h11]
  · rw [deCluster, deCluster, h20, h26]

/-- Bringing an entry up to date leaves its name and its attributes alone. -/
lemma deSetClusterSize_of_lt {d : Bytes} {a cluster size i : ℕ} (h : i < a + 20 ∨ a + 32 ≤ i) :
    deSetClusterSize d a cluster size i = d i := by
  rw [deSetClusterSize, Bytes.put16, Bytes.put16, Bytes.put32, Bytes.blit_of_not_mem (by omega),
    Bytes.blit_of_not_mem (by omega), Bytes.blit_of_not_mem (by omega)]

lemma deCluster_deSetClusterSize {d : Bytes} {a cluster size : ℕ} (h : cluster < 2 ^ 32) :
    deCluster (deSetClusterSize d a cluster size) a = cluster := by
  have hhigh : Bytes.le16 (deSetClusterSize d a cluster size) (a + 20) =
      cluster / 65536 % 65536 := by
    rw [deSetClusterSize, Bytes.put16, Bytes.le16_blit_of_disjoint (by omega),
      Bytes.le16_put16_self]
  have hlow : Bytes.le16 (deSetClusterSize d a cluster size) (a + 26) = cluster % 65536 := by
    rw [deSetClusterSize, Bytes.le16_put16_self]
  rw [deCluster, hhigh, hlow]
  omega

lemma deSize_deSetClusterSize {d : Bytes} {a cluster size : ℕ} (h : size < 2 ^ 32) :
    deSize (deSetClusterSize d a cluster size) a = size := by
  rw [deSize, deSetClusterSize, Bytes.put16, Bytes.put16, Bytes.le32_blit_of_disjoint (by omega),
    Bytes.le32_blit_of_disjoint (by omega), Bytes.le32_put32_self, Nat.mod_eq_of_lt h]

lemma valid_deSetClusterSize (d : Bytes) (a cluster size : ℕ) :
    fat32EntryValid (deSetClusterSize d a cluster size) a = fat32EntryValid d a ∧
      deIsDir (deSetClusterSize d a cluster size) a = deIsDir d a := by
  have h0 : deSetClusterSize d a cluster size a = d a := deSetClusterSize_of_lt (.inl (by omega))
  have h11 : deAttr (deSetClusterSize d a cluster size) a = deAttr d a :=
    deSetClusterSize_of_lt (.inl (by omega))
  exact ⟨by rw [fat32EntryValid, fat32EntryValid, h0, h11], by rw [deIsDir, deIsDir, h11]⟩

/-! ## The slots of a directory -/

/-- The address of entry number `k` of a directory with the clusters `l`. -/
def slotAt (fs : Fat32Fs) (l : List ℕ) (k : ℕ) : ℕ := fileAddr fs l (32 * k)

/-- The directory with the clusters `l` has an entry number `k`. -/
def SlotIn (fs : Fat32Fs) (l : List ℕ) (k : ℕ) : Prop := 32 * k < l.length * clusterSize fs

/-- The number of entries in a cluster. -/
lemma clusterSize_eq (fs : Fat32Fs) : clusterSize fs = 32 * (16 * fs.sectorsPerCluster) := by
  rw [clusterSize]
  omega

/-- The entries of a directory are aligned. -/
lemma slotAt_dvd (fs : Fat32Fs) (l : List ℕ) (k : ℕ) : 32 ∣ slotAt fs l k := by
  unfold slotAt fileAddr clusterOff
  rw [clusterSize_eq]
  refine Nat.dvd_add (Dvd.dvd.mul_left (Nat.dvd_mul_right _ _) _) ?_
  exact (Nat.dvd_mod_iff (Nat.dvd_mul_right _ _)).mpr (Nat.dvd_mul_right _ _)

/-- The 32 bytes of an entry lie in one cluster of the directory. -/
lemma slot_inCluster (hl : Layout fs) {l : List ℕ} {k : ℕ} (h : SlotIn fs l k) :
    ∃ c ∈ l, ∀ i < 32, InCluster fs c (slotAt fs l k + i) := by
  obtain ⟨c, hc, hin⟩ := inCluster_fileAddr hl h
  refine ⟨c, hc, fun i hi => ⟨hin.1.trans (Nat.le_add_right _ _), ?_⟩⟩
  -- both the entry and the end of the cluster are aligned
  have hdvd := slotAt_dvd fs l k
  have hoff : 32 ∣ clusterOff fs c + clusterSize fs := by
    unfold clusterOff
    rw [clusterSize_eq]
    exact Nat.dvd_add (Dvd.dvd.mul_left (Nat.dvd_mul_right _ _) _) (Nat.dvd_mul_right _ _)
  have hlt : slotAt fs l k < clusterOff fs c + clusterSize fs := hin.2
  omega

/-- Two entries of directories are the same or do not overlap. -/
lemma slot_apart {a b : ℕ} (ha : 32 ∣ a) (hb : 32 ∣ b) (hne : a ≠ b) : a + 32 ≤ b ∨ b + 32 ≤ a := by
  omega

/-! ## Catalogues -/

/-- A directory, by its first cluster, or a file, by the address of its directory entry. -/
inductive Obj where
  | dir (first : ℕ)
  | file (slot : ℕ)
  deriving DecidableEq

/-- Directories and files with their clusters. -/
structure Catalogue where
  objs : Set Obj
  chain : Obj → List ℕ

/-- The address `a` is that of an entry of a listed directory. -/
def Catalogue.IsSlot (C : Catalogue) (fs : Fat32Fs) (a : ℕ) : Prop :=
  ∃ d k, .dir d ∈ C.objs ∧ SlotIn fs (C.chain (.dir d)) k ∧ a = slotAt fs (C.chain (.dir d)) k

/-- The byte at `i` is in a cluster of a listed directory. -/
def Catalogue.InDir (C : Catalogue) (fs : Fat32Fs) (i : ℕ) : Prop :=
  ∃ d c, .dir d ∈ C.objs ∧ c ∈ C.chain (.dir d) ∧ InCluster fs c i

/-- The catalogue `C` describes the volume `v`. -/
structure Ok (fs : Fat32Fs) (v : Volume) (C : Catalogue) : Prop where
  root : .dir fs.rootCluster ∈ C.objs
  dirs : ∀ d, .dir d ∈ C.objs → C.chain (.dir d) ≠ [] ∧ ChainAt fs v.fat d (C.chain (.dir d))
  files : ∀ a, .file a ∈ C.objs → C.IsSlot fs a ∧ deIsDir v.data a = false ∧
    FileChain fs v.fat (deCluster v.data a) (C.chain (.file a)) ∧
    deSize v.data a ≤ (C.chain (.file a)).length * clusterSize fs
  disjoint : ∀ o ∈ C.objs, ∀ o' ∈ C.objs, o ≠ o' → ∀ c ∈ C.chain o, c ∉ C.chain o'
  entries : ∀ a, C.IsSlot fs a → Valid v.data a →
    if deIsDir v.data a then deCluster v.data a = 0 ∨ .dir (deCluster v.data a) ∈ C.objs
    else .file a ∈ C.objs
  ended : ∀ d, .dir d ∈ C.objs → ∀ k k', k ≤ k' → SlotIn fs (C.chain (.dir d)) k' →
    v.data (slotAt fs (C.chain (.dir d)) k) = 0 → v.data (slotAt fs (C.chain (.dir d)) k') = 0

variable {C C' : Catalogue}

lemma Catalogue.IsSlot.dvd {a : ℕ} (h : C.IsSlot fs a) : 32 ∣ a := by
  obtain ⟨d, k, -, -, rfl⟩ := h
  exact slotAt_dvd fs _ k

/-- The bytes of an entry are in its directory. -/
lemma Catalogue.IsSlot.inDir (hl : Layout fs) {a i : ℕ} (h : C.IsSlot fs a) (hi : i < 32) :
    C.InDir fs (a + i) := by
  obtain ⟨d, k, hd, hk, rfl⟩ := h
  obtain ⟨c, hc, hin⟩ := slot_inCluster hl hk
  exact ⟨d, c, hd, hc, hin i hi⟩

/-- The clusters of a listed file or directory are in range and in use. -/
lemma Ok.chain_mem (h : Ok fs v C) {o : Obj} (ho : o ∈ C.objs) {c : ℕ} (hc : c ∈ C.chain o) :
    InRange fs c ∧ v.fat c ≠ 0 := by
  have hchain : ∃ first, ChainAt fs v.fat first (C.chain o) := by
    cases o with
    | dir d => exact ⟨d, (h.dirs d ho).2⟩
    | file a =>
      rcases (h.files a ho).2.2.1 with ⟨-, hnil⟩ | ⟨-, hchain⟩
      · rw [hnil] at hc
        exact absurd hc List.not_mem_nil
      · exact ⟨_, hchain⟩
  obtain ⟨first, hchain⟩ := hchain
  exact ⟨hchain.inside_of_mem hc, hchain.ne_zero hc⟩

/-- A byte of a directory is in no cluster of another file or directory, nor in a free one. -/
lemma Ok.inDir_unique (h : Ok fs v C) {i c : ℕ} (hi : C.InDir fs i) (hc : InCluster fs c i)
    (hrange : InRange fs c) : ∃ d, .dir d ∈ C.objs ∧ c ∈ C.chain (.dir d) := by
  obtain ⟨d, c', hd, hc', hin⟩ := hi
  obtain rfl := InCluster.unique hrange.1 (h.chain_mem hd hc').1.1 hc hin
  exact ⟨d, hd, hc'⟩

lemma FileChain.congr {fat fat' : ℕ → ℕ} {first : ℕ} {l : List ℕ} (h : FileChain fs fat first l)
    (hfat : ∀ c ∈ l, fat' c = fat c) : FileChain fs fat' first l := by
  rcases h with h | ⟨hne, hchain⟩
  · exact .inl h
  · exact .inr ⟨hne, hchain.congr hfat⟩

/-- The change of a volume that concerns one entry, at `a`, and the clusters of its file: the entry,
the file and its clusters may be new, changed or gone; nothing else in the directories changes. -/
lemma Ok.change (hl : Layout fs) (h : Ok fs v C) {a : ℕ} (ha : 32 ∣ a)
    (hdir : ∀ d, .dir d ∈ C'.objs ↔ .dir d ∈ C.objs)
    (hfile : ∀ b, b ≠ a → (.file b ∈ C'.objs ↔ .file b ∈ C.objs))
    (hchain : ∀ o, o ≠ .file a → C'.chain o = C.chain o)
    (hfat : ∀ o ∈ C.objs, o ≠ .file a → ∀ c ∈ C.chain o, v'.fat c = v.fat c)
    (hdata : ∀ i, C.InDir fs i → i < a ∨ a + 32 ≤ i → v'.data i = v.data i)
    (hobj : .file a ∈ C'.objs → C.IsSlot fs a ∧ deIsDir v'.data a = false ∧
      FileChain fs v'.fat (deCluster v'.data a) (C'.chain (.file a)) ∧
      deSize v'.data a ≤ (C'.chain (.file a)).length * clusterSize fs ∧
      ∀ o ∈ C.objs, o ≠ .file a → ∀ c ∈ C'.chain (.file a), c ∉ C.chain o)
    (hentry : C.IsSlot fs a → Valid v'.data a →
      if deIsDir v'.data a then deCluster v'.data a = 0 ∨ .dir (deCluster v'.data a) ∈ C.objs
      else .file a ∈ C'.objs)
    (hended : ∀ d k, .dir d ∈ C.objs → SlotIn fs (C.chain (.dir d)) k →
      a = slotAt fs (C.chain (.dir d)) k → (v'.data a = 0 → v.data a = 0) ∧
        (v'.data a ≠ 0 → v.data a = 0 → ∀ j < k, v.data (slotAt fs (C.chain (.dir d)) j) ≠ 0)) :
    Ok fs v' C' := by
  have hdchain : ∀ d, C'.chain (.dir d) = C.chain (.dir d) := fun d => hchain _ (by simp)
  have hslot : ∀ b, C'.IsSlot fs b ↔ C.IsSlot fs b := by
    intro b
    simp only [Catalogue.IsSlot, hdchain, hdir]
  have hbytes : ∀ b, C.IsSlot fs b → b ≠ a → ∀ i < 32, v'.data (b + i) = v.data (b + i) := by
    intro b hb hne i hi
    have := slot_apart hb.dvd ha hne
    exact hdata _ (hb.inDir hl hi) (by omega)
  have hmem : ∀ o, o ≠ .file a → (o ∈ C'.objs ↔ o ∈ C.objs) := by
    intro o ho
    cases o with
    | dir d => exact hdir d
    | file b => exact hfile b fun hb => ho (by rw [hb])
  refine ⟨(hdir _).mpr h.root, fun d hd => ?_, fun b hb => ?_, fun o ho o' ho' hne c hc hc' => ?_,
    fun b hb hvalid => ?_, fun d hd k k' hk hin h0 => ?_⟩
  · rw [hdir] at hd
    rw [hdchain]
    exact ⟨(h.dirs d hd).1, (h.dirs d hd).2.congr (hfat _ hd (by simp))⟩
  · by_cases hba : b = a
    · subst hba
      obtain ⟨hs, hf, hc, hz, -⟩ := hobj hb
      exact ⟨(hslot b).mpr hs, hf, hc, hz⟩
    · have hb' := (hfile b hba).mp hb
      obtain ⟨hs, hf, hc, hz⟩ := h.files b hb'
      obtain ⟨-, hd, hcl, hsz, -⟩ := entry_congr (hbytes b hs hba)
      have hne : Obj.file b ≠ .file a := by simpa using hba
      rw [hchain _ hne, hd, hcl, hsz]
      exact ⟨(hslot b).mpr hs, hf, hc.congr (hfat _ hb' hne), hz⟩
  · by_cases hoa : o = .file a
    · subst hoa
      have hoa' : o' ≠ .file a := fun h' => hne h'.symm
      rw [hchain o' hoa'] at hc'
      exact (hobj ho).2.2.2.2 o' ((hmem o' hoa').mp ho') hoa' c hc hc'
    · by_cases hoa' : o' = .file a
      · subst hoa'
        rw [hchain o hoa] at hc
        exact (hobj ho').2.2.2.2 o ((hmem o hoa).mp ho) hoa c hc' hc
      · rw [hchain o hoa] at hc
        rw [hchain o' hoa'] at hc'
        exact h.disjoint o ((hmem o hoa).mp ho) o' ((hmem o' hoa').mp ho') hne c hc hc'
  · rw [hslot] at hb
    by_cases hba : b = a
    · subst hba
      simpa only [hdir] using hentry hb hvalid
    · obtain ⟨hv, hd, hcl, -, -⟩ := entry_congr (hbytes b hb hba)
      rw [Valid, hv] at hvalid
      simpa only [hd, hcl, hdir, hfile b hba] using h.entries b hb hvalid
  · rw [hdir] at hd
    rw [hdchain] at hin h0 ⊢
    have hin' : SlotIn fs (C.chain (.dir d)) k := lt_of_le_of_lt (Nat.mul_le_mul_left 32 hk) hin
    have hfirst : ∀ j, SlotIn fs (C.chain (.dir d)) j → slotAt fs (C.chain (.dir d)) j ≠ a →
        v'.data (slotAt fs (C.chain (.dir d)) j) = v.data (slotAt fs (C.chain (.dir d)) j) :=
      fun j hj hne => hbytes _ ⟨d, j, hd, hj, rfl⟩ hne 0 (by omega)
    by_cases hka' : slotAt fs (C.chain (.dir d)) k' = a
    · by_cases hka : slotAt fs (C.chain (.dir d)) k = a
      · rw [hka', ← hka]
        exact h0
      · -- an entry before `a` ends the directory, so `a` is free and stays so
        rw [hfirst k hin' hka] at h0
        have ha0 : v.data a = 0 := hka' ▸ h.ended d hd k k' hk hin h0
        by_contra hne
        rw [hka'] at hne
        have hlt : k < k' := lt_of_le_of_ne hk fun hkk => hka (hkk ▸ hka')
        exact (hended d k' hd hin hka'.symm).2 hne ha0 k hlt h0
    · rw [hfirst k' hin hka']
      by_cases hka : slotAt fs (C.chain (.dir d)) k = a
      · rw [hka] at h0
        have ha0 := (hended d k hd hin' hka.symm).1 h0
        exact h.ended d hd k k' hk hin (hka ▸ ha0)
      · rw [hfirst k hin' hka] at h0
        exact h.ended d hd k k' hk hin h0

/-- Storing first cluster and size in the entry of a file that now has the clusters `l`. -/
lemma Ok.rewrite (hl : Layout fs) (h : Ok fs v C) {a cluster size : ℕ} {l : List ℕ} {d : Bytes}
    (ha : .file a ∈ C.objs)
    (hfat : ∀ o ∈ C.objs, o ≠ .file a → ∀ c ∈ C.chain o, v'.fat c = v.fat c)
    (hchain : FileChain fs v'.fat cluster l) (hcluster : cluster < 2 ^ 32) (hsize : size < 2 ^ 32)
    (hcover : size ≤ l.length * clusterSize fs)
    (hdisj : ∀ o ∈ C.objs, o ≠ .file a → ∀ c ∈ l, c ∉ C.chain o)
    (hdata : v'.data = deSetClusterSize d a cluster size)
    (hd : ∀ i, C.InDir fs i → d i = v.data i) :
    Ok fs v' { C with chain := Function.update C.chain (.file a) l } := by
  obtain ⟨hslot, hfile, -, -⟩ := h.files a ha
  -- name and attributes of the entry are as they were
  have hmeta : fat32EntryValid v'.data a = fat32EntryValid v.data a ∧
      deIsDir v'.data a = deIsDir v.data a ∧ v'.data a = v.data a := by
    have h0 : v'.data a = v.data a := by
      rw [hdata, deSetClusterSize_of_lt (.inl (by omega))]
      exact hd _ (hslot.inDir hl (i := 0) (by omega))
    have h11 : deAttr v'.data a = deAttr v.data a := by
      rw [deAttr, hdata, deSetClusterSize_of_lt (.inl (by omega))]
      exact hd _ (hslot.inDir hl (i := 11) (by omega))
    exact ⟨by rw [fat32EntryValid, fat32EntryValid, h0, h11], by rw [deIsDir, deIsDir, h11], h0⟩
  refine h.change hl hslot.dvd (fun _ => Iff.rfl) (fun _ _ => Iff.rfl)
    (fun o ho => Function.update_of_ne ho _ _) hfat (fun i hi hout => ?_) (fun _ => ?_)
    (fun _ hvalid => ?_) (fun d k _ _ _ => ?_)
  · rw [hdata, deSetClusterSize_of_lt (by omega)]
    exact hd i hi
  · simp only [Function.update_self]
    rw [hmeta.2.1, hdata, deCluster_deSetClusterSize hcluster, deSize_deSetClusterSize hsize]
    exact ⟨hslot, hfile, hchain, hcover, hdisj⟩
  · rw [hmeta.2.1, hfile]
    exact ha
  · rw [hmeta.2.2]
    exact ⟨id, fun hne h0 => absurd h0 hne⟩

/-- Another name or other attributes in the entry of a file, which may make it a free one. -/
lemma Ok.patch (hl : Layout fs) (h : Ok fs v C) {a : ℕ} (ha : .file a ∈ C.objs) (hne : v.data a ≠ 0)
    (hne' : v'.data a ≠ 0) (hfat : v'.fat = v.fat)
    (hrest : ∀ i, i < a ∨ a + 32 ≤ i → v'.data i = v.data i) (hdir : deIsDir v'.data a = false)
    (hcluster : deCluster v'.data a = deCluster v.data a)
    (hsz : deSize v'.data a = deSize v.data a) :
    Ok fs v' C := by
  obtain ⟨hslot, -, hchain, hsize⟩ := h.files a ha
  refine h.change hl hslot.dvd (fun _ => Iff.rfl) (fun _ _ => Iff.rfl) (fun _ _ => rfl)
    (fun _ _ _ _ _ => by rw [hfat]) (fun i _ hout => hrest i hout) (fun _ => ?_) (fun _ _ => ?_)
    (fun d k _ _ _ => ⟨fun h' => absurd h' hne', fun _ h' => absurd h' hne⟩)
  · rw [hcluster, hsz, hfat]
    exact ⟨hslot, hdir, hchain, hsize, fun o ho hne => h.disjoint _ ha o ho hne.symm⟩
  · rw [hdir]
    exact ha

/-- The parts of a new entry. -/
lemma newEntry_parts (raw : List UInt8) {cluster size : ℕ} (hcluster : cluster < 2 ^ 32)
    (hsize : size < 2 ^ 32) :
    newEntry raw cluster size 0 = raw.getD 0 0 ∧ deIsDir (newEntry raw cluster size) 0 = false ∧
      deCluster (newEntry raw cluster size) 0 = cluster ∧
      deSize (newEntry raw cluster size) 0 = size := by
  refine ⟨?_, ?_, deCluster_deSetClusterSize hcluster, deSize_deSetClusterSize hsize⟩
  · rw [newEntry, deSetClusterSize_of_lt (.inl (by omega)), Bytes.put8,
      Bytes.blit_of_not_mem (by omega), Bytes.blit_of_mem (by omega)]
    rfl
  · have hattr : deAttr (newEntry raw cluster size) 0 = attrArchive := by
      rw [newEntry, deAttr, deSetClusterSize_of_lt (.inl (by omega)), Bytes.put8,
        Bytes.blit_of_mem (by omega)]
    rw [deIsDir, hattr]
    decide

/-- An address in a chain that has been extended. -/
lemma fileAddr_append {l : List ℕ} (l' : List ℕ) {q : ℕ} (h : q < l.length * clusterSize fs) :
    fileAddr fs (l ++ l') q = fileAddr fs l q := by
  have hk : q / clusterSize fs < l.length := Nat.div_lt_of_lt_mul (by rwa [Nat.mul_comm])
  rw [fileAddr, fileAddr, List.getD_eq_getElem?_getD, List.getElem?_append_left hk,
    ← List.getD_eq_getElem?_getD]

/-! ## Well-formed volumes -/

/-- The first clusters of the directories of a volume: the root, and what the valid directory
entries of a directory lead to. -/
inductive DirAt (fs : Fat32Fs) (v : Volume) : ℕ → Prop
  | root : DirAt fs v fs.rootCluster
  | sub {d k : ℕ} {l : List ℕ} (hd : DirAt fs v d) (hl : ChainAt fs v.fat d l) (hk : SlotIn fs l k)
      (hvalid : Valid v.data (slotAt fs l k)) (hdir : deIsDir v.data (slotAt fs l k) = true)
      (hne : deCluster v.data (slotAt fs l k) ≠ 0) : DirAt fs v (deCluster v.data (slotAt fs l k))

/-- The live entries of a volume: the valid entries of its directories. -/
def LiveAt (fs : Fat32Fs) (v : Volume) (a : ℕ) : Prop :=
  ∃ d l k, DirAt fs v d ∧ ChainAt fs v.fat d l ∧ SlotIn fs l k ∧ a = slotAt fs l k ∧ Valid v.data a

/-- The live files of a volume. -/
def FileAt (fs : Fat32Fs) (v : Volume) (a : ℕ) : Prop :=
  LiveAt fs v a ∧ deIsDir v.data a = false

/-- The clusters of a directory, by its first cluster, or of a file, by its entry. -/
def HasChain (fs : Fat32Fs) (v : Volume) : Obj → List ℕ → Prop
  | .dir d, l => DirAt fs v d ∧ l ≠ [] ∧ ChainAt fs v.fat d l
  | .file a, l => FileAt fs v a ∧ FileChain fs v.fat (deCluster v.data a) l

/-- A well-formed volume: every directory and every live file has its clusters, which are enough for
its size, no two of them share a cluster, and an entry that ends a directory is followed by such
entries only. -/
structure WellFormed (fs : Fat32Fs) (v : Volume) : Prop where
  dirs : ∀ d, DirAt fs v d → ∃ l, HasChain fs v (.dir d) l
  files : ∀ a, FileAt fs v a → ∃ l, HasChain fs v (.file a) l
  sizes : ∀ a l, HasChain fs v (.file a) l → deSize v.data a ≤ l.length * clusterSize fs
  disjoint : ∀ o o' l l', HasChain fs v o l → HasChain fs v o' l' → o ≠ o' → ∀ c ∈ l, c ∉ l'
  ended : ∀ d l, HasChain fs v (.dir d) l → ∀ k k', k ≤ k' → SlotIn fs l k' →
    v.data (slotAt fs l k) = 0 → v.data (slotAt fs l k') = 0

/-- A file has one chain. -/
lemma FileChain.unique (hl : Layout fs) {fat : ℕ → ℕ} {first : ℕ} {l l' : List ℕ}
    (h : FileChain fs fat first l) (h' : FileChain fs fat first l') : l = l' := by
  rcases h with ⟨h0, rfl⟩ | ⟨hne, hchain⟩
  · exact (h'.inode_eq_zero.mp h0).symm
  · rcases h' with ⟨h0, rfl⟩ | ⟨-, hchain'⟩
    · exact absurd (FileChain.inode_eq_zero (.inr ⟨hne, hchain⟩) |>.mp h0) hne
    · exact Links.unique (fun _ ha => ha.not_ends hl) hchain hchain'

lemma ChainAt.unique (hl : Layout fs) {fat : ℕ → ℕ} {first : ℕ} {l l' : List ℕ}
    (h : ChainAt fs fat first l) (h' : ChainAt fs fat first l') : l = l' :=
  Links.unique (fun _ ha => ha.not_ends hl) h h'

/-- The directories of a volume are those of its catalogue. -/
lemma Ok.of_dirAt (hl : Layout fs) (h : Ok fs v C) {d : ℕ} (hd : DirAt fs v d) :
    .dir d ∈ C.objs := by
  induction hd with
  | root => exact h.root
  | @sub d k l _ hchain hk hvalid hdir hne ih =>
    obtain rfl := ChainAt.unique hl hchain (h.dirs d ih).2
    have hentry := h.entries _ ⟨d, k, ih, hk, rfl⟩ hvalid
    rw [if_pos hdir] at hentry
    exact hentry.resolve_left hne

lemma Ok.of_liveAt (hl : Layout fs) (h : Ok fs v C) {a : ℕ} (ha : LiveAt fs v a) :
    C.IsSlot fs a ∧ Valid v.data a := by
  obtain ⟨d, l, k, hd, hchain, hk, rfl, hvalid⟩ := ha
  have hd' := h.of_dirAt hl hd
  obtain rfl := ChainAt.unique hl hchain (h.dirs d hd').2
  exact ⟨⟨d, k, hd', hk, rfl⟩, hvalid⟩

lemma Ok.of_fileAt (hl : Layout fs) (h : Ok fs v C) {a : ℕ} (ha : FileAt fs v a) :
    .file a ∈ C.objs := by
  obtain ⟨hslot, hvalid⟩ := h.of_liveAt hl ha.1
  simpa [ha.2] using h.entries a hslot hvalid

/-- The directories of a volume stay when their clusters and their entries of directories do. -/
lemma Ok.dirAt_kept (hl : Layout fs) (h : Ok fs v C)
    (hfat : ∀ d, .dir d ∈ C.objs → ∀ c ∈ C.chain (.dir d), v'.fat c = v.fat c)
    (hentry : ∀ b, C.IsSlot fs b → Valid v.data b → deIsDir v.data b = true →
      Valid v'.data b ∧ deIsDir v'.data b = true ∧ deCluster v'.data b = deCluster v.data b)
    {d : ℕ} (hd : DirAt fs v d) : DirAt fs v' d := by
  induction hd with
  | root => exact .root
  | @sub d k l hd hchain hk hvalid hdir hne ih =>
    have hmem := h.of_dirAt hl hd
    obtain rfl := ChainAt.unique hl hchain (h.dirs d hmem).2
    obtain ⟨hvalid', hdir', hcl'⟩ := hentry _ ⟨d, k, hmem, hk, rfl⟩ hvalid hdir
    rw [← hcl'] at hne ⊢
    exact ih.sub (hchain.congr (hfat d hmem)) hk hvalid' hdir' hne

/-- A live file whose entry stays one of a file is a live file when the directories stay. -/
lemma Ok.fileAt_kept (hl : Layout fs) (h : Ok fs v C)
    (hfat : ∀ d, .dir d ∈ C.objs → ∀ c ∈ C.chain (.dir d), v'.fat c = v.fat c)
    (hentry : ∀ b, C.IsSlot fs b → Valid v.data b → deIsDir v.data b = true →
      Valid v'.data b ∧ deIsDir v'.data b = true ∧ deCluster v'.data b = deCluster v.data b)
    {b : ℕ} (hb : FileAt fs v b) (hvalid : Valid v'.data b) (hfile : deIsDir v'.data b = false) :
    FileAt fs v' b := by
  obtain ⟨⟨d, l, k, hd, hchain, hk, rfl, -⟩, -⟩ := hb
  have hmem := h.of_dirAt hl hd
  have hchain' : ChainAt fs v'.fat d l := by
    refine hchain.congr ?_
    rw [ChainAt.unique hl hchain (h.dirs d hmem).2]
    exact hfat d hmem
  exact ⟨⟨d, l, k, h.dirAt_kept hl hfat hentry hd, hchain', hk, rfl, hvalid⟩, hfile⟩

/-- The clusters that a volume gives a directory or a file are those of its catalogue. -/
lemma Ok.of_hasChain (hl : Layout fs) (h : Ok fs v C) {o : Obj} {l : List ℕ}
    (ho : HasChain fs v o l) : o ∈ C.objs ∧ C.chain o = l := by
  cases o with
  | dir d =>
    obtain ⟨hd, -, hchain⟩ := ho
    have hmem := h.of_dirAt hl hd
    exact ⟨hmem, ChainAt.unique hl (h.dirs d hmem).2 hchain⟩
  | file a =>
    obtain ⟨ha, hchain⟩ := ho
    have hmem := h.of_fileAt hl ha
    exact ⟨hmem, FileChain.unique hl (h.files a hmem).2.2.1 hchain⟩

/-- A volume with a catalogue is well-formed. -/
theorem Ok.wellFormed (hl : Layout fs) (h : Ok fs v C) : WellFormed fs v := by
  refine ⟨fun d hd => ?_, fun a ha => ?_, fun a l ha => ?_, fun o o' l l' ho ho' hne => ?_,
    fun d l hd => ?_⟩
  · have hmem := h.of_dirAt hl hd
    exact ⟨_, hd, h.dirs d hmem⟩
  · have hmem := h.of_fileAt hl ha
    exact ⟨_, ha, (h.files a hmem).2.2.1⟩
  · obtain ⟨hmem, rfl⟩ := h.of_hasChain hl ha
    exact (h.files a hmem).2.2.2
  · obtain ⟨hmem, rfl⟩ := h.of_hasChain hl ho
    obtain ⟨hmem', rfl⟩ := h.of_hasChain hl ho'
    exact h.disjoint o hmem o' hmem' hne
  · obtain ⟨hmem, rfl⟩ := h.of_hasChain hl hd
    exact h.ended d hmem

/-- The catalogue of a well-formed volume: its directories and live files. -/
noncomputable def catalogueOf (fs : Fat32Fs) (v : Volume) : Catalogue where
  objs := {o | ∃ l, HasChain fs v o l}
  chain o := Classical.epsilon fun l => HasChain fs v o l

/-- A well-formed volume has a catalogue. -/
theorem WellFormed.ok (hl : Layout fs) (h : WellFormed fs v) : Ok fs v (catalogueOf fs v) := by
  have hspec : ∀ o ∈ (catalogueOf fs v).objs, HasChain fs v o ((catalogueOf fs v).chain o) :=
    fun o ho => Classical.epsilon_spec ho
  refine ⟨h.dirs _ .root, fun d hd => (hspec _ hd).2, fun a ha => ?_, fun o ho o' ho' hne => ?_,
    ?_, fun d hd => h.ended d _ (hspec _ hd)⟩
  · obtain ⟨hfile, hchain⟩ := hspec _ ha
    refine ⟨?_, hfile.2, hchain, h.sizes a _ (hspec _ ha)⟩
    obtain ⟨d, l, k, hd, hdchain, hk, rfl, -⟩ := hfile.1
    have hmem : Obj.dir d ∈ (catalogueOf fs v).objs := h.dirs d hd
    obtain rfl := ChainAt.unique hl hdchain (hspec _ hmem).2.2
    exact ⟨d, k, hmem, hk, rfl⟩
  · exact h.disjoint o o' _ _ (hspec o ho) (hspec o' ho') hne
  · rintro a ⟨d, k, hd, hk, rfl⟩ hvalid
    obtain ⟨hdir, -, hchain⟩ := hspec _ hd
    split_ifs with hisdir
    · by_cases h0 : deCluster v.data (slotAt fs ((catalogueOf fs v).chain (.dir d)) k) = 0
      · exact .inl h0
      · exact .inr (h.dirs _ (hdir.sub hchain hk hvalid hisdir h0))
    · exact h.files _ ⟨⟨d, _, k, hdir, hchain, hk, rfl, hvalid⟩, by simpa using hisdir⟩

end Fat32

end CoolFrost
