import CoolFrost.Fs.Fat32.Volume

/-!
# FAT32: the geometry a mount accepts

`fat32_mount` takes the layout of a volume from the fields of its boot sector.  The allocator and
every walk trust that layout afterwards: they read the table entry of any cluster up to
`total_clusters + 1`, and the sectors of any such cluster.  The mount checks the sector size and the
cluster size but not that the layout holds together.  `BootFits` is what it would have to check:
`fat32Mount_consistent_iff` says that a mounted volume is `Consistent` exactly if its boot sector
passes.
-/

namespace CoolFrost

open Program

namespace Fat32

/-- The clusters the driver works on: those the allocator may hand out, and the root directory. -/
def Addressed (fs : Fat32Fs) (c : ℕ) : Prop :=
  (2 ≤ c ∧ c ≤ fs.totalClusters + 1) ∨ c = fs.rootCluster

/-- The table has an entry for every cluster the driver works on, and the sectors of these clusters
are sectors of the data area. -/
structure Consistent (fs : Fat32Fs) : Prop where
  copies : 1 ≤ fs.numFats
  inTable : ∀ c, Addressed fs c → c * 4 / 512 < fs.fatSize
  inData : ∀ c, Addressed fs c → ∀ i < fs.sectorsPerCluster,
    fs.dataStartLba ≤ clusterToLba fs c + i ∧
      clusterToLba fs c + i < fs.partLba + fs.totalSectors

/-- The sectors in front of the data area, added up as `fat32_mount` does. -/
def bootDataOffset (boot : Bytes) : ℕ :=
  Bytes.le16 boot 14 + u32 ((boot 16).toNat * Bytes.le32 boot 36)

/-- The clusters that the data area has room for. -/
def bootClusters (boot : Bytes) : ℕ :=
  (Bytes.le32 boot 32 - bootDataOffset boot) / (boot 13).toNat

/-- The fields of a boot sector fit together: there is a table, the data area starts inside of the
volume, the root directory is one of its clusters, and the table reaches to the last of them. -/
structure BootFits (boot : Bytes) : Prop where
  copies : 1 ≤ (boot 16).toNat
  start : bootDataOffset boot ≤ Bytes.le32 boot 32
  root : u32sub (Bytes.le32 boot 44) 2 < bootClusters boot
  table : (bootClusters boot + 1) / 128 < Bytes.le32 boot 36

/-- The first sector of a partition. -/
def bootSector (s : Fat32State) (dev : Drive) (partLba : ℕ) : Bytes :=
  Bytes.clip 512 (Bytes.shift (s.blk.disk dev) (partLba * 512))

/-! ## The layout of an accepted boot sector -/

section Boot

variable {id partLba : ℕ} {dev : Drive} {boot : Bytes}

lemma layoutOfBoot_dataStart :
    (layoutOfBoot id dev partLba boot).dataStartLba = partLba + bootDataOffset boot :=
  Nat.add_assoc _ _ _

/-- The subtraction of the mount does not wrap when the data area starts inside of the volume. -/
lemma layoutOfBoot_totalClusters (hs : bootDataOffset boot ≤ Bytes.le32 boot 32) :
    (layoutOfBoot id dev partLba boot).totalClusters = bootClusters boot := by
  have htotal := Bytes.le32_lt boot 32
  have hoff : partLba + Bytes.le16 boot 14 + u32 ((boot 16).toNat * Bytes.le32 boot 36) - partLba =
      bootDataOffset boot := by
    rw [bootDataOffset]
    omega
  have hdata : (Bytes.le32 boot 32 + (2 ^ 64 - bootDataOffset boot)) % 2 ^ 64 =
      Bytes.le32 boot 32 - bootDataOffset boot := by
    omega
  change u32 ((Bytes.le32 boot 32 + (2 ^ 64 - (partLba + Bytes.le16 boot 14 +
    u32 ((boot 16).toNat * Bytes.le32 boot 36) - partLba))) % 2 ^ 64 / (boot 13).toNat) = _
  rw [hoff, hdata]
  refine Nat.mod_eq_of_lt (lt_of_le_of_lt (Nat.div_le_self _ _) ?_)
  omega

/-- The sectors of a cluster are sectors of the data area exactly if the whole cluster fits. -/
lemma layoutOfBoot_inData (hspc : 1 ≤ (boot 13).toNat) (c : ℕ) :
    (∀ i < (boot 13).toNat,
      (layoutOfBoot id dev partLba boot).dataStartLba ≤
          clusterToLba (layoutOfBoot id dev partLba boot) c + i ∧
        clusterToLba (layoutOfBoot id dev partLba boot) c + i < partLba + Bytes.le32 boot 32) ↔
      bootDataOffset boot + (u32sub c 2 + 1) * (boot 13).toNat ≤ Bytes.le32 boot 32 := by
  have hlba : clusterToLba (layoutOfBoot id dev partLba boot) c =
      partLba + bootDataOffset boot + u32sub c 2 * (boot 13).toNat :=
    congrArg (· + _) layoutOfBoot_dataStart
  rw [hlba, layoutOfBoot_dataStart, Nat.succ_mul]
  constructor
  · intro h
    have hlast := (h ((boot 13).toNat - 1) (by omega)).2
    omega
  · intro h i hi
    omega

/-- A cluster fits into the data area exactly if it is one of the clusters there is room for. -/
lemma lt_bootClusters (hspc : 1 ≤ (boot 13).toNat) (k : ℕ) :
    bootDataOffset boot + (k + 1) * (boot 13).toNat ≤ Bytes.le32 boot 32 ↔
      bootDataOffset boot ≤ Bytes.le32 boot 32 ∧ k < bootClusters boot := by
  rw [bootClusters, Nat.lt_iff_add_one_le, Nat.le_div_iff_mul_le (by omega)]
  have hpos := Nat.zero_le ((k + 1) * (boot 13).toNat)
  omega

/-- A cluster number that the allocator may hand out, counted from the start of the data area. -/
lemma u32sub_two {c : ℕ} (h : 2 ≤ c) (hc : c ≤ 2 ^ 32) : u32sub c 2 = c - 2 := by
  unfold u32sub u32
  omega

lemma bootClusters_lt : bootClusters boot < 2 ^ 32 := by
  have htotal := Bytes.le32_lt boot 32
  refine lt_of_le_of_lt (Nat.div_le_self _ _) ?_
  omega

/-- In a volume whose boot sector fits together, every cluster the driver works on is one of the
clusters of the data area. -/
lemma BootFits.addressed (h : BootFits boot) {c : ℕ}
    (hc : Addressed (layoutOfBoot id dev partLba boot) c) : u32sub c 2 < bootClusters boot := by
  have hlt := @bootClusters_lt boot
  rcases hc with ⟨h2, hle⟩ | rfl
  · rw [layoutOfBoot_totalClusters h.start] at hle
    rw [u32sub_two h2 (by omega)]
    omega
  · exact h.root

/-- The layout of a boot sector with clusters of at least one sector is consistent exactly if its
fields fit together. -/
lemma layoutOfBoot_consistent (hspc : 1 ≤ (boot 13).toNat) :
    Consistent (layoutOfBoot id dev partLba boot) ↔ BootFits boot := by
  constructor
  · intro h
    have hroot := (layoutOfBoot_inData hspc _).mp (h.inData _ (.inr rfl))
    obtain ⟨hstart, hlt⟩ := (lt_bootClusters hspc _).mp hroot
    -- The data area has a cluster, so the last one is a cluster the table must reach to.
    have htotal := @layoutOfBoot_totalClusters id partLba dev boot hstart
    have hlast := h.inTable (bootClusters boot + 1) (.inl ⟨by omega, by omega⟩)
    refine ⟨h.copies, hstart, hlt, ?_⟩
    have hdiv : (bootClusters boot + 1) * 4 / 512 = (bootClusters boot + 1) / 128 := by omega
    exact hdiv ▸ hlast
  · intro h
    refine ⟨h.copies, fun c hc => ?_, fun c hc => ?_⟩
    · have hlt := h.addressed hc
      have htable := h.table
      have hclusters := @bootClusters_lt boot
      have hc32 : c < 2 ^ 32 + 1 := by
        rcases hc with ⟨-, hle⟩ | rfl
        · rw [layoutOfBoot_totalClusters h.start] at hle
          omega
        · exact (Bytes.le32_lt boot 44).trans (by omega)
      change c * 4 / 512 < Bytes.le32 boot 36
      rcases Nat.lt_or_ge c 2 with h2 | h2
      · omega
      · rw [u32sub_two h2 (by omega)] at hlt
        omega
    · exact (layoutOfBoot_inData hspc c).mpr
        ((lt_bootClusters hspc _).mpr ⟨h.start, h.addressed hc⟩)

end Boot

/-! ## The mount -/

/-- A mount that succeeds takes the layout from the boot sector, whose clusters have a sector. -/
lemma fat32Mount_layout (dev : Drive) (partLba : ℕ) (s : Fat32State) :
    wlp (fat32Mount dev partLba) (fun r s' => ∀ root, r = .ok root →
      1 ≤ (bootSector s dev partLba 13).toNat ∧
        (s'.nodePool root).fi.fs =
          layoutOfBoot s.fsPoolUsed dev partLba (bootSector s dev partLba)) s := by
  simp only [fat32Mount, wlp_bind, io, wlp_zoom, blkRead, wlp_get, wlp_modify, wlp_ite, wlp_pure]
  split
  · simp
  · simp only [wlp_ite, wlp_bind, wlp_get, wlp_pure, allocFs, wlp_modify, allocNode]
    split_ifs
    all_goals try simp only [false_implies, implies_true]
    rintro root ⟨⟩
    refine ⟨Nat.one_le_iff_ne_zero.mpr ‹_›, ?_⟩
    rw [Function.update_self]
    rfl

/-- The geometry of a mounted volume is consistent exactly if the fields of its boot sector fit
together. -/
theorem fat32Mount_consistent_iff {dev : Drive} {partLba root : ℕ} {s s' : Fat32State}
    (h : fat32Mount dev partLba s = some (.ok root, s')) :
    Consistent (s'.nodePool root).fi.fs ↔ BootFits (bootSector s dev partLba) := by
  obtain ⟨hspc, hfs⟩ := fat32Mount_layout dev partLba s _ _ h root rfl
  rw [hfs]
  exact layoutOfBoot_consistent hspc

/-- A boot sector of a volume with one sector a cluster, 32 reserved sectors and two tables. -/
def bootOf (fatSize totalSectors rootCluster : ℕ) : Bytes :=
  let b := Bytes.put8 (Bytes.put16 Bytes.zeros 11 512) 13 1
  let b := Bytes.put8 (Bytes.put16 b 14 32) 16 2
  Bytes.put32 (Bytes.put32 (Bytes.put32 b 32 totalSectors) 36 fatSize) 44 rootCluster

/-- The driver before the first mount, with a drive that starts with the given boot sector. -/
def freshState (boot : Bytes) : Fat32State where
  blk := ⟨fun _ => boot, fun _ => false, 0, []⟩
  fatBuf := Bytes.zeros
  cachedFatDev := ⟨255, 255⟩
  cachedFatLba := 2 ^ 64 - 1
  fsPoolUsed := 0
  nextFreeHint := fun _ => 0
  nodePool := fun _ => rootNode ⟨0, ⟨0, 0⟩, 0, 0, 0, 0, 0, 0, 0, 0, 0, 0⟩
  nodePoolUsed := 0
  trace := []

/-- A table of 78 sectors reaches to the last of 9812 clusters. -/
theorem fat32Mount_consistent_iff_wide :
    ∃ s', fat32Mount ⟨0, 0⟩ 0 (freshState (bootOf 78 10000 2)) = some (.ok 0, s') ∧
      (Consistent (s'.nodePool 0).fi.fs ↔
        BootFits (bootSector (freshState (bootOf 78 10000 2)) ⟨0, 0⟩ 0)) ∧
      BootFits (bootSector (freshState (bootOf 78 10000 2)) ⟨0, 0⟩ 0) :=
  ⟨_, rfl, fat32Mount_consistent_iff rfl, ⟨by decide, by decide, by decide, by decide⟩⟩

/-- A table of one sector has entries for 128 clusters, but the mount counts 9966. -/
theorem not_fat32Mount_consistent :
    ¬∀ (dev : Drive) (partLba root : ℕ) (s s' : Fat32State),
      fat32Mount dev partLba s = some (.ok root, s') → Consistent (s'.nodePool root).fi.fs := by
  intro h
  have hfits := layoutOfBoot_consistent (by decide) |>.mp
    (h ⟨0, 0⟩ 0 0 (freshState (bootOf 1 10000 2)) _ rfl)
  exact absurd hfits.table (by decide)

end Fat32

end CoolFrost
