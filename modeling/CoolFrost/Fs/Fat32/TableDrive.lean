import CoolFrost.Fs.Fat32.Volume

/-!
# FAT32: a drive for a given volume

Every table of 28-bit entries and every data area are those of a drive with one copy of the table;
the driver that has just been loaded sees them as a volume.
-/

namespace CoolFrost

namespace Fat32

/-- The bytes of a drive with the table `fat` and the data area `data`. -/
def driveWith (fs : Fat32Fs) (fat : ℕ → ℕ) (data : Bytes) : Bytes := fun i =>
  if i < fs.dataStartLba * 512 then
    Bytes.ofNat (fat ((i - fs.fatStartLba * 512) / 4)) ((i - fs.fatStartLba * 512) % 4)
  else data (i - fs.dataStartLba * 512)

/-- The driver with such a drive and the nodes of the volume; nothing is cached. -/
def stateWith (fs : Fat32Fs) (v : Volume) : Fat32State where
  blk := ⟨fun _ => driveWith fs v.fat v.data, fun _ => false, 0, []⟩
  fatBuf := Bytes.zeros
  cachedFatDev := ⟨255, 255⟩
  cachedFatLba := 0
  fsPoolUsed := 1
  nextFreeHint := fun _ => 2
  nodePool := v.nodes
  nodePoolUsed := v.used
  trace := []

variable {fs : Fat32Fs} {v : Volume}

lemma stateWith_sound (hnum : fs.numFats = 1) (hdev : fs.dev ≠ ⟨255, 255⟩) :
    Sound fs (stateWith fs v) := by
  refine ⟨fun _ => rfl, fun copy hcopy c _ => ?_, fun h => absurd h.symm hdev⟩
  obtain rfl : copy = 0 := by omega
  rfl

/-- An entry of the table on that drive. -/
lemma entryOn_driveWith (hl : Layout fs) {fat : ℕ → ℕ} {data : Bytes} {c : ℕ}
    (hfat : fat c < 2 ^ 28)
    (hc : c < fs.totalClusters + 2) : entryOn fs (driveWith fs fat data) 0 c = fat c := by
  have hentry : Bytes.le32 (driveWith fs fat data) (entryAddr fs 0 c) =
      Bytes.le32 (Bytes.ofNat (fat c)) 0 := by
    refine Bytes.le32_congr fun i hi => ?_
    have haddr : entryAddr fs 0 c = fs.fatStartLba * 512 + 4 * c := by
      rw [entryAddr, Nat.zero_mul, Nat.add_zero]
    have hlow : fs.fatStartLba * 512 + 4 * c + i < fs.dataStartLba * 512 := by
      have hrow := Nat.mul_le_mul_right fs.fatSize hl.numFats
      have hfat := hl.fatSize
      rw [hl.dataStart]
      omega
    have hdiv : (fs.fatStartLba * 512 + 4 * c + i - fs.fatStartLba * 512) / 4 = c := by omega
    have hmod : (fs.fatStartLba * 512 + 4 * c + i - fs.fatStartLba * 512) % 4 = i := by omega
    rw [haddr, driveWith, if_pos hlow, hdiv, hmod, Nat.zero_add]
  rw [entryOn, hentry, Bytes.le32_ofNat, Nat.mod_eq_of_lt (hfat.trans (by norm_num)),
    Nat.mod_eq_of_lt hfat]

/-- The volume that the driver sees. -/
lemma stateWith_view (hl : Layout fs) (hfat : ∀ c, v.fat c < 2 ^ 28)
    (hend : ∀ c, fs.totalClusters + 2 ≤ c → v.fat c = 0) :
    (fat32View fs).view (stateWith fs v) = v := by
  obtain ⟨fat, data, nodes, used⟩ := v
  simp only [fat32View, volumeOn, stateWith, Volume.mk.injEq, and_true]
  refine ⟨funext fun c => ?_, funext fun i => ?_⟩
  · split_ifs with hc
    · exact entryOn_driveWith hl (hfat c) hc
    · exact (hend c (Nat.le_of_not_lt hc)).symm
  · rw [Bytes.shift, driveWith, if_neg (by omega), Nat.add_sub_cancel_left]

/-! ## Six clusters -/

/-- A volume of six clusters. -/
def sixFs : Fat32Fs where
  id := 0
  dev := ⟨0, 0⟩
  partLba := 0
  sectorsPerCluster := 1
  reservedSectors := 1
  numFats := 1
  fatSize := 1
  rootCluster := 2
  fatStartLba := 1
  dataStartLba := 2
  totalSectors := 8
  totalClusters := 6

/-- The root directory takes cluster 2; the others are free. -/
def sixVolume : Volume :=
  ⟨fun c => if c = 2 then fat32Eoc else 0, Bytes.zeros, fun _ => rootNode sixFs, 1⟩

/-- The driver with the hint `hint`. -/
def sixState (hint : ℕ) : Fat32State :=
  { stateWith sixFs sixVolume with nextFreeHint := fun _ => hint }

lemma sixFs_layout : Layout sixFs := by
  constructor <;> decide

lemma sixState_sound (hint : ℕ) : Sound sixFs (sixState hint) := by
  have h : Sound sixFs (stateWith sixFs sixVolume) := stateWith_sound rfl (by decide)
  exact ⟨h.noFail, h.copies, h.cache⟩

lemma sixState_view (hint : ℕ) : (fat32View sixFs).view (sixState hint) = sixVolume := by
  refine stateWith_view sixFs_layout (fun c => ?_) fun c hc => if_neg ?_
  · change (if c = 2 then fat32Eoc else 0) < 2 ^ 28
    split_ifs <;> norm_num [fat32Eoc]
  · have htotal : sixFs.totalClusters + 2 = 8 := rfl
    omega

end Fat32

end CoolFrost
