import CoolFrost.Lib.Pages
import CoolFrost.Drivers.Ata
import CoolFrost.Drivers.Blk

/-!
# Partition tables

`blk_read_gpt` and `ata_read_gpt` (`drivers/ata.c`): the entries of a GUID partition table that are
in use.  The two functions differ only in how they read a sector.  They place a whole number of
entries in each sector, which is where the entries are if the size of an entry divides that of a
sector, or if they are all in the first one.
-/

namespace CoolFrost

open Bytes Program

namespace Gpt

/-! ## The functions -/

/-- `ATA_SECTOR_SIZE`. -/
def sectorSize : ℕ := 512
/-- `sizeof(gpt_partition_entry_t)`. -/
def entryBytes : ℕ := 128
/-- "EFI PART". -/
def signature : List UInt8 := [0x45, 0x46, 0x49, 0x20, 0x50, 0x41, 0x52, 0x54]

/-- `guid_is_zero`, for the GUID at `off`. -/
def guidIsZero (b : Bytes) (off : ℕ) : Prop :=
  le32 b off = 0 ∧ le16 b (off + 4) = 0 ∧ le16 b (off + 6) = 0 ∧ b (off + 8) = 0 ∧ b (off + 9) = 0 ∧
    b (off + 10) = 0 ∧ b (off + 11) = 0 ∧ b (off + 12) = 0 ∧ b (off + 13) = 0 ∧ b (off + 14) = 0 ∧
    b (off + 15) = 0

instance (b : Bytes) (off : ℕ) : Decidable (guidIsZero b off) :=
  inferInstanceAs (Decidable (_ ∧ _ ∧ _ ∧ _ ∧ _ ∧ _ ∧ _ ∧ _ ∧ _ ∧ _ ∧ _))

variable {σ : Type} (read : UInt64 → Program σ (Option Bytes))

/-- The loop over the entries, from the entry `i` on, with `k` rounds to go; `none` stands for the
return code -1. -/
def entryLoop (entryLba : UInt64) (entrySize entriesPerSector : ℕ) :
    ℕ → ℕ → Bytes → List (List UInt8) → Program σ (Option (List (List UInt8)))
  | 0, _, _, found => return some found
  | k + 1, i, secBuf, found => do
    let secOff := i % entriesPerSector * entrySize
    let r ← if secOff = 0 then read (entryLba + UInt64.ofNat (i / entriesPerSector))
      else pure (some secBuf)
    match r with
    | none => return none
    | some secBuf =>
      if guidIsZero secBuf secOff then
        entryLoop entryLba entrySize entriesPerSector k (i + 1) secBuf found
      else
        entryLoop entryLba entrySize entriesPerSector k (i + 1) secBuf
          (found ++ [slice secBuf secOff entryBytes])

/-- `ata_read_gpt` and `blk_read_gpt`, for a way to read a sector: the entries found, or the return
code of a failure. -/
def readGpt (max : Int32) : Program σ (Except Int32 (List (List UInt8))) := do
  match ← read 1 with
  | none => return .error (-1)
  | some hdr =>
    if slice hdr 0 8 ≠ signature then return .error (-2)
    let numEntries := le32 hdr 80
    let entrySize := le32 hdr 84
    let entryLba := UInt64.ofNat (le64 hdr 72)
    if entrySize < 128 ∨ 512 < entrySize then return .error (-3)
    let numEntries := if max.toUInt32.toNat < numEntries then max.toUInt32.toNat else numEntries
    match ← entryLoop read entryLba entrySize (sectorSize / entrySize) numEntries 0 zeros [] with
    | none => return .error (-1)
    | some found => return .ok found

/-- `blk_read_gpt`. -/
def blkReadGpt (dr : Drive) (max : Int32) : Program BlkDev (Except Int32 (List (List UInt8))) :=
  readGpt (fun lba => blkRead dr lba.toNat 1) max

/-- `ata_read_sectors` for one sector. -/
def ataReadSector (drv : UInt8) (lba : UInt64) : Program Ata (Option Bytes) := fun s =>
  let r := s.readSectors drv lba 1
  some (r.1.map ofList, r.2)

/-- `ata_read_gpt`. -/
def ataReadGpt (drv : UInt8) (max : Int32) : Program Ata (Except Int32 (List (List UInt8))) :=
  readGpt (ataReadSector drv) max

/-! ## The table on the disk -/

/-- A header that the functions accept, with the array of entries behind it and inside of what
sector numbers reach. -/
structure Header where
  entryLba : UInt64
  numEntries : UInt32
  entrySize : UInt32
  le_size : 128 ≤ entrySize.toNat
  size_le : entrySize.toNat ≤ 512
  behind : 2 ≤ entryLba.toNat
  reach : entryLba.toNat * sectorSize + numEntries.toNat * entrySize.toNat ≤ 2 ^ 64 * sectorSize

/-- The header is on the disk. -/
structure Header.On (h : Header) (disk : Bytes) : Prop where
  signature : slice disk sectorSize 8 = signature
  entryLba : le64 disk (sectorSize + 72) = h.entryLba.toNat
  numEntries : le32 disk (sectorSize + 80) = h.numEntries.toNat
  entrySize : le32 disk (sectorSize + 84) = h.entrySize.toNat

/-- The entries that are asked for. -/
def Header.wanted (h : Header) (max : Int32) : ℕ := min h.numEntries.toNat max.toUInt32.toNat

/-- The entry at an address, if it is in use. -/
def entryAt (disk : Bytes) (pos : ℕ) : Option (List UInt8) :=
  if slice disk pos 16 = List.replicate 16 0 then none else some (slice disk pos entryBytes)

/-- The entries in use among those asked for, by the addresses of their bytes in the array. -/
def Header.inUse (h : Header) (disk : Bytes) (max : Int32) : List (List UInt8) :=
  (List.range (h.wanted max)).filterMap fun i =>
    entryAt disk (h.entryLba.toNat * sectorSize + i * h.entrySize.toNat)

/-! ## What the functions return -/

lemma le16_eq_zero_iff {b : Bytes} {off : ℕ} : le16 b off = 0 ↔ b off = 0 ∧ b (off + 1) = 0 := by
  rw [← UInt8.toNat_inj, ← UInt8.toNat_inj, le16]
  change _ ↔ (b off).toNat = 0 ∧ (b (off + 1)).toNat = 0
  omega

lemma guidIsZero_iff {b : Bytes} {off : ℕ} :
    guidIsZero b off ↔ slice b off 16 = List.replicate 16 0 := by
  have h32 : le32 b off = 0 ↔ le16 b off = 0 ∧ le16 b (off + 2) = 0 := by
    unfold le32
    omega
  rw [guidIsZero, h32, le16_eq_zero_iff, le16_eq_zero_iff, le16_eq_zero_iff, le16_eq_zero_iff]
  change _ ↔ [b off, b (off + 1), b (off + 2), b (off + 3), b (off + 4), b (off + 5), b (off + 6),
    b (off + 7), b (off + 8), b (off + 9), b (off + 10), b (off + 11), b (off + 12), b (off + 13),
    b (off + 14), b (off + 15)] = [0, 0, 0, 0, 0, 0, 0, 0, 0, 0, 0, 0, 0, 0, 0, 0]
  simp only [List.cons.injEq, and_assoc, and_true]

/-- Reading the sectors that are `ok` succeeds with what is on the disk. -/
def ReadsFrom (I : σ → Prop) (ok : ℕ → Prop) (disk : Bytes) : Prop :=
  ∀ lba s, I s → ok lba.toNat → wp (read lba) (fun r s' => I s' ∧ ∃ b, r = some b ∧
    ∀ i < sectorSize, b i = disk (lba.toNat * sectorSize + i)) s

/-- The sector that the entry `i` is looked for in. -/
def entrySector (entryLba : UInt64) (entriesPerSector i : ℕ) : ℕ :=
  (entryLba + UInt64.ofNat (i / entriesPerSector)).toNat

/-- Where the entry `i` is looked for. -/
def entryPos (entryLba : UInt64) (entrySize entriesPerSector i : ℕ) : ℕ :=
  entrySector entryLba entriesPerSector i * sectorSize + i % entriesPerSector * entrySize

variable {read} {I : σ → Prop} {ok : ℕ → Prop} {disk b : Bytes} {entryLba : UInt64}
  {size eps k i : ℕ} {found : List (List UInt8)} {s : σ}

/-- A sector holds its entries. -/
lemma entry_lt (hsize : 128 ≤ size) (heps : eps * size ≤ sectorSize) (hpos : 0 < eps) (i : ℕ) :
    i % eps * size + entryBytes ≤ sectorSize := by
  have hlt : i % eps + 1 ≤ eps := Nat.mod_lt i hpos
  have hle : (i % eps + 1) * size ≤ eps * size := Nat.mul_le_mul_right size hlt
  rw [Nat.add_mul, Nat.one_mul] at hle
  unfold entryBytes
  omega

/-- The loop finds the entries in use at the places it looks at. -/
lemma wp_entryLoop (hread : ReadsFrom read I ok disk) (hsize : 128 ≤ size)
    (heps : eps * size ≤ sectorSize) (hpos : 0 < eps)
    (hok : ∀ j, i ≤ j → j < i + k → ok (entrySector entryLba eps j)) (hI : I s)
    (hbuf : i % eps ≠ 0 → ∀ j < sectorSize,
      b j = disk (entrySector entryLba eps i * sectorSize + j)) :
    wp (entryLoop read entryLba size eps k i b found) (fun r s' => I s' ∧ r = some (found ++
      (List.range' i k).filterMap fun j => entryAt disk (entryPos entryLba size eps j))) s := by
  induction k generalizing i b found s with
  | zero =>
    rw [entryLoop, wp_pure, List.range'_zero, List.filterMap_nil, List.append_nil]
    exact ⟨hI, rfl⟩
  | succ k ih =>
    have hroom := entry_lt hsize heps hpos i
    -- the rest of the loop, from a buffer that holds the sector of the entry `i`
    have hrest : ∀ (b : Bytes) (s : σ), I s →
        (∀ j < sectorSize, b j = disk (entrySector entryLba eps i * sectorSize + j)) →
        wp (if guidIsZero b (i % eps * size) then entryLoop read entryLba size eps k (i + 1) b found
          else entryLoop read entryLba size eps k (i + 1) b
            (found ++ [slice b (i % eps * size) entryBytes]))
          (fun r s' => I s' ∧ r = some (found ++ (List.range' i (k + 1)).filterMap fun j =>
            entryAt disk (entryPos entryLba size eps j))) s := by
      intro b s hI hb
      have hslice : ∀ n ≤ entryBytes, slice b (i % eps * size) n =
          slice disk (entryPos entryLba size eps i) n := by
        intro n hn
        refine slice_congr fun j hj => ?_
        rw [hb _ (by omega), entryPos, Nat.add_assoc]
      have hnext : (i + 1) % eps ≠ 0 → ∀ j < sectorSize,
          b j = disk (entrySector entryLba eps (i + 1) * sectorSize + j) := by
        intro hmod j hj
        have hdiv : (i + 1) / eps = i / eps := by
          rw [Nat.succ_div, if_neg (fun hdvd => hmod (Nat.mod_eq_zero_of_dvd hdvd)), Nat.add_zero]
        rw [hb j hj, entrySector, entrySector, hdiv]
      have hstep : ∀ found', wp (entryLoop read entryLba size eps k (i + 1) b found')
          (fun r s' => I s' ∧ r = some (found' ++ (List.range' (i + 1) k).filterMap fun j =>
            entryAt disk (entryPos entryLba size eps j))) s := fun found' =>
        ih (fun j hle hlt => hok j (by omega) (by omega)) hI hnext
      rw [List.range'_succ, List.filterMap_cons, entryAt, ← hslice 16 (by decide),
        ← hslice entryBytes le_rfl]
      by_cases hzero : guidIsZero b (i % eps * size)
      · rw [if_pos hzero, if_pos (guidIsZero_iff.mp hzero)]
        exact hstep found
      · rw [if_neg hzero, if_neg fun h => hzero (guidIsZero_iff.mpr h)]
        have h := hstep (found ++ [slice b (i % eps * size) entryBytes])
        rw [List.append_assoc, List.singleton_append] at h
        exact h
    rw [entryLoop]
    by_cases hmod : i % eps = 0
    · rw [if_pos (by rw [hmod, Nat.zero_mul]), wp_bind]
      refine wp_mono (hread _ s hI (hok i le_rfl (by omega))) ?_
      rintro r s' ⟨hI', b', rfl, hb'⟩
      exact hrest b' s' hI' hb'
    · have hoff : i % eps * size ≠ 0 := Nat.mul_ne_zero hmod (by omega)
      rw [if_neg hoff, wp_bind, wp_pure]
      exact hrest b s hI (hbuf hmod)

/-- The functions return the entries in use at the places they look at. -/
lemma wp_readGpt {h : Header} {max : Int32} (hread : ReadsFrom read I ok disk) (hon : h.On disk)
    (hone : ok 1)
    (hok : ∀ i < h.wanted max, ok (entrySector h.entryLba (sectorSize / h.entrySize.toNat) i))
    (hI : I s) :
    wp (readGpt read max) (fun r _ => r = .ok ((List.range (h.wanted max)).filterMap fun i =>
      entryAt disk (entryPos h.entryLba h.entrySize.toNat (sectorSize / h.entrySize.toNat) i)))
      s := by
  have hle := h.le_size
  have hsize := h.size_le
  have hpos : 0 < sectorSize / h.entrySize.toNat := Nat.div_pos hsize (by omega)
  rw [readGpt, wp_bind]
  refine wp_mono (hread 1 s hI hone) ?_
  rintro _ s' ⟨hI', b, rfl, hb⟩
  -- the fields of the header, from the buffer
  have hbyte : ∀ off n, off + n ≤ sectorSize →
      ∀ i < n, b (off + i) = disk (sectorSize + off + i) := by
    intro off n hroom i hi
    rw [hb _ (by omega), Nat.add_assoc]
    rfl
  have hsig : slice b 0 8 = signature :=
    (slice_congr (hbyte 0 8 (by decide))).trans hon.signature
  have hlba : le64 b 72 = h.entryLba.toNat :=
    (le64_congr (hbyte 72 8 (by decide))).trans hon.entryLba
  have hnum : le32 b 80 = h.numEntries.toNat :=
    (le32_congr (hbyte 80 4 (by decide))).trans hon.numEntries
  have hentry : le32 b 84 = h.entrySize.toNat :=
    (le32_congr (hbyte 84 4 (by decide))).trans hon.entrySize
  have hmin : (if max.toUInt32.toNat < h.numEntries.toNat then max.toUInt32.toNat
      else h.numEntries.toNat) = h.wanted max := by
    unfold Header.wanted
    split_ifs <;> omega
  simp only [hsig, hlba, hnum, hentry, hmin, UInt64.ofNat_toNat, ne_eq, not_true_eq_false, if_false,
    if_neg (by omega : ¬(h.entrySize.toNat < 128 ∨ 512 < h.entrySize.toNat)), wp_bind]
  refine wp_mono (wp_entryLoop hread hle (Nat.div_mul_le_self _ _) hpos
    (fun j _ hj => hok j (by omega)) hI' (fun hmod => absurd (Nat.zero_mod _) hmod)) ?_
  rintro _ s'' ⟨-, rfl⟩
  rw [List.nil_append, ← List.range_eq_range']
  exact (wp_pure _ _ _).mpr rfl

/-! ## The two ways to read a sector -/

/-- The block layer reads what is on the disk. -/
lemma readsFrom_blk (dr : Drive) (disk : Bytes) :
    ReadsFrom (fun lba => blkRead dr lba.toNat 1) (fun d => d.NoFail ∧ d.disk dr = disk)
      (fun _ => True) disk := by
  rintro lba d ⟨hfail, rfl⟩ -
  rw [wp_blkRead hfail]
  exact ⟨⟨hfail, rfl⟩, _, rfl, fun i hi => clip_of_lt hi⟩

/-- The driver reads what is on the medium, up to the last sector. -/
lemma readsFrom_ata (drv : UInt8) (sectors : ℕ) (disk : Bytes) :
    ReadsFrom (ataReadSector drv)
      (fun t => t.Ready ∧ drv.toNat < t.numDrives ∧ (t.drives drv.toNat).sectors.toNat = sectors ∧
        t.medium drv.toNat = disk)
      (fun lba => lba < sectors) disk := by
  rintro lba t ⟨hready, hdrv, rfl, rfl⟩ hlba
  obtain ⟨hdrives, hnum⟩ := Ata.readSectors_drives t drv lba 1
  have hreach : lba.toNat + (1 : UInt8).toNat ≤ (t.drives drv.toNat).sectors.toNat := hlba
  refine wp_of_eq rfl ⟨⟨hready.congr hdrives hnum, by rw [hnum]; exact hdrv, by rw [hdrives],
    by rw [Ata.readSectors_medium hready hdrv (by decide) hreach (Ata.not_crosses_one _)]⟩, ?_⟩
  rw [Ata.readSectors_eq hready hdrv (by decide) hreach (Ata.not_crosses_one _)]
  refine ⟨_, rfl, fun i hi => ?_⟩
  have hlen : i < 512 := hi
  simp [ofList, slice, sectorSize, List.getElem?_range hlen]

/-! ## Where the entries are -/

/-- Every entry is looked for where it is: the entries fill their sectors, or they are all in the
first one. -/
def Header.Fits (h : Header) (max : Int32) : Prop :=
  h.entrySize.toNat ∣ sectorSize ∨ h.wanted max ≤ sectorSize / h.entrySize.toNat

lemma Header.entryPos_eq {h : Header} {max : Int32} (hfits : h.Fits max) {i : ℕ}
    (hi : i < h.wanted max) :
    entryPos h.entryLba h.entrySize.toNat (sectorSize / h.entrySize.toNat) i =
      h.entryLba.toNat * sectorSize + i * h.entrySize.toNat := by
  have hle := h.le_size
  have hwanted : h.wanted max ≤ h.numEntries.toNat := Nat.min_le_left _ _
  have hend : (i + 1) * h.entrySize.toNat ≤ h.numEntries.toNat * h.entrySize.toNat :=
    Nat.mul_le_mul_right _ (by omega)
  have hreach := h.reach
  rw [Nat.add_mul, Nat.one_mul] at hend
  -- the entry by its sector and its place there
  have hplace : i / (sectorSize / h.entrySize.toNat) * sectorSize +
      i % (sectorSize / h.entrySize.toNat) * h.entrySize.toNat = i * h.entrySize.toNat := by
    rcases hfits with hdvd | hfirst
    · have hfull : sectorSize / h.entrySize.toNat * h.entrySize.toNat = sectorSize :=
        Nat.div_mul_cancel hdvd
      generalize sectorSize / h.entrySize.toNat = eps at hfull
      calc i / eps * sectorSize + i % eps * h.entrySize.toNat
          = (eps * (i / eps) + i % eps) * h.entrySize.toNat := by
            rw [← hfull]
            ring
        _ = i * h.entrySize.toNat := by rw [Nat.div_add_mod]
    · rw [Nat.div_eq_of_lt (by omega), Nat.mod_eq_of_lt (by omega), Nat.zero_mul, Nat.zero_add]
  have hsector : entrySector h.entryLba (sectorSize / h.entrySize.toNat) i =
      h.entryLba.toNat + i / (sectorSize / h.entrySize.toNat) := by
    have hlt : h.entryLba.toNat + i / (sectorSize / h.entrySize.toNat) < 2 ^ 64 := by
      unfold sectorSize at hplace hreach ⊢
      omega
    rw [entrySector, UInt64.toNat_add,
      UInt64.toNat_ofNat_of_lt' (Nat.lt_of_le_of_lt (Nat.le_add_left _ _) hlt),
      Nat.mod_eq_of_lt hlt]
  rw [entryPos, hsector, Nat.add_mul, Nat.add_assoc, hplace]

lemma entryAt_of_zero {pos : ℕ} (hzero : ∀ j < 16, disk (pos + j) = 0) :
    entryAt disk pos = none := by
  refine if_pos (List.eq_replicate_iff.mpr ⟨by simp [slice], fun x hx => ?_⟩)
  obtain ⟨j, hj, rfl⟩ := List.mem_map.mp hx
  exact hzero j (List.mem_range.mp hj)

lemma entryAt_congr {disk' : Bytes} {pos : ℕ}
    (hsame : ∀ j < entryBytes, disk' (pos + j) = disk (pos + j)) :
    entryAt disk' pos = entryAt disk pos := by
  rw [entryAt, entryAt, slice_congr hsame,
    slice_congr fun j hj => hsame j (lt_of_lt_of_le hj (by decide))]

lemma entryAt_of_ne {pos : ℕ} (hne : disk pos ≠ 0) :
    entryAt disk pos = some (slice disk pos entryBytes) := by
  refine if_neg fun hzero => hne ?_
  rw [slice_succ] at hzero
  exact (List.cons.inj hzero).1

/-- The header is in the first two sectors. -/
lemma Header.On.congr {h : Header} {disk' : Bytes} (hon : h.On disk)
    (hsame : ∀ i < 2 * sectorSize, disk' i = disk i) : h.On disk' where
  signature := (slice_congr fun _ _ => hsame _ (by unfold sectorSize; omega)).trans hon.signature
  entryLba := (le64_congr fun _ _ => hsame _ (by unfold sectorSize; omega)).trans hon.entryLba
  numEntries := (le32_congr fun _ _ => hsame _ (by unfold sectorSize; omega)).trans hon.numEntries
  entrySize := (le32_congr fun _ _ => hsame _ (by unfold sectorSize; omega)).trans hon.entrySize

/-- A disk with the header on it and nothing else. -/
def Header.blank (h : Header) : Bytes :=
  put32 (put32 (put64 (blit zeros sectorSize (ofList Gpt.signature) 8) (sectorSize + 72)
    h.entryLba.toNat) (sectorSize + 80) h.numEntries.toNat) (sectorSize + 84) h.entrySize.toNat

lemma Header.on_blank (h : Header) : h.On h.blank where
  signature := by
    refine (slice_congr fun i hi => ?_ : _ = slice (ofList Gpt.signature) 0 8).trans rfl
    rw [Header.blank, put32, put32, put64, blit_of_not_mem (by omega), blit_of_not_mem (by omega),
      blit_of_not_mem (by omega), blit_of_mem (by omega), Nat.add_sub_cancel_left, Nat.zero_add]
  entryLba := by
    rw [Header.blank, put32, put32, le64_blit_of_disjoint (by omega),
      le64_blit_of_disjoint (by omega), le64_put64_self, Nat.mod_eq_of_lt h.entryLba.toNat_lt]
  numEntries := by
    rw [Header.blank, put32, le32_blit_of_disjoint (by omega), le32_put32_self,
      Nat.mod_eq_of_lt h.numEntries.toNat_lt]
  entrySize := by
    rw [Header.blank, le32_put32_self, Nat.mod_eq_of_lt h.entrySize.toNat_lt]

lemma Header.blank_of_le (h : Header) {i : ℕ} (hi : 2 * sectorSize ≤ i) : h.blank i = 0 := by
  unfold sectorSize at hi
  rw [Header.blank, put32, put32, put64, sectorSize, blit_of_not_mem (by omega),
    blit_of_not_mem (by omega), blit_of_not_mem (by omega), blit_of_not_mem (by omega)]
  rfl

/-- Both functions return the entries in use: `blk_read_gpt` from every drive, and `ata_read_gpt`
from every drive that has the entries asked for on its sectors. -/
def Header.Returns (h : Header) (max : Int32) : Prop :=
  ∀ disk : Bytes, h.On disk →
    (∀ (dr : Drive) (d : BlkDev), d.NoFail → d.disk dr = disk →
      wp (blkReadGpt dr max) (fun r _ => r = .ok (h.inUse disk max)) d) ∧
    ∀ (drv : UInt8) (t : Ata), t.Ready → drv.toNat < t.numDrives → t.medium drv.toNat = disk →
      h.entryLba.toNat * sectorSize + h.wanted max * h.entrySize.toNat ≤
        (t.drives drv.toNat).sectors.toNat * sectorSize →
      wp (ataReadGpt drv max) (fun r _ => r = .ok (h.inUse disk max)) t

/-- If the entries do not fill their sectors, no entry is looked for at the end of the first
sector. -/
lemma entryPos_add_ne (hsize : 128 ≤ size) (hbefore : eps * size < sectorSize) (hpos : 0 < eps)
    {j : ℕ} (hj : j < entryBytes) :
    entryPos entryLba size eps i + j ≠ entryLba.toNat * sectorSize + eps * size := by
  have hroom := entry_lt hsize hbefore.le hpos i
  have hlast : (i % eps + 1) * size ≤ eps * size := Nat.mul_le_mul_right size (Nat.mod_lt i hpos)
  rw [Nat.add_mul, Nat.one_mul] at hlast
  unfold entryPos
  unfold entryBytes at hj hroom
  by_cases hsector : entrySector entryLba eps i = entryLba.toNat
  · rw [hsector]
    omega
  · unfold sectorSize at hbefore hroom ⊢
    omega

/-- Entries that are looked for where they are get returned. -/
lemma Header.Fits.returns {h : Header} {max : Int32} (hfits : h.Fits max) : h.Returns max := by
  have hpos : 0 < sectorSize / h.entrySize.toNat :=
    Nat.div_pos h.size_le (lt_of_lt_of_le (by decide) h.le_size)
  intro disk hon
  have hinUse : h.inUse disk max = (List.range (h.wanted max)).filterMap fun i =>
      entryAt disk (entryPos h.entryLba h.entrySize.toNat (sectorSize / h.entrySize.toNat) i) :=
    List.filterMap_congr fun i hi => by rw [Header.entryPos_eq hfits (List.mem_range.mp hi)]
  rw [hinUse]
  refine ⟨fun dr d hfail hdisk => ?_, fun drv t hready hdrv hmedium hholds => ?_⟩
  · exact wp_readGpt (readsFrom_blk dr disk) hon trivial (fun _ _ => trivial) ⟨hfail, hdisk⟩
  · have hbehind := h.behind
    refine wp_readGpt (readsFrom_ata drv (t.drives drv.toNat).sectors.toNat disk) hon ?_
      (fun i hi => ?_) ⟨hready, hdrv, rfl, hmedium⟩
    · unfold sectorSize at hholds
      omega
    · have hplace := Header.entryPos_eq hfits hi
      have hend : (i + 1) * h.entrySize.toNat ≤ h.wanted max * h.entrySize.toNat :=
        Nat.mul_le_mul_right _ hi
      have hle := h.le_size
      rw [Nat.add_mul, Nat.one_mul] at hend
      unfold entryPos sectorSize at hplace
      unfold sectorSize at hholds ⊢
      omega

/-- An entry that is asked for and that is not looked for where it is can be missed. -/
lemma Header.Returns.fits {h : Header} {max : Int32} (hreturns : h.Returns max) : h.Fits max := by
  have hle := h.le_size
  have hpos : 0 < sectorSize / h.entrySize.toNat := Nat.div_pos h.size_le (by omega)
  by_contra hnot
  obtain ⟨hdvd, hfirst⟩ := not_or.mp hnot
  generalize heps : sectorSize / h.entrySize.toNat = eps at hpos hfirst
  have hbefore : eps * h.entrySize.toNat < sectorSize := by
    refine lt_of_le_of_ne (heps ▸ Nat.div_mul_le_self _ _) fun hfull => hdvd ⟨eps, ?_⟩
    rw [← hfull, Nat.mul_comm]
  -- the first entry behind those of the first sector is in use on one of two disks
  obtain ⟨pos, hposdef⟩ : ∃ pos, pos = h.entryLba.toNat * sectorSize + eps * h.entrySize.toNat :=
    ⟨_, rfl⟩
  have hbehind : 2 * sectorSize ≤ pos := by
    rw [hposdef]
    exact le_trans (Nat.mul_le_mul_right _ h.behind) (Nat.le_add_right _ _)
  have hon : h.On (Function.update h.blank pos 1) :=
    h.on_blank.congr fun i hi => Function.update_of_ne (by omega) _ _
  have hreturn : ∀ disk, h.On disk →
      h.inUse disk max = (List.range (h.wanted max)).filterMap fun i =>
      entryAt disk (entryPos h.entryLba h.entrySize.toNat eps i) := by
    intro disk hdisk
    have hfail : BlkDev.NoFail ⟨fun _ => disk, fun _ => false, 0, []⟩ := fun _ => rfl
    obtain ⟨r, s', hrun, hr⟩ := (hreturns disk hdisk).1 ⟨0, 0⟩ _ hfail rfl
    have hlooked := wlp_of_wp (wp_readGpt (readsFrom_blk ⟨0, 0⟩ disk) hdisk trivial
      (fun _ _ => trivial) ⟨hfail, rfl⟩) r s' hrun
    rw [hr, heps] at hlooked
    exact Except.ok.inj hlooked
  -- and is looked for at places where the disks are the same
  have hsame : h.inUse (Function.update h.blank pos 1) max = h.inUse h.blank max := by
    rw [hreturn _ hon, hreturn _ h.on_blank]
    refine List.filterMap_congr fun i _ => entryAt_congr fun j hj => Function.update_of_ne ?_ _ _
    rw [hposdef]
    exact entryPos_add_ne hle hbefore hpos hj
  have hempty : h.inUse h.blank max = [] := by
    refine List.filterMap_eq_nil_iff.mpr fun i _ => entryAt_of_zero fun j _ => h.blank_of_le ?_
    have hlba : 2 * sectorSize ≤ h.entryLba.toNat * sectorSize := Nat.mul_le_mul_right _ h.behind
    omega
  rw [hempty, Header.inUse, List.filterMap_eq_nil_iff] at hsame
  have hmissed := hsame eps (List.mem_range.mpr (Nat.not_le.mp hfirst))
  rw [← hposdef, entryAt_of_ne (by rw [Function.update_self]; decide)] at hmissed
  exact absurd hmissed (Option.some_ne_none _)

/-- The functions return the entries in use exactly if the size of an entry divides that of a sector
or the entries asked for are all in the first sector. -/
theorem readGpt_returns_iff (h : Header) (max : Int32) :
    h.Returns max ↔
      h.entrySize.toNat ∣ sectorSize ∨ h.wanted max ≤ sectorSize / h.entrySize.toNat :=
  ⟨Header.Returns.fits, Header.Fits.returns⟩

/-- Four entries of 192 bytes, two of which are in the first sector as a whole. -/
theorem not_returns_of_192 :
    ¬(⟨2, 4, 192, by decide, by decide, by decide, by decide⟩ : Header).Returns 32 := fun h =>
  absurd h.fits <| by
    unfold Header.Fits
    decide

end Gpt

end CoolFrost
