import CoolFrost.Drivers.Ata

/-!
# The AHCI driver

The sector functions of `drivers/ahci.c`.  A command is a FIS in the command table of a port
together with one region of memory, which is always the bounce buffer; the controller carries it out
when it is issued, and commands always succeed.  The bounce buffer is too small for some counts, and
the arrays with the memory for the commands have a row for the first 8 of the 32 ports only.
-/

namespace CoolFrost

/-- `ahci_drive_t`. -/
structure AhciDrive where
  portIdx : ℕ
  sectorCount : UInt64

/-- The static variables of the driver, and the medium at each port. -/
structure Ahci where
  drives : ℕ → AhciDrive
  ndrive : ℕ
  dma : Bytes
  disk : ℕ → Bytes
  /-- A port was set up whose command memory is outside of the driver's arrays. -/
  outside : Bool

/-- A command as the controller sees it: whether the command header says that it writes, the FIS,
and the byte count of the region, less 1. -/
structure AhciCommand where
  write : Bool
  fis : ℕ → UInt8
  prdCount : UInt32

namespace Ahci

/-- `AHCI_DMA_SECTS`. -/
def dmaSects : ℕ := 64
/-- `ATA_READ_DMA_EXT`. -/
def readDmaExt : UInt8 := 0x25
/-- `ATA_WRITE_DMA_EXT`. -/
def writeDmaExt : UInt8 := 0x35

/-! ## The hardware -/

/-- The sector that a command begins at. -/
def lbaOf (fis : ℕ → UInt8) : ℕ :=
  (fis 4).toNat + 2 ^ 8 * (fis 5).toNat + 2 ^ 16 * (fis 6).toNat + 2 ^ 24 * (fis 8).toNat +
    2 ^ 32 * (fis 9).toNat + 2 ^ 40 * (fis 10).toNat

/-- The number of sectors of a command. -/
def countOf (fis : ℕ → UInt8) : ℕ :=
  let n := (fis 12).toNat + 2 ^ 8 * (fis 13).toNat
  if n = 0 then 65536 else n

/-- The port carries out a command, as far as the region of memory goes. -/
def execute (s : Ahci) (p : ℕ) (cmd : AhciCommand) : Ahci :=
  let len := min (countOf cmd.fis * 512) (cmd.prdCount.toNat + 1)
  let pos := lbaOf cmd.fis * 512
  if cmd.fis 2 = readDmaExt ∧ cmd.write = false then
    { s with dma := Bytes.blit s.dma 0 (Bytes.shift (s.disk p) pos) len }
  else if cmd.fis 2 = writeDmaExt ∧ cmd.write = true then
    { s with disk := Function.update s.disk p (Bytes.blit (s.disk p) pos s.dma len) }
  else s

/-! ## The driver -/

/-- `ahci_issue` with the bounce buffer.  The command succeeds. -/
def issue (s : Ahci) (p : ℕ) (cmd : UInt8) (lba : UInt64) (count : UInt16) (write : Bool) : Ahci :=
  s.execute p
    { write := write
      fis := fun i => match i with
        | 0 => 0x27
        | 1 => 0x80
        | 2 => cmd
        | 4 => lba.toUInt8
        | 5 => (lba >>> 8).toUInt8
        | 6 => (lba >>> 16).toUInt8
        | 7 => 0x40
        | 8 => (lba >>> 24).toUInt8
        | 9 => (lba >>> 32).toUInt8
        | 10 => (lba >>> 40).toUInt8
        | 12 => (count &&& 0xFF).toUInt8
        | 13 => (count >>> 8).toUInt8
        | _ => 0
      prdCount := count.toUInt32 * 512 - 1 }

/-- `ahci_read_sectors`: the bytes read, or `none` for the return code -1. -/
def readSectors (s : Ahci) (drv : UInt8) (lba : UInt64) (count : UInt8) :
    Option (List UInt8) × Ahci :=
  if s.ndrive % 256 ≤ drv.toNat ∨ count = 0 then (if count = 0 then some [] else none, s)
  else if dmaSects < count.toNat then (none, s)
  else
    let s := s.issue (s.drives drv.toNat).portIdx readDmaExt lba count.toUInt16 false
    (some (Bytes.slice s.dma 0 (count.toNat * 512)), s)

/-- `ahci_write_sectors`. -/
def writeSectors (s : Ahci) (drv : UInt8) (lba : UInt64) (count : UInt8) (buf : Bytes) :
    Bool × Ahci :=
  if s.ndrive % 256 ≤ drv.toNat ∨ count = 0 then (count = 0, s)
  else if dmaSects < count.toNat then (false, s)
  else
    let s := { s with dma := Bytes.blit s.dma 0 buf (count.toNat * 512) }
    (true, s.issue (s.drives drv.toNat).portIdx writeDmaExt lba count.toUInt16 true)

/-- `MAX_AHCI_DRIVES`. -/
def maxDrives : ℕ := 4

/-- `MAX_AHCI_PORTS`, the number of rows of `ahci_clb`, `ahci_fb` and `ahci_ctbl`. -/
def maxPorts : ℕ := 8

/-- The ports among `ps` that `ahci_init` sets up when there is room for `room` drives, by the disks
found and their numbers of sectors.  A disk without sectors gets no drive. -/
def portsFrom (found : ℕ → Option Ata.Size) : ℕ → List ℕ → List ℕ
  | _, [] => []
  | 0, _ => []
  | room + 1, p :: ps =>
    match found p with
    | none => portsFrom found (room + 1) ps
    | some n => p :: portsFrom found (if n.1 = 0 then room + 1 else room) ps

/-- The ports that `ahci_init` sets up. -/
def ports (found : ℕ → Option Ata.Size) : List ℕ := portsFrom found maxDrives (List.range 32)

/-- The drive for the disk at a port. -/
def driveAt (found : ℕ → Option Ata.Size) (p : ℕ) : Option AhciDrive :=
  ((found p).filter fun n => n.1 ≠ 0).map fun n : Ata.Size => ⟨p, n.1⟩

/-- The drives that `ahci_init` finds, by the port. -/
def probe (found : ℕ → Option Ata.Size) : List AhciDrive := (ports found).filterMap (driveAt found)

/-- What `ahci_init` leaves. -/
def init (found : ℕ → Option Ata.Size) (disk : ℕ → Bytes) : Ahci where
  drives i := (probe found).getD i ⟨0, 0⟩
  ndrive := (probe found).length
  dma := Bytes.zeros
  disk := disk
  outside := (ports found).any fun p => maxPorts ≤ p

/-- The medium of a drive. -/
def medium (s : Ahci) (drv : ℕ) : Bytes := s.disk (s.drives drv).portIdx

/-! ## Transfers -/

/-- The drives are at ports of their own, and have no sector beyond the 48-bit addresses. -/
structure Ready (s : Ahci) : Prop where
  ndrive_lt : s.ndrive < 256
  apart : ∀ i < s.ndrive, ∀ j < s.ndrive, (s.drives i).portIdx = (s.drives j).portIdx → i = j
  sectors_le : ∀ i < s.ndrive, (s.drives i).sectorCount.toNat ≤ 2 ^ 48

lemma Ready.congr {s : Ahci} (h : s.Ready) {s' : Ahci} (hdrives : s'.drives = s.drives)
    (hnum : s'.ndrive = s.ndrive) : s'.Ready where
  ndrive_lt := by simpa only [hnum] using h.ndrive_lt
  apart := by simpa only [hdrives, hnum] using h.apart
  sectors_le := by simpa only [hdrives, hnum] using h.sectors_le

lemma toNat_byte (lba k : UInt64) (hk : k.toNat < 64) :
    (lba >>> k).toUInt8.toNat = lba.toNat / 2 ^ k.toNat % 2 ^ 8 := by
  rw [UInt64.toNat_toUInt8, UInt64.toNat_shiftRight, Nat.mod_eq_of_lt hk,
    Nat.shiftRight_eq_div_pow]

/-- A command is for the sectors that it is given. -/
lemma issue_eq (s : Ahci) (p : ℕ) {lba : UInt64} (hlba : lba.toNat < 2 ^ 48) {count : UInt8}
    (hcount : count ≠ 0) :
    s.issue p readDmaExt lba count.toUInt16 false =
        { s with
          dma := Bytes.blit s.dma 0 (Bytes.shift (s.disk p) (lba.toNat * 512))
            (count.toNat * 512) } ∧
      s.issue p writeDmaExt lba count.toUInt16 true =
        { s with
          disk := Function.update s.disk p
            (Bytes.blit (s.disk p) (lba.toNat * 512) s.dma (count.toNat * 512)) } := by
  have hpos : count.toNat ≠ 0 := fun h => hcount (UInt8.toNat_inj.mp h)
  have hlt := count.toNat_lt
  have h₀ : lba.toUInt8.toNat = lba.toNat % 2 ^ 8 := UInt64.toNat_toUInt8 lba
  have h₈ : (lba >>> 8).toUInt8.toNat = lba.toNat / 2 ^ 8 % 2 ^ 8 := toNat_byte lba 8 (by decide)
  have h₁₆ : (lba >>> 16).toUInt8.toNat = lba.toNat / 2 ^ 16 % 2 ^ 8 :=
    toNat_byte lba 16 (by decide)
  have h₂₄ : (lba >>> 24).toUInt8.toNat = lba.toNat / 2 ^ 24 % 2 ^ 8 :=
    toNat_byte lba 24 (by decide)
  have h₃₂ : (lba >>> 32).toUInt8.toNat = lba.toNat / 2 ^ 32 % 2 ^ 8 :=
    toNat_byte lba 32 (by decide)
  have h₄₀ : (lba >>> 40).toUInt8.toNat = lba.toNat / 2 ^ 40 % 2 ^ 8 :=
    toNat_byte lba 40 (by decide)
  -- the counts of one byte
  have hcounts : ∀ i : Fin 256, (i : ℕ) ≠ 0 →
      ((UInt8.ofNat i).toUInt16 &&& 0xFF).toUInt8.toNat +
          2 ^ 8 * ((UInt8.ofNat i).toUInt16 >>> 8).toUInt8.toNat = i ∧
        ((UInt8.ofNat i).toUInt16.toUInt32 * 512 - 1).toNat + 1 = i * 512 := by
    decide +kernel
  obtain ⟨hfis, hprd⟩ := hcounts ⟨count.toNat, hlt⟩ hpos
  rw [UInt8.ofNat_toNat] at hfis hprd
  have hsum : lba.toNat % 2 ^ 8 + 2 ^ 8 * (lba.toNat / 2 ^ 8 % 2 ^ 8) +
      2 ^ 16 * (lba.toNat / 2 ^ 16 % 2 ^ 8) + 2 ^ 24 * (lba.toNat / 2 ^ 24 % 2 ^ 8) +
      2 ^ 32 * (lba.toNat / 2 ^ 32 % 2 ^ 8) + 2 ^ 40 * (lba.toNat / 2 ^ 40 % 2 ^ 8) =
      lba.toNat := by omega
  have hne : readDmaExt ≠ writeDmaExt := by decide
  constructor
  · simp only [issue, execute, lbaOf, countOf, h₀, h₈, h₁₆, h₂₄, h₃₂, h₄₀, hsum, hfis, hprd,
      if_neg hpos, and_self, if_true, min_self]
  · simp only [issue, execute, lbaOf, countOf, h₀, h₈, h₁₆, h₂₄, h₃₂, h₄₀, hsum, hfis, hprd,
      if_neg hpos, hne.symm, false_and, if_false, and_self, if_true, min_self]

variable {s : Ahci} {drv count : UInt8} {lba : UInt64}

/-- A read that fits into the bounce buffer returns the sectors. -/
lemma readSectors_eq (h : s.Ready) (hdrv : drv.toNat < s.ndrive) (hcount : count ≠ 0)
    (hfits : count.toNat ≤ dmaSects)
    (hlba : lba.toNat + count.toNat ≤ (s.drives drv.toNat).sectorCount.toNat) :
    (s.readSectors drv lba count).1 =
      some (Bytes.slice (s.medium drv.toNat) (lba.toNat * 512) (count.toNat * 512)) := by
  have hpos : count.toNat ≠ 0 := fun h => hcount (UInt8.toNat_inj.mp h)
  have hsectors := h.sectors_le _ hdrv
  have hfirst : ¬(s.ndrive % 256 ≤ drv.toNat ∨ count = 0) := by
    rw [Nat.mod_eq_of_lt h.ndrive_lt]
    exact not_or.mpr ⟨Nat.not_le.mpr hdrv, hcount⟩
  rw [readSectors, if_neg hfirst, if_neg (Nat.not_lt.mpr hfits)]
  dsimp only
  rw [(issue_eq s _ (by omega) hcount).1]
  exact congrArg some (Bytes.slice_blit_shift _ _ _ _)

/-- A write that fits into the bounce buffer succeeds and stores the sectors, and no other. -/
lemma writeSectors_eq (h : s.Ready) (hdrv : drv.toNat < s.ndrive) (hcount : count ≠ 0)
    (hfits : count.toNat ≤ dmaSects)
    (hlba : lba.toNat + count.toNat ≤ (s.drives drv.toNat).sectorCount.toNat) (buf : Bytes) :
    (s.writeSectors drv lba count buf).1 = true ∧
      ∀ i < s.ndrive, (s.writeSectors drv lba count buf).2.medium i =
        if i = drv.toNat then
          Bytes.blit (s.medium i) (lba.toNat * 512) buf (count.toNat * 512)
        else s.medium i := by
  have hpos : count.toNat ≠ 0 := fun h => hcount (UInt8.toNat_inj.mp h)
  have hsectors := h.sectors_le _ hdrv
  have hfirst : ¬(s.ndrive % 256 ≤ drv.toNat ∨ count = 0) := by
    rw [Nat.mod_eq_of_lt h.ndrive_lt]
    exact not_or.mpr ⟨Nat.not_le.mpr hdrv, hcount⟩
  rw [writeSectors, if_neg hfirst, if_neg (Nat.not_lt.mpr hfits)]
  dsimp only
  rw [(issue_eq _ _ (by omega) hcount).2]
  refine ⟨rfl, fun i hi => ?_⟩
  change Function.update s.disk (s.drives drv.toNat).portIdx _ (s.drives i).portIdx = _
  split_ifs with hidrv
  · rw [hidrv, Function.update_self]
    exact Bytes.blit_congr fun k hk => Bytes.blit_start hk
  · rw [Function.update_of_ne fun hport => hidrv (h.apart i hi _ hdrv hport)]
    rfl

/-- A transfer that does not fit into the bounce buffer fails. -/
lemma readSectors_large (h : s.Ready) (lba : UInt64) (hdrv : drv.toNat < s.ndrive)
    (hlarge : dmaSects < count.toNat) : (s.readSectors drv lba count).1 = none := by
  have hcount : count ≠ 0 := by
    rintro rfl
    exact absurd hlarge (by decide)
  have hfirst : ¬(s.ndrive % 256 ≤ drv.toNat ∨ count = 0) := by
    rw [Nat.mod_eq_of_lt h.ndrive_lt]
    exact not_or.mpr ⟨Nat.not_le.mpr hdrv, hcount⟩
  rw [readSectors, if_neg hfirst, if_pos hlarge]

/-- Transfers leave the table of drives alone. -/
lemma issue_drives (s : Ahci) (p : ℕ) (cmd : UInt8) (lba : UInt64) (count : UInt16)
    (write : Bool) : (s.issue p cmd lba count write).drives = s.drives ∧
      (s.issue p cmd lba count write).ndrive = s.ndrive ∧
      (s.issue p cmd lba count write).outside = s.outside := by
  unfold issue execute
  dsimp only
  split_ifs <;> exact ⟨rfl, rfl, rfl⟩

lemma readSectors_drives (s : Ahci) (drv : UInt8) (lba : UInt64) (count : UInt8) :
    (s.readSectors drv lba count).2.drives = s.drives ∧
      (s.readSectors drv lba count).2.ndrive = s.ndrive ∧
      (s.readSectors drv lba count).2.outside = s.outside := by
  unfold readSectors
  dsimp only
  split_ifs
  · exact ⟨rfl, rfl, rfl⟩
  · exact ⟨rfl, rfl, rfl⟩
  · exact ⟨rfl, rfl, rfl⟩
  · exact issue_drives _ _ _ _ _ _

lemma writeSectors_drives (s : Ahci) (drv : UInt8) (lba : UInt64) (count : UInt8) (buf : Bytes) :
    (s.writeSectors drv lba count buf).2.drives = s.drives ∧
      (s.writeSectors drv lba count buf).2.ndrive = s.ndrive ∧
      (s.writeSectors drv lba count buf).2.outside = s.outside := by
  unfold writeSectors
  dsimp only
  split_ifs
  · exact ⟨rfl, rfl, rfl⟩
  · exact ⟨rfl, rfl, rfl⟩
  · exact issue_drives _ _ _ _ _ _

/-- There are no more drives than there is room for. -/
lemma length_filterMap_portsFrom_le (found : ℕ → Option Ata.Size) (room : ℕ) (ps : List ℕ) :
    ((portsFrom found room ps).filterMap (driveAt found)).length ≤ room := by
  induction ps generalizing room with
  | nil => simp [portsFrom]
  | cons p ps ih =>
    cases room with
    | zero => simp [portsFrom]
    | succ room =>
      rw [portsFrom]
      cases hp : found p with
      | none => exact ih (room + 1)
      | some n =>
        by_cases hn : n.1 = 0
        · have hdrive : driveAt found p = none := by simp [driveAt, hp, hn]
          rw [List.filterMap_cons, hdrive, if_pos hn]
          exact ih (room + 1)
        · have hdrive : driveAt found p = some ⟨p, n.1⟩ := by simp [driveAt, hp, Option.filter, hn]
          rw [List.filterMap_cons, hdrive, if_neg hn]
          exact Nat.succ_le_succ (ih room)

lemma portsFrom_sublist (found : ℕ → Option Ata.Size) (room : ℕ) (ps : List ℕ) :
    (portsFrom found room ps).Sublist ps := by
  induction ps generalizing room with
  | nil => cases room <;> exact List.Sublist.refl _
  | cons p ps ih =>
    cases room with
    | zero => exact List.nil_sublist _
    | succ room =>
      rw [portsFrom]
      cases found p with
      | none => exact (ih _).cons p
      | some n => exact (ih _).cons_cons p

lemma portIdx_of_driveAt {found : ℕ → Option Ata.Size} {p : ℕ} {d : AhciDrive}
    (h : driveAt found p = some d) : d.portIdx = p ∧ d.sectorCount.toNat ≤ 2 ^ 48 := by
  obtain ⟨n, -, rfl⟩ := Option.map_eq_some_iff.mp h
  exact ⟨rfl, n.2⟩

/-- The ports of the drives found are different. -/
lemma nodup_probe (found : ℕ → Option Ata.Size) : ((probe found).map AhciDrive.portIdx).Nodup := by
  have hsub : ∀ l : List ℕ, ((l.filterMap (driveAt found)).map AhciDrive.portIdx).Sublist l := by
    intro l
    induction l with
    | nil => exact List.Sublist.refl _
    | cons p l ih =>
      rw [List.filterMap_cons]
      cases hd : driveAt found p with
      | none => exact ih.cons p
      | some d =>
        rw [List.map_cons, (portIdx_of_driveAt hd).1]
        exact ih.cons_cons p
  exact ((hsub _).trans (portsFrom_sublist _ _ _)).nodup List.nodup_range

/-- The drives are ready after the initialisation. -/
lemma ready_init (found : ℕ → Option Ata.Size) (disk : ℕ → Bytes) : (init found disk).Ready := by
  have hget : ∀ i, (hi : i < (probe found).length) →
      (init found disk).drives i = (probe found)[i] := by
    intro i hi
    simp [init, hi]
  refine ⟨?_, fun i hi j hj hport => ?_, fun i hi => ?_⟩
  · exact lt_of_le_of_lt (length_filterMap_portsFrom_le _ _ _) (by decide)
  · have hi' : i < (probe found).length := hi
    have hj' : j < (probe found).length := hj
    rw [hget i hi', hget j hj'] at hport
    refine (List.getElem?_inj (by rwa [List.length_map]) (nodup_probe found)).mp ?_
    rw [List.getElem?_map, List.getElem?_map, List.getElem?_eq_getElem hi',
      List.getElem?_eq_getElem hj', Option.map_some, Option.map_some, hport]
  · rw [hget i hi]
    obtain ⟨p, -, hp⟩ := List.mem_filterMap.mp (List.getElem_mem hi)
    exact (portIdx_of_driveAt hp).2

end Ahci

end CoolFrost
