import CoolFrost.Drivers.Ahci
import CoolFrost.Drivers.Nvme
import CoolFrost.Drivers.VirtioDrives
import CoolFrost.Lib.PartialRun

/-!
# The back ends of the block layer

`blk_read` and `blk_write` (`drivers/ata.c`) hand every transfer over to one of four drivers.
Whether the drivers do the same with a transfer of up to 128 sectors depends on the drive: an ATA
command has 28-bit addresses for every transfer that begins below 2^28, the bounce buffer of the
AHCI driver holds 64 sectors, the NVMe driver writes blocks of 512 bytes only, and the virtio-blk
driver keeps its queue with one device and needs three descriptors of it.  Nothing is left of all
this when `ahci_init` has stored outside of its arrays.
-/

namespace CoolFrost

/-- The back ends (`DRIVE_TYPE_*`). -/
inductive BackEnd where
  | ata
  | nvme
  | ahci
  | vblk
  deriving DecidableEq, Repr

/-- The back end of a drive type; a type that is none of the others is taken for an ATA drive. -/
def BackEnd.ofType (type : UInt8) : BackEnd :=
  if type = 1 then .nvme
  else if type = 2 then .ahci
  else if type = 3 then .vblk
  else .ata

/-- What the drivers find at boot. -/
structure Hardware where
  ataFound : Bool → Bool → Option Ata.Size
  ataChannel : Bool → AtaChannel
  nvmeFound : List (UInt64 × UInt32 × Bytes)
  ahciFound : ℕ → Option Ata.Size
  ahciDisk : ℕ → Bytes
  bus : VirtioBus
  vblkDev : ℕ → VirtioDev

/-- The four drivers. -/
structure Backends where
  ata : Ata
  nvme : Nvme
  ahci : Ahci
  vblk : Vblk

namespace Backends

/-- The drivers after `ata_init`, `nvme_init`, `ahci_init` and `vblk_init`. -/
def init (hw : Hardware) : Backends where
  ata := Ata.init hw.ataFound hw.ataChannel
  nvme := Nvme.init hw.nvmeFound
  ahci := Ahci.init hw.ahciFound hw.ahciDisk
  vblk := Vblk.vblkInit hw.bus (Vblk.boot hw.vblkDev)

/-- `blk_read`: the bytes read, or `none` for a return code other than 0.  The virtio-blk driver can
divide by zero, and the AHCI driver has stored outside of its arrays for a disk at one of the ports
from 8 on; in both cases there is no result at all. -/
def blkRead (hw : Hardware) (m : Backends) (type drv : UInt8) (lba : UInt64) (count : UInt8) :
    Option (Option (List UInt8) × Backends) :=
  if m.ahci.outside then none else
  match BackEnd.ofType type with
  | .nvme => some ((m.nvme.readSectors drv lba count).map id fun s => { m with nvme := s })
  | .ahci => some ((m.ahci.readSectors drv lba count).map id fun s => { m with ahci := s })
  | .vblk =>
    (Vblk.vblkReadSectors hw.bus drv lba count m.vblk).map (Prod.map id fun s =>
      { m with vblk := s })
  | .ata => some ((m.ata.readSectors drv lba count).map id fun s => { m with ata := s })

/-- `blk_write`: whether it returns 0. -/
def blkWrite (hw : Hardware) (m : Backends) (type drv : UInt8) (lba : UInt64) (count : UInt8)
    (buf : Bytes) : Option (Bool × Backends) :=
  if m.ahci.outside then none else
  match BackEnd.ofType type with
  | .nvme => some ((m.nvme.writeSectors drv lba count buf).map id fun s => { m with nvme := s })
  | .ahci => some ((m.ahci.writeSectors drv lba count buf).map id fun s => { m with ahci := s })
  | .vblk =>
    (Vblk.vblkWriteSectors hw.bus drv lba count buf m.vblk).map
      (Prod.map Option.isSome fun s => { m with vblk := s })
  | .ata => some ((m.ata.writeSectors drv lba count buf).map id fun s => { m with ata := s })

/-! ## Runs -/

/-- A call of the block layer. -/
inductive Call where
  | read (type drv : UInt8) (lba : UInt64) (count : UInt8)
  | write (type drv : UInt8) (lba : UInt64) (count : UInt8) (buf : Bytes)

/-- The state after a call. -/
def step (hw : Hardware) (m : Backends) : Call → Option Backends
  | .read type drv lba count => (m.blkRead hw type drv lba count).map Prod.snd
  | .write type drv lba count buf => (m.blkWrite hw type drv lba count buf).map Prod.snd

/-- The state after the calls of a run. -/
def run (hw : Hardware) (calls : List Call) : Option Backends :=
  calls.foldlM (step hw) (init hw)

/-! ## The contract -/

/-- There is a drive with the number. -/
def Present (hw : Hardware) (m : Backends) (e : BackEnd) (drv : UInt8) : Prop :=
  match e with
  | .ata => drv.toNat < m.ata.numDrives
  | .nvme => drv.toNat < m.nvme.numDrives
  | .ahci => drv.toNat < m.ahci.ndrive
  | .vblk => drv.toNat < hw.bus.drives.length

/-- The number of sectors of a drive. -/
def sectors (hw : Hardware) (m : Backends) (e : BackEnd) (drv : UInt8) : UInt64 :=
  match e with
  | .ata => (m.ata.drives drv.toNat).sectors
  | .nvme => (m.nvme.drives drv.toNat).sectors
  | .ahci => (m.ahci.drives drv.toNat).sectorCount
  | .vblk => (hw.bus.func (hw.bus.drives.getD drv.toNat 0)).capacity

/-- The medium of a drive. -/
def medium (hw : Hardware) (m : Backends) (e : BackEnd) (drv : UInt8) : Bytes :=
  match e with
  | .ata => m.ata.medium drv.toNat
  | .nvme => m.nvme.medium drv.toNat
  | .ahci => m.ahci.medium drv.toNat
  | .vblk => (m.vblk.dev (hw.bus.drives.getD drv.toNat 0)).disk

/-- The bytes that `n` reads of one sector each return, one after the other. -/
def readSingles (hw : Hardware) (m : Backends) (type drv : UInt8) (lba : UInt64) :
    ℕ → Option (List UInt8)
  | 0 => some []
  | n + 1 => do
    let before ← readSingles hw m type drv lba n
    let (sector, _) ← m.blkRead hw type drv (lba + UInt64.ofNat n) 1
    return before ++ (← sector)

/-- A read succeeds and returns what reads of one sector each return. -/
def ReadsRight (hw : Hardware) (m : Backends) (type drv : UInt8) (lba : UInt64) (count : UInt8) :
    Prop :=
  ∃ data m', m.blkRead hw type drv lba count = some (some data, m') ∧
    m.readSingles hw type drv lba count.toNat = some data

/-- A write succeeds and stores the sectors, and changes nothing else of any drive. -/
def WritesRight (hw : Hardware) (m : Backends) (type drv : UInt8) (lba : UInt64) (count : UInt8) :
    Prop :=
  ∀ buf, ∃ m', m.blkWrite hw type drv lba count buf = some (true, m') ∧
    ∀ e i, m.Present hw e i → m'.medium hw e i =
      if e = BackEnd.ofType type ∧ i = drv then
        Bytes.blit (m.medium hw e i) (lba.toNat * 512) buf (count.toNat * 512)
      else m.medium hw e i

/-- The driver is up to the transfer: no disk is at a port that the AHCI driver has no memory for;
an ATA transfer does not cross the end of the 28-bit addresses; one of the AHCI driver fits into its
bounce buffer; an NVMe drive has blocks of 512 bytes; and a virtio-blk drive is the one that the
queue was left to, with room for a request. -/
def Carries (hw : Hardware) (m : Backends) (type drv : UInt8) (lba : UInt64)
    (count : UInt8) : Prop :=
  m.ahci.outside = false ∧
    match BackEnd.ofType type with
    | .ata => ¬Ata.Crosses lba count
    | .nvme => (m.nvme.drives drv.toNat).lbaSize = 512
    | .ahci => count.toNat ≤ Ahci.dmaSects
    | .vblk => hw.bus.Serves drv.toNat

/-! ## The states reached -/

/-- The drives of every back end work as far as their driver can make them. -/
structure Sound (hw : Hardware) (m : Backends) : Prop where
  ata : m.ata.Ready
  nvme : m.nvme.Ready
  ahci : m.ahci.Ready
  vblk : Vblk.Stable hw.bus m.vblk

lemma sound_init (hw : Hardware) : Sound hw (init hw) := by
  obtain ⟨-, hn, -, hown⟩ := Vblk.vblkInit_spec hw.bus hw.vblkDev
  exact ⟨Ata.ready_init _ _, Nvme.ready_init _, Ahci.ready_init _ _, ⟨hn, hown⟩⟩

variable {hw : Hardware} {m m' : Backends}

lemma drives_length_le (hw : Hardware) : hw.bus.drives.length ≤ Vblk.maxVblk :=
  (Vblk.vblkInit_spec hw.bus hw.vblkDev).2.2.1

/-- Every call keeps the drives working. -/
lemma Sound.step (h : Sound hw m) {c : Call} (hstep : m.step hw c = some m') : Sound hw m' := by
  obtain ⟨hata, hnvme, hahci, hvblk⟩ := h
  cases c with
  | read type drv lba count =>
    obtain ⟨⟨res, t⟩, heq, rfl⟩ := Option.map_eq_some_iff.mp hstep
    rw [blkRead] at heq
    split_ifs at heq
    cases he : BackEnd.ofType type <;> rw [he] at heq
    case ata =>
      obtain ⟨-, rfl⟩ := Prod.mk.inj (Option.some.inj heq)
      obtain ⟨hdrives, hnum⟩ := Ata.readSectors_drives m.ata drv lba count
      exact ⟨hata.congr hdrives hnum, hnvme, hahci, hvblk⟩
    case nvme =>
      obtain ⟨-, rfl⟩ := Prod.mk.inj (Option.some.inj heq)
      exact ⟨hata, (Nvme.readSectors_spec hnvme drv lba count).1, hahci, hvblk⟩
    case ahci =>
      obtain ⟨-, rfl⟩ := Prod.mk.inj (Option.some.inj heq)
      obtain ⟨hdrives, hnum, -⟩ := Ahci.readSectors_drives m.ahci drv lba count
      exact ⟨hata, hnvme, hahci.congr hdrives hnum, hvblk⟩
    case vblk =>
      obtain ⟨⟨res', s⟩, hs, heq'⟩ := Option.map_eq_some_iff.mp heq
      obtain ⟨-, rfl⟩ := Prod.mk.inj heq'
      exact ⟨hata, hnvme, hahci,
        (hvblk.sectors (drives_length_le hw) drv lba count Bytes.zeros).1 hs⟩
  | write type drv lba count buf =>
    obtain ⟨⟨res, t⟩, heq, rfl⟩ := Option.map_eq_some_iff.mp hstep
    rw [blkWrite] at heq
    split_ifs at heq
    cases he : BackEnd.ofType type <;> rw [he] at heq
    case ata =>
      obtain ⟨-, rfl⟩ := Prod.mk.inj (Option.some.inj heq)
      obtain ⟨hdrives, hnum⟩ := Ata.writeSectors_drives m.ata drv lba count buf
      exact ⟨hata.congr hdrives hnum, hnvme, hahci, hvblk⟩
    case nvme =>
      obtain ⟨-, rfl⟩ := Prod.mk.inj (Option.some.inj heq)
      exact ⟨hata, (Nvme.writeSectors_spec hnvme drv lba count buf).1, hahci, hvblk⟩
    case ahci =>
      obtain ⟨-, rfl⟩ := Prod.mk.inj (Option.some.inj heq)
      obtain ⟨hdrives, hnum, -⟩ := Ahci.writeSectors_drives m.ahci drv lba count buf
      exact ⟨hata, hnvme, hahci.congr hdrives hnum, hvblk⟩
    case vblk =>
      obtain ⟨⟨res', s⟩, hs, heq'⟩ := Option.map_eq_some_iff.mp heq
      obtain ⟨-, rfl⟩ := Prod.mk.inj heq'
      exact ⟨hata, hnvme, hahci, (hvblk.sectors (drives_length_le hw) drv lba count buf).2 hs⟩

/-- The drives work in every state that a run reaches. -/
lemma sound_run {calls : List Call} (hrun : run hw calls = some m) : Sound hw m := by
  exact PartialRun.invariant (Q := fun _ => True) (fun h _ hstep => h.step hstep) (sound_init hw)
    (fun _ _ => True.intro) hrun

/-! ## Transfers -/

variable {type drv count : UInt8} {lba : UInt64}

/-- The device of a virtio-blk drive. -/
lemma getElem?_drives (hdrv : drv.toNat < hw.bus.drives.length) :
    hw.bus.drives[drv.toNat]? = some (hw.bus.drives.getD drv.toNat 0) := by
  rw [List.getD_eq_getElem?_getD, List.getElem?_eq_getElem hdrv, Option.getD_some]

/-- A read that the driver is up to returns the sectors. -/
lemma blkRead_eq (lba : UInt64) (h : Sound hw m) (hdrv : m.Present hw (BackEnd.ofType type) drv)
    (hcarries : m.Carries hw type drv lba count) (hcount : count ≠ 0) (hle : count.toNat ≤ 128)
    (hlba : lba.toNat + count.toNat ≤ (m.sectors hw (BackEnd.ofType type) drv).toNat) :
    ∃ m', m.blkRead hw type drv lba count =
      some (some (Bytes.slice (m.medium hw (BackEnd.ofType type) drv) (lba.toNat * 512)
        (count.toNat * 512)), m') := by
  obtain ⟨hinside, hcarries⟩ := hcarries
  rw [blkRead, if_neg (by simp [hinside])]
  cases he : BackEnd.ofType type <;> rw [he] at hdrv hcarries hlba
  case ata =>
    have heq := Ata.readSectors_eq h.ata hdrv hcount hlba hcarries
    exact ⟨_, congrArg (fun r => some (r, _)) heq⟩
  case nvme =>
    have hlt := (m.nvme.drives drv.toNat).sectors.toNat_lt
    have heq := (Nvme.readSectors_spec h.nvme drv lba count).2.2 hdrv hcarries
      (lt_of_le_of_lt hlba hlt)
    exact ⟨_, congrArg (fun r => some (r, _)) heq⟩
  case ahci =>
    have heq := Ahci.readSectors_eq h.ahci hdrv hcount hcarries hlba
    exact ⟨_, congrArg (fun r => some (r, _)) heq⟩
  case vblk =>
    have hd := getElem?_drives hdrv
    obtain ⟨howner, h3⟩ := (VirtioBus.serves_iff hd).mp hcarries
    obtain ⟨s', heq⟩ := Vblk.vblkReadSectors_owner (drives_length_le hw) h.vblk hd howner h3 hcount
      hle hlba
    dsimp only
    rw [heq]
    exact ⟨_, rfl⟩

/-- The driver is up to a single sector when it is up to more. -/
lemma Carries.one (h : m.Carries hw type drv lba count) (lba' : UInt64) :
    m.Carries hw type drv lba' 1 := by
  obtain ⟨hinside, h⟩ := h
  refine ⟨hinside, ?_⟩
  cases he : BackEnd.ofType type <;> rw [he] at h
  case ata => exact Ata.not_crosses_one lba'
  case ahci => exact (by decide : (1 : UInt8).toNat ≤ Ahci.dmaSects)
  all_goals exact h

/-- Reads of one sector each return the sectors. -/
lemma readSingles_eq (h : Sound hw m) (hdrv : m.Present hw (BackEnd.ofType type) drv)
    (hcarries : ∀ lba', m.Carries hw type drv lba' 1) (n : ℕ)
    (hlba : lba.toNat + n ≤ (m.sectors hw (BackEnd.ofType type) drv).toNat) :
    m.readSingles hw type drv lba n =
      some (Bytes.slice (m.medium hw (BackEnd.ofType type) drv) (lba.toNat * 512) (n * 512)) := by
  induction n with
  | zero =>
    rw [Nat.zero_mul]
    rfl
  | succ n ih =>
    have hlt := (m.sectors hw (BackEnd.ofType type) drv).toNat_lt
    have hcur : (lba + UInt64.ofNat n).toNat = lba.toNat + n :=
      Nvme.toNat_add_ofNat (by omega)
    have hone : (1 : UInt8).toNat = 1 := rfl
    obtain ⟨m', hread⟩ := blkRead_eq (lba + UInt64.ofNat n) h hdrv (hcarries _) (by decide)
      (by decide) (by rw [hcur, hone]; omega)
    rw [hcur, hone, Nat.one_mul, Nat.add_mul] at hread
    rw [readSingles, ih (by omega), Nat.succ_mul, Bytes.slice_add, hread]
    rfl

/-- A read that the driver is up to is right. -/
lemma readsRight (h : Sound hw m) (hdrv : m.Present hw (BackEnd.ofType type) drv)
    (hcarries : m.Carries hw type drv lba count) (hcount : count ≠ 0) (hle : count.toNat ≤ 128)
    (hlba : lba.toNat + count.toNat ≤ (m.sectors hw (BackEnd.ofType type) drv).toNat) :
    m.ReadsRight hw type drv lba count := by
  obtain ⟨m', hread⟩ := blkRead_eq lba h hdrv hcarries hcount hle hlba
  exact ⟨_, m', hread, readSingles_eq h hdrv hcarries.one count.toNat hlba⟩

/-- A write that the driver is up to is right. -/
lemma writesRight (h : Sound hw m) (hdrv : m.Present hw (BackEnd.ofType type) drv)
    (hcarries : m.Carries hw type drv lba count) (hcount : count ≠ 0) (hle : count.toNat ≤ 128)
    (hlba : lba.toNat + count.toNat ≤ (m.sectors hw (BackEnd.ofType type) drv).toNat) :
    m.WritesRight hw type drv lba count := by
  intro buf
  obtain ⟨hinside, hcarries⟩ := hcarries
  rw [blkWrite, if_neg (by simp [hinside])]
  cases he : BackEnd.ofType type <;> rw [he] at hdrv hcarries hlba
  case ata =>
    obtain ⟨hok, hmedium⟩ := Ata.writeSectors_eq h.ata hdrv hcount hlba hcarries buf
    refine ⟨_, congrArg (fun r => some (r, _)) hok, fun e i hi => ?_⟩
    cases e with
    | ata =>
      refine (hmedium i.toNat hi).trans ?_
      simp only [true_and, UInt8.toNat_inj]
      rfl
    | nvme => rfl
    | ahci => rfl
    | vblk => rfl
  case nvme =>
    have hlt := (m.nvme.drives drv.toNat).sectors.toNat_lt
    obtain ⟨hok, hmedium⟩ := (Nvme.writeSectors_spec h.nvme drv lba count buf).2.2.2 hdrv hcarries
      (lt_of_le_of_lt hlba hlt)
    refine ⟨_, congrArg (fun r => some (r, _)) hok, fun e i hi => ?_⟩
    cases e with
    | nvme =>
      refine (hmedium i.toNat).trans ?_
      simp only [true_and, UInt8.toNat_inj]
      rfl
    | ata => rfl
    | ahci => rfl
    | vblk => rfl
  case ahci =>
    obtain ⟨hok, hmedium⟩ := Ahci.writeSectors_eq h.ahci hdrv hcount hcarries hlba buf
    refine ⟨_, congrArg (fun r => some (r, _)) hok, fun e i hi => ?_⟩
    cases e with
    | ahci =>
      refine (hmedium i.toNat hi).trans ?_
      simp only [true_and, UInt8.toNat_inj]
      rfl
    | ata => rfl
    | nvme => rfl
    | vblk => rfl
  case vblk =>
    have hd := getElem?_drives hdrv
    obtain ⟨howner, h3⟩ := (VirtioBus.serves_iff hd).mp hcarries
    obtain ⟨s', heq, hdisk⟩ := Vblk.vblkWriteSectors_owner (drives_length_le hw) h.vblk hd howner h3
      hcount hle hlba buf
    dsimp only
    rw [heq]
    refine ⟨_, rfl, fun e i hi => ?_⟩
    cases e with
    | vblk =>
      refine (hdisk _).trans ?_
      have hidx : hw.bus.drives.getD i.toNat 0 = hw.bus.drives.getD drv.toNat 0 ↔ i = drv := by
        refine ⟨fun hsame => ?_, fun hsame => hsame ▸ rfl⟩
        refine UInt8.toNat_inj.mp ((List.getElem?_inj hi (Vblk.nodup_drives hw.bus)).mp ?_)
        rw [getElem?_drives hi, hd, hsame]
      by_cases hidrv : i = drv
      · rw [if_pos (hidx.mpr hidrv), if_pos ⟨rfl, hidrv⟩, hidrv]
        rfl
      · rw [if_neg (mt hidx.mp hidrv), if_neg fun hboth => hidrv hboth.2]
        rfl
    | ata => rfl
    | nvme => rfl
    | ahci => rfl

/-- Only a transfer that the driver is up to is right. -/
lemma carries_of_right (h : Sound hw m) (hdrv : m.Present hw (BackEnd.ofType type) drv)
    (hcount : count ≠ 0)
    (hlba : lba.toNat + count.toNat ≤ (m.sectors hw (BackEnd.ofType type) drv).toNat)
    (hread : m.ReadsRight hw type drv lba count) (hwrite : m.WritesRight hw type drv lba count) :
    m.Carries hw type drv lba count := by
  obtain ⟨data, m₁, hdata, -⟩ := hread
  rw [blkRead] at hdata
  split_ifs at hdata with hinside
  refine ⟨by simpa using hinside, ?_⟩
  cases he : BackEnd.ofType type <;> rw [he] at hdrv hdata hlba
  case ata =>
    intro hcross
    have hnone := Ata.readSectors_crosses h.ata hdrv hcount hlba hcross
    have hsome : (m.ata.readSectors drv lba count).1 = some data :=
      congrArg Prod.fst (Option.some.inj hdata)
    rw [hnone] at hsome
    cases hsome
  case nvme =>
    by_contra hsize
    obtain ⟨m₂, heq, -⟩ := hwrite Bytes.zeros
    rw [blkWrite, if_neg hinside, he] at heq
    have hok := (Nvme.writeSectors_spec h.nvme drv lba count Bytes.zeros).2.2.1 hsize
    have htrue : (m.nvme.writeSectors drv lba count Bytes.zeros).1 = true :=
      congrArg Prod.fst (Option.some.inj heq)
    exact Bool.false_ne_true (hok.symm.trans htrue)
  case ahci =>
    by_contra hlarge
    have hnone := Ahci.readSectors_large h.ahci lba hdrv (Nat.lt_of_not_le hlarge)
    have hsome : (m.ahci.readSectors drv lba count).1 = some data :=
      congrArg Prod.fst (Option.some.inj hdata)
    rw [hnone] at hsome
    cases hsome
  case vblk =>
    have hd := getElem?_drives hdrv
    refine (VirtioBus.serves_iff hd).mpr ?_
    by_contra hno
    by_cases howner : hw.bus.owner = some (hw.bus.drives.getD drv.toNat 0)
    · obtain ⟨s', hnone⟩ := Vblk.vblkReadSectors_small (drives_length_le hw) h.vblk hd howner
        (fun h3 => hno ⟨howner, h3⟩) hcount lba
      obtain ⟨⟨res, t⟩, hres, heq⟩ := Option.map_eq_some_iff.mp hdata
      obtain ⟨rfl, -⟩ := Prod.mk.inj (Option.some.inj (hres.symm.trans hnone))
      cases heq
    -- a buffer that begins with another byte than the medium does there
    obtain ⟨b, hb⟩ : ∃ b : UInt8, b ≠ m.medium hw .vblk drv (lba.toNat * 512) := by
      by_cases hzero : m.medium hw .vblk drv (lba.toNat * 512) = 0
      · exact ⟨1, by rw [hzero]; decide⟩
      · exact ⟨0, Ne.symm hzero⟩
    obtain ⟨m₂, heq, hmedium⟩ := hwrite fun _ => b
    rw [blkWrite, if_neg hinside, he] at heq
    obtain ⟨⟨res, s'⟩, hs, heq'⟩ := Option.map_eq_some_iff.mp heq
    obtain ⟨-, rfl⟩ := Prod.mk.inj heq'
    have hsame := Vblk.vblkWriteSectors_other (drives_length_le hw) h.vblk hd howner hcount hs
    have hstored := hmedium .vblk drv hdrv
    rw [he, if_pos ⟨rfl, rfl⟩] at hstored
    have hpos : 0 < count.toNat := by
      rcases Nat.eq_zero_or_pos count.toNat with hzero | hpos
      · exact absurd (UInt8.toNat_inj.mp hzero) hcount
      · exact hpos
    have hbyte := congrFun hstored (lba.toNat * 512)
    rw [Bytes.blit_of_mem ⟨le_rfl, by omega⟩] at hbyte
    refine hb (hbyte.symm.trans ?_)
    exact congrFun (congrArg VirtioDev.disk hsame) _

/-- In every state that a run reaches, a drive reads and writes a run of 1 to 128 of its sectors as
the block layer says exactly when its driver is up to the transfer. -/
theorem right_iff_carries (hw : Hardware) (calls : List Call) (m : Backends)
    (hrun : run hw calls = some m) (type drv count : UInt8) (lba : UInt64)
    (hdrv : m.Present hw (BackEnd.ofType type) drv) (hcount : count ≠ 0) (hle : count.toNat ≤ 128)
    (hlba : lba.toNat + count.toNat ≤ (m.sectors hw (BackEnd.ofType type) drv).toNat) :
    m.ReadsRight hw type drv lba count ∧ m.WritesRight hw type drv lba count ↔
      m.Carries hw type drv lba count := by
  have h := sound_run hrun
  constructor
  · rintro ⟨hread, hwrite⟩
    exact carries_of_right h hdrv hcount hlba hread hwrite
  · intro hcarries
    exact ⟨readsRight h hdrv hcarries hcount hle hlba, writesRight h hdrv hcarries hcount hle hlba⟩

/-- A machine with one AHCI drive of 1000 sectors. -/
def oneAhci : Hardware where
  ataFound := fun _ _ => none
  ataChannel := fun _ => ⟨⟨0, 0⟩, ⟨0, 0⟩, ⟨0, 0⟩, ⟨0, 0⟩, 0, ⟨false, false, 0, 0⟩,
    fun _ => Bytes.zeros⟩
  nvmeFound := []
  ahciFound := fun p => if p = 0 then some ⟨1000, by decide⟩ else none
  ahciDisk := fun _ => Bytes.zeros
  bus := ⟨[], by intro i j f g hi; simp at hi⟩
  vblkDev := fun _ => ⟨Bytes.zeros, 0, 0, 0⟩

/-- 64 sectors of an AHCI drive are read and written. -/
theorem right_iff_carries_oneAhci :
    (init oneAhci).ReadsRight oneAhci 2 0 0 64 ∧ (init oneAhci).WritesRight oneAhci 2 0 0 64 := by
  refine (right_iff_carries oneAhci [] (init oneAhci) rfl 2 0 64 0 ?_ (by decide)
    (by decide) ?_).mpr ?_
  · exact (by decide : 0 < (Ahci.probe oneAhci.ahciFound).length)
  · exact (by decide : 0 + 64 ≤
      ((Ahci.init oneAhci.ahciFound oneAhci.ahciDisk).drives 0).sectorCount.toNat)
  · exact ⟨by decide, (by decide : 64 ≤ Ahci.dmaSects)⟩

/-- 128 sectors of an AHCI drive are not. -/
theorem not_right_oneAhci :
    ¬((init oneAhci).ReadsRight oneAhci 2 0 0 128 ∧
    (init oneAhci).WritesRight oneAhci 2 0 0 128) := by
  rintro ⟨hread, hwrite⟩
  have hdrv : (init oneAhci).Present oneAhci (BackEnd.ofType 2) 0 :=
    (by decide : 0 < (Ahci.probe oneAhci.ahciFound).length)
  have hlba : (0 : UInt64).toNat + (128 : UInt8).toNat ≤
      ((init oneAhci).sectors oneAhci (BackEnd.ofType 2) 0).toNat :=
    (by decide : 0 + 128 ≤
      ((Ahci.init oneAhci.ahciFound oneAhci.ahciDisk).drives 0).sectorCount.toNat)
  have hcarries := carries_of_right (sound_init oneAhci) hdrv (by decide) hlba hread hwrite
  exact absurd (show (128 : ℕ) ≤ Ahci.dmaSects from hcarries.2) (by decide)

end Backends

end CoolFrost
