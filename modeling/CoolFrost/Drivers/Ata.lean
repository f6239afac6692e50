import CoolFrost.Lib.Bytes

/-!
# The ATA driver

The sector functions of `drivers/ata.c` over the registers of the two channels.  A channel has a
master and a slave; a command names the sectors in registers that remember their previous value, and
its data go through the data register word by word.  Commands always succeed and are ready at once,
so that a polling loop is a single look at the status register; a command has no data for sectors
that its addresses do not reach.
-/

namespace CoolFrost

/-- A register that remembers its previous value, for the commands with 48-bit addresses. -/
structure AtaReg where
  cur : UInt8
  prev : UInt8

/-- Write a register. -/
def AtaReg.put (r : AtaReg) (v : UInt8) : AtaReg := ⟨v, r.cur⟩

/-- The transfer in progress: the drive, the direction, the next byte on its medium, and the number
of words that are left. -/
structure AtaTransfer where
  slave : Bool
  write : Bool
  pos : ℕ
  words : ℕ

/-- A channel: its registers and the media of its master and its slave. -/
structure AtaChannel where
  secCount : AtaReg
  lbaLo : AtaReg
  lbaMid : AtaReg
  lbaHi : AtaReg
  drive : UInt8
  transfer : AtaTransfer
  disk : Bool → Bytes

/-- `ata_drive_t`: `io_base` as the channel (the secondary one or not). -/
structure AtaDrive where
  present : Bool
  secondary : Bool
  isSlave : Bool
  sectors : UInt64

/-- The static variables of the driver and the channels. -/
structure Ata where
  drives : ℕ → AtaDrive
  numDrives : ℕ
  channel : Bool → AtaChannel

namespace AtaChannel

/-- `ATA_REG_SECCOUNT`. -/
def regSecCount : ℕ := 0x02
/-- `ATA_REG_LBA_LO`. -/
def regLbaLo : ℕ := 0x03
/-- `ATA_REG_LBA_MID`. -/
def regLbaMid : ℕ := 0x04
/-- `ATA_REG_LBA_HI`. -/
def regLbaHi : ℕ := 0x05
/-- `ATA_REG_DRIVE`. -/
def regDrive : ℕ := 0x06
/-- `ATA_REG_COMMAND`. -/
def regCommand : ℕ := 0x07
/-- `ATA_CMD_READ_PIO`. -/
def readPio : UInt8 := 0x20
/-- `ATA_CMD_WRITE_PIO`. -/
def writePio : UInt8 := 0x30
/-- `ATA_CMD_READ_PIO_EXT`. -/
def readPioExt : UInt8 := 0x24
/-- `ATA_CMD_WRITE_PIO_EXT`. -/
def writePioExt : UInt8 := 0x34
/-- `ATA_CMD_CACHE_FLUSH`. -/
def cacheFlush : UInt8 := 0xE7

/-! ## The hardware -/

/-- The drive that is selected. -/
def selected (c : AtaChannel) : Bool := c.drive &&& 0x10 ≠ 0

/-- The sector that a command with a 28-bit address begins at, and the number of sectors. -/
def lba28 (c : AtaChannel) : ℕ :=
  c.lbaLo.cur.toNat + 2 ^ 8 * c.lbaMid.cur.toNat + 2 ^ 16 * c.lbaHi.cur.toNat +
    2 ^ 24 * (c.drive &&& 0x0F).toNat

def count28 (c : AtaChannel) : ℕ := if c.secCount.cur = 0 then 256 else c.secCount.cur.toNat

/-- The sector that a command with a 48-bit address begins at, and the number of sectors. -/
def lba48 (c : AtaChannel) : ℕ :=
  c.lbaLo.cur.toNat + 2 ^ 8 * c.lbaMid.cur.toNat + 2 ^ 16 * c.lbaHi.cur.toNat +
    2 ^ 24 * c.lbaLo.prev.toNat + 2 ^ 32 * c.lbaMid.prev.toNat + 2 ^ 40 * c.lbaHi.prev.toNat

def count48 (c : AtaChannel) : ℕ :=
  let n := c.secCount.cur.toNat + 2 ^ 8 * c.secCount.prev.toNat
  if n = 0 then 65536 else n

/-- Begin to carry out a command.  It goes as far as its addresses do. -/
def start (c : AtaChannel) (cmd : UInt8) : AtaChannel :=
  if cmd = readPio ∨ cmd = writePio then
    { c with
      transfer := ⟨c.selected, cmd = writePio, c.lba28 * 512,
        min c.count28 (2 ^ 28 - c.lba28) * 256⟩ }
  else if cmd = readPioExt ∨ cmd = writePioExt then
    { c with
      transfer := ⟨c.selected, cmd = writePioExt, c.lba48 * 512,
        min c.count48 (2 ^ 48 - c.lba48) * 256⟩ }
  else c

/-- `port_byte_out` to a register of the channel. -/
def byteOut (c : AtaChannel) (reg : ℕ) (v : UInt8) : AtaChannel :=
  if reg = regSecCount then { c with secCount := c.secCount.put v }
  else if reg = regLbaLo then { c with lbaLo := c.lbaLo.put v }
  else if reg = regLbaMid then { c with lbaMid := c.lbaMid.put v }
  else if reg = regLbaHi then { c with lbaHi := c.lbaHi.put v }
  else if reg = regDrive then { c with drive := v }
  else if reg = regCommand then c.start v
  else c

/-- The drive is ready to transfer data: `DRQ` is set in the status register. -/
def drq (c : AtaChannel) : Bool := 0 < c.transfer.words

/-- `port_word_in` from the data register: a word as its two bytes in memory. -/
def wordIn (c : AtaChannel) : (UInt8 × UInt8) × AtaChannel :=
  let t := c.transfer
  if t.write = false ∧ 0 < t.words then
    ((c.disk t.slave t.pos, c.disk t.slave (t.pos + 1)),
      { c with transfer := { t with pos := t.pos + 2, words := t.words - 1 } })
  else ((0xFF, 0xFF), c)

/-- `port_word_out` to the data register. -/
def wordOut (c : AtaChannel) (w : UInt8 × UInt8) : AtaChannel :=
  let t := c.transfer
  if t.write = true ∧ 0 < t.words then
    { c with
      disk := Function.update c.disk t.slave
        (Bytes.blit (c.disk t.slave) t.pos (fun i => if i = 0 then w.1 else w.2) 2)
      transfer := { t with pos := t.pos + 2, words := t.words - 1 } }
  else c

/-! ## The driver -/

/-- Write the address and the number of sectors into the registers, and then one of the two
commands. -/
def issue (c : AtaChannel) (isSlave : Bool) (lba : UInt64) (count cmd cmdExt : UInt8) :
    AtaChannel :=
  let slaveBit : UInt8 := if isSlave then 0x10 else 0x00
  if 0x10000000 ≤ lba then
    let c := c.byteOut regDrive ((0x40 : UInt8) ||| slaveBit)
    let c := c.byteOut regSecCount 0
    let c := c.byteOut regLbaLo ((lba >>> 24) &&& 0xFF).toUInt8
    let c := c.byteOut regLbaMid ((lba >>> 32) &&& 0xFF).toUInt8
    let c := c.byteOut regLbaHi ((lba >>> 40) &&& 0xFF).toUInt8
    let c := c.byteOut regSecCount count
    let c := c.byteOut regLbaLo (lba &&& 0xFF).toUInt8
    let c := c.byteOut regLbaMid ((lba >>> 8) &&& 0xFF).toUInt8
    let c := c.byteOut regLbaHi ((lba >>> 16) &&& 0xFF).toUInt8
    c.byteOut regCommand cmdExt
  else
    let c := c.byteOut regDrive ((0xE0 : UInt8) ||| slaveBit ||| ((lba >>> 24) &&& 0x0F).toUInt8)
    let c := c.byteOut regSecCount count
    let c := c.byteOut regLbaLo (lba &&& 0xFF).toUInt8
    let c := c.byteOut regLbaMid ((lba >>> 8) &&& 0xFF).toUInt8
    let c := c.byteOut regLbaHi ((lba >>> 16) &&& 0xFF).toUInt8
    c.byteOut regCommand cmd

/-- Read `n` words. -/
def wordsIn : ℕ → AtaChannel → List UInt8 × AtaChannel
  | 0, c => ([], c)
  | n + 1, c =>
    let w := c.wordIn
    let rest := wordsIn n w.2
    (w.1.1 :: w.1.2 :: rest.1, rest.2)

/-- The loop of `ata_read_sectors`; `none` stands for the return code -1. -/
def sectorsIn : ℕ → AtaChannel → Option (List UInt8) × AtaChannel
  | 0, c => (some [], c)
  | n + 1, c =>
    if !c.drq then (none, c)
    else
      let sector := wordsIn 256 c
      let rest := sectorsIn n sector.2
      (rest.1.map (sector.1 ++ ·), rest.2)

/-- Write `n` words, from the byte `off` of the buffer on. -/
def wordsOut (buf : Bytes) : ℕ → ℕ → AtaChannel → AtaChannel
  | _, 0, c => c
  | off, n + 1, c => wordsOut buf (off + 2) n (c.wordOut (buf off, buf (off + 1)))

/-- The loop of `ata_write_sectors`; `false` stands for the return code -1. -/
def sectorsOut (buf : Bytes) : ℕ → ℕ → AtaChannel → Bool × AtaChannel
  | _, 0, c => (true, c)
  | off, n + 1, c =>
    if !c.drq then (false, c) else sectorsOut buf (off + 512) n (wordsOut buf off 256 c)

end AtaChannel

namespace Ata

open AtaChannel

/-- Replace the channel of a drive. -/
def setChannel (s : Ata) (d : AtaDrive) (c : AtaChannel) : Ata :=
  { s with channel := Function.update s.channel d.secondary c }

/-- `ata_read_sectors`: the bytes read, or `none` for the return code -1. -/
def readSectors (s : Ata) (drv : UInt8) (lba : UInt64) (count : UInt8) :
    Option (List UInt8) × Ata :=
  let d := s.drives drv.toNat
  if s.numDrives ≤ drv.toNat then (none, s)
  else if !d.present then (none, s)
  else if count = 0 then (none, s)
  else
    let c := (s.channel d.secondary).issue d.isSlave lba count readPio readPioExt
    let (r, c) := sectorsIn count.toNat c
    (r, s.setChannel d c)

/-- `ata_write_sectors`. -/
def writeSectors (s : Ata) (drv : UInt8) (lba : UInt64) (count : UInt8) (buf : Bytes) :
    Bool × Ata :=
  let d := s.drives drv.toNat
  if s.numDrives ≤ drv.toNat then (false, s)
  else if !d.present then (false, s)
  else if count = 0 then (false, s)
  else
    let c := (s.channel d.secondary).issue d.isSlave lba count writePio writePioExt
    let (ok, c) := sectorsOut buf 0 count.toNat c
    if ok then (true, s.setChannel d (c.byteOut regCommand cacheFlush))
      else (false, s.setChannel d c)

/-- A number of sectors that 48-bit addresses reach. -/
abbrev Size := { n : UInt64 // n.toNat ≤ 2 ^ 48 }

/-- The drives that `ata_init` finds: the master and the slave of either channel, in its order. -/
def probe (found : Bool → Bool → Option Size) : List AtaDrive :=
  [(false, false), (false, true), (true, false), (true, true)].filterMap fun p =>
    (found p.1 p.2).map fun n : Size => ⟨true, p.1, p.2, n.1⟩

/-- What `ata_init` leaves. -/
def init (found : Bool → Bool → Option Size) (channel : Bool → AtaChannel) : Ata where
  drives i := (probe found).getD i ⟨false, false, false, 0⟩
  numDrives := (probe found).length
  channel := channel

/-- The medium of a drive. -/
def medium (s : Ata) (drv : ℕ) : Bytes :=
  (s.channel (s.drives drv).secondary).disk (s.drives drv).isSlave

end Ata

/-! ## Transfers -/

namespace AtaChannel

/-- Words read one after the other are the bytes on the medium. -/
lemma wordsIn_eq (n : ℕ) (c : AtaChannel) (slave : Bool) (pos words : ℕ)
    (ht : c.transfer = ⟨slave, false, pos, words + n⟩) :
    wordsIn n c = (Bytes.slice (c.disk slave) pos (2 * n),
      { c with transfer := ⟨slave, false, pos + 2 * n, words⟩ }) := by
  induction n generalizing c pos with
  | zero =>
    obtain ⟨_, _, _, _, _, _, _⟩ := c
    obtain rfl := ht
    rfl
  | succ n ih =>
    have hin : c.wordIn = ((c.disk slave pos, c.disk slave (pos + 1)),
        { c with transfer := ⟨slave, false, pos + 2, words + n⟩ }) := by
      rw [wordIn, ht]
      exact if_pos ⟨rfl, Nat.succ_pos _⟩
    have hslice : Bytes.slice (c.disk slave) pos (2 * (n + 1)) =
        c.disk slave pos :: c.disk slave (pos + 1) ::
          Bytes.slice (c.disk slave) (pos + 2) (2 * n) := by
      rw [Nat.mul_succ, Bytes.slice_succ, Bytes.slice_succ]
    have hpos : pos + 2 + 2 * n = pos + 2 * (n + 1) := by omega
    rw [wordsIn, hin, hslice, ← hpos]
    have hrest := ih { c with transfer := ⟨slave, false, pos + 2, words + n⟩ } (pos + 2) rfl
    simp only [hrest]

/-- Sectors read one after the other are the bytes on the medium. -/
lemma sectorsIn_eq (n : ℕ) (c : AtaChannel) (slave : Bool) (pos : ℕ)
    (ht : c.transfer = ⟨slave, false, pos, n * 256⟩) :
    sectorsIn n c = (some (Bytes.slice (c.disk slave) pos (n * 512)),
      { c with transfer := ⟨slave, false, pos + n * 512, 0⟩ }) := by
  induction n generalizing c pos with
  | zero =>
    rw [Nat.zero_mul] at ht
    obtain ⟨_, _, _, _, _, _, _⟩ := c
    obtain rfl := ht
    rw [Nat.zero_mul]
    rfl
  | succ n ih =>
    have hdrq : c.drq = true := decide_eq_true <| by
      rw [ht]
      exact Nat.mul_pos (Nat.succ_pos n) (by decide)
    have hwords := wordsIn_eq 256 c slave pos (n * 256) (by rw [ht, Nat.succ_mul])
    have hrest := ih { c with transfer := ⟨slave, false, pos + 2 * 256, n * 256⟩ }
      (pos + 2 * 256) rfl
    have hslice : Bytes.slice (c.disk slave) pos ((n + 1) * 512) =
        Bytes.slice (c.disk slave) pos (2 * 256) ++
          Bytes.slice (c.disk slave) (pos + 2 * 256) (n * 512) := by
      have hlen : 2 * 256 + n * 512 = (n + 1) * 512 := by omega
      rw [← Bytes.slice_add, hlen]
    have hpos : pos + 2 * 256 + n * 512 = pos + (n + 1) * 512 := by omega
    have hstep : sectorsIn (n + 1) c =
        ((sectorsIn n (wordsIn 256 c).2).1.map ((wordsIn 256 c).1 ++ ·),
          (sectorsIn n (wordsIn 256 c).2).2) := if_neg (by simp [hdrq])
    rw [hwords] at hstep
    dsimp only at hstep
    rw [hrest] at hstep
    rw [hstep, hslice, ← hpos, Option.map_some]

/-- The driver waits in vain for sectors that the command does not have. -/
lemma sectorsIn_short {m n : ℕ} (hmn : m < n) (c : AtaChannel) (slave : Bool) (pos : ℕ)
    (ht : c.transfer = ⟨slave, false, pos, m * 256⟩) : (sectorsIn n c).1 = none := by
  induction m generalizing c pos n with
  | zero =>
    obtain ⟨n, rfl⟩ := Nat.exists_eq_add_of_lt hmn
    have hdrq : c.drq = false := by
      rw [drq, ht]
      rfl
    rw [Nat.zero_add, sectorsIn, hdrq]
    rfl
  | succ m ih =>
    obtain ⟨n, rfl⟩ : ∃ k, n = k + 1 := ⟨n - 1, by omega⟩
    have hdrq : c.drq = true := decide_eq_true <| by
      rw [ht]
      exact Nat.mul_pos (Nat.succ_pos m) (by decide)
    have hwords := wordsIn_eq 256 c slave pos (m * 256) (by rw [ht, Nat.succ_mul])
    have hrest := ih (Nat.lt_of_succ_lt_succ hmn)
      { c with transfer := ⟨slave, false, pos + 2 * 256, m * 256⟩ } (pos + 2 * 256) rfl
    have hstep : sectorsIn (n + 1) c =
        ((sectorsIn n (wordsIn 256 c).2).1.map ((wordsIn 256 c).1 ++ ·),
          (sectorsIn n (wordsIn 256 c).2).2) := if_neg (by simp [hdrq])
    rw [hstep, hwords]
    dsimp only
    rw [hrest, Option.map_none]

/-- Words written one after the other. -/
lemma wordsOut_eq (buf : Bytes) (off n : ℕ) (c : AtaChannel) (slave : Bool) (pos words : ℕ)
    (ht : c.transfer = ⟨slave, true, pos, words + n⟩) :
    wordsOut buf off n c =
      { c with
        disk := Function.update c.disk slave
          (Bytes.blit (c.disk slave) pos (Bytes.shift buf off) (2 * n))
        transfer := ⟨slave, true, pos + 2 * n, words⟩ } := by
  induction n generalizing c pos off with
  | zero =>
    obtain ⟨_, _, _, _, _, _, _⟩ := c
    obtain rfl := ht
    simp [wordsOut]
  | succ n ih =>
    have hout : c.wordOut (buf off, buf (off + 1)) =
        { c with
          disk := Function.update c.disk slave
            (Bytes.blit (c.disk slave) pos (Bytes.shift buf off) 2)
          transfer := ⟨slave, true, pos + 2, words + n⟩ } := by
      rw [wordOut, ht]
      dsimp only
      rw [if_pos ⟨rfl, Nat.succ_pos _⟩]
      have hword : Bytes.blit (c.disk slave) pos
          (fun i => if i = 0 then buf off else buf (off + 1)) 2 =
          Bytes.blit (c.disk slave) pos (Bytes.shift buf off) 2 := by
        refine Bytes.blit_congr fun i hi => ?_
        rcases (by omega : i = 0 ∨ i = 1) with rfl | rfl <;> rfl
      rw [hword]
      rfl
    rw [wordsOut, hout, ih (off + 2) _ (pos + 2) rfl]
    simp only [Function.update_self, Function.update_idem]
    have hpos : pos + 2 + 2 * n = pos + 2 * (n + 1) := by omega
    have hshift : Bytes.shift buf (off + 2) = Bytes.shift (Bytes.shift buf off) 2 :=
      (Bytes.shift_shift _ _ _).symm
    rw [hpos, hshift, Bytes.blit_append, Nat.add_comm 2 (2 * n), ← Nat.mul_succ]

/-- Sectors written one after the other. -/
lemma sectorsOut_eq (buf : Bytes) (off n : ℕ) (c : AtaChannel) (slave : Bool) (pos : ℕ)
    (ht : c.transfer = ⟨slave, true, pos, n * 256⟩) :
    sectorsOut buf off n c = (true,
      { c with
        disk := Function.update c.disk slave
          (Bytes.blit (c.disk slave) pos (Bytes.shift buf off) (n * 512))
        transfer := ⟨slave, true, pos + n * 512, 0⟩ }) := by
  induction n generalizing c pos off with
  | zero =>
    obtain ⟨_, _, _, _, _, _, _⟩ := c
    obtain rfl := ht
    simp [sectorsOut]
  | succ n ih =>
    have hdrq : c.drq = true := decide_eq_true <| by
      rw [ht]
      exact Nat.mul_pos (Nat.succ_pos n) (by decide)
    have hwords := wordsOut_eq buf off 256 c slave pos (n * 256) (by rw [ht, Nat.succ_mul])
    rw [sectorsOut, hdrq, hwords]
    simp only [Bool.not_true, Bool.false_eq_true, if_false]
    rw [ih (off + 512) _ (pos + 2 * 256) rfl]
    simp only [Function.update_self, Function.update_idem]
    have hpos : pos + 2 * 256 + n * 512 = pos + (n + 1) * 512 := by omega
    have hshift : Bytes.shift buf (off + 512) = Bytes.shift (Bytes.shift buf off) (2 * 256) :=
      (Bytes.shift_shift _ _ _).symm
    have hlen : 2 * 256 + n * 512 = (n + 1) * 512 := by omega
    rw [hpos, hshift, Bytes.blit_append, hlen]

/-! ## Commands -/

/-- A byte of a sector number. -/
lemma toNat_byte (lba k : UInt64) (hk : k.toNat < 64) :
    ((lba >>> k) &&& 0xFF).toUInt8.toNat = lba.toNat / 2 ^ k.toNat % 2 ^ 8 := by
  have hmask : (0xFF : UInt64).toNat = 2 ^ 8 - 1 := rfl
  rw [UInt64.toNat_toUInt8, UInt64.toNat_and, hmask, Nat.and_two_pow_sub_one_eq_mod,
    UInt64.toNat_shiftRight, Nat.mod_eq_of_lt hk, Nat.shiftRight_eq_div_pow, Nat.mod_mod]

lemma toNat_lowByte (lba : UInt64) : (lba &&& 0xFF).toUInt8.toNat = lba.toNat % 2 ^ 8 := by
  have h := toNat_byte lba 0 (by decide)
  rwa [UInt64.shiftRight_zero, UInt64.toNat_zero, pow_zero, Nat.div_one] at h

/-- The bits 24 to 27 of a sector number. -/
lemma toNat_nibble (lba : UInt64) :
    ((lba >>> 24) &&& 0x0F).toUInt8.toNat = lba.toNat / 2 ^ 24 % 2 ^ 4 := by
  have hmask : (0x0F : UInt64).toNat = 2 ^ 4 - 1 := rfl
  have hk : (24 : UInt64).toNat = 24 := rfl
  rw [UInt64.toNat_toUInt8, UInt64.toNat_and, hmask, Nat.and_two_pow_sub_one_eq_mod,
    UInt64.toNat_shiftRight, hk, Nat.mod_eq_of_lt (by decide : 24 < 64),
    Nat.shiftRight_eq_div_pow]
  omega

/-- What the drive register says in a command with a 28-bit address. -/
lemma drive28 (isSlave : Bool) {n : UInt8} (hn : n.toNat < 2 ^ 4) :
    ((0xE0 : UInt8) ||| (if isSlave then 0x10 else 0x00) ||| n) &&& 0x0F = n ∧
      decide (((0xE0 : UInt8) ||| (if isSlave then 0x10 else 0x00) ||| n) &&& 0x10 ≠ 0) =
        isSlave := by
  have hall : ∀ (b : Bool) (i : Fin 16),
      ((0xE0 : UInt8) ||| (if b then 0x10 else 0x00) ||| UInt8.ofNat i) &&& 0x0F = UInt8.ofNat i ∧
      decide (((0xE0 : UInt8) ||| (if b then 0x10 else 0x00) ||| UInt8.ofNat i) &&& 0x10 ≠ 0) =
        b := by decide +kernel
  have h := hall isSlave ⟨n.toNat, hn⟩
  rwa [UInt8.ofNat_toNat] at h

@[simp] lemma byteOut_secCount (c : AtaChannel) (v : UInt8) :
    c.byteOut regSecCount v = { c with secCount := c.secCount.put v } := rfl

@[simp] lemma byteOut_lbaLo (c : AtaChannel) (v : UInt8) :
    c.byteOut regLbaLo v = { c with lbaLo := c.lbaLo.put v } := rfl

@[simp] lemma byteOut_lbaMid (c : AtaChannel) (v : UInt8) :
    c.byteOut regLbaMid v = { c with lbaMid := c.lbaMid.put v } := rfl

@[simp] lemma byteOut_lbaHi (c : AtaChannel) (v : UInt8) :
    c.byteOut regLbaHi v = { c with lbaHi := c.lbaHi.put v } := rfl

@[simp] lemma byteOut_drive (c : AtaChannel) (v : UInt8) :
    c.byteOut regDrive v = { c with drive := v } := rfl

@[simp] lemma byteOut_command (c : AtaChannel) (v : UInt8) :
    c.byteOut regCommand v = c.start v := rfl

/-- The two pairs of commands, with 28-bit and with 48-bit addresses. -/
inductive Pair : UInt8 → UInt8 → Bool → Prop
  | read : Pair readPio readPioExt false
  | write : Pair writePio writePioExt true

lemma Pair.start28 {cmd cmdExt : UInt8} {write : Bool} (h : Pair cmd cmdExt write)
    (c : AtaChannel) :
    c.start cmd = { c with
      transfer := ⟨c.selected, write, c.lba28 * 512, min c.count28 (2 ^ 28 - c.lba28) * 256⟩ } := by
  cases h <;> rfl

lemma Pair.start48 {cmd cmdExt : UInt8} {write : Bool} (h : Pair cmd cmdExt write)
    (c : AtaChannel) :
    c.start cmdExt = { c with
      transfer := ⟨c.selected, write, c.lba48 * 512, min c.count48 (2 ^ 48 - c.lba48) * 256⟩ } := by
  cases h <;> rfl

/-- The end of the sectors that the command for a transfer from `lba` on can address. -/
def addressEnd (lba : UInt64) : ℕ := if 0x10000000 ≤ lba then 2 ^ 48 else 2 ^ 28

/-- A command begins at the sector it is given, for as many sectors as it is given and can
address. -/
lemma issue_eq (c : AtaChannel) (isSlave : Bool) (lba : UInt64) (hlba : lba.toNat < 2 ^ 48)
    {count : UInt8} (hcount : count ≠ 0) {cmd cmdExt : UInt8} {write : Bool}
    (hcmd : Pair cmd cmdExt write) :
    (c.issue isSlave lba count cmd cmdExt).transfer =
        ⟨isSlave, write, lba.toNat * 512, min count.toNat (addressEnd lba - lba.toNat) * 256⟩ ∧
      (c.issue isSlave lba count cmd cmdExt).disk = c.disk := by
  have hpos : count.toNat ≠ 0 := fun h => hcount (UInt8.toNat_inj.mp h)
  have h₀ := toNat_lowByte lba
  have h₈ : ((lba >>> 8) &&& 0xFF).toUInt8.toNat = lba.toNat / 2 ^ 8 % 2 ^ 8 :=
    toNat_byte lba 8 (by decide)
  have h₁₆ : ((lba >>> 16) &&& 0xFF).toUInt8.toNat = lba.toNat / 2 ^ 16 % 2 ^ 8 :=
    toNat_byte lba 16 (by decide)
  unfold issue addressEnd
  by_cases hbig : 0x10000000 ≤ lba
  · have h₂₄ : ((lba >>> 24) &&& 0xFF).toUInt8.toNat = lba.toNat / 2 ^ 24 % 2 ^ 8 :=
      toNat_byte lba 24 (by decide)
    have h₃₂ : ((lba >>> 32) &&& 0xFF).toUInt8.toNat = lba.toNat / 2 ^ 32 % 2 ^ 8 :=
      toNat_byte lba 32 (by decide)
    have h₄₀ : ((lba >>> 40) &&& 0xFF).toUInt8.toNat = lba.toNat / 2 ^ 40 % 2 ^ 8 :=
      toNat_byte lba 40 (by decide)
    have hselected : decide (((0x40 : UInt8) ||| (if isSlave then 0x10 else 0x00)) &&& 0x10 ≠ 0) =
        isSlave := by cases isSlave <;> decide
    have hzero : (0 : UInt8).toNat = 0 := rfl
    have hsum : lba.toNat % 2 ^ 8 + 2 ^ 8 * (lba.toNat / 2 ^ 8 % 2 ^ 8) +
        2 ^ 16 * (lba.toNat / 2 ^ 16 % 2 ^ 8) + 2 ^ 24 * (lba.toNat / 2 ^ 24 % 2 ^ 8) +
        2 ^ 32 * (lba.toNat / 2 ^ 32 % 2 ^ 8) + 2 ^ 40 * (lba.toNat / 2 ^ 40 % 2 ^ 8) =
        lba.toNat := by omega
    simp only [if_pos hbig, byteOut_drive, byteOut_secCount, byteOut_lbaLo, byteOut_lbaMid,
      byteOut_lbaHi, byteOut_command, hcmd.start48, selected, lba48, count48, AtaReg.put, hselected,
      h₀, h₈, h₁₆, h₂₄, h₃₂, h₄₀, hsum, hzero, Nat.mul_zero, Nat.add_zero, if_neg hpos, and_true]
  · have hsmall : lba.toNat < 2 ^ 28 := by
      have := UInt64.lt_iff_toNat_lt.mp (UInt64.not_le.mp hbig)
      exact this
    obtain ⟨hnibble, hselected⟩ := drive28 isSlave (n := ((lba >>> 24) &&& 0x0F).toUInt8)
      (by rw [toNat_nibble]; exact Nat.mod_lt _ (by decide))
    have hsum : lba.toNat % 2 ^ 8 + 2 ^ 8 * (lba.toNat / 2 ^ 8 % 2 ^ 8) +
        2 ^ 16 * (lba.toNat / 2 ^ 16 % 2 ^ 8) + 2 ^ 24 * (lba.toNat / 2 ^ 24 % 2 ^ 4) =
        lba.toNat := by omega
    simp only [if_neg hbig, byteOut_drive, byteOut_secCount, byteOut_lbaLo, byteOut_lbaMid,
      byteOut_lbaHi, byteOut_command, hcmd.start28, selected, lba28, count28, AtaReg.put, hselected,
      hnibble, toNat_nibble, h₀, h₈, h₁₆, hsum, if_neg hcount, and_true]

end AtaChannel

namespace Ata

open AtaChannel

/-- The driver has a place on a channel of its own for each of its drives, and no sector beyond the
48-bit addresses. -/
structure Ready (s : Ata) : Prop where
  present : ∀ i < s.numDrives, (s.drives i).present = true
  apart : ∀ i < s.numDrives, ∀ j < s.numDrives, (s.drives i).secondary = (s.drives j).secondary →
    (s.drives i).isSlave = (s.drives j).isSlave → i = j
  sectors_le : ∀ i < s.numDrives, (s.drives i).sectors.toNat ≤ 2 ^ 48

/-- A transfer of `count` sectors from `lba` on begins with the last of the sectors that 28-bit
addresses reach, or before it, and ends behind it. -/
def Crosses (lba : UInt64) (count : UInt8) : Prop :=
  lba.toNat < 2 ^ 28 ∧ 2 ^ 28 < lba.toNat + count.toNat

instance (lba : UInt64) (count : UInt8) : Decidable (Crosses lba count) :=
  inferInstanceAs (Decidable (_ ∧ _))

variable {s : Ata} {drv count : UInt8} {lba : UInt64}

/-- The command for a transfer can address its sectors unless the transfer crosses 28-bit
addresses. -/
lemma min_addressEnd_iff (h : s.Ready) (hdrv : drv.toNat < s.numDrives)
    (hlba : lba.toNat + count.toNat ≤ (s.drives drv.toNat).sectors.toNat) :
    min count.toNat (addressEnd lba - lba.toNat) = count.toNat ↔ ¬Crosses lba count := by
  have hsectors := h.sectors_le _ hdrv
  have hbig : 0x10000000 ≤ lba ↔ 2 ^ 28 ≤ lba.toNat := UInt64.le_iff_toNat_le
  simp only [addressEnd, Crosses, hbig]
  split_ifs <;> omega

/-- A single sector crosses nothing. -/
lemma not_crosses_one (lba : UInt64) : ¬Crosses lba 1 := by
  rintro ⟨hlt, hend⟩
  have hone : (1 : UInt8).toNat = 1 := rfl
  omega

/-- A read returns the sectors. -/
lemma readSectors_eq (h : s.Ready) (hdrv : drv.toNat < s.numDrives) (hcount : count ≠ 0)
    (hlba : lba.toNat + count.toNat ≤ (s.drives drv.toNat).sectors.toNat)
    (hcross : ¬Crosses lba count) :
    (s.readSectors drv lba count).1 =
      some (Bytes.slice (s.medium drv.toNat) (lba.toNat * 512) (count.toNat * 512)) := by
  have hpos : count.toNat ≠ 0 := fun h => hcount (UInt8.toNat_inj.mp h)
  have hsectors := h.sectors_le _ hdrv
  obtain ⟨htransfer, hdisk⟩ := issue_eq (s.channel (s.drives drv.toNat).secondary)
    (s.drives drv.toNat).isSlave lba (by omega) hcount Pair.read
  rw [(min_addressEnd_iff h hdrv hlba).mpr hcross] at htransfer
  have hin := sectorsIn_eq count.toNat _ _ _ htransfer
  simp only [readSectors, if_neg (Nat.not_le.mpr hdrv), h.present _ hdrv, Bool.not_true,
    Bool.false_eq_true, if_false, if_neg hcount, hin, hdisk]
  rfl

/-- A read that crosses the end of the 28-bit addresses fails. -/
lemma readSectors_crosses (h : s.Ready) (hdrv : drv.toNat < s.numDrives) (hcount : count ≠ 0)
    (hlba : lba.toNat + count.toNat ≤ (s.drives drv.toNat).sectors.toNat)
    (hcross : Crosses lba count) : (s.readSectors drv lba count).1 = none := by
  have hsectors := h.sectors_le _ hdrv
  have hshort : min count.toNat (addressEnd lba - lba.toNat) < count.toNat :=
    lt_of_le_of_ne (min_le_left _ _) fun heq =>
      (min_addressEnd_iff h hdrv hlba).mp heq hcross
  have hpos : count.toNat ≠ 0 := fun h => hcount (UInt8.toNat_inj.mp h)
  obtain ⟨htransfer, -⟩ := issue_eq (s.channel (s.drives drv.toNat).secondary)
    (s.drives drv.toNat).isSlave lba (by omega) hcount Pair.read
  have hin := sectorsIn_short hshort _ _ _ htransfer
  simp only [readSectors, if_neg (Nat.not_le.mpr hdrv), h.present _ hdrv, Bool.not_true,
    Bool.false_eq_true, if_false, if_neg hcount, hin]

/-- A read changes no medium. -/
lemma readSectors_medium (h : s.Ready) (hdrv : drv.toNat < s.numDrives) (hcount : count ≠ 0)
    (hlba : lba.toNat + count.toNat ≤ (s.drives drv.toNat).sectors.toNat)
    (hcross : ¬Crosses lba count) :
    (s.readSectors drv lba count).2.medium = s.medium := by
  have hpos : count.toNat ≠ 0 := fun h => hcount (UInt8.toNat_inj.mp h)
  have hsectors := h.sectors_le _ hdrv
  obtain ⟨htransfer, hdisk⟩ := issue_eq (s.channel (s.drives drv.toNat).secondary)
    (s.drives drv.toNat).isSlave lba (by omega) hcount Pair.read
  rw [(min_addressEnd_iff h hdrv hlba).mpr hcross] at htransfer
  have hin := sectorsIn_eq count.toNat _ _ _ htransfer
  obtain ⟨c, hread, hc⟩ : ∃ c : AtaChannel,
      (s.readSectors drv lba count).2 = s.setChannel (s.drives drv.toNat) c ∧
        c.disk = (s.channel (s.drives drv.toNat).secondary).disk := by
    simp only [readSectors, if_neg (Nat.not_le.mpr hdrv), h.present _ hdrv, Bool.not_true,
      Bool.false_eq_true, if_false, if_neg hcount, hin]
    exact ⟨_, rfl, hdisk⟩
  funext i
  rw [hread]
  change (Function.update s.channel (s.drives drv.toNat).secondary c
    (s.drives i).secondary).disk (s.drives i).isSlave = _
  by_cases hsec : (s.drives i).secondary = (s.drives drv.toNat).secondary
  · rw [hsec, Function.update_self, hc, ← hsec]
    rfl
  · rw [Function.update_of_ne hsec]
    rfl

/-- A write succeeds and stores the sectors, and no other. -/
lemma writeSectors_eq (h : s.Ready) (hdrv : drv.toNat < s.numDrives) (hcount : count ≠ 0)
    (hlba : lba.toNat + count.toNat ≤ (s.drives drv.toNat).sectors.toNat)
    (hcross : ¬Crosses lba count) (buf : Bytes) :
    (s.writeSectors drv lba count buf).1 = true ∧
      ∀ i < s.numDrives, (s.writeSectors drv lba count buf).2.medium i =
        if i = drv.toNat then
          Bytes.blit (s.medium i) (lba.toNat * 512) buf (count.toNat * 512)
        else s.medium i := by
  have hpos : count.toNat ≠ 0 := fun h => hcount (UInt8.toNat_inj.mp h)
  have hsectors := h.sectors_le _ hdrv
  obtain ⟨htransfer, hdisk⟩ := issue_eq (s.channel (s.drives drv.toNat).secondary)
    (s.drives drv.toNat).isSlave lba (by omega) hcount Pair.write
  rw [(min_addressEnd_iff h hdrv hlba).mpr hcross] at htransfer
  have hout := sectorsOut_eq buf 0 count.toNat _ _ _ htransfer
  obtain ⟨c, hc, hwrite⟩ : ∃ c : AtaChannel,
      c.disk = Function.update (s.channel (s.drives drv.toNat).secondary).disk
        (s.drives drv.toNat).isSlave (Bytes.blit (s.medium drv.toNat) (lba.toNat * 512) buf
          (count.toNat * 512)) ∧
      s.writeSectors drv lba count buf = (true, s.setChannel (s.drives drv.toNat) c) := by
    simp only [writeSectors, if_neg (Nat.not_le.mpr hdrv), h.present _ hdrv, Bool.not_true,
      Bool.false_eq_true, if_false, if_neg hcount, hout, hdisk, if_true]
    refine ⟨_, ?_, rfl⟩
    have hshift : Bytes.shift buf 0 = buf := by
      funext k
      rw [Bytes.shift, Nat.zero_add]
    rw [byteOut_command, hshift]
    rfl
  rw [hwrite]
  refine ⟨rfl, fun i hi => ?_⟩
  change (Function.update s.channel (s.drives drv.toNat).secondary c
    (s.drives i).secondary).disk (s.drives i).isSlave = _
  split_ifs with hidrv
  · rw [hidrv, Function.update_self, hc, Function.update_self]
  · by_cases hsec : (s.drives i).secondary = (s.drives drv.toNat).secondary
    · have hslave : (s.drives i).isSlave ≠ (s.drives drv.toNat).isSlave :=
        fun hslave => hidrv (h.apart i hi _ hdrv hsec hslave)
      rw [hsec, Function.update_self, hc, Function.update_of_ne hslave, ← hsec]
      rfl
    · rw [Function.update_of_ne hsec]
      rfl

/-- Transfers leave the table of drives alone. -/
lemma readSectors_drives (s : Ata) (drv : UInt8) (lba : UInt64) (count : UInt8) :
    (s.readSectors drv lba count).2.drives = s.drives ∧
      (s.readSectors drv lba count).2.numDrives = s.numDrives := by
  unfold readSectors
  dsimp only
  split_ifs <;> exact ⟨rfl, rfl⟩

lemma writeSectors_drives (s : Ata) (drv : UInt8) (lba : UInt64) (count : UInt8) (buf : Bytes) :
    (s.writeSectors drv lba count buf).2.drives = s.drives ∧
      (s.writeSectors drv lba count buf).2.numDrives = s.numDrives := by
  unfold writeSectors
  dsimp only
  split_ifs <;> exact ⟨rfl, rfl⟩

/-- The table is all that `Ready` is about. -/
lemma Ready.congr (h : s.Ready) {s' : Ata} (hdrives : s'.drives = s.drives)
    (hnum : s'.numDrives = s.numDrives) : s'.Ready where
  present := by simpa only [hdrives, hnum] using h.present
  apart := by simpa only [hdrives, hnum] using h.apart
  sectors_le := by simpa only [hdrives, hnum] using h.sectors_le

/-- The places of the drives found are different. -/
lemma nodup_probe (found : Bool → Bool → Option Size) :
    ((probe found).map fun d => (d.secondary, d.isSlave)).Nodup := by
  have hsub : ∀ l : List (Bool × Bool),
      ((l.filterMap fun p => (found p.1 p.2).map fun n : Size =>
        (⟨true, p.1, p.2, n.1⟩ : AtaDrive)).map
        fun d => (d.secondary, d.isSlave)).Sublist l := by
    intro l
    induction l with
    | nil => exact List.Sublist.refl _
    | cons p l ih =>
      rw [List.filterMap_cons]
      cases found p.1 p.2 with
      | none => exact ih.cons p
      | some n => exact ih.cons_cons p
  exact (hsub _).nodup (by decide)

/-- The drives are ready after the initialisation. -/
lemma ready_init (found : Bool → Bool → Option Size) (channel : Bool → AtaChannel) :
    (init found channel).Ready := by
  have hget : ∀ i, (hi : i < (probe found).length) →
      (init found channel).drives i = (probe found)[i] := by
    intro i hi
    simp [init, hi]
  have hmem : ∀ d ∈ probe found, d.present = true ∧ d.sectors.toNat ≤ 2 ^ 48 := by
    intro d hd
    obtain ⟨p, -, hp⟩ := List.mem_filterMap.mp hd
    obtain ⟨n, -, rfl⟩ := Option.map_eq_some_iff.mp hp
    exact ⟨rfl, n.2⟩
  refine ⟨fun i hi => ?_, fun i hi j hj hsec hslave => ?_, fun i hi => ?_⟩
  · rw [hget i hi]
    exact (hmem _ (List.getElem_mem hi)).1
  · have hi' : i < (probe found).length := hi
    have hj' : j < (probe found).length := hj
    rw [hget i hi', hget j hj'] at hsec hslave
    refine (List.getElem?_inj (by rwa [List.length_map]) (nodup_probe found)).mp ?_
    rw [List.getElem?_map, List.getElem?_map, List.getElem?_eq_getElem hi',
      List.getElem?_eq_getElem hj', Option.map_some, Option.map_some, hsec, hslave]
  · rw [hget i hi]
    exact (hmem _ (List.getElem_mem hi)).2

end Ata

end CoolFrost
