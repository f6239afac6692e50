import CoolFrost.Drivers.Ata

/-!
# The task file of the ATA driver

What `ata_read_sectors` and `ata_write_sectors` program into the registers of a channel, and how a
drive takes it.  The address and the number of sectors always come back, but the driver looks at the
first sector alone when it chooses between the commands: a transfer that begins below 2^28 and ends
beyond is given to the command with 28-bit addresses.
-/

namespace CoolFrost

namespace AtaChannel

/-- The register bytes that the driver programs, in their order. -/
def programmed (isSlave : Bool) (lba : UInt64) (count cmd cmdExt : UInt8) : List (ℕ × UInt8) :=
  let slaveBit : UInt8 := if isSlave then 0x10 else 0x00
  if 0x10000000 ≤ lba then
    [(regDrive, (0x40 : UInt8) ||| slaveBit),
      (regSecCount, 0),
      (regLbaLo, ((lba >>> 24) &&& 0xFF).toUInt8),
      (regLbaMid, ((lba >>> 32) &&& 0xFF).toUInt8),
      (regLbaHi, ((lba >>> 40) &&& 0xFF).toUInt8),
      (regSecCount, count),
      (regLbaLo, (lba &&& 0xFF).toUInt8),
      (regLbaMid, ((lba >>> 8) &&& 0xFF).toUInt8),
      (regLbaHi, ((lba >>> 16) &&& 0xFF).toUInt8),
      (regCommand, cmdExt)]
  else
    [(regDrive, (0xE0 : UInt8) ||| slaveBit ||| ((lba >>> 24) &&& 0x0F).toUInt8),
      (regSecCount, count),
      (regLbaLo, (lba &&& 0xFF).toUInt8),
      (regLbaMid, ((lba >>> 8) &&& 0xFF).toUInt8),
      (regLbaHi, ((lba >>> 16) &&& 0xFF).toUInt8),
      (regCommand, cmd)]

/-- Write the registers one after the other. -/
def bytesOut (c : AtaChannel) (ws : List (ℕ × UInt8)) : AtaChannel :=
  ws.foldl (fun c w => c.byteOut w.1 w.2) c

/-- The driver programs these bytes. -/
lemma issue_eq_bytesOut (c : AtaChannel) (isSlave : Bool) (lba : UInt64)
    (count cmd cmdExt : UInt8) :
    c.issue isSlave lba count cmd cmdExt =
    c.bytesOut (programmed isSlave lba count cmd cmdExt) := by
  unfold issue programmed
  split_ifs <;> rfl

/-- A command as a drive takes it: the first sector, the number of sectors, and the bits of an
address. -/
structure Command where
  lba : ℕ
  count : ℕ
  bits : ℕ
  deriving DecidableEq, Repr

/-- Decode the registers when a command is written, by the rules for that command.  The drive
register has to ask for addresses that are sector numbers. -/
def decode (c : AtaChannel) (cmd : UInt8) : Option Command :=
  if c.drive &&& 0x40 = 0 then none
  else if cmd = readPio ∨ cmd = writePio then some ⟨c.lba28, c.count28, 28⟩
  else if cmd = readPioExt ∨ cmd = writePioExt then some ⟨c.lba48, c.count48, 48⟩
  else none

/-- The command that register bytes end with, decoded. -/
def decodeAll (c : AtaChannel) : List (ℕ × UInt8) → Option Command
  | [] => none
  | [w] => if w.1 = regCommand then c.decode w.2 else none
  | w :: w' :: ws => decodeAll (c.byteOut w.1 w.2) (w' :: ws)

/-- The register bytes stand for the sectors from `lba` on, all of which the command can address. -/
def Encodes (c : AtaChannel) (ws : List (ℕ × UInt8)) (lba count : ℕ) : Prop :=
  ∃ bits, c.decodeAll ws = some ⟨lba, count, bits⟩ ∧ ∀ s, lba ≤ s → s < lba + count → s < 2 ^ bits

variable {c : AtaChannel} {isSlave : Bool} {lba : UInt64} {count cmd cmdExt : UInt8} {write : Bool}

lemma Pair.decode28 (h : Pair cmd cmdExt write) (hdrive : c.drive &&& 0x40 ≠ 0) :
    c.decode cmd = some ⟨c.lba28, c.count28, 28⟩ := by
  cases h <;> exact if_neg hdrive

lemma Pair.decode48 (h : Pair cmd cmdExt write) (hdrive : c.drive &&& 0x40 ≠ 0) :
    c.decode cmdExt = some ⟨c.lba48, c.count48, 48⟩ := by
  cases h <;> exact if_neg hdrive

/-- The drive register asks for addresses that are sector numbers in both forms. -/
lemma drive_and_0x40_ne (isSlave : Bool) {n : UInt8} (hn : n.toNat < 2 ^ 4) :
    ((0xE0 : UInt8) ||| (if isSlave then 0x10 else 0x00) ||| n) &&& 0x40 ≠ 0 := by
  have hall : ∀ (b : Bool) (i : Fin 16),
      ((0xE0 : UInt8) ||| (if b then 0x10 else 0x00) ||| UInt8.ofNat i) &&& 0x40 ≠ 0 := by
    decide +kernel
  have h := hall isSlave ⟨n.toNat, hn⟩
  rwa [UInt8.ofNat_toNat] at h

/-- A drive reads the address and the number of sectors that the driver was given. -/
lemma decodeAll_programmed (c : AtaChannel) (isSlave : Bool) (hlba : lba.toNat < 2 ^ 48)
    (hcount : count ≠ 0) (hcmd : Pair cmd cmdExt write) :
    c.decodeAll (programmed isSlave lba count cmd cmdExt) =
      some ⟨lba.toNat, count.toNat, if 2 ^ 28 ≤ lba.toNat then 48 else 28⟩ := by
  have hpos : count.toNat ≠ 0 := fun h => hcount (UInt8.toNat_inj.mp h)
  have h₀ := toNat_lowByte lba
  have h₈ : ((lba >>> 8) &&& 0xFF).toUInt8.toNat = lba.toNat / 2 ^ 8 % 2 ^ 8 :=
    toNat_byte lba 8 (by decide)
  have h₁₆ : ((lba >>> 16) &&& 0xFF).toUInt8.toNat = lba.toNat / 2 ^ 16 % 2 ^ 8 :=
    toNat_byte lba 16 (by decide)
  unfold programmed
  by_cases hbig : 0x10000000 ≤ lba
  · have h₂₄ : ((lba >>> 24) &&& 0xFF).toUInt8.toNat = lba.toNat / 2 ^ 24 % 2 ^ 8 :=
      toNat_byte lba 24 (by decide)
    have h₃₂ : ((lba >>> 32) &&& 0xFF).toUInt8.toNat = lba.toNat / 2 ^ 32 % 2 ^ 8 :=
      toNat_byte lba 32 (by decide)
    have h₄₀ : ((lba >>> 40) &&& 0xFF).toUInt8.toNat = lba.toNat / 2 ^ 40 % 2 ^ 8 :=
      toNat_byte lba 40 (by decide)
    have hdrive : ((0x40 : UInt8) ||| (if isSlave then 0x10 else 0x00)) &&& 0x40 ≠ 0 := by
      cases isSlave <;> decide
    have hzero : (0 : UInt8).toNat = 0 := rfl
    simp only [if_pos hbig, decodeAll, if_true, byteOut_drive, byteOut_secCount, byteOut_lbaLo,
      byteOut_lbaMid, byteOut_lbaHi]
    rw [hcmd.decode48 hdrive]
    have hlarge : 2 ^ 28 ≤ lba.toNat := UInt64.le_iff_toNat_le.mp hbig
    rw [if_pos hlarge]
    simp only [lba48, count48, AtaReg.put, h₀, h₈, h₁₆, h₂₄, h₃₂, h₄₀, hzero, Nat.mul_zero,
      Nat.add_zero, if_neg hpos, Option.some.injEq, Command.mk.injEq, and_true]
    omega
  · have hsmall : lba.toNat < 2 ^ 28 := UInt64.lt_iff_toNat_lt.mp (UInt64.not_le.mp hbig)
    have hlt : ((lba >>> 24) &&& 0x0F).toUInt8.toNat < 2 ^ 4 := by
      rw [toNat_nibble]
      exact Nat.mod_lt _ (by decide)
    obtain ⟨hnibble, -⟩ := drive28 isSlave hlt
    have hdrive := drive_and_0x40_ne isSlave hlt
    simp only [if_neg hbig, decodeAll, if_true, byteOut_drive, byteOut_secCount, byteOut_lbaLo,
      byteOut_lbaMid, byteOut_lbaHi]
    rw [hcmd.decode28 hdrive]
    rw [if_neg (Nat.not_le.mpr hsmall)]
    simp only [lba28, count28, AtaReg.put, hnibble, toNat_nibble, h₀, h₈, h₁₆, Option.some.injEq,
      Command.mk.injEq, and_true]
    exact ⟨by omega, if_neg hcount⟩

/-- The register bytes stand for the transfer exactly if it ends before the first sector that 28-bit
addresses do not reach, or begins there or later and ends before the first one that 48-bit addresses
do not reach. -/
theorem programmed_encodes_iff (c : AtaChannel) (isSlave : Bool) (lba : UInt64)
    (hlba : lba.toNat < 2 ^ 48) (count : UInt8) (hcount : count ≠ 0) (cmd cmdExt : UInt8)
    (write : Bool) (hcmd : Pair cmd cmdExt write) :
    c.Encodes (programmed isSlave lba count cmd cmdExt) lba.toNat count.toNat ↔
      lba.toNat + count.toNat ≤ 2 ^ 28 ∨
        2 ^ 28 ≤ lba.toNat ∧ lba.toNat + count.toNat ≤ 2 ^ 48 := by
  have hpos : 0 < count.toNat := Nat.pos_of_ne_zero fun h => hcount (UInt8.toNat_inj.mp h)
  unfold Encodes
  rw [decodeAll_programmed c isSlave hlba hcount hcmd]
  constructor
  · rintro ⟨bits, hbits, hall⟩
    have hlast := hall (lba.toNat + count.toNat - 1) (by omega) (by omega)
    obtain ⟨-, -, rfl⟩ := Command.mk.inj (Option.some.inj hbits)
    split_ifs at hlast <;> omega
  · intro hends
    refine ⟨_, rfl, fun s hle hlt => ?_⟩
    split_ifs <;> omega

/-- A channel with nothing in its registers and on its media. -/
def blank : AtaChannel where
  secCount := ⟨0, 0⟩
  lbaLo := ⟨0, 0⟩
  lbaMid := ⟨0, 0⟩
  lbaHi := ⟨0, 0⟩
  drive := 0
  transfer := ⟨false, false, 0, 0⟩
  disk := fun _ _ => 0

/-- A transfer of one sector beyond the 28-bit addresses. -/
theorem programmed_encodes_iff_ext :
    blank.Encodes (programmed false 0x10000000 1 readPio readPioExt) 0x10000000 1 ↔
      0x10000000 + 1 ≤ 2 ^ 28 ∨ 2 ^ 28 ≤ 0x10000000 ∧ 0x10000000 + 1 ≤ 2 ^ 48 :=
  programmed_encodes_iff blank false 0x10000000 (by decide) 1 (by decide) readPio readPioExt false
    .read

/-- Two sectors, the first of which is the last one that 28-bit addresses reach. -/
theorem not_encodes_across :
    ¬blank.Encodes (programmed false 0x0FFFFFFF 2 readPio readPioExt) 0x0FFFFFFF 2 := by
  have hdecode : blank.decodeAll (programmed false 0x0FFFFFFF 2 readPio readPioExt) =
      some ⟨0x0FFFFFFF, 2, 28⟩ := decodeAll_programmed blank false (by decide) (by decide) Pair.read
  rintro ⟨bits, hbits, hall⟩
  rw [hdecode] at hbits
  obtain ⟨-, -, rfl⟩ := Command.mk.inj (Option.some.inj hbits)
  exact absurd (hall 0x10000000 (by decide) (by decide)) (by decide)

end AtaChannel

end CoolFrost
