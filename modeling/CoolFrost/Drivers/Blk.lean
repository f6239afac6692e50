import CoolFrost.Lib.Program
import CoolFrost.Lib.Bytes

/-!
# The block layer

`blk_read` and `blk_write` (`drivers/ata.c`) move whole 512-byte sectors between a buffer and one of
several drives.  A drive is a byte memory, sector `lba` being the 512 bytes at `lba * 512`.  Whether
the `n`-th transfer since boot fails is given by `fails`, which no program can change; a failing
transfer changes neither the disk nor the destination buffer.  Every write that is issued is put on
record, carried out or not.
-/

namespace CoolFrost

open Program

/-- Which drive a transfer is for: the back end (`DRIVE_TYPE_*`) and the index within it. -/
structure Drive where
  /-- `drive_type`. -/
  driveType : ℕ
  /-- `drive`. -/
  index : ℕ
  deriving DecidableEq, Repr

/-- One issued `blk_write`. -/
structure BlkWrite where
  /-- The drive written to. -/
  drive : Drive
  /-- The first sector. -/
  lba : ℕ
  /-- The number of sectors. -/
  count : ℕ
  /-- The bytes handed over. -/
  data : Bytes
  /-- Whether the transfer was carried out. -/
  done : Bool

/-- The drives as the file systems see them. -/
structure BlkDev where
  /-- The contents of every drive. -/
  disk : Drive → Bytes
  /-- Whether the `n`-th transfer fails. -/
  fails : ℕ → Bool
  /-- The number of transfers so far. -/
  calls : ℕ
  /-- The writes issued so far, the latest first. -/
  log : List BlkWrite

/-- Every transfer succeeds. -/
def BlkDev.NoFail (d : BlkDev) : Prop := ∀ n, d.fails n = false

/-- `blk_read`: `none` stands for a nonzero return code, with the buffer as it was. -/
def blkRead (dr : Drive) (lba count : ℕ) : Program BlkDev (Option Bytes) := do
  let d ← get
  modify fun d => { d with calls := d.calls + 1 }
  if d.fails d.calls then return none
  else return some (Bytes.clip (count % 256 * 512) (Bytes.shift (d.disk dr) (lba * 512)))

/-- The contents of the drives after a write that is carried out. -/
def writeSectors (disk : Drive → Bytes) (dr : Drive) (lba count : ℕ) (buf : Bytes) :
    Drive → Bytes :=
  Function.update disk dr (Bytes.blit (disk dr) (lba * 512) buf (count % 256 * 512))

/-- `blk_write`: `true` stands for the return code 0. -/
def blkWrite (dr : Drive) (lba count : ℕ) (buf : Bytes) : Program BlkDev Bool := do
  let d ← get
  let ok := !d.fails d.calls
  modify fun d =>
    { d with
      calls := d.calls + 1
      log := ⟨dr, lba, count, buf, ok⟩ :: d.log
      disk := if ok then writeSectors d.disk dr lba count buf else d.disk }
  return ok

/-! ## Transfers that succeed -/

/-- A successful read returns the sectors and only counts as one more transfer. -/
lemma wp_blkRead {d : BlkDev} (h : d.NoFail) (dr : Drive) (lba count : ℕ)
    (Q : Option Bytes → BlkDev → Prop) :
    wp (blkRead dr lba count) Q d ↔
      Q (some (Bytes.clip (count % 256 * 512) (Bytes.shift (d.disk dr) (lba * 512))))
        { d with calls := d.calls + 1 } := by
  simp [blkRead, h d.calls]

/-- A successful write replaces the sectors and is put on record. -/
lemma wp_blkWrite {d : BlkDev} (h : d.NoFail) (dr : Drive) (lba count : ℕ) (buf : Bytes)
    (Q : Bool → BlkDev → Prop) :
    wp (blkWrite dr lba count buf) Q d ↔
      Q true
        { d with
          calls := d.calls + 1
          log := ⟨dr, lba, count, buf, true⟩ :: d.log
          disk := writeSectors d.disk dr lba count buf } := by
  simp [blkWrite, h d.calls]

end CoolFrost
