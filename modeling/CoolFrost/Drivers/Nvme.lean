import CoolFrost.Lib.Bytes
import CoolFrost.Lib.CycleRing

/-!
# The NVMe driver

The sector functions of `drivers/nvme.c`.  A command is put into the submission queue of a drive and
carried out when the doorbell is rung, and commands always succeed: the controller posts a
completion with status 0, marked with its phase, and the polling loop is a single look at the
completion queue.  The data pointer of a command is always the bounce buffer `io_data`, one page of
it.
-/

namespace CoolFrost

open CycleRing

/-- The fields of `nvme_sqe_t` that the commands use. -/
structure NvmeSqe where
  cdw0 : UInt32
  nsid : UInt32
  cdw10 : UInt32
  cdw11 : UInt32
  cdw12 : UInt32

/-- `nvme_drive_t`. -/
structure NvmeDrive where
  present : Bool
  sectors : UInt64
  lbaSize : UInt32
  ioSqTail : ℕ
  ioCqHead : ℕ
  ioCqPhase : Bool
  nextCid : UInt16

/-- A controller: the queues, which it shares with the driver, how far it is with them, and its
medium. -/
structure NvmeCtl where
  ioSq : ℕ → NvmeSqe
  /-- `status_phase` of the completions. -/
  ioCq : ℕ → UInt16
  sqHead : ℕ
  cqTail : ℕ
  cqPhase : Bool
  disk : Bytes

/-- The static variables of the driver and the controllers. -/
structure Nvme where
  drives : ℕ → NvmeDrive
  numDrives : ℕ
  ioData : Bytes
  ctl : ℕ → NvmeCtl

namespace Nvme

/-- `NVME_Q_DEPTH`. -/
def qDepth : ℕ := 64
/-- `IO_WRITE`. -/
def ioWrite : UInt32 := 0x01
/-- `IO_READ`. -/
def ioRead : UInt32 := 0x02

/-- The phase tag of a completion. -/
def phaseTag (statusPhase : UInt16) : Bool := statusPhase &&& 1 = 1

/-! ## The hardware -/

/-- What a command does to the medium, in blocks of `size` bytes, and to the bounce buffer. -/
def transfer (size : ℕ) (cmd : NvmeSqe) (disk data : Bytes) : Bytes × Bytes :=
  let pos := (cmd.cdw10.toNat + 2 ^ 32 * cmd.cdw11.toNat) * size
  let len := min (((cmd.cdw12 &&& 0xFFFF).toNat + 1) * size) 4096
  if cmd.cdw0 &&& 0xFF = ioRead then (disk, Bytes.blit data 0 (Bytes.shift disk pos) len)
  else if cmd.cdw0 &&& 0xFF = ioWrite then (Bytes.blit disk pos data len, data)
  else (disk, data)

/-- Controller `i` carries out the next command and posts its completion. -/
def carryOut (i : ℕ) (s : Nvme) : Nvme :=
  let c := s.ctl i
  let r := transfer (s.drives i).lbaSize.toNat (c.ioSq c.sqHead) c.disk s.ioData
  { s with
    ioData := r.2
    ctl := Function.update s.ctl i
      { c with
        ioCq := Function.update c.ioCq c.cqTail (if c.cqPhase then 1 else 0)
        sqHead := (c.sqHead + 1) % qDepth
        cqTail := if c.cqTail + 1 = qDepth then 0 else c.cqTail + 1
        cqPhase := if c.cqTail + 1 = qDepth then !c.cqPhase else c.cqPhase
        disk := r.1 } }

/-- The doorbell of a submission queue: the controller carries out the commands up to the tail. -/
def doorbell (s : Nvme) (i tail : ℕ) : Nvme :=
  (carryOut i)^[(tail + qDepth - (s.ctl i).sqHead) % qDepth] s

/-! ## The driver -/

/-- `io_cmd` for drive `i`: whether it returns 0. -/
def ioCmd (s : Nvme) (i : ℕ) (cmd : NvmeSqe) : Bool × Nvme :=
  let d := s.drives i
  let c := s.ctl i
  let slot := { cmd with cdw0 := (cmd.cdw0 &&& (0xFFFF : UInt32)) ||| (d.nextCid.toUInt32 <<< 16) }
  let d := { d with nextCid := d.nextCid + 1, ioSqTail := (d.ioSqTail + 1) % qDepth }
  let s := { s with
    drives := Function.update s.drives i d
    ctl := Function.update s.ctl i
      { c with ioSq := Function.update c.ioSq (s.drives i).ioSqTail slot } }
  let s := s.doorbell i d.ioSqTail
  let statusPhase := (s.ctl i).ioCq d.ioCqHead
  if phaseTag statusPhase = d.ioCqPhase then
    let sc := (statusPhase >>> 1) &&& 0x7FF
    let head := (d.ioCqHead + 1) % qDepth
    let d := { d with ioCqHead := head, ioCqPhase := if head = 0 then !d.ioCqPhase
      else d.ioCqPhase }
    (sc = 0, { s with drives := Function.update s.drives i d })
  else (false, s)

/-- A command for `n` blocks from block `lba` on. -/
def ioSqe (op : UInt32) (lba : UInt64) (n : ℕ) : NvmeSqe where
  cdw0 := op
  nsid := 1
  cdw10 := lba.toUInt32
  cdw11 := (lba >>> 32).toUInt32
  cdw12 := UInt32.ofNat (n - 1)

/-- The loop of `nvme_read_sectors` for blocks of 512 bytes. -/
def readBatches (i : ℕ) (lba : UInt64) (count done : ℕ) (s : Nvme) : Option (List UInt8) × Nvme :=
  if done < count then
    let batch := min (count - done) 8
    let r := s.ioCmd i (ioSqe ioRead (lba + UInt64.ofNat done) batch)
    if !r.1 then (none, r.2)
    else
      let rest := readBatches i lba count (done + batch) r.2
      (rest.1.map (Bytes.slice r.2.ioData 0 (batch * 512) ++ ·), rest.2)
  else (some [], s)
termination_by count - done

/-- The loop of `nvme_read_sectors` for blocks of 4096 bytes, with `n` sectors left. -/
def readSlices (i : ℕ) (lba : UInt64) (k : ℕ) : ℕ → Nvme → Option (List UInt8) × Nvme
  | 0, s => (some [], s)
  | n + 1, s =>
    let cur := lba + UInt64.ofNat k
    let r := s.ioCmd i (ioSqe ioRead (cur / 8) 1)
    if !r.1 then (none, r.2)
    else
      let rest := readSlices i lba (k + 1) n r.2
      (rest.1.map (Bytes.slice r.2.ioData ((cur % 8).toNat * 512) 512 ++ ·), rest.2)

/-- `nvme_read_sectors`: the bytes read, or `none` for the return code -1. -/
def readSectors (s : Nvme) (drv : UInt8) (lba : UInt64) (count : UInt8) :
    Option (List UInt8) × Nvme :=
  let d := s.drives drv.toNat
  if s.numDrives ≤ drv.toNat ∨ !d.present then (none, s)
  else if d.lbaSize = 512 then readBatches drv.toNat lba count.toNat 0 s
  else if d.lbaSize = 4096 then readSlices drv.toNat lba 0 count.toNat s
  else (none, s)

/-- The loop of `nvme_write_sectors`. -/
def writeBatches (i : ℕ) (lba : UInt64) (buf : Bytes) (count done : ℕ) (s : Nvme) : Bool × Nvme :=
  if done < count then
    let batch := min (count - done) 8
    let s := { s with
      ioData := Bytes.blit s.ioData 0 (Bytes.shift buf (done * 512)) (batch * 512) }
    let r := s.ioCmd i (ioSqe ioWrite (lba + UInt64.ofNat done) batch)
    if !r.1 then (false, r.2) else writeBatches i lba buf count (done + batch) r.2
  else (true, s)
termination_by count - done

/-- `nvme_write_sectors`. -/
def writeSectors (s : Nvme) (drv : UInt8) (lba : UInt64) (count : UInt8) (buf : Bytes) :
    Bool × Nvme :=
  let d := s.drives drv.toNat
  if s.numDrives ≤ drv.toNat ∨ !d.present then (false, s)
  else if d.lbaSize ≠ 512 then (false, s)
  else writeBatches drv.toNat lba buf count.toNat 0 s

/-- The medium of a drive. -/
def medium (s : Nvme) (drv : ℕ) : Bytes := (s.ctl drv).disk

/-- `MAX_NVME_DRIVES`. -/
def maxDrives : ℕ := 4

/-- What `nvme_init` leaves for the controllers found, each with its size in sectors of 512 bytes,
its block size and its medium: queues without commands, and 4 commands behind each drive. -/
def init (found : List (UInt64 × UInt32 × Bytes)) : Nvme where
  drives i :=
    match (found.take maxDrives)[i]? with
    | some (sectors, lbaSize, _) => ⟨true, sectors, lbaSize, 0, 0, true, 4⟩
    | none => ⟨false, 0, 0, 0, 0, false, 0⟩
  numDrives := (found.take maxDrives).length
  ioData := Bytes.zeros
  ctl i :=
    { ioSq := fun _ => ⟨0, 0, 0, 0, 0⟩
      ioCq := fun _ => 0
      sqHead := 0
      cqTail := 0
      cqPhase := true
      disk := ((found.take maxDrives)[i]?.map fun f => f.2.2).getD Bytes.zeros }

/-! ## Commands -/

/-- The queues of drive `i` are empty, and driver and controller agree on where they are. -/
structure Idle (s : Nvme) (i : ℕ) : Prop where
  tail : (s.drives i).ioSqTail = (s.ctl i).sqHead
  tail_lt : (s.ctl i).sqHead < qDepth
  cq : CycleRing.Holds qDepth phaseTag (s.ctl i).ioCq
    ⟨(s.drives i).ioCqHead, (s.drives i).ioCqPhase⟩ ⟨(s.ctl i).cqTail, (s.ctl i).cqPhase⟩ []

/-- Every drive is there and idle. -/
structure Ready (s : Nvme) : Prop where
  numDrives_lt : s.numDrives < 256
  present : ∀ i < s.numDrives, (s.drives i).present = true
  idle : ∀ i < s.numDrives, s.Idle i

/-- The part of the state that commands leave alone. -/
structure SameTable (s s' : Nvme) : Prop where
  numDrives : s'.numDrives = s.numDrives
  present : ∀ i, (s'.drives i).present = (s.drives i).present
  lbaSize : ∀ i, (s'.drives i).lbaSize = (s.drives i).lbaSize
  sectors : ∀ i, (s'.drives i).sectors = (s.drives i).sectors

lemma SameTable.refl (s : Nvme) : SameTable s s := ⟨rfl, fun _ => rfl, fun _ => rfl, fun _ => rfl⟩

lemma SameTable.trans {s s' s'' : Nvme} (h : SameTable s s') (h' : SameTable s' s'') :
    SameTable s s'' where
  numDrives := h'.numDrives.trans h.numDrives
  present i := (h'.present i).trans (h.present i)
  lbaSize i := (h'.lbaSize i).trans (h.lbaSize i)
  sectors i := (h'.sectors i).trans (h.sectors i)

/-- The command id is not part of the operation. -/
lemma opcode_slot (cdw0 : UInt32) (cid : UInt16) :
    ((cdw0 &&& (0xFFFF : UInt32)) ||| (cid.toUInt32 <<< 16)) &&& 0xFF = cdw0 &&& 0xFF := by
  refine UInt32.toNat_inj.mp ?_
  have hmask : (0xFF : UInt32).toNat = 2 ^ 8 - 1 := rfl
  have hmask' : (0xFFFF : UInt32).toNat = 2 ^ 16 - 1 := rfl
  have hshift : (16 : UInt32).toNat = 16 := rfl
  have hor : ∀ a b : ℕ, (a ||| b) % 2 ^ 8 = a % 2 ^ 8 ||| b % 2 ^ 8 := fun a b => Nat.or_mod_two_pow
  rw [UInt32.toNat_and, UInt32.toNat_or, UInt32.toNat_and, UInt32.toNat_and, hmask, hmask',
    UInt32.toNat_shiftLeft, hshift, Nat.and_two_pow_sub_one_eq_mod, Nat.and_two_pow_sub_one_eq_mod,
    Nat.and_two_pow_sub_one_eq_mod, hor, Nat.shiftLeft_eq]
  have hpow : 2 ^ (16 % 32) = 65536 := rfl
  have hcid : cid.toUInt32.toNat * 2 ^ (16 % 32) % 2 ^ 32 % 2 ^ 8 = 0 := by
    rw [hpow]
    omega
  rw [hcid, Nat.or_zero]
  omega

lemma transfer_slot (size : ℕ) (cmd : NvmeSqe) (cid : UInt16) (disk data : Bytes) :
    transfer size
        { cmd with cdw0 := (cmd.cdw0 &&& (0xFFFF : UInt32)) ||| (cid.toUInt32 <<< 16) } disk data =
      transfer size cmd disk data := by
  simp only [transfer, opcode_slot]

/-- The state after a command that is carried out. -/
def done (s : Nvme) (i : ℕ) (slot cmd : NvmeSqe) : Nvme :=
  let d := s.drives i
  let c := s.ctl i
  let next := Cursor.next qDepth ⟨d.ioCqHead, d.ioCqPhase⟩
  let r := transfer d.lbaSize.toNat cmd c.disk s.ioData
  { s with
    ioData := r.2
    drives := Function.update s.drives i
      { d with
        nextCid := d.nextCid + 1
        ioSqTail := (d.ioSqTail + 1) % qDepth
        ioCqHead := next.pos
        ioCqPhase := next.phase }
    ctl := Function.update s.ctl i
      { c with
        ioSq := Function.update c.ioSq d.ioSqTail slot
        ioCq := Function.update c.ioCq c.cqTail (if c.cqPhase then 1 else 0)
        sqHead := (c.sqHead + 1) % qDepth
        cqTail := next.pos
        cqPhase := next.phase
        disk := r.1 } }

/-- Counting on in the completion queue. -/
lemma next_eq {pos : ℕ} (hpos : pos < qDepth) (p : Bool) :
    Cursor.next qDepth ⟨pos, p⟩ =
      ⟨(pos + 1) % qDepth, if (pos + 1) % qDepth = 0 then !p else p⟩ := by
  unfold Cursor.next
  by_cases hlast : pos + 1 = qDepth
  · rw [if_pos hlast, hlast, Nat.mod_self]
    rfl
  · have hlt : pos + 1 < qDepth := lt_of_le_of_ne hpos hlast
    rw [if_neg hlast, Nat.mod_eq_of_lt hlt]
    rfl

/-- A command of an idle drive is carried out. -/
lemma ioCmd_eq {s : Nvme} {i : ℕ} (h : s.Idle i) (cmd : NvmeSqe) :
    ∃ slot, s.ioCmd i cmd = (true, s.done i slot cmd) ∧ (s.done i slot cmd).Idle i := by
  obtain ⟨htail, hlt, hcq⟩ := h
  obtain ⟨hcqTail, hcqPhase⟩ : (s.ctl i).cqTail = (s.drives i).ioCqHead ∧
      (s.ctl i).cqPhase = (s.drives i).ioCqPhase := by
    have hw := hcq.writer
    rw [List.length_nil, Cursor.ahead_zero hcq.pos_lt] at hw
    exact ⟨congrArg Cursor.pos hw, congrArg Cursor.phase hw⟩
  have hhead : (s.drives i).ioCqHead < qDepth := hcq.pos_lt
  have hmark : phaseTag (if (s.ctl i).cqPhase then 1 else 0) = (s.ctl i).cqPhase := by
    cases (s.ctl i).cqPhase <;> decide
  have hpush := hcq.push (a := if (s.ctl i).cqPhase then 1 else 0) (by decide) hmark
  have hone : ((s.ctl i).sqHead + 1) % qDepth + qDepth - (s.ctl i).sqHead = 1 ∨
      ((s.ctl i).sqHead + 1) % qDepth + qDepth - (s.ctl i).sqHead = qDepth + 1 := by
    unfold qDepth at hlt ⊢
    omega
  have hsc : (((if (s.ctl i).cqPhase then 1 else 0 : UInt16) >>> 1) &&& 0x7FF) = 0 := by
    cases (s.ctl i).cqPhase <;> decide
  refine ⟨{ cmd with
    cdw0 := (cmd.cdw0 &&& (0xFFFF : UInt32)) ||| ((s.drives i).nextCid.toUInt32 <<< 16) }, ?_, ?_⟩
  · have hcount : ((((s.drives i).ioSqTail + 1) % qDepth + qDepth - (s.ctl i).sqHead) % qDepth) =
        1 := by
      rw [htail]
      rcases hone with h | h <;> rw [h] <;> rfl
    have hnext := next_eq hhead (s.drives i).ioCqPhase
    have hcursor : (if (s.drives i).ioCqHead + 1 = qDepth then 0 else (s.drives i).ioCqHead + 1) =
        (Cursor.next qDepth ⟨(s.drives i).ioCqHead, (s.drives i).ioCqPhase⟩).pos ∧
        (if (s.drives i).ioCqHead + 1 = qDepth then !(s.drives i).ioCqPhase
          else (s.drives i).ioCqPhase) =
        (Cursor.next qDepth ⟨(s.drives i).ioCqHead, (s.drives i).ioCqPhase⟩).phase := by
      unfold Cursor.next
      dsimp only
      split_ifs <;> exact ⟨rfl, rfl⟩
    have hpos : ((s.drives i).ioCqHead + 1) % qDepth =
        (Cursor.next qDepth ⟨(s.drives i).ioCqHead, (s.drives i).ioCqPhase⟩).pos := by rw [hnext]
    have hphase : (if ((s.drives i).ioCqHead + 1) % qDepth = 0 then !(s.drives i).ioCqPhase
        else (s.drives i).ioCqPhase) =
        (Cursor.next qDepth ⟨(s.drives i).ioCqHead, (s.drives i).ioCqPhase⟩).phase := by rw [hnext]
    rw [hcqPhase] at hmark hsc
    simp only [ioCmd, doorbell, Function.update_self, hcount, Function.iterate_one, carryOut,
      Function.update_idem]
    simp only [done, ← htail, hcqTail, hcqPhase, Function.update_self, hmark, if_true, hsc,
      decide_true, transfer_slot, hcursor.1, hcursor.2, hphase]
    rw [hpos]
  · refine ⟨?_, ?_, ?_⟩
    · simp only [done, Function.update_self, htail]
    · simp only [done, Function.update_self]
      exact Nat.mod_lt _ (by decide)
    · simp only [done, Function.update_self]
      have hpop := hpush.pop.2
      have hw : (⟨(s.ctl i).cqTail, (s.ctl i).cqPhase⟩ : Cursor) =
          ⟨(s.drives i).ioCqHead, (s.drives i).ioCqPhase⟩ := by rw [hcqTail, hcqPhase]
      rw [hw] at hpop
      rw [hcqTail]
      exact hpop

/-- A command succeeds, does its transfer and leaves the drives ready. -/
lemma ioCmd_spec {s : Nvme} (h : s.Ready) {i : ℕ} (hi : i < s.numDrives) (cmd : NvmeSqe) :
    (s.ioCmd i cmd).1 = true ∧ (s.ioCmd i cmd).2.Ready ∧ SameTable s (s.ioCmd i cmd).2 ∧
      (s.ioCmd i cmd).2.ioData =
        (transfer (s.drives i).lbaSize.toNat cmd (s.medium i) s.ioData).2 ∧
      ∀ j, (s.ioCmd i cmd).2.medium j =
        if j = i then (transfer (s.drives i).lbaSize.toNat cmd (s.medium i) s.ioData).1
        else s.medium j := by
  obtain ⟨slot, heq, hidle⟩ := ioCmd_eq (h.idle i hi) cmd
  have htable : SameTable s (s.done i slot cmd) := by
    refine ⟨rfl, fun j => ?_, fun j => ?_, fun j => ?_⟩ <;> by_cases hj : j = i <;>
      simp [done, hj, Function.update_of_ne]
  rw [heq]
  refine ⟨rfl, ⟨h.numDrives_lt, fun j hj => ?_, fun j hj => ?_⟩, htable, rfl, fun j => ?_⟩
  · rw [htable.present]
    exact h.present j hj
  · by_cases hji : j = i
    · rw [hji]
      exact hidle
    · have hj' := h.idle j hj
      have hd : (s.done i slot cmd).drives j = s.drives j := Function.update_of_ne hji ..
      have hc : (s.done i slot cmd).ctl j = s.ctl j := Function.update_of_ne hji ..
      exact ⟨by rw [hd, hc]; exact hj'.tail, by rw [hc]; exact hj'.tail_lt, by
        rw [hd, hc]
        exact hj'.cq⟩
  · split_ifs with hji
    · rw [hji]
      simp only [medium, done, Function.update_self]
    · exact congrArg NvmeCtl.disk (Function.update_of_ne hji ..)

/-- The blocks that a command is for. -/
lemma transfer_ioSqe (size : ℕ) (lba : UInt64) {n : ℕ} (hn : 0 < n) (hle : n ≤ 8)
    (hpage : n * size ≤ 4096) (disk data : Bytes) :
    transfer size (ioSqe ioRead lba n) disk data =
        (disk, Bytes.blit data 0 (Bytes.shift disk (lba.toNat * size)) (n * size)) ∧
      transfer size (ioSqe ioWrite lba n) disk data =
        (Bytes.blit disk (lba.toNat * size) data (n * size), data) := by
  have hlba : lba.toUInt32.toNat + 2 ^ 32 * (lba >>> 32).toUInt32.toNat = lba.toNat := by
    have hlt := lba.toNat_lt
    have hshift : (32 : UInt64).toNat = 32 := rfl
    rw [UInt64.toNat_toUInt32, UInt64.toNat_toUInt32, UInt64.toNat_shiftRight, hshift,
      Nat.mod_eq_of_lt (by decide : 32 < 64), Nat.shiftRight_eq_div_pow]
    omega
  have hcount : (UInt32.ofNat (n - 1) &&& 0xFFFF).toNat + 1 = n := by
    have hall : ∀ k : Fin 8, (UInt32.ofNat k &&& 0xFFFF).toNat + 1 = k + 1 := by decide +kernel
    have hk := hall ⟨n - 1, by omega⟩
    dsimp only at hk
    omega
  have hread : ioRead &&& 0xFF = ioRead := by decide
  have hwrite : ioWrite &&& 0xFF = ioWrite := by decide
  have hne : ioWrite ≠ ioRead := by decide
  constructor
  · simp only [transfer, ioSqe, hlba, hcount, min_eq_left hpage, hread, if_true]
  · simp only [transfer, ioSqe, hlba, hcount, min_eq_left hpage, hwrite, hne, if_false, if_true]

lemma toNat_add_ofNat {lba : UInt64} {k : ℕ} (h : lba.toNat + k < 2 ^ 64) :
    (lba + UInt64.ofNat k).toNat = lba.toNat + k := by
  rw [UInt64.toNat_add, UInt64.toNat_ofNat']
  omega

/-! ## Transfers -/

variable {s : Nvme} {i : ℕ} {lba : UInt64}

/-- Batches read one after the other are the sectors that are left. -/
lemma readBatches_spec (lba : UInt64) (h : s.Ready) (hi : i < s.numDrives)
    (hsize : (s.drives i).lbaSize = 512) (count done : ℕ) :
    (readBatches i lba count done s).2.Ready ∧
      SameTable s (readBatches i lba count done s).2 ∧
      (done ≤ count → lba.toNat + count < 2 ^ 64 → (readBatches i lba count done s).1 =
        some (Bytes.slice (s.medium i) ((lba.toNat + done) * 512) ((count - done) * 512))) := by
  induction hk : count - done using Nat.strong_induction_on generalizing done s with
  | _ k ih =>
    rw [readBatches]
    by_cases hlt : done < count
    · rw [if_pos hlt]
      dsimp only
      have hbatch : 0 < min (count - done) 8 := by omega
      obtain ⟨hok, hready, htable, hdata, hmedium⟩ := ioCmd_spec h hi
        (ioSqe ioRead (lba + UInt64.ofNat done) (min (count - done) 8))
      have hsize' : (512 : UInt32).toNat = 512 := rfl
      rw [hsize, hsize', (transfer_ioSqe _ _ hbatch (min_le_right _ _) (by omega) _ _).1]
        at hdata hmedium
      rw [if_neg (by simp [hok])]
      obtain ⟨hready', htable', hrest⟩ := ih (count - (done + min (count - done) 8)) (by omega)
        hready (by rw [htable.numDrives]; exact hi) ((htable.lbaSize i).trans hsize)
        (done + min (count - done) 8) rfl
      refine ⟨hready', htable.trans htable', fun _ hfits => ?_⟩
      rw [hrest (by omega) hfits, hmedium, if_pos rfl, Option.map_some, hdata,
        toNat_add_ofNat (by omega), Bytes.slice_blit_shift]
      have hlen : k = min (count - done) 8 + (count - (done + min (count - done) 8)) := by omega
      have hslices : Bytes.slice (s.medium i) ((lba.toNat + done) * 512) (k * 512) =
          Bytes.slice (s.medium i) ((lba.toNat + done) * 512) (min (count - done) 8 * 512) ++
            Bytes.slice (s.medium i) ((lba.toNat + (done + min (count - done) 8)) * 512)
              ((count - (done + min (count - done) 8)) * 512) := by
        rw [← Nat.add_assoc, Nat.add_mul (lba.toNat + done), ← Bytes.slice_add, ← Nat.add_mul,
          ← hlen]
      rw [hslices]
    · rw [if_neg hlt]
      refine ⟨h, SameTable.refl s, fun _ _ => ?_⟩
      have hzero : k = 0 := by omega
      rw [hzero, Nat.zero_mul]
      rfl

/-- Slices of blocks read one after the other are the sectors that are left. -/
lemma readSlices_spec (lba : UInt64) (h : s.Ready) (hi : i < s.numDrives)
    (hsize : (s.drives i).lbaSize = 4096) (k n : ℕ) :
    (readSlices i lba k n s).2.Ready ∧ SameTable s (readSlices i lba k n s).2 ∧
      (lba.toNat + k + n < 2 ^ 64 → (readSlices i lba k n s).1 =
        some (Bytes.slice (s.medium i) ((lba.toNat + k) * 512) (n * 512))) := by
  induction n generalizing k s with
  | zero =>
    refine ⟨h, SameTable.refl s, fun _ => ?_⟩
    rw [Nat.zero_mul]
    rfl
  | succ n ih =>
    rw [readSlices]
    dsimp only
    obtain ⟨hok, hready, htable, hdata, hmedium⟩ := ioCmd_spec h hi
      (ioSqe ioRead ((lba + UInt64.ofNat k) / 8) 1)
    have hsize' : (4096 : UInt32).toNat = 4096 := rfl
    rw [hsize, hsize', (transfer_ioSqe _ _ Nat.one_pos (by decide) (by decide) _ _).1]
      at hdata hmedium
    rw [if_neg (by simp [hok])]
    obtain ⟨hready', htable', hrest⟩ := ih hready (by rw [htable.numDrives]; exact hi)
      ((htable.lbaSize i).trans hsize) (k + 1)
    refine ⟨hready', htable.trans htable', fun hfits => ?_⟩
    have height : (8 : UInt64).toNat = 8 := rfl
    have hblock : ((lba + UInt64.ofNat k) / 8).toNat = (lba.toNat + k) / 8 := by
      rw [UInt64.toNat_div, toNat_add_ofNat (by omega), height]
    have hoff : ((lba + UInt64.ofNat k) % 8).toNat = (lba.toNat + k) % 8 := by
      rw [UInt64.toNat_mod, toNat_add_ofNat (by omega), height]
    rw [hblock] at hdata
    rw [hrest (by omega), hmedium, if_pos rfl, Option.map_some, hdata, hoff]
    have hslice : Bytes.slice (Bytes.blit s.ioData 0
        (Bytes.shift (s.medium i) ((lba.toNat + k) / 8 * 4096)) (1 * 4096))
          ((lba.toNat + k) % 8 * 512) 512 =
        Bytes.slice (s.medium i) ((lba.toNat + k) * 512) 512 := by
      refine Bytes.slice_congr fun j hj => ?_
      have hidx : (lba.toNat + k) / 8 * 4096 + ((lba.toNat + k) % 8 * 512 + j) =
          (lba.toNat + k) * 512 + j := by omega
      rw [Bytes.blit_start (by omega), Bytes.shift, hidx]
    have hpos : (lba.toNat + (k + 1)) * 512 = (lba.toNat + k) * 512 + 512 := by omega
    have hslices : Bytes.slice (s.medium i) ((lba.toNat + k) * 512) ((n + 1) * 512) =
        Bytes.slice (s.medium i) ((lba.toNat + k) * 512) 512 ++
          Bytes.slice (s.medium i) ((lba.toNat + k) * 512 + 512) (n * 512) := by
      rw [Nat.succ_mul, Nat.add_comm (n * 512)]
      exact Bytes.slice_add _ _ _ _
    rw [hslice, hpos, hslices]

/-- Batches written one after the other store the sectors that are left, and no other. -/
lemma writeBatches_spec (lba : UInt64) (h : s.Ready) (hi : i < s.numDrives)
    (hsize : (s.drives i).lbaSize = 512) (buf : Bytes) (count done : ℕ) :
    (writeBatches i lba buf count done s).2.Ready ∧
      SameTable s (writeBatches i lba buf count done s).2 ∧
      (done ≤ count → lba.toNat + count < 2 ^ 64 → (writeBatches i lba buf count done s).1 = true ∧
        ∀ j, (writeBatches i lba buf count done s).2.medium j =
          if j = i then
            Bytes.blit (s.medium i) ((lba.toNat + done) * 512) (Bytes.shift buf (done * 512))
              ((count - done) * 512)
          else s.medium j) := by
  induction hk : count - done using Nat.strong_induction_on generalizing done s with
  | _ k ih =>
    rw [writeBatches]
    by_cases hlt : done < count
    · rw [if_pos hlt]
      dsimp only
      have hbatch : 0 < min (count - done) 8 := by omega
      set t : Nvme := { s with
        ioData := Bytes.blit s.ioData 0 (Bytes.shift buf (done * 512))
          (min (count - done) 8 * 512) } with ht
      have hready₀ : t.Ready := by
        refine ⟨h.numDrives_lt, h.present, fun j hj => ?_⟩
        have hj' := h.idle j hj
        exact ⟨hj'.tail, hj'.tail_lt, hj'.cq⟩
      obtain ⟨hok, hready, htable, -, hmedium⟩ := ioCmd_spec hready₀ hi
        (ioSqe ioWrite (lba + UInt64.ofNat done) (min (count - done) 8))
      have hsize₀ : (t.drives i).lbaSize = 512 := hsize
      have hsize' : (512 : UInt32).toNat = 512 := rfl
      rw [hsize₀, hsize', (transfer_ioSqe _ _ hbatch (min_le_right _ _) (by omega) _ _).2]
        at hmedium
      have htable₀ : SameTable s t := ⟨rfl, fun _ => rfl, fun _ => rfl, fun _ => rfl⟩
      rw [if_neg (by simp [hok])]
      obtain ⟨hready', htable', hrest⟩ := ih (count - (done + min (count - done) 8)) (by omega)
        hready (by rw [htable.numDrives]; exact hi) ((htable.lbaSize i).trans hsize)
        (done + min (count - done) 8) rfl
      refine ⟨hready', (htable₀.trans htable).trans htable', fun _ hfits => ?_⟩
      obtain ⟨hok', hmedium'⟩ := hrest (by omega) hfits
      refine ⟨hok', fun j => ?_⟩
      have hlen : k = min (count - done) 8 + (count - (done + min (count - done) 8)) := by omega
      have hdata : t.ioData = Bytes.blit s.ioData 0 (Bytes.shift buf (done * 512))
        (min (count - done) 8 * 512) := rfl
      have hdisk : t.medium = s.medium := rfl
      rw [hmedium', hmedium, if_pos rfl, toNat_add_ofNat (by omega), hmedium, hdata, hdisk]
      split_ifs
      · have hfirst : Bytes.blit (s.medium i) ((lba.toNat + done) * 512)
            (Bytes.blit s.ioData 0 (Bytes.shift buf (done * 512)) (min (count - done) 8 * 512))
            (min (count - done) 8 * 512) =
            Bytes.blit (s.medium i) ((lba.toNat + done) * 512) (Bytes.shift buf (done * 512))
              (min (count - done) 8 * 512) :=
          Bytes.blit_congr fun _ hl => Bytes.blit_start hl
        have hshift : Bytes.shift buf ((done + min (count - done) 8) * 512) =
            Bytes.shift (Bytes.shift buf (done * 512)) (min (count - done) 8 * 512) := by
          rw [Bytes.shift_shift, Nat.add_mul]
        rw [hfirst, hshift, ← Nat.add_assoc, Nat.add_mul (lba.toNat + done), Bytes.blit_append,
          ← Nat.add_mul, ← hlen]
      · rfl
    · rw [if_neg hlt]
      refine ⟨h, SameTable.refl s, fun _ _ => ⟨rfl, fun j => ?_⟩⟩
      have hzero : k = 0 := by omega
      rw [hzero, Nat.zero_mul, Bytes.blit_zero_len]
      split_ifs with hj
      · rw [hj]
      · rfl

/-- Reads keep the drives ready, and return the sectors. -/
lemma readSectors_spec (h : s.Ready) (drv : UInt8) (lba : UInt64) (count : UInt8) :
    (s.readSectors drv lba count).2.Ready ∧ SameTable s (s.readSectors drv lba count).2 ∧
      (drv.toNat < s.numDrives → (s.drives drv.toNat).lbaSize = 512 →
        lba.toNat + count.toNat < 2 ^ 64 → (s.readSectors drv lba count).1 =
          some (Bytes.slice (s.medium drv.toNat) (lba.toNat * 512) (count.toNat * 512))) := by
  unfold readSectors
  dsimp only
  by_cases hdrv : s.numDrives ≤ drv.toNat ∨ !(s.drives drv.toNat).present
  · rw [if_pos hdrv]
    refine ⟨h, SameTable.refl s, fun hlt _ _ => ?_⟩
    rw [h.present _ hlt] at hdrv
    exact absurd hdrv (by simpa using hlt)
  · have hlt : drv.toNat < s.numDrives := by
      by_contra hge
      exact hdrv (Or.inl (Nat.le_of_not_lt hge))
    rw [if_neg hdrv]
    by_cases hsize : (s.drives drv.toNat).lbaSize = 512
    · rw [if_pos hsize]
      obtain ⟨hready, htable, hdata⟩ :=
        readBatches_spec lba h hlt hsize count.toNat 0
      exact ⟨hready, htable, fun _ _ hfits => hdata (Nat.zero_le _) hfits⟩
    · rw [if_neg hsize]
      by_cases hsize' : (s.drives drv.toNat).lbaSize = 4096
      · rw [if_pos hsize']
        obtain ⟨hready, htable, -⟩ := readSlices_spec lba h hlt hsize' 0 count.toNat
        exact ⟨hready, htable, fun _ h512 => absurd h512 hsize⟩
      · rw [if_neg hsize']
        exact ⟨h, SameTable.refl s, fun _ h512 => absurd h512 hsize⟩

/-- Writes keep the drives ready, and store the sectors and no other; for other blocks than those of
512 bytes they are refused. -/
lemma writeSectors_spec (h : s.Ready) (drv : UInt8) (lba : UInt64) (count : UInt8) (buf : Bytes) :
    (s.writeSectors drv lba count buf).2.Ready ∧
      SameTable s (s.writeSectors drv lba count buf).2 ∧
      ((s.drives drv.toNat).lbaSize ≠ 512 → (s.writeSectors drv lba count buf).1 = false) ∧
      (drv.toNat < s.numDrives → (s.drives drv.toNat).lbaSize = 512 →
        lba.toNat + count.toNat < 2 ^ 64 → (s.writeSectors drv lba count buf).1 = true ∧
          ∀ j, (s.writeSectors drv lba count buf).2.medium j =
            if j = drv.toNat then
              Bytes.blit (s.medium j) (lba.toNat * 512) buf (count.toNat * 512)
            else s.medium j) := by
  unfold writeSectors
  dsimp only
  by_cases hdrv : s.numDrives ≤ drv.toNat ∨ !(s.drives drv.toNat).present
  · rw [if_pos hdrv]
    refine ⟨h, SameTable.refl s, fun _ => rfl, fun hlt _ _ => ?_⟩
    rw [h.present _ hlt] at hdrv
    exact absurd hdrv (by simpa using hlt)
  · have hlt : drv.toNat < s.numDrives := by
      by_contra hge
      exact hdrv (Or.inl (Nat.le_of_not_lt hge))
    rw [if_neg hdrv]
    by_cases hsize : (s.drives drv.toNat).lbaSize = 512
    · rw [if_neg (not_not.mpr hsize)]
      obtain ⟨hready, htable, hdata⟩ :=
        writeBatches_spec lba h hlt hsize buf count.toNat 0
      refine ⟨hready, htable, fun hne => absurd hsize hne, fun _ _ hfits => ?_⟩
      obtain ⟨hok, hmedium⟩ := hdata (Nat.zero_le _) hfits
      refine ⟨hok, fun j => ?_⟩
      have hshift : Bytes.shift buf (0 * 512) = buf := by
        funext l
        rw [Bytes.shift, Nat.zero_mul, Nat.zero_add]
      rw [hmedium, hshift, Nat.add_zero, Nat.sub_zero]
      split_ifs with hj
      · rw [hj]
      · rfl
    · rw [if_pos hsize]
      exact ⟨h, SameTable.refl s, fun _ => rfl, fun _ h512 => absurd h512 hsize⟩

lemma init_drives {found : List (UInt64 × UInt32 × Bytes)} (h : i < (found.take maxDrives).length) :
    (init found).drives i = ⟨true, (found.take maxDrives)[i].1, (found.take maxDrives)[i].2.1,
      0, 0, true, 4⟩ := by
  change (match (found.take maxDrives)[i]? with
    | some (sectors, lbaSize, _) => (⟨true, sectors, lbaSize, 0, 0, true, 4⟩ : NvmeDrive)
    | none => ⟨false, 0, 0, 0, 0, false, 0⟩) = _
  rw [List.getElem?_eq_getElem h]

/-- The drives are ready after the initialisation. -/
lemma ready_init (found : List (UInt64 × UInt32 × Bytes)) : (init found).Ready where
  numDrives_lt := by
    have hle : (found.take maxDrives).length ≤ maxDrives := List.length_take_le _ _
    exact lt_of_le_of_lt hle (by decide)
  present i hi := by
    have hlt : i < (found.take maxDrives).length := hi
    rw [init_drives hlt]
  idle i hi := by
    have hlt : i < (found.take maxDrives).length := hi
    refine ⟨by rw [init_drives hlt]; rfl, (by decide : 0 < qDepth), ?_⟩
    rw [init_drives hlt]
    exact holds_nil (by decide) fun _ _ => (by decide : phaseTag 0 = !true)

end Nvme

end CoolFrost
