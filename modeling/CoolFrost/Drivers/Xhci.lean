import CoolFrost.Lib.CycleRing

/-!
# The xHCI driver

The control transfers of `drivers/xhci.c` and the controller behind them.  Driver and controller
share a transfer ring for each slot, which the driver fills, and the event ring, which the
controller fills.  A transfer puts its stages on the ring of the slot and then polls the event ring,
one look at a time; the controller may act before every look and between the calls.  It needs no
doorbell to see what is on a ring.

`sent` and `done` count the stages put on a ring and record the completion codes of those carried
out; `returns` records what the calls returned.  Neither the driver nor the controller reads them.
-/

namespace CoolFrost

/-- `xhci_trb_t`. -/
structure XhciTrb where
  param : UInt64
  status : UInt32
  ctrl : UInt32

/-- `usb_setup_t`. -/
structure UsbSetup where
  bmRequestType : UInt8
  bRequest : UInt8
  wValue : UInt16
  wIndex : UInt16
  wLength : UInt16

namespace Xhci

/-- `XHCI_RING_SIZE`. -/
def ringSize : ℕ := 64
/-- `XHCI_MAX_SLOTS`. -/
def maxSlots : ℕ := 16
/-- `XHCI_POLL_LIMIT`. -/
def pollLimit : ℕ := 500000
/-- `TRB_C`. -/
def trbC : UInt32 := (1 : UInt32) <<< 0
/-- `TRB_TC`. -/
def trbTc : UInt32 := (1 : UInt32) <<< 1
/-- `TRB_IOC`. -/
def trbIoc : UInt32 := (1 : UInt32) <<< 5
/-- `TRB_IDT`. -/
def trbIdt : UInt32 := (1 : UInt32) <<< 6
/-- `TRB_DIR`. -/
def trbDir : UInt32 := (1 : UInt32) <<< 16
/-- `TRB_TYPE`. -/
def trbType (t : UInt32) : UInt32 := t <<< 10
/-- `TRB_TRT`. -/
def trbTrt (t : UInt32) : UInt32 := t <<< 16
/-- `TRB_GET_TYPE`. -/
def trbGetType (c : UInt32) : UInt32 := (c >>> 10) &&& 0x3F
/-- `TRB_GET_CC`. -/
def trbGetCc (s : UInt32) : UInt8 := ((s >>> 24) &&& 0xFF).toUInt8
/-- `TRBTYPE_SETUP`. -/
def typeSetup : UInt32 := 2
/-- `TRBTYPE_DATA`. -/
def typeData : UInt32 := 3
/-- `TRBTYPE_STATUS`. -/
def typeStatus : UInt32 := 4
/-- `TRBTYPE_LINK`. -/
def typeLink : UInt32 := 6
/-- `TRBTYPE_EVT_XFER`. -/
def typeEvtXfer : UInt32 := 32
/-- `TRT_NO_DATA`. -/
def trtNoData : UInt32 := 0
/-- `TRT_OUT_DATA`. -/
def trtOutData : UInt32 := 2
/-- `TRT_IN_DATA`. -/
def trtInData : UInt32 := 3
/-- `CC_INVALID`. -/
def ccInvalid : UInt8 := 0
/-- `XHCI_DB_EP0`. -/
def dbEp0 : UInt32 := 1

/-- The cycle bit. -/
def cycle (t : XhciTrb) : Bool := t.ctrl &&& trbC ≠ 0

/-- The cycle bit of a producer in phase `p`. -/
def cycleBit (p : Bool) : UInt32 := if p then trbC else 0

/-! ## Rings -/

/-- The transfer ring of a slot: the driver's side, the controller's, and the record. -/
structure XferRing where
  /-- `xfer_rings`, and its address. -/
  ring : ℕ → XhciTrb
  addr : UInt64
  /-- `xfer_enq` and `xfer_cs`. -/
  enq : ℕ
  cs : Bool
  /-- Where the controller goes on, and its cycle state. -/
  deq : ℕ
  ccs : Bool
  sent : ℕ
  done : List UInt8

/-- `ring_init`, with the enqueue index and the cycle state that follow it. -/
def ringInit (addr : UInt64) : XferRing where
  ring i := if i = ringSize - 1 then ⟨addr, 0, trbType typeLink ||| trbTc⟩ else ⟨0, 0, 0⟩
  addr := addr
  enq := 0
  cs := true
  deq := 0
  ccs := true
  sent := 0
  done := []

/-- `ring_enqueue`. -/
def ringEnqueue (x : XferRing) (param : UInt64) (status ctrl : UInt32) : XferRing :=
  if ringSize - 1 ≤ x.enq then x
  else
    let ring := Function.update x.ring x.enq ⟨param, status, ctrl ||| cycleBit x.cs⟩
    if x.enq + 1 = ringSize - 1 then
      let link := { ring (x.enq + 1) with ctrl := trbType typeLink ||| trbTc ||| cycleBit x.cs }
      { x with
        ring := Function.update ring (x.enq + 1) link
        enq := 0
        cs := !x.cs
        sent := x.sent + 1 }
    else { x with ring := ring, enq := x.enq + 1, sent := x.sent + 1 }

/-- A call of `control_xfer` that waits for its event: its slot, which of the stages put on the ring
its status stage is, and the rounds left to the loop of `evt_poll`. -/
structure Wait where
  slot : Fin maxSlots
  stage : ℕ
  left : ℕ

/-- What a call of `control_xfer` returned. -/
structure Return where
  slot : Fin maxSlots
  stage : ℕ
  code : UInt8

end Xhci

open Xhci

/-- The driver and its controller. -/
structure Hc where
  xfer : Fin maxSlots → XferRing
  /-- `evt_ring`. -/
  evtRing : ℕ → XhciTrb
  /-- `evt_deq`, which the driver also hands to the controller, and `evt_cs`. -/
  evtDeq : ℕ
  evtCs : Bool
  /-- Where the controller puts the next event, and its cycle state. -/
  evtEnq : ℕ
  evtPcs : Bool
  wait : Option Wait
  returns : List Return

namespace Hc

/-- The state after the initialisation, with the rings of all slots set up. -/
def init (addr : Fin maxSlots → UInt64) (evtAddr : UInt64) : Hc where
  xfer i := ringInit (addr i)
  evtRing := (ringInit evtAddr).ring
  evtDeq := 0
  evtCs := true
  evtEnq := 0
  evtPcs := true
  wait := none
  returns := []

/-! ## The controller -/

/-- The event ring has no room: the next event would reach the dequeue pointer. -/
def evtFull (s : Hc) : Prop := (if s.evtEnq + 1 = ringSize then 0 else s.evtEnq + 1) = s.evtDeq

instance (s : Hc) : Decidable s.evtFull := inferInstanceAs (Decidable (_ = _))

/-- Post an event, if there is room. -/
def post (s : Hc) (e : XhciTrb) : Hc :=
  if s.evtFull then s
  else
    { s with
      evtRing := Function.update s.evtRing s.evtEnq
        { e with ctrl := (e.ctrl &&& ~~~trbC) ||| cycleBit s.evtPcs }
      evtEnq := if s.evtEnq + 1 = ringSize then 0 else s.evtEnq + 1
      evtPcs := if s.evtEnq + 1 = ringSize then !s.evtPcs else s.evtPcs }

/-- The transfer event of a stage on the control endpoint of a slot. -/
def xferEvent (slot : Fin maxSlots) (ptr : UInt64) (cc : UInt8) (residual : UInt32) : XhciTrb where
  param := ptr
  status := (cc.toUInt32 <<< 24) ||| (residual &&& 0xFFFFFF)
  ctrl := trbType typeEvtXfer ||| (dbEp0 <<< 16) ||| (UInt32.ofNat (slot + 1) <<< 24)

/-- Replace the transfer ring of a slot. -/
def setXfer (s : Hc) (slot : Fin maxSlots) (x : XferRing) : Hc :=
  { s with xfer := Function.update s.xfer slot x }

/-- Go on in the transfer ring of a slot: follow the link at its end, or carry out the next stage,
with completion code `cc`, and post an event for it if it asks for one.  No stage that does is
carried out while there is no room for its event. -/
def execute (s : Hc) (slot : Fin maxSlots) (cc : UInt8) (residual : UInt32) : Hc :=
  let x := s.xfer slot
  let t := x.ring x.deq
  if cycle t ≠ x.ccs then s
  else if trbGetType t.ctrl = typeLink then
    s.setXfer slot { x with deq := 0, ccs := if t.ctrl &&& trbTc ≠ 0 then !x.ccs else x.ccs }
  else
    let s' := s.setXfer slot { x with deq := x.deq + 1, done := x.done ++ [cc] }
    if t.ctrl &&& trbIoc = 0 then s'
    else if s.evtFull then s
    else s'.post (xferEvent slot (x.addr + 16 * UInt64.ofNat x.deq) cc residual)

/-! ## The driver -/

/-- `control_xfer` up to its `wait_event`.  The kernel makes one call at a time. -/
def controlXfer (s : Hc) (slot : Fin maxSlots) (setup : UsbSetup) (buf : UInt64)
    (len : UInt16) : Hc :=
  if s.wait.isSome then s
  else
    let isIn := setup.bmRequestType &&& 0x80 ≠ 0
    let trt := if len = 0 then trtNoData else if isIn then trtInData else trtOutData
    let spLo := setup.bmRequestType.toUInt64 ||| (setup.bRequest.toUInt64 <<< 8) |||
      (setup.wValue.toUInt64 <<< 16)
    let spHi := setup.wIndex.toUInt64 ||| (setup.wLength.toUInt64 <<< 16)
    let x := ringEnqueue (s.xfer slot) (spLo ||| (spHi <<< 32)) 8
      (trbType typeSetup ||| trbIdt ||| trbTrt trt)
    let x :=
      if 0 < len ∧ buf ≠ 0 then
        ringEnqueue x buf len.toUInt32
          (trbType typeData ||| trbIoc ||| (if isIn then trbDir else 0))
      else x
    let statDir := if 0 < len ∧ isIn then 0 else trbDir
    let x := ringEnqueue x 0 0 (trbType typeStatus ||| trbIoc ||| statDir)
    { s.setXfer slot x with wait := some ⟨slot, x.sent - 1, pollLimit⟩ }

/-- `control_xfer` returns. -/
def ret (s : Hc) (w : Wait) (code : UInt8) : Hc :=
  { s with wait := none, returns := s.returns ++ [⟨w.slot, w.stage, code⟩] }

/-- There is an event to take. -/
def unread (s : Hc) : Prop := cycle (s.evtRing s.evtDeq) = s.evtCs

instance (s : Hc) : Decidable s.unread := inferInstanceAs (Decidable (_ = _))

/-- Advance the dequeue pointer. -/
def advance (s : Hc) : Hc :=
  { s with
    evtDeq := if s.evtDeq + 1 = ringSize then 0 else s.evtDeq + 1
    evtCs := if s.evtDeq + 1 = ringSize then !s.evtCs else s.evtCs }

/-- A round of the loop of `evt_poll` in the `wait_event` of a call that waits: take an event and
return if it is a transfer event, start over if it is another one, and give up after the last
round. -/
def poll (s : Hc) : Hc :=
  match s.wait with
  | none => s
  | some w =>
    if s.unread then
      let ev := s.evtRing s.evtDeq
      if trbGetType ev.ctrl = typeEvtXfer then s.advance.ret w (trbGetCc ev.status)
      else { s.advance with wait := some { w with left := pollLimit } }
    else if w.left ≤ 1 then s.ret w ccInvalid
    else { s with wait := some { w with left := w.left - 1 } }

/-! ## Runs -/

/-- A step of the driver or the controller. -/
inductive Step where
  | call (slot : Fin maxSlots) (setup : UsbSetup) (buf : UInt64) (len : UInt16)
  | poll
  | execute (slot : Fin maxSlots) (cc : UInt8) (residual : UInt32)
  | post (e : XhciTrb)

/-- Make a step. -/
def step (s : Hc) : Step → Hc
  | .call slot setup buf len => s.controlXfer slot setup buf len
  | .poll => s.poll
  | .execute slot cc residual => s.execute slot cc residual
  | .post e => s.post e

/-- Make steps. -/
def run (s : Hc) (steps : List Step) : Hc := steps.foldl step s

end Hc

end CoolFrost
