import CoolFrost.Drivers.Xhci

/-!
# Completion of control transfers

A control transfer without data phase has one stage that asks for an event, the status stage.  As
long as no other transfer event is posted and no call gives up, the only transfer event that can be
on the event ring is that of the call that waits: every call returns the completion code of its own
status stage.  A data stage asks for an event of its own, and the call takes that one.
-/

namespace CoolFrost

open CycleRing Xhci

namespace Xhci

/-! ## Bits of a TRB -/

lemma or_and_distrib (a b c : UInt32) : (a ||| b) &&& c = (a &&& c) ||| (b &&& c) :=
  UInt32.toBitVec_inj.mp (by simp [BitVec.and_or_distrib_right])

lemma cycle_mk (param : UInt64) (status ctrl : UInt32) (p : Bool) (h : ctrl &&& trbC = 0) :
    cycle ⟨param, status, ctrl ||| cycleBit p⟩ = p := by
  have hor : (ctrl ||| cycleBit p) &&& trbC = cycleBit p := by
    rw [or_and_distrib, h, UInt32.zero_or]
    cases p <;> decide
  unfold cycle
  rw [hor]
  cases p <;> decide

lemma and_not_trbC (c : UInt32) : c &&& ~~~trbC &&& trbC = 0 := by
  rw [UInt32.and_assoc]
  have : ~~~trbC &&& trbC = 0 := by decide
  rw [this, UInt32.and_zero]

/-- Marking an event does not change its type. -/
lemma trbGetType_mark (c : UInt32) (p : Bool) :
    trbGetType ((c &&& ~~~trbC) ||| cycleBit p) = trbGetType c := by
  have hbit : cycleBit p >>> 10 = 0 := by cases p <;> decide
  have hmask : (~~~trbC >>> 10) &&& 0x3F = 0x3F := by decide
  unfold trbGetType
  rw [UInt32.shiftRight_or, hbit, UInt32.or_zero, UInt32.shiftRight_and, UInt32.and_assoc, hmask]

/-- The completion code of a transfer event. -/
lemma trbGetCc_xferEvent (slot : Fin maxSlots) (ptr : UInt64) (cc : UInt8) (residual : UInt32) :
    trbGetCc (Hc.xferEvent slot ptr cc residual).status = cc := by
  have hmask : (0xFFFFFF : UInt32) >>> 24 = 0 := by decide
  have hcc : ∀ i : Fin 256,
      (((UInt8.ofFin i).toUInt32 <<< 24 >>> 24) &&& 0xFF).toUInt8 = UInt8.ofFin i := by
    decide +kernel
  rw [Hc.xferEvent, trbGetCc, UInt32.shiftRight_or, UInt32.shiftRight_and, hmask, UInt32.and_zero,
    UInt32.or_zero]
  exact hcc cc.toFin

lemma trbGetType_xferEvent (slot : Fin maxSlots) (ptr : UInt64) (cc : UInt8) (residual : UInt32) :
    trbGetType (Hc.xferEvent slot ptr cc residual).ctrl = typeEvtXfer := by
  have hall : ∀ i : Fin maxSlots,
      trbGetType (trbType typeEvtXfer ||| (dbEp0 <<< 16) ||| (UInt32.ofNat (i + 1) <<< 24)) =
        typeEvtXfer := by decide +kernel
  exact hall slot

/-! ## Transfer rings -/

/-- A stage that asks for no event. -/
def IsSetup (t : XhciTrb) : Prop := trbGetType t.ctrl ≠ typeLink ∧ t.ctrl &&& trbIoc = 0

/-- A stage that asks for an event. -/
def IsStatus (t : XhciTrb) : Prop := trbGetType t.ctrl ≠ typeLink ∧ t.ctrl &&& trbIoc ≠ 0

namespace XferRing

/-- Where the controller goes on once it has followed the link. -/
def cursor (x : XferRing) : Cursor :=
  if x.deq = ringSize - 1 then ⟨0, !x.ccs⟩ else ⟨x.deq, x.ccs⟩

/-- The stages `q` are on the ring and not yet carried out. -/
structure Holds (x : XferRing) (q : List XhciTrb) : Prop where
  ring : CycleRing.Holds (ringSize - 1) cycle x.ring x.cursor ⟨x.enq, x.cs⟩ q
  deq_le : x.deq ≤ ringSize - 1
  link : (x.ring (ringSize - 1)).ctrl = trbType typeLink ||| trbTc ||| cycleBit (!x.cs)
  sent : x.sent = x.done.length + q.length

/-- No cell of a new ring is marked, the link at its end included. -/
lemma cycle_ringInit (addr : UInt64) (i : ℕ) : cycle ((ringInit addr).ring i) = false := by
  by_cases hlast : i = ringSize - 1
  · have hcell : (ringInit addr).ring i = ⟨addr, 0, trbType typeLink ||| trbTc⟩ := if_pos hlast
    have hmark : (trbType typeLink ||| trbTc) &&& trbC = 0 := by decide
    rw [hcell, cycle, hmark]
    rfl
  · have hcell : (ringInit addr).ring i = ⟨0, 0, 0⟩ := if_neg hlast
    rw [hcell]
    rfl

lemma holds_init (addr : UInt64) : Holds (ringInit addr) [] where
  ring := holds_nil (by decide) fun i _ => cycle_ringInit addr i
  deq_le := Nat.zero_le _
  link := by
    have hcell : (ringInit addr).ring (ringSize - 1) = ⟨addr, 0, trbType typeLink ||| trbTc⟩ := rfl
    rw [hcell]
    exact (UInt32.or_zero).symm
  sent := rfl

/-- `ring_enqueue` appends a stage. -/
lemma Holds.enqueue {x : XferRing} {q : List XhciTrb} (h : x.Holds q)
    (hlen : q.length < ringSize - 1)
    (param : UInt64) (status : UInt32) {ctrl : UInt32} (hctrl : ctrl &&& trbC = 0) :
    (ringEnqueue x param status ctrl).Holds (q ++ [⟨param, status, ctrl ||| cycleBit x.cs⟩]) := by
  have henq : x.enq < ringSize - 1 := h.ring.writer_pos_lt
  have hring := h.ring.push hlen (a := ⟨param, status, ctrl ||| cycleBit x.cs⟩)
    (cycle_mk param status ctrl x.cs hctrl)
  have hsent : x.sent + 1 =
      x.done.length + (q ++ [(⟨param, status, ctrl ||| cycleBit x.cs⟩ : XhciTrb)]).length := by
    rw [List.length_append, h.sent, List.length_singleton, Nat.add_assoc]
  unfold ringEnqueue
  rw [if_neg (by omega)]
  dsimp only
  split_ifs with hwrap
  · refine ⟨?_, h.deq_le, ?_, hsent⟩
    · have hnext : Cursor.next (ringSize - 1) ⟨x.enq, x.cs⟩ = ⟨0, !x.cs⟩ := if_pos hwrap
      rw [hnext] at hring
      exact hring.congr fun i hi => Function.update_of_ne (by omega) _ _
    · dsimp only
      rw [hwrap, Function.update_self, Bool.not_not]
  · refine ⟨?_, h.deq_le, ?_, hsent⟩
    · have hnext : Cursor.next (ringSize - 1) ⟨x.enq, x.cs⟩ = ⟨x.enq + 1, x.cs⟩ := if_neg hwrap
      rw [hnext] at hring
      exact hring
    · dsimp only
      rw [Function.update_of_ne (by omega), h.link]

/-- The controller follows the link. -/
lemma Holds.follow {x : XferRing} {q : List XhciTrb} (h : x.Holds q) (hdeq : x.deq = ringSize - 1) :
    Holds { x with deq := 0, ccs := !x.ccs } q := by
  refine ⟨?_, Nat.zero_le _, h.link, h.sent⟩
  have hcursor : cursor { x with deq := 0, ccs := !x.ccs } = x.cursor := by
    rw [cursor, cursor, if_pos hdeq]
    rfl
  rw [hcursor]
  exact h.ring

/-- The controller carries out a stage. -/
lemma Holds.carryOut {x : XferRing} {t : XhciTrb} {q : List XhciTrb} (h : x.Holds (t :: q))
    (hdeq : x.deq ≠ ringSize - 1) (cc : UInt8) :
    x.ring x.deq = t ∧ Holds { x with deq := x.deq + 1, done := x.done ++ [cc] } q := by
  have hcursor : x.cursor = ⟨x.deq, x.ccs⟩ := if_neg hdeq
  have hring := h.ring
  rw [hcursor] at hring
  obtain ⟨hcell, hpop⟩ := hring.pop
  have hle := h.deq_le
  refine ⟨hcell, ?_, by dsimp only; omega, h.link, ?_⟩
  · have hnext : Cursor.next (ringSize - 1) ⟨x.deq, x.ccs⟩ =
        cursor { x with deq := x.deq + 1, done := x.done ++ [cc] } := rfl
    rw [hnext] at hpop
    exact hpop
  · have hsent := h.sent
    rw [List.length_cons] at hsent
    dsimp only
    rw [List.length_append, List.length_singleton, hsent]
    omega

/-- What the controller finds where it goes on: the link, the first of the stages, or nothing. -/
lemma Holds.fetch {x : XferRing} {q : List XhciTrb} (h : x.Holds q)
    (hcycle : cycle (x.ring x.deq) = x.ccs) :
    (x.deq = ringSize - 1 ∧ trbGetType (x.ring x.deq).ctrl = typeLink ∧
        (x.ring x.deq).ctrl &&& trbTc ≠ 0) ∨
      x.deq ≠ ringSize - 1 ∧ q ≠ [] := by
  by_cases hdeq : x.deq = ringSize - 1
  · refine Or.inl ⟨hdeq, ?_, ?_⟩
    · rw [hdeq, h.link]
      cases x.cs <;> decide
    · rw [hdeq, h.link]
      cases x.cs <;> decide
  · have hcursor : x.cursor = ⟨x.deq, x.ccs⟩ := if_neg hdeq
    have hring := h.ring
    rw [hcursor] at hring
    exact Or.inr ⟨hdeq, hring.mark_iff.mp hcycle⟩

end XferRing

end Xhci

namespace Hc

/-! ## The event ring -/

/-- The events `q` are posted and not yet taken. -/
structure Events (s : Hc) (q : List XhciTrb) : Prop where
  ring : CycleRing.Holds ringSize cycle s.evtRing ⟨s.evtDeq, s.evtCs⟩ ⟨s.evtEnq, s.evtPcs⟩ q
  room : q.length < ringSize

@[simp] lemma post_xfer (s : Hc) (e : XhciTrb) : (s.post e).xfer = s.xfer := by
  unfold post
  split_ifs <;> rfl

@[simp] lemma post_wait (s : Hc) (e : XhciTrb) : (s.post e).wait = s.wait := by
  unfold post
  split_ifs <;> rfl

@[simp] lemma post_returns (s : Hc) (e : XhciTrb) : (s.post e).returns = s.returns := by
  unfold post
  split_ifs <;> rfl

/-- An event is appended, marked, if there is room. -/
lemma Events.post {s : Hc} {q : List XhciTrb} (h : s.Events q) (hfull : ¬s.evtFull) (e : XhciTrb) :
    ∃ e' : XhciTrb, trbGetType e'.ctrl = trbGetType e.ctrl ∧ e'.status = e.status ∧
      (s.post e).Events (q ++ [e']) := by
  have hnext : Cursor.next ringSize ⟨s.evtEnq, s.evtPcs⟩ =
      ⟨if s.evtEnq + 1 = ringSize then 0 else s.evtEnq + 1,
        if s.evtEnq + 1 = ringSize then !s.evtPcs else s.evtPcs⟩ := by
    unfold Cursor.next
    split_ifs <;> rfl
  have hroom : q.length + 1 < ringSize := by
    refine lt_of_le_of_ne h.room fun hlast => hfull ?_
    have hw : Cursor.next ringSize ⟨s.evtEnq, s.evtPcs⟩ = ⟨s.evtDeq, !s.evtCs⟩ := by
      rw [h.ring.writer, Cursor.next_ahead h.ring.pos_lt h.room, hlast, Cursor.ahead_lap]
    rw [hnext] at hw
    exact congrArg Cursor.pos hw
  refine ⟨{ e with ctrl := (e.ctrl &&& ~~~trbC) ||| cycleBit s.evtPcs },
    trbGetType_mark _ _, rfl, ?_⟩
  have hpush := h.ring.push h.room
    (a := { e with ctrl := (e.ctrl &&& ~~~trbC) ||| cycleBit s.evtPcs })
    (cycle_mk _ _ _ _ (and_not_trbC _))
  rw [hnext] at hpush
  rw [Hc.post, if_neg hfull]
  exact ⟨hpush, by rw [List.length_append]; exact hroom⟩

/-- There is an event to take if one is posted and not taken. -/
lemma Events.unread_iff {s : Hc} {q : List XhciTrb} (h : s.Events q) : s.unread ↔ q ≠ [] :=
  h.ring.mark_iff

/-- Taking an event. -/
lemma Events.advance {s : Hc} {e : XhciTrb} {q : List XhciTrb} (h : s.Events (e :: q)) :
    s.evtRing s.evtDeq = e ∧ s.advance.Events q := by
  obtain ⟨hcell, hpop⟩ := h.ring.pop
  have hnext : Cursor.next ringSize ⟨s.evtDeq, s.evtCs⟩ = ⟨s.advance.evtDeq, s.advance.evtCs⟩ := by
    unfold Cursor.next Hc.advance
    dsimp only
    split_ifs <;> rfl
  rw [hnext] at hpop
  exact ⟨hcell, hpop, lt_trans (Nat.lt_succ_self _) h.room⟩

/-! ## The invariant -/

/-- No transfer event is among the events. -/
def Quiet (evq : List XhciTrb) : Prop := ∀ e ∈ evq, trbGetType e.ctrl ≠ typeEvtXfer

/-- How far the controller is with a call without data phase: the stages that are left, the events
that are not taken, and the completion codes. -/
inductive Progress : List XhciTrb → List XhciTrb → List UInt8 → Prop
  | begun (a b : XhciTrb) (evq : List XhciTrb) (done : List UInt8) :
      IsSetup a → IsStatus b → Quiet evq → Progress [a, b] evq done
  | half (b : XhciTrb) (evq : List XhciTrb) (done : List UInt8) :
      IsStatus b → Quiet evq → Progress [b] evq done
  | complete (e : XhciTrb) (pre post : List XhciTrb) (done : List UInt8) :
      trbGetType e.ctrl = typeEvtXfer → Quiet pre → Quiet post →
      Progress [] (pre ++ e :: post) (done ++ [trbGetCc e.status])

/-- What holds between the calls and while a call waits. -/
def Phase (s : Hc) (q : Fin maxSlots → List XhciTrb) (evq : List XhciTrb) : Prop :=
  match s.wait with
  | none => (∀ i, q i = []) ∧ Quiet evq
  | some w => (∀ i, i ≠ w.slot → q i = []) ∧ w.stage + 1 = (s.xfer w.slot).sent ∧
      Progress (q w.slot) evq (s.xfer w.slot).done

lemma phase_of_none {s : Hc} (hw : s.wait = none) {q : Fin maxSlots → List XhciTrb}
    {evq : List XhciTrb} : s.Phase q evq ↔ (∀ i, q i = []) ∧ Quiet evq := by
  rw [Phase, hw]

lemma phase_of_some {s : Hc} {w : Wait} (hw : s.wait = some w) {q : Fin maxSlots → List XhciTrb}
    {evq : List XhciTrb} :
    s.Phase q evq ↔ (∀ i, i ≠ w.slot → q i = []) ∧ w.stage + 1 = (s.xfer w.slot).sent ∧
      Progress (q w.slot) evq (s.xfer w.slot).done := by
  rw [Phase, hw]

/-- Every call has returned the completion code of its status stage, which is completed. -/
def Answered (s : Hc) : Prop := ∀ r ∈ s.returns, (s.xfer r.slot).done[r.stage]? = some r.code

/-- The invariant of runs without data phases and foreign transfer events. -/
structure Inv (s : Hc) : Prop where
  queues : ∃ (q : Fin maxSlots → List XhciTrb) (evq : List XhciTrb),
    (∀ i, (s.xfer i).Holds (q i)) ∧ s.Events evq ∧ s.Phase q evq
  answered : s.Answered

/-- The step does not lead to a data phase, a foreign transfer event or a call that gives up. -/
def Meets (s : Hc) : Step → Prop
  | .call _ _ buf len => len = 0 ∨ buf = 0
  | .poll => ∀ w, s.wait = some w → w.left ≤ 1 → s.unread
  | .execute _ _ _ => True
  | .post e => trbGetType e.ctrl ≠ typeEvtXfer

/-- Every step of a run meets the condition. -/
def AllMeet (s : Hc) : List Step → Prop
  | [] => True
  | a :: steps => s.Meets a ∧ (s.step a).AllMeet steps

lemma Quiet.append {evq : List XhciTrb} (h : Quiet evq) {e : XhciTrb}
    (he : trbGetType e.ctrl ≠ typeEvtXfer) : Quiet (evq ++ [e]) := by
  intro e' he'
  rcases List.mem_append.mp he' with h' | h'
  · exact h e' h'
  · rwa [List.mem_singleton.mp h']

/-- The completion codes of the stages carried out stay. -/
lemma Answered.mono {s s' : Hc} (h : s.Answered) (hreturns : s'.returns = s.returns)
    (hdone : ∀ i, (s.xfer i).done <+: (s'.xfer i).done) : s'.Answered := by
  intro r hr
  rw [hreturns] at hr
  obtain ⟨t, ht⟩ := hdone r.slot
  have hcode := h r hr
  have hlt : r.stage < (s.xfer r.slot).done.length := (List.getElem?_eq_some_iff.mp hcode).1
  rw [← ht, List.getElem?_append_left hlt, hcode]

lemma inv_init (addr : Fin maxSlots → UInt64) (evtAddr : UInt64) : Inv (init addr evtAddr) where
  queues := by
    refine ⟨fun _ => [], [], fun i => XferRing.holds_init (addr i), ⟨?_, by decide⟩,
      fun _ => rfl, fun e he => absurd he List.not_mem_nil⟩
    exact holds_nil (by decide) fun i _ => XferRing.cycle_ringInit evtAddr i
  answered r hr := absurd hr List.not_mem_nil

/-! ## Steps -/

/-- An event of another kind than a transfer event changes nothing but the event ring. -/
lemma Inv.post {s : Hc} (h : s.Inv) {e : XhciTrb} (he : trbGetType e.ctrl ≠ typeEvtXfer) :
    (s.post e).Inv := by
  by_cases hfull : s.evtFull
  · rw [Hc.post, if_pos hfull]
    exact h
  obtain ⟨q, evq, hxfer, hev, hphase⟩ := h.queues
  obtain ⟨e', he', -, hev'⟩ := hev.post hfull e
  rw [← he'] at he
  refine ⟨⟨q, evq ++ [e'], by simpa using hxfer, hev', ?_⟩,
    h.answered.mono (post_returns s e) fun i => by rw [post_xfer]⟩
  cases hwait : s.wait with
  | none =>
    rw [phase_of_none hwait] at hphase
    rw [phase_of_none ((post_wait s e).trans hwait)]
    exact ⟨hphase.1, hphase.2.append he⟩
  | some w =>
    rw [phase_of_some hwait] at hphase
    rw [phase_of_some ((post_wait s e).trans hwait), post_xfer]
    obtain ⟨hother, hstage, hprogress⟩ := hphase
    refine ⟨hother, hstage, ?_⟩
    generalize q w.slot = qs at hprogress ⊢
    generalize (s.xfer w.slot).done = done at hprogress ⊢
    cases hprogress with
    | begun a b _ _ ha hb hq => exact .begun a b _ _ ha hb (hq.append he)
    | half b _ _ hb hq => exact .half b _ _ hb (hq.append he)
    | complete e₀ pre post done he₀ hpre hpost =>
      rw [List.append_assoc, List.cons_append]
      exact .complete e₀ pre _ done he₀ hpre (hpost.append he)

@[simp] lemma setXfer_self (s : Hc) (slot : Fin maxSlots) (x : XferRing) :
    (s.setXfer slot x).xfer slot = x := Function.update_self ..

lemma setXfer_ne (s : Hc) {slot i : Fin maxSlots} (hi : i ≠ slot) (x : XferRing) :
    (s.setXfer slot x).xfer i = s.xfer i := Function.update_of_ne hi ..

/-- What the controller can do in the ring of a slot: nothing, follow the link, or carry out the
first of the stages, with an event if that asks for one. -/
lemma execute_cases {s : Hc} {slot : Fin maxSlots} {q : List XhciTrb} (h : (s.xfer slot).Holds q)
    (hlink : ∀ t ∈ q, trbGetType t.ctrl ≠ typeLink) (cc : UInt8) (residual : UInt32) :
    s.execute slot cc residual = s ∨
      (∃ x : XferRing, x.Holds q ∧ x.done = (s.xfer slot).done ∧ x.sent = (s.xfer slot).sent ∧
        s.execute slot cc residual = s.setXfer slot x) ∨
      ∃ (t : XhciTrb) (q' : List XhciTrb) (x : XferRing), q = t :: q' ∧ x.Holds q' ∧
        x.done = (s.xfer slot).done ++ [cc] ∧ x.sent = (s.xfer slot).sent ∧
        (t.ctrl &&& trbIoc = 0 ∧ s.execute slot cc residual = s.setXfer slot x ∨
          t.ctrl &&& trbIoc ≠ 0 ∧ ¬s.evtFull ∧ ∃ ptr, s.execute slot cc residual =
            (s.setXfer slot x).post (xferEvent slot ptr cc residual)) := by
  by_cases hcycle : cycle ((s.xfer slot).ring (s.xfer slot).deq) ≠ (s.xfer slot).ccs
  · left
    rw [Hc.execute, if_pos hcycle]
  rw [not_not] at hcycle
  rcases h.fetch hcycle with ⟨hdeq, htype, htc⟩ | ⟨hdeq, hne⟩
  · refine Or.inr (Or.inl ⟨_, h.follow hdeq, rfl, rfl, ?_⟩)
    rw [Hc.execute, if_neg (not_not.mpr hcycle), if_pos htype, if_pos htc]
  · obtain ⟨t, q', rfl⟩ := List.exists_cons_of_ne_nil hne
    obtain ⟨hcell, hpop⟩ := h.carryOut hdeq cc
    have htype : trbGetType t.ctrl ≠ typeLink := hlink t List.mem_cons_self
    rw [← hcell] at htype
    by_cases hioc : t.ctrl &&& trbIoc = 0
    · refine Or.inr (Or.inr ⟨t, q', _, rfl, hpop, rfl, rfl, Or.inl ⟨hioc, ?_⟩⟩)
      rw [← hcell] at hioc
      rw [Hc.execute, if_neg (not_not.mpr hcycle), if_neg htype, if_pos hioc]
    · by_cases hfull : s.evtFull
      · left
        rw [← hcell] at hioc
        rw [Hc.execute, if_neg (not_not.mpr hcycle), if_neg htype, if_neg hioc, if_pos hfull]
      · refine Or.inr (Or.inr ⟨t, q', _, rfl, hpop, rfl, rfl, Or.inr ⟨hioc, hfull,
          (s.xfer slot).addr + 16 * UInt64.ofNat (s.xfer slot).deq, ?_⟩⟩)
        rw [← hcell] at hioc
        rw [Hc.execute, if_neg (not_not.mpr hcycle), if_neg htype, if_neg hioc, if_neg hfull]

/-- The stages that are left are no links. -/
lemma Phase.no_link {s : Hc} {q : Fin maxSlots → List XhciTrb} {evq : List XhciTrb}
    (h : s.Phase q evq) (slot : Fin maxSlots) : ∀ t ∈ q slot, trbGetType t.ctrl ≠ typeLink := by
  intro t ht
  cases hw : s.wait with
  | none =>
    rw [((phase_of_none hw).mp h).1 slot] at ht
    exact absurd ht List.not_mem_nil
  | some w =>
    obtain ⟨hother, -, hprogress⟩ := (phase_of_some hw).mp h
    by_cases hslot : slot = w.slot
    · rw [hslot] at ht
      generalize q w.slot = qs at hprogress ht
      generalize (s.xfer w.slot).done = done at hprogress
      cases hprogress with
      | begun a b _ _ ha hb _ =>
        simp only [List.mem_cons, List.not_mem_nil, or_false] at ht
        rcases ht with rfl | rfl
        · exact ha.1
        · exact hb.1
      | half b _ _ hb _ =>
        rw [List.mem_singleton.mp ht]
        exact hb.1
      | complete => exact absurd ht List.not_mem_nil
    · rw [hother slot hslot] at ht
      exact absurd ht List.not_mem_nil

/-- The controller goes on in the ring of a slot. -/
lemma Inv.execute {s : Hc} (h : s.Inv) (slot : Fin maxSlots) (cc : UInt8) (residual : UInt32) :
    (s.execute slot cc residual).Inv := by
  obtain ⟨q, evq, hxfer, hev, hphase⟩ := h.queues
  have hset : ∀ {x : XferRing} {qs : List XhciTrb}, x.Holds qs →
      ∀ i, ((s.setXfer slot x).xfer i).Holds (Function.update q slot qs i) := by
    intro x qs hx i
    by_cases hi : i = slot
    · rw [hi, setXfer_self, Function.update_self]
      exact hx
    · rw [setXfer_ne s hi, Function.update_of_ne hi]
      exact hxfer i
  have hdone : ∀ {x : XferRing}, (s.xfer slot).done <+: x.done →
      ∀ i, (s.xfer i).done <+: ((s.setXfer slot x).xfer i).done := by
    intro x hx i
    by_cases hi : i = slot
    · rw [hi, setXfer_self]
      exact hx
    · rw [setXfer_ne s hi]
  rcases execute_cases (hxfer slot) (hphase.no_link slot) cc residual with
    heq | ⟨x, hx, hxdone, hxsent, heq⟩ | ⟨t, q', x, hq, hx, hxdone, hxsent, hcase⟩
  · rw [heq]
    exact h
  · -- the link is followed
    rw [heq]
    refine ⟨⟨Function.update q slot (q slot), evq, hset hx, ⟨hev.ring, hev.room⟩, ?_⟩,
      h.answered.mono rfl (hdone (by rw [hxdone]))⟩
    rw [Function.update_eq_self]
    cases hw : s.wait with
    | none => exact (phase_of_none (s := s.setXfer slot x) hw).mpr ((phase_of_none hw).mp hphase)
    | some w =>
      obtain ⟨hother, hstage, hprogress⟩ := (phase_of_some hw).mp hphase
      refine (phase_of_some (s := s.setXfer slot x) hw).mpr ?_
      by_cases hslot : w.slot = slot
      · subst hslot
        rw [setXfer_self, hxdone, hxsent]
        exact ⟨hother, hstage, hprogress⟩
      · rw [setXfer_ne s hslot]
        exact ⟨hother, hstage, hprogress⟩
  · -- a stage is carried out: the call that waits is that of the slot
    have hmono := hdone (x := x) (by rw [hxdone]; exact List.prefix_append _ _)
    cases hw : s.wait with
    | none =>
      rw [((phase_of_none hw).mp hphase).1 slot] at hq
      cases hq
    | some w =>
      obtain ⟨hother, hstage, hprogress⟩ := (phase_of_some hw).mp hphase
      obtain rfl : slot = w.slot := by
        by_contra hne
        rw [hother slot hne] at hq
        cases hq
      have hother' : ∀ i, i ≠ w.slot → Function.update q w.slot q' i = [] := fun i hi => by
        rw [Function.update_of_ne hi, hother i hi]
      rw [hq] at hprogress
      generalize hd : (s.xfer w.slot).done = done at hprogress hxdone
      rcases hcase with ⟨hioc, heq⟩ | ⟨hioc, hfull, ptr, heq⟩
      · rw [heq]
        refine ⟨⟨Function.update q w.slot q', evq, hset hx, ⟨hev.ring, hev.room⟩, ?_⟩,
          h.answered.mono rfl hmono⟩
        refine (phase_of_some (s := s.setXfer w.slot x) hw).mpr ?_
        rw [setXfer_self, Function.update_self, hxsent]
        refine ⟨hother', hstage, ?_⟩
        cases hprogress with
        | begun _ b _ _ _ hb hquiet => exact .half b _ _ hb hquiet
        | half _ _ _ hb _ => exact absurd hioc hb.2
      · have hev₀ : (s.setXfer w.slot x).Events evq := ⟨hev.ring, hev.room⟩
        obtain ⟨e', htype, hstatus, hev'⟩ :=
          hev₀.post hfull (xferEvent w.slot ptr cc residual)
        rw [trbGetType_xferEvent] at htype
        have hcc : trbGetCc e'.status = cc := by rw [hstatus, trbGetCc_xferEvent]
        rw [heq]
        refine ⟨⟨Function.update q w.slot q', evq ++ [e'], by simpa using hset hx, hev', ?_⟩,
          h.answered.mono (by simp; rfl) fun i => by rw [post_xfer]; exact hmono i⟩
        refine (phase_of_some (s := (s.setXfer w.slot x).post (xferEvent w.slot ptr cc residual))
          ((post_wait _ _).trans hw)).mpr ?_
        rw [post_xfer, setXfer_self, Function.update_self, hxsent, hxdone]
        refine ⟨hother', hstage, ?_⟩
        cases hprogress with
        | begun _ _ _ _ ha _ _ => exact absurd ha.2 hioc
        | half _ _ _ _ hquiet =>
          rw [← hcc]
          exact .complete e' evq [] done htype hquiet fun e he => absurd he List.not_mem_nil

/-- `ring_enqueue` leaves the record of the controller alone. -/
lemma ringEnqueue_done (x : XferRing) (param : UInt64) (status ctrl : UInt32) :
    (ringEnqueue x param status ctrl).done = x.done := by
  unfold ringEnqueue
  by_cases hfull : ringSize - 1 ≤ x.enq
  · rw [if_pos hfull]
  · rw [if_neg hfull]
    dsimp only
    by_cases hwrap : x.enq + 1 = ringSize - 1
    · rw [if_pos hwrap]
    · rw [if_neg hwrap]

/-- The stages of a transfer without data phase on an empty ring. -/
lemma holds_stages {x : XferRing} (h : x.Holds []) (param : UInt64) {trt dir : UInt32}
    (htrt : trt = trtNoData ∨ trt = trtInData ∨ trt = trtOutData) (hdir : dir = 0 ∨ dir = trbDir) :
    ∃ a b, IsSetup a ∧ IsStatus b ∧
      (ringEnqueue (ringEnqueue x param 8 (trbType typeSetup ||| trbIdt ||| trbTrt trt)) 0 0
        (trbType typeStatus ||| trbIoc ||| dir)).Holds [a, b] := by
  have hsetup : ∀ p, (trbType typeSetup ||| trbIdt ||| trbTrt trt) &&& trbC = 0 ∧
      trbGetType (trbType typeSetup ||| trbIdt ||| trbTrt trt ||| cycleBit p) ≠ typeLink ∧
      (trbType typeSetup ||| trbIdt ||| trbTrt trt ||| cycleBit p) &&& trbIoc = 0 := by
    intro p
    rcases htrt with rfl | rfl | rfl <;> cases p <;> decide
  have hstatus : ∀ p, (trbType typeStatus ||| trbIoc ||| dir) &&& trbC = 0 ∧
      trbGetType (trbType typeStatus ||| trbIoc ||| dir ||| cycleBit p) ≠ typeLink ∧
      (trbType typeStatus ||| trbIoc ||| dir ||| cycleBit p) &&& trbIoc ≠ 0 := by
    intro p
    rcases hdir with rfl | rfl <;> cases p <;> decide
  have hone : ∀ a : XhciTrb, ([] ++ [a]).length < ringSize - 1 := fun _ =>
    (by decide : 1 < ringSize - 1)
  have hx₁ := h.enqueue (by decide) param 8 (hsetup true).1
  have hx₂ := hx₁.enqueue (hone _) 0 0 (hstatus true).1
  refine ⟨_, _, ?_, ?_, hx₂⟩
  · exact (hsetup _).2
  · exact (hstatus _).2

/-- A call without data phase starts. -/
lemma Inv.controlXfer {s : Hc} (h : s.Inv) (slot : Fin maxSlots) (setup : UsbSetup) {buf : UInt64}
    {len : UInt16} (hdata : len = 0 ∨ buf = 0) : (s.controlXfer slot setup buf len).Inv := by
  by_cases hwait : s.wait.isSome
  · rw [Hc.controlXfer, if_pos hwait]
    exact h
  have hw : s.wait = none := by simpa using hwait
  obtain ⟨q, evq, hxfer, hev, hphase⟩ := h.queues
  obtain ⟨hidle, hquiet⟩ := (phase_of_none hw).mp hphase
  have hnodata : ¬(0 < len ∧ buf ≠ 0) := by
    rintro ⟨hlen, hbuf⟩
    rcases hdata with rfl | hb
    · exact absurd hlen (by decide)
    · exact hbuf hb
  obtain ⟨x, hcall, hdone, a, b, ha, hb, hx⟩ : ∃ x : XferRing,
      s.controlXfer slot setup buf len =
        { s.setXfer slot x with wait := some ⟨slot, x.sent - 1, pollLimit⟩ } ∧
      x.done = (s.xfer slot).done ∧ ∃ a b, IsSetup a ∧ IsStatus b ∧ x.Holds [a, b] := by
    rw [Hc.controlXfer, if_neg hwait]
    dsimp only
    rw [if_neg hnodata]
    refine ⟨_, rfl, ?_, holds_stages (hidle slot ▸ hxfer slot) _ ?_ ?_⟩
    · rw [ringEnqueue_done, ringEnqueue_done]
    · split_ifs <;> simp
    · split_ifs <;> simp
  have hset : ∀ i, ((s.setXfer slot x).xfer i).Holds (Function.update q slot [a, b] i) := by
    intro i
    by_cases hi : i = slot
    · rw [hi, setXfer_self, Function.update_self]
      exact hx
    · rw [setXfer_ne s hi, Function.update_of_ne hi]
      exact hxfer i
  have hanswered : (s.setXfer slot x).Answered := h.answered.mono rfl fun i => by
    by_cases hi : i = slot
    · rw [hi, setXfer_self, hdone]
    · rw [setXfer_ne s hi]
  have hsent : x.sent = x.done.length + 2 := hx.sent
  rw [hcall]
  refine ⟨⟨Function.update q slot [a, b], evq, hset, ⟨hev.ring, hev.room⟩, ?_⟩, hanswered⟩
  refine (phase_of_some rfl).mpr ⟨fun i hi => ?_, ?_, ?_⟩
  · rw [Function.update_of_ne hi, hidle i]
  · change x.sent - 1 + 1 = ((s.setXfer slot x).xfer slot).sent
    rw [setXfer_self]
    omega
  · rw [Function.update_self]
    exact .begun a b _ _ ha hb hquiet

/-- A call that waits looks at the event ring. -/
lemma Inv.poll {s : Hc} (h : s.Inv) (hmeets : s.Meets .poll) : s.poll.Inv := by
  cases hw : s.wait with
  | none =>
    rw [Hc.poll, hw]
    exact h
  | some w =>
    obtain ⟨q, evq, hxfer, hev, hphase⟩ := h.queues
    obtain ⟨hother, hstage, hprogress⟩ := (phase_of_some hw).mp hphase
    rw [Hc.poll, hw]
    dsimp only
    by_cases hunread : s.unread
    · rw [if_pos hunread]
      obtain ⟨e, evq', rfl⟩ := List.exists_cons_of_ne_nil (hev.unread_iff.mp hunread)
      obtain ⟨hcell, hev'⟩ := hev.advance
      rw [hcell]
      by_cases htype : trbGetType e.ctrl = typeEvtXfer
      · -- the only transfer event is that of the call
        rw [if_pos htype]
        generalize hqs : q w.slot = qs at hprogress
        generalize hd : (s.xfer w.slot).done = done at hprogress
        generalize hevq : e :: evq' = events at hprogress
        cases hprogress with
        | begun _ _ _ _ _ _ hquiet =>
          exact absurd htype (hquiet e (hevq ▸ List.mem_cons_self))
        | half _ _ _ _ hquiet =>
          exact absurd htype (hquiet e (hevq ▸ List.mem_cons_self))
        | complete e₀ pre post done₀ he₀ hpre hpost =>
          cases pre with
          | cons e₁ pre =>
            obtain ⟨rfl, -⟩ := List.cons.inj hevq
            exact absurd htype (hpre e List.mem_cons_self)
          | nil =>
            obtain ⟨rfl, rfl⟩ := List.cons.inj hevq
            have hq : ∀ i, q i = [] := fun i => by
              by_cases hi : i = w.slot
              · rw [hi, hqs]
              · exact hother i hi
            have hlast : w.stage = done₀.length := by
              have hsent := (hxfer w.slot).sent
              rw [hqs, hd, List.length_append] at hsent
              simp at hsent
              omega
            refine ⟨⟨q, evq', hxfer, ⟨hev'.ring, hev'.room⟩, (phase_of_none rfl).mpr ⟨hq, hpost⟩⟩,
              fun r hr => ?_⟩
            rcases List.mem_append.mp hr with hr | hr
            · exact h.answered r hr
            · obtain rfl := List.mem_singleton.mp hr
              change (s.xfer w.slot).done[w.stage]? = some (trbGetCc e.status)
              rw [hd, hlast, List.getElem?_append_right le_rfl, Nat.sub_self]
              rfl
      · rw [if_neg htype]
        refine ⟨⟨q, evq', hxfer, ⟨hev'.ring, hev'.room⟩,
          (phase_of_some (w := { w with left := pollLimit }) rfl).mpr ⟨hother, hstage, ?_⟩⟩,
          h.answered⟩
        change Progress (q w.slot) evq' (s.xfer w.slot).done
        generalize q w.slot = qs at hprogress
        generalize (s.xfer w.slot).done = done at hprogress
        generalize hevq : e :: evq' = events at hprogress
        cases hprogress with
        | begun a b _ _ ha hb hquiet =>
          exact .begun a b _ _ ha hb fun x hx => hquiet x (hevq ▸ List.mem_cons_of_mem _ hx)
        | half b _ _ hb hquiet =>
          exact .half b _ _ hb fun x hx => hquiet x (hevq ▸ List.mem_cons_of_mem _ hx)
        | complete e₀ pre post done₀ he₀ hpre hpost =>
          cases pre with
          | nil =>
            obtain ⟨rfl, -⟩ := List.cons.inj hevq
            exact absurd he₀ htype
          | cons e₁ pre =>
            obtain ⟨rfl, rfl⟩ := List.cons.inj hevq
            exact .complete e₀ pre post done₀ he₀
              (fun x hx => hpre x (List.mem_cons_of_mem _ hx)) hpost
    · rw [if_neg hunread]
      have hleft : ¬w.left ≤ 1 := fun hle => hunread (hmeets w hw hle)
      rw [if_neg hleft]
      exact ⟨⟨q, evq, hxfer, ⟨hev.ring, hev.room⟩,
        (phase_of_some (w := { w with left := w.left - 1 }) rfl).mpr ⟨hother, hstage, hprogress⟩⟩,
        h.answered⟩

/-- Every step that meets the condition keeps the invariant. -/
lemma Inv.step {s : Hc} (h : s.Inv) {a : Step} (hmeets : s.Meets a) : (s.step a).Inv := by
  cases a with
  | call slot setup buf len => exact h.controlXfer slot setup hmeets
  | poll => exact h.poll hmeets
  | execute slot cc residual => exact h.execute slot cc residual
  | post e => exact h.post hmeets

lemma Inv.run {s : Hc} (h : s.Inv) {steps : List Step} (hmeet : s.AllMeet steps) :
    (s.run steps).Inv := by
  induction steps generalizing s with
  | nil => exact h
  | cons a steps ih => exact ih (h.step hmeet.1) hmeet.2

/-! ## Calls return -/

/-- The step is a look at the event ring. -/
def isPoll : Step → Bool
  | .poll => true
  | _ => false

@[simp] lemma setXfer_wait (s : Hc) (slot : Fin maxSlots) (x : XferRing) :
    (s.setXfer slot x).wait = s.wait := rfl

@[simp] lemma setXfer_returns (s : Hc) (slot : Fin maxSlots) (x : XferRing) :
    (s.setXfer slot x).returns = s.returns := rfl

/-- The controller neither lets a call return nor takes an event. -/
lemma execute_frame {s : Hc} {evq : List XhciTrb} (h : s.Events evq) (slot : Fin maxSlots)
    (cc : UInt8) (residual : UInt32) :
    (s.execute slot cc residual).wait = s.wait ∧ (s.execute slot cc residual).returns = s.returns ∧
      ∃ more, (s.execute slot cc residual).Events (evq ++ more) := by
  have hset : ∀ x, (s.setXfer slot x).Events evq := fun x => ⟨h.ring, h.room⟩
  have hnil : (s.Events (evq ++ [])) := by rwa [List.append_nil]
  have hset' : ∀ x, (s.setXfer slot x).Events (evq ++ []) := fun x => by
    rw [List.append_nil]
    exact hset x
  unfold Hc.execute
  dsimp only
  split_ifs with hcycle hlink htc hioc hfull
  · exact ⟨rfl, rfl, [], hnil⟩
  · exact ⟨rfl, rfl, [], hset' _⟩
  · exact ⟨rfl, rfl, [], hset' _⟩
  · exact ⟨rfl, rfl, [], hset' _⟩
  · exact ⟨rfl, rfl, [], hnil⟩
  · obtain ⟨e', -, -, hev⟩ := (hset _).post hfull (xferEvent slot _ cc residual)
    exact ⟨by simp, by simp, [e'], hev⟩

/-- Looking at the event ring does not take back what was returned. -/
lemma returns_poll_le (s : Hc) : s.returns.length ≤ s.poll.returns.length := by
  unfold Hc.poll
  cases s.wait with
  | none => exact le_rfl
  | some w =>
    have hret : ∀ (s' : Hc) (code : UInt8), s'.returns = s.returns →
        s.returns.length ≤ (s'.ret w code).returns.length := by
      intro s' code hs'
      rw [Hc.ret, hs', List.length_append]
      exact Nat.le_add_right _ _
    dsimp only
    split_ifs
    · exact hret _ _ rfl
    · exact le_rfl
    · exact hret _ _ rfl
    · exact le_rfl

/-- What was returned stays on record. -/
lemma returns_step_le {s : Hc} {evq : List XhciTrb} (h : s.Events evq) (a : Step) :
    s.returns.length ≤ (s.step a).returns.length ∧ ∃ evq', (s.step a).Events evq' := by
  cases a with
  | call slot setup buf len =>
    rw [Hc.step, Hc.controlXfer]
    by_cases hwait : s.wait.isSome
    · rw [if_pos hwait]
      exact ⟨le_rfl, evq, h⟩
    · rw [if_neg hwait]
      exact ⟨le_rfl, evq, h.ring, h.room⟩
  | poll =>
    refine ⟨returns_poll_le s, ?_⟩
    rw [Hc.step, Hc.poll]
    cases hw : s.wait with
    | none => exact ⟨evq, h⟩
    | some w =>
      dsimp only
      by_cases hunread : s.unread
      · obtain ⟨e, evq', rfl⟩ := List.exists_cons_of_ne_nil (h.unread_iff.mp hunread)
        have hev := h.advance.2
        rw [if_pos hunread]
        split_ifs
        · exact ⟨evq', hev.ring, hev.room⟩
        · exact ⟨evq', hev.ring, hev.room⟩
      · rw [if_neg hunread]
        split_ifs
        · exact ⟨evq, h.ring, h.room⟩
        · exact ⟨evq, h.ring, h.room⟩
  | execute slot cc residual =>
    obtain ⟨-, hreturns, more, hev⟩ := execute_frame h slot cc residual
    exact ⟨hreturns.symm ▸ le_rfl, _, hev⟩
  | post e =>
    refine ⟨(post_returns s e).symm ▸ le_rfl, ?_⟩
    by_cases hfull : s.evtFull
    · rw [Hc.step, Hc.post, if_pos hfull]
      exact ⟨evq, h⟩
    · obtain ⟨e', -, -, hev⟩ := h.post hfull e
      exact ⟨_, hev⟩

lemma returns_run_le {s : Hc} {evq : List XhciTrb} (h : s.Events evq) (steps : List Step) :
    s.returns.length ≤ (s.run steps).returns.length := by
  induction steps generalizing s evq with
  | nil => exact le_rfl
  | cons a steps ih =>
    obtain ⟨hle, evq', hev⟩ := returns_step_le h a
    exact hle.trans (ih hev)

/-- A call returns when it comes to a transfer event, whatever else happens meanwhile. -/
lemma returns_of_event {s : Hc} {evq : List XhciTrb} (h : s.Events evq) {w : Wait}
    (hw : s.wait = some w) {n : ℕ} {e : XhciTrb} (he : evq[n]? = some e)
    (htype : trbGetType e.ctrl = typeEvtXfer) (steps : List Step) (hn : n < steps.countP isPoll) :
    s.returns.length < (s.run steps).returns.length := by
  induction steps generalizing s evq w n with
  | nil => exact absurd hn (Nat.not_lt_zero n)
  | cons a steps ih =>
    have hlt : n < evq.length := (List.getElem?_eq_some_iff.mp he).1
    have hgrow : ∀ more, (evq ++ more)[n]? = some e := fun more => by
      rw [List.getElem?_append_left hlt, he]
    cases a with
    | call slot setup buf len =>
      have hstay : s.step (.call slot setup buf len) = s := if_pos (by rw [hw]; rfl)
      change s.returns.length < ((s.step _).run steps).returns.length
      rw [hstay]
      exact ih h hw he (by simpa [isPoll] using hn)
    | poll =>
      obtain ⟨e₀, evq', rfl⟩ := List.exists_cons_of_ne_nil (List.ne_nil_of_length_pos
        (lt_of_le_of_lt (Nat.zero_le n) hlt))
      obtain ⟨hcell, hev⟩ := h.advance
      have hunread : s.unread := h.unread_iff.mpr (List.cons_ne_nil _ _)
      have hpoll : s.step .poll = if trbGetType e₀.ctrl = typeEvtXfer then
          s.advance.ret w (trbGetCc e₀.status)
          else { s.advance with wait := some { w with left := pollLimit } } := by
        rw [Hc.step, Hc.poll, hw]
        dsimp only
        rw [if_pos hunread, hcell]
      change s.returns.length < ((s.step .poll).run steps).returns.length
      by_cases hhead : trbGetType e₀.ctrl = typeEvtXfer
      · rw [hpoll, if_pos hhead]
        have hev' : (s.advance.ret w (trbGetCc e₀.status)).Events evq' := ⟨hev.ring, hev.room⟩
        refine lt_of_lt_of_le ?_ (returns_run_le hev' steps)
        change s.returns.length < (s.returns ++ [_]).length
        rw [List.length_append]
        exact Nat.lt_succ_self _
      · rw [hpoll, if_neg hhead]
        cases n with
        | zero =>
          obtain rfl : e₀ = e := by simpa using he
          exact absurd htype hhead
        | succ n =>
          have hcount : n < steps.countP isPoll := by
            rw [List.countP_cons_of_pos rfl] at hn
            omega
          exact ih (s := { s.advance with wait := some { w with left := pollLimit } })
            ⟨hev.ring, hev.room⟩ rfl (by simpa using he) hcount
    | execute slot cc residual =>
      obtain ⟨hwait, hreturns, more, hev⟩ := execute_frame h slot cc residual
      have := ih hev (hwait.trans hw) (hgrow more) (by simpa [isPoll] using hn)
      rwa [hreturns] at this
    | post e' =>
      have hcount : n < steps.countP isPoll := by simpa [isPoll] using hn
      by_cases hfull : s.evtFull
      · have hstay : s.step (.post e') = s := if_pos hfull
        change s.returns.length < ((s.step _).run steps).returns.length
        rw [hstay]
        exact ih h hw he hcount
      · obtain ⟨e'', -, -, hev⟩ := h.post hfull e'
        have := ih hev ((post_wait s e').trans hw) (hgrow _) hcount
        rwa [post_returns] at this

/-- The event of a completed status stage is on the event ring until the call takes it. -/
lemma Inv.event {s : Hc} (h : s.Inv) {w : Wait} (hw : s.wait = some w)
    (hdone : w.stage < (s.xfer w.slot).done.length) :
    ∃ (evq : List XhciTrb) (n : ℕ) (e : XhciTrb), s.Events evq ∧ n < ringSize ∧
      evq[n]? = some e ∧ trbGetType e.ctrl = typeEvtXfer := by
  obtain ⟨q, evq, hxfer, hev, hphase⟩ := h.queues
  obtain ⟨-, hstage, hprogress⟩ := (phase_of_some hw).mp hphase
  have hsent := (hxfer w.slot).sent
  generalize q w.slot = qs at hprogress hsent
  generalize (s.xfer w.slot).done = done at hprogress hsent hdone
  cases hprogress with
  | begun a b _ _ _ _ _ =>
    simp only [List.length_cons, List.length_nil] at hsent
    omega
  | half b _ _ _ _ =>
    simp only [List.length_cons, List.length_nil] at hsent
    omega
  | complete e pre post done₀ he _ _ =>
    have hroom := hev.room
    rw [List.length_append] at hroom
    refine ⟨_, pre.length, e, hev, by omega, ?_, he⟩
    rw [List.getElem?_append_right le_rfl, Nat.sub_self]
    rfl

/-- **Control transfers see their own completion.**  In every run without data phases, without
transfer events of other endpoints and without calls that give up, every call that has returned has
returned the completion code of the status stage it put on the ring itself, which is completed; and
a call whose status stage is completed returns before it has looked at the event ring
`XHCI_RING_SIZE` more times. -/
theorem run_answered (addr : Fin maxSlots → UInt64) (evtAddr : UInt64) (steps : List Step)
    (h : (init addr evtAddr).AllMeet steps) :
    ((init addr evtAddr).run steps).Answered ∧
      ∀ w, ((init addr evtAddr).run steps).wait = some w →
        w.stage < (((init addr evtAddr).run steps).xfer w.slot).done.length →
        ∀ more : List Step, ringSize ≤ more.countP isPoll →
          ((init addr evtAddr).run steps).returns.length <
            (((init addr evtAddr).run steps).run more).returns.length := by
  have hinv := (inv_init addr evtAddr).run h
  refine ⟨hinv.answered, fun w hw hdone more hmore => ?_⟩
  obtain ⟨evq, n, e, hev, hn, he, htype⟩ := hinv.event hw hdone
  exact returns_of_event hev hw he htype more (lt_of_lt_of_le hn hmore)

/-- The slot with number 1. -/
def firstSlot : Fin maxSlots := ⟨0, by decide⟩

/-- `SET_CONFIGURATION`, carried out before the driver looks at the event ring. -/
def setConfiguration : List Step :=
  [.call firstSlot ⟨0, 9, 1, 0, 0⟩ 0 0, .execute firstSlot 1 0, .execute firstSlot 1 0, .poll]

/-- `run_answered` for `SET_CONFIGURATION`. -/
theorem run_answered_setConfiguration :
    ((init (fun _ => 0) 0).run setConfiguration).Answered := by
  refine (run_answered (fun _ => 0) 0 setConfiguration ?_).1
  exact ⟨Or.inl rfl, trivial, trivial, fun _ _ _ => (by decide +kernel), trivial⟩

/-- A call with a data phase returns what its data stage completes with, before its status stage
does. -/
theorem not_run_answered_data :
    ¬∀ (addr : Fin maxSlots → UInt64) (evtAddr : UInt64) (steps : List Step),
      ((init addr evtAddr).run steps).Answered := by
  intro h
  have hrun := h (fun _ => 0) 0
    [.call firstSlot ⟨0x80, 6, 0x100, 0, 8⟩ 0x1000 8, .execute firstSlot 1 0,
      .execute firstSlot 1 0, .poll]
    ⟨firstSlot, 2, 1⟩ (List.mem_singleton.mpr rfl)
  exact absurd hrun (by decide +kernel)

end Hc

end CoolFrost
