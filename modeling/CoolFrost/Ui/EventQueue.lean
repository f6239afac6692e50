import CoolFrost.Ui.Event

/-!
# What the event queue delivers

The free-running indices of the event queue are those of a ring buffer of `evqCap` cells.  From this
every run delivers what was accepted, in order and once, and refuses an event only when `evqCap`
events are waiting.

The presses and releases of a button alternate in what is accepted as long as the last edge accepted
agrees with the remembered button mask; a report whose edges all fit keeps that true.
-/

namespace CoolFrost

namespace EventQueue

variable {q : EventQueue}

/-- The queue as a ring buffer. -/
def ring (q : EventQueue) : RingBuf Event where
  buf := q.evq
  head := (q.evqHead &&& 127).toNat
  tail := (q.evqTail &&& 127).toNat
  size := (q.evqTail - q.evqHead).toNat

/-- The events waiting, the oldest first. -/
def pending (q : EventQueue) : List Event := q.ring.toList evqCap

lemma toNat_and_127 (n : UInt32) : (n &&& 127).toNat = n.toNat % 128 := by
  rw [UInt32.toNat_and]
  exact Nat.and_two_pow_sub_one_eq_mod n.toNat 7

lemma length_pending (q : EventQueue) : q.pending.length = (q.evqTail - q.evqHead).toNat :=
  RingBuf.length_toList evqCap q.ring

/-- Pushing is pushing on the ring buffer. -/
lemma ring_evqPush (q : EventQueue) (ev : Event) : (q.evqPush ev).ring = q.ring.push evqCap ev := by
  unfold evqPush RingBuf.push
  by_cases h : evqCap ≤ (q.evqTail - q.evqHead).toNat
  · rw [if_pos h, if_pos (show evqCap ≤ q.ring.size from h)]
  · rw [if_neg h, if_neg (show ¬evqCap ≤ q.ring.size from h)]
    simp only [ring, RingBuf.mk.injEq, toNat_and_127, true_and]
    have ht := q.evqTail.toNat_lt
    have hh := q.evqHead.toNat_lt
    simp only [evqCap, UInt32.toNat_sub, UInt32.toNat_add, UInt32.reduceToNat] at h ⊢
    constructor <;> omega

/-- Polling is popping from the ring buffer. -/
lemma ring_eventPoll (q : EventQueue) :
    q.ring.pop evqCap = match q.eventPoll with
      | (none, _) => none
      | (some ev, q') => some (ev, q'.ring) := by
  unfold eventPoll RingBuf.pop
  have ht := q.evqTail.toNat_lt
  have hh := q.evqHead.toNat_lt
  by_cases h : q.evqHead = q.evqTail
  · have hsize : q.ring.size = 0 := by simp [ring, h]
    rw [if_pos hsize]
    simp [h]
  · have hne : q.evqHead.toNat ≠ q.evqTail.toNat := fun he => h (UInt32.toNat_inj.mp he)
    have hsize : q.ring.size ≠ 0 := by
      simp only [ring, UInt32.toNat_sub]
      omega
    rw [if_neg hsize]
    simp only [ne_eq, h, not_false_eq_true, if_true, ring, Option.some.injEq, Prod.mk.injEq,
      RingBuf.mk.injEq, true_and, toNat_and_127]
    simp only [evqCap, UInt32.toNat_sub, UInt32.toNat_add, UInt32.reduceToNat]
    constructor <;> omega

/-- A push is refused when `evqCap` events are waiting. -/
lemma evqPush_of_full {ev : Event} (h : evqCap ≤ q.pending.length) : q.evqPush ev = q := by
  rw [length_pending] at h
  exact if_pos h

/-- Otherwise the event goes to the end of the queue. -/
lemma evqPush_of_room (hq : q.ring.Ok evqCap) (ev : Event) (h : q.pending.length < evqCap) :
    (q.evqPush ev).ring.Ok evqCap ∧ (q.evqPush ev).pending = q.pending ++ [ev] ∧
      (q.evqPush ev).evqTail ≠ q.evqTail := by
  have hsize : q.ring.size < evqCap := by
    rwa [length_pending] at h
  refine ⟨?_, ?_, ?_⟩
  · rw [ring_evqPush]
    exact RingBuf.push_ok hq hsize ev
  · rw [pending, ring_evqPush]
    exact RingBuf.toList_push hq hsize ev
  · rw [evqPush, if_neg (by rw [length_pending] at h; omega)]
    intro heq
    have htail := UInt32.toNat_inj.mpr heq
    simp only [UInt32.toNat_add, UInt32.reduceToNat] at htail
    have := q.evqTail.toNat_lt
    omega

/-- An empty queue has nothing to poll. -/
lemma pending_of_eventPoll_none {q' : EventQueue} (h : q.eventPoll = (none, q')) :
    q' = q ∧ q.pending = [] := by
  have hring := ring_eventPoll q
  rw [h] at hring
  refine ⟨?_, RingBuf.pop_eq_none.mp hring⟩
  rw [eventPoll] at h
  split_ifs at h
  · exact absurd (Prod.mk.inj h).1 (by simp)
  · exact (Prod.mk.inj h).2.symm

/-- A poll takes the oldest event. -/
lemma pending_of_eventPoll_some (hq : q.ring.Ok evqCap) {ev : Event} {q' : EventQueue}
    (h : q.eventPoll = (some ev, q')) :
    q'.ring.Ok evqCap ∧ q.pending = ev :: q'.pending ∧ q'.lastButtons = q.lastButtons := by
  have hring := ring_eventPoll q
  rw [h] at hring
  obtain ⟨hok, hlist⟩ := RingBuf.pop_eq_some hq hring
  refine ⟨hok, hlist, ?_⟩
  rw [eventPoll] at h
  split_ifs at h
  · obtain ⟨-, rfl⟩ := Prod.mk.inj h
    rfl
  · exact absurd (Prod.mk.inj h).1 (by simp)

@[simp] lemma lastButtons_evqPush (q : EventQueue) (ev : Event) :
    (q.evqPush ev).lastButtons = q.lastButtons := by
  unfold evqPush
  split <;> rfl

end EventQueue

namespace EventHistory

open EventQueue

/-! ## A bounded queue -/

/-- The queue is first in, first out, and refuses an event only when it is full. -/
structure Fifo (h : EventHistory) : Prop where
  ring_ok : h.queue.ring.Ok evqCap
  /-- What was accepted has been delivered, in order and once, or is waiting. -/
  in_order : h.accepted = h.delivered ++ h.queue.pending
  /-- What was refused was refused because `evqCap` events were waiting. -/
  dropped_full : ∀ o ∈ h.offers, o.taken = false → o.waiting = evqCap

variable {h : EventHistory}

/-- An event is put on record as taken or as refused. -/
lemma accepted_push (h : EventHistory) (ev : Event) :
    (h.push ev).accepted =
      if (h.queue.evqPush ev).evqTail = h.queue.evqTail then h.accepted
          else h.accepted ++ [ev] := by
  unfold accepted push
  rw [List.filter_append, List.map_append]
  split_ifs with htail <;> simp [htail]

/-- An event that finds room is accepted. -/
lemma accepted_push_of_room (hf : h.Fifo) (ev : Event) (hroom : h.queue.pending.length < evqCap) :
    (h.push ev).accepted = h.accepted ++ [ev] ∧
      (h.push ev).queue.pending.length = h.queue.pending.length + 1 := by
  obtain ⟨-, hlist, htail⟩ := evqPush_of_room hf.ring_ok ev hroom
  rw [accepted_push, if_neg htail]
  refine ⟨rfl, ?_⟩
  change (h.queue.evqPush ev).pending.length = _
  simp [hlist]

/-- An event that finds no room leaves the queue as it is. -/
lemma accepted_push_of_full {ev : Event} (hfull : evqCap ≤ h.queue.pending.length) :
    (h.push ev).accepted = h.accepted := by
  rw [accepted_push, if_pos (by rw [evqPush_of_full hfull])]

lemma fifo_push (hf : h.Fifo) (ev : Event) : (h.push ev).Fifo := by
  have hwaiting : h.accepted.length - h.delivered.length = h.queue.pending.length := by
    rw [hf.in_order, List.length_append]
    omega
  by_cases hroom : h.queue.pending.length < evqCap
  · obtain ⟨hok, hlist, htail⟩ := evqPush_of_room hf.ring_ok ev hroom
    refine ⟨hok, ?_, ?_⟩
    · rw [(accepted_push_of_room hf ev hroom).1, hf.in_order, List.append_assoc]
      exact congrArg (h.delivered ++ ·) hlist.symm
    · intro o ho hno
      rcases List.mem_append.mp ho with ho | ho
      · exact hf.dropped_full o ho hno
      · obtain rfl := List.mem_singleton.mp ho
        exact absurd hno (by simp [htail])
  · have hfull : evqCap ≤ h.queue.pending.length := Nat.le_of_not_lt hroom
    have hcap : h.queue.pending.length = evqCap := by
      have hle := hf.ring_ok.size_le
      rw [length_pending] at hfull ⊢
      exact Nat.le_antisymm hle hfull
    have hsame : (h.push ev).queue = h.queue := evqPush_of_full hfull
    refine ⟨by rw [hsame]; exact hf.ring_ok, ?_, ?_⟩
    · rw [accepted_push_of_full hfull, hsame]
      exact hf.in_order
    · intro o ho hno
      rcases List.mem_append.mp ho with ho | ho
      · exact hf.dropped_full o ho hno
      · obtain rfl := List.mem_singleton.mp ho
        exact hwaiting.trans hcap

lemma fifo_foldl_push (hf : h.Fifo) (l : List Event) : (l.foldl push h).Fifo := by
  induction l generalizing h with
  | nil => exact hf
  | cons ev l ih => exact ih (fifo_push hf ev)

lemma fifo_step (hf : h.Fifo) (op : EventOp) : (h.step op).Fifo := by
  cases op with
  | pushKey scancode down ch => exact fifo_push hf _
  | pushMouse x y buttons =>
    obtain ⟨hok, hin, hdrop⟩ := fifo_foldl_push hf (h.queue.mouseEvents x y buttons)
    exact ⟨hok, hin, hdrop⟩
  | poll hit =>
    unfold step
    rcases hpoll : h.queue.eventPoll with ⟨_ | ev, q'⟩
    · obtain ⟨rfl, -⟩ := pending_of_eventPoll_none hpoll
      exact hf
    · obtain ⟨hok, hlist, -⟩ := pending_of_eventPoll_some hf.ring_ok hpoll
      refine ⟨hok, ?_, hf.dropped_full⟩
      change h.accepted = h.delivered ++ [ev] ++ q'.pending
      rw [hf.in_order, hlist, List.append_assoc]
      rfl

lemma fifo_start (evq : ℕ → Event) : (start evq).Fifo := by
  have hring : (start evq).queue.ring = ⟨evq, 0, 0, 0⟩ := by simp [start, eventInit, ring]
  refine ⟨?_, ?_, ?_⟩
  · rw [hring]
    exact ⟨Nat.succ_pos _, Nat.zero_le _, rfl⟩
  · rw [pending, hring]
    rfl
  · intro o ho
    cases ho

lemma fifo_run (hf : h.Fifo) (ops : List EventOp) : (h.run ops).Fifo := by
  induction ops generalizing h with
  | nil => exact hf
  | cons op ops ih => exact ih (fifo_step hf op)

/-! ## Presses and releases -/

/-- The event is a press or a release of the button. -/
def isEdge (b : MouseButton) (ev : Event) : Bool :=
  (ev.type = .mouseDown ∨ ev.type = .mouseUp) ∧ ev.code = b.bit

/-- The presses (`true`) and releases (`false`) of a button in a list of events. -/
def edges (b : MouseButton) (l : List Event) : List Bool :=
  (l.filter (isEdge b)).map fun ev => ev.type = .mouseDown

/-- The button is held after the presses and releases of a list of events. -/
def held (b : MouseButton) (l : List Event) : Bool := (edges b l).getLast?.getD false

/-- Presses and releases strictly alternate, starting with a press. -/
def Alternates (l : List Bool) : Prop := (false :: l).IsChain (· ≠ ·)

/-- The button is down in the last report of the mouse. -/
def isDown (b : MouseButton) (buttons : UInt8) : Bool := buttons &&& b.bit ≠ 0

lemma edges_append (b : MouseButton) (l l' : List Event) :
    edges b (l ++ l') = edges b l ++ edges b l' := by
  simp [edges]

/-- Events that are no edges of the button change nothing. -/
lemma edges_eq_nil {b : MouseButton} {l : List Event} (h : ∀ ev ∈ l, isEdge b ev = false) :
    edges b l = [] := by
  rw [edges, List.filter_eq_nil_iff.mpr fun ev hev => by simp [h ev hev]]
  rfl

lemma alternates_of_prefix {l l' : List Bool} (h : Alternates (l ++ l')) : Alternates l :=
  (List.isChain_append.mp (show ((false :: l) ++ l').IsChain (· ≠ ·) from h)).1

/-- One more edge keeps the alternation when it is not the state that the button is in. -/
lemma alternates_append {l : List Bool} {e : Bool} (h : Alternates l)
    (he : l.getLast?.getD false ≠ e) : Alternates (l ++ [e]) := by
  refine List.isChain_append.mpr ⟨h, List.isChain_singleton e, ?_⟩
  intro x hx y hy
  rw [List.getLast?_cons] at hx
  obtain rfl : l.getLast?.getD false = x := by simpa using hx
  obtain rfl : e = y := by simpa using hy
  exact he

lemma held_append {b : MouseButton} {l l' : List Event} (h : edges b l' = []) :
    held b (l ++ l') = held b l := by
  rw [held, edges_append, h, List.append_nil]
  rfl

/-- The bits of the buttons, one at a time. -/
lemma and_bit (b : MouseButton) (m : UInt8) : m &&& b.bit = 0 ∨ m &&& b.bit = b.bit := by
  have hall : ∀ i : Fin 256, UInt8.ofFin i &&& b.bit = 0 ∨ UInt8.ofFin i &&& b.bit = b.bit := by
    cases b <;> decide +kernel
  exact hall m.toFin

/-- A bit of the difference of two masks says whether the button has changed. -/
lemma changed_iff (b : MouseButton) (m m' : UInt8) :
    (m ^^^ m') &&& b.bit ≠ 0 ↔ isDown b m ≠ isDown b m' := by
  have hb : b.bit ≠ 0 := by cases b <;> decide
  have hxor : (m ^^^ m') &&& b.bit = (m &&& b.bit) ^^^ (m' &&& b.bit) :=
    UInt8.toNat_inj.mp (by simp [Nat.and_xor_distrib_right])
  rw [hxor, isDown, isDown]
  rcases and_bit b m with hm | hm <;> rcases and_bit b m' with hm' | hm' <;>
    rw [hm, hm'] <;> simp [hb]

/-- A mouse report has one edge for each button that has changed, and no other one. -/
lemma edges_mouseEvents (q : EventQueue) (x y : Int32) (buttons : UInt8) (b : MouseButton) :
    edges b (q.mouseEdges x y buttons) =
        (if isDown b buttons ≠ isDown b q.lastButtons then [isDown b buttons] else []) ∧
      edges b (q.mouseMoves x y buttons) = [] := by
  constructor
  · rw [edges, mouseEdges, List.filter_map, List.map_map, List.filter_filter]
    have hcode : ∀ bit, (isEdge b ∘ edgeEvent x y buttons) bit = decide (bit = b.bit) := by
      intro bit
      simp only [isEdge, Function.comp_apply, edgeEvent]
      by_cases h : buttons &&& bit = 0 <;> simp [h]
    have hdown : ∀ bit, ((fun ev : Event => decide (ev.type = .mouseDown)) ∘
        edgeEvent x y buttons) bit = decide (buttons &&& bit ≠ 0) := by
      intro bit
      simp only [Function.comp_apply, edgeEvent]
      by_cases h : buttons &&& bit = 0 <;> simp [h]
    have hfilter : ([1, 2, 4].filter fun bit => decide (bit = b.bit) &&
        decide ((buttons ^^^ q.lastButtons) &&& bit ≠ 0)) =
        if (buttons ^^^ q.lastButtons) &&& b.bit ≠ 0 then [b.bit] else [] := by
      by_cases hc : (buttons ^^^ q.lastButtons) &&& b.bit = 0
      · rw [if_neg (not_not.mpr hc)]
        cases b <;> simp_all [MouseButton.bit]
      · rw [if_pos hc]
        cases b <;> simp_all [MouseButton.bit]
    simp only [hcode, hfilter, ← changed_iff]
    split_ifs
    · rw [List.map_singleton, hdown]
      rfl
    · rfl
  · refine edges_eq_nil fun ev hev => ?_
    unfold mouseMoves at hev
    split_ifs at hev
    · obtain rfl := List.mem_singleton.mp hev
      rfl
    · cases hev

/-- A key event is no edge of a button. -/
lemma edges_keyEvent (q : EventQueue) (scancode : UInt8) (down : Bool) (ch : UInt8)
    (b : MouseButton) : edges b [q.keyEvent scancode down ch] = [] := by
  refine edges_eq_nil fun ev hev => ?_
  obtain rfl := List.mem_singleton.mp hev
  cases down <;> rfl

/-! ## Runs with room for the edges -/

/-- What has been accepted agrees with the remembered button mask. -/
def Tracks (h : EventHistory) : Prop :=
  ∀ b, Alternates (edges b h.accepted) ∧ held b h.accepted = isDown b h.queue.lastButtons

/-- There is room for the edges of a mouse report. -/
def Fits (h : EventHistory) : EventOp → Prop
  | .pushMouse x y buttons =>
    h.queue.pending.length + (h.queue.mouseEdges x y buttons).length ≤ evqCap
  | _ => True

/-- Every mouse report of a run finds room for its edges. -/
def EdgesFit : EventHistory → List EventOp → Prop
  | _, [] => True
  | h, op :: ops => h.Fits op ∧ EdgesFit (h.step op) ops

/-- Pushing accepts a part of what is offered. -/
lemma accepted_foldl_push (l : List Event) :
    ∃ l', l'.Sublist l ∧ (l.foldl push h).accepted = h.accepted ++ l' ∧
      (l.foldl push h).queue.lastButtons = h.queue.lastButtons := by
  induction l generalizing h with
  | nil => exact ⟨[], List.Sublist.refl _, (List.append_nil _).symm, rfl⟩
  | cons ev l ih =>
    obtain ⟨l', hsub, hacc, hlast⟩ := ih (h := h.push ev)
    have hlast' : (h.push ev).queue.lastButtons = h.queue.lastButtons := lastButtons_evqPush _ _
    rw [accepted_push] at hacc
    split_ifs at hacc with htail
    · exact ⟨l', hsub.cons ev, hacc, hlast.trans hlast'⟩
    · refine ⟨ev :: l', hsub.cons_cons ev, ?_, hlast.trans hlast'⟩
      rw [List.append_assoc] at hacc
      exact hacc

/-- Events that all find room are all accepted. -/
lemma accepted_foldl_push_of_room (hf : h.Fifo) (l : List Event)
    (hroom : h.queue.pending.length + l.length ≤ evqCap) :
    (l.foldl push h).accepted = h.accepted ++ l := by
  induction l generalizing h with
  | nil => exact (List.append_nil _).symm
  | cons ev l ih =>
    rw [List.length_cons] at hroom
    obtain ⟨hacc, hlen⟩ := accepted_push_of_room hf ev (by omega)
    rw [List.foldl_cons, ih (fifo_push hf ev) (by omega), hacc, List.append_assoc]
    rfl

/-- Accepting events that are no edges keeps the agreement. -/
lemma tracks_of_append {h' : EventHistory} (ht : h.Tracks) {l : List Event}
    (hl : ∀ b, edges b l = []) (hacc : h'.accepted = h.accepted ++ l)
    (hlast : h'.queue.lastButtons = h.queue.lastButtons) : h'.Tracks := by
  intro b
  obtain ⟨halt, hheld⟩ := ht b
  rw [hacc, held_append (hl b), hlast, edges_append, hl b, List.append_nil]
  exact ⟨halt, hheld⟩

/-- A part of a list without edges has none. -/
lemma edges_of_sublist {b : MouseButton} {l l' : List Event} (hsub : l'.Sublist l)
    (h : edges b l = []) : edges b l' = [] := by
  have hsub' : (edges b l').Sublist (edges b l) := (hsub.filter _).map _
  rw [h] at hsub'
  exact List.sublist_nil.mp hsub'

/-- A mouse report whose edges fit keeps the agreement. -/
lemma tracks_pushMouse (hf : h.Fifo) (ht : h.Tracks) {x y : Int32} {buttons : UInt8}
    (hfit : h.Fits (.pushMouse x y buttons)) : (h.step (.pushMouse x y buttons)).Tracks := by
  have hedges := accepted_foldl_push_of_room hf _ hfit
  obtain ⟨l', hsub, hacc, -⟩ := accepted_foldl_push
    (h := (h.queue.mouseEdges x y buttons).foldl push h) (h.queue.mouseMoves x y buttons)
  rw [hedges, ← List.foldl_append] at hacc
  intro b
  obtain ⟨hone, hmoves⟩ := edges_mouseEvents h.queue x y buttons b
  obtain ⟨halt, hheld⟩ := ht b
  change Alternates (edges b (EventHistory.accepted _)) ∧
    held b (EventHistory.accepted _) = isDown b buttons
  change (EventHistory.accepted (List.foldl push h (h.queue.mouseEvents x y buttons))) = _ at hacc
  have hacc' : (h.step (.pushMouse x y buttons)).accepted =
      h.accepted ++ h.queue.mouseEdges x y buttons ++ l' := hacc
  rw [hacc', held_append (edges_of_sublist hsub hmoves), edges_append, edges_append,
    edges_of_sublist hsub hmoves, List.append_nil, held, edges_append, hone]
  split_ifs with hchanged
  · refine ⟨alternates_append halt ?_, by simp⟩
    rw [show (edges b h.accepted).getLast?.getD false = isDown b h.queue.lastButtons from hheld]
    exact Ne.symm hchanged
  · rw [List.append_nil]
    exact ⟨halt, hheld.trans (not_not.mp hchanged).symm⟩

lemma tracks_step (hf : h.Fifo) (ht : h.Tracks) {op : EventOp} (hfit : h.Fits op) :
    (h.step op).Tracks := by
  cases op with
  | pushKey scancode down ch =>
    obtain ⟨l', hsub, hacc, hlast⟩ := accepted_foldl_push (h := h)
      [h.queue.keyEvent scancode down ch]
    exact tracks_of_append ht
      (fun b => edges_of_sublist hsub (edges_keyEvent h.queue scancode down ch b)) hacc hlast
  | pushMouse x y buttons => exact tracks_pushMouse hf ht hfit
  | poll hit =>
    unfold step
    rcases hpoll : h.queue.eventPoll with ⟨_ | ev, q'⟩
    · obtain ⟨rfl, -⟩ := pending_of_eventPoll_none hpoll
      exact ht
    · obtain ⟨-, -, hlast⟩ := pending_of_eventPoll_some hf.ring_ok hpoll
      exact tracks_of_append ht (l := []) (fun _ => rfl) (List.append_nil _).symm hlast

lemma tracks_start (evq : ℕ → Event) : (start evq).Tracks := by
  intro b
  refine ⟨List.isChain_singleton _, ?_⟩
  change held b [] = isDown b 0
  cases b <;> decide

lemma tracks_run (hf : h.Fifo) (ht : h.Tracks) {ops : List EventOp} (hfit : h.EdgesFit ops) :
    (h.run ops).Tracks := by
  induction ops generalizing h with
  | nil => exact ht
  | cons op ops ih => exact ih (fifo_step hf op) (tracks_step hf ht hfit.1) hfit.2

/-! ## The drag state -/

/-- The window manager drags only while the last left edge it was given is a press. -/
def DragHeld (h : EventHistory) : Prop := h.drag ≠ .none → held .left h.delivered = true

lemma dragHeld_poll {drag : DragMode} {delivered : List Event}
    (hd : drag ≠ .none → held .left delivered = true) (hit : WinHit) (ev : Event)
    (hdrag : drag.onEvent hit ev ≠ .none) : held .left (delivered ++ [ev]) = true := by
  by_cases hedge : isEdge .left ev
  · rw [held, edges_append]
    have hone : edges .left [ev] = [decide (ev.type = .mouseDown)] := by simp [edges, hedge]
    rw [hone, List.getLast?_concat, Option.getD_some, decide_eq_true_iff]
    obtain ⟨htype | htype, hcode⟩ : (ev.type = .mouseDown ∨ ev.type = .mouseUp) ∧
      ev.code = MouseButton.left.bit := by simpa [isEdge] using hedge
    · exact htype
    · exact absurd (by simp [DragMode.onEvent, htype, hcode]) hdrag
  · have hnil : edges .left [ev] = [] := edges_eq_nil (by simpa using hedge)
    rw [held_append hnil]
    refine hd fun hnone => hdrag ?_
    have hcode : ev.type = .mouseDown → ev.code ≠ MouseButton.left.bit :=
      fun htype hcode => hedge (by simp [isEdge, htype, hcode])
    unfold DragMode.onEvent
    split
    · rename_i htype
      rw [if_pos (hcode htype)]
      exact hnone
    · split_ifs <;> first | rfl | exact hnone
    · exact hnone

lemma dragHeld_foldl_push (hd : h.DragHeld) (l : List Event) : (l.foldl push h).DragHeld := by
  induction l generalizing h with
  | nil => exact hd
  | cons ev l ih => exact ih (h := h.push ev) hd

lemma dragHeld_step (hd : h.DragHeld) (op : EventOp) : (h.step op).DragHeld := by
  cases op with
  | pushKey scancode down ch => exact hd
  | pushMouse x y buttons => exact dragHeld_foldl_push hd (h.queue.mouseEvents x y buttons)
  | poll hit =>
    unfold step
    rcases h.queue.eventPoll with ⟨_ | ev, q'⟩
    · exact hd
    · exact dragHeld_poll hd hit ev

lemma dragHeld_run (hd : h.DragHeld) (ops : List EventOp) : (h.run ops).DragHeld := by
  induction ops generalizing h with
  | nil => exact hd
  | cons op ops ih => exact ih (dragHeld_step hd op)

/-- Each button is pressed and released in turn, and once everything has been polled and the left
button is up, nothing is dragged. -/
structure ButtonsFaithful (h : EventHistory) : Prop where
  alternate : ∀ b, Alternates (edges b h.delivered)
  drag_ends : h.queue.pending = [] → isDown .left h.queue.lastButtons = false → h.drag = .none

/-- In every run the queue delivers what it accepted, in order and once, and refuses an event only
when it is full; in a run in which the edges of every mouse report fit, the button events that the
window manager gets are those of buttons that are pressed and released in turn. -/
theorem run_faithful (evq : ℕ → Event) (ops : List EventOp) :
    ((start evq).run ops).Fifo ∧
      ((start evq).EdgesFit ops → ((start evq).run ops).ButtonsFaithful) := by
  have hf : ((start evq).run ops).Fifo := fifo_run (fifo_start evq) ops
  refine ⟨hf, fun hfit => ⟨fun b => ?_, fun hempty hup => ?_⟩⟩
  · obtain ⟨halt, -⟩ := tracks_run (fifo_start evq) (tracks_start evq) hfit b
    rw [hf.in_order, edges_append] at halt
    exact alternates_of_prefix halt
  · obtain ⟨-, hheld⟩ := tracks_run (fifo_start evq) (tracks_start evq) hfit .left
    rw [hf.in_order, hempty, List.append_nil, hup] at hheld
    by_contra hdrag
    have hpressed := dragHeld_run (h := start evq) (fun hne => absurd rfl hne) ops hdrag
    rw [hheld] at hpressed
    cases hpressed

/-- A click on a title bar, polled as it comes. -/
theorem run_faithful_click :
    ((start fun _ => ⟨.none, 0, 0, 0, 0, 0⟩).run
      [.pushMouse 5 5 1, .poll .title, .poll .none, .pushMouse 5 5 0,
      .poll .none]).ButtonsFaithful :=
  (run_faithful _ _).2 (by simp only [EdgesFit, Fits]; decide)

/-- The left button goes down on a title bar, keys fill the queue, and the release finds no room. -/
def overflowOps : List EventOp :=
  [[.pushMouse 5 5 1], .replicate 126 (.pushKey 0x1e true 0x61), [.pushMouse 5 5 0],
    .replicate 128 (.poll .title), [.pushMouse 5 5 1, .poll .title]].flatten

/-- The release that found no room is remembered but not delivered, so that the drag outlives it and
the next press follows a press. -/
theorem not_run_faithful_overflow :
    ∃ ops, ¬((start fun _ => ⟨.none, 0, 0, 0, 0, 0⟩).run ops).ButtonsFaithful := by
  refine ⟨overflowOps, fun h => ?_⟩
  have hpresses : edges .left ((start fun _ => ⟨.none, 0, 0, 0, 0, 0⟩).run overflowOps).delivered =
      [true, true] := by decide +kernel
  have halt := h.alternate .left
  rw [hpresses] at halt
  exact absurd halt (by unfold Alternates; decide)

end EventHistory

end CoolFrost
