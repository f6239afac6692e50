import CoolFrost.Lib.RingBuffer

/-!
# The input event queue

The queue of `ui/event.c` between the input drivers and the window manager.  Its read and write
indices run freely modulo `2 ^ 32`, and the edges of the mouse buttons are derived from the button
mask of the previous report, which is remembered whether or not the events fitted into the queue.

A `History` is a run of the system seen from outside: every event that was offered to the queue,
what the consumer got, and the drag state that `wm_run` (`user/wm.c`) derives from it.  The queue is
a bounded first-in first-out queue in every run; the presses and releases of a button alternate as
long as there is room for the edges of each mouse report.
-/

namespace CoolFrost

/-- `event_type_t`. -/
inductive EventType where
  | none
  | keyDown
  | keyUp
  | mouseMove
  | mouseDown
  | mouseUp
  deriving DecidableEq, Repr

/-- `event_t`. -/
structure Event where
  type : EventType
  code : UInt8
  ch : UInt8
  buttons : UInt8
  x : Int32
  y : Int32
  deriving DecidableEq

/-- `EVQ_CAP`. -/
def evqCap : ℕ := 128

/-- The static variables of `ui/event.c`. -/
structure EventQueue where
  evq : ℕ → Event
  evqHead : UInt32
  evqTail : UInt32
  lastMx : Int32
  lastMy : Int32
  lastButtons : UInt8

/-- The mouse buttons that have events, with the bit of each (`MOUSE_BTN_*`). -/
inductive MouseButton where
  | left
  | right
  | middle
  deriving DecidableEq, Repr

/-- `MOUSE_BTN_LEFT`, `MOUSE_BTN_RIGHT` and `MOUSE_BTN_MIDDLE`. -/
def MouseButton.bit : MouseButton → UInt8
  | .left => 1
  | .right => 2
  | .middle => 4

namespace EventQueue

/-- `event_init`. -/
def eventInit (q : EventQueue) : EventQueue :=
  { q with evqHead := 0, evqTail := 0, lastMx := -1, lastMy := -1, lastButtons := 0 }

/-- `evq_push`. -/
def evqPush (q : EventQueue) (ev : Event) : EventQueue :=
  if evqCap ≤ (q.evqTail - q.evqHead).toNat then q
  else
    { q with
      evq := Function.update q.evq (q.evqTail &&& 127).toNat ev
      evqTail := q.evqTail + 1 }

/-- `event_poll`: the event it hands out, if there is one. -/
def eventPoll (q : EventQueue) : Option Event × EventQueue :=
  if q.evqHead ≠ q.evqTail then
    (some (q.evq (q.evqHead &&& 127).toNat), { q with evqHead := q.evqHead + 1 })
  else (none, q)

/-- The event of `event_push_key`. -/
def keyEvent (q : EventQueue) (scancode : UInt8) (down : Bool) (ch : UInt8) : Event where
  type := if down then .keyDown else .keyUp
  code := scancode
  ch := if down then ch else 0
  buttons := q.lastButtons
  x := q.lastMx
  y := q.lastMy

/-- `event_push_key`. -/
def eventPushKey (q : EventQueue) (scancode : UInt8) (down : Bool) (ch : UInt8) : EventQueue :=
  evqPush q (keyEvent q scancode down ch)

/-- The event of one button that has changed. -/
def edgeEvent (x y : Int32) (buttons bit : UInt8) : Event where
  type := if buttons &&& bit ≠ 0 then .mouseDown else .mouseUp
  code := bit
  ch := 0
  buttons := buttons
  x := x
  y := y

/-- The button events of a mouse report, in the order in which they are pushed. -/
def mouseEdges (q : EventQueue) (x y : Int32) (buttons : UInt8) : List Event :=
  ([1, 2, 4].filter fun bit => (buttons ^^^ q.lastButtons) &&& bit ≠ 0).map
    (edgeEvent x y buttons)

/-- The motion event of a mouse report. -/
def mouseMoves (q : EventQueue) (x y : Int32) (buttons : UInt8) : List Event :=
  if x ≠ q.lastMx ∨ y ≠ q.lastMy then [⟨.mouseMove, 0, 0, buttons, x, y⟩] else []

/-- All events of a mouse report: the button edges first, then the motion. -/
def mouseEvents (q : EventQueue) (x y : Int32) (buttons : UInt8) : List Event :=
  q.mouseEdges x y buttons ++ q.mouseMoves x y buttons

/-- Remember a mouse report. -/
def remember (q : EventQueue) (x y : Int32) (buttons : UInt8) : EventQueue :=
  { q with lastMx := x, lastMy := y, lastButtons := buttons }

/-- `event_push_mouse`. -/
def eventPushMouse (q : EventQueue) (x y : Int32) (buttons : UInt8) : EventQueue :=
  ((q.mouseEvents x y buttons).foldl evqPush q).remember x y buttons

end EventQueue

/-! ## The consumer -/

/-- `drag_mode_t` of `user/wm.c`. -/
inductive DragMode where
  | none
  | move
  | resizeR
  | resizeB
  | resizeBR
  deriving DecidableEq, Repr

/-- What is under the pointer (`win_hit_t`); `none` also stands for the task bar. -/
inductive WinHit where
  | none
  | close
  | title
  | resizeR
  | resizeB
  | resizeBR
  | client
  deriving DecidableEq, Repr

/-- What `wm_run` does to its drag state when it gets an event, with `hit` under the pointer. -/
def DragMode.onEvent (drag : DragMode) (hit : WinHit) (ev : Event) : DragMode :=
  match ev.type with
  | .mouseDown =>
    if ev.code ≠ MouseButton.left.bit then drag
    else
      match hit with
      | .title => .move
      | .resizeR => .resizeR
      | .resizeB => .resizeB
      | .resizeBR => .resizeBR
      | _ => drag
  | .mouseUp => if ev.code = MouseButton.left.bit then .none else drag
  | _ => drag

/-! ## Runs -/

/-- One event that was offered to the queue. -/
structure Offer where
  event : Event
  /-- Whether the queue took it. -/
  taken : Bool
  /-- How many of the events taken before had not been polled yet. -/
  waiting : ℕ
  deriving DecidableEq

/-- A run of the system, up to some point. -/
structure EventHistory where
  queue : EventQueue
  /-- Everything offered so far, in order. -/
  offers : List Offer
  /-- Everything polled so far, in order. -/
  delivered : List Event
  drag : DragMode

/-- What can happen in the system.  A poll comes with what is under the pointer when the window
manager handles the event. -/
inductive EventOp where
  | pushKey (scancode : UInt8) (down : Bool) (ch : UInt8)
  | pushMouse (x y : Int32) (buttons : UInt8)
  | poll (hit : WinHit)

namespace EventHistory

open EventQueue

/-- The events that the queue took, in order. -/
def accepted (h : EventHistory) : List Event :=
  (h.offers.filter Offer.taken).map Offer.event

/-- Offer one event to the queue and put that on record. -/
def push (h : EventHistory) (ev : Event) : EventHistory :=
  { h with
    queue := h.queue.evqPush ev
    offers := h.offers ++ [⟨ev, (h.queue.evqPush ev).evqTail != h.queue.evqTail,
      h.accepted.length - h.delivered.length⟩] }

/-- One step of a run. -/
def step (h : EventHistory) : EventOp → EventHistory
  | .pushKey scancode down ch => h.push (h.queue.keyEvent scancode down ch)
  | .pushMouse x y buttons =>
    let h' := (h.queue.mouseEvents x y buttons).foldl push h
    { h' with queue := h'.queue.remember x y buttons }
  | .poll hit =>
    match h.queue.eventPoll with
    | (none, q) => { h with queue := q }
    | (some ev, q) =>
      { h with queue := q, delivered := h.delivered ++ [ev], drag := h.drag.onEvent hit ev }

/-- A whole run. -/
def run (h : EventHistory) (ops : List EventOp) : EventHistory := ops.foldl step h

/-- The system after `event_init`, with whatever the cells of the queue hold. -/
def start (evq : ℕ → Event) : EventHistory where
  queue := eventInit ⟨evq, 0, 0, 0, 0, 0⟩
  offers := []
  delivered := []
  drag := .none

/-- The producers of a run do what `event_push_key` and `event_push_mouse` do. -/
lemma step_queue (h : EventHistory) :
    (∀ scancode down ch, (h.step (.pushKey scancode down ch)).queue =
      h.queue.eventPushKey scancode down ch) ∧
    ∀ x y buttons, (h.step (.pushMouse x y buttons)).queue =
      h.queue.eventPushMouse x y buttons := by
  have hpush : ∀ (l : List Event) (h : EventHistory),
      (l.foldl push h).queue = l.foldl evqPush h.queue := by
    intro l
    induction l with
    | nil => intro h; rfl
    | cons ev l ih => intro h; exact ih (h.push ev)
  refine ⟨fun _ _ _ => rfl, fun x y buttons => ?_⟩
  simp only [step, eventPushMouse, hpush]

end EventHistory

end CoolFrost
