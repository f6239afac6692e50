import CoolFrost.Ui.Event
import CoolFrost.Ui.Surface

/-!
# The window manager

`user/window.c`, and of `user/wm.c` the list of the windows and what `wm_run` does with an event.
The windows are in a pool of six that is never given back, and are linked both ways in the order in
which they lie upon each other.  What a window looks like is left out: painting changes neither the
list nor where a window is.  No window that `wm_run` creates has an `on_event`.

`wm_run` may be started again after it has ended; its windows are static and still there then.
-/

namespace CoolFrost

/-- What `ugfx_init` gives out, if it does: a surface not larger than the back buffer. -/
structure Screen extends Surface where
  w_le : w.toInt ≤ 1024
  h_le : h.toInt ≤ 768

/-- `window_t`, with the size of its surface. -/
structure Window where
  x : Int32
  y : Int32
  w : Int32
  h : Int32
  surfaceW : Int32
  surfaceH : Int32
  inUse : Bool
  next : Option ℕ
  prev : Option ℕ

/-- The static variables of `user/wm.c`, `user/window.c` and `user/ugfx.c`, and those of
`wm_run`. -/
structure Wm where
  winPool : ℕ → Window
  winPoolNext : ℕ
  poolNext : ℕ
  demoCtxNext : ℕ
  zHead : Option ℕ
  mx : Int32
  my : Int32
  running : Bool
  drag : DragMode
  dragWin : Option ℕ
  dragOx : Int32
  dragOy : Int32
  dragSw : Int32
  dragSh : Int32
  dragSx : Int32
  dragSy : Int32

namespace Wm

/-- `WM_MAX_WIN` and `UGFX_POOL_COUNT`. -/
def wmMaxWin : ℕ := 6
/-- `UGFX_POOL_W`. -/
def poolW : Int32 := 400
/-- `UGFX_POOL_H`. -/
def poolH : Int32 := 300
/-- `WIN_TITLE_H`. -/
def winTitleH : Int32 := 24
/-- `WIN_CLOSE_SZ`. -/
def winCloseSz : Int32 := 16
/-- `WIN_BORDER`. -/
def winBorder : Int32 := 6
/-- `TASKBAR_H`. -/
def taskbarH : Int32 := 32
/-- `WIN_MIN_W`. -/
def winMinW : Int32 := 120
/-- `WIN_MIN_H`. -/
def winMinH : Int32 := winTitleH + 60
/-- `LAUNCH_BTN_W`. -/
def launchBtnW : Int32 := 64
/-- `WIN_BTN_W`. -/
def winBtnW : Int32 := 110
/-- `BTN_GAP`. -/
def btnGap : Int32 := 4

/-- Change a window of the pool. -/
def setWin (s : Wm) (i : ℕ) (f : Window → Window) : Wm :=
  { s with winPool := Function.update s.winPool i (f (s.winPool i)) }

/-! ## The list of the windows -/

/-- `if (p) p->next = v; else z_head = v;` -/
def setNext (s : Wm) (p v : Option ℕ) : Wm :=
  match p with
  | some i => s.setWin i fun win => { win with next := v }
  | none => { s with zHead := v }

/-- `if (n) n->prev = v;` -/
def setPrev (s : Wm) (n v : Option ℕ) : Wm :=
  match n with
  | some i => s.setWin i fun win => { win with prev := v }
  | none => s

/-- `z_unlink`. -/
def zUnlink (s : Wm) (w : ℕ) : Wm :=
  let s := s.setNext (s.winPool w).prev (s.winPool w).next
  let s := s.setPrev (s.winPool w).next (s.winPool w).prev
  s.setWin w fun win => { win with next := none, prev := none }

/-- `z_push_front`. -/
def zPushFront (s : Wm) (w : ℕ) : Wm :=
  let s := s.setWin w fun win => { win with prev := none, next := s.zHead }
  let s := s.setPrev s.zHead (some w)
  { s with zHead := some w }

/-- `z_raise`. -/
def zRaise (s : Wm) (w : ℕ) : Wm := if s.zHead = some w then s else (s.zUnlink w).zPushFront w

/-- The loop of `z_gather`, from the window `w` on. -/
def gatherFrom (s : Wm) : ℕ → Option ℕ → List ℕ
  | max + 1, some w => w :: s.gatherFrom max (s.winPool w).next
  | _, _ => []

/-- `z_gather`. -/
def zGather (s : Wm) (max : ℕ) : List ℕ := s.gatherFrom max s.zHead

/-! ## Windows -/

/-- `ugfx_surface_from_pool`: the size of the surface. -/
def ugfxSurfaceFromPool (s : Wm) (w h : Int32) : Option (Int32 × Int32) × Wm :=
  if wmMaxWin ≤ s.poolNext then (none, s)
  else
    (some (if poolW < w then poolW else w, if poolH < h then poolH else h),
      { s with poolNext := s.poolNext + 1 })

/-- `window_create`. -/
def windowCreate (s : Wm) (x y w h : Int32) : Option ℕ × Wm :=
  if wmMaxWin ≤ s.winPoolNext then (none, s)
  else
    match s.ugfxSurfaceFromPool w (h - winTitleH) with
    | (none, s) => (none, s)
    | (some (surfaceW, surfaceH), s) =>
      let win : Window := ⟨x, y, w, winTitleH + surfaceH, surfaceW, surfaceH, true, none, none⟩
      (some s.winPoolNext,
        { s with
          winPool := Function.update s.winPool s.winPoolNext win
          winPoolNext := s.winPoolNext + 1 })

/-- `spawn_demo_window`. -/
def spawnDemoWindow (s : Wm) (x y : Int32) : Wm :=
  if wmMaxWin ≤ s.demoCtxNext then s
  else
    match { s with demoCtxNext := s.demoCtxNext + 1 }.windowCreate x y 300 (winTitleH + 200) with
    | (none, s) => s
    | (some w, s) => s.zPushFront w

/-- `window_hit_test`. -/
def windowHitTest (win : Window) (x y : Int32) : WinHit :=
  if x < win.x ∨ win.x + win.w ≤ x ∨ y < win.y ∨ win.y + win.h ≤ y then .none
  else
    let rx := x - win.x
    let ry := y - win.y
    if ry < winTitleH then
      if (win.w - winCloseSz - 4 ≤ rx ∧ rx < win.w - 4) ∧ 4 ≤ ry ∧ ry < 4 + winCloseSz then .close
      else .title
    else if win.w - winBorder ≤ rx ∧ win.h - winBorder ≤ ry then .resizeBR
    else if win.w - winBorder ≤ rx then .resizeR
    else if win.h - winBorder ≤ ry then .resizeB
    else .client

/-! ## Events -/

/-- The motion of the mouse while a border of the window `w` is dragged. -/
def onResize (s : Wm) (w : ℕ) (x y : Int32) : Wm :=
  let maxW := (s.winPool w).surfaceW
  let maxH := winTitleH + (s.winPool w).surfaceH
  let s :=
    if s.drag = .resizeR ∨ s.drag = .resizeBR then
      let nw := s.dragSw + (x - s.dragSx)
      let nw := if nw < winMinW then winMinW else nw
      let nw := if maxW < nw then maxW else nw
      s.setWin w fun win => { win with w := nw }
    else s
  if s.drag = .resizeB ∨ s.drag = .resizeBR then
    let nh := s.dragSh + (y - s.dragSy)
    let nh := if nh < winMinH then winMinH else nh
    let nh := if maxH < nh then maxH else nh
    s.setWin w fun win => { win with h := nh }
  else s

/-- The motion of the mouse. -/
def onMove (s : Wm) (x y : Int32) : Wm :=
  let s := { s with mx := x, my := y }
  match s.drag, s.dragWin with
  | .none, _ => s
  | .move, some w => s.setWin w fun win => { win with x := x - s.dragOx, y := y - s.dragOy }
  | _, some w => s.onResize w x y
  -- a drag is always of a window
  | _, none => s

/-- The window whose button in the task bar is at `x`, of those in `order` from `bx` on. -/
def taskbarButton (x : Int32) : (bx : Int32) → (order : List ℕ) → Option ℕ
  | _, [] => none
  | bx, w :: order =>
    if bx ≤ x ∧ x < bx + winBtnW then some w else taskbarButton x (bx + winBtnW + btnGap) order

/-- The left button goes down on the task bar. -/
def onTaskbar (s : Wm) (x : Int32) : Wm :=
  let order := s.zGather wmMaxWin
  if 8 ≤ x ∧ x < 8 + launchBtnW then
    s.spawnDemoWindow (40 + 24 * Int32.ofNat order.length) (80 + 20 * Int32.ofNat order.length)
  else
    match taskbarButton x (8 + launchBtnW + btnGap) order.reverse with
    | some w => s.zRaise w
    | none => s

/-- The left button goes down on the window `w`. -/
def onHit (s : Wm) (w : ℕ) (hit : WinHit) (x y : Int32) : Wm :=
  let s := s.zRaise w
  match hit with
  | .close => (s.zUnlink w).setWin w fun win => { win with inUse := false }
  | .title =>
    { s with
      drag := .move, dragWin := some w
      dragOx := x - (s.winPool w).x, dragOy := y - (s.winPool w).y }
  | .resizeR | .resizeB | .resizeBR =>
    { s with
      drag := if hit = .resizeR then .resizeR else if hit = .resizeB then .resizeB else .resizeBR
      dragWin := some w
      dragSw := (s.winPool w).w, dragSh := (s.winPool w).h
      dragSx := x, dragSy := y }
  | _ => s

/-- The left button goes down above the task bar: the first window hit. -/
def onDesktop (s : Wm) (x y : Int32) : Wm :=
  match (s.zGather wmMaxWin).find? fun w => windowHitTest (s.winPool w) x y ≠ .none with
  | some w => s.onHit w (windowHitTest (s.winPool w) x y) x y
  | none => s

/-- What `wm_run` does with an event. -/
def onEvent (scr : Screen) (s : Wm) (ev : Event) : Wm :=
  match ev.type with
  | .keyDown => if ev.code = 0x01 then { s with running := false } else s
  | .mouseMove => s.onMove ev.x ev.y
  | .mouseDown =>
    if ev.code ≠ MouseButton.left.bit then s
    else if scr.h - taskbarH ≤ ev.y then s.onTaskbar ev.x
    else s.onDesktop ev.x ev.y
  | .mouseUp =>
    if ev.code = MouseButton.left.bit then { s with drag := .none, dragWin := none } else s
  | _ => s

/-- How `wm_run` begins. -/
def start (scr : Screen) (s : Wm) : Wm :=
  let s := { s with mx := scr.w / 2, my := scr.h / 2 }
  let s := s.spawnDemoWindow (scr.w / 2 - 320) 96
  let s := s.spawnDemoWindow (scr.w / 2 + 16) 160
  { s with
    drag := .none, dragWin := none, dragOx := 0, dragOy := 0
    dragSw := 0, dragSh := 0, dragSx := 0, dragSy := 0, running := true }

/-- `wm_run`, with the events that it polls. -/
def wmRun (scr : Screen) (s : Wm) (evs : List Event) : Wm := evs.foldl (onEvent scr) (s.start scr)

/-- The static variables before the first start. -/
def boot : Wm where
  winPool := fun _ => ⟨0, 0, 0, 0, 0, 0, false, none, none⟩
  winPoolNext := 0
  poolNext := 0
  demoCtxNext := 0
  zHead := none
  mx := 0
  my := 0
  running := false
  drag := .none
  dragWin := none
  dragOx := 0
  dragOy := 0
  dragSw := 0
  dragSh := 0
  dragSx := 0
  dragSy := 0

end Wm

end CoolFrost
