import CoolFrost.Lib.DoublyLinked
import CoolFrost.Ui.EventQueue
import CoolFrost.Ui.WindowManager

/-!
# The windows upon each other

The windows of the window manager are linked both ways in the order in which they lie, in every
state that `wm_run` comes to: the list has the windows that were created and not closed, each of
them once.  As long as presses and releases of the left button alternate, nothing is closed during a
drag; the drag state is the one that the runs of the event queue derive from the events.
-/

namespace CoolFrost

open Signed

namespace Wm

/-- The links to the windows below. -/
def nexts (s : Wm) : ℕ → Option ℕ := fun i => (s.winPool i).next

/-- The links to the windows above. -/
def prevs (s : Wm) : ℕ → Option ℕ := fun i => (s.winPool i).prev

/-- The windows lie in the order `l`, and are those created and not closed. -/
structure Stacked (s : Wm) (l : List ℕ) : Prop where
  links : DLinks s.nexts s.prevs none s.zHead l
  mem : ∀ i, i ∈ l ↔ i < s.winPoolNext ∧ (s.winPool i).inUse = true
  le : s.winPoolNext ≤ wmMaxWin
  poolNext : s.poolNext = s.winPoolNext
  demoCtxNext : s.demoCtxNext = s.winPoolNext

/-! ## The links -/

variable {s s' : Wm} {l : List ℕ} {w : ℕ}

lemma gatherFrom_eq {max : ℕ} {p c : Option ℕ} (h : DLinks s.nexts s.prevs p c l)
    (hlen : l.length ≤ max) : s.gatherFrom max c = l := by
  induction l generalizing max p c with
  | nil =>
    rw [DLinks.nil.mp h]
    cases max <;> rfl
  | cons a l ih =>
    obtain ⟨rfl, -, hl⟩ := h
    cases max with
    | zero => exact absurd hlen (Nat.not_succ_le_zero _)
    | succ max => exact congrArg (a :: ·) (ih hl (Nat.le_of_succ_le_succ hlen))

namespace Stacked

lemma nodup (h : s.Stacked l) : l.Nodup := h.links.nodup fun _ _ => by simp

lemma length_le (h : s.Stacked l) : l.length ≤ wmMaxWin := by
  have hsub : l ⊆ List.range s.winPoolNext := fun i hi => List.mem_range.mpr ((h.mem i).mp hi).1
  have hlen := (h.nodup.subperm hsub).length_le
  rw [List.length_range] at hlen
  exact hlen.trans h.le

lemma zGather_eq (h : s.Stacked l) : s.zGather wmMaxWin = l := gatherFrom_eq h.links h.length_le

end Stacked

/-- A window without its links. -/
def Window.unlinked (v : Window) : Window := { v with next := none, prev := none }

/-- Only links have changed. -/
structure Relinked (s s' : Wm) : Prop where
  same : ∀ i, Window.unlinked (s'.winPool i) = Window.unlinked (s.winPool i)
  rest : s' = { s with winPool := s'.winPool, zHead := s'.zHead }

lemma Relinked.trans {s'' : Wm} (h : s.Relinked s') (h' : s'.Relinked s'') : s.Relinked s'' := by
  refine ⟨fun i => (h'.same i).trans (h.same i), ?_⟩
  rw [h'.rest, h.rest]

@[simp] lemma winPool_setWin_self (s : Wm) (i : ℕ) (f : Window → Window) :
    (s.setWin i f).winPool i = f (s.winPool i) := Function.update_self ..

lemma winPool_setWin_of_ne (s : Wm) {i j : ℕ} (h : j ≠ i) (f : Window → Window) :
    (s.setWin i f).winPool j = s.winPool j := Function.update_of_ne h ..

lemma relinked_setWin (s : Wm) (i : ℕ) (f : Window → Window)
    (hf : ∀ win, Window.unlinked (f win) = Window.unlinked win) : s.Relinked (s.setWin i f) := by
  refine ⟨fun j => ?_, rfl⟩
  by_cases hj : j = i
  · subst hj
    rw [winPool_setWin_self]
    exact hf _
  · rw [s.winPool_setWin_of_ne hj]

/-- What `setNext` does to the links. -/
lemma links_setNext (s : Wm) (p v : Option ℕ) :
    (∀ b, (s.setNext p v).nexts b = if p = some b then v else s.nexts b) ∧
      (∀ b, (s.setNext p v).prevs b = s.prevs b) ∧
      (s.setNext p v).zHead = (if p = none then v else s.zHead) ∧ s.Relinked (s.setNext p v) := by
  cases p with
  | none => exact ⟨fun _ => rfl, fun _ => rfl, rfl, fun _ => rfl, rfl⟩
  | some i =>
    refine ⟨fun b => ?_, fun b =>
      ?_, rfl, s.relinked_setWin i (fun win => { win with next := v }) fun _ => rfl⟩
    · by_cases hb : b = i
      · subst hb
        rw [if_pos rfl, nexts, setNext, winPool_setWin_self]
      · rw [if_neg fun heq => hb (Option.some.inj heq).symm, nexts, setNext,
          s.winPool_setWin_of_ne hb]
        rfl
    · by_cases hb : b = i
      · subst hb
        rw [prevs, setNext, winPool_setWin_self]
        rfl
      · rw [prevs, setNext, s.winPool_setWin_of_ne hb]
        rfl

/-- What `setPrev` does to the links. -/
lemma links_setPrev (s : Wm) (n v : Option ℕ) :
    (∀ b, (s.setPrev n v).nexts b = s.nexts b) ∧
      (∀ b, (s.setPrev n v).prevs b = if n = some b then v else s.prevs b) ∧
      (s.setPrev n v).zHead = s.zHead ∧ s.Relinked (s.setPrev n v) := by
  cases n with
  | none => exact ⟨fun _ => rfl, fun _ => rfl, rfl, fun _ => rfl, rfl⟩
  | some i =>
    refine ⟨fun b => ?_, fun b =>
      ?_, rfl, s.relinked_setWin i (fun win => { win with prev := v }) fun _ => rfl⟩
    · by_cases hb : b = i
      · subst hb
        rw [nexts, setPrev, winPool_setWin_self]
        rfl
      · rw [nexts, setPrev, s.winPool_setWin_of_ne hb]
        rfl
    · by_cases hb : b = i
      · subst hb
        rw [if_pos rfl, prevs, setPrev, winPool_setWin_self]
      · rw [if_neg fun heq => hb (Option.some.inj heq).symm, prevs, setPrev,
          s.winPool_setWin_of_ne hb]
        rfl

/-- What `z_unlink` does to the links. -/
lemma links_zUnlink (s : Wm) {w : ℕ} (hself : s.prevs w ≠ some w) :
    (∀ b, b ≠ w → (s.zUnlink w).nexts b = if s.prevs w = some b then s.nexts w else s.nexts b) ∧
      (∀ b, b ≠ w → (s.zUnlink w).prevs b = if s.nexts w = some b then s.prevs w else s.prevs b) ∧
      (s.zUnlink w).zHead = (if s.prevs w = none then s.nexts w else s.zHead) ∧
      s.Relinked (s.zUnlink w) := by
  obtain ⟨hnext, hprev, hhead, hrel⟩ := s.links_setNext (s.prevs w) (s.nexts w)
  generalize ht : s.setNext (s.prevs w) (s.nexts w) = t at *
  have hnextw : t.nexts w = s.nexts w := (hnext w).trans (if_neg hself)
  obtain ⟨hnext', hprev', hhead', hrel'⟩ := t.links_setPrev (t.nexts w) (t.prevs w)
  have heq : s.zUnlink w = (t.setPrev (t.nexts w) (t.prevs w)).setWin w
      fun win => { win with next := none, prev := none } := by
    subst ht
    rfl
  have hother : ∀ b, b ≠ w →
      (s.zUnlink w).winPool b = (t.setPrev (t.nexts w) (t.prevs w)).winPool b :=
    fun b hb => heq ▸ winPool_setWin_of_ne _ hb _
  refine ⟨fun b hb => ?_, fun b hb => ?_, ?_, ?_⟩
  · rw [nexts, hother b hb]
    exact (hnext' b).trans (hnext b)
  · rw [prevs, hother b hb]
    refine (hprev' b).trans ?_
    rw [hnextw, hprev w, hprev b]
  · rw [heq]
    exact hhead'.trans hhead
  · rw [heq]
    exact hrel.trans (hrel'.trans (relinked_setWin _ w _ fun _ => rfl))

/-- `z_unlink` takes a window out of the list. -/
lemma zUnlink_links (h : DLinks s.nexts s.prevs none s.zHead l) (hw : w ∈ l) :
    DLinks (s.zUnlink w).nexts (s.zUnlink w).prevs none (s.zUnlink w).zHead (l.erase w) ∧
      s.Relinked (s.zUnlink w) := by
  have hnone : ∀ d ∈ l, (none : Option ℕ) ≠ some d := fun _ _ => by simp
  have hnodup := h.nodup hnone
  obtain ⟨hnext, hprev, hhead, hrel⟩ := s.links_zUnlink (h.prev_ne_self hnone hw)
  refine ⟨?_, hrel⟩
  have hfirst : (s.zUnlink w).zHead = if s.zHead = some w then s.nexts w else s.zHead := by
    rw [hhead]
    exact if_congr (h.prev_eq_iff hnone hw) rfl rfl
  rw [hfirst]
  refine h.unlink hnodup hw (by simp) (fun b hb hbw => ?_) fun b hb hbw => ?_
  · rw [hnext b hbw]
    exact if_congr (h.next_eq_iff hnodup hnone hb hw).symm rfl rfl
  · rw [hprev b hbw]
    exact if_congr (h.next_eq_iff hnodup hnone hw hb) rfl rfl

/-- `z_push_front` puts a window in front. -/
lemma zPushFront_links (h : DLinks s.nexts s.prevs none s.zHead l) (hw : w ∉ l) :
    DLinks (s.zPushFront w).nexts (s.zPushFront w).prevs none (s.zPushFront w).zHead (w :: l) ∧
      s.Relinked (s.zPushFront w) := by
  have hheadw : s.zHead ≠ some w := fun heq => hw (List.mem_of_mem_head? (h.head_eq ▸ heq))
  generalize ht : (s.setWin w fun win => { win with prev := none, next := s.zHead }) = t
  have hrel : s.Relinked t := ht ▸ relinked_setWin s w _ fun _ => rfl
  have hother : ∀ b, b ≠ w → t.winPool b = s.winPool b :=
    fun b hb => ht ▸ winPool_setWin_of_ne s hb _
  have hself : t.winPool w = { s.winPool w with prev := none, next := s.zHead } :=
    ht ▸ winPool_setWin_self s w _
  have hhead : t.zHead = s.zHead := ht ▸ rfl
  obtain ⟨hnext, hprev, hhead', hrel'⟩ := t.links_setPrev t.zHead (some w)
  have heq : s.zPushFront w = { t.setPrev t.zHead (some w) with zHead := some w } := by
    subst ht
    rfl
  have hne : ∀ b ∈ l, b ≠ w := fun b hb heq => hw (heq ▸ hb)
  have hnodup := h.nodup fun _ _ => by simp
  rw [heq]
  refine ⟨h.pushFront (fun b hb => ?_) ?_ hnodup (fun b hb => ?_) ?_, ?_⟩
  · refine (hnext b).trans ?_
    rw [nexts, hother b (hne b hb)]
    rfl
  · refine (hnext w).trans ?_
    rw [nexts, hself]
  · refine (hprev b).trans ?_
    rw [hhead, prevs, hother b (hne b hb)]
    rfl
  · refine (hprev w).trans ?_
    rw [hhead, if_neg hheadw, prevs, hself]
  · refine hrel.trans (hrel'.trans ⟨fun _ => rfl, rfl⟩)

/-- `z_raise` puts a window of the list in front. -/
lemma zRaise_links (h : DLinks s.nexts s.prevs none s.zHead l) (hw : w ∈ l) :
    DLinks (s.zRaise w).nexts (s.zRaise w).prevs none (s.zRaise w).zHead (w :: l.erase w) ∧
      s.Relinked (s.zRaise w) := by
  unfold zRaise
  split_ifs with hfirst
  · refine ⟨?_, fun _ => rfl, rfl⟩
    cases l with
    | nil => exact absurd hw List.not_mem_nil
    | cons d l =>
      obtain rfl : d = w := Option.some.inj (h.1.symm.trans hfirst)
      rw [List.erase_cons_head]
      exact h
  · obtain ⟨hl, hrel⟩ := zUnlink_links h hw
    have hnot : w ∉ l.erase w := (h.nodup fun _ _ => by simp).not_mem_erase
    obtain ⟨hl', hrel'⟩ := zPushFront_links hl hnot
    exact ⟨hl', hrel.trans hrel'⟩

/-! ## The windows -/

/-- The place and the size of a window that `spawn_demo_window` created, wherever it was dragged and
however it was resized. -/
structure Window.Fitting (win : Window) : Prop where
  x : -1024 ≤ win.x.toInt ∧ win.x.toInt ≤ 1024
  y : -1024 ≤ win.y.toInt ∧ win.y.toInt ≤ 1024
  w : 120 ≤ win.w.toInt ∧ win.w.toInt ≤ 300
  h : 84 ≤ win.h.toInt ∧ win.h.toInt ≤ 224
  surfaceW : win.surfaceW = 300
  surfaceH : win.surfaceH = 200

/-- The point is in the rectangle of the window. -/
def Window.Contains (win : Window) (x y : ℤ) : Prop :=
  (win.x.toInt ≤ x ∧ x < win.x.toInt + win.w.toInt) ∧ win.y.toInt ≤ y ∧
  y < win.y.toInt + win.h.toInt

instance (win : Window) (x y : ℤ) : Decidable (Window.Contains win x y) :=
  inferInstanceAs (Decidable (_ ∧ _))

lemma Window.contains_congr {win win' : Window}
    (h : Window.unlinked win' = Window.unlinked win) (x y : ℤ) :
    Window.Contains win' x y ↔ Window.Contains win x y := by
  change Window.Contains (Window.unlinked win') x y ↔ Window.Contains (Window.unlinked win) x y
  rw [h]

/-- A window is hit in its rectangle. -/
lemma windowHitTest_ne_none_iff {win : Window} (hwin : Window.Fitting win) (x y : Int32) :
    windowHitTest win x y ≠ .none ↔ Window.Contains win x.toInt y.toInt := by
  obtain ⟨hx, hy, hw, hh, -, -⟩ := hwin
  have hright : (win.x + win.w).toInt = win.x.toInt + win.w.toInt := toInt_add (by omega) (by omega)
  have hbottom : (win.y + win.h).toInt = win.y.toInt + win.h.toInt :=
    toInt_add (by omega) (by omega)
  have hout : (x < win.x ∨ win.x + win.w ≤ x ∨ y < win.y ∨ win.y + win.h ≤ y) ↔
      ¬Window.Contains win x.toInt y.toInt := by
    simp only [Int32.lt_iff_toInt_lt, Int32.le_iff_toInt_le, hright, hbottom, Window.Contains]
    omega
  by_cases h : x < win.x ∨ win.x + win.w ≤ x ∨ y < win.y ∨ win.y + win.h ≤ y
  · refine iff_of_false (not_not.mpr ?_) (hout.mp h)
    rw [windowHitTest, if_pos h]
  · refine iff_of_true ?_ (not_not.mp (hout.not.mp h))
    rw [windowHitTest, if_neg h]
    dsimp only
    split_ifs <;> decide

/-- The windows lie in the order `l` and are in reach, and a drag is of one of them. -/
structure Sound (s : Wm) (l : List ℕ) : Prop extends s.Stacked l where
  fitting : ∀ i ∈ l, Window.Fitting (s.winPool i)
  drag : s.drag ≠ .none → ∃ w ∈ l, s.dragWin = some w
  dragOx : 0 ≤ s.dragOx.toInt ∧ s.dragOx.toInt ≤ 1024
  dragOy : 0 ≤ s.dragOy.toInt ∧ s.dragOy.toInt ≤ 1024

lemma Window.Fitting.of_unlinked {win win' : Window} (h : Window.Fitting win)
    (heq : Window.unlinked win' = Window.unlinked win) : Window.Fitting win' := by
  have hfields := Window.mk.inj heq
  obtain ⟨hx, hy, hw, hh, hsw, hsh, -⟩ := hfields
  obtain ⟨h₁, h₂, h₃, h₄, h₅, h₆⟩ := h
  exact ⟨hx ▸ h₁, hy ▸ h₂, hw ▸ h₃, hh ▸ h₄, hsw.trans h₅, hsh.trans h₆⟩

/-- The order of the windows after an event. -/
def orderAfter (scr : Screen) (s : Wm) (l : List ℕ) (ev : Event) : List ℕ :=
  if ev.type ≠ .mouseDown ∨ ev.code ≠ MouseButton.left.bit then l
  else if scr.h - taskbarH ≤ ev.y then
    if 8 ≤ ev.x ∧ ev.x < 8 + launchBtnW then if s.winPoolNext < wmMaxWin then
      s.winPoolNext :: l else l
    else
      match taskbarButton ev.x (8 + launchBtnW + btnGap) l.reverse with
      | some w => w :: l.erase w
      | none => l
  else
    match l.find? fun w => Window.Contains (s.winPool w) ev.x.toInt ev.y.toInt with
    | some w =>
      if windowHitTest (s.winPool w) ev.x ev.y = .close then l.erase w else w :: l.erase w
    | none => l

/-- The left button goes down above the task bar. -/
def ClickAbove (scr : Screen) (ev : Event) : Prop :=
  (ev.type = .mouseDown ∧ ev.code = MouseButton.left.bit) ∧ ev.y < scr.h - taskbarH

/-- Of the windows `l`, only the first one with the point is acted on, if there is one: no other
window is moved, resized or closed, and a drag that begins is of that window. -/
def ActsOnFirst (s : Wm) (l : List ℕ) (x y : Int32) (s' : Wm) : Prop :=
  match l.find? fun w => Window.Contains (s.winPool w) x.toInt y.toInt with
  | some w => (∀ i, i ≠ w → Window.unlinked (s'.winPool i) = Window.unlinked (s.winPool i)) ∧
      (s'.drag ≠ .none → s'.dragWin = some w)
  | none => s' = s

/-- A mouse event is on the screen. -/
def OnScreen (scr : Screen) (ev : Event) : Prop :=
  ev.type = .mouseMove ∨ ev.type = .mouseDown ∨ ev.type = .mouseUp →
    (0 ≤ ev.x.toInt ∧ ev.x.toInt < scr.w.toInt) ∧ 0 ≤ ev.y.toInt ∧ ev.y.toInt < scr.h.toInt

instance (scr : Screen) (ev : Event) : Decidable (OnScreen scr ev) :=
  inferInstanceAs (Decidable (_ → _))

lemma mem_of_taskbarButton {x bx : Int32} (h : taskbarButton x bx l = some w) : w ∈ l := by
  induction l generalizing bx with
  | nil => exact absurd h (by simp [taskbarButton])
  | cons a l ih =>
    rw [taskbarButton] at h
    split_ifs at h with hin
    · exact Option.some.inj h ▸ List.mem_cons_self
    · exact List.mem_cons_of_mem a (ih h)

namespace Sound

/-- The windows in another order. -/
lemma relink (h : s.Sound l) (hrel : s.Relinked s') {l' : List ℕ}
    (hl : DLinks s'.nexts s'.prevs none s'.zHead l') (hmem : ∀ i, i ∈ l' ↔ i ∈ l) :
    s'.Sound l' := by
  have hrest := hrel.rest
  have hinUse : ∀ i, (s'.winPool i).inUse = (s.winPool i).inUse := by
    intro i
    have hsame := congrArg Window.inUse (hrel.same i)
    exact hsame
  refine ⟨⟨hl, fun i => ?_, ?_, ?_, ?_⟩, fun i hi => ?_, fun hdrag => ?_, ?_, ?_⟩
  · rw [hmem, h.mem, hinUse, hrest]
  · rw [hrest]
    exact h.le
  · rw [hrest]
    exact h.poolNext
  · rw [hrest]
    exact h.demoCtxNext
  · exact (h.fitting i ((hmem i).mp hi)).of_unlinked (hrel.same i)
  · rw [hrest] at hdrag ⊢
    obtain ⟨w, hw, heq⟩ := h.drag hdrag
    exact ⟨w, (hmem w).mpr hw, heq⟩
  · rw [hrest]
    exact h.dragOx
  · rw [hrest]
    exact h.dragOy

/-- A window is raised. -/
lemma zRaise (h : s.Sound l) (hw : w ∈ l) : (s.zRaise w).Sound (w :: l.erase w) := by
  obtain ⟨hl, hrel⟩ := zRaise_links h.links hw
  exact h.relink hrel hl fun i => (List.perm_cons_erase hw).symm.mem_iff

/-- A window is moved or resized. -/
lemma setWin (h : s.Sound l) (hw : w ∈ l) {f : Window → Window}
    (hnext : ∀ win, (f win).next = win.next) (hprev : ∀ win, (f win).prev = win.prev)
    (hinUse : ∀ win, (f win).inUse = win.inUse) (hfit : Window.Fitting (f (s.winPool w))) :
    (s.setWin w f).Sound l := by
  have hcases : ∀ i, (s.setWin w f).winPool i = s.winPool i ∨
      i = w ∧ (s.setWin w f).winPool i = f (s.winPool i) := by
    intro i
    by_cases hi : i = w
    · subst hi
      exact Or.inr ⟨rfl, winPool_setWin_self s i f⟩
    · exact Or.inl (s.winPool_setWin_of_ne hi f)
  refine ⟨⟨h.links.congr (fun i _ => ?_) fun i _ => ?_, fun i =>
    ?_, h.le, h.poolNext, h.demoCtxNext⟩, fun i hi => ?_, h.drag, h.dragOx, h.dragOy⟩
  · rcases hcases i with heq | ⟨-, heq⟩
    · exact congrArg Window.next heq
    · exact (congrArg Window.next heq).trans (hnext _)
  · rcases hcases i with heq | ⟨-, heq⟩
    · exact congrArg Window.prev heq
    · exact (congrArg Window.prev heq).trans (hprev _)
  · rw [h.mem]
    rcases hcases i with heq | ⟨-, heq⟩
    · rw [heq]
      rfl
    · rw [heq, hinUse]
      rfl
  · rcases hcases i with heq | ⟨rfl, heq⟩
    · rw [heq]
      exact h.fitting i hi
    · rw [heq]
      exact hfit

/-- A window is created. -/
lemma spawnDemoWindow (h : s.Sound l) {x y : Int32} (hx : -1024 ≤ x.toInt ∧ x.toInt ≤ 1024)
    (hy : -1024 ≤ y.toInt ∧ y.toInt ≤ 1024) :
    (s.spawnDemoWindow x y).Sound (if s.winPoolNext < wmMaxWin then s.winPoolNext :: l else l) := by
  by_cases hfull : wmMaxWin ≤ s.winPoolNext
  · rw [if_neg (not_lt.mpr hfull), Wm.spawnDemoWindow, if_pos (h.demoCtxNext ▸ hfull)]
    exact h
  rw [if_pos (not_le.mp hfull)]
  have hnot : s.winPoolNext ∉ l := fun hmem => Nat.lt_irrefl _ ((h.mem _).mp hmem).1
  -- the pool with the new window, before that is put in front
  generalize ht : ({ s with
    winPool := Function.update s.winPool s.winPoolNext ⟨x, y, 300, 224, 300, 200, true, none, none⟩
    winPoolNext := s.winPoolNext + 1, poolNext := s.poolNext + 1
    demoCtxNext := s.demoCtxNext + 1 } : Wm) = t
  have heq : s.spawnDemoWindow x y = t.zPushFront s.winPoolNext := by
    rw [Wm.spawnDemoWindow, if_neg (h.demoCtxNext ▸ hfull), windowCreate, if_neg hfull,
      ugfxSurfaceFromPool, if_neg (h.poolNext ▸ hfull), ← ht]
    rfl
  have hnew : t.winPool s.winPoolNext = ⟨x, y, 300, 224, 300, 200, true, none, none⟩ := by
    rw [← ht]
    exact Function.update_self ..
  have hold : ∀ i, i ≠ s.winPoolNext → t.winPool i = s.winPool i := by
    intro i hi
    rw [← ht]
    exact Function.update_of_ne hi ..
  have hne : ∀ i ∈ l, i ≠ s.winPoolNext := fun i hi heq => hnot (heq ▸ hi)
  have hhead : t.zHead = s.zHead := ht ▸ rfl
  have hlinks : DLinks t.nexts t.prevs none t.zHead l := by
    rw [hhead]
    exact h.links.congr (fun i hi => congrArg Window.next (hold i (hne i hi)))
      fun i hi => congrArg Window.prev (hold i (hne i hi))
  obtain ⟨hl, hrel⟩ := zPushFront_links hlinks hnot
  have hrest := hrel.rest
  rw [heq]
  generalize t.zPushFront s.winPoolNext = s' at *
  have hcount : s'.winPoolNext = s.winPoolNext + 1 ∧ s'.poolNext = s.poolNext + 1 ∧
      s'.demoCtxNext = s.demoCtxNext + 1 := by
    rw [hrest, ← ht]
    exact ⟨rfl, rfl, rfl⟩
  have hdrag : s'.drag = s.drag ∧ s'.dragWin = s.dragWin ∧ s'.dragOx = s.dragOx ∧
      s'.dragOy = s.dragOy := by
    rw [hrest, ← ht]
    exact ⟨rfl, rfl, rfl, rfl⟩
  have hinUse : ∀ i, (s'.winPool i).inUse = (t.winPool i).inUse := by
    intro i
    have hsame := congrArg Window.inUse (hrel.same i)
    exact hsame
  refine ⟨⟨hl, fun i => ?_, ?_, ?_, ?_⟩, fun i hi => ?_, fun hdragging => ?_, ?_, ?_⟩
  · rw [hcount.1, hinUse, List.mem_cons]
    by_cases hi : i = s.winPoolNext
    · subst hi
      rw [hnew]
      exact iff_of_true (Or.inl rfl) ⟨Nat.lt_succ_self _, rfl⟩
    · rw [hold i hi, h.mem]
      constructor
      · rintro (heq | ⟨hlt, huse⟩)
        · exact absurd heq hi
        · exact ⟨Nat.lt_succ_of_lt hlt, huse⟩
      · rintro ⟨hlt, huse⟩
        exact Or.inr ⟨lt_of_le_of_ne (Nat.le_of_lt_succ hlt) hi, huse⟩
  · rw [hcount.1]
    exact not_le.mp hfull
  · rw [hcount.2.1, hcount.1, h.poolNext]
  · rw [hcount.2.2, hcount.1, h.demoCtxNext]
  · refine Window.Fitting.of_unlinked ?_ (hrel.same i)
    rcases List.mem_cons.mp hi with rfl | hi
    · rw [hnew]
      have hsize : (120 ≤ (300 : Int32).toInt ∧ (300 : Int32).toInt ≤ 300) ∧
          84 ≤ (224 : Int32).toInt ∧ (224 : Int32).toInt ≤ 224 := by decide
      exact ⟨hx, hy, hsize.1, hsize.2, rfl, rfl⟩
    · rw [hold i (hne i hi)]
      exact h.fitting i hi
  · rw [hdrag.1] at hdragging
    obtain ⟨w, hw, hwin⟩ := h.drag hdragging
    exact ⟨w, List.mem_cons_of_mem _ hw, hdrag.2.1.trans hwin⟩
  · rw [hdrag.2.2.1]
    exact h.dragOx
  · rw [hdrag.2.2.2]
    exact h.dragOy

/-- A size that is kept in bounds. -/
lemma toInt_clamp (n : Int32) {low high : Int32} {a b : ℤ} (hlow : low.toInt = a)
    (hhigh : high.toInt = b) (hle : a ≤ b) :
    a ≤ (if high < (if n < low then low else n) then high else if n < low then low else n).toInt ∧
      (if high < (if n < low then low else n) then high else if n < low then low
      else n).toInt ≤ b := by
  split_ifs with h₁ h₂ h₂ <;> simp only [Int32.lt_iff_toInt_lt] at h₁ h₂ <;> omega

/-- A window is resized with the mouse. -/
lemma onResize (h : s.Sound l) (hw : w ∈ l) (x y : Int32) : (s.onResize w x y).Sound l := by
  have hfit := h.fitting w hw
  have hminw : winMinW.toInt = 120 := by decide
  have hmaxw : (300 : Int32).toInt = 300 := by decide
  have hminh : winMinH.toInt = 84 := by decide
  have hmaxh : (winTitleH + 200).toInt = 224 := by decide
  unfold Wm.onResize
  dsimp only
  rw [hfit.surfaceW, hfit.surfaceH]
  have hfirst : (if s.drag = .resizeR ∨ s.drag = .resizeBR then
      s.setWin w fun win => { win with
        w := if 300 < (if s.dragSw + (x - s.dragSx) < winMinW then winMinW
          else s.dragSw + (x - s.dragSx))
          then 300 else if s.dragSw + (x - s.dragSx) < winMinW then winMinW
            else s.dragSw + (x - s.dragSx) } else s).Sound l := by
    by_cases hright : s.drag = .resizeR ∨ s.drag = .resizeBR
    · rw [if_pos hright]
      refine h.setWin hw (fun _ => rfl) (fun _ => rfl) (fun _ => rfl) ?_
      have hbounds := toInt_clamp (s.dragSw + (x - s.dragSx)) hminw hmaxw (by decide)
      exact ⟨hfit.x, hfit.y, hbounds, hfit.h, hfit.surfaceW, hfit.surfaceH⟩
    · rw [if_neg hright]
      exact h
  generalize (if s.drag = .resizeR ∨ s.drag = .resizeBR then _ else s) = t at *
  have hfit' := hfirst.fitting w hw
  have hbounds := toInt_clamp (t.dragSh + (y - t.dragSy)) hminh hmaxh (by decide)
  by_cases hbottom : t.drag = .resizeB ∨ t.drag = .resizeBR
  · rw [if_pos hbottom]
    refine hfirst.setWin hw (fun _ => rfl) (fun _ => rfl) (fun _ => rfl) ?_
    exact ⟨hfit'.x, hfit'.y, hfit'.w, hbounds, hfit'.surfaceW, hfit'.surfaceH⟩
  · rw [if_neg hbottom]
    exact hfirst

/-- A window is moved or resized with the mouse. -/
lemma onMove (h : s.Sound l) {x y : Int32} (hx : 0 ≤ x.toInt ∧ x.toInt < 1024)
    (hy : 0 ≤ y.toInt ∧ y.toInt < 1024) : (s.onMove x y).Sound l := by
  have hmouse : ({ s with mx := x, my := y } : Wm).Sound l :=
    ⟨⟨h.links, h.mem, h.le, h.poolNext, h.demoCtxNext⟩, h.fitting, h.drag, h.dragOx, h.dragOy⟩
  have hmem : ∀ w, s.drag ≠ .none → s.dragWin = some w → w ∈ l := by
    intro w hdrag hwin
    obtain ⟨w', hw', heq⟩ := h.drag hdrag
    exact Option.some.inj (heq.symm.trans hwin) ▸ hw'
  unfold Wm.onMove
  dsimp only
  split
  · exact hmouse
  · next w hdrag hwin =>
    have hw := hmem w (by rw [hdrag]; decide) hwin
    have hfit := h.fitting w hw
    have hox := h.dragOx
    have hoy := h.dragOy
    refine hmouse.setWin hw (fun _ => rfl) (fun _ => rfl) (fun _ => rfl) ?_
    refine ⟨?_, ?_, hfit.w, hfit.h, hfit.surfaceW, hfit.surfaceH⟩
    · rw [toInt_sub (by omega) (by omega)]
      omega
    · rw [toInt_sub (by omega) (by omega)]
      omega
  · next w hdrag hwin _ => exact hmouse.onResize (hmem w hwin hdrag) x y
  · exact hmouse

/-- A window is closed, while none is dragged. -/
lemma close (h : s.Sound l) (hw : w ∈ l) (hdrag : s.drag = .none) :
    ((s.zUnlink w).setWin w fun win => { win with inUse := false }).Sound (l.erase w) := by
  obtain ⟨hl, hrel⟩ := zUnlink_links h.links hw
  have hrest := hrel.rest
  generalize s.zUnlink w = t at *
  have hnodup := h.nodup
  have hne : ∀ i ∈ l.erase w, i ≠ w := fun i hi => (hnodup.mem_erase_iff.mp hi).1
  have hother : ∀ i, i ≠ w →
      (t.setWin w fun win => { win with inUse := false }).winPool i = t.winPool i :=
    fun i hi => t.winPool_setWin_of_ne hi _
  have hcount : t.winPoolNext = s.winPoolNext ∧ t.poolNext = s.poolNext ∧
      t.demoCtxNext = s.demoCtxNext ∧ t.drag = s.drag ∧ t.dragOx = s.dragOx ∧
      t.dragOy = s.dragOy := by
    rw [hrest]
    exact ⟨rfl, rfl, rfl, rfl, rfl, rfl⟩
  obtain ⟨hnext, hpool, hdemo, hdrag', hox, hoy⟩ := hcount
  refine ⟨⟨?_, fun i => ?_, ?_, ?_, ?_⟩, fun i hi => ?_, fun hdragging => ?_, ?_, ?_⟩
  · exact hl.congr (fun i hi => congrArg Window.next (hother i (hne i hi)))
      fun i hi => congrArg Window.prev (hother i (hne i hi))
  · by_cases hi : i = w
    · subst hi
      rw [winPool_setWin_self]
      exact iff_of_false hnodup.not_mem_erase fun hin => Bool.false_ne_true hin.2
    · have hinUse : (t.winPool i).inUse = (s.winPool i).inUse := by
        have hsame := congrArg Window.inUse (hrel.same i)
        exact hsame
      rw [hnodup.mem_erase_iff, and_iff_right hi, h.mem, hother i hi, hinUse, ← hnext]
      rfl
  · exact hnext.trans_le h.le
  · exact hpool.trans (h.poolNext.trans hnext.symm)
  · exact hdemo.trans (h.demoCtxNext.trans hnext.symm)
  · rw [hother i (hne i hi)]
    exact (h.fitting i (List.mem_of_mem_erase hi)).of_unlinked (hrel.same i)
  · exact absurd (hdrag'.trans hdrag) hdragging
  · exact hox ▸ h.dragOx
  · exact hoy ▸ h.dragOy

/-- A drag begins. -/
lemma beginDrag (h : s.Sound l) (hw : w ∈ l) (drag : DragMode) {ox oy : Int32}
    (hox : 0 ≤ ox.toInt ∧ ox.toInt ≤ 1024) (hoy : 0 ≤ oy.toInt ∧ oy.toInt ≤ 1024)
    (sw sh sx sy : Int32) :
    ({ s with
      drag := drag, dragWin := some w, dragOx := ox, dragOy := oy
      dragSw := sw, dragSh := sh, dragSx := sx, dragSy := sy } : Wm).Sound l :=
  ⟨⟨h.links, h.mem, h.le, h.poolNext, h.demoCtxNext⟩, h.fitting, fun _ => ⟨w, hw, rfl⟩, hox, hoy⟩

/-- The left button goes down on a window, while none is dragged. -/
lemma onHit (h : s.Sound l) (hw : w ∈ l) (hdrag : s.drag = .none) (hit : WinHit) {x y : Int32}
    (hin : Window.Contains (s.winPool w) x.toInt y.toInt) :
    (s.onHit w hit x y).Sound (if hit = .close then l.erase w else w :: l.erase w) := by
  obtain ⟨-, hrel⟩ := zRaise_links h.links hw
  have hraised := h.zRaise hw
  have hfirst : w ∈ w :: l.erase w := List.mem_cons_self
  have hfit := hraised.fitting w hfirst
  have hdrag' : (s.zRaise w).drag = .none := by
    rw [hrel.rest]
    exact hdrag
  -- raising leaves the window where it is
  have hin' := (Window.contains_congr (hrel.same w) x.toInt y.toInt).mpr hin
  unfold Wm.onHit
  generalize s.zRaise w = t at *
  cases hit with
  | close =>
    have hclosed := hraised.close hfirst hdrag'
    rw [List.erase_cons_head] at hclosed
    exact hclosed
  | title =>
    obtain ⟨hfx, hfy, hfw, hfh, -, -⟩ := hfit
    obtain ⟨hx, hy⟩ := hin'
    refine hraised.beginDrag hfirst .move ?_ ?_ t.dragSw t.dragSh t.dragSx t.dragSy
    · rw [toInt_sub (by omega) (by omega)]
      omega
    · rw [toInt_sub (by omega) (by omega)]
      omega
  | resizeR => exact hraised.beginDrag hfirst _ hraised.dragOx hraised.dragOy _ _ x y
  | resizeB => exact hraised.beginDrag hfirst _ hraised.dragOx hraised.dragOy _ _ x y
  | resizeBR => exact hraised.beginDrag hfirst _ hraised.dragOx hraised.dragOy _ _ x y
  | client => exact hraised
  | none => exact hraised

/-- The left button goes down on the task bar. -/
lemma onTaskbar (h : s.Sound l) (x : Int32) :
    (s.onTaskbar x).Sound
      (if 8 ≤ x ∧ x < 8 + launchBtnW then if s.winPoolNext < wmMaxWin then s.winPoolNext :: l else l
      else
        match taskbarButton x (8 + launchBtnW + btnGap) l.reverse with
        | some w => w :: l.erase w
        | none => l) := by
  have hlen := h.length_le
  unfold Wm.onTaskbar
  rw [h.zGather_eq]
  dsimp only
  by_cases hlaunch : 8 ≤ x ∧ x < 8 + launchBtnW
  · rw [if_pos hlaunch, if_pos hlaunch]
    have hall : ∀ n ≤ wmMaxWin,
      (-1024 ≤ (40 + 24 * Int32.ofNat n).toInt ∧ (40 + 24 * Int32.ofNat n).toInt ≤ 1024) ∧
        -1024 ≤ (80 + 20 * Int32.ofNat n).toInt ∧ (80 + 20 * Int32.ofNat n).toInt ≤ 1024 := by
      decide
    exact h.spawnDemoWindow (hall _ hlen).1 (hall _ hlen).2
  · rw [if_neg hlaunch, if_neg hlaunch]
    cases hbutton : taskbarButton x (8 + launchBtnW + btnGap) l.reverse with
    | none => exact h
    | some w => exact h.zRaise (List.mem_reverse.mp (mem_of_taskbarButton hbutton))

/-- The window that is hit is the first one with the point. -/
lemma find_hit (h : s.Sound l) (x y : Int32) :
    (l.find? fun w => windowHitTest (s.winPool w) x y ≠ .none) =
      l.find? fun w => Window.Contains (s.winPool w) x.toInt y.toInt := by
  refine List.find?_congr fun w hw => ?_
  exact decide_eq_decide.mpr (windowHitTest_ne_none_iff (h.fitting w hw) x y)

/-- An event. -/
lemma onEvent (h : s.Sound l) {scr : Screen} {ev : Event} (hscreen : OnScreen scr ev)
    (hdrag : ev.type = .mouseDown → ev.code = MouseButton.left.bit → s.drag = .none) :
    (onEvent scr s ev).Sound (orderAfter scr s l ev) := by
  have hw := scr.w_le
  have hh := scr.h_le
  unfold OnScreen at hscreen
  unfold Wm.onEvent orderAfter
  cases htype : ev.type with
  | none => exact h
  | keyUp => exact h
  | keyDown =>
    rw [if_pos (Or.inl (by decide))]
    dsimp only
    split_ifs
    · exact ⟨⟨h.links, h.mem, h.le, h.poolNext, h.demoCtxNext⟩, h.fitting, h.drag,
        h.dragOx, h.dragOy⟩
    · exact h
  | mouseMove =>
    obtain ⟨hx, hy⟩ := hscreen (Or.inl htype)
    exact h.onMove (by omega) (by omega)
  | mouseUp =>
    rw [if_pos (Or.inl (by decide))]
    dsimp only
    split_ifs
    · exact ⟨⟨h.links, h.mem, h.le, h.poolNext, h.demoCtxNext⟩, h.fitting,
        fun hdragging => absurd rfl hdragging, h.dragOx, h.dragOy⟩
    · exact h
  | mouseDown =>
    dsimp only
    by_cases hleft : ev.code = MouseButton.left.bit
    · rw [if_neg (not_not.mpr hleft), if_neg (not_or.mpr ⟨not_not.mpr rfl, not_not.mpr hleft⟩)]
      by_cases hbar : scr.h - taskbarH ≤ ev.y
      · rw [if_pos hbar, if_pos hbar]
        exact h.onTaskbar ev.x
      · rw [if_neg hbar, if_neg hbar, onDesktop, h.zGather_eq, h.find_hit]
        cases hfind : l.find? fun w => Window.Contains (s.winPool w) ev.x.toInt ev.y.toInt with
        | none => exact h
        | some w =>
          have hpoint := List.find?_some hfind
          exact h.onHit (List.mem_of_find?_eq_some hfind) (hdrag htype hleft) _
            (of_decide_eq_true hpoint)
    · rw [if_pos hleft, if_pos (Or.inr hleft)]
      exact h

/-- `wm_run` begins, with the windows of its earlier runs. -/
lemma start (h : s.Sound l) (scr : Screen) : ∃ l', (s.start scr).Sound l' := by
  have hpos := scr.w_pos
  have hle := scr.w_le
  have htwo : (2 : Int32).toInt = 2 := by decide
  have hleft320 : (320 : Int32).toInt = 320 := by decide
  have hright16 : (16 : Int32).toInt = 16 := by decide
  have hhalf : (scr.w / 2).toInt = scr.w.toInt / 2 := by
    rw [Int32.toInt_div, htwo, Int.tdiv_eq_ediv_of_nonneg hpos.le]
    exact bmod_eq_self (by omega) (by omega)
  have hleft : (scr.w / 2 - 320).toInt = scr.w.toInt / 2 - 320 := by
    rw [toInt_sub (by omega) (by omega), hhalf, hleft320]
  have hright : (scr.w / 2 + 16).toInt = scr.w.toInt / 2 + 16 := by
    rw [toInt_add (by omega) (by omega), hhalf, hright16]
  have hzero : 0 ≤ (0 : Int32).toInt ∧ (0 : Int32).toInt ≤ 1024 := by decide
  have hmouse : ({ s with mx := scr.w / 2, my := scr.h / 2 } : Wm).Sound l :=
    ⟨⟨h.links, h.mem, h.le, h.poolNext, h.demoCtxNext⟩, h.fitting, h.drag, h.dragOx, h.dragOy⟩
  have hfirst := hmouse.spawnDemoWindow (x := scr.w / 2 - 320) (y := 96) (by omega) (by decide)
  have hsecond := hfirst.spawnDemoWindow (x := scr.w / 2 + 16) (y := 160) (by omega) (by decide)
  exact ⟨_, ⟨hsecond.links, hsecond.mem, hsecond.le, hsecond.poolNext, hsecond.demoCtxNext⟩,
    hsecond.fitting, fun hdragging => absurd rfl hdragging, hzero, hzero⟩

end Sound

/-- Before the first run. -/
lemma sound_boot : boot.Sound [] :=
  ⟨⟨rfl, fun i => by simp [boot], by decide, rfl, rfl⟩, fun i hi => absurd hi List.not_mem_nil,
    fun hdragging => absurd rfl hdragging, by decide, by decide⟩

/-! ## Runs -/

/-- The mouse events are on the screen, and presses and releases of the left button alternate. -/
structure Proper (scr : Screen) (evs : List Event) : Prop where
  onScreen : ∀ ev ∈ evs, OnScreen scr ev
  alternates : (EventHistory.edges .left evs).IsChain (· ≠ ·)

lemma drag_onResize (s : Wm) (w : ℕ) (x y : Int32) : (s.onResize w x y).drag = s.drag := by
  have hite : ∀ (c : Prop) [Decidable c] (t : Wm) (f : Window → Window),
      (if c then t.setWin w f else t).drag = t.drag := by
    intro c _ t f
    split <;> rfl
  unfold onResize
  dsimp only
  rw [hite, hite]

lemma drag_setNext (s : Wm) (p v : Option ℕ) : (s.setNext p v).drag = s.drag := by cases p <;> rfl

lemma drag_setPrev (s : Wm) (n v : Option ℕ) : (s.setPrev n v).drag = s.drag := by cases n <;> rfl

lemma drag_zUnlink (s : Wm) (w : ℕ) : (s.zUnlink w).drag = s.drag :=
  (drag_setPrev ..).trans (drag_setNext ..)

lemma drag_zPushFront (s : Wm) (w : ℕ) : (s.zPushFront w).drag = s.drag := drag_setPrev ..

lemma drag_zRaise (s : Wm) (w : ℕ) : (s.zRaise w).drag = s.drag := by
  unfold zRaise
  split
  · rfl
  · exact (drag_zPushFront ..).trans (drag_zUnlink ..)

lemma drag_spawnDemoWindow (s : Wm) (x y : Int32) : (s.spawnDemoWindow x y).drag = s.drag := by
  unfold spawnDemoWindow windowCreate ugfxSurfaceFromPool
  dsimp only
  by_cases hdemo : wmMaxWin ≤ s.demoCtxNext
  · rw [if_pos hdemo]
  rw [if_neg hdemo]
  by_cases hwin : wmMaxWin ≤ s.winPoolNext
  · rw [if_pos hwin]
  rw [if_neg hwin]
  by_cases hpool : wmMaxWin ≤ s.poolNext
  · rw [if_pos hpool]
  · rw [if_neg hpool]
    exact drag_zPushFront ..

/-- What is under the pointer: nothing on the task bar, else the first window with the point. -/
def underPointer (scr : Screen) (s : Wm) (l : List ℕ) (x y : Int32) : WinHit :=
  if scr.h - taskbarH ≤ y then .none
  else
    match l.find? fun w => Window.Contains (s.winPool w) x.toInt y.toInt with
    | some w => windowHitTest (s.winPool w) x y
    | none => .none

/-- The drag state of `wm_run` is the one that is derived from the events. -/
lemma drag_onEvent (h : s.Sound l) (scr : Screen) (ev : Event) :
    (onEvent scr s ev).drag = s.drag.onEvent (underPointer scr s l ev.x ev.y) ev := by
  unfold onEvent DragMode.onEvent
  cases htype : ev.type with
  | none => rfl
  | keyUp => rfl
  | keyDown =>
    dsimp only
    split <;> rfl
  | mouseMove =>
    dsimp only
    unfold onMove
    dsimp only
    split
    · rfl
    · rfl
    · exact drag_onResize ..
    · rfl
  | mouseUp =>
    dsimp only
    split <;> rfl
  | mouseDown =>
    dsimp only
    by_cases hleft : ev.code = MouseButton.left.bit
    · rw [if_neg (not_not.mpr hleft), if_neg (not_not.mpr hleft), underPointer]
      by_cases hbar : scr.h - taskbarH ≤ ev.y
      · rw [if_pos hbar, if_pos hbar, onTaskbar]
        dsimp only
        split_ifs
        · exact drag_spawnDemoWindow ..
        · split
          · exact drag_zRaise ..
          · rfl
      · rw [if_neg hbar, if_neg hbar, onDesktop, h.zGather_eq, h.find_hit]
        cases l.find? fun w => Window.Contains (s.winPool w) ev.x.toInt ev.y.toInt with
        | none => rfl
        | some w =>
          dsimp only
          unfold onHit
          cases windowHitTest (s.winPool w) ev.x ev.y with
          | close => exact (drag_zUnlink ..).trans (drag_zRaise ..)
          | title => rfl
          | resizeR => rfl
          | resizeB => rfl
          | resizeBR => rfl
          | client => exact drag_zRaise ..
          | none => exact drag_zRaise ..
    · rw [if_pos hleft, if_pos hleft]

/-- Only a press or a release of the left button changes whether there is a drag. -/
lemma drag_onEvent_of_not_edge (h : s.Sound l) (scr : Screen) {ev : Event}
    (hedge : EventHistory.isEdge .left ev = false) : (onEvent scr s ev).drag = s.drag := by
  have hcode : ev.type = .mouseDown ∨ ev.type = .mouseUp → ev.code ≠ MouseButton.left.bit :=
    fun htype hleft => of_decide_eq_false hedge ⟨htype, hleft⟩
  rw [drag_onEvent h]
  unfold DragMode.onEvent
  cases htype : ev.type with
  | mouseUp => exact if_neg (hcode (Or.inr htype))
  | mouseDown => exact if_pos (hcode (Or.inl htype))
  | none => rfl
  | keyUp => rfl
  | keyDown => rfl
  | mouseMove => rfl

/-- The windows in a run, from a state in which there is no drag unless the button is held. -/
lemma sound_foldl {scr : Screen} {evs : List Event} {held : Bool} (h : s.Sound l)
    (hheld : held = false → s.drag = .none) (hscreen : ∀ ev ∈ evs, OnScreen scr ev)
    (halt : (held :: EventHistory.edges .left evs).IsChain (· ≠ ·)) :
    (∃ l', (evs.foldl (onEvent scr) s).Sound l') ∧
      ((EventHistory.edges .left evs).getLast?.getD held = false →
        (evs.foldl (onEvent scr) s).drag = .none) := by
  induction evs generalizing s l held with
  | nil => exact ⟨⟨l, h⟩, hheld⟩
  | cons ev evs ih =>
    have hev := hscreen ev List.mem_cons_self
    have hrest := fun ev' hev' => hscreen ev' (List.mem_cons_of_mem ev hev')
    by_cases hedge : EventHistory.isEdge .left ev = true
    · have hcons : EventHistory.edges .left (ev :: evs) =
          decide (ev.type = .mouseDown) :: EventHistory.edges .left evs := by
        rw [EventHistory.edges, List.filter_cons_of_pos hedge]
        rfl
      obtain ⟨htype, hleft⟩ := of_decide_eq_true hedge
      rw [hcons] at halt ⊢
      obtain ⟨hne, htail⟩ := List.isChain_cons_cons.mp halt
      rw [List.getLast?_cons, Option.getD_some]
      have hnext := h.onEvent hev fun hdown _ => hheld (by
        rw [hdown] at hne
        simpa using hne)
      refine ih hnext (fun hup => ?_) hrest htail
      have hmouseUp : ev.type = .mouseUp := htype.resolve_left (of_decide_eq_false hup)
      rw [onEvent, hmouseUp]
      exact congrArg Wm.drag (if_pos hleft)
    · have hnone : EventHistory.edges .left (ev :: evs) = EventHistory.edges .left evs := by
        rw [EventHistory.edges, List.filter_cons_of_neg hedge]
        rfl
      rw [hnone] at halt ⊢
      have hnext := h.onEvent hev fun htype hleft =>
        absurd (by simp [EventHistory.isEdge, htype, hleft]) hedge
      have hsame := drag_onEvent_of_not_edge h scr (eq_false_of_ne_true hedge)
      exact ih hnext (fun hf => hsame.trans (hheld hf)) hrest halt

/-- A list that alternates does so behind one of the two values. -/
lemma exists_isChain_cons {bs : List Bool} (h : bs.IsChain (· ≠ ·)) :
    ∃ b, (b :: bs).IsChain (· ≠ ·) := by
  cases bs with
  | nil => exact ⟨false, List.isChain_singleton _⟩
  | cons b bs => exact ⟨!b, List.isChain_cons_cons.mpr ⟨by simp, h⟩⟩

/-- The windows after a run. -/
lemma sound_wmRun {scr : Screen} {evs : List Event} (h : s.Sound l) (hevs : Proper scr evs) :
    ∃ l', (wmRun scr s evs).Sound l' := by
  obtain ⟨l₀, hstart⟩ := h.start scr
  obtain ⟨held, halt⟩ := exists_isChain_cons hevs.alternates
  exact (sound_foldl hstart (fun _ => rfl) hevs.onScreen halt).1

/-- The windows after several runs. -/
lemma sound_sessions {scr : Screen} {sessions : List (List Event)} (h : s.Sound l)
    (hsessions : ∀ session ∈ sessions, Proper scr session) :
    ∃ l', (sessions.foldl (wmRun scr) s).Sound l' := by
  induction sessions generalizing s l with
  | nil => exact ⟨l, h⟩
  | cons session sessions ih =>
    obtain ⟨l', h'⟩ := sound_wmRun h (hsessions session List.mem_cons_self)
    exact ih h' fun session' hmem => hsessions session' (List.mem_cons_of_mem session hmem)

/-- The button does not go down during a drag. -/
lemma drag_wmRun {scr : Screen} {evs : List Event} {ev : Event} (h : s.Sound l)
    (hevs : Proper scr (evs ++ [ev])) (htype : ev.type = .mouseDown)
    (hleft : ev.code = MouseButton.left.bit) : (wmRun scr s evs).drag = .none := by
  obtain ⟨l₀, hstart⟩ := h.start scr
  have hlast : EventHistory.edges .left [ev] = [true] := by
    simp [EventHistory.edges, EventHistory.isEdge, htype, hleft]
  have halternates := hevs.alternates
  rw [EventHistory.edges_append, hlast] at halternates
  obtain ⟨held, halt⟩ := exists_isChain_cons halternates
  obtain ⟨hchain, -, hne⟩ := List.isChain_append.mp (show ((held :: EventHistory.edges .left evs) ++
    [true]).IsChain (· ≠ ·) from halt)
  have hscreen : ∀ ev' ∈ evs, OnScreen scr ev' := fun ev' hmem =>
    hevs.onScreen ev' (List.mem_append_left _ hmem)
  refine (sound_foldl hstart (fun _ => rfl) hscreen hchain).2 ?_
  have hup := hne ((EventHistory.edges .left evs).getLast?.getD held)
    (by rw [List.getLast?_cons]; rfl) true rfl
  simpa using hup

/-- A window that is hit is the only one that changes. -/
lemma onHit_acts (h : s.Sound l) (hw : w ∈ l) (hdrag : s.drag = .none)
    (hit : WinHit) (x y : Int32) :
    (∀ i, i ≠ w → Window.unlinked ((s.onHit w hit x y).winPool i) = Window.unlinked (s.winPool i)) ∧
      ((s.onHit w hit x y).drag ≠ .none → (s.onHit w hit x y).dragWin = some w) := by
  obtain ⟨hl, hrel⟩ := zRaise_links h.links hw
  have hdrag' : (s.zRaise w).drag = .none := (drag_zRaise s w).trans hdrag
  unfold onHit
  generalize s.zRaise w = t at *
  cases hit with
  | close =>
    obtain ⟨-, hrel'⟩ := zUnlink_links hl List.mem_cons_self
    refine ⟨fun i hi => ?_, fun hdragging => absurd ?_ hdragging⟩
    · dsimp only
      rw [winPool_setWin_of_ne _ hi]
      exact (hrel.trans hrel').same i
    · exact (drag_zUnlink t w).trans hdrag'
  | title => exact ⟨fun i _ => hrel.same i, fun _ => rfl⟩
  | resizeR => exact ⟨fun i _ => hrel.same i, fun _ => rfl⟩
  | resizeB => exact ⟨fun i _ => hrel.same i, fun _ => rfl⟩
  | resizeBR => exact ⟨fun i _ => hrel.same i, fun _ => rfl⟩
  | client => exact ⟨fun i _ => hrel.same i, fun hdragging => absurd hdrag' hdragging⟩
  | none => exact ⟨fun i _ => hrel.same i, fun hdragging => absurd hdrag' hdragging⟩

/-- What a left click above the task bar does. -/
lemma actsOnFirst_onEvent (h : s.Sound l) {scr : Screen} {ev : Event} (hclick : ClickAbove scr ev)
    (hdrag : s.drag = .none) : ActsOnFirst s l ev.x ev.y (onEvent scr s ev) := by
  obtain ⟨⟨htype, hleft⟩, habove⟩ := hclick
  have hbar : ¬scr.h - taskbarH ≤ ev.y := by
    rw [Int32.le_iff_toInt_le, not_le, ← Int32.lt_iff_toInt_lt]
    exact habove
  have heq : onEvent scr s ev = s.onDesktop ev.x ev.y := by
    rw [onEvent, htype]
    dsimp only
    rw [if_neg (not_not.mpr hleft), if_neg hbar]
  rw [heq, onDesktop, h.zGather_eq, h.find_hit, ActsOnFirst]
  cases hfind : l.find? fun w => Window.Contains (s.winPool w) ev.x.toInt ev.y.toInt with
  | none => rfl
  | some w => exact onHit_acts h (List.mem_of_find?_eq_some hfind) hdrag _ ev.x ev.y

/-- In every state of every run, the windows that were created and not closed are linked both ways
in one order, and a drag is of one of them; every event changes the order as the list says, and a
left click above the task bar acts on the first window with the point. -/
theorem wmRun_stacked (scr : Screen) (sessions : List (List Event)) (evs : List Event)
    (hsessions : ∀ session ∈ sessions, Proper scr session) (hevs : Proper scr evs) :
    let s := wmRun scr (sessions.foldl (wmRun scr) boot) evs
    let l := s.zGather wmMaxWin
    s.Stacked l ∧ l.Nodup ∧ (s.drag ≠ .none → ∃ w ∈ l, s.dragWin = some w) ∧
      ∀ ev, Proper scr (evs ++ [ev]) →
        (onEvent scr s ev).Stacked (orderAfter scr s l ev) ∧
        (ClickAbove scr ev → ActsOnFirst s l ev.x ev.y (onEvent scr s ev)) := by
  obtain ⟨l₀, hbefore⟩ := sound_sessions sound_boot hsessions
  obtain ⟨l, hsound⟩ := sound_wmRun hbefore hevs
  intro s l'
  have hl : l' = l := hsound.zGather_eq
  rw [hl]
  refine ⟨hsound.toStacked, hsound.nodup, hsound.drag, fun ev hev => ⟨?_, fun hclick => ?_⟩⟩
  · have hnext := hsound.onEvent (hev.onScreen ev (List.mem_append_right evs List.mem_cons_self))
      fun htype hleft => drag_wmRun hbefore hev htype hleft
    exact hnext.toStacked
  · exact actsOnFirst_onEvent hsound hclick (drag_wmRun hbefore hev hclick.1.1 hclick.1.2)

/-- For instance, a window is dragged, the manager is left and started again. -/
theorem wmRun_stacked_restart :
    (wmRun ⟨⟨1024, 768, by decide, by decide⟩, by decide, by decide⟩
      ([[⟨.mouseDown, 1, 0, 1, 300, 100⟩, ⟨.mouseMove, 0, 0, 1, 310, 120⟩]].foldl
        (wmRun ⟨⟨1024, 768, by decide, by decide⟩, by decide, by decide⟩) boot) []).Stacked
        [3, 2, 0, 1] := by
  have h := (wmRun_stacked ⟨⟨1024, 768, by decide, by decide⟩, by decide, by decide⟩
    [[⟨.mouseDown, 1, 0, 1, 300, 100⟩, ⟨.mouseMove, 0, 0, 1, 310, 120⟩]] []
    (fun session hmem => by
      obtain rfl := List.mem_singleton.mp hmem
      exact ⟨by decide, by decide⟩) ⟨by decide, by decide⟩).1
  have horder : (wmRun ⟨⟨1024, 768, by decide, by decide⟩, by decide, by decide⟩
      ([[⟨.mouseDown, 1, 0, 1, 300, 100⟩, ⟨.mouseMove, 0, 0, 1, 310, 120⟩]].foldl
        (wmRun ⟨⟨1024, 768, by decide, by decide⟩, by decide, by decide⟩) boot)
          []).zGather wmMaxWin =
      [3, 2, 0, 1] := by decide
  exact horder ▸ h

/-- A click on the task bar does not act on a window that covers it there. -/
theorem not_acts_on_taskbar :
    ¬∀ (scr : Screen) (evs : List Event) (ev : Event), Proper scr (evs ++ [ev]) →
      ev.type = .mouseDown → ev.code = MouseButton.left.bit →
      ∀ w, ((wmRun scr boot evs).zGather wmMaxWin).find?
          (fun w => Window.Contains ((wmRun scr boot evs).winPool w)
            ev.x.toInt ev.y.toInt) = some w →
        (onEvent scr (wmRun scr boot evs) ev).zGather wmMaxWin =
          if windowHitTest ((wmRun scr boot evs).winPool w) ev.x ev.y = .close then
            ((wmRun scr boot evs).zGather wmMaxWin).erase w
          else w :: ((wmRun scr boot evs).zGather wmMaxWin).erase w := by
  intro h
  have hclosed := h ⟨⟨1024, 768, by decide, by decide⟩, by decide, by decide⟩
    [⟨.mouseDown, 1, 0, 1, 300, 100⟩, ⟨.mouseMove, 0, 0, 1, 300, 740⟩,
      ⟨.mouseUp, 1, 0, 0, 300, 740⟩,
      ⟨.mouseMove, 0, 0, 0, 480, 745⟩] ⟨.mouseDown, 1, 0, 1, 480, 745⟩
    ⟨by decide, by decide⟩ rfl rfl 0 (by decide)
  exact absurd hclosed (by decide)

end Wm

end CoolFrost
