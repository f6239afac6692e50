import CoolFrost.Lib.Buffer
import CoolFrost.Lib.Zipper
import CoolFrost.Drivers.Keyboard

/-!
# Reading a line

`getline` (`drivers/keyboard.c`) edits a line in the buffer of its caller: it inserts at the cursor
and deletes before it by moving the rest of the line by one place.  It stays inside of the buffer,
in which it leaves the line that the keys make of an empty one.
-/

namespace CoolFrost

open Program Bytes

/-- What `getline` shows on the screen. -/
inductive ScreenCall
  | setCursorOffset (offset : Int32)
  | kprint (c : UInt8)

/-- The variables of `getline` and `shift_pressed`, the buffer, and the calls that show the line. -/
structure LineState where
  start : Bytes
  len : ℕ
  cursorPos : ℕ
  shiftPressed : Bool
  screen : List ScreenCall

namespace LineState

open Keyboard

/-! ## The function -/

/-- Read the byte at `i` of the buffer. -/
def loadAt (size i : ℕ) : Program LineState UInt8 := do
  let s ← get
  loadByte size s.start i

/-- Store a byte at `i` of the buffer. -/
def storeAt (size i : ℕ) (c : UInt8) : Program LineState PUnit := do
  inside size i 1
  modify fun s => { s with start := Function.update s.start i c }

/-- Call a function of the screen. -/
def call (c : ScreenCall) : Program LineState PUnit :=
  modify fun s => { s with screen := s.screen ++ [c] }

/-- The loop that moves the bytes from `i` on by one place to the left, with `n` rounds to go. -/
def shiftLeft (size : ℕ) : ℕ → ℕ → Program LineState PUnit
  | 0, _ => pure PUnit.unit
  | n + 1, i => do
    storeAt size i (← loadAt size (i + 1))
    shiftLeft size n (i + 1)

/-- The loop that moves the bytes before `i` by one place to the right, from `i` down, with `n`
rounds to go. -/
def shiftRight (size : ℕ) : ℕ → ℕ → Program LineState PUnit
  | 0, _ => pure PUnit.unit
  | n + 1, i => do
    storeAt size i (← loadAt size (i - 1))
    shiftRight size n (i - 1)

/-- The loop that prints the bytes from `i` on, with `n` rounds to go. -/
def printFrom (size : ℕ) : ℕ → ℕ → Program LineState PUnit
  | 0, _ => pure PUnit.unit
  | n + 1, i => do
    call (.kprint (← loadAt size i))
    printFrom size n (i + 1)

/-- The offset on the screen of a place in the line. -/
def offsetOf (base : Int32) (pos : ℕ) : Int32 := base + (UInt32.ofNat pos).toInt32 * 2

/-- The branch for a backspace. -/
def backspace (size : ℕ) (echo : Bool) (base : Int32) : Program LineState PUnit := do
  let s ← get
  if 0 < s.cursorPos then
    modify fun s => { s with cursorPos := s.cursorPos - 1, len := s.len - 1 }
    let s ← get
    shiftLeft size (s.len - s.cursorPos) s.cursorPos
    if echo then
      let save := offsetOf base s.cursorPos
      call (.setCursorOffset save)
      printFrom size (s.len - s.cursorPos) s.cursorPos
      call (.kprint 0x20)
      call (.setCursorOffset save)

/-- The branch for a regular character. -/
def insertChar (maxLen : UInt32) (echo : Bool) (base : Int32) (c : UInt8) :
    Program LineState PUnit := do
  let s ← get
  if s.len < (maxLen - 1).toNat then
    shiftRight maxLen.toNat (s.len - s.cursorPos) s.len
    storeAt maxLen.toNat s.cursorPos c
    modify fun s => { s with cursorPos := s.cursorPos + 1, len := s.len + 1 }
    let s ← get
    if echo then
      let save := offsetOf base s.cursorPos
      call (.setCursorOffset (offsetOf base (s.cursorPos - 1)))
      printFrom maxLen.toNat (s.len - (s.cursorPos - 1)) (s.cursorPos - 1)
      call (.setCursorOffset save)

/-- The body of the loop, for a scancode: whether it was Enter. -/
def getlineKey (maxLen : UInt32) (echo : Bool) (base : Int32) (sc : UInt8) :
    Program LineState Bool := do
  if sc &&& 0x80 ≠ 0 then
    if sc &&& 0x7F = 0x2A ∨ sc &&& 0x7F = 0x36 then
      modify fun s => { s with shiftPressed := false }
    return false
  if sc = 0x2A ∨ sc = 0x36 then
    modify fun s => { s with shiftPressed := true }
    return false
  if sc = keyLeft then
    let s ← get
    if 0 < s.cursorPos then
      modify fun s => { s with cursorPos := s.cursorPos - 1 }
      if echo then call (.setCursorOffset (offsetOf base (s.cursorPos - 1)))
    return false
  if sc = keyRight then
    let s ← get
    if s.cursorPos < s.len then
      modify fun s => { s with cursorPos := s.cursorPos + 1 }
      if echo then call (.setCursorOffset (offsetOf base (s.cursorPos + 1)))
    return false
  let s ← get
  let c := charOf s.shiftPressed sc
  if c = 0 then return false
  if c = 0x0A then return true
  if c = 0x08 then
    backspace maxLen.toNat echo base
    return false
  insertChar maxLen echo base c
  return false

/-- The loop, with the scancodes to come; it returns those that come after Enter. -/
def getlineLoop (maxLen : UInt32) (echo : Bool) (base : Int32) :
    List UInt8 → Program LineState (List UInt8)
  | [] => fun _ => none
  | sc :: scs => do
    if ← getlineKey maxLen echo base sc then return scs
    else getlineLoop maxLen echo base scs

/-- `getline`, with the offset of the cursor when it is called. -/
def getline (maxLen : UInt32) (echo : Bool) (offset : Int32) (scs : List UInt8) :
    Program LineState (List UInt8) := do
  modify fun s => { s with len := 0, cursorPos := 0 }
  let base := if echo then offset else 0
  let rest ← getlineLoop maxLen echo base scs
  let s ← get
  storeAt maxLen.toNat s.len 0
  return rest

/-! ## The keys -/

/-- What a scancode does to a line. -/
inductive Key
  | shift (down : Bool)
  | left
  | right
  | enter
  | backspace
  | insert (c : UInt8)
  | none
  deriving DecidableEq

/-- The key of a scancode. -/
def keyOf (shift : Bool) (sc : UInt8) : Key :=
  if sc = 0x2A ∨ sc = 0x36 then .shift true
  else if sc = 0xAA ∨ sc = 0xB6 then .shift false
  else if 0x80 ≤ sc then .none
  else if sc = keyLeft then .left
  else if sc = keyRight then .right
  else if sc = 0x1C then .enter
  else if sc = 0x0E then .backspace
  else if charOf shift sc = 0 then .none
  else .insert (charOf shift sc)

/-- A line with the state of the shift keys, after one more key; no character goes into a full
line. -/
def applyKey (room : ℕ) (p : Bool × Zipper UInt8) : Key → Bool × Zipper UInt8
  | .shift down => (down, p.2)
  | .left => (p.1, p.2.left)
  | .right => (p.1, p.2.right)
  | .backspace => (p.1, p.2.delete)
  | .insert c => (p.1, if p.2.toList.length < room then p.2.insert c else p.2)
  | .enter => p
  | .none => p

/-- A line after some scancodes. -/
def edit (room : ℕ) (p : Bool × Zipper UInt8) (scs : List UInt8) : Bool × Zipper UInt8 :=
  scs.foldl (fun p sc => applyKey room p (keyOf p.1 sc)) p

/-! ## The loops -/

variable {size n i : ℕ} {c : UInt8} {s : LineState} {Q : PUnit → LineState → Prop}

@[simp] lemma wp_loadAt (size i : ℕ) (Q : UInt8 → LineState → Prop) (s : LineState) :
    wp (loadAt size i) Q s ↔ i < size ∧ Q (s.start i) s := by
  rw [loadAt, wp_bind, wp_get, wp_loadByte]

@[simp] lemma wp_storeAt (size i : ℕ) (c : UInt8) (Q : PUnit → LineState → Prop) (s : LineState) :
    wp (storeAt size i c) Q s ↔
      i < size ∧ Q PUnit.unit { s with start := Function.update s.start i c } := by
  rw [storeAt, wp_bind, wp_inside, wp_modify, Nat.add_one_le_iff]

@[simp] lemma wp_call (c : ScreenCall) (Q : PUnit → LineState → Prop) (s : LineState) :
    wp (call c) Q s ↔ Q PUnit.unit { s with screen := s.screen ++ [c] } := by
  rw [call, wp_modify]

/-- The bytes from `i` on have moved by one place to the left. -/
lemma wp_shiftLeft (h : i + n < size) (s : LineState) :
    wp (shiftLeft size n i) (fun _ s' => s' =
      { s with start := fun j => if i ≤ j ∧ j < i + n then s.start (j + 1) else s.start j }) s := by
  induction n generalizing i s with
  | zero =>
    have hnone : ∀ j, ¬(i ≤ j ∧ j < i + 0) := fun j => by omega
    rw [shiftLeft, wp_pure]
    simp only [if_neg (hnone _)]
  | succ n ih =>
    rw [shiftLeft, wp_bind, wp_loadAt, wp_bind, wp_storeAt]
    refine ⟨by omega, by omega, wp_mono (ih (by omega) _) ?_⟩
    rintro _ s' rfl
    congr 1
    funext j
    dsimp only
    rcases lt_trichotomy j i with hlt | rfl | hgt
    · rw [if_neg (by omega), if_neg (by omega), Function.update_of_ne (by omega)]
    · rw [if_neg (by omega), if_pos (by omega), Function.update_self]
    · rw [Function.update_of_ne (by omega), Function.update_of_ne (by omega)]
      exact if_congr (by omega) rfl rfl

/-- The bytes before `i` have moved by one place to the right. -/
lemma wp_shiftRight (hi : i < size) (hn : n ≤ i) (s : LineState) :
    wp (shiftRight size n i) (fun _ s' => s' =
      { s with start := fun j => if i - n < j ∧ j ≤ i then s.start (j - 1) else s.start j }) s := by
  induction n generalizing i s with
  | zero =>
    have hnone : ∀ j, ¬(i - 0 < j ∧ j ≤ i) := fun j => by omega
    rw [shiftRight, wp_pure]
    simp only [if_neg (hnone _)]
  | succ n ih =>
    rw [shiftRight, wp_bind, wp_loadAt, wp_bind, wp_storeAt]
    refine ⟨by omega, by omega, wp_mono (ih (by omega) (by omega) _) ?_⟩
    rintro _ s' rfl
    congr 1
    funext j
    dsimp only
    rcases lt_trichotomy j i with hlt | rfl | hgt
    · rw [Function.update_of_ne (by omega), Function.update_of_ne (by omega)]
      exact if_congr (by omega) rfl rfl
    · rw [if_neg (by omega), if_pos (by omega), Function.update_self]
    · rw [if_neg (by omega), if_neg (by omega), Function.update_of_ne (by omega)]

/-- All but what is on the screen is the same. -/
def SameLine (s s' : LineState) : Prop := s' = { s with screen := s'.screen }

lemma SameLine.refl (s : LineState) : SameLine s s := rfl

/-- Printing changes the screen only. -/
lemma wp_printFrom (h : i + n ≤ size) (s : LineState) :
    wp (printFrom size n i) (fun _ s' => SameLine s s') s := by
  induction n generalizing i s with
  | zero =>
    rw [printFrom, wp_pure]
    exact SameLine.refl s
  | succ n ih =>
    rw [printFrom, wp_bind, wp_loadAt, wp_bind, wp_call]
    exact ⟨by omega, ih (by omega) _⟩

/-! ## The line in the buffer -/

/-- The buffer holds the line, and is as it was behind its end. -/
structure Holds (start : Bytes) (size : ℕ) (sh : Bool) (before after : List UInt8) (s : LineState) :
    Prop where
  len : s.len = before.length + after.length
  cursor : s.cursorPos = before.length
  shift : s.shiftPressed = sh
  left : slice s.start 0 before.length = before.reverse
  right : slice s.start before.length after.length = after
  room : s.len < size
  outside : ∀ i, size ≤ i → s.start i = start i

variable {start : Bytes} {sh : Bool} {before after : List UInt8} {s' : LineState}

/-- The line does not depend on what is shown. -/
lemma Holds.sameLine (h : Holds start size sh before after s) (hsame : SameLine s s') :
    Holds start size sh before after s' := by
  rw [hsame]
  exact ⟨h.len, h.cursor, h.shift, h.left, h.right, h.room, h.outside⟩

/-- The byte before the cursor, and those before it. -/
lemma slice_reverse_cons {b : Bytes} {c : UInt8} {l : List UInt8}
    (h : slice b 0 (c :: l).length = (c :: l).reverse) :
    slice b 0 l.length = l.reverse ∧ b l.length = c := by
  rw [List.length_cons, slice_add, List.reverse_cons, Nat.zero_add] at h
  obtain ⟨hinit, hlast⟩ := List.append_inj h (by simp [slice])
  exact ⟨hinit, (List.cons.inj hlast).1⟩

/-- The cursor moves to the left. -/
lemma Holds.left_cons (h : Holds start size sh (c :: before) after s) :
    Holds start size sh before (c :: after) { s with cursorPos := s.cursorPos - 1 } := by
  obtain ⟨hbefore, hc⟩ := slice_reverse_cons h.left
  refine ⟨?_, ?_, h.shift, hbefore, ?_, h.room, h.outside⟩
  · have hlen := h.len
    simp only [List.length_cons] at hlen ⊢
    omega
  · rw [h.cursor]
    rfl
  · have hafter := h.right
    rw [List.length_cons] at hafter ⊢
    rw [slice_succ, hc, hafter]

/-- The cursor moves to the right. -/
lemma Holds.right_cons (h : Holds start size sh before (c :: after) s) :
    Holds start size sh (c :: before) after { s with cursorPos := s.cursorPos + 1 } := by
  have hsplit := h.right
  rw [List.length_cons, slice_succ] at hsplit
  obtain ⟨hc, hafter⟩ := List.cons.inj hsplit
  refine ⟨?_, ?_, h.shift, ?_, hafter, h.room, h.outside⟩
  · have hlen := h.len
    simp only [List.length_cons] at hlen ⊢
    omega
  · change s.cursorPos + 1 = before.length + 1
    rw [h.cursor]
  · have hbefore := h.left
    rw [List.length_cons, slice_add, List.reverse_cons, hbefore, Nat.zero_add]
    exact congrArg (before.reverse ++ [·]) hc

/-- The byte before the cursor goes, and those behind it follow. -/
lemma Holds.delete (h : Holds start size sh (c :: before) after s)
    (hlen : s'.len = before.length + after.length)
    (hcursor : s'.cursorPos = before.length) (hshift : s'.shiftPressed = s.shiftPressed)
    (hstart : ∀ j, s'.start j =
      if before.length ≤ j ∧ j < before.length + after.length then s.start (j + 1) else s.start j) :
    Holds start size sh before after s' := by
  obtain ⟨hbefore, -⟩ := slice_reverse_cons h.left
  have hroom := h.room
  have hlen₀ : s.len = before.length + 1 + after.length := h.len
  refine ⟨hlen, hcursor, hshift.trans h.shift, ?_, ?_, by omega, fun i hi => ?_⟩
  · refine (slice_congr fun j hj => ?_).trans hbefore
    rw [Nat.zero_add, hstart, if_neg (by omega)]
  · refine (slice_congr fun j hj => ?_).trans h.right
    rw [hstart, if_pos (by omega), List.length_cons, Nat.add_right_comm]
  · rw [hstart, if_neg (by omega)]
    exact h.outside i hi

/-- The bytes behind the cursor make room for one more. -/
lemma Holds.insert (h : Holds start size sh before after s)
    (hroom : before.length + after.length + 1 < size)
    (hlen : s'.len = before.length + after.length + 1) (hcursor : s'.cursorPos = before.length + 1)
    (hshift : s'.shiftPressed = s.shiftPressed)
    (hstart : ∀ j, s'.start j = if j = before.length then c
      else if before.length < j ∧ j ≤ before.length + after.length then s.start (j - 1)
      else s.start j) :
    Holds start size sh (c :: before) after s' := by
  refine ⟨?_, hcursor, hshift.trans h.shift, ?_, ?_, by omega, fun i hi => ?_⟩
  · rw [hlen, List.length_cons]
    omega
  · have hbefore : slice s'.start 0 before.length = before.reverse := by
      refine (slice_congr fun j hj => ?_).trans h.left
      rw [Nat.zero_add, hstart, if_neg (by omega), if_neg (by omega)]
    have hc : s'.start before.length = c := by rw [hstart, if_pos rfl]
    rw [List.length_cons, slice_add, List.reverse_cons, hbefore, Nat.zero_add]
    exact congrArg (before.reverse ++ [·]) hc
  · refine (slice_congr fun j hj => ?_).trans h.right
    rw [List.length_cons, hstart, if_neg (by omega), if_pos (by omega)]
    congr 1
    omega
  · rw [hstart, if_neg (by omega), if_neg (by omega)]
    exact h.outside i hi

/-- A backspace deletes before the cursor. -/
lemma wp_backspace (h : Holds start size sh before after s) (echo : Bool) (base : Int32) :
    wp (backspace size echo base) (fun _ s' => Holds start size sh before.tail after s') s := by
  have hroom := h.room
  rw [backspace, wp_bind, wp_get]
  cases before with
  | nil =>
    have hcursor : s.cursorPos = 0 := h.cursor
    rw [if_neg (by omega), wp_pure]
    exact h
  | cons c before =>
    have hcursor : s.cursorPos = before.length + 1 := h.cursor
    have hlen : s.len = before.length + 1 + after.length := h.len
    rw [if_pos (by omega), wp_bind, wp_modify, wp_bind, wp_get, wp_bind]
    dsimp only
    refine wp_mono (wp_shiftLeft (by omega) _) ?_
    rintro _ s' hs'
    have hline : Holds start size sh before after s' := by
      rw [hs']
      refine h.delete ?_ ?_ rfl fun j => if_congr ?_ rfl rfl
      · dsimp only
        omega
      · dsimp only
        omega
      · omega
    by_cases hecho : echo = true
    · rw [if_pos hecho, wp_bind, wp_call, wp_bind]
      refine wp_mono (wp_printFrom (by omega) _) fun _ s'' hsame => ?_
      rw [wp_bind, wp_call, wp_call]
      refine hline.sameLine ?_
      rw [SameLine, hsame]
    · rw [if_neg hecho, wp_pure]
      exact hline

/-- A regular character is inserted at the cursor, unless the line is full. -/
lemma wp_insertChar {maxLen : UInt32} (hmax : 1 ≤ maxLen)
    (h : Holds start maxLen.toNat sh before after s) (echo : Bool) (base : Int32) (c : UInt8) :
    wp (insertChar maxLen echo base c) (fun _ s' => Holds start maxLen.toNat sh
      (if before.length + after.length < (maxLen - 1).toNat then c :: before else before)
      after s') s := by
  have hlen := h.len
  have hcursor := h.cursor
  have hone : (maxLen - 1).toNat = maxLen.toNat - 1 := UInt32.toNat_sub_of_le _ _ hmax
  rw [insertChar, wp_bind, wp_get, ← hlen]
  by_cases hroom : s.len < (maxLen - 1).toNat
  · rw [if_pos hroom, if_pos hroom, wp_bind]
    refine wp_mono (wp_shiftRight (by omega) (by omega) _) ?_
    rintro _ s₁ hs₁
    rw [wp_bind, wp_storeAt]
    refine ⟨by omega, ?_⟩
    rw [wp_bind, wp_modify, wp_bind, wp_get]
    dsimp only
    obtain ⟨s', hs'⟩ : ∃ s', s' = { s₁ with
        start := Function.update s₁.start s.cursorPos c
        len := s₁.len + 1
        cursorPos := s₁.cursorPos + 1 } := ⟨_, rfl⟩
    have hline : Holds start maxLen.toNat sh (c :: before) after s' := by
      rw [hs', hs₁]
      refine h.insert (by omega) (congrArg (· + 1) hlen) (congrArg (· + 1) hcursor) rfl fun j => ?_
      dsimp only
      rw [Function.update_apply, hcursor]
      exact if_congr Iff.rfl rfl (if_congr (by omega) rfl rfl)
    have hlen' := hline.len
    have hcursor' := hline.cursor
    have hroom' := hline.room
    rw [← hs']
    by_cases hecho : echo = true
    · rw [if_pos hecho, wp_bind, wp_call, wp_bind]
      refine wp_mono (wp_printFrom ?_ _) fun _ s'' hsame => ?_
      · rw [hs'] at hlen' hcursor' hroom'
        dsimp only at hlen' hcursor' hroom' ⊢
        omega
      · rw [wp_call]
        refine hline.sameLine ?_
        rw [SameLine, hsame, hs']
    · rw [if_neg hecho, wp_pure]
      exact hline
  · rw [if_neg hroom, if_neg hroom, wp_pure]
    exact h

/-! ## The loop over the keys -/

/-- The characters that are no characters. -/
lemma charOf_special (shift : Bool) (sc : UInt8) :
    (charOf shift sc = 0x0A ↔ sc = 0x1C) ∧ (charOf shift sc = 0x08 ↔ sc = 0x0E) := by
  have hall : ∀ p ∈ (if shift then keymapShift else keymap).zipIdx,
      (p.1 = 0x0A ↔ p.2 = 0x1C) ∧ (p.1 = 0x08 ↔ p.2 = 0x0E) := by
    cases shift <;> decide +kernel
  have hlen : 0x1C < (if shift then keymapShift else keymap).length := by cases shift <;> decide
  rw [charOf, List.getD_eq_getElem?_getD, ← UInt8.toNat_inj (a := sc), ← UInt8.toNat_inj (a := sc)]
  cases hentry : (if shift then keymapShift else keymap)[sc.toNat]? with
  | none =>
    have hge := List.getElem?_eq_none_iff.mp hentry
    refine ⟨iff_of_false (by decide) fun h => ?_, iff_of_false (by decide) fun h => ?_⟩
    · change sc.toNat = 0x1C at h
      omega
    · change sc.toNat = 0x0E at h
      omega
  | some c => exact hall (c, sc.toNat) (List.mk_mem_zipIdx_iff_getElem?.mpr hentry)

lemma break_iff (sc : UInt8) : sc &&& 0x80 ≠ 0 ↔ 0x80 ≤ sc := by
  have hall : ∀ i : Fin 256, UInt8.ofFin i &&& 0x80 ≠ 0 ↔ 0x80 ≤ UInt8.ofFin i := by
    decide +kernel
  exact hall sc.toFin

/-- A key does to the buffer what it does to the line. -/
lemma wp_getlineKey {maxLen : UInt32} (hmax : 1 ≤ maxLen) {p : Bool × Zipper UInt8}
    (h : Holds start maxLen.toNat p.1 p.2.before p.2.after s) (echo : Bool)
    (base : Int32) (sc : UInt8) :
    wp (getlineKey maxLen echo base sc) (fun enter s' => (enter = true ↔ keyOf p.1 sc = .enter) ∧
      Holds start maxLen.toNat (applyKey (maxLen - 1).toNat p (keyOf p.1 sc)).1
        (applyKey (maxLen - 1).toNat p (keyOf p.1 sc)).2.before
        (applyKey (maxLen - 1).toNat p (keyOf p.1 sc)).2.after s') s := by
  obtain ⟨sh, before, after⟩ := p
  have hshift : s.shiftPressed = sh := h.shift
  rw [getlineKey]
  by_cases hbreak : sc &&& 0x80 ≠ 0
  · obtain ⟨hleft, hright, hne⟩ := release_shift hbreak
    have hge := (break_iff sc).mp hbreak
    rw [if_pos hbreak]
    by_cases hrel : sc &&& 0x7F = 0x2A ∨ sc &&& 0x7F = 0x36
    · have hkey : keyOf sh sc = .shift false := by
        rw [hleft, hright] at hrel
        rw [keyOf, if_neg (not_or.mpr hne), if_pos hrel]
      rw [hkey]
      simp only [if_pos hrel, wp_bind, wp_modify, wp_pure]
      exact ⟨by decide, h.len, h.cursor, rfl, h.left, h.right, h.room, h.outside⟩
    · have hkey : keyOf sh sc = .none := by
        rw [hleft, hright] at hrel
        rw [keyOf, if_neg (not_or.mpr hne), if_neg hrel, if_pos hge]
      rw [hkey]
      simp only [if_neg hrel, wp_pure]
      exact ⟨by decide, h⟩
  have hlt : ¬0x80 ≤ sc := fun hge => hbreak ((break_iff sc).mpr hge)
  have hne : ¬(sc = 0xAA ∨ sc = 0xB6) := by
    rintro (rfl | rfl) <;> exact hlt (by decide)
  rw [if_neg hbreak]
  by_cases hmake : sc = 0x2A ∨ sc = 0x36
  · have hkey : keyOf sh sc = .shift true := if_pos hmake
    rw [hkey, if_pos hmake, wp_bind, wp_modify, wp_pure]
    exact ⟨by decide, h.len, h.cursor, rfl, h.left, h.right, h.room, h.outside⟩
  have hrest : keyOf sh sc = if sc = keyLeft then .left else if sc = keyRight then .right
      else if sc = 0x1C then .enter else if sc = 0x0E then .backspace
      else if charOf sh sc = 0 then .none else .insert (charOf sh sc) := by
    rw [keyOf, if_neg hmake, if_neg hne, if_neg hlt]
  rw [if_neg hmake, hrest]
  by_cases hleft : sc = keyLeft
  · rw [if_pos hleft, if_pos hleft, wp_bind, wp_get]
    cases before with
    | nil =>
      have hcursor : s.cursorPos = 0 := h.cursor
      simp only [if_neg (by omega : ¬0 < s.cursorPos), wp_pure]
      exact ⟨by decide, h⟩
    | cons c before =>
      have hcursor : s.cursorPos = before.length + 1 := h.cursor
      have hline := h.left_cons
      simp only [if_pos (by omega : 0 < s.cursorPos), wp_bind, wp_modify]
      by_cases hecho : echo = true
      · rw [if_pos hecho, wp_bind, wp_call, wp_pure]
        exact ⟨by decide, hline.sameLine rfl⟩
      · rw [if_neg hecho, wp_pure]
        exact ⟨by decide, hline⟩
  rw [if_neg hleft, if_neg hleft]
  by_cases hright : sc = keyRight
  · rw [if_pos hright, if_pos hright, wp_bind, wp_get]
    have hlen := h.len
    have hcursor := h.cursor
    cases after with
    | nil =>
      have hend : ¬s.cursorPos < s.len := by
        rw [List.length_nil] at hlen
        omega
      simp only [if_neg hend, wp_pure]
      exact ⟨by decide, h⟩
    | cons c after =>
      have hroom : s.cursorPos < s.len := by
        rw [List.length_cons] at hlen
        omega
      have hline := h.right_cons
      simp only [if_pos hroom, wp_bind, wp_modify]
      by_cases hecho : echo = true
      · rw [if_pos hecho, wp_bind, wp_call, wp_pure]
        exact ⟨by decide, hline.sameLine rfl⟩
      · rw [if_neg hecho, wp_pure]
        exact ⟨by decide, hline⟩
  rw [if_neg hright, if_neg hright, wp_bind, wp_get, hshift]
  dsimp only
  obtain ⟨henter, hback⟩ := charOf_special sh sc
  by_cases hnone : charOf sh sc = 0
  · have hnot : ¬sc = 0x1C ∧ ¬sc = 0x0E := by
      rw [← henter, ← hback, hnone]
      decide
    rw [if_pos hnone, if_neg hnot.1, if_neg hnot.2, if_pos hnone, wp_pure]
    exact ⟨by decide, h⟩
  rw [if_neg hnone]
  by_cases hreturn : sc = 0x1C
  · rw [if_pos (henter.mpr hreturn), if_pos hreturn, wp_pure]
    exact ⟨by decide, h⟩
  rw [if_neg fun hc => hreturn (henter.mp hc), if_neg hreturn]
  by_cases hdelete : sc = 0x0E
  · rw [if_pos (hback.mpr hdelete), if_pos hdelete, wp_bind]
    refine wp_mono (wp_backspace h echo base) fun _ s' hline => ?_
    rw [wp_pure]
    exact ⟨by decide, hline⟩
  · rw [if_neg fun hc => hdelete (hback.mp hc), if_neg hdelete, if_neg hnone, wp_bind]
    refine wp_mono (wp_insertChar hmax h echo base _) fun _ s' hline => ?_
    rw [wp_pure]
    refine ⟨by simp, ?_⟩
    rw [applyKey, Zipper.length_toList]
    by_cases hroom : before.length + after.length < (maxLen - 1).toNat
    · rw [if_pos hroom] at hline ⊢
      exact hline
    · rw [if_neg hroom] at hline ⊢
      exact hline

lemma keyOf_eq_enter_iff (shift : Bool) (sc : UInt8) : keyOf shift sc = .enter ↔ sc = 0x1C := by
  constructor
  · intro h
    unfold keyOf at h
    split_ifs at h with _ _ _ _ _ henter
    exact henter
  · rintro rfl
    rfl

/-- The loop up to Enter. -/
lemma wp_getlineLoop {maxLen : UInt32} (hmax : 1 ≤ maxLen) {p : Bool × Zipper UInt8}
    (h : Holds start maxLen.toNat p.1 p.2.before p.2.after s) (echo : Bool) (base : Int32)
    {scs : List UInt8} (hscs : 0x1C ∉ scs) (rest : List UInt8) :
    wp (getlineLoop maxLen echo base (scs ++ 0x1C :: rest)) (fun r s' => r = rest ∧
      Holds start maxLen.toNat (edit (maxLen - 1).toNat p scs).1
        (edit (maxLen - 1).toNat p scs).2.before (edit (maxLen - 1).toNat p scs).2.after s') s := by
  induction scs generalizing p s with
  | nil =>
    rw [List.nil_append, getlineLoop, wp_bind]
    refine wp_mono (wp_getlineKey hmax h echo base 0x1C) ?_
    rintro enter s' ⟨henter, hline⟩
    have hkey : keyOf p.1 0x1C = .enter := (keyOf_eq_enter_iff _ _).mpr rfl
    rw [hkey] at henter hline
    rw [if_pos (henter.mpr rfl), wp_pure]
    exact ⟨rfl, hline⟩
  | cons sc scs ih =>
    rw [List.cons_append, getlineLoop, wp_bind]
    refine wp_mono (wp_getlineKey hmax h echo base sc) ?_
    rintro enter s' ⟨henter, hline⟩
    have hkey : keyOf p.1 sc ≠ .enter := by
      rw [ne_eq, keyOf_eq_enter_iff]
      rintro rfl
      exact hscs List.mem_cons_self
    rw [if_neg fun he => hkey (henter.mp he)]
    exact ih hline fun hmem => hscs (List.mem_cons_of_mem sc hmem)

/-- The line that the keys make of an empty one is left in the buffer, with a NUL behind it,
whatever is shown and whatever the buffer held; the bytes behind the buffer stay as they are. -/
theorem getline_edits (maxLen : UInt32) (hmax : 1 ≤ maxLen) (echo : Bool) (offset : Int32)
    (s : LineState) (scs rest : List UInt8) (hscs : 0x1C ∉ scs) :
    wp (getline maxLen echo offset (scs ++ 0x1C :: rest)) (fun r s' =>
      let line := edit (maxLen - 1).toNat (s.shiftPressed, Zipper.empty) scs
      r = rest ∧ s'.shiftPressed = line.1 ∧
        slice s'.start 0 (line.2.toList.length + 1) = line.2.toList ++ [0] ∧
        ∀ i, maxLen.toNat ≤ i → s'.start i = s.start i) s := by
  have hpos : 0 < maxLen.toNat := UInt32.le_iff_toNat_le.mp hmax
  have hempty : Holds s.start maxLen.toNat s.shiftPressed [] []
      { s with len := 0, cursorPos := 0 } :=
    ⟨rfl, rfl, rfl, rfl, rfl, hpos, fun _ _ => rfl⟩
  rw [getline, wp_bind, wp_modify, wp_bind]
  dsimp only
  refine wp_mono (wp_getlineLoop hmax (p := (s.shiftPressed, Zipper.empty))
    hempty echo _ hscs rest) ?_
  rintro r s' ⟨rfl, hline⟩
  generalize edit (maxLen - 1).toNat (s.shiftPressed, Zipper.empty) scs = line at hline
  obtain ⟨sh, before, after⟩ := line
  have hroom := hline.room
  have hlen := hline.len
  dsimp only at hline hlen
  rw [wp_bind, wp_get, wp_bind, wp_storeAt]
  refine ⟨hroom, ?_⟩
  rw [wp_pure]
  refine ⟨rfl, hline.shift, ?_, fun i hi => ?_⟩
  · have htext : slice (Function.update s'.start s'.len 0) 0 s'.len = before.reverse ++ after := by
      have hsame : slice (Function.update s'.start s'.len 0) 0 s'.len = slice s'.start 0 s'.len :=
        slice_congr fun j hj => Function.update_of_ne (by omega) _ _
      rw [hsame, hlen, slice_add, hline.left, Nat.zero_add, hline.right]
    have hnul : slice (Function.update s'.start s'.len 0) s'.len 1 = [0] := by
      have hbyte : slice (Function.update s'.start s'.len 0) s'.len 1 =
          [Function.update s'.start s'.len 0 s'.len] := rfl
      rw [hbyte, Function.update_self]
    rw [Zipper.length_toList, ← hlen, slice_add, Nat.zero_add, htext, hnul]
    rfl
  · dsimp only
    rw [Function.update_of_ne (by omega)]
    exact hline.outside i hi

/-- A buffer of four bytes, into which `ab`, the left arrow, `c` and `d` are typed. -/
theorem getline_edits_acb :
    wp (getline 4 false 0 ([0x1E, 0x30, 0x62, 0x2E, 0x20] ++ 0x1C :: []))
      (fun r s' =>
        let line := edit ((4 : UInt32) - 1).toNat (false, Zipper.empty)
          [0x1E, 0x30, 0x62, 0x2E, 0x20]
        r = [] ∧ s'.shiftPressed = line.1 ∧
          slice s'.start 0 (line.2.toList.length + 1) = line.2.toList ++ [0] ∧
          ∀ i, (4 : UInt32).toNat ≤ i → s'.start i = 0) ⟨fun _ => 0, 0, 0, false, []⟩ :=
  getline_edits 4 (by decide) false 0 ⟨fun _ => 0, 0, 0, false, []⟩
    [0x1E, 0x30, 0x62, 0x2E, 0x20] []
    (by decide)

example : (edit 3 (false, Zipper.empty) [0x1E, 0x30, 0x62, 0x2E, 0x20]).2.toList =
    chars ['a', 'c', 'b'] := by
  decide

end LineState

end CoolFrost
