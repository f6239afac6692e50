import CoolFrost.Lib.Buffer
import CoolFrost.Drivers.Screen

/-!
# The text console

`drivers/screen.c` in text mode, where the cursor is kept by the hardware as the number of a cell.
Printing goes forward and scrolls at the end of the screen; a backspace goes back by one cell and
`kprint_backspace` by two, and neither looks where the screen begins.  Every store is to be inside
of the text buffer, and a program goes no further at one that is not.
-/

namespace CoolFrost

open Program Bytes Rune

/-- The text buffer, the cursor registers, and `utf8_cp` and `utf8_rem`. -/
structure VgaConsole where
  vid : Bytes
  cursor : ℕ
  pending : Pending

namespace VgaConsole

/-- `VGA_COLS`. -/
def vgaCols : ℕ := 80
/-- `VGA_ROWS`. -/
def vgaRows : ℕ := 25
/-- `WHITE_ON_BLACK`. -/
def whiteOnBlack : UInt8 := 0x0F
/-- `RED_ON_WHITE`. -/
def redOnWhite : UInt8 := 0xF4
/-- The size of the text buffer. -/
def vgaBytes : ℕ := 2 * (vgaCols * vgaRows)

/-! ## The functions -/

/-- `vga_get_cursor`. -/
def vgaGetCursor (s : VgaConsole) : ℤ := 2 * s.cursor

/-- `vga_set_cursor`. -/
def vgaSetCursor (off : ℤ) : Program VgaConsole PUnit :=
  modify fun s => { s with cursor := (off.tdiv 2 % 2 ^ 16).toNat }

/-- `get_offset`. -/
def getOffset (col row : ℤ) : ℤ := 2 * (row * vgaCols + col)

/-- Store a byte in the text buffer. -/
def poke (off : ℤ) (v : UInt8) : Program VgaConsole PUnit := do
  if off < 0 then fun _ => none
  else
    inside vgaBytes off.toNat 1
    modify fun s => { s with vid := Function.update s.vid off.toNat v }

/-- The loop that moves the rows from `i` on by one row up, with `n` rounds to go. -/
def moveRows : ℕ → ℕ → Program VgaConsole PUnit
  | 0, _ => pure PUnit.unit
  | n + 1, i => do
    inside vgaBytes (2 * ((i - 1) * vgaCols)) (vgaCols * 2)
    inside vgaBytes (2 * (i * vgaCols)) (vgaCols * 2)
    modify fun s =>
      { s with
        vid := blit s.vid (2 * ((i - 1) * vgaCols)) (shift s.vid (2 * (i * vgaCols)))
          (vgaCols * 2) }
    moveRows n (i + 1)

/-- The scrolling at the end of `print_char_vga`. -/
def scroll : Program VgaConsole PUnit := do
  moveRows (vgaRows - 1) 1
  inside vgaBytes (2 * ((vgaRows - 1) * vgaCols)) (vgaCols * 2)
  modify fun s => { s with vid := blit s.vid (2 * ((vgaRows - 1) * vgaCols)) zeros (vgaCols * 2) }

/-- What `print_char_vga` does at an offset: the offset behind it, before the scrolling. -/
def putChar (c attr : UInt8) (offset : ℤ) : Program VgaConsole ℤ := do
  if c = 0x0A then return getOffset 0 (offset.tdiv (2 * vgaCols) + 1)
  else if c = 0x08 then
    poke (offset - 2) 0x20
    poke (offset - 1) attr
    return offset - 2
  else
    poke offset c
    poke (offset + 1) attr
    return offset + 2

/-- `print_char_vga`: the offset that it returns. -/
def printCharVga (c : UInt8) (col row : ℤ) (attr : UInt8) : Program VgaConsole ℤ := do
  let attr := if attr = 0 then whiteOnBlack else attr
  if vgaCols ≤ col ∨ vgaRows ≤ row then
    poke (vgaBytes - 2) 0x45
    poke (vgaBytes - 1) redOnWhite
    return vgaBytes - 2
  else
    let s ← get
    let offset ← putChar c attr (if 0 ≤ col ∧ 0 ≤ row then getOffset col row else s.vgaGetCursor)
    if vgaBytes ≤ offset then
      scroll
      vgaSetCursor (offset - 2 * vgaCols)
      return offset - 2 * vgaCols
    else
      vgaSetCursor offset
      return offset

/-- `do_print_char` for what the decoder renders; in text mode there are no glyphs. -/
def printRendered (attr : UInt8) : List Printed → Program VgaConsole PUnit
  | [] => pure PUnit.unit
  | .char c :: l => do
    let _ ← printCharVga c (-1) (-1) attr
    printRendered attr l
  | .glyph _ :: l => printRendered attr l

/-- `output_utf8_byte`. -/
def outputByte (attr b : UInt8) : Program VgaConsole PUnit := do
  let s ← get
  let r := outputUtf8Byte false s.pending b
  modify fun s => { s with pending := r.1 }
  printRendered attr r.2

/-- `kprint`: the bytes of a message up to its NUL. -/
def kprint : List UInt8 → Program VgaConsole PUnit
  | [] => pure PUnit.unit
  | b :: msg => do
    if b = 0 then return PUnit.unit
    else
      outputByte whiteOnBlack b
      kprint msg

/-- `kprint_char`. -/
def kprintChar (c : UInt8) : Program VgaConsole PUnit := outputByte whiteOnBlack c

/-- `kprint_backspace`. -/
def kprintBackspace : Program VgaConsole PUnit := do
  let s ← get
  let offset := if s.vgaGetCursor - 2 < 0 then 0 else s.vgaGetCursor - 2
  let _ ← printCharVga 0x08 ((offset.tdiv 2).tmod vgaCols)
    ((offset.tdiv 2).tdiv vgaCols) whiteOnBlack

/-- `clear_screen`. -/
def clearScreen (s : VgaConsole) : VgaConsole :=
  { s with
    vid := fun i => if i < vgaBytes then (if i % 2 = 0 then 0x20 else whiteOnBlack) else s.vid i
    cursor := 0 }

/-! ## Runs -/

/-- A call of the console. -/
inductive Call
  | kprint (msg : List UInt8)
  | kprintChar (c : UInt8)
  | kprintBackspace

/-- What a call does. -/
def Call.run : Call → Program VgaConsole PUnit
  | .kprint msg => VgaConsole.kprint msg
  | .kprintChar c => VgaConsole.kprintChar c
  | .kprintBackspace => VgaConsole.kprintBackspace

/-- One call after the other. -/
def runAll : List Call → Program VgaConsole PUnit
  | [] => pure PUnit.unit
  | call :: calls => do
    call.run
    runAll calls

/-- The offset of the cursor is that of a cell. -/
def OnScreen (s : VgaConsole) : Prop :=
  0 ≤ s.vgaGetCursor ∧ s.vgaGetCursor < vgaBytes ∧ s.vgaGetCursor % 2 = 0

/-- The byte renders a backspace while the cursor is in the first cell. -/
def Underflows (s : VgaConsole) (b : UInt8) : Prop :=
  .char 0x08 ∈ (outputUtf8Byte false s.pending b).2 ∧ s.cursor = 0

/-- No byte of a message does. -/
def MsgOk (s : VgaConsole) : List UInt8 → Prop
  | [] => True
  | b :: msg => b = 0 ∨ ¬s.Underflows b ∧
      ∀ s', outputByte whiteOnBlack b s = some (PUnit.unit, s') → MsgOk s' msg

/-- A call does not go back beyond the first cell. -/
def CallOk (s : VgaConsole) : Call → Prop
  | .kprint msg => s.MsgOk msg
  | .kprintChar c => ¬s.Underflows c
  | .kprintBackspace => 2 ≤ s.cursor

/-- No call of a run does. -/
def RunOk (s : VgaConsole) : List Call → Prop
  | [] => True
  | call :: calls => s.CallOk call ∧
      ∀ s', call.run s = some (PUnit.unit, s') → RunOk s' calls

/-! ## One character -/

variable {s : VgaConsole} {c attr b : UInt8} {col row off : ℤ} {m n i : ℕ}

@[simp] lemma wp_poke (off : ℤ) (v : UInt8) (Q : PUnit → VgaConsole → Prop) (s : VgaConsole) :
    wp (poke off v) Q s ↔ (0 ≤ off ∧ off < vgaBytes) ∧
      Q PUnit.unit { s with vid := Function.update s.vid off.toNat v } := by
  unfold poke
  by_cases hneg : off < 0
  · rw [if_pos hneg]
    refine iff_of_false ?_ (fun h => by omega)
    rintro ⟨a, s', hrun, -⟩
    exact absurd hrun (by simp)
  · rw [if_neg hneg, wp_bind, wp_inside, wp_modify]
    refine and_congr ?_ Iff.rfl
    omega

@[simp] lemma wp_vgaSetCursor (off : ℤ) (Q : PUnit → VgaConsole → Prop) (s : VgaConsole) :
    wp (vgaSetCursor off) Q s ↔
      Q PUnit.unit { s with cursor := (off.tdiv 2 % 2 ^ 16).toNat } := by
  rw [vgaSetCursor, wp_modify]

lemma wp_moveRows (hi : 1 ≤ i) (hn : i + n ≤ vgaRows) (s : VgaConsole) :
    wp (moveRows n i) (fun _ _ => True) s := by
  induction n generalizing i s with
  | zero =>
    rw [moveRows, wp_pure]
    trivial
  | succ n ih =>
    rw [moveRows, wp_bind, wp_inside, wp_bind, wp_inside, wp_bind, wp_modify]
    unfold vgaRows at hn
    refine ⟨?_, ?_, ih (by omega) (by unfold vgaRows; omega) _⟩
    · unfold vgaBytes vgaCols vgaRows
      omega
    · unfold vgaBytes vgaCols vgaRows
      omega

/-- Scrolling stays inside of the text buffer. -/
lemma wp_scroll (s : VgaConsole) : wp scroll (fun _ _ => True) s := by
  rw [scroll, wp_bind]
  refine wp_mono (wp_moveRows le_rfl (by decide) s) ?_
  rintro _ s' -
  rw [wp_bind, wp_inside, wp_modify]
  exact ⟨by decide, trivial⟩

/-- The cursor is on the screen. -/
def Inside (s : VgaConsole) : Prop := s.cursor < vgaCols * vgaRows

lemma onScreen_iff (s : VgaConsole) : s.OnScreen ↔ s.Inside := by
  have hbytes : (vgaBytes : ℤ) = 4000 := rfl
  have hcells : vgaCols * vgaRows = 2000 := rfl
  unfold OnScreen Inside vgaGetCursor
  omega

/-- The program leaves the cursor on the screen if the condition holds and stores outside of the
text buffer if it does not. -/
def Keeps {α : Type} (x : Program VgaConsole α) (s : VgaConsole) (C : Prop) : Prop :=
  (C → wp x (fun _ s' => s'.Inside) s) ∧ (¬C → x s = none)

lemma Keeps.wp_iff {α : Type} {x : Program VgaConsole α} {C : Prop} (h : Keeps x s C) :
    wp x (fun _ s' => s'.Inside) s ↔ C := by
  refine ⟨fun hwp => ?_, h.1⟩
  by_contra hC
  obtain ⟨a, s', hrun, -⟩ := hwp
  rw [h.2 hC] at hrun
  exact absurd hrun (by simp)

lemma get_bind {α : Type} (f : VgaConsole → Program VgaConsole α) :
    ((get : Program VgaConsole VgaConsole) >>= f) s = f s s := rfl

lemma bind_eq_none {α β : Type} {x : Program VgaConsole α} (y : α → Program VgaConsole β)
    (h : x s = none) : (x >>= y) s = none := by
  change (x s).bind _ = none
  rw [h]
  rfl

lemma Keeps.of_eq {α : Type} {x y : Program VgaConsole α} {s' : VgaConsole} {C : Prop}
    (h : Keeps x s C) (heq : y s' = x s) : Keeps y s' C := by
  refine ⟨fun hC => ?_, fun hC => heq.trans (h.2 hC)⟩
  obtain ⟨a, t, hrun, hin⟩ := h.1 hC
  exact ⟨a, t, heq.trans hrun, hin⟩

/-- What a program returns does not matter. -/
lemma Keeps.discard {α : Type} {x : Program VgaConsole α} {C : Prop} (h : Keeps x s C) :
    Keeps (x >>= fun _ => pure PUnit.unit) s C := by
  refine ⟨fun hC => ?_, fun hC => bind_eq_none _ (h.2 hC)⟩
  rw [wp_bind]
  simp only [wp_pure]
  exact h.1 hC

/-- One program behind another one. -/
lemma Keeps.bind {x y : Program VgaConsole PUnit} {C : Prop} {D : VgaConsole → Prop}
    (hx : Keeps x s C) (hy : ∀ s', s'.Inside → Keeps y s' (D s')) :
    Keeps (x >>= fun _ => y) s (C ∧ ∀ s', x s = some (PUnit.unit, s') → D s') := by
  constructor
  · rintro ⟨hC, hD⟩
    obtain ⟨a, s', hrun, hin⟩ := hx.1 hC
    rw [wp_bind]
    exact ⟨a, s', hrun, (hy s' hin).1 (hD s' hrun)⟩
  · intro hnot
    by_cases hC : C
    · obtain ⟨a, s', hrun, hin⟩ := hx.1 hC
      have hD : ¬D s' := fun hD => hnot ⟨hC, fun t hrun' => by
        obtain ⟨-, rfl⟩ := Prod.mk.inj (Option.some.inj (hrun.symm.trans hrun'))
        exact hD⟩
      change (x s).bind _ = none
      rw [hrun]
      exact (hy s' hin).2 hD
    · exact bind_eq_none _ (hx.2 hC)

/-- A character stored at a cell, and the offset behind it. -/
lemma wp_putChar (hm : m < vgaCols * vgaRows) (hback : c = 0x08 → m ≠ 0) (s : VgaConsole) :
    wp (putChar c attr (2 * m : ℤ)) (fun off _ => ∃ k : ℕ, off = 2 * k ∧
    k ≤ vgaCols * vgaRows) s := by
  unfold vgaCols vgaRows at hm
  rw [putChar]
  by_cases hline : c = 0x0A
  · rw [if_pos hline, wp_pure]
    have hrow : (2 * m : ℤ).tdiv (2 * vgaCols) = (m / 80 : ℕ) := by
      rw [Int.mul_tdiv_mul_of_pos _ _ (by decide : (0 : ℤ) < 2)]
      rfl
    refine ⟨(m / 80 + 1) * 80, ?_, ?_⟩
    · rw [hrow, getOffset]
      unfold vgaCols
      push_cast
      ring
    · unfold vgaCols vgaRows
      omega
  rw [if_neg hline]
  by_cases hbs : c = 0x08
  · have hne := hback hbs
    rw [if_pos hbs, wp_bind, wp_poke, wp_bind, wp_poke, wp_pure]
    have hbytes : (vgaBytes : ℤ) = 4000 := rfl
    exact ⟨by omega, by omega, m - 1, by omega, by unfold vgaCols vgaRows; omega⟩
  · rw [if_neg hbs, wp_bind, wp_poke, wp_bind, wp_poke, wp_pure]
    have hbytes : (vgaBytes : ℤ) = 4000 := rfl
    exact ⟨by omega, by omega, m + 1, by omega, by unfold vgaCols vgaRows; omega⟩

/-- A backspace in the first cell is stored outside of the text buffer. -/
lemma putChar_underflow (attr : UInt8) (s : VgaConsole) :
    putChar 0x08 attr (2 * (0 : ℕ) : ℤ) s = none := by
  have hchar : ¬(0x08 : UInt8) = 0x0A := by decide
  rw [putChar, if_neg hchar, if_pos rfl]
  rfl

/-- A character at a cell of the screen: nothing is stored outside and the cursor stays on the
screen, unless it is a backspace in the first cell. -/
lemma keeps_printCharVga (hout : ¬((vgaCols : ℤ) ≤ col ∨ (vgaRows : ℤ) ≤ row))
    (hoff : (if 0 ≤ col ∧ 0 ≤ row then getOffset col row else s.vgaGetCursor) = 2 * (m : ℤ))
    (hm : m < vgaCols * vgaRows) (c attr : UInt8) :
    Keeps (printCharVga c col row attr) s (c = 0x08 → m ≠ 0) := by
  have hbytes : (vgaBytes : ℤ) = 4000 := rfl
  have hcells : vgaCols * vgaRows = 2000 := rfl
  constructor
  · intro hback
    rw [printCharVga, if_neg hout, wp_bind, wp_get, hoff, wp_bind]
    refine wp_mono (wp_putChar hm hback s) ?_
    rintro _ s₁ ⟨k, rfl, hk⟩
    have hset : ∀ j : ℕ, j < 2 ^ 16 → ((2 * j : ℤ).tdiv 2 % 2 ^ 16).toNat = j := by
      intro j hj
      rw [Int.mul_tdiv_cancel_left _ (by decide)]
      omega
    by_cases hend : (vgaBytes : ℤ) ≤ 2 * k
    · rw [if_pos hend, wp_bind]
      refine wp_mono (wp_scroll s₁) ?_
      rintro _ s₂ -
      have hup : 2 * (k : ℤ) - 2 * vgaCols = 2 * ((k - 80 : ℕ) : ℤ) := by
        unfold vgaCols
        omega
      rw [wp_bind, wp_vgaSetCursor, wp_pure, hup, hset _ (by omega)]
      exact (by omega : k - 80 < 2000)
    · rw [if_neg hend, wp_bind, wp_vgaSetCursor, wp_pure, hset _ (by omega)]
      exact (by omega : k < 2000)
  · intro hnot
    obtain ⟨rfl, hzero⟩ := Classical.not_imp.mp hnot
    obtain rfl := not_not.mp hzero
    rw [printCharVga, if_neg hout, get_bind, hoff]
    exact bind_eq_none _ (putChar_underflow _ s)

/-! ## Calls -/

/-- What the decoder renders of a byte is nothing or a character. -/
lemma rendered_cases (p : Pending) (b : UInt8) :
    (outputUtf8Byte false p b).2 = [] ∨ ∃ c, (outputUtf8Byte false p b).2 = [.char c] := by
  have hrender : ∀ cp, ∃ c, renderCodepoint false cp = .char c := by
    intro cp
    unfold renderCodepoint
    split_ifs
    · exact ⟨_, rfl⟩
    · exact ⟨_, rfl⟩
    · exact absurd rfl ‹_›
  have hstart : ∀ p, (outputStart p b).2 = [] ∨ ∃ c, (outputStart p b).2 = [.char c] := by
    intro p
    unfold outputStart
    split_ifs
    · exact Or.inr ⟨b, rfl⟩
    all_goals exact Or.inl rfl
  unfold outputUtf8Byte
  split_ifs with hrem hcont hlast
  · obtain ⟨c, hc⟩ := hrender (p.cp <<< 6 ||| (b &&& 0x3F).toUInt32)
    exact Or.inr ⟨c, congrArg (fun x => [x]) hc⟩
  · exact Or.inl rfl
  · exact hstart _
  · exact hstart p

/-- A byte of a message. -/
lemma keeps_outputByte (h : s.Inside) (attr b : UInt8) :
    Keeps (outputByte attr b) s (¬s.Underflows b) := by
  have hout : ¬((vgaCols : ℤ) ≤ -1 ∨ (vgaRows : ℤ) ≤ -1) := by decide
  have hrun : outputByte attr b s =
      printRendered attr (outputUtf8Byte false s.pending b).2
        { s with pending := (outputUtf8Byte false s.pending b).1 } := rfl
  have hmoved : Inside { s with pending := (outputUtf8Byte false s.pending b).1 } := h
  refine Keeps.of_eq ?_ hrun
  obtain hnone | ⟨c, hchar⟩ := rendered_cases s.pending b
  · have hunder : ¬s.Underflows b := fun hunder => by
      rw [Underflows, hnone] at hunder
      exact absurd hunder.1 List.not_mem_nil
    rw [hnone]
    exact ⟨fun _ => (wp_pure _ _ _).mpr hmoved, fun hnot => absurd hunder hnot⟩
  · have hunder : ¬s.Underflows b ↔ (c = 0x08 → s.cursor ≠ 0) := by
      rw [Underflows, hchar, List.mem_singleton, Printed.char.injEq, eq_comm, not_and]
    have hone := keeps_printCharVga
      (s := { s with pending := (outputUtf8Byte false s.pending b).1 }) hout rfl h c attr
    rw [hchar, hunder]
    exact hone.discard

/-- `kprint_backspace` goes back by one cell before the character does. -/
lemma keeps_kprintBackspace (h : s.Inside) : Keeps kprintBackspace s (2 ≤ s.cursor) := by
  have hlt : s.cursor < 2000 := h
  have hoffset : (if s.vgaGetCursor - 2 < 0 then 0 else s.vgaGetCursor - 2) =
      2 * ((s.cursor - 1 : ℕ) : ℤ) := by
    unfold vgaGetCursor
    split_ifs <;> omega
  have hhalf : (2 * ((s.cursor - 1 : ℕ) : ℤ)).tdiv 2 = (s.cursor - 1 : ℕ) :=
    Int.mul_tdiv_cancel_left _ (by decide)
  have hout : ¬((vgaCols : ℤ) ≤ ((s.cursor - 1) % 80 : ℕ) ∨
      (vgaRows : ℤ) ≤ ((s.cursor - 1) / 80 : ℕ)) := by
    unfold vgaCols vgaRows
    omega
  have hoff : (if 0 ≤ (((s.cursor - 1) % 80 : ℕ) : ℤ) ∧ 0 ≤ (((s.cursor - 1) / 80 : ℕ) : ℤ) then
      getOffset ((s.cursor - 1) % 80 : ℕ) ((s.cursor - 1) / 80 : ℕ) else s.vgaGetCursor) =
        2 * ((s.cursor - 1 : ℕ) : ℤ) := by
    rw [if_pos ⟨by omega, by omega⟩, getOffset]
    unfold vgaCols
    omega
  have hrun : kprintBackspace s = (printCharVga 0x08 ((s.cursor - 1) % 80 : ℕ)
      ((s.cursor - 1) / 80 : ℕ) whiteOnBlack >>= fun _ => pure PUnit.unit) s := by
    rw [kprintBackspace, get_bind, hoffset, hhalf]
    rfl
  have hiff : ((0x08 : UInt8) = 0x08 → s.cursor - 1 ≠ 0) ↔ 2 ≤ s.cursor := by
    rw [forall_prop_of_true rfl]
    omega
  have hkeeps := (keeps_printCharVga hout hoff (by omega : s.cursor - 1 < 2000)
    0x08 whiteOnBlack).discard
  rw [hiff] at hkeeps
  exact hkeeps.of_eq hrun

/-- A message. -/
lemma keeps_kprint (h : s.Inside) (msg : List UInt8) : Keeps (kprint msg) s (s.MsgOk msg) := by
  induction msg generalizing s with
  | nil => exact ⟨fun _ => (wp_pure _ _ _).mpr h, fun hnot => absurd trivial hnot⟩
  | cons b msg ih =>
    rw [kprint, MsgOk]
    by_cases hnul : b = 0
    · rw [if_pos hnul]
      exact ⟨fun _ => (wp_pure _ _ _).mpr h, fun hnot => absurd (Or.inl hnul) hnot⟩
    · rw [if_neg hnul, or_iff_right hnul]
      exact (keeps_outputByte h whiteOnBlack b).bind fun s' hs' => ih hs'

lemma keeps_call (h : s.Inside) (call : Call) : Keeps call.run s (s.CallOk call) := by
  cases call with
  | kprint msg => exact keeps_kprint h msg
  | kprintChar c => exact keeps_outputByte h whiteOnBlack c
  | kprintBackspace => exact keeps_kprintBackspace h

lemma keeps_runAll (h : s.Inside) (calls : List Call) : Keeps (runAll calls) s (s.RunOk calls) := by
  induction calls generalizing s with
  | nil => exact ⟨fun _ => (wp_pure _ _ _).mpr h, fun hnot => absurd trivial hnot⟩
  | cons call calls ih => exact (keeps_call h call).bind fun s' hs' => ih hs'

lemma RunOk.take {calls : List Call} (h : s.RunOk calls) (n : ℕ) : s.RunOk (calls.take n) := by
  induction calls generalizing s n with
  | nil =>
    rw [List.take_nil]
    trivial
  | cons call calls ih =>
    cases n with
    | zero => trivial
    | succ n => exact ⟨h.1, fun s' hs' => ih (h.2 s' hs') n⟩

lemma inside_clearScreen (s : VgaConsole) : s.clearScreen.Inside := by
  change 0 < 2000
  decide

/-- From a cleared screen on, all calls store inside of the text buffer and leave the cursor on the
screen, exactly if none of them goes back beyond the first cell. -/
theorem runAll_iff (s : VgaConsole) (calls : List Call) :
    (∀ n, wp (runAll (calls.take n)) (fun _ s' => s'.OnScreen) s.clearScreen) ↔
      s.clearScreen.RunOk calls := by
  simp only [onScreen_iff]
  constructor
  · intro h
    have hall := h calls.length
    rw [List.take_length] at hall
    exact (keeps_runAll s.inside_clearScreen calls).wp_iff.mp hall
  · exact fun h n => (keeps_runAll s.inside_clearScreen _).1 (h.take n)

/-- A backspace on the cleared screen. -/
theorem not_wp_backspace :
    ¬∀ n, wp (runAll ([Call.kprintChar 0x08].take n)) (fun _ s' => s'.OnScreen)
      (clearScreen ⟨zeros, 0, ⟨0, 0⟩⟩) := by
  intro h
  obtain ⟨_, s', hrun, -⟩ := h 1
  have hunder : Underflows (clearScreen ⟨zeros, 0, ⟨0, 0⟩⟩) 0x08 :=
    ⟨List.mem_singleton.mpr rfl, rfl⟩
  have hnone := (keeps_outputByte (inside_clearScreen ⟨zeros, 0, ⟨0, 0⟩⟩) whiteOnBlack 0x08).2
    (not_not.mpr hunder)
  rw [List.take_succ_cons, runAll] at hrun
  exact absurd ((bind_eq_none _ hnone).symm.trans hrun) (by simp)

end VgaConsole

end CoolFrost
