import Mathlib.Tactic

/-!
# The keyboard driver

`drivers/keyboard.c` from the bytes of the controller to the events that it pushes.  The handler
decodes the bytes one by one and leaves the last scancode in a variable which `get_cur_scancode` and
`getline` clear at any time.  The decoder looks at that variable too: when a make code comes behind
the prefix `0xE0`, an arrow that is still there gets pushed again.
-/

namespace CoolFrost

/-- One call of `event_push_key`. -/
structure KeyPush where
  scancode : UInt8
  down : Bool
  ch : UInt8
  deriving DecidableEq

/-- The static variables of `drivers/keyboard.c`. -/
structure Keyboard where
  curScancode : UInt8
  shiftPressed : Bool
  e0Prefix : Bool
  evShift : Bool

namespace Keyboard

/-- `KEY_UP`. -/
def keyUp : UInt8 := 0x60
/-- `KEY_DOWN`. -/
def keyDown : UInt8 := 0x61
/-- `KEY_LEFT`. -/
def keyLeft : UInt8 := 0x62
/-- `KEY_RIGHT`. -/
def keyRight : UInt8 := 0x63

/-- The bytes of some characters. -/
def chars (l : List Char) : List UInt8 := l.map fun c => c.toNat.toUInt8

/-- `keymap`, up to its last entry that is not zero. -/
def keymap : List UInt8 := chars
  ['\x00', '\x1b', '1', '2', '3', '4', '5', '6', '7', '8', '9', '0', '-', '=', '\x08',
    '\t', 'q', 'w', 'e', 'r', 't', 'y', 'u', 'i', 'o', 'p', '[', ']', '\n',
    '\x00', 'a', 's', 'd', 'f', 'g', 'h', 'j', 'k', 'l', ';', '\x27', '\x60',
    '\x00', '\x5c', 'z', 'x', 'c', 'v', 'b', 'n', 'm', ',', '.', '/', '\x00',
    '*', '\x00', ' ']

/-- `keymap_shift`, up to its last entry that is not zero. -/
def keymapShift : List UInt8 := chars
  ['\x00', '\x1b', '!', '@', '#', '$', '%', '^', '&', '*', '(', ')', '_', '+', '\x08',
    '\t', 'Q', 'W', 'E', 'R', 'T', 'Y', 'U', 'I', 'O', 'P', '\x7b', '\x7d', '\n',
    '\x00', 'A', 'S', 'D', 'F', 'G', 'H', 'J', 'K', 'L', ':', '\x22', '~',
    '\x00', '|', 'Z', 'X', 'C', 'V', 'B', 'N', 'M', '<', '>', '?', '\x00',
    '*', '\x00', ' ']

/-- The character of a make code. -/
def charOf (shift : Bool) (sc : UInt8) : UInt8 :=
  (if shift then keymapShift else keymap).getD sc.toNat 0

/-- `get_cur_scancode`; `getline` and `keyboard_receive_key` take the scancode in the same way. -/
def getCurScancode (s : Keyboard) : UInt8 × Keyboard :=
  (s.curScancode, { s with curScancode := 0 })

/-- `kbd_push_event`. -/
def kbdPushEvent (s : Keyboard) (sc : UInt8) : Keyboard × List KeyPush :=
  if sc &&& 0x80 ≠ 0 then
    let rel := sc &&& 0x7F
    let s := if rel = 0x2A ∨ rel = 0x36 then { s with evShift := false } else s
    (s, [⟨rel, false, 0⟩])
  else
    let s := if sc = 0x2A ∨ sc = 0x36 then { s with evShift := true } else s
    (s, [⟨sc, true, charOf s.evShift sc⟩])

/-- The arrow of an extended make code. -/
def arrowOf (sc : UInt8) : Option UInt8 :=
  if sc = 0x48 then some keyUp
  else if sc = 0x50 then some keyDown
  else if sc = 0x4B then some keyLeft
  else if sc = 0x4D then some keyRight
  else none

/-- `kb_callback`, with the byte from the controller. -/
def kbCallback (s : Keyboard) (sc : UInt8) : Keyboard × List KeyPush :=
  if sc = 0xE0 then ({ s with e0Prefix := true }, [])
  else if s.e0Prefix then
    let s := { s with e0Prefix := false }
    if sc &&& 0x80 = 0 then
      let s := { s with curScancode := (arrowOf sc).getD s.curScancode }
      (s, if keyUp ≤ s.curScancode ∧ s.curScancode ≤ keyRight then
        [⟨s.curScancode, true, 0⟩] else [])
    else (s, [])
  else kbdPushEvent { s with curScancode := sc } sc

/-- `kbd_inject_scancode`. -/
def kbdInjectScancode (s : Keyboard) (sc : UInt8) : Keyboard × List KeyPush :=
  let s := if s.curScancode = 0 then { s with curScancode := sc } else s
  if keyUp ≤ sc ∧ sc ≤ keyRight then (s, [⟨sc, true, 0⟩]) else s.kbdPushEvent sc

/-! ## Runs of the decoder -/

/-- A byte arrives, or the pending scancode is taken. -/
inductive Op
  | byte (b : UInt8)
  | take

/-- One step of a run, and the events pushed. -/
def step (s : Keyboard) : Op → Keyboard × List KeyPush
  | .byte b => s.kbCallback b
  | .take => (s.getCurScancode.2, [])

/-- The events pushed in a run. -/
def pushes (s : Keyboard) : List Op → List KeyPush
  | [] => []
  | op :: ops => (s.step op).2 ++ pushes (s.step op).1 ops

/-- The bytes that arrive in a run. -/
def bytes : List Op → List UInt8
  | [] => []
  | .byte b :: ops => b :: bytes ops
  | .take :: ops => bytes ops

/-- What a shift key was, after one more byte. -/
def shiftAfter (shift : Bool) (b : UInt8) : Bool :=
  if b = 0x2A ∨ b = 0x36 then true
  else if b = 0xAA ∨ b = 0xB6 then false
  else shift

/-- The events that bytes stand for: behind the prefix an arrow stands for its key and any other
byte for nothing, and a byte without the prefix stands for a key that goes down or up by its bit
7. -/
def keyEvents (prefixed shift : Bool) : List UInt8 → List KeyPush
  | [] => []
  | b :: bs =>
    if b = 0xE0 then keyEvents true shift bs
    else if prefixed then
      ((arrowOf b).map fun key => ⟨key, true, 0⟩).toList ++ keyEvents false shift bs
    else
      (if b &&& 0x80 = 0 then ⟨b, true, charOf (shiftAfter shift b) b⟩
        else ⟨b &&& 0x7F, false, 0⟩) ::
        keyEvents false (shiftAfter shift b) bs

/-- A make code that is not an arrow's arrives behind the prefix while an arrow is pending. -/
def StaleArrow (s : Keyboard) : Op → Prop
  | .byte b => s.e0Prefix = true ∧ b ≠ 0xE0 ∧ b &&& 0x80 = 0 ∧ arrowOf b = none ∧
      keyUp ≤ s.curScancode ∧ s.curScancode ≤ keyRight
  | .take => False

/-- No such make code arrives in a run. -/
def NoStaleArrow (s : Keyboard) : List Op → Prop
  | [] => True
  | op :: ops => ¬s.StaleArrow op ∧ NoStaleArrow (s.step op).1 ops

variable {s : Keyboard} {b : UInt8}

/-- What `kbd_push_event` takes for the release of a shift key. -/
lemma release_shift (h : b &&& 0x80 ≠ 0) :
    (b &&& 0x7F = 0x2A ↔ b = 0xAA) ∧ (b &&& 0x7F = 0x36 ↔ b = 0xB6) ∧ b ≠ 0x2A ∧ b ≠ 0x36 := by
  have hall : ∀ i : Fin 256, UInt8.ofFin i &&& 0x80 ≠ 0 →
      (UInt8.ofFin i &&& 0x7F = 0x2A ↔ UInt8.ofFin i = 0xAA) ∧
        (UInt8.ofFin i &&& 0x7F = 0x36 ↔ UInt8.ofFin i = 0xB6) ∧
        UInt8.ofFin i ≠ 0x2A ∧ UInt8.ofFin i ≠ 0x36 := by
    decide +kernel
  exact hall b.toFin h

/-- The events of a byte without the prefix. -/
lemma kbdPushEvent_eq (s : Keyboard) (b : UInt8) :
    s.kbdPushEvent b = ({ s with evShift := shiftAfter s.evShift b },
      [if b &&& 0x80 = 0 then ⟨b, true, charOf (shiftAfter s.evShift b) b⟩
        else ⟨b &&& 0x7F, false, 0⟩]) := by
  unfold kbdPushEvent shiftAfter
  by_cases hdown : b &&& 0x80 = 0
  · have hne : b ≠ 0xAA ∧ b ≠ 0xB6 := by
      constructor <;> rintro rfl <;> exact absurd hdown (by decide)
    rw [if_neg (not_not.mpr hdown), if_pos hdown, if_neg (not_or.mpr hne)]
    by_cases hshift : b = 0x2A ∨ b = 0x36
    · simp only [if_pos hshift]
    · simp only [if_neg hshift]
  · obtain ⟨hleft, hright, hne⟩ := release_shift hdown
    rw [if_pos hdown, if_neg hdown, if_neg (not_or.mpr hne)]
    simp only [hleft, hright]
    by_cases hshift : b = 0xAA ∨ b = 0xB6
    · simp only [if_pos hshift]
    · simp only [if_neg hshift]

/-- The arrows are the scancodes that get pushed behind the prefix. -/
lemma arrowOf_range {key : UInt8} (h : arrowOf b = some key) : keyUp ≤ key ∧ key ≤ keyRight := by
  unfold arrowOf at h
  split_ifs at h <;> obtain rfl := Option.some.inj h <;> decide

lemma arrowOf_break (h : b &&& 0x80 ≠ 0) : arrowOf b = none := by
  have hall : ∀ i : Fin 256, UInt8.ofFin i &&& 0x80 ≠ 0 → arrowOf (UInt8.ofFin i) = none := by
    decide +kernel
  exact hall b.toFin h

lemma bytes_cons (op : Op) (ops : List Op) : bytes (op :: ops) = bytes [op] ++ bytes ops := by
  cases op <;> rfl

/-- One step of a run pushes the events that its byte stands for, and an arrow again if one is still
pending. -/
lemma step_pushes (s : Keyboard) (op : Op) :
    ∃ own again : List KeyPush, (s.step op).2 = own ++ again ∧ (again = [] ↔ ¬s.StaleArrow op) ∧
      ∀ bs, keyEvents s.e0Prefix s.evShift (bytes [op] ++ bs) =
        own ++ keyEvents (s.step op).1.e0Prefix (s.step op).1.evShift bs := by
  cases op with
  | take => exact ⟨[], [], rfl, by simp [StaleArrow], fun bs => rfl⟩
  | byte b =>
    simp only [step, kbCallback, bytes, List.singleton_append, keyEvents, StaleArrow]
    by_cases hlead : b = 0xE0
    · simp only [if_pos hlead]
      exact ⟨[], [], rfl, by simp [hlead], fun bs => rfl⟩
    simp only [if_neg hlead]
    by_cases hext : s.e0Prefix = true
    · simp only [if_pos hext]
      by_cases hdown : b &&& 0x80 = 0
      · simp only [if_pos hdown]
        cases harrow : arrowOf b with
        | some key =>
          have hrange := arrowOf_range harrow
          exact ⟨[⟨key, true, 0⟩], [], by simp [hrange], by simp, fun bs => rfl⟩
        | none =>
          refine ⟨[], _, (List.nil_append _).symm, ?_, fun bs => rfl⟩
          by_cases hstale : keyUp ≤ s.curScancode ∧ s.curScancode ≤ keyRight
          · simp [hstale, hext, hlead, hdown]
          · simp [hstale]
      · simp only [if_neg hdown, arrowOf_break hdown]
        exact ⟨[], [], rfl, by simp [hdown], fun bs => rfl⟩
    · simp only [if_neg hext, kbdPushEvent_eq]
      refine ⟨_, [], (List.append_nil _).symm, by simp [hext], fun bs => ?_⟩
      rw [Bool.not_eq_true] at hext
      rw [hext, List.singleton_append]

/-- The events that the bytes stand for are among those pushed. -/
lemma length_keyEvents_le (s : Keyboard) (ops : List Op) :
    (keyEvents s.e0Prefix s.evShift (bytes ops)).length ≤ (s.pushes ops).length := by
  induction ops generalizing s with
  | nil => exact le_rfl
  | cons op ops ih =>
    obtain ⟨own, again, hstep, -, hbytes⟩ := step_pushes s op
    have hrest := ih (s.step op).1
    rw [bytes_cons, hbytes, pushes, hstep, List.length_append, List.length_append,
      List.length_append]
    omega

/-- The events pushed in a run are those that its bytes stand for, whenever the pending scancode is
taken, exactly if no make code arrives behind the prefix while another key's arrow is pending. -/
theorem pushes_eq_keyEvents_iff (s : Keyboard) (ops : List Op) :
    s.pushes ops = keyEvents s.e0Prefix s.evShift (bytes ops) ↔ s.NoStaleArrow ops := by
  induction ops generalizing s with
  | nil => exact iff_of_true rfl trivial
  | cons op ops ih =>
    obtain ⟨own, again, hstep, hagain, hbytes⟩ := step_pushes s op
    rw [bytes_cons, hbytes, pushes, hstep, NoStaleArrow, ← hagain, ← ih (s.step op).1]
    constructor
    · intro heq
      have hle := length_keyEvents_le (s.step op).1 ops
      have hlen := congrArg List.length heq
      simp only [List.length_append] at hlen
      have hnil : again = [] := List.length_eq_zero_iff.mp (by omega)
      rw [hnil, List.append_nil] at heq
      exact ⟨hnil, List.append_cancel_left heq⟩
    · rintro ⟨rfl, heq⟩
      rw [heq, List.append_nil]

/-- The up arrow, which nobody takes, and then the key Home. -/
theorem pushes_ne_of_stale :
    (⟨0, false, false, false⟩ : Keyboard).pushes [.byte 0xE0, .byte 0x48, .byte 0xE0, .byte 0x47] ≠
      keyEvents false false (bytes [.byte 0xE0, .byte 0x48, .byte 0xE0, .byte 0x47]) := by
  decide

end Keyboard

end CoolFrost
