import CoolFrost.Lib.Bytes
import CoolFrost.Lib.Paint

/-!
# The framebuffer console

The cursor of `drivers/screen.c` in framebuffer mode.  The console has as many columns as fit on the
screen, but the cursor is turned into an offset and back by the width of the text mode.  A backspace
goes through both: `kprint_backspace` takes the cell before the cursor by the offset and then prints
the character, which goes back by a cell of its own.
-/

namespace CoolFrost

open Bytes

/-- `fb_width`, `fb_height`, `fb_pitch` and `fb_bpp` of a linear framebuffer: of a depth that
`put_pixel` draws, with lines that do not overlap, and below 4 GiB, as far as the offsets into it
reach. -/
structure Framebuffer where
  width : ℕ
  height : ℕ
  pitch : ℕ
  bpp : ℕ
  bpp_eq : bpp = 24 ∨ bpp = 32
  width_le : width * (bpp / 8) ≤ pitch
  size_lt : height * pitch < 2 ^ 32

/-- `font8x16`: the bits of the sixteen lines of a character; a space has none. -/
structure Font where
  glyph : UInt8 → ℕ → UInt8
  space : ∀ r, glyph 0x20 r = 0

/-- The framebuffer, and `cur_col` and `cur_row`. -/
structure FbConsole where
  mem : Bytes
  curCol : ℤ
  curRow : ℤ

namespace Framebuffer

/-- `FONT_W`. -/
def fontW : ℕ := 8
/-- `FONT_H`. -/
def fontH : ℕ := 16
/-- `MAX_COLS`. -/
def maxCols : ℕ := 80
/-- `WHITE_ON_BLACK`. -/
def whiteOnBlack : UInt8 := 0x0F

/-- `vga_palette`. -/
def vgaPalette : List UInt32 :=
  [0x000000, 0x0000AA, 0x00AA00, 0x00AAAA, 0xAA0000, 0xAA00AA, 0xAA5500, 0xAAAAAA,
    0x555555, 0x5555FF, 0x55FF55, 0x55FFFF, 0xFF5555, 0xFF55FF, 0xFFFF55, 0xFFFFFF]

/-- `attr_fg`. -/
def attrFg (attr : UInt8) : UInt32 := vgaPalette.getD (attr &&& 0x0F).toNat 0

/-- `attr_bg`. -/
def attrBg (attr : UInt8) : UInt32 := vgaPalette.getD ((attr >>> 4) &&& 0x07).toNat 0

variable (s : Framebuffer) (font : Font)

/-- `get_cols`. -/
def getCols : ℕ := s.width / fontW

/-- `get_rows`. -/
def getRows : ℕ := s.height / fontH

/-- `put_pixel`. -/
def putPixel (mem : Bytes) (x y : ℕ) (rgb : UInt32) : Bytes :=
  if s.width ≤ x ∨ s.height ≤ y then mem
  else
    let p := y * s.pitch + x * (s.bpp / 8)
    let blue := (rgb &&& 0xFF).toUInt8
    let green := ((rgb >>> 8) &&& 0xFF).toUInt8
    let red := ((rgb >>> 16) &&& 0xFF).toUInt8
    if s.bpp = 32 then blit mem p (ofList [blue, green, red, 0xFF]) 4
    else if s.bpp = 24 then blit mem p (ofList [blue, green, red]) 3
    else mem

/-- `draw_glyph_data`. -/
def drawGlyphData (mem : Bytes) (col row : ℤ) (data : ℕ → UInt8) (fg bg : UInt32) : Bytes :=
  let x₀ := (col * fontW % 2 ^ 32).toNat
  let y₀ := (row * fontH % 2 ^ 32).toNat
  (List.range fontH).foldl (fun mem r =>
    (List.range fontW).foldl (fun mem c =>
      s.putPixel mem ((x₀ + c) % 2 ^ 32) ((y₀ + r) % 2 ^ 32)
        (if data r &&& ((0x80 : UInt8) >>> c.toUInt8) ≠ 0 then fg else bg)) mem) mem

/-- `draw_glyph`. -/
def drawGlyph (mem : Bytes) (col row : ℤ) (ch : UInt8) (fg bg : UInt32) : Bytes :=
  s.drawGlyphData mem col row (font.glyph ch) fg bg

/-- `fb_scroll`. -/
def fbScroll (mem : Bytes) : Bytes :=
  let rowBytes := fontH * s.pitch
  let visible := s.getRows * rowBytes
  let mem := blit mem 0 (shift mem rowBytes) (visible - rowBytes)
  blit mem (visible - rowBytes) zeros rowBytes

/-- `get_cursor_offset`. -/
def getCursorOffset (c : FbConsole) : ℤ := 2 * (c.curRow * maxCols + c.curCol)

/-- `set_cursor_offset`. -/
def setCursorOffset (c : FbConsole) (offset : ℤ) : FbConsole :=
  { c with curRow := (offset.tdiv 2).tdiv maxCols, curCol := (offset.tdiv 2).tmod maxCols }

/-- `print_char_fb`: the offset that it returns, and the console. -/
def printCharFb (c : FbConsole) (ch : UInt8) (col row : ℤ) (attr : UInt8) : ℤ × FbConsole :=
  let cols : ℤ := s.getCols
  let rows : ℤ := s.getRows
  let (col, row) := if col < 0 ∨ row < 0 then (c.curCol, c.curRow) else (col, row)
  let (mem, col, row) :=
    if ch = 0x0A then (c.mem, 0, row + 1)
    else if ch = 0x08 then
      let col := if 0 < col then col - 1 else col
      (s.drawGlyph font c.mem col row 0x20 (attrFg attr) (attrBg attr), col, row)
    else
      (if col < cols ∧ row < rows then
        s.drawGlyph font c.mem col row ch (attrFg attr) (attrBg attr) else c.mem, col + 1, row)
  let (col, row) := if cols ≤ col then (0, row + 1) else (col, row)
  let (mem, col, row) := if rows ≤ row then (s.fbScroll mem, 0, rows - 1) else (mem, col, row)
  (2 * (row * cols + col), ⟨mem, col, row⟩)

/-- `kprint_backspace`. -/
def kprintBackspace (c : FbConsole) : FbConsole :=
  let offset := getCursorOffset c - 2
  let offset := if offset < 0 then 0 else offset
  let cols : ℤ := s.getCols
  let row := (offset.tdiv 2).tdiv cols
  let col := (offset.tdiv 2).tmod cols
  (s.printCharFb font c 0x08 col row whiteOnBlack).2

/-! ## Cells -/

/-- The byte at `a` belongs to a pixel of the cell. -/
def InCell (col row a : ℕ) : Prop :=
  a % s.pitch / (s.bpp / 8) / fontW = col ∧ a / s.pitch / fontH = row

instance (col row a : ℕ) : Decidable (s.InCell col row a) := inferInstanceAs (Decidable (_ ∧ _))

/-- The byte at `a` of a black screen. -/
def blackByte (a : ℕ) : UInt8 := if a % s.pitch % (s.bpp / 8) = 3 then 0xFF else 0

/-- The memory with a cell made blank. -/
def blankCell (mem : Bytes) (col row : ℕ) : Bytes :=
  fun a => if s.InCell col row a then s.blackByte a else mem a

/-- The cursor is on the `n`-th cell in reading order. -/
def At (n : ℕ) (c : FbConsole) : Prop :=
  c.curCol = (n % s.getCols : ℕ) ∧ c.curRow = (n / s.getCols : ℕ)

/-- The number of cells. -/
def cells : ℕ := s.getRows * s.getCols

/-- The cursor is left where it is by storing the offset that it is read as. -/
def RoundTrips (n : ℕ) : Prop :=
  ∀ c, s.At n c → setCursorOffset c (getCursorOffset c) = c

/-- The cursor goes forward in reading order when the offset is increased. -/
def Steps (n : ℕ) : Prop :=
  ∀ c, s.At n c → ∀ k, n + k < s.cells →
    s.At (n + k) (setCursorOffset c (getCursorOffset c + 2 * k))

/-- A backspace makes the cell before the cursor blank and goes there. -/
def Erases (n : ℕ) : Prop :=
  ∀ c, s.At n c → 0 < n → s.At (n - 1) (s.kprintBackspace font c) ∧
    (s.kprintBackspace font c).mem =
      s.blankCell c.mem ((n - 1) % s.getCols) ((n - 1) / s.getCols)

/-! ## Drawing a blank -/

variable {s font} {mem : Bytes} {x y a n : ℕ} {c : FbConsole}

/-- The pixel that a byte belongs to, by the bytes of the pixel. -/
lemma mem_pixel_iff (hx : x < s.width) :
    (y * s.pitch + x * (s.bpp / 8) ≤ a ∧ a < y * s.pitch + x * (s.bpp / 8) + s.bpp / 8) ↔
      a % s.pitch / (s.bpp / 8) = x ∧ a / s.pitch = y := by
  have hbytes : s.bpp / 8 = 3 ∨ s.bpp / 8 = 4 := by
    rcases s.bpp_eq with h | h <;> rw [h]
    · exact Or.inl rfl
    · exact Or.inr rfl
  have hroom : x * (s.bpp / 8) + s.bpp / 8 ≤ s.pitch := by
    have hle : (x + 1) * (s.bpp / 8) ≤ s.width * (s.bpp / 8) := Nat.mul_le_mul_right _ hx
    rw [Nat.add_mul, Nat.one_mul] at hle
    exact hle.trans s.width_le
  have hpos : 0 < s.pitch := by omega
  have hdiv : s.pitch * (a / s.pitch) + a % s.pitch = a := Nat.div_add_mod a s.pitch
  have hmod : a % s.pitch < s.pitch := Nat.mod_lt a hpos
  constructor
  · rintro ⟨hle, hlt⟩
    have hy : a / s.pitch = y := Nat.div_eq_of_lt_le (by omega) (by rw [Nat.add_mul]; omega)
    refine ⟨?_, hy⟩
    rw [hy, Nat.mul_comm] at hdiv
    rcases hbytes with h | h <;> rw [h] at hle hlt ⊢ <;> omega
  · rintro ⟨hx, hy⟩
    rw [hy, Nat.mul_comm] at hdiv
    rcases hbytes with h | h <;> rw [h] at hx ⊢ <;> omega

/-- The byte of a pixel that an address is. -/
lemma mod_pixel (hx : x < s.width) (hle : y * s.pitch + x * (s.bpp / 8) ≤ a)
    (hlt : a < y * s.pitch + x * (s.bpp / 8) + s.bpp / 8) :
    a % s.pitch % (s.bpp / 8) = a - (y * s.pitch + x * (s.bpp / 8)) := by
  obtain ⟨hcol, hrow⟩ := (mem_pixel_iff hx).mp ⟨hle, hlt⟩
  have hdiv : s.pitch * (a / s.pitch) + a % s.pitch = a := Nat.div_add_mod a s.pitch
  have hmod : s.bpp / 8 * (a % s.pitch / (s.bpp / 8)) + a % s.pitch % (s.bpp / 8) = a % s.pitch :=
    Nat.div_add_mod _ _
  rw [hrow, Nat.mul_comm] at hdiv
  rw [hcol, Nat.mul_comm] at hmod
  omega

/-- A black pixel. -/
lemma paints_putPixel (mem : Bytes) (x y : ℕ) :
    Paints (fun a => (x < s.width ∧ y < s.height) ∧ a % s.pitch / (s.bpp / 8) = x ∧ a / s.pitch = y)
      s.blackByte mem (s.putPixel mem x y 0) := by
  by_cases hout : s.width ≤ x ∨ s.height ≤ y
  · rw [putPixel, if_pos hout]
    exact Paints.none fun a ha => by omega
  have hx : x < s.width := by omega
  have hpixel : s.putPixel mem x y 0 = blit mem (y * s.pitch + x * (s.bpp / 8))
      (ofList [0, 0, 0, 0xFF]) (s.bpp / 8) := by
    rw [putPixel, if_neg hout]
    rcases s.bpp_eq with hbpp | hbpp
    · rw [hbpp]
      refine (if_neg (by decide)).trans ((if_pos rfl).trans (blit_congr fun i hi => ?_))
      rcases (by omega : i = 0 ∨ i = 1 ∨ i = 2) with rfl | rfl | rfl <;> rfl
    · rw [hbpp]
      exact if_pos rfl
  rw [hpixel]
  intro a
  constructor
  · rintro ⟨-, hmem⟩
    obtain ⟨hle, hlt⟩ := (mem_pixel_iff hx).mpr hmem
    rw [blit_of_mem ⟨hle, hlt⟩, blackByte, mod_pixel hx hle hlt]
    have hbyte : ∀ i < 4, ofList [0, 0, 0, 0xFF] i = if i = 3 then 0xFF else 0 := by decide
    refine hbyte _ ?_
    rcases s.bpp_eq with hbpp | hbpp <;> rw [hbpp] at hlt ⊢ <;> omega
  · intro hnot
    refine blit_of_not_mem ?_
    by_contra hin
    exact hnot ⟨by omega, (mem_pixel_iff hx).mp (by omega)⟩

/-- A space in black, wherever it is drawn. -/
lemma paints_drawGlyph (font : Font) (mem : Bytes) (col row : ℤ) :
    Paints (fun a => ∃ r ∈ List.range fontH, ∃ c ∈ List.range fontW,
        (((col * fontW % 2 ^ 32).toNat + c) % 2 ^ 32 < s.width ∧
          ((row * fontH % 2 ^ 32).toNat + r) % 2 ^ 32 < s.height) ∧
        a % s.pitch / (s.bpp / 8) = ((col * fontW % 2 ^ 32).toNat + c) % 2 ^ 32 ∧
        a / s.pitch = ((row * fontH % 2 ^ 32).toNat + r) % 2 ^ 32)
      s.blackByte mem
      (s.drawGlyph font mem col row 0x20 (attrFg whiteOnBlack) (attrBg whiteOnBlack)) := by
  have hbg : attrBg whiteOnBlack = 0 := by decide
  rw [drawGlyph, drawGlyphData]
  refine Paints.foldl (fun r _ mem => ?_) mem
  refine Paints.foldl (fun c _ mem => ?_) mem
  rw [font.space, UInt8.zero_and, if_neg (fun h => h rfl), hbg]
  exact paints_putPixel mem _ _

lemma paints_blankCell (s : Framebuffer) (mem : Bytes) (col row : ℕ) :
    Paints (s.InCell col row) s.blackByte mem (s.blankCell mem col row) := fun _ =>
  ⟨fun h => if_pos h, fun h => if_neg h⟩

/-- A coordinate does not wrap around. -/
lemma coord_eq {n size i : ℕ} (h : n * size + i < 2 ^ 32) :
    (((n : ℤ) * (size : ℕ) % 2 ^ 32).toNat + i) % 2 ^ 32 = n * size + i := by
  have hcast : (n : ℤ) * (size : ℕ) % 2 ^ 32 = ((n * size % 2 ^ 32 : ℕ) : ℤ) := by push_cast; rfl
  rw [hcast, Int.toNat_natCast, Nat.mod_eq_of_lt (by omega : n * size < 2 ^ 32), Nat.mod_eq_of_lt h]

/-- A space in a cell of the screen makes the cell blank. -/
lemma drawGlyph_eq_blankCell (font : Font) (mem : Bytes) {col row : ℕ} (hcol : col < s.getCols)
    (hrow : row < s.getRows) :
    s.drawGlyph font mem col row 0x20 (attrFg whiteOnBlack) (attrBg whiteOnBlack) =
      s.blankCell mem col row := by
  have hwidth : col * fontW + fontW ≤ s.width := by
    have h := Nat.div_mul_le_self s.width fontW
    unfold getCols at hcol
    unfold fontW at hcol h ⊢
    omega
  have hheight : row * fontH + fontH ≤ s.height := by
    have h := Nat.div_mul_le_self s.height fontH
    unfold getRows at hrow
    unfold fontH at hrow h ⊢
    omega
  -- the coordinates of the pixels are below 2 ^ 32
  have hlarge : s.width < 2 ^ 32 ∧ s.height < 2 ^ 32 := by
    have hbytes : s.width * 1 ≤ s.width * (s.bpp / 8) := by
      refine Nat.mul_le_mul_left _ ?_
      rcases s.bpp_eq with h | h <;> rw [h] <;> decide
    have hwidth_le := s.width_le
    have hsize := s.size_lt
    have hpitch : 1 * s.pitch ≤ s.height * s.pitch :=
      Nat.mul_le_mul_right _ (by unfold fontH at hheight; omega)
    have hlines : s.height * 1 ≤ s.height * s.pitch :=
      Nat.mul_le_mul_left _ (by unfold fontW at hwidth; omega)
    omega
  refine (paints_drawGlyph font mem col row).eq ((paints_blankCell s mem col row).congr fun a => ?_)
  have hx : ∀ c < fontW, (((col : ℤ) * fontW % 2 ^ 32).toNat + c) % 2 ^ 32 = col * fontW + c :=
    fun c hc => coord_eq (by omega)
  have hy : ∀ r < fontH, (((row : ℤ) * fontH % 2 ^ 32).toNat + r) % 2 ^ 32 = row * fontH + r :=
    fun r hr => coord_eq (by omega)
  simp only [List.mem_range, InCell]
  constructor
  · rintro ⟨hcell, hline⟩
    refine ⟨a / s.pitch % fontH, Nat.mod_lt _ (by decide), a % s.pitch / (s.bpp / 8) % fontW,
      Nat.mod_lt _ (by decide), ?_⟩
    rw [hx _ (Nat.mod_lt _ (by decide)), hy _ (Nat.mod_lt _ (by decide))]
    unfold fontW fontH at *
    omega
  · rintro ⟨r, hr, c, hc, -, hcell, hline⟩
    rw [hx c hc] at hcell
    rw [hy r hr] at hline
    unfold fontW fontH at *
    omega

/-! ## The cursor and its offset -/

/-- The position that an offset stands for. -/
lemma setCursorOffset_natCast (c : FbConsole) (m : ℕ) :
    setCursorOffset c (2 * m : ℤ) = { c with curRow := (m / 80 : ℕ), curCol := (m % 80 : ℕ) } := by
  have hhalf : (2 * m : ℤ).tdiv 2 = m := Int.mul_tdiv_cancel_left _ (by decide)
  rw [setCursorOffset, hhalf]
  rfl

/-- The offset of a position. -/
lemma getCursorOffset_at (h : s.At n c) :
    getCursorOffset c = 2 * ((n / s.getCols * 80 + n % s.getCols : ℕ) : ℤ) := by
  rw [getCursorOffset, h.1, h.2]
  rfl

/-- A console with the cursor on a given cell. -/
def withCursor (s : Framebuffer) (mem : Bytes) (n : ℕ) : FbConsole :=
  ⟨mem, (n % s.getCols : ℕ), (n / s.getCols : ℕ)⟩

lemma at_withCursor (s : Framebuffer) (mem : Bytes) (n : ℕ) :
    s.At n (s.withCursor mem n) := ⟨rfl, rfl⟩

/-- Where the cursor goes when the offset is increased. -/
lemma steps_iff_forall (s : Framebuffer) (n : ℕ) :
    s.Steps n ↔ ∀ k, n + k < s.cells →
      (n / s.getCols * 80 + n % s.getCols + k) % 80 = (n + k) % s.getCols ∧
        (n / s.getCols * 80 + n % s.getCols + k) / 80 = (n + k) / s.getCols := by
  have hset : ∀ c, s.At n c → ∀ k :
    ℕ, s.At (n + k) (setCursorOffset c (getCursorOffset c + 2 * k)) ↔
      (n / s.getCols * 80 + n % s.getCols + k) % 80 = (n + k) % s.getCols ∧
        (n / s.getCols * 80 + n % s.getCols + k) / 80 = (n + k) / s.getCols := by
    intro c hc k
    have hsum : getCursorOffset c + 2 * k =
        2 * ((n / s.getCols * 80 + n % s.getCols + k : ℕ) : ℤ) := by
      rw [getCursorOffset_at hc]
      push_cast
      ring
    rw [hsum, setCursorOffset_natCast]
    exact and_congr Int.natCast_inj Int.natCast_inj
  constructor
  · exact fun h k hk => (hset _ (s.at_withCursor zeros n) k).mp (h _ (s.at_withCursor zeros n) k hk)
  · exact fun h c hc k hk => (hset c hc k).mpr (h k hk)

lemma getCols_pos (hn : n < s.cells) : 0 < s.getCols := Nat.pos_of_ne_zero fun h => by
  rw [cells, h, Nat.mul_zero] at hn
  exact Nat.not_lt_zero n hn

/-- The offset goes forward with the cursor exactly if the screen is as wide as in the text mode, or
it is not wider and the cursor is in the last row. -/
lemma steps_iff (hn : n < s.cells) :
    s.Steps n ↔ s.getCols = 80 ∨ s.getCols ≤ 80 ∧ n / s.getCols + 1 = s.getRows := by
  have hpos := getCols_pos hn
  have hcol : n % s.getCols < s.getCols := Nat.mod_lt n hpos
  have hrow : n / s.getCols < s.getRows := Nat.div_lt_of_lt_mul (by rwa [Nat.mul_comm])
  have hdiv : s.getCols * (n / s.getCols) + n % s.getCols = n := Nat.div_add_mod n s.getCols
  have hend : (n / s.getCols + 1) * s.getCols ≤ s.cells := Nat.mul_le_mul_right _ hrow
  -- a cell by its place in its row
  have hplace : ∀ k, n % s.getCols + k < s.getCols →
      (n + k) % s.getCols = n % s.getCols + k ∧ (n + k) / s.getCols = n / s.getCols := by
    intro k hk
    have hsum : n + k = s.getCols * (n / s.getCols) + (n % s.getCols + k) := by omega
    constructor
    · rw [hsum, Nat.mul_add_mod, Nat.mod_eq_of_lt hk]
    · rw [hsum, Nat.mul_add_div hpos, Nat.div_eq_of_lt hk, Nat.add_zero]
  rw [steps_iff_forall]
  rw [Nat.add_mul, Nat.one_mul, Nat.mul_comm] at hend
  generalize n / s.getCols = row at *
  generalize n % s.getCols = col at *
  constructor
  · intro h
    by_contra hnot
    obtain ⟨hne, hrest⟩ := not_or.mp hnot
    have hhere := (h 0 (by omega)).1
    rw [(hplace 0 (by omega)).1] at hhere
    by_cases hwide : 80 < s.getCols
    · -- the columns behind the 80th are taken for the next row
      have hk := (h (80 - col) (by omega)).1
      rw [(hplace (80 - col) (by omega)).1] at hk
      omega
    · -- the places behind the end of the row are taken for the same row
      have hnext : row + 1 < s.getRows := by omega
      have hnextend : (row + 2) * s.getCols ≤ s.cells := Nat.mul_le_mul_right _ hnext
      rw [Nat.add_mul, Nat.mul_comm] at hnextend
      have hk := (h (s.getCols - col) (by omega)).1
      have hsum : n + (s.getCols - col) = s.getCols * row + s.getCols := by omega
      rw [hsum, ← Nat.mul_succ, Nat.mul_mod_right] at hk
      omega
  · rintro (heq | ⟨hle, hlast⟩) k hk
    · rw [heq] at hdiv ⊢
      have hsum : row * 80 + col + k = n + k := by omega
      rw [hsum]
      exact ⟨rfl, rfl⟩
    · have hin : col + k < s.getCols := by
        rw [cells, ← hlast, Nat.add_mul, Nat.one_mul, Nat.mul_comm] at hk
        omega
      obtain ⟨hmod, hquot⟩ := hplace k hin
      rw [hmod, hquot]
      omega

/-- The first step is none. -/
lemma Steps.roundTrips (hn : n < s.cells) (h : s.Steps n) : s.RoundTrips n := by
  intro c hc
  obtain ⟨hcol, hrow⟩ := h c hc 0 hn
  rw [Nat.cast_zero, mul_zero, add_zero] at hcol hrow
  have hmem : (setCursorOffset c (getCursorOffset c)).mem = c.mem := rfl
  obtain ⟨mem, col, row⟩ := c
  obtain ⟨rfl, rfl⟩ := hc
  generalize setCursorOffset _ _ = c' at hcol hrow hmem ⊢
  obtain ⟨mem', col', row'⟩ := c'
  rw [FbConsole.mk.injEq]
  exact ⟨hmem, hcol, hrow⟩

/-! ## The backspace -/

/-- A backspace at a given place: one more cell to the left, unless it is the first column. -/
lemma printCharFb_backspace (font : Font) (c : FbConsole) {col row : ℕ} (hcol : col < s.getCols) :
    (s.printCharFb font c 0x08 col row whiteOnBlack).2 =
      if s.getRows ≤ row then
        ⟨s.fbScroll (s.drawGlyph font c.mem (col - 1 : ℕ) row 0x20 (attrFg whiteOnBlack)
          (attrBg whiteOnBlack)), 0, s.getRows - 1⟩
      else
        ⟨s.drawGlyph font c.mem (col - 1 : ℕ) row 0x20 (attrFg whiteOnBlack) (attrBg whiteOnBlack),
          (col - 1 : ℕ), row⟩ := by
  have hback : (if (0 : ℤ) < col then (col : ℤ) - 1 else col) = (col - 1 : ℕ) := by
    split_ifs <;> omega
  have hgiven : ¬((col : ℤ) < 0 ∨ (row : ℤ) < 0) := by omega
  have hroom : ¬(s.getCols : ℤ) ≤ (col - 1 : ℕ) := by omega
  have h0A : ¬(0x08 : UInt8) = 0x0A := by decide
  simp only [printCharFb, if_neg hgiven, if_neg h0A, if_true, hback, if_neg hroom]
  by_cases hrow : s.getRows ≤ row
  · rw [if_pos hrow, if_pos (Int.ofNat_le.mpr hrow)]
  · rw [if_neg hrow, if_neg (fun h => hrow (Int.ofNat_le.mp h))]

/-- `kprint_backspace` behind the first cell. -/
lemma kprintBackspace_at (font : Font) (h : s.At n c) {p : ℕ}
    (hp : n / s.getCols * 80 + n % s.getCols = p + 1) :
    s.kprintBackspace font c =
      (s.printCharFb font c 0x08 (p % s.getCols : ℕ) (p / s.getCols : ℕ) whiteOnBlack).2 := by
  have hoffset : getCursorOffset c - 2 = 2 * (p : ℤ) := by
    rw [getCursorOffset_at h, hp]
    push_cast
    ring
  have hhalf : (2 * p : ℤ).tdiv 2 = p := Int.mul_tdiv_cancel_left _ (by decide)
  rw [kprintBackspace, hoffset, if_neg (by omega), hhalf]
  rfl

/-- The screen does not look like one with one more blank after it was scrolled. -/
lemma fbScroll_ne_blankCell (font : Font) (hrows : 2 ≤ s.getRows)
    (hcols : 0 < s.getCols) (col row : ℤ) {col' row' : ℕ} (hrow' : row' ≠ 0) :
    s.fbScroll (s.drawGlyph font (fun a => if a = 0 then 1 else 0) col row 0x20
      (attrFg whiteOnBlack)
      (attrBg whiteOnBlack)) ≠ s.blankCell (fun a => if a = 0 then 1 else 0) col' row' := by
  intro heq
  have hpitch : 0 < s.pitch := by
    have hwidth : 0 < s.width := Nat.pos_of_ne_zero fun h => by
      rw [getCols, h, Nat.zero_div] at hcols
      exact Nat.lt_irrefl 0 hcols
    refine lt_of_lt_of_le (Nat.mul_pos hwidth ?_) s.width_le
    rcases s.bpp_eq with h | h <;> rw [h] <;> decide
  have hvisible : 2 * (fontH * s.pitch) ≤ s.getRows * (fontH * s.pitch) :=
    Nat.mul_le_mul_right _ hrows
  have hline : 0 < fontH * s.pitch := Nat.mul_pos (by decide) hpitch
  have hcell : ¬s.InCell col' row' 0 :=
    fun hin => hrow' (by rw [← hin.2, Nat.zero_div, Nat.zero_div])
  -- the first byte of the screen comes from the second row
  have hbyte := congrFun heq 0
  rw [blankCell, if_neg hcell, if_pos rfl, fbScroll, blit_of_not_mem (by omega),
    blit_of_mem (by omega), shift, Nat.sub_self, Nat.add_zero] at hbyte
  have hblack : s.blackByte (fontH * s.pitch) = 0 := by
    rw [blackByte, Nat.mul_mod_left, Nat.zero_mod]
    rfl
  rcases (paints_drawGlyph font (fun a => if a = 0 then 1 else 0) col row).eq_or_eq
    (fontH * s.pitch) with hdrawn | hkept
  · rw [hbyte, hblack] at hdrawn
    exact absurd hdrawn (by decide)
  · rw [hbyte, if_neg (by omega)] at hkept
    exact absurd hkept (by decide)

/-- A backspace makes the cell before the cursor blank exactly if that is one cell before the one
that the offset leads to. -/
lemma erases_iff_cell (font : Font) (hn : n < s.cells) (hpos : 0 < n) {p : ℕ}
    (hp : n / s.getCols * 80 + n % s.getCols = p + 1) :
    s.Erases font n ↔
      p % s.getCols - 1 = (n - 1) % s.getCols ∧ p / s.getCols = (n - 1) / s.getCols := by
  have hcols := getCols_pos hn
  have hcol : p % s.getCols < s.getCols := Nat.mod_lt p hcols
  have hrow : (n - 1) / s.getCols < s.getRows :=
    Nat.div_lt_of_lt_mul (by rw [Nat.mul_comm]; exact lt_of_le_of_lt (Nat.sub_le n 1) hn)
  have hrun : ∀ c, s.At n c → s.kprintBackspace font c = _ := fun c hc =>
    (kprintBackspace_at font hc hp).trans (printCharFb_backspace font c hcol)
  by_cases hscroll : s.getRows ≤ p / s.getCols
  · refine iff_of_false (fun herase => ?_) (fun h => by omega)
    obtain ⟨hat, hmem⟩ := herase _ (s.at_withCursor (fun a => if a = 0 then 1 else 0) n) hpos
    rw [hrun _ (s.at_withCursor _ n), if_pos hscroll] at hat hmem
    have hlast : (s.getRows : ℤ) - 1 = ((n - 1) / s.getCols : ℕ) := hat.2
    -- the offset is beyond the screen only on a screen with several rows
    have hrows : 2 ≤ s.getRows := by
      by_contra hone
      have hsmall : n < s.getCols := by
        refine lt_of_lt_of_le hn ?_
        rw [cells]
        exact (Nat.mul_le_mul_right _ (by omega : s.getRows ≤ 1)).trans_eq (Nat.one_mul _)
      rw [Nat.div_eq_of_lt hsmall, Nat.mod_eq_of_lt hsmall] at hp
      rw [Nat.div_eq_of_lt (by omega : p < s.getCols)] at hscroll
      exact absurd hrow (Nat.not_lt.mpr (hscroll.trans (Nat.zero_le _)))
    exact fbScroll_ne_blankCell font hrows hcols _ _ (by omega) hmem
  · constructor
    · intro herase
      obtain ⟨hat, -⟩ := herase _ (s.at_withCursor zeros n) hpos
      rw [hrun _ (s.at_withCursor _ n), if_neg hscroll] at hat
      exact ⟨Int.ofNat.inj hat.1, Int.ofNat.inj hat.2⟩
    · rintro ⟨heqcol, heqrow⟩ c hc -
      rw [hrun c hc, if_neg hscroll, heqcol, heqrow]
      exact ⟨⟨rfl, rfl⟩, drawGlyph_eq_blankCell font c.mem (Nat.mod_lt _ hcols) hrow⟩

/-- When the two ways to the cell before the cursor agree. -/
lemma place_iff {cols row col p n : ℕ} (hcol : col < cols)
    (hn : cols * row + col = n) (hpos : 0 < n) (hp : row * 80 + col = p + 1) :
    (p % cols - 1 = (n - 1) % cols ∧ p / cols = (n - 1) / cols) ↔
      col = 1 ∧ (row = 0 ∨ cols = 80) ∨ cols = 79 ∧ row = 1 ∧ col ≠ 0 := by
  constructor
  · rintro ⟨hmod, hdiv⟩
    have hpdiv := Nat.div_add_mod p cols
    have hndiv := Nat.div_add_mod (n - 1) cols
    rw [hdiv] at hpdiv
    by_cases hfirst : p % cols = 0
    · -- the offset leads to the cell before the cursor, in the first column
      have hsame : row * 80 = cols * row := by omega
      rcases Nat.eq_zero_or_pos row with hrow | hrow
      · subst hrow
        rw [Nat.mod_eq_of_lt (by omega)] at hfirst
        omega
      · have hcols : cols = 80 := Nat.eq_of_mul_eq_mul_right hrow (by rw [← hsame, Nat.mul_comm])
        subst hcols
        omega
    · -- the offset leads to the cursor
      have hone : row * 80 = cols * row + 1 := by omega
      have hrow : row ∣ 1 := (Nat.dvd_add_right (Dvd.intro_left cols rfl)).mp
        (hone ▸ Dvd.intro 80 rfl)
      obtain rfl := Nat.dvd_one.mp hrow
      obtain rfl : cols = 79 := by omega
      omega
  · rintro (⟨rfl, rfl | rfl⟩ | ⟨rfl, rfl, hne⟩)
    · obtain rfl : p = 0 := by omega
      obtain rfl : n = 1 := by omega
      simp
    · omega
    · omega

lemma erases_iff (font : Font) (hn : n < s.cells) :
    s.Erases font n ↔ n = 0 ∨
      n % s.getCols = 1 ∧ (n / s.getCols = 0 ∨ s.getCols = 80) ∨
        s.getCols = 79 ∧ n / s.getCols = 1 ∧ n % s.getCols ≠ 0 := by
  rcases Nat.eq_zero_or_pos n with rfl | hpos
  · exact iff_of_true (fun _ _ h => absurd h (lt_irrefl 0)) (Or.inl rfl)
  have hcols := getCols_pos hn
  have hcol : n % s.getCols < s.getCols := Nat.mod_lt n hcols
  have hdiv : s.getCols * (n / s.getCols) + n % s.getCols = n := Nat.div_add_mod n s.getCols
  obtain ⟨p, hp⟩ : ∃ p, n / s.getCols * 80 + n % s.getCols = p + 1 := by
    refine Nat.exists_eq_succ_of_ne_zero fun hzero => hpos.ne' ?_
    have hrow : n / s.getCols = 0 := by omega
    rw [hrow, Nat.mul_zero] at hdiv
    omega
  rw [erases_iff_cell font hn hpos hp, place_iff hcol hdiv hpos hp]
  exact ⟨Or.inr, fun h => h.resolve_left hpos.ne'⟩

/-- When the cursor at a cell survives being stored, goes forward with its offset, and goes back by
a backspace, which makes the cell before it blank. -/
theorem cursor_iff (s : Framebuffer) (font : Font) (n : Fin s.cells) :
    s.RoundTrips n ∧ s.Steps n ∧ s.Erases font n ↔
      (s.getCols = 80 ∨ s.getCols ≤ 80 ∧ n / s.getCols + 1 = s.getRows) ∧
        (n = (0 : ℕ) ∨ n % s.getCols = 1 ∧ (n / s.getCols = 0 ∨ s.getCols = 80) ∨
          s.getCols = 79 ∧ n / s.getCols = 1 ∧ n % s.getCols ≠ 0) := by
  rw [← steps_iff n.2, ← erases_iff font n.2]
  exact ⟨fun h => h.2, fun h => ⟨h.1.roundTrips n.2, h⟩⟩

/-- A screen of 1024 by 768 pixels. -/
def xga : Framebuffer where
  width := 1024
  height := 768
  pitch := 4096
  bpp := 32
  bpp_eq := Or.inr rfl
  width_le := by decide
  size_lt := by decide

/-- The cursor in the column 100 of the first row. -/
theorem not_cursor_xga :
    ¬(xga.RoundTrips 100 ∧ xga.Steps 100 ∧ xga.Erases ⟨fun _ _ => 0, fun _ => rfl⟩ 100) := by
  rintro ⟨-, hsteps, -⟩
  have hn : 100 < xga.cells := by decide
  exact absurd ((steps_iff hn).mp hsteps) (by decide)

end Framebuffer

end CoolFrost
