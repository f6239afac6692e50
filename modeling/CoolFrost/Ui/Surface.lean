import CoolFrost.Lib.Paint
import CoolFrost.Lib.Signed

/-!
# Drawing on surfaces

The clipped drawing of `gfx/gfx.c` and of its copy in `user/ugfx.c`: rectangles that are filled, and
surfaces that are copied onto another one.  The arguments and all that is computed from them are of
type `int32_t`; a sum that does not fit wraps around, as it does in the machine.  A drawing that
leaves the pixels of a surface does not come back (`none`).  The two surfaces of a copy are
different ones.
-/

namespace CoolFrost

open Signed

/-- `w` and `h` of `gfx_surface_t` and `ugfx_surface_t`. -/
structure Surface where
  w : Int32
  h : Int32
  w_pos : 0 < w.toInt
  h_pos : 0 < h.toInt

/-- `px`. -/
abbrev Pixels := ℤ → UInt32

namespace Surface

/-- The number of pixels. -/
def size (s : Surface) : ℤ := s.w.toInt * s.h.toInt

/-- The index of `s->px + (size_t)(y + j) * s->w + x + i`. -/
def index (s : Surface) (x y : Int32) (j i : ℕ) : ℤ :=
  (y + Int32.ofNat j).toInt % 2 ^ 64 * s.w.toInt % 2 ^ 64 + x.toInt + i

/-- There is a pixel with this index. -/
def Inside (s : Surface) (a : ℤ) : Prop := 0 ≤ a ∧ a < s.size

instance (s : Surface) (a : ℤ) : Decidable (s.Inside a) := inferInstanceAs (Decidable (_ ∧ _))

/-! ## Clipping -/

/-- `if (x < 0) { w += x; x = 0; }` -/
def clipLow (x w : Int32) : Int32 × Int32 := if x < 0 then (0, w + x) else (x, w)

/-- `if (x + w > size) w = size - x;` -/
def clipHigh (size x w : Int32) : Int32 := if size < x + w then size - x else w

/-- `if (dx < 0) { sx -= dx; w += dx; dx = 0; }` -/
def clipShift (dx sx w : Int32) : Int32 × Int32 × Int32 :=
  if dx < 0 then (0, sx - dx, w + dx) else (dx, sx, w)

/-- `clip_rect`: the part of the rectangle on the surface, unless nothing remains. -/
def clipRect (s : Surface) (x y w h : Int32) : Option (Int32 × Int32 × Int32 × Int32) :=
  if w ≤ 0 ∨ h ≤ 0 then none
  else
    let (x, w) := clipLow x w
    let (y, h) := clipLow y h
    if s.w ≤ x ∨ s.h ≤ y then none
    else
      let w := clipHigh s.w x w
      let h := clipHigh s.h y h
      if 0 < w ∧ 0 < h then some (x, y, w, h) else none

/-! ## Filling -/

/-- The loops of `gfx_fill_rect`. -/
def fillRows (s : Surface) (x y w h : Int32) (color : UInt32) (px : Pixels) : Option Pixels :=
  (List.range h.toInt.toNat).foldlM (fun px j =>
    (List.range w.toInt.toNat).foldlM (fun px i =>
      if s.Inside (s.index x y j i) then
        some (Function.update px (s.index x y j i) color) else none)
      px) px

/-- `gfx_fill_rect` and `ugfx_fill_rect`. -/
def fillRect (s : Surface) (x y w h : Int32) (color : UInt32) (px : Pixels) : Option Pixels :=
  match s.clipRect x y w h with
  | none => some px
  | some (x, y, w, h) => s.fillRows x y w h color px

/-- `gfx_fill_rect`. -/
def gfxFillRect : Surface → (x y w h : Int32) → (color : UInt32) → Pixels →
    Option Pixels := fillRect

/-- `ugfx_fill_rect`. -/
def ugfxFillRect : Surface → (x y w h : Int32) → (color : UInt32) → Pixels →
    Option Pixels := fillRect

/-! ## Copying -/

/-- `memcpy` of `n` pixels. -/
def memcpy (dst src : Surface) (spx : Pixels) (a b n : ℤ) (px : Pixels) : Option Pixels :=
  if (0 ≤ a ∧ a + n ≤ dst.size) ∧ 0 ≤ b ∧ b + n ≤ src.size then
    some fun c => if a ≤ c ∧ c < a + n then spx (c - a + b) else px c
  else none

/-- The loop of `gfx_blit`, a row at a time. -/
def copyRows (dst src : Surface) (dx dy sx sy w h : Int32) (spx px : Pixels) : Option Pixels :=
  (List.range h.toInt.toNat).foldlM (fun px j =>
    memcpy dst src spx (dst.index dx dy j 0) (src.index sx sy j 0) w.toInt px) px

/-- The loops of `ugfx_blit`, a pixel at a time. -/
def copyPixels (dst src : Surface) (dx dy sx sy w h : Int32) (spx px : Pixels) : Option Pixels :=
  (List.range h.toInt.toNat).foldlM (fun px j =>
    (List.range w.toInt.toNat).foldlM (fun px i =>
      if dst.Inside (dst.index dx dy j i) ∧ src.Inside (src.index sx sy j i) then
        some (Function.update px (dst.index dx dy j i) (spx (src.index sx sy j i)))
      else none) px) px

/-- `gfx_blit`. -/
def gfxBlit (dst : Surface) (dx dy : Int32) (src : Surface) (spx px : Pixels) : Option Pixels :=
  let (dx, sx, w) := clipShift dx 0 src.w
  let (dy, sy, h) := clipShift dy 0 src.h
  let w := clipHigh dst.w dx w
  let h := clipHigh dst.h dy h
  if w ≤ 0 ∨ h ≤ 0 then some px else copyRows dst src dx dy sx sy w h spx px

/-- `ugfx_blit`. -/
def ugfxBlit (dst : Surface) (dx dy : Int32) (src : Surface) (spx px : Pixels) : Option Pixels :=
  let (dx, sx, w) := clipShift dx 0 src.w
  let (dy, sy, h) := clipShift dy 0 src.h
  let w := clipHigh dst.w dx w
  let h := clipHigh dst.h dy h
  if w ≤ 0 ∨ h ≤ 0 then some px else copyPixels dst src dx dy sx sy w h spx px

/-- `ugfx_blit_rect`. -/
def ugfxBlitRect (dst : Surface) (dx dy : Int32) (src : Surface) (sx sy sw sh : Int32)
    (spx px : Pixels) : Option Pixels :=
  let (sx, sw) := clipLow sx sw
  let (sy, sh) := clipLow sy sh
  if src.w ≤ sx ∨ src.h ≤ sy ∨ sw ≤ 0 ∨ sh ≤ 0 then some px
  else
    let sw := clipHigh src.w sx sw
    let sh := clipHigh src.h sy sh
    let (dx, sx, sw) := clipShift dx sx sw
    let (dy, sy, sh) := clipShift dy sy sh
    let sw := clipHigh dst.w dx sw
    let sh := clipHigh dst.h dy sh
    if sw ≤ 0 ∨ sh ≤ 0 then some px else copyPixels dst src dx dy sx sy sw sh spx px

/-- The clipping of `ugfx_blit_rect` along one of the axes. -/
def clipAxis (dsize ssize d s n : Int32) : Option (Int32 × Int32 × Int32) :=
  let (s, n) := clipLow s n
  if ssize ≤ s ∨ n ≤ 0 then none
  else
    let n := clipHigh ssize s n
    let (d, s, n) := clipShift d s n
    let n := clipHigh dsize d n
    if n ≤ 0 then none else some (d, s, n)

/-! ## What is to be drawn -/

/-- The index of the pixel in column `i` of row `j`. -/
def pixel (s : Surface) (i j : ℤ) : ℤ := j * s.w.toInt + i

/-- The place `p` is inside of `size`, and one of the `n` from `x` on. -/
def Within (size x n p : ℤ) : Prop := (0 ≤ p ∧ p < size) ∧ x ≤ p ∧ p < x + n

instance (size x n p : ℤ) : Decidable (Within size x n p) := inferInstanceAs (Decidable (_ ∧ _))

/-- The place `p` is copied, and both it and where it is copied from are inside. -/
def Covered (dsize ssize d s n p : ℤ) : Prop := Within dsize d n p ∧ Within ssize s n (p - d + s)

instance (dsize ssize d s n p : ℤ) : Decidable (Covered dsize ssize d s n p) :=
  inferInstanceAs (Decidable (_ ∧ _))

/-- `r` is `px` with the pixels of `Q`, and no others, drawn as in `v`. -/
def Draws (s : Surface) (Q : ℤ → ℤ → Prop) [∀ i j, Decidable (Q i j)]
    (v : ℤ → ℤ → UInt32) (px : Pixels) (r : Option Pixels) : Prop :=
  ∃ px', r = some px' ∧ ∀ i j, 0 ≤ i → i < s.w.toInt → 0 ≤ j → j < s.h.toInt →
    px' (s.pixel i j) = if Q i j then v i j else px (s.pixel i j)

/-- Exactly the pixels of the rectangle are filled. -/
def FillsExactly (s : Surface) (x y w h : Int32) (color : UInt32) (run : Pixels →
    Option Pixels) : Prop :=
  ∀ px, s.Draws (fun i j => Within s.w.toInt x.toInt w.toInt i ∧ Within s.h.toInt y.toInt h.toInt j)
    (fun _ _ => color) px (run px)

/-- Exactly the pixels whose source and destination are inside of their surfaces are copied. -/
def CopiesExactly (dst : Surface) (dx dy : Int32) (src : Surface) (sx sy sw sh : Int32)
    (run : Pixels → Pixels → Option Pixels) : Prop :=
  ∀ spx px, dst.Draws
    (fun i j => Covered dst.w.toInt src.w.toInt dx.toInt sx.toInt sw.toInt i ∧
      Covered dst.h.toInt src.h.toInt dy.toInt sy.toInt sh.toInt j)
    (fun i j => spx (src.pixel (i - dx.toInt + sx.toInt) (j - dy.toInt + sy.toInt))) px (run spx px)

/-! ## What is drawn -/

/-- How much of a part of the source is left when that was clipped. -/
def sourceLength (ssize s n : ℤ) : ℤ :=
  if 0 ≤ s then if s + n < 2 ^ 31 then min n (ssize - s) else n
  else min (if -2 ^ 31 ≤ s + n then s + n else s + n + 2 ^ 32) ssize

/-- Clipping leaves something to be drawn. -/
def Remains (dsize ssize d s n : ℤ) : Prop :=
  s < ssize ∧ 0 < sourceLength ssize s n ∧ 0 < d + sourceLength ssize s n ∧
    (d < dsize ∨ 2 ^ 31 ≤ d + sourceLength ssize s n)

/-- Clipping leaves the right part: the source does not begin outside, and no sum that matters is
too large. -/
def Fits (dsize ssize d s n : ℤ) : Prop :=
  0 ≤ s ∧ (s + n < 2 ^ 31 ∧ d + min n (ssize - s) < 2 ^ 31 ∨
    2 ^ 31 ≤ s + n ∧ d + n < 2 ^ 31 ∧ dsize - d ≤ ssize - s)

/-- What clipping makes of `n` places from `s` on, to be copied to those from `d` on. -/
structure Clipped (dsize ssize d s n d' s' n' : ℤ) : Prop where
  start : d' = max d 0
  pos : 0 < n'
  length : n' = if d + sourceLength ssize s n < 2 ^ 31 then
    min (d + sourceLength ssize s n) dsize - d'
    else sourceLength ssize s n
  source : s' = max s 0 + (d' - d) ∨ 2 ^ 31 ≤ max s 0 + (d' - d)

/-- Clipping leaves something of a surface that is copied as a whole. -/
def Reaches (dsize ssize d : ℤ) : Prop := 0 < d + ssize ∧ (d < dsize ∨ 2 ^ 31 ≤ d + ssize)

/-- Clipping leaves, on an axis, what is to be copied. -/
structure ClippedRight (dsize ssize d s n d' s' n' : ℤ) : Prop where
  le : d' + n' ≤ dsize
  covered : ∀ p, Covered dsize ssize d s n p ↔ d' ≤ p ∧ p < d' + n'
  source : s' - d' = s - d

/-- Clipping leaves of a copy what is to be copied. -/
def ClipsRight (dst : Surface) (dx dy : Int32) (src : Surface) (sx sy sw sh : Int32) : Prop :=
  (Remains dst.w.toInt src.w.toInt dx.toInt sx.toInt sw.toInt ∧
      Remains dst.h.toInt src.h.toInt dy.toInt sy.toInt sh.toInt →
    Fits dst.w.toInt src.w.toInt dx.toInt sx.toInt sw.toInt ∧
      Fits dst.h.toInt src.h.toInt dy.toInt sy.toInt sh.toInt) ∧
  ((∃ i, Covered dst.w.toInt src.w.toInt dx.toInt sx.toInt sw.toInt i) ∧
      (∃ j, Covered dst.h.toInt src.h.toInt dy.toInt sy.toInt sh.toInt j) →
    Remains dst.w.toInt src.w.toInt dx.toInt sx.toInt sw.toInt ∧
      Remains dst.h.toInt src.h.toInt dy.toInt sy.toInt sh.toInt)

/-! ## The arithmetic of clipping -/

lemma toInt_clipHigh {size x w : Int32} (hsize : 0 < size.toInt) (hx : 0 ≤ x.toInt) :
    (clipHigh size x w).toInt =
      if x.toInt + w.toInt < 2 ^ 31 then min w.toInt (size.toInt - x.toInt) else w.toInt := by
  have hw := w.le_toInt
  have hlt := x.toInt_lt
  have hle := size.toInt_lt
  rw [clipHigh]
  by_cases hsum : x.toInt + w.toInt < 2 ^ 31
  · have hadd : (x + w).toInt = x.toInt + w.toInt := toInt_add (by omega) hsum
    rw [if_pos hsum]
    split_ifs with hover
    · rw [Int32.lt_iff_toInt_lt, hadd] at hover
      rw [toInt_sub (by omega) (by omega)]
      omega
    · rw [Int32.lt_iff_toInt_lt, hadd] at hover
      omega
  · have hadd : (x + w).toInt = x.toInt + w.toInt - 2 ^ 32 := toInt_add_of_le (by omega)
    have hw' := w.toInt_lt
    rw [if_neg hsum, if_neg]
    rw [Int32.lt_iff_toInt_lt, hadd]
    omega

lemma toInt_clipLow {x w x' w' : Int32} (h : clipLow x w = (x', w')) :
    x'.toInt = max x.toInt 0 ∧ w'.toInt = if 0 ≤ x.toInt then w.toInt
      else if -2 ^ 31 ≤ x.toInt + w.toInt then x.toInt + w.toInt
      else x.toInt + w.toInt + 2 ^ 32 := by
  have hw := w.toInt_lt
  rw [clipLow] at h
  by_cases hx : 0 ≤ x.toInt
  · rw [if_neg (by rw [Int32.lt_iff_toInt_lt, Int32.toInt_zero]; omega)] at h
    obtain ⟨rfl, rfl⟩ := Prod.mk.inj h
    rw [if_pos hx]
    exact ⟨(max_eq_left hx).symm, rfl⟩
  · rw [if_pos (by rw [Int32.lt_iff_toInt_lt, Int32.toInt_zero]; omega)] at h
    obtain ⟨rfl, rfl⟩ := Prod.mk.inj h
    rw [if_neg hx, Int32.toInt_zero]
    refine ⟨(max_eq_right (by omega)).symm, ?_⟩
    split_ifs with hsum
    · rw [toInt_add (by omega) (by omega), Int.add_comm]
    · rw [toInt_add_of_lt (by omega)]
      omega

lemma toInt_clipShift {d s n d' s' n' : Int32} (h : clipShift d s n = (d', s', n'))
    (hs : 0 ≤ s.toInt) (hn : 0 < n.toInt) :
    d'.toInt = max d.toInt 0 ∧ n'.toInt = n.toInt + min d.toInt 0 ∧
      (s'.toInt = s.toInt - min d.toInt 0 ∨ 2 ^ 31 ≤ s.toInt - min d.toInt 0) := by
  have hd := d.le_toInt
  have hlt := n.toInt_lt
  rw [clipShift] at h
  by_cases hneg : d.toInt < 0
  · rw [if_pos (by rwa [Int32.lt_iff_toInt_lt, Int32.toInt_zero])] at h
    simp only [Prod.mk.injEq] at h
    obtain ⟨rfl, rfl, rfl⟩ := h
    rw [max_eq_right hneg.le, min_eq_left hneg.le, Int32.toInt_zero]
    refine ⟨rfl, toInt_add (by omega) (by omega), ?_⟩
    by_cases hsum : s.toInt - d.toInt < 2 ^ 31
    · exact Or.inl (toInt_sub (by omega) hsum)
    · exact Or.inr (not_lt.mp hsum)
  · rw [if_neg (by rwa [Int32.lt_iff_toInt_lt, Int32.toInt_zero])] at h
    simp only [Prod.mk.injEq] at h
    obtain ⟨rfl, rfl, rfl⟩ := h
    rw [max_eq_left (not_lt.mp hneg), min_eq_right (not_lt.mp hneg)]
    exact ⟨rfl, (Int.add_zero _).symm, Or.inl (Int.sub_zero _).symm⟩

/-- What `ugfx_blit_rect` clips an axis to. -/
lemma clipAxis_spec {dsize ssize : Int32} (hdsize : 0 < dsize.toInt) (hssize : 0 < ssize.toInt)
    (d s n : Int32) :
    (clipAxis dsize ssize d s n = none ∧
        ¬Remains dsize.toInt ssize.toInt d.toInt s.toInt n.toInt) ∨
      ∃ d' s' n', clipAxis dsize ssize d s n = some (d', s', n') ∧
        Remains dsize.toInt ssize.toInt d.toInt s.toInt n.toInt ∧
        Clipped dsize.toInt ssize.toInt d.toInt s.toInt n.toInt d'.toInt s'.toInt n'.toInt := by
  obtain ⟨s₁, n₁, hlow⟩ : ∃ s₁ n₁, clipLow s n = (s₁, n₁) := ⟨_, _, rfl⟩
  obtain ⟨hs₁, hn₁⟩ := toInt_clipLow hlow
  have hs₁pos : 0 ≤ s₁.toInt := hs₁ ▸ le_max_right _ _
  have hn := n.toInt_lt
  have hd := d.le_toInt
  have hs := s.le_toInt
  have hle := ssize.toInt_lt
  -- the part of the source
  have hn₂ := toInt_clipHigh (w := n₁) hssize hs₁pos
  have hlen : (clipHigh ssize s₁ n₁).toInt = sourceLength ssize.toInt s.toInt n.toInt := by
    rw [hn₂, hs₁, hn₁, sourceLength]
    by_cases hneg : 0 ≤ s.toInt
    · rw [if_pos hneg, if_pos hneg, max_eq_left hneg]
    · rw [if_neg hneg, if_neg hneg, max_eq_right (by omega), Int.zero_add, Int.sub_zero]
      rw [if_pos (by split_ifs <;> omega)]
  have hreject : (ssize ≤ s₁ ∨ n₁ ≤ 0) ↔
      ¬(s.toInt < ssize.toInt ∧ 0 < sourceLength ssize.toInt s.toInt n.toInt) := by
    rw [Int32.le_iff_toInt_le, Int32.le_iff_toInt_le, Int32.toInt_zero, ← hlen, hn₂, hs₁]
    clear hn₁ hn₂ hlen
    split_ifs <;> omega
  rw [clipAxis, hlow]
  dsimp only
  by_cases hsource : ssize ≤ s₁ ∨ n₁ ≤ 0
  · rw [if_pos hsource]
    exact Or.inl ⟨rfl, fun h => hreject.mp hsource ⟨h.1, h.2.1⟩⟩
  rw [if_neg hsource]
  obtain ⟨hlt, hpos⟩ := not_not.mp (hreject.not.mp hsource)
  -- its place in the destination
  obtain ⟨d₃, s₃, n₃, hshift⟩ :
      ∃ d₃ s₃ n₃, clipShift d s₁ (clipHigh ssize s₁ n₁) = (d₃, s₃, n₃) := ⟨_, _, _, rfl⟩
  obtain ⟨hd₃, hn₃, hs₃⟩ := toInt_clipShift hshift hs₁pos (hlen ▸ hpos)
  have hn₄ := toInt_clipHigh (w := n₃) hdsize (hd₃ ▸ le_max_right _ _ : 0 ≤ d₃.toInt)
  have hlarge : sourceLength ssize.toInt s.toInt n.toInt < 2 ^ 31 := hlen ▸ Int32.toInt_lt _
  rw [hlen] at hn₃
  rw [hshift]
  dsimp only
  have hlength : (clipHigh dsize d₃ n₃).toInt =
      if d.toInt + sourceLength ssize.toInt s.toInt n.toInt < 2 ^ 31 then
        min (d.toInt + sourceLength ssize.toInt s.toInt n.toInt) dsize.toInt - d₃.toInt
      else sourceLength ssize.toInt s.toInt n.toInt := by
    rw [hn₄, hd₃, hn₃]
    clear hn₁ hn₂ hn₃ hn₄ hlen hreject hs₁ hs₃
    split_ifs <;> omega
  have hend : clipHigh dsize d₃ n₃ ≤ 0 ↔
      ¬Remains dsize.toInt ssize.toInt d.toInt s.toInt n.toInt := by
    rw [Int32.le_iff_toInt_le, Int32.toInt_zero, hlength, hd₃, Remains]
    clear hn₁ hn₂ hn₃ hn₄ hlen hreject hs₁ hs₃ hlength
    split_ifs <;> omega
  by_cases hdest : clipHigh dsize d₃ n₃ ≤ 0
  · rw [if_pos hdest]
    exact Or.inl ⟨rfl, hend.mp hdest⟩
  · rw [if_neg hdest]
    refine Or.inr ⟨_, _, _, rfl, not_not.mp (hend.not.mp hdest), hd₃, ?_, hlength, ?_⟩
    · rwa [Int32.le_iff_toInt_le, Int32.toInt_zero, not_le] at hdest
    · rw [hs₁] at hs₃
      clear hn₁ hn₂ hn₃ hn₄ hlen hreject hlength hend
      omega

/-! ## Pixels -/

variable {s dst src : Surface} {x y w h : Int32}

lemma index_eq (s : Surface) (x : Int32) (hy : 0 ≤ y.toInt) {j : ℕ}
    (hj : y.toInt + j < 2 ^ 31) (i : ℕ) :
    s.index x y j i = s.pixel (x.toInt + i) (y.toInt + j) := by
  have hcast : (Int32.ofNat j).toInt = j := Int32.toInt_ofNat_of_lt (by omega)
  have hrow : (y + Int32.ofNat j).toInt = y.toInt + j := by
    rw [toInt_add (by omega) (by omega), hcast]
  have hle : 0 ≤ (y.toInt + j) * s.w.toInt := mul_nonneg (by omega) s.w_pos.le
  have hlt : (y.toInt + j) * s.w.toInt < 2 ^ 31 * 2 ^ 31 :=
    mul_lt_mul'' hj s.w.toInt_lt (by omega) s.w_pos.le
  rw [index, hrow, Int.emod_eq_of_lt (by omega : 0 ≤ y.toInt + j) (by omega),
    Int.emod_eq_of_lt hle (by omega), pixel, Int.add_assoc]

lemma pixel_emod (s : Surface) {i : ℤ} (hi : 0 ≤ i ∧ i < s.w.toInt) (j : ℤ) :
    s.pixel i j % s.w.toInt = i := by
  rw [pixel, Int.add_comm, Int.add_mul_emod_self_right, Int.emod_eq_of_lt hi.1 hi.2]

lemma pixel_ediv (s : Surface) {i : ℤ} (hi : 0 ≤ i ∧ i < s.w.toInt) (j : ℤ) :
    s.pixel i j / s.w.toInt = j := by
  rw [pixel, Int.add_comm, Int.add_mul_ediv_right _ _ s.w_pos.ne', Int.ediv_eq_zero_of_lt hi.1 hi.2,
    Int.zero_add]

lemma pixel_inj {i i' j j' : ℤ} (hi : 0 ≤ i ∧ i < s.w.toInt) (hi' : 0 ≤ i' ∧ i' < s.w.toInt) :
    s.pixel i j = s.pixel i' j' ↔ i = i' ∧ j = j' := by
  constructor
  · intro h
    have hcol : i = i' := by rw [← s.pixel_emod hi j, h, s.pixel_emod hi' j']
    subst hcol
    exact ⟨rfl, Int.eq_of_mul_eq_mul_right s.w_pos.ne' (add_right_cancel h)⟩
  · rintro ⟨rfl, rfl⟩
    rfl

lemma inside_pixel {i j : ℤ} (hi : 0 ≤ i ∧ i < s.w.toInt) (hj : 0 ≤ j ∧ j < s.h.toInt) :
    s.Inside (s.pixel i j) := by
  have hrow : 0 ≤ j * s.w.toInt := mul_nonneg hj.1 s.w_pos.le
  have hend : (j + 1) * s.w.toInt ≤ s.h.toInt * s.w.toInt :=
    mul_le_mul_of_nonneg_right hj.2 s.w_pos.le
  rw [Int.add_mul, Int.one_mul, Int.mul_comm s.h.toInt] at hend
  unfold Inside pixel size
  omega

lemma Inside.exists_pixel {a : ℤ} (h : s.Inside a) :
    ∃ i j, (0 ≤ i ∧ i < s.w.toInt) ∧ (0 ≤ j ∧ j < s.h.toInt) ∧ a = s.pixel i j := by
  refine ⟨a % s.w.toInt, a / s.w.toInt,
    ⟨Int.emod_nonneg a s.w_pos.ne', Int.emod_lt_of_pos a s.w_pos⟩,
    ⟨Int.ediv_nonneg h.1 s.w_pos.le, Int.ediv_lt_of_lt_mul s.w_pos ?_⟩, ?_⟩
  · rw [Int.mul_comm]
    exact h.2
  · rw [pixel, Int.mul_comm]
    exact (Int.mul_ediv_add_emod a s.w.toInt).symm

/-! ## The loops -/

/-- The loops over the rectangle do not leave the surface. -/
def InRange (s : Surface) (x y w h : Int32) : Prop :=
  ∀ j < h.toInt.toNat, ∀ i < w.toInt.toNat, s.Inside (s.index x y j i)

/-- The loops over the rectangle come to the index. -/
def Hit (s : Surface) (x y w h : Int32) (a : ℤ) : Prop :=
  ∃ j < h.toInt.toNat, ∃ i < w.toInt.toNat, a = s.index x y j i

/-- A rectangle on the surface. -/
lemma inRange_of_le (s : Surface) (hx : 0 ≤ x.toInt) (hy : 0 ≤ y.toInt)
    (hw : x.toInt + w.toInt ≤ s.w.toInt) (hh : y.toInt + h.toInt ≤ s.h.toInt) :
    s.InRange x y w h ∧ ∀ i j, 0 ≤ i → i < s.w.toInt → (s.Hit x y w h (s.pixel i j) ↔
      (x.toInt ≤ i ∧ i < x.toInt + w.toInt) ∧ y.toInt ≤ j ∧ j < y.toInt + h.toInt) := by
  have hlt := s.h.toInt_lt
  have hindex : ∀ j < h.toInt.toNat, ∀ i : ℕ,
      s.index x y j i = s.pixel (x.toInt + i) (y.toInt + j) := fun j hj i =>
    s.index_eq x hy (by omega) i
  refine ⟨fun j hj i hi => ?_, fun i j hi hlti => ⟨?_, ?_⟩⟩
  · rw [hindex j hj i]
    exact inside_pixel (by omega) (by omega)
  · rintro ⟨j', hj', i', hi', heq⟩
    rw [hindex j' hj' i', pixel_inj ⟨hi, hlti⟩ (by omega)] at heq
    omega
  · rintro ⟨hcol, hrow⟩
    refine ⟨(j - y.toInt).toNat, by omega, (i - x.toInt).toNat, by omega, ?_⟩
    rw [hindex _ (by omega), pixel_inj ⟨hi, hlti⟩ (by omega)]
    omega

/-- A rectangle that the loops go over without leaving the surface or coming to a column before it,
is on the surface. -/
lemma InRange.le (hin : s.InRange x y w h) (hx : 0 ≤ x.toInt) (hy : 0 ≤ y.toInt) (hw : 0 < w.toInt)
    (hh : 0 < h.toInt)
    (hcol : ∀ i j, (0 ≤ i ∧ i < s.w.toInt) → (0 ≤ j ∧ j < s.h.toInt) →
      s.Hit x y w h (s.pixel i j) → x.toInt ≤ i)
    (hright : x.toInt + w.toInt ≤ s.w.toInt ∨ 0 < x.toInt) :
    x.toInt + w.toInt ≤ s.w.toInt ∧ y.toInt + h.toInt ≤ s.h.toInt := by
  have hxlt := x.toInt_lt
  have hylt := y.toInt_lt
  have hwlt := s.w.toInt_lt
  have hhlt := s.h.toInt_lt
  constructor
  · by_contra hover
    have hpos : 0 < x.toInt := hright.resolve_left hover
    -- the first place of the first row that is beyond the right border
    have hi : (max x.toInt s.w.toInt - x.toInt).toNat < w.toInt.toNat := by omega
    have hindex := s.index_eq x hy (by omega : y.toInt + (0 : ℕ) < 2 ^ 31)
      (max x.toInt s.w.toInt - x.toInt).toNat
    obtain ⟨i, j, hirange, hjrange, heq⟩ := (hin 0 (by omega) _ hi).exists_pixel
    have hle := hcol i j hirange hjrange ⟨0, by omega, _, hi, heq.symm⟩
    rw [hindex, Nat.cast_zero, add_zero] at heq
    rcases le_or_gt s.w.toInt x.toInt with hout | hout
    · omega
    · have hnext : s.pixel 0 (y.toInt + 1) = s.pixel i j := by
        rw [← heq, pixel, pixel, Int.add_mul]
        omega
      have hzero := ((pixel_inj ⟨le_rfl, s.w_pos⟩ hirange).mp hnext).1
      omega
  · by_contra hover
    -- the first row that is below the lower border
    have hj : (max y.toInt s.h.toInt - y.toInt).toNat < h.toInt.toNat := by omega
    have hinside := hin _ hj 0 (by omega)
    rw [s.index_eq x hy (by omega)] at hinside
    have hrow : s.h.toInt * s.w.toInt ≤
        (y.toInt + ((max y.toInt s.h.toInt - y.toInt).toNat : ℤ)) * s.w.toInt :=
      mul_le_mul_of_nonneg_right (by omega) s.w_pos.le
    have hlt := hinside.2
    rw [pixel, size, Int.mul_comm s.w.toInt] at hlt
    omega

/-- The loops of `gfx_fill_rect`. -/
lemma paintsIf_fillRows (s : Surface) (x y w h : Int32) (color : UInt32) (px : Pixels) :
    PaintsIf (s.InRange x y w h) (s.Hit x y w h) (fun _ => color) px
    (s.fillRows x y w h color px) := by
  refine (PaintsIf.foldlM (fun j _ px => PaintsIf.foldlM (fun i _ px =>
    PaintsIf.update (fun _ => color) px (s.index x y j i)) px) px).congr ?_ fun a => ?_
  · simp only [List.mem_range, InRange]
  · simp only [List.mem_range, Hit]

lemma index_eq_add (s : Surface) (x y : Int32) (j i : ℕ) :
    s.index x y j i = s.index x y j 0 + i := by
  rw [index, index, Nat.cast_zero, add_zero]

/-- The loops of `ugfx_blit`, where what is copied to a pixel depends only on the pixel. -/
lemma paintsIf_copyPixels {dx dy sx sy w h : Int32} (spx v : Pixels)
    (hv : ∀ j < h.toInt.toNat, ∀ i < w.toInt.toNat,
      spx (src.index sx sy j i) = v (dst.index dx dy j i)) (px : Pixels) :
    PaintsIf (dst.InRange dx dy w h ∧ src.InRange sx sy w h) (dst.Hit dx dy w h) v px
      (copyPixels dst src dx dy sx sy w h spx px) := by
  have hpixel : ∀ j ∈ List.range h.toInt.toNat, ∀ i ∈ List.range w.toInt.toNat, ∀ px,
      PaintsIf (dst.Inside (dst.index dx dy j i) ∧ src.Inside (src.index sx sy j i))
        (· = dst.index dx dy j i) v px
        (if dst.Inside (dst.index dx dy j i) ∧ src.Inside (src.index sx sy j i) then
          some (Function.update px (dst.index dx dy j i) (spx (src.index sx sy j i)))
          else none) := by
    intro j hj i hi px
    rw [hv j (List.mem_range.mp hj) i (List.mem_range.mp hi)]
    exact PaintsIf.update v px _
  refine (PaintsIf.foldlM (fun j hj px => PaintsIf.foldlM (hpixel j hj) px) px).congr ?_ fun a => ?_
  · simp only [List.mem_range, InRange]
    constructor
    · exact fun hall => ⟨fun j hj i hi => (hall j hj i hi).1, fun j hj i hi => (hall j hj i hi).2⟩
    · exact fun hall j hj i hi => ⟨hall.1 j hj i hi, hall.2 j hj i hi⟩
  · simp only [List.mem_range, Hit]

/-- A `memcpy` copies the pixels of a row. -/
lemma paintsIf_memcpy {spx : Pixels} {a b n : ℤ} (hn : 0 < n) (px : Pixels) :
    PaintsIf (∀ i < n.toNat, dst.Inside (a + i) ∧ src.Inside (b + i))
      (fun c => ∃ i < n.toNat, c = a + i)
      (fun c => spx (c - a + b)) px (memcpy dst src spx a b n px) := by
  have hiff : ((0 ≤ a ∧ a + n ≤ dst.size) ∧ 0 ≤ b ∧ b + n ≤ src.size) ↔
      ∀ i < n.toNat, dst.Inside (a + i) ∧ src.Inside (b + i) := by
    unfold Inside
    constructor
    · intro h i hi
      omega
    · intro h
      have hfirst := h 0 (by omega)
      have hlast := h (n.toNat - 1) (by omega)
      omega
  refine ⟨fun h => ⟨_, if_pos (hiff.mpr h), fun c => ⟨?_, ?_⟩⟩, fun h => if_neg (hiff.not.mpr h)⟩
  · rintro ⟨i, hi, rfl⟩
    exact if_pos (by omega)
  · intro hnot
    refine if_neg fun hc => hnot ⟨(c - a).toNat, by omega, by omega⟩

/-- A row is copied the same at once or a pixel at a time. -/
lemma copyRows_eq (dst src : Surface) (dx dy sx sy : Int32) (hw : 0 < w.toInt) (h : Int32)
    (spx px : Pixels) :
    copyRows dst src dx dy sx sy w h spx px = copyPixels dst src dx dy sx sy w h spx px := by
  have hrow : ∀ (j : ℕ) (px : Pixels),
      memcpy dst src spx (dst.index dx dy j 0) (src.index sx sy j 0) w.toInt px =
        (List.range w.toInt.toNat).foldlM (fun px i =>
          if dst.Inside (dst.index dx dy j i) ∧ src.Inside (src.index sx sy j i) then
            some (Function.update px (dst.index dx dy j i) (spx (src.index sx sy j i)))
          else none) px := by
    intro j px
    have hpixel : ∀ i ∈ List.range w.toInt.toNat, ∀ px,
        PaintsIf (dst.Inside (dst.index dx dy j i) ∧ src.Inside (src.index sx sy j i))
          (· = dst.index dx dy j i)
          (fun c => spx (c - dst.index dx dy j 0 + src.index sx sy j 0)) px
          (if dst.Inside (dst.index dx dy j i) ∧ src.Inside (src.index sx sy j i) then
            some (Function.update px (dst.index dx dy j i) (spx (src.index sx sy j i)))
            else none) := by
      intro i hi px
      have hsource : src.index sx sy j i =
          dst.index dx dy j i - dst.index dx dy j 0 + src.index sx sy j 0 := by
        rw [index_eq_add dst, index_eq_add src]
        omega
      rw [hsource]
      exact PaintsIf.update _ px _
    refine (paintsIf_memcpy hw px).eq ((PaintsIf.foldlM hpixel px).congr ?_ fun a => ?_)
    · simp only [List.mem_range, ← index_eq_add]
    · simp only [List.mem_range, ← index_eq_add]
  unfold copyRows copyPixels
  simp only [hrow]

/-- What is drawn in one colour, by the indices that are stored to. -/
lemma draws_const_iff {Q : ℤ → ℤ → Prop} [∀ i j, Decidable (Q i j)] {P : ℤ → Prop} {ok : Prop}
    {color : UInt32} {run : Pixels → Option Pixels}
    (hrun : ∀ px, PaintsIf ok P (fun _ => color) px (run px)) :
    (∀ px, s.Draws Q (fun _ _ => color) px (run px)) ↔
      ok ∧ ∀ i j, (0 ≤ i ∧ i < s.w.toInt) → (0 ≤ j ∧ j < s.h.toInt) →
      (P (s.pixel i j) ↔ Q i j) := by
  constructor
  · intro h
    -- on a surface of another colour
    have hne : color + 1 ≠ color := by
      intro heq
      have hnat := congrArg UInt32.toNat heq
      rw [UInt32.toNat_add, UInt32.toNat_one] at hnat
      omega
    obtain ⟨px', hpx', hdraw⟩ := h fun _ => color + 1
    have hok : ok := by
      by_contra hnot
      rw [(hrun _).2 hnot] at hpx'
      exact absurd hpx' (by simp)
    refine ⟨hok, fun i j hi hj => ?_⟩
    obtain ⟨g, hg, hpaint⟩ := (hrun fun _ => color + 1).1 hok
    obtain rfl : px' = g := Option.some.inj (hpx'.symm.trans hg)
    have hpixel := hdraw i j hi.1 hi.2 hj.1 hj.2
    constructor
    · intro hP
      by_contra hQ
      rw [(hpaint _).1 hP, if_neg hQ] at hpixel
      exact hne hpixel.symm
    · intro hQ
      by_contra hP
      rw [(hpaint _).2 hP, if_pos hQ] at hpixel
      exact hne hpixel
  · rintro ⟨hok, hiff⟩ px
    obtain ⟨g, hg, hpaint⟩ := (hrun px).1 hok
    refine ⟨g, hg, fun i j hi hi' hj hj' => ?_⟩
    split_ifs with hQ
    · exact (hpaint _).1 ((hiff i j ⟨hi, hi'⟩ ⟨hj, hj'⟩).mpr hQ)
    · exact (hpaint _).2 fun hP => hQ ((hiff i j ⟨hi, hi'⟩ ⟨hj, hj'⟩).mp hP)

/-! ## Rectangles -/

/-- A part of the axis is to be drawn. -/
def Meets (size x n : ℤ) : Prop := ∃ p, Within size x n p

lemma meets_iff {size x n : ℤ} (hsize : 0 < size) : Meets size x n ↔ 0 < n ∧
    x < size ∧ 0 < x + n := by
  unfold Meets Within
  constructor
  · rintro ⟨p, hp⟩
    omega
  · exact fun h => ⟨max x 0, by omega⟩

/-- What `clip_rect` makes of an axis along which the rectangle is not empty. -/
lemma toInt_clipSpan {size x w x' w' : Int32} (hsize : 0 < size.toInt) (hw : 0 < w.toInt)
    (h : clipLow x w = (x', w')) :
    x'.toInt = max x.toInt 0 ∧ (clipHigh size x' w').toInt =
      if x.toInt + w.toInt < 2 ^ 31 then min (x.toInt + w.toInt) size.toInt - x'.toInt
          else w.toInt := by
  obtain ⟨hx', hw'⟩ := toInt_clipLow h
  have hle := x.le_toInt
  have hlt := w.toInt_lt
  refine ⟨hx', ?_⟩
  rw [toInt_clipHigh hsize (hx' ▸ le_max_right _ _), hw', hx']
  by_cases hneg : 0 ≤ x.toInt
  · rw [if_pos hneg, max_eq_left hneg]
    split_ifs <;> omega
  · rw [if_neg hneg, max_eq_right (by omega), if_pos (by omega), if_pos (by omega),
      if_pos (by omega)]
    omega

/-- What `clip_rect` leaves. -/
lemma clipRect_spec (s : Surface) (x y w h : Int32) :
    (s.clipRect x y w h = none ∧
        ¬(Meets s.w.toInt x.toInt w.toInt ∧ Meets s.h.toInt y.toInt h.toInt)) ∨
      ∃ x' y' w' h', s.clipRect x y w h = some (x', y', w', h') ∧
        (Meets s.w.toInt x.toInt w.toInt ∧ Meets s.h.toInt y.toInt h.toInt) ∧
        (x'.toInt = max x.toInt 0 ∧ w'.toInt = if x.toInt + w.toInt < 2 ^ 31 then
          min (x.toInt + w.toInt) s.w.toInt - x'.toInt else w.toInt) ∧
        y'.toInt = max y.toInt 0 ∧ h'.toInt = if y.toInt + h.toInt < 2 ^ 31 then
          min (y.toInt + h.toInt) s.h.toInt - y'.toInt else h.toInt := by
  have hsw := s.w_pos
  have hsh := s.h_pos
  rw [meets_iff hsw, meets_iff hsh, clipRect]
  by_cases hempty : w ≤ 0 ∨ h ≤ 0
  · rw [if_pos hempty]
    rw [Int32.le_iff_toInt_le, Int32.le_iff_toInt_le, Int32.toInt_zero] at hempty
    exact Or.inl ⟨rfl, by omega⟩
  rw [if_neg hempty]
  rw [Int32.le_iff_toInt_le, Int32.le_iff_toInt_le, Int32.toInt_zero, not_or, not_le,
    not_le] at hempty
  obtain ⟨x₁, w₁, hlow⟩ : ∃ x₁ w₁, clipLow x w = (x₁, w₁) := ⟨_, _, rfl⟩
  obtain ⟨y₁, h₁, hlow'⟩ : ∃ y₁ h₁, clipLow y h = (y₁, h₁) := ⟨_, _, rfl⟩
  obtain ⟨hx₁, hw₂⟩ := toInt_clipSpan hsw hempty.1 hlow
  obtain ⟨hy₁, hh₂⟩ := toInt_clipSpan hsh hempty.2 hlow'
  rw [hlow, hlow']
  dsimp only
  by_cases hout : s.w ≤ x₁ ∨ s.h ≤ y₁
  · rw [if_pos hout]
    rw [Int32.le_iff_toInt_le, Int32.le_iff_toInt_le, hx₁, hy₁] at hout
    exact Or.inl ⟨rfl, by omega⟩
  rw [if_neg hout]
  rw [Int32.le_iff_toInt_le, Int32.le_iff_toInt_le, hx₁, hy₁] at hout
  have hremains : (0 < clipHigh s.w x₁ w₁ ∧ 0 < clipHigh s.h y₁ h₁) ↔
      0 < x.toInt + w.toInt ∧ 0 < y.toInt + h.toInt := by
    rw [Int32.lt_iff_toInt_lt, Int32.lt_iff_toInt_lt, Int32.toInt_zero, hw₂, hh₂, hx₁, hy₁]
    refine and_congr ?_ ?_ <;> split_ifs <;> omega
  by_cases hpos : 0 < clipHigh s.w x₁ w₁ ∧ 0 < clipHigh s.h y₁ h₁
  · rw [if_pos hpos]
    have hpos' := hremains.mp hpos
    exact Or.inr ⟨_, _, _, _, rfl, by omega, ⟨hx₁, hw₂⟩, hy₁, hh₂⟩
  · rw [if_neg hpos]
    have hpos' := hremains.not.mp hpos
    exact Or.inl ⟨rfl, by omega⟩

/-- A rectangle is filled exactly if it has no pixel on the surface or its right and lower border
are numbers of 32 bits. -/
lemma fillRect_iff (s : Surface) (x y w h : Int32) (color : UInt32) :
    s.FillsExactly x y w h color (s.fillRect x y w h color) ↔
      (Meets s.w.toInt x.toInt w.toInt ∧ Meets s.h.toInt y.toInt h.toInt →
        x.toInt + w.toInt < 2 ^ 31 ∧ y.toInt + h.toInt < 2 ^ 31) := by
  have hsw := s.w_pos
  have hsh := s.h_pos
  have hswlt := s.w.toInt_lt
  have hshlt := s.h.toInt_lt
  have hwlt := w.toInt_lt
  have hhlt := h.toInt_lt
  rcases s.clipRect_spec x y w h with
    ⟨hnone, hmeets⟩ | ⟨x', y', w', h', hsome, hmeets, ⟨hx, hw⟩, hy, hh⟩
  · refine iff_of_true (fun px => ⟨px, ?_, fun i j _ _ _ _ => ?_⟩) fun h => absurd h hmeets
    · rw [fillRect, hnone]
    · exact (if_neg fun hQ => hmeets ⟨⟨i, hQ.1⟩, j, hQ.2⟩).symm
  have hrun : s.fillRect x y w h color = s.fillRows x' y' w' h' color := by
    funext px
    rw [fillRect, hsome]
  rw [FillsExactly, hrun, draws_const_iff (s.paintsIf_fillRows x' y' w' h' color)]
  rw [forall_prop_of_true hmeets]
  rw [meets_iff hsw, meets_iff hsh] at hmeets
  constructor
  · rintro ⟨hin, hiff⟩
    have hwpos : 0 < w'.toInt := by
      clear hh
      split_ifs at hw <;> omega
    have hhpos : 0 < h'.toInt := by
      clear hw
      split_ifs at hh <;> omega
    have hle := hin.le (by omega) (by omega) hwpos hhpos
      (fun i j hi hj hhit => by
        have hQ := (hiff i j hi hj).mp hhit
        clear hw hh
        unfold Within at hQ
        omega)
      (by
        clear hh
        split_ifs at hw <;> omega)
    constructor
    · clear hh
      split_ifs at hw <;> omega
    · clear hw
      split_ifs at hh <;> omega
  · rintro ⟨hxw, hyh⟩
    rw [if_pos hxw] at hw
    rw [if_pos hyh] at hh
    obtain ⟨hin, hiff⟩ := s.inRange_of_le (by omega : 0 ≤ x'.toInt) (by omega : 0 ≤ y'.toInt)
      (by omega : x'.toInt + w'.toInt ≤ s.w.toInt) (by omega : y'.toInt + h'.toInt ≤ s.h.toInt)
    refine ⟨hin, fun i j hi hj => ?_⟩
    rw [hiff i j hi.1 hi.2]
    unfold Within
    omega

/-! ## Copies -/

namespace Clipped

variable {dsize ssize d s n d' s' n' : ℤ}

lemma start_nonneg (h : Clipped dsize ssize d s n d' s' n') : 0 ≤ d' := h.start ▸ le_max_right d 0

lemma le_or_pos (h : Clipped dsize ssize d s n d' s' n') (hd : d < 2 ^ 31) (hn : n < 2 ^ 31)
    (hssize : ssize < 2 ^ 31) : d' + n' ≤ dsize ∨ 0 < d' ∧ d' = d := by
  have hstart := h.start
  have hlength := h.length
  have hlarge : sourceLength ssize s n < 2 ^ 31 := by
    unfold sourceLength
    split_ifs <;> omega
  split_ifs at hlength <;> omega

/-- Clipping leaves the place of the source that belongs to that of the destination, unless the
source begins outside or there is nothing to be copied. -/
lemma source_cases (h : Clipped dsize ssize d s n d' s' n') (hd : -2 ^ 31 ≤ d)
    (hssize : ssize < 2 ^ 31) (hs : s < ssize) :
    s' - d' = s - d ∨ (0 ≤ s' ∧ s' + n' ≤ ssize) ∨ ∀ p, ¬Covered dsize ssize d s n p := by
  have hstart := h.start
  have hlength := h.length
  have hpos := h.pos
  rcases h.source with heq | hwrap
  · by_cases hneg : 0 ≤ s
    · omega
    · rw [sourceLength, if_neg hneg] at hlength
      right; left
      split_ifs at hlength <;> omega
  · by_cases hneg : 0 ≤ s
    · right; right
      unfold Covered Within
      intro p hp
      omega
    · rw [sourceLength, if_neg hneg] at hlength
      split_ifs at hlength <;> omega

/-- When clipping an axis is right. -/
lemma fits_iff (h : Clipped dsize ssize d s n d' s' n') (hd : -2 ^ 31 ≤ d ∧ d < 2 ^ 31)
    (hn : n < 2 ^ 31) (hssize : 0 < ssize ∧ ssize < 2 ^ 31) (hdsize : 0 < dsize ∧ dsize < 2 ^ 31)
    (hs : s < ssize) (hs' : s' < 2 ^ 31) :
    Fits dsize ssize d s n ↔ ClippedRight dsize ssize d s n d' s' n' := by
  have hstart := h.start
  have hlength := h.length
  have hpos := h.pos
  have hsource := h.source
  constructor
  · rintro ⟨hneg, hfits⟩
    rw [sourceLength, if_pos hneg] at hlength
    refine ⟨?_, fun p => ?_, ?_⟩
    · split_ifs at hlength <;> omega
    · clear hsource
      unfold Covered Within
      split_ifs at hlength <;> omega
    · split_ifs at hlength <;> omega
  · rintro ⟨hle, hcovered, hright⟩
    have hfirst := (hcovered d').mpr (by omega)
    have hlast := (hcovered (d' + n' - 1)).mpr (by omega)
    unfold Covered Within at hfirst hlast
    unfold sourceLength at hlength
    unfold Fits
    split_ifs at hlength <;> omega

end Clipped

section

variable {dx dy sx sy sw sh dx' dy' sx' sy' w' h' : Int32}

/-- The pixels of a copy that is clipped right. -/
lemma copiesExactly_of_right (hdx : 0 ≤ dx'.toInt) (hdy : 0 ≤ dy'.toInt) (hw : 0 < w'.toInt)
    (hh : 0 < h'.toInt)
    (hx : ClippedRight dst.w.toInt src.w.toInt dx.toInt sx.toInt sw.toInt dx'.toInt
      sx'.toInt w'.toInt)
    (hy : ClippedRight dst.h.toInt src.h.toInt dy.toInt sy.toInt sh.toInt dy'.toInt
      sy'.toInt h'.toInt) :
    CopiesExactly dst dx dy src sx sy sw sh (copyPixels dst src dx' dy' sx' sy' w' h') := by
  obtain ⟨hlex, hcovx, hsourcex⟩ := hx
  obtain ⟨hley, hcovy, hsourcey⟩ := hy
  obtain ⟨hin, hhit⟩ := dst.inRange_of_le hdx hdy hlex hley
  have hsrc : (0 ≤ sx'.toInt ∧ sx'.toInt + w'.toInt ≤ src.w.toInt) ∧
      0 ≤ sy'.toInt ∧ sy'.toInt + h'.toInt ≤ src.h.toInt := by
    have hleft := (hcovx dx'.toInt).mpr (by omega)
    have hright := (hcovx (dx'.toInt + w'.toInt - 1)).mpr (by omega)
    have htop := (hcovy dy'.toInt).mpr (by omega)
    have hbottom := (hcovy (dy'.toInt + h'.toInt - 1)).mpr (by omega)
    unfold Covered Within at hleft hright htop hbottom
    omega
  obtain ⟨hin', -⟩ := src.inRange_of_le hsrc.1.1 hsrc.2.1 hsrc.1.2 hsrc.2.2
  have hhlt := src.h.toInt_lt
  have hhlt' := dst.h.toInt_lt
  intro spx px
  -- what is copied to an index
  have hrun : PaintsIf (dst.InRange dx' dy' w' h' ∧ src.InRange sx' sy' w' h')
    (dst.Hit dx' dy' w' h')
      (fun a => spx (src.pixel (a % dst.w.toInt - dx.toInt + sx.toInt)
        (a / dst.w.toInt - dy.toInt + sy.toInt))) px
        (copyPixels dst src dx' dy' sx' sy' w' h' spx px) := by
    refine paintsIf_copyPixels spx _ (fun j hj i hi => ?_) px
    rw [src.index_eq sx' hsrc.2.1 (by omega), dst.index_eq dx' hdy (by omega),
      dst.pixel_emod (by omega), dst.pixel_ediv (by omega)]
    congr 2 <;> omega
  obtain ⟨px', hpx', hpaint⟩ := hrun.1 ⟨hin, hin'⟩
  refine ⟨px', hpx', fun i j hi hi' hj hj' => ?_⟩
  have hiff := (hhit i j hi hi').trans (and_congr (hcovx i) (hcovy j)).symm
  dsimp only
  split_ifs with hQ
  · rw [(hpaint _).1 (hiff.mpr hQ)]
    dsimp only
    rw [dst.pixel_emod ⟨hi, hi'⟩, dst.pixel_ediv ⟨hi, hi'⟩]
  · exact (hpaint _).2 fun hP => hQ (hiff.mp hP)

/-- A copy that is exact is clipped right. -/
lemma right_of_copiesExactly (hdx : dx'.toInt = max dx.toInt 0) (hdy : 0 ≤ dy'.toInt)
    (hw : 0 < w'.toInt) (hh : 0 < h'.toInt)
    (hlex : dx'.toInt + w'.toInt ≤ dst.w.toInt ∨ 0 < dx'.toInt ∧ dx'.toInt = dx.toInt)
    (hx : sx'.toInt - dx'.toInt = sx.toInt - dx.toInt ∨
      (0 ≤ sx'.toInt ∧ sx'.toInt + w'.toInt ≤ src.w.toInt) ∨
      ∀ p, ¬Covered dst.w.toInt src.w.toInt dx.toInt sx.toInt sw.toInt p)
    (hy : sy'.toInt - dy'.toInt = sy.toInt - dy.toInt ∨
      (0 ≤ sy'.toInt ∧ sy'.toInt + h'.toInt ≤ src.h.toInt) ∨
      ∀ p, ¬Covered dst.h.toInt src.h.toInt dy.toInt sy.toInt sh.toInt p)
    (h : CopiesExactly dst dx dy src sx sy sw sh (copyPixels dst src dx' dy' sx' sy' w' h')) :
    ClippedRight dst.w.toInt src.w.toInt dx.toInt sx.toInt sw.toInt dx'.toInt sx'.toInt w'.toInt ∧
      ClippedRight dst.h.toInt src.h.toInt dy.toInt sy.toInt sh.toInt dy'.toInt
      sy'.toInt h'.toInt := by
  -- a source of one colour shows where there are copies
  obtain ⟨⟨hin, hin'⟩, hiff⟩ := (draws_const_iff
    (paintsIf_copyPixels (fun _ => 0) (fun _ => 0) fun _ _ _ _ => rfl)).mp (h fun _ => 0)
  have hle := hin.le (by omega) hdy hw hh (fun i j hi hj hhit => by
      have hQ := (hiff i j hi hj).mp hhit
      unfold Covered Within at hQ
      omega) (hlex.imp_right And.left)
  obtain ⟨-, hhit⟩ := dst.inRange_of_le (by omega) hdy hle.1 hle.2
  have hrect : ∀ i j, (0 ≤ i ∧ i < dst.w.toInt) → (0 ≤ j ∧ j < dst.h.toInt) →
      (Covered dst.w.toInt src.w.toInt dx.toInt sx.toInt sw.toInt i ∧
          Covered dst.h.toInt src.h.toInt dy.toInt sy.toInt sh.toInt j ↔
        (dx'.toInt ≤ i ∧ i < dx'.toInt + w'.toInt) ∧ dy'.toInt ≤ j ∧ j < dy'.toInt + h'.toInt) :=
    fun i j hi hj => (hiff i j hi hj).symm.trans (hhit i j hi.1 hi.2)
  obtain ⟨hcovx, hcovy⟩ := (hrect dx'.toInt dy'.toInt (by omega) (by omega)).mpr (by omega)
  -- a source with one pixel of another colour shows where the first one is copied from
  have hsource : src.pixel (dx'.toInt - dx.toInt + sx.toInt) (dy'.toInt - dy.toInt + sy.toInt) =
      src.index sx' sy' 0 0 := by
    have hhlt := dst.h.toInt_lt
    have hrun : PaintsIf (dst.InRange dx' dy' w' h' ∧ src.InRange sx' sy' w' h')
        (dst.Hit dx' dy' w' h')
        (fun a => if src.index sx' sy' (a / dst.w.toInt - dy'.toInt).toNat
          (a % dst.w.toInt - dx'.toInt).toNat = src.index sx' sy' 0 0 then 1 else 0) (fun _ => 0)
        (copyPixels dst src dx' dy' sx' sy' w' h'
          (fun a => if a = src.index sx' sy' 0 0 then 1 else 0) fun _ => 0) := by
      refine paintsIf_copyPixels _ _ (fun j hj i hi => ?_) _
      rw [dst.index_eq dx' hdy (by omega), dst.pixel_emod (by omega), dst.pixel_ediv (by omega),
        add_sub_cancel_left, add_sub_cancel_left, Int.toNat_natCast, Int.toNat_natCast]
    obtain ⟨px', hpx', hpaint⟩ := hrun.1 ⟨hin, hin'⟩
    obtain ⟨px'', hpx'', hdraw⟩ :=
      h (fun a => if a = src.index sx' sy' 0 0 then 1 else 0) fun _ => 0
    obtain rfl : px'' = px' := Option.some.inj (hpx''.symm.trans hpx')
    have hcopied := hdraw dx'.toInt dy'.toInt (by omega) (by omega) (by omega) (by omega)
    have hpainted := (hpaint (dst.pixel dx'.toInt dy'.toInt)).1
      ((hhit _ _ (by omega) (by omega)).mpr (by omega))
    dsimp only at hcopied hpainted
    rw [dst.pixel_emod (by omega), dst.pixel_ediv (by omega), Int.sub_self, Int.sub_self,
      Int.toNat_zero, if_pos rfl] at hpainted
    rw [hpainted, if_pos ⟨hcovx, hcovy⟩] at hcopied
    by_contra hne
    rw [if_neg hne] at hcopied
    exact absurd hcopied (by decide)
  have hsx : 0 ≤ sx'.toInt ∧ sx'.toInt < src.w.toInt := by
    rcases hx with heq | hrange | hnone
    · unfold Covered Within at hcovx
      omega
    · omega
    · exact absurd hcovx (hnone _)
  have hsy : 0 ≤ sy'.toInt := by
    rcases hy with heq | hrange | hnone
    · unfold Covered Within at hcovy
      omega
    · exact hrange.1
    · exact absurd hcovy (hnone _)
  have hsylt := sy'.toInt_lt
  rw [src.index_eq sx' hsy (by omega), Nat.cast_zero, add_zero, add_zero,
    pixel_inj ⟨hcovx.2.1.1, hcovx.2.1.2⟩ hsx] at hsource
  refine ⟨⟨hle.1, fun p => ⟨fun hp => ?_, fun hp => ?_⟩, by omega⟩,
    ⟨hle.2, fun p => ⟨fun hp => ?_, fun hp => ?_⟩, by omega⟩⟩
  · exact ((hrect p dy'.toInt hp.1.1 (by omega)).mp ⟨hp, hcovy⟩).1
  · exact ((hrect p dy'.toInt (by omega) (by omega)).mpr (by omega)).1
  · exact ((hrect dx'.toInt p (by omega) hp.1.1).mp ⟨hcovx, hp⟩).2
  · exact ((hrect dx'.toInt p (by omega) (by omega)).mpr (by omega)).2

/-- `ugfx_blit_rect` clips each axis on its own. -/
lemma ugfxBlitRect_eq (dst : Surface) (dx dy : Int32) (src : Surface) (sx sy sw sh : Int32)
    (spx px : Pixels) :
    ugfxBlitRect dst dx dy src sx sy sw sh spx px =
      match clipAxis dst.w src.w dx sx sw, clipAxis dst.h src.h dy sy sh with
      | some (dx, sx, sw), some (dy, sy, sh) => copyPixels dst src dx dy sx sy sw sh spx px
      | _, _ => some px := by
  unfold ugfxBlitRect clipAxis
  generalize clipLow sx sw = p
  generalize clipLow sy sh = q
  obtain ⟨sx, sw⟩ := p
  obtain ⟨sy, sh⟩ := q
  dsimp only
  by_cases hx : src.w ≤ sx ∨ sw ≤ 0
  · rw [if_pos (hx.elim Or.inl fun h => Or.inr (Or.inr (Or.inl h))), if_pos hx]
  by_cases hy : src.h ≤ sy ∨ sh ≤ 0
  · rw [if_pos (hy.elim (fun h => Or.inr (Or.inl h)) fun h =>
      Or.inr (Or.inr (Or.inr h))), if_pos hy]
    split_ifs <;> rfl
  have hboth : ¬(src.w ≤ sx ∨ src.h ≤ sy ∨ sw ≤ 0 ∨ sh ≤ 0) := by
    rintro (h | h | h | h)
    · exact hx (Or.inl h)
    · exact hy (Or.inl h)
    · exact hx (Or.inr h)
    · exact hy (Or.inr h)
  rw [if_neg hboth, if_neg hx, if_neg hy]
  generalize clipShift dx sx (clipHigh src.w sx sw) = p
  generalize clipShift dy sy (clipHigh src.h sy sh) = q
  obtain ⟨dx, sx, sw⟩ := p
  obtain ⟨dy, sy, sh⟩ := q
  dsimp only
  by_cases hx : clipHigh dst.w dx sw ≤ 0
  · rw [if_pos (Or.inl hx), if_pos hx]
  by_cases hy : clipHigh dst.h dy sh ≤ 0
  · rw [if_pos (Or.inr hy), if_pos hy, if_neg hx]
  rw [if_neg (not_or.mpr ⟨hx, hy⟩), if_neg hx, if_neg hy]

end

/-- `gfx_blit` copies what `ugfx_blit` does. -/
lemma gfxBlit_eq (dst : Surface) (dx dy : Int32) (src : Surface) :
    gfxBlit dst dx dy src = ugfxBlit dst dx dy src := by
  funext spx px
  unfold gfxBlit ugfxBlit
  generalize clipShift dx 0 src.w = p
  generalize clipShift dy 0 src.h = q
  obtain ⟨dx, sx, w⟩ := p
  obtain ⟨dy, sy, h⟩ := q
  dsimp only
  by_cases hempty : clipHigh dst.w dx w ≤ 0 ∨ clipHigh dst.h dy h ≤ 0
  · rw [if_pos hempty, if_pos hempty]
  · rw [if_neg hempty, if_neg hempty]
    refine copyRows_eq dst src dx dy sx sy ?_ _ spx px
    have hpos := (not_or.mp hempty).1
    rwa [Int32.le_iff_toInt_le, Int32.toInt_zero, not_le] at hpos

lemma clipHigh_self (w : Int32) : clipHigh w 0 w = w := by
  rw [clipHigh, Int32.zero_add, if_neg Int32.lt_irrefl]

lemma clipLow_zero (w : Int32) : clipLow 0 w = (0, w) := if_neg Int32.lt_irrefl

/-- `ugfx_blit` copies all of the source. -/
lemma ugfxBlit_eq (dst : Surface) (dx dy : Int32) (src : Surface) :
    ugfxBlit dst dx dy src = ugfxBlitRect dst dx dy src 0 0 src.w src.h := by
  have hempty : ¬(src.w ≤ 0 ∨ src.h ≤ 0 ∨ src.w ≤ 0 ∨ src.h ≤ 0) := by
    simp only [Int32.le_iff_toInt_le, Int32.toInt_zero]
    have hw := src.w_pos
    have hh := src.h_pos
    omega
  funext spx px
  unfold ugfxBlit ugfxBlitRect
  rw [clipLow_zero, clipLow_zero]
  dsimp only
  rw [if_neg hempty, clipHigh_self, clipHigh_self]

/-- A copy of nothing is exact where nothing is to be copied. -/
lemma copiesExactly_nothing_iff (dst : Surface) (dx dy : Int32) (src : Surface)
    (sx sy sw sh : Int32) :
    CopiesExactly dst dx dy src sx sy sw sh (fun _ px => some px) ↔
      ¬((∃ i, Covered dst.w.toInt src.w.toInt dx.toInt sx.toInt sw.toInt i) ∧
        ∃ j, Covered dst.h.toInt src.h.toInt dy.toInt sy.toInt sh.toInt j) := by
  constructor
  · rintro h ⟨⟨i, hi⟩, j, hj⟩
    obtain ⟨px', hpx', hdraw⟩ := h (fun _ => 1) fun _ => 0
    obtain rfl := Option.some.inj hpx'
    have hpixel := hdraw i j hi.1.1.1 hi.1.1.2 hj.1.1.1 hj.1.1.2
    dsimp only at hpixel
    rw [if_pos ⟨hi, hj⟩] at hpixel
    exact absurd hpixel (by decide)
  · intro hnone spx px
    exact ⟨px, rfl, fun i j _ _ _ _ => (if_neg fun hQ => hnone ⟨⟨i, hQ.1⟩, j, hQ.2⟩).symm⟩

/-- `ugfx_blit_rect` is exact exactly if it clips right. -/
lemma ugfxBlitRect_iff (dst : Surface) (dx dy : Int32) (src : Surface) (sx sy sw sh : Int32) :
    CopiesExactly dst dx dy src sx sy sw sh (ugfxBlitRect dst dx dy src sx sy sw sh) ↔
      ClipsRight dst dx dy src sx sy sw sh := by
  have hrun := ugfxBlitRect_eq dst dx dy src sx sy sw sh
  have hnothing : ¬(Remains dst.w.toInt src.w.toInt dx.toInt sx.toInt sw.toInt ∧
        Remains dst.h.toInt src.h.toInt dy.toInt sy.toInt sh.toInt) →
      ugfxBlitRect dst dx dy src sx sy sw sh = (fun _ px => some px) →
      (CopiesExactly dst dx dy src sx sy sw sh (ugfxBlitRect dst dx dy src sx sy sw sh) ↔
        ClipsRight dst dx dy src sx sy sw sh) := by
    intro hremains heq
    rw [heq, copiesExactly_nothing_iff, ClipsRight]
    tauto
  rcases clipAxis_spec dst.w_pos src.w_pos dx sx sw with
    ⟨hx, hremains⟩ | ⟨dx', sx', w', hx, hremx, hclipx⟩
  · refine hnothing (fun h => hremains h.1) (funext₂ fun spx px => ?_)
    rw [hrun, hx]
  rcases clipAxis_spec dst.h_pos src.h_pos dy sy sh with
    ⟨hy, hremains⟩ | ⟨dy', sy', h', hy, hremy, hclipy⟩
  · refine hnothing (fun h => hremains h.2) (funext₂ fun spx px => ?_)
    rw [hrun, hx, hy]
  have hcopy : ugfxBlitRect dst dx dy src sx sy sw sh =
      copyPixels dst src dx' dy' sx' sy' w' h' := by
    funext spx px
    rw [hrun, hx, hy]
  have hfitsx := hclipx.fits_iff ⟨dx.le_toInt, dx.toInt_lt⟩ sw.toInt_lt ⟨src.w_pos, src.w.toInt_lt⟩
    ⟨dst.w_pos, dst.w.toInt_lt⟩ hremx.1 sx'.toInt_lt
  have hfitsy := hclipy.fits_iff ⟨dy.le_toInt, dy.toInt_lt⟩ sh.toInt_lt ⟨src.h_pos, src.h.toInt_lt⟩
    ⟨dst.h_pos, dst.h.toInt_lt⟩ hremy.1 sy'.toInt_lt
  rw [hcopy]
  constructor
  · intro h
    obtain ⟨hrightx, hrighty⟩ := right_of_copiesExactly hclipx.start hclipy.start_nonneg hclipx.pos
      hclipy.pos (hclipx.le_or_pos dx.toInt_lt sw.toInt_lt src.w.toInt_lt)
      (hclipx.source_cases dx.le_toInt src.w.toInt_lt hremx.1)
      (hclipy.source_cases dy.le_toInt src.h.toInt_lt hremy.1) h
    exact ⟨fun _ => ⟨hfitsx.mpr hrightx, hfitsy.mpr hrighty⟩, fun _ => ⟨hremx, hremy⟩⟩
  · intro h
    obtain ⟨hrightx, hrighty⟩ := h.1 ⟨hremx, hremy⟩
    exact copiesExactly_of_right hclipx.start_nonneg hclipy.start_nonneg hclipx.pos hclipy.pos
      (hfitsx.mp hrightx) (hfitsy.mp hrighty)

/-- The whole of a surface. -/
lemma clipsRight_whole_iff (dst : Surface) (dx dy : Int32) (src : Surface) :
    ClipsRight dst dx dy src 0 0 src.w src.h ↔
      (Reaches dst.w.toInt src.w.toInt dx.toInt ∧ Reaches dst.h.toInt src.h.toInt dy.toInt →
        dx.toInt + src.w.toInt < 2 ^ 31 ∧ dy.toInt + src.h.toInt < 2 ^ 31) := by
  have haxis : ∀ dsize ssize d : ℤ, 0 < ssize → ssize < 2 ^ 31 →
      (Remains dsize ssize d 0 ssize ↔ Reaches dsize ssize d) ∧
        (Fits dsize ssize d 0 ssize ↔ d + ssize < 2 ^ 31) ∧
        ((∃ p, Covered dsize ssize d 0 ssize p) → Reaches dsize ssize d) := by
    intro dsize ssize d hpos hlt
    have hlength : sourceLength ssize 0 ssize = ssize := by
      rw [sourceLength, if_pos le_rfl, if_pos (by omega)]
      omega
    unfold Remains Fits Reaches
    rw [hlength]
    refine ⟨by omega, by omega, ?_⟩
    rintro ⟨p, hp⟩
    unfold Covered Within at hp
    omega
  obtain ⟨hremx, hfitx, hcovx⟩ := haxis dst.w.toInt _ dx.toInt src.w_pos src.w.toInt_lt
  obtain ⟨hremy, hfity, hcovy⟩ := haxis dst.h.toInt _ dy.toInt src.h_pos src.h.toInt_lt
  rw [ClipsRight, Int32.toInt_zero, hremx, hremy, hfitx, hfity]
  exact and_iff_left fun hcov => ⟨hcovx hcov.1, hcovy hcov.2⟩

/-- Clipped drawing is exact exactly if no sum of the clipping wraps around where it matters, and a
copied part of the source does not begin outside; the kernel and the user version do the same. -/
theorem draws_iff (dst src : Surface) (dx dy sx sy w h : Int32) (color : UInt32) :
    (dst.FillsExactly dx dy w h color (gfxFillRect dst dx dy w h color) ∧
        dst.FillsExactly dx dy w h color (ugfxFillRect dst dx dy w h color) ↔
      (Meets dst.w.toInt dx.toInt w.toInt ∧ Meets dst.h.toInt dy.toInt h.toInt →
        dx.toInt + w.toInt < 2 ^ 31 ∧ dy.toInt + h.toInt < 2 ^ 31)) ∧
    (CopiesExactly dst dx dy src 0 0 src.w src.h (gfxBlit dst dx dy src) ∧
        CopiesExactly dst dx dy src 0 0 src.w src.h (ugfxBlit dst dx dy src) ↔
      (Reaches dst.w.toInt src.w.toInt dx.toInt ∧ Reaches dst.h.toInt src.h.toInt dy.toInt →
        dx.toInt + src.w.toInt < 2 ^ 31 ∧ dy.toInt + src.h.toInt < 2 ^ 31)) ∧
    (CopiesExactly dst dx dy src sx sy w h (ugfxBlitRect dst dx dy src sx sy w h) ↔
      ClipsRight dst dx dy src sx sy w h) ∧
    gfxFillRect dst dx dy w h color = ugfxFillRect dst dx dy w h color ∧
    gfxBlit dst dx dy src = ugfxBlit dst dx dy src := by
  refine ⟨?_, ?_, ugfxBlitRect_iff dst dx dy src sx sy w h, rfl, gfxBlit_eq dst dx dy src⟩
  · rw [gfxFillRect, ugfxFillRect, and_self]
    exact dst.fillRect_iff dx dy w h color
  · rw [gfxBlit_eq, and_self, ugfxBlit_eq, ugfxBlitRect_iff]
    exact clipsRight_whole_iff dst dx dy src

/-- A rectangle that is too wide is filled beyond the surface, and a part of the source that begins
outside is copied to the wrong place. -/
theorem not_draws_of_outside :
    ¬FillsExactly ⟨4, 1, by decide, by decide⟩ 1 0 0x7FFFFFFF 1 0xFFFFFF
        (gfxFillRect ⟨4, 1, by decide, by decide⟩ 1 0 0x7FFFFFFF 1 0xFFFFFF) ∧
      ¬CopiesExactly ⟨2, 1, by decide, by decide⟩ 0 0 ⟨2, 1, by decide, by decide⟩ (-1) 0 2 1
        (ugfxBlitRect ⟨2, 1, by decide, by decide⟩ 0 0 ⟨2, 1, by decide, by decide⟩
        (-1) 0 2 1) := by
  constructor
  · intro h
    have hsum := (fillRect_iff _ _ _ _ _ _).mp h
      ⟨⟨1, by decide⟩, 0, by decide⟩
    exact absurd hsum.1 (by decide)
  · intro h
    have hfits := ((ugfxBlitRect_iff _ _ _ _ _ _ _ _).mp h).1
      ⟨⟨by decide, by decide, by decide, by decide⟩, ⟨by decide, by decide, by decide, by decide⟩⟩
    exact absurd hfits.1.1 (by decide)

end Surface

end CoolFrost
